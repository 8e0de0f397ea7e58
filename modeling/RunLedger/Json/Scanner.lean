import RunLedger.Json.Document
import RunLedger.Text.Hex
import RunLedger.Text.Utf8

/-!
Taking a JSON text apart. The scanner goes once from left to right over the decoded characters and
returns what it read together with the rest; it looks only at the form of the text and leaves every
judgement about values to the readers of a `Document`.
-/

set_option autoImplicit false

namespace RunLedger.Json

/-- Decoded characters, with `none` for each ill-formed place. -/
abbrev Input := List (Option Char)

/-- The blanks that may stand between the parts of a text. -/
def isBlankPlace : Option Char → Bool
  | some c => c = ' ' || c = '\n' || c = '\t' || c = '\r'
  | none => false

def trimBlanks (cs : Input) : Input := cs.dropWhile isBlankPlace

def after? : List Char → Input → Option Input
  | [], cs => some cs
  | w :: ws, some c :: cs => if c = w then after? ws cs else none
  | _ :: _, _ => none

/-- Whether a place of an input holds a digit. -/
def isDigitPlace (c : Option Char) : Bool := c.any Decimal.isDigit

def leadingDigits (cs : Input) : List Char := (cs.takeWhile isDigitPlace).filterMap id

def afterDigits (cs : Input) : Input := cs.dropWhile isDigitPlace

/-- A part of a text between quotes: a character, a unit of sixteen bits given by its number, or an
ill-formed place. -/
inductive Piece where
  | char (c : Char)
  | unit (n : Nat)
  | ill
  deriving DecidableEq, Repr

namespace Piece

def unescape? (c : Char) : Option Char :=
  if c = '"' then some '"'
  else if c = '\\' then some '\\'
  else if c = '/' then some '/'
  else if c = 'b' then some '\x08'
  else if c = 'f' then some '\x0c'
  else if c = 'n' then some '\n'
  else if c = 'r' then some '\r'
  else if c = 't' then some '\t'
  else none

/-- Reads up to the closing quote. A control or an unknown escape is refused. -/
def scan : Input → Option (List Piece × Input)
  | [] => none
  | none :: cs => (scan cs).map fun (ps, rest) => (.ill :: ps, rest)
  | some c :: cs =>
    if c = '"' then some ([], cs)
    else if c = '\\' then
      match cs with
      | some 'u' :: some h₁ :: some h₂ :: some h₃ :: some h₄ :: cs' =>
        match Text.Hex.number? [h₁, h₂, h₃, h₄], scan cs' with
        | some n, some (ps, rest) => some (.unit n :: ps, rest)
        | _, _ => none
      | some e :: cs' =>
        match unescape? e, scan cs' with
        | some x, some (ps, rest) => some (.char x :: ps, rest)
        | _, _ => none
      | _ => none
    else if c.toNat < 0x20 then none
    else (scan cs).map fun (ps, rest) => (.char c :: ps, rest)

/-- Whether a number is the first unit of a surrogate pair. -/
def isHighUnit (n : Nat) : Bool := 0xD800 ≤ n && n ≤ 0xDBFF

/-- Whether a number is the second unit of a surrogate pair. -/
def isLowUnit (n : Nat) : Bool := 0xDC00 ≤ n && n ≤ 0xDFFF

/-- The characters of a text. A high unit and the low unit after it make one character; a unit that
is left alone makes none, and then the text has no value. -/
def characters? : List Piece → Option (List Char)
  | [] => some []
  | .ill :: _ => none
  | .char c :: ps => (characters? ps).map (c :: ·)
  | .unit n :: ps =>
    if isLowUnit n then none
    else if isHighUnit n then
      match ps with
      | .unit m :: ps' =>
        if isLowUnit m then
          (characters? ps').map (Char.ofNat (0x10000 + (n - 0xD800) * 0x400 + (m - 0xDC00)) :: ·)
        else none
      | _ => none
    else (characters? ps).map (Char.ofNat n :: ·)

def text? (ps : List Piece) : Option String := (characters? ps).map String.ofList

end Piece

/-- The digits before the point: a single zero, or digits that do not begin with one. -/
def Numeral.scanWhole? : Input → Option (List Char × Input)
  | some '0' :: cs => if (leadingDigits cs).isEmpty then some (['0'], cs) else none
  | cs => if (leadingDigits cs).isEmpty then none else some (leadingDigits cs, afterDigits cs)

def Numeral.scanFraction? : Input → Option (List Char × Input)
  | some '.' :: cs =>
    if (leadingDigits cs).isEmpty then none else some (leadingDigits cs, afterDigits cs)
  | cs => some ([], cs)

def Numeral.scanExponent? : Input → Option (Option (Bool × List Char) × Input)
  | some e :: cs =>
    if e = 'e' ∨ e = 'E' then
      let (down, cs') := match cs with
        | some '-' :: r => (true, r)
        | some '+' :: r => (false, r)
        | _ => (false, cs)
      if (leadingDigits cs').isEmpty then none
      else some (some (down, leadingDigits cs'), afterDigits cs')
    else some (none, some e :: cs)
  | cs => some (none, cs)

def Numeral.scan (cs : Input) : Option (Numeral × Input) := do
  let (negative, cs) := match cs with
    | some '-' :: r => (true, r)
    | _ => (false, cs)
  let (whole, cs) ← scanWhole? cs
  let (fraction, cs) ← scanFraction? cs
  let (exponent, cs) ← scanExponent? cs
  some (⟨negative, whole, fraction, exponent⟩, cs)

namespace Document

mutual
/-- Reads one value, after blanks. The first argument bounds the number of steps. -/
def scan : Nat → Input → Option (Document × Input)
  | 0, _ => none
  | fuel + 1, cs =>
    match trimBlanks cs with
    | some 'n' :: r => (after? ['u', 'l', 'l'] r).map (.null, ·)
    | some 't' :: r => (after? ['r', 'u', 'e'] r).map (.bool true, ·)
    | some 'f' :: r => (after? ['a', 'l', 's', 'e'] r).map (.bool false, ·)
    | some '"' :: r => (Piece.scan r).map fun (ps, rest) => (.text (Piece.text? ps), rest)
    | some '[' :: r =>
      match trimBlanks r with
      | some ']' :: rest => some (.list [], rest)
      | r' => (scanItems fuel r').map fun (ds, rest) => (.list ds, rest)
    | some '\x7b' :: r =>
      match trimBlanks r with
      | some '\x7d' :: rest => some (.record [], rest)
      | r' => (scanFields fuel r').map fun (fs, rest) => (.record fs, rest)
    | r => (Numeral.scan r).map fun (n, rest) => (.number n.value?, rest)

/-- Reads one or more items and the end of the list. -/
def scanItems : Nat → Input → Option (List Document × Input)
  | 0, _ => none
  | fuel + 1, cs =>
    match scan fuel cs with
    | none => none
    | some (d, r) =>
      match trimBlanks r with
      | some ',' :: r' => (scanItems fuel r').map fun (ds, rest) => (d :: ds, rest)
      | some ']' :: rest => some ([d], rest)
      | _ => none

/-- Reads one or more fields and the end of the record. -/
def scanFields : Nat → Input → Option (List (Option String × Document) × Input)
  | 0, _ => none
  | fuel + 1, cs =>
    match trimBlanks cs with
    | some '"' :: r =>
      match Piece.scan r with
      | none => none
      | some (key, r) =>
        match trimBlanks r with
        | some ':' :: r =>
          match scan fuel r with
          | none => none
          | some (d, r) =>
            match trimBlanks r with
            | some ',' :: r' =>
              (scanFields fuel r').map fun (fs, rest) => ((Piece.text? key, d) :: fs, rest)
            | some '\x7d' :: rest => some ([(Piece.text? key, d)], rest)
            | _ => none
        | _ => none
    | _ => none
end

/-- The document of a whole text: one value with blanks around it and nothing else. Each value,
item and field takes at least one character, so the number of steps suffices. -/
def parse? (cs : Input) : Option Document :=
  match scan (2 * cs.length + 2) cs with
  | some (d, rest) => if rest.all isBlankPlace then some d else none
  | none => none

def readText? {α : Type} (read : Reader α) (cs : Input) : Option α :=
  (parse? cs).bind (read nestingLimit)

def readString? {α : Type} (read : Reader α) (s : String) : Option α :=
  readText? read (Text.Utf8.ofString s)

end Document

/-- The value that a string is the text of. -/
def Value.parse? (s : String) : Option Value :=
  Document.readString? Value.read s

end RunLedger.Json
