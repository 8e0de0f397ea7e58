import RunLedger.Json.Relaxed.Basic

/-!
Reading JSON that is written by hand. Comments and all kinds of blanks may stand between the parts
of a text, a comma may stand behind the last item or field, and a text ends at the first character
with the code zero.
-/

set_option autoImplicit false

namespace RunLedger.Json.Relaxed

/-- Whether a character ends a line. -/
def isLineEnd (c : Char) : Bool := ['\n', '\r', '\u2028', '\u2029'].contains c

def isBlank (c : Char) : Bool :=
  isLineEnd c || ('\u2000' ≤ c && c ≤ '\u200a') || ['\t', '\x0b', '\x0c', ' ', '\u00a0',
    '\u1680', '\u202f', '\u205f', '\u3000', '\ufeff'].contains c

/-- What is skipped between the parts of a text. -/
inductive Skipped where
  | blanks
  /-- A comment up to the end of a line. -/
  | line
  /-- A comment between marks. -/
  | block (afterStar : Bool)

/-- The rest of a text after what is skipped; none when a comment between marks does not end. -/
def skip : Skipped → List Char → Option (List Char)
  | .block _, [] => none
  | _, [] => some []
  | .blanks, '/' :: '/' :: cs => skip .line cs
  | .blanks, '/' :: '*' :: cs => skip (.block false) cs
  | .blanks, c :: cs => if isBlank c then skip .blanks cs else some (c :: cs)
  | .line, c :: cs => skip (if isLineEnd c then .blanks else .line) cs
  | .block afterStar, c :: cs =>
    skip (if afterStar && c = '/' then .blanks else .block (c = '*')) cs

def trim (cs : List Char) : Option (List Char) := skip .blanks cs

def isHex (c : Char) : Bool := (Text.Hex.value? c).isSome

namespace Part

/-- The letters that may stand behind a backslash. -/
def letters : List Char := ['"', '\\', '/', 'b', 'f', 'n', 'r', 't', '\'', 'v', '0']

def scan (quote : Char) : List Char → Option (List Part × List Char)
  | [] => none
  | '\\' :: 'u' :: d₁ :: d₂ :: d₃ :: d₄ :: cs =>
    if [d₁, d₂, d₃, d₄].all isHex then
      (scan quote cs).map fun (ps, rest) => (.unit d₁ d₂ d₃ d₄ :: ps, rest)
    else none
  | '\\' :: 'x' :: d₁ :: d₂ :: cs =>
    if isHex d₁ && isHex d₂ then (scan quote cs).map fun (ps, rest) => (.byte d₁ d₂ :: ps, rest)
    else none
  | '\\' :: '\r' :: '\n' :: cs => (scan quote cs).map fun (ps, rest) => (.lineEnd :: ps, rest)
  | '\\' :: c :: cs =>
    if isLineEnd c then (scan quote cs).map fun (ps, rest) => (.lineEnd :: ps, rest)
    else if letters.contains c then (scan quote cs).map fun (ps, rest) => (.short c :: ps, rest)
    else none
  | c :: cs =>
    if c = quote then some ([], cs)
    else if c = '\\' then none
    else (scan quote cs).map fun (ps, rest) => (.char c :: ps, rest)

/-- Whether a character can begin a name without quotes. -/
def startsName (c : Char) : Bool := c.isAlpha || c = '_' || c = '$' || 0x80 ≤ c.toNat

def scanName : List Char → List Part × List Char
  | '\\' :: 'u' :: d₁ :: d₂ :: d₃ :: d₄ :: cs =>
    if [d₁, d₂, d₃, d₄].all isHex then
      let (ps, rest) := scanName cs
      (.unit d₁ d₂ d₃ d₄ :: ps, rest)
    else ([], '\\' :: 'u' :: d₁ :: d₂ :: d₃ :: d₄ :: cs)
  | [] => ([], [])
  | c :: cs =>
    if (startsName c || c.isDigit) && !isBlank c then
      let (ps, rest) := scanName cs
      (.char c :: ps, rest)
    else ([], c :: cs)

end Part

/-- Reads a word that stands for a value. Infinity and what is no number may be in any case. -/
def scanWord? (cs : List Char) : Option (Relaxed × List Char) :=
  let word := String.ofList (cs.takeWhile Char.isAlphanum)
  let rest := cs.dropWhile Char.isAlphanum
  if word = "null" then some (.null, rest)
  else if word = "true" then some (.bool true, rest)
  else if word = "false" then some (.bool false, rest)
  else if ["inf", "infinity"].contains word.toLower then some (.number "9e999".toList, rest)
  else if ["nan", "qnan", "snan"].contains word.toLower then some (.null, rest)
  else none

/-- Reads infinity behind a sign; anything may follow it. -/
def scanInfinity? (cs : List Char) : Option (List Char) :=
  let starts (word : String) (cs : List Char) : Bool :=
    (cs.take word.length).map Char.toLower = word.toList
  if !starts "inf" cs then none
  else if starts "inity" (cs.drop 3) then some (cs.drop 8)
  else some (cs.drop 3)

/-- The number that hexadecimal digits stand for, behind a sign. -/
def ofHex (isNegative : Bool) (digits : List Char) : Relaxed :=
  if 16 < (digits.dropWhile (· = '0')).length then .overlong isNegative
  else
    let value := Decimal.ofNat (Part.valueOf digits)
    .number (if isNegative then '-' :: value else value)

def scanExponent? : List Char → Option (List Char × List Char)
  | c :: cs =>
    if c = 'e' ∨ c = 'E' then
      let sign := (cs.take 1).filter fun s => s = '+' || s = '-'
      let cs := cs.drop sign.length
      let digits := cs.takeWhile Decimal.isDigit
      if digits.isEmpty then none
      else some (c :: (sign ++ digits), cs.dropWhile Decimal.isDigit)
    else some ([], c :: cs)
  | [] => some ([], [])

/-- Reads a decimal number without its sign. Digits may be missing on one side of the point; there
a zero is put. -/
def scanDecimal? (cs : List Char) : Option (List Char × List Char) := do
  let whole := cs.takeWhile Decimal.isDigit
  let cs := cs.dropWhile Decimal.isDigit
  if whole.head? = some '0' ∧ whole ≠ ['0'] then none
  let (fraction, cs) ← match cs with
    | '.' :: r =>
      let digits := r.takeWhile Decimal.isDigit
      if whole.isEmpty && digits.isEmpty then none
      else some ('.' :: (if digits.isEmpty then ['0'] else digits), r.dropWhile Decimal.isDigit)
    | _ => if whole.isEmpty then none else some ([], cs)
  let (exponent, cs) ← scanExponent? cs
  return ((if whole.isEmpty then ['0'] else whole) ++ fraction ++ exponent, cs)

def scanUnsigned? (isNegative : Bool) (cs : List Char) : Option (Relaxed × List Char) :=
  let signed (digits : List Char) : Relaxed :=
    .number (if isNegative then '-' :: digits else digits)
  let isHexadecimal := match cs with
    | '0' :: x :: h :: _ => (x = 'x' || x = 'X') && isHex h
    | _ => false
  if isHexadecimal then
    some (ofHex isNegative ((cs.drop 2).takeWhile isHex), (cs.drop 2).dropWhile isHex)
  else (scanDecimal? cs).map fun (digits, rest) => (signed digits, rest)

def scanNumber? : List Char → Option (Relaxed × List Char)
  | '-' :: cs =>
    match scanInfinity? cs with
    | some rest => some (.number "-9e999".toList, rest)
    | none => scanUnsigned? true cs
  | '+' :: cs =>
    match scanInfinity? cs with
    | some rest => some (.number "9e999".toList, rest)
    | none => scanUnsigned? false cs
  | cs => scanUnsigned? false cs

/-- Reads the name of a field. Without quotes it may not begin with a word that stands for a value
and that no letter or digit follows. -/
def scanName? : List Char → Option (List Part × List Char)
  | '"' :: cs => Part.scan '"' cs
  | '\'' :: cs => Part.scan '\'' cs
  | cs =>
    if (scanWord? cs).isSome || !(cs.head?.any fun c => Part.startsName c || c = '\\') then none
    else
      match Part.scanName cs with
      | ([], _) => none
      | name => some name

mutual
/-- Reads one value after blanks. The first argument bounds the number of steps, the second is the
number of levels that may still be opened. -/
def scan : Nat → Nat → List Char → Option (Relaxed × List Char)
  | 0, _, _ => none
  | fuel + 1, room, cs =>
    match trim cs with
    | none => none
    | some ('"' :: r) => (Part.scan '"' r).map fun (ps, rest) => (.text ps, rest)
    | some ('\'' :: r) => (Part.scan '\'' r).map fun (ps, rest) => (.text ps, rest)
    | some ('[' :: r) =>
      match room with
      | 0 => none
      | room + 1 => (scanItems fuel room r).map fun (vs, rest) => (.list vs, rest)
    | some ('\x7b' :: r) =>
      match room with
      | 0 => none
      | room + 1 => (scanFields fuel room r).map fun (fs, rest) => (.record fs, rest)
    | some r => (scanWord? r).or (scanNumber? r)

def scanItems : Nat → Nat → List Char → Option (List Relaxed × List Char)
  | 0, _, _ => none
  | fuel + 1, room, cs =>
    match trim cs with
    | none => none
    | some (']' :: rest) => some ([], rest)
    | some r =>
      match scan fuel room r with
      | none => none
      | some (v, r) =>
        match trim r with
        | some (',' :: r) => (scanItems fuel room r).map fun (vs, rest) => (v :: vs, rest)
        | some (']' :: rest) => some ([v], rest)
        | _ => none

def scanFields : Nat → Nat → List Char → Option (List (List Part × Relaxed) × List Char)
  | 0, _, _ => none
  | fuel + 1, room, cs =>
    match trim cs with
    | none => none
    | some ('\x7d' :: rest) => some ([], rest)
    | some r =>
      match scanName? r with
      | none => none
      | some (name, r) =>
        match trim r with
        | some (':' :: r) =>
          match scan fuel room r with
          | none => none
          | some (v, r) =>
            match trim r with
            | some (',' :: r) =>
              (scanFields fuel room r).map fun (fs, rest) => ((name, v) :: fs, rest)
            | some ('\x7d' :: rest) => some ([(name, v)], rest)
            | _ => none
        | _ => none
end

/-- The levels of lists and records that a text may nest. -/
def nestingLimit : Nat := 1000

/-- The value of a whole text. Each value, item and field takes at least one character, so the
number of steps suffices. -/
def parse? (s : String) : Option Relaxed :=
  let cs := s.toList.takeWhile (· ≠ '\x00')
  match scan (2 * cs.length + 2) nestingLimit cs with
  | some (v, rest) => if trim rest = some [] then some v else none
  | none => none

end RunLedger.Json.Relaxed
