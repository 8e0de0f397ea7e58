import RunLedger.Text.Hex

/-!
Texts of TOML: basic ones with escapes and literal ones without, each on one line or on several. A
line break inside a text is one character, however it is written.
-/

set_option autoImplicit false

namespace RunLedger.Toml

/-- The rest of an input after its spaces and tabs. -/
def afterBlanks (cs : List Char) : List Char := cs.dropWhile fun c => c = ' ' || c = '\t'

/-- The rest of an input that begins with a line break. -/
def afterBreak? : List Char → Option (List Char)
  | '\n' :: r => some r
  | '\r' :: '\n' :: r => some r
  | _ => none

/-- Whether a character may stand in a comment or a literal text. -/
def isPrintable (c : Char) : Bool := c = '\t' || (0x20 ≤ c.toNat && c.toNat ≠ 0x7F)

/-- The rest of an input that begins with a given text. -/
def after? : List Char → List Char → Option (List Char)
  | [], cs => some cs
  | p :: ps, c :: cs => if c = p then after? ps cs else none
  | _ :: _, [] => none

private def scalar? (digits : List Char) : Option Char := do
  let n ← Text.Hex.number? digits
  if n.isValidChar then some (Char.ofNat n) else none

/-- Reads what stands after a backslash, when it is one character. -/
private def escape? : List Char → Option (Char × List Char)
  | 'b' :: r => some ('\x08', r)
  | 'f' :: r => some ('\x0c', r)
  | 'n' :: r => some ('\n', r)
  | 'r' :: r => some ('\r', r)
  | 't' :: r => some ('\t', r)
  | '"' :: r => some ('"', r)
  | '\\' :: r => some ('\\', r)
  | 'u' :: r => if 4 ≤ r.length then (scalar? (r.take 4)).map (·, r.drop 4) else none
  | 'U' :: r => if 8 ≤ r.length then (scalar? (r.take 8)).map (·, r.drop 8) else none
  | _ => none

/-- The rest of an input after blanks and line breaks. -/
private def afterSpace : Nat → List Char → List Char
  | 0, cs => cs
  | fuel + 1, cs =>
    match afterBreak? (afterBlanks cs) with
    | some r => afterSpace fuel r
    | none => afterBlanks cs

/-- The line break and the space behind a backslash that ends a line. -/
private def afterContinuation? (cs : List Char) : Option (List Char) :=
  (afterBreak? (afterBlanks cs)).map fun r => afterSpace r.length r

/-- Quotes at a place inside a text of several lines: how many belong to the text, and whether the
text ends with them. At most two quotes stand before the three that end it. -/
private def quotes (run : Nat) : Nat × Bool :=
  if run < 3 then (run, false) else (min (run - 3) 2, true)

private def countRun (q : Char) (cs : List Char) : Nat := (cs.takeWhile (· = q)).length

/-- The parts of a text: which quote ends it, whether it spans lines, and whether a backslash has a
meaning. -/
structure Style where
  quote : Char
  spansLines : Bool
  escapes : Bool

namespace Style

/-- Reads the characters up to the end of a text. The first argument bounds the number of steps. -/
def scan? (style : Style) : Nat → List Char → Option (List Char × List Char)
  | 0, _ => none
  | fuel + 1, cs =>
    match cs with
    | [] => none
    | c :: r =>
      let next (x : Char) (rest : List Char) : Option (List Char × List Char) :=
        (style.scan? fuel rest).map fun (xs, rest) => (x :: xs, rest)
      if c = style.quote then
        if style.spansLines then
          let (inner, ends) := quotes (countRun c cs)
          let kept := List.replicate inner c
          if ends then some (kept, cs.drop (inner + 3))
          else (style.scan? fuel (cs.drop inner)).map fun (xs, rest) => (kept ++ xs, rest)
        else some ([], r)
      else if c = '\\' && style.escapes then
        match escape? r with
        | some (x, rest) => next x rest
        | none =>
          if style.spansLines then (afterContinuation? r).bind (style.scan? fuel) else none
      else if isPrintable c then next c r
      else if style.spansLines then (afterBreak? cs).bind (next '\n')
      else none

end Style

/-- Reads the rest of a text after its opening quotes. A line break right after the opening of a
text that spans lines does not belong to it. -/
private def body? (style : Style) (cs : List Char) : Option (String × List Char) :=
  let cs := if style.spansLines then (afterBreak? cs).getD cs else cs
  (style.scan? (cs.length + 1) cs).map fun (xs, rest) => (String.ofList xs, rest)

def lineText? : List Char → Option (String × List Char)
  | '"' :: r => body? ⟨'"', false, true⟩ r
  | '\'' :: r => body? ⟨'\'', false, false⟩ r
  | _ => none

def text? (cs : List Char) : Option (String × List Char) :=
  match after? ['"', '"', '"'] cs with
  | some r => body? ⟨'"', true, true⟩ r
  | none =>
    match after? ['\'', '\'', '\''] cs with
    | some r => body? ⟨'\'', true, false⟩ r
    | none => lineText? cs

end RunLedger.Toml
