import RunLedger.Json.Printer

/-!
JSON as it may be written by hand: texts in single quotes, names without quotes, numbers with a plus
sign or in hexadecimal, and more. A value is kept close to how it was written, so that it can be
written down again strictly: fields keep their order and their number, numbers their digits, and
texts their escapes.
-/

set_option autoImplicit false

namespace RunLedger.Json.Relaxed

/-- A part of a text as it was written. -/
inductive Part where
  | char (c : Char)
  | short (letter : Char)
  /-- A unit of sixteen bits by four hexadecimal digits. -/
  | unit (d₁ d₂ d₃ d₄ : Char)
  /-- One of the first 256 characters by two hexadecimal digits. -/
  | byte (d₁ d₂ : Char)
  /-- The end of a line behind a backslash, which stands for nothing. -/
  | lineEnd
  deriving DecidableEq, Repr

namespace Part

/-- A part in strict writing. A vertical tab has become a horizontal one. -/
def strict : Part → List Char
  | char c => escape c
  | short letter =>
    if letter = '\'' then ['\'']
    else if letter = 'v' then ['\\', 'u', '0', '0', '0', '9']
    else if letter = '0' then ['\\', 'u', '0', '0', '0', '0']
    else ['\\', letter]
  | unit d₁ d₂ d₃ d₄ => ['\\', 'u', d₁, d₂, d₃, d₄]
  | byte d₁ d₂ => ['\\', 'u', '0', '0', d₁, d₂]
  | lineEnd => []

/-- The code of the character that a letter behind a backslash stands for. -/
def codeOf (letter : Char) : Nat :=
  if letter = 'b' then 8
  else if letter = 't' then 9
  else if letter = 'n' then 10
  else if letter = 'v' then 11
  else if letter = 'f' then 12
  else if letter = 'r' then 13
  else if letter = '0' then 0
  else letter.toNat

def valueOf (digits : List Char) : Nat := (Text.Hex.number? digits).getD 0

/-- The codes of the characters of a text. Two units that make a pair are one character, any other
unit is one by itself, and an end of line with nothing behind it counts as a character with the code
zero. -/
def codes : List Part → List Nat
  | [] => []
  | char c :: ps => c.toNat :: codes ps
  | short letter :: ps => codeOf letter :: codes ps
  | byte d₁ d₂ :: ps => valueOf [d₁, d₂] :: codes ps
  | [lineEnd] => [0]
  | lineEnd :: ps => codes ps
  | unit d₁ d₂ d₃ d₄ :: unit e₁ e₂ e₃ e₄ :: ps =>
    let high := valueOf [d₁, d₂, d₃, d₄]
    let low := valueOf [e₁, e₂, e₃, e₄]
    if high / 0x400 = 0x36 ∧ low / 0x400 = 0x37 then
      (0x10000 + high % 0x400 * 0x400 + low % 0x400) :: codes ps
    else high :: codes (unit e₁ e₂ e₃ e₄ :: ps)
  | unit d₁ d₂ d₃ d₄ :: ps => valueOf [d₁, d₂, d₃, d₄] :: codes ps

end Part

def codesOf (s : String) : List Nat := s.toList.map Char.toNat

end Relaxed

/-- A value as it was written. -/
inductive Relaxed where
  | null
  | bool (b : Bool)
  /-- A number by its strict writing. -/
  | number (digits : List Char)
  /-- A number with more than sixteen hexadecimal digits, which nothing can be computed with. -/
  | overlong (isNegative : Bool)
  | text (parts : List Relaxed.Part)
  | list (items : List Relaxed)
  | record (fields : List (List Relaxed.Part × Relaxed))
  deriving Inhabited

namespace Relaxed

def quoted (parts : List Part) : List Char :=
  '"' :: (parts.flatMap Part.strict ++ ['"'])

/-- A number that is too long, in strict writing. -/
def overlongText (isNegative : Bool) : List Char :=
  if isNegative then "-9.0e999".toList else "9.0e999".toList

mutual
def strict : Relaxed → List Char
  | .null => ['n', 'u', 'l', 'l']
  | .bool true => ['t', 'r', 'u', 'e']
  | .bool false => ['f', 'a', 'l', 's', 'e']
  | .number digits => digits
  | .overlong isNegative => overlongText isNegative
  | .text parts => quoted parts
  | .list items => '[' :: strictItems items
  | .record fields => '{' :: strictFields fields

def strictItems : List Relaxed → List Char
  | [] => [']']
  | [v] => strict v ++ [']']
  | v :: w :: vs => strict v ++ ',' :: strictItems (w :: vs)

def strictFields : List (List Part × Relaxed) → List Char
  | [] => ['}']
  | [(k, v)] => quoted k ++ ':' :: (strict v ++ ['}'])
  | (k, v) :: f :: fs => quoted k ++ ':' :: (strict v ++ ',' :: strictFields (f :: fs))
end

def print (v : Relaxed) : String := String.ofList v.strict

/-- The first field with a name. A name ends at a character with the code zero. -/
def field? (name : String) : Relaxed → Option Relaxed
  | .record fields =>
    (fields.find? fun f => (Part.codes f.1).takeWhile (· ≠ 0) = codesOf name).map Prod.snd
  | _ => none

/-- Whether anything can be computed with a value. -/
def isComputable : Relaxed → Bool
  | .overlong _ => false
  | _ => true

end Relaxed

end RunLedger.Json
