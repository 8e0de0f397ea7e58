import RunLedger.Text.Hex
import RunLedger.Text.Utf8

/-!
Percent encoding: a character that may not stand in a place is written as the bytes of its UTF-8
form, each as a percent sign and two upper-case digits.
-/

set_option autoImplicit false

namespace RunLedger.Http.Percent

def ofByte (b : UInt8) : List Char :=
  ['%', Text.Hex.upperDigit (b.toNat / 16), Text.Hex.upperDigit (b.toNat % 16)]

def encode (keep : Char → Bool) (cs : List Char) : List Char :=
  cs.flatMap fun c =>
    if keep c then [c] else (Text.Utf8.encode (String.ofList [c])).flatMap ofByte

/-- The bytes of a text, with each percent sign and two digits behind it taken as one byte. -/
def decode : List Char → List UInt8
  | [] => []
  | '%' :: h :: l :: cs =>
    match Text.Hex.value? h, Text.Hex.value? l with
    | some x, some y => UInt8.ofNat (16 * x + y) :: decode cs
    | _, _ => 0x25 :: decode (h :: l :: cs)
  | c :: cs => Text.Utf8.encode (String.ofList [c]) ++ decode cs

/-- Whether a character is a visible one of ASCII. -/
def isShown (c : Char) : Bool := 0x20 < c.toNat && c.toNat < 0x7F

/-- Whether a character stands for itself in a path. -/
def keptInPath (c : Char) : Bool :=
  isShown c && c ∉ ['"', '#', '<', '>', '?', '\x60', '\x7b', '\x7d']

/-- Whether a character stands for itself in a query. -/
def keptInQuery (c : Char) : Bool := isShown c && c ∉ ['"', '#', '<', '>', '\'']

/-- Whether a character stands for itself in a form. -/
def keptInForm (c : Char) : Bool :=
  c.isAlphanum || c = '*' || c = '-' || c = '.' || c = '_'

/-- A name or value of a form: blanks are plus signs. -/
def encodeForm (s : String) : List Char :=
  s.toList.flatMap fun c => if c = ' ' then ['+'] else encode keptInForm [c]

end RunLedger.Http.Percent
