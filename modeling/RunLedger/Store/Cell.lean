import RunLedger.Decimal.Extended
import RunLedger.Store.RunRow

/-!
Values that are put into cells past the operations of the store. A column converts what it is given
to its kind, if it can: a column of texts writes a whole number down, and a column of times takes a
text for the number that it denotes.
-/

set_option autoImplicit false

namespace RunLedger.Store

/-- A value that is put into a cell. -/
inductive Cell where
  | null
  | integer (i : Int)
  | text (s : String)
  deriving DecidableEq, Repr

namespace Cell

def toText : Cell → Option String
  | null => none
  | integer i => some (String.ofList (Decimal.ofInt i))
  | text s => some s

def isBlank (c : Char) : Bool := [' ', '\t', '\n', '\x0b', '\x0c', '\r'].contains c

/-- Whether a minus sign stands in front, and what follows the sign. -/
def takeSign : List Char → Bool × List Char
  | '-' :: cs => (true, cs)
  | '+' :: cs => (false, cs)
  | cs => (false, cs)

/-- The digits behind a point, if there is one, and what follows them. -/
def takeFraction : List Char → Option (List Char) × List Char
  | '.' :: cs => (some (cs.takeWhile Decimal.isDigit), cs.dropWhile Decimal.isDigit)
  | cs => (none, cs)

/-- The value of the digits of an exponent, which stops growing at five digits. -/
def exponentValue (digits : List Char) : Nat :=
  digits.foldl (fun n c => if n < 10000 then Decimal.step n c else 10000) 0

def exponent? : List Char → Option (Option Int)
  | [] => some none
  | c :: cs =>
    let (isNegative, digits) := takeSign cs
    if (c = 'e' ∨ c = 'E') ∧ digits ≠ [] ∧ digits.all Decimal.isDigit then
      let n := exponentValue digits
      some (some (if isNegative then -(n : Int) else n))
    else none

/-- The whole number that a text denotes, with blanks around it. Digits alone are taken as they are
when they fit into 64 bits; all else is a floating number first. -/
def wholeNumber? (s : String) : Option Int := do
  let cs := s.toList.dropWhile isBlank
  let (isNegative, cs) := takeSign (cs.reverse.dropWhile isBlank).reverse
  let whole := cs.takeWhile Decimal.isDigit
  let (fraction, cs) := takeFraction (cs.dropWhile Decimal.isDigit)
  let exponent ← exponent? cs
  let digits := fraction.getD []
  guard !(whole.isEmpty && digits.isEmpty)
  let signed (n : Nat) : Int := if isNegative then -(n : Int) else n
  let exact := signed (Decimal.value whole)
  if fraction.isNone ∧ exponent.isNone ∧ Decimal.inInt64 exact then return exact
  let n ← (Decimal.Extended.ofScaled (.ofDigits whole digits (exponent.getD 0))).whole?
  if n < 0x8000000000000000 then return signed n else none

def toStamp : Cell → Option Stamp
  | null => none
  | integer i => some (.millis i)
  | text s => some (((wholeNumber? s).map .millis).getD .stray)

end Cell

end RunLedger.Store
