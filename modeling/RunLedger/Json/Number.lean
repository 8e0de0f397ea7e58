import RunLedger.Decimal.Shortest

/-!
Numbers of JSON. A whole number that fits into 64 bits, with or without sign, is exact; every other
number is a binary floating number, kept as its bits. Integers have one representation each.
-/

set_option autoImplicit false

namespace RunLedger.Json

inductive Number where
  /-- A whole number from 0 on. -/
  | nat (n : UInt64)
  /-- The negative number `-(n + 1)`. -/
  | neg (n : Fin 0x8000000000000000)
  /-- A floating number, by its bits. -/
  | float (bits : UInt64)
  deriving DecidableEq, Repr

namespace Number

/-- The whole number, when it is one by kind. -/
def int? : Number → Option Int
  | nat n => some n.toNat
  | neg n => some (-(n.val : Int) - 1)
  | float _ => none

/-- The number of a whole number, when it fits into 64 bits. -/
def ofInt? (i : Int) : Option Number :=
  if 0 ≤ i then
    if i.toNat < UInt64.size then some (nat (UInt64.ofNat i.toNat)) else none
  else
    if h : (-i - 1).toNat < 0x8000000000000000 then some (neg ⟨(-i - 1).toNat, h⟩) else none

/-- Leading digits with the point after the first, or all of them before a point and one zero. -/
def mantissaText : List Char → List Char
  | [] => []
  | [d] => [d]
  | d :: ds => d :: '.' :: ds

/-- A decimal number as text: positional when the exponent of its first digit lies between -5 and
15, always with a point; otherwise with an exponent that carries its sign. -/
def scaledText (s : Decimal.Scaled) : List Char :=
  let t := s.trim
  let ds := Decimal.ofNat t.digits
  let lead : Int := ds.length + t.exponent - 1
  if t.digits = 0 then "0.0".toList
  else if 0 ≤ lead ∧ lead ≤ 15 then
    let whole := lead.toNat + 1
    if ds.length ≤ whole then ds ++ List.replicate (whole - ds.length) '0' ++ ['.', '0']
    else ds.take whole ++ '.' :: ds.drop whole
  else if -5 ≤ lead ∧ lead < 0 then
    '0' :: '.' :: (List.replicate (-lead - 1).toNat '0' ++ ds)
  else
    mantissaText ds ++ 'e' :: (if lead < 0 then '-' else '+') :: Decimal.ofNat lead.natAbs

def floatText (bits : UInt64) : List Char :=
  let b := Decimal.Binary.ofBits bits
  let unsigned :=
    if b.mantissa = 0 then "0.0".toList else scaledText b.shortest
  if Decimal.isNegativeBits bits then '-' :: unsigned else unsigned

def print : Number → List Char
  | nat n => Decimal.ofNat n.toNat
  | neg n => '-' :: Decimal.ofNat (n.val + 1)
  | float bits => floatText bits

end Number

/-- The parts of a number as it is written. -/
structure Numeral where
  negative : Bool
  whole : List Char
  fraction : List Char
  /-- The exponent's sign and digits; none when no exponent is written. -/
  exponent : Option (Bool × List Char)
  deriving DecidableEq, Repr

namespace Numeral

def digitOf (c : Char) : Nat := c.toNat - 48

/-- Takes digits into a significand of 64 bits until the next one would not fit; returns the
significand and the digits left over. -/
def absorb (significand : Nat) : List Char → Nat × List Char
  | [] => (significand, [])
  | c :: cs =>
    let next := significand * 10 + digitOf c
    if next < UInt64.size then absorb next cs else (significand, c :: cs)

/-- The value of a significand times a power of ten: one rounding for the significand, one for the
power and one for their product or quotient. A quotient beyond the table of powers is taken in
steps. None when the result is too large. -/
def scale? (significand : Nat) (exponent : Int) : Option Float :=
  let rec go (f : Float) (e : Int) : Nat → Option Float
    | 0 => some f
    | steps + 1 =>
      if 0 ≤ e ∧ e ≤ 308 then
        let r := f * Float.ofScientific 1 false e.toNat
        if r.isInf then none else some r
      else if -308 ≤ e ∧ e < 0 then some (f / Float.ofScientific 1 false (-e).toNat)
      else if f == 0.0 then some f
      else if 0 ≤ e then none
      else go (f / Float.ofScientific 1 false 308) (e + 308) steps
  go (UInt64.ofNat significand).toFloat exponent (exponent.natAbs / 308 + 2)

/-- The value of the exponent's digits, capped where no significand could make a difference. -/
def exponentValue (digits : List Char) : Nat :=
  min (Decimal.value digits) 0x80000000

/-- A floating number with its sign. -/
def signed (negative : Bool) (f : Float) : Number :=
  .float (if negative then -f else f).toBits

/-- The floating number of a significand and an exponent, shifted by the exponent that is written;
none when it is too large. -/
def float? (n : Numeral) (significand : Nat) (exponent : Int) : Option Number :=
  match n.exponent with
  | none => (scale? significand exponent).map (signed n.negative)
  | some (down, ds) =>
    let e := exponentValue ds
    if 0x80000000 ≤ e then
      if significand ≠ 0 && !down then none else some (signed n.negative 0.0)
    else (scale? significand (exponent + if down then -(e : Int) else e)).map (signed n.negative)

/-- The number that a numeral denotes. Whole digits that no longer fit into the significand only
raise the exponent; digits of the fraction that no longer fit are dropped. None when the number is
too large for a floating number. -/
def value? (n : Numeral) : Option Number :=
  let (s, left) := absorb 0 n.whole
  if n.fraction.isEmpty && n.exponent.isNone && left.isEmpty then
    if !n.negative then some (.nat (UInt64.ofNat s))
    else if s = 0 then some (signed true 0.0)
    else
      match Number.ofInt? (-(s : Int)) with
      | some k => some k
      | none => some (signed true (UInt64.ofNat s).toFloat)
  else
    let (s', dropped) := absorb s n.fraction
    let kept := n.fraction.length - dropped.length
    n.float? s' ((left.length : Int) - kept)

end Numeral

end RunLedger.Json
