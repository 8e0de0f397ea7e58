import RunLedger.Decimal.Shortest

/-!
Decimal numbers as floating numbers of 64 bits, by way of extended ones, whose mantissas have 64
bits. As many digits as one word holds make a significand; it is multiplied by a power of ten in
steps of a hundred, ten and one places, each product is rounded, and so is the result once more. A
number with many digits may so come out next to the nearest one.
-/

set_option autoImplicit false

namespace RunLedger.Decimal

namespace Scaled

/-- The least significand that takes no further digit. -/
def full : Nat := 1844674407370955160

/-- Takes digits into a significand until it is full; returns it and the digits left over. -/
def absorb (significand : Nat) : List Char → Nat × List Char
  | [] => (significand, [])
  | c :: cs =>
    if significand < full then absorb (step significand c) cs else (significand, c :: cs)

/-- A number with digits on both sides of a point and an exponent. Whole digits that are left over
only raise the exponent; digits of the fraction that are left over are dropped. -/
def ofDigits (whole fraction : List Char) (exponent : Int) : Scaled :=
  let (s, left) := absorb 0 whole
  let (s, dropped) := absorb s fraction
  ⟨s, exponent + left.length - (fraction.length - dropped.length : Nat)⟩

/-- Moves places of a positive exponent into the significand, as long as it has room. -/
def fill (significand : Nat) : Nat → Nat × Nat
  | 0 => (significand, 0)
  | places + 1 =>
    if significand ≤ full then fill (10 * significand) places else (significand, places + 1)

/-- Moves zeros at the end of the significand into a negative exponent. -/
def strip (significand : Nat) : Nat → Nat × Nat
  | 0 => (significand, 0)
  | places + 1 =>
    if significand % 10 = 0 then strip (significand / 10) places else (significand, places + 1)

/-- The same number with an exponent nearer to zero. -/
def level (s : Scaled) : Scaled :=
  if 0 ≤ s.exponent then
    let (digits, places) := fill s.digits s.exponent.toNat
    ⟨digits, places⟩
  else
    let (digits, places) := strip s.digits s.exponent.natAbs
    ⟨digits, -(places : Int)⟩

end Scaled

/-- A number `mantissa * 2 ^ exponent`. -/
structure Extended where
  mantissa : Nat
  exponent : Int
  deriving DecidableEq, Repr

namespace Extended

/-- The nearest number whose mantissa has so many bits; of two, the one with an even mantissa. -/
def roundTo (bits : Nat) (x : Extended) : Extended :=
  let extra := x.mantissa.log2 + 1 - bits
  let kept := x.mantissa >>> extra
  let twice := 2 * (x.mantissa - kept <<< extra)
  let isUp := 1 <<< extra < twice || (twice = 1 <<< extra && kept % 2 = 1)
  ⟨if isUp then kept + 1 else kept, x.exponent + extra⟩

/-- The bits of an extended mantissa. -/
def precision : Nat := 64

/-- The power of ten with so many places, before or behind the point. -/
def powerOfTen (isUp : Bool) (places : Nat) : Extended :=
  let power := Nat.pow 10 places
  if isUp then roundTo precision ⟨power, 0⟩
  else
    let shift := power.log2 + precision + 2
    let quotient := (1 <<< shift) / power
    roundTo precision ⟨2 * quotient + 1, -(shift : Int) - 1⟩

def mul (x y : Extended) : Extended :=
  roundTo precision ⟨x.mantissa * y.mantissa, x.exponent + y.exponent⟩

/-- A number with its point moved by so many places. -/
def movePoint (x : Extended) (places : Int) : Extended :=
  let by10 (n : Nat) : Extended → Extended := (mul · (powerOfTen (0 ≤ places) n))
  let n := places.natAbs
  let x := Nat.repeat (by10 100) (n / 100) x
  Nat.repeat (by10 1) (n % 10) (Nat.repeat (by10 10) (n / 10 % 10) x)

def ofScaled (s : Scaled) : Extended :=
  let s := s.level
  movePoint ⟨s.digits, 0⟩ s.exponent

/-- Whether a number is zero among the floating numbers of 64 bits. -/
def vanishes (x : Extended) : Bool :=
  x.mantissa = 0 || x.mantissa <<< (x.exponent + 1075).toNat ≤ 1 <<< (-(x.exponent + 1075)).toNat

/-- The whole number that a number is among the floating numbers of 64 bits, if it is one. -/
def whole? (x : Extended) : Option Nat :=
  if x.vanishes then some 0
  else
    let y := x.roundTo 53
    let up := y.mantissa <<< y.exponent.toNat
    let down := (-y.exponent).toNat
    if up >>> down <<< down = up then some (up >>> down) else none

end Extended

end RunLedger.Decimal
