import RunLedger.Decimal.Digits

/-!
The shortest decimal form of a binary floating number of 64 bits: the fewest significant digits that
lie nearer to the number than to its neighbours, and of those the nearest to the number. All
comparisons are made between natural numbers.
-/

set_option autoImplicit false

namespace RunLedger.Decimal

/-- A finite floating number without its sign: `mantissa * 2 ^ exponent`. The lower neighbour is
nearer than the upper one exactly for the powers of two that are `lowerIsClose`. -/
structure Binary where
  mantissa : Nat
  exponent : Int
  lowerIsClose : Bool

/-- Whether the bits carry a minus sign. -/
def isNegativeBits (bits : UInt64) : Bool := bits.toNat >>> 63 = 1

/-- Whether the bits are those of a number, not of an infinity or of no number. -/
def isFiniteBits (bits : UInt64) : Bool := bits.toNat >>> 52 % 2048 ≠ 2047

def Binary.ofBits (bits : UInt64) : Binary :=
  let fraction := bits.toNat % 0x10000000000000
  let biased := bits.toNat >>> 52 % 2048
  if biased = 0 then ⟨fraction, -1074, false⟩
  else ⟨0x10000000000000 + fraction, (biased : Int) - 1075, fraction = 0 && biased ≠ 1⟩

/-- A decimal number `digits * 10 ^ exponent`. -/
structure Scaled where
  digits : Nat
  exponent : Int

namespace Binary

/-- The exponent of ten of the leading digit of a positive number. -/
def leadingExponent (b : Binary) : Int :=
  let scaled := (b.mantissa * Nat.pow 10 340) <<< b.exponent.toNat >>> (-b.exponent).toNat
  (ofNat scaled).length - 341

/-- The multiple of `10 ^ k` next to the number that reads back as it, if there is one: the nearer
of the two neighbours on that grid, the even one on a tie. -/
def candidate? (b : Binary) (k : Int) : Option Nat :=
  let up := Nat.pow 10 (-k).toNat <<< b.exponent.toNat
  let down := Nat.pow 10 k.toNat <<< (-b.exponent).toNat
  let exact := 4 * b.mantissa * up
  let low := (4 * b.mantissa - if b.lowerIsClose then 1 else 2) * up
  let high := (4 * b.mantissa + 2) * up
  let readsBack (d : Nat) : Bool :=
    let x := 4 * d * down
    if b.mantissa % 2 = 0 then low ≤ x && x ≤ high else low < x && x < high
  let below := b.mantissa * up / down
  let above := below + 1
  let toBelow := exact - 4 * below * down
  let toAbove := 4 * above * down - exact
  let belowFirst := toBelow < toAbove || (toBelow = toAbove && below % 2 = 0)
  if below ≠ 0 && readsBack below && (belowFirst || !readsBack above) then some below
  else if readsBack above then some above
  else none

/-- Tries ever finer grids until one of them holds a number that reads back. -/
def shortestFrom (b : Binary) (k : Int) : Nat → Scaled
  | 0 => ⟨b.mantissa, 0⟩
  | tries + 1 =>
    match b.candidate? k with
    | some d => ⟨d, k⟩
    | none => b.shortestFrom (k - 1) tries

/-- The shortest form of a positive number; seventeen digits always suffice. -/
def shortest (b : Binary) : Scaled :=
  b.shortestFrom b.leadingExponent 18

end Binary

def Scaled.trim (s : Scaled) : Scaled :=
  if h : s.digits ≠ 0 ∧ s.digits % 10 = 0 then
    Scaled.trim ⟨s.digits / 10, s.exponent + 1⟩
  else s
termination_by s.digits
decreasing_by omega

end RunLedger.Decimal
