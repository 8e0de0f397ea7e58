/-!
Whole numbers in decimal. Writing uses the fewest digits; reading a signed number takes an optional
sign, at least one ASCII digit and nothing else. Main statements: reading undoes writing.
-/

set_option autoImplicit false

namespace RunLedger.Decimal

def digit (n : Nat) : Char := Char.ofNat (48 + n)

def digitValue? (c : Char) : Option Nat :=
  if '0' ≤ c ∧ c ≤ '9' then some (c.toNat - 48) else none

def isDigit (c : Char) : Bool := (digitValue? c).isSome

def ofNat (n : Nat) : List Char :=
  if n < 10 then [digit n] else ofNat (n / 10) ++ [digit (n % 10)]

/-- Digits of a number, filled up with zeros at the left to at least `width`. -/
def ofNatPadded (width n : Nat) : List Char :=
  let ds := ofNat n
  List.replicate (width - ds.length) '0' ++ ds

/-- A number with a minus sign when it is negative. -/
def ofInt (n : Int) : List Char :=
  if n < 0 then '-' :: ofNat n.natAbs else ofNat n.natAbs

def step (acc : Nat) (c : Char) : Nat := 10 * acc + (c.toNat - 48)

/-- The value of a string of digits, read from the left. -/
def value (cs : List Char) : Nat := cs.foldl step 0

def nat? (cs : List Char) : Option Nat :=
  if cs ≠ [] ∧ cs.all isDigit then some (value cs) else none

/-- Reads an optional sign and one or more digits. -/
def int? : List Char → Option Int
  | '+' :: cs => (nat? cs).map Int.ofNat
  | '-' :: cs => (nat? cs).map fun n => -Int.ofNat n
  | cs => (nat? cs).map Int.ofNat

/-- The numbers of a signed word of 64 bits. -/
def inInt64 (n : Int) : Prop := -0x8000000000000000 ≤ n ∧ n < 0x8000000000000000

/-- One comparison decides, and it can be opened for a number that is not known. -/
instance (n : Int) : Decidable (inInt64 n) :=
  match n with
  | .ofNat k => decidable_of_decidable_of_iff (p := k < 0x8000000000000000) (by
      simp only [inInt64, Int.ofNat_eq_natCast]
      omega)
  | .negSucc k => decidable_of_decidable_of_iff (p := k < 0x8000000000000000) (by
      simp only [inInt64]
      omega)

def int64? (cs : List Char) : Option Int :=
  (int? cs).filter fun n => decide (inInt64 n)

/-- Reads an unsigned number that fits into 64 bits; a plus sign may stand in front. -/
def uint64? (cs : List Char) : Option Nat :=
  let digits := match cs with
    | '+' :: r => r
    | _ => cs
  (nat? digits).filter fun n => decide (n < UInt64.size)

theorem digit_facts {n : Nat} (h : n < 10) :
    isDigit (digit n) = true ∧ (digit n).toNat - 48 = n ∧ digit n ≠ '+' ∧ digit n ≠ '-' := by
  have : ∀ m : Fin 10, isDigit (digit m.val) = true ∧ (digit m.val).toNat - 48 = m.val ∧
      digit m.val ≠ '+' ∧ digit m.val ≠ '-' := by decide
  exact this ⟨n, h⟩

theorem ofNat_ne_nil (n : Nat) : ofNat n ≠ [] := by
  unfold ofNat
  split <;> simp

theorem all_isDigit_ofNat (n : Nat) : (ofNat n).all isDigit = true := by
  induction n using Nat.strongRecOn with
  | _ n ih =>
    unfold ofNat
    split
    · next h => simpa using (digit_facts h).1
    · next h =>
      simp only [List.all_append, List.all_cons, List.all_nil, Bool.and_true, Bool.and_eq_true]
      exact ⟨ih (n / 10) (by omega), (digit_facts (by omega)).1⟩

theorem value_ofNat (n : Nat) : value (ofNat n) = n := by
  induction n using Nat.strongRecOn with
  | _ n ih =>
    unfold ofNat
    split
    · next h => simpa [value, step] using (digit_facts h).2.1
    · next h =>
      have hd := (digit_facts (n := n % 10) (by omega)).2.1
      have := ih (n / 10) (by omega)
      simp only [value] at this
      simp only [value, List.foldl_append, List.foldl_cons, List.foldl_nil, this, step, hd]
      omega

/-- Reading a written number gives it back. -/
private theorem nat?_ofNat (n : Nat) : nat? (ofNat n) = some n := by
  simp [nat?, ofNat_ne_nil, value_ofNat, all_isDigit_ofNat]

private theorem head_isDigit (n : Nat) : ∃ c cs, ofNat n = c :: cs ∧ c ≠ '+' ∧ c ≠ '-' := by
  cases hds : ofNat n with
  | nil => exact absurd hds (ofNat_ne_nil n)
  | cons c cs =>
    have hall := all_isDigit_ofNat n
    rw [hds] at hall
    refine ⟨c, cs, rfl, ?_, ?_⟩ <;> rintro rfl <;> simp [isDigit, digitValue?] at hall

private theorem int?_ofInt (n : Int) : int? (ofInt n) = some n := by
  unfold ofInt
  split
  · next h =>
    simp only [int?, nat?_ofNat, Option.map_some]
    congr 1
    simp only [Int.ofNat_eq_natCast]
    omega
  · next h =>
    obtain ⟨c, cs, hds, hp, hm⟩ := head_isDigit n.natAbs
    have := nat?_ofNat n.natAbs
    rw [hds] at this ⊢
    unfold int?
    split
    · next h' => simp only [List.cons.injEq] at h'; exact absurd h'.1 hp
    · next h' => simp only [List.cons.injEq] at h'; exact absurd h'.1 hm
    · simp only [this, Option.map_some, Int.ofNat_eq_natCast]
      congr 1
      omega

/-- Reading a written number gives it back, for the numbers of a signed word. -/
theorem int64?_ofInt {n : Int} (h : inInt64 n) : int64? (ofInt n) = some n := by
  simp [int64?, int?_ofInt, h]

end RunLedger.Decimal
