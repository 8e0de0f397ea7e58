import RunLedger.Decimal.Shortest
import RunLedger.Proofs.Decimal.Rounding

/-!
The shortest decimal form lies at most half way to the next floating number. For all but the last
few of the finite numbers it so stays below `2 ^ 1024` even if it is rounded up three times.
-/

set_option autoImplicit false

namespace RunLedger.Decimal

namespace Scaled

/-- The number that digits and an exponent stand for. -/
def number (s : Scaled) : ℚ := s.digits * (10 : ℚ) ^ s.exponent

theorem number_trim (s : Scaled) : s.trim.number = s.number := by
  fun_induction Scaled.trim s with
  | case1 s h ih =>
    rw [ih, number, number, zpow_add_one₀ (by norm_num : (10 : ℚ) ≠ 0)]
    have hdigits : s.digits = 10 * (s.digits / 10) := by omega
    have hcast : (s.digits : ℚ) = 10 * (s.digits / 10 : Nat) := by exact_mod_cast hdigits
    rw [hcast]
    ring
  | case2 s h => rfl

end Scaled

namespace Binary

/-- The middle between a number and the next one. -/
def middle (b : Binary) : ℚ := (b.mantissa + 1 / 2) * (2 : ℚ) ^ b.exponent

private theorem zpow_eq_div (x : ℚ) (k : Int) : x ^ k = x ^ k.toNat / x ^ (-k).toNat := by
  rcases Int.le_total 0 k with hk | hk
  · obtain ⟨n, rfl⟩ := Int.eq_ofNat_of_zero_le hk
    simp
  · obtain ⟨n, hn⟩ := Int.eq_ofNat_of_zero_le (Int.neg_nonneg_of_nonpos hk)
    obtain rfl : k = -n := by omega
    simp

private theorem le_of_candidate? {b : Binary} {k : Int} {d : Nat} (h : b.candidate? k = some d) :
    4 * d * Nat.pow 10 k.toNat <<< (-b.exponent).toNat ≤
      (4 * b.mantissa + 2) * Nat.pow 10 (-k).toNat <<< b.exponent.toNat := by
  unfold candidate? at h
  extract_lets up down exact low high readsBack below above toBelow toAbove belowFirst at h
  have hreads : ∀ d, readsBack d = true → 4 * d * down ≤ high := by
    intro d hd
    simp only [readsBack] at hd
    split at hd
    · exact of_decide_eq_true (Bool.and_eq_true_iff.1 hd).2
    · exact (of_decide_eq_true (Bool.and_eq_true_iff.1 hd).2).le
  split at h
  · next hbelow =>
    obtain rfl := Option.some.inj h
    simp only [Bool.and_eq_true] at hbelow
    exact hreads _ hbelow.1.2
  · split at h
    · next habove =>
      obtain rfl := Option.some.inj h
      exact hreads _ habove
    · cases h

private theorem number_le_of_candidate? {b : Binary} {k : Int} {d : Nat}
    (h : b.candidate? k = some d) :
    (⟨d, k⟩ : Scaled).number ≤ b.middle := by
  have hle := le_of_candidate? h
  rw [Nat.shiftLeft_eq, Nat.shiftLeft_eq] at hle
  have hcast : (4 * d * (10 ^ k.toNat * 2 ^ (-b.exponent).toNat) : ℚ) ≤
      (4 * b.mantissa + 2) * (10 ^ (-k).toNat * 2 ^ b.exponent.toNat) := by exact_mod_cast hle
  rw [Scaled.number, middle, zpow_eq_div 10 k, zpow_eq_div 2 b.exponent,
    ← mul_div_assoc, ← mul_div_assoc, div_le_div_iff₀ (by positivity) (by positivity)]
  linarith

private theorem shortestFrom_cases (b : Binary) (k : Int) (tries : Nat) :
    (b.shortestFrom k tries).number ≤ b.middle ∨ b.shortestFrom k tries = ⟨b.mantissa, 0⟩ := by
  induction tries generalizing k with
  | zero => exact .inr rfl
  | succ tries ih =>
    rw [shortestFrom]
    split
    · next d hd => exact .inl (number_le_of_candidate? hd)
    · exact ih (k - 1)

/-! ### The range of the finite numbers -/

/-- The bits of the six largest numbers and of the six smallest. -/
def outermost : List UInt64 :=
  (List.range 6).flatMap fun n =>
    [0x7FEFFFFFFFFFFFFF - UInt64.ofNat n, 0xFFEFFFFFFFFFFFFF - UInt64.ofNat n]

private theorem length_ofNat {n k : Nat} (hlow : 10 ^ k ≤ n) (hhigh : n < 10 ^ (k + 1)) :
    (ofNat n).length = k + 1 := by
  induction k generalizing n with
  | zero =>
    rw [ofNat, if_pos (by omega)]
    rfl
  | succ k ih =>
    rw [Nat.pow_succ] at hlow hhigh
    have hpow : 0 < 10 ^ k := by positivity
    rw [ofNat, if_neg (by omega), List.length_append, ih (by omega) (by omega)]
    rfl

theorem leadingExponent_outermost {bits : UInt64} (h : bits ∈ outermost) :
    (ofBits bits).leadingExponent = 308 := by
  have hrange : (outermost.all fun bits => decide (
      10 ^ 648 ≤ ((ofBits bits).mantissa * Nat.pow 10 340) <<< (ofBits bits).exponent.toNat >>>
        (-(ofBits bits).exponent).toNat ∧
      ((ofBits bits).mantissa * Nat.pow 10 340) <<< (ofBits bits).exponent.toNat >>>
        (-(ofBits bits).exponent).toNat < 10 ^ (648 + 1))) = true := by decide +kernel
  obtain ⟨hlow, hhigh⟩ := of_decide_eq_true (List.all_eq_true.1 hrange bits h)
  simp only [leadingExponent, length_ofNat hlow hhigh]
  rfl

private theorem ofBits_range {bits : UInt64} (h : isFiniteBits bits = true)
    (hinner : bits ∉ outermost) :
    (ofBits bits).mantissa ≤ 2 ^ 53 - 7 ∧ (ofBits bits).exponent ≤ 971 ∨
      (ofBits bits).mantissa < 2 ^ 53 ∧ (ofBits bits).exponent ≤ 970 := by
  have hfinite : bits.toNat / 2 ^ 52 % 2048 ≠ 2047 := by
    rw [← Nat.shiftRight_eq_div_pow]
    simpa [isFiniteBits] using h
  have hbits := bits.toNat_lt
  simp only [ofBits, Nat.shiftRight_eq_div_pow]
  split
  · exact .inr ⟨by dsimp only; omega, by dsimp only; omega⟩
  · by_contra hlarge
    dsimp only at hlarge
    obtain ⟨n, hn, hvalue⟩ : ∃ n < 6,
        bits.toNat = 0x7FEFFFFFFFFFFFFF - n ∨ bits.toNat = 0xFFEFFFFFFFFFFFFF - n :=
      ⟨0xFFFFFFFFFFFFF - bits.toNat % 2 ^ 52, by omega, by omega⟩
    refine hinner (List.mem_flatMap.2 ⟨n, List.mem_range.2 hn, ?_⟩)
    rcases hvalue with hvalue | hvalue
    · obtain rfl : bits = 0x7FEFFFFFFFFFFFFF - UInt64.ofNat n := by
        refine UInt64.toNat_inj.1 (hvalue.trans ?_)
        interval_cases n <;> rfl
      exact List.mem_cons_self
    · obtain rfl : bits = 0xFFEFFFFFFFFFFFFF - UInt64.ofNat n := by
        refine UInt64.toNat_inj.1 (hvalue.trans ?_)
        interval_cases n <;> rfl
      exact List.mem_cons_of_mem _ List.mem_cons_self

private theorem middle_lt {b : Binary} (h : b.mantissa ≤ 2 ^ 53 - 7 ∧ b.exponent ≤ 971 ∨
    b.mantissa < 2 ^ 53 ∧ b.exponent ≤ 970) : b.middle * slack ^ 3 < 2 ^ 1024 := by
  have hscale : ∀ {e : Int}, b.exponent ≤ e → (2 : ℚ) ^ b.exponent ≤ (2 : ℚ) ^ e :=
    fun he => zpow_le_zpow_right₀ (by norm_num) he
  have hpower : (2 : ℚ) ^ 53 * (2 : ℚ) ^ (971 : Int) = 2 ^ 1024 := by
    rw [← zpow_natCast, ← zpow_natCast, ← zpow_add₀ (by norm_num : (2 : ℚ) ≠ 0)]
    rfl
  rw [middle, ← hpower, mul_right_comm]
  rcases h with ⟨hm, he⟩ | ⟨hm, he⟩
  · have hcast : (b.mantissa : ℚ) ≤ 2 ^ 53 - 7 := by
      have : b.mantissa + 7 ≤ 2 ^ 53 := by omega
      have : (b.mantissa : ℚ) + 7 ≤ 2 ^ 53 := by exact_mod_cast this
      linarith
    refine mul_lt_mul ?_ (hscale he) (zpow_pos (by norm_num) _) (by positivity)
    calc ((b.mantissa : ℚ) + 1 / 2) * slack ^ 3 ≤ (2 ^ 53 - 7 + 1 / 2) * slack ^ 3 :=
          mul_le_mul_of_nonneg_right (by linarith) (pow_pos slack_pos 3).le
      _ < 2 ^ 53 := by
        rw [slack]
        norm_num
  · have hcast : (b.mantissa : ℚ) + 1 / 2 ≤ 2 ^ 53 := by
      have : (b.mantissa : ℚ) + 1 ≤ 2 ^ 53 := by exact_mod_cast hm
      linarith
    have hhalf : (2 : ℚ) ^ (971 : Int) = 2 * (2 : ℚ) ^ (970 : Int) := by
      rw [← zpow_one_add₀ (by norm_num : (2 : ℚ) ≠ 0)]
      rfl
    rw [hhalf, ← mul_assoc]
    refine mul_lt_mul ?_ (hscale he) (zpow_pos (by norm_num) _) (by positivity)
    calc ((b.mantissa : ℚ) + 1 / 2) * slack ^ 3 ≤ 2 ^ 53 * slack ^ 3 :=
          mul_le_mul_of_nonneg_right hcast (pow_pos slack_pos 3).le
      _ < 2 ^ 53 * 2 := by
        rw [slack]
        norm_num

/-- The shortest form of a finite number, the outermost ones left out. -/
theorem number_shortest_lt {bits : UInt64} (h : isFiniteBits bits = true)
    (hinner : bits ∉ outermost) : (ofBits bits).shortest.number * slack ^ 3 < 2 ^ 1024 := by
  have hrange := ofBits_range h hinner
  rcases shortestFrom_cases (ofBits bits) (ofBits bits).leadingExponent 18 with hle | hwhole
  · exact (mul_le_mul_of_nonneg_right hle (pow_pos slack_pos 3).le).trans_lt (middle_lt hrange)
  · have hm : ((ofBits bits).mantissa : ℚ) ≤ 2 ^ 53 := by
      have : (ofBits bits).mantissa ≤ 2 ^ 53 := by omega
      exact_mod_cast this
    rw [shortest, hwhole, Scaled.number, zpow_zero, mul_one]
    calc ((ofBits bits).mantissa : ℚ) * slack ^ 3 ≤ 2 ^ 53 * slack ^ 3 :=
          mul_le_mul_of_nonneg_right hm (pow_pos slack_pos 3).le
      _ < 2 ^ 54 := by
        rw [slack]
        norm_num
      _ < 2 ^ 1024 := pow_lt_pow_right₀ (by norm_num) (by norm_num)

end Binary

end RunLedger.Decimal
