import RunLedger.Proofs.Decimal.Shortest
import RunLedger.Proofs.Json.Reread

/-!
The text of a finite floating number denotes a number: reading it never runs out of the range of the
floating numbers, although each step of reading may round up.
-/

set_option autoImplicit false

namespace RunLedger.Json

open Decimal (slack)

namespace Numeral

/-! ### Significand and exponent -/

private theorem isSome_go_of_neg (f : Float) {e : Int} (he : e < 0) (steps : Nat) :
    (scale?.go f e steps).isSome = true := by
  induction steps generalizing f e with
  | zero => rfl
  | succ steps ih =>
    have hnonneg : ¬ (0 ≤ e ∧ e ≤ 308) := by omega
    rw [scale?.go, if_neg hnonneg]
    split
    · rfl
    · split
      · rfl
      · have hstep : e + 308 < 0 := by omega
        rw [if_neg (by omega)]
        exact ih _ hstep

private theorem pow_le_foldl_step (cs : List Char) (s : Nat) :
    s * 10 ^ cs.length ≤ cs.foldl Decimal.step s := by
  induction cs generalizing s with
  | nil => simp
  | cons c cs ih =>
    calc s * 10 ^ (cs.length + 1) = (10 * s) * 10 ^ cs.length := by rw [Nat.pow_succ]; ring
      _ ≤ Decimal.step s c * 10 ^ cs.length := Nat.mul_le_mul_right _ (Nat.le_add_right _ _)
      _ ≤ cs.foldl Decimal.step (Decimal.step s c) := ih _

private theorem le_308_of_lt {s : Nat} {k : Nat} (hpos : 0 < s)
    (h : (s : ℚ) * 10 ^ k * slack ^ 3 < 2 ^ 1024) : k ≤ 308 := by
  by_contra hlarge
  have hone : (1 : ℚ) ≤ s := by exact_mod_cast hpos
  have hslack : (1 : ℚ) ≤ slack ^ 3 := one_le_pow₀ (by unfold slack; norm_num)
  have hpower : (2 : ℚ) ^ 1024 ≤ 10 ^ 309 := by
    have : 2 ^ 1024 ≤ 10 ^ 309 := by decide +kernel
    exact_mod_cast this
  have hten : (10 : ℚ) ^ 309 ≤ 10 ^ k := pow_le_pow_right₀ (by norm_num) (by omega)
  have hproduct : (10 : ℚ) ^ k ≤ s * 10 ^ k * slack ^ 3 := by
    calc (10 : ℚ) ^ k = 1 * 10 ^ k * 1 := by ring
      _ ≤ s * 10 ^ k * slack ^ 3 := by gcongr
  exact absurd h (not_lt.2 ((hpower.trans hten).trans hproduct))

private theorem isSome_scale? {s : Nat} {e : Int} (hsize : s < UInt64.size)
    (h : (s : ℚ) * (10 : ℚ) ^ e * slack ^ 3 < 2 ^ 1024) : (scale? s e).isSome = true := by
  by_cases hneg : e < 0
  · exact isSome_go_of_neg _ hneg _
  · obtain ⟨k, rfl⟩ := Int.eq_ofNat_of_zero_le (Int.not_lt.1 hneg)
    rw [zpow_natCast] at h
    have htoNat : (UInt64.ofNat s).toNat = s := by
      rw [UInt64.toNat_ofNat', Nat.mod_eq_of_lt hsize]
    by_cases hk : k ≤ 308
    · have hfinite := Decimal.isInf_mul_eq_false (n := UInt64.ofNat s) hk (by rwa [htoNat])
      rw [scale?, scale?.go, if_pos ⟨by omega, by omega⟩, Int.toNat_natCast]
      simp only [hfinite]
      rfl
    · -- Only zero has so large an exponent.
      have hzero : s = 0 := by
        by_contra hne
        exact hk (le_308_of_lt (Nat.pos_of_ne_zero hne) h)
      have hvanishes : ((UInt64.ofNat 0).toFloat == 0.0) = true := by decide +kernel
      rw [hzero, scale?, scale?.go, if_neg (by omega), if_neg (by omega), if_pos hvanishes]
      rfl

/-! ### The numeral of a floating number -/

def shift (n : Numeral) : Int :=
  match n.exponent with
  | none => 0
  | some (down, ds) => if down then -(Decimal.value ds : Int) else Decimal.value ds

/-- The number that the digits and the exponent of a numeral stand for, without its sign. -/
def number (n : Numeral) : ℚ :=
  (Decimal.value (n.whole ++ n.fraction) : ℚ) * (10 : ℚ) ^ (n.shift - n.fraction.length)

private theorem absorb_le (cs : List Char) {s s' : Nat} {left : List Char} (hs : s < UInt64.size)
    (h : absorb s cs = (s', left)) : s' < UInt64.size ∧ left.length ≤ cs.length ∧
      s' * 10 ^ left.length ≤ cs.foldl Decimal.step s := by
  induction cs generalizing s with
  | nil =>
    obtain ⟨rfl, rfl⟩ := Prod.mk.inj h
    exact ⟨hs, Nat.le_refl _, by simp⟩
  | cons c cs ih =>
    rw [absorb] at h
    split at h
    · next hfits =>
      obtain ⟨hsize, hlength, hle⟩ := ih hfits h
      have hstep : Decimal.step s c = s * 10 + digitOf c := by
        rw [Decimal.step, digitOf, Nat.mul_comm]
      exact ⟨hsize, by rw [List.length_cons]; omega, by rwa [List.foldl_cons, hstep]⟩
    · obtain ⟨rfl, rfl⟩ := Prod.mk.inj h
      exact ⟨hs, Nat.le_refl _, pow_le_foldl_step _ _⟩

private theorem isSome_float? {n : Numeral} {s : Nat} {e : Int} (hsize : s < UInt64.size)
    (hexponent : ∀ ds, n.exponent = some (false, ds) → Decimal.value ds < 0x80000000)
    (h : (s : ℚ) * (10 : ℚ) ^ (e + n.shift) * slack ^ 3 < 2 ^ 1024) :
    (n.float? s e).isSome = true := by
  unfold float?
  unfold shift at h
  split
  · next hnone =>
    simp only [hnone, Int.add_zero] at h
    rw [Option.isSome_map]
    exact isSome_scale? hsize h
  · next down ds hsome =>
    simp only [hsome] at h
    rcases Nat.lt_or_ge (Decimal.value ds) 0x80000000 with hsmall | hlarge
    · have hcapped : exponentValue ds = Decimal.value ds := Nat.min_eq_left hsmall.le
      simp only [hcapped]
      rw [if_neg (Nat.not_le.2 hsmall), Option.isSome_map]
      exact isSome_scale? hsize h
    · obtain rfl : down = true := by
        by_contra hup
        rw [Bool.not_eq_true] at hup
        exact absurd (hexponent ds (hup ▸ hsome)) (Nat.not_lt.2 hlarge)
      have hcapped : exponentValue ds = 0x80000000 := Nat.min_eq_right hlarge
      simp [hcapped]

private theorem isSome_value? {n : Numeral} (hwhole : Decimal.value n.whole < UInt64.size)
    (hexponent : ∀ ds, n.exponent = some (false, ds) → Decimal.value ds < 0x80000000)
    (h : n.number * slack ^ 3 < 2 ^ 1024) : n.value?.isSome = true := by
  have habsorb : absorb 0 n.whole = (Decimal.value n.whole, []) := absorb_eq hwhole
  simp only [value?, habsorb]
  split
  · split
    · rfl
    · split
      · rfl
      · split <;> rfl
  · obtain ⟨s, dropped, hpair⟩ : ∃ s dropped, absorb (Decimal.value n.whole) n.fraction =
        (s, dropped) := ⟨_, _, rfl⟩
    obtain ⟨hsize, hlength, hle⟩ := absorb_le n.fraction hwhole hpair
    simp only [hpair]
    refine isSome_float? hsize hexponent (lt_of_le_of_lt ?_ h)
    refine mul_le_mul_of_nonneg_right ?_ (pow_pos Decimal.slack_pos 3).le
    have hvalue : (n.fraction.foldl Decimal.step (Decimal.value n.whole)) =
        Decimal.value (n.whole ++ n.fraction) := by
      rw [Decimal.value, Decimal.value, List.foldl_append]
    have hcast : (s : ℚ) * 10 ^ dropped.length ≤ Decimal.value (n.whole ++ n.fraction) := by
      rw [← hvalue]
      exact_mod_cast hle
    have hsum : (([] : List Char).length : Int) -
        ((n.fraction.length - dropped.length : Nat) : Int) + n.shift = dropped.length + (n.shift - n.fraction.length) := by
      rw [List.length_nil]
      omega
    rw [hsum, zpow_add₀ (by norm_num : (10 : ℚ) ≠ 0), zpow_natCast, ← mul_assoc, number]
    exact mul_le_mul_of_nonneg_right hcast (zpow_pos (by norm_num) _).le

end Numeral

/-! ### Floating numbers -/

open Numeral

private theorem value_append_zeros (ds : List Char) (count : Nat) :
    Decimal.value (ds ++ List.replicate count '0') = Decimal.value ds * 10 ^ count := by
  induction count with
  | zero => simp
  | succ count ih =>
    rw [List.replicate_succ', ← List.append_assoc, Decimal.value, List.foldl_append]
    change Decimal.step (Decimal.value (ds ++ List.replicate count '0')) '0' = _
    rw [ih, Decimal.step, Nat.pow_succ]
    change 10 * _ + 0 = _
    ring

private theorem value_zeros_append (count : Nat) (ds : List Char) :
    Decimal.value (List.replicate count '0' ++ ds) = Decimal.value ds := by
  rw [Decimal.value, List.foldl_append]
  have hzeros := value_append_zeros [] count
  rw [List.nil_append, Decimal.value] at hzeros
  rw [hzeros]
  simp [Decimal.value]

private theorem number_scaledNumeral (s : Decimal.Scaled) :
    (scaledNumeral s).number = s.number := by
  rw [← Decimal.Scaled.number_trim s]
  have hvalue := Decimal.value_ofNat s.trim.digits
  have hpositive := List.length_pos_iff.2 (Decimal.ofNat_ne_nil s.trim.digits)
  unfold scaledNumeral
  simp only
  generalize Decimal.ofNat s.trim.digits = ds at hvalue hpositive ⊢
  split
  · next hzero =>
    rw [Decimal.Scaled.number, hzero]
    simp [Numeral.number, Decimal.value, Decimal.step]
  split
  · split
    · next hlead hshort =>
      generalize hcount : (ds.length + s.trim.exponent - 1).toNat + 1 - ds.length = count
      have hexponent : s.trim.exponent = ((count + 1 : Nat) : Int) - 1 := by omega
      have hdigits : ds ++ List.replicate count '0' ++ ['0'] =
          ds ++ List.replicate (count + 1) '0' := by
        rw [List.replicate_succ', List.append_assoc]
      simp only [Numeral.number, Numeral.shift, Decimal.Scaled.number, hdigits, value_append_zeros,
        hvalue]
      rw [hexponent, zpow_sub_one₀ (by norm_num : (10 : ℚ) ≠ 0), zpow_natCast]
      push_cast
      rw [mul_assoc]
      rfl
    · next hlead hlong =>
      simp only [Numeral.number, Numeral.shift, Decimal.Scaled.number, List.take_append_drop,
        hvalue, List.length_drop]
      congr 2
      omega
  split
  · next hlead =>
    generalize hcount : (-(ds.length + s.trim.exponent - 1) - 1).toNat = count
    have hdigits : ['0'] ++ (List.replicate count '0' ++ ds) =
        List.replicate (count + 1) '0' ++ ds := rfl
    simp only [Numeral.number, Numeral.shift, Decimal.Scaled.number, hdigits, value_zeros_append,
      hvalue, List.length_append, List.length_replicate]
    congr 2
    omega
  · next hlead =>
    simp only [Numeral.number, Numeral.shift, Decimal.Scaled.number, List.take_append_drop, hvalue,
      List.length_drop, Decimal.value_ofNat]
    congr 2
    split
    · next hdown =>
      rw [decide_eq_true_eq] at hdown
      omega
    · next hup =>
      rw [decide_eq_true_eq] at hup
      omega

/-! ### Parts in range -/

private theorem value_lt_pow {ds : List Char} (h : ∀ d ∈ ds, Decimal.isDigit d = true) :
    Decimal.value ds < 10 ^ ds.length := by
  induction ds using List.reverseRecOn with
  | nil => simp [Decimal.value]
  | append_singleton ds d ih =>
    have hinit := ih fun c hc => h c (List.mem_append_left _ hc)
    obtain ⟨k, rfl⟩ := exists_eq_digit (h d (by simp))
    have hdigit := (Decimal.digit_facts k.isLt).2.1
    have hlast : Decimal.value (ds ++ [Decimal.digit k.val]) = 10 * Decimal.value ds + k := by
      rw [Decimal.value, List.foldl_append]
      change Decimal.step (Decimal.value ds) (Decimal.digit k.val) = _
      rw [Decimal.step, hdigit]
    rw [hlast, List.length_append, List.length_singleton, Nat.pow_succ]
    omega

private theorem pow_le_of_ofNat {d : Nat} (hd : d ≠ 0) : 10 ^
    ((Decimal.ofNat d).length - 1) ≤ d := by
  induction d using Nat.strongRecOn with
  | _ d ih =>
    unfold Decimal.ofNat
    split
    · exact Nat.pos_of_ne_zero hd
    · have hlower := ih (d / 10) (by omega) (by omega)
      have hlength := List.length_pos_iff.2 (Decimal.ofNat_ne_nil (d / 10))
      rw [List.length_append, List.length_singleton, Nat.add_sub_cancel,
        show (Decimal.ofNat (d / 10)).length = (Decimal.ofNat (d / 10)).length - 1 + 1 by omega,
        Nat.pow_succ]
      omega

private theorem length_whole_le (s : Decimal.Scaled) : (scaledNumeral s).whole.length ≤ 16 := by
  unfold scaledNumeral
  simp only
  split
  · simp
  split
  · split
    · rw [List.length_append, List.length_replicate]
      omega
    · rw [List.length_take]
      omega
  split
  · simp
  · rw [List.length_take]
    omega

private theorem value_whole_lt (s : Decimal.Scaled) :
    Decimal.value (scaledNumeral s).whole < UInt64.size := by
  have hdigits := value_lt_pow (scaledNumeral_isPlain s).whole_digits
  have hsixteen := Nat.pow_le_pow_right (n := 10) (by decide) (length_whole_le s)
  have hsize : 10 ^ 16 < UInt64.size := by decide
  omega

private theorem exponent_lt {s : Decimal.Scaled} (h : s.number * slack ^ 3 < 2 ^ 1024) :
    ∀ ds, (scaledNumeral s).exponent = some (false, ds) → Decimal.value ds < 0x80000000 := by
  intro ds hds
  unfold scaledNumeral at hds
  simp only at hds
  split at hds
  · cases hds
  next hdigits =>
  split at hds
  · split at hds <;> cases hds
  split at hds
  · cases hds
  next hlead _ =>
  obtain ⟨hup, rfl⟩ := Prod.mk.inj (Option.some.inj hds)
  rw [decide_eq_false_iff_not] at hup
  rw [Decimal.value_ofNat]
  generalize hlead : (Decimal.ofNat s.trim.digits).length + s.trim.exponent - 1 = lead at hup
  obtain ⟨k, rfl⟩ := Int.eq_ofNat_of_zero_le (Int.not_lt.1 hup)
  have hpower : (10 : ℚ) ^ k ≤ s.number := by
    have hpositive := List.length_pos_iff.2 (Decimal.ofNat_ne_nil s.trim.digits)
    have hlower : (10 : ℚ) ^ ((Decimal.ofNat s.trim.digits).length - 1) ≤ s.trim.digits := by
      exact_mod_cast pow_le_of_ofNat hdigits
    have hsum : ((k : Nat) : Int) = ((Decimal.ofNat s.trim.digits).length - 1 : Nat) +
        s.trim.exponent := by omega
    rw [← zpow_natCast, hsum, zpow_add₀ (by norm_num : (10 : ℚ) ≠ 0), zpow_natCast,
      ← Decimal.Scaled.number_trim, Decimal.Scaled.number]
    exact mul_le_mul_of_nonneg_right hlower (zpow_pos (by norm_num) _).le
  have hbound : ((1 : Nat) : ℚ) * 10 ^ k * slack ^ 3 < 2 ^ 1024 := by
    rw [Nat.cast_one, one_mul]
    exact (mul_le_mul_of_nonneg_right hpower (pow_pos Decimal.slack_pos 3).le).trans_lt h
  have hk := le_308_of_lt Nat.one_pos hbound
  omega

private theorem isSome_value?_outermost {bits : UInt64} (h : bits ∈ Decimal.Binary.outermost) :
    (floatNumeral bits).value?.isSome = true := by
  have hall : (Decimal.Binary.outermost.all fun bits => decide (
      (Decimal.Binary.ofBits bits).mantissa ≠ 0 ∧
        ({ scaledNumeral ((Decimal.Binary.ofBits bits).shortestFrom 308 18) with
          negative := Decimal.isNegativeBits bits } : Numeral).value?.isSome = true)) = true := by
    decide +kernel
  obtain ⟨hne, hsome⟩ := of_decide_eq_true (List.all_eq_true.1 hall bits h)
  rw [← Decimal.Binary.leadingExponent_outermost h] at hsome
  rw [floatNumeral, if_neg hne]
  exact hsome

private theorem isSome_value?_signed {n : Numeral} (negative : Bool)
    (hwhole : Decimal.value n.whole < UInt64.size)
    (hexponent : ∀ ds, n.exponent = some (false, ds) → Decimal.value ds < 0x80000000)
    (h : n.number * slack ^ 3 < 2 ^ 1024) :
    ({ n with negative } : Numeral).value?.isSome = true := isSome_value? hwhole hexponent h

/-- The text of a finite floating number denotes a number. -/
theorem isSome_value?_floatNumeral {bits : UInt64} (h : Decimal.isFiniteBits bits = true) :
    (floatNumeral bits).value?.isSome = true := by
  by_cases houter : bits ∈ Decimal.Binary.outermost
  · exact isSome_value?_outermost houter
  have hbound := Decimal.Binary.number_shortest_lt h houter
  rw [floatNumeral]
  apply isSome_value?_signed
  · split
    · decide
    · exact value_whole_lt _
  · split
    · intro ds hds
      cases hds
    · exact exponent_lt hbound
  · split
    · have hzero : Numeral.number ⟨false, ['0'], ['0'], none⟩ = 0 := by
        simp [Numeral.number, Decimal.value, Decimal.step]
      rw [hzero, zero_mul]
      positivity
    · rw [number_scaledNumeral]
      exact hbound

end RunLedger.Json
