import Mathlib.Algebra.Order.Field.Rat
import Mathlib.Algebra.Order.Field.Power
import Mathlib.Tactic.IntervalCases
import Mathlib.Tactic.Linarith
import Mathlib.Tactic.Ring

/-!
How far the product of two floating numbers of 64 bits lies above the product of what they stand
for. A number with a full mantissa is rounded up by less than one part in `2 ^ 52`, so a product
that stays below `2 ^ 1024` by a few such parts is no infinity.
-/

set_option autoImplicit false

namespace RunLedger.Decimal

open Float.Model Float.Model.UnpackedFloat

/-- A positive or negative number with a full mantissa that is at most `q` without its sign. -/
def AtMost (low : Int) (q : ℚ) (f : UnpackedFloat) : Prop :=
  ∃ sign mantissa exponent positive, f = .finite sign mantissa exponent positive ∧
    2 ^ 52 ≤ mantissa ∧ mantissa < 2 ^ 53 ∧ low ≤ exponent ∧
      (mantissa : ℚ) * (2 : ℚ) ^ exponent ≤ q

/-- What a number is multiplied by at most when it is rounded. -/
def slack : ℚ := 1 + 1 / 2 ^ 52

theorem slack_pos : 0 < slack := by
  unfold slack
  positivity

/-! ### Rounding -/

private theorem targetExponent_eq (e : Int) :
    Format.targetExponent .binary64 e = max (e - (53 : Nat)) (-1074) := rfl

private theorem mantissa_shiftRight (em : ExtendedMantissa) (k : Nat) :
    (em >>> k).mantissa = em.mantissa / 2 ^ k := by
  induction k with
  | zero => exact (Nat.div_one _).symm
  | succ k ih =>
    change (em >>> k).mantissa / 2 = _
    rw [ih, Nat.div_div_eq_div_mul, Nat.pow_succ]

private theorem roundedMantissa_le (em : ExtendedMantissa) : em.mantissa ≤ em.roundedMantissa ∧
    em.roundedMantissa ≤ em.mantissa + 1 := by
  obtain ⟨m, roundBit, stickyBit⟩ := em
  cases roundBit <;> cases stickyBit <;>
    simp only [ExtendedMantissa.roundedMantissa, ExtendedMantissa.accuracy,
      Accuracy.roundToNearestEven] <;> omega

private theorem shiftToTargetExponent_eq {m : Nat} {e : Int} (hm : 2 ^ 52 ≤ m) (he : -1074 ≤ e) :
    ∃ k em, shiftToTargetExponent .binary64 m e .exact = (em, e + (k : Nat)) ∧
      em.mantissa = m / 2 ^ k ∧ 2 ^ 52 * 2 ^ k ≤ m ∧ m < 2 ^ 53 * 2 ^ k := by
  have hne : m ≠ 0 := by
    rintro rfl
    omega
  have hlog : 52 ≤ m.log2 := (Nat.le_log2 hne).2 hm
  have htarget : Format.targetExponent .binary64 (totalExponent m e) = e + (m.log2 - 52 : Nat) := by
    rw [targetExponent_eq, totalExponent]
    omega
  have hk : ((e + ((m.log2 - 52 : Nat) : Int)) - e).toNat = m.log2 - 52 := by omega
  refine ⟨m.log2 - 52, (ExtendedMantissa.mk m false false) >>> (m.log2 - 52), ?_, ?_, ?_, ?_⟩
  · rw [shiftToTargetExponent, htarget, shiftToExponent]
    simp only [hk]
    rfl
  · exact mantissa_shiftRight _ _
  · rw [← Nat.pow_add, Nat.add_sub_cancel' hlog]
    exact Nat.log2_self_le hne
  · rw [← Nat.pow_add, show 53 + (m.log2 - 52) = m.log2 + 1 by omega]
    exact Nat.lt_log2_self

private theorem shiftToTargetExponent_rounded {r : Nat} {e : Int} (hr : 2 ^ 52 ≤ r)
    (hle : r ≤ 2 ^ 53) (he : -1074 ≤ e) :
    ∃ em e', shiftToTargetExponent .binary64 r e .exact = (em, e') ∧ 2 ^ 52 ≤ em.mantissa ∧
      em.mantissa < 2 ^ 53 ∧ e ≤ e' ∧ (em.mantissa : ℚ) * (2 : ℚ) ^ e' = r * (2 : ℚ) ^ e := by
  obtain ⟨k, em, hshift, hmantissa, hlow, hhigh⟩ := shiftToTargetExponent_eq hr he
  have hk : k = 0 ∨ (k = 1 ∧ r = 2 ^ 53) := by
    rcases Nat.lt_or_ge k 2 with hlt | hge
    · interval_cases k
      · exact .inl rfl
      · exact .inr ⟨rfl, by omega⟩
    · have hpow : 2 ^ 2 ≤ 2 ^ k := Nat.pow_le_pow_right (by decide) hge
      omega
  rcases hk with rfl | ⟨rfl, rfl⟩
  · rw [Nat.pow_zero, Nat.div_one] at hmantissa
    refine ⟨em, _, hshift, by omega, by omega, by omega, ?_⟩
    rw [hmantissa, Nat.cast_zero, add_zero]
  · have hhalf : em.mantissa = 2 ^ 52 := hmantissa
    refine ⟨em, _, hshift, by omega, by omega, by omega, ?_⟩
    rw [hhalf, Nat.cast_one, zpow_add_one₀ (by norm_num : (2 : ℚ) ≠ 0)]
    push_cast
    ring

private theorem rounded_le {m r k : Nat} (e : Int) (hr : r ≤ m / 2 ^ k + 1)
    (hm : 2 ^ 52 * 2 ^ k ≤ m) :
    (r : ℚ) * (2 : ℚ) ^ (e + (k : Int)) ≤ m * (2 : ℚ) ^ e * slack := by
  have hround : r * 2 ^ k ≤ m + 2 ^ k := by
    have hdiv := Nat.div_mul_le_self m (2 ^ k)
    calc r * 2 ^ k ≤ (m / 2 ^ k + 1) * 2 ^ k := Nat.mul_le_mul_right _ hr
      _ ≤ m + 2 ^ k := by rw [Nat.add_mul, Nat.one_mul]; omega
  have hround' : (r : ℚ) * 2 ^ k ≤ m + 2 ^ k := by exact_mod_cast hround
  have hm' : (2 : ℚ) ^ 52 * 2 ^ k ≤ m := by exact_mod_cast hm
  have hscale : (0 : ℚ) < (2 : ℚ) ^ e := zpow_pos (by norm_num) e
  have hparts : (r : ℚ) * 2 ^ k ≤ m * slack := by
    unfold slack
    linarith
  rw [zpow_add₀ (by norm_num : (2 : ℚ) ≠ 0), zpow_natCast]
  calc (r : ℚ) * ((2 : ℚ) ^ e * 2 ^ k) = r * 2 ^ k * (2 : ℚ) ^ e := by ring
    _ ≤ m * slack * (2 : ℚ) ^ e := mul_le_mul_of_nonneg_right hparts hscale.le
    _ = m * (2 : ℚ) ^ e * slack := by ring

private theorem atMost_round (sign : Sign) {m : Nat} {e : Int} (hm : 2 ^ 52 ≤ m) (he : -1074 ≤ e) :
    AtMost e ((m : ℚ) * (2 : ℚ) ^ e * slack) (roundWithAccuracy .binary64 sign m e .exact) := by
  obtain ⟨k, em, hshift, hmantissa, hlow, hhigh⟩ := shiftToTargetExponent_eq hm he
  obtain ⟨hle, hge⟩ := roundedMantissa_le em
  have hfull : 2 ^ 52 ≤ m / 2 ^ k := (Nat.le_div_iff_mul_le (Nat.two_pow_pos k)).2 hlow
  have hshort : m / 2 ^ k < 2 ^ 53 := (Nat.div_lt_iff_lt_mul (Nat.two_pow_pos k)).2 hhigh
  have hbound := rounded_le e (r := em.roundedMantissa) (by omega) hlow
  obtain ⟨em', e', hshift', hfull', hshort', hexponent, hvalue⟩ :=
    shiftToTargetExponent_rounded (r := em.roundedMantissa) (e := e + (k : Int)) (by omega)
      (by omega) (by omega)
  have hne : em'.mantissa ≠ 0 := by omega
  refine ⟨sign, em'.mantissa, e', Nat.pos_of_ne_zero hne, ?_, hfull', hshort', by omega,
    hvalue ▸ hbound⟩
  rw [roundWithAccuracy, hshift]
  dsimp only
  rw [hshift']
  exact dif_neg hne

/-! ### Packing -/

private theorem toNat_append_mantissa {m : Nat} (hfull : 2 ^ 52 ≤ m) (hshort : m < 2 ^ 53) :
    (1#1 ++ BitVec.ofNat 52 m).toNat = m := by
  rw [BitVec.toNat_append, BitVec.toNat_ofNat, ← Nat.shiftLeft_add_eq_or_of_lt (by omega)]
  simp only [BitVec.toNat_ofNat, Nat.shiftLeft_eq]
  omega

private theorem finite_congr {sign : Sign} {m m' : Nat} {e e' : Int} {positive : 0 < m}
    {positive' : 0 < m'} (hm : m = m') (he : e = e') :
    UnpackedFloat.finite sign m e positive = .finite sign m' e' positive' := by
  subst hm he
  rfl

private theorem unpack_pack (sign : Sign) {m : Nat} {e : Int} (positive : 0 < m)
    (hfull : 2 ^ 52 ≤ m) (hshort : m < 2 ^ 53) (hlow : -1074 ≤ e) (hhigh : e ≤ 971) :
    ∃ sign', (Float.Model.pack (.finite sign m e positive)).unpack =
      .finite sign' m e positive := by
  have hlog : m.log2 = 52 := (Nat.log2_eq_iff (by omega)).2 ⟨hfull, hshort⟩
  obtain ⟨b, hb⟩ : ∃ b : Nat, e = (b : Int) - 1075 := ⟨(e + 1075).toNat, by omega⟩
  have hbits : (e + (Format.exponentBias .binary64 : Nat) + (52 : Nat)).toNat = b := by
    simp only [Format.exponentBias]
    omega
  have hexponent : (BitVec.ofNat 11 b).toNat = b := by
    rw [BitVec.toNat_ofNat, Nat.mod_eq_of_lt (by omega)]
  have hzero : BitVec.ofNat 11 b ≠ 0#11 := by
    intro h
    have := congrArg BitVec.toNat h
    rw [hexponent, BitVec.toNat_ofNat] at this
    omega
  have hones : BitVec.ofNat 11 b ≠ -1#11 := by
    intro h
    have := congrArg BitVec.toNat h
    rw [hexponent] at this
    have hlast : (-1#11).toNat = 2047 := by decide
    omega
  have hpack : UnpackedFloat.pack .binary64 (.finite sign m e positive) =
      packComponents .binary64 sign (BitVec.ofNat 11 b) (BitVec.ofNat 52 m) := by
    have hfits : ¬ 2 ^ 11 ≤ (e + (Format.exponentBias .binary64 : Nat) + (52 : Nat)).toNat + 1 := by
      omega
    refine (if_neg hfits).trans ((if_pos (congrArg (· + 1) hlog)).trans ?_)
    rw [← hbits]
  change ∃ sign', UnpackedFloat.unpack .binary64 (UnpackedFloat.pack .binary64
    (.finite sign m e positive)) = .finite sign' m e positive
  rw [hpack]
  generalize hpacked : packComponents .binary64 sign (BitVec.ofNat 11 b) (BitVec.ofNat 52 m) =
    packed
  have hexponent' : unpackExponent packed = BitVec.ofNat 11 b := by
    rw [← hpacked, unpackExponent_packComponents]
  have hmantissa : unpackMantissa packed = BitVec.ofNat 52 m := by
    rw [← hpacked, unpackMantissa_packComponents]
  refine ⟨Sign.ofBitVec (unpackSign packed), ?_⟩
  refine (if_neg (hexponent' ▸ hones)).trans ((if_neg (hexponent' ▸ hzero)).trans ?_)
  refine finite_congr ?_ ?_
  · rw [hmantissa]
    exact toNat_append_mantissa hfull hshort
  · rw [hexponent', hexponent]
    simp only [Format.exponentBias]
    omega

private theorem AtMost.pack {low : Int} {q : ℚ} {f : UnpackedFloat} (h : AtMost low q f)
    (hlow : -1074 ≤ low) (hq : q < 2 ^ 1024) : AtMost low q (Float.Model.pack f).unpack := by
  obtain ⟨sign, m, e, positive, rfl, hfull, hshort, hexponent, hvalue⟩ := h
  have hhigh : e ≤ 971 := by
    by_contra hlarge
    have hm : (2 : ℚ) ^ 52 ≤ m := by exact_mod_cast hfull
    have he : (2 : ℚ) ^ (972 : Int) ≤ (2 : ℚ) ^ e := zpow_le_zpow_right₀ (by norm_num) (by omega)
    have hproduct : (2 : ℚ) ^ 52 * (2 : ℚ) ^ (972 : Int) ≤ m * (2 : ℚ) ^ e :=
      mul_le_mul hm he (by positivity) (by positivity)
    have hpower : (2 : ℚ) ^ 52 * (2 : ℚ) ^ (972 : Int) = 2 ^ 1024 := by
      rw [← zpow_natCast, ← zpow_natCast, ← zpow_add₀ (by norm_num : (2 : ℚ) ≠ 0)]
      rfl
    exact absurd hq (not_lt.2 ((hpower ▸ hproduct).trans hvalue))
  obtain ⟨sign', hpack⟩ := unpack_pack sign positive hfull hshort (by omega) hhigh
  exact ⟨sign', m, e, positive, hpack, hfull, hshort, hexponent, hvalue⟩

/-! ### Whole numbers, powers of ten and their products -/

private theorem atMost_mul {low low' : Int} {p q : ℚ} {f g : UnpackedFloat} (hf : AtMost low p f)
    (hg : AtMost low' q g) (hlow : -1074 ≤ low + low') (hp : 0 ≤ p) :
    AtMost (low + low') (p * q * slack) (UnpackedFloat.mul .binary64 f g) := by
  obtain ⟨s, m, e, hm, rfl, hfull, -, hexponent, hvalue⟩ := hf
  obtain ⟨s', m', e', hm', rfl, hfull', -, hexponent', hvalue'⟩ := hg
  have hproduct : 2 ^ 52 ≤ m * m' := hfull.trans (Nat.le_mul_of_pos_right m hm')
  obtain ⟨sign, r, er, hr, heq, hrfull, hrshort, hrexponent, hrvalue⟩ :=
    atMost_round (s * s') (e := e + e') hproduct (by omega)
  refine ⟨sign, r, er, hr, heq, hrfull, hrshort, by omega, hrvalue.trans ?_⟩
  have hsplit : ((m * m' : Nat) : ℚ) * (2 : ℚ) ^ (e + e') =
      (m * (2 : ℚ) ^ e) * (m' * (2 : ℚ) ^ e') := by
    rw [zpow_add₀ (by norm_num : (2 : ℚ) ≠ 0)]
    push_cast
    ring
  rw [hsplit]
  exact mul_le_mul_of_nonneg_right (mul_le_mul hvalue hvalue' (by positivity) hp) slack_pos.le

theorem AtMost.lower {low low' : Int} {q : ℚ} {f : UnpackedFloat} (h : AtMost low q f)
    (hlow : low' ≤ low) : AtMost low' q f := by
  obtain ⟨sign, m, e, positive, hf, hfull, hshort, hexponent, hvalue⟩ := h
  exact ⟨sign, m, e, positive, hf, hfull, hshort, by omega, hvalue⟩

private theorem slack_lt_two : slack < 2 := by
  unfold slack
  norm_num

private theorem full_shiftLeft {n : Nat} (hpos : 0 < n) : 2 ^ 52 ≤ n <<< (52 - n.log2) := by
  rw [Nat.shiftLeft_eq]
  calc 2 ^ 52 ≤ 2 ^ (n.log2 + (52 - n.log2)) := Nat.pow_le_pow_right (by decide) (by omega)
    _ = 2 ^ n.log2 * 2 ^ (52 - n.log2) := Nat.pow_add _ _ _
    _ ≤ n * 2 ^ (52 - n.log2) := Nat.mul_le_mul_right _ (Nat.log2_self_le (by omega))

private theorem ofUInt64_eq {n : UInt64} (hpos : 0 < n.toNat) :
    UnpackedFloat.ofUInt64 .binary64 n = roundWithAccuracy .binary64 .positive
      (n.toNat <<< (52 - n.toNat.log2)) (-(52 - n.toNat.log2 : Nat)) .exact := by
  have hcompare : compare (n.toNat : Int) 0 = .gt := by
    rw [Int.compare_eq_gt]
    omega
  have htarget : (-Format.targetExponent .binary64 (totalExponent n.toNat 0)).toNat =
      52 - n.toNat.log2 := by
    rw [targetExponent_eq, totalExponent]
    omega
  simp only [UnpackedFloat.ofUInt64, UnpackedFloat.ofNat, UnpackedFloat.ofInt,
    UnpackedFloat.normalize, hcompare, Int.toNat_natCast, UnpackedFloat.round, decreaseExponent,
    Int.zero_sub, htarget]

private theorem atMost_toFloat {n : UInt64} (hpos : 0 < n.toNat) :
    AtMost (-52) (n.toNat * slack) n.toFloat.toModel.unpack := by
  have hslack : (n.toNat : ℚ) * slack < 2 ^ 1024 := by
    have hcast : (n.toNat : ℚ) < 2 ^ 64 := by exact_mod_cast n.toNat_lt
    calc (n.toNat : ℚ) * slack < 2 ^ 64 * 2 :=
          mul_lt_mul hcast slack_lt_two.le slack_pos (by positivity)
      _ = 2 ^ 65 := by norm_num
      _ < 2 ^ 1024 := pow_lt_pow_right₀ (by norm_num) (by norm_num)
  have hvalue : ((n.toNat <<< (52 - n.toNat.log2) : Nat) : ℚ) *
      (2 : ℚ) ^ (-(52 - n.toNat.log2 : Nat) : Int) = n.toNat := by
    rw [Nat.shiftLeft_eq, zpow_neg, zpow_natCast]
    push_cast
    exact mul_inv_cancel_right₀ (by positivity) _
  have hbound := atMost_round .positive (full_shiftLeft hpos)
    (e := -(52 - n.toNat.log2 : Nat)) (by omega)
  rw [hvalue, ← ofUInt64_eq hpos] at hbound
  exact (hbound.lower (by omega)).pack (by omega) hslack

private theorem ofScientific_one (k : Nat) :
    Float.ofScientific 1 false k = .ofModel (.ofScientific 1 k) := by
  by_cases hsmall : k ≤ 22
  · have htable : ∀ k < 23, Float.ofScientific 1 false k = .ofModel (.ofScientific 1 k) := by
      decide +kernel
    exact htable k (by omega)
  · rw [Float.ofScientific, dif_neg fun h => hsmall h.2]
    rfl

private theorem largest_power_lt : (10 : ℚ) ^ 308 * slack < 2 ^ 1024 := by
  have hnat : 10 ^ 308 * (2 ^ 52 + 1) < 2 ^ 1024 * 2 ^ 52 := by decide +kernel
  have hcast : (10 : ℚ) ^ 308 * (2 ^ 52 + 1) < 2 ^ 1024 * 2 ^ 52 := by exact_mod_cast hnat
  have hslack : slack = (2 ^ 52 + 1) / 2 ^ 52 := by
    rw [slack, add_div, div_self (by positivity)]
  rw [hslack, ← mul_div_assoc, div_lt_iff₀ (by positivity)]
  exact hcast

private theorem atMost_ofScientific {k : Nat} (hk : k ≤ 308) :
    AtMost (-53) (10 ^ k * slack) (Float.ofScientific 1 false k).toModel.unpack := by
  have hslack : (10 : ℚ) ^ k * slack < 2 ^ 1024 := by
    calc (10 : ℚ) ^ k * slack ≤ 10 ^ 308 * slack :=
          mul_le_mul_of_nonneg_right (pow_le_pow_right₀ (by norm_num) hk) slack_pos.le
      _ < 2 ^ 1024 := largest_power_lt
  have hunpacked : UnpackedFloat.ofScientific .binary64 1 k =
      roundWithAccuracy .binary64 .positive (2 ^ 53 * 10 ^ k) (-53) .exact := by
    have hlarge : ¬ (k : Int) > 2 ^ 11 := by omega
    have hsmall : ¬ (k : Int) < -(2 ^ 11 + (Nat.log2 1 : Int)) := by omega
    rw [UnpackedFloat.ofScientific, dif_neg Nat.one_ne_zero, if_neg hlarge, if_neg hsmall,
      if_pos (Int.natCast_nonneg k)]
    rfl
  have hvalue : ((2 ^ 53 * 10 ^ k : Nat) : ℚ) * (2 : ℚ) ^ (-53 : Int) = 10 ^ k := by
    push_cast
    norm_num
    ring
  have hbound := atMost_round .positive (m := 2 ^ 53 * 10 ^ k) (e := -53)
    ((by decide : 2 ^ 52 ≤ 2 ^ 53).trans (Nat.le_mul_of_pos_right _ (by positivity))) (by omega)
  rw [hvalue, ← hunpacked] at hbound
  rw [ofScientific_one]
  exact hbound.pack (by omega) hslack

private theorem isInf_zero_mul {k : Nat} (hk : k ≤ 308) :
    ((0 : UInt64).toFloat * Float.ofScientific 1 false k).isInf = false := by
  obtain ⟨sign, m, e, positive, hpower, -⟩ := atMost_ofScientific hk
  have hzero : (0 : UInt64).toFloat.toModel.unpack = .zero .positive := rfl
  have hproduct : ((0 : UInt64).toFloat * Float.ofScientific 1 false k).toModel =
      .pack (.zero (.positive * sign)) := by
    change Float.Model.pack (UnpackedFloat.mul _ _ _) = _
    rw [hzero, hpower]
    rfl
  rw [Float.isInf, hproduct]
  cases sign <;> rfl

/-- A product of a whole number and a power of ten that leaves room for three roundings is no
infinity. -/
theorem isInf_mul_eq_false {n : UInt64} {k : Nat} (hk : k ≤ 308)
    (hbound : (n.toNat : ℚ) * 10 ^ k * slack ^ 3 < 2 ^ 1024) :
    (n.toFloat * Float.ofScientific 1 false k).isInf = false := by
  rcases Nat.eq_zero_or_pos n.toNat with hzero | hpos
  · obtain rfl : n = 0 := UInt64.toNat_inj.1 hzero
    exact isInf_zero_mul hk
  have hn := atMost_toFloat hpos
  have hpower := atMost_ofScientific hk
  have hproduct := atMost_mul hn hpower (by omega) (mul_nonneg (by positivity) slack_pos.le)
  have hfits : (n.toNat : ℚ) * slack * (10 ^ k * slack) * slack < 2 ^ 1024 := by
    calc (n.toNat : ℚ) * slack * (10 ^ k * slack) * slack = n.toNat * 10 ^ k * slack ^ 3 := by ring
      _ < 2 ^ 1024 := hbound
  obtain ⟨sign, m, e, positive, hresult, -⟩ := hproduct.pack (by omega) hfits
  change UnpackedFloat.isInf _ = false
  rw [show (n.toFloat * Float.ofScientific 1 false k).toModel.unpack = _ from hresult]
  rfl

end RunLedger.Decimal
