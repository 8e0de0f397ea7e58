import Mathlib.Data.List.Induction
import RunLedger.Proofs.Json.Printed

/-!
What becomes of a value that is printed and read again. Everything comes back as it was, whole
numbers included; only a floating number comes back as the number that its text denotes, and the
last bits of that may be others than its own.
-/

set_option autoImplicit false

namespace RunLedger.Json

namespace Numeral

private theorem le_foldl_step (cs : List Char) (s : Nat) : s ≤ cs.foldl Decimal.step s := by
  induction cs generalizing s with
  | nil => exact Nat.le_refl s
  | cons c cs ih =>
    have hstep : s ≤ Decimal.step s c := by
      rw [Decimal.step]
      omega
    exact Nat.le_trans hstep (ih _)

theorem absorb_eq {cs : List Char} {s : Nat} (h : cs.foldl Decimal.step s < UInt64.size) :
    absorb s cs = (cs.foldl Decimal.step s, []) := by
  induction cs generalizing s with
  | nil => rfl
  | cons c cs ih =>
    have hnext : s * 10 + digitOf c = Decimal.step s c := by
      rw [Decimal.step, digitOf, Nat.mul_comm]
    have hfits : Decimal.step s c < UInt64.size :=
      Nat.lt_of_le_of_lt (le_foldl_step cs _) h
    rw [absorb, hnext, if_pos hfits]
    exact ih h

private theorem absorb_ofNat {n : Nat} (h : n < UInt64.size) : absorb 0 (Decimal.ofNat n) =
    (n, []) := by
  have hvalue : (Decimal.ofNat n).foldl Decimal.step 0 = n := Decimal.value_ofNat n
  rw [absorb_eq (by rwa [hvalue]), hvalue]

private theorem exists_float_of_value? {n : Numeral} {m : Number}
    (hbroken : n.fraction ≠ [] ∨ n.exponent ≠ none) (h : n.value? = some m) :
    ∃ bits, m = .float bits := by
  have hnot :
      ¬ (n.fraction.isEmpty && n.exponent.isNone && (absorb 0 n.whole).2.isEmpty) = true := by
    intro hwhole
    simp only [Bool.and_eq_true, List.isEmpty_iff, Option.isNone_iff_eq_none] at hwhole
    exact hbroken.elim (· hwhole.1.1) (· hwhole.1.2)
  unfold value? at h
  simp only [if_neg hnot] at h
  unfold float? at h
  simp only at h
  split at h
  · obtain ⟨f, -, rfl⟩ := Option.map_eq_some_iff.1 h
    exact ⟨_, rfl⟩
  · split at h
    · split at h
      · cases h
      · exact ⟨_, (Option.some.inj h).symm⟩
    · obtain ⟨f, -, rfl⟩ := Option.map_eq_some_iff.1 h
      exact ⟨_, rfl⟩

end Numeral

private theorem scaledNumeral_broken (s : Decimal.Scaled) :
    (scaledNumeral s).fraction ≠ [] ∨ (scaledNumeral s).exponent ≠ none := by
  have hne := Decimal.ofNat_ne_nil s.trim.digits
  unfold scaledNumeral
  simp only
  split
  · exact .inl (by simp)
  split
  · split
    · exact .inl (by simp)
    · next hlong =>
      exact .inl (by simpa using hlong)
  split
  · exact .inl (by simp [hne])
  · exact .inr (by simp)

private theorem floatNumeral_broken (bits : UInt64) :
    (floatNumeral bits).fraction ≠ [] ∨ (floatNumeral bits).exponent ≠ none := by
  rw [floatNumeral]
  simp only
  split
  · exact .inl (by simp)
  · exact scaledNumeral_broken _

namespace Number

/-- A number as its text reads. -/
def reread : Number → Number
  | .float bits => (floatNumeral bits).value?.getD (.float bits)
  | n => n

theorem value?_nat (n : UInt64) : (nat n).numeral.value? = some (nat n) := by
  have habsorb := Numeral.absorb_ofNat n.toNat_lt
  simp [numeral, Numeral.value?, habsorb]

theorem value?_neg (n : Fin 0x8000000000000000) : (neg n).numeral.value? = some (neg n) := by
  have hsize : n.val + 1 < UInt64.size := by
    have := n.isLt
    have hlarge : UInt64.size = 0x10000000000000000 := rfl
    omega
  have habsorb := Numeral.absorb_ofNat hsize
  have hback : (-(-((n.val + 1 : Nat) : Int)) - 1).toNat = n.val := by omega
  have hneg : ¬ 0 ≤ -((n.val + 1 : Nat) : Int) := by omega
  have hint : ofInt? (-((n.val + 1 : Nat) : Int)) = some (neg n) := by
    rw [ofInt?, if_neg hneg, dif_pos (by rw [hback]; exact n.isLt)]
    simp only [hback]
  simp only [numeral, Numeral.value?, habsorb, hint]
  rfl

theorem eq_reread {n m : Number} (h : n.numeral.value? = some m) : m = n.reread := by
  cases n with
  | nat n =>
    rw [value?_nat] at h
    exact (Option.some.inj h).symm
  | neg n =>
    rw [value?_neg] at h
    exact (Option.some.inj h).symm
  | float bits =>
    have hfloat : (floatNumeral bits).value? = some m := h
    rw [reread, hfloat, Option.getD_some]

theorem int?_of_numeral {n m : Number} (h : n.numeral.value? = some m) : m.int? = n.int? := by
  cases n with
  | nat n => rw [Option.some.inj ((value?_nat n).symm.trans h)]
  | neg n => rw [Option.some.inj ((value?_neg n).symm.trans h)]
  | float bits =>
    obtain ⟨bits', rfl⟩ := Numeral.exists_float_of_value? (floatNumeral_broken bits) h
    rfl

theorem print_of_int? {n : Number} {i : Int} (h : n.int? = some i) : n.print = Decimal.ofInt i := by
  cases n with
  | nat n =>
    obtain rfl := Option.some.inj h
    rw [Decimal.ofInt, if_neg (by omega), Int.natAbs_natCast, print]
  | neg n =>
    obtain rfl := Option.some.inj h
    have habs : (-(n.val : Int) - 1).natAbs = n.val + 1 := by omega
    rw [Decimal.ofInt, if_pos (by omega), habs, print]
  | float bits => cases h

end Number

namespace Value

mutual
/-- A value with every number as its text reads. -/
def reread : Value → Value
  | .number n => .number n.reread
  | .list items => .list (rereadItems items)
  | .record fields => .record (rereadFields fields)
  | v => v

/-- The items of a list with every number as its text reads. -/
def rereadItems : List Value → List Value
  | [] => []
  | v :: vs => reread v :: rereadItems vs

/-- The fields of a record with every number as its text reads. -/
def rereadFields : List (String × Value) → List (String × Value)
  | [] => []
  | (k, v) :: fs => (k, reread v) :: rereadFields fs
end

theorem map_fst_rereadFields (fields : List (String × Value)) :
    (rereadFields fields).map Prod.fst = fields.map Prod.fst := by
  induction fields with
  | nil => rfl
  | cons f fs ih => rw [rereadFields, List.map_cons, List.map_cons, ih]

end Value

private theorem insertField_of_last {α : Type} {key : String} {x : α} {fields : List (String × α)}
    (h : ∀ f ∈ fields, f.1 < key) : insertField key x fields = fields ++ [(key, x)] := by
  induction fields with
  | nil => rfl
  | cons f fs ih =>
    have hlt : f.1 < key := h f List.mem_cons_self
    have hne : ¬ key = f.1 := fun heq => String.lt_irrefl _ (heq ▸ hlt)
    rw [insertField, if_neg (String.lt_asymm hlt), if_neg hne,
      ih fun g hg => h g (List.mem_cons_of_mem _ hg), List.cons_append]

theorem sortFields_of_pairwise {α : Type} {fields : List (String × α)}
    (h : (fields.map Prod.fst).Pairwise (· < ·)) : sortFields fields = fields := by
  induction fields using List.reverseRecOn with
  | nil => rfl
  | append_singleton fs f ih =>
    rw [List.map_append, List.pairwise_append] at h
    obtain ⟨hsorted, -, hlast⟩ := h
    have hstart : sortFields fs = fs := ih hsorted
    rw [sortFields, List.foldl_append, List.foldl_cons, List.foldl_nil]
    rw [sortFields] at hstart
    rw [hstart]
    apply insertField_of_last
    intro g hg
    exact hlast g.1 (List.mem_map_of_mem hg) f.1 (by simp)

namespace Value

mutual
private theorem eq_reread_of_read : ∀ {v w : Value} {room : Nat}, v.WellFormed →
    Value.read room (Document.ofPrinted v) = some w → w = v.reread
  | .null, _, _, _, h => by
    rw [Document.ofPrinted, Value.read] at h
    exact (Option.some.inj h).symm
  | .bool b, _, _, _, h => by
    rw [Document.ofPrinted, Value.read] at h
    exact (Option.some.inj h).symm
  | .number n, _, _, _, h => by
    rw [Document.ofPrinted, Value.read] at h
    obtain ⟨m, hm, rfl⟩ := Option.map_eq_some_iff.1 h
    rw [Number.eq_reread hm, reread]
  | .text s, _, _, _, h => by
    rw [Document.ofPrinted, Value.read] at h
    exact (Option.some.inj h).symm
  | .list items, _, 0, _, h => by simp [Document.ofPrinted, Value.read] at h
  | .list items, _, room + 1, hwell, h => by
    rw [Document.ofPrinted, Value.read] at h
    obtain ⟨vs, hvs, rfl⟩ := Option.map_eq_some_iff.1 h
    rw [WellFormed] at hwell
    rw [rereadItems_of_read hwell hvs, reread]
  | .record fields, _, 0, _, h => by simp [Document.ofPrinted, Value.read] at h
  | .record fields, _, room + 1, hwell, h => by
    rw [Document.ofPrinted, Value.read] at h
    obtain ⟨fs, hfs, rfl⟩ := Option.map_eq_some_iff.1 h
    rw [WellFormed] at hwell
    have hkeys : ((rereadFields fields).map Prod.fst).Pairwise (· < ·) := by
      rw [map_fst_rereadFields, List.pairwise_map]
      exact hwell.1
    rw [rereadFields_of_read hwell.2 hfs, sortFields_of_pairwise hkeys, reread]

private theorem rereadItems_of_read : ∀ {items ws : List Value}
    {room : Nat}, ItemsWellFormed items →
    Value.readItems room (Document.ofPrintedItems items) = some ws → ws = rereadItems items
  | [], _, _, _, h => by
    rw [Document.ofPrintedItems, Value.readItems] at h
    exact (Option.some.inj h).symm
  | v :: vs, ws, room, hwell, h => by
    rw [ItemsWellFormed] at hwell
    simp only [Document.ofPrintedItems, Value.readItems] at h
    split at h
    · next w ws' hw hws =>
      rw [← Option.some.inj h, eq_reread_of_read hwell.1 hw, rereadItems_of_read hwell.2 hws,
        rereadItems]
    · cases h

private theorem rereadFields_of_read : ∀ {fields ws : List (String × Value)} {room : Nat},
    FieldsWellFormed fields →
    Value.readFields room (Document.ofPrintedFields fields) = some ws → ws = rereadFields fields
  | [], _, _, _, h => by
    rw [Document.ofPrintedFields, Value.readFields] at h
    exact (Option.some.inj h).symm
  | (k, v) :: fs, ws, room, hwell, h => by
    rw [FieldsWellFormed] at hwell
    simp only [Document.ofPrintedFields, Value.readFields] at h
    split at h
    · next w ws' hw hws =>
      rw [← Option.some.inj h, eq_reread_of_read hwell.1 hw, rereadFields_of_read hwell.2 hws,
        rereadFields]
    · cases h
end

/-- A value whose text can be read comes back with every number as its text reads. -/
theorem parse?_print_eq {v w : Value} (hwell : v.WellFormed) (h : parse? v.print = some w) :
    w = v.reread := by
  rw [parse?, readString?_print] at h
  exact eq_reread_of_read hwell h

end Value

end RunLedger.Json
