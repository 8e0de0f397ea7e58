import Mathlib.Data.List.Basic
import RunLedger.Proofs.Json.Finite
import RunLedger.Proofs.Json.Members

/-!
Typed values that are printed and read again. A reader gives back what it stands for if the readers
of the parts do, as long as the levels suffice that a text may nest. A record is read by the names
of its fields, so the order in which they stand does not matter.
-/

set_option autoImplicit false

namespace RunLedger.Json

open Document (ofPrinted ofPrintedItems ofPrintedFields)

/-! ### Free-form values -/

private theorem Number.value?_numeral {n : Number} (hwell : (Value.number n).WellFormed) :
    n.numeral.value? = some n.reread := by
  cases n with
  | nat n => exact value?_nat n
  | neg n => exact value?_neg n
  | float bits =>
    rw [Value.WellFormed] at hwell
    obtain ⟨m, hm⟩ := Option.isSome_iff_exists.1 (isSome_value?_floatNumeral hwell)
    have hsame : (Number.float bits).numeral.value? = some m := hm
    rw [hsame, eq_reread hsame]

namespace Value

mutual
/-- A printed value can be read if the levels suffice, with every number as its text reads. -/
private theorem read_ofPrinted : ∀ {v : Value} {room : Nat}, v.WellFormed → v.depth ≤ room →
    Value.read room (ofPrinted v) = some v.reread
  | .null, _, _, _ => by simp [ofPrinted, Value.read, reread]
  | .bool b, _, _, _ => by simp [ofPrinted, Value.read, reread]
  | .number n, _, hwell, _ => by
    rw [ofPrinted, Value.read, Number.value?_numeral hwell, reread]
    rfl
  | .text s, _, _, _ => by simp [ofPrinted, Value.read, reread]
  | .list items, room, hwell, hdepth => by
    rw [depth] at hdepth
    obtain ⟨room, rfl⟩ := Nat.exists_eq_add_of_le' (Nat.le_trans (Nat.le_add_left 1 _) hdepth)
    rw [WellFormed] at hwell
    rw [ofPrinted, Value.read, readItems_ofPrinted hwell (Nat.le_of_succ_le_succ hdepth), reread]
    rfl
  | .record fields, room, hwell, hdepth => by
    rw [depth] at hdepth
    obtain ⟨room, rfl⟩ := Nat.exists_eq_add_of_le' (Nat.le_trans (Nat.le_add_left 1 _) hdepth)
    rw [WellFormed] at hwell
    have hkeys : ((rereadFields fields).map Prod.fst).Pairwise (· < ·) := by
      rw [map_fst_rereadFields, List.pairwise_map]
      exact hwell.1
    rw [ofPrinted, Value.read, readFields_ofPrinted hwell.2 (Nat.le_of_succ_le_succ hdepth),
      Option.map_some, sortFields_of_pairwise hkeys, reread]

private theorem readItems_ofPrinted : ∀ {items : List Value} {room : Nat}, ItemsWellFormed items →
    depthOfItems items ≤ room →
    Value.readItems room (ofPrintedItems items) = some (rereadItems items)
  | [], _, _, _ => by rw [ofPrintedItems, Value.readItems, rereadItems]
  | v :: vs, room, hwell, hdepth => by
    rw [ItemsWellFormed] at hwell
    rw [depthOfItems, Nat.max_le] at hdepth
    simp only [ofPrintedItems, Value.readItems, read_ofPrinted hwell.1 hdepth.1,
      readItems_ofPrinted hwell.2 hdepth.2, rereadItems]

private theorem readFields_ofPrinted : ∀ {fields : List (String × Value)} {room : Nat},
    FieldsWellFormed fields → depthOfFields fields ≤ room →
    Value.readFields room (ofPrintedFields fields) = some (rereadFields fields)
  | [], _, _, _ => by rw [ofPrintedFields, Value.readFields, rereadFields]
  | (k, v) :: fs, room, hwell, hdepth => by
    rw [FieldsWellFormed] at hwell
    rw [depthOfFields, Nat.max_le] at hdepth
    simp only [ofPrintedFields, Value.readFields, read_ofPrinted hwell.1 hdepth.1,
      readFields_ofPrinted hwell.2 hdepth.2, rereadFields]
end

theorem parse?_print {v : Value} (hwell : v.WellFormed) (hdepth : v.depth ≤ nestingLimit) :
    parse? v.print = some v.reread := by
  rw [parse?, readString?_print, read_ofPrinted hwell hdepth]

/-! ### Floating numbers -/

mutual
/-- The floating numbers of a value, by their bits. -/
def floats : Value → List UInt64
  | .number (.float bits) => [bits]
  | .list items => floatsOfItems items
  | .record fields => floatsOfFields fields
  | _ => []

def floatsOfItems : List Value → List UInt64
  | [] => []
  | v :: vs => floats v ++ floatsOfItems vs

/-- The floating numbers of the fields of a record. -/
def floatsOfFields : List (String × Value) → List UInt64
  | [] => []
  | (_, v) :: fs => floats v ++ floatsOfFields fs
end

end Value

/-- Whether a floating number reads back as it is printed. -/
def FloatReadsBack (bits : UInt64) : Prop :=
  Value.parse? (Value.number (.float bits)).print = some (.number (.float bits))

theorem floatReadsBack_iff {bits : UInt64} (h : Decimal.isFiniteBits bits = true) :
    FloatReadsBack bits ↔ (Number.float bits).reread = .float bits := by
  have hwell : (Value.number (.float bits)).WellFormed := h
  rw [FloatReadsBack, Value.parse?_print hwell (Nat.zero_le _), Value.reread, Option.some.injEq,
    Value.number.injEq]

namespace Value

mutual
/-- A value reads back as itself exactly when its floating numbers do. -/
theorem reread_eq_self_iff : ∀ {v : Value}, v.WellFormed →
    (v.reread = v ↔ ∀ bits ∈ v.floats, FloatReadsBack bits)
  | .null, _ => by simp [reread, floats]
  | .bool b, _ => by simp [reread, floats]
  | .number (.nat n), _ => by simp [reread, floats, Number.reread]
  | .number (.neg n), _ => by simp [reread, floats, Number.reread]
  | .number (.float bits), hwell => by simp [reread, floats, floatReadsBack_iff hwell]
  | .text s, _ => by simp [reread, floats]
  | .list items, hwell => by
    rw [WellFormed] at hwell
    rw [reread, list.injEq, floats, rereadItems_eq_self_iff hwell]
  | .record fields, hwell => by
    rw [WellFormed] at hwell
    rw [reread, record.injEq, floats, rereadFields_eq_self_iff hwell.2]

private theorem rereadItems_eq_self_iff : ∀ {items : List Value}, ItemsWellFormed items →
    (rereadItems items = items ↔ ∀ bits ∈ floatsOfItems items, FloatReadsBack bits)
  | [], _ => by simp [rereadItems, floatsOfItems]
  | v :: vs, hwell => by
    rw [ItemsWellFormed] at hwell
    rw [rereadItems, List.cons.injEq, floatsOfItems, List.forall_mem_append,
      reread_eq_self_iff hwell.1, rereadItems_eq_self_iff hwell.2]

private theorem rereadFields_eq_self_iff : ∀
    {fields : List (String × Value)}, FieldsWellFormed fields →
    (rereadFields fields = fields ↔ ∀ bits ∈ floatsOfFields fields, FloatReadsBack bits)
  | [], _ => by simp [rereadFields, floatsOfFields]
  | (k, v) :: fs, hwell => by
    rw [FieldsWellFormed] at hwell
    rw [rereadFields, List.cons.injEq, Prod.mk.injEq, floatsOfFields, List.forall_mem_append,
      reread_eq_self_iff hwell.1, rereadFields_eq_self_iff hwell.2]
    simp only [true_and]
end

end Value

/-! ### Lists and maps -/

namespace Value

private theorem depth_le_of_mem_items {v : Value} {items : List Value} (h : v ∈ items) :
    v.depth ≤ depthOfItems items := by
  induction items with
  | nil => cases h
  | cons w ws ih =>
    rw [depthOfItems, le_max_iff]
    rcases List.mem_cons.1 h with rfl | h
    · exact .inl (Nat.le_refl _)
    · exact .inr (ih h)

theorem depth_le_of_mem_fields {f : String × Value} {fields : List (String × Value)}
    (h : f ∈ fields) : f.2.depth ≤ depthOfFields fields := by
  induction fields with
  | nil => cases h
  | cons g gs ih =>
    rw [depthOfFields, le_max_iff]
    rcases List.mem_cons.1 h with rfl | h
    · exact .inl (Nat.le_refl _)
    · exact .inr (ih h)

theorem depthOfFields_le {fields : List (String × Value)} {room : Nat}
    (h : ∀ f ∈ fields, f.2.depth ≤ room) : depthOfFields fields ≤ room := by
  induction fields with
  | nil => exact Nat.zero_le _
  | cons g gs ih =>
    rw [depthOfFields, Nat.max_le]
    exact ⟨h g List.mem_cons_self, ih fun f hf => h f (List.mem_cons_of_mem g hf)⟩

end Value

theorem ofPrintedFields_eq_map (fields : List (String × Value)) :
    ofPrintedFields fields = fields.map fun f => (Option.some f.1, ofPrinted f.2) := by
  induction fields with
  | nil => rfl
  | cons f fs ih => rw [ofPrintedFields, ih, List.map_cons]

theorem isSome_read_record {fields : List (String × Value)} {room : Nat}
    (h : ∀ f ∈ fields, (Value.read room (ofPrinted f.2)).isSome = true) :
    (Value.read (room + 1) (ofPrinted (.record fields))).isSome = true := by
  have hfields : (Value.readFields room (ofPrintedFields fields)).isSome = true := by
    induction fields with
    | nil => rfl
    | cons f fs ih =>
      obtain ⟨v, hv⟩ := Option.isSome_iff_exists.1 (h f List.mem_cons_self)
      obtain ⟨vs, hvs⟩ := Option.isSome_iff_exists.1
        (ih fun g hg => h g (List.mem_cons_of_mem f hg))
      simp only [ofPrintedFields, Value.readFields, hv, hvs, Option.isSome_some]
  rw [ofPrinted, Value.read, Option.isSome_map]
  exact hfields

section Entries

variable {α : Type} {read : Reader α} {f : α → Value} {room : Nat}

private theorem mapM_ofPrintedItems {xs : List α}
    (h : ∀ y ∈ xs, read room (ofPrinted (f y)) = some y) :
    (ofPrintedItems (xs.map f)).mapM (read room) = some xs := by
  induction xs with
  | nil => rfl
  | cons y ys ih =>
    have hrest := ih fun z hz => h z (List.mem_cons_of_mem y hz)
    rw [List.map_cons, ofPrintedItems, List.mapM_cons, h y List.mem_cons_self, hrest]
    rfl

private theorem mapM_ofPrintedFields_entry {entries : List (String × α)}
    (h : ∀ e ∈ entries, read room (ofPrinted (f e.2)) = some e.2) :
    (ofPrintedFields (entries.map fun e => (e.1, f e.2))).mapM (Reader.entry read room) =
      some entries := by
  induction entries with
  | nil => rfl
  | cons e es ih =>
    have hrest := ih fun z hz => h z (List.mem_cons_of_mem e hz)
    rw [List.map_cons, ofPrintedFields, List.mapM_cons, Reader.entry, h e List.mem_cons_self, hrest]
    rfl

private theorem insertField_perm {key : String} {x : α} {fields : List (String × α)}
    (hnew : key ∉ fields.map Prod.fst) : (insertField key x fields).Perm ((key, x) :: fields) := by
  induction fields with
  | nil => rfl
  | cons g gs ih =>
    rw [List.map_cons, List.mem_cons, not_or] at hnew
    rw [insertField, if_neg hnew.1]
    split
    · rfl
    · exact ((ih hnew.2).cons g).trans (.swap _ _ _)

private theorem insertField_sorted {key : String} {x : α} {fields : List (String × α)}
    (hnew : key ∉ fields.map Prod.fst) (hsorted : fields.Pairwise (·.1 < ·.1)) :
    (insertField key x fields).Pairwise (·.1 < ·.1) := by
  induction fields with
  | nil => exact List.pairwise_singleton _ _
  | cons g gs ih =>
    have hall := hnew
    rw [List.map_cons, List.mem_cons, not_or] at hnew
    obtain ⟨hfirst, hrest⟩ := List.pairwise_cons.1 hsorted
    rw [insertField, if_neg hnew.1]
    split
    · next hlt =>
      refine List.pairwise_cons.2 ⟨fun e he => ?_, hsorted⟩
      rcases List.mem_cons.1 he with rfl | he
      · exact hlt
      · exact String.lt_trans hlt (hfirst e he)
    · next hnlt =>
      have hlt : g.1 < key := by
        by_contra hge
        exact hnew.1 (String.le_antisymm (String.not_lt.1 hge) (String.not_lt.1 hnlt))
      refine List.pairwise_cons.2 ⟨fun e he => ?_, ih hnew.2 hrest⟩
      rcases List.mem_cons.1 ((insertField_perm hnew.2).mem_iff.1 he) with rfl | he
      · exact hlt
      · exact hfirst e he

private theorem sortFields_spec (fields : List (String × α))
    (hnodup : (fields.map Prod.fst).Nodup) :
    (sortFields fields).Perm fields ∧ (sortFields fields).Pairwise (·.1 < ·.1) := by
  induction fields using List.reverseRecOn with
  | nil => exact ⟨.refl _, .nil⟩
  | append_singleton fs g ih =>
    rw [List.map_append, List.nodup_append] at hnodup
    obtain ⟨hfirst, -, hother⟩ := hnodup
    obtain ⟨hperm, hsorted⟩ := ih hfirst
    have hnew : g.1 ∉ (sortFields fs).map Prod.fst := by
      intro hmem
      exact hother g.1 ((hperm.map Prod.fst).mem_iff.1 hmem) g.1 (by simp) rfl
    have hlast : sortFields (fs ++ [g]) = insertField g.1 g.2 (sortFields fs) := by
      rw [sortFields, List.foldl_append]
      rfl
    rw [hlast]
    refine ⟨(insertField_perm hnew).trans ?_, insertField_sorted hnew hsorted⟩
    exact (hperm.cons g).trans (List.perm_append_singleton g fs).symm

private theorem sortFields_of_perm {fields sorted : List (String × α)}
    (hsorted : sorted.Pairwise (·.1 < ·.1)) (h : fields.Perm sorted) :
    sortFields fields = sorted := by
  have hkeys : (sorted.map Prod.fst).Nodup := by
    rw [List.Nodup, List.pairwise_map]
    exact hsorted.imp String.ne_of_lt
  obtain ⟨hperm, hresult⟩ := sortFields_spec fields ((h.map Prod.fst).nodup_iff.2 hkeys)
  exact List.Perm.eq_of_pairwise (fun a b _ _ hab hba => absurd hba (String.lt_asymm hab)) hresult
    hsorted (hperm.trans h)

end Entries

/-! ### Readers -/

/-- Whether a reader takes a printed value for `x`, whatever levels may still be opened. -/
def ReadsBack {α : Type} (read : Reader α) (v : Value) (x : α) : Prop :=
  ∀ room, v.depth ≤ room → read room (ofPrinted v) = some x

namespace ReadsBack

variable {α : Type} {read : Reader α} {v : Value} {x : α}

theorem readString? (h : ReadsBack read v x) (hdepth : v.depth ≤ nestingLimit) :
    Document.readString? read v.print = some x := by
  rw [readString?_print]
  exact h nestingLimit hdepth

theorem text (s : String) : ReadsBack Reader.text (.text s) s := fun _ _ => rfl

theorem bool (b : Bool) : ReadsBack Reader.bool (.bool b) b := fun _ _ => rfl

theorem nat (n : UInt64) : ReadsBack Reader.nat (.nat n) n := by
  intro room _
  rw [Value.nat, ofPrinted]
  exact congrArg (fun m => Reader.nat room (.number m)) (Number.value?_nat n)

private theorem int?_ofInt? {i : Int} (h : Decimal.inInt64 i) :
    ∃ n, Number.ofInt? i = some n ∧ n.int? = some i ∧ n.numeral.value? = some n := by
  unfold Decimal.inInt64 at h
  rw [Number.ofInt?]
  split
  · next hpos =>
    have hsize : i.toNat < UInt64.size := by
      have hlarge : UInt64.size = 0x10000000000000000 := rfl
      omega
    rw [if_pos hsize]
    refine ⟨_, rfl, ?_, Number.value?_nat _⟩
    rw [Number.int?, UInt64.toNat_ofNat', Nat.mod_eq_of_lt hsize, Int.toNat_of_nonneg hpos]
  · next hneg =>
    have hfits : (-i - 1).toNat < 0x8000000000000000 := by omega
    rw [dif_pos hfits]
    refine ⟨_, rfl, ?_, Number.value?_neg _⟩
    have hback : -(((-i - 1).toNat : Nat) : Int) - 1 = i := by omega
    rw [Number.int?, hback]

theorem int {i : Int} (h : Decimal.inInt64 i) : ReadsBack Reader.int (.int i) i := by
  intro room _
  obtain ⟨n, hn, hint, hvalue⟩ := int?_ofInt? h
  simp only [Value.int, hn, ofPrinted, hvalue, Reader.int, hint]
  rw [Option.filter_some, if_pos (decide_eq_true h)]

theorem parsed {parse : String → Option α} {s : String} (h : parse s = some x) :
    ReadsBack (Reader.parsed parse) (.text s) x := fun _ _ => h

theorem value (hwell : v.WellFormed) (hexact : v.reread = v) : ReadsBack Value.read v v := by
  intro room hdepth
  rw [Value.read_ofPrinted hwell hdepth, hexact]

theorem null : ReadsBack (Reader.nullable read) .null none := fun _ _ => rfl

theorem some (h : ReadsBack read v x) (hne : v ≠ .null) :
    ReadsBack (Reader.nullable read) v (some x) := by
  intro room hdepth
  have hread := h room hdepth
  cases v with
  | null => exact absurd rfl hne
  | _ =>
    rw [ofPrinted] at hread ⊢
    rw [Reader.nullable, hread]
    · rfl
    · exact nofun

theorem option {f : α → Value} (o : Option α) (h : ∀ y ∈ o, ReadsBack read (f y) y)
    (hne : ∀ y, f y ≠ .null) : ReadsBack (Reader.nullable read) (.option f o) o := by
  cases o with
  | none => exact null
  | some y => exact (h y rfl).some (hne y)

theorem list {f : α → Value} (xs : List α) (h : ∀ y ∈ xs, ReadsBack read (f y) y) :
    ReadsBack (Reader.list read) (.list (xs.map f)) xs := by
  intro room hdepth
  rw [Value.depth] at hdepth
  obtain ⟨room, rfl⟩ := Nat.exists_eq_add_of_le' (Nat.le_trans (Nat.le_add_left 1 _) hdepth)
  rw [ofPrinted, Reader.list]
  refine mapM_ofPrintedItems fun y hy => h y hy room ?_
  exact (Value.depth_le_of_mem_items (List.mem_map_of_mem hy)).trans
    (Nat.le_of_succ_le_succ hdepth)

theorem map {f : α → Value} {entries sorted : List (String × α)}
    (h : ∀ e ∈ entries, ReadsBack read (f e.2) e.2) (hsorted : sorted.Pairwise (·.1 < ·.1))
    (hperm : entries.Perm sorted) :
    ReadsBack (Reader.map read) (.record (entries.map fun e => (e.1, f e.2))) sorted := by
  intro room hdepth
  rw [Value.depth] at hdepth
  obtain ⟨room, rfl⟩ := Nat.exists_eq_add_of_le' (Nat.le_trans (Nat.le_add_left 1 _) hdepth)
  have hentries : (ofPrintedFields (entries.map fun e => (e.1, f e.2))).mapM
      (Reader.entry read room) = Option.some entries := by
    refine mapM_ofPrintedFields_entry fun e he => h e he room ?_
    exact (Value.depth_le_of_mem_fields (List.mem_map_of_mem he)).trans
      (Nat.le_of_succ_le_succ hdepth)
  rw [ofPrinted, Reader.map, hentries, Option.map_some, sortFields_of_perm hsorted hperm]

end ReadsBack

/-! ### Records -/

/-- Whether a slot offers a printed value, with levels enough for it. -/
def Slot.Holds (slot : Slot) (v : Value) : Prop :=
  ∃ room, v.depth ≤ room ∧ slot = .given room (ofPrinted v)

namespace Slot.Holds

variable {α : Type} {read : Reader α} {slot : Slot} {v : Value} {x : α}

theorem required (h : slot.Holds v) (hread : ReadsBack read v x) : slot.required read = some x := by
  obtain ⟨room, hdepth, rfl⟩ := h
  exact hread room hdepth

theorem withDefault {default : α} (h : slot.Holds v) (hread : ReadsBack read v x) :
    slot.withDefault default read = some x := by
  obtain ⟨room, hdepth, rfl⟩ := h
  exact hread room hdepth

theorem optional {o : Option α} (h : slot.Holds v)
    (hread : ReadsBack (Reader.nullable read) v o) : slot.optional read = some o := by
  obtain ⟨room, hdepth, rfl⟩ := h
  exact hread room hdepth

end Slot.Holds

private theorem lookup_of_mem {α : Type} {fields : List (String × α)} {name : String} {x : α}
    (hnames : (fields.map Prod.fst).Nodup) (h : (name, x) ∈ fields) :
    fields.lookup name = some x := by
  induction fields with
  | nil => cases h
  | cons g gs ih =>
    obtain ⟨hnew, hrest⟩ := List.nodup_cons.1 hnames
    rcases List.mem_cons.1 h with rfl | h
    · exact List.lookup_cons_self
    · have hne : g.1 ≠ name := fun heq => hnew (heq ▸ List.mem_map_of_mem h)
      rw [lookup_cons_of_ne hne]
      exact ih hrest h

/-- The fields of a printed record are found by their names, in whatever order they stand. -/
theorem exists_slots (names : List String) {fields printed : List (String × Value)} {room : Nat}
    (hnames : fields.map Prod.fst = names) (hnodup : names.Nodup) (hperm : printed.Perm fields)
    (hdepth : (Value.record printed).depth ≤ room) :
    ∃ slot, Reader.slots names room (ofPrinted (.record printed)) = some slot ∧
      fields.Forall fun f => (slot f.1).Holds f.2 := by
  rw [Value.depth] at hdepth
  obtain ⟨room, rfl⟩ := Nat.exists_eq_add_of_le' (Nat.le_trans (Nat.le_add_left 1 _) hdepth)
  have hprinted : (printed.map Prod.fst).Nodup :=
    (hperm.map Prod.fst).nodup_iff.2 (hnames ▸ hnodup)
  have hknown : ((printed.map fun f => (f.1, ofPrinted f.2)).filter
      fun f => names.contains f.1).map Prod.fst |>.Nodup := by
    refine List.Nodup.sublist (List.filter_sublist.map Prod.fst) ?_
    rwa [List.map_map]
  have hfound : Reader.knownFields names (ofPrintedFields printed) = some
      ((printed.map fun f => (f.1, ofPrinted f.2)).filter fun f => names.contains f.1) := by
    rw [Reader.knownFields]
    simp only [mapM_ofPrintedFields, Option.bind_eq_bind, Option.bind_some]
    exact if_pos hknown
  obtain ⟨slot, hslot⟩ : ∃ slot, Reader.slots names (room + 1) (.record (ofPrintedFields printed)) =
      some slot := by
    rw [Reader.slots, hfound]
    exact ⟨_, rfl⟩
  refine ⟨slot, hslot, List.forall_iff_forall_mem.2 fun f hf => ⟨room, ?_, ?_⟩⟩
  · exact (Value.depth_le_of_mem_fields (hperm.mem_iff.2 hf)).trans
      (Nat.le_of_succ_le_succ hdepth)
  · rw [slots_ofPrinted hslot (hnames ▸ List.mem_map_of_mem hf),
      lookup_of_mem hprinted (hperm.mem_iff.2 hf)]
    rfl

end RunLedger.Json
