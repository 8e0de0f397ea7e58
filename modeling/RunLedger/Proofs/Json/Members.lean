import RunLedger.Json.Record
import RunLedger.Proofs.Json.Relaxed
import RunLedger.Proofs.Json.Reread

/-!
Members of printed records. A name ends for the one scanner at a character with the code zero, so it
may find a member under a name that no member has; a member that is there is found as it is.
-/

set_option autoImplicit false

namespace RunLedger.Json

open Document (ofPrinted ofPrintedFields)

/-- The part of a name that is compared with the names of members. -/
def comparedName (k : String) : List Nat := (Relaxed.codesOf k).takeWhile (· ≠ 0)

private theorem not_lt_of_comparedName {k name : String}
    (h : comparedName k = Relaxed.codesOf name) :
    ¬ k < name := by
  have hcodes : Relaxed.codesOf name <+: Relaxed.codesOf k := by
    rw [← h]
    exact List.takeWhile_prefix _
  have hchars : name.toList <+: k.toList :=
    (List.prefix_map_iff_of_injective fun _ _ => Char.toNat_inj.1).1 hcodes
  exact hchars.le

theorem lookup_cons_of_ne {α : Type} {k name : String} {x : α} {fs : List (String × α)}
    (h : k ≠ name) : ((k, x) :: fs).lookup name = fs.lookup name := by
  have hne : (name == k) = false := by simpa using fun heq => h heq.symm
  rw [List.lookup_cons, hne]

private theorem mem_of_lookup {α : Type} {name : String} {x : α} {fs : List (String × α)}
    (h : fs.lookup name = some x) : (name, x) ∈ fs := by
  obtain ⟨before, after, rfl, -⟩ := List.lookup_eq_some_iff.1 h
  simp

namespace Relaxed

private theorem field?_ofFields_cons (name k : String) (v : Value) (fs : List (String × Value)) :
    (record (ofFields ((k, v) :: fs))).field? name =
      if comparedName k = codesOf name then some (ofValue v)
      else (record (ofFields fs)).field? name := by
  simp only [field?, ofFields, List.find?_cons, Part.codes_ofString, comparedName]
  by_cases hname : (codesOf k).takeWhile (· ≠ 0) = codesOf name
  · simp only [decide_eq_true hname, Option.map_some]
    exact (if_pos hname).symm
  · simp only [decide_eq_false hname]
    exact (if_neg hname).symm

private theorem field?_ofFields {name : String} {v : Value} {fields : List (String × Value)}
    (hsorted : fields.Pairwise fun f g => f.1 < g.1) (hplain : comparedName name = codesOf name)
    (h : fields.lookup name = some v) :
    (record (ofFields fields)).field? name = some (ofValue v) := by
  induction fields with
  | nil => simp at h
  | cons f fs ih =>
    obtain ⟨k, w⟩ := f
    obtain ⟨hfirst, hrest⟩ := List.pairwise_cons.1 hsorted
    rw [field?_ofFields_cons]
    by_cases hk : k = name
    · subst hk
      rw [List.lookup_cons_self] at h
      rw [if_pos hplain, Option.some.inj h]
    · rw [lookup_cons_of_ne hk] at h
      -- The names that stand before it are not cut to it.
      have hbefore : k < name := hfirst (name, v) (mem_of_lookup h)
      rw [if_neg fun hcut => not_lt_of_comparedName hcut hbefore]
      exact ih hrest h

theorem field?_ofValue {name : String} {v w : Value} (hwell : v.WellFormed)
    (hplain : comparedName name = codesOf name) (h : v.field? name = some w) :
    (ofValue v).field? name = some (ofValue w) := by
  cases v with
  | record fields => exact field?_ofFields hwell.1 hplain h
  | _ => cases h

theorem exists_of_field?_ofValue {name : String} {v : Value} {r : Relaxed}
    (h : (ofValue v).field? name = some r) :
    ∃ fields f, v = .record fields ∧ f ∈ fields ∧ r = ofValue f.2 := by
  cases v with
  | record fields =>
    refine ⟨fields, ?_⟩
    induction fields with
    | nil => cases h
    | cons f fs ih =>
      obtain ⟨k, v⟩ := f
      rw [ofValue, field?_ofFields_cons] at h
      split at h
      · exact ⟨(k, v), rfl, List.mem_cons_self, (Option.some.inj h).symm⟩
      · obtain ⟨f, -, hf, hr⟩ := ih h
        exact ⟨f, rfl, List.mem_cons_of_mem _ hf, hr⟩
  | _ => cases h

end Relaxed

theorem Value.FieldsWellFormed.of_mem {fields : List (String × Value)} {f : String × Value}
    (h : Value.FieldsWellFormed fields) (hf : f ∈ fields) : f.2.WellFormed := by
  induction fields with
  | nil => cases hf
  | cons g fs ih =>
    obtain ⟨hfirst, hrest⟩ := h
    rcases List.mem_cons.1 hf with rfl | hf
    · exact hfirst
    · exact ih hrest hf

theorem Value.WellFormed.of_field? {name : String} {v w : Value} (hwell : v.WellFormed)
    (h : v.field? name = some w) : w.WellFormed := by
  cases v with
  | record fields => exact hwell.2.of_mem (mem_of_lookup h)
  | _ => cases h

private theorem lookup_filter {α : Type} {p : String → Bool} {name : String} (hname : p name = true)
    (fs : List (String × α)) : (fs.filter fun f => p f.1).lookup name = fs.lookup name := by
  induction fs with
  | nil => rfl
  | cons f fs ih =>
    obtain ⟨k, x⟩ := f
    by_cases hk : k = name
    · subst hk
      rw [List.filter_cons, if_pos hname, List.lookup_cons_self, List.lookup_cons_self]
    · rw [lookup_cons_of_ne hk, ← ih]
      by_cases hp : p k = true
      · rw [List.filter_cons, if_pos hp, lookup_cons_of_ne hk]
      · rw [List.filter_cons, if_neg hp]

private theorem lookup_map {α β : Type} (g : α → β) (name : String) (fs : List (String × α)) :
    (fs.map fun f => (f.1, g f.2)).lookup name = (fs.lookup name).map g := by
  induction fs with
  | nil => rfl
  | cons f fs ih =>
    obtain ⟨k, x⟩ := f
    by_cases hk : k = name
    · subst hk
      rw [List.map_cons, List.lookup_cons_self, List.lookup_cons_self]
      rfl
    · rw [List.map_cons, lookup_cons_of_ne hk, lookup_cons_of_ne hk, ih]

theorem mapM_ofPrintedFields (fields : List (String × Value)) :
    (ofPrintedFields fields).mapM (fun (k, d) => k.map (·, d)) =
      some (fields.map fun f => (f.1, ofPrinted f.2)) := by
  induction fields with
  | nil => rfl
  | cons f fs ih => simp [ofPrintedFields, List.mapM_cons, ih]

private theorem knownFields_ofPrinted {names : List String} {fields : List (String × Value)}
    {known : List (String × Document)}
    (h : Reader.knownFields names (ofPrintedFields fields) = some known) :
    known = (fields.map fun f => (f.1, ofPrinted f.2)).filter fun f => names.contains f.1 := by
  rw [Reader.knownFields] at h
  simp only [mapM_ofPrintedFields, Option.bind_eq_bind, Option.bind_some] at h
  split at h
  · exact (Option.some.inj h).symm
  · cases h

/-- What a printed record offers for a field that a reader knows. -/
theorem slots_ofPrinted {names : List String} {fields : List (String × Value)} {room : Nat}
    {slot : String → Slot}
    (h : Reader.slots names (room + 1) (.record (ofPrintedFields fields)) = some slot)
    {name : String} (hname : name ∈ names) :
    slot name = match (fields.lookup name).map ofPrinted with
      | some d => .given room d
      | none => .absent := by
  obtain ⟨known, hknown, rfl⟩ := Option.map_eq_some_iff.1 h
  have hcontains : names.contains name = true := by simpa using hname
  have hlookup : known.lookup name = (fields.lookup name).map ofPrinted := by
    rw [knownFields_ofPrinted hknown]
    exact (lookup_filter hcontains _).trans (lookup_map ofPrinted name fields)
  exact hlookup ▸ rfl

theorem lookup_of_required {names : List String} {fields : List (String × Value)} {room : Nat}
    {slot : String → Slot}
    (h : Reader.slots names (room + 1) (.record (ofPrintedFields fields)) = some slot)
    {name text : String} (hname : name ∈ names)
    (hread : (slot name).required Reader.text = some text) :
    fields.lookup name = some (.text text) := by
  rw [slots_ofPrinted h hname] at hread
  cases hlookup : fields.lookup name with
  | none =>
    rw [hlookup] at hread
    cases hread
  | some v =>
    rw [hlookup] at hread
    cases v with
    | text s =>
      have hsame : some s = some text := hread
      rw [Option.some.inj hsame]
    | _ => cases hread

theorem lookup_of_withDefault {α : Type} {names : List String} {fields : List (String × Value)}
    {room : Nat} {slot : String → Slot}
    (h : Reader.slots names (room + 1) (.record (ofPrintedFields fields)) = some slot)
    {name : String} (hname : name ∈ names) {default x : α} {read : Reader α}
    (hread : (slot name).withDefault default read = some x) :
    fields.lookup name = none ∧ x = default ∨
      ∃ v, fields.lookup name = some v ∧ read room (ofPrinted v) = some x := by
  rw [slots_ofPrinted h hname] at hread
  cases hlookup : fields.lookup name with
  | none =>
    rw [hlookup] at hread
    exact .inl ⟨rfl, (Option.some.inj hread).symm⟩
  | some v =>
    rw [hlookup] at hread
    exact .inr ⟨v, rfl, hread⟩

theorem exists_number_of_int {v : Value} {room : Nat} {i : Int}
    (h : Reader.int room (ofPrinted v) = some i) :
    ∃ n, v = .number n ∧ n.int? = some i ∧ Decimal.inInt64 i := by
  cases v with
  | number n =>
    rw [ofPrinted] at h
    cases hvalue : n.numeral.value? with
    | none =>
      rw [hvalue] at h
      cases h
    | some m =>
      rw [hvalue] at h
      obtain ⟨hint, hrange⟩ := Option.filter_eq_some_iff.1 h
      exact ⟨n, rfl, (Number.int?_of_numeral hvalue).symm.trans hint, of_decide_eq_true hrange⟩
  | null | bool _ | text _ | list _ | record _ => cases h

end RunLedger.Json
