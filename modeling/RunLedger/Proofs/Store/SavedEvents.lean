import RunLedger.Proofs.Basic
import RunLedger.Proofs.Json.Printed
import RunLedger.Store.Events

/-!
The stores that saving events leads to. The rows of such a store are those of some of the events, in
the order in which they came, and each of them can be read.
-/

set_option autoImplicit false

namespace RunLedger.Store

namespace EventRow

variable {e : Event} {row : EventRow}

/-- The row of an event whose index can be stored. -/
def rowOf (e : Event) : EventRow where
  uid := e.uid.toString
  topic := e.topic
  kind := e.kind
  key := e.key
  filterKeys := (Json.Value.texts e.filterKeys).print
  index := e.index.toNat
  payload := e.payload.print

theorem ofEvent_eq_ok (h : ofEvent e = .ok row) : row = rowOf e := by
  obtain ⟨index, hindex, hrow⟩ := bind_eq_ok.1 h
  have hsame : index = e.index.toNat := by
    unfold storedIndex at hindex
    split at hindex
    · exact (Except.ok.inj hindex).symm
    · cases hindex
  subst hsame
  exact (Except.ok.inj hrow).symm

theorem ofEvent_of_inInt64 (h : Decimal.inInt64 e.index.toNat) : ofEvent e = .ok (rowOf e) := by
  rw [ofEvent, storedIndex, if_pos h]
  rfl

theorem inInt64_of_ofEvent (h : ofEvent e = .ok row) : Decimal.inInt64 e.index.toNat := by
  obtain ⟨index, hindex, -⟩ := bind_eq_ok.1 h
  unfold storedIndex at hindex
  split at hindex
  · next hin => exact hin
  · cases hindex

theorem toEvent_eq_ok_iff {handled : Bool} :
    row.toEvent handled = .ok e ↔
      Event.Uid.parse row.uid = .ok e.uid ∧
      Json.Document.readString? (.list .text) row.filterKeys = some e.filterKeys ∧
      Json.Value.parse? row.payload = some e.payload ∧ 0 ≤ row.index ∧
      e = { e with
        topic := row.topic, kind := row.kind, key := row.key
        index := UInt64.ofNat row.index.toNat, handled } := by
  unfold toEvent
  constructor
  · intro h
    cases huid : Event.Uid.parse row.uid with
    | error fault =>
      rw [huid] at h
      obtain ⟨uid, hread, -⟩ := bind_eq_ok.1 h
      cases hread
    | ok uid =>
      rw [huid] at h
      obtain ⟨_, hread, h⟩ := bind_eq_ok.1 h
      cases hread
      obtain ⟨filterKeys, hkeys, h⟩ := bind_eq_ok.1 h
      obtain ⟨payload, hpayload, h⟩ := bind_eq_ok.1 h
      split at h
      · cases h
      · next hindex =>
        cases h
        exact ⟨rfl, orError_eq_ok.1 hkeys, orError_eq_ok.1 hpayload, Int.not_lt.1 hindex, rfl⟩
  · rintro ⟨huid, hkeys, hpayload, hindex, hsame⟩
    rw [huid, hkeys, hpayload, hsame]
    simp only [orError, bind, Except.bind, if_neg (Int.not_lt.2 hindex)]
    rfl

private theorem payload_of_toEvent {handled : Bool} (h : row.toEvent handled = .ok e) :
    Json.Value.parse? row.payload = some e.payload :=
  (toEvent_eq_ok_iff.1 h).2.2.1

end EventRow

namespace Tables

variable {t t' : Tables} {e answer : Event}

/-- The tables after an event was saved; a save that fails changes nothing. -/
def afterSave (t : Tables) (e : Event) : Tables :=
  match t.saveEvent e with
  | .ok (_, t') => t'
  | .error _ => t

/-- The tables after events were saved one after the other. -/
def afterSaves (t : Tables) (saves : List Event) : Tables := saves.foldl afterSave t

theorem saveEvent_eq_ok (h : t.saveEvent e = .ok (answer, t')) :
    ∃ row stored handled, EventRow.ofEvent e = .ok row ∧
      t' = (t.insertEvent row).insertMark row.uid ∧
      (t'.findMark? row.uid).bind t'.marked? = some (stored, handled) ∧
      stored.toEvent handled = .ok answer := by
  obtain ⟨row, hrow, h⟩ := bind_eq_ok.1 h
  obtain ⟨⟨stored, handled⟩, hstored, h⟩ := bind_eq_ok.1 h
  obtain ⟨read, hread, h⟩ := bind_eq_ok.1 h
  obtain ⟨rfl, rfl⟩ := Prod.mk.inj (Except.ok.inj h)
  exact ⟨row, stored, handled, hrow, rfl, orError_eq_ok.1 hstored, hread⟩

@[simp] theorem events_insertMark (t : Tables) (uid : String) :
    (t.insertMark uid).events = t.events := by
  unfold insertMark
  split <;> rfl

private theorem insertEvent_of_known {row known : EventRow}
    (h : t.findEvent? row.uid = some known) :
    t.insertEvent row = t := by
  rw [insertEvent, h, Option.isSome_some, if_pos rfl]

theorem insertEvent_of_new {row : EventRow} (h : t.findEvent? row.uid = none) :
    t.insertEvent row = { t with events := t.events ++ [row] } := by
  rw [insertEvent, h, Option.isSome_none, if_neg Bool.false_ne_true]

private theorem findEvent?_insertEvent_of_new {row : EventRow} (h : t.findEvent? row.uid = none) :
    (t.insertEvent row).findEvent? row.uid = some row := by
  rw [insertEvent_of_new h]
  rw [findEvent?] at h ⊢
  rw [List.find?_append, h]
  simp

private theorem stored_of_new {row stored : EventRow} {handled : Bool}
    (hnew : t.findEvent? row.uid = none)
    (hstored : (((t.insertEvent row).insertMark row.uid).findMark? row.uid).bind
      ((t.insertEvent row).insertMark row.uid).marked? = some (stored, handled)) :
    stored = row := by
  obtain ⟨mark, hmark, hmarked⟩ := Option.bind_eq_some_iff.1 hstored
  obtain ⟨found, hfound, hpair⟩ := Option.map_eq_some_iff.1 hmarked
  have huid : mark.uid = row.uid := by simpa using List.find?_some hmark
  have hfind := findEvent?_insertEvent_of_new hnew
  rw [huid, findEvent?, events_insertMark, ← findEvent?, hfind] at hfound
  rw [Option.some.inj hfound, (Prod.mk.inj hpair).1]

/-- A save stores the row of its event or leaves the events alone; a row that it stores has a
payload that can be read. -/
theorem events_afterSave (t : Tables) (e : Event) :
    (t.afterSave e).events = t.events ∨ ∃ row, EventRow.ofEvent e = .ok row ∧
      (t.afterSave e).events = t.events ++ [row] ∧
        ∃ payload, Json.Value.parse? row.payload = some payload := by
  unfold afterSave
  cases hsave : t.saveEvent e with
  | error fault => exact .inl rfl
  | ok saved =>
    obtain ⟨answer, t'⟩ := saved
    obtain ⟨row, stored, handled, hrow, rfl, hstored, hread⟩ := saveEvent_eq_ok hsave
    rw [events_insertMark]
    cases hfind : t.findEvent? row.uid with
    | some known => exact .inl (by rw [insertEvent_of_known hfind])
    | none =>
      refine .inr ⟨row, hrow, by rw [insertEvent_of_new hfind], answer.payload, ?_⟩
      rw [stored_of_new hfind hstored] at hread
      exact EventRow.payload_of_toEvent hread

variable {known : List Event}

theorem exists_stored_step (hknown : known.map EventRow.ofEvent = t.events.map .ok)
    (hdepth : ∀ e ∈ known, e.payload.depth ≤ Json.nestingLimit)
    (hstep : t'.events = t.events ∨ ∃ row, EventRow.ofEvent e = .ok row ∧
      t'.events = t.events ++ [row] ∧ ∃ payload, Json.Value.parse? row.payload = some payload) :
    ∃ new, (new = [] ∨ new = [e]) ∧
      (known ++ new).map EventRow.ofEvent = t'.events.map .ok ∧
        ∀ e' ∈ known ++ new, e'.payload.depth ≤ Json.nestingLimit := by
  rcases hstep with hsame | ⟨row, hrow, hnew, payload, hpayload⟩
  · exact ⟨[], .inl rfl, by rw [List.append_nil, hknown, hsame], by rwa [List.append_nil]⟩
  · refine ⟨[e], .inr rfl, ?_, ?_⟩
    · rw [hnew, List.map_append, List.map_append, hknown, List.map_singleton, hrow]
      rfl
    · intro e' he'
      rcases List.mem_append.1 he' with he' | he'
      · exact hdepth e' he'
      · rw [List.mem_singleton.1 he']
        rw [EventRow.ofEvent_eq_ok hrow] at hpayload
        exact Json.depth_le_of_parse? hpayload

/-- The rows of a store that saves lead to are those of some of the saved events, in order, and
their payloads nest no deeper than a text may. -/
theorem exists_stored (saves : List Event) (t : Tables) (known : List Event)
    (hknown : known.map EventRow.ofEvent = t.events.map .ok)
    (hdepth : ∀ e ∈ known, e.payload.depth ≤ Json.nestingLimit) :
    ∃ new, new.Sublist saves ∧
      (known ++ new).map EventRow.ofEvent = (t.afterSaves saves).events.map .ok ∧
        ∀ e ∈ known ++ new, e.payload.depth ≤ Json.nestingLimit := by
  induction saves generalizing t known with
  | nil => exact ⟨[], .slnil, by rw [List.append_nil, hknown]; rfl, by rwa [List.append_nil]⟩
  | cons e saves ih =>
    obtain ⟨new, hnew, hrows, hdepths⟩ :=
      exists_stored_step hknown hdepth (events_afterSave t e)
    obtain ⟨more, hsub, hrows', hdepths'⟩ := ih (t.afterSave e) (known ++ new) hrows hdepths
    rw [List.append_assoc] at hrows' hdepths'
    refine ⟨new ++ more, ?_, hrows', hdepths'⟩
    rcases hnew with rfl | rfl
    · exact hsub.cons e
    · exact hsub.cons_cons e

end Tables

end RunLedger.Store
