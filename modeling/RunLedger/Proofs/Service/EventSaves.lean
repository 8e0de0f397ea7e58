import RunLedger.Proofs.Json.ReadsBack
import RunLedger.Proofs.Store.EventHistory
import RunLedger.Service.Events

/-!
When an event is saved. What is stored has to be read back, so a new event needs an index of 63 bits
and a payload that nests no deeper than a text may; of a known event only the index is looked at. A
save that fails leaves the database as it was.
-/

set_option autoImplicit false

namespace RunLedger.Service

open RunLedger.Store (Attempt Database EventHistory EventRow Tables)

variable {t t' : Tables} {e answer : Event}

private theorem inInt64_index_iff (index : UInt64) :
    Decimal.inInt64 index.toNat ↔ index.toNat < 2 ^ 63 := by
  rw [Decimal.inInt64]
  omega

private theorem saveEvent_of_ok (h : t.saveEvent e = .ok (answer, t'))
    (hindex : Decimal.inInt64 e.index.toNat) :
    saveEvent (Database.migrated.withTables t) e =
      (.ok answer, Database.migrated.withTables t') := by
  have hstored : Store.storedIndex e.index = .ok e.index.toNat := if_pos hindex
  have hwrite : (Database.migrated.withTables t).autocommit (·.saveEvent e) =
      (.ok answer, Database.migrated.withTables t') := by
    have hwritable : (Database.migrated.withTables t).writable = .ok t := rfl
    rw [Database.autocommit, hwritable, Except.bind, h]
    rfl
  simp only [saveEvent, hstored, hwrite]
  rfl

private theorem exists_error_of_saveEvent (h : ∀ answer t', t.saveEvent e ≠ .ok (answer, t')) :
    ∃ error, saveEvent (Database.migrated.withTables t) e =
      (.error error, Database.migrated.withTables t) := by
  cases hstored : Store.storedIndex e.index with
  | error fault => exact ⟨_, by simp only [saveEvent, hstored]; rfl⟩
  | ok index =>
    cases hsave : t.saveEvent e with
    | ok saved => exact absurd hsave (h saved.1 saved.2)
    | error fault =>
      have hwrite : (Database.migrated.withTables t).autocommit (·.saveEvent e) =
          (.error fault, Database.migrated.withTables t) := by
        have hwritable : (Database.migrated.withTables t).writable = .ok t := rfl
        rw [Database.autocommit, hwritable, Except.bind, hsave]
      exact ⟨_, by simp only [saveEvent, hstored, hwrite]; rfl⟩

section History

variable {h : EventHistory}

private theorem due_of_saveEvent (hrec : h.Recorded)
    (hsave : h.tables.saveEvent e = .ok (answer, t')) :
    Decimal.inInt64 e.index.toNat ∧
      (e.uid.toString ∈ h.tables.events.map (·.uid) ∨ e.payload.depth ≤ Json.nestingLimit) := by
  obtain ⟨row, -, -, hrow, -⟩ := Tables.saveEvent_eq_ok hsave
  refine ⟨EventRow.inInt64_of_ofEvent hrow, ?_⟩
  rcases Tables.saveEvent_cases hrec.marks hsave with
    ⟨-, row', hrow', huid, -⟩ | ⟨-, -, hreads, -⟩
  · exact .inl (List.mem_map.2 ⟨row', hrow', huid⟩)
  · exact .inr (Json.depth_le_of_parse? hreads.payload)

private theorem saveEvent_of_unknown (hrec : h.Recorded)
    (hnew : e.uid.toString ∉ h.tables.events.map (·.uid)) (hindex : Decimal.inInt64 e.index.toNat)
    (hwell : e.payload.WellFormed) (hdepth : e.payload.depth ≤ Json.nestingLimit) :
    let saved : Event := { e with payload := e.payload.reread, handled := false }
    saveEvent (Database.migrated.withTables h.tables) e =
        (.ok saved, Database.migrated.withTables (h.tables.withNew (EventRow.rowOf e))) ∧
      (EventRow.rowOf e).toEvent false = .ok saved := by
  intro saved
  have hreads : e.ReadsAs saved := ⟨rfl, Json.Value.parse?_print hwell hdepth, fun _ => rfl⟩
  have hsave := Tables.saveEvent_of_new hrec.marks hnew hindex hreads rfl
  exact ⟨saveEvent_of_ok hsave hindex, EventRow.toEvent_rowOf_with hreads false⟩

end History

/-- After any calls, saving an event succeeds exactly when its index has 63 bits and it is known or
its payload nests no deeper than a text may. A new event is answered as it reads back, and all that
is stored for it is its row and an unset mark; a known one is answered as it was first saved, with
the mark that it has now, and nothing is changed. Nor is anything when the save fails. -/
theorem saved_exactly_when_read_back (attempts : List Attempt) (e : Event)
    (hwell : e.payload.WellFormed) :
    let h := EventHistory.after attempts
    let db := Database.migrated.withTables h.tables
    let isKnown := e.uid.toString ∈ h.tables.events.map (·.uid)
    ((∃ answer, (saveEvent db e).1 = .ok answer) ↔
        e.index.toNat < 2 ^ 63 ∧ (isKnown ∨ e.payload.depth ≤ 127)) ∧
      (¬ isKnown → ∀ answer, (saveEvent db e).1 = .ok answer →
        answer = { e with payload := e.payload.reread, handled := false } ∧
        (e.payload.reread = e.payload → answer = { e with handled := false }) ∧
        (saveEvent db e).2 = Database.migrated.withTables (h.tables.withNew (EventRow.rowOf e)) ∧
        (EventRow.rowOf e).toEvent false = .ok answer) ∧
      (isKnown → ∀ answer, (saveEvent db e).1 = .ok answer →
        answer.uid = e.uid ∧ h.Has answer ∧
        ⟨e.uid.toString, answer.handled⟩ ∈ h.tables.marks ∧ (saveEvent db e).2 = db) ∧
      ∀ error, (saveEvent db e).1 = .error error → (saveEvent db e).2 = db := by
  intro h db isKnown
  have hrec : h.Recorded := EventHistory.recorded_after attempts
  by_cases hdue : Decimal.inInt64 e.index.toNat ∧ (isKnown ∨ e.payload.depth ≤ Json.nestingLimit)
  · obtain ⟨hindex, hdue⟩ := hdue
    have hbits : e.index.toNat < 2 ^ 63 := (inInt64_index_iff e.index).1 hindex
    by_cases hknown : isKnown
    · obtain ⟨stored, hsave, huid, hmark, hhas⟩ := hrec.saveEvent_of_known hknown hindex
      have hdone : saveEvent db e = (.ok stored, db) := saveEvent_of_ok hsave hindex
      rw [hdone]
      refine ⟨⟨fun _ => ⟨hbits, hdue⟩, fun _ => ⟨stored, rfl⟩⟩, fun hnew => absurd hknown hnew,
        ?_, nofun⟩
      rintro _ _ ⟨⟩
      exact ⟨huid, hhas, hmark, rfl⟩
    · have hdepth : e.payload.depth ≤ Json.nestingLimit := hdue.resolve_left hknown
      obtain ⟨hdone, hread⟩ := saveEvent_of_unknown hrec hknown hindex hwell hdepth
      rw [hdone]
      refine ⟨⟨fun _ => ⟨hbits, hdue⟩, fun _ => ⟨_, rfl⟩⟩, ?_, fun h => absurd h hknown, nofun⟩
      rintro _ _ ⟨⟩
      refine ⟨rfl, fun hsame => ?_, rfl, hread⟩
      rw [hsame]
  · have hfails : ∀ answer t', h.tables.saveEvent e ≠ .ok (answer, t') :=
      fun _ _ hsave => hdue (due_of_saveEvent hrec hsave)
    obtain ⟨error, hdone⟩ := exists_error_of_saveEvent hfails
    have hdone : saveEvent db e = (.error error, db) := hdone
    rw [hdone]
    have hnot : ¬ (e.index.toNat < 2 ^ 63 ∧ (isKnown ∨ e.payload.depth ≤ 127)) :=
      fun hmet => hdue ⟨(inInt64_index_iff e.index).2 hmet.1, hmet.2⟩
    exact ⟨iff_of_false nofun hnot, fun _ => nofun, fun _ => nofun, fun _ _ => rfl⟩

/-- An event without payload is saved as the first one, unless its index has 64 bits. -/
theorem sample_saved_or_refused :
    let db := Database.migrated.withTables (EventHistory.after []).tables
    let e : Event := { Store.sampleEvent with payload := .null, handled := true }
    let late : Event := { e with index := 0x8000000000000000 }
    e.payload.WellFormed ∧ late.payload.WellFormed ∧
      (saveEvent db e).1 = .ok { e with handled := false } ∧
      (saveEvent db e).2 = Database.migrated.withTables (Tables.empty.withNew (EventRow.rowOf e)) ∧
      ∀ answer, (saveEvent db late).1 ≠ .ok answer := by
  intro db e late
  have hnew : e.uid.toString ∉ (EventHistory.after []).tables.events.map (·.uid) :=
    List.not_mem_nil
  obtain ⟨hsaved, hgains, -, -⟩ := saved_exactly_when_read_back [] e trivial
  obtain ⟨answer, hanswer⟩ := hsaved.2 ⟨by decide, .inr (by decide)⟩
  obtain ⟨-, hsame, hafter, -⟩ := hgains hnew answer hanswer
  obtain ⟨hrefused, -, -, -⟩ := saved_exactly_when_read_back [] late trivial
  refine ⟨trivial, trivial, hsame rfl ▸ hanswer, hafter, fun answer hok => ?_⟩
  have hbits : late.index.toNat < 2 ^ 63 := (hrefused.1 ⟨answer, hok⟩).1
  exact absurd hbits (by decide)

end RunLedger.Service
