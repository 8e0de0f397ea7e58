import Mathlib.Data.List.Induction
import Mathlib.Data.List.Nodup
import RunLedger.Proofs.Store.EventRows

/-!
The store of events after any calls. A history keeps what the calls that succeeded did; a call that
fails leaves no trace. Main statement: every event that was ever saved is stored once, reads as it
was first saved, and carries the mark of the last update since.
-/

set_option autoImplicit false

namespace RunLedger.Store

/-- A call of the store of events. -/
inductive EventCall where
  | save (e : Event)
  | update (e : Event)

/-- A call and the fault that the database meets it with. -/
structure Attempt where
  call : EventCall
  fault : Option DatabaseFault

/-- What a call did that succeeded. -/
inductive Deed where
  | saved (handed answer : Event)
  | updated (uid : Event.Uid) (handled : Bool)

namespace Deed

/-- Whether an event was saved. -/
def Saves (uid : Event.Uid) : Deed → Prop
  | saved handed _ => handed.uid = uid
  | updated _ _ => False

def update? (uid : Event.Uid) : Deed → Option Bool
  | saved _ _ => none
  | updated uid' handled => if uid' = uid then some handled else none

end Deed

def lastUpdate? (uid : Event.Uid) (deeds : List Deed) : Option Bool :=
  (deeds.filterMap (·.update? uid)).getLast?

/-- Whether an event was saved for the first time, with what was done since. -/
def IsFirstSave (deeds : List Deed) (handed answer : Event) (since : List Deed) : Prop :=
  ∃ before, deeds = before ++ .saved handed answer :: since ∧ ∀ d ∈ before, ¬ d.Saves handed.uid

def Tables.carryOut (t : Tables) : EventCall → Except Error (Deed × Tables)
  | .save e => (t.saveEvent e).map fun (answer, t') => (.saved e answer, t')
  | .update e => (t.markEvent e.uid e.handled).map fun t' => (.updated e.uid e.handled, t')

/-- The tables and what was done to them. -/
structure EventHistory where
  tables : Tables
  deeds : List Deed

namespace EventHistory

def fresh : EventHistory := ⟨.empty, []⟩

/-- A history with one call more. What a call wrote is kept only if all of it succeeds. -/
def attempt (h : EventHistory) (a : Attempt) : EventHistory :=
  match a.fault, h.tables.carryOut a.call with
  | none, .ok (deed, t) => ⟨t, h.deeds ++ [deed]⟩
  | _, _ => h

def after (attempts : List Attempt) : EventHistory := attempts.foldl attempt fresh

private theorem after_append (attempts more : List Attempt) :
    after (attempts ++ more) = more.foldl attempt (after attempts) := List.foldl_append

end EventHistory

theorem toString_injective {uid uid' : Event.Uid} (h : uid.toString = uid'.toString) :
    uid = uid' := by
  have hparse := congrArg Event.Uid.parse? h
  rw [Event.Uid.parse?_toString, Event.Uid.parse?_toString] at hparse
  exact Option.some.inj hparse

/-- What stands behind a mark: the first save of its event, whose row is stored, and the last update
since. -/
structure EventHistory.Keeps (h : EventHistory) (mark : Mark) (handed answer : Event)
    (since : List Deed) : Prop where
  first : IsFirstSave h.deeds handed answer since
  row : EventRow.rowOf handed ∈ h.tables.events
  reads : handed.ReadsAs answer
  unset : answer.handled = false
  mark : mark = ⟨handed.uid.toString, (lastUpdate? handed.uid since).getD false⟩

/-- What holds of the tables of a history: each event has one mark, and every answer was read from a
row that is stored. -/
structure EventHistory.Recorded (h : EventHistory) : Prop where
  uids : (h.tables.events.map (·.uid)).Nodup
  marks : h.tables.marks.map (·.uid) = h.tables.events.map (·.uid)
  kept : ∀ mark ∈ h.tables.marks, ∃ handed answer since, h.Keeps mark handed answer since
  answers : ∀ handed answer, .saved handed answer ∈ h.deeds →
    ∃ row ∈ h.tables.events, row.uid = handed.uid.toString ∧
      ∃ handled, row.toEvent handled = .ok answer

theorem IsFirstSave.append {deeds since : List Deed} {handed answer : Event}
    (h : IsFirstSave deeds handed answer since) (d : Deed) :
    IsFirstSave (deeds ++ [d]) handed answer (since ++ [d]) := by
  obtain ⟨before, rfl, hfirst⟩ := h
  exact ⟨before, by rw [List.append_assoc, List.cons_append], hfirst⟩

private theorem lastUpdate?_append_saved (uid : Event.Uid) (deeds : List Deed)
    (handed answer : Event) :
    lastUpdate? uid (deeds ++ [.saved handed answer]) = lastUpdate? uid deeds := by
  rw [lastUpdate?, List.filterMap_append]
  exact congrArg List.getLast? (List.append_nil _)

private theorem lastUpdate?_append_updated (uid uid' : Event.Uid) (deeds : List Deed)
    (handled : Bool) :
    lastUpdate? uid (deeds ++ [.updated uid' handled]) =
      if uid' = uid then some handled else lastUpdate? uid deeds := by
  rw [lastUpdate?, List.filterMap_append]
  by_cases huid : uid' = uid
  · simp [Deed.update?, huid]
  · simp [Deed.update?, huid, lastUpdate?]

namespace Tables

section Calls

variable {t t' : Tables} {e answer : Event}

private theorem findEvent?_eq_none_iff {uid : String} :
    t.findEvent? uid = none ↔ uid ∉ t.events.map (·.uid) := by
  rw [findEvent?, List.find?_eq_none, List.mem_map]
  simp

private theorem findMark?_eq_none_iff {uid : String} :
    t.findMark? uid = none ↔ uid ∉ t.marks.map (·.uid) := by
  rw [findMark?, List.find?_eq_none, List.mem_map]
  simp

def withNew (t : Tables) (row : EventRow) : Tables :=
  { t with events := t.events ++ [row], marks := t.marks ++ [⟨row.uid, false⟩] }

@[simp] theorem events_withNew (t : Tables) (row : EventRow) :
    (t.withNew row).events = t.events ++ [row] := rfl

@[simp] theorem marks_withNew (t : Tables) (row : EventRow) :
    (t.withNew row).marks = t.marks ++ [⟨row.uid, false⟩] := rfl

private theorem insert_of_new {row : EventRow} (hmarks : t.marks.map (·.uid) = t.events.map (·.uid))
    (hnew : row.uid ∉ t.events.map (·.uid)) :
    (t.insertEvent row).insertMark row.uid = t.withNew row := by
  have hevent : t.findEvent? row.uid = none := findEvent?_eq_none_iff.2 hnew
  have hmark : (t.insertEvent row).findMark? row.uid = none := by
    rw [insertEvent_of_new hevent, findMark?_eq_none_iff, hmarks]
    exact hnew
  rw [insertMark, hmark, insertEvent_of_new hevent]
  rfl

private theorem marked?_withNew {row : EventRow}
    (hmarks : t.marks.map (·.uid) = t.events.map (·.uid)) (hnew : row.uid ∉ t.events.map (·.uid)) :
    ((t.withNew row).findMark? row.uid).bind (t.withNew row).marked? = some (row, false) := by
  have hevent : t.findEvent? row.uid = none := findEvent?_eq_none_iff.2 hnew
  have hmark : t.findMark? row.uid = none := by
    rw [findMark?_eq_none_iff, hmarks]
    exact hnew
  rw [findEvent?] at hevent
  rw [findMark?] at hmark
  have hmark' : (t.withNew row).findMark? row.uid = some ⟨row.uid, false⟩ := by
    simp [findMark?, List.find?_append, hmark]
  have hevent' : (t.withNew row).findEvent? row.uid = some row := by
    simp [findEvent?, List.find?_append, hevent]
  rw [hmark', Option.bind_some, marked?, hevent']
  rfl

/-- A save answers what is stored already, or adds the event with an unset mark. -/
theorem saveEvent_cases (hmarks : t.marks.map (·.uid) = t.events.map (·.uid))
    (h : t.saveEvent e = .ok (answer, t')) :
    (t' = t ∧ ∃ row ∈ t.events, row.uid = e.uid.toString ∧
      ∃ handled, row.toEvent handled = .ok answer) ∨
    (e.uid.toString ∉ t.events.map (·.uid) ∧ t' = t.withNew (EventRow.rowOf e) ∧
      e.ReadsAs answer ∧ answer.handled = false) := by
  obtain ⟨row, stored, handled, hrow, rfl, hstored, hread⟩ := saveEvent_eq_ok h
  obtain rfl := EventRow.ofEvent_eq_ok hrow
  by_cases hnew : (EventRow.rowOf e).uid ∉ t.events.map (·.uid)
  · rw [insert_of_new hmarks hnew, marked?_withNew hmarks hnew] at hstored
    obtain ⟨rfl, rfl⟩ := Prod.mk.inj (Option.some.inj hstored)
    rw [insert_of_new hmarks hnew]
    exact .inr ⟨hnew, rfl, EventRow.toEvent_rowOf_eq_ok.1 hread⟩
  · have hmark : (t.findMark? (EventRow.rowOf e).uid).isSome := by
      rwa [Option.isSome_iff_ne_none, ne_eq, findMark?_eq_none_iff, hmarks]
    rw [← findEvent?_eq_none_iff, ← ne_eq, ← Option.isSome_iff_ne_none] at hnew
    rw [insertEvent, if_pos hnew, insertMark, if_pos hmark] at hstored ⊢
    obtain ⟨mark, hfound, hmarked⟩ := Option.bind_eq_some_iff.1 hstored
    obtain ⟨found, hevent, hpair⟩ := Option.map_eq_some_iff.1 hmarked
    obtain rfl := (Prod.mk.inj hpair).1
    have huid : mark.uid = (EventRow.rowOf e).uid := by simpa using List.find?_some hfound
    have huid' : found.uid = mark.uid := by simpa using List.find?_some hevent
    exact .inl ⟨rfl, found, List.mem_of_find?_eq_some hevent, huid'.trans huid, handled, hread⟩

theorem saveEvent_of_new (hmarks : t.marks.map (·.uid) = t.events.map (·.uid))
    (hnew : e.uid.toString ∉ t.events.map (·.uid)) (hindex : Decimal.inInt64 e.index.toNat)
    (hreads : e.ReadsAs answer) (hunset : answer.handled = false) :
    t.saveEvent e = .ok (answer, t.withNew (EventRow.rowOf e)) := by
  have hrow : EventRow.ofEvent e = .ok (EventRow.rowOf e) := EventRow.ofEvent_of_inInt64 hindex
  have hread : (EventRow.rowOf e).toEvent false = .ok answer :=
    EventRow.toEvent_rowOf_eq_ok.2 ⟨hreads, hunset⟩
  have hinsert := @insert_of_new t (EventRow.rowOf e) hmarks hnew
  have hstored := @marked?_withNew t (EventRow.rowOf e) hmarks hnew
  rw [saveEvent, hrow]
  simp only [bind, Except.bind, hinsert, hstored, orError, hread, pure, Except.pure]

theorem markEvent_eq_ok {uid : Event.Uid} {handled : Bool} (h : t.markEvent uid handled = .ok t') :
    t' = { t with
      marks := t.marks.map fun m => if m.uid = uid.toString then { m with handled } else m } := by
  rw [markEvent] at h
  split at h
  · exact (Except.ok.inj h).symm
  · cases h

end Calls

end Tables

namespace EventHistory

section Steps

variable {h : EventHistory} {t : Tables} {e answer handed first : Event} {mark : Mark}
  {since : List Deed}

theorem Keeps.saved (hkeeps : h.Keeps mark handed first since)
    (hevents : h.tables.events ⊆ t.events) (e answer : Event) :
    Keeps ⟨t, h.deeds ++ [.saved e answer]⟩ mark handed first (since ++ [.saved e answer]) where
  first := hkeeps.first.append _
  row := hevents hkeeps.row
  reads := hkeeps.reads
  unset := hkeeps.unset
  mark := by
    rw [lastUpdate?_append_saved]
    exact hkeeps.mark

theorem Keeps.updated (hkeeps : h.Keeps mark handed first since)
    (hevents : t.events = h.tables.events) (uid : Event.Uid) (handled : Bool) :
    Keeps ⟨t, h.deeds ++ [.updated uid handled]⟩
      (if mark.uid = uid.toString then { mark with handled } else mark) handed first
      (since ++ [.updated uid handled]) where
  first := hkeeps.first.append _
  row := hevents ▸ hkeeps.row
  reads := hkeeps.reads
  unset := hkeeps.unset
  mark := by
    rw [lastUpdate?_append_updated, hkeeps.mark]
    by_cases huid : uid = handed.uid
    · subst huid
      rw [if_pos rfl, if_pos rfl, Option.getD_some]
    · have hother : ¬ handed.uid.toString = uid.toString :=
        fun hsame => huid (toString_injective hsame).symm
      rw [if_neg hother, if_neg huid]

theorem Recorded.fresh : Recorded fresh :=
  ⟨.nil, rfl, fun _ hm => absurd hm List.not_mem_nil, fun _ _ hd => absurd hd List.not_mem_nil⟩

private theorem Recorded.not_saves_of_new (hrec : h.Recorded)
    (hnew : e.uid.toString ∉ h.tables.events.map (·.uid)) : ∀ d ∈ h.deeds, ¬ d.Saves e.uid := by
  intro d hd hsaves
  cases d with
  | updated uid handled => exact hsaves
  | saved handed answer =>
    obtain ⟨row, hrow, huid, -⟩ := hrec.answers handed answer hd
    have hsame : handed.uid = e.uid := hsaves
    exact hnew (List.mem_map.2 ⟨row, hrow, by rw [huid, hsame]⟩)

theorem Recorded.save (hrec : h.Recorded) (hsave : h.tables.saveEvent e = .ok (answer, t)) :
    Recorded ⟨t, h.deeds ++ [.saved e answer]⟩ := by
  rcases Tables.saveEvent_cases hrec.marks hsave with ⟨rfl, hknown⟩ | ⟨hnew, rfl, hreads, hunset⟩
  · refine ⟨hrec.uids, hrec.marks, ?_, ?_⟩
    · intro mark hmark
      obtain ⟨handed, first, since, hkeeps⟩ := hrec.kept mark hmark
      exact ⟨handed, first, _, hkeeps.saved (List.Subset.refl _) e answer⟩
    · intro handed' answer' hdeed
      rcases List.mem_append.1 hdeed with hdeed | hdeed
      · exact hrec.answers handed' answer' hdeed
      · obtain ⟨rfl, rfl⟩ := Deed.saved.inj (List.mem_singleton.1 hdeed)
        exact hknown
  · refine ⟨?_, ?_, ?_, ?_⟩
    · rw [Tables.events_withNew, List.map_append, List.nodup_append]
      refine ⟨hrec.uids, by simp, ?_⟩
      rintro uid huid _ huid' rfl
      have hsame : uid = e.uid.toString := List.mem_singleton.1 huid'
      exact hnew (hsame ▸ huid)
    · rw [Tables.marks_withNew, Tables.events_withNew, List.map_append, List.map_append,
        hrec.marks]
      rfl
    · intro mark hmark
      rcases List.mem_append.1 hmark with hmark | hmark
      · obtain ⟨handed, first, since, hkeeps⟩ := hrec.kept mark hmark
        exact ⟨handed, first, _, hkeeps.saved (List.subset_append_left _ _) e answer⟩
      · have hfirst : IsFirstSave (h.deeds ++ [.saved e answer]) e answer [] :=
          ⟨h.deeds, rfl, hrec.not_saves_of_new hnew⟩
        exact ⟨e, answer, [], hfirst, by simp, hreads, hunset, List.mem_singleton.1 hmark⟩
    · intro handed' answer' hdeed
      rcases List.mem_append.1 hdeed with hdeed | hdeed
      · obtain ⟨row, hrow, hread⟩ := hrec.answers handed' answer' hdeed
        exact ⟨row, List.mem_append_left _ hrow, hread⟩
      · obtain ⟨rfl, rfl⟩ := Deed.saved.inj (List.mem_singleton.1 hdeed)
        exact ⟨EventRow.rowOf handed', by simp, rfl, false,
          EventRow.toEvent_rowOf_eq_ok.2 ⟨hreads, hunset⟩⟩

theorem Recorded.update {uid : Event.Uid} {handled : Bool} (hrec : h.Recorded)
    (hmark : h.tables.markEvent uid handled = .ok t) :
    Recorded ⟨t, h.deeds ++ [.updated uid handled]⟩ := by
  obtain rfl := Tables.markEvent_eq_ok hmark
  refine ⟨hrec.uids, ?_, ?_, ?_⟩
  · rw [← hrec.marks, List.map_map]
    refine List.map_congr_left fun m _ => ?_
    rw [Function.comp_apply]
    split <;> rfl
  · intro mark hmark
    obtain ⟨m, hm, rfl⟩ := List.mem_map.1 hmark
    obtain ⟨handed, first, since, hkeeps⟩ := hrec.kept m hm
    exact ⟨handed, first, _, hkeeps.updated (by rfl) uid handled⟩
  · intro handed' answer' hdeed
    rcases List.mem_append.1 hdeed with hdeed | hdeed
    · exact hrec.answers handed' answer' hdeed
    · cases List.mem_singleton.1 hdeed

/-- What a call does to a history: nothing, a save that succeeds or an update that does. -/
private theorem attempt_cases (h : EventHistory) (a : Attempt) :
    h.attempt a = h ∨
      (∃ e answer t, h.tables.saveEvent e = .ok (answer, t) ∧
        h.attempt a = ⟨t, h.deeds ++ [.saved e answer]⟩) ∨
      ∃ uid handled t, h.tables.markEvent uid handled = .ok t ∧
        h.attempt a = ⟨t, h.deeds ++ [.updated uid handled]⟩ := by
  obtain ⟨call, fault⟩ := a
  cases fault with
  | some fault => exact .inl rfl
  | none =>
    cases call with
    | save e =>
      rw [attempt, Tables.carryOut]
      cases hsave : h.tables.saveEvent e with
      | error fault => exact .inl rfl
      | ok saved => exact .inr (.inl ⟨e, saved.1, saved.2, hsave, rfl⟩)
    | update e =>
      rw [attempt, Tables.carryOut]
      cases hmark : h.tables.markEvent e.uid e.handled with
      | error fault => exact .inl rfl
      | ok t => exact .inr (.inr ⟨e.uid, e.handled, t, hmark, rfl⟩)

private theorem events_attempt_cases (h : EventHistory) (a : Attempt) :
    (h.attempt a).tables.events = h.tables.events ∨
      ∃ e, a = ⟨.save e, none⟩ ∧ (h.attempt a).tables = h.tables.afterSave e := by
  obtain ⟨call, fault⟩ := a
  cases fault with
  | some fault => exact .inl rfl
  | none =>
    cases call with
    | save e =>
      refine .inr ⟨e, rfl, ?_⟩
      rw [attempt, Tables.carryOut, Tables.afterSave]
      cases h.tables.saveEvent e <;> rfl
    | update e =>
      left
      rw [attempt, Tables.carryOut]
      cases hmark : h.tables.markEvent e.uid e.handled with
      | error fault => rfl
      | ok t =>
        rw [Tables.markEvent_eq_ok hmark]
        rfl

theorem exists_stored_after (attempts : List Attempt) :
    ∃ stored : List Event, (∀ e ∈ stored, ⟨.save e, none⟩ ∈ attempts) ∧
      stored.map EventRow.ofEvent = (after attempts).tables.events.map .ok ∧
        ∀ e ∈ stored, e.payload.depth ≤ Json.nestingLimit := by
  induction attempts using List.reverseRecOn with
  | nil => exact ⟨[], by simp, rfl, by simp⟩
  | append_singleton attempts a ih =>
    obtain ⟨known, hsaved, hrows, hdepth⟩ := ih
    have hknown : ∀ e ∈ known, ⟨.save e, none⟩ ∈ attempts ++ [a] :=
      fun e he => List.mem_append_left _ (hsaved e he)
    rw [after_append, List.foldl_cons, List.foldl_nil]
    rcases (after attempts).events_attempt_cases a with hsame | ⟨e, rfl, htables⟩
    · exact ⟨known, hknown, by rw [hsame, hrows], hdepth⟩
    · rw [htables]
      obtain ⟨new, hnew, hrows', hdepth'⟩ :=
        Tables.exists_stored_step hrows hdepth (Tables.events_afterSave _ e)
      refine ⟨known ++ new, fun e' he' => ?_, hrows', hdepth'⟩
      rcases List.mem_append.1 he' with he' | he'
      · exact hknown e' he'
      · rcases hnew with rfl | rfl
        · exact absurd he' List.not_mem_nil
        · rw [List.mem_singleton.1 he']
          exact List.mem_append_right _ List.mem_cons_self

theorem Recorded.attempt (hrec : h.Recorded) (a : Attempt) : (h.attempt a).Recorded := by
  rcases h.attempt_cases a with
    hsame | ⟨e, answer, t, hsave, hnext⟩ | ⟨uid, handled, t, hmark, hnext⟩
  · rwa [hsame]
  · rw [hnext]
    exact hrec.save hsave
  · rw [hnext]
    exact hrec.update hmark

private theorem Recorded.events_attempt (hrec : h.Recorded) (a : Attempt) :
    h.tables.events ⊆ (h.attempt a).tables.events := by
  rcases h.attempt_cases a with
    hsame | ⟨e, answer, t, hsave, hnext⟩ | ⟨uid, handled, t, hmark, hnext⟩
  · rw [hsame]
    exact List.Subset.refl _
  · rw [hnext]
    rcases Tables.saveEvent_cases hrec.marks hsave with ⟨rfl, -⟩ | ⟨-, rfl, -⟩
    · exact List.Subset.refl _
    · exact List.subset_append_left _ _
  · rw [hnext, Tables.markEvent_eq_ok hmark]
    exact List.Subset.refl _

theorem Recorded.foldl (hrec : h.Recorded) (attempts : List Attempt) :
    (attempts.foldl EventHistory.attempt h).Recorded ∧
      h.tables.events ⊆ (attempts.foldl EventHistory.attempt h).tables.events := by
  induction attempts generalizing h with
  | nil => exact ⟨hrec, List.Subset.refl _⟩
  | cons a attempts ih =>
    obtain ⟨hrec', hevents⟩ := ih (hrec.attempt a)
    exact ⟨hrec', List.Subset.trans (hrec.events_attempt a) hevents⟩

theorem recorded_after (attempts : List Attempt) : (after attempts).Recorded :=
  (Recorded.fresh.foldl attempts).1

end Steps

section Readings

variable {h : EventHistory} {mark : Mark} {handed answer : Event} {since : List Deed}

theorem Keeps.toEvent (hkeeps : h.Keeps mark handed answer since) (handled : Bool) :
    (EventRow.rowOf handed).toEvent handled = .ok { answer with handled } :=
  EventRow.toEvent_rowOf_with hkeeps.reads handled

private theorem Recorded.exists_keeps (hrec : h.Recorded) {row : EventRow}
    (hrow : row ∈ h.tables.events) :
    ∃ mark ∈ h.tables.marks, ∃ handed answer since, h.Keeps mark handed answer since ∧
      row = EventRow.rowOf handed := by
  have huid : row.uid ∈ h.tables.marks.map (·.uid) := hrec.marks ▸ List.mem_map_of_mem hrow
  obtain ⟨mark, hmark, hsame⟩ := List.mem_map.1 huid
  obtain ⟨handed, answer, since, hkeeps⟩ := hrec.kept mark hmark
  refine ⟨mark, hmark, handed, answer, since, hkeeps, ?_⟩
  refine List.inj_on_of_nodup_map hrec.uids hrow hkeeps.row ?_
  rw [← hsame, hkeeps.mark]
  rfl

private theorem eq_of_toEvent {row : EventRow} {e e' : Event} {handled handled' : Bool}
    (hrow : row = EventRow.rowOf handed) (h : row.toEvent handled = .ok e)
    (h' : row.toEvent handled' = .ok e') : e' = { e with handled := e'.handled } := by
  subst hrow
  obtain ⟨hreads, -⟩ := EventRow.toEvent_rowOf_eq_ok.1 h
  obtain ⟨hreads', rfl⟩ := EventRow.toEvent_rowOf_eq_ok.1 h'
  rw [EventRow.toEvent_rowOf_with hreads] at h'
  exact (Except.ok.inj h').symm

/-- An event as a history has it: its row is stored, it was answered to its first save with the mark
unset, and it has the mark that it was given last. -/
structure Has (h : EventHistory) (e : Event) : Prop where
  row : ∃ row ∈ h.tables.events, row.uid = e.uid.toString ∧ row.toEvent e.handled = .ok e
  saved : ∃ handed answer since, IsFirstSave h.deeds handed answer since ∧ handed.uid = e.uid ∧
    handed.ReadsAs answer ∧ answer.handled = false ∧
      e = { answer with handled := (lastUpdate? e.uid since).getD false }

theorem Keeps.has (hkeeps : h.Keeps mark handed answer since) :
    h.Has { answer with handled := mark.handled } := by
  have huid : handed.uid = answer.uid := by rw [hkeeps.reads.same]
  refine ⟨⟨EventRow.rowOf handed, hkeeps.row, ?_, hkeeps.toEvent _⟩,
    handed, answer, since, hkeeps.first, huid, hkeeps.reads, hkeeps.unset, ?_⟩
  · exact congrArg Event.Uid.toString huid
  · rw [hkeeps.mark, huid]

private theorem Recorded.exists_marked (hrec : h.Recorded) (hmark : mark ∈ h.tables.marks) :
    ∃ row e, h.tables.marked? mark = some (row, mark.handled) ∧
      row.toEvent mark.handled = .ok e ∧ e.uid.toString = mark.uid ∧ e.handled = mark.handled ∧
        h.Has e := by
  obtain ⟨handed, answer, since, hkeeps⟩ := hrec.kept mark hmark
  have huid : (EventRow.rowOf handed).uid = mark.uid := by
    rw [hkeeps.mark]
    rfl
  refine ⟨EventRow.rowOf handed, _, ?_, hkeeps.toEvent _, ?_, rfl, hkeeps.has⟩
  · cases hfind : h.tables.findEvent? mark.uid with
    | none =>
      rw [Tables.findEvent?_eq_none_iff] at hfind
      exact absurd (List.mem_map.2 ⟨_, hkeeps.row, huid⟩) hfind
    | some row =>
      have hsame : row.uid = (EventRow.rowOf handed).uid := by
        rw [huid]
        simpa using List.find?_some hfind
      have hrow := List.inj_on_of_nodup_map hrec.uids (List.mem_of_find?_eq_some hfind) hkeeps.row
        hsame
      rw [Tables.marked?, hfind, hrow]
      rfl
  · rw [← huid, hkeeps.reads.same]
    rfl

theorem Recorded.saveEvent_of_known {e : Event} (hrec : h.Recorded)
    (hknown : e.uid.toString ∈ h.tables.events.map (·.uid))
    (hindex : Decimal.inInt64 e.index.toNat) :
    ∃ stored, h.tables.saveEvent e = .ok (stored, h.tables) ∧ stored.uid = e.uid ∧
      ⟨e.uid.toString, stored.handled⟩ ∈ h.tables.marks ∧ h.Has stored := by
  have hevent : (h.tables.findEvent? (EventRow.rowOf e).uid).isSome = true := by
    rw [Option.isSome_iff_ne_none, ne_eq, Tables.findEvent?_eq_none_iff, not_not]
    exact hknown
  obtain ⟨⟨uid, handled⟩, hfind⟩ :
      ∃ mark, h.tables.findMark? (EventRow.rowOf e).uid = some mark := by
    rw [← Option.ne_none_iff_exists', ne_eq, Tables.findMark?_eq_none_iff, not_not, hrec.marks]
    exact hknown
  obtain rfl : uid = (EventRow.rowOf e).uid := by simpa using List.find?_some hfind
  have hmark := List.mem_of_find?_eq_some hfind
  obtain ⟨row, stored, hmarked, hread, hstored, rfl, hhas⟩ := hrec.exists_marked hmark
  have hsame : (h.tables.insertEvent (EventRow.rowOf e)).insertMark (EventRow.rowOf e).uid =
      h.tables := by
    rw [Tables.insertEvent, if_pos hevent, Tables.insertMark, hfind]
    rfl
  have hfound : (h.tables.findMark? (EventRow.rowOf e).uid).bind h.tables.marked? =
      some (row, stored.handled) := by
    rw [hfind]
    exact hmarked
  refine ⟨stored, ?_, toString_injective hstored, hmark, hhas⟩
  rw [Tables.saveEvent, EventRow.ofEvent_of_inInt64 hindex]
  simp only [bind, Except.bind, hsame, hfound, orError, hread, pure, Except.pure]

private theorem exists_mapM_marked {t : Tables} {P : Event → Prop} {marks : List Mark}
    (hmarks : ∀ mark ∈ marks, ∃ row e, t.marked? mark = some (row, mark.handled) ∧
      row.toEvent mark.handled = .ok e ∧ e.uid.toString = mark.uid ∧ P e) :
    ∃ es, (marks.filterMap t.marked?).mapM (fun (row, handled) => row.toEvent handled) = .ok es ∧
      es.map (·.uid.toString) = marks.map (·.uid) ∧ ∀ e ∈ es, P e := by
  induction marks with
  | nil => exact ⟨[], rfl, rfl, fun _ he => absurd he List.not_mem_nil⟩
  | cons mark marks ih =>
    obtain ⟨row, e, hmarked, hread, huid, he⟩ := hmarks mark List.mem_cons_self
    obtain ⟨es, hes, huids, hall⟩ := ih fun m hm => hmarks m (List.mem_cons_of_mem mark hm)
    refine ⟨e :: es, ?_, by rw [List.map_cons, List.map_cons, huid, huids], ?_⟩
    · rw [List.filterMap_cons_some hmarked, List.mapM_cons, hes]
      simp only [hread]
      rfl
    · intro e' he'
      rcases List.mem_cons.1 he' with rfl | he'
      · exact he
      · exact hall e' he'

theorem Recorded.exists_eventsByMark (hrec : h.Recorded) (handled : Bool) :
    ∃ es, h.tables.eventsByMark handled = .ok es ∧
      (es.map (·.uid.toString)).Perm
        ((h.tables.marks.filter (·.handled = handled)).map (·.uid)) ∧
      ∀ e ∈ es, e.handled = handled ∧ h.Has e := by
  obtain ⟨es, hes, huids, hall⟩ := @exists_mapM_marked h.tables
    (fun e => e.handled = handled ∧ h.Has e) (h.tables.marks.filter (·.handled = handled)) (by
      intro mark hmark
      obtain ⟨hmark, hhandled⟩ := List.mem_filter.1 hmark
      obtain ⟨row, e, hmarked, hread, huid, hsame, hhas⟩ := hrec.exists_marked hmark
      exact ⟨row, e, hmarked, hread, huid, hsame.trans (of_decide_eq_true hhandled), hhas⟩)
  refine ⟨es.mergeSort fun e f => e.uid.toString ≤ f.uid.toString, ?_, ?_, ?_⟩
  · rw [Tables.eventsByMark, hes]
    rfl
  · rw [← huids]
    exact (List.mergeSort_perm es _).map _
  · exact fun e he => hall e ((List.mergeSort_perm es _).mem_iff.1 he)

theorem Recorded.selections_perm (hrec : h.Recorded) {done pending : List Event}
    (hdone : (done.map (·.uid.toString)).Perm
      ((h.tables.marks.filter (·.handled = true)).map (·.uid)))
    (hpending : (pending.map (·.uid.toString)).Perm
      ((h.tables.marks.filter (·.handled = false)).map (·.uid))) :
    ((done ++ pending).map (·.uid.toString)).Perm (h.tables.events.map (·.uid)) := by
  rw [List.map_append, ← hrec.marks]
  refine (hdone.append hpending).trans ?_
  rw [← List.map_append]
  have hnot : h.tables.marks.filter (·.handled = false) =
      h.tables.marks.filter fun m => !decide (m.handled = true) := by
    refine List.filter_congr fun m _ => ?_
    cases m.handled <;> rfl
  rw [hnot]
  exact (List.filter_append_perm _ _).map _

theorem Recorded.exists_lastIndex (hrec : h.Recorded) :
    ∃ last, h.tables.lastIndex = .ok last ∧
      (∀ row ∈ h.tables.events, row.index ≤ last.toNat) ∧
      (h.tables.events = [] ∧ last = 0 ∨ ∃ row ∈ h.tables.events, row.index = last.toNat) := by
  cases hmax : (h.tables.events.map (·.index)).max? with
  | none =>
    have hnone : h.tables.events = [] := List.map_eq_nil_iff.1 (List.max?_eq_none_iff.1 hmax)
    refine ⟨0, ?_, ?_, .inl ⟨hnone, rfl⟩⟩
    · rw [Tables.lastIndex, hmax]
      rfl
    · rw [hnone]
      exact fun _ hrow => absurd hrow List.not_mem_nil
  | some largest =>
    obtain ⟨hmem, hlargest⟩ := List.max?_eq_some_iff.1 hmax
    obtain ⟨row, hrow, rfl⟩ := List.mem_map.1 hmem
    obtain ⟨mark, -, handed, answer, since, -, hsame⟩ := hrec.exists_keeps hrow
    have hindex : row.index = handed.index.toNat := by
      rw [hsame]
      rfl
    refine ⟨handed.index, ?_, ?_, .inr ⟨row, hrow, hindex⟩⟩
    · have hnonneg : ¬ row.index < 0 := by omega
      rw [Tables.lastIndex, hmax]
      simp only [Option.getD_some, if_neg hnonneg]
      rw [hindex, Int.toNat_natCast, UInt64.ofNat_toNat]
    · intro row' hrow'
      rw [← hindex]
      exact hlargest _ (List.mem_map_of_mem hrow')

end Readings

/-- Whether an index is the largest of some events, or zero when there are none. -/
def IsLargestIndex (last : UInt64) (events : List Event) : Prop :=
  (∀ e ∈ events, e.index ≤ last) ∧ (events = [] ∧ last = 0 ∨ ∃ e ∈ events, e.index = last)

private theorem Recorded.index_eq {h : EventHistory} (hrec : h.Recorded) {row : EventRow}
    {e : Event} {handled : Bool} (hrow : row ∈ h.tables.events)
    (hread : row.toEvent handled = .ok e) :
    row.index = e.index.toNat := by
  obtain ⟨mark, -, handed, answer, since, -, rfl⟩ := hrec.exists_keeps hrow
  obtain ⟨hreads, -⟩ := EventRow.toEvent_rowOf_eq_ok.1 hread
  rw [hreads.same]
  rfl

private theorem Recorded.isLargestIndex {h : EventHistory} (hrec : h.Recorded) {events : List Event}
    {last : UInt64} (hevents : (events.map (·.uid.toString)).Perm (h.tables.events.map (·.uid)))
    (hread : ∀ e ∈ events, h.Has e) (hbound : ∀ row ∈ h.tables.events, row.index ≤ last.toNat)
    (hlast : h.tables.events = [] ∧ last = 0 ∨ ∃ row ∈ h.tables.events, row.index = last.toNat) :
    IsLargestIndex last events := by
  constructor
  · intro e he
    obtain ⟨row, hrow, -, hrowRead⟩ := (hread e he).row
    have := hbound row hrow
    rw [hrec.index_eq hrow hrowRead] at this
    exact UInt64.le_iff_toNat_le.2 (by omega)
  · rcases hlast with ⟨hnone, hzero⟩ | ⟨row, hrow, hindex⟩
    · rw [hnone, List.map_nil] at hevents
      exact .inl ⟨List.map_eq_nil_iff.1 hevents.eq_nil, hzero⟩
    · obtain ⟨e, he, huid⟩ := List.mem_map.1
        (hevents.mem_iff.2 (List.mem_map_of_mem hrow))
      obtain ⟨row', hrow', huid', hrowRead⟩ := (hread e he).row
      obtain rfl : row' = row :=
        List.inj_on_of_nodup_map hrec.uids hrow' hrow (huid'.trans huid)
      rw [hrec.index_eq hrow hrowRead] at hindex
      exact .inr ⟨e, he, UInt64.toNat_inj.1 (by omega)⟩

end EventHistory

/-- After every sequence of calls the store has each event once, with one mark, and every row can be
read. The events that were handled and those that were not are all events; each reads as its stored
text at its first save and has the mark that it was given last. Every save that succeeded answered
what is stored. The index to go on with is the largest one and never falls. -/
theorem each_event_recorded_once (attempts more : List Attempt) :
    let h := EventHistory.after attempts
    (h.tables.events.map (·.uid)).Nodup ∧
      h.tables.marks.map (·.uid) = h.tables.events.map (·.uid) ∧
      (∀ row ∈ h.tables.events, ∀ handled, ∃ e, row.toEvent handled = .ok e) ∧
      ∃ done pending last last', h.tables.eventsByMark true = .ok done ∧
        h.tables.eventsByMark false = .ok pending ∧
        ((done ++ pending).map (·.uid.toString)).Perm (h.tables.events.map (·.uid)) ∧
        (∀ e ∈ done, e.handled = true) ∧ (∀ e ∈ pending, e.handled = false) ∧
        (∀ e ∈ done ++ pending, h.Has e) ∧
        (∀ handed answer, .saved handed answer ∈ h.deeds → ∃ e ∈ done ++ pending,
          e.uid = handed.uid ∧ answer = { e with handled := answer.handled }) ∧
        h.tables.lastIndex = .ok last ∧ EventHistory.IsLargestIndex last (done ++ pending) ∧
        (EventHistory.after (attempts ++ more)).tables.lastIndex = .ok last' ∧ last ≤ last' := by
  intro h
  have hrec : h.Recorded := EventHistory.recorded_after attempts
  refine ⟨hrec.uids, hrec.marks, ?_, ?_⟩
  · intro row hrow handled
    obtain ⟨mark, -, handed, answer, since, hkeeps, rfl⟩ := hrec.exists_keeps hrow
    exact ⟨_, hkeeps.toEvent handled⟩
  obtain ⟨done, hdone, hdoneUids, hdoneAll⟩ := hrec.exists_eventsByMark true
  obtain ⟨pending, hpending, hpendingUids, hpendingAll⟩ := hrec.exists_eventsByMark false
  obtain ⟨last, hlast, hbound, hreached⟩ := hrec.exists_lastIndex
  obtain ⟨hrec', hgrown⟩ := hrec.foldl more
  rw [← EventHistory.after_append] at hrec' hgrown
  obtain ⟨last', hlast', hbound', -⟩ := hrec'.exists_lastIndex
  have hperm := hrec.selections_perm hdoneUids hpendingUids
  have hhas : ∀ e ∈ done ++ pending, h.Has e := by
    intro e he
    rcases List.mem_append.1 he with he | he
    · exact (hdoneAll e he).2
    · exact (hpendingAll e he).2
  refine ⟨done, pending, last, last', hdone, hpending, hperm, fun e he => (hdoneAll e he).1,
    fun e he => (hpendingAll e he).1, hhas, ?_, hlast,
    hrec.isLargestIndex hperm hhas hbound hreached, hlast', ?_⟩
  · intro handed answer hdeed
    obtain ⟨row, hrow, huid, handled, hread⟩ := hrec.answers handed answer hdeed
    obtain ⟨e, he, hsame⟩ := List.mem_map.1 (hperm.mem_iff.2 (List.mem_map_of_mem hrow))
    obtain ⟨row', hrow', huid', hread'⟩ := (hhas e he).row
    obtain rfl : row' = row := List.inj_on_of_nodup_map hrec.uids hrow' hrow (huid'.trans hsame)
    obtain ⟨mark, -, first, -, -, -, hfirst⟩ := hrec.exists_keeps hrow
    refine ⟨e, he, toString_injective (huid'.symm.trans huid), ?_⟩
    exact EventHistory.eq_of_toEvent hfirst hread' hread
  · rcases hreached with ⟨-, rfl⟩ | ⟨row, hrow, hindex⟩
    · exact UInt64.le_iff_toNat_le.2 (Nat.zero_le _)
    · have := hbound' row (hgrown hrow)
      exact UInt64.le_iff_toNat_le.2 (by omega)

/-- An event whose payload is the number `3e+23`. -/
def sampleEvent : Event where
  uid := ⟨⟨List.replicate 32 0x44, rfl⟩⟩
  topic := "Job"
  kind := "JobRegistered"
  key := "k"
  filterKeys := []
  index := 1
  payload := .number (.float 0x44CFC3842BD1F072)
  handled := false

def floatBits? : Json.Value → Option UInt64
  | .number (.float bits) => some bits
  | _ => none

private theorem exists_payload_sampleEvent : ∃ payload, payload ≠ sampleEvent.payload ∧
    Json.Value.parse? sampleEvent.payload.print = some payload := by
  have hprint : sampleEvent.payload.print = "3e+23" := by decide +kernel
  have hparse : (Json.Value.parse? "3e+23").bind floatBits? = some 0x44CFC3842BD1F071 := by
    decide +kernel
  obtain ⟨payload, hpayload, hbits⟩ := Option.bind_eq_some_iff.1 hparse
  refine ⟨payload, ?_, hprint ▸ hpayload⟩
  rintro rfl
  exact absurd hbits (by decide)

private theorem after_save {e answer : Event} (hindex : Decimal.inInt64 e.index.toNat)
    (hreads : e.ReadsAs answer) (hunset : answer.handled = false) :
    IsFirstSave (EventHistory.after [⟨.save e, none⟩]).deeds e answer [] ∧
      (EventHistory.after [⟨.save e, none⟩]).tables.eventsByMark false = .ok [answer] := by
  have hsave : Tables.empty.saveEvent e = .ok (answer, Tables.empty.withNew (EventRow.rowOf e)) :=
    Tables.saveEvent_of_new rfl List.not_mem_nil hindex hreads hunset
  have hafter : EventHistory.after [⟨.save e, none⟩] =
      ⟨Tables.empty.withNew (EventRow.rowOf e), [.saved e answer]⟩ := by
    simp only [EventHistory.after, List.foldl_cons, List.foldl_nil, EventHistory.attempt,
      EventHistory.fresh, Tables.carryOut, hsave, Except.map, List.nil_append]
  have hread : (EventRow.rowOf e).toEvent false = .ok answer :=
    EventRow.toEvent_rowOf_eq_ok.2 ⟨hreads, hunset⟩
  rw [hafter]
  refine ⟨⟨[], rfl, fun _ hd => absurd hd List.not_mem_nil⟩, ?_⟩
  simp [Tables.eventsByMark, Tables.marked?, Tables.findEvent?, Tables.empty, hread, bind,
    Except.bind, pure, Except.pure]

/-- What is read need not be the payload that was saved: the text of `3e+23` reads as the number
next to it. -/
theorem payload_other_than_saved :
    ¬ ∀ (attempts : List Attempt) (handed answer : Event) (since : List Deed),
      IsFirstSave (EventHistory.after attempts).deeds handed answer since →
      ∀ handled es, (EventHistory.after attempts).tables.eventsByMark handled = .ok es →
        ∀ e ∈ es, e.uid = handed.uid → e.payload = handed.payload := by
  intro hclaim
  obtain ⟨payload, hother, hparse⟩ := exists_payload_sampleEvent
  have hreads : sampleEvent.ReadsAs { sampleEvent with payload } :=
    ⟨rfl, hparse, fun hwell => Json.Value.parse?_print_eq hwell hparse⟩
  obtain ⟨hfirst, hread⟩ := after_save (by decide) hreads rfl
  exact hother (hclaim _ _ _ _ hfirst false _ hread _ (List.mem_singleton_self _) rfl)

end RunLedger.Store
