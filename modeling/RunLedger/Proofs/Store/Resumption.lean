import Mathlib.Data.List.Perm.Basic
import RunLedger.Proofs.Store.Redelivery

/-!
A stream of events that is taken in by rounds. A round goes on from the largest index that is
stored, with all events of that index once more, and may stop after any of its events. An index says
nothing about which of its events are stored, but a round begins at or before the first that is not,
and an event that comes again is known; so what is stored is always a beginning of the stream.
-/

set_option autoImplicit false

namespace RunLedger.Store

/-- A stream of events in the order of their indices, each of them once, which the store accepts. -/
structure Feed where
  events : List Event
  ordered : events.Pairwise (·.index ≤ ·.index)
  distinct : (events.map (·.uid)).Nodup
  accepted : ∀ e ∈ events, e.IsAccepted

/-- A store that takes a stream in, and what is left of the round that has begun. -/
structure Intake where
  history : EventHistory
  left : Option (List Event)

inductive IntakeStep where
  /-- A round begins where the store says, wherever the one before has come to. -/
  | resume
  /-- The round saves its next event. -/
  | next
  /-- An event is marked as handled. -/
  | mark (e : Event)

namespace Tables

private theorem mem_marks_iff {t : Tables} {key : String} {handled : Bool} :
    ⟨key, handled⟩ ∈ t.marks ↔
      key ∈ (t.marks.filter (·.handled = handled)).map (·.uid) := by
  constructor
  · intro hm
    exact List.mem_map.2 ⟨_, List.mem_filter.2 ⟨hm, by simp⟩, rfl⟩
  · intro hkey
    obtain ⟨m, hm, huid⟩ := List.mem_map.1 hkey
    obtain ⟨hm, hhandled⟩ := List.mem_filter.1 hm
    rw [← huid, ← of_decide_eq_true hhandled]
    exact hm

private theorem mem_marks_markEvent {t t' : Tables} {given : Event.Uid}
    (h : t.markEvent given true = .ok t') (uid : Event.Uid) :
    ⟨uid.toString, true⟩ ∈ t'.marks ↔ ⟨uid.toString, true⟩ ∈ t.marks ∨ uid = given := by
  have hfound : (t.findMark? given.toString).isSome = true := by
    by_contra hnone
    rw [markEvent, if_neg hnone] at h
    cases h
  obtain ⟨found, hfound⟩ := Option.isSome_iff_exists.1 hfound
  have hkey : found.uid = given.toString := by simpa using List.find?_some hfound
  rw [markEvent_eq_ok h, List.mem_map]
  constructor
  · rintro ⟨m, hm, hset⟩
    split at hset
    · next hgiven =>
      have huid : m.uid = uid.toString := congrArg Mark.uid hset
      exact .inr (toString_injective (huid.symm.trans hgiven))
    · exact .inl (hset ▸ hm)
  · rintro (hm | rfl)
    · exact ⟨_, hm, by split <;> rfl⟩
    · exact ⟨found, List.mem_of_find?_eq_some hfound, by rw [if_pos hkey, hkey]⟩

end Tables

namespace Intake

def fresh : Intake := ⟨.fresh, none⟩

/-- Begins a round with the events from the largest stored index on. -/
def resume (s : Feed) (i : Intake) : Intake :=
  match i.history.tables.lastIndex with
  | .error _ => { i with left := none }
  | .ok last => { i with left := some (s.events.filter (last ≤ ·.index)) }

/-- Saves the next event of the round; a round that is refused an event is over. -/
def next (i : Intake) : Intake :=
  match i.left with
  | some (e :: left) =>
    match i.history.tables.carryOut (.save e) with
    | .error _ => { i with left := none }
    | .ok (deed, t) => ⟨⟨t, i.history.deeds ++ [deed]⟩, some left⟩
  | _ => i

def mark (e : Event) (i : Intake) : Intake :=
  { i with history := i.history.attempt ⟨.update { e with handled := true }, none⟩ }

def step (s : Feed) (i : Intake) : IntakeStep → Intake
  | .resume => i.resume s
  | .next => i.next
  | .mark e => i.mark e

def play (s : Feed) (i : Intake) (steps : List IntakeStep) : Intake := steps.foldl (step s) i

theorem play_append (s : Feed) (i : Intake) (steps later : List IntakeStep) :
    i.play s (steps ++ later) = (i.play s steps).play s later := List.foldl_append

/-- What holds of an intake: the first `n` events of the stream are stored, a mark is set when it
was given, and the round begins at or before the first event that is not stored. -/
structure Follows (s : Feed) (i : Intake) (n : Nat) : Prop where
  recorded : i.history.Recorded
  events : i.history.tables.events = (s.events.take n).map EventRow.rowOf
  marked : ∀ uid : Event.Uid, ⟨uid.toString, true⟩ ∈ i.history.tables.marks ↔
    .updated uid true ∈ i.history.deeds
  left : ∀ left, i.left = some left → ∃ m ≤ n, left = s.events.drop m

variable {s : Feed} {i : Intake} {n : Nat}

theorem Follows.fresh (s : Feed) : Follows s fresh 0 :=
  ⟨.fresh, by simp [Intake.fresh, EventHistory.fresh, Tables.empty],
    by simp [Intake.fresh, EventHistory.fresh, Tables.empty], nofun⟩

/-! ### A round begins -/

private theorem exists_drop_eq_filter (s : Feed) (last : UInt64) :
    ∃ m ≤ s.events.length, s.events.filter (last ≤ ·.index) = s.events.drop m ∧
      ∀ e ∈ s.events.take m, e.index < last := by
  have hcut : s.events.Pairwise fun e f =>
      decide (last ≤ e.index) = true → decide (last ≤ f.index) = true := by
    refine s.ordered.imp fun hle hlast => ?_
    rw [decide_eq_true_eq] at hlast ⊢
    exact UInt64.le_trans hlast hle
  have hsplit := filter_not_append_filter hcut
  let before := (s.events.filter fun e => !decide (last ≤ e.index)).length
  have hdrop := congrArg (List.drop before) hsplit
  have htake := congrArg (List.take before) hsplit
  rw [List.drop_left] at hdrop
  rw [List.take_left] at htake
  refine ⟨_, List.length_filter_le _ _, hdrop, fun e he => ?_⟩
  rw [← htake] at he
  simpa using (List.mem_filter.1 he).2

/-- The largest stored index does not lead past the first event that is not stored. -/
private theorem Follows.resume (h : i.Follows s n) :
    (i.resume s).Follows s n ∧ ∃ left, (i.resume s).left = some left := by
  obtain ⟨last, hlast, -, hreached⟩ := h.recorded.exists_lastIndex
  obtain ⟨m, hlength, hfilter, hbefore⟩ := exists_drop_eq_filter s last
  have hresume : i.resume s = { i with left := some (s.events.drop m) } := by
    rw [Intake.resume, hlast, ← hfilter]
  have hle : m ≤ n := by
    rcases hreached with ⟨hnone, rfl⟩ | ⟨row, hrow, hindex⟩
    · -- Nothing comes before the index zero.
      have hempty : s.events.take m = [] := by
        refine List.eq_nil_iff_forall_not_mem.2 fun e he => ?_
        exact absurd (hbefore e he) (by simp)
      rcases List.take_eq_nil_iff.1 hempty with hzero | hnil
      · omega
      · rw [hnil, List.length_nil] at hlength
        omega
    · rw [h.events] at hrow
      obtain ⟨e, he, rfl⟩ := List.mem_map.1 hrow
      have hsame : e.index = last := UInt64.toNat_inj.1 (Int.ofNat_inj.1 hindex)
      by_contra hlt
      have hlower := hbefore e (List.take_subset_take_left s.events (by omega) he)
      exact absurd hlower (by simp [hsame])
  rw [hresume]
  exact ⟨⟨h.recorded, h.events, h.marked, fun left hleft => ⟨m, hle, (Option.some.inj hleft).symm⟩⟩,
    _, rfl⟩

/-! ### A round goes on -/

private theorem Follows.known_iff (h : i.Follows s n) {m : Nat} (hm : m < s.events.length) :
    s.events[m].uid.toString ∈ i.history.tables.events.map (·.uid) ↔ m < n := by
  rw [h.events, List.map_map, List.mem_map]
  constructor
  · rintro ⟨e, he, huid⟩
    obtain ⟨j, hj, rfl⟩ := List.mem_take_iff_getElem.1 he
    have hsame : s.events[j].uid = s.events[m].uid := toString_injective huid
    have hj' : j < (s.events.map (·.uid)).length := by
      rw [List.length_map]
      omega
    have hm' : m < (s.events.map (·.uid)).length := by rwa [List.length_map]
    have hkeys : (s.events.map (·.uid))[j] = (s.events.map (·.uid))[m] := by
      rw [List.getElem_map, List.getElem_map, hsame]
    have hindex : j = m := s.distinct.getElem_inj_iff.1 hkeys
    omega
  · intro hlt
    exact ⟨s.events[m], List.mem_take_iff_getElem.2 ⟨m, by omega, rfl⟩, rfl⟩

/-- The next event of a round is stored already, or it is the first that is not. -/
theorem Follows.next {e : Event} {left : List Event} (h : i.Follows s n)
    (hleft : i.left = some (e :: left)) :
    (∃ n', i.next.Follows s n') ∧ i.next.left = some left := by
  obtain ⟨m, hm, hdrop⟩ := h.left _ hleft
  have hmlt : m < s.events.length := by
    by_contra hlt
    rw [List.drop_eq_nil_of_le (by omega)] at hdrop
    cases hdrop
  rw [List.drop_eq_getElem_cons hmlt] at hdrop
  obtain ⟨rfl, rfl⟩ := List.cons.inj hdrop
  obtain ⟨answer, t, hsave⟩ := Tables.exists_saveEvent h.recorded
    (s.accepted _ (List.getElem_mem hmlt))
  have hnext : i.next = ⟨⟨t, i.history.deeds ++ [.saved s.events[m] answer]⟩,
      some (s.events.drop (m + 1))⟩ := by
    simp only [Intake.next, hleft, Tables.carryOut, hsave, Except.map]
  have hrecorded := h.recorded.save hsave
  rw [hnext]
  refine ⟨?_, rfl⟩
  rcases Tables.saveEvent_cases h.recorded.marks hsave with
    ⟨rfl, row, hrow, huid, -⟩ | ⟨hnew, rfl, -, -⟩
  · have hlt : m < n := (h.known_iff hmlt).1 (List.mem_map.2 ⟨row, hrow, huid⟩)
    exact ⟨n, hrecorded, h.events, by simpa using h.marked,
      fun left hleft => ⟨m + 1, hlt, (Option.some.inj hleft).symm⟩⟩
  · rw [h.known_iff hmlt] at hnew
    obtain rfl : m = n := by omega
    refine ⟨m + 1, hrecorded, ?_, by simpa using h.marked,
      fun left hleft => ⟨m + 1, Nat.le_refl _, (Option.some.inj hleft).symm⟩⟩
    rw [Tables.events_withNew, h.events, List.take_succ_eq_append_getElem hmlt, List.map_append]
    rfl

theorem Follows.mark (h : i.Follows s n) (e : Event) : (i.mark e).Follows s n := by
  have hrecorded := h.recorded.attempt ⟨.update { e with handled := true }, none⟩
  cases hmark : i.history.tables.markEvent e.uid true with
  | error fault =>
    have hsame : i.history.attempt ⟨.update { e with handled := true }, none⟩ = i.history := by
      simp only [EventHistory.attempt, Tables.carryOut, hmark, Except.map]
    rw [Intake.mark, hsame]
    exact h
  | ok t =>
    have hnext : i.history.attempt ⟨.update { e with handled := true }, none⟩ =
        ⟨t, i.history.deeds ++ [.updated e.uid true]⟩ := by
      simp only [EventHistory.attempt, Tables.carryOut, hmark, Except.map]
    rw [hnext] at hrecorded
    rw [Intake.mark, hnext]
    refine ⟨hrecorded, ?_, fun uid => ?_, h.left⟩
    · rw [Tables.markEvent_eq_ok hmark]
      exact h.events
    · rw [Tables.mem_marks_markEvent hmark, h.marked uid]
      simp

/-! ### Any steps -/

theorem Follows.step (h : i.Follows s n) (m : IntakeStep) : ∃ n', (i.step s m).Follows s n' := by
  cases m with
  | resume => exact ⟨n, h.resume.1⟩
  | mark e => exact ⟨n, h.mark e⟩
  | next =>
    cases hleft : i.left with
    | none => exact ⟨n, by simpa [Intake.step, Intake.next, hleft] using h⟩
    | some left =>
      cases left with
      | nil => exact ⟨n, by simpa [Intake.step, Intake.next, hleft] using h⟩
      | cons e left => exact (h.next hleft).1

theorem Follows.play (h : i.Follows s n) (steps : List IntakeStep) :
    ∃ n', (i.play s steps).Follows s n' := by
  induction steps generalizing i n with
  | nil => exact ⟨n, h⟩
  | cons m steps ih =>
    obtain ⟨n', hnext⟩ := h.step m
    exact ih hnext

theorem Follows.finish {left : List Event} (h : i.Follows s n) (hleft : i.left = some left)
    (k : Nat) (hk : left.length ≤ k) : (i.play s (List.replicate k .next)).left = some [] := by
  induction k generalizing i n left with
  | zero =>
    have hnil : left = [] := List.length_eq_zero_iff.1 (by omega)
    rw [hnil] at hleft
    exact hleft
  | succ k ih =>
    cases left with
    | nil =>
      have hsame : i.next = i := by rw [Intake.next, hleft]
      have hrest := ih h hleft (Nat.zero_le k)
      rw [List.replicate_succ]
      exact (congrArg (fun i => (i.play s (List.replicate k .next)).left) hsame).trans hrest
    | cons e left =>
      obtain ⟨⟨n', hnext⟩, hleft'⟩ := h.next hleft
      rw [List.replicate_succ]
      exact ih hnext hleft' (by simpa using hk)

private theorem Follows.exists_readings (h : i.Follows s n) :
    ∃ done pending, i.history.tables.eventsByMark true = .ok done ∧
      i.history.tables.eventsByMark false = .ok pending ∧
      ((done ++ pending).map (·.uid)).Perm ((s.events.take n).map (·.uid)) ∧
      (∀ e ∈ done ++ pending, ∃ handed ∈ s.events.take n, handed.ReadsAs e) ∧
      ∀ uid, uid ∈ done.map (·.uid) ↔ .updated uid true ∈ i.history.deeds := by
  obtain ⟨done, hdone, hdoneUids, hdoneAll⟩ := h.recorded.exists_eventsByMark true
  obtain ⟨pending, hpending, hpendingUids, hpendingAll⟩ := h.recorded.exists_eventsByMark false
  refine ⟨done, pending, hdone, hpending, ?_, ?_, ?_⟩
  · have huids := h.recorded.selections_perm hdoneUids hpendingUids
    rw [h.events] at huids
    have hkeys : (((done ++ pending).map (·.uid)).map Event.Uid.toString).Perm
        (((s.events.take n).map (·.uid)).map Event.Uid.toString) := by
      rw [List.map_map, List.map_map]
      rw [List.map_map] at huids
      exact huids
    exact (List.map_perm_map_iff fun _ _ => toString_injective).1 hkeys
  · intro e he
    have hhas : i.history.Has e := by
      rcases List.mem_append.1 he with he | he
      · exact (hdoneAll e he).2
      · exact (hpendingAll e he).2
    obtain ⟨row, hrow, -, hread⟩ := hhas.row
    rw [h.events] at hrow
    obtain ⟨handed, hhanded, rfl⟩ := List.mem_map.1 hrow
    exact ⟨handed, hhanded, (EventRow.toEvent_rowOf_eq_ok.1 hread).1⟩
  · intro uid
    rw [← h.marked uid]
    rw [Tables.mem_marks_iff, ← hdoneUids.mem_iff]
    constructor
    · intro hmem
      obtain ⟨e, he, rfl⟩ := List.mem_map.1 hmem
      exact List.mem_map.2 ⟨e, he, rfl⟩
    · intro hmem
      obtain ⟨e, he, huid⟩ := List.mem_map.1 hmem
      exact List.mem_map.2 ⟨e, he, toString_injective huid⟩

end Intake

/-- However many rounds were begun, wherever each of them stopped and whatever was marked meanwhile,
what is stored is a beginning of the stream, and after a round that came to its end it is all of the
stream. It is read as such, each event once, and the events that were handled are exactly those that
were marked. A round that begins then and is not stopped comes to its end. -/
theorem resuming_loses_and_repeats_nothing (s : Feed) (steps : List IntakeStep) :
    let i := Intake.fresh.play s steps
    ∃ n, i.history.tables.events = (s.events.take n).map EventRow.rowOf ∧
      (i.left = some [] → s.events.take n = s.events) ∧
      (∃ done pending, i.history.tables.eventsByMark true = .ok done ∧
        i.history.tables.eventsByMark false = .ok pending ∧
        ((done ++ pending).map (·.uid)).Perm ((s.events.take n).map (·.uid)) ∧
        (∀ e ∈ done ++ pending, ∃ handed ∈ s.events.take n, handed.ReadsAs e) ∧
        ∀ uid, uid ∈ done.map (·.uid) ↔ .updated uid true ∈ i.history.deeds) ∧
      (i.play s (.resume :: List.replicate s.events.length .next)).left = some [] := by
  intro i
  obtain ⟨n, h⟩ := (Intake.Follows.fresh s).play steps
  refine ⟨n, h.events, ?_, h.exists_readings, ?_⟩
  · intro hend
    obtain ⟨m, hm, hdrop⟩ := h.left _ hend
    have hlength := congrArg List.length hdrop
    rw [List.length_nil, List.length_drop] at hlength
    exact List.take_of_length_le (by omega)
  · obtain ⟨hresumed, left, hleft⟩ := h.resume
    obtain ⟨m, -, rfl⟩ := hresumed.left _ hleft
    exact hresumed.finish hleft _ (by simp)

def sampleFeed : Feed where
  events := [Tables.sampleEvent 1 7, Tables.sampleEvent 2 7]
  ordered := by decide
  distinct := by decide
  accepted := by decide +kernel

/-- A round that stopped between the two: one that is not stopped stores the second as well. -/
theorem sampleFeed_resumed :
    let stopped : List IntakeStep := [.resume, .next, .mark (Tables.sampleEvent 1 7)]
    let round : List IntakeStep := .resume :: List.replicate sampleFeed.events.length .next
    (Intake.fresh.play sampleFeed (stopped ++ round)).history.tables.events =
      sampleFeed.events.map EventRow.rowOf := by
  intro stopped round
  obtain ⟨-, -, -, -, hend⟩ := resuming_loses_and_repeats_nothing sampleFeed stopped
  obtain ⟨n, hevents, hall, -, -⟩ :=
    resuming_loses_and_repeats_nothing sampleFeed (stopped ++ round)
  rw [Intake.play_append] at hall
  rw [hevents, hall hend]

end RunLedger.Store
