import RunLedger.Proofs.Store.EventHistory
import RunLedger.Proofs.Store.Projection

/-!
Deliveries of events in any order, each any number of times. A store that was given an event keeps
its row, whenever and however often it came, so what is stored is one row for each identity, and
what is answered depends on these rows alone. Only allocations that tie in what they are ordered by
come in the order of their first delivery.
-/

set_option autoImplicit false

namespace RunLedger

/-- Whether two events agree in everything but their mark. -/
def Event.SameBody (e f : Event) : Prop := { e with handled := f.handled } = f

/-- Whether an event is accepted when it is delivered first. -/
def Event.IsAccepted (e : Event) : Prop :=
  ∃ answer t, Store.Tables.empty.saveEvent e = .ok (answer, t)

instance (e : Event) : Decidable e.IsAccepted :=
  decidable_of_iff ((Store.Tables.empty.saveEvent e).toOption.isSome = true) (by
    unfold Event.IsAccepted
    cases Store.Tables.empty.saveEvent e with
    | error fault => simp [Except.toOption]
    | ok saved => exact ⟨fun _ => ⟨saved.1, saved.2, rfl⟩, fun _ => rfl⟩)

namespace Store

/-- Saves events one after another, as long as each of them is accepted. -/
def Tables.saveAll (t : Tables) (deliveries : List Event) : Except Error Tables :=
  deliveries.foldlM (fun t e => (t.saveEvent e).map Prod.snd) t

namespace Snapshot

/-- What snapshots are ordered by: creation time and index. -/
def rank (s : Snapshot) : Option Int × Int := (s.createTime?, s.index)

/-- Two outcomes of reading snapshots of a job: the same failure, or lists read from the same
snapshots that have the same rank at every place, so only snapshots that tie may change places. -/
inductive ReadAlike (job : Uuid) (stored : List Snapshot) :
    Except Error (List Allocation) → Except Error (List Allocation) → Prop
  | failed (e : Error) : ReadAlike job stored (.error e) (.error e)
  | read (shown shown' : List Snapshot) (as as' : List Allocation) : shown ⊆ stored →
      shown.Perm shown' → shown.map rank = shown'.map rank → shown.mapM (read job) = .ok as →
      shown'.mapM (read job) = .ok as' → ReadAlike job stored (.ok as) (.ok as')

end Snapshot

/-- What deliveries leave behind: each identity that was delivered is stored, every row is that of a
delivery and no mark is set. -/
structure Tables.Holds (t : Tables) (deliveries : List Event) : Prop where
  recorded : ∃ deeds, EventHistory.Recorded ⟨t, deeds⟩
  unset : t.marks = t.events.map fun row => ⟨row.uid, false⟩
  rows : ∃ stored ⊆ deliveries, stored.map EventRow.ofEvent = t.events.map .ok ∧
    ∀ e ∈ stored, e.payload.depth ≤ Json.nestingLimit
  known : ∀ e ∈ deliveries, e.uid.toString ∈ t.events.map (·.uid)

namespace Tables

variable {t t' : Tables} {ds ds' : List Event} {job : Uuid}

/-! ### What is accepted -/

private theorem reads_of_isAccepted {e : Event} (h : e.IsAccepted) :
    Decimal.inInt64 e.index.toNat ∧ ∃ answer, e.ReadsAs answer ∧ answer.handled = false := by
  obtain ⟨answer, t, hsave⟩ := h
  obtain ⟨row, -, -, hrow, -⟩ := saveEvent_eq_ok hsave
  refine ⟨EventRow.inInt64_of_ofEvent hrow, answer, ?_⟩
  rcases saveEvent_cases rfl hsave with ⟨-, row, hrow, -⟩ | ⟨-, -, hreads⟩
  · exact absurd hrow List.not_mem_nil
  · exact hreads

theorem exists_saveEvent {deeds : List Deed} {e : Event} (hrec : EventHistory.Recorded ⟨t, deeds⟩)
    (h : e.IsAccepted) : ∃ answer t', t.saveEvent e = .ok (answer, t') := by
  obtain ⟨hindex, answer, hreads, hunset⟩ := reads_of_isAccepted h
  by_cases hnew : e.uid.toString ∉ t.events.map (·.uid)
  · exact ⟨answer, _, saveEvent_of_new hrec.marks hnew hindex hreads hunset⟩
  · obtain ⟨stored, hsave, -⟩ := hrec.saveEvent_of_known (not_not.1 hnew) hindex
    exact ⟨stored, t, hsave⟩

private theorem exists_saveAll {deeds : List Deed} (hrec : EventHistory.Recorded ⟨t, deeds⟩)
    (h : ∀ e ∈ ds, e.IsAccepted) : ∃ t', t.saveAll ds = .ok t' := by
  induction ds generalizing t deeds with
  | nil => exact ⟨t, rfl⟩
  | cons e ds ih =>
    obtain ⟨answer, next, hsave⟩ := exists_saveEvent hrec (h e List.mem_cons_self)
    obtain ⟨t', hrest⟩ := ih (hrec.save hsave) fun f hf => h f (List.mem_cons_of_mem e hf)
    refine ⟨t', ?_⟩
    rw [saveAll, List.foldlM_cons, hsave]
    exact hrest

/-! ### What is stored -/

private theorem saveAll_cons_eq_ok {e : Event} (h : t.saveAll (e :: ds) = .ok t') :
    ∃ answer next, t.saveEvent e = .ok (answer, next) ∧ next.saveAll ds = .ok t' := by
  rw [saveAll, List.foldlM_cons] at h
  obtain ⟨next, hsave, hrest⟩ := bind_eq_ok.1 h
  cases hsaved : t.saveEvent e with
  | error fault => simp [hsaved, Except.map] at hsave
  | ok saved =>
    rw [hsaved] at hsave
    cases hsave
    exact ⟨saved.1, saved.2, rfl, hrest⟩

private theorem eq_afterSaves (h : t.saveAll ds = .ok t') : t' = t.afterSaves ds := by
  induction ds generalizing t with
  | nil => exact (Except.ok.inj h).symm
  | cons e ds ih =>
    obtain ⟨answer, next, hsave, hrest⟩ := saveAll_cons_eq_ok h
    rw [ih hrest, afterSaves, afterSaves, List.foldl_cons, afterSave, hsave]

private theorem known_of_saveEvent {deeds : List Deed} {e answer : Event}
    (hrec : EventHistory.Recorded ⟨t, deeds⟩)
    (hunset : t.marks = t.events.map fun row => ⟨row.uid, false⟩)
    (h : t.saveEvent e = .ok (answer, t')) :
    (t'.marks = t'.events.map fun row => ⟨row.uid, false⟩) ∧ t.events ⊆ t'.events ∧
      e.uid.toString ∈ t'.events.map (·.uid) := by
  rcases saveEvent_cases hrec.marks h with ⟨rfl, row, hrow, huid, -⟩ | ⟨-, rfl, -, -⟩
  · exact ⟨hunset, List.Subset.refl _, List.mem_map.2 ⟨row, hrow, huid⟩⟩
  · refine ⟨?_, List.subset_append_left _ _, ?_⟩
    · rw [marks_withNew, events_withNew, List.map_append, hunset]
      rfl
    · rw [events_withNew, List.map_append]
      exact List.mem_append_right _ (List.mem_singleton_self _)

private theorem recorded_of_saveAll {deeds : List Deed} (hrec : EventHistory.Recorded ⟨t, deeds⟩)
    (hunset : t.marks = t.events.map fun row => ⟨row.uid, false⟩) (h : t.saveAll ds = .ok t') :
    (∃ deeds', EventHistory.Recorded ⟨t', deeds'⟩) ∧
      (t'.marks = t'.events.map fun row => ⟨row.uid, false⟩) ∧ t.events ⊆ t'.events ∧
      ∀ e ∈ ds, e.uid.toString ∈ t'.events.map (·.uid) := by
  induction ds generalizing t deeds with
  | nil =>
    cases h
    exact ⟨⟨deeds, hrec⟩, hunset, List.Subset.refl _, by simp⟩
  | cons e ds ih =>
    obtain ⟨answer, next, hsave, hrest⟩ := saveAll_cons_eq_ok h
    obtain ⟨hunset', hgrown, hknown⟩ := known_of_saveEvent hrec hunset hsave
    obtain ⟨hrec', hlast, hkept, hall⟩ := ih (hrec.save hsave) hunset' hrest
    refine ⟨hrec', hlast, List.Subset.trans hgrown hkept, ?_⟩
    intro f hf
    rcases List.mem_cons.1 hf with rfl | hf
    · exact List.map_subset _ hkept hknown
    · exact hall f hf

private theorem holds_of_saveAll (h : empty.saveAll ds = .ok t) : t.Holds ds := by
  obtain ⟨hrec, hunset, -, hknown⟩ := recorded_of_saveAll EventHistory.Recorded.fresh rfl h
  obtain ⟨stored, hsub, hrows, hdepth⟩ := exists_stored ds empty [] rfl (by simp)
  rw [List.nil_append] at hrows hdepth
  rw [← eq_afterSaves h] at hrows
  exact ⟨hrec, hunset, ⟨stored, hsub.subset, hrows, hdepth⟩, hknown⟩

theorem Holds.nodup (h : t.Holds ds) : (t.events.map (·.uid)).Nodup := by
  obtain ⟨deeds, hrec⟩ := h.recorded
  exact hrec.uids

private theorem Holds.exists_delivery (h : t.Holds ds) {row : EventRow} (hrow : row ∈ t.events) :
    ∃ e ∈ ds, row = EventRow.rowOf e := by
  obtain ⟨stored, hsub, hrows, -⟩ := h.rows
  rw [events_eq hrows] at hrow
  obtain ⟨e, he, rfl⟩ := List.mem_map.1 hrow
  exact ⟨e, hsub he, rfl⟩

private theorem Holds.events_subset (h : t.Holds ds) (h' : t'.Holds ds')
    (hbodies : ∀ e ∈ ds, ∀ f ∈ ds', e.uid = f.uid → e.SameBody f)
    (huids : ds.map (·.uid) ⊆ ds'.map (·.uid)) : t.events ⊆ t'.events := by
  intro row hrow
  obtain ⟨e, he, rfl⟩ := h.exists_delivery hrow
  obtain ⟨f, hf, hsame⟩ := List.mem_map.1 (huids (List.mem_map_of_mem he))
  obtain ⟨row', hrow', huid⟩ := List.mem_map.1 (h'.known f hf)
  obtain ⟨g, hg, rfl⟩ := h'.exists_delivery hrow'
  have hbody : e.SameBody g := hbodies e he g hg (hsame.symm.trans (toString_injective huid).symm)
  have hrows : EventRow.rowOf e = EventRow.rowOf g := by
    rw [← hbody]
    rfl
  exact hrows ▸ hrow'

private theorem Holds.events_perm (h : t.Holds ds) (h' : t'.Holds ds')
    (hbodies : ∀ e ∈ ds, ∀ f ∈ ds', e.uid = f.uid → e.SameBody f)
    (huids : ∀ uid, uid ∈ ds.map (·.uid) ↔ uid ∈ ds'.map (·.uid)) : t.events.Perm t'.events := by
  refine (List.perm_ext_iff_of_nodup (h.nodup.of_map _) (h'.nodup.of_map _)).2 fun row => ?_
  constructor
  · exact fun hrow => h.events_subset h' hbodies (fun uid => (huids uid).1) hrow
  · refine fun hrow => h'.events_subset h ?_ (fun uid => (huids uid).2) hrow
    intro f hf e he huid
    have hbody := hbodies e he f hf huid.symm
    rw [Event.SameBody, ← hbody]

/-! ### What is answered -/

private theorem Holds.marks_perm (h : t.Holds ds) (h' : t'.Holds ds')
    (hevents : t.events.Perm t'.events) :
    t.marks.Perm t'.marks := by
  rw [h.unset, h'.unset]
  exact hevents.map _

private theorem Holds.eventsByMark_perm (h : t.Holds ds) (h' : t'.Holds ds')
    (hevents : t.events.Perm t'.events) (handled : Bool) :
    ∃ es es', t.eventsByMark handled = .ok es ∧ t'.eventsByMark handled = .ok es' ∧
      es.Perm es' := by
  obtain ⟨deeds, hrec⟩ := h.recorded
  obtain ⟨deeds', hrec'⟩ := h'.recorded
  obtain ⟨es, hes, huids, hall⟩ := hrec.exists_eventsByMark handled
  obtain ⟨es', hes', huids', hall'⟩ := hrec'.exists_eventsByMark handled
  have hmarks := h.marks_perm h' hevents
  have hselected : (es.map (·.uid.toString)).Perm (es'.map (·.uid.toString)) :=
    huids.trans (((hmarks.filter _).map _).trans huids'.symm)
  -- Events with one identity are read from one row.
  have hsame : ∀ e ∈ es, ∀ e' ∈ es', e.uid.toString = e'.uid.toString → e = e' := by
    intro e he e' he' huid
    obtain ⟨hhandled, hhas⟩ := hall e he
    obtain ⟨hhandled', hhas'⟩ := hall' e' he'
    obtain ⟨row, hrow, hrowUid, hread⟩ := hhas.row
    obtain ⟨row', hrow', hrowUid', hread'⟩ := hhas'.row
    obtain rfl : row = row' := List.inj_on_of_nodup_map hrec.uids hrow
      (hevents.mem_iff.2 hrow') (hrowUid.trans (huid.trans hrowUid'.symm))
    rw [hhandled] at hread
    rw [hhandled', hread] at hread'
    exact Except.ok.inj hread'
  have hnodup : (es.map (·.uid.toString)).Nodup := by
    rw [huids.nodup_iff]
    have hmarked : (t.marks.map (·.uid)).Nodup := hrec.marks ▸ hrec.uids
    exact hmarked.sublist (List.filter_sublist.map _)
  refine ⟨es, es', hes, hes', ?_⟩
  refine (List.perm_ext_iff_of_nodup (hnodup.of_map _)
    ((hselected.nodup_iff.1 hnodup).of_map _)).2 fun e => ⟨fun he => ?_, fun he => ?_⟩
  · obtain ⟨e', he', huid⟩ := List.mem_map.1 (hselected.mem_iff.1 (List.mem_map_of_mem he))
    exact hsame e he e' he' huid.symm ▸ he'
  · obtain ⟨e', he', huid⟩ := List.mem_map.1 (hselected.mem_iff.2 (List.mem_map_of_mem he))
    exact hsame e' he' e he huid ▸ he'

private theorem lastIndex_le {deeds deeds' : List Deed} {last last' : UInt64}
    (hrec : EventHistory.Recorded ⟨t, deeds⟩) (hrec' : EventHistory.Recorded ⟨t', deeds'⟩)
    (hevents : t.events ⊆ t'.events) (h : t.lastIndex = .ok last)
    (h' : t'.lastIndex = .ok last') : last ≤ last' := by
  obtain ⟨_, hlast, -, hreached⟩ := hrec.exists_lastIndex
  obtain ⟨_, hlast', hbound, -⟩ := hrec'.exists_lastIndex
  obtain rfl := Except.ok.inj (h.symm.trans hlast)
  obtain rfl := Except.ok.inj (h'.symm.trans hlast')
  rcases hreached with ⟨-, rfl⟩ | ⟨row, hrow, hindex⟩
  · exact UInt64.le_iff_toNat_le.2 (Nat.zero_le _)
  · have := hbound row (hevents hrow)
    exact UInt64.le_iff_toNat_le.2 (by omega)

theorem Holds.exists_lastIndex (h : t.Holds ds) (h' : t'.Holds ds')
    (hevents : t.events.Perm t'.events) :
    ∃ last, t.lastIndex = .ok last ∧ t'.lastIndex = .ok last := by
  obtain ⟨deeds, hrec⟩ := h.recorded
  obtain ⟨deeds', hrec'⟩ := h'.recorded
  obtain ⟨last, hlast, -, -⟩ := hrec.exists_lastIndex
  obtain ⟨last', hlast', -, -⟩ := hrec'.exists_lastIndex
  have hle := lastIndex_le hrec hrec' hevents.subset hlast hlast'
  have hge := lastIndex_le hrec' hrec hevents.symm.subset hlast' hlast
  exact ⟨last, hlast, UInt64.le_antisymm hle hge ▸ hlast'⟩

end Tables

namespace Snapshot

variable {job : Uuid} {l l' stored : List Snapshot}

private theorem exists_fault (job : Uuid) :
    ∃ fault, ∀ (s : Snapshot) e, s.read job = .error e → e = fault := by
  refine ⟨.decode s!"allocation of job {job}" (ReadingError.allocation .json).message, ?_⟩
  intro s e h
  unfold read at h
  split at h
  · cases h
  · exact (Except.error.inj h).symm

/-- The order of snapshots as an order of their ranks. -/
def rankLe (x y : Option Int × Int) : Bool := if x.1 = y.1 then x.2 ≤ y.2 else timeLe x.1 y.1

private theorem rankLe_antisymm {x y : Option Int × Int} (hxy : rankLe x y = true)
    (hyx : rankLe y x = true) : x = y := by
  obtain ⟨time, index⟩ := x
  obtain ⟨time', index'⟩ := y
  unfold rankLe at hxy hyx
  by_cases htime : time = time'
  · subst htime
    simp only [if_true, decide_eq_true_eq] at hxy hyx
    rw [Int.le_antisymm hxy hyx]
  · rw [if_neg htime] at hxy
    rw [if_neg fun h => htime h.symm] at hyx
    cases time <;> cases time' <;> simp_all [timeLe]
    omega

/-- Sorting puts the same ranks in the same places, however ties were ordered before. -/
private theorem map_rank_mergeSort (h : l.Perm l') :
    (l.mergeSort comesFirst).map rank = (l'.mergeSort comesFirst).map rank := by
  have hsorted : ∀ l : List Snapshot,
      ((l.mergeSort comesFirst).map rank).Pairwise fun x y => rankLe x y = true :=
    fun l => List.pairwise_map.2 (List.pairwise_mergeSort comesFirst_trans comesFirst_total l)
  have hperm : (l.mergeSort comesFirst).Perm (l'.mergeSort comesFirst) :=
    (List.mergeSort_perm _ _).trans (h.trans (List.mergeSort_perm _ _).symm)
  exact List.Perm.eq_of_pairwise (fun _ _ _ _ => rankLe_antisymm) (hsorted l) (hsorted l')
    (hperm.map rank)

private theorem readAlike_of_perm (h : l.Perm l') (hstored : l ⊆ stored)
    (husable : ∀ s ∈ l, s.canUse "CreateTime" = true) (job : Uuid) :
    ReadAlike job stored (readAll job l) (readAll job l') := by
  have hall : l.all (·.canUse "CreateTime") = true := List.all_eq_true.2 husable
  have hall' : l'.all (·.canUse "CreateTime") = true :=
    List.all_eq_true.2 fun s hs => husable s (h.mem_iff.2 hs)
  rw [readAll, readAll, if_pos hall, if_pos hall']
  have hsorted : (l.mergeSort comesFirst).Perm (l'.mergeSort comesFirst) :=
    (List.mergeSort_perm _ _).trans (h.trans (List.mergeSort_perm _ _).symm)
  have hranks := map_rank_mergeSort h
  have hshown : l.mergeSort comesFirst ⊆ stored := fun s hs => hstored (List.mem_mergeSort.1 hs)
  generalize l.mergeSort comesFirst = shown at hsorted hranks hshown ⊢
  generalize l'.mergeSort comesFirst = shown' at hsorted hranks ⊢
  by_cases hreads : ∀ s ∈ shown, ∃ a, s.read job = .ok a
  · obtain ⟨as, has⟩ := exists_mapM_eq_ok hreads
    obtain ⟨as', has'⟩ := exists_mapM_eq_ok fun s hs => hreads s (hsorted.mem_iff.2 hs)
    rw [has, has']
    exact .read shown shown' as as' hshown hsorted hranks has has'
  · obtain ⟨fault, hfault⟩ := exists_fault job
    have hfails : ∀ l : List Snapshot, shown.Perm l → l.mapM (read job) = .error fault := by
      intro l hl
      cases hmapM : l.mapM (read job) with
      | error e =>
        obtain ⟨s, -, hs⟩ := exists_of_mapM_eq_error hmapM
        rw [hfault s e hs]
      | ok as =>
        obtain ⟨pairs, hpairs, -, hread⟩ := exists_pairs_of_mapM hmapM
        refine absurd (fun s hs => ?_) hreads
        rw [hl.mem_iff, ← hpairs] at hs
        obtain ⟨x, hx, rfl⟩ := List.mem_map.1 hs
        exact ⟨x.2, hread x hx⟩
    rw [hfails shown (.refl _), hfails shown' hsorted]
    exact .failed fault

end Snapshot

namespace Tables

variable {t t' : Tables} {ds ds' : List Event}

theorem Holds.canUse (h : t.Holds ds) {s : Snapshot} (hs : s ∈ t.snapshots) (name : String) :
    s.canUse name = true := by
  obtain ⟨stored, -, hrows, hdepth⟩ := h.rows
  rw [snapshots_eq hrows hdepth] at hs
  obtain ⟨x, hx, rfl⟩ := List.mem_map.1 hs
  exact Snapshot.canUse_ofEvent? (mem_snapshotsOf.1 hx).2 name

private theorem Holds.allocations_alike (h : t.Holds ds) (hevents : t.events.Perm t'.events)
    (job : Uuid) : Snapshot.ReadAlike job (t.snapshots.filter (·.isOf job)) (t.allocations job)
      (t'.allocations job) := by
  have hsnapshots : t.snapshots.Perm t'.snapshots := hevents.filterMap _
  exact Snapshot.readAlike_of_perm (hsnapshots.filter _) (List.Subset.refl _)
    (fun s hs => h.canUse (List.mem_filter.1 hs).1 _) job

private theorem Holds.latestAllocations_alike (h : t.Holds ds) (h' : t'.Holds ds')
    (hevents : t.events.Perm t'.events) (job : Uuid) :
    Snapshot.ReadAlike job (t.snapshots.filter (·.isOf job)) (t.latestAllocations job)
      (t'.latestAllocations job) := by
  have hsnapshots : t.snapshots.Perm t'.snapshots := hevents.filterMap _
  obtain ⟨stored, -, hrows, hdepth⟩ := h.rows
  obtain ⟨stored', -, hrows', hdepth'⟩ := h'.rows
  have hlater : ∀ s, (t.later s).any s.isSameAs = (t'.later s).any s.isSameAs := by
    intro s
    have hperm : (t.later s).Perm (t'.later s) :=
      (List.mergeSort_perm _ _).trans
        ((hsnapshots.filter _).trans (List.mergeSort_perm _ _).symm)
    exact hperm.any_eq
  rw [latestAllocations, latestAllocations, present_eq hrows hdepth, present_eq hrows' hdepth']
  simp only [← hlater]
  refine Snapshot.readAlike_of_perm ((hsnapshots.filter _).filter _)
    (fun s hs => (List.mem_filter.1 hs).1) ?_ job
  intro s hs
  exact h.canUse (List.mem_filter.1 (List.mem_filter.1 hs).1).1 _

/-- Two sequences of deliveries that are accepted, with the same events in them in any order and any
number, leave stores behind that answer alike: the same events with either mark, the same index to
go on with, and for every job the same outcome of its history and of its latest state, in the same
order up to snapshots that tie. -/
theorem answers_alike_of_same_deliveries (hsaved : empty.saveAll ds = .ok t)
    (hsaved' : empty.saveAll ds' = .ok t')
    (hbodies : ∀ e ∈ ds, ∀ f ∈ ds', e.uid = f.uid → e.SameBody f)
    (huids : ∀ uid, uid ∈ ds.map (·.uid) ↔ uid ∈ ds'.map (·.uid)) :
    (∀ handled, ∃ es es', t.eventsByMark handled = .ok es ∧ t'.eventsByMark handled = .ok es' ∧
        es.Perm es') ∧
      (∃ last, t.lastIndex = .ok last ∧ t'.lastIndex = .ok last) ∧
      ∀ job, Snapshot.ReadAlike job (t.snapshots.filter (·.isOf job)) (t.allocations job)
          (t'.allocations job) ∧
        Snapshot.ReadAlike job (t.snapshots.filter (·.isOf job)) (t.latestAllocations job)
          (t'.latestAllocations job) := by
  have h := holds_of_saveAll hsaved
  have h' := holds_of_saveAll hsaved'
  have hevents := h.events_perm h' hbodies huids
  exact ⟨h.eventsByMark_perm h' hevents, h.exists_lastIndex h' hevents, fun job =>
    ⟨h.allocations_alike hevents job, h.latestAllocations_alike h' hevents job⟩⟩

/-- Two snapshots of one allocation, the later one first and once more at the end, or the earlier
one first and marked already. -/
theorem answers_alike_of_sample_deliveries :
    let ds := [sampleEvent 1 7, sampleEvent 2 3, sampleEvent 1 7]
    let ds' := [{ sampleEvent 2 3 with handled := true }, sampleEvent 1 7]
    let job : Uuid := ⟨⟨List.replicate 16 0x11, rfl⟩⟩
    ∃ t t', empty.saveAll ds = .ok t ∧ empty.saveAll ds' = .ok t' ∧
      Snapshot.ReadAlike job (t.snapshots.filter (·.isOf job)) (t.latestAllocations job)
        (t'.latestAllocations job) := by
  intro ds ds' job
  have haccepted : ∀ e ∈ ds, e.IsAccepted := by decide +kernel
  have haccepted' : ∀ e ∈ ds', e.IsAccepted := by decide +kernel
  obtain ⟨t, hsaved⟩ := exists_saveAll EventHistory.Recorded.fresh haccepted
  obtain ⟨t', hsaved'⟩ := exists_saveAll EventHistory.Recorded.fresh haccepted'
  have hbodies : ∀ e ∈ ds, ∀ f ∈ ds', e.uid = f.uid → e.SameBody f := by
    intro e he f hf huid
    have hother : (sampleEvent 1 7).uid ≠ (sampleEvent 2 3).uid := by decide
    simp only [ds, ds', List.mem_cons, List.not_mem_nil, or_false] at he hf
    rcases he with rfl | rfl | rfl <;> rcases hf with rfl | rfl
    · exact absurd huid hother
    · rfl
    · rfl
    · exact absurd huid.symm hother
    · exact absurd huid hother
    · rfl
  have huids : ∀ uid, uid ∈ ds.map (·.uid) ↔ uid ∈ ds'.map (·.uid) := by
    intro uid
    simp only [ds, ds', List.map_cons, List.map_nil, List.mem_cons, List.not_mem_nil, or_false]
    constructor
    · rintro (h | h | h)
      · exact .inr h
      · exact .inl h
      · exact .inr h
    · rintro (h | h)
      · exact .inr (.inl h)
      · exact .inl h
  obtain ⟨-, -, halike⟩ := answers_alike_of_same_deliveries hsaved hsaved' hbodies huids
  exact ⟨t, t', hsaved, hsaved', (halike job).2⟩

end Tables

end Store

end RunLedger
