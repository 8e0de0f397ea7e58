import Mathlib.Data.List.Pairwise
import RunLedger.Proofs.Store.EventHistory
import RunLedger.Proofs.Store.Projection

/-!
The order of a job's allocations. The store orders them by the time of creation that it finds in the
payload, and an allocation without one stands before all others. What is returned for it is zero, so
the returned times need not ascend. They do, with the indices among equal ones, exactly when no
allocation without a time stands before one that should come first.
-/

set_option autoImplicit false

namespace RunLedger

open Store (EventRow Snapshot)

namespace Event

/-- The time of creation that the store finds in the row of an event. -/
def foundTime? (e : Event) : Option Int :=
  (Snapshot.ofRow? (EventRow.rowOf e)).bind (·.createTime?)

/-- The order in which the store gives what events carry: by the time that it finds, those without
one first, then by their index. -/
def ComesBefore (e f : Event) : Prop :=
  match e.foundTime?, f.foundTime? with
  | none, none => e.index ≤ f.index
  | none, some _ => True
  | some _, none => False
  | some u, some v => u < v ∨ u = v ∧ e.index ≤ f.index

/-- Whether an allocation is what the store reads for a job in the row of an event. -/
def IsReadAs (e : Event) (job : Uuid) (a : Allocation) : Prop :=
  ∃ s, Snapshot.ofRow? (EventRow.rowOf e) = some s ∧ s.isOf job = true ∧ s.read job = .ok a

end Event

/-- The order by the time that is returned, then by the index of the event. -/
def ByCreation (x y : Event × Allocation) : Prop :=
  x.2.createTime < y.2.createTime ∨ x.2.createTime = y.2.createTime ∧ x.1.index ≤ y.1.index

namespace Store.Tables

variable {stored : List Event} {job : Uuid} {e f : Event} {a : Allocation}

private theorem index_of_ofRow? {s : Snapshot} (h : Snapshot.ofRow? (EventRow.rowOf e) = some s) :
    s.index = e.index.toNat := by
  unfold Snapshot.ofRow? at h
  split at h
  · rw [← Option.some.inj h]
    rfl
  · cases h

private theorem comesBefore_of_comesFirst {s s' : Snapshot}
    (he : Snapshot.ofRow? (EventRow.rowOf e) = some s)
    (hf : Snapshot.ofRow? (EventRow.rowOf f) = some s') (h : s.comesFirst s' = true) :
    e.ComesBefore f := by
  have hindex : s.index ≤ s'.index ↔ e.index ≤ f.index := by
    rw [index_of_ofRow? he, index_of_ofRow? hf, UInt64.le_iff_toNat_le]
    omega
  have hfound : e.foundTime? = s.createTime? := by rw [Event.foundTime?, he, Option.bind_some]
  have hfound' : f.foundTime? = s'.createTime? := by rw [Event.foundTime?, hf, Option.bind_some]
  rw [Snapshot.comesFirst] at h
  rw [Event.ComesBefore, hfound, hfound']
  generalize s.createTime? = x at h
  generalize s'.createTime? = y at h
  cases x with
  | none =>
    cases y with
    | none => simpa [hindex] using h
    | some v => trivial
  | some u =>
    cases y with
    | none => simp [Snapshot.timeLe] at h
    | some v =>
      by_cases huv : u = v
      · subst huv
        exact .inr ⟨rfl, hindex.1 (by simpa using h)⟩
      · have hle : u ≤ v := by simpa [huv, Snapshot.timeLe] using h
        exact .inl (lt_of_le_of_ne hle huv)

private theorem exists_entries_of_readAll {p : Snapshot → Bool} {list : List Allocation}
    (hdepth : ∀ e ∈ stored, e.payload.depth ≤ Json.nestingLimit)
    (hwell : ∀ e ∈ stored, e.payload.WellFormed)
    (h : Snapshot.readAll job ((((snapshotsOf stored).map Prod.snd).filter (·.isOf job)).filter p) =
      .ok list) :
    ∃ entries : List (Event × Allocation), list = entries.map Prod.snd ∧
      entries.Pairwise (fun x y => x.1.ComesBefore y.1) ∧
      ∀ x ∈ entries, x.1 ∈ stored ∧ x.1.IsReadAs job x.2 ∧
        (x.1.foundTime? = some x.2.createTime ∨ x.2.createTime = 0 ∧
          ∀ member, x.1.member? = some member → member.field? "CreateTime" = none) := by
  rw [readAll_filter] at h
  obtain ⟨pairs, hpairs, rfl, hread⟩ := exists_pairs_of_mapM h
  have hmem : ∀ x ∈ pairs, x.1.1 ∈ stored ∧ Snapshot.ofEvent? x.1.1 = some x.1.2 ∧
      Snapshot.ofRow? (EventRow.rowOf x.1.1) = some x.1.2 ∧ x.1.2.isOf job = true := by
    intro x hx
    have hselected := (List.mem_filter.1 (hpairs ▸ List.mem_map_of_mem hx)).1
    obtain ⟨hsnapshot, hjob⟩ := List.mem_filter.1 (List.mem_mergeSort.1 hselected)
    obtain ⟨hstored, hsnapshot⟩ := mem_snapshotsOf.1 hsnapshot
    exact ⟨hstored, hsnapshot, (Snapshot.ofRow?_rowOf (hdepth _ hstored)).trans hsnapshot, hjob⟩
  have hsorted : (pairs.map Prod.fst).Pairwise fun x y => x.2.comesFirst y.2 = true := by
    rw [hpairs]
    exact (@List.pairwise_mergeSort _ (fun x y : Event × Snapshot => x.2.comesFirst y.2)
      (fun x y z => Snapshot.comesFirst_trans x.2 y.2 z.2)
      (fun x y => Snapshot.comesFirst_total x.2 y.2) _).filter _
  refine ⟨pairs.map fun x => (x.1.1, x.2), by rw [List.map_map]; rfl, ?_, ?_⟩
  · rw [List.pairwise_map] at hsorted ⊢
    refine hsorted.imp_of_mem fun {x y} hx hy hfirst => ?_
    obtain ⟨-, -, hrow, -⟩ := hmem x hx
    obtain ⟨-, -, hrow', -⟩ := hmem y hy
    exact comesBefore_of_comesFirst hrow hrow' hfirst
  · intro x hx
    obtain ⟨y, hy, rfl⟩ := List.mem_map.1 hx
    obtain ⟨hstored, hsnapshot, hrow, hjob⟩ := hmem y hy
    refine ⟨hstored, ⟨y.1.2, hrow, hjob, hread y hy⟩, ?_⟩
    rw [Event.foundTime?, hrow, Option.bind_some]
    exact Snapshot.createTime_of_read (hwell _ hstored) hsnapshot hjob (hread y hy)

/-- Entries that come in the order of the times that are found for them come in that of the returned
times exactly when those without a time do, as long as zero is returned for these alone. -/
private theorem pairwise_byCreation_iff {entries : List (Event × Allocation)}
    (hsorted : entries.Pairwise fun x y => x.1.ComesBefore y.1)
    (htimes : ∀ x ∈ entries, x.2.createTime = x.1.foundTime?.getD 0) :
    entries.Pairwise ByCreation ↔ ∀ x ∈ entries, ∀ y ∈ entries, x.1.foundTime? = none →
      y.1.foundTime? ≠ none → ByCreation x y := by
  constructor
  · intro hby x hx y hy hnone hsome
    have hne : x ≠ y := by
      rintro rfl
      exact hsome hnone
    -- One of the two stands before the other, and both orders hold of them.
    let InOrder (x y : Event × Allocation) := x.1.ComesBefore y.1 ∧ ByCreation x y
    have hboth : entries.Pairwise fun x y => InOrder x y ∨ InOrder y x :=
      (hsorted.and hby).imp .inl
    have : Std.Symm fun x y => InOrder x y ∨ InOrder y x := ⟨fun _ _ h => h.symm⟩
    rcases hboth.forall hx hy hne with ⟨-, hxy⟩ | ⟨hyx, -⟩
    · exact hxy
    · rw [Event.ComesBefore, hnone] at hyx
      cases hfound : y.1.foundTime? with
      | none => exact absurd hfound hsome
      | some v => simp [hfound] at hyx
  · intro hall
    refine hsorted.imp_of_mem fun {x y} hx hy hxy => ?_
    have htime := htimes x hx
    have htime' := htimes y hy
    have hmixed := hall x hx y hy
    rw [Event.ComesBefore] at hxy
    rw [ByCreation] at hmixed ⊢
    rcases hfound : x.1.foundTime? with _ | u <;> rcases hfound' : y.1.foundTime? with _ | v <;>
      simp only [hfound, hfound', Option.getD_none, Option.getD_some] at hxy htime htime' hmixed
    · exact .inr ⟨htime.trans htime'.symm, hxy⟩
    · exact hmixed trivial (by simp)
    · rw [htime, htime']
      exact hxy

/-- After any calls, the allocations of a job come in the order of the times that the store finds,
those without one first, and of their events' indices. What is returned for each is the time that is
found, or zero where its payload has none. So the returned times ascend, and the indices among equal
ones, exactly when every allocation without a time may stand before those that have one. -/
theorem lists_follow_found_times (attempts : List Attempt) (job : Uuid) (list : List Allocation)
    (hwell : ∀ a ∈ attempts, ∀ e, a.call = .save e → e.payload.WellFormed)
    (hlist : (EventHistory.after attempts).tables.allocations job = .ok list ∨
      (EventHistory.after attempts).tables.latestAllocations job = .ok list) :
    ∃ (stored : List Event) (entries : List (Event × Allocation)),
      (∀ e ∈ stored, ⟨.save e, none⟩ ∈ attempts) ∧
      stored.map EventRow.ofEvent = (EventHistory.after attempts).tables.events.map .ok ∧
      list = entries.map Prod.snd ∧
      entries.Pairwise (fun x y => x.1.ComesBefore y.1) ∧
      (∀ x ∈ entries, x.1 ∈ stored ∧ x.1.IsReadAs job x.2 ∧
        (x.1.foundTime? = some x.2.createTime ∨ x.2.createTime = 0 ∧
          ∀ member, x.1.member? = some member → member.field? "CreateTime" = none)) ∧
      ((∀ x ∈ entries, x.2.createTime = x.1.foundTime?.getD 0) →
        (entries.Pairwise ByCreation ↔ ∀ x ∈ entries, ∀ y ∈ entries, x.1.foundTime? = none →
          y.1.foundTime? ≠ none → ByCreation x y)) := by
  obtain ⟨stored, hsaved, hrows, hdepth⟩ := EventHistory.exists_stored_after attempts
  generalize (EventHistory.after attempts).tables = t at hrows hlist ⊢
  have hwell' : ∀ e ∈ stored, e.payload.WellFormed :=
    fun e he => hwell _ (hsaved e he) e rfl
  obtain ⟨p, hread⟩ : ∃ p : Snapshot → Bool, Snapshot.readAll job
      ((((snapshotsOf stored).map Prod.snd).filter (·.isOf job)).filter p) = .ok list := by
    rw [← snapshots_eq hrows hdepth]
    rcases hlist with hhistory | hlatest
    · exact ⟨fun _ => true, by rw [List.filter_true]; exact hhistory⟩
    · rw [latestAllocations, present_eq hrows hdepth] at hlatest
      exact ⟨_, hlatest⟩
  obtain ⟨entries, hentries, hsorted, hall⟩ := exists_entries_of_readAll hdepth hwell' hread
  exact ⟨stored, entries, hsaved, hrows, hentries, hsorted, hall,
    fun htimes => pairwise_byCreation_iff hsorted htimes⟩

private theorem readAll_of_pairwise {snapshots : List Snapshot}
    (husable : snapshots.all (·.canUse "CreateTime") = true)
    (hsorted : snapshots.Pairwise fun s s' => s.comesFirst s' = true) :
    Snapshot.readAll job snapshots = snapshots.mapM (Snapshot.read job) := by
  rw [Snapshot.readAll, if_pos husable, List.mergeSort_of_pairwise hsorted]

/-- A snapshot of an allocation, with or without a time of creation. -/
def timedEvent (n : UInt8) (id : String) (time : Option Int) : Event :=
  let fields := time.toList.map (fun t => ("CreateTime", Json.Value.int t)) ++
    [("ID", .text id), ("JobID", .text "11111111-1111-1111-1111-111111111111")]
  { sampleEvent n (UInt64.ofNat n.toNat) with
    payload := .record [("Allocation", .record fields)] }

/-- Three allocations of a job: one without a time, an older one than any with a time from zero on,
and one with the time zero and the smallest index. -/
def timedEvents : List Event :=
  [timedEvent 2 "b" none, timedEvent 3 "c" (some (-5)), timedEvent 1 "a" (some 0)]

/-- The calls that save them, one after the other. -/
def timedSaves : List Attempt := timedEvents.map fun e => ⟨.save e, none⟩

private theorem wellFormed_timedEvents : ∀ e ∈ timedEvents, e.payload.WellFormed := by
  have hid : ("ID" : String) < "JobID" := by decide
  have htime : ("CreateTime" : String) < "ID" := by decide
  have htimed : ∀ n id (t : Int), (Json.Value.int t).WellFormed →
      (timedEvent n id (some t)).payload.WellFormed := by
    intro n id t ht
    refine ⟨List.pairwise_singleton _ _, ⟨?_, ht, trivial, trivial, trivial⟩, trivial⟩
    exact List.isChain_iff_pairwise.1 (.cons_cons htime (.cons_cons hid (.singleton _)))
  have huntimed : ∀ n id, (timedEvent n id none).payload.WellFormed := by
    intro n id
    refine ⟨List.pairwise_singleton _ _, ⟨?_, trivial, trivial, trivial⟩, trivial⟩
    exact List.isChain_iff_pairwise.1 (.cons_cons hid (.singleton _))
  intro e he
  simp only [timedEvents, List.mem_cons, List.not_mem_nil, or_false] at he
  rcases he with rfl | rfl | rfl
  · exact huntimed 2 "b"
  · exact htimed 3 "c" (-5) trivial
  · exact htimed 1 "a" 0 trivial

private theorem wellFormed_timedSaves :
    ∀ a ∈ timedSaves, ∀ e, a.call = .save e → e.payload.WellFormed := by
  intro a ha e hcall
  obtain ⟨f, hf, rfl⟩ := List.mem_map.1 ha
  obtain rfl : f = e := EventCall.save.inj hcall
  exact wellFormed_timedEvents f hf

private theorem exists_allocations_timedSaves :
    ∃ list, (EventHistory.after timedSaves).tables.allocations ⟨⟨List.replicate 16 0x11, rfl⟩⟩ =
      .ok list ∧ list.map (·.createTime) = [0, -5, 0] := by
  let job : Uuid := ⟨⟨List.replicate 16 0x11, rfl⟩⟩
  let snapshots := (EventHistory.after timedSaves).tables.snapshots.filter (·.isOf job)
  -- One evaluation for all three, so that the events are saved only once.
  have hall : (snapshots.Pairwise fun s s' => s.comesFirst s' = true) ∧
      snapshots.all (·.canUse "CreateTime") = true ∧
      (snapshots.mapM (Snapshot.read job)).toOption.map (·.map (·.createTime)) =
        some [0, -5, 0] := by decide +kernel
  obtain ⟨hsorted, husable, htimes⟩ := hall
  obtain ⟨list, hlist, htimes⟩ := Option.map_eq_some_iff.1 htimes
  refine ⟨list, ?_, htimes⟩
  rw [allocations, readAll_of_pairwise husable hsorted]
  cases hread : snapshots.mapM (Snapshot.read job) with
  | error fault =>
    rw [hread] at hlist
    cases hlist
  | ok read =>
    rw [hread] at hlist
    exact congrArg Except.ok (Option.some.inj hlist)

theorem order_of_timedEvents :
    let t := (EventHistory.after timedSaves).tables
    ∃ list, (∀ a ∈ timedSaves, ∀ e, a.call = .save e → e.payload.WellFormed) ∧
      t.allocations ⟨⟨List.replicate 16 0x11, rfl⟩⟩ = .ok list ∧
      list.map (·.createTime) = [0, -5, 0] ∧
      ∃ entries : List (Event × Allocation), list = entries.map Prod.snd ∧
        entries.Pairwise fun x y => x.1.ComesBefore y.1 := by
  intro t
  obtain ⟨list, hlist, htimes⟩ := exists_allocations_timedSaves
  obtain ⟨stored, entries, -, -, hentries, hsorted, -, -⟩ :=
    lists_follow_found_times timedSaves _ list wellFormed_timedSaves (.inl hlist)
  exact ⟨list, wellFormed_timedSaves, hlist, htimes, entries, hentries, hsorted⟩

/-- The returned times need not ascend: what has no time is returned with zero and stands before a
time below zero. -/
theorem returned_times_descend :
    ¬ ∀ (attempts : List Attempt) (job : Uuid) (list : List Allocation),
      (∀ a ∈ attempts, ∀ e, a.call = .save e → e.payload.WellFormed) →
      (EventHistory.after attempts).tables.allocations job = .ok list ∨
        (EventHistory.after attempts).tables.latestAllocations job = .ok list →
      ∃ entries : List (Event × Allocation), list = entries.map Prod.snd ∧
        (∀ x ∈ entries, ⟨.save x.1, none⟩ ∈ attempts ∧ x.1.IsReadAs job x.2) ∧
        entries.Pairwise ByCreation := by
  intro hclaim
  obtain ⟨list, hlist, htimes⟩ := exists_allocations_timedSaves
  obtain ⟨entries, rfl, -, hordered⟩ := hclaim timedSaves _ list wellFormed_timedSaves (.inl hlist)
  have hascends : ((entries.map Prod.snd).map (·.createTime)).Pairwise (· ≤ ·) := by
    rw [List.map_map, List.pairwise_map]
    refine hordered.imp fun {x y} hxy => ?_
    rcases hxy with hlt | ⟨heq, -⟩
    · exact Int.le_of_lt hlt
    · exact Int.le_of_eq heq
  rw [htimes] at hascends
  exact absurd hascends (by decide)

end Store.Tables

end RunLedger
