import Mathlib.Data.List.MinMax
import RunLedger.Proofs.Store.Snapshots

/-!
The latest state of a job's allocations agrees with their history: of the snapshots of each
allocation it shows those with the largest index, in the order of the history.
-/

set_option autoImplicit false

namespace RunLedger.Store

namespace Snapshot

private theorem lex_trans {x y z i j k : Int} (hxy : if x = y then i ≤ j else x ≤ y)
    (hyz : if y = z then j ≤ k else y ≤ z) : if x = z then i ≤ k else x ≤ z := by
  split at hxy <;> split at hyz <;> split <;> omega

theorem comesFirst_trans (a b c : Snapshot) (hab : a.comesFirst b = true)
    (hbc : b.comesFirst c = true) : a.comesFirst c = true := by
  unfold comesFirst at *
  generalize a.createTime? = x at *
  generalize b.createTime? = y at *
  generalize c.createTime? = z at *
  cases x <;> cases y <;> cases z <;> simp_all [timeLe]
  · omega
  · exact lex_trans hab hbc

theorem comesFirst_total (a b : Snapshot) : (a.comesFirst b || b.comesFirst a) = true := by
  unfold comesFirst
  generalize a.createTime? = x
  generalize b.createTime? = y
  cases x <;> cases y <;> simp [timeLe]
  · exact Int.le_total _ _
  · grind

private theorem isReplacedBy_eq {s : Snapshot} {later : List Snapshot} (hs : s.canUse "ID" = true)
    (hlater : ∀ s' ∈ later, s'.canUse "ID" = true) :
    s.isReplacedBy later = .ok (later.any s.isSameAs) := by
  induction later with
  | nil => rfl
  | cons s' later ih =>
    have hrest := ih fun s'' hs'' => hlater s'' (List.mem_cons_of_mem s' hs'')
    rw [isReplacedBy, hs, hlater s' List.mem_cons_self, hrest]
    cases hsame : s.isSameAs s' <;> simp [hsame]

end Snapshot

open Snapshot (ofEvent?)

namespace Tables

variable {t : Tables} {stored : List Event} {job : Uuid}

theorem events_eq (h : stored.map EventRow.ofEvent = t.events.map .ok) :
    t.events = stored.map EventRow.rowOf := by
  generalize t.events = rows at h
  induction stored generalizing rows with
  | nil => simpa [eq_comm] using h
  | cons e stored ih =>
    cases rows with
    | nil => cases h
    | cons row rows =>
      obtain ⟨hrow, hrest⟩ := List.cons.inj h
      rw [List.map_cons, ← ih rows hrest, EventRow.ofEvent_eq_ok hrow]

/-- The events that tell of an allocation, with their snapshots. -/
def snapshotsOf (stored : List Event) : List (Event × Snapshot) :=
  stored.filterMap fun e => (ofEvent? e).map (e, ·)

theorem mem_snapshotsOf {x : Event × Snapshot} :
    x ∈ snapshotsOf stored ↔ x.1 ∈ stored ∧ ofEvent? x.1 = some x.2 := by
  obtain ⟨e, s⟩ := x
  simp only [snapshotsOf, List.mem_filterMap, Option.map_eq_some_iff, Prod.mk.injEq]
  constructor
  · rintro ⟨e', he', s', hs', rfl, rfl⟩
    exact ⟨he', hs'⟩
  · rintro ⟨he, hs⟩
    exact ⟨e, he, s, hs, rfl, rfl⟩

theorem snapshots_eq (hrows : stored.map EventRow.ofEvent = t.events.map .ok)
    (hdepth : ∀ e ∈ stored, e.payload.depth ≤ Json.nestingLimit) :
    t.snapshots = (snapshotsOf stored).map Prod.snd := by
  rw [snapshots, events_eq hrows, List.filterMap_map, snapshotsOf, List.map_filterMap]
  apply List.filterMap_congr
  intro e he
  rw [Function.comp_apply, Snapshot.ofRow?_rowOf (hdepth e he), Option.map_map]
  exact Option.map_id'.symm

private theorem map_fst_snapshotsOf (stored : List Event) (job : Uuid) :
    ((snapshotsOf stored).filter (·.2.isOf job)).map Prod.fst =
      stored.filter fun e => (ofEvent? e).any (·.isOf job) := by
  unfold snapshotsOf
  induction stored with
  | nil => rfl
  | cons e stored ih =>
    cases hs : ofEvent? e with
    | none => simpa [hs] using ih
    | some s => cases hjob : s.isOf job <;> simpa [hs, hjob] using ih

/-- The snapshots of a job, with their events, in the order of the history. -/
def sortedSnapshots (stored : List Event) (job : Uuid) : List (Event × Snapshot) :=
  ((snapshotsOf stored).filter (·.2.isOf job)).mergeSort fun x y => x.2.comesFirst y.2

theorem readAll_filter (stored : List Event) (job : Uuid) (p : Snapshot → Bool) :
    Snapshot.readAll job ((((snapshotsOf stored).map Prod.snd).filter (·.isOf job)).filter p) =
      ((sortedSnapshots stored job).filter (p ·.2)).mapM (·.2.read job) := by
  have hselected : (((snapshotsOf stored).map Prod.snd).filter (·.isOf job)).filter p =
      (((snapshotsOf stored).filter (·.2.isOf job)).filter (p ·.2)).map Prod.snd := by
    rw [List.filter_map, List.filter_map]
    rfl
  have husable : ((((snapshotsOf stored).filter (·.2.isOf job)).filter (p ·.2)).map Prod.snd).all
      (·.canUse "CreateTime") = true := by
    rw [List.all_eq_true]
    intro s hs
    obtain ⟨x, hx, rfl⟩ := List.mem_map.1 hs
    have hmem := (List.mem_filter.1 (List.mem_filter.1 hx).1).1
    exact Snapshot.canUse_ofEvent? (mem_snapshotsOf.1 hmem).2 "CreateTime"
  have hsorted := @filter_mergeSort _ (fun x y : Event × Snapshot => x.2.comesFirst y.2)
    (fun x y z => Snapshot.comesFirst_trans x.2 y.2 z.2)
    (fun x y => Snapshot.comesFirst_total x.2 y.2) (p ·.2)
    ((snapshotsOf stored).filter (·.2.isOf job))
  rw [hselected, Snapshot.readAll, if_pos husable, sortedSnapshots, hsorted,
    ← List.map_mergeSort (r := fun x y : Event × Snapshot => x.2.comesFirst y.2)
      (fun _ _ _ _ => rfl), List.mapM_map]
  rfl

/-- Whether no entry of the same allocation has a larger index. -/
def isLargestIn (entries : List (Event × Allocation)) (x : Event × Allocation) : Bool :=
  entries.all fun y => y.2.id ≠ x.2.id || y.1.index ≤ x.1.index

private theorem isLargestIn_iff {entries : List (Event × Allocation)} {x : Event × Allocation} :
    isLargestIn entries x = true ↔
      ∀ y ∈ entries, y.2.id = x.2.id → y.1.index ≤ x.1.index := by
  simp only [isLargestIn, List.all_eq_true, Bool.or_eq_true, decide_eq_true_eq]
  constructor
  · intro h y hy hid
    exact (h y hy).resolve_left fun hne => hne hid
  · intro h y hy
    by_cases hid : y.2.id = x.2.id
    · exact .inr (h y hy hid)
    · exact .inl hid

section

variable {entries : List ((Event × Snapshot) × Allocation)}
  (hrows : stored.map EventRow.ofEvent = t.events.map .ok)
  (hdepth : ∀ e ∈ stored, e.payload.depth ≤ Json.nestingLimit)
  (hwell : ∀ e ∈ stored, e.payload.WellFormed)
  (habsent : ∀ e ∈ stored, e.member? = none →
    (Json.Relaxed.ofValue e.payload).field? "Allocation" = none)
  (hentries : entries.map Prod.fst = sortedSnapshots stored job)
  (hread : ∀ x ∈ entries, x.1.2.read job = .ok x.2)

include hentries in
private theorem mem_snapshotsOf_of_mem {x : (Event × Snapshot) × Allocation} (hx : x ∈ entries) :
    x.1.1 ∈ stored ∧ ofEvent? x.1.1 = some x.1.2 ∧ x.1.2.isOf job = true := by
  have hsorted : x.1 ∈ sortedSnapshots stored job := by
    rw [← hentries]
    exact List.mem_map_of_mem hx
  obtain ⟨hmem, hjob⟩ := List.mem_filter.1 (List.mem_mergeSort.1 hsorted)
  obtain ⟨hstored, hsnapshot⟩ := mem_snapshotsOf.1 hmem
  exact ⟨hstored, hsnapshot, hjob⟩

include hwell habsent hentries hread in
private theorem carries_of_mem {x : (Event × Snapshot) × Allocation} (hx : x ∈ entries) :
    x.1.1.tellsOf job = true ∧ x.1.1.Carries x.2 ∧
      x.1.2.key? = some (Json.Relaxed.codesOf x.2.id) := by
  obtain ⟨hstored, hsnapshot, hjob⟩ := mem_snapshotsOf_of_mem hentries hx
  exact Snapshot.carries_of_read (hwell _ hstored) (habsent _ hstored) hsnapshot hjob (hread x hx)

include hwell habsent hentries hread in
private theorem perm_tellsOf :
    (entries.map (·.1.1)).Perm (stored.filter (·.tellsOf job)) := by
  have hsorted : entries.map (·.1.1) = (sortedSnapshots stored job).map Prod.fst := by
    rw [← hentries, List.map_map]
    rfl
  have hsame : ∀ e ∈ stored, (ofEvent? e).any (·.isOf job) = e.tellsOf job := by
    intro e he
    rw [Bool.eq_iff_iff, Option.any_eq_true]
    constructor
    · rintro ⟨s, hs, hjob⟩
      have hmem : (e, s) ∈ sortedSnapshots stored job :=
        List.mem_mergeSort.2 (List.mem_filter.2 ⟨mem_snapshotsOf.2 ⟨he, hs⟩, hjob⟩)
      rw [← hentries] at hmem
      obtain ⟨x, hx, hxe⟩ := List.mem_map.1 hmem
      have htells := (carries_of_mem hwell habsent hentries hread hx).1
      rwa [hxe] at htells
    · intro htells
      obtain ⟨s, hs, hjob⟩ := Snapshot.exists_isOf_of_tellsOf (hwell e he) htells
      exact ⟨s, hs, hjob⟩
  rw [hsorted, ← List.filter_congr hsame, ← map_fst_snapshotsOf]
  exact (List.mergeSort_perm _ _).map _

include hentries in
private theorem jobKey?_of_mem {x : (Event × Snapshot) × Allocation} (hx : x ∈ entries) :
    x.1.2.jobKey? = some (Json.Relaxed.codesOf job.toString) := by
  obtain ⟨-, -, hjob⟩ := mem_snapshotsOf_of_mem hentries hx
  simpa [Snapshot.isOf] using hjob

include hentries in
private theorem index_of_mem {x : (Event × Snapshot) × Allocation} (hx : x ∈ entries) :
    x.1.2.index = x.1.1.index.toNat := by
  obtain ⟨-, hsnapshot, -⟩ := mem_snapshotsOf_of_mem hentries hx
  rw [(Snapshot.ofEvent?_eq_some hsnapshot).2]

include hrows hdepth hentries in
private theorem mem_snapshots_iff {s : Snapshot} (hjob : s.isOf job = true) :
    s ∈ t.snapshots ↔ ∃ y ∈ entries, y.1.2 = s := by
  rw [snapshots_eq hrows hdepth]
  constructor
  · intro hs
    obtain ⟨e, he, rfl⟩ := List.mem_map.1 hs
    have hsorted : e ∈ sortedSnapshots stored job :=
      List.mem_mergeSort.2 (List.mem_filter.2 ⟨he, hjob⟩)
    rw [← hentries] at hsorted
    obtain ⟨y, hy, rfl⟩ := List.mem_map.1 hsorted
    exact ⟨y, hy, rfl⟩
  · rintro ⟨y, hy, rfl⟩
    obtain ⟨hstored, hsnapshot, -⟩ := mem_snapshotsOf_of_mem hentries hy
    exact List.mem_map_of_mem (mem_snapshotsOf.2 ⟨hstored, hsnapshot⟩)

include hrows hdepth hwell habsent hentries hread in
private theorem isReplaced_iff {x : (Event × Snapshot) × Allocation} (hx : x ∈ entries) :
    (t.later x.1.2).any x.1.2.isSameAs = true ↔
      ∃ y ∈ entries, y.2.id = x.2.id ∧ x.1.1.index < y.1.1.index := by
  obtain ⟨-, -, hkey⟩ := carries_of_mem hwell habsent hentries hread hx
  have hjobKey := jobKey?_of_mem hentries hx
  rw [List.any_eq_true]
  constructor
  · rintro ⟨s, hs, hsame⟩
    obtain ⟨hmem, hlarger⟩ := List.mem_filter.1 (List.mem_mergeSort.1 hs)
    simp only [Snapshot.isSameAs, Bool.and_eq_true, decide_eq_true_eq] at hsame
    obtain ⟨⟨⟨-, hsameKey⟩, -⟩, hsameJob⟩ := hsame
    have hisOf : s.isOf job = true := by simp [Snapshot.isOf, ← hsameJob, hjobKey]
    obtain ⟨y, hy, rfl⟩ := (mem_snapshots_iff hrows hdepth hentries hisOf).1 hmem
    obtain ⟨-, -, hkey'⟩ := carries_of_mem hwell habsent hentries hread hy
    refine ⟨y, hy, ?_, ?_⟩
    · rw [hkey, hkey', Option.some.injEq] at hsameKey
      exact (Json.Relaxed.Part.codesOf_injective hsameKey).symm
    · have hlt : x.1.2.index < y.1.2.index := by simpa using hlarger
      rw [index_of_mem hentries hx, index_of_mem hentries hy] at hlt
      exact UInt64.lt_iff_toNat_lt.2 (by omega)
  · rintro ⟨y, hy, hid, hlt⟩
    obtain ⟨-, -, hjob'⟩ := mem_snapshotsOf_of_mem hentries hy
    obtain ⟨-, -, hkey'⟩ := carries_of_mem hwell habsent hentries hread hy
    have hjobKey' := jobKey?_of_mem hentries hy
    refine ⟨y.1.2, List.mem_mergeSort.2 (List.mem_filter.2 ⟨?_, ?_⟩), ?_⟩
    · exact (mem_snapshots_iff hrows hdepth hentries hjob').2 ⟨y, hy, rfl⟩
    · have hlt' := UInt64.lt_iff_toNat_lt.1 hlt
      rw [index_of_mem hentries hx, index_of_mem hentries hy]
      simpa using hlt'
    · simp [Snapshot.isSameAs, hkey, hkey', hid, hjobKey, hjobKey']

include hrows hdepth hwell habsent hentries hread in
private theorem filter_replaced_eq :
    (entries.filter fun x => !(t.later x.1.2).any x.1.2.isSameAs).map Prod.snd =
      ((entries.map fun x => (x.1.1, x.2)).filter
        (isLargestIn (entries.map fun x => (x.1.1, x.2)))).map Prod.snd := by
  rw [List.filter_map, List.map_map]
  congr 1
  apply List.filter_congr
  intro x hx
  rw [Bool.eq_iff_iff, Bool.not_eq_true', ← Bool.not_eq_true,
    isReplaced_iff hrows hdepth hwell habsent hentries hread hx, Function.comp_apply,
    isLargestIn_iff]
  constructor
  · intro hnone y hy hid
    obtain ⟨z, hz, rfl⟩ := List.mem_map.1 hy
    exact UInt64.not_lt.1 fun hlt => hnone ⟨z, hz, hid, hlt⟩
  · rintro hall ⟨z, hz, hid, hlt⟩
    exact UInt64.not_lt.2 (hall _ (List.mem_map_of_mem hz) hid) hlt

include hrows hdepth in
theorem present_eq : (t.snapshots.filter (·.isOf job)).filterM (fun s =>
      (s.isReplacedBy (t.later s)).map fun replaced => !replaced) =
    .ok ((t.snapshots.filter (·.isOf job)).filter fun s => !(t.later s).any s.isSameAs) := by
  have husable : ∀ s ∈ t.snapshots, s.canUse "ID" = true := by
    intro s hs
    rw [snapshots_eq hrows hdepth] at hs
    obtain ⟨x, hx, rfl⟩ := List.mem_map.1 hs
    exact Snapshot.canUse_ofEvent? (mem_snapshotsOf.1 hx).2 "ID"
  apply filterM_eq
  intro s hs
  have hlater : ∀ s' ∈ t.later s, s'.canUse "ID" = true := fun s' hs' =>
    husable s' (List.mem_filter.1 (List.mem_mergeSort.1 hs')).1
  rw [Snapshot.isReplacedBy_eq (husable s (List.mem_filter.1 hs).1) hlater]
  rfl

include hrows hdepth hentries hread in
/-- The latest state is what is left of the history when the replaced entries are left out. -/
private theorem latestAllocations_eq : t.latestAllocations job = .ok
    ((entries.filter fun x => !(t.later x.1.2).any x.1.2.isSameAs).map Prod.snd) := by
  have hsorted : (sortedSnapshots stored job).filter
      (fun x => !(t.later x.2).any x.2.isSameAs) =
        (entries.filter fun x => !(t.later x.1.2).any x.1.2.isSameAs).map Prod.fst := by
    rw [← hentries, List.filter_map]
    rfl
  have hpresent := @present_eq t stored job hrows hdepth
  have hreadAll := readAll_filter stored job fun s => !(t.later s).any s.isSameAs
  rw [← snapshots_eq hrows hdepth, hsorted] at hreadAll
  rw [latestAllocations, hpresent]
  refine Eq.trans hreadAll (mapM_fst fun x hx => hread x (List.mem_filter.1 hx).1)

end

private theorem exists_isLargestIn {entries : List (Event × Allocation)} {x : Event × Allocation}
    (hx : x ∈ entries) : ∃ y ∈ entries, y.2.id = x.2.id ∧ isLargestIn entries y = true := by
  have hmem : x ∈ entries.filter (·.2.id = x.2.id) := by simpa using hx
  obtain ⟨y, hy⟩ : ∃ y, y ∈ (entries.filter (·.2.id = x.2.id)).argmax (·.1.index.toNat) := by
    refine Option.ne_none_iff_exists'.1 fun hnone => ?_
    rw [List.argmax_eq_none.1 hnone] at hmem
    cases hmem
  obtain ⟨hyentries, hid⟩ := List.mem_filter.1 (List.argmax_mem hy)
  have hid' : y.2.id = x.2.id := by simpa using hid
  refine ⟨y, hyentries, hid', isLargestIn_iff.2 fun z hz hzid => ?_⟩
  have hzmem : z ∈ entries.filter (·.2.id = x.2.id) := by
    simpa using ⟨hz, hzid.trans hid'⟩
  have hle : z.1.index.toNat ≤ y.1.index.toNat :=
    @List.le_of_mem_argmax _ _ _ (fun x : Event × Allocation => x.1.index.toNat) _ _ _ hzmem hy
  exact UInt64.le_iff_toNat_le.2 hle

private theorem nodup_ids_of_distinct {entries : List (Event × Allocation)}
    (h : entries.Pairwise fun x y => ¬ (x.2.id = y.2.id ∧ x.1.index = y.1.index)) :
    (((entries.filter (isLargestIn entries)).map Prod.snd).map (·.id)).Nodup := by
  rw [List.map_map, List.nodup_iff_pairwise_ne, List.pairwise_map]
  refine (h.filter (isLargestIn entries)).imp_of_mem ?_
  intro x y hx hy hdistinct hid
  obtain ⟨hxentries, hxlargest⟩ := List.mem_filter.1 hx
  obtain ⟨hyentries, hylargest⟩ := List.mem_filter.1 hy
  have hle := isLargestIn_iff.1 hylargest x hxentries hid
  have hge := isLargestIn_iff.1 hxlargest y hyentries hid.symm
  exact hdistinct ⟨hid, UInt64.le_antisymm hle hge⟩

/-- In every store that saving events leads to, when the history of a job can be read, it holds what
the stored events that tell of the job carry, each once; its latest state can be read as well, and
shows, in the same order, the entries of the history with the largest index of their allocation. No
allocation of the history is missing there, and none is repeated unless two entries share allocation
and index. Where a payload has no allocation, none may be found in its text. -/
theorem latest_agrees_with_history (saves : List Event) (job : Uuid) (history : List Allocation)
    (hwell : ∀ e ∈ saves, e.payload.WellFormed)
    (habsent : ∀ e ∈ saves, e.member? = none →
      (Json.Relaxed.parse? e.payload.print).bind (·.field? "Allocation") = none)
    (hhistory : (empty.afterSaves saves).allocations job = .ok history) :
    ∃ (stored : List Event) (entries : List (Event × Allocation)) (latest : List Allocation),
      stored.Sublist saves ∧
      stored.map EventRow.ofEvent = (empty.afterSaves saves).events.map .ok ∧
      (entries.map Prod.fst).Perm (stored.filter (·.tellsOf job)) ∧
      (∀ x ∈ entries, x.1.Carries x.2) ∧
      history = entries.map Prod.snd ∧
      (empty.afterSaves saves).latestAllocations job = .ok latest ∧
      latest = (entries.filter (isLargestIn entries)).map Prod.snd ∧
      (∀ a ∈ history, ∃ b ∈ latest, b.id = a.id) ∧
      (entries.Pairwise (fun x y => ¬ (x.2.id = y.2.id ∧ x.1.index = y.1.index)) →
        (latest.map (·.id)).Nodup) := by
  obtain ⟨stored, hsub, hrows, hdepth⟩ := exists_stored saves empty [] rfl (by simp)
  rw [List.nil_append] at hrows hdepth
  generalize empty.afterSaves saves = t at hrows hhistory ⊢
  have hwell' : ∀ e ∈ stored, e.payload.WellFormed := fun e he => hwell e (hsub.subset he)
  have habsent' : ∀ e ∈ stored, e.member? = none →
      (Json.Relaxed.ofValue e.payload).field? "Allocation" = none := by
    intro e he hnone
    have hroom : e.payload.depth ≤ Json.Relaxed.nestingLimit := by
      have hlimits : Json.nestingLimit ≤ Json.Relaxed.nestingLimit := by decide
      have := hdepth e he
      omega
    have hextracted := habsent e (hsub.subset he) hnone
    rwa [Json.Relaxed.parse?_print hroom] at hextracted
  -- The history is read snapshot by snapshot.
  have hmapM : (sortedSnapshots stored job).mapM (fun x => x.2.read job) = .ok history := by
    have hreadAll := readAll_filter stored job fun _ => true
    simp only [List.filter_true] at hreadAll
    rw [← hreadAll, ← snapshots_eq hrows hdepth]
    exact hhistory
  obtain ⟨pairs, hpairs, rfl, hread⟩ := exists_pairs_of_mapM hmapM
  have hlatest := filter_replaced_eq hrows hdepth hwell' habsent' hpairs hread
  refine ⟨stored, pairs.map fun x => (x.1.1, x.2), _, hsub, hrows, ?_, ?_, ?_,
    latestAllocations_eq hrows hdepth hpairs hread, hlatest, ?_, ?_⟩
  · rw [List.map_map]
    exact perm_tellsOf hwell' habsent' hpairs hread
  · intro x hx
    obtain ⟨y, hy, rfl⟩ := List.mem_map.1 hx
    exact (carries_of_mem hwell' habsent' hpairs hread hy).2.1
  · rw [List.map_map]
    rfl
  · intro a ha
    obtain ⟨x, hx, rfl⟩ := List.mem_map.1 ha
    obtain ⟨y, hy, hid, hlargest⟩ := exists_isLargestIn
      (List.mem_map_of_mem (f := fun x : (Event × Snapshot) × Allocation => (x.1.1, x.2)) hx)
    rw [hlatest]
    exact ⟨y.2, List.mem_map_of_mem (List.mem_filter.2 ⟨hy, hlargest⟩), hid⟩
  · intro hdistinct
    rw [hlatest]
    exact nodup_ids_of_distinct hdistinct

private theorem exists_allocations {t : Tables} {job : Uuid}
    (h : (t.snapshots.filter (·.isOf job)).all (fun s =>
      s.canUse "CreateTime" && (s.read job).toOption.isSome) = true) :
    ∃ history, t.allocations job = .ok history := by
  rw [List.all_eq_true] at h
  have husable : (t.snapshots.filter (·.isOf job)).all (·.canUse "CreateTime") = true := by
    rw [List.all_eq_true]
    exact fun s hs => (Bool.and_eq_true_iff.1 (h s hs)).1
  rw [allocations, Snapshot.readAll, if_pos husable]
  apply exists_mapM_eq_ok
  intro s hs
  have hread := (Bool.and_eq_true_iff.1 (h s (List.mem_mergeSort.1 hs))).2
  cases hs' : s.read job with
  | error fault =>
    rw [hs'] at hread
    cases hread
  | ok a => exact ⟨a, rfl⟩

def sampleEvent (n : UInt8) (index : UInt64) : Event where
  uid := ⟨⟨List.replicate 32 n, rfl⟩⟩
  topic := Event.allocationTopic
  kind := Event.allocationUpdated
  key := "a"
  filterKeys := []
  index
  payload := .record [("Allocation", .record [("ID", .text "a"),
    ("JobID", .text "11111111-1111-1111-1111-111111111111")])]
  handled := false

theorem latest_of_two_snapshots :
    let job : Uuid := ⟨⟨List.replicate 16 0x11, rfl⟩⟩
    let t := empty.afterSaves [sampleEvent 1 7, sampleEvent 2 3]
    ∃ history latest, t.allocations job = .ok history ∧ t.latestAllocations job = .ok latest ∧
      ∀ a ∈ history, ∃ b ∈ latest, b.id = a.id := by
  intro job t
  have hwell : ∀ e ∈ [sampleEvent 1 7, sampleEvent 2 3], e.payload.WellFormed := by
    have hsample : ∀ n index, (sampleEvent n index).payload.WellFormed := by
      intro n index
      have hsorted : ("ID" : String) < "JobID" := by decide
      refine ⟨List.pairwise_singleton _ _, ⟨List.pairwise_cons.2 ⟨?_, List.pairwise_singleton _ _⟩,
        trivial, trivial, trivial⟩, trivial⟩
      intro f hf
      rw [List.mem_singleton.1 hf]
      exact hsorted
    simp [hsample]
  have habsent : ∀ e ∈ [sampleEvent 1 7, sampleEvent 2 3], e.member? = none →
      (Json.Relaxed.parse? e.payload.print).bind (·.field? "Allocation") = none := by
    simp [sampleEvent, Event.member?, Json.Value.field?]
  obtain ⟨history, hhistory⟩ := @exists_allocations t job (by decide +kernel)
  obtain ⟨stored, entries, latest, -, -, -, -, -, hlatest, -, hids, -⟩ :=
    latest_agrees_with_history [sampleEvent 1 7, sampleEvent 2 3] job history hwell habsent hhistory
  exact ⟨history, latest, hhistory, hlatest, hids⟩

end Tables

end RunLedger.Store
