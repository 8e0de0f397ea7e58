import Mathlib.Data.List.Nodup
import RunLedger.Proofs.Store.RunStatements

/-!
Rows of runs and the runs that are read from them. Outside leap seconds a run comes back with its
times in whole milliseconds, and a write over a row is a write over the run that is read from it,
which keeps the time of its creation.
-/

set_option autoImplicit false

namespace RunLedger

namespace Time.Instant

variable {t u : Instant} {ms : Int}

theorem toMillis_of_ofMillis? (h : ofMillis? ms = some u) : u.toMillis = ms ∧ u.nanos < second := by
  unfold ofMillis? ofSeconds? at h
  split at h
  · obtain rfl := Option.some.inj h
    simp only [toMillis, second]
    omega
  · cases h

private theorem toMillis_floorMillis (h : t.nanos < second) : t.floorMillis.toMillis = t.toMillis :=
  (toMillis_of_ofMillis? (ofMillis?_toMillis h)).1

theorem floorMillis_nanos (h : t.nanos < second) : t.floorMillis.nanos < second :=
  (toMillis_of_ofMillis? (ofMillis?_toMillis h)).2

private theorem floorMillis_floorMillis (h : t.nanos < second) :
    t.floorMillis.floorMillis = t.floorMillis := by
  have hsame : ofMillis? t.floorMillis.toMillis = some t.floorMillis := by
    rw [toMillis_floorMillis h, ofMillis?_toMillis h]
  exact Option.some.inj ((ofMillis?_toMillis (floorMillis_nanos h)).symm.trans hsame)

end Time.Instant

namespace Run

/-- No time of the run lies in a leap second. -/
def IsOrdinary (run : Run) : Prop :=
  run.createdAt.nanos < Time.second ∧ ∀ t ∈ run.finishedAt, t.nanos < Time.second

/-- The run with its times rounded down to milliseconds. -/
def inMillis (run : Run) : Run :=
  { run with
    createdAt := run.createdAt.floorMillis
    finishedAt := run.finishedAt.map Time.Instant.floorMillis }

/-- A run that rounding leaves alone. -/
def IsWhole (run : Run) : Prop := run.IsOrdinary ∧ run.inMillis = run

/-- A stored run once another was written over it; the time of creation stays. -/
def overwritten (old new : Run) : Run := { new.inMillis with createdAt := old.createdAt }

variable {run old : Run}

theorem IsOrdinary.inMillis_isWhole (h : run.IsOrdinary) : run.inMillis.IsWhole := by
  obtain ⟨hcreated, hfinished⟩ := h
  refine ⟨⟨Time.Instant.floorMillis_nanos hcreated, ?_⟩, ?_⟩
  · intro t ht
    obtain ⟨u, hu, rfl⟩ := Option.map_eq_some_iff.1 ht
    exact Time.Instant.floorMillis_nanos (hfinished u hu)
  · have hround : run.finishedAt.map (Time.Instant.floorMillis ∘ Time.Instant.floorMillis) =
        run.finishedAt.map Time.Instant.floorMillis :=
      Option.map_congr fun t ht => Time.Instant.floorMillis_floorMillis (hfinished t ht)
    simp [inMillis, Time.Instant.floorMillis_floorMillis hcreated, hround]

theorem IsOrdinary.overwritten_isWhole (h : run.IsOrdinary) (hold : old.IsWhole) :
    (old.overwritten run).IsWhole := by
  obtain ⟨⟨hcreated, -⟩, hround⟩ := hold
  obtain ⟨⟨-, hfinished⟩, hround'⟩ := h.inMillis_isWhole
  have hcreatedAt : old.createdAt.floorMillis = old.createdAt := congrArg Run.createdAt hround
  have hfinishedAt : run.inMillis.finishedAt.map Time.Instant.floorMillis =
      run.inMillis.finishedAt := congrArg Run.finishedAt hround'
  refine ⟨⟨hcreated, hfinished⟩, ?_⟩
  rw [inMillis, overwritten, hcreatedAt, hfinishedAt]

end Run

namespace Store.RunRow

variable {run old : Run}

private theorem ofInstant_floorMillis {t : Time.Instant} (h : t.nanos < Time.second) :
    Stamp.ofInstant t.floorMillis = Stamp.ofInstant t := by
  rw [Stamp.ofInstant, Time.Instant.toMillis_floorMillis h, Stamp.ofInstant]

theorem ofRun_inMillis (h : run.IsOrdinary) : ofRun run.inMillis = ofRun run := by
  obtain ⟨hcreated, hfinished⟩ := h
  have hround : run.finishedAt.map (Stamp.ofInstant ∘ Time.Instant.floorMillis) =
      run.finishedAt.map Stamp.ofInstant :=
    Option.map_congr fun t ht => ofInstant_floorMillis (hfinished t ht)
  simp [ofRun, Run.inMillis, ofInstant_floorMillis hcreated, hround]

theorem overwritten_ofRun (h : run.IsOrdinary) (hjob : old.jobId = run.jobId) :
    (ofRun old).overwritten (ofRun run) = ofRun (old.overwritten run) := by
  rw [← ofRun_inMillis h]
  simp [overwritten, ofRun, Run.overwritten, Run.inMillis, hjob]

private theorem isFetchable_ofRun (run : Run) : (ofRun run).isFetchable = true := by
  cases hfinished : run.finishedAt <;> simp [isFetchable, ofRun, Stamp.ofInstant, Stamp.isNumber,
    hfinished]

private theorem toInstant_ofInstant {t : Time.Instant} (h : t.nanos < Time.second) :
    (Stamp.ofInstant t).toInstant = .ok t.floorMillis := by
  rw [Stamp.ofInstant, Stamp.toInstant, Time.Instant.ofMillis?_toMillis h]
  rfl

theorem toRun_ofRun (h : run.IsOrdinary) : (ofRun run).toRun = .ok run.inMillis := by
  obtain ⟨hcreated, hfinished⟩ := h
  have hread : (run.finishedAt.map Stamp.ofInstant).mapM Stamp.toInstant =
      .ok (run.finishedAt.map Time.Instant.floorMillis) := by
    cases hend : run.finishedAt with
    | none => rfl
    | some t =>
      simp only [Option.map_some, Option.mapM_some, toInstant_ofInstant (hfinished t hend)]
      rfl
  simp only [toRun, ofRun, readId, Uuid.parse?_toString, Run.Status.parse,
    Run.Status.parse?_toString, orError, toInstant_ofInstant hcreated, hread]
  rfl

theorem toRun_overwritten {row : RunRow} (h : row.toRun = .ok old) (hrun : run.IsOrdinary)
    (hjob : old.jobId = run.jobId) :
    (row.overwritten (ofRun run)).toRun = .ok (old.overwritten run) := by
  obtain ⟨hid, -, -, hcreated, -⟩ := toRun_eq_ok.1 h
  obtain ⟨-, haction, hstatus, -, hfinished⟩ := toRun_eq_ok.1 (toRun_ofRun hrun)
  exact toRun_eq_ok.2 ⟨hjob ▸ hid, haction, hstatus, hcreated, hfinished⟩

theorem toRuns_map_ofRun {runs : List Run} (h : ∀ run ∈ runs, run.IsWhole) :
    toRuns (runs.map ofRun) = .ok runs := by
  have hfetch : (runs.map ofRun).all isFetchable = true := by
    simp [List.all_map, Function.comp_def, isFetchable_ofRun]
  have hread := @mapM_fst _ _ _ toRun (runs.map fun run => (ofRun run, run)) (by
    intro x hx
    obtain ⟨run, hrun, rfl⟩ := List.mem_map.1 hx
    obtain ⟨hordinary, hround⟩ := h run hrun
    exact (toRun_ofRun hordinary).trans (congrArg Except.ok hround))
  simp only [List.map_map, Function.comp_def, List.map_id'] at hread
  rw [toRuns, if_pos hfetch]
  exact hread

end Store.RunRow

/-! ### The order of rows -/

namespace Store.Tables

private theorem isLater_trans {a b c : Stamp} (hab : isLater a b = true)
    (hbc : isLater b c = true) :
    isLater a c = true := by
  cases a <;> cases b <;> cases c <;> simp_all [isLater]
  omega

private theorem isLater_total {a b : Stamp} (h : a ≠ b) : (isLater a b || isLater b a) = true := by
  cases a <;> cases b <;> simp_all [isLater]
  omega

private theorem not_isLater_self (a : Stamp) : isLater a a = false := by
  cases a <;> simp [isLater]

theorem comesFirst_total (a b : RunRow) : (comesFirst a b || comesFirst b a) = true := by
  unfold comesFirst
  by_cases h : a.createdAt = b.createdAt
  · simpa [h] using String.le_total a.jobId b.jobId
  · simpa [h, Ne.symm h] using isLater_total h

theorem comesFirst_trans (a b c : RunRow) (hab : comesFirst a b = true)
    (hbc : comesFirst b c = true) : comesFirst a c = true := by
  unfold comesFirst at *
  by_cases h : a.createdAt = b.createdAt
  · by_cases h' : b.createdAt = c.createdAt
    · simp only [h, h', if_true, decide_eq_true_eq] at hab hbc ⊢
      exact String.le_trans hab hbc
    · simpa [h, h'] using hbc
  · rw [if_neg h] at hab
    by_cases h' : b.createdAt = c.createdAt
    · rw [h'] at h hab
      simpa [h] using hab
    · rw [if_neg h'] at hbc
      have hac := isLater_trans hab hbc
      have hne : ¬ a.createdAt = c.createdAt := by
        intro hsame
        rw [hsame, not_isLater_self] at hac
        cases hac
      rw [if_neg hne]
      exact hac

private theorem toMillis_le_of_comesFirst {a b : Run}
    (h : comesFirst (.ofRun a) (.ofRun b) = true) :
    b.createdAt.toMillis ≤ a.createdAt.toMillis := by
  unfold comesFirst at h
  split at h
  · next hsame =>
    have hcreated : a.createdAt.toMillis = b.createdAt.toMillis := Stamp.millis.inj hsame
    omega
  · have hlater : b.createdAt.toMillis < a.createdAt.toMillis := of_decide_eq_true h
    omega

theorem toRuns_mergeSort {runs : List Run} (h : ∀ run ∈ runs, run.IsWhole) :
    ∃ sorted : List Run, RunRow.toRuns ((runs.map .ofRun).mergeSort comesFirst) = .ok sorted ∧
      sorted.Perm runs ∧
      sorted.Pairwise fun a b => b.createdAt.toMillis ≤ a.createdAt.toMillis := by
  let le (a b : Run) : Bool := comesFirst (.ofRun a) (.ofRun b)
  have hperm : (runs.mergeSort le).Perm runs := List.mergeSort_perm runs le
  have hsorted : (runs.mergeSort le).Pairwise fun a b => le a b = true :=
    List.pairwise_mergeSort (fun a b c => comesFirst_trans (.ofRun a) (.ofRun b) (.ofRun c))
      (fun a b => comesFirst_total (.ofRun a) (.ofRun b)) runs
  refine ⟨runs.mergeSort le, ?_, hperm, hsorted.imp toMillis_le_of_comesFirst⟩
  have hrows : (runs.mergeSort le).map RunRow.ofRun =
      (runs.map RunRow.ofRun).mergeSort comesFirst := List.map_mergeSort fun _ _ _ _ => rfl
  rw [← hrows]
  exact RunRow.toRuns_map_ofRun fun run hrun => h run (hperm.mem_iff.1 hrun)

end Store.Tables

end RunLedger
