import Mathlib.Tactic.ByContra
import RunLedger.Proofs.Basic
import RunLedger.Store.Runs

/-!
What the statements on runs and outputs do to the tables, seen through the row of each run and of
each output. Every statement looks at one identifier and leaves the rows of all others alone.
-/

set_option autoImplicit false

namespace RunLedger.Store

/-- A row with action, status and end of another; the time of creation stays. -/
def RunRow.overwritten (row new : RunRow) : RunRow :=
  { row with actionId := new.actionId, status := new.status, finishedAt := new.finishedAt }

theorem RunRow.toRun_eq_ok {row : RunRow} {run : Run} :
    row.toRun = .ok run ↔ Uuid.parse? row.jobId = some run.jobId ∧
      Uuid.parse? row.actionId = some run.actionId ∧
      Run.Status.parse? row.status = some run.status ∧
      row.createdAt.toInstant = .ok run.createdAt ∧
      row.finishedAt.mapM Stamp.toInstant = .ok run.finishedAt := by
  unfold toRun readId Run.Status.parse
  cases Uuid.parse? row.jobId with
  | none => simp [orError, bind, Except.bind]
  | some jobId =>
    cases Uuid.parse? row.actionId with
    | none => simp [orError, bind, Except.bind]
    | some actionId =>
      cases Run.Status.parse? row.status with
      | none => simp [orError, bind, Except.bind]
      | some status =>
        cases row.createdAt.toInstant with
        | error e => simp [orError, bind, Except.bind]
        | ok createdAt =>
          cases row.finishedAt.mapM Stamp.toInstant with
          | error e => simp [orError, bind, Except.bind]
          | ok finishedAt =>
            cases run
            simp [orError, bind, Except.bind, pure, Except.pure]

namespace Tables

variable {t t' : Tables} {run : Run} {id : Uuid} {output : Run.Output}

/-- The rows of a run, by its identifier as it is stored. -/
def runRows (t : Tables) (key : String) : List RunRow := t.runs.filter (·.jobId = key)

/-- The rows of an output, by the identifier of its run as it is stored. -/
def outputRows (t : Tables) (key : String) : List (String × OutputRow) :=
  t.outputs.filter (·.1 = key)

theorem findRun?_eq_head? (t : Tables) (id : Uuid) : t.findRun? id =
    (t.runRows id.toString).head? := by
  rw [runRows, List.head?_filter]
  rfl

theorem findOutput?_eq_head? (t : Tables) (id : Uuid) :
    t.findOutput? id = (t.outputRows id.toString).head?.map Prod.snd := by
  unfold findOutput? outputRows
  induction t.outputs with
  | nil => rfl
  | cons o outputs ih =>
    obtain ⟨key, row⟩ := o
    by_cases hkey : key = id.toString
    · subst hkey
      simp
    · have : (id.toString == key) = false := by simpa using fun h => hkey h.symm
      simp only [List.lookup_cons, this, ih]
      simp [hkey]

theorem exists_updateRun_iff (t : Tables) (run : Run) :
    (∃ t', t.updateRun run = .ok t') ↔ (t.findRun? run.jobId).isSome = true := by
  unfold updateRun
  split <;> simp_all

theorem updateRun_eq_error (h : t.findRun? run.jobId = none) :
    t.updateRun run = .error (.runNotFound run.jobId) := by
  simp [updateRun, h]

theorem updateRun_frame (h : t.updateRun run = .ok t') :
    t'.events = t.events ∧ t'.marks = t.marks ∧ t'.outputs = t.outputs := by
  unfold updateRun at h
  split at h
  · cases h
    exact ⟨rfl, rfl, rfl⟩
  · cases h

theorem runs_updateRun (h : t.updateRun run = .ok t') :
    t'.runs = t.runs.map fun row =>
      if row.jobId = run.jobId.toString then row.overwritten (.ofRun run) else row := by
  unfold updateRun at h
  split at h
  · cases h
    rfl
  · cases h

theorem runRows_updateRun (h : t.updateRun run = .ok t') (key : String) :
    t'.runRows key =
      if key = run.jobId.toString then (t.runRows key).map (·.overwritten (.ofRun run))
      else t.runRows key := by
  unfold updateRun at h
  split at h
  · cases h
    simp only [runRows]
    induction t.runs with
    | nil => simp
    | cons row rows ih =>
      have hid : (RunRow.ofRun run).jobId = run.jobId.toString := rfl
      by_cases hrow : row.jobId = run.jobId.toString
      · by_cases hkey : key = run.jobId.toString
        · simp_all [RunRow.overwritten]
        · have : ¬ run.jobId.toString = key := fun h => hkey h.symm
          simp_all
      · by_cases hkey : key = run.jobId.toString
        · simp_all
        · by_cases hrowKey : row.jobId = key <;> simp_all
  · cases h

theorem findRun?_updateRun (h : t.updateRun run = .ok t') (id : Uuid) :
    t'.findRun? id =
      if id = run.jobId then (t.findRun? id).map (·.overwritten (.ofRun run))
      else t.findRun? id := by
  rw [findRun?_eq_head?, findRun?_eq_head?, runRows_updateRun h]
  by_cases hid : id = run.jobId
  · rw [if_pos hid, if_pos (congrArg Uuid.toString hid), List.head?_map]
  · rw [if_neg hid, if_neg fun hkey => hid (Uuid.toString_injective hkey)]

theorem findOutput?_updateRun (h : t.updateRun run = .ok t') (id : Uuid) :
    t'.findOutput? id = t.findOutput? id := by
  rw [findOutput?, (updateRun_frame h).2.2, findOutput?]

theorem run?_eq_some_iff :
    t.run? id = .ok (some run) ↔
      ∃ row, t.findRun? id = some row ∧ row.isFetchable = true ∧ row.toRun = .ok run := by
  unfold run?
  cases hrow : t.findRun? id with
  | none => simp
  | some row =>
    simp only [RunRow.toRuns, List.all_cons, List.all_nil, Bool.and_true, List.mapM_cons,
      List.mapM_nil, Option.some.injEq, exists_eq_left']
    by_cases hfetch : row.isFetchable = true
    · cases hread : row.toRun with
      | error e => simp [hfetch, bind, Except.bind, Except.map]
      | ok read => simp [hfetch, bind, Except.bind, pure, Except.pure, Except.map]
    · simp [hfetch, Except.map]

theorem exists_row_of_run? (h : t.run? id = .ok (some run)) :
    run.jobId = id ∧ ∃ row, t.findRun? id = some row ∧
      Run.Status.parse? row.status = some run.status := by
  obtain ⟨row, hrow, -, hread⟩ := run?_eq_some_iff.1 h
  obtain ⟨hjob, -, hstatus, -⟩ := RunRow.toRun_eq_ok.1 hread
  have hfound := List.find?_some hrow
  have hkey : row.jobId = id.toString := of_decide_eq_true hfound
  rw [hkey, Uuid.parse?_toString] at hjob
  exact ⟨(Option.some.inj hjob).symm, row, hrow, hstatus⟩

theorem insertRun_eq_ok_iff :
    t.insertRun run = .ok t' ↔
      t.findRun? run.jobId = none ∧ { t with runs := t.runs ++ [.ofRun run] } = t' := by
  unfold insertRun
  cases hrow : t.findRun? run.jobId <;> simp

theorem findRun?_insertRun (h : t.insertRun run = .ok t') (id : Uuid) :
    t'.findRun? id = if id = run.jobId then some (.ofRun run) else t.findRun? id := by
  obtain ⟨hnew, rfl⟩ := insertRun_eq_ok_iff.1 h
  simp only [findRun?, List.find?_append]
  by_cases hid : id = run.jobId
  · subst hid
    rw [findRun?] at hnew
    rw [hnew, if_pos rfl]
    simp [RunRow.ofRun]
  · have hkey : ¬ run.jobId.toString = id.toString := fun h => hid (Uuid.toString_injective h.symm)
    rw [if_neg hid]
    simp [RunRow.ofRun, hkey]

theorem findOutput?_insertRun (h : t.insertRun run = .ok t') (id : Uuid) :
    t'.findOutput? id = t.findOutput? id := by
  obtain ⟨_, rfl⟩ := insertRun_eq_ok_iff.1 h
  rfl

theorem insertOutput_eq_ok_iff :
    t.insertOutput id output = .ok t' ↔
      t.findOutput? id = none ∧ (t.findRun? id).isSome = true ∧
        { t with outputs := t.outputs ++ [(id.toString, .ofOutput output)] } = t' := by
  unfold insertOutput
  cases houtput : t.findOutput? id with
  | some row => simp
  | none => cases hrun : t.findRun? id <;> simp

theorem findOutput?_insertOutput (h : t.insertOutput id output = .ok t') (other : Uuid) :
    t'.findOutput? other =
      if other = id then some (.ofOutput output) else t.findOutput? other := by
  obtain ⟨hnew, _, rfl⟩ := insertOutput_eq_ok_iff.1 h
  simp only [findOutput?, List.lookup_append]
  by_cases hid : other = id
  · subst hid
    rw [findOutput?] at hnew
    rw [hnew, if_pos rfl]
    simp
  · have hkey : ¬ other.toString = id.toString := fun h => hid (Uuid.toString_injective h)
    have : (other.toString == id.toString) = false := by simpa using hkey
    rw [if_neg hid]
    simp [List.lookup_cons, this]

theorem findRun?_insertOutput (h : t.insertOutput id output = .ok t') (other : Uuid) :
    t'.findRun? other = t.findRun? other := by
  obtain ⟨_, _, rfl⟩ := insertOutput_eq_ok_iff.1 h
  rfl

theorem outputRows_dropOutput (t : Tables) (id : Uuid) (key : String) :
    (t.dropOutput id).outputRows key = if key = id.toString then [] else t.outputRows key := by
  simp only [outputRows, dropOutput, List.filter_filter]
  split
  · next hkey =>
    subst hkey
    simp
  · next hkey =>
    apply List.filter_congr
    intro o _
    by_cases ho : o.1 = key
    · subst ho
      simp [hkey]
    · simp [ho]

theorem findOutput?_dropOutput (t : Tables) (id other : Uuid) :
    (t.dropOutput id).findOutput? other = if other = id then none else t.findOutput? other := by
  rw [findOutput?_eq_head?, findOutput?_eq_head?, outputRows_dropOutput]
  by_cases hid : other = id
  · rw [if_pos hid, if_pos (congrArg Uuid.toString hid)]
    rfl
  · rw [if_neg hid, if_neg fun hkey => hid (Uuid.toString_injective hkey)]

/-- Whether the stored output of a run, if there is one, can be read. -/
def OutputReads (t : Tables) (id : Uuid) : Prop :=
  ∀ row, t.findOutput? id = some row → ∃ output, row.toOutput id = .ok output

theorem outputReads_of_none {t : Tables} {id : Uuid} (h : t.findOutput? id = none) :
    t.OutputReads id := by
  intro row hrow
  rw [h] at hrow
  cases hrow

theorem exists_removeOutput_iff (t : Tables) (id : Uuid) :
    (∃ output, (t.removeOutput id).1 = .ok output) ↔ t.OutputReads id := by
  unfold removeOutput OutputReads
  cases hrow : t.findOutput? id with
  | none => simp [pure, Except.pure]
  | some row => cases hread : row.toOutput id <;> simp [hread, Functor.map, Except.map]

end Tables

end RunLedger.Store
