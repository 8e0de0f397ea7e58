import RunLedger.Proofs.Store.RunStatements
import RunLedger.Service.Runs

/-!
Cancelling a run is all or nothing. Both statements come before the orchestrator is asked, and what
they wrote is kept only when it took the job off and the commit went through.
-/

set_option autoImplicit false

namespace RunLedger.Service

open RunLedger.Store (Stamp Tables)

variable {t t' written : Tables} {run : Run} {now : Time.Instant}

/-- Tables before and after a run was cancelled: its row and its output are all that differs. -/
structure IsCancelled (run : Run) (now : Time.Instant) (t t' : Tables) : Prop where
  row : ∃ before, t.findRun? run.jobId = some before ∧
    t'.findRun? run.jobId = some { before with
      actionId := run.actionId.toString
      status := "cancelled"
      finishedAt := some (.ofInstant now) }
  output : t'.findOutput? run.jobId = none
  otherRuns : ∀ key ≠ run.jobId.toString, t'.runRows key = t.runRows key
  otherOutputs : ∀ key ≠ run.jobId.toString, t'.outputRows key = t.outputRows key
  events : t'.events = t.events
  marks : t'.marks = t.marks

theorem IsCancelled.of_statements (hwrite : t.updateRun (run.cancel now) = .ok written) :
    IsCancelled run now t (written.dropOutput run.jobId) := by
  have hfound : (t.findRun? run.jobId).isSome = true :=
    (t.exists_updateRun_iff (run.cancel now)).1 ⟨written, hwrite⟩
  obtain ⟨before, hbefore⟩ := Option.isSome_iff_exists.1 hfound
  obtain ⟨hevents, hmarks, houtputs⟩ := Tables.updateRun_frame hwrite
  refine ⟨⟨before, hbefore, ?_⟩, ?_, ?_, ?_, hevents, hmarks⟩
  · have hrow := Tables.findRun?_updateRun hwrite run.jobId
    rw [hbefore, Run.cancel_jobId, if_pos rfl] at hrow
    exact hrow
  · rw [Tables.findOutput?_dropOutput, if_pos rfl]
  · intro key hkey
    have hrows := Tables.runRows_updateRun hwrite key
    rw [Run.cancel_jobId, if_neg hkey] at hrows
    exact hrows
  · intro key hkey
    rw [Tables.outputRows_dropOutput, if_neg hkey, Tables.outputRows, houtputs]
    rfl

theorem cancel_of_missing (hmissing : t.findRun? run.jobId = none) (now : Time.Instant)
    (remote : Deregistration) (commit : Option Store.Error) :
    ∃ e, cancel t run now remote commit = ⟨some (.error e), t, [], []⟩ := by
  have herror : t.updateRun (run.cancel now) = .error (.runNotFound run.jobId) :=
    Tables.updateRun_eq_error hmissing
  simp only [cancel, herror]
  exact ⟨_, rfl⟩

theorem cancel_of_unreadable (hwrite : t.updateRun (run.cancel now) = .ok written)
    (hreads : ¬ written.OutputReads run.jobId) (remote : Deregistration)
    (commit : Option Store.Error) :
    ∃ e, cancel t run now remote commit = ⟨some (.error e), t, [], []⟩ := by
  rw [← Tables.exists_removeOutput_iff] at hreads
  rcases hremove : written.removeOutput run.jobId with ⟨e | output, after⟩
  · simp only [cancel, hwrite, hremove]
    exact ⟨_, rfl⟩
  · exact absurd ⟨output, congrArg Prod.fst hremove⟩ hreads

theorem cancel_of_readable (hwrite : t.updateRun (run.cancel now) = .ok written)
    (hreads : written.OutputReads run.jobId) (remote : Deregistration)
    (commit : Option Store.Error) :
    (remote = .accepted ∧ commit = none ∧ cancel t run now remote commit =
        ⟨some (.ok (run.cancel now)), written.dropOutput run.jobId, [(run.jobId, false)],
          [.cancelled run.jobId]⟩) ∨
      (¬ (remote = .accepted ∧ commit = none) ∧ ∃ result, (∀ answer, result ≠ some (.ok answer)) ∧
        cancel t run now remote commit = ⟨result, t, [(run.jobId, false)], []⟩) := by
  obtain ⟨output, houtput⟩ := (Tables.exists_removeOutput_iff written run.jobId).2 hreads
  have hremove : written.removeOutput run.jobId = (.ok output, written.dropOutput run.jobId) :=
    Prod.ext houtput rfl
  simp only [cancel, hwrite, hremove]
  cases remote with
  | pending => exact .inr ⟨by simp, _, by simp, rfl⟩
  | refused e => exact .inr ⟨by simp, _, by simp, rfl⟩
  | accepted =>
    cases commit with
    | some e => exact .inr ⟨by simp, _, by simp, rfl⟩
    | none => exact .inl ⟨rfl, rfl, rfl⟩

theorem outputReads_of_updateRun (hwrite : t.updateRun run = .ok written) (id : Uuid) :
    written.OutputReads id ↔ t.OutputReads id := by
  unfold Tables.OutputReads
  rw [Tables.findOutput?_updateRun hwrite id]

/-- A cancellation succeeds exactly when the run is stored, its output reads, the orchestrator takes
the job off and the commit goes through. Then the run is cancelled and announced so once; otherwise
the tables are as before and nothing is announced. The orchestrator is asked exactly when the run is
stored and its output reads, once, and never to forget the job. -/
theorem cancel_all_or_nothing (t : Tables) (run : Run) (now : Time.Instant)
    (remote : Deregistration) (commit : Option Store.Error) :
    let c := cancel t run now remote commit
    let isDue := (t.findRun? run.jobId).isSome = true ∧ t.OutputReads run.jobId
    ((∃ answer, c.result = some (.ok answer)) ↔ isDue ∧ remote = .accepted ∧ commit = none) ∧
      (∀ answer, c.result = some (.ok answer) → answer = run.cancel now ∧
        IsCancelled run now t c.tables ∧ c.announced = [.cancelled run.jobId]) ∧
      ((∀ answer, c.result ≠ some (.ok answer)) → c.tables = t ∧ c.announced = []) ∧
      (isDue → c.deregistered = [(run.jobId, false)]) ∧
      (¬ isDue → c.deregistered = []) := by
  intro c isDue
  by_cases hfound : (t.findRun? run.jobId).isSome = true
  · obtain ⟨written, hwrite⟩ := (t.exists_updateRun_iff (run.cancel now)).2 hfound
    have hkeeps : written.OutputReads run.jobId ↔ t.OutputReads run.jobId :=
      outputReads_of_updateRun hwrite run.jobId
    by_cases hreads : t.OutputReads run.jobId
    · have hdue : isDue := ⟨hfound, hreads⟩
      rcases cancel_of_readable hwrite (hkeeps.2 hreads) remote commit with
        ⟨hremote, hcommit, hc⟩ | ⟨hfails, result, hresult, hc⟩
      · have hc : c = _ := hc
        rw [hc]
        refine ⟨⟨fun _ => ⟨hdue, hremote, hcommit⟩, fun _ => ⟨_, rfl⟩⟩, ?_, ?_, ?_, ?_⟩
        · intro answer hanswer
          cases hanswer
          exact ⟨rfl, .of_statements hwrite, rfl⟩
        · exact fun hnone => absurd rfl (hnone _)
        · exact fun _ => rfl
        · exact fun hnot => absurd hdue hnot
      · have hc : c = _ := hc
        rw [hc]
        refine ⟨⟨?_, fun h => absurd h.2 hfails⟩, ?_, fun _ => ⟨rfl, rfl⟩, fun _ => rfl, ?_⟩
        · rintro ⟨answer, hanswer⟩
          exact absurd hanswer (hresult answer)
        · exact fun answer hanswer => absurd hanswer (hresult answer)
        · exact fun hnot => absurd hdue hnot
    · have hnot : ¬ isDue := fun h => hreads h.2
      obtain ⟨e, hc⟩ := cancel_of_unreadable hwrite (mt hkeeps.1 hreads) remote commit
      have hc : c = _ := hc
      rw [hc]
      exact ⟨⟨by simp, fun h => absurd h.1 hnot⟩, by simp, fun _ => ⟨rfl, rfl⟩,
        fun h => absurd h hnot, fun _ => rfl⟩
  · have hnot : ¬ isDue := fun h => hfound h.1
    obtain ⟨e, hc⟩ := cancel_of_missing (Option.not_isSome_iff_eq_none.1 hfound) now remote commit
    have hc : c = _ := hc
    rw [hc]
    exact ⟨⟨by simp, fun h => absurd h.1 hnot⟩, by simp, fun _ => ⟨rfl, rfl⟩,
      fun h => absurd h hnot, fun _ => rfl⟩

end RunLedger.Service
