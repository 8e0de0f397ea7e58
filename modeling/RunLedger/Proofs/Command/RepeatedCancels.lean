import RunLedger.Command.Execution
import RunLedger.Proofs.Service.Operations
import RunLedger.Proofs.Store.RunRows

/-!
Commands that cancel runs, one after another, each on the database that the one before it left. A
running run stays as it is until the orchestrator takes its job off for the first time. From then on
it is cancelled, and no further command for it asks or changes anything. A run that had come to its
end before, and a run that no command names, stay as they are throughout.
-/

set_option autoImplicit false

namespace RunLedger.Command

open RunLedger.Service (Cancellation Deregistration IsCancelled)
open RunLedger.Store (Database OutputRow RunRow Stamp Tables)

/-- A command that cancels the run of a job, once its settings are read and its database is open. -/
structure CancelCommand where
  job : Uuid
  surroundings : Surroundings
  timeoutSecs : Option Nat
  config : Config
  limits : Logs.Limits

namespace CancelCommand

/-- What the orchestrator makes of the job when it is asked to take it off. -/
def remote (c : CancelCommand) : Deregistration :=
  c.surroundings.deregister c.config.orchestrator c.job

/-- What the command prints, the database after it, and what it asked of the orchestrator. -/
def carryOut (c : CancelCommand) (db : Database) :
    Except Failure Printed × Database × List (Uuid × Bool) :=
  executeOnRuns c.surroundings c.timeoutSecs c.config db c.limits (.cancel c.job)

end CancelCommand

/-- A command in a sequence, and the database that it finds. -/
structure Attempt where
  command : CancelCommand
  before : Database

/-- What a database holds of a run: its rows, and those of its output. -/
def recordOf (db : Database) (job : Uuid) : Option (List RunRow × List (String × OutputRow)) :=
  db.committed.map fun t => (t.runRows job.toString, t.outputRows job.toString)

namespace Attempt

def printed (a : Attempt) : Except Failure Printed := (a.command.carryOut a.before).1

def after (a : Attempt) : Database := (a.command.carryOut a.before).2.1

/-- The jobs that the orchestrator was asked to take off, and whether to forget them. -/
def asked (a : Attempt) : List (Uuid × Bool) := (a.command.carryOut a.before).2.2

/-- The orchestrator took the job off; the run is cancelled now, and its output is gone. -/
structure Cancels (a : Attempt) (run : Run) : Prop where
  asked : a.asked = [(run.jobId, false)]
  printed : a.printed = .ok (.line s!"Run {run.jobId} cancelled")
  stored : Service.getRun a.after run.jobId = .ok { run with
    status := .cancelled
    finishedAt := some a.command.surroundings.now.floorMillis }
  gone : Service.getOutput a.after run.jobId = .error (.outputNotFound run.jobId)

/-- The orchestrator was asked and did not take the job off. -/
structure Fails (a : Attempt) (job : Uuid) : Prop where
  asked : a.asked = [(job, false)]
  printed : ∃ message, a.printed = .error (.because message)
  after : a.after = a.before

/-- The run had come to its end before, which is no failure. -/
structure ComesLate (a : Attempt) (job : Uuid) (status : Run.Status) : Prop where
  asked : a.asked = []
  printed : a.printed = .ok (.line s!"Run {job} already {status.toString}")
  after : a.after = a.before

/-- Nothing is changed that is stored of a run, and the orchestrator is not asked about its job. -/
structure Spares (a : Attempt) (job : Uuid) : Prop where
  record : recordOf a.after job = recordOf a.before job
  asked : ∀ x ∈ a.asked, x.1 ≠ job

end Attempt

/-- Commands one after another, each on the database that the one before it left. -/
def attempts (db : Database) : List CancelCommand → List Attempt
  | [] => []
  | c :: cs => ⟨c, db⟩ :: attempts (Attempt.mk c db).after cs

/-- A database with these tables, in which nobody is writing. -/
def atRest (t : Tables) : Database := ⟨some t, none, true⟩

variable {c : CancelCommand} {t t' : Tables} {run : Run} {job : Uuid} {cs : List CancelCommand}

/-! ### What is stored of one run -/

private theorem run?_of_record (h : recordOf (atRest t') job = recordOf (atRest t) job) :
    t'.run? job = t.run? job := by
  have hrows : t'.runRows job.toString = t.runRows job.toString :=
    congrArg Prod.fst (Option.some.inj h)
  rw [Tables.run?, Tables.findRun?_eq_head?, hrows, ← Tables.findRun?_eq_head?, ← Tables.run?]

private theorem outputReads_of_record (h : recordOf (atRest t') job = recordOf (atRest t) job) :
    t'.OutputReads job ↔ t.OutputReads job := by
  have hrows : t'.outputRows job.toString = t.outputRows job.toString :=
    congrArg Prod.snd (Option.some.inj h)
  rw [Tables.OutputReads, Tables.findOutput?_eq_head?, hrows, ← Tables.findOutput?_eq_head?,
    ← Tables.OutputReads]

private theorem getRun_atRest (t : Tables) (job : Uuid) :
    Service.getRun (atRest t) job = match t.run? job with
      | .error e =>
        .error (.storage s!"Could not select existing Run by Nomad job ID {job}" e)
      | .ok none => .error (.runNotFound job)
      | .ok (some run) => .ok run := by
  have htables : (atRest t).tables = .ok t := rfl
  rw [Service.getRun, htables]
  rcases hrun : t.run? job with e | _ | run <;>
    simp [hrun, Service.whileStoring, bind, Except.bind, Except.mapError]

private theorem getOutput_of_gone (h : t.findOutput? job = none) :
    Service.getOutput (atRest t) job = .error (.outputNotFound job) := by
  have htables : (atRest t).tables = .ok t := rfl
  have hnone : t.output? job = .ok none := by
    rw [Tables.output?, h]
    rfl
  rw [Service.getOutput, htables, Except.bind, hnone]
  rfl

private theorem recordOf_of_isCancelled {now : Time.Instant} (h : IsCancelled run now t t')
    (hjob : job ≠ run.jobId) : recordOf (atRest t') job = recordOf (atRest t) job := by
  have hkey : job.toString ≠ run.jobId.toString := fun hsame => hjob (Uuid.toString_injective hsame)
  have hruns := h.otherRuns _ hkey
  have houtputs := h.otherOutputs _ hkey
  simp only [recordOf, atRest, Option.map_some, hruns, houtputs]

private theorem nanos_of_toInstant {stamp : Stamp} {u : Time.Instant}
    (h : stamp.toInstant = .ok u) :
    u.nanos < Time.second := by
  cases stamp with
  | stray => cases h
  | millis ms => exact (Time.Instant.toMillis_of_ofMillis? (Store.orError_eq_ok.1 h)).2

private theorem run?_of_isCancelled {now : Time.Instant} (h : IsCancelled run now t t')
    (hnow : now.nanos < Time.second) (hrun : t.run? run.jobId = .ok (some run)) :
    t'.run? run.jobId = .ok (some { run with
      status := .cancelled, finishedAt := some now.floorMillis }) := by
  obtain ⟨row, hrow, hfetch, hread⟩ := Tables.run?_eq_some_iff.1 hrun
  obtain ⟨before, hbefore, hafter⟩ := h.row
  obtain rfl : row = before := Option.some.inj (hrow.symm.trans hbefore)
  obtain ⟨-, -, -, hcreated, -⟩ := RunRow.toRun_eq_ok.1 hread
  have hcancel : (run.cancel now).IsOrdinary :=
    ⟨nanos_of_toInstant hcreated, fun u hu => Option.some.inj hu ▸ hnow⟩
  have hoverwritten := RunRow.toRun_overwritten hread hcancel rfl
  have hnumber : row.createdAt.isNumber = true := (Bool.and_eq_true_iff.1 hfetch).1
  refine Tables.run?_eq_some_iff.2 ⟨_, hafter, ?_, hoverwritten⟩
  rw [RunRow.isFetchable, hnumber]
  rfl

/-! ### One command -/

private theorem carryOut_of_finished (hrun : t.run? c.job = .ok (some run))
    (hfinished : run.status.isFinished = true) :
    c.carryOut (atRest t) =
      (.ok (.line s!"Run {c.job} already {run.status.toString}"), atRest t, []) := by
  have hread : Service.getRun (atRest t) c.job = .ok run := by rw [getRun_atRest, hrun]
  simp only [CancelCommand.carryOut, executeOnRuns, cancel, hread, hfinished, if_true]
  rfl

private theorem comesLate_of_finished (hrun : t.run? c.job = .ok (some run))
    (hfinished : run.status.isFinished = true) :
    (Attempt.mk c (atRest t)).ComesLate c.job run.status := by
  have hcommand := carryOut_of_finished hrun hfinished
  refine ⟨?_, ?_, ?_⟩
  · rw [Attempt.asked, hcommand]
  · rw [Attempt.printed, hcommand]
  · rw [Attempt.after, hcommand]

private theorem carryOut_of_unread (hrun : ∀ run, t.run? c.job ≠ .ok (some run)) :
    (c.carryOut (atRest t)).2 = (atRest t, []) := by
  obtain ⟨e, herror⟩ : ∃ e, Service.getRun (atRest t) c.job = .error e := by
    rw [getRun_atRest]
    rcases hread : t.run? c.job with e | _ | run
    · exact ⟨_, rfl⟩
    · exact ⟨_, rfl⟩
    · exact absurd hread (hrun run)
  simp only [CancelCommand.carryOut, executeOnRuns, cancel, herror]
  rfl

/-- What a command prints that tried to cancel a run. -/
def printedFor (job : Uuid) : Option (Except Service.Error Run) → Except Failure Printed
  | some (.ok run) => .ok (.line s!"Run {job} {run.status.toString}")
  | some (.error e) => .error (.because e.message)
  | none => .error (.because
      (Service.Error.orchestrator s!"Failed to deregister job {job}" .request).message)

private theorem carryOut_of_unfinished (hrun : t.run? c.job = .ok (some run))
    (hunfinished : run.status.isFinished = false) :
    let k := Service.cancel t run c.surroundings.now c.remote none
    c.carryOut (atRest t) = (printedFor c.job k.result, atRest k.tables, k.deregistered) := by
  intro k
  have hread : Service.getRun (atRest t) c.job = .ok run := by rw [getRun_atRest, hrun]
  obtain ⟨hdb, hasked, -⟩ := Service.Ledger.foldl_announce k.announced
    { Service.Ledger.ofDatabase (atRest t) with
      database := atRest k.tables
      deregistered := k.deregistered }
  have hledger : (Service.Ledger.ofDatabase (atRest t)).cancel run c.surroundings.now c.remote =
      (k.result, k.announced.foldl Service.Ledger.announce
        { Service.Ledger.ofDatabase (atRest t) with
          database := atRest k.tables
          deregistered := k.deregistered }) := rfl
  simp only [CancelCommand.carryOut, executeOnRuns, cancel, hread, hunfinished, Bool.false_eq_true,
    if_false]
  rw [CancelCommand.remote] at hledger
  rw [hledger]
  rcases k.result with _ | _ | answer <;> simp only [hdb, hasked] <;> rfl

private theorem exists_message {result : Option (Except Service.Error Run)}
    (h : ∀ answer, result ≠ some (.ok answer)) (job : Uuid) :
    ∃ message, printedFor job result = .error (.because message) := by
  rcases result with _ | e | answer
  · exact ⟨_, rfl⟩
  · exact ⟨_, rfl⟩
  · exact absurd rfl (h answer)

private theorem exists_after (c : CancelCommand) (t : Tables) :
    ∃ t', (Attempt.mk c (atRest t)).after = atRest t' ∧
      (t' = t ∨ ∃ run now, run.jobId = c.job ∧ IsCancelled run now t t') ∧
      ∀ x ∈ (Attempt.mk c (atRest t)).asked, x.1 = c.job := by
  simp only [Attempt.after, Attempt.asked]
  by_cases hread : ∃ run, t.run? c.job = .ok (some run)
  · obtain ⟨run, hrun⟩ := hread
    obtain ⟨hjob, row, hrow, -⟩ := Tables.exists_row_of_run? hrun
    cases hfinished : run.status.isFinished with
    | true =>
      rw [carryOut_of_finished hrun hfinished]
      exact ⟨t, rfl, .inl rfl, fun _ hx => absurd hx List.not_mem_nil⟩
    | false =>
      rw [carryOut_of_unfinished hrun hfinished]
      have hasked : ∀ x ∈ [(run.jobId, false)], x.1 = c.job := by simp [hjob]
      obtain ⟨written, hwrite⟩ := (t.exists_updateRun_iff (run.cancel c.surroundings.now)).2
        (by rw [Run.cancel_jobId, hjob, hrow]; rfl)
      by_cases hreads : written.OutputReads run.jobId
      · rcases Service.cancel_of_readable hwrite hreads c.remote none with
          ⟨-, -, hk⟩ | ⟨-, result, -, hk⟩
        · rw [hk]
          exact ⟨_, rfl, .inr ⟨run, _, hjob, .of_statements hwrite⟩, hasked⟩
        · rw [hk]
          exact ⟨t, rfl, .inl rfl, hasked⟩
      · obtain ⟨e, hk⟩ := Service.cancel_of_unreadable hwrite hreads c.remote none
        rw [hk]
        exact ⟨t, rfl, .inl rfl, fun _ hx => absurd hx List.not_mem_nil⟩
  · rw [carryOut_of_unread fun run hrun => hread ⟨run, hrun⟩]
    exact ⟨t, rfl, .inl rfl, fun _ hx => absurd hx List.not_mem_nil⟩

private theorem spares_of_other (hjob : c.job ≠ job) (t : Tables) :
    (Attempt.mk c (atRest t)).Spares job := by
  obtain ⟨t', hafter, hsame, hasked⟩ := exists_after c t
  refine ⟨?_, fun x hx hx' => hjob ((hasked x hx).symm.trans hx')⟩
  rw [hafter]
  rcases hsame with rfl | ⟨run, now, hrun, hcancelled⟩
  · rfl
  · exact recordOf_of_isCancelled hcancelled fun h => hjob (hrun.symm.trans h.symm)

section Running

variable (hrun : t.run? c.job = .ok (some run)) (hrunning : run.status = .running)
  (hreads : t.OutputReads c.job)

include hrun hrunning hreads

private theorem exists_written : ∃ written, t.updateRun
    (run.cancel c.surroundings.now) = .ok written ∧
    written.OutputReads run.jobId ∧ run.jobId = c.job ∧
      c.carryOut (atRest t) =
        let k := Service.cancel t run c.surroundings.now c.remote none
        (printedFor c.job k.result, atRest k.tables, k.deregistered) := by
  obtain ⟨hjob, row, hrow, -⟩ := Tables.exists_row_of_run? hrun
  obtain ⟨written, hwrite⟩ := (t.exists_updateRun_iff (run.cancel c.surroundings.now)).2
    (by rw [Run.cancel_jobId, hjob, hrow]; rfl)
  refine ⟨written, hwrite, ?_, hjob, carryOut_of_unfinished hrun (by rw [hrunning]; rfl)⟩
  rw [Service.outputReads_of_updateRun hwrite, hjob]
  exact hreads

private theorem fails_of_running (hremote : c.remote ≠ .accepted) :
    (Attempt.mk c (atRest t)).Fails c.job := by
  obtain ⟨written, hwrite, hreads', hjob, hcommand⟩ := exists_written hrun hrunning hreads
  rcases Service.cancel_of_readable hwrite hreads' c.remote none with
    ⟨haccepted, -⟩ | ⟨-, result, hresult, hk⟩
  · exact absurd haccepted hremote
  · simp only [hk] at hcommand
    refine ⟨?_, ?_, ?_⟩
    · rw [Attempt.asked, hcommand, hjob]
    · rw [Attempt.printed, hcommand]
      exact exists_message hresult c.job
    · rw [Attempt.after, hcommand]

private theorem cancels_of_running (hremote : c.remote = .accepted)
    (hnow : c.surroundings.now.nanos < Time.second) :
    (Attempt.mk c (atRest t)).Cancels run ∧ ∃ t', (Attempt.mk c (atRest t)).after = atRest t' ∧
      t'.run? c.job = .ok (some { run with
        status := .cancelled, finishedAt := some c.surroundings.now.floorMillis }) := by
  obtain ⟨written, hwrite, hreads', hjob, hcommand⟩ := exists_written hrun hrunning hreads
  rcases Service.cancel_of_readable hwrite hreads' c.remote none with
    ⟨-, -, hk⟩ | ⟨hnot, -⟩
  · have hcancelled : IsCancelled run c.surroundings.now t (written.dropOutput run.jobId) :=
      .of_statements hwrite
    have hstored := run?_of_isCancelled hcancelled hnow (hjob ▸ hrun)
    simp only [hk] at hcommand
    have hafter : (Attempt.mk c (atRest t)).after = atRest (written.dropOutput run.jobId) := by
      rw [Attempt.after, hcommand]
    refine ⟨⟨?_, ?_, ?_, ?_⟩, _, hafter, hjob ▸ hstored⟩
    · rw [Attempt.asked, hcommand]
    · rw [Attempt.printed, hcommand, hjob]
      simp only [printedFor, Run.cancel, Run.finish, Run.Status.toString, String.append_assoc]
      rfl
    · rw [hafter, getRun_atRest, hstored]
    · rw [hafter]
      exact getOutput_of_gone hcancelled.output
  · exact absurd ⟨hremote, rfl⟩ hnot

end Running

/-! ### Commands one after another -/

/-- What holds of every command as long as the record of a run is as at the start holds of all
commands, when each of them spares the run. -/
private theorem spared_throughout {P : Attempt → Prop}
    (h : ∀ c ∈ cs, ∀ t', recordOf (atRest t') job = recordOf (atRest t) job →
      (Attempt.mk c (atRest t')).Spares job ∧ P (Attempt.mk c (atRest t'))) :
    ∀ a ∈ attempts (atRest t) cs,
      recordOf a.after job = recordOf (atRest t) job ∧ a.Spares job ∧ P a := by
  suffices hall : ∀ t₁, recordOf (atRest t₁) job = recordOf (atRest t) job →
      ∀ a ∈ attempts (atRest t₁) cs,
        recordOf a.after job = recordOf (atRest t) job ∧ a.Spares job ∧ P a from hall t rfl
  induction cs with
  | nil => exact fun _ _ _ ha => absurd ha List.not_mem_nil
  | cons c cs ih =>
    intro t₁ hsame a ha
    obtain ⟨hspares, hP⟩ := h c List.mem_cons_self t₁ hsame
    have hnext : recordOf (Attempt.mk c (atRest t₁)).after job = recordOf (atRest t) job :=
      hspares.record.trans hsame
    rcases List.mem_cons.1 ha with rfl | ha
    · exact ⟨hnext, hspares, hP⟩
    · obtain ⟨t₂, hafter, -⟩ := exists_after c t₁
      rw [hafter] at hnext ha
      exact ih (fun c' hc' => h c' (List.mem_cons_of_mem c hc')) t₂ hnext a ha

private theorem finished_throughout (hrun : t.run? job = .ok (some run))
    (hfinished : run.status.isFinished = true) (cs : List CancelCommand) :
    ∀ a ∈ attempts (atRest t) cs, recordOf a.after job = recordOf (atRest t) job ∧ a.Spares job ∧
      (a.command.job = job → a.ComesLate job run.status) := by
  refine spared_throughout fun c _ t' hsame => ?_
  by_cases hjob : c.job = job
  · subst hjob
    have hrun' : t'.run? c.job = .ok (some run) := (run?_of_record hsame).trans hrun
    have hlate := comesLate_of_finished hrun' hfinished
    refine ⟨⟨by rw [hlate.after], ?_⟩, fun _ => hlate⟩
    rw [hlate.asked]
    exact fun _ hx => absurd hx List.not_mem_nil
  · exact ⟨spares_of_other hjob t', fun h => absurd h hjob⟩

/-- Up to the first command whose job is taken off, a running run stays as it is. -/
private theorem exists_before {past later : List Attempt} {a : Attempt}
    (hrun : t.run? job = .ok (some run)) (hrunning : run.status = .running)
    (hreads : t.OutputReads job) (hsplit : attempts (atRest t) cs = past ++ a :: later)
    (hpast : ∀ b ∈ past, b.command.job = job → b.command.remote ≠ .accepted) :
    ∃ t' cs', a.before = atRest t' ∧ recordOf (atRest t') job = recordOf (atRest t) job ∧
      a.command ∈ cs ∧ later = attempts a.after cs' := by
  induction cs generalizing t past with
  | nil => cases past <;> cases hsplit
  | cons c cs ih =>
    cases past with
    | nil =>
      obtain ⟨rfl, rfl⟩ := List.cons.inj hsplit
      exact ⟨t, cs, rfl, rfl, List.mem_cons_self, rfl⟩
    | cons b past =>
      obtain ⟨rfl, hrest⟩ := List.cons.inj hsplit
      have hrecord : recordOf (Attempt.mk c (atRest t)).after job = recordOf (atRest t) job := by
        by_cases hjob : c.job = job
        · subst hjob
          have hrefused := hpast _ List.mem_cons_self rfl
          rw [(fails_of_running hrun hrunning hreads hrefused).after]
        · exact (spares_of_other hjob t).record
      obtain ⟨t₁, hafter, -⟩ := exists_after c t
      rw [hafter] at hrecord hrest
      obtain ⟨t', cs', hbefore, hsame, hmem, hlater⟩ := ih ((run?_of_record hrecord).trans hrun)
        ((outputReads_of_record hrecord).2 hreads) hrest
        (fun b' hb' => hpast b' (List.mem_cons_of_mem _ hb'))
      exact ⟨t', cs', hbefore, hsame.trans hrecord, List.mem_cons_of_mem c hmem, hlater⟩

/-- However often runs are cancelled, and whatever the orchestrator answers: a running run whose
output reads stays as it is up to the first command for it whose job is taken off. That command
cancels it, and every later one succeeds without asking or changing anything. A run that had come to
its end, and one that no command names, stays as it is, and nobody is asked about its job. The clock
shows no leap second, as the one of a system never does. -/
theorem job_is_stopped_once (t : Tables) (cs : List CancelCommand)
    (hclock : ∀ c ∈ cs, c.surroundings.now.nanos < Time.second) (job : Uuid) :
    (∀ run, t.run? job = .ok (some run) → run.status = .running → t.OutputReads job →
      ∀ past a later, attempts (atRest t) cs = past ++ a :: later →
        (∀ b ∈ past, b.command.job = job → b.command.remote ≠ .accepted) →
          recordOf a.before job = recordOf (atRest t) job ∧
          (a.command.job ≠ job → a.Spares job) ∧
          (a.command.job = job → a.command.remote ≠ .accepted → a.Fails job) ∧
          (a.command.job = job → a.command.remote = .accepted → a.Cancels run ∧
            ∀ b ∈ later, recordOf b.after job = recordOf a.after job ∧ b.Spares job ∧
              (b.command.job = job → b.ComesLate job .cancelled))) ∧
      (∀ run, t.run? job = .ok (some run) → run.status.isFinished = true →
        ∀ a ∈ attempts (atRest t) cs, recordOf a.after job = recordOf (atRest t) job ∧
          a.Spares job ∧ (a.command.job = job → a.ComesLate job run.status)) ∧
      ((∀ c ∈ cs, c.job ≠ job) → ∀ a ∈ attempts (atRest t) cs,
        recordOf a.after job = recordOf (atRest t) job ∧ a.Spares job) := by
  refine ⟨?_, fun run hrun hfinished => finished_throughout hrun hfinished cs, ?_⟩
  · intro run hrun hrunning hreads past a later hsplit hpast
    obtain ⟨t', cs', hbefore, hsame, hmem, hlater⟩ :=
      exists_before hrun hrunning hreads hsplit hpast
    obtain ⟨c, before⟩ := a
    obtain rfl : before = atRest t' := hbefore
    have hrun' : t'.run? job = .ok (some run) := (run?_of_record hsame).trans hrun
    have hreads' : t'.OutputReads job := (outputReads_of_record hsame).2 hreads
    refine ⟨hsame, fun hjob => spares_of_other hjob t', ?_, ?_⟩
    · rintro rfl hremote
      exact fails_of_running hrun' hrunning hreads' hremote
    · rintro rfl hremote
      obtain ⟨hcancels, t₁, hafter, hstored⟩ :=
        cancels_of_running hrun' hrunning hreads' hremote (hclock c hmem)
      refine ⟨hcancels, ?_⟩
      rw [hlater, hafter]
      exact finished_throughout hstored rfl cs'
  · intro hunnamed a ha
    obtain ⟨hrecord, hspares, -⟩ := spared_throughout (P := fun _ => True)
      (fun c hc t' _ => ⟨spares_of_other (hunnamed c hc) t', trivial⟩) a ha
    exact ⟨hrecord, hspares⟩

def sampleTables : Tables where
  events := []
  marks := []
  runs := [.ofRun (.new default default .epoch)]
  outputs := [((default : Uuid).toString, .ofOutput (.ofSuccess .null))]

/-- A command for the run of the sample, with what the orchestrator answers. -/
def sampleCommand (answer : Deregistration) : CancelCommand where
  job := default
  surroundings := {
    configFile := fun _ => .missing
    connect := fun _ => .error .migration
    deregister := fun _ _ => answer
    listLogs := fun _ _ _ _ => .error .request
    now := .epoch
    clockSecs := 0 }
  timeoutSecs := none
  config := .standard
  limits := ⟨1, 1, by decide, by decide⟩

/-- The orchestrator does not answer, then takes the job off, then would not answer again. -/
theorem sample_job_is_stopped_once :
    let cs := [sampleCommand .pending, sampleCommand .accepted, sampleCommand .pending]
    (∀ c ∈ cs, c.surroundings.now.nanos < Time.second) ∧
      ∃ a₁ a₂ a₃, attempts (atRest sampleTables) cs = [a₁, a₂, a₃] ∧ a₁.Fails default ∧
        a₂.Cancels (.new default default .epoch) ∧ a₃.ComesLate default .cancelled := by
  intro cs
  have hclock : ∀ c ∈ cs, c.surroundings.now.nanos < Time.second := by
    intro c hc
    rcases List.mem_cons.1 hc with rfl | hc
    · decide
    rcases List.mem_cons.1 hc with rfl | hc
    · decide
    · rw [List.mem_singleton.1 hc]
      decide
  have hrun : sampleTables.run? default = .ok (some (.new default default .epoch)) := by
    decide +kernel
  have hreads : sampleTables.OutputReads default := by
    intro row hrow
    obtain rfl : OutputRow.ofOutput (.ofSuccess .null) = row := Option.some.inj hrow
    exact ⟨_, rfl⟩
  obtain ⟨hrunning, -, -⟩ := job_is_stopped_once sampleTables cs hclock default
  have hfirst := hrunning _ hrun rfl hreads [] _ _ rfl (fun _ hb => absurd hb List.not_mem_nil)
  have hsecond := hrunning _ hrun rfl hreads [_] _ _ rfl fun b hb _ => by
    rw [List.mem_singleton.1 hb]
    exact nofun
  obtain ⟨-, -, hfails, -⟩ := hfirst
  obtain ⟨-, -, -, hcancels⟩ := hsecond
  obtain ⟨hcancelled, hlate⟩ := hcancels rfl rfl
  obtain ⟨-, -, hlate⟩ := hlate _ List.mem_cons_self
  exact ⟨hclock, _, _, _, rfl, hfails rfl nofun, hcancelled, hlate rfl⟩

end RunLedger.Command
