import RunLedger.Proofs.Service.Cancellation
import RunLedger.Service.Ledger

/-!
Operations on a ledger, one after another: a change in a transaction of its own, which is committed
through what was staged or rolled back, and a cancellation. Between two operations the ledger is at
rest, and an operation that is not kept leaves the tables and the announcements as they were.
-/

set_option autoImplicit false

namespace RunLedger.Service

open RunLedger.Store (Tables OutputRow)

/-- A change that is written in a transaction of its own. -/
inductive Change where
  | save (run : Run) (output : Run.Output)
  | update (run : Run)
  | finish (run : Run)

/-- How a transaction is ended once its change is staged. -/
inductive Ending where
  | commit
  | rollback

inductive Operation where
  | write (change : Change) (ending : Ending)
  | cancel (run : Run) (now : Time.Instant) (remote : Deregistration)

/-- What came of an operation: it was kept, with the value that the commit answers, or not. -/
inductive Answer where
  | kept (value : Option Run.Output)
  | undone

def Change.apply (t : Tables) : Change → Except Error Staged × Tables
  | .save run output => Service.save t run output
  | .update run => Service.update t run
  | .finish run => Service.finish t run

namespace Ledger

def stageChange (l : Ledger) : Change → Except Failure Nat × Ledger
  | .save run output => l.save run output
  | .update run => l.update run
  | .finish run => l.finish run

def abandon (l : Ledger) : Ledger := l.rollback.toOption.getD l

def write (l : Ledger) (change : Change) (ending : Ending) : Answer × Ledger :=
  match l.begin with
  | .error _ => (.undone, l)
  | .ok l =>
    match l.stageChange change with
    | (.error _, l) => (.undone, l.abandon)
    | (.ok k, l) =>
      match ending with
      | .rollback => (.undone, l.abandon)
      | .commit =>
        match l.commitThrough k with
        | .error _ => (.undone, l.abandon)
        | .ok (value, l) => (.kept value, l)

def perform (l : Ledger) : Operation → Answer × Ledger
  | .write change ending => l.write change ending
  | .cancel run now remote =>
    match l.cancel run now remote with
    | (some (.ok _), l) => (.kept none, l)
    | (_, l) => (.undone, l)

def performAll (l : Ledger) (ops : List Operation) : Ledger :=
  ops.foldl (fun l op => (l.perform op).2) l

/-- Whether a run is stored. -/
def hasRun (l : Ledger) (id : Uuid) : Bool := (l.database.committed.bind (·.findRun? id)).isSome

def storedOutput? (l : Ledger) (id : Uuid) : Option OutputRow :=
  l.database.committed.bind (·.findOutput? id)

/-- The ledger between two operations: its tables are there and no transaction is open. -/
def IsAtRest (l : Ledger) (t : Tables) : Prop := l.database = ⟨some t, none, true⟩

end Ledger

/-- One operation in a sequence: what was performed on which ledger, and what came of it. -/
structure Step where
  operation : Operation
  before : Ledger

namespace Step

def answer (s : Step) : Answer := (s.before.perform s.operation).1

def after (s : Step) : Ledger := (s.before.perform s.operation).2

def announced (s : Step) : List Announcement :=
  s.after.announced.drop s.before.announced.length

def saved? (s : Step) (id : Uuid) : Option Run.Output :=
  match s.operation, s.answer with
  | .write (.save run output) .commit, .kept _ => if run.jobId = id then some output else none
  | _, _ => none

/-- Whether the step is a cancellation that took effect on a run whose output was stored. -/
def discards (s : Step) (id : Uuid) : Bool :=
  match s.operation, s.answer with
  | .cancel run _ _, .kept _ => run.jobId = id && (s.before.storedOutput? id).isSome
  | _, _ => false

end Step

def Ledger.steps (l : Ledger) : List Operation → List Step
  | [] => []
  | op :: ops => ⟨op, l⟩ :: (l.perform op).2.steps ops

variable {l l' : Ledger} {t t' : Tables} {run : Run} {change : Change} {staged : Staged}
  {output : Run.Output}

theorem Ledger.performAll_append (l : Ledger) (ops later : List Operation) :
    l.performAll (ops ++ later) = (l.performAll ops).performAll later :=
  List.foldl_append

theorem Ledger.steps_append (l : Ledger) (ops later : List Operation) :
    l.steps (ops ++ later) = l.steps ops ++ (l.performAll ops).steps later := by
  induction ops generalizing l with
  | nil => rfl
  | cons op ops ih =>
    rw [List.cons_append, steps, ih, steps, List.cons_append]
    rfl

/-! ### One change -/

theorem save_eq_ok (h : save t run output = (.ok staged, t')) :
    ∃ written, t.insertRun run = .ok written ∧ written.insertOutput run.jobId output = .ok t' ∧
      staged = ⟨none, .created run.jobId run.actionId⟩ := by
  unfold save at h
  cases hrun : t.insertRun run with
  | error e => simp [hrun] at h
  | ok written =>
    cases houtput : written.insertOutput run.jobId output with
    | error e => simp [hrun, houtput] at h
    | ok t'' =>
      simp only [hrun, houtput, Prod.mk.injEq, Except.ok.injEq] at h
      obtain ⟨hstaged, rfl⟩ := h
      exact ⟨written, rfl, houtput, hstaged.symm⟩

private theorem update_eq_ok (h : update t run = (.ok staged, t')) :
    t.updateRun run = .ok t' ∧ staged = ⟨none, .updated run.jobId run.status⟩ := by
  unfold update at h
  cases hrun : t.updateRun run with
  | error e => simp [hrun] at h
  | ok written =>
    simp only [hrun, Prod.mk.injEq, Except.ok.injEq] at h
    obtain ⟨hstaged, rfl⟩ := h
    exact ⟨rfl, hstaged.symm⟩

theorem finish_eq_ok (h : finish t run = (.ok staged, t')) :
    ∃ written value, t.updateRun run = .ok written ∧
      written.output? run.jobId = .ok value ∧ t' = written.dropOutput run.jobId ∧
      staged = ⟨value, .ended run.jobId run.status value⟩ := by
  unfold finish at h
  cases hrun : t.updateRun run with
  | error e => simp [hrun] at h
  | ok written =>
    cases hread : written.output? run.jobId with
    | error e =>
      have hremove : written.removeOutput run.jobId = (.error e, written.dropOutput run.jobId) :=
        Prod.ext hread rfl
      simp [hrun, hremove] at h
    | ok value =>
      have hremove : written.removeOutput run.jobId = (.ok value, written.dropOutput run.jobId) :=
        Prod.ext hread rfl
      simp only [hrun, hremove, Prod.mk.injEq, Except.ok.injEq] at h
      obtain ⟨hstaged, rfl⟩ := h
      exact ⟨written, value, rfl, hread, rfl, hstaged.symm⟩

theorem exists_finish (run : Run) (hstored : (t.findRun? run.jobId).isSome = true)
    (hreads : t.OutputReads run.jobId) :
    ∃ value written, Service.finish t run =
      (.ok ⟨value, .ended run.jobId run.status value⟩, written) := by
  obtain ⟨written, hwrite⟩ := (t.exists_updateRun_iff run).2 hstored
  obtain ⟨value, hvalue⟩ := (written.exists_removeOutput_iff run.jobId).2
    ((outputReads_of_updateRun hwrite run.jobId).2 hreads)
  have hremove : written.removeOutput run.jobId = (.ok value, written.dropOutput run.jobId) :=
    Prod.ext hvalue rfl
  exact ⟨value, written.dropOutput run.jobId, by simp only [Service.finish, hwrite, hremove]⟩

namespace Ledger

theorem stageChange_of_view {x : Store.Transaction} {v : Tables} (change : Change)
    (hdb : l.database = ⟨some t, some x, true⟩) (hview : l.database.view = .ok v) :
    l.stageChange change =
      match change.apply v with
      | (.error e, v') => (.error (.service e),
          { l with database := ⟨some t, some (.writing v'), true⟩ })
      | (.ok staged, v') => (.ok l.staged.length,
          { l with
            database := ⟨some t, some (.writing v'), true⟩
            staged := l.staged ++ [some staged] }) := by
  have hopen : l.database.transaction.isNone = false := by rw [hdb]; rfl
  have hwith : ∀ v', l.database.withView v' = ⟨some t, some (.writing v'), true⟩ := by
    intro v'
    rw [hdb]
    rfl
  cases change with
  | save run output =>
    simp only [stageChange, save, stage, hopen, hview, hwith, Change.apply]
    rcases Service.save v run output with ⟨_ | _, _⟩ <;> rfl
  | update run =>
    simp only [stageChange, update, stage, hopen, hview, hwith, Change.apply]
    rcases Service.update v run with ⟨_ | _, _⟩ <;> rfl
  | finish run =>
    simp only [stageChange, finish, stage, hopen, hview, hwith, Change.apply]
    rcases Service.finish v run with ⟨_ | _, _⟩ <;> rfl

theorem commitThrough_of_view {x : Store.Transaction} {v : Tables} {k : Nat}
    (hdb : l.database = ⟨some t, some x, true⟩) (hview : l.database.view = .ok v)
    (hstaged : (l.staged[k]?).join = some staged) :
    l.commitThrough k = .ok (staged.value,
      { l with
        database := ⟨some v, none, true⟩
        staged := l.staged.set k none }.announce staged.announcement) := by
  have hopen : l.database.transaction.isNone = false := by rw [hdb]; rfl
  have hcommit : l.database.commit = ⟨some v, none, true⟩ := by
    rw [hdb] at hview ⊢
    cases x with
    | begun =>
      cases hview
      rfl
    | writing view =>
      cases hview
      rfl
  simp only [commitThrough, hopen, Bool.false_eq_true, if_false, hstaged, hcommit]

theorem foldl_announce (as : List Announcement) (l : Ledger) :
    (as.foldl announce l).database = l.database ∧
      (as.foldl announce l).deregistered = l.deregistered ∧
      (as.foldl announce l).announced = l.announced ++ as := by
  induction as generalizing l with
  | nil => exact ⟨rfl, rfl, (List.append_nil _).symm⟩
  | cons a as ih =>
    obtain ⟨hdb, hasked, hannounced⟩ := ih (l.announce a)
    refine ⟨hdb, hasked, hannounced.trans ?_⟩
    rw [announce, List.append_assoc, List.singleton_append]

theorem tables_of_rest (hrest : l.IsAtRest t) : l.database.tables = .ok t := by
  have hdb : l.database = ⟨some t, none, true⟩ := hrest
  rw [hdb]
  rfl

private theorem begin_of_rest (hrest : l.IsAtRest t) :
    l.begin = .ok { l with database := ⟨some t, some .begun, true⟩ } := by
  have hdb : l.database = ⟨some t, none, true⟩ := hrest
  simp [begin, hdb]

theorem write_of_apply (hrest : l.IsAtRest t) (happly : change.apply t = (.ok staged, t')) :
    (l.write change .commit).1 = .kept staged.value ∧ (l.write change .commit).2.IsAtRest t' ∧
      (l.write change .commit).2.announced = l.announced ++ [staged.announcement] := by
  have hstage := stageChange_of_view (l := { l with database := ⟨some t, some .begun, true⟩ })
    change rfl rfl
  rw [happly] at hstage
  have hstaged : ((l.staged ++ [some staged])[l.staged.length]?).join = some staged := by simp
  have hcommit := @commitThrough_of_view
    { l with
      database := ⟨some t, some (.writing t'), true⟩
      staged := l.staged ++ [some staged] } t staged _ t' _ rfl rfl hstaged
  simp only [write, begin_of_rest hrest, hstage, hcommit]
  exact ⟨trivial, rfl, rfl⟩

theorem write_cases (hrest : l.IsAtRest t) (change : Change) (ending : Ending) :
    (∃ staged t', ending = .commit ∧ change.apply t = (.ok staged, t') ∧
      (l.write change ending).1 = .kept staged.value ∧
      (l.write change ending).2.IsAtRest t' ∧
      (l.write change ending).2.announced = l.announced ++ [staged.announcement]) ∨
    ((l.write change ending).1 = .undone ∧ (l.write change ending).2.IsAtRest t ∧
      (l.write change ending).2.announced = l.announced) := by
  have hstage := stageChange_of_view (l := { l with database := ⟨some t, some .begun, true⟩ })
    change rfl rfl
  rcases happly : change.apply t with ⟨e | staged, t'⟩
  · rw [happly] at hstage
    refine .inr ?_
    simp only [write, begin_of_rest hrest, hstage]
    exact ⟨trivial, rfl, rfl⟩
  · cases ending with
    | rollback =>
      rw [happly] at hstage
      refine .inr ?_
      simp only [write, begin_of_rest hrest, hstage]
      exact ⟨trivial, rfl, rfl⟩
    | commit => exact .inl ⟨staged, t', rfl, rfl, write_of_apply hrest happly⟩

/-- A cancellation takes effect exactly when the run is stored, its output reads and the
orchestrator took the job off; otherwise it leaves tables and announcements alone. -/
theorem cancel_outcome (hopen : l.database.isOpen = true) (hwritable : l.database.writable = .ok t)
    (run : Run) (now : Time.Instant) (remote : Deregistration) :
    let r := l.cancel run now remote
    (∃ written value, t.updateRun (run.cancel now) = .ok written ∧
      written.output? run.jobId = .ok value ∧ r.1 = some (.ok (run.cancel now)) ∧
      r.2.database = l.database.withTables (written.dropOutput run.jobId) ∧
      r.2.announced = l.announced ++ [.cancelled run.jobId]) ∨
    (¬ ((t.findRun? run.jobId).isSome = true ∧ t.OutputReads run.jobId ∧ remote = .accepted) ∧
      (∀ answer, r.1 ≠ some (.ok answer)) ∧ r.2.database = l.database.withTables t ∧
      r.2.announced = l.announced) := by
  intro r
  have hr : ∀ {c : Cancellation}, Service.cancel t run now remote none = c →
      r = (c.result, c.announced.foldl announce { l with
        database := l.database.withTables c.tables
        deregistered := l.deregistered ++ c.deregistered }) := by
    rintro c rfl
    simp [r, cancel, hopen, hwritable]
  by_cases hfound : (t.findRun? run.jobId).isSome = true
  · obtain ⟨written, hwrite⟩ := (t.exists_updateRun_iff (run.cancel now)).2 hfound
    have hkeeps : written.OutputReads run.jobId ↔ t.OutputReads run.jobId :=
      outputReads_of_updateRun hwrite run.jobId
    by_cases hreads : t.OutputReads run.jobId
    · obtain ⟨value, hvalue⟩ :=
        (Tables.exists_removeOutput_iff written run.jobId).2 (hkeeps.2 hreads)
      rcases cancel_of_readable hwrite (hkeeps.2 hreads) remote none with
        ⟨-, -, hc⟩ | ⟨hfails, result, hresult, hc⟩
      · rw [hr hc]
        exact .inl ⟨written, value, hwrite, hvalue, rfl, rfl, rfl⟩
      · rw [hr hc]
        exact .inr ⟨fun h => hfails ⟨h.2.2, rfl⟩, hresult, rfl, rfl⟩
    · obtain ⟨e, hc⟩ := cancel_of_unreadable hwrite (mt hkeeps.1 hreads) remote none
      rw [hr hc]
      exact .inr ⟨fun h => hreads h.2.1, fun _ => by simp, rfl, rfl⟩
  · obtain ⟨e, hc⟩ := cancel_of_missing (Option.not_isSome_iff_eq_none.1 hfound) now remote none
    rw [hr hc]
    exact .inr ⟨fun h => hfound h.1, fun _ => by simp, rfl, rfl⟩

theorem cancel_cases (hrest : l.IsAtRest t) (run : Run) (now : Time.Instant)
    (remote : Deregistration) :
    let r := l.perform (.cancel run now remote)
    (∃ written value, t.updateRun (run.cancel now) = .ok written ∧
      written.output? run.jobId = .ok value ∧ r.1 = .kept none ∧
      r.2.IsAtRest (written.dropOutput run.jobId) ∧
      r.2.announced = l.announced ++ [.cancelled run.jobId]) ∨
    (r.1 = .undone ∧ r.2.IsAtRest t ∧ r.2.announced = l.announced) := by
  have hdb : l.database = ⟨some t, none, true⟩ := hrest
  have hopen : l.database.isOpen = true := by rw [hdb]
  have hwritable : l.database.writable = .ok t := by rw [hdb]; rfl
  have houtcome := cancel_outcome hopen hwritable run now remote
  simp only [perform, IsAtRest]
  generalize l.cancel run now remote = r at houtcome ⊢
  obtain ⟨result, l'⟩ := r
  rw [hdb] at houtcome
  rcases houtcome with ⟨written, value, hwrite, hread, rfl, hafter, hannounced⟩ |
    ⟨-, hresult, hafter, hannounced⟩
  · exact .inl ⟨written, value, hwrite, hread, rfl, hafter, hannounced⟩
  · rcases result with _ | _ | answer
    · exact .inr ⟨rfl, hafter, hannounced⟩
    · exact .inr ⟨rfl, hafter, hannounced⟩
    · exact absurd rfl (hresult answer)

end Ledger

/-! ### One operation -/

/-- What an operation that is kept does to the tables, what its commit answers and what it
announces. -/
inductive Commits (t : Tables) : Operation → Option Run.Output → Announcement → Tables → Prop
  | save {run : Run} {output : Run.Output} {written t' : Tables} :
      t.insertRun run = .ok written → written.insertOutput run.jobId output = .ok t' →
      Commits t (.write (.save run output) .commit) none (.created run.jobId run.actionId) t'
  | update {run : Run} {t' : Tables} : t.updateRun run = .ok t' →
      Commits t (.write (.update run) .commit) none (.updated run.jobId run.status) t'
  | finish {run : Run} {written : Tables} {value : Option Run.Output} :
      t.updateRun run = .ok written → written.output? run.jobId = .ok value →
      Commits t (.write (.finish run) .commit) value (.ended run.jobId run.status value)
        (written.dropOutput run.jobId)
  | cancel {run : Run} {now : Time.Instant} {remote : Deregistration} {written : Tables}
      {value : Option Run.Output} :
      t.updateRun (run.cancel now) = .ok written → written.output? run.jobId = .ok value →
      Commits t (.cancel run now remote) none (.cancelled run.jobId)
        (written.dropOutput run.jobId)

private theorem Commits.of_apply (h : change.apply t = (.ok staged, t')) :
    Commits t (.write change .commit) staged.value staged.announcement t' := by
  cases change with
  | save run output =>
    obtain ⟨written, hrun, houtput, rfl⟩ := save_eq_ok h
    exact .save hrun houtput
  | update run =>
    obtain ⟨hrun, rfl⟩ := update_eq_ok h
    exact .update hrun
  | finish run =>
    obtain ⟨written, value, hrun, hread, rfl, rfl⟩ := finish_eq_ok h
    exact .finish hrun hread

/-- An operation is kept as a whole, or tables and announcements are as before. -/
private theorem Ledger.perform_cases (hrest : l.IsAtRest t) (op : Operation) :
    let r := l.perform op
    (∃ value a t', Commits t op value a t' ∧ r.1 = .kept value ∧ r.2.IsAtRest t' ∧
      r.2.announced = l.announced ++ [a]) ∨
    (r.1 = .undone ∧ r.2.IsAtRest t ∧ r.2.announced = l.announced) := by
  cases op with
  | write change ending =>
    rcases l.write_cases hrest change ending with ⟨staged, t', rfl, happly, h⟩ | h
    · exact .inl ⟨_, _, t', .of_apply happly, h⟩
    · exact .inr h
  | cancel run now remote =>
    rcases l.cancel_cases hrest run now remote with ⟨written, value, hwrite, hread, h⟩ | h
    · exact .inl ⟨_, _, _, .cancel hwrite hread, h⟩
    · exact .inr h

theorem Ledger.exists_rest (hrest : l.IsAtRest t) (ops : List Operation) :
    ∃ t', (l.performAll ops).IsAtRest t' := by
  induction ops generalizing l t with
  | nil => exact ⟨t, hrest⟩
  | cons op ops ih =>
    rcases l.perform_cases hrest op with ⟨_, _, t', _, _, hnext, _⟩ | ⟨_, hnext, _⟩
    · exact ih hnext
    · exact ih hnext

namespace Step

variable {s : Step}

theorem kept_or_undone (hrest : s.before.IsAtRest t) :
    (∃ value a t', Commits t s.operation value a t' ∧ s.answer = .kept value ∧
      s.after.IsAtRest t' ∧ s.announced = [a]) ∨
    (s.answer = .undone ∧ s.after.IsAtRest t ∧ s.announced = []) := by
  rcases s.before.perform_cases hrest s.operation with
    ⟨value, a, t', hcommits, hanswer, hafter, hannounced⟩ | ⟨hanswer, hafter, hannounced⟩
  · refine .inl ⟨value, a, t', hcommits, hanswer, hafter, ?_⟩
    rw [announced, after, hannounced, List.drop_left]
  · refine .inr ⟨hanswer, hafter, ?_⟩
    rw [announced, after, hannounced, List.drop_length]

theorem announced_after (hrest : s.before.IsAtRest t) :
    s.after.announced = s.before.announced ++ s.announced := by
  rcases s.before.perform_cases hrest s.operation with ⟨_, a, _, _, _, _, hannounced⟩ |
    ⟨_, _, hannounced⟩
  · rw [announced, after, hannounced, List.drop_left]
  · rw [announced, after, hannounced, List.drop_length, List.append_nil]

end Step

end RunLedger.Service
