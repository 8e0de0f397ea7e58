import RunLedger.Proofs.Service.Batches
import RunLedger.Proofs.Service.SavedOutputs

/-!
Changes that fail. A change may write two statements, and nothing takes back the first when the
second fails. It does not come to that: whatever was called before, no output is stored without its
run, neither among the committed tables nor in a transaction, and so a change that fails does so with
its first statement, which then writes nothing.
-/

set_option autoImplicit false

namespace RunLedger

namespace Store

namespace Tables

/-- No output is stored without its run. -/
def OutputsOwned (t : Tables) : Prop :=
  ∀ id, (t.findOutput? id).isSome = true → (t.findRun? id).isSome = true

variable {t t' : Tables} {run : Run} {output : Run.Output} {id : Uuid}

theorem OutputsOwned.empty : OutputsOwned .empty := by
  intro id hid
  cases hid

theorem OutputsOwned.insertRun (h : t.OutputsOwned) (hinsert : t.insertRun run = .ok t') :
    t'.OutputsOwned := by
  intro id hid
  rw [findOutput?_insertRun hinsert] at hid
  rw [findRun?_insertRun hinsert]
  split
  · rfl
  · exact h id hid

theorem OutputsOwned.updateRun (h : t.OutputsOwned) (hupdate : t.updateRun run = .ok t') :
    t'.OutputsOwned := by
  intro id hid
  rw [findOutput?_updateRun hupdate] at hid
  rw [findRun?_updateRun hupdate]
  split
  · rw [Option.isSome_map]
    exact h id hid
  · exact h id hid

theorem OutputsOwned.insertOutput (h : t.OutputsOwned)
    (hinsert : t.insertOutput id output = .ok t') : t'.OutputsOwned := by
  intro other hother
  rw [findRun?_insertOutput hinsert]
  rw [findOutput?_insertOutput hinsert] at hother
  split at hother
  · next hsame => exact hsame ▸ (insertOutput_eq_ok_iff.1 hinsert).2.1
  · exact h other hother

theorem OutputsOwned.dropOutput (h : t.OutputsOwned) (id : Uuid) :
    (t.dropOutput id).OutputsOwned := by
  intro other hother
  rw [findOutput?_dropOutput] at hother
  split at hother
  · cases hother
  · exact h other hother

end Tables

/-- The tables of a database are there, and no output is without its run, neither among the
committed tables nor in what a transaction wrote. -/
def Database.OutputsOwned (db : Database) : Prop :=
  ∃ t x, db = ⟨some t, x, true⟩ ∧ t.OutputsOwned ∧
    ∀ v, x = some (.writing v) → v.OutputsOwned

namespace Database.OutputsOwned

variable {db : Database} {t v : Tables}

private theorem of_rest (ht : t.OutputsOwned) : OutputsOwned ⟨some t, none, true⟩ :=
  ⟨t, none, rfl, ht, by simp⟩

private theorem exists_view (h : db.OutputsOwned) (hopen : db.transaction.isSome = true) :
    ∃ t x v, db = ⟨some t, some x, true⟩ ∧ db.view = .ok v ∧ t.OutputsOwned ∧
      v.OutputsOwned := by
  obtain ⟨t, x, rfl, ht, hx⟩ := h
  cases x with
  | none => cases hopen
  | some x =>
    cases x with
    | begun => exact ⟨t, _, t, rfl, rfl, ht, ht⟩
    | writing v => exact ⟨t, _, v, rfl, rfl, ht, hx v rfl⟩

private theorem of_writable (h : db.OutputsOwned) (hwritable : db.writable = .ok t) :
    db.isOpen = true ∧ t.OutputsOwned := by
  obtain ⟨t', x, rfl, ht, -⟩ := h
  obtain ⟨tables, htables, hfree⟩ := bind_eq_ok.1 hwritable
  obtain rfl : t' = tables := Except.ok.inj htables
  split at hfree
  · cases hfree
  · obtain rfl : t' = t := Except.ok.inj hfree
    exact ⟨rfl, ht⟩

theorem withTables (h : db.OutputsOwned) (ht : t.OutputsOwned) :
    (db.withTables t).OutputsOwned := by
  obtain ⟨_, x, rfl, -, hx⟩ := h
  exact ⟨t, x, rfl, ht, hx⟩

theorem withView (h : db.OutputsOwned) (hv : v.OutputsOwned) : (db.withView v).OutputsOwned := by
  obtain ⟨t, _, rfl, ht, -⟩ := h
  refine ⟨t, _, rfl, ht, ?_⟩
  rintro _ ⟨⟩
  exact hv

theorem begin (h : db.OutputsOwned) :
    OutputsOwned { db with transaction := some .begun } := by
  obtain ⟨t, _, rfl, ht, -⟩ := h
  exact ⟨t, some .begun, rfl, ht, by simp⟩

theorem commit (h : db.OutputsOwned) : db.commit.OutputsOwned := by
  obtain ⟨t, x, rfl, ht, hx⟩ := h
  cases x with
  | none => exact of_rest ht
  | some x =>
    cases x with
    | begun => exact of_rest ht
    | writing v => exact of_rest (hx v rfl)

theorem rollback (h : db.OutputsOwned) : db.rollback.OutputsOwned := by
  obtain ⟨t, _, rfl, ht, -⟩ := h
  exact of_rest ht

end Database.OutputsOwned

end Store

namespace Service

open RunLedger.Store (Tables)

variable {l : Ledger} {t v : Tables}

/-! ### One change -/

/-- Whether tables refuse a change: a run that is saved must be new to them, and a run that is
written or ended must be stored. -/
def Change.isRefused (t : Tables) : Change → Bool
  | .save run _ => (t.findRun? run.jobId).isSome
  | .update run => (t.findRun? run.jobId).isNone
  | .finish run => (t.findRun? run.jobId).isNone

def Change.refusal : Change → Error
  | .save run _ => .storage s!"Could not insert Run {run.jobId}" (.database .unique)
  | .update run => .storage s!"Could not update Run {run.jobId}" (.runNotFound run.jobId)
  | .finish run => .storage s!"Could not update Run {run.jobId}" (.runNotFound run.jobId)

/-- Whether a change is about a run that has to be stored. -/
def Change.isAboutStored : Change → Bool
  | .save _ _ => false
  | .update _ => true
  | .finish _ => true

private theorem Change.isNotFound_refusal (change : Change) :
    change.refusal.isNotFound = change.isAboutStored := by
  cases change <;> rfl

private theorem Change.apply_of_refused {change : Change} (h : change.isRefused t = true) :
    change.apply t = (.error change.refusal, t) := by
  cases change with
  | save run output =>
    have hinsert : t.insertRun run = .error (.database .unique) := if_pos h
    simp only [apply, Service.save, hinsert, refusal]
  | update run =>
    have hupdate := Tables.updateRun_eq_error (Option.isNone_iff_eq_none.1 h)
    simp only [apply, Service.update, hupdate, refusal]
  | finish run =>
    have hupdate := Tables.updateRun_eq_error (Option.isNone_iff_eq_none.1 h)
    simp only [apply, Service.finish, hupdate, refusal]

private theorem Change.exists_apply (howned : t.OutputsOwned) (hreads : ∀ id, t.OutputReads id)
    {change : Change} (h : ¬ change.isRefused t = true) :
    ∃ staged t', change.apply t = (.ok staged, t') := by
  cases change with
  | save run output =>
    have hnew : t.findRun? run.jobId = none := Option.not_isSome_iff_eq_none.1 h
    obtain ⟨written, hrun⟩ : ∃ written, t.insertRun run = .ok written :=
      ⟨_, Tables.insertRun_eq_ok_iff.2 ⟨hnew, rfl⟩⟩
    -- an output without its run would keep out the one that comes with the run
    have hnone : written.findOutput? run.jobId = none := by
      rw [Tables.findOutput?_insertRun hrun, ← Option.not_isSome_iff_eq_none]
      exact fun houtput => h (howned _ houtput)
    have hstored : (written.findRun? run.jobId).isSome = true := by
      rw [Tables.findRun?_insertRun hrun, if_pos rfl]
      rfl
    obtain ⟨t', houtput⟩ : ∃ t', written.insertOutput run.jobId output = .ok t' :=
      ⟨_, Tables.insertOutput_eq_ok_iff.2 ⟨hnone, hstored, rfl⟩⟩
    simp only [apply, Service.save, hrun, houtput]
    exact ⟨_, _, rfl⟩
  | update run =>
    have hstored : (t.findRun? run.jobId).isSome = true :=
      Option.isNone_eq_false_iff.1 (Bool.eq_false_iff.2 h)
    obtain ⟨written, hrun⟩ := (t.exists_updateRun_iff run).2 hstored
    simp only [apply, Service.update, hrun]
    exact ⟨_, _, rfl⟩
  | finish run =>
    have hstored : (t.findRun? run.jobId).isSome = true :=
      Option.isNone_eq_false_iff.1 (Bool.eq_false_iff.2 h)
    obtain ⟨value, t', hfinish⟩ := exists_finish run hstored (hreads _)
    exact ⟨_, t', hfinish⟩

private theorem Change.owned_apply (howned : t.OutputsOwned) (change : Change) :
    (change.apply t).2.OutputsOwned := by
  cases change with
  | save run output =>
    simp only [apply, Service.save]
    split
    · exact howned
    · next written hrun =>
      split
      · exact howned.insertRun hrun
      · next houtput => exact (howned.insertRun hrun).insertOutput houtput
  | update run =>
    simp only [apply, Service.update]
    split
    · exact howned
    · next hrun => exact howned.updateRun hrun
  | finish run =>
    simp only [apply, Service.finish]
    split
    · exact howned
    · next written hrun =>
      have hdropped : (written.dropOutput run.jobId).OutputsOwned :=
        (howned.updateRun hrun).dropOutput run.jobId
      rcases hremove : written.removeOutput run.jobId with ⟨_ | _, after⟩ <;>
        obtain rfl : written.dropOutput run.jobId = after := congrArg Prod.snd hremove <;>
        exact hdropped

private theorem Change.owned_applyAll (howned : t.OutputsOwned) (changes : List Change) :
    (Change.applyAll t changes).2.OutputsOwned := by
  induction changes generalizing t with
  | nil => exact howned
  | cons change changes ih =>
    have hnext := change.owned_apply howned
    rw [applyAll]
    rcases happly : change.apply t with ⟨_ | staged, t'⟩ <;> rw [happly] at hnext <;> exact ih hnext

/-! ### Any calls -/

/-- What is called on a ledger, in any order: a transaction is begun, written to and ended, a run is
cancelled, or another client commits changes. What fails is followed by the next call. -/
inductive Call where
  | begin
  | rollback
  | commit
  | commitThrough (k : Nat)
  | stage (change : Change)
  | cancel (run : Run) (now : Time.Instant) (remote : Deregistration)
  /-- Another client writes changes in a transaction of its own and commits it. -/
  | elsewhere (changes : List Change)

namespace Ledger

/-- The ledger after a call. One that is refused leaves it alone. -/
def call (l : Ledger) : Call → Ledger
  | .begin => l.begin.toOption.getD l
  | .rollback => l.rollback.toOption.getD l
  | .commit => l.commit.toOption.getD l
  | .commitThrough k => ((l.commitThrough k).toOption.map Prod.snd).getD l
  | .stage change => (l.stageChange change).2
  | .cancel run now remote => (l.cancel run now remote).2
  | .elsewhere changes =>
    match l.database.writable with
    | .error _ => l
    | .ok t => { l with database := l.database.withTables (Change.applyAll t changes).2 }

def callAll (l : Ledger) (calls : List Call) : Ledger := calls.foldl call l

end Ledger

private theorem Ledger.owned_stageChange (h : l.database.OutputsOwned) (change : Change) :
    (l.stageChange change).2.database.OutputsOwned := by
  by_cases hopen : l.database.transaction.isSome = true
  · obtain ⟨t, x, v, hdb, hview, -, hv⟩ := h.exists_view hopen
    have hnext := h.withView (change.owned_apply hv)
    rw [hdb] at hnext
    rw [stageChange_of_view change hdb hview]
    rcases happly : change.apply v with ⟨_ | staged, v'⟩ <;> rw [happly] at hnext <;> exact hnext
  · have hnone : l.database.transaction.isNone = true := by simpa using hopen
    cases change <;> simpa only [stageChange, save, update, finish, stage, hnone, if_true]

private theorem Ledger.owned_cancel (h : l.database.OutputsOwned) (run : Run) (now : Time.Instant)
    (remote : Deregistration) : (l.cancel run now remote).2.database.OutputsOwned := by
  cases hwritable : l.database.writable with
  | error e =>
    rw [cancel]
    split
    · exact h
    · simpa only [hwritable]
  | ok t =>
    obtain ⟨hopen, ht⟩ := h.of_writable hwritable
    rcases cancel_outcome hopen hwritable run now remote with
      ⟨written, -, hwrite, -, -, hafter, -⟩ | ⟨-, -, hafter, -⟩
    · rw [hafter]
      exact h.withTables ((ht.updateRun hwrite).dropOutput run.jobId)
    · rw [hafter]
      exact h.withTables ht

/-- No call leaves an output without its run. -/
private theorem Ledger.owned_call (h : l.database.OutputsOwned) (c : Call) :
    (l.call c).database.OutputsOwned := by
  cases c with
  | begin =>
    simp only [call, begin]
    split
    · exact h
    · split
      · exact h.begin
      · exact h
  | rollback =>
    simp only [call, rollback]
    split
    · exact h.rollback
    · exact h
  | commit =>
    simp only [call, commit]
    split
    · exact h.commit
    · exact h
  | commitThrough k =>
    rw [call]
    cases hcommit : l.commitThrough k with
    | error e => exact h
    | ok r =>
      have hafter : r.2.database = l.database.commit := database_of_commitThrough hcommit
      change r.2.database.OutputsOwned
      rw [hafter]
      exact h.commit
  | stage change => exact owned_stageChange h change
  | cancel run now remote => exact owned_cancel h run now remote
  | elsewhere changes =>
    rw [call]
    split
    · exact h
    · next hwritable =>
      exact h.withTables (Change.owned_applyAll (h.of_writable hwritable).2 changes)

private theorem Ledger.owned_callAll (h : l.database.OutputsOwned) (calls : List Call) :
    (l.callAll calls).database.OutputsOwned := by
  induction calls generalizing l with
  | nil => exact h
  | cons c calls ih => exact ih (owned_call h c)

private theorem Ledger.owned_fresh : Ledger.fresh.database.OutputsOwned := .of_rest .empty

private theorem Ledger.unchanged_of_withView {x : Store.Transaction}
    (hdb : l.database = ⟨some t, some x, true⟩) (hview : l.database.view = .ok v) :
    let l' := { l with database := l.database.withView v }
    l'.database.view = l.database.view ∧ l'.commit = l.commit ∧
      (∀ k, l'.commitThrough k = l.commitThrough k) ∧ l'.rollback = l.rollback := by
  have hopen : l.database.transaction.isSome = true := by rw [hdb]; rfl
  have hopen' : (l.database.withView v).transaction.isSome = true := rfl
  have hcommit : (l.database.withView v).commit = l.database.commit := by
    rw [hdb] at hview ⊢
    cases x <;> cases hview <;> rfl
  refine ⟨hview.symm, ?_, fun k => ?_, ?_⟩
  · simp only [commit, hopen, hopen', if_true, hcommit]
  · have hsome : l.database.transaction.isNone = false := by rw [hdb]; rfl
    have hsome' : (l.database.withView v).transaction.isNone = false := rfl
    simp only [commitThrough, hsome, hsome', hcommit]
  · simp only [rollback, hopen, hopen', if_true]
    rfl

/-- Whatever was called before: as long as all outputs that an open transaction sees can be read, a
change fails exactly when it is refused, and then the transaction sees what it saw before and comes
to the same when it is committed or rolled back. A run that is not stored is reported as not
found. -/
theorem failed_change_leaves_transaction (calls : List Call) (change : Change)
    (hopen : (Ledger.fresh.callAll calls).database.transaction.isSome = true) :
    let l := Ledger.fresh.callAll calls
    let r := l.stageChange change
    ∃ v, l.database.view = .ok v ∧ ((∀ id, v.OutputReads id) →
      ((∃ e, r.1 = .error e) ↔ change.isRefused v = true) ∧
      ∀ e, r.1 = .error e →
        r.2 = { l with database := l.database.withView v } ∧
        r.2.database.view = l.database.view ∧ r.2.commit = l.commit ∧
        (∀ k, r.2.commitThrough k = l.commitThrough k) ∧ r.2.rollback = l.rollback ∧
        e = .service change.refusal ∧ change.refusal.isNotFound = change.isAboutStored) := by
  intro l r
  obtain ⟨t, x, v, hdb, hview, -, howned⟩ :=
    (Ledger.owned_callAll Ledger.owned_fresh calls).exists_view hopen
  have hstage : r = _ := Ledger.stageChange_of_view change hdb hview
  refine ⟨v, hview, fun hreads => ?_⟩
  by_cases hrefused : change.isRefused v = true
  · rw [Change.apply_of_refused hrefused] at hstage
    have hafter : r.2 = { l with database := l.database.withView v } := by
      rw [hstage, show l.database = _ from hdb]
      rfl
    obtain ⟨hsees, hcommit, hthrough, hrollback⟩ := Ledger.unchanged_of_withView hdb hview
    have herror : r.1 = .error (.service change.refusal) := congrArg Prod.fst hstage
    refine ⟨iff_of_true ⟨_, herror⟩ hrefused, fun e he => ?_⟩
    rw [hafter]
    exact ⟨rfl, hsees, hcommit, hthrough, hrollback, Except.error.inj (he.symm.trans herror),
      change.isNotFound_refusal⟩
  · obtain ⟨staged, t', happly⟩ := Change.exists_apply howned hreads hrefused
    rw [happly] at hstage
    have hok : r.1 = .ok l.staged.length := congrArg Prod.fst hstage
    rw [hok]
    exact ⟨iff_of_false (by simp) hrefused, by simp⟩

def sampleOutput : Run.Output := .ofSuccess (.texts ["done"])

/-- A saved run cannot be saved again, and one that was not saved cannot be ended. -/
theorem sample_changes_leave_transaction :
    let l := Ledger.fresh.callAll [.begin, .stage (.save sampleRun sampleOutput)]
    ∀ change ∈ [Change.save sampleRun sampleOutput, .finish secondRun],
      let r := l.stageChange change
      r.1 = .error (.service change.refusal) ∧ r.2.database.view = l.database.view ∧
        r.2.commit = l.commit ∧ change.refusal.isNotFound = change.isAboutStored := by
  intro l change hchange r
  obtain ⟨v, hview, h⟩ := failed_change_leaves_transaction
    [.begin, .stage (.save sampleRun sampleOutput)] change rfl
  let saved : Tables := { Tables.empty with
    runs := [.ofRun sampleRun]
    outputs := [(sampleRun.jobId.toString, .ofOutput sampleOutput)] }
  obtain rfl : v = saved := (Except.ok.inj hview).symm
  have hreads : ∀ id, saved.OutputReads id := by
    intro id row hrow
    have hwell : sampleOutput.WellFormed := Run.Output.wellFormed_ofSuccess.2 ⟨trivial, trivial⟩
    have hfits : sampleOutput.Fits := Run.Output.fits_ofSuccess.2 (by decide)
    rw [Tables.findOutput?, List.lookup_cons] at hrow
    split at hrow
    · obtain rfl := Option.some.inj hrow
      exact ⟨_, Store.OutputRow.toOutput_ofOutput hwell hfits⟩
    · cases hrow
  have hrefused : change.isRefused saved = true := by
    rcases List.mem_pair.1 hchange with rfl | rfl <;> decide +kernel
  obtain ⟨hfails, hafter⟩ := h hreads
  obtain ⟨e, he⟩ := hfails.2 hrefused
  obtain ⟨-, hsees, hcommit, -, -, rfl, hfound⟩ := hafter e he
  exact ⟨he, hsees, hcommit, hfound⟩

end Service

end RunLedger
