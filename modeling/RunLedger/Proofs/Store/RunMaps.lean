import Mathlib.Data.List.Induction
import Mathlib.Data.Set.List
import RunLedger.Proofs.Store.RunRows
import RunLedger.Store.Database

/-!
The tables of runs and outputs are two maps by the identifier of a run. Calls are grouped in
transactions that are committed or rolled back, one transaction after another. After any such
history the tables hold what the maps hold, every call answers what the maps answer, and the
selections list the map of runs.
-/

set_option autoImplicit false

namespace RunLedger.Store

/-- A call that writes runs or outputs. -/
inductive RunCall where
  | createRun (run : Run)
  | updateRun (run : Run)
  | createOutput (id : Uuid) (output : Run.Output)
  | deleteOutput (id : Uuid)

/-- What a call answers: the output that it took out, if any, or why it failed. -/
abbrev RunAnswer := Except Error (Option Run.Output)

/-- Calls that are made in one transaction, and how it ends. -/
structure Work where
  calls : List RunCall
  commits : Bool

namespace RunCall

/-- No time of a run that is handed over lies in a leap second. -/
def IsOrdinary : RunCall → Prop
  | createRun run => run.IsOrdinary
  | updateRun run => run.IsOrdinary
  | _ => True

/-- Whether the call writes the run of an identifier. -/
def writes (id : Uuid) : RunCall → Bool
  | createRun run => run.jobId = id
  | updateRun run => run.jobId = id
  | _ => false

/-- Calls one after another, each with its answer. -/
def each {State : Type} (call : State → RunCall → RunAnswer × State) (s : State) :
    List RunCall → List (RunCall × RunAnswer) × State
  | [] => ([], s)
  | c :: cs =>
    let rest := each call (call s c).2 cs
    ((c, (call s c).1) :: rest.1, rest.2)

def succeeded (answered : List (RunCall × RunAnswer)) : List RunCall :=
  (answered.filter (·.2.isOk)).map Prod.fst

end RunCall

/-- A state, what every call so far answered, and the calls that succeeded in transactions that were
committed. -/
structure RunHistory (State : Type) where
  state : State
  answers : List RunAnswer
  done : List RunCall

namespace RunHistory

variable {State : Type}

def next (transact : State → Work → List (RunCall × RunAnswer) × State) (h : RunHistory State)
    (w : Work) : RunHistory State :=
  let r := transact h.state w
  ⟨r.2, h.answers ++ r.1.map Prod.snd,
    h.done ++ if w.commits then RunCall.succeeded r.1 else []⟩

/-- The history of transactions, one after the other. -/
def after (transact : State → Work → List (RunCall × RunAnswer) × State) (start : State)
    (works : List Work) : RunHistory State :=
  works.foldl (next transact) ⟨start, [], []⟩

end RunHistory

/-! ### Calls on tables -/

/-- A statement that takes effect or changes nothing. -/
def Tables.settle (t : Tables) : Except Error Tables → RunAnswer × Tables
  | .ok written => (.ok none, written)
  | .error e => (.error e, t)

def Tables.perform (t : Tables) : RunCall → RunAnswer × Tables
  | .createRun run => t.settle (t.insertRun run)
  | .updateRun run => t.settle (t.updateRun run)
  | .createOutput id output => t.settle (t.insertOutput id output)
  | .deleteOutput id => t.removeOutput id

/-- Performs a call on what the open transaction sees. -/
def Database.perform (db : Database) (c : RunCall) : RunAnswer × Database :=
  match db.view with
  | .error e => (.error e, db)
  | .ok t => ((t.perform c).1, db.withView (t.perform c).2)

def Database.transact (db : Database) (w : Work) : List (RunCall × RunAnswer) × Database :=
  let r := RunCall.each perform { db with transaction := some .begun } w.calls
  (r.1, if w.commits then r.2.commit else r.2.rollback)

/-! ### Calls on maps -/

/-- Runs and outputs by the identifier of their run. -/
structure RunMaps where
  runs : Uuid → Option Run
  outputs : Uuid → Option Run.Output

namespace RunMaps

def empty : RunMaps := ⟨fun _ => none, fun _ => none⟩

def putRun (m : RunMaps) (run : Run) : RunMaps :=
  { m with runs := fun id => if id = run.jobId then some run else m.runs id }

def setOutput (m : RunMaps) (id : Uuid) (output : Option Run.Output) : RunMaps :=
  { m with outputs := fun other => if other = id then output else m.outputs other }

/-- A run is put in once and then written over; an output is put in for a stored run that has none,
and comes out as its text is read. -/
def call (m : RunMaps) : RunCall → RunAnswer × RunMaps
  | .createRun run =>
    if (m.runs run.jobId).isSome then (.error (.database .unique), m)
    else (.ok none, m.putRun run.inMillis)
  | .updateRun run =>
    match m.runs run.jobId with
    | none => (.error (.runNotFound run.jobId), m)
    | some old => (.ok none, m.putRun (old.overwritten run))
  | .createOutput id output =>
    if (m.outputs id).isSome then (.error (.database .unique), m)
    else if (m.runs id).isNone then (.error (.database .foreignKey), m)
    else (.ok none, m.setOutput id (some output))
  | .deleteOutput id =>
    ((m.outputs id).mapM fun output => (OutputRow.ofOutput output).toOutput id,
      m.setOutput id none)

def transact (m : RunMaps) (w : Work) : List (RunCall × RunAnswer) × RunMaps :=
  let r := RunCall.each call m w.calls
  (r.1, if w.commits then r.2 else m)

/-- Every run stands under its identifier, in whole milliseconds, and every output has its run. -/
structure Sound (m : RunMaps) : Prop where
  named : ∀ id run, m.runs id = some run → run.jobId = id ∧ run.IsWhole
  owned : ∀ id, (m.outputs id).isSome = true → (m.runs id).isSome = true

/-- The stored runs with a property, each once, the latest first. -/
structure Lists (m : RunMaps) (p : Run → Prop) (runs : List Run) : Prop where
  once : (runs.map (·.jobId)).Nodup
  all : ∀ run, run ∈ runs ↔ m.runs run.jobId = some run ∧ p run
  latestFirst : runs.Pairwise fun a b => b.createdAt.toMillis ≤ a.createdAt.toMillis

end RunMaps

/-- Tables that hold what two maps hold, with one row for each run and one for each output. -/
structure Represents (t : Tables) (m : RunMaps) : Prop where
  sound : m.Sound
  run : ∀ id, t.findRun? id = (m.runs id).map .ofRun
  output : ∀ id, t.findOutput? id = (m.outputs id).map .ofOutput
  oneRun : (t.runs.map (·.jobId)).Nodup
  oneOutput : (t.outputs.map Prod.fst).Nodup
  runRow : ∀ row ∈ t.runs, ∃ run, m.runs run.jobId = some run ∧ row = .ofRun run
  outputRow : ∀ o ∈ t.outputs, ∃ id output, m.outputs id = some output ∧
    o = (id.toString, .ofOutput output)

/-- What is stored of a run, from the calls that succeeded: nothing before its creation; then the
time of its creation and what the last call wrote. -/
inductive Traced (id : Uuid) (done : List RunCall) : Option Run → Prop
  | absent : done.filter (·.writes id) = [] → Traced id done none
  | written (created last : Run) (updates : List Run) :
      done.filter (·.writes id) = .createRun created :: updates.map .updateRun →
      last = updates.getLastD created →
      Traced id done (some ⟨id, last.actionId, last.status, created.createdAt.floorMillis,
        last.finishedAt.map Time.Instant.floorMillis⟩)

variable {t t' : Tables} {m : RunMaps} {run : Run} {id : Uuid} {output : Run.Output} {c : RunCall}
  {done : List RunCall}

/-! ### One call -/

namespace RunMaps

@[simp] theorem runs_putRun (m : RunMaps) (run : Run) (id : Uuid) :
    (m.putRun run).runs id = if id = run.jobId then some run else m.runs id := rfl

@[simp] theorem outputs_putRun (m : RunMaps) (run : Run) : (m.putRun run).outputs = m.outputs := rfl

@[simp] theorem runs_setOutput (m : RunMaps) (id : Uuid) (output : Option Run.Output) :
    (m.setOutput id output).runs = m.runs := rfl

@[simp] theorem outputs_setOutput (m : RunMaps) (id other : Uuid) (output : Option Run.Output) :
    (m.setOutput id output).outputs other = if other = id then output else m.outputs other := rfl

private theorem Sound.putRun (h : m.Sound) (hrun : run.IsWhole) : (m.putRun run).Sound := by
  refine ⟨?_, ?_⟩
  · intro id stored hstored
    rw [runs_putRun] at hstored
    split at hstored
    · next hid =>
      obtain rfl := Option.some.inj hstored
      exact ⟨hid.symm, hrun⟩
    · exact h.named id stored hstored
  · intro id hid
    rw [runs_putRun]
    split
    · rfl
    · exact h.owned id hid

theorem Sound.setOutput {output : Option Run.Output} (h : m.Sound)
    (howner : output.isSome = true → (m.runs id).isSome = true) :
    (m.setOutput id output).Sound := by
  refine ⟨h.named, ?_⟩
  intro other hother
  rw [outputs_setOutput] at hother
  split at hother
  · next hid =>
    rw [hid]
    exact howner hother
  · exact h.owned other hother

end RunMaps

namespace Represents

theorem empty : Represents .empty .empty where
  sound := ⟨fun _ run h => absurd h (Option.some_ne_none run).symm, fun _ h => Bool.noConfusion h⟩
  run := fun _ => rfl
  output := fun _ => rfl
  oneRun := List.nodup_nil
  oneOutput := List.nodup_nil
  runRow := fun _ hrow => absurd hrow List.not_mem_nil
  outputRow := fun _ ho => absurd ho List.not_mem_nil

theorem insertRun (h : Represents t m) (hrun : run.IsOrdinary)
    (hinsert : t.insertRun run = .ok t') : Represents t' (m.putRun run.inMillis) := by
  have hfind := Tables.findRun?_insertRun hinsert
  have hfindOutput := Tables.findOutput?_insertRun hinsert
  obtain ⟨hnew, rfl⟩ := Tables.insertRun_eq_ok_iff.1 hinsert
  have habsent : m.runs run.jobId = none := by
    rw [h.run] at hnew
    exact Option.map_eq_none_iff.1 hnew
  refine ⟨h.sound.putRun hrun.inMillis_isWhole, ?_, ?_, ?_, h.oneOutput, ?_, h.outputRow⟩
  · intro id
    rw [hfind, h.run, RunMaps.runs_putRun]
    change _ = Option.map _ (if id = run.jobId then _ else _)
    split
    · rw [Option.map_some, RunRow.ofRun_inMillis hrun]
    · rfl
  · intro id
    rw [hfindOutput, h.output, RunMaps.outputs_putRun]
  · rw [List.map_append, List.map_singleton, List.nodup_append]
    refine ⟨h.oneRun, List.nodup_singleton _, ?_⟩
    intro key hkey key' hkey'
    obtain ⟨row, hrow, rfl⟩ := List.mem_map.1 hkey
    rw [List.mem_singleton.1 hkey']
    exact of_decide_eq_false (Bool.eq_false_iff.2 (List.find?_eq_none.1 hnew row hrow))
  · intro row hrow
    rcases List.mem_append.1 hrow with hrow | hrow
    · obtain ⟨old, hold, rfl⟩ := h.runRow row hrow
      have hother : old.jobId ≠ run.inMillis.jobId := by
        intro hid
        rw [hid] at hold
        cases habsent.symm.trans hold
      exact ⟨old, by rw [RunMaps.runs_putRun, if_neg hother, hold], rfl⟩
    · rw [List.mem_singleton.1 hrow]
      exact ⟨run.inMillis, if_pos rfl, (RunRow.ofRun_inMillis hrun).symm⟩

theorem updateRun {old : Run} (h : Represents t m) (hrun : run.IsOrdinary)
    (hold : m.runs run.jobId = some old) (hwrite : t.updateRun run = .ok t') :
    Represents t' (m.putRun (old.overwritten run)) := by
  obtain ⟨hjob, hwhole⟩ := h.sound.named _ _ hold
  have hruns := Tables.runs_updateRun hwrite
  obtain ⟨-, -, houtputs⟩ := Tables.updateRun_frame hwrite
  refine ⟨h.sound.putRun (hrun.overwritten_isWhole hwhole), ?_, ?_, ?_, ?_, ?_, ?_⟩
  · intro id
    rw [Tables.findRun?_updateRun hwrite, h.run, RunMaps.runs_putRun]
    change _ = Option.map _ (if id = run.jobId then _ else _)
    split
    · next hid =>
      rw [hid, hold, Option.map_some, Option.map_some, Option.map_some,
        RunRow.overwritten_ofRun hrun hjob]
    · rfl
  · intro id
    rw [Tables.findOutput?_updateRun hwrite, h.output, RunMaps.outputs_putRun]
  · have hkeys : t'.runs.map (·.jobId) = t.runs.map (·.jobId) := by
      rw [hruns, List.map_map]
      apply List.map_congr_left
      intro row _
      simp only [Function.comp_apply]
      split <;> rfl
    rw [hkeys]
    exact h.oneRun
  · rw [houtputs]
    exact h.oneOutput
  · intro row hrow
    rw [hruns] at hrow
    obtain ⟨before, hbefore, rfl⟩ := List.mem_map.1 hrow
    obtain ⟨stored, hstored, rfl⟩ := h.runRow before hbefore
    by_cases hsame : stored.jobId = run.jobId
    · obtain rfl : old = stored := by
        rw [hsame, hold] at hstored
        exact Option.some.inj hstored
      refine ⟨old.overwritten run, if_pos rfl, ?_⟩
      rw [← RunRow.overwritten_ofRun hrun hjob]
      exact if_pos (congrArg Uuid.toString hsame)
    · refine ⟨stored, (if_neg hsame).trans hstored, ?_⟩
      exact if_neg fun hkey => hsame (Uuid.toString_injective hkey)
  · rw [houtputs]
    exact h.outputRow

theorem insertOutput (h : Represents t m) (hinsert : t.insertOutput id output = .ok t') :
    Represents t' (m.setOutput id (some output)) := by
  have hfind := Tables.findRun?_insertOutput hinsert
  have hfindOutput := Tables.findOutput?_insertOutput hinsert
  obtain ⟨hnew, hrun, rfl⟩ := Tables.insertOutput_eq_ok_iff.1 hinsert
  have habsent : m.outputs id = none := by
    rw [h.output] at hnew
    exact Option.map_eq_none_iff.1 hnew
  rw [h.run, Option.isSome_map] at hrun
  refine ⟨h.sound.setOutput fun _ => hrun, ?_, ?_, h.oneRun, ?_, h.runRow, ?_⟩
  · intro other
    rw [hfind, h.run, RunMaps.runs_setOutput]
  · intro other
    rw [hfindOutput, h.output, RunMaps.outputs_setOutput]
    split <;> rfl
  · rw [List.map_append, List.map_singleton, List.nodup_append]
    refine ⟨h.oneOutput, List.nodup_singleton _, ?_⟩
    intro key hkey key' hkey' hsame
    obtain ⟨o, ho, rfl⟩ := List.mem_map.1 hkey
    obtain ⟨other, stored, hstored, rfl⟩ := h.outputRow o ho
    rw [List.mem_singleton.1 hkey'] at hsame
    rw [Uuid.toString_injective hsame, habsent] at hstored
    cases hstored
  · intro o ho
    rcases List.mem_append.1 ho with ho | ho
    · obtain ⟨other, stored, hstored, rfl⟩ := h.outputRow o ho
      have hother : other ≠ id := by
        rintro rfl
        cases habsent.symm.trans hstored
      exact ⟨other, stored, (if_neg hother).trans hstored, rfl⟩
    · exact ⟨id, output, if_pos rfl, List.mem_singleton.1 ho⟩

theorem dropOutput (h : Represents t m) (id : Uuid) :
    Represents (t.dropOutput id) (m.setOutput id none) := by
  refine ⟨h.sound.setOutput nofun, h.run, ?_, h.oneRun, ?_, h.runRow, ?_⟩
  · intro other
    rw [Tables.findOutput?_dropOutput, h.output, RunMaps.outputs_setOutput]
    split <;> rfl
  · exact h.oneOutput.sublist (List.filter_sublist.map Prod.fst)
  · intro o ho
    obtain ⟨hmem, hkey⟩ := List.mem_filter.1 ho
    obtain ⟨other, stored, hstored, rfl⟩ := h.outputRow o hmem
    have hother : other ≠ id := by
      rintro rfl
      simp at hkey
    exact ⟨other, stored, (if_neg hother).trans hstored, rfl⟩

theorem perform (h : Represents t m) (hc : c.IsOrdinary) :
    (t.perform c).1 = (m.call c).1 ∧ Represents (t.perform c).2 (m.call c).2 := by
  cases c with
  | createRun run =>
    have hrow := h.run run.jobId
    cases hstored : m.runs run.jobId with
    | some old =>
      rw [hstored] at hrow
      simp only [Tables.perform, Tables.insertRun, hrow, RunMaps.call, hstored]
      exact ⟨rfl, h⟩
    | none =>
      rw [hstored] at hrow
      have hinsert := Tables.insertRun_eq_ok_iff.2 ⟨hrow, rfl⟩
      simp only [Tables.perform, hinsert, RunMaps.call, hstored]
      exact ⟨rfl, h.insertRun hc hinsert⟩
  | updateRun run =>
    have hrow := h.run run.jobId
    cases hstored : m.runs run.jobId with
    | none =>
      rw [hstored] at hrow
      simp only [Tables.perform, Tables.updateRun_eq_error hrow, RunMaps.call, hstored]
      exact ⟨rfl, h⟩
    | some old =>
      rw [hstored] at hrow
      obtain ⟨written, hwrite⟩ := (t.exists_updateRun_iff run).2 (by rw [hrow]; rfl)
      simp only [Tables.perform, hwrite, RunMaps.call, hstored]
      exact ⟨rfl, h.updateRun hc hstored hwrite⟩
  | createOutput id output =>
    have hrow := h.output id
    have hrun := h.run id
    cases hstored : m.outputs id with
    | some old =>
      rw [hstored] at hrow
      simp only [Tables.perform, Tables.insertOutput, hrow, RunMaps.call, hstored]
      exact ⟨rfl, h⟩
    | none =>
      rw [hstored] at hrow
      cases howner : m.runs id with
      | none =>
        rw [howner] at hrun
        simp only [Tables.perform, Tables.insertOutput, hrow, hrun, RunMaps.call, hstored, howner]
        exact ⟨rfl, h⟩
      | some owner =>
        rw [howner] at hrun
        have hinsert := @Tables.insertOutput_eq_ok_iff t _ id output |>.2
          ⟨hrow, by rw [hrun]; rfl, rfl⟩
        simp only [Tables.perform, hinsert, RunMaps.call, hstored, howner]
        exact ⟨rfl, h.insertOutput hinsert⟩
  | deleteOutput id =>
    refine ⟨?_, h.dropOutput id⟩
    change (t.findOutput? id).mapM _ = (m.outputs id).mapM _
    rw [h.output]
    cases m.outputs id <;> rfl

end Represents

/-! ### Transactions -/

/-- An open transaction over committed tables, and the tables that it sees. -/
def Database.Sees (db : Database) (committed t : Tables) : Prop :=
  ∃ x, db = ⟨some committed, some x, true⟩ ∧ db.view = .ok t

namespace Database.Sees

variable {db : Database} {committed : Tables}

theorem perform (h : db.Sees committed t) (c : RunCall) :
    (db.perform c).1 = (t.perform c).1 ∧ (db.perform c).2.Sees committed (t.perform c).2 := by
  obtain ⟨x, rfl, hview⟩ := h
  simp only [Database.perform, hview]
  exact ⟨trivial, _, rfl, rfl⟩

theorem commit (h : db.Sees committed t) : db.commit = ⟨some t, none, true⟩ := by
  obtain ⟨x, rfl, hview⟩ := h
  cases x with
  | begun =>
    cases hview
    rfl
  | writing view =>
    cases hview
    rfl

theorem rollback (h : db.Sees committed t) : db.rollback = ⟨some committed, none, true⟩ := by
  obtain ⟨x, rfl, -⟩ := h
  rfl

theorem each (h : db.Sees committed t) (hmaps : Represents t m) {cs : List RunCall}
    (hcs : ∀ c ∈ cs, c.IsOrdinary) :
    (RunCall.each Database.perform db cs).1 = (RunCall.each RunMaps.call m cs).1 ∧
      ∃ t', (RunCall.each Database.perform db cs).2.Sees committed t' ∧
        Represents t' (RunCall.each RunMaps.call m cs).2 := by
  induction cs generalizing db t m with
  | nil => exact ⟨rfl, t, h, hmaps⟩
  | cons c cs ih =>
    obtain ⟨hanswer, hnext⟩ := h.perform c
    obtain ⟨hsame, hmaps'⟩ := hmaps.perform (hcs c List.mem_cons_self)
    obtain ⟨hrest, t', hsees, hrep⟩ := ih hnext hmaps' fun c' hc' =>
      hcs c' (List.mem_cons_of_mem c hc')
    refine ⟨?_, t', hsees, hrep⟩
    rw [RunCall.each, RunCall.each, hanswer, hsame, hrest]

end Database.Sees

/-- A transaction answers what the maps answer. Once it is over, the committed tables are what the
maps hold. -/
theorem Represents.transact (h : Represents t m) {w : Work} (hw : ∀ c ∈ w.calls, c.IsOrdinary) :
    let db : Database := ⟨some t, none, true⟩
    (db.transact w).1 = (m.transact w).1 ∧
      ∃ t', (db.transact w).2 = ⟨some t', none, true⟩ ∧ Represents t' (m.transact w).2 := by
  intro db
  have hbegun : ({ db with transaction := some .begun } : Database).Sees t t := ⟨_, rfl, rfl⟩
  obtain ⟨hanswers, t', hsees, hrep⟩ := hbegun.each h hw
  refine ⟨hanswers, ?_⟩
  by_cases hends : w.commits = true
  · refine ⟨t', ?_, ?_⟩
    · rw [Database.transact, if_pos hends, hsees.commit]
    · rw [RunMaps.transact, if_pos hends]
      exact hrep
  · refine ⟨t, ?_, ?_⟩
    · rw [Database.transact, if_neg hends, hsees.rollback]
    · rw [RunMaps.transact, if_neg hends]
      exact h

/-- A history of the database that answered as a history of the maps, and its tables. -/
structure Simulates (h : RunHistory Database) (a : RunHistory RunMaps) (t : Tables) : Prop where
  state : h.state = ⟨some t, none, true⟩
  answers : h.answers = a.answers
  done : h.done = a.done
  maps : Represents t a.state

theorem Simulates.next {h : RunHistory Database} {a : RunHistory RunMaps} {w : Work}
    (hsim : Simulates h a t) (hw : ∀ c ∈ w.calls, c.IsOrdinary) :
    ∃ t', Simulates (h.next Database.transact w) (a.next RunMaps.transact w) t' := by
  obtain ⟨hstate, hanswers, hdone, hmaps⟩ := hsim
  obtain ⟨hsame, t', hafter, hmaps'⟩ := hmaps.transact hw
  rw [← hstate] at hsame hafter
  refine ⟨t', hafter, ?_, ?_, hmaps'⟩
  · rw [RunHistory.next, RunHistory.next, hanswers, hsame]
  · rw [RunHistory.next, RunHistory.next, hdone, hsame]

private theorem exists_simulates {works : List Work}
    (hworks : ∀ w ∈ works, ∀ c ∈ w.calls, c.IsOrdinary) :
    ∃ t, Simulates (.after Database.transact .migrated works) (.after RunMaps.transact .empty works)
      t := by
  induction works using List.reverseRecOn with
  | nil => exact ⟨.empty, rfl, rfl, rfl, .empty⟩
  | append_singleton works w ih =>
    obtain ⟨t, hsim⟩ := ih fun w' hw' => hworks w' (List.mem_append_left _ hw')
    simp only [RunHistory.after, List.foldl_append, List.foldl_cons, List.foldl_nil] at hsim ⊢
    exact hsim.next (hworks w (by simp))

/-! ### The calls that succeeded -/

private theorem succeeded_cons (c : RunCall) (answer : RunAnswer)
    (answered : List (RunCall × RunAnswer)) :
    RunCall.succeeded ((c, answer) :: answered) =
      (if answer.isOk then [c] else []) ++ RunCall.succeeded answered := by
  unfold RunCall.succeeded
  cases hok : answer.isOk <;> simp [hok]

theorem Traced.append {r : Option Run} (h : Traced id done r) {more : List RunCall}
    (hmore : more.filter (·.writes id) = []) : Traced id (done ++ more) r := by
  cases h with
  | absent hnone => exact .absent (by rw [List.filter_append, hnone, hmore]; rfl)
  | written created last updates hdone hlast =>
    refine .written created last updates ?_ hlast
    rw [List.filter_append, hdone, hmore, List.append_nil]

theorem Traced.call (h : ∀ id, Traced id done (m.runs id)) (c : RunCall) (id : Uuid) :
    Traced id (done ++ if (m.call c).1.isOk then [c] else []) ((m.call c).2.runs id) := by
  have hskip : ∀ more : List RunCall, more.filter (·.writes id) = [] →
      Traced id (done ++ more) (m.runs id) := fun more hmore => (h id).append hmore
  cases c with
  | createRun run =>
    cases hstored : m.runs run.jobId with
    | some old =>
      simp only [RunMaps.call, hstored]
      exact hskip [] rfl
    | none =>
      simp only [RunMaps.call, hstored]
      change Traced id (done ++ [.createRun run]) (if id = run.jobId then some run.inMillis else _)
      split
      · next hid =>
        have hnone := h id
        rw [hid, hstored] at hnone
        obtain ⟨hnone⟩ := hnone
        rw [hid]
        refine .written run run [] ?_ rfl
        rw [List.filter_append, hnone]
        simp [RunCall.writes]
      · next hid => exact hskip _ (by simp [RunCall.writes, Ne.symm hid])
  | updateRun run =>
    cases hstored : m.runs run.jobId with
    | none =>
      simp only [RunMaps.call, hstored]
      exact hskip [] rfl
    | some old =>
      simp only [RunMaps.call, hstored]
      change Traced id (done ++ [.updateRun run])
        (if id = run.jobId then some (old.overwritten run) else _)
      split
      · next hid =>
        have hold := h id
        rw [hid, hstored] at hold
        cases hold with
        | written created last updates hdone hlast =>
          rw [hid]
          refine .written created run (updates ++ [run]) ?_ (by simp)
          rw [List.filter_append, hdone]
          simp [RunCall.writes]
      · next hid => exact hskip _ (by simp [RunCall.writes, Ne.symm hid])
  | createOutput other output =>
    have hruns : (m.call (.createOutput other output)).2.runs = m.runs := by
      simp only [RunMaps.call]
      split
      · rfl
      · split <;> rfl
    rw [hruns]
    exact hskip _ (by split <;> rfl)
  | deleteOutput other => exact hskip _ (by split <;> rfl)

theorem Traced.each (h : ∀ id, Traced id done (m.runs id)) (cs : List RunCall) (id : Uuid) :
    Traced id (done ++ RunCall.succeeded (RunCall.each RunMaps.call m cs).1)
      ((RunCall.each RunMaps.call m cs).2.runs id) := by
  induction cs generalizing m done with
  | nil =>
    rw [RunCall.each, RunCall.succeeded, List.filter_nil, List.map_nil, List.append_nil]
    exact h id
  | cons c cs ih =>
    rw [RunCall.each, succeeded_cons, ← List.append_assoc]
    exact ih (Traced.call h c)

private theorem traced_after (works : List Work) (id : Uuid) :
    Traced id (RunHistory.after RunMaps.transact .empty works).done
      ((RunHistory.after RunMaps.transact .empty works).state.runs id) := by
  induction works using List.reverseRecOn generalizing id with
  | nil => exact .absent rfl
  | append_singleton works w ih =>
    simp only [RunHistory.after, List.foldl_append, List.foldl_cons, List.foldl_nil] at ih ⊢
    rw [RunHistory.next, RunMaps.transact]
    by_cases hends : w.commits = true
    · rw [if_pos hends, if_pos hends]
      exact Traced.each ih w.calls id
    · rw [if_neg hends, if_neg hends, List.append_nil]
      exact ih id

private theorem RunHistory.exists_done {State : Type}
    (transact : State → Work → List (RunCall × RunAnswer) × State) (h : RunHistory State)
    (works : List Work) : ∃ more, (works.foldl (next transact) h).done = h.done ++ more := by
  induction works generalizing h with
  | nil => exact ⟨[], (List.append_nil _).symm⟩
  | cons w works ih =>
    obtain ⟨more, hmore⟩ := ih (h.next transact w)
    rw [next, List.append_assoc] at hmore
    exact ⟨_, hmore⟩

private theorem Traced.stays {more : List RunCall} {r : Option Run} (h : Traced id done (some run))
    (hlater : Traced id (done ++ more) r) :
    ∃ later, r = some later ∧ later.createdAt = run.createdAt := by
  cases h with
  | written created last updates hdone hlast =>
    cases hlater with
    | absent hnone =>
      rw [List.filter_append, hdone] at hnone
      cases hnone
    | written created' last' updates' hdone' hlast' =>
      rw [List.filter_append, hdone, List.cons_append] at hdone'
      obtain rfl : created = created' := RunCall.createRun.inj (List.cons.inj hdone').1
      exact ⟨_, rfl, rfl⟩

/-! ### What is read -/

namespace Represents

private theorem run?_eq (h : Represents t m) (id : Uuid) : t.run? id = .ok (m.runs id) := by
  unfold Tables.run?
  rw [h.run]
  cases hstored : m.runs id with
  | none => rfl
  | some run =>
    have hwhole : ∀ stored ∈ [run], stored.IsWhole := by
      intro stored hmem
      rw [List.mem_singleton.1 hmem]
      exact (h.sound.named id run hstored).2
    change (RunRow.toRuns ([run].map .ofRun)).map List.head? = _
    rw [RunRow.toRuns_map_ofRun hwhole]
    rfl

private theorem exists_runs (h : Represents t m) :
    ∃ runs : List Run, t.runs = runs.map .ofRun ∧ (runs.map (·.jobId)).Nodup ∧
      ∀ run, run ∈ runs ↔ m.runs run.jobId = some run := by
  let row (run : { run : Run // m.runs run.jobId = some run }) : RunRow := .ofRun run.1
  have hrows : t.runs ∈ Set.range (List.map row) := by
    rw [Set.range_list_map]
    intro r hr
    obtain ⟨run, hrun, rfl⟩ := h.runRow r hr
    exact ⟨⟨run, hrun⟩, rfl⟩
  obtain ⟨stored, hstored⟩ := hrows
  have hruns : t.runs = (stored.map Subtype.val).map .ofRun := by
    rw [← hstored, List.map_map]
    rfl
  refine ⟨stored.map Subtype.val, hruns, ?_, ?_⟩
  · have hone := h.oneRun
    rw [hruns, List.map_map] at hone
    refine List.Nodup.of_map Uuid.toString ?_
    rw [List.map_map]
    exact hone
  · intro run
    constructor
    · intro hrun
      obtain ⟨⟨r, hr⟩, -, rfl⟩ := List.mem_map.1 hrun
      exact hr
    · intro hrun
      have hrow : RunRow.ofRun run ∈ t.runs := by
        refine List.mem_of_find?_eq_some (p := fun row => row.jobId = run.jobId.toString) ?_
        exact (h.run run.jobId).trans (by rw [hrun]; rfl)
      rw [hruns] at hrow
      obtain ⟨other, hother, hsame⟩ := List.mem_map.1 hrow
      obtain ⟨⟨r, hr⟩, -, rfl⟩ := List.mem_map.1 hother
      have hjob : r.jobId = run.jobId := Uuid.toString_injective (congrArg RunRow.jobId hsame)
      rw [hjob, hrun] at hr
      rwa [Option.some.inj hr]

private theorem exists_lists (h : Represents t m) {p : RunRow → Bool} {q : Run → Prop}
    (hpq : ∀ run, p (.ofRun run) = true ↔ q run) :
    ∃ runs, RunRow.toRuns ((t.runs.filter p).mergeSort Tables.comesFirst) = .ok runs ∧
      m.Lists q runs := by
  obtain ⟨runs, hruns, hone, hall⟩ := h.exists_runs
  have hwhole : ∀ run ∈ runs.filter (p ∘ .ofRun), run.IsWhole := fun run hrun =>
    (h.sound.named _ run ((hall run).1 (List.mem_filter.1 hrun).1)).2
  obtain ⟨sorted, hread, hperm, hsorted⟩ := Tables.toRuns_mergeSort hwhole
  refine ⟨sorted, ?_, ?_, ?_, hsorted⟩
  · rw [hruns, List.filter_map]
    exact hread
  · exact ((hperm.map _).nodup_iff).2 (hone.sublist (List.filter_sublist.map _))
  · intro run
    rw [hperm.mem_iff, List.mem_filter, hall]
    exact and_congr_right fun _ => hpq run

end Represents

private theorem Tables.perform_eq_error {e : Error} (h : (t.perform c).1 = .error e) :
    (t.perform c).2 = t ∨ ∃ id row, c = .deleteOutput id ∧ t.findOutput? id = some row ∧
      (∀ output, row.toOutput id ≠ .ok output) ∧ (t.perform c).2 = t.dropOutput id := by
  have hsettle : ∀ r, (t.settle r).1 = .error e → (t.settle r).2 = t := by
    rintro (e' | written) hr
    · rfl
    · cases hr
  cases c with
  | createRun run => exact .inl (hsettle _ h)
  | updateRun run => exact .inl (hsettle _ h)
  | createOutput id output => exact .inl (hsettle _ h)
  | deleteOutput id =>
    change (t.findOutput? id).mapM (·.toOutput id) = .error e at h
    cases hrow : t.findOutput? id with
    | none =>
      rw [hrow] at h
      cases h
    | some row =>
      refine .inr ⟨id, row, rfl, hrow, ?_, rfl⟩
      intro output houtput
      rw [hrow, Option.mapM_some, houtput] at h
      cases h

/-! ### The two maps -/

/-- After any history of transactions every call answered what two maps would have answered, and the
tables hold what the maps hold: one row for each run, one for each output, and no output without its
run. A run stays stored, created when its one creation said, with action, status and end of the
last write that was committed. The selections read the map of runs, and a call that fails leaves the
tables alone. -/
theorem run_tables_are_two_maps (works more : List Work)
    (hordinary : ∀ w ∈ works ++ more, ∀ c ∈ w.calls, c.IsOrdinary) :
    let h := RunHistory.after Database.transact .migrated works
    let a := RunHistory.after RunMaps.transact .empty works
    ∃ t t', h.state = ⟨some t, none, true⟩ ∧
      (RunHistory.after Database.transact .migrated (works ++ more)).state =
        ⟨some t', none, true⟩ ∧
      h.answers = a.answers ∧ Represents t a.state ∧
      (∀ id, t.run? id = .ok (a.state.runs id)) ∧
      (∃ runs, t.allRuns = .ok runs ∧ a.state.Lists (fun _ => True) runs) ∧
      (∀ actionId, ∃ runs, t.runsByAction actionId = .ok runs ∧
        a.state.Lists (·.actionId = actionId) runs) ∧
      (∀ id, ∃ r, t.run? id = .ok r ∧ Traced id h.done r) ∧
      (∀ id run, t.run? id = .ok (some run) →
        ∃ later, t'.run? id = .ok (some later) ∧ later.createdAt = run.createdAt) ∧
      ∀ (v : Tables) c e, (v.perform c).1 = .error e →
        (v.perform c).2 = v ∨ ∃ id row, c = .deleteOutput id ∧ v.findOutput? id = some row ∧
          (∀ output, row.toOutput id ≠ .ok output) ∧ (v.perform c).2 = v.dropOutput id := by
  intro h a
  obtain ⟨t, hsim⟩ := exists_simulates fun w hw => hordinary w (List.mem_append_left more hw)
  obtain ⟨t', hsim'⟩ := exists_simulates hordinary
  have hmaps : Represents t a.state := hsim.maps
  obtain ⟨added, hadded⟩ := a.exists_done RunMaps.transact more
  refine ⟨t, t', hsim.state, hsim'.state, hsim.answers, hmaps, hmaps.run?_eq, ?_, ?_, ?_, ?_,
    fun v c e => v.perform_eq_error⟩
  · obtain ⟨runs, hread, hlists⟩ := hmaps.exists_lists (p := fun _ => true) (q := fun _ => True)
      fun _ => iff_of_true rfl trivial
    refine ⟨runs, ?_, hlists⟩
    rw [Tables.allRuns, ← hread, List.filter_true]
  · intro actionId
    refine hmaps.exists_lists fun run => ?_
    rw [decide_eq_true_iff]
    exact ⟨Uuid.toString_injective, congrArg Uuid.toString⟩
  · intro id
    refine ⟨_, hmaps.run?_eq id, ?_⟩
    rw [hsim.done]
    exact traced_after works id
  · intro id run hrun
    rw [hmaps.run?_eq, Except.ok.injEq] at hrun
    have hnow : Traced id a.done (some run) := hrun ▸ traced_after works id
    have hlater := traced_after (works ++ more) id
    simp only [RunHistory.after, List.foldl_append] at hlater
    change Traced id (more.foldl _ a).done _ at hlater
    rw [hadded] at hlater
    obtain ⟨later, hstored, hcreated⟩ := hnow.stays hlater
    refine ⟨later, ?_, hcreated⟩
    rw [hsim'.maps.run?_eq, ← hstored]
    simp only [RunHistory.after, List.foldl_append]

def sampleId : Uuid := ⟨⟨List.replicate 16 0x55, rfl⟩⟩

def sampleRun : Run := .new sampleId default ⟨1, 1500000, by decide⟩

/-- The same run, as it is written when it ends. It says of itself that it began later. -/
def sampleEnd : Run := (Run.new sampleId default ⟨5, 0, by decide⟩).finish .failed ⟨6, 0, by decide⟩

/-- A transaction with three calls that are refused, one that is rolled back and one that writes the
end. -/
def sampleWorks : List Work :=
  [⟨[.createRun sampleRun, .createRun sampleEnd, .createOutput sampleId (.ofSuccess .null),
      .createOutput sampleId (.ofFailure .null), .createOutput default (.ofSuccess .null)], true⟩,
    ⟨[.updateRun (sampleRun.cancel .epoch), .deleteOutput sampleId], false⟩,
    ⟨[.updateRun sampleEnd], true⟩]

/-- The run is as its creation and its end say together, and its output is still there. -/
theorem sample_tables_are_two_maps :
    (∀ w ∈ sampleWorks ++ [], ∀ c ∈ w.calls, c.IsOrdinary) ∧
      let h := RunHistory.after Database.transact .migrated sampleWorks
      h.answers.map (·.isOk) = [true, false, true, false, false, true, true, true] ∧
      ∃ t, h.state = ⟨some t, none, true⟩ ∧
        t.run? sampleId = .ok (some { sampleEnd with createdAt := ⟨1, 1000000, by decide⟩ }) ∧
        t.findOutput? sampleId = some (.ofOutput (.ofSuccess .null)) := by
  have hordinary : ∀ w ∈ sampleWorks ++ [], ∀ c ∈ w.calls, c.IsOrdinary := by
    simp [sampleWorks, RunCall.IsOrdinary, Run.IsOrdinary, sampleRun, sampleEnd, Run.new,
      Run.finish, Run.cancel, Time.Instant.epoch, Time.second]
  obtain ⟨t, -, hstate, -, hanswers, hmaps, hruns, -⟩ :=
    run_tables_are_two_maps sampleWorks [] hordinary
  refine ⟨hordinary, ?_, t, hstate, ?_, ?_⟩
  · rw [hanswers]
    decide +kernel
  · rw [hruns]
    have hstored : (RunHistory.after RunMaps.transact .empty sampleWorks).state.runs sampleId =
        some { sampleEnd with createdAt := ⟨1, 1000000, by decide⟩ } := by
      decide +kernel
    rw [hstored]
  · rw [hmaps.output]
    rfl

end RunLedger.Store
