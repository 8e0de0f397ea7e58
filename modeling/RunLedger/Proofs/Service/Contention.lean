import RunLedger.Command.Execution
import RunLedger.Proofs.Service.Delivery

/-!
Two clients that are after one run: the command that cancels it, and a client that ends it in a
transaction. Each reads the run first and writes later, and their turns may fall in any order. The
command stops when the run that it reads has come to its end; what it writes after that, and what
the other client writes, does not look at the status that is stored by then. So the last to commit
decides what is stored, and both may announce their end of the run.
-/

set_option autoImplicit false

namespace RunLedger.Service

open RunLedger.Store (Stamp Tables)

/-- The two clients: when the command cancels the run and what the orchestrator makes of that, and
how and when the run came to its end for the other client. -/
structure Contenders where
  job : Uuid
  cancelledAt : Time.Instant
  remote : Deregistration
  status : Run.Status
  isFinished : status.isFinished = true
  finishedAt : Time.Instant

/-- How far the command has come. -/
inductive Cancelling where
  | idle
  | seen (run : Run)
  /-- Its statements are written and no other writer is let in; the orchestrator is asked. -/
  | holding (run : Run)
  | stopped

/-- Whether the command keeps other writers out. -/
def Cancelling.isHolding : Cancelling → Bool
  | .holding _ => true
  | _ => false

/-- How far the client that ends the run has come. -/
inductive Finishing where
  | idle
  | seen (run : Run)
  | begun (run : Run)
  | staged (k : Nat)
  | stopped

/-- Both clients at one database. -/
structure Contest where
  ledger : Ledger
  cancelling : Cancelling
  finishing : Finishing

inductive Turn where
  | look
  | hold
  | settle
  | read
  | begin
  | write
  | commit

namespace Contest

def onLedger (l : Ledger) : Contest := ⟨l, .idle, .idle⟩

/-- The command reads the run, and stops when it has come to its end. -/
def look (p : Contenders) (c : Contest) : Contest :=
  match c.cancelling with
  | .idle =>
    match getRun c.ledger.database p.job with
    | .error _ => { c with cancelling := .stopped }
    | .ok run => { c with cancelling := if run.status.isFinished then .stopped else .seen run }
  | _ => c

/-- The command begins to write; it waits while the other client is writing. -/
def hold (c : Contest) : Contest :=
  match c.cancelling with
  | .seen run =>
    if c.ledger.database.isLocked then c else { c with cancelling := .holding run }
  | _ => c

/-- The orchestrator answers the command, and what was written is kept or dropped. -/
def settle (p : Contenders) (c : Contest) : Contest :=
  match c.cancelling with
  | .holding run =>
    { c with ledger := (c.ledger.cancel run p.cancelledAt p.remote).2, cancelling := .stopped }
  | _ => c

def read (p : Contenders) (c : Contest) : Contest :=
  match c.finishing with
  | .idle =>
    match getRun c.ledger.database p.job with
    | .error _ => { c with finishing := .stopped }
    | .ok run => { c with finishing := .seen run }
  | _ => c

def begin (c : Contest) : Contest :=
  match c.finishing with
  | .seen run =>
    match c.ledger.begin with
    | .error _ => { c with finishing := .stopped }
    | .ok l => { c with ledger := l, finishing := .begun run }
  | _ => c

/-- The other client writes the end of the run as it read it; it waits while the command is
writing. -/
def write (p : Contenders) (c : Contest) : Contest :=
  match c.finishing with
  | .begun run =>
    if c.cancelling.isHolding then c
    else
      match c.ledger.finish (run.finish p.status p.finishedAt) with
      | (.error _, l) => { c with ledger := l.abandon, finishing := .stopped }
      | (.ok k, l) => { c with ledger := l, finishing := .staged k }
  | _ => c

def commit (c : Contest) : Contest :=
  match c.finishing with
  | .staged k =>
    match c.ledger.commitThrough k with
    | .error _ => { c with ledger := c.ledger.abandon, finishing := .stopped }
    | .ok (_, l) => { c with ledger := l, finishing := .stopped }
  | _ => c

/-- One turn. A client whose turn it is not leaves everything as it is. -/
def turn (p : Contenders) (c : Contest) : Turn → Contest
  | .look => c.look p
  | .hold => c.hold
  | .settle => c.settle p
  | .read => c.read p
  | .begin => c.begin
  | .write => c.write p
  | .commit => c.commit

/-- Turns one after another. A client that gives up makes no further turns. -/
def play (p : Contenders) (c : Contest) (turns : List Turn) : Contest := turns.foldl (turn p) c

def news (l : Ledger) (c : Contest) : List Announcement :=
  c.ledger.announced.drop l.announced.length

theorem play_append (p : Contenders) (c : Contest) (turns later : List Turn) :
    c.play p (turns ++ later) = (c.play p turns).play p later :=
  List.foldl_append

end Contest

def finishOf? (t : Tables) (id : Uuid) : Option (String × Option Stamp) :=
  (t.findRun? id).map fun row => (row.status, row.finishedAt)

def Ledger.finishOf? (l : Ledger) (id : Uuid) : Option (String × Option Stamp) :=
  l.database.committed.bind (Service.finishOf? · id)

namespace Contenders

/-- What each of the two announces when it has committed. -/
def Announces (p : Contenders) (a : Announcement) : Prop :=
  a = .cancelled p.job ∨ ∃ output, a = .ended p.job p.status output

/-- Status and end as the one writes them who announces `a`. -/
def finishOf (p : Contenders) (a : Announcement) : String × Option Stamp :=
  match a.kind with
  | .cancelled => (Run.Status.cancelled.toString, some (.ofInstant p.cancelledAt))
  | _ => (p.status.toString, some (.ofInstant p.finishedAt))

/-- From the first commit on status and end of the run stay as they are, and the run is not
announced both as ended and as cancelled. -/
def StaysFinal (p : Contenders) (l : Ledger) (turns : List Turn) : Prop :=
  let after (turns : List Turn) := (Contest.onLedger l).play p turns
  (∀ past later, turns = past ++ later → (after past).news l ≠ [] →
    (after turns).ledger.finishOf? p.job = (after past).ledger.finishOf? p.job) ∧
  ¬ (.cancelled ∈ ((after turns).news l).map (·.kind) ∧
    .ended ∈ ((after turns).news l).map (·.kind))

end Contenders

/-! ### Without the other client -/

section Alone

variable {l : Ledger} {t : Tables} {run : Run}

private theorem Ledger.cancel_frame (l : Ledger) (hwritable : l.database.writable = .ok t)
    (hopen : l.database.isOpen = true) (run : Run) (now : Time.Instant) (remote : Deregistration) :
    (l.cancel run now remote).2.database =
        ((Ledger.ofDatabase l.database).cancel run now remote).2.database ∧
      (l.cancel run now remote).2.announced = l.announced ++
        ((Ledger.ofDatabase l.database).cancel run now remote).2.announced := by
  have hwritable' : (Ledger.ofDatabase l.database).database.writable = .ok t := hwritable
  have hopen' : (Ledger.ofDatabase l.database).database.isOpen = true := hopen
  simp only [Ledger.cancel, hopen, hopen', hwritable, hwritable', Bool.not_true,
    Bool.false_eq_true, if_false, foldl_announce]
  exact ⟨rfl, rfl⟩

/-- Turns of the command that no turn of the other client comes between are the command. -/
theorem Contest.play_command (hrest : l.IsAtRest t) (p : Contenders)
    (s : Command.Surroundings) (config : OrchestratorConfig) (hnow : s.now = p.cancelledAt)
    (hremote : s.deregister config p.job = p.remote) :
    let c := (onLedger l).play p [.look, .hold, .settle]
    let after := (Command.cancel s config l.database p.job).2
    c.ledger.database = after.database ∧ c.ledger.announced = l.announced ++ after.announced := by
  intro c after
  have hdb : l.database = ⟨some t, none, true⟩ := hrest
  have hopen : l.database.isOpen = true := by rw [hdb]
  have hfree : l.database.isLocked = false := by rw [hdb]; rfl
  have hwritable : l.database.writable = .ok t := by rw [hdb]; rfl
  simp only [c, after, Command.cancel, play, List.foldl_cons, List.foldl_nil, turn, onLedger, look]
  cases hread : getRun l.database p.job with
  | error e => exact ⟨rfl, (List.append_nil _).symm⟩
  | ok run =>
    dsimp only
    split
    · exact ⟨rfl, (List.append_nil _).symm⟩
    · obtain ⟨hdatabase, hannounced⟩ := l.cancel_frame hwritable hopen run p.cancelledAt p.remote
      simp only [hold, hfree, Bool.false_eq_true, if_false, settle, hnow, hremote]
      generalize (Ledger.ofDatabase l.database).cancel run p.cancelledAt p.remote = r at *
      obtain ⟨_ | _ | _, l'⟩ := r <;> exact ⟨hdatabase, hannounced⟩

/-- Turns of the other client that no turn of the command comes between are one operation. -/
theorem Contest.play_client (hrest : l.IsAtRest t) (p : Contenders)
    (hread : getRun l.database p.job = .ok run) :
    ((onLedger l).play p [.read, .begin, .write, .commit]).ledger =
      (l.perform (.write (.finish (run.finish p.status p.finishedAt)) .commit)).2 := by
  have hdb : l.database = ⟨some t, none, true⟩ := hrest
  have hbegin : l.begin = .ok { l with database := ⟨some t, some .begun, true⟩ } := by
    simp [Ledger.begin, hdb]
  simp only [play, List.foldl_cons, List.foldl_nil, turn, read, onLedger, hread, begin, hbegin,
    write, Cancelling.isHolding, Ledger.perform, Ledger.write, Ledger.stageChange]
  rcases Ledger.finish { l with database := ⟨some t, some .begun, true⟩ }
    (run.finish p.status p.finishedAt) with ⟨e | k, l'⟩
  · rfl
  · cases hcommit : l'.commitThrough k with
    | error e => simp [commit, hcommit]
    | ok answer => simp [commit, hcommit]

end Alone

/-! ### One turn -/

/-- What the command has read is the run that it is after. -/
def Cancelling.IsAbout (job : Uuid) : Cancelling → Prop
  | .seen run => run.jobId = job
  | .holding run => run.jobId = job
  | _ => True

/-- The transaction of the client that ends the run, by how far it has come. -/
def Finishing.Fits (p : Contenders) (l : Ledger) (t : Tables) : Finishing → Prop
  | .idle => l.IsAtRest t
  | .seen run => run.jobId = p.job ∧ l.IsAtRest t
  | .begun run => run.jobId = p.job ∧ l.database = ⟨some t, some .begun, true⟩
  | .staged k => ∃ (run : Run) (written : Tables) (value : Option Run.Output), run.jobId = p.job ∧
      t.updateRun (run.finish p.status p.finishedAt) = .ok written ∧
      (l.staged[k]?).join = some ⟨value, .ended p.job p.status value⟩ ∧
      l.database = ⟨some t, some (.writing (written.dropOutput p.job)), true⟩
  | .stopped => l.IsAtRest t

/-- What holds between two turns; `t` are the committed tables. One client at most is writing. -/
structure Contest.Sound (p : Contenders) (c : Contest) (t : Tables) : Prop where
  command : c.cancelling.IsAbout p.job
  client : c.finishing.Fits p c.ledger t
  exclusive : c.cancelling.isHolding = true → ∀ k, c.finishing ≠ .staged k

/-- What a commit leaves behind: it is announced, status and end of the run are stored as it has
them, and the output of the run is gone. -/
structure Contest.Committed (p : Contenders) (c c' : Contest) (t' : Tables) (a : Announcement) :
    Prop where
  announced : c'.ledger.announced = c.ledger.announced ++ [a]
  stored : finishOf? t' p.job = some (p.finishOf a)
  output : t'.findOutput? p.job = none

/-- What a turn does: nothing that others see, or a commit of the one client or of the other, which
makes no turn after that. -/
inductive Contest.Effect (p : Contenders) (c c' : Contest) (t t' : Tables) : Prop
  | quiet : t' = t → c'.ledger.announced = c.ledger.announced →
      (c.cancelling = .stopped → c'.cancelling = .stopped) →
      (c.finishing = .stopped → c'.finishing = .stopped) → Effect p c c' t t'
  | cancelled : c.cancelling ≠ .stopped → c'.cancelling = .stopped → c'.finishing = c.finishing →
      Committed p c c' t' (.cancelled p.job) → Effect p c c' t t'
  | ended (value : Option Run.Output) : c.finishing ≠ .stopped → c'.finishing = .stopped →
      c'.cancelling = c.cancelling → Committed p c c' t' (.ended p.job p.status value) →
      Effect p c c' t t'

variable {p : Contenders} {c c' : Contest} {l l' : Ledger} {t t' written : Tables} {run : Run}
  {id : Uuid} {news : List Announcement}

private theorem exists_row_of_getRun {db : Store.Database} (hdb : db.tables = .ok t)
    (h : getRun db id = .ok run) :
    run.jobId = id ∧ ∃ row, t.findRun? id = some row ∧
      Run.Status.parse? row.status = some run.status := by
  obtain ⟨found, hfound, h⟩ := bind_eq_ok.1 h
  cases found with
  | none => cases h
  | some run' =>
    cases h
    rw [hdb] at hfound
    cases hrun : t.run? id with
    | error e => simp [hrun, whileStoring, Except.bind, Except.mapError] at hfound
    | ok found =>
      simp only [hrun, whileStoring, Except.bind, Except.mapError] at hfound
      cases hfound
      exact Tables.exists_row_of_run? hrun

private theorem finishOf?_updateRun (h : t.updateRun run = .ok written) :
    finishOf? written run.jobId =
      some (run.status.toString, run.finishedAt.map Stamp.ofInstant) := by
  have hrow := Tables.findRun?_updateRun h run.jobId
  obtain ⟨before, hbefore⟩ := Option.isSome_iff_exists.1 (isSome_findRun?_of_updateRun h)
  rw [hbefore, if_pos rfl] at hrow
  rw [finishOf?, hrow]
  rfl

private theorem Finishing.Fits.exists_database {f : Finishing} (h : f.Fits p l t) :
    ∃ x, l.database = ⟨some t, x, true⟩ ∧ ((∀ k, f ≠ .staged k) → x = none ∨ x = some .begun) := by
  cases f with
  | idle => exact ⟨_, h, fun _ => .inl rfl⟩
  | seen run => exact ⟨_, h.2, fun _ => .inl rfl⟩
  | begun run => exact ⟨_, h.2, fun _ => .inr rfl⟩
  | staged k =>
    obtain ⟨_, _, _, -, -, -, hdb⟩ := h
    exact ⟨_, hdb, fun hnot => absurd rfl (hnot k)⟩
  | stopped => exact ⟨_, h, fun _ => .inl rfl⟩

theorem Finishing.Fits.withTables {f : Finishing} (h : f.Fits p l t) (hfree : ∀ k, f ≠ .staged k)
    (hafter : l'.database = l.database.withTables t') : f.Fits p l' t' := by
  cases f with
  | idle =>
    have hdb : l.database = ⟨some t, none, true⟩ := h
    rw [hdb] at hafter
    exact hafter
  | seen run =>
    obtain ⟨habout, hdb⟩ := h
    rw [show l.database = ⟨some t, none, true⟩ from hdb] at hafter
    exact ⟨habout, hafter⟩
  | begun run =>
    obtain ⟨habout, hdb⟩ := h
    rw [hdb] at hafter
    exact ⟨habout, hafter⟩
  | staged k => exact absurd rfl (hfree k)
  | stopped =>
    have hdb : l.database = ⟨some t, none, true⟩ := h
    rw [hdb] at hafter
    exact hafter

namespace Contest

theorem Effect.refl : Effect p c c t t := .quiet rfl rfl id id

theorem Sound.tables (h : c.Sound p t) : c.ledger.database.tables = .ok t := by
  obtain ⟨x, hdb, -⟩ := h.client.exists_database
  rw [hdb]
  rfl

private theorem Sound.look (h : c.Sound p t) : (c.look p).Sound p t ∧ Effect p c
    (c.look p) t t := by
  unfold Contest.look
  cases hc : c.cancelling with
  | idle =>
    have hnot : c.cancelling ≠ .stopped := by simp [hc]
    cases hread : getRun c.ledger.database p.job with
    | error e => exact ⟨⟨trivial, h.client, nofun⟩, .quiet rfl rfl (absurd · hnot) id⟩
    | ok run =>
      dsimp only
      split
      · exact ⟨⟨trivial, h.client, nofun⟩, .quiet rfl rfl (absurd · hnot) id⟩
      · have habout := (exists_row_of_getRun h.tables hread).1
        exact ⟨⟨habout, h.client, nofun⟩, .quiet rfl rfl (absurd · hnot) id⟩
  | seen run => exact ⟨h, .refl⟩
  | holding run => exact ⟨h, .refl⟩
  | stopped => exact ⟨h, .refl⟩

theorem Sound.hold (h : c.Sound p t) : c.hold.Sound p t ∧ Effect p c c.hold t t := by
  unfold Contest.hold
  cases hc : c.cancelling with
  | seen run =>
    have hnot : c.cancelling ≠ .stopped := by simp [hc]
    have habout : run.jobId = p.job := by simpa [hc, Cancelling.IsAbout] using h.command
    dsimp only
    split
    · exact ⟨h, .refl⟩
    · next hfree =>
      refine ⟨⟨habout, h.client, ?_⟩, .quiet rfl rfl (absurd · hnot) id⟩
      rintro - k hf
      have hclient := h.client
      rw [show c.finishing = .staged k from hf] at hclient
      obtain ⟨_, _, _, -, -, -, hdb⟩ := hclient
      rw [hdb] at hfree
      exact hfree rfl
  | idle => exact ⟨h, .refl⟩
  | holding run => exact ⟨h, .refl⟩
  | stopped => exact ⟨h, .refl⟩

/-- A cancellation that takes effect commits around the other client, which has not written yet. It
does when the run is stored, its output reads and the orchestrator took the job off, whatever the
status is by then. -/
private theorem Sound.settle_of_holding (h : c.Sound p t) (hc : c.cancelling = .holding run) :
    (c.settle p).cancelling = .stopped ∧ (c.settle p).finishing = c.finishing ∧
      ((∃ t', (c.settle p).Sound p t' ∧ Committed p c (c.settle p) t' (.cancelled p.job)) ∨
        (¬ ((t.findRun? p.job).isSome = true ∧ t.OutputReads p.job ∧ p.remote = .accepted) ∧
          (c.settle p).Sound p t ∧
          (c.settle p).ledger.announced = c.ledger.announced)) := by
  have habout : run.jobId = p.job := by simpa [hc, Cancelling.IsAbout] using h.command
  have hfree := h.exclusive (by rw [hc]; rfl)
  obtain ⟨x, hdb, hx⟩ := h.client.exists_database
  have hopen : c.ledger.database.isOpen = true := by rw [hdb]
  have hwritable : c.ledger.database.writable = .ok t := by
    rw [hdb]
    rcases hx hfree with rfl | rfl <;> rfl
  have houtcome := Ledger.cancel_outcome hopen hwritable run p.cancelledAt p.remote
  rw [habout] at houtcome
  unfold Contest.settle
  rw [hc]
  refine ⟨rfl, rfl, ?_⟩
  rcases houtcome with ⟨written, -, hwrite, -, -, hafter, hannounced⟩ |
    ⟨hfails, -, hafter, hannounced⟩
  · refine .inl ⟨written.dropOutput p.job,
      ⟨trivial, h.client.withTables hfree hafter, nofun⟩, hannounced, ?_, ?_⟩
    · have hstored := finishOf?_updateRun hwrite
      rw [Run.cancel_jobId, habout] at hstored
      exact hstored
    · rw [Tables.findOutput?_dropOutput, if_pos rfl]
  · exact .inr ⟨hfails, ⟨trivial, h.client.withTables hfree hafter, nofun⟩, hannounced⟩

theorem Sound.settle (h : c.Sound p t) :
    ∃ t', (c.settle p).Sound p t' ∧ Effect p c (c.settle p) t t' := by
  cases hc : c.cancelling with
  | holding run =>
    have hnot : c.cancelling ≠ .stopped := by simp [hc]
    obtain ⟨hstopped, hsame, ⟨t', hsound, hcommitted⟩ | ⟨-, hsound, hannounced⟩⟩ :=
      h.settle_of_holding hc
    · exact ⟨t', hsound, .cancelled hnot hstopped hsame hcommitted⟩
    · exact ⟨t, hsound, .quiet rfl hannounced (absurd · hnot) hsame.trans⟩
  | idle => exact ⟨t, by simpa only [Contest.settle, hc] using ⟨h, .refl⟩⟩
  | seen run => exact ⟨t, by simpa only [Contest.settle, hc] using ⟨h, .refl⟩⟩
  | stopped => exact ⟨t, by simpa only [Contest.settle, hc] using ⟨h, .refl⟩⟩

theorem Sound.read (h : c.Sound p t) : (c.read p).Sound p t ∧ Effect p c (c.read p) t t := by
  unfold Contest.read
  cases hf : c.finishing with
  | idle =>
    have hnot : c.finishing ≠ .stopped := by simp [hf]
    have hrest : c.ledger.IsAtRest t := by
      have hclient := h.client
      rw [hf] at hclient
      exact hclient
    cases hread : getRun c.ledger.database p.job with
    | error e => exact ⟨⟨h.command, hrest, fun _ => nofun⟩, .quiet rfl rfl id (absurd · hnot)⟩
    | ok run =>
      have habout := (exists_row_of_getRun h.tables hread).1
      exact ⟨⟨h.command, ⟨habout, hrest⟩, fun _ => nofun⟩, .quiet rfl rfl id (absurd · hnot)⟩
  | seen run => exact ⟨h, .refl⟩
  | begun run => exact ⟨h, .refl⟩
  | staged k => exact ⟨h, .refl⟩
  | stopped => exact ⟨h, .refl⟩

theorem Sound.begin (h : c.Sound p t) : c.begin.Sound p t ∧ Effect p c c.begin t t := by
  unfold Contest.begin
  cases hf : c.finishing with
  | seen run =>
    have hnot : c.finishing ≠ .stopped := by simp [hf]
    have hclient := h.client
    rw [hf] at hclient
    obtain ⟨habout, hrest⟩ := hclient
    have hdb : c.ledger.database = ⟨some t, none, true⟩ := hrest
    have hbegin : c.ledger.begin =
        .ok { c.ledger with database := ⟨some t, some .begun, true⟩ } := by
      simp [Ledger.begin, hdb]
    simp only [hbegin]
    exact ⟨⟨h.command, ⟨habout, rfl⟩, fun _ _ h => by cases h⟩, .quiet rfl rfl id (absurd · hnot)⟩
  | idle => exact ⟨h, .refl⟩
  | begun run => exact ⟨h, .refl⟩
  | staged k => exact ⟨h, .refl⟩
  | stopped => exact ⟨h, .refl⟩

theorem Sound.write (h : c.Sound p t) : (c.write p).Sound p t ∧ Effect p c (c.write p) t t := by
  unfold Contest.write
  cases hf : c.finishing with
  | begun run =>
    have hnot : c.finishing ≠ .stopped := by simp [hf]
    have hclient := h.client
    rw [hf] at hclient
    obtain ⟨habout, hdb⟩ := hclient
    dsimp only
    split
    · exact ⟨h, .refl⟩
    · next hfree =>
      have hview : c.ledger.database.view = .ok t := by
        rw [hdb]
        rfl
      have hstage := Ledger.stageChange_of_view (.finish (run.finish p.status p.finishedAt))
        hdb hview
      have hsame : c.ledger.finish (run.finish p.status p.finishedAt) =
          c.ledger.stageChange (.finish (run.finish p.status p.finishedAt)) := rfl
      rw [hsame]
      rcases happly : Change.apply t (.finish (run.finish p.status p.finishedAt)) with
        ⟨e | staged, v⟩
      · rw [happly] at hstage
        rw [hstage]
        exact ⟨⟨h.command, rfl, fun _ => nofun⟩, .quiet rfl rfl id (absurd · hnot)⟩
      · rw [happly] at hstage
        rw [hstage]
        obtain ⟨written, value, hwrite, -, rfl, rfl⟩ := finish_eq_ok happly
        refine ⟨⟨h.command, ⟨run, written, value, habout, hwrite, ?_, ?_⟩, ?_⟩,
          .quiet rfl rfl id (absurd · hnot)⟩
        · simp [Run.finish, habout]
        · simp [Run.finish, habout]
        · exact fun hholds => absurd hholds hfree
  | idle => exact ⟨h, .refl⟩
  | seen run => exact ⟨h, .refl⟩
  | staged k => exact ⟨h, .refl⟩
  | stopped => exact ⟨h, .refl⟩

private theorem Sound.commit_of_staged {k : Nat} (h : c.Sound p t) (hf : c.finishing = .staged k) :
    c.commit.finishing = .stopped ∧ c.commit.cancelling = c.cancelling ∧
      ∃ t' value, c.commit.Sound p t' ∧
        Committed p c c.commit t' (.ended p.job p.status value) := by
  have hclient := h.client
  rw [hf] at hclient
  obtain ⟨run, written, value, habout, hwrite, hstaged, hdb⟩ := hclient
  have hview : c.ledger.database.view = .ok (written.dropOutput p.job) := by
    rw [hdb]
    rfl
  have hcommit := Ledger.commitThrough_of_view hdb hview hstaged
  unfold Contest.commit
  rw [hf]
  simp only [hcommit]
  refine ⟨trivial, trivial, written.dropOutput p.job, value,
    ⟨h.command, rfl, fun _ => nofun⟩, rfl, ?_, ?_⟩
  · have hstored := finishOf?_updateRun hwrite
    rw [show (run.finish p.status p.finishedAt).jobId = p.job from habout] at hstored
    exact hstored
  · rw [Tables.findOutput?_dropOutput, if_pos rfl]

theorem Sound.commit (h : c.Sound p t) :
    ∃ t', c.commit.Sound p t' ∧ Effect p c c.commit t t' := by
  cases hf : c.finishing with
  | staged k =>
    have hnot : c.finishing ≠ .stopped := by simp [hf]
    obtain ⟨hstopped, hsame, t', value, hsound, hcommitted⟩ := h.commit_of_staged hf
    exact ⟨t', hsound, .ended value hnot hstopped hsame hcommitted⟩
  | idle => exact ⟨t, by simpa only [Contest.commit, hf] using ⟨h, .refl⟩⟩
  | seen run => exact ⟨t, by simpa only [Contest.commit, hf] using ⟨h, .refl⟩⟩
  | begun run => exact ⟨t, by simpa only [Contest.commit, hf] using ⟨h, .refl⟩⟩
  | stopped => exact ⟨t, by simpa only [Contest.commit, hf] using ⟨h, .refl⟩⟩

/-- A turn commits for one of the two, or nothing that others see has changed. -/
private theorem Sound.turn (h : c.Sound p t) (m : Turn) :
    ∃ t', (c.turn p m).Sound p t' ∧ Effect p c (c.turn p m) t t' := by
  cases m with
  | look => exact ⟨t, h.look⟩
  | hold => exact ⟨t, h.hold⟩
  | settle => exact h.settle
  | read => exact ⟨t, h.read⟩
  | begin => exact ⟨t, h.begin⟩
  | write => exact ⟨t, h.write⟩
  | commit => exact h.commit

/-! ### The second to commit -/

private theorem Committed.isSome_findRun? {a : Announcement} (h : Committed p c c' t' a) :
    (t'.findRun? p.job).isSome = true := by
  have hstored := h.stored
  rw [finishOf?] at hstored
  obtain ⟨row, hrow, -⟩ := Option.map_eq_some_iff.1 hstored
  rw [hrow]
  rfl

private theorem Sound.cancelled_after_end {k : Nat} (h : c.Sound p t)
    (hc : c.cancelling = .seen run) (hf : c.finishing = .staged k)
    (haccepted : p.remote = .accepted) :
    ∃ value, (c.play p [.commit, .hold, .settle]).ledger.announced =
      c.ledger.announced ++ [.ended p.job p.status value, .cancelled p.job] := by
  obtain ⟨hstopped, hsame, t₁, value, hsound, hended⟩ := h.commit_of_staged hf
  have hrest : c.commit.ledger.IsAtRest t₁ := by
    have hclient := hsound.client
    rw [hstopped] at hclient
    exact hclient
  have hfree : c.commit.ledger.database.isLocked = false := by
    rw [show c.commit.ledger.database = ⟨some t₁, none, true⟩ from hrest]
    rfl
  have hhold : c.commit.hold = { c.commit with cancelling := .holding run } := by
    unfold Contest.hold
    rw [hsame, hc]
    simp only [hfree, Bool.false_eq_true, if_false]
  have hholding : c.commit.hold.cancelling = .holding run := by rw [hhold]
  have hledger : c.commit.hold.ledger = c.commit.ledger := by rw [hhold]
  have hreads : t₁.OutputReads p.job := Tables.outputReads_of_none hended.output
  obtain ⟨-, -, ⟨t', -, hcancelled⟩ | ⟨hfails, -⟩⟩ :=
    hsound.hold.1.settle_of_holding hholding
  · have hannounced := hcancelled.announced
    rw [hledger, hended.announced, List.append_assoc] at hannounced
    exact ⟨value, hannounced⟩
  · exact absurd ⟨hended.isSome_findRun?, hreads, haccepted⟩ hfails

private theorem Sound.exists_staged (h : c.Sound p t) (hfree : c.cancelling.isHolding = false)
    (hf : c.finishing = .seen run) (hstored : (t.findRun? p.job).isSome = true)
    (hreads : t.OutputReads p.job) :
    ∃ k, (c.begin.write p).finishing = .staged k ∧
      (c.begin.write p).cancelling = c.cancelling ∧
      (c.begin.write p).ledger.announced = c.ledger.announced := by
  have hclient := h.client
  rw [hf] at hclient
  obtain ⟨habout, hrest⟩ := hclient
  have hdb : c.ledger.database = ⟨some t, none, true⟩ := hrest
  have hbegin : c.begin =
      ⟨{ c.ledger with database := ⟨some t, some .begun, true⟩ }, c.cancelling, .begun run⟩ := by
    simp [Contest.begin, hf, Ledger.begin, hdb]
  have habout' : (run.finish p.status p.finishedAt).jobId = p.job := habout
  obtain ⟨value, written, hfinish⟩ := exists_finish (run.finish p.status p.finishedAt)
    (by rwa [habout']) (by rwa [habout'])
  have hstage := Ledger.stageChange_of_view
    (l := { c.ledger with database := ⟨some t, some .begun, true⟩ })
    (.finish (run.finish p.status p.finishedAt)) rfl rfl
  rw [Change.apply, hfinish, Ledger.stageChange] at hstage
  rw [hbegin]
  simp only [Contest.write, hfree, Bool.false_eq_true, if_false, hstage]
  exact ⟨_, rfl, trivial, trivial⟩

private theorem Sound.ended_after_cancellation {seen : Run} (h : c.Sound p t)
    (hc : c.cancelling = .holding run) (hf : c.finishing = .seen seen)
    (hstored : (t.findRun? p.job).isSome = true) (hreads : t.OutputReads p.job)
    (haccepted : p.remote = .accepted) :
    ∃ value, (c.play p [.settle, .begin, .write, .commit]).ledger.announced =
      c.ledger.announced ++ [.cancelled p.job, .ended p.job p.status value] := by
  obtain ⟨hstopped, hsame, ⟨t₁, hsound, hcancelled⟩ | ⟨hfails, -⟩⟩ := h.settle_of_holding hc
  · have hfree : (c.settle p).cancelling.isHolding = false := by rw [hstopped]; rfl
    obtain ⟨k, hstaged, -, hquiet⟩ := hsound.exists_staged hfree (hsame.trans hf)
      hcancelled.isSome_findRun? (Tables.outputReads_of_none hcancelled.output)
    obtain ⟨-, -, t', value, -, hended⟩ := hsound.begin.1.write.1.commit_of_staged hstaged
    have hannounced := hended.announced
    rw [hquiet, hcancelled.announced, List.append_assoc] at hannounced
    exact ⟨value, hannounced⟩
  · exact absurd ⟨hstored, hreads, haccepted⟩ hfails

/-! ### Any turns -/

/-- What turns on `l` have come to: what was announced in them, each kind once, and who of the two
is done; the last announcement says what is stored, and `before` is stored as long as there is
none. -/
structure Record (p : Contenders) (l : Ledger) (before : Option (String × Option Stamp))
    (c : Contest) (t : Tables) (news : List Announcement) : Prop where
  sound : c.Sound p t
  announced : c.ledger.announced = l.announced ++ news
  ours : ∀ a ∈ news, p.Announces a
  kinds : (news.map (·.kind)).Nodup
  commandStopped : .cancelled ∈ news.map (·.kind) → c.cancelling = .stopped
  clientStopped : .ended ∈ news.map (·.kind) → c.finishing = .stopped
  stored : finishOf? t p.job = news.getLast?.elim before fun a => some (p.finishOf a)

theorem Sound.record (h : c.Sound p t) : Record p c.ledger (finishOf? t p.job) c t [] :=
  ⟨h, (List.append_nil _).symm, by simp, List.nodup_nil, by simp, by simp, rfl⟩

variable {before : Option (String × Option Stamp)}

theorem Record.grow {a : Announcement} (h : Record p l before c t news) (hsound : c'.Sound p t')
    (hcommitted : Committed p c c' t' a) (hours : p.Announces a)
    (hnew : a.kind ∉ news.map (·.kind))
    (hcommand : .cancelled ∈ a.kind :: news.map (·.kind) → c'.cancelling = .stopped)
    (hclient : .ended ∈ a.kind :: news.map (·.kind) → c'.finishing = .stopped) :
    Record p l before c' t' (news ++ [a]) := by
  have hkinds : (news ++ [a]).map (·.kind) = news.map (·.kind) ++ [a.kind] := by
    rw [List.map_append, List.map_singleton]
  have hmem : ∀ k, k ∈ (news ++ [a]).map (·.kind) → k ∈ a.kind :: news.map (·.kind) := by
    intro k hk
    rw [hkinds, List.mem_append, List.mem_singleton] at hk
    exact List.mem_cons.2 hk.symm
  refine ⟨hsound, ?_, ?_, ?_, fun hk => hcommand (hmem _ hk), fun hk => hclient (hmem _ hk), ?_⟩
  · rw [hcommitted.announced, h.announced, List.append_assoc]
  · intro b hb
    rcases List.mem_append.1 hb with hb | hb
    · exact h.ours b hb
    · exact List.mem_singleton.1 hb ▸ hours
  · rw [hkinds, List.nodup_append]
    refine ⟨h.kinds, by simp, fun k hk k' hk' hsame => hnew ?_⟩
    rwa [← List.mem_singleton.1 hk', ← hsame]
  · rw [hcommitted.stored, List.getLast?_concat]
    rfl

private theorem Record.turn (h : Record p l before c t news) (m : Turn) :
    ∃ t' news', Record p l before (c.turn p m) t' news' := by
  obtain ⟨t', hsound, heffect⟩ := h.sound.turn m
  cases heffect with
  | quiet htables hannounced hcommand hclient =>
    subst htables
    exact ⟨_, news, hsound, hannounced.trans h.announced, h.ours, h.kinds,
      fun hmem => hcommand (h.commandStopped hmem), fun hmem => hclient (h.clientStopped hmem),
      h.stored⟩
  | cancelled hbusy hstopped hsame hcommitted =>
    have hclient : .ended ∈ Announcement.Kind.cancelled :: news.map (·.kind) →
        (c.turn p m).finishing = .stopped := by
      intro hmem
      rcases List.mem_cons.1 hmem with hkind | hmem
      · cases hkind
      · exact hsame.trans (h.clientStopped hmem)
    exact ⟨t', _, h.grow hsound hcommitted (.inl rfl)
      (fun hmem => hbusy (h.commandStopped hmem)) (fun _ => hstopped) hclient⟩
  | ended value hbusy hstopped hsame hcommitted =>
    have hcommand : .cancelled ∈ Announcement.Kind.ended :: news.map (·.kind) →
        (c.turn p m).cancelling = .stopped := by
      intro hmem
      rcases List.mem_cons.1 hmem with hkind | hmem
      · cases hkind
      · exact hsame.trans (h.commandStopped hmem)
    exact ⟨t', _, h.grow hsound hcommitted (.inr ⟨value, rfl⟩)
      (fun hmem => hbusy (h.clientStopped hmem)) hcommand (fun _ => hstopped)⟩

theorem Record.play (h : Record p l before c t news) (turns : List Turn) :
    ∃ t' news', Record p l before (c.play p turns) t' news' := by
  induction turns generalizing c t news with
  | nil => exact ⟨t, news, h⟩
  | cons m turns ih =>
    obtain ⟨t', news', hnext⟩ := h.turn m
    exact ih hnext

private theorem Record.news_eq (h : Record p l before c t news) : c.news l = news := by
  rw [Contest.news, h.announced, List.drop_left]

private theorem Sound.finishOf?_eq (h : c.Sound p t) (id : Uuid) :
    c.ledger.finishOf? id = finishOf? t id := by
  obtain ⟨x, hdb, -⟩ := h.client.exists_database
  rw [Ledger.finishOf?, hdb]
  rfl

private theorem exists_record (hrest : l.IsAtRest t) (p : Contenders) (turns : List Turn) :
    ∃ t' news, Record p l (finishOf? t p.job) ((onLedger l).play p turns) t' news := by
  have hsound : (onLedger l).Sound p t := ⟨trivial, hrest, nofun⟩
  exact hsound.record.play turns

/-- The command has not read the run when the other client has ended it: it will stop there. -/
structure IsLate (p : Contenders) (c : Contest) (t : Tables) : Prop where
  sound : c.Sound p t
  command : c.cancelling = .idle ∨ c.cancelling = .stopped
  client : c.finishing = .stopped
  stored : (finishOf? t p.job).map Prod.fst = some p.status.toString

private theorem IsLate.look (h : c.IsLate p t) : (c.look p).IsLate p t ∧
    (c.look p).ledger = c.ledger := by
  have hsound := h.sound.look.1
  unfold Contest.look at hsound ⊢
  rcases h.command with hc | hc
  · rw [hc] at hsound ⊢
    cases hread : getRun c.ledger.database p.job with
    | error e =>
      rw [hread] at hsound
      exact ⟨⟨hsound, .inr rfl, h.client, h.stored⟩, rfl⟩
    | ok run =>
      rw [hread] at hsound
      obtain ⟨-, row, hrow, hstatus⟩ := exists_row_of_getRun h.sound.tables hread
      have hended : row.status = p.status.toString := by
        have hstored := h.stored
        rw [finishOf?, hrow] at hstored
        exact Option.some.inj hstored
      rw [hended, Run.Status.parse?_toString] at hstatus
      have hfinished : run.status.isFinished = true := by
        rw [← Option.some.inj hstatus]
        exact p.isFinished
      dsimp only at hsound ⊢
      rw [if_pos hfinished] at hsound ⊢
      exact ⟨⟨hsound, .inr rfl, h.client, h.stored⟩, rfl⟩
  · rw [hc]
    exact ⟨h, rfl⟩

private theorem IsLate.turn (h : c.IsLate p t) (m : Turn) :
    (c.turn p m).IsLate p t ∧ (c.turn p m).ledger = c.ledger := by
  have hclient := h.client
  have hquiet : m ≠ .look → c.turn p m = c := by
    intro hm
    cases m with
    | look => exact absurd rfl hm
    | hold => rcases h.command with hc | hc <;> simp only [Contest.turn, Contest.hold, hc]
    | settle => rcases h.command with hc | hc <;> simp only [Contest.turn, Contest.settle, hc]
    | read => simp only [Contest.turn, Contest.read, hclient]
    | begin => simp only [Contest.turn, Contest.begin, hclient]
    | write => simp only [Contest.turn, Contest.write, hclient]
    | commit => simp only [Contest.turn, Contest.commit, hclient]
  by_cases hm : m = .look
  · subst hm
    exact h.look
  · rw [hquiet hm]
    exact ⟨h, rfl⟩

theorem IsLate.play (h : c.IsLate p t) (turns : List Turn) :
    (c.play p turns).ledger = c.ledger := by
  induction turns generalizing c with
  | nil => rfl
  | cons m turns ih =>
    obtain ⟨hnext, hsame⟩ := h.turn m
    exact (ih hnext).trans hsame

private theorem Record.isLate (h : Record p l before c t news) (hidle : c.cancelling = .idle)
    (hnews : news ≠ []) : c.IsLate p t := by
  obtain ⟨a, ha⟩ := Option.ne_none_iff_exists'.1 (mt List.getLast?_eq_none_iff.1 hnews)
  have hmem := List.mem_of_getLast? ha
  have hstored := h.stored
  rw [ha] at hstored
  rcases h.ours a hmem with rfl | ⟨value, rfl⟩
  · have hstopped := h.commandStopped (List.mem_map_of_mem hmem)
    rw [hidle] at hstopped
    cases hstopped
  · refine ⟨h.sound, .inl hidle, h.clientStopped (List.mem_map_of_mem hmem), ?_⟩
    rw [hstored]
    rfl

private theorem Record.both_of_many (h : Record p l before c t news) (hmany : ¬ news.length ≤ 1) :
    .cancelled ∈ news.map (·.kind) ∧ .ended ∈ news.map (·.kind) := by
  match news with
  | [] => simp at hmany
  | [a] => simp at hmany
  | a :: b :: rest =>
    have hdiffer : a.kind ≠ b.kind := by
      intro hsame
      have hkinds := h.kinds
      simp [hsame] at hkinds
    rcases h.ours a (by simp) with rfl | ⟨_, rfl⟩ <;> rcases h.ours b (by simp) with rfl | ⟨_, rfl⟩
    · exact absurd rfl hdiffer
    · simp [Announcement.kind]
    · simp [Announcement.kind]
    · exact absurd rfl hdiffer

end Contest

private theorem Contenders.staysFinal_iff (hrest : l.IsAtRest t) (p : Contenders)
    (turns : List Turn) :
    p.StaysFinal l turns ↔ (((Contest.onLedger l).play p turns).news l).length ≤ 1 := by
  obtain ⟨t', news, hend⟩ := Contest.exists_record hrest p turns
  dsimp only [StaysFinal]
  rw [hend.news_eq]
  constructor
  · rintro ⟨-, hnot⟩
    by_contra hmany
    exact hnot (hend.both_of_many hmany)
  · intro hfew
    refine ⟨?_, ?_⟩
    · intro past later hturns hsome
      obtain ⟨t₁, news₁, hpast⟩ := Contest.exists_record hrest p past
      obtain ⟨t₂, more, hlater⟩ := hpast.sound.record.play later
      rw [hpast.news_eq] at hsome
      subst hturns
      rw [← Contest.play_append] at hlater
      have hall : news = news₁ ++ more := by
        have hannounced := hlater.announced
        rw [hpast.announced, List.append_assoc] at hannounced
        exact List.append_cancel_left (hend.announced.symm.trans hannounced)
      have hnone : more = [] := by
        have hlength := congrArg List.length hall
        rw [List.length_append] at hlength
        have hpos := List.length_pos_iff.2 hsome
        exact List.length_eq_zero_iff.1 (by omega)
      rw [hlater.sound.finishOf?_eq, hpast.sound.finishOf?_eq, hlater.stored, hnone]
      rfl
    · rintro ⟨hcancelled, hended⟩
      match news with
      | [] => cases hcancelled
      | [a] =>
        rw [List.map_singleton, List.mem_singleton] at hcancelled hended
        rw [← hcancelled] at hended
        cases hended
      | a :: b :: rest => simp at hfew

private theorem Contenders.overwritten_of_announced (hrest : l.IsAtRest t) (p : Contenders)
    {turns : List Turn} {a b : Announcement}
    (h : ((Contest.onLedger l).play p turns).ledger.announced = l.announced ++ [a, b]) :
    ¬ p.StaysFinal l turns ∧
      ((Contest.onLedger l).play p turns).ledger.finishOf? p.job = some (p.finishOf b) := by
  have hnews : ((Contest.onLedger l).play p turns).news l = [a, b] := by
    rw [Contest.news, h, List.drop_left]
  constructor
  · rw [p.staysFinal_iff hrest turns, hnews]
    simp
  · obtain ⟨t', news, hend⟩ := Contest.exists_record hrest p turns
    obtain rfl : news = [a, b] := hend.news_eq.symm.trans hnews
    rw [hend.sound.finishOf?_eq, hend.stored]
    rfl

/-- When both have read a run while it was running, the one that commits second overwrites what the
first has committed, whichever of the two it is. -/
theorem Contenders.overwritten_of_both_seen (hrest : l.IsAtRest t) (p : Contenders)
    (hread : getRun l.database p.job = .ok run) (hrunning : run.status.isFinished = false)
    (hreads : t.OutputReads p.job) (haccepted : p.remote = .accepted) :
    let after (turns : List Turn) := (Contest.onLedger l).play p turns
    let cancelledLast : List Turn := [.look, .read, .begin, .write, .commit, .hold, .settle]
    let endedLast : List Turn := [.look, .read, .hold, .settle, .begin, .write, .commit]
    (¬ p.StaysFinal l cancelledLast ∧ (after cancelledLast).ledger.finishOf? p.job =
      some (Run.Status.cancelled.toString, some (.ofInstant p.cancelledAt))) ∧
    (¬ p.StaysFinal l endedLast ∧ (after endedLast).ledger.finishOf? p.job =
      some (p.status.toString, some (.ofInstant p.finishedAt))) := by
  intro after cancelledLast endedLast
  have hdb : l.database = ⟨some t, none, true⟩ := hrest
  obtain ⟨habout, row, hrow, -⟩ := exists_row_of_getRun (by rw [hdb]; rfl) hread
  have hstored : (t.findRun? p.job).isSome = true := by rw [hrow]; rfl
  have hseen : after [.look, .read] = ⟨l, .seen run, .seen run⟩ := by
    simp [after, Contest.play, Contest.turn, Contest.look, Contest.read, Contest.onLedger, hread,
      hrunning]
  have hsound : (⟨l, .seen run, .seen run⟩ : Contest).Sound p t :=
    ⟨habout, ⟨habout, hrest⟩, nofun⟩
  constructor
  · obtain ⟨k, hstaged, hcommand, hquiet⟩ := hsound.exists_staged rfl rfl hstored hreads
    obtain ⟨value, hannounced⟩ :=
      hsound.begin.1.write.1.cancelled_after_end hcommand hstaged haccepted
    have hplay : after cancelledLast = (after [.look, .read]).play p
        [.begin, .write, .commit, .hold, .settle] :=
      Contest.play_append p _ [.look, .read] _
    rw [hquiet] at hannounced
    refine p.overwritten_of_announced hrest (a := .ended p.job p.status value)
      (b := .cancelled p.job) ?_
    show (after cancelledLast).ledger.announced = _
    rw [hplay, hseen]
    exact hannounced
  · have hhold : (⟨l, .seen run, .seen run⟩ : Contest).hold = ⟨l, .holding run, .seen run⟩ := by
      simp [Contest.hold, hdb, Store.Database.isLocked]
    have hholding : (⟨l, .holding run, .seen run⟩ : Contest).Sound p t := hhold ▸ hsound.hold.1
    obtain ⟨value, hannounced⟩ :=
      hholding.ended_after_cancellation rfl rfl hstored hreads haccepted
    have hplay : after endedLast = ((after [.look, .read]).hold).play p
        [.settle, .begin, .write, .commit] :=
      Contest.play_append p _ [.look, .read, .hold] _
    refine p.overwritten_of_announced hrest (a := .cancelled p.job)
      (b := .ended p.job p.status value) ?_
    show (after endedLast).ledger.announced = _
    rw [hplay, hseen, hhold]
    exact hannounced

/-- However the turns of the two fall, each of them announces its end of the run at most once, and
what is stored is what the last to commit wrote. So the status and the end of the run are final from
the first commit on, and only one end is announced, exactly when the other client does not commit as
well; and it does not when the command has yet to read the run. -/
theorem final_exactly_after_one_commit (hrest : l.IsAtRest t) (p : Contenders)
    (turns : List Turn) :
    let after (turns : List Turn) := (Contest.onLedger l).play p turns
    let news := (after turns).news l
    (after turns).ledger.announced = l.announced ++ news ∧
      (∀ a ∈ news, p.Announces a) ∧ (news.map (·.kind)).Nodup ∧
      (after turns).ledger.finishOf? p.job =
        news.getLast?.elim (l.finishOf? p.job) (fun a => some (p.finishOf a)) ∧
      (p.StaysFinal l turns ↔ news.length ≤ 1) ∧
      ∀ past later, turns = past ++ later → (after past).cancelling = .idle →
        (after past).news l ≠ [] → p.StaysFinal l turns := by
  intro after news
  obtain ⟨t', news', hend⟩ := Contest.exists_record hrest p turns
  have hnews : news = news' := hend.news_eq
  have hbefore : l.finishOf? p.job = finishOf? t p.job := by
    rw [Ledger.finishOf?, show l.database = ⟨some t, none, true⟩ from hrest]
    rfl
  rw [hnews]
  refine ⟨hend.announced, hend.ours, hend.kinds, ?_, ?_, ?_⟩
  · rw [hend.sound.finishOf?_eq, hend.stored, hbefore]
  · rw [p.staysFinal_iff hrest turns, hend.news_eq]
  · intro past later hturns hidle hsome
    obtain ⟨t₁, news₁, hpast⟩ := Contest.exists_record hrest p past
    rw [show (after past).news l = news₁ from hpast.news_eq] at hsome
    have hlate := hpast.isLate hidle hsome
    have hsame : (after turns).ledger = (after past).ledger := by
      simp only [after, hturns, Contest.play_append]
      exact hlate.play later
    rw [p.staysFinal_iff hrest turns, hend.news_eq]
    have hone : news₁.length ≤ 1 := by
      by_contra hmany
      have hstopped := hpast.commandStopped (hpast.both_of_many hmany).1
      rw [hidle] at hstopped
      cases hstopped
    have hannounced := hend.announced
    rw [hsame, hpast.announced] at hannounced
    rwa [← List.append_cancel_left hannounced]

/-- The sample run, which the one cancels at a time at which it ended well for the other. -/
def overSampleRun : Contenders where
  job := sampleRun.jobId
  cancelledAt := .epoch
  remote := .accepted
  status := .succeeded
  isFinished := rfl
  finishedAt := .epoch

/-- A command that comes after the end leaves it as it is. -/
theorem late_command_leaves_end :
    let l := Ledger.fresh.performAll [.write (.save sampleRun ⟨none, none⟩) .commit]
    let ending : List Turn := [.read, .begin, .write, .commit]
    let turns := ending ++ [.look, .hold, .settle]
    overSampleRun.StaysFinal l turns ∧
      ((Contest.onLedger l).play overSampleRun turns).ledger.finishOf? sampleRun.jobId =
        some ("succeeded", some (.millis 0)) := by
  intro l ending turns
  obtain ⟨t, hrest⟩ := Ledger.exists_rest (l := Ledger.fresh) (t := .empty) rfl
    [.write (.save sampleRun ⟨none, none⟩) .commit]
  obtain ⟨-, -, -, -, -, hlate⟩ := final_exactly_after_one_commit hrest overSampleRun turns
  have hsome : ((Contest.onLedger l).play overSampleRun ending).news l ≠ [] := by
    have hlength : (((Contest.onLedger l).play overSampleRun ending).news l).length = 1 := by
      decide +kernel
    intro hnone
    rw [hnone] at hlength
    cases hlength
  exact ⟨hlate ending _ rfl rfl hsome, by decide +kernel⟩

/-- A command that read the run while it was running cancels it after its end: the status that was
final is overwritten, and both ends are announced. -/
theorem end_overwritten_by_cancellation :
    ¬ ∀ (ops : List Operation) (p : Contenders) (turns : List Turn),
      p.StaysFinal (Ledger.fresh.performAll ops) turns := by
  intro h
  let ops : List Operation := [.write (.save sampleRun ⟨none, none⟩) .commit]
  let l := Ledger.fresh.performAll ops
  obtain ⟨t, hrest⟩ := Ledger.exists_rest (l := Ledger.fresh) (t := .empty) rfl ops
  have hread : getRun l.database sampleRun.jobId = .ok sampleRun := by decide +kernel
  have hreads : t.OutputReads sampleRun.jobId := by
    intro row hrow
    have hstored : l.database.committed.bind (·.findOutput? sampleRun.jobId) =
        some (.ofOutput ⟨none, none⟩) := rfl
    rw [show l.database = ⟨some t, none, true⟩ from hrest] at hstored
    obtain rfl := Option.some.inj (hstored.symm.trans hrow)
    exact ⟨_, rfl⟩
  exact (overSampleRun.overwritten_of_both_seen hrest hread rfl hreads rfl).1.1 (h ops _ _)

end RunLedger.Service
