import RunLedger.Announcement.Bus
import RunLedger.Service.Events
import RunLedger.Service.Runs

/-!
The ledger of one client: a database, at most one open transaction, the changes that were staged so
far, the bus on which committed changes are announced, what was announced on it, and what the
orchestrator was asked to do. A staged change outlives the transaction in which it was written, and
it is used up when a transaction is committed through it.
-/

set_option autoImplicit false

namespace RunLedger.Service

open RunLedger.Store (Database Tables)

/-- Why a step was refused without being tried. -/
inductive Refusal where
  | transactionOpen
  | noTransaction
  | notStaged
  deriving DecidableEq, Repr

structure Ledger where
  database : Database
  /-- Staged changes by their number; none when a commit used one up. -/
  staged : List (Option Staged)
  bus : Bus Announcement
  /-- All that was announced, in order, also what the bus no longer keeps. -/
  announced : List Announcement
  /-- The jobs that the orchestrator was asked to take off, in order, and whether to forget them. -/
  deregistered : List (Uuid × Bool)

namespace Ledger

/-- A ledger on a database, with one listener on its bus. -/
def ofDatabase (db : Database) : Ledger :=
  ⟨db, [], (Bus.standard : Bus Announcement).subscribe.2, [], []⟩

def announce (l : Ledger) (a : Announcement) : Ledger :=
  { l with bus := (l.bus.publish a).2, announced := l.announced ++ [a] }

inductive Failure where
  | refused (r : Refusal)
  | storage (e : Store.Error)
  | service (e : Error)

def begin (l : Ledger) : Except Failure Ledger :=
  if l.database.transaction.isSome then .error (.refused .transactionOpen)
  else if l.database.isOpen then
    .ok { l with database := { l.database with transaction := some .begun } }
  else .error (.storage (.database .other))

def rollback (l : Ledger) : Except Failure Ledger :=
  if l.database.transaction.isSome then .ok { l with database := l.database.rollback }
  else .error (.refused .noTransaction)

/-- Commits the open transaction; nothing is announced. -/
def commit (l : Ledger) : Except Failure Ledger :=
  if l.database.transaction.isSome then .ok { l with database := l.database.commit }
  else .error (.refused .noTransaction)

/-- Commits the open transaction through a staged change, which is announced and answers its
value. -/
def commitThrough (l : Ledger) (k : Nat) : Except Failure (Option Run.Output × Ledger) :=
  if l.database.transaction.isNone then .error (.refused .noTransaction)
  else
    match (l.staged[k]?).join with
    | none => .error (.refused .notStaged)
    | some change =>
      let l := { l with database := l.database.commit, staged := l.staged.set k none }
      .ok (change.value, l.announce change.announcement)

/-- Writes into the open transaction. `context` says what the first statement does. A write that
fails keeps what it wrote; one that does not come to the tables leaves the transaction alone. -/
def stage (l : Ledger) (context : String) (write : Tables → Except Error Staged × Tables) :
    Except Failure Nat × Ledger :=
  if l.database.transaction.isNone then (.error (.refused .noTransaction), l)
  else
    match l.database.view with
    | .error e => (.error (.service (.storage context e)), l)
    | .ok t =>
      let (r, t) := write t
      let l := { l with database := l.database.withView t }
      match r with
      | .error e => (.error (.service e), l)
      | .ok change => (.ok l.staged.length, { l with staged := l.staged ++ [some change] })

def save (l : Ledger) (run : Run) (output : Run.Output) : Except Failure Nat × Ledger :=
  l.stage s!"Could not insert Run {run.jobId}" fun t => Service.save t run output

def update (l : Ledger) (run : Run) : Except Failure Nat × Ledger :=
  l.stage s!"Could not update Run {run.jobId}" fun t => Service.update t run

def finish (l : Ledger) (run : Run) : Except Failure Nat × Ledger :=
  l.stage s!"Could not update Run {run.jobId}" fun t => Service.finish t run

def cancel (l : Ledger) (run : Run) (now : Time.Instant) (remote : Deregistration) :
    Option (Except Error Run) × Ledger :=
  if !l.database.isOpen then
    (some (.error (.storage s!"Could not start cancelling Run {run.jobId}" (.database .other))), l)
  else
    match l.database.writable with
    | .error e => (some (.error (.storage s!"Could not update Run {run.jobId}" e)), l)
    | .ok t =>
      let c := Service.cancel t run now remote none
      let l := { l with
        database := l.database.withTables c.tables
        deregistered := l.deregistered ++ c.deregistered }
      (c.result, c.announced.foldl announce l)

/-- Closes the database; a transaction may not be open. -/
def close (l : Ledger) : Except Failure Ledger :=
  if l.database.transaction.isSome then .error (.refused .transactionOpen)
  else .ok { l with database := { l.database with isOpen := false } }

def migrate (l : Ledger) : Except Failure Ledger :=
  match l.database.migrate with
  | .ok db => .ok { l with database := db }
  | .error e => .error (.storage e)

end Ledger

end RunLedger.Service
