import RunLedger.Announcement.Basic
import RunLedger.Logs.Output
import RunLedger.Service.Error
import RunLedger.Store.Database
import RunLedger.Store.Projection
import RunLedger.Store.Runs

/-!
Runs and their outputs. Changes that belong to a larger unit of work are written into the caller's
transaction and announced when it is committed through them. Cancelling a run is a transaction of
its own: the status is written and the output taken out first, then the job is taken off the
orchestrator, and only then is anything committed and announced.
-/

set_option autoImplicit false

namespace RunLedger.Service

open RunLedger.Store (Database Tables)

/-- A change that is written but not announced: what committing it answers and announces. -/
structure Staged where
  value : Option Run.Output
  announcement : Announcement

/-- Inserts a run and its output. When the second fails the first stays written. -/
def save (t : Tables) (run : Run) (output : Run.Output) : Except Error Staged × Tables :=
  let id := run.jobId
  match t.insertRun run with
  | .error e => (.error (.storage s!"Could not insert Run {id}" e), t)
  | .ok t =>
    match t.insertOutput id output with
    | .error e => (.error (.storage s!"Could not insert Run Output {id}" e), t)
    | .ok t => (.ok ⟨none, .created id run.actionId⟩, t)

/-- Writes the status and the action of a run. Its output is left alone. -/
def update (t : Tables) (run : Run) : Except Error Staged × Tables :=
  let id := run.jobId
  match t.updateRun run with
  | .error e => (.error (.storage s!"Could not update Run {id}" e), t)
  | .ok t => (.ok ⟨none, .updated id run.status⟩, t)

/-- Writes the status of a run and takes out its output. When the output cannot be read, what was
written stays written. -/
def finish (t : Tables) (run : Run) : Except Error Staged × Tables :=
  let id := run.jobId
  match t.updateRun run with
  | .error e => (.error (.storage s!"Could not update Run {id}" e), t)
  | .ok t =>
    match t.removeOutput id with
    | (.error e, t) => (.error (.storage s!"Could not delete Run Output {id}" e), t)
    | (.ok output, t) => (.ok ⟨output, .ended id run.status output⟩, t)

/-- What the orchestrator makes of taking a job off. -/
inductive Deregistration where
  | accepted
  | refused (e : Orchestrator.Error)
  /-- It does not answer, and the caller does not wait. -/
  | pending

/-- What came of cancelling a run. -/
structure Cancellation where
  /-- The cancelled run; none when the caller did not wait. -/
  result : Option (Except Error Run)
  tables : Tables
  /-- The jobs that the orchestrator was asked to take off, and whether to forget them. -/
  deregistered : List (Uuid × Bool)
  announced : List Announcement

/-- Cancels a run. `commit` is the failure of the commit, if it fails. -/
def cancel (t : Tables) (run : Run) (now : Time.Instant) (remote : Deregistration)
    (commit : Option Store.Error) : Cancellation :=
  let id := run.jobId
  let cancelled := run.cancel now
  let failed (e : Error) (asked : List (Uuid × Bool)) : Cancellation :=
    ⟨some (.error e), t, asked, []⟩
  match t.updateRun cancelled with
  | .error e => failed (.storage s!"Could not update Run {id}" e) []
  | .ok written =>
    match written.removeOutput id with
    | (.error e, _) => failed (.storage s!"Could not delete Run Output {id}" e) []
    | (.ok _, written) =>
      let asked := [(id, false)]
      match remote with
      | .pending => ⟨none, t, asked, []⟩
      | .refused e => failed (.orchestrator s!"Failed to deregister job {id}" e) asked
      | .accepted =>
        match commit with
        | some e => failed (.storage s!"Could not record cancellation of Run {id}" e) asked
        | none => ⟨some (.ok cancelled), written, asked, [.cancelled id]⟩

def getRun (db : Database) (id : Uuid) : Except Error Run := do
  let found ← whileStoring s!"Could not select existing Run by Nomad job ID {id}"
    (db.tables.bind (·.run? id))
  match found with
  | some run => .ok run
  | none => .error (.runNotFound id)

def getOutput (db : Database) (id : Uuid) : Except Error Run.Output := do
  let found ← whileStoring s!"Could not select existing Run Output by Nomad job ID {id}"
    (db.tables.bind (·.output? id))
  match found with
  | some output => .ok output
  | none => .error (.outputNotFound id)

def runsByAction (db : Database) (actionId : Uuid) : Except Error (List Run) :=
  whileStoring s!"Could not select existing Runs by Action ID {actionId}"
    (db.tables.bind (·.runsByAction actionId))

def allRuns (db : Database) : Except Error (List Run) :=
  whileStoring "Could not select Runs" (db.tables.bind (·.allRuns))

/-- Every snapshot of a job's allocations. -/
def allocations (db : Database) (id : Uuid) : Except Error (List Allocation) :=
  whileStoring s!"Could not select allocations of Nomad job ID {id}"
    (db.tables.bind (·.allocations id))

/-- The present state of each of a job's allocations. -/
def latestAllocations (db : Database) (id : Uuid) : Except Error (List Allocation) :=
  whileStoring s!"Could not select latest allocations of Nomad job ID {id}"
    (db.tables.bind (·.latestAllocations id))

def jobLogs (id : Uuid) (r : Except Logs.Error Logs.Output) : Except Error Logs.Output :=
  r.mapError (.logs s!"Could not fetch logs of Nomad job ID {id}")

/-- Says that the logs of an allocation's task group were being fetched. -/
def allocationLogs (allocId taskGroup : String) (r : Except Logs.Error Logs.Output) :
    Except Error Logs.Output :=
  r.mapError (.logs s!"Could not fetch logs of allocation {allocId} task group {taskGroup}")

end RunLedger.Service
