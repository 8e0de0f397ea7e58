import RunLedger.Json.Record
import RunLedger.Run.Status
import RunLedger.Time.Rfc3339
import RunLedger.Uuid

/-!
Runs: one job of the orchestrator, started on behalf of an action, and what it leaves behind: a
result, a failure, both or neither. A side that holds null is there; a side that is absent is not.
-/

set_option autoImplicit false

namespace RunLedger

instance : ToString Uuid := ⟨Uuid.toString⟩

def Uuid.toJson (u : Uuid) : Json.Value := .text u.toString

def Uuid.read : Json.Reader Uuid := .parsed Uuid.parse?

def Time.Instant.toJson (t : Time.Instant) : Json.Value := .text t.toString

def Time.Instant.read : Json.Reader Time.Instant := .parsed Time.Instant.parse?

structure Run where
  jobId : Uuid
  actionId : Uuid
  status : Run.Status
  createdAt : Time.Instant
  finishedAt : Option Time.Instant
  deriving DecidableEq

namespace Run

def new (jobId actionId : Uuid) (now : Time.Instant) : Run :=
  ⟨jobId, actionId, .running, now, none⟩

def finish (run : Run) (status : Status) (now : Time.Instant) : Run :=
  { run with status, finishedAt := some now }

def cancel (run : Run) (now : Time.Instant) : Run := run.finish .cancelled now

@[simp] theorem cancel_jobId (run : Run) (now : Time.Instant) :
    (run.cancel now).jobId = run.jobId :=
  rfl

def fields (run : Run) : List (String × Json.Value) :=
  [("nomad_job_id", run.jobId.toJson), ("action_id", run.actionId.toJson),
    ("status", run.status.toJson), ("created_at", run.createdAt.toJson),
    ("finished_at", .option Time.Instant.toJson run.finishedAt)]

def toJson (run : Run) : Json.Value := .record run.fields

def fieldNames : List String :=
  ["nomad_job_id", "action_id", "status", "created_at", "finished_at"]

def read : Json.Reader Run := fun room d => do
  let slot ← Json.Reader.slots fieldNames room d
  return {
    jobId := ← (slot "nomad_job_id").required Uuid.read
    actionId := ← (slot "action_id").required Uuid.read
    status := ← (slot "status").required Status.read
    createdAt := ← (slot "created_at").required Time.Instant.read
    finishedAt := ← (slot "finished_at").optional Time.Instant.read }

end Run

end RunLedger

namespace RunLedger.Run

structure Output where
  success : Option Json.Value
  failure : Option Json.Value

namespace Output

def ofSuccess (value : Json.Value) : Output := ⟨some value, none⟩

def ofFailure (value : Json.Value) : Output := ⟨none, some value⟩

def toJson (o : Output) : Json.Value :=
  .record [("success", .option id o.success), ("failure", .option id o.failure)]

def read : Json.Reader Output := fun room d => do
  let slot ← Json.Reader.slots ["success", "failure"] room d
  return {
    success := ← (slot "success").optional Json.Value.read
    failure := ← (slot "failure").optional Json.Value.read }

end Output

end RunLedger.Run
