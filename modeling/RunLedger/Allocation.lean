import RunLedger.Fault
import RunLedger.Json.Record
import RunLedger.Json.Scanner

/-!
Snapshots of an allocation, as events carry them: the fields that the ledger looks at. All but the
two identities may be left out.
-/

set_option autoImplicit false

namespace RunLedger

/-- The state of one task of an allocation. -/
structure TaskState where
  state : String
  failed : Bool
  restarts : UInt64
  deriving DecidableEq

namespace TaskState

def toJson (t : TaskState) : Json.Value :=
  .record [("State", .text t.state), ("Failed", .bool t.failed), ("Restarts", .nat t.restarts)]

/-- Reads a task state; every field may be left out. -/
def read : Json.Reader TaskState := fun room d => do
  let slot ← Json.Reader.slots ["State", "Failed", "Restarts"] room d
  return {
    state := ← (slot "State").withDefault "" .text
    failed := ← (slot "Failed").withDefault false .bool
    restarts := ← (slot "Restarts").withDefault 0 .nat }

end TaskState

structure Allocation where
  id : String
  name : String
  nodeId : String
  jobId : String
  taskGroup : String
  desiredStatus : String
  clientStatus : String
  clientDescription : String
  /-- States by the name of the task, in ascending order. -/
  taskStates : Option (List (String × TaskState))
  createIndex : UInt64
  modifyIndex : UInt64
  /-- Nanoseconds since the beginning of 1970. -/
  createTime : Int
  /-- Nanoseconds since the beginning of 1970. -/
  modifyTime : Int
  deriving DecidableEq

namespace Allocation

/-- The states of tasks as JSON, by the names of the tasks. -/
def taskStatesJson (states : List (String × TaskState)) : Json.Value :=
  .record (states.map fun (name, s) => (name, s.toJson))

/-- An allocation as JSON; every field is written. -/
def toJson (a : Allocation) : Json.Value :=
  .record [("ID", .text a.id), ("Name", .text a.name), ("NodeID", .text a.nodeId),
    ("JobID", .text a.jobId), ("TaskGroup", .text a.taskGroup),
    ("DesiredStatus", .text a.desiredStatus), ("ClientStatus", .text a.clientStatus),
    ("ClientDescription", .text a.clientDescription),
    ("TaskStates", .option taskStatesJson a.taskStates), ("CreateIndex", .nat a.createIndex),
    ("ModifyIndex", .nat a.modifyIndex), ("CreateTime", .int a.createTime),
    ("ModifyTime", .int a.modifyTime)]

def fieldNames : List String :=
  ["ID", "Name", "NodeID", "JobID", "TaskGroup", "DesiredStatus", "ClientStatus",
    "ClientDescription", "TaskStates", "CreateIndex", "ModifyIndex", "CreateTime", "ModifyTime"]

def read : Json.Reader Allocation := fun room d => do
  let slot ← Json.Reader.slots fieldNames room d
  return {
    id := ← (slot "ID").required .text
    name := ← (slot "Name").withDefault "" .text
    nodeId := ← (slot "NodeID").withDefault "" .text
    jobId := ← (slot "JobID").required .text
    taskGroup := ← (slot "TaskGroup").withDefault "" .text
    desiredStatus := ← (slot "DesiredStatus").withDefault "" .text
    clientStatus := ← (slot "ClientStatus").withDefault "" .text
    clientDescription := ← (slot "ClientDescription").withDefault "" .text
    taskStates := ← (slot "TaskStates").withDefault none (.nullable (.map TaskState.read))
    createIndex := ← (slot "CreateIndex").withDefault 0 .nat
    modifyIndex := ← (slot "ModifyIndex").withDefault 0 .nat
    createTime := ← (slot "CreateTime").withDefault 0 .int
    modifyTime := ← (slot "ModifyTime").withDefault 0 .int }

def parse (raw : String) : Except ReadingError Allocation :=
  match Json.Document.readString? read raw with
  | some a => .ok a
  | none => .error (.allocation .json)

end Allocation

end RunLedger
