import RunLedger.Json.Scanner
import RunLedger.Run.Basic

/-!
What is announced about a run. As JSON an announcement is a record whose field `type` says which
kind it is; its place among the fields does not matter.
-/

set_option autoImplicit false

namespace RunLedger

inductive Announcement where
  | created (jobId actionId : Uuid)
  | updated (jobId : Uuid) (status : Run.Status)
  /-- The run came to its end; the output is what the same step took out of the store. -/
  | ended (jobId : Uuid) (status : Run.Status) (output : Option Run.Output)
  | cancelled (jobId : Uuid)

namespace Announcement

def jobId : Announcement → Uuid
  | created id _ => id
  | updated id _ => id
  | ended id _ _ => id
  | cancelled id => id

inductive Kind where
  | created
  | updated
  | ended
  | cancelled
  deriving DecidableEq, Repr

def Kind.toString : Kind → String
  | created => "run.created"
  | updated => "run.updated"
  | ended => "run.ended"
  | cancelled => "run.cancelled"

def Kind.parse? (raw : String) : Option Kind :=
  [created, updated, ended, cancelled].find? (·.toString = raw)

def kind : Announcement → Kind
  | created _ _ => .created
  | updated _ _ => .updated
  | ended _ _ _ => .ended
  | cancelled _ => .cancelled

def ownFields : Announcement → List (String × Json.Value)
  | created _ actionId => [("action_id", actionId.toJson)]
  | updated _ status => [("status", status.toJson)]
  | ended _ status output =>
    [("status", status.toJson), ("output", .option Run.Output.toJson output)]
  | cancelled _ => []

def toJson (a : Announcement) : Json.Value :=
  .record (("type", .text a.kind.toString) :: ("nomad_job_id", a.jobId.toJson) :: a.ownFields)

/-- The names of the fields of a kind, in declared order. -/
def Kind.fieldNames : Kind → List String
  | created => ["nomad_job_id", "action_id"]
  | updated => ["nomad_job_id", "status"]
  | ended => ["nomad_job_id", "status", "output"]
  | cancelled => ["nomad_job_id"]

/-- Inside an announcement an empty record stands for nothing, as null does. -/
def readStatus : Json.Reader Run.Status :=
  Run.Status.readAs fun
    | .null => true
    | .record [] => true
    | _ => false

def Kind.read (kind : Kind) : Json.Reader Announcement := fun room d => do
  let slot ← Json.Reader.slots kind.fieldNames room d
  let jobId ← (slot "nomad_job_id").required Uuid.read
  match kind with
  | created => return .created jobId (← (slot "action_id").required Uuid.read)
  | updated => return .updated jobId (← (slot "status").required readStatus)
  | ended =>
    return .ended jobId (← (slot "status").required readStatus)
      (← (slot "output").optional Run.Output.read)
  | cancelled => return .cancelled jobId

/-- Whether a field is the one that names the kind. -/
def isTag (f : Option String × Json.Document) : Bool := f.1 = some "type"

/-- Reads an announcement: a record with one field `type`, or a list that begins with the name of
the kind. Fields may stand before the kind is known, so each of them has to be readable, known or
not. -/
def read : Json.Reader Announcement
  | room + 1, .record fields => do
    let readable := fields.all fun f => f.1.isSome && (Json.Value.read room f.2).isSome
    guard readable
    match fields.filter isTag with
    | [(_, .text (some tag))] =>
      (← Kind.parse? tag).read (room + 1) (.record (fields.filter (!isTag ·)))
    | _ => none
  | room + 1, .list (.text (some tag) :: items) => do
    guard (items.all fun d => (Json.Value.read room d).isSome)
    (← Kind.parse? tag).read (room + 1) (.list items)
  | _, _ => none

end Announcement

end RunLedger
