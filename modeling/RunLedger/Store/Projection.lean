import RunLedger.Allocation
import RunLedger.Json.Relaxed.Scanner
import RunLedger.Store.Tables

/-!
Allocations of a job, projected from the stored events. The history holds every snapshot; the latest
state holds, for each allocation, only the snapshots with the largest index. A snapshot that is left
out is never read, so it cannot fail.

Stored payloads may be JSON that was written by hand. An allocation is written down strictly before
it is read. What snapshots are compared and ordered by is taken from the payload as it stands, and a
number that cannot be computed with fails every question it would decide.
-/

set_option autoImplicit false

namespace RunLedger

/-- What a value is compared by: the characters of a text, and those of the strict writing of a list
or a record. Null has nothing, and so is equal to nothing. Neither have numbers and truth values: no
job has such an identifier, and an allocation that has one cannot be read. -/
def Json.Relaxed.key? : Json.Relaxed → Option (List Nat)
  | .text parts => some (Json.Relaxed.Part.codes parts)
  | .list items => some (Json.Relaxed.codesOf (Json.Relaxed.list items).print)
  | .record fields => some (Json.Relaxed.codesOf (Json.Relaxed.record fields).print)
  | _ => none

namespace Store

/-- A stored snapshot of an allocation. -/
structure Snapshot where
  index : Int
  allocation : Option Json.Relaxed

namespace Snapshot

/-- The snapshot in an event, if it is one that tells of an allocation. -/
def ofRow? (row : EventRow) : Option Snapshot :=
  if row.topic = Event.allocationTopic ∧ row.kind = Event.allocationUpdated then
    some ⟨row.index, (Json.Relaxed.parse? row.payload).bind (·.field? "Allocation")⟩
  else none

def field? (s : Snapshot) (name : String) : Option Json.Relaxed :=
  s.allocation.bind (·.field? name)

def key? (s : Snapshot) : Option (List Nat) := (s.field? "ID").bind (·.key?)

/-- What the job of the allocation is told apart by. -/
def jobKey? (s : Snapshot) : Option (List Nat) := (s.field? "JobID").bind (·.key?)

/-- Whether a field can be computed with. -/
def canUse (s : Snapshot) (name : String) : Bool := (s.field? name).all (·.isComputable)

/-- Whether the allocation belongs to a job. -/
def isOf (job : Uuid) (s : Snapshot) : Bool :=
  s.jobKey? = some (Json.Relaxed.codesOf job.toString)

/-- Whether two snapshots show the same allocation of the same job. -/
def isSameAs (s other : Snapshot) : Bool :=
  s.key?.isSome && s.key? = other.key? && s.jobKey?.isSome && s.jobKey? = other.jobKey?

/-- Whether one of the later snapshots shows the same allocation. They are gone through in order,
and each needs both keys. -/
def isReplacedBy (s : Snapshot) : List Snapshot → Except Error Bool
  | [] => .ok false
  | later :: rest =>
    if !s.canUse "ID" || !later.canUse "ID" then .error (.database .other)
    else if s.isSameAs later then .ok true
    else s.isReplacedBy rest

/-- The creation time as it is stored. A snapshot with any other kind of time cannot be read, so its
place does not matter. -/
def createTime? (s : Snapshot) : Option Int :=
  match s.field? "CreateTime" with
  | some (.number digits) => Decimal.int64? digits
  | _ => none

/-- The order of creation times, a missing one first. -/
def timeLe : Option Int → Option Int → Bool
  | none, _ => true
  | some _, none => false
  | some a, some b => a ≤ b

/-- The order of snapshots: by creation time, those without one first, then by index. -/
def comesFirst (a b : Snapshot) : Bool :=
  if a.createTime? = b.createTime? then a.index ≤ b.index else timeLe a.createTime? b.createTime?

def read (job : Uuid) (s : Snapshot) : Except Error Allocation :=
  let malformed := ReadingError.allocation .json
  match s.allocation.map fun a => Allocation.parse a.print with
  | some (.ok a) => .ok a
  | _ => .error (.decode s!"allocation of job {job}" malformed.message)

def readAll (job : Uuid) (snapshots : List Snapshot) : Except Error (List Allocation) :=
  if snapshots.all (·.canUse "CreateTime") then (snapshots.mergeSort comesFirst).mapM (read job)
  else .error (.database .other)

end Snapshot

namespace Tables

def snapshots (t : Tables) : List Snapshot := t.events.filterMap Snapshot.ofRow?

/-- The snapshots with a larger index, in order of their index. -/
def later (t : Tables) (s : Snapshot) : List Snapshot :=
  (t.snapshots.filter (s.index < ·.index)).mergeSort (·.index ≤ ·.index)

/-- Every snapshot of a job's allocations. -/
def allocations (t : Tables) (job : Uuid) : Except Error (List Allocation) :=
  Snapshot.readAll job (t.snapshots.filter (·.isOf job))

/-- The present state of each of a job's allocations. -/
def latestAllocations (t : Tables) (job : Uuid) : Except Error (List Allocation) := do
  let present ← (t.snapshots.filter (·.isOf job)).filterM fun s =>
    (s.isReplacedBy (t.later s)).map fun replaced => !replaced
  Snapshot.readAll job present

end Tables

end Store

end RunLedger
