import RunLedger.Store.Cell
import RunLedger.Store.Projection
import RunLedger.Store.Tables

/-!
Changes to single rows, past the operations of the store. Only the constraints of the tables hold
here: identities are unique, marks and outputs need what they belong to, columns convert what they
are given to their kind, and stored events cannot be touched.
-/

set_option autoImplicit false

namespace RunLedger.Store

/-- The columns of a run that may be set. -/
inductive RunColumn where
  | actionId
  | status
  | createdAt
  | finishedAt
  deriving DecidableEq, Repr

def RunColumn.parse? (name : String) : Option RunColumn :=
  [("action_id", actionId), ("status", status), ("created_at", createdAt),
    ("finished_at", finishedAt)].lookup name

/-- Puts a value into a column. Only the end of a run may be null. -/
def RunRow.set (row : RunRow) (column : RunColumn) (cell : Cell) : Except Error RunRow :=
  let missing : Error := .database .notNull
  match column with
  | .actionId => (orError missing cell.toText).map fun v => { row with actionId := v }
  | .status => (orError missing cell.toText).map fun v => { row with status := v }
  | .createdAt => (orError missing cell.toStamp).map fun v => { row with createdAt := v }
  | .finishedAt => .ok { row with finishedAt := cell.toStamp }

namespace Tables

/-- Sets a column of a run and says how many rows there were. -/
def setRun (t : Tables) (id : Uuid) (column : RunColumn) (cell : Cell) :
    Except Error (Nat × Tables) := do
  let isMeant (row : RunRow) : Bool := row.jobId = id.toString
  let runs ← t.runs.mapM fun row => if isMeant row then row.set column cell else .ok row
  return ((t.runs.filter isMeant).length, { t with runs })

/-- Sets both sides of an output and says how many rows there were. -/
def setOutput (t : Tables) (id : Uuid) (row : OutputRow) : Nat × Tables :=
  let isMeant (o : String × OutputRow) : Bool := o.1 = id.toString
  ((t.outputs.filter isMeant).length,
    { t with outputs := t.outputs.map fun o => if isMeant o then (o.1, row) else o })

/-- Whether the index over the jobs of allocations takes an event: its payload has to be JSON, and
the job must be something to compute with. -/
def isIndexable (row : EventRow) : Bool :=
  (Snapshot.ofRow? row).all fun s =>
    (Json.Relaxed.parse? row.payload).isSome && s.canUse "JobID"

/-- Inserts the row of an event, with an index that may not be missing. -/
def insertEventRow (t : Tables) (row : EventRow) (index : Option Int) : Except Error Tables :=
  match index with
  | none => .error (.database .notNull)
  | some index =>
    if !isIndexable row then .error (.database .other)
    else if (t.findEvent? row.uid).isSome then .error (.database .unique)
    else .ok { t with events := t.events ++ [{ row with index }] }

def insertMarkRow (t : Tables) (mark : Mark) : Except Error Tables :=
  if (t.findMark? mark.uid).isSome then .error (.database .unique)
  else if (t.findEvent? mark.uid).isNone then .error (.database .foreignKey)
  else .ok { t with marks := t.marks ++ [mark] }

/-- Changing or removing every event: a trigger stops it as soon as there is one. -/
def touchEvents (t : Tables) : Except Error (Nat × Tables) :=
  if t.events.isEmpty then .ok (0, t)
  else .error (.database (.trigger "nomad_events is append-only"))

end Tables

end RunLedger.Store
