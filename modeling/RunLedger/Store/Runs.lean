import RunLedger.Store.Tables

/-!
Storing and selecting runs and their outputs. Each write is one statement: it takes effect or
changes nothing. Taking out an output that cannot be read is the exception: the row is gone all the
same, and only a transaction around it can bring it back.
-/

set_option autoImplicit false

namespace RunLedger.Store.Tables

def insertRun (t : Tables) (run : Run) : Except Error Tables :=
  if (t.findRun? run.jobId).isSome then .error (.database .unique)
  else .ok { t with runs := t.runs ++ [.ofRun run] }

/-- Writes action, status and end of a run. The time of its creation stays. -/
def updateRun (t : Tables) (run : Run) : Except Error Tables :=
  let new := RunRow.ofRun run
  if (t.findRun? run.jobId).isSome then
    .ok { t with
      runs := t.runs.map fun row =>
        if row.jobId = new.jobId then
          { row with actionId := new.actionId, status := new.status, finishedAt := new.finishedAt }
        else row }
  else .error (.runNotFound run.jobId)

def insertOutput (t : Tables) (id : Uuid) (output : Run.Output) : Except Error Tables :=
  if (t.findOutput? id).isSome then .error (.database .unique)
  else if (t.findRun? id).isNone then .error (.database .foreignKey)
  else .ok { t with outputs := t.outputs ++ [(id.toString, .ofOutput output)] }

/-- Without the output of a run. -/
def dropOutput (t : Tables) (id : Uuid) : Tables :=
  { t with outputs := t.outputs.filter (·.1 ≠ id.toString) }

def removeOutput (t : Tables) (id : Uuid) : Except Error (Option Run.Output) × Tables :=
  ((t.findOutput? id).mapM (·.toOutput id), t.dropOutput id)

def run? (t : Tables) (id : Uuid) : Except Error (Option Run) :=
  match t.findRun? id with
  | none => .ok none
  | some row => (RunRow.toRuns [row]).map List.head?

def output? (t : Tables) (id : Uuid) : Except Error (Option Run.Output) :=
  (t.findOutput? id).mapM (·.toOutput id)

/-- Whether a stamp is later than another; a stray one is later than every time. -/
def isLater : Stamp → Stamp → Bool
  | .millis a, .millis b => b < a
  | .stray, .millis _ => true
  | _, .stray => false

/-- The order of runs: the latest first, runs of one time by their job. -/
def comesFirst (a b : RunRow) : Bool :=
  if a.createdAt = b.createdAt then a.jobId ≤ b.jobId else isLater a.createdAt b.createdAt

def allRuns (t : Tables) : Except Error (List Run) :=
  RunRow.toRuns (t.runs.mergeSort comesFirst)

def runsByAction (t : Tables) (actionId : Uuid) : Except Error (List Run) :=
  RunRow.toRuns ((t.runs.filter (·.actionId = actionId.toString)).mergeSort comesFirst)

end RunLedger.Store.Tables
