import RunLedger.Json.Printer
import RunLedger.Json.Scanner
import RunLedger.Run.Basic
import RunLedger.Store.Error
import RunLedger.Text.Quoted

/-!
Runs and their outputs as rows. Times are kept as milliseconds, rounded down. A time that was put
into a row from outside may be something else than a whole number; such a row cannot be fetched. Of
an output the JSON text of each side that is there is kept; the text of null is there.
-/

set_option autoImplicit false

namespace RunLedger.Store

/-- What a column of times holds. -/
inductive Stamp where
  | millis (ms : Int)
  /-- A value that is no whole number. -/
  | stray
  deriving DecidableEq

def Stamp.ofInstant (t : Time.Instant) : Stamp := .millis t.toMillis

def Stamp.toInstant : Stamp → Except Error Time.Instant
  | millis ms => orError (.invalid s!"timestamp {ms} out of range") (Time.Instant.ofMillis? ms)
  | stray => .error (.database .column)

/-- Whether a stamp can be fetched as a number. -/
def Stamp.isNumber : Stamp → Bool
  | millis _ => true
  | stray => false

structure RunRow where
  jobId : String
  actionId : String
  status : String
  createdAt : Stamp
  finishedAt : Option Stamp
  deriving DecidableEq

namespace RunRow

def ofRun (run : Run) : RunRow where
  jobId := run.jobId.toString
  actionId := run.actionId.toString
  status := run.status.toString
  createdAt := .ofInstant run.createdAt
  finishedAt := run.finishedAt.map .ofInstant

/-- The identifier in a column; `what` names the column in the error. -/
def readId (what raw : String) : Except Error Uuid :=
  orError (.decode s!"{what} {Text.Quoted.quote raw}" Fault.uuid.text) (Uuid.parse? raw)

/-- Whether every column holds what it promises. -/
def isFetchable (row : RunRow) : Bool :=
  row.createdAt.isNumber && row.finishedAt.all Stamp.isNumber

/-- The run of a row that was fetched. -/
def toRun (row : RunRow) : Except Error Run := do
  let jobId ← readId "nomad job id" row.jobId
  let actionId ← readId "action id" row.actionId
  let status ← match Run.Status.parse row.status with
    | .ok s => .ok s
    | .error e => .error (.decode s!"status of run {jobId}" e.message)
  let createdAt ← row.createdAt.toInstant
  let finishedAt ← row.finishedAt.mapM Stamp.toInstant
  return ⟨jobId, actionId, status, createdAt, finishedAt⟩

/-- The runs of rows: all rows are fetched before the first is read. -/
def toRuns (rows : List RunRow) : Except Error (List Run) :=
  if rows.all isFetchable then rows.mapM toRun else .error (.database .column)

end RunRow

structure OutputRow where
  success : Option String
  failure : Option String
  deriving DecidableEq

namespace OutputRow

def ofOutput (o : Run.Output) : OutputRow :=
  ⟨o.success.map Json.Value.print, o.failure.map Json.Value.print⟩

/-- The value of one side; `which` names the side in the error. -/
def readSide (which : String) (id : Uuid) (raw : Option String) :
    Except Error (Option Json.Value) :=
  raw.mapM fun text =>
    orError (.decode s!"{which} output of run {id}" Fault.json.text) (Json.Value.parse? text)

/-- The output of a row; success is read first. -/
def toOutput (row : OutputRow) (id : Uuid) : Except Error Run.Output := do
  let success ← readSide "success" id row.success
  let failure ← readSide "failure" id row.failure
  return ⟨success, failure⟩

end OutputRow

end RunLedger.Store
