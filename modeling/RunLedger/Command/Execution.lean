import RunLedger.Command.Arguments
import RunLedger.Json.Printer
import RunLedger.Logs.Paging
import RunLedger.Logs.Request
import RunLedger.Service.Ledger
import RunLedger.Store.Location

/-!
Carrying out a command: what it prints, how it ends, and the database it leaves behind. Settings are
read first, then the deadline is set and the database is opened, and the clients of the orchestrator
and the log backend are made last, by the commands that belong to runs.
-/

set_option autoImplicit false

namespace RunLedger.Command

open RunLedger.Store (Database)

/-- The file that settings are read from when no other is named. -/
def defaultConfigPath : String := "jobtrail.toml"

def versionText : String := "jobtrail 0.1.0"

/-- What surrounds a command. -/
structure Surroundings where
  configFile : String → Config.Source
  connect : Store.Location → Except Store.Error Database
  /-- Takes a job off the orchestrator. -/
  deregister : OrchestratorConfig → Uuid → Service.Deregistration
  /-- Lists the lines of a query, before a deadline in seconds. -/
  listLogs : LogsConfig → Logs.Limits → String → Option Nat → Except Logs.Error Logs.Output
  now : Time.Instant
  /-- The seconds that the clock for deadlines shows. -/
  clockSecs : Nat

inductive Printed where
  | line (text : String)
  | json (value : Json.Value)

def Printed.text : Printed → String
  | line text => text ++ "\n"
  | json value => value.pretty ++ "\n"

inductive Failure where
  | because (message : String)
  /-- A setting that nothing can be done with stops the program at once. -/
  | aborted

/-- How a command ended: with something printed, or with a failure. -/
structure Outcome where
  result : Except Failure Printed
  /-- The settings, once they were read. -/
  config : Option Config
  /-- The database that was opened, as the command left it. -/
  database : Option Database
  /-- The jobs that the orchestrator was asked to take off, and whether to forget them. -/
  deregistered : List (Uuid × Bool)

def Outcome.code (o : Outcome) : Nat :=
  match o.result with
  | .ok _ => 0
  | .error (.because _) => 1
  | .error .aborted => 101

/-- The message of an error that a deadline may have caused. -/
def logsMessage (timeoutSecs : Option Nat) (e : Service.Error) : String :=
  match timeoutSecs with
  | some secs =>
    if e.isCancelled then
      s!"Log query did not finish within {secs}s; raise --timeout to wait longer"
    else e.message
  | none => e.message

def runJson (run : Run) (output : Option Run.Output) : Json.Value :=
  .record (run.fields ++ [("output", .option Run.Output.toJson output)])

/-- Shows a run; that it has no output is no error. -/
def showRun (db : Database) (job : Uuid) : Except Service.Error Json.Value := do
  let run ← Service.getRun db job
  match Service.getOutput db job with
  | .ok output => return runJson run (some output)
  | .error e => if e.isNotFound then return runJson run none else throw e

/-- Cancels a run that has not come to its end, on a ledger of its own. -/
def cancel (s : Surroundings) (config : OrchestratorConfig) (db : Database) (job : Uuid) :
    Except Service.Error String × Service.Ledger :=
  let ledger := Service.Ledger.ofDatabase db
  match Service.getRun db job with
  | .error e => (.error e, ledger)
  | .ok run =>
    if run.status.isFinished then (.ok s!"Run {job} already {run.status.toString}", ledger)
    else
      let (result, ledger) := ledger.cancel run s.now (s.deregister config job)
      match result with
      | some (.ok run) => (.ok s!"Run {job} {run.status.toString}", ledger)
      | some (.error e) => (.error e, ledger)
      | none => (.error (.orchestrator s!"Failed to deregister job {job}" .request), ledger)

/-- What an answer of the service makes a command print. -/
def shown {α : Type} (print : α → Printed) (r : Except Service.Error α) : Except Failure Printed :=
  (r.mapError fun e => .because e.message).map print

/-- The last second that a deadline can be set to. -/
def lastSecond : Nat := 0x7FFFFFFFFFFFFFFF

/-- Opens the database of the settings. Without a single connection there is nothing to open. -/
def openDatabase (s : Surroundings) (c : DatabaseConfig) : Except Failure Database := do
  let refused : Store.Error → Failure := fun _ => .because "Failed to create database pool"
  let location ← (Store.Location.parse c.url).mapError refused
  if c.maxConnections = 0 then throw .aborted
  (Store.Database.requireWait c.busyTimeoutSecs).mapError refused
  (s.connect location).mapError refused

private def listing {α : Type} (toJson : α → Json.Value) (xs : List α) : Json.Value :=
  .list (xs.map toJson)

/-- Carries out an action on runs: what it prints, the database after it, and the jobs that the
orchestrator was asked to take off. -/
def executeOnRuns (s : Surroundings) (timeoutSecs : Option Nat) (config : Config) (db : Database)
    (limits : Logs.Limits) (action : RunsAction) :
    Except Failure Printed × Database × List (Uuid × Bool) :=
  let logs (query : String)
      (inContext : Except Logs.Error Logs.Output → Except Service.Error Logs.Output) :
      Except Failure Printed :=
    let r := inContext (s.listLogs config.logs limits query timeoutSecs)
    (r.mapError fun e => .because (logsMessage timeoutSecs e)).map fun o => .json o.toJson
  match action with
  | .allocations job latest =>
    let r := if latest then Service.latestAllocations db job else Service.allocations db job
    (shown (fun as => .json (listing Allocation.toJson as)) r, db, [])
  | .show job => (shown .json (showRun db job), db, [])
  | .list action =>
    let r := match action with
      | some id => Service.runsByAction db id
      | none => Service.allRuns db
    (shown (fun runs => .json (listing Run.toJson runs)) r, db, [])
  | .jobLogs job => (logs (Logs.jobSelector job.toString) (Service.jobLogs job), db, [])
  | .allocationLogs allocId taskGroup =>
    (logs (Logs.allocationSelector allocId taskGroup) (Service.allocationLogs allocId taskGroup),
      db, [])
  | .cancel job =>
    let (r, ledger) := cancel s config.orchestrator db job
    (shown .line r, ledger.database, ledger.deregistered)

def executeOn (s : Surroundings) (i : Invocation) (config : Config) (db : Database) :
    Except Failure Printed × Database × List (Uuid × Bool) :=
  match i.action with
  | .migrate =>
    match db.migrate with
    | .ok db => (.ok (.line "Migrations applied"), db, [])
    | .error _ => (.error (.because "Failed to run migrations"), db, [])
  | .lastIndex => (shown (fun n => .line s!"{n.toNat}") (Service.lastIndex db), db, [])
  | .events handled =>
    let r := Service.eventsByMark db handled
    (shown (fun events => .json (listing Event.toJson events)) r, db, [])
  | .onRuns action =>
    match Logs.Limits.new config.logs.pageLimit config.logs.maxLines with
    | .error _ => (.error (.because "Failed to create Loki client"), db, [])
    | .ok limits => executeOnRuns s i.timeoutSecs config db limits action

def execute (s : Surroundings) (i : Invocation) : Outcome :=
  let path := i.configPath.getD defaultConfigPath
  match Config.load path (s.configFile path) with
  | .error e => ⟨.error (.because e.message), none, none, []⟩
  | .ok file =>
    let config := file.apply i.overrides
    if i.timeoutSecs.any fun secs => lastSecond < s.clockSecs + secs then
      ⟨.error .aborted, some config, none, []⟩
    else
      match openDatabase s config.database with
      | .error e => ⟨.error e, some config, none, []⟩
      | .ok db =>
        let (result, db, deregistered) := executeOn s i config db
        ⟨result, some config, some db, deregistered⟩

/-- The first line of what an outcome says about its failure. -/
def Outcome.complaint? (o : Outcome) : Option String :=
  match o.result with
  | .error (.because message) =>
    some ("Error: " ++ String.ofList (message.toList.takeWhile (· ≠ '\n')))
  | _ => none

end RunLedger.Command
