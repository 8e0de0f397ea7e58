import RunLedger.Command.Execution
import RunLedger.Store.Location

/-!
The command line. Settings are read from the file system and the environment; the database is kept
in memory for one command, and no transport leads to the orchestrator or to the log backend.
-/

set_option autoImplicit false

open RunLedger

namespace RunLedger.Main

def readSource (path : String) : IO Config.Source := do
  try
    return .file (← IO.FS.readBinFile path).toList
  catch e =>
    match e with
    | .noFileOrDirectory .. => return .missing
    | _ => return .directory

/-- Opens a database in memory in place of the one that is named. -/
def connect (location : Store.Location) : Except Store.Error Store.Database :=
  .ok (if location.isWritable then .blank else .sealed)

/-- The surroundings of a command whose settings come from a file. -/
def surroundings (source : Config.Source) (now : Time.Instant) (clockSecs : Nat) :
    Command.Surroundings where
  configFile _ := source
  connect := connect
  deregister _ _ := .refused .request
  listLogs _ limits _ timeoutSecs :=
    (Logs.list limits fun _ _ => if timeoutSecs = some 0 then .expired else .broken).result
  now := now
  clockSecs := clockSecs

/-- Prints the outcome of a command and gives its exit code. -/
def report (o : Command.Outcome) : IO UInt32 := do
  match o.result with
  | .ok printed => IO.print printed.text
  | .error (.because message) => IO.eprintln s!"Error: {message}"
  | .error .aborted => IO.eprintln "Aborted"
  return o.code.toUInt32

def run (args : List String) : IO UInt32 := do
  let environment ← Command.variableOf.filterMapM fun (_, name) => do
    return (← IO.getEnv name).map (name, ·)
  match Command.parse environment args with
  | .misuse => return 2
  | .help => return 0
  | .version =>
    IO.println Command.versionText
    return 0
  | .invocation i =>
    let source ← readSource (i.configPath.getD Command.defaultConfigPath)
    let clockSecs := (← IO.monoMsNow) / 1000
    report (Command.execute (surroundings source .epoch clockSecs) i)

end RunLedger.Main

def main (args : List String) : IO UInt32 := RunLedger.Main.run args
