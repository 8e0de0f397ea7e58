import RunLedger.Json.Value
import RunLedger.Text.Utf8
import RunLedger.Toml.Document

/-!
Settings: where the database, the orchestrator and the log backend are, and the limits for talking
to them. They come from a file, and single ones may be given from outside. What a file does not set
keeps its default; keys that are not known are passed over.
-/

set_option autoImplicit false

namespace RunLedger

structure DatabaseConfig where
  url : String
  maxConnections : Nat
  busyTimeoutSecs : Nat
  deriving DecidableEq, Repr

structure OrchestratorConfig where
  address : String
  token : Option String
  timeoutSecs : Nat
  deriving DecidableEq, Repr

structure LogsConfig where
  address : String
  /-- Lines asked for in one page. -/
  pageLimit : Nat
  /-- Lines in one listing at most. -/
  maxLines : Nat
  requestTimeoutSecs : Option Nat
  deriving DecidableEq, Repr

structure Config where
  database : DatabaseConfig
  orchestrator : OrchestratorConfig
  logs : LogsConfig
  deriving DecidableEq, Repr

namespace DatabaseConfig

def standard : DatabaseConfig := ⟨"sqlite:jobtrail.db", 10, 30⟩

def toJson (c : DatabaseConfig) : Json.Value :=
  .record [("url", .text c.url), ("max_connections", .int c.maxConnections),
    ("busy_timeout_secs", .int c.busyTimeoutSecs)]

end DatabaseConfig

namespace OrchestratorConfig

def standard : OrchestratorConfig := ⟨"http://127.0.0.1:4646", none, 30⟩

def toJson (c : OrchestratorConfig) : Json.Value :=
  .record [("address", .text c.address), ("token", .option .text c.token),
    ("timeout_secs", .int c.timeoutSecs)]

end OrchestratorConfig

namespace LogsConfig

def standard : LogsConfig := ⟨"http://127.0.0.1:3100", 5000, 10000, none⟩

def toJson (c : LogsConfig) : Json.Value :=
  .record [("address", .text c.address), ("page_limit", .int c.pageLimit),
    ("max_lines", .int c.maxLines),
    ("request_timeout_secs", .option (fun (n : Nat) => .int n) c.requestTimeoutSecs)]

end LogsConfig

namespace Config

def standard : Config := ⟨.standard, .standard, .standard⟩

def toJson (c : Config) : Json.Value :=
  .record [("database", c.database.toJson), ("nomad", c.orchestrator.toJson),
    ("loki", c.logs.toJson)]

/-- What a value sets for each of the keys of a section: a table by the keys, an array by their
order, and a date nothing. -/
private def settings? (keys : List String) : Toml.Value → Option (String → Option Toml.Value)
  | .table fields => some fun key => fields.lookup key
  | .array items => some fun key => (keys.zip items).lookup key
  | .moment => some fun _ => none
  | _ => none

/-- The value of a setting, or its default when it is not set. -/
private def setting {α : Type} (read : Toml.Value → Option α) (standard : α) :
    Option Toml.Value → Option α
  | some v => read v
  | none => some standard

private def text? : Toml.Value → Option String
  | .text s => some s
  | _ => none

private def natBelow? (bound : Nat) : Toml.Value → Option Nat
  | .integer i => if 0 ≤ i ∧ i < bound then some i.toNat else none
  | _ => none

private def word? : Toml.Value → Option Nat := natBelow? UInt64.size

private def readDatabase? (v : Toml.Value) : Option DatabaseConfig := do
  let get ← settings? ["url", "max_connections", "busy_timeout_secs"] v
  let base := DatabaseConfig.standard
  return {
    url := ← setting text? base.url (get "url")
    maxConnections := ← setting (natBelow? UInt32.size) base.maxConnections (get "max_connections")
    busyTimeoutSecs := ← setting word? base.busyTimeoutSecs (get "busy_timeout_secs") }

private def readOrchestrator? (v : Toml.Value) : Option OrchestratorConfig := do
  let get ← settings? ["address", "token", "timeout_secs"] v
  let base := OrchestratorConfig.standard
  return {
    address := ← setting text? base.address (get "address")
    token := ← setting (fun v => (text? v).map some) base.token (get "token")
    timeoutSecs := ← setting word? base.timeoutSecs (get "timeout_secs") }

private def readLogs? (v : Toml.Value) : Option LogsConfig := do
  let get ← settings? ["address", "page_limit", "max_lines", "request_timeout_secs"] v
  let base := LogsConfig.standard
  return {
    address := ← setting text? base.address (get "address")
    pageLimit := ← setting word? base.pageLimit (get "page_limit")
    maxLines := ← setting word? base.maxLines (get "max_lines")
    requestTimeoutSecs :=
      ← setting (fun v => (word? v).map some) base.requestTimeoutSecs
        (get "request_timeout_secs") }

def parse? (source : String) : Option Config := do
  let fields ← Toml.parse? source
  return {
    database := ← setting readDatabase? .standard (fields.lookup "database")
    orchestrator := ← setting readOrchestrator? .standard (fields.lookup "nomad")
    logs := ← setting readLogs? .standard (fields.lookup "loki") }

inductive Source where
  | missing
  | directory
  | file (bytes : List UInt8)

inductive Error where
  | read (path : String)
  | parse (path : String)
  deriving DecidableEq, Repr

def Error.message : Error → String
  | read path => s!"Failed to read config file {path}"
  | parse path => s!"Failed to parse config file {path}"

/-- The settings of a file; a missing one sets nothing. -/
def load (path : String) : Source → Except Error Config
  | .missing => .ok .standard
  | .directory => .error (.read path)
  | .file bytes =>
    match Text.Utf8.strict? (Text.Utf8.decode bytes) with
    | none => .error (.read path)
    | some source =>
      match parse? source with
      | none => .error (.parse path)
      | some c => .ok c

/-- Settings that are given from outside. -/
structure Overrides where
  databaseUrl : Option String
  orchestratorAddress : Option String
  orchestratorToken : Option String
  logsAddress : Option String
  deriving DecidableEq, Repr

/-- The settings with those from outside in place of the file's. -/
def apply (c : Config) (o : Overrides) : Config where
  database := { c.database with url := o.databaseUrl.getD c.database.url }
  orchestrator :=
    { c.orchestrator with
      address := o.orchestratorAddress.getD c.orchestrator.address
      token := o.orchestratorToken <|> c.orchestrator.token }
  logs := { c.logs with address := o.logsAddress.getD c.logs.address }

end Config

end RunLedger
