import RunLedger.Config
import RunLedger.Decimal.Digits
import RunLedger.Uuid

/-!
The arguments of the command line: options, the name of a command, and the command's own arguments.
The options of the program stand in front of the command, each at most once; a value may be joined
to its option by an equals sign. After two hyphens alone everything is an argument of the command.

Arguments are taken from left to right. A value is judged only when the next option or argument is
met, and what stands in front of a command is judged to the end after the command's own arguments.
So a request for help counts unless something was wrong before it.
-/

set_option autoImplicit false

namespace RunLedger.Command

/-- What can be asked about runs and their jobs. -/
inductive RunsAction where
  | allocations (job : Uuid) (latest : Bool)
  | show (job : Uuid)
  | list (action : Option Uuid)
  | jobLogs (job : Uuid)
  | allocationLogs (allocId taskGroup : String)
  | cancel (job : Uuid)

/-- What the program is asked to do. -/
inductive Action where
  | migrate
  | lastIndex
  | events (handled : Bool)
  | onRuns (action : RunsAction)

/-- An action and the options given with it. -/
structure Invocation where
  action : Action
  configPath : Option String
  overrides : Config.Overrides
  timeoutSecs : Option Nat

/-- What arguments amount to. -/
inductive Usage where
  | invocation (i : Invocation)
  | help
  | version
  | misuse

/-- What a value has to be. -/
inductive Kind where
  | text
  | path
  | seconds
  | id
  deriving DecidableEq, Repr

/-- Whether a value is of a kind. A path may not be empty. -/
def Kind.accepts : Kind → String → Bool
  | text, _ => true
  | path, v => v ≠ ""
  | seconds, v => (Decimal.uint64? v.toList).isSome
  | id, v => (Uuid.parse? v).isSome

/-- What may be given in one part of the command line. -/
structure Grammar where
  options : List (String × Kind)
  /-- Options without a value. -/
  flags : List String
  /-- Arguments that stand for themselves, in order. -/
  plain : List Kind
  /-- The option whose name may be a hyphen and one letter. -/
  letter : Option (Char × String)
  hasVersion : Bool
  commands : List String

namespace Grammar

/-- A part with options, flags and plain arguments. -/
def ofOwn (options : List (String × Kind)) (flags : List String) (plain : List Kind) : Grammar :=
  ⟨options, flags, plain, none, false, []⟩

/-- What belongs to a command, if there is such a command. -/
def ofCommand? (command : String) : Option Grammar :=
  [("migrate", ofOwn [] [] []), ("last-index", ofOwn [] [] []),
    ("events", ofOwn [] ["handled"] []), ("allocs", ofOwn [] ["latest"] [.id]),
    ("run", ofOwn [] [] [.id]), ("runs", ofOwn [("action", .id)] [] []),
    ("logs", ofOwn [] [] [.id]), ("alloc-logs", ofOwn [] [] [.text, .text]),
    ("cancel", ofOwn [] [] [.id])].lookup command

/-- What may stand in front of a command, and the commands. -/
def leading : Grammar where
  options := [("config", .path), ("database-url", .text), ("nomad-addr", .text),
    ("nomad-token", .text), ("loki-addr", .text), ("timeout", .seconds)]
  flags := []
  plain := []
  letter := some ('c', "config")
  hasVersion := true
  commands := ["migrate", "last-index", "events", "allocs", "run", "runs", "logs", "alloc-logs",
    "cancel", "help"]

end Grammar

/-- What was begun and is not judged yet. -/
inductive Waiting where
  | nothing
  | option (name : String) (value : Option String)
  | plain (value : String)
  deriving DecidableEq, Repr

/-- What was read of one part of the command line. -/
structure Progress where
  /-- Values of options by their names; those of flags are empty. -/
  given : List (String × String)
  plain : List String
  waiting : Waiting
  /-- Whether two hyphens alone were met. -/
  onlyPlain : Bool

namespace Progress

def start : Progress := ⟨[], [], .nothing, false⟩

/-- Gives a value to an option or a flag that has none yet. -/
def give (p : Progress) (name value : String) : Option Progress :=
  if (p.given.lookup name).isSome then none
  else some { p with given := (name, value) :: p.given }

/-- Judges what is waiting. -/
def settle (g : Grammar) (p : Progress) : Option Progress :=
  let free := { p with waiting := .nothing }
  match p.waiting with
  | .nothing => some p
  | .option _ none => none
  | .option name (some v) =>
    if ((g.options.lookup name).any (·.accepts v)) then free.give name v else none
  | .plain v =>
    if (g.plain[p.plain.length]?).any (·.accepts v) then some { free with plain := p.plain ++ [v] }
    else none

/-- Gives an option the value that is joined to it, or waits for the value. -/
def option (g : Grammar) (p : Progress) (name : String) (joined : Option String) :
    Option Progress := do
  let p ← p.settle g
  let p := { p with waiting := .option name joined }
  if joined.isSome then p.settle g else some p

/-- Whether an option waits for its value. -/
def expectsValue (p : Progress) : Bool :=
  match p.waiting with
  | .option _ none => true
  | _ => false

end Progress

/-- How a part of the command line ends. -/
inductive Ending where
  | finished (p : Progress)
  | command (p : Progress) (name : String) (rest : List String)
  | help
  | version
  | misuse

/-- Whether an argument is no plain one. -/
def looksLikeOption (s : String) : Bool :=
  s.startsWith "-" && s ≠ "-"

/-- An argument that begins with two hyphens: its name, and the value joined to it. -/
def splitLong (s : String) : String × Option String :=
  let cs := s.toList.drop 2
  let name := cs.takeWhile (· ≠ '=')
  (String.ofList name,
    if name.length < cs.length then some (String.ofList (cs.drop (name.length + 1))) else none)

/-- What is joined to the letter of an option, if there is anything. -/
def joinedToLetter : List Char → Option String
  | [] => none
  | '=' :: v => some (String.ofList v)
  | v => some (String.ofList v)

/-- What an option, a flag or a request for help or the version makes of what was read. -/
def takeOption (g : Grammar) (p : Progress) (arg : String) : Option Progress ⊕ Ending :=
  let ending (e : Ending) := .inr (if (p.settle g).isSome then e else .misuse)
  if arg.startsWith "--" then
    match splitLong arg with
    | (name, joined) =>
      if (g.options.lookup name).isSome then .inl (p.option g name joined)
      else if joined.isSome then .inr .misuse
      else if g.flags.contains name then .inl ((p.settle g).bind (·.give name ""))
      else if name = "help" then ending .help
      else if name = "version" && g.hasVersion then ending .version
      else .inr .misuse
  else
    match arg.toList.drop 1 with
    | 'h' :: _ => ending .help
    | c :: r =>
      if c = 'V' && g.hasVersion then ending .version
      else
        match g.letter with
        | some (l, name) =>
          if c = l then .inl (p.option g name (joinedToLetter r)) else .inr .misuse
        | none => .inr .misuse
    | [] => .inr .misuse

def read (g : Grammar) (p : Progress) : List String → Ending
  | [] =>
    match p.settle g with
    | some p => .finished p
    | none => .misuse
  | arg :: rest =>
    if !p.onlyPlain && !p.expectsValue && g.commands.contains arg then .command p arg rest
    else if !p.onlyPlain && arg = "--" then read g { p with onlyPlain := true } rest
    else if !p.onlyPlain && looksLikeOption arg then
      match takeOption g p arg with
      | .inl (some p) => read g p rest
      | .inl none => .misuse
      | .inr e => e
    else
      match p.onlyPlain, p.waiting with
      | false, .option name none => read g { p with waiting := .option name (some arg) } rest
      | _, _ =>
        match p.settle g with
        | some p =>
          if p.plain.length < g.plain.length then read g { p with waiting := .plain arg } rest
          else .misuse
        | none => .misuse

/-- The action of a command with its own arguments. -/
def action? (command : String) (p : Progress) : Option Action :=
  let has (flag : String) : Bool := (p.given.lookup flag).isSome
  let onJob (f : Uuid → RunsAction) (job : String) : Option Action :=
    (Uuid.parse? job).map fun id => .onRuns (f id)
  match command, p.plain with
  | "migrate", [] => some .migrate
  | "last-index", [] => some .lastIndex
  | "events", [] => some (.events (has "handled"))
  | "allocs", [job] => onJob (.allocations · (has "latest")) job
  | "run", [job] => onJob .show job
  | "runs", [] => ((p.given.lookup "action").mapM Uuid.parse?).map fun id => .onRuns (.list id)
  | "logs", [job] => onJob .jobLogs job
  | "alloc-logs", [allocId, taskGroup] => some (.onRuns (.allocationLogs allocId taskGroup))
  | "cancel", [job] => onJob .cancel job
  | _, _ => none

/-- The variables that stand in for options that are not given. -/
def variableOf : List (String × String) :=
  [("database-url", "JOBTRAIL_DATABASE_URL"), ("nomad-addr", "NOMAD_ADDR"),
    ("nomad-token", "NOMAD_TOKEN"), ("loki-addr", "LOKI_ADDR")]

/-- The invocation of an action with what stands in front of its command. -/
def invocation (environment given : List (String × String)) (action : Action) : Invocation :=
  let setting (name : String) : Option String :=
    given.lookup name <|> (variableOf.lookup name).bind fun v => environment.lookup v
  { action
    configPath := given.lookup "config"
    overrides := {
      databaseUrl := setting "database-url"
      orchestratorAddress := setting "nomad-addr"
      orchestratorToken := setting "nomad-token"
      logsAddress := setting "loki-addr" }
    timeoutSecs := (given.lookup "timeout").bind fun t => Decimal.uint64? t.toList }

/-- Whether help can be given on a command. -/
def isTopic (name : String) : Bool := Grammar.leading.commands.contains name

/-- What arguments amount to, given the variables of the environment. -/
def parse (environment : List (String × String)) (args : List String) : Usage :=
  match read .leading .start args with
  | .help => .help
  | .version => .version
  | .command _ "help" topics =>
    if topics.length ≤ 1 ∧ topics.all isTopic then .help else .misuse
  | .command p name rest =>
    match (Grammar.ofCommand? name).map fun g => read g .start rest with
    | some .help => .help
    | some (.finished own) =>
      match p.settle .leading, action? name own with
      | some p, some action => .invocation (invocation environment p.given action)
      | _, _ => .misuse
    | _ => .misuse
  | _ => .misuse

end RunLedger.Command
