import RunLedger.Fault
import RunLedger.Run.Basic

/-!
What comes of fetching the logs of a job: lines, divided by the stream that they were written to, or
what went wrong.
-/

set_option autoImplicit false

namespace RunLedger.Logs

inductive Error where
  /-- No answer came. -/
  | request
  /-- The backend answered with a status that is no success. -/
  | backend (status : Nat) (body : String)
  /-- The answer has not the form of one. -/
  | decode
  | unexpectedResultType (name : String)
  | invalidTimestamp (raw : String)
  /-- The deadline has passed. -/
  | cancelled
  | config (text : String)
  deriving DecidableEq, Repr

def Error.message : Error → String
  | request => s!"Failed to talk with Loki: {Fault.http.text}"
  | backend status body => s!"Error response {status} from Loki: {body}"
  | decode => s!"Malformed Loki response: {Fault.json.text}"
  | unexpectedResultType name => s!"Unexpected Loki result type: {name}"
  | invalidTimestamp raw => s!"Invalid Loki timestamp: {raw}"
  | cancelled => "Log query cancelled: deadline exceeded"
  | config text => s!"Invalid configuration: {text}"

/-- One line and when it was written. -/
structure Line where
  time : Time.Instant
  text : String
  deriving DecidableEq

namespace Line

def toJson (l : Line) : Json.Value := .record [("time", l.time.toJson), ("text", .text l.text)]

def read : Json.Reader Line := fun room d => do
  let slot ← Json.Reader.slots ["time", "text"] room d
  return {
    time := ← (slot "time").required Time.Instant.read
    text := ← (slot "text").required .text }

end Line

structure Output where
  stdout : List Line
  stderr : List Line
  deriving DecidableEq

namespace Output

def empty : Output := ⟨[], []⟩

def size (o : Output) : Nat := o.stdout.length + o.stderr.length

def toJson (o : Output) : Json.Value :=
  .record [("stdout", .list (o.stdout.map Line.toJson)),
    ("stderr", .list (o.stderr.map Line.toJson))]

def read : Json.Reader Output := fun room d => do
  let slot ← Json.Reader.slots ["stdout", "stderr"] room d
  return {
    stdout := ← (slot "stdout").required (.list Line.read)
    stderr := ← (slot "stderr").required (.list Line.read) }

end Output

end RunLedger.Logs
