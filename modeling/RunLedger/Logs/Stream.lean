import RunLedger.Json.Record
import RunLedger.Json.Scanner
import RunLedger.Logs.Output

/-!
Pages of log streams, as a backend answers them. Every entry is a timestamp, still as text, and a
line. The label `source` says where a stream was written to.
-/

set_option autoImplicit false

namespace RunLedger.Logs

/-- Where a line was written to. -/
inductive Source where
  | stdout
  | stderr
  deriving DecidableEq, Repr

structure Stream where
  source : Source
  /-- Timestamps and lines, in the order of arrival. -/
  entries : List (String × String)
  deriving DecidableEq, Repr

structure Arrival where
  source : Source
  timestamp : String
  text : String
  deriving DecidableEq, Repr

namespace Stream

def sourceOf (labels : List (String × String)) : Source :=
  if labels.lookup "source" = some "stderr" then .stderr else .stdout

def readEntry : Json.Reader (String × String)
  | room + 1, .list [time, text] => do
    return (← Json.Reader.text room time, ← Json.Reader.text room text)
  | _, _ => none

/-- Reads a stream; labels and entries may be left out. -/
def read : Json.Reader Stream := fun room d => do
  let slot ← Json.Reader.slots ["stream", "values"] room d
  let labels ← (slot "stream").withDefault [] (.map .text)
  return {
    source := sourceOf labels
    entries := ← (slot "values").withDefault [] (.list readEntry) }

/-- The entries of a stream. -/
def arrivals (s : Stream) : List Arrival :=
  s.entries.map fun (timestamp, text) => ⟨s.source, timestamp, text⟩

/-- Whether a stream fills a page. -/
def isFull (pageLimit : Nat) (s : Stream) : Bool := pageLimit ≤ s.entries.length

end Stream

/-- A timestamp: a whole number of 64 bits, in nanoseconds since the beginning of 1970. -/
def readTime (raw : String) : Except Error Int :=
  match Decimal.int64? raw.toList with
  | some t => .ok t
  | none => .error (.invalidTimestamp raw)

/-- What came of asking for a page. -/
inductive Exchange where
  /-- The deadline passed before the answer was read. -/
  | expired
  /-- No answer came. -/
  | broken
  | answered (status : Nat) (body : List UInt8)
  deriving DecidableEq, Repr

namespace Exchange

/-- The answer's data: the type of the result and the result. -/
def readData : Json.Reader (String × Json.Value) := fun room d => do
  let slot ← Json.Reader.slots ["resultType", "result"] room d
  return (← (slot "resultType").required .text,
    ← (slot "result").withDefault .null Json.Value.read)

/-- The answer: a record with the field `data`. -/
def readAnswer : Json.Reader (String × Json.Value) := fun room d => do
  let slot ← Json.Reader.slots ["data"] room d
  (slot "data").required readData

def isSuccess (status : Nat) : Bool := 200 ≤ status && status ≤ 299

/-- The streams of a body. The type of the result is judged before the result. -/
def streams (body : Json.Input) : Except Error (List Stream) :=
  match Json.Document.readText? readAnswer body with
  | none => .error .decode
  | some (type, result) =>
    if type ≠ "streams" then .error (.unexpectedResultType type)
    else
      match Json.Reader.list Stream.read Json.nestingLimit (.ofValue result) with
      | some streams => .ok streams
      | none => .error .decode

def page : Exchange → Except Error (List Stream)
  | expired => .error .cancelled
  | broken => .error .request
  | answered status body =>
    let text := Text.Utf8.decode body
    if isSuccess status then streams text else .error (.backend status (Text.Utf8.lossy text))

end Exchange

end RunLedger.Logs
