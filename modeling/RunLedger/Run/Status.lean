import RunLedger.Fault
import RunLedger.Json.Record

/-!
The status of a run. Every status but `running` is final.
-/

set_option autoImplicit false

namespace RunLedger.Run

inductive Status where
  | running
  | succeeded
  | failed
  | cancelled
  deriving DecidableEq, Repr

namespace Status

def toString : Status → String
  | running => "running"
  | succeeded => "succeeded"
  | failed => "failed"
  | cancelled => "cancelled"

def parse? (raw : String) : Option Status :=
  [running, succeeded, failed, cancelled].find? (·.toString = raw)

def parse (raw : String) : Except ReadingError Status :=
  match parse? raw with
  | some s => .ok s
  | none => .error (.runStatus raw)

/-- Whether a run with this status has come to its end. -/
def isFinished (s : Status) : Bool := s ≠ running

def toJson (s : Status) : Json.Value := .text s.toString

/-- Reads a status: its word, or a record with the word as its only key and a value that stands for
nothing. -/
def readAs (isNothing : Json.Document → Bool) : Json.Reader Status
  | _, .text s => s.bind parse?
  | _ + 1, .record [(some key, d)] => if isNothing d then parse? key else none
  | _, _ => none

/-- Reads a status; the value beside the word has to be null. -/
def read : Json.Reader Status :=
  readAs fun
    | .null => true
    | _ => false

theorem parse?_toString (s : Status) : parse? s.toString = some s := by
  cases s <;> rfl

end Status

end RunLedger.Run
