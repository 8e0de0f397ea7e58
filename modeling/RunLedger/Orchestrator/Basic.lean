import RunLedger.Http.Charset
import RunLedger.Http.Url
import RunLedger.Json.Record
import RunLedger.Json.Scanner
import RunLedger.Fault

/-!
Stopping jobs of the orchestrator: the request that takes a job off, and what its answer means.
-/

set_option autoImplicit false

namespace RunLedger.Orchestrator

inductive Error where
  /-- No request could be made, or no usable answer came. -/
  | request
  /-- The orchestrator answered with a status that is no success. -/
  | backend (status : Nat) (body : String)
  | config (text : String)
  deriving DecidableEq, Repr

def Error.message : Error → String
  | request => s!"HTTP request to Nomad failed: {Fault.http.text}"
  | backend status body => s!"Error response {status} from Nomad: {body}"
  | config text => s!"Invalid configuration: {text}"

/-- The evaluation that taking a job off gives rise to. -/
structure Response where
  evalId : String
  evalCreateIndex : UInt64
  jobModifyIndex : UInt64
  deriving DecidableEq, Repr

namespace Response

/-- Reads a response; every field may be left out. -/
def read : Json.Reader Response := fun room d => do
  let slot ← Json.Reader.slots ["EvalID", "EvalCreateIndex", "JobModifyIndex"] room d
  return {
    evalId := ← (slot "EvalID").withDefault "" .text
    evalCreateIndex := ← (slot "EvalCreateIndex").withDefault 0 .nat
    jobModifyIndex := ← (slot "JobModifyIndex").withDefault 0 .nat }

def toJson (r : Response) : Json.Value :=
  .record [("eval_id", .text r.evalId), ("eval_create_index", .nat r.evalCreateIndex),
    ("job_modify_index", .nat r.jobModifyIndex)]

end Response

structure Request where
  method : String
  /-- Path and query. -/
  target : String
  token : Option String
  deriving DecidableEq, Repr

/-- A token as a header carries it: without blanks around it. Controls cannot be sent. -/
def headerValue? (token : String) : Option String :=
  let isSendable (c : Char) := c = '\t' || (0x20 ≤ c.toNat && c.toNat ≠ 0x7F)
  if token.toList.all isSendable then some token.trimAscii.toString else none

/-- The request that takes a job off. The job's name is put into the address as it is. -/
def deregistration (address : String) (token : Option String) (jobId : String) (purge : Bool) :
    Except Error Request :=
  let url? := Http.Url.parse? (Http.trimSlashes address ++ "/v1/job/" ++ jobId)
  match url?, token.mapM headerValue? with
  | some url, some token =>
    .ok ⟨"DELETE", (url.withQuery [("purge", if purge then "true" else "false")]).target, token⟩
  | _, _ => .error .request

inductive Exchange where
  /-- No answer came. -/
  | broken
  | answered (status : Nat) (contentType : Option String) (body : List UInt8)
  deriving DecidableEq, Repr

/-- The response that an exchange gives. -/
def Exchange.response : Exchange → Except Error Response
  | broken => .error .request
  | answered status contentType body =>
    if 200 ≤ status ∧ status ≤ 299 then
      match Json.Document.readText? Response.read (Text.Utf8.decode body) with
      | some r => .ok r
      | none => .error .request
    else .error (.backend status (Http.bodyText contentType body))

end RunLedger.Orchestrator
