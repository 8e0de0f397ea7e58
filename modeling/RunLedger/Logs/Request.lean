import RunLedger.Http.Url
import RunLedger.Logs.Paging
import RunLedger.Text.Quoted

/-!
What a page of a listing is asked for with: a selector, which names the log streams of a query by
labels with quoted values between braces, and the request itself.
-/

set_option autoImplicit false

namespace RunLedger.Logs

def selector (labels : List (String × String)) : String :=
  let matchers := labels.map fun (label, value) => label ++ "=" ++ Text.Quoted.quote value
  "\x7b" ++ String.intercalate ", " matchers ++ "\x7d"

def jobSelector (jobId : String) : String := selector [("job_id", jobId)]

def allocationSelector (allocId taskGroup : String) : String :=
  selector [("alloc_id", allocId), ("task_group", taskGroup)]

/-- A request as it is sent, apart from the end of the time range, which is always the present. -/
structure Request where
  path : String
  query : String
  limit : Nat
  start : Int
  direction : String
  deriving DecidableEq, Repr

/-- The request for a page, if one can be made to the address. -/
def request? (address : String) (limits : Limits) (query : String) (start : Int) :
    Option Request :=
  (Http.Url.parse? (Http.trimSlashes address ++ "/loki/api/v1/query_range")).map fun url =>
    ⟨url.path, query, limits.pageLimit, start, "FORWARD"⟩

end RunLedger.Logs
