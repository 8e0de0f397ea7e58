import RunLedger.Logs.Output
import RunLedger.Orchestrator.Basic
import RunLedger.Store.Error

/-!
What can go wrong in a service: a failure below it together with what was being done, or something
that is not there.
-/

set_option autoImplicit false

namespace RunLedger.Service

inductive Error where
  | runNotFound (id : Uuid)
  | outputNotFound (id : Uuid)
  | storage (context : String) (source : Store.Error)
  | orchestrator (context : String) (source : Orchestrator.Error)
  | logs (context : String) (source : Logs.Error)
  deriving DecidableEq

namespace Error

def message : Error → String
  | runNotFound id => s!"Could not select existing Run by Nomad job ID {id}: not found"
  | outputNotFound id => s!"Could not select existing Run Output by Nomad job ID {id}: not found"
  | storage context source => s!"{context}: {source.message}"
  | orchestrator context source => s!"{context}: {source.message}"
  | logs context source => s!"{context}: {source.message}"

/-- Whether an error says that something is not there. -/
def isNotFound : Error → Bool
  | runNotFound _ => true
  | outputNotFound _ => true
  | storage _ source => source.isNotFound
  | _ => false

/-- Whether an error says that a deadline passed. -/
def isCancelled : Error → Bool
  | logs _ .cancelled => true
  | _ => false

end Error

/-- Says what was being done when the store failed. -/
def whileStoring {α : Type} (context : String) (r : Except Store.Error α) : Except Error α :=
  r.mapError (.storage context)

end RunLedger.Service
