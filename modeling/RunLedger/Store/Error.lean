import RunLedger.Event.Uid
import RunLedger.Run.Basic

/-!
What can go wrong in the store.
-/

set_option autoImplicit false

namespace RunLedger.Store

inductive Error where
  | database (fault : DatabaseFault)
  | migration
  | serialization
  | runNotFound (id : Uuid)
  | outputNotFound (id : Uuid)
  | eventNotFound (uid : Event.Uid)
  /-- A stored text could not be read. -/
  | decode (context source : String)
  /-- A stored value has no meaning. -/
  | invalid (text : String)
  deriving DecidableEq

namespace Error

def message : Error → String
  | database fault => s!"Database error: {fault.text}"
  | migration => s!"Migration error: {Fault.migration.text}"
  | serialization => s!"Serialization error: {Fault.json.text}"
  | runNotFound id => s!"Run not found: {id}"
  | outputNotFound id => s!"Run output not found: {id}"
  | eventNotFound uid => s!"Nomad event not found: {uid}"
  | decode context source => s!"Could not decode {context}: {source}"
  | invalid text => s!"Invalid stored data: {text}"

/-- Whether an error says that something is not in the store. -/
def isNotFound : Error → Bool
  | runNotFound _ => true
  | outputNotFound _ => true
  | eventNotFound _ => true
  | _ => false

end Error

def orError {α : Type} (e : Error) : Option α → Except Error α
  | some x => .ok x
  | none => .error e

theorem orError_eq_ok {α : Type} {e : Error} {x : Option α} {a : α} :
    orError e x = .ok a ↔ x = some a := by
  cases x <;> simp [orError]

end RunLedger.Store
