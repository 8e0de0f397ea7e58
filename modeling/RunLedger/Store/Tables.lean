import RunLedger.Store.EventRow
import RunLedger.Store.RunRow

/-!
The tables of the store: events and their marks, runs and their outputs. Rows are kept in the order
in which they were inserted. A mark needs its event and an output its run; events are never changed
or removed.
-/

set_option autoImplicit false

namespace RunLedger.Store

/-- Whether an event was handled, by its identity. -/
structure Mark where
  uid : String
  handled : Bool
  deriving DecidableEq

structure Tables where
  events : List EventRow
  marks : List Mark
  runs : List RunRow
  /-- Outputs by the identifier of their run. -/
  outputs : List (String × OutputRow)
  deriving DecidableEq

namespace Tables

def empty : Tables := ⟨[], [], [], []⟩

def findEvent? (t : Tables) (uid : String) : Option EventRow := t.events.find? (·.uid = uid)

def findMark? (t : Tables) (uid : String) : Option Mark := t.marks.find? (·.uid = uid)

def findRun? (t : Tables) (id : Uuid) : Option RunRow := t.runs.find? (·.jobId = id.toString)

def findOutput? (t : Tables) (id : Uuid) : Option OutputRow := t.outputs.lookup id.toString

end Tables

end RunLedger.Store
