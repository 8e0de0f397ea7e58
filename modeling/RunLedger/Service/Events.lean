import RunLedger.Service.Error
import RunLedger.Store.Database
import RunLedger.Store.Events

/-!
Recording the orchestrator's events and which of them were handled.
-/

set_option autoImplicit false

namespace RunLedger.Service

open RunLedger.Store (Database)

/-- Stores an event; a known one is answered as it is stored. -/
def saveEvent (db : Database) (e : Event) : Except Error Event × Database :=
  let context := s!"Could not insert Nomad event {e.uid} at index {e.index.toNat}"
  match Store.storedIndex e.index with
  | .error fault => (.error (.storage context fault), db)
  | .ok _ =>
    let (r, db) := db.autocommit (·.saveEvent e)
    (whileStoring context r, db)

def updateEvent (db : Database) (e : Event) : Except Error Unit × Database :=
  let (r, db) := db.autocommit fun t => (t.markEvent e.uid e.handled).map ((), ·)
  (whileStoring s!"Could not update Nomad event {e.uid}" r, db)

def markHandled (db : Database) (e : Event) : Except Error Unit × Database :=
  updateEvent db { e with handled := true }

/-- The events that were handled, or those that were not. -/
def eventsByMark (db : Database) (handled : Bool) : Except Error (List Event) :=
  whileStoring s!"Could not select Nomad events with handled = {handled}"
    (db.tables.bind (·.eventsByMark handled))

/-- The index to go on with. -/
def lastIndex (db : Database) : Except Error UInt64 :=
  whileStoring "Could not select last Nomad event index" (db.tables.bind (·.lastIndex))

end RunLedger.Service
