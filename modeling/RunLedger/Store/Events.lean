import RunLedger.Store.Tables

/-!
Storing and selecting events. The first delivery of an event stores it with the mark unset; later
deliveries change nothing and answer what is stored.
-/

set_option autoImplicit false

namespace RunLedger.Store.Tables

/-- Inserts an event unless its identity is known. -/
def insertEvent (t : Tables) (row : EventRow) : Tables :=
  if (t.findEvent? row.uid).isSome then t else { t with events := t.events ++ [row] }

def insertMark (t : Tables) (uid : String) : Tables :=
  if (t.findMark? uid).isSome then t else { t with marks := t.marks ++ [⟨uid, false⟩] }

def marked? (t : Tables) (mark : Mark) : Option (EventRow × Bool) :=
  (t.findEvent? mark.uid).map (·, mark.handled)

/-- Stores an event and answers what is stored; an answer that cannot be read undoes both
insertions. -/
def saveEvent (t : Tables) (e : Event) : Except Error (Event × Tables) := do
  let row ← EventRow.ofEvent e
  let t := (t.insertEvent row).insertMark row.uid
  let (stored, handled) ← orError (.eventNotFound e.uid) ((t.findMark? row.uid).bind t.marked?)
  return (← stored.toEvent handled, t)

def markEvent (t : Tables) (uid : Event.Uid) (handled : Bool) : Except Error Tables :=
  if (t.findMark? uid.toString).isSome then
    .ok { t with
      marks := t.marks.map fun m => if m.uid = uid.toString then { m with handled } else m }
  else .error (.eventNotFound uid)

/-- The events with a mark of the given value, ordered by their identity. One row that cannot be
read fails all. -/
def eventsByMark (t : Tables) (handled : Bool) : Except Error (List Event) := do
  let rows := (t.marks.filter (·.handled = handled)).filterMap t.marked?
  let events ← rows.mapM fun (row, h) => row.toEvent h
  return events.mergeSort fun e f => e.uid.toString ≤ f.uid.toString

/-- The largest index of a stored event, or zero. -/
def lastIndex (t : Tables) : Except Error UInt64 :=
  let largest := (t.events.map (·.index)).max?.getD 0
  if largest < 0 then .error (.invalid s!"negative nomad event index {largest}")
  else .ok (UInt64.ofNat largest.toNat)

end RunLedger.Store.Tables
