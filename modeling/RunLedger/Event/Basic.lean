import RunLedger.Event.Uid

/-!
Events of the orchestrator's stream. Everything but the mark `handled` is fixed once an event is
stored.
-/

set_option autoImplicit false

namespace RunLedger

structure Event where
  uid : Event.Uid
  topic : String
  kind : String
  key : String
  filterKeys : List String
  index : UInt64
  payload : Json.Value
  handled : Bool

namespace Event

/-- The topic of the events that carry an allocation. -/
def allocationTopic : String := "Allocation"

/-- The kind of the events that an allocation's changes give rise to. -/
def allocationUpdated : String := "AllocationUpdated"

/-- A new event, with the identity that follows from its parts. -/
def new (topic kind key : String) (index : UInt64) (filterKeys : List String)
    (payload : Json.Value) : Event :=
  ⟨.derive topic kind key index, topic, kind, key, filterKeys, index, payload, false⟩

def toJson (e : Event) : Json.Value :=
  .record [("uid", e.uid.toJson), ("topic", .text e.topic), ("type", .text e.kind),
    ("key", .text e.key), ("filter_keys", .texts e.filterKeys), ("index", .nat e.index),
    ("payload", e.payload), ("handled", .bool e.handled)]

def fieldNames : List String :=
  ["uid", "topic", "type", "key", "filter_keys", "index", "payload", "handled"]

/-- Reads an event. Filter keys and the mark may be left out. -/
def read : Json.Reader Event := fun room d => do
  let slot ← Json.Reader.slots fieldNames room d
  return {
    uid := ← (slot "uid").required Uid.read
    topic := ← (slot "topic").required .text
    kind := ← (slot "type").required .text
    key := ← (slot "key").required .text
    filterKeys := ← (slot "filter_keys").withDefault [] (.list .text)
    index := ← (slot "index").required .nat
    payload := ← (slot "payload").required Json.Value.read
    handled := ← (slot "handled").withDefault false .bool }

end Event

end RunLedger
