import RunLedger.Announcement.Basic

/-!
An announcement on its way: with an identity of its own and the time it was made.
-/

set_option autoImplicit false

namespace RunLedger.Announcement

structure Envelope where
  id : Uuid
  timestamp : Time.Instant
  event : Announcement

namespace Envelope

def toJson (e : Envelope) : Json.Value :=
  .record [("id", e.id.toJson), ("timestamp", e.timestamp.toJson), ("event", e.event.toJson)]

def read : Json.Reader Envelope := fun room d => do
  let slot ← Json.Reader.slots ["id", "timestamp", "event"] room d
  return {
    id := ← (slot "id").required Uuid.read
    timestamp := ← (slot "timestamp").required Time.Instant.read
    event := ← (slot "event").required Announcement.read }

end Envelope

end RunLedger.Announcement
