import RunLedger.Event.Basic
import RunLedger.Json.Printer
import RunLedger.Json.Scanner
import RunLedger.Store.Error

/-!
Events as rows of text. Indices are kept as signed numbers of 64 bits, so the upper half of the
indices cannot be stored. A row is read column by column: identity, filter keys, payload, index.
-/

set_option autoImplicit false

namespace RunLedger.Store

structure EventRow where
  uid : String
  topic : String
  kind : String
  key : String
  filterKeys : String
  index : Int
  payload : String
  deriving DecidableEq

def storedIndex (index : UInt64) : Except Error Int :=
  if Decimal.inInt64 index.toNat then .ok index.toNat
  else .error (.invalid s!"nomad event index {index.toNat} out of range")

namespace EventRow

def ofEvent (e : Event) : Except Error EventRow := do
  let index ← storedIndex e.index
  return {
    uid := e.uid.toString
    topic := e.topic
    kind := e.kind
    key := e.key
    filterKeys := (Json.Value.texts e.filterKeys).print
    index
    payload := e.payload.print }

def toEvent (row : EventRow) (handled : Bool) : Except Error Event := do
  let uid ← match Event.Uid.parse row.uid with
    | .ok uid => .ok uid
    | .error e => .error (.decode s!"uid of nomad event {row.uid}" e.message)
  let filterKeys ← orError (.decode s!"filter keys of nomad event {uid}" Fault.json.text)
    (Json.Document.readString? (.list .text) row.filterKeys)
  let payload ← orError (.decode s!"payload of nomad event {uid}" Fault.json.text)
    (Json.Value.parse? row.payload)
  if row.index < 0 then .error (.invalid s!"negative index {row.index} on nomad event {uid}")
  else
    return {
      uid
      topic := row.topic
      kind := row.kind
      key := row.key
      filterKeys
      index := UInt64.ofNat row.index.toNat
      payload
      handled }

end EventRow

end RunLedger.Store
