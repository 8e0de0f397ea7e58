import RunLedger.Json.Document

/-!
Reading typed values out of documents. A value with named fields may be written as a record, with
its fields in any order, or as a list of its fields in declared order. Fields that are not known are
passed over without a look at their values; a known field may be given once only.
-/

set_option autoImplicit false

namespace RunLedger.Json

variable {α : Type}

/-- What a document offers for a known field: a value with the levels it may still open, nothing, or
nothing because a list ended before it. -/
inductive Slot where
  | given (room : Nat) (d : Document)
  | absent
  | cutOff

namespace Slot

def required (read : Reader α) : Slot → Option α
  | given room d => read room d
  | _ => none

/-- A field with a default. Null is a value like any other. -/
def withDefault (x : α) (read : Reader α) : Slot → Option α
  | given room d => read room d
  | _ => some x

end Slot

namespace Reader

def nullable (read : Reader α) : Reader (Option α)
  | _, .null => some none
  | room, d => (read room d).map some

def text : Reader String
  | _, .text s => s
  | _, _ => none

def bool : Reader Bool
  | _, .bool b => some b
  | _, _ => none

def nat : Reader UInt64
  | _, .number (some (.nat n)) => some n
  | _, _ => none

/-- A whole number of 64 bits with sign. -/
def int : Reader Int
  | _, .number (some n) => n.int?.filter fun i => decide (Decimal.inInt64 i)
  | _, _ => none

def parsed (parse : String → Option α) : Reader α :=
  fun room d => (text room d).bind parse

def list (read : Reader α) : Reader (List α)
  | room + 1, .list items => items.mapM (read room)
  | _, _ => none

/-- An entry of a map, if its key is a text. -/
def entry (read : Reader α) (room : Nat) :
    Option String × Document → Option (String × α)
  | (some k, d) => (read room d).map (k, ·)
  | (none, _) => none

/-- A record whose keys are not fixed, in ascending order; of a repeated key the last value
stays. -/
def map (read : Reader α) : Reader (List (String × α))
  | room + 1, .record fields => (fields.mapM (entry read room)).map sortFields
  | _, _ => none

/-- The fields of a record whose keys are known texts, or none when a key cannot be read or a known
one is repeated. -/
def knownFields (names : List String) (fields : List (Option String × Document)) :
    Option (List (String × Document)) := do
  let keyed ← fields.mapM fun (k, d) => k.map (·, d)
  let known := keyed.filter fun f => names.contains f.1
  if (known.map Prod.fst).Nodup then some known else none

/-- What a document offers for each of the fields, named in declared order. -/
def slots (names : List String) : Reader (String → Slot)
  | room + 1, .record fields =>
    (knownFields names fields).map fun known name =>
      match known.lookup name with
      | some d => .given room d
      | none => .absent
  | room + 1, .list items =>
    if names.length < items.length then none
    else some fun name =>
      match (names.zip items).lookup name with
      | some d => .given room d
      | none => .cutOff
  | _, _ => none

end Reader

/-- A field that may be null, and that a record may leave out. -/
def Slot.optional (read : Reader α) : Slot → Option (Option α)
  | given room d => Reader.nullable read room d
  | absent => some none
  | cutOff => none

end RunLedger.Json
