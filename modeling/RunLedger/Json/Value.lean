import RunLedger.Json.Number

/-!
JSON values. Free-form records keep their fields in ascending order of the keys, each key once; the
operations here build them so. Records made from a type keep the order in which the type declares
its fields.
-/

set_option autoImplicit false

namespace RunLedger.Json

inductive Value where
  | null
  | bool (b : Bool)
  | number (n : Number)
  | text (s : String)
  | list (items : List Value)
  | record (fields : List (String × Value))
  deriving Inhabited

/-- Puts a field where its key belongs; a field with the same key gives way to it. -/
def insertField {α : Type} (key : String) (x : α) : List (String × α) → List (String × α)
  | [] => [(key, x)]
  | (k, y) :: rest =>
    if key < k then (key, x) :: (k, y) :: rest
    else if key = k then (key, x) :: rest
    else (k, y) :: insertField key x rest

/-- Fields in ascending order; of a repeated key the last field stays. -/
def sortFields {α : Type} (fields : List (String × α)) : List (String × α) :=
  fields.foldl (fun sorted f => insertField f.1 f.2 sorted) []

namespace Value

def nat (n : UInt64) : Value := .number (.nat n)

/-- A whole number; beyond 64 bits there is none. -/
def int (i : Int) : Value :=
  match Number.ofInt? i with
  | some n => .number n
  | none => .null

def option {α : Type} (f : α → Value) : Option α → Value
  | none => .null
  | some x => f x

def texts (ss : List String) : Value := .list (ss.map .text)

def field? (key : String) : Value → Option Value
  | .record fields => fields.lookup key
  | _ => none

mutual
/-- How many lists and records lie inside one another. -/
def depth : Value → Nat
  | .list items => depthOfItems items + 1
  | .record fields => depthOfFields fields + 1
  | _ => 0

def depthOfItems : List Value → Nat
  | [] => 0
  | v :: vs => max (depth v) (depthOfItems vs)

def depthOfFields : List (String × Value) → Nat
  | [] => 0
  | (_, v) :: fs => max (depth v) (depthOfFields fs)
end

mutual
/-- Every record has its keys in strictly ascending order and every floating number is finite: the
values that reading a text can give. -/
def WellFormed : Value → Prop
  | .number (.float bits) => Decimal.isFiniteBits bits = true
  | .list items => ItemsWellFormed items
  | .record fields => fields.Pairwise (fun f g => f.1 < g.1) ∧ FieldsWellFormed fields
  | _ => True

def ItemsWellFormed : List Value → Prop
  | [] => True
  | v :: vs => WellFormed v ∧ ItemsWellFormed vs

def FieldsWellFormed : List (String × Value) → Prop
  | [] => True
  | (_, v) :: fs => WellFormed v ∧ FieldsWellFormed fs
end

end Value

end RunLedger.Json
