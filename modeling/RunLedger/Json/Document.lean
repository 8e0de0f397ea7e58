import RunLedger.Json.Value

/-!
A JSON text that has been taken apart but not judged. A leaf that no value stands for (a number out
of range, a text with half a surrogate pair or with ill-formed bytes) is kept as `none`, repeated
keys are kept, and nesting has no limit: what a reader does not look at cannot fail. Reading a value
out of a document applies all of these rules.
-/

set_option autoImplicit false

namespace RunLedger.Json

inductive Document where
  | null
  | bool (b : Bool)
  | number (n : Option Number)
  | text (s : Option String)
  | list (items : List Document)
  | record (fields : List (Option String × Document))
  deriving Inhabited

/-- A reader gets the number of levels that may still be opened and a document. -/
abbrev Reader (α : Type) := Nat → Document → Option α

/-- The levels of lists and records that a text may nest. -/
def nestingLimit : Nat := 127

mutual
def Document.ofValue : Value → Document
  | .null => .null
  | .bool b => .bool b
  | .number n => .number (some n)
  | .text s => .text (some s)
  | .list items => .list (Document.ofItems items)
  | .record fields => .record (Document.ofFields fields)

def Document.ofItems : List Value → List Document
  | [] => []
  | v :: vs => Document.ofValue v :: Document.ofItems vs

def Document.ofFields : List (String × Value) → List (Option String × Document)
  | [] => []
  | (k, v) :: fs => (some k, Document.ofValue v) :: Document.ofFields fs
end

mutual
def Value.read : Reader Value
  | _, .null => some .null
  | _, .bool b => some (.bool b)
  | _, .number n => n.map .number
  | _, .text s => s.map .text
  | 0, .list _ => none
  | room + 1, .list items => (Value.readItems room items).map .list
  | 0, .record _ => none
  | room + 1, .record fields => (Value.readFields room fields).map fun fs => .record (sortFields fs)

def Value.readItems (room : Nat) : List Document → Option (List Value)
  | [] => some []
  | d :: ds =>
    match Value.read room d, Value.readItems room ds with
    | some v, some vs => some (v :: vs)
    | _, _ => none

/-- The values of a record's fields, in the order of the text. -/
def Value.readFields (room : Nat) :
    List (Option String × Document) → Option (List (String × Value))
  | [] => some []
  | (none, _) :: _ => none
  | (some k, d) :: fs =>
    match Value.read room d, Value.readFields room fs with
    | some v, some vs => some ((k, v) :: vs)
    | _, _ => none
end

end RunLedger.Json
