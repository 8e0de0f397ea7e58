/-!
Values of TOML, and tables while a document is read. Of floating numbers and of dates and times only
the kind is kept, since no setting is one. A table can be opened by a header once; it may exist
before that because a header below it was read. Dotted keys make tables of their own, which no
header opens, and only dotted keys add to them. Values are closed: nothing is added to them later.
-/

set_option autoImplicit false

namespace RunLedger.Toml

inductive Value where
  | text (s : String)
  | integer (i : Int)
  | float
  | bool (b : Bool)
  | moment
  | array (items : List Value)
  | table (fields : List (String × Value))
  deriving Inhabited

/-- How a table came to be. -/
inductive Origin where
  | header
  /-- A header of a table inside it was read. -/
  | passing
  | dotted
  deriving DecidableEq, Repr

inductive Node where
  | value (v : Value)
  | table (origin : Origin) (fields : List (String × Node))
  /-- An array of tables; the latest comes last. -/
  | tables (items : List (List (String × Node)))
  deriving Inhabited

/-- The fields of a table in the order of their appearance. -/
abbrev Fields := List (String × Node)

namespace Fields

/-- Replaces the node of a key, or adds one. -/
def put (key : String) (node : Node) : Fields → Fields
  | [] => [(key, node)]
  | (k, n) :: rest => if k = key then (k, node) :: rest else (k, n) :: put key node rest

/-- Changes the latest table of an array. -/
def mapLast? (f : Fields → Option Fields) : List Fields → Option (List Fields)
  | [] => none
  | [last] => (f last).map ([·])
  | t :: u :: ts => (mapLast? f (u :: ts)).map (t :: ·)

/-- Adds a value under a dotted key: the parts before the last name tables that dotted keys made. -/
def insert? (key : String) (v : Value) : List String → Fields → Option Fields
  | [], fields =>
    if (fields.lookup key).isSome then none else some (fields ++ [(key, .value v)])
  | part :: path, fields =>
    match fields.lookup part with
    | none => (insert? key v path []).map fun sub => fields ++ [(part, .table .dotted sub)]
    | some (.table origin sub) =>
      if origin = .header ∨ (path = [] ∧ origin ≠ .dotted) then none
      else (insert? key v path sub).map fun sub => fields.put part (.table origin sub)
    | some (.tables items) =>
      if path = [] then none
      else (mapLast? (insert? key v path) items).map fun items => fields.put part (.tables items)
    | some (.value _) => none

/-- Goes down a path, making the tables that are not there, and changes the table at its end. -/
def descend? (f : Fields → Option Fields) : List String → Fields → Option Fields
  | [], fields => f fields
  | part :: path, fields =>
    match fields.lookup part with
    | none => (descend? f path []).map fun sub => fields ++ [(part, .table .passing sub)]
    | some (.table origin sub) =>
      (descend? f path sub).map fun sub => fields.put part (.table origin sub)
    | some (.tables items) =>
      (mapLast? (descend? f path) items).map fun items => fields.put part (.tables items)
    | some (.value _) => none

def openTable? (key : String) (fields : Fields) : Option Fields :=
  match fields.lookup key with
  | none => some (fields ++ [(key, .table .header [])])
  | some (.table .passing sub) => some (fields.put key (.table .header sub))
  | some _ => none

def openItem? (key : String) (fields : Fields) : Option Fields :=
  match fields.lookup key with
  | none => some (fields ++ [(key, .tables [[]])])
  | some (.tables items) => some (fields.put key (.tables (items ++ [[]])))
  | some _ => none

end Fields

mutual
def Node.toValue : Node → Value
  | .value v => v
  | .table _ fields => .table (fieldValues fields)
  | .tables items => .array (tableValues items)

def fieldValues : List (String × Node) → List (String × Value)
  | [] => []
  | (k, n) :: rest => (k, n.toValue) :: fieldValues rest

def tableValues : List (List (String × Node)) → List Value
  | [] => []
  | fields :: rest => .table (fieldValues fields) :: tableValues rest
end

end RunLedger.Toml
