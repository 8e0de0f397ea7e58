import RunLedger.Toml.Scalar
import RunLedger.Toml.Tables

/-!
Documents of TOML: lines with headers and with values under keys. Arrays and inline tables may nest
up to a limit, and so may the parts of a key.
-/

set_option autoImplicit false

namespace RunLedger.Toml

/-- Arrays, inline tables and parts of keys may be nested less deep than this. -/
def nestingLimit : Nat := 80

private def isBareKeyChar (c : Char) : Bool := c.isAlphanum || c = '-' || c = '_'

private def keyPart? (cs : List Char) : Option (String × List Char) :=
  match cs with
  | '"' :: _ => lineText? cs
  | '\'' :: _ => lineText? cs
  | _ =>
    let part := cs.takeWhile isBareKeyChar
    if part.isEmpty then none else some (String.ofList part, cs.dropWhile isBareKeyChar)

private def keyParts? : Nat → List Char → Option (List String × List Char)
  | 0, _ => none
  | fuel + 1, cs => do
    let (part, r) ← keyPart? (afterBlanks cs)
    match afterBlanks r with
    | '.' :: r => (keyParts? fuel r).map fun (parts, rest) => (part :: parts, rest)
    | r => some ([part], r)

/-- Reads a key, with blanks around it: the parts before the last and the last. -/
def key? (cs : List Char) : Option ((List String × String) × List Char) := do
  let (parts, rest) ← keyParts? nestingLimit.pred cs
  return ((parts.dropLast, ← parts.getLast?), rest)

/-- The rest of an input after a comment, if there is one. -/
private def afterComment : List Char → List Char
  | '#' :: r => r.dropWhile isPrintable
  | r => r

/-- The rest of an input after the end of a line, which may have a comment. -/
def afterLine? (cs : List Char) : Option (List Char) :=
  match afterComment (afterBlanks cs) with
  | [] => some []
  | r => afterBreak? r

/-- The rest of an input after blanks, comments and line breaks. -/
private def afterLines : Nat → List Char → List Char
  | 0, cs => cs
  | fuel + 1, cs =>
    let r := afterComment (afterBlanks cs)
    match afterBreak? r with
    | some r => afterLines fuel r
    | none => r

private def afterGap (cs : List Char) : List Char := afterLines (cs.length + 1) cs

mutual
/-- Reads a value. The first argument bounds the number of steps, the second the levels that may
still be opened. -/
def value? : Nat → Nat → List Char → Option (Value × List Char)
  | 0, _, _ => none
  | fuel + 1, room, cs =>
    match cs with
    | '"' :: _ => (text? cs).map fun (s, rest) => (.text s, rest)
    | '\'' :: _ => (text? cs).map fun (s, rest) => (.text s, rest)
    | '[' :: r =>
      match room with
      | 0 => none
      | room + 1 => (items? fuel room (afterGap r)).map fun (vs, rest) => (.array vs, rest)
    | '\x7b' :: r =>
      match room with
      | 0 => none
      | room + 1 =>
        match afterBlanks r with
        | '\x7d' :: rest => some (.table [], rest)
        | r => (inlineFields? fuel room [] r).map fun (fs, rest) => (.table (fieldValues fs), rest)
    | _ => scalar cs

/-- Reads the items of an array and its end. A comma may stand behind the last item. -/
def items? : Nat → Nat → List Char → Option (List Value × List Char)
  | 0, _, _ => none
  | _ + 1, _, ']' :: rest => some ([], rest)
  | fuel + 1, room, cs =>
    match value? fuel room cs with
    | none => none
    | some (v, r) =>
      match afterGap r with
      | ',' :: r => (items? fuel room (afterGap r)).map fun (vs, rest) => (v :: vs, rest)
      | ']' :: rest => some ([v], rest)
      | _ => none

/-- Reads the fields of an inline table and its end, onto those already read. -/
def inlineFields? : Nat → Nat → Fields → List Char → Option (Fields × List Char)
  | 0, _, _, _ => none
  | fuel + 1, room, fields, cs =>
    match key? cs with
    | some ((path, key), '=' :: r) =>
      match value? fuel room (afterBlanks r) with
      | none => none
      | some (v, r) =>
        match fields.insert? key v path, afterBlanks r with
        | some fields, ',' :: r => inlineFields? fuel room fields r
        | some fields, '\x7d' :: rest => some (fields, rest)
        | _, _ => none
    | _ => none
end

/-- A document while it is read: the fields so far, and the table that the last header opened. -/
structure State where
  fields : Fields
  current : List String

/-- Reads one header or one value under its key, up to the end of the line. -/
def State.line? (s : State) (cs : List Char) : Option (State × List Char) :=
  match cs with
  | '[' :: '[' :: r => do
    let ((path, key), r) ← key? r
    let rest ← afterLine? (← after? [']', ']'] r)
    return (⟨← s.fields.descend? (Fields.openItem? key) path, path ++ [key]⟩, rest)
  | '[' :: r => do
    let ((path, key), r) ← key? r
    let rest ← afterLine? (← after? [']'] r)
    return (⟨← s.fields.descend? (Fields.openTable? key) path, path ++ [key]⟩, rest)
  | _ => do
    let ((path, key), r) ← key? cs
    let r := afterBlanks (← after? ['='] r)
    let (v, r) ← value? (2 * r.length + 2) nestingLimit.pred r
    let rest ← afterLine? r
    return ({ s with fields := ← s.fields.descend? (Fields.insert? key v path) s.current }, rest)

def State.lines? (s : State) : Nat → List Char → Option State
  | 0, _ => none
  | fuel + 1, cs =>
    match afterGap cs with
    | [] => some s
    | r =>
      match s.line? r with
      | some (s, rest) => s.lines? fuel rest
      | none => none

/-- The fields of a document. A byte order mark may stand at its beginning. -/
def parse? (source : String) : Option (List (String × Value)) :=
  let cs := source.toList
  let cs := if cs.head? = some '\uFEFF' then cs.tail else cs
  (State.lines? ⟨[], []⟩ (cs.length + 1) cs).map fun s => fieldValues s.fields

end RunLedger.Toml
