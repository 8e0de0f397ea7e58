import RunLedger.Json.Value
import RunLedger.Text.Hex

/-!
JSON as text: compact, without a blank, and indented by two spaces a level. Inside a text the quote,
the backslash and the controls are escaped and nothing else.
-/

set_option autoImplicit false

namespace RunLedger.Json

def shortEscape? (c : Char) : Option Char :=
  if c = '"' then some '"'
  else if c = '\\' then some '\\'
  else if c = '\x08' then some 'b'
  else if c = '\x0c' then some 'f'
  else if c = '\n' then some 'n'
  else if c = '\r' then some 'r'
  else if c = '\t' then some 't'
  else none

def escape (c : Char) : List Char :=
  match shortEscape? c with
  | some e => ['\\', e]
  | none =>
    if c.toNat < 0x20 then
      ['\\', 'u', '0', '0', Text.Hex.digit (c.toNat / 16), Text.Hex.digit (c.toNat % 16)]
    else [c]

def quoted (s : String) : List Char :=
  '"' :: (s.toList.flatMap escape ++ ['"'])

namespace Value

mutual
def compact : Value → List Char
  | .null => ['n', 'u', 'l', 'l']
  | .bool true => ['t', 'r', 'u', 'e']
  | .bool false => ['f', 'a', 'l', 's', 'e']
  | .number n => n.print
  | .text s => quoted s
  | .list items => '[' :: compactItems items
  | .record fields => '{' :: compactFields fields

def compactItems : List Value → List Char
  | [] => [']']
  | [v] => compact v ++ [']']
  | v :: w :: vs => compact v ++ ',' :: compactItems (w :: vs)

def compactFields : List (String × Value) → List Char
  | [] => ['}']
  | [(k, v)] => quoted k ++ ':' :: (compact v ++ ['}'])
  | (k, v) :: f :: fs => quoted k ++ ':' :: (compact v ++ ',' :: compactFields (f :: fs))
end

def print (v : Value) : String := String.ofList v.compact

private def newline (level : Nat) : List Char :=
  '\n' :: List.replicate (2 * level) ' '

mutual
/-- The text of a value with one item or field a line. -/
def indented (level : Nat) : Value → List Char
  | .list [] => ['[', ']']
  | .record [] => ['{', '}']
  | .list items => '[' :: indentedItems (level + 1) items ++ newline level ++ [']']
  | .record fields => '{' :: indentedFields (level + 1) fields ++ newline level ++ ['}']
  | v => v.compact

def indentedItems (level : Nat) : List Value → List Char
  | [] => []
  | [v] => newline level ++ indented level v
  | v :: w :: vs => newline level ++ indented level v ++ ',' :: indentedItems level (w :: vs)

def indentedFields (level : Nat) : List (String × Value) → List Char
  | [] => []
  | [(k, v)] => newline level ++ quoted k ++ ':' :: ' ' :: indented level v
  | (k, v) :: f :: fs =>
    newline level ++ quoted k ++ ':' :: ' ' :: indented level v ++ ',' ::
      indentedFields level (f :: fs)
end

def pretty (v : Value) : String := String.ofList (v.indented 0)

end Value

end RunLedger.Json
