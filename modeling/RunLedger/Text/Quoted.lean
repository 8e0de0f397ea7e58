import RunLedger.Text.Characters
import RunLedger.Text.Hex

/-!
Quoted text: a string between double quotes in which every character that would end the quotes or
would not show is escaped. The apostrophe is not escaped.
-/

set_option autoImplicit false

namespace RunLedger.Text.Quoted

/-- The letter after the backslash, for the characters with a short escape. -/
def shortEscape? (c : Char) : Option Char :=
  if c = '"' then some '"'
  else if c = '\\' then some '\\'
  else if c = '\t' then some 't'
  else if c = '\r' then some 'r'
  else if c = '\n' then some 'n'
  else if c = '\x00' then some '0'
  else none

/-- Whether a character is written as its code point in hexadecimal. -/
def needsCode (c : Char) : Bool :=
  if c.toNat < 0x7F then c.toNat < 0x20 else isGraphemeExtend c || isUnprintable c

def escape (c : Char) : List Char :=
  match shortEscape? c with
  | some e => ['\\', e]
  | none => if needsCode c then '\\' :: 'u' :: '\x7b' :: (Hex.ofNat c.toNat ++ ['\x7d']) else [c]

/-- The characters of a quoted text, quotes included. -/
def encode (cs : List Char) : List Char :=
  '"' :: (cs.flatMap escape ++ ['"'])

def quote (s : String) : String :=
  String.ofList (encode s.toList)

end RunLedger.Text.Quoted
