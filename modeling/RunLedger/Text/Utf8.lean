/-!
Bytes as UTF-8 text. A decoded text is a list of characters in which `none` stands for a longest
run of bytes that begins a character and cannot end it, or for a byte that begins none. Strict
reading refuses a text with such a place; lossy reading puts the replacement character there.
-/

set_option autoImplicit false

namespace RunLedger.Text.Utf8

def encode (s : String) : List UInt8 :=
  s.toByteArray.data.toList

theorem encode_append (s t : String) : encode (s ++ t) = encode s ++ encode t := by
  rw [encode, String.toByteArray_append, ByteArray.data_append, Array.toList_append]
  rfl

theorem encode_inj {s t : String} : encode s = encode t ↔ s = t := by
  rw [encode, encode, Array.toList_inj, ← ByteArray.ext_iff, String.toByteArray_inj]

/-- Whether a byte can only continue a character. -/
def isTail (b : UInt8) : Bool :=
  0x80 ≤ b && b ≤ 0xBF

/-- The smallest and largest second byte that may follow a first byte of a longer character. -/
def secondRange (b : UInt8) : UInt8 × UInt8 :=
  if b = 0xE0 then (0xA0, 0xBF)
  else if b = 0xED then (0x80, 0x9F)
  else if b = 0xF0 then (0x90, 0xBF)
  else if b = 0xF4 then (0x80, 0x8F)
  else (0x80, 0xBF)

/-- Whether a second byte may follow a first one. -/
def fits (first second : UInt8) : Bool :=
  (secondRange first).1 ≤ second && second ≤ (secondRange first).2

/-- The six bits that a continuing byte carries. -/
def low (b : UInt8) : Nat := b.toNat % 64

/-- Characters in order, with `none` for each ill-formed place. -/
def decode : List UInt8 → List (Option Char)
  | [] => []
  | a :: rest =>
    if a < 0x80 then some (Char.ofNat a.toNat) :: decode rest
    else if 0xC2 ≤ a && a ≤ 0xDF then
      match rest with
      | b :: r =>
        if isTail b then some (Char.ofNat (a.toNat % 32 * 64 + low b)) :: decode r
        else none :: decode (b :: r)
      | [] => [none]
    else if 0xE0 ≤ a && a ≤ 0xEF then
      match rest with
      | b :: r =>
        if fits a b then
          match r with
          | c :: r' =>
            if isTail c then
              some (Char.ofNat (a.toNat % 16 * 4096 + low b * 64 + low c)) :: decode r'
            else none :: decode (c :: r')
          | [] => [none]
        else none :: decode (b :: r)
      | [] => [none]
    else if 0xF0 ≤ a && a ≤ 0xF4 then
      match rest with
      | b :: r =>
        if fits a b then
          match r with
          | c :: r' =>
            if isTail c then
              match r' with
              | d :: r'' =>
                if isTail d then
                  some (Char.ofNat (a.toNat % 8 * 262144 + low b * 4096 + low c * 64 + low d))
                    :: decode r''
                else none :: decode (d :: r'')
              | [] => [none]
            else none :: decode (c :: r')
          | [] => [none]
        else none :: decode (b :: r)
      | [] => [none]
    else none :: decode rest

def ofString (s : String) : List (Option Char) :=
  s.toList.map some

/-- The characters of a text without ill-formed places. -/
def strict? (cs : List (Option Char)) : Option String :=
  (cs.mapM id).map String.ofList

/-- Every ill-formed place becomes the replacement character. -/
def lossy (cs : List (Option Char)) : String :=
  String.ofList (cs.map fun c => c.getD '\uFFFD')

end RunLedger.Text.Utf8
