import RunLedger.Text.Hex

/-!
Byte strings of a fixed length and their text, two hexadecimal digits a byte. Main statement: a text
is read exactly when it holds that many pairs of digits, and writing what was read lowers its case.
-/

set_option autoImplicit false

namespace RunLedger

/-- The lowest bytes of a number, the highest of them first. -/
def bigEndian (n : Nat) : Nat → List UInt8
  | 0 => []
  | width + 1 => bigEndian (n / 256) width ++ [UInt8.ofNat n]

theorem length_bigEndian (n width : Nat) : (bigEndian n width).length = width := by
  induction width generalizing n with
  | zero => rfl
  | succ w ih => simp [bigEndian, ih]

/-- A string of exactly `n` bytes. -/
abbrev Octets (n : Nat) := { bytes : List UInt8 // bytes.length = n }

namespace Octets

variable {n : Nat}

def toHex (bs : Octets n) : List Char := Text.Hex.encode bs.val

/-- Reads two digits a byte, in either case, and nothing else. -/
def ofHex? (n : Nat) (cs : List Char) : Option (Octets n) :=
  match Text.Hex.decode? cs with
  | some bytes => if h : bytes.length = n then some ⟨bytes, h⟩ else none
  | none => none

theorem ofHex?_toHex (bs : Octets n) : ofHex? n bs.toHex = some bs := by
  simp [ofHex?, toHex, Text.Hex.decode?_encode, bs.property]

/-- What is read is written in lower case. -/
theorem toHex_of_ofHex? {cs : List Char} {bs : Octets n} (h : ofHex? n cs = some bs) :
    bs.toHex = cs.map Char.toLower := by
  unfold ofHex? at h
  split at h
  · next bytes hread =>
    split at h
    · cases h
      exact Text.Hex.encode_of_decode? hread
    · cases h
  · cases h

/-- Two digits a byte are read, and nothing else. -/
theorem isSome_ofHex?_iff {cs : List Char} :
    (ofHex? n cs).isSome = true ↔
      cs.length = 2 * n ∧ ∀ c ∈ cs, (Text.Hex.value? c).isSome = true := by
  have hlength : ∀ {bytes}, Text.Hex.decode? cs = some bytes → cs.length = 2 * bytes.length := by
    intro bytes hread
    rw [← Text.Hex.length_encode, Text.Hex.encode_of_decode? hread, List.length_map]
  constructor
  · intro h
    obtain ⟨bs, hbs⟩ := Option.isSome_iff_exists.1 h
    unfold ofHex? at hbs
    split at hbs
    · next bytes hread =>
      split at hbs
      · next hn => exact ⟨hn ▸ hlength hread, Text.Hex.isSome_value?_of_decode? hread⟩
      · cases hbs
    · cases hbs
  · rintro ⟨hpairs, hdigits⟩
    obtain ⟨bytes, hread⟩ := Text.Hex.exists_decode? hpairs hdigits
    have hn : bytes.length = n := by
      have := hlength hread
      omega
    simp [ofHex?, hread, hn]

end Octets

end RunLedger
