/-!
Hexadecimal text. Bytes are written as two lower-case digits each and read in either case; numbers
are written with the fewest lower-case digits. Main statements: reading undoes writing, and writing
what was read lowers the case of its digits.
-/

set_option autoImplicit false

namespace RunLedger.Text.Hex

/-- The value of a hexadecimal digit, in either case. -/
def value? (c : Char) : Option Nat :=
  if '0' ≤ c ∧ c ≤ '9' then some (c.toNat - 48)
  else if 'a' ≤ c ∧ c ≤ 'f' then some (c.toNat - 87)
  else if 'A' ≤ c ∧ c ≤ 'F' then some (c.toNat - 55)
  else none

/-- The lower-case digit of a value below sixteen. -/
def digit (n : Nat) : Char :=
  if n < 10 then Char.ofNat (48 + n) else Char.ofNat (87 + n)

/-- The upper-case digit of a value below sixteen. -/
def upperDigit (n : Nat) : Char :=
  if n < 10 then Char.ofNat (48 + n) else Char.ofNat (55 + n)

/-- Two digits for each byte, the high half first. -/
def encode : List UInt8 → List Char
  | [] => []
  | b :: bs => digit (b.toNat / 16) :: digit (b.toNat % 16) :: encode bs

/-- Reads digits in pairs; an odd digit at the end or any other character is refused. -/
def decode? : List Char → Option (List UInt8)
  | [] => some []
  | [_] => none
  | h :: l :: cs =>
    match value? h, value? l, decode? cs with
    | some x, some y, some bs => some (UInt8.ofNat (16 * x + y) :: bs)
    | _, _, _ => none

/-- The value of a digit string, most significant digit first. -/
def number? (cs : List Char) : Option Nat :=
  cs.foldl (fun acc c => do some (16 * (← acc) + (← value? c))) (some 0)

def ofNat (n : Nat) : List Char :=
  if n < 16 then [digit n] else ofNat (n / 16) ++ [digit (n % 16)]

theorem value?_digit {n : Nat} (h : n < 16) : value? (digit n) = some n := by
  have : ∀ m : Fin 16, value? (digit m.val) = some m.val := by decide
  exact this ⟨n, h⟩

theorem length_encode (bs : List UInt8) : (encode bs).length = 2 * bs.length := by
  induction bs with
  | nil => rfl
  | cons b bs ih => simp [encode, ih]; omega

theorem decode?_encode (bs : List UInt8) : decode? (encode bs) = some bs := by
  induction bs with
  | nil => rfl
  | cons b bs ih =>
    have hb : b.toNat < 256 := b.toNat_lt
    have h1 := value?_digit (n := b.toNat / 16) (by omega)
    have h2 := value?_digit (n := b.toNat % 16) (by omega)
    have h3 : 16 * (b.toNat / 16) + b.toNat % 16 = b.toNat := by omega
    simp [encode, decode?, h1, h2, ih, h3]

private theorem lt_of_isSome_value? {c : Char} (h : (value? c).isSome = true) : c.toNat < 128 := by
  unfold value? at h
  split at h
  · next hc => exact Nat.lt_of_le_of_lt hc.2 (by decide)
  split at h
  · next hc => exact Nat.lt_of_le_of_lt hc.2 (by decide)
  split at h
  · next hc => exact Nat.lt_of_le_of_lt hc.2 (by decide)
  · cases h

/-- Ten digits and six letters have a value, the letters in either case. -/
theorem isSome_value?_iff {c : Char} :
    (value? c).isSome = true ↔ c ∈ "0123456789abcdefABCDEF".toList := by
  constructor
  · intro h
    have hall : ∀ m : Fin 128, (value? (Char.ofNat m)).isSome = true →
        Char.ofNat m ∈ "0123456789abcdefABCDEF".toList := by decide +kernel
    have hc := hall ⟨c.toNat, lt_of_isSome_value? h⟩
    rw [Char.ofNat_toNat] at hc
    exact hc h
  · have hall : "0123456789abcdefABCDEF".toList.all (fun d => (value? d).isSome) = true := by
      decide
    exact List.all_eq_true.1 hall c

/-- A digit is written as it was read, but in lower case. -/
private theorem digit_of_value? {c : Char} {n : Nat} (h : value? c = some n) :
    n < 16 ∧ digit n = c.toLower := by
  have hall : "0123456789abcdefABCDEF".toList.all (fun d =>
      (value? d).all fun m => m < 16 ∧ digit m = d.toLower) = true := by decide
  have hc := List.all_eq_true.1 hall c (isSome_value?_iff.1 (by rw [h]; rfl))
  rw [h] at hc
  simpa using hc

/-- The case of a character makes no difference to its value. -/
private theorem value?_toLower (c : Char) : value? c.toLower = value? c := by
  by_cases hascii : c.toNat < 128
  · have hall : ∀ m : Fin 128, value? (Char.ofNat m).toLower = value? (Char.ofNat m) := by
      decide +kernel
    have hc := hall ⟨c.toNat, hascii⟩
    rwa [Char.ofNat_toNat] at hc
  · have hupper : ¬ (c.val ≥ 'A'.val ∧ c.val ≤ 'Z'.val) :=
      fun h => hascii (Nat.lt_of_le_of_lt h.2 (by decide))
    have hsame : c.toLower = c := dif_neg hupper
    rw [hsame]

theorem decode?_map_toLower (cs : List Char) : decode? (cs.map Char.toLower) = decode? cs := by
  fun_induction decode? cs with
  | case1 => rfl
  | case2 => rfl
  | case3 h l cs x y bs hcs hl hh ih => simp [decode?, value?_toLower, hh, hl, hcs, ih]
  | case4 h l cs hnot ih => simp [decode?, value?_toLower, ih]

/-- Writing what was read lowers the case of the digits. -/
theorem encode_of_decode? {cs : List Char} {bs : List UInt8} (h : decode? cs = some bs) :
    encode bs = cs.map Char.toLower := by
  fun_induction decode? cs generalizing bs with
  | case1 =>
    cases h
    rfl
  | case2 => cases h
  | case3 high low cs x y bytes hcs hlow hhigh ih =>
    cases h
    obtain ⟨hx, hfirst⟩ := digit_of_value? hhigh
    obtain ⟨hy, hsecond⟩ := digit_of_value? hlow
    have hbyte : (UInt8.ofNat (16 * x + y)).toNat = 16 * x + y := by
      rw [UInt8.toNat_ofNat', Nat.mod_eq_of_lt (by omega)]
    have hdiv : (16 * x + y) / 16 = x := by omega
    have hmod : (16 * x + y) % 16 = y := by omega
    rw [encode, hbyte, hdiv, hmod, hfirst, hsecond, ih hcs, List.map_cons, List.map_cons]
  | case4 => cases h

theorem mem_encode {bs : List UInt8} {c : Char} (h : c ∈ encode bs) :
    ∃ n < 16, c = digit n := by
  induction bs with
  | nil => cases h
  | cons b bs ih =>
    have hb : b.toNat < 256 := b.toNat_lt
    rw [encode] at h
    rcases List.mem_cons.1 h with rfl | h
    · exact ⟨b.toNat / 16, by omega, rfl⟩
    rcases List.mem_cons.1 h with rfl | h
    · exact ⟨b.toNat % 16, by omega, rfl⟩
    · exact ih h

/-- Only digits are read. -/
theorem isSome_value?_of_decode? {cs : List Char} {bs : List UInt8} (h : decode? cs = some bs) :
    ∀ c ∈ cs, (value? c).isSome = true := by
  intro c hc
  have hwritten : c.toLower ∈ encode bs := by
    rw [encode_of_decode? h]
    exact List.mem_map_of_mem hc
  obtain ⟨n, hn, hdigit⟩ := mem_encode hwritten
  rw [← value?_toLower, hdigit, value?_digit hn]
  rfl

/-- Digits are read if they stand in pairs. -/
theorem exists_decode? {cs : List Char} {n : Nat} (hlength : cs.length = 2 * n)
    (hdigits : ∀ c ∈ cs, (value? c).isSome = true) : ∃ bs, decode? cs = some bs := by
  fun_induction decode? cs generalizing n with
  | case1 => exact ⟨[], rfl⟩
  | case2 c =>
    rw [List.length_singleton] at hlength
    omega
  | case3 => exact ⟨_, rfl⟩
  | case4 h l cs hnot ih =>
    obtain ⟨x, hx⟩ := Option.isSome_iff_exists.1 (hdigits h (by simp))
    obtain ⟨y, hy⟩ := Option.isSome_iff_exists.1 (hdigits l (by simp))
    have hrest : cs.length = 2 * (n - 1) := by
      simp only [List.length_cons] at hlength
      omega
    obtain ⟨bs, hbs⟩ := ih hrest fun c hc => hdigits c (by simp [hc])
    exact absurd hbs (hnot x y bs hx hy)

end RunLedger.Text.Hex
