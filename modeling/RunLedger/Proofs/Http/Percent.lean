import RunLedger.Http.Percent

/-!
Percent encoding and decoding together. Decoding does not see what was encoded: an encoded text
decodes to the same bytes as the text itself, and to the bytes that the text is made of exactly when
no percent sign in it has two digits behind it. Otherwise it decodes to fewer.
-/

set_option autoImplicit false

namespace RunLedger.Http.Percent

open Text.Hex (value?)

def bytes (cs : List Char) : List UInt8 := Text.Utf8.encode (String.ofList cs)

/-- Whether two digits stand in front. -/
def hasDigits : List Char → Bool
  | h :: l :: _ => (value? h).isSome && (value? l).isSome
  | _ => false

/-- Whether a percent sign stands somewhere with two digits behind it. -/
def hasEscape : List Char → Bool
  | [] => false
  | c :: cs => (c = '%' && hasDigits cs) || hasEscape cs

variable {c : Char} {cs ds : List Char} {keep : Char → Bool}

/-! ### Escapes -/

theorem hasEscape_eq_false_of_infix (h : cs <:+: ds) (hds : hasEscape ds = false) :
    hasEscape cs = false := by
  have hfront : ∀ cs ds, hasDigits cs = true → hasDigits (cs ++ ds) = true := by
    intro cs ds hcs
    match cs with
    | [] => cases hcs
    | [a] => cases hcs
    | a :: b :: cs => exact hcs
  have hleft : ∀ cs ds, hasEscape cs = true → hasEscape (cs ++ ds) = true := by
    intro cs ds hcs
    induction cs with
    | nil => cases hcs
    | cons c cs ih =>
      simp only [hasEscape, List.cons_append, Bool.or_eq_true, Bool.and_eq_true] at hcs ⊢
      exact hcs.imp (And.imp_right (hfront cs ds)) ih
  have hright : ∀ cs ds, hasEscape ds = true → hasEscape (cs ++ ds) = true := by
    intro cs ds hds
    induction cs with
    | nil => exact hds
    | cons c cs ih => rw [List.cons_append, hasEscape, ih, Bool.or_true]
  obtain ⟨front, back, rfl⟩ := h
  rw [← Bool.not_eq_true]
  intro hcs
  rw [hleft _ _ (hright _ _ hcs)] at hds
  cases hds

theorem hasEscape_eq_false_of_notMem (h : '%' ∉ cs) : hasEscape cs = false := by
  induction cs with
  | nil => rfl
  | cons c cs ih =>
    rw [List.mem_cons, not_or] at h
    rw [hasEscape, ih h.2]
    simp [Ne.symm h.1]

/-! ### Bytes -/

@[simp] theorem bytes_nil : bytes [] = [] := rfl

private theorem bytes_append (cs ds : List Char) : bytes (cs ++ ds) = bytes cs ++ bytes ds := by
  rw [bytes, String.ofList_append, Text.Utf8.encode_append]
  rfl

theorem bytes_cons (c : Char) (cs : List Char) : bytes (c :: cs) = bytes [c] ++ bytes cs :=
  bytes_append [c] cs

theorem bytes_inj : bytes cs = bytes ds ↔ cs = ds := by
  rw [bytes, bytes, Text.Utf8.encode_inj, String.ofList_inj]

private theorem length_bytes_singleton_pos (c : Char) : 0 < (bytes [c]).length := by
  rw [List.length_pos_iff]
  exact fun h => absurd (bytes_inj.1 (h.trans bytes_nil.symm)) (List.cons_ne_nil c [])

theorem eq_of_sublist (hsub : cs.Sublist ds) (hlength : (bytes ds).length ≤ (bytes cs).length) :
    cs = ds := by
  have hall : ∀ {cs ds : List Char}, cs.Sublist ds →
      (bytes cs).length + (ds.length - cs.length) ≤ (bytes ds).length := by
    intro cs ds hsub
    induction hsub with
    | slnil => simp
    | @cons cs ds d hsub ih =>
      have hd := length_bytes_singleton_pos d
      have hle := hsub.length_le
      rw [bytes_cons, List.length_append, List.length_cons]
      omega
    | @cons_cons cs ds d hsub ih =>
      rw [bytes_cons d cs, bytes_cons d ds, List.length_append, List.length_append,
        List.length_cons, List.length_cons]
      omega
  have hle := hsub.length_le
  have hmore := hall hsub
  exact hsub.eq_of_length (by omega)

/-! ### Decoding -/

private theorem decode_escape {h l : Char} {x y : Nat} (hh : value? h = some x)
    (hl : value? l = some y) :
    decode ('%' :: h :: l :: cs) = UInt8.ofNat (16 * x + y) :: decode cs := by
  simp only [decode, hh, hl]

private theorem decode_plain (h : ¬ (c = '%' ∧ hasDigits cs = true)) :
    decode (c :: cs) = bytes [c] ++ decode cs := by
  have hpercent : bytes ['%'] = [0x25] := by decide
  rw [decode.eq_def (c :: cs)]
  split
  · next heq => cases heq
  · next x l rest heq =>
    obtain ⟨rfl, rfl⟩ := List.cons.inj heq
    rw [hpercent]
    split
    · next hx hy => exact absurd ⟨rfl, by simp [hasDigits, hx, hy]⟩ h
    · rfl
  · next heq =>
    obtain ⟨rfl, rfl⟩ := List.cons.inj heq
    rfl

/-- A text is empty, begins with a character for itself, or begins with an escape. -/
private theorem escape_induction {P : List Char → Prop} (nil : P [])
    (plain : ∀ c cs, ¬ (c = '%' ∧ hasDigits cs = true) → P cs → P (c :: cs))
    (escape : ∀ h l x y cs, value? h = some x → value? l = some y →
      P cs → P ('%' :: h :: l :: cs)) :
    ∀ cs, P cs := by
  intro cs
  induction cs using decode.induct with
  | case1 => exact nil
  | case2 h l cs x y hy hx ih => exact escape h l x y cs hx hy ih
  | case3 h l cs hnot ih =>
    refine plain '%' (h :: l :: cs) (fun hboth => ?_) ih
    obtain ⟨hh, hl⟩ := Bool.and_eq_true_iff.1 hboth.2
    obtain ⟨x, hx⟩ := Option.isSome_iff_exists.1 hh
    obtain ⟨y, hy⟩ := Option.isSome_iff_exists.1 hl
    exact hnot x y hx hy
  | case4 c cs hnot ih =>
    refine plain c cs (fun hboth => ?_) ih
    obtain ⟨rfl, hdigits⟩ := hboth
    cases cs with
    | nil => cases hdigits
    | cons h cs =>
      cases cs with
      | nil => cases hdigits
      | cons l cs => exact hnot h l cs rfl rfl

theorem length_decode_pos (h : cs ≠ []) : 0 < (decode cs).length := by
  induction cs using escape_induction with
  | nil => exact absurd rfl h
  | plain c cs hplain ih =>
    have hc := length_bytes_singleton_pos c
    rw [decode_plain hplain, List.length_append]
    omega
  | escape h l x y cs hx hy ih =>
    rw [decode_escape hx hy, List.length_cons]
    omega

/-- Decoding never makes a text longer, and an escape makes it shorter. -/
theorem length_decode (cs : List Char) :
    (decode cs).length + (if hasEscape cs = true then 1 else 0) ≤ (bytes cs).length := by
  induction cs using escape_induction with
  | nil => simp [decode, hasEscape]
  | plain c cs h ih =>
    have hsame : hasEscape (c :: cs) = hasEscape cs := by
      rw [hasEscape]
      simpa using fun hc hdigits => absurd ⟨hc, hdigits⟩ h
    rw [decode_plain h, hsame, bytes_cons c cs, List.length_append, List.length_append]
    omega
  | escape h l x y cs hx hy ih =>
    have hpercent := length_bytes_singleton_pos '%'
    have hhigh := length_bytes_singleton_pos h
    have hlow := length_bytes_singleton_pos l
    rw [decode_escape hx hy, bytes_cons '%', bytes_cons h (l :: cs), bytes_cons l cs]
    simp only [List.length_append, List.length_cons]
    split at ih <;> split <;> omega

theorem decode_eq_bytes (h : hasEscape cs = false) : decode cs = bytes cs := by
  induction cs using escape_induction with
  | nil => rfl
  | plain c cs hplain ih =>
    rw [hasEscape, Bool.or_eq_false_iff] at h
    rw [decode_plain hplain, ih h.2, ← bytes_cons]
  | escape h' l x y cs hx hy ih => simp [hasEscape, hasDigits, hx, hy] at h

theorem decode_append (hdigit : value? c = none) (hpercent : c ≠ '%') (cs ds : List Char) :
    decode (cs ++ c :: ds) = decode cs ++ (bytes [c] ++ decode ds) := by
  have hfront : ∀ cs, hasDigits (cs ++ c :: ds) = hasDigits cs := by
    intro cs
    match cs with
    | [] => cases ds <;> simp [hasDigits, hdigit]
    | [a] => simp [hasDigits, hdigit]
    | a :: b :: cs => rfl
  induction cs using escape_induction with
  | nil => exact decode_plain fun h => hpercent h.1
  | plain a cs h ih =>
    have hplain : ¬ (a = '%' ∧ hasDigits (cs ++ c :: ds) = true) := by rwa [hfront]
    rw [List.cons_append, decode_plain hplain, ih, decode_plain h, List.append_assoc]
  | escape h l x y cs hx hy ih =>
    simp only [List.cons_append]
    rw [decode_escape hx hy, decode_escape hx hy, ih, List.cons_append]

/-! ### Encoding -/

theorem encode_append (keep : Char → Bool) (cs ds : List Char) :
    encode keep (cs ++ ds) = encode keep cs ++ encode keep ds := List.flatMap_append

theorem encode_cons (keep : Char → Bool) (c : Char) (cs : List Char) :
    encode keep (c :: cs) =
      (if keep c = true then [c] else (bytes [c]).flatMap ofByte) ++ encode keep cs := rfl

theorem encode_eq_nil_iff : encode keep cs = [] ↔ cs = [] := by
  refine ⟨fun h => ?_, by rintro rfl; rfl⟩
  cases cs with
  | nil => rfl
  | cons c cs =>
    have hc := List.flatMap_eq_nil_iff.1 h c List.mem_cons_self
    split at hc
    · cases hc
    · obtain ⟨b, hb⟩ := List.exists_mem_of_length_pos (length_bytes_singleton_pos c)
      cases List.flatMap_eq_nil_iff.1 hc b hb

theorem mem_encode (h : c ∈ encode keep cs) :
    keep c = true ∨ c = '%' ∨ ∃ n < 16, c = Text.Hex.upperDigit n := by
  obtain ⟨d, -, hc⟩ := List.mem_flatMap.1 h
  split at hc
  · next hkeep =>
    rw [List.mem_singleton.1 hc]
    exact .inl hkeep
  · obtain ⟨b, -, hc⟩ := List.mem_flatMap.1 hc
    have hb : b.toNat < 256 := b.toNat_lt
    simp only [ofByte, List.mem_cons, List.not_mem_nil, or_false] at hc
    rcases hc with rfl | rfl | rfl
    · exact .inr (.inl rfl)
    · exact .inr (.inr ⟨_, by omega, rfl⟩)
    · exact .inr (.inr ⟨_, by omega, rfl⟩)

private theorem value?_upperDigit {n : Nat} (h : n < 16) : value?
    (Text.Hex.upperDigit n) = some n := by
  have : ∀ m : Fin 16, value? (Text.Hex.upperDigit m.val) = some m.val := by decide
  exact this ⟨n, h⟩

private theorem decode_ofBytes (bs : List UInt8) (cs : List Char) :
    decode (bs.flatMap ofByte ++ cs) = bs ++ decode cs := by
  induction bs with
  | nil => rfl
  | cons b bs ih =>
    have hb : b.toNat < 256 := b.toNat_lt
    have hsum : 16 * (b.toNat / 16) + b.toNat % 16 = b.toNat := by omega
    have hhigh : value? (Text.Hex.upperDigit (b.toNat / 16)) = some (b.toNat / 16) :=
      value?_upperDigit (by omega)
    have hlow : value? (Text.Hex.upperDigit (b.toNat % 16)) = some (b.toNat % 16) :=
      value?_upperDigit (by omega)
    have hfirst : ∀ ds, decode (ofByte b ++ ds) = b :: decode ds := by
      intro ds
      rw [ofByte, List.cons_append, List.cons_append, List.cons_append, List.nil_append,
        decode_escape hhigh hlow, hsum, UInt8.ofNat_toNat]
    rw [List.flatMap_cons, List.append_assoc, hfirst, ih, List.cons_append]

private theorem hasDigits_encode (hkeep : ∀ c, (value? c).isSome = true → keep c = true)
    (cs : List Char) :
    hasDigits (encode keep cs) = hasDigits cs := by
  -- A character that is no digit is either kept or becomes a percent sign, which is none either.
  have hfirst : ∀ c cs, ∃ d rest, encode keep (c :: cs) = d :: rest ∧
      (value? d).isSome = (value? c).isSome ∧
      ((value? c).isSome = true → rest = encode keep cs) := by
    intro c cs
    rw [encode_cons]
    by_cases hc : keep c = true
    · exact ⟨c, _, by rw [if_pos hc, List.singleton_append], rfl, fun _ => rfl⟩
    · rw [if_neg hc]
      have hnone : (value? c).isSome = false := by simpa using mt (hkeep c) hc
      cases hbytes : bytes [c] with
      | nil =>
        have hpos := length_bytes_singleton_pos c
        rw [hbytes] at hpos
        cases hpos
      | cons b bs => exact ⟨'%', _, rfl, by rw [hnone]; decide, by simp [hnone]⟩
  match cs with
  | [] => rfl
  | c :: cs =>
    obtain ⟨d, rest, hencode, hdigit, hrest⟩ := hfirst c cs
    rw [hencode]
    by_cases hc : (value? c).isSome = true
    · rw [hrest hc]
      match cs with
      | [] => rfl
      | c' :: cs =>
        obtain ⟨d', rest', hencode', hdigit', -⟩ := hfirst c' cs
        rw [hencode', hasDigits, hasDigits, hdigit, hdigit']
    · have hnone : (value? c).isSome = false := by simpa using hc
      have hleft : ∀ (e : Char) (es : List Char), (value? e).isSome = false →
          hasDigits (e :: es) = false := by
        intro e es he
        cases es <;> simp [hasDigits, he]
      rw [hleft d rest (hdigit.trans hnone), hleft c cs hnone]

private theorem decode_encode (hkeep : ∀ c, (value? c).isSome = true → keep c = true)
    (hpercent : keep '%' = true) (cs : List Char) : decode (encode keep cs) = decode cs := by
  induction cs using escape_induction with
  | nil => rfl
  | plain c cs h ih =>
    rw [encode_cons, decode_plain h]
    by_cases hc : keep c = true
    · have hplain : ¬ (c = '%' ∧ hasDigits (encode keep cs) = true) := by
        rwa [hasDigits_encode hkeep]
      rw [if_pos hc, List.singleton_append, decode_plain hplain, ih]
    · rw [if_neg hc, decode_ofBytes, ih]
  | escape h l x y cs hx hy ih =>
    have hh : keep h = true := hkeep h (by rw [hx]; rfl)
    have hl : keep l = true := hkeep l (by rw [hy]; rfl)
    rw [encode_cons, encode_cons, encode_cons, if_pos hpercent, if_pos hh, if_pos hl]
    simp only [List.singleton_append]
    rw [decode_escape hx hy, decode_escape hx hy, ih]

/-! ### Paths -/

private theorem keptInPath_of_digit (h : (value? c).isSome = true) : keptInPath c = true := by
  have hall : "0123456789abcdefABCDEF".toList.all keptInPath = true := by decide
  exact List.all_eq_true.1 hall c (Text.Hex.isSome_value?_iff.1 h)

theorem decode_encode_path (cs : List Char) : decode (encode keptInPath cs) = decode cs :=
  decode_encode (fun _ => keptInPath_of_digit) (by decide) cs

theorem question_mark_notMem_encode (cs : List Char) : '?' ∉ encode keptInPath cs := by
  intro h
  rcases mem_encode h with h | h | ⟨n, hn, h⟩
  · exact absurd h (by decide)
  · exact absurd h (by decide)
  · have hvalue := value?_upperDigit hn
    rw [← h] at hvalue
    cases hvalue

end RunLedger.Http.Percent
