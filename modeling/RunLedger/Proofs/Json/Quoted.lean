import RunLedger.Json.Relaxed.Scanner
import RunLedger.Json.Scanner

/-!
Texts in quotes. What the printer puts between quotes is read in full by both scanners, and either
reading gives the text back.
-/

set_option autoImplicit false

namespace RunLedger.Json

@[elab_as_elim]
private theorem shortEscape?_elim {motive : Char → Char → Prop} {c e : Char}
    (h : shortEscape? c = some e)
    (quote : motive '"' '"') (backslash : motive '\\' '\\') (backspace : motive '\x08' 'b')
    (formFeed : motive '\x0c' 'f') (lineFeed : motive '\n' 'n') (carriage : motive '\r' 'r')
    (tab : motive '\t' 't') : motive c e := by
  unfold shortEscape? at h
  repeat' split at h
  all_goals cases h <;> (subst_vars; assumption)

theorem shortEscape?_eq_none {c : Char} (h : shortEscape? c = none) : c ≠ '"' ∧ c ≠ '\\' := by
  constructor
  · rintro rfl
    simp [shortEscape?] at h
  · rintro rfl
    simp [shortEscape?] at h

private theorem le_of_mem_escape {c d : Char} (h : d ∈ escape c) : 0x20 ≤ d.toNat := by
  unfold escape at h
  split at h
  · next e he =>
    have hletter : 0x20 ≤ e.toNat := by
      refine shortEscape?_elim he ?_ ?_ ?_ ?_ ?_ ?_ ?_ <;> decide
    simp only [List.mem_cons, List.not_mem_nil, or_false] at h
    rcases h with rfl | rfl
    · decide
    · exact hletter
  · split at h
    · next hsmall =>
      have hdigit : ∀ n : Fin 16, 0x20 ≤ (Text.Hex.digit n.val).toNat := by decide
      have hhigh := hdigit ⟨c.toNat / 16, by omega⟩
      have hlow := hdigit ⟨c.toNat % 16, by omega⟩
      simp only [List.mem_cons, List.not_mem_nil, or_false] at h
      rcases h with rfl | rfl | rfl | rfl | rfl | rfl
      · decide
      · decide
      · decide
      · decide
      · exact hhigh
      · exact hlow
    · next hlarge =>
      have : d = c := by simpa using h
      subst this
      omega

theorem le_of_mem_quoted {s : String} {d : Char} (h : d ∈ quoted s) : 0x20 ≤ d.toNat := by
  simp only [quoted, List.mem_cons, List.mem_append, List.mem_flatMap, List.not_mem_nil,
    or_false] at h
  rcases h with rfl | ⟨c, -, hc⟩ | rfl
  · decide
  · exact le_of_mem_escape hc
  · decide

private theorem number?_control {n : Nat} (h : n < 0x20) :
    Text.Hex.number? ['0', '0', Text.Hex.digit (n / 16), Text.Hex.digit (n % 16)] = some n := by
  have hall : ∀ m : Fin 0x20, Text.Hex.number?
      ['0', '0', Text.Hex.digit (m.val / 16), Text.Hex.digit (m.val % 16)] = some m.val := by
    decide
  exact hall ⟨n, h⟩

namespace Piece

/-- The part of a text that is read where a character was printed. -/
def ofChar (c : Char) : Piece :=
  if shortEscape? c = none ∧ c.toNat < 0x20 then .unit c.toNat else .char c

private theorem scan_shortEscape {e : Char} (h : e ≠ 'u') (cs : Input) :
    scan (some '\\' :: some e :: cs) =
      match unescape? e, scan cs with
      | some x, some (ps, rest) => some (.char x :: ps, rest)
      | _, _ => none := by
  rw [scan.eq_def]
  simp only [Char.reduceEq, if_false, if_true]
  split
  · next heq =>
    cases heq
    exact absurd rfl h
  · next heq =>
    cases heq
    rfl
  · next hnone => exact absurd rfl (hnone e cs)

private theorem scan_escape (c : Char) (cs : Input) :
    scan ((escape c).map some ++ cs) =
      (scan cs).map fun (ps, rest) => (ofChar c :: ps, rest) := by
  unfold escape ofChar
  cases hshort : shortEscape? c with
  | some e =>
    have hunescape : unescape? e = some c := by
      refine shortEscape?_elim hshort ?_ ?_ ?_ ?_ ?_ ?_ ?_ <;> rfl
    have hletter : e ≠ 'u' := by
      refine shortEscape?_elim hshort ?_ ?_ ?_ ?_ ?_ ?_ ?_ <;> decide
    simp only [List.map_cons, List.map_nil, List.cons_append, List.nil_append,
      scan_shortEscape hletter, hunescape]
    cases scan cs <;> simp
  | none =>
    obtain ⟨hquote, hbackslash⟩ := shortEscape?_eq_none hshort
    by_cases hcontrol : c.toNat < 0x20
    · have hnumber := number?_control hcontrol
      rw [if_pos hcontrol, if_pos ⟨rfl, hcontrol⟩]
      simp only [List.map_cons, List.map_nil, List.cons_append, List.nil_append]
      rw [scan]
      simp only [hnumber]
      cases scan cs <;> simp
    · rw [if_neg hcontrol, if_neg fun h => hcontrol h.2]
      simp only [List.map_cons, List.map_nil, List.cons_append, List.nil_append]
      rw [scan.eq_def]
      simp [hquote, hbackslash, hcontrol]

theorem scan_quoted (cs : List Char) (rest : Input) :
    scan ((cs.flatMap escape).map some ++ some '"' :: rest) = some (cs.map ofChar, rest) := by
  induction cs with
  | nil =>
    simp only [List.flatMap_nil, List.map_nil, List.nil_append]
    rw [scan.eq_def]
    simp
  | cons c cs ih =>
    rw [List.flatMap_cons, List.map_append, List.append_assoc, scan_escape, ih]
    rfl

private theorem characters?_ofChar (cs : List Char) : characters? (cs.map ofChar) = some cs := by
  induction cs with
  | nil => rfl
  | cons c cs ih =>
    rw [List.map_cons, ofChar]
    split
    · next h =>
      have hlow : isLowUnit c.toNat = false := by
        have := h.2
        simp only [isLowUnit, Bool.and_eq_false_iff, decide_eq_false_iff_not]
        omega
      have hhigh : isHighUnit c.toNat = false := by
        have := h.2
        simp only [isHighUnit, Bool.and_eq_false_iff, decide_eq_false_iff_not]
        omega
      rw [characters?.eq_def]
      simp [hlow, hhigh, ih, Char.ofNat_toNat]
    · simp [characters?, ih]

theorem text?_ofChar (s : String) : text? (s.toList.map ofChar) = some s := by
  simp [text?, characters?_ofChar]

end Piece

namespace Relaxed.Part

/-- The part of a text as it is written where a character is printed. -/
def ofChar (c : Char) : Part :=
  match shortEscape? c with
  | some e => .short e
  | none =>
    if c.toNat < 0x20 then
      .unit '0' '0' (Text.Hex.digit (c.toNat / 16)) (Text.Hex.digit (c.toNat % 16))
    else .char c

def ofString (s : String) : List Part := s.toList.map ofChar

private theorem strict_ofChar (c : Char) : (ofChar c).strict = escape c := by
  unfold ofChar
  cases hshort : shortEscape? c with
  | some e =>
    refine shortEscape?_elim hshort ?_ ?_ ?_ ?_ ?_ ?_ ?_ <;> rfl
  | none =>
    by_cases hcontrol : c.toNat < 0x20
    · simp [hcontrol, strict, escape, hshort]
    · simp [hcontrol, strict]

theorem quoted_ofString (s : String) : Relaxed.quoted (ofString s) = Json.quoted s := by
  simp [Relaxed.quoted, Json.quoted, ofString, List.flatMap_map, strict_ofChar]

private theorem codes_ofChar_cons (c : Char) (cs : List Char) :
    codes (ofChar c :: cs.map ofChar) = c.toNat :: codes (cs.map ofChar) := by
  have hkind : ∀ d : Char, (∃ e, ofChar d = .short e ∧ codeOf e = d.toNat) ∨
      (d.toNat < 0x20 ∧ ∃ d₁ d₂, ofChar d = .unit '0' '0' d₁ d₂ ∧
        valueOf ['0', '0', d₁, d₂] = d.toNat) ∨ ofChar d = .char d := by
    intro d
    unfold ofChar
    cases hshort : shortEscape? d with
    | some e =>
      refine .inl ⟨e, rfl, ?_⟩
      refine shortEscape?_elim hshort ?_ ?_ ?_ ?_ ?_ ?_ ?_ <;> rfl
    | none =>
      by_cases hcontrol : d.toNat < 0x20
      · refine .inr (.inl ⟨hcontrol, _, _, if_pos hcontrol, ?_⟩)
        rw [valueOf, number?_control hcontrol]
        rfl
      · exact .inr (.inr (if_neg hcontrol))
  rcases hkind c with ⟨e, hc, hvalue⟩ | ⟨hsmall, d₁, d₂, hc, hvalue⟩ | hc
  · rw [hc, codes, hvalue]
  · cases cs with
    | nil => simp [hc, codes, hvalue]
    | cons d cs =>
      -- The first of two units is far below a surrogate, so they make no pair.
      have hhigh : ¬ c.toNat / 0x400 = 0x36 := by omega
      rcases hkind d with ⟨e, hd, -⟩ | ⟨-, e₁, e₂, hd, -⟩ | hd <;>
        simp [hc, hd, codes, hvalue, hhigh]
  · rw [hc, codes]

theorem codes_ofString (s : String) : codes (ofString s) = codesOf s := by
  unfold ofString codesOf
  induction s.toList with
  | nil => rfl
  | cons c cs ih => rw [List.map_cons, codes_ofChar_cons, ih, List.map_cons]

theorem codesOf_injective {a b : String} (h : codesOf a = codesOf b) : a = b := by
  have hlist : a.toList = b.toList := by
    refine (List.map_inj_right ?_).1 h
    intro x y hxy
    exact Char.toNat_inj.1 hxy
  exact String.toList_inj.1 hlist

private theorem isHex_digit {n : Nat} (h : n < 16) : isHex (Text.Hex.digit n) = true := by
  rw [isHex, Text.Hex.value?_digit h]
  rfl

private theorem scan_escape (c : Char) (cs : List Char) :
    scan '"' (escape c ++ cs) =
      (scan '"' cs).map fun (ps, rest) => (ofChar c :: ps, rest) := by
  unfold escape ofChar
  cases hshort : shortEscape? c with
  | some e =>
    refine shortEscape?_elim hshort ?_ ?_ ?_ ?_ ?_ ?_ ?_ <;> simp [scan, isLineEnd, letters]
  | none =>
    obtain ⟨hquote, hbackslash⟩ := shortEscape?_eq_none hshort
    by_cases hcontrol : c.toNat < 0x20
    · have hhigh := isHex_digit (n := c.toNat / 16) (by omega)
      have hlow := isHex_digit (n := c.toNat % 16) (by omega)
      have hzero : isHex '0' = true := by decide
      simp [hcontrol, scan, hhigh, hlow, hzero]
    · simp only [if_neg hcontrol, List.cons_append, List.nil_append]
      rw [scan.eq_def]
      split <;> simp_all

theorem scan_quoted (cs rest : List Char) :
    scan '"' (cs.flatMap escape ++ '"' :: rest) = some (cs.map ofChar, rest) := by
  induction cs with
  | nil => simp [scan]
  | cons c cs ih =>
    rw [List.flatMap_cons, List.append_assoc, scan_escape, ih]
    rfl

end Relaxed.Part

end RunLedger.Json
