import RunLedger.Json.Relaxed.Scanner
import RunLedger.Json.Scanner

/-!
Numbers as they are printed. The text of every number has the parts of a numeral, and both scanners
read a numeral whole: the strict one keeps its parts, the other one its characters.
-/

set_option autoImplicit false

namespace RunLedger.Decimal

private theorem isDigit_of_mem_ofNat {n : Nat} {d : Char} (h : d ∈ ofNat n) : isDigit d = true :=
  List.all_eq_true.1 (all_isDigit_ofNat n) d h

private theorem head?_ofNat_eq_zero {n : Nat} (h : (ofNat n).head? = some '0') : n = 0 := by
  induction n using Nat.strongRecOn with
  | _ n ih =>
    unfold ofNat at h
    split at h
    · next hsmall =>
      have hall : ∀ m : Fin 10, digit m.val = '0' → m.val = 0 := by decide
      exact hall ⟨n, hsmall⟩ (by simpa using h)
    · next hlarge =>
      obtain ⟨d, ds, hds⟩ := List.exists_cons_of_ne_nil (ofNat_ne_nil (n / 10))
      have hhead : (ofNat (n / 10)).head? = some '0' := by simpa [hds] using h
      have := ih (n / 10) (by omega) hhead
      omega

private theorem ofNat_eq_of_head? {n : Nat} (h : (ofNat n).head? = some '0') : ofNat n = ['0'] := by
  rw [head?_ofNat_eq_zero h, ofNat]
  rfl

private theorem exists_ofNat_eq_cons (n : Nat) : ∃ d ds, ofNat n = d :: ds :=
  List.exists_cons_of_ne_nil (ofNat_ne_nil n)

end RunLedger.Decimal

namespace RunLedger.Json

/-- Whether a text is at its end or goes on with what cannot belong to a number or a word. -/
def Ends (rest : List Char) : Prop := ∀ c ∈ rest.head?, c.isAlphanum = false ∧ c ≠ '.'

theorem ends_nil : Ends [] := by simp [Ends]

theorem ends_cons {c : Char} {rest : List Char} (h : c.isAlphanum = false ∧ c ≠ '.') :
    Ends (c :: rest) := by
  intro d hd
  cases hd
  exact h

private theorem isDigit_eq (c : Char) : Decimal.isDigit c = c.isDigit := by
  simp only [Decimal.isDigit, Decimal.digitValue?, Char.isDigit, Char.le_def]
  split <;> simp_all

theorem exists_eq_digit {c : Char} (h : Decimal.isDigit c = true) :
    ∃ k : Fin 10, c = Decimal.digit k.val := by
  rw [isDigit_eq, Char.isDigit_iff_toNat] at h
  have h0 : '0'.toNat = 48 := rfl
  have h9 : '9'.toNat = 57 := rfl
  refine ⟨⟨c.toNat - 48, by omega⟩, ?_⟩
  rw [Decimal.digit, show 48 + (c.toNat - 48) = c.toNat by omega, Char.ofNat_toNat]

private theorem isDigit_eq_false {c : Char} (h : c.isAlphanum = false) :
    Decimal.isDigit c = false := by
  rw [isDigit_eq]
  simp only [Char.isAlphanum, Bool.or_eq_false_iff] at h
  exact h.2

theorem takeWhile_append_stop {p : Char → Bool} {ds rest : List Char} (hall : ∀ d ∈ ds, p d = true)
    (hstop : ∀ c ∈ rest.head?, p c = false) : (ds ++ rest).takeWhile p = ds := by
  rw [List.takeWhile_append_of_pos hall]
  cases rest with
  | nil => simp
  | cons c rest => simp [hstop c rfl]

theorem dropWhile_append_stop {p : Char → Bool} {ds rest : List Char} (hall : ∀ d ∈ ds, p d = true)
    (hstop : ∀ c ∈ rest.head?, p c = false) : (ds ++ rest).dropWhile p = rest := by
  rw [List.dropWhile_append_of_pos hall]
  cases rest with
  | nil => rfl
  | cons c rest => simp [hstop c rfl]

private theorem leadingDigits_append {ds rest : List Char}
    (hall : ∀ d ∈ ds, Decimal.isDigit d = true)
    (hstop : ∀ c ∈ rest.head?, Decimal.isDigit c = false) :
    leadingDigits ((ds ++ rest).map some) = ds := by
  have hplace : isDigitPlace ∘ some = Decimal.isDigit := rfl
  rw [leadingDigits, List.takeWhile_map, hplace, takeWhile_append_stop hall hstop,
    List.filterMap_map]
  simp

private theorem afterDigits_append {ds rest : List Char} (hall : ∀ d ∈ ds, Decimal.isDigit d = true)
    (hstop : ∀ c ∈ rest.head?, Decimal.isDigit c = false) :
    afterDigits ((ds ++ rest).map some) = rest.map some := by
  have hplace : isDigitPlace ∘ some = Decimal.isDigit := rfl
  rw [afterDigits, List.dropWhile_map, hplace, dropWhile_append_stop hall hstop]

namespace Numeral

variable {n : Numeral} {rest : List Char}

def fractionText (fraction : List Char) : List Char :=
  if fraction = [] then [] else '.' :: fraction

/-- An exponent as it is printed, always with a sign. -/
def exponentText : Option (Bool × List Char) → List Char
  | none => []
  | some (down, ds) => 'e' :: (if down then '-' else '+') :: ds

def unsignedText (n : Numeral) : List Char :=
  n.whole ++ (fractionText n.fraction ++ exponentText n.exponent)

def text (n : Numeral) : List Char := if n.negative then '-' :: n.unsignedText else n.unsignedText

/-- Whether the parts of a numeral are such as JSON allows. -/
structure IsPlain (n : Numeral) : Prop where
  whole_ne_nil : n.whole ≠ []
  whole_digits : ∀ d ∈ n.whole, Decimal.isDigit d = true
  whole_zero : n.whole.head? = some '0' → n.whole = ['0']
  fraction_digits : ∀ d ∈ n.fraction, Decimal.isDigit d = true
  exponent_ne_nil : ∀ e ∈ n.exponent, e.2 ≠ []
  exponent_digits : ∀ e ∈ n.exponent, ∀ d ∈ e.2, Decimal.isDigit d = true

theorem IsPlain.head (h : n.IsPlain) :
    ∃ d ds, n.unsignedText = d :: ds ∧ Decimal.isDigit d = true := by
  obtain ⟨d, ds, hwhole⟩ := List.exists_cons_of_ne_nil h.whole_ne_nil
  refine ⟨d, ds ++ (fractionText n.fraction ++ exponentText n.exponent), ?_, ?_⟩
  · rw [unsignedText, hwhole, List.cons_append]
  · exact h.whole_digits d (by simp [hwhole])

theorem IsPlain.text_head (h : n.IsPlain) :
    ∃ c cs, n.text = c :: cs ∧ (c = '-' ∨ Decimal.isDigit c = true) := by
  obtain ⟨d, ds, hhead, hdigit⟩ := h.head
  unfold text
  split
  · exact ⟨_, _, rfl, .inl rfl⟩
  · exact ⟨d, ds, hhead, .inr hdigit⟩

private theorem le_of_isDigit {d : Char} (h : Decimal.isDigit d = true) : 0x20 ≤ d.toNat := by
  rw [isDigit_eq, Char.isDigit_iff_toNat] at h
  have hzero : '0'.toNat = 48 := rfl
  omega

theorem IsPlain.le_of_mem (h : n.IsPlain) {d : Char} (hd : d ∈ n.text) : 0x20 ≤ d.toNat := by
  have hunsigned : ∀ c ∈ n.unsignedText, 0x20 ≤ c.toNat := by
    intro c hc
    simp only [unsignedText, List.mem_append] at hc
    rcases hc with hc | hc | hc
    · exact le_of_isDigit (h.whole_digits c hc)
    · unfold fractionText at hc
      split at hc
      · simp at hc
      · rcases List.mem_cons.1 hc with rfl | hc
        · decide
        · exact le_of_isDigit (h.fraction_digits c hc)
    · cases he : n.exponent with
      | none => simp [he, exponentText] at hc
      | some e =>
        rw [he] at hc
        rcases List.mem_cons.1 hc with rfl | hc
        · decide
        · rcases List.mem_cons.1 hc with rfl | hc
          · split <;> decide
          · exact le_of_isDigit (h.exponent_digits e (by simp [he]) c hc)
  unfold text at hd
  split at hd
  · rcases List.mem_cons.1 hd with rfl | hd
    · decide
    · exact hunsigned d hd
  · exact hunsigned d hd

private theorem exponent_stops (e : Option (Bool × List Char)) (hrest : Ends rest) :
    ∀ c ∈ (exponentText e ++ rest).head?, Decimal.isDigit c = false ∧ c ≠ '.' := by
  cases e with
  | none => exact fun c hc => ⟨isDigit_eq_false (hrest c hc).1, (hrest c hc).2⟩
  | some e =>
    intro c hc
    simp only [exponentText, List.cons_append, List.head?_cons, Option.mem_def,
      Option.some.injEq] at hc
    subst hc
    decide

private theorem fraction_head (f : List Char) (e : Option (Bool × List Char)) (hrest : Ends rest) :
    ∀ c ∈ (fractionText f ++ (exponentText e ++ rest)).head?,
      c = '.' ∨ c = 'e' ∨ c.isAlphanum = false := by
  intro c hc
  by_cases hf : f = []
  · cases e with
    | none => exact .inr (.inr (hrest c (by simpa [fractionText, exponentText, hf] using hc)).1)
    | some e =>
      refine .inr (.inl ?_)
      simp only [fractionText, hf, exponentText, if_true, List.nil_append, List.cons_append,
        List.head?_cons, Option.mem_def, Option.some.injEq] at hc
      exact hc.symm
  · refine .inl ?_
    simp only [fractionText, hf, if_false, List.cons_append, List.head?_cons, Option.mem_def,
      Option.some.injEq] at hc
    exact hc.symm

private theorem fraction_stops (f : List Char) (e : Option (Bool × List Char)) (hrest : Ends rest) :
    ∀ c ∈ (fractionText f ++ (exponentText e ++ rest)).head?, Decimal.isDigit c = false := by
  intro c hc
  rcases fraction_head f e hrest c hc with rfl | rfl | h
  · decide
  · decide
  · exact isDigit_eq_false h

private theorem ends_stops (hrest : Ends rest) : ∀ c ∈ rest.head?, Decimal.isDigit c = false :=
  fun c hc => isDigit_eq_false (hrest c hc).1

private theorem scanWhole?_append {tail : List Char} (h : n.IsPlain)
    (hstop : ∀ c ∈ tail.head?, Decimal.isDigit c = false) :
    scanWhole? ((n.whole ++ tail).map some) = some (n.whole, tail.map some) := by
  have hdigits := leadingDigits_append h.whole_digits hstop
  have hafter := afterDigits_append h.whole_digits hstop
  obtain ⟨d, ds, hwhole⟩ := List.exists_cons_of_ne_nil h.whole_ne_nil
  by_cases hzero : d = '0'
  · subst hzero
    have hone : n.whole = ['0'] := h.whole_zero (by simp [hwhole])
    have hnone : leadingDigits (tail.map some) = [] :=
      @leadingDigits_append [] _ (by simp) hstop
    rw [hone]
    simp [scanWhole?, hnone]
  · rw [hwhole] at hdigits hafter ⊢
    simp only [List.cons_append, List.map_cons] at hdigits hafter ⊢
    rw [scanWhole?.eq_def]
    split
    · next heq => simp_all
    · simp only [hdigits, hafter]
      rfl

private theorem scanFraction?_append {fraction tail : List Char}
    (hall : ∀ d ∈ fraction, Decimal.isDigit d = true)
    (hstop : ∀ c ∈ tail.head?, Decimal.isDigit c = false ∧ c ≠ '.') :
    scanFraction? ((fractionText fraction ++ tail).map some) = some (fraction, tail.map some) := by
  have hdigits := leadingDigits_append hall fun c hc => (hstop c hc).1
  have hafter := afterDigits_append hall fun c hc => (hstop c hc).1
  unfold fractionText
  split
  · next hnil =>
    subst hnil
    rw [scanFraction?.eq_def]
    split
    · next heq =>
      cases tail with
      | nil => simp at heq
      | cons c tail =>
        have hpoint : c ≠ '.' := (hstop c rfl).2
        simp_all
    · rfl
  · next hne =>
    rw [List.map_append] at hdigits hafter
    simp [scanFraction?, hdigits, hafter, hne]

private theorem scanExponent?_append (h : n.IsPlain) (hrest : Ends rest) :
    scanExponent? ((exponentText n.exponent ++ rest).map some) =
      some (n.exponent, rest.map some) := by
  cases he : n.exponent with
  | none =>
    cases rest with
    | nil => rfl
    | cons c rest =>
      have hletter : ¬ (c = 'e' ∨ c = 'E') := by
        have := (hrest c rfl).1
        rintro (rfl | rfl) <;> simp at this
      simp [exponentText, scanExponent?, hletter]
  | some e =>
    obtain ⟨down, ds⟩ := e
    have hall : ∀ d ∈ ds, Decimal.isDigit d = true := h.exponent_digits (down, ds) (by simp [he])
    have hne : ds ≠ [] := h.exponent_ne_nil (down, ds) (by simp [he])
    have hdigits := leadingDigits_append hall (ends_stops hrest)
    have hafter := afterDigits_append hall (ends_stops hrest)
    rw [List.map_append] at hdigits hafter
    cases down <;> simp [exponentText, scanExponent?, hdigits, hafter, hne]

/-- The strict scanner reads a numeral with its parts. -/
theorem scan_text (h : n.IsPlain) (hrest : Ends rest) :
    Numeral.scan ((n.text ++ rest).map some) = some (n, rest.map some) := by
  have hwhole := scanWhole?_append h (fraction_stops n.fraction n.exponent hrest)
  have hfraction := scanFraction?_append h.fraction_digits (exponent_stops n.exponent hrest)
  have hexponent := scanExponent?_append h hrest
  have hbody : n.unsignedText ++ rest =
      n.whole ++ (fractionText n.fraction ++ (exponentText n.exponent ++ rest)) := by
    simp [unsignedText]
  obtain ⟨d, ds, hhead, hdigit⟩ := h.head
  have hminus : d ≠ '-' := by
    rintro rfl
    simp [Decimal.isDigit, Decimal.digitValue?] at hdigit
  unfold text
  by_cases hsign : n.negative = true
  · rw [if_pos hsign, List.cons_append, List.map_cons, hbody]
    simp only [Numeral.scan, hwhole, hfraction, hexponent, Option.bind_eq_bind, Option.bind_some,
      ← hsign]
  · rw [if_neg hsign]
    have hplain : n.negative = false := by simpa using hsign
    unfold Numeral.scan
    split
    next negative cs heq =>
      split at heq
      · next hcons =>
        rw [hhead] at hcons
        simp [hminus] at hcons
      · cases heq
        rw [hbody]
        simp only [hwhole, hfraction, hexponent, Option.bind_eq_bind, Option.bind_some, ← hplain]

end Numeral

namespace Relaxed

open Numeral

variable {n : Numeral} {rest : List Char}

private theorem scanExponent?_append (h : n.IsPlain) (hrest : Ends rest) :
    scanExponent? (exponentText n.exponent ++ rest) = some (exponentText n.exponent, rest) := by
  cases he : n.exponent with
  | none =>
    cases rest with
    | nil => rfl
    | cons c rest =>
      have hletter : ¬ (c = 'e' ∨ c = 'E') := by
        have := (hrest c rfl).1
        rintro (rfl | rfl) <;> simp at this
      simp [exponentText, scanExponent?, hletter]
  | some e =>
    obtain ⟨down, ds⟩ := e
    have hall : ∀ d ∈ ds, Decimal.isDigit d = true := h.exponent_digits (down, ds) (by simp [he])
    have hne : ds ≠ [] := h.exponent_ne_nil (down, ds) (by simp [he])
    have htake := takeWhile_append_stop hall (ends_stops hrest)
    have hdrop := dropWhile_append_stop hall (ends_stops hrest)
    cases down <;> simp [exponentText, scanExponent?, htake, hdrop, hne]

private theorem scanDecimal?_append (h : n.IsPlain) (hrest : Ends rest) :
    scanDecimal? (n.unsignedText ++ rest) = some (n.unsignedText, rest) := by
  have hbody : n.unsignedText ++ rest =
      n.whole ++ (fractionText n.fraction ++ (exponentText n.exponent ++ rest)) := by
    simp [unsignedText]
  have hstop := fraction_stops n.fraction n.exponent hrest
  have hwhole := takeWhile_append_stop h.whole_digits hstop
  have hafter := dropWhile_append_stop h.whole_digits hstop
  have hzero : ¬ (n.whole.head? = some '0' ∧ n.whole ≠ ['0']) :=
    fun hz => hz.2 (h.whole_zero hz.1)
  have hexponent := scanExponent?_append h hrest
  have hempty : n.whole.isEmpty = false := by simpa using h.whole_ne_nil
  have hstops := exponent_stops n.exponent hrest
  rw [hbody, scanDecimal?]
  simp only [hwhole, hafter, if_neg hzero, hempty, Bool.false_and, Bool.false_eq_true, if_false,
    Option.bind_eq_bind]
  by_cases hfraction : n.fraction = []
  · have hnil : fractionText n.fraction = [] := by simp [fractionText, hfraction]
    rw [hnil, List.nil_append]
    split
    · next heq =>
      rw [heq] at hstops
      exact absurd rfl (hstops '.' rfl).2
    · simp [hexponent, unsignedText, hnil]
  · have htake := takeWhile_append_stop h.fraction_digits fun c hc => (hstops c hc).1
    have hdrop := dropWhile_append_stop h.fraction_digits fun c hc => (hstops c hc).1
    have htext : fractionText n.fraction = '.' :: n.fraction := by simp [fractionText, hfraction]
    rw [htext, List.cons_append]
    simp [htake, hdrop, hexponent, unsignedText, htext, hfraction]

private theorem digit_toLower {d : Char} (h : Decimal.isDigit d = true) :
    d.isAlphanum = true ∧ d.toLower = d ∧ d ∉ ['n', 't', 'f', 'i', 'q', 's', '-', '+'] := by
  have hall : ∀ k : Fin 10, (Decimal.digit k.val).isAlphanum = true ∧
      (Decimal.digit k.val).toLower = Decimal.digit k.val ∧
      Decimal.digit k.val ∉ ['n', 't', 'f', 'i', 'q', 's', '-', '+'] := by decide
  obtain ⟨k, rfl⟩ := exists_eq_digit h
  exact hall k

private theorem scanWord?_eq_none_of {cs word : List Char}
    (hword : cs.takeWhile Char.isAlphanum = word)
    (hplain : ∀ w ∈ ["null", "true", "false"], word ≠ w.toList)
    (hsmall : ∀ w ∈ ["inf", "infinity", "nan", "qnan", "snan"],
      word.map Char.toLower ≠ w.toList) : scanWord? cs = none := by
  have hplain' : ∀ w ∈ ["null", "true", "false"], String.ofList word ≠ w := by
    intro w hw heq
    exact hplain w hw (by rw [← heq, String.toList_ofList])
  have hsmall' : ∀ w ∈ ["inf", "infinity", "nan", "qnan", "snan"],
      (String.ofList word).toLower ≠ w := by
    intro w hw heq
    have hmap : (String.ofList word).toLower = (String.ofList word).map Char.toLower := rfl
    exact hsmall w hw (by rw [← heq, hmap, String.toList_map, String.toList_ofList])
  simp only [List.mem_cons, List.not_mem_nil, or_false, forall_eq_or_imp, forall_eq] at hplain' hsmall'
  obtain ⟨hnull, htrue, hfalse⟩ := hplain'
  obtain ⟨hinf, hinfinity, hnan, hqnan, hsnan⟩ := hsmall'
  simp [scanWord?, hword, hnull, htrue, hfalse, hinf, hinfinity, hnan, hqnan, hsnan]

private theorem scanWord?_eq_none {c : Char} (h : c.isAlphanum = false ∨ Decimal.isDigit c = true)
    (cs : List Char) : scanWord? (c :: cs) = none := by
  rcases h with h | h
  · have hword : (c :: cs).takeWhile Char.isAlphanum = [] := by simp [h]
    exact scanWord?_eq_none_of hword (by decide) (by decide)
  · obtain ⟨halnum, hlower, hletter⟩ := digit_toLower h
    simp only [List.mem_cons, List.not_mem_nil, or_false, not_or] at hletter
    obtain ⟨hn, ht, hf, hi, hq, hs, -, -⟩ := hletter
    have hword : (c :: cs).takeWhile Char.isAlphanum = c :: cs.takeWhile Char.isAlphanum := by
      simp [halnum]
    refine scanWord?_eq_none_of hword ?_ ?_
    · simp [hn, ht, hf]
    · simp [hlower, hn, hi, hq, hs]

private theorem scanInfinity?_eq_none {d : Char} (h : Decimal.isDigit d = true) (cs : List Char) :
    scanInfinity? (d :: cs) = none := by
  obtain ⟨-, hlower, hletter⟩ := digit_toLower h
  simp only [List.mem_cons, List.not_mem_nil, or_false, not_or] at hletter
  obtain ⟨-, -, -, hi, -⟩ := hletter
  have hstart : ("inf".length : Nat) = 3 := rfl
  simp [scanInfinity?, hlower, hi, hstart]

private theorem scanUnsigned?_text (h : n.IsPlain) (hrest : Ends rest) (isNegative : Bool) :
    scanUnsigned? isNegative (n.unsignedText ++ rest) =
      some (.number (if isNegative then '-' :: n.unsignedText else n.unsignedText), rest) := by
  have hdecimal := scanDecimal?_append h hrest
  -- Behind a leading zero there is a point, an exponent or the end, never the letter x.
  have hnext : ∀ x cs, n.unsignedText ++ rest = '0' :: x :: cs → (x = 'x' || x = 'X') = false := by
    intro x cs heq
    have hone : n.whole = ['0'] := by
      obtain ⟨d, ds, hwhole⟩ := List.exists_cons_of_ne_nil h.whole_ne_nil
      refine h.whole_zero ?_
      simp_all [unsignedText]
    have hx : x ∈ (fractionText n.fraction ++ (exponentText n.exponent ++ rest)).head? := by
      rw [unsignedText, hone, List.append_assoc, List.append_assoc, List.cons_append] at heq
      rw [List.nil_append] at heq
      rw [(List.cons.inj heq).2]
      rfl
    rcases fraction_head n.fraction n.exponent hrest x hx with rfl | rfl | hx
    · decide
    · decide
    · have : ¬ (x = 'x' ∨ x = 'X') := by
        rintro (rfl | rfl) <;> simp at hx
      simpa using this
  simp only [scanUnsigned?, hdecimal, Option.map_some]
  refine if_neg ?_
  split
  · next x y cs heq => simp [hnext x _ heq]
  · simp

theorem scanNumber?_text (h : n.IsPlain) (hrest : Ends rest) :
    scanNumber? (n.text ++ rest) = some (.number n.text, rest) := by
  obtain ⟨d, ds, hhead, hdigit⟩ := h.head
  have hletter := (digit_toLower hdigit).2.2
  simp only [List.mem_cons, List.not_mem_nil, or_false, not_or] at hletter
  obtain ⟨-, -, -, -, -, -, hminus, hplus⟩ := hletter
  unfold Numeral.text
  by_cases hsign : n.negative = true
  · have hinfinity : scanInfinity? (n.unsignedText ++ rest) = none := by
      rw [hhead]
      exact scanInfinity?_eq_none hdigit _
    rw [if_pos hsign, List.cons_append, scanNumber?, hinfinity]
    exact scanUnsigned?_text h hrest true
  · rw [if_neg hsign]
    have hunsigned := scanUnsigned?_text h hrest false
    rw [hhead] at hunsigned ⊢
    simp only [List.cons_append] at hunsigned ⊢
    unfold scanNumber?
    split
    · simp_all
    · simp_all
    · exact hunsigned

theorem scanWord?_text (h : n.IsPlain) (rest : List Char) : scanWord? (n.text ++ rest) = none := by
  obtain ⟨d, ds, hhead, hdigit⟩ := h.head
  unfold Numeral.text
  split
  · exact scanWord?_eq_none (.inl (by decide)) _
  · rw [hhead]
    exact scanWord?_eq_none (.inr hdigit) _

end Relaxed

/-- The numeral of a decimal number as it is printed, without a sign. -/
def scaledNumeral (s : Decimal.Scaled) : Numeral :=
  let t := s.trim
  let ds := Decimal.ofNat t.digits
  let lead : Int := ds.length + t.exponent - 1
  if t.digits = 0 then ⟨false, ['0'], ['0'], none⟩
  else if 0 ≤ lead ∧ lead ≤ 15 then
    let whole := lead.toNat + 1
    if ds.length ≤ whole then ⟨false, ds ++ List.replicate (whole - ds.length) '0', ['0'], none⟩
    else ⟨false, ds.take whole, ds.drop whole, none⟩
  else if -5 ≤ lead ∧ lead < 0 then
    ⟨false, ['0'], List.replicate (-lead - 1).toNat '0' ++ ds, none⟩
  else ⟨false, ds.take 1, ds.drop 1, some (decide (lead < 0), Decimal.ofNat lead.natAbs)⟩

/-- The numeral of a floating number as it is printed. -/
def floatNumeral (bits : UInt64) : Numeral :=
  let b := Decimal.Binary.ofBits bits
  { (if b.mantissa = 0 then ⟨false, ['0'], ['0'], none⟩ else scaledNumeral b.shortest) with
    negative := Decimal.isNegativeBits bits }

def Number.numeral : Number → Numeral
  | .nat n => ⟨false, Decimal.ofNat n.toNat, [], none⟩
  | .neg n => ⟨true, Decimal.ofNat (n.val + 1), [], none⟩
  | .float bits => floatNumeral bits

open Numeral

private theorem scaledText_eq (s : Decimal.Scaled) :
    Number.scaledText s = (scaledNumeral s).unsignedText := by
  unfold Number.scaledText scaledNumeral
  simp only
  split
  · rfl
  · split
    · split
      · simp [unsignedText, fractionText, exponentText]
      · next hlong =>
        have hne : (Decimal.ofNat s.trim.digits).drop
            (((Decimal.ofNat s.trim.digits).length + s.trim.exponent - 1).toNat + 1) ≠ [] := by
          simpa using hlong
        simp only [unsignedText, fractionText, exponentText, if_neg hne, List.append_nil]
    · split
      · have hne := Decimal.ofNat_ne_nil s.trim.digits
        simp [unsignedText, fractionText, exponentText, hne]
      · obtain ⟨d, ds, hds⟩ := Decimal.exists_ofNat_eq_cons s.trim.digits
        cases ds <;>
          simp [hds, Number.mantissaText, unsignedText, fractionText, exponentText]

private theorem text_whole (negative : Bool) (ds : List Char) :
    Numeral.text ⟨negative, ds, [], none⟩ = if negative then '-' :: ds else ds := by
  simp [Numeral.text, unsignedText, fractionText, exponentText]

private theorem text_signed (n : Numeral) (negative : Bool) :
    Numeral.text { n with negative } =
      if negative then '-' :: n.unsignedText else n.unsignedText := rfl

theorem Number.print_eq (n : Number) : n.print = n.numeral.text := by
  cases n with
  | nat n => exact (text_whole false _).symm
  | neg n => exact (text_whole true _).symm
  | float bits =>
    rw [Number.print, Number.floatText, Number.numeral, floatNumeral]
    simp only [text_signed]
    by_cases hzero : (Decimal.Binary.ofBits bits).mantissa = 0
    · simp only [if_pos hzero]
      rfl
    · simp only [if_neg hzero, scaledText_eq]

private theorem isPlain_ofNat (negative : Bool) (n : Nat) :
    Numeral.IsPlain ⟨negative, Decimal.ofNat n, [], none⟩ where
  whole_ne_nil := Decimal.ofNat_ne_nil n
  whole_digits _ := Decimal.isDigit_of_mem_ofNat
  whole_zero := Decimal.ofNat_eq_of_head?
  fraction_digits := by simp
  exponent_ne_nil := by simp
  exponent_digits := by simp

private theorem isPlain_zero : Numeral.IsPlain ⟨false, ['0'], ['0'], none⟩ where
  whole_ne_nil := by simp
  whole_digits := List.all_eq_true.1 rfl
  whole_zero _ := rfl
  fraction_digits := List.all_eq_true.1 rfl
  exponent_ne_nil := by simp
  exponent_digits := by simp

theorem scaledNumeral_isPlain (s : Decimal.Scaled) : (scaledNumeral s).IsPlain := by
  have hzero : Decimal.isDigit '0' = true := by decide
  have hdigit : ∀ d ∈ Decimal.ofNat s.trim.digits, Decimal.isDigit d = true :=
    fun _ => Decimal.isDigit_of_mem_ofNat
  obtain ⟨d, ds, hds⟩ := Decimal.exists_ofNat_eq_cons s.trim.digits
  unfold scaledNumeral
  simp only
  split
  · exact isPlain_zero
  next hpositive =>
  have hhead : d ≠ '0' := by
    rintro rfl
    exact hpositive (Decimal.head?_ofNat_eq_zero (by simp [hds]))
  split
  · split
    · constructor
      · simp [hds]
      · simpa [or_imp, forall_and, List.mem_replicate, hzero] using hdigit
      · intro h
        simp [hds, hhead] at h
      · simpa using hzero
      · simp
      · simp
    · constructor
      · simp [hds]
      · exact fun c hc => hdigit c (List.mem_of_mem_take hc)
      · intro h
        simp [hds, hhead] at h
      · exact fun c hc => hdigit c (List.mem_of_mem_drop hc)
      · simp
      · simp
  · split
    · constructor
      · simp
      · simpa using hzero
      · simp
      · simpa [or_imp, forall_and, List.mem_replicate, hzero] using hdigit
      · simp
      · simp
    · constructor
      · simp [hds]
      · exact fun c hc => hdigit c (List.mem_of_mem_take hc)
      · intro h
        simp [hds, hhead] at h
      · exact fun c hc => hdigit c (List.mem_of_mem_drop hc)
      · simp [Decimal.ofNat_ne_nil]
      · simpa using fun c => Decimal.isDigit_of_mem_ofNat (d := c)

theorem Number.numeral_isPlain (n : Number) : n.numeral.IsPlain := by
  cases n with
  | nat n => exact isPlain_ofNat false n.toNat
  | neg n => exact isPlain_ofNat true (n.val + 1)
  | float bits =>
    have hplain : (if (Decimal.Binary.ofBits bits).mantissa = 0 then
        (⟨false, ['0'], ['0'], none⟩ : Numeral)
          else scaledNumeral (Decimal.Binary.ofBits bits).shortest).IsPlain := by
      split
      · exact isPlain_zero
      · exact scaledNumeral_isPlain _
    exact ⟨hplain.1, hplain.2, hplain.3, hplain.4, hplain.5, hplain.6⟩

end RunLedger.Json
