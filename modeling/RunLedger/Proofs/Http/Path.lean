import RunLedger.Http.Url
import RunLedger.Proofs.Http.Percent

/-!
Paths as segments. Splitting a text at its slashes and writing the pieces again gives the text, with
every slash leaning forward. Segments are resolved onto those already there: one that stands for
itself is encoded and put behind them, one that stands for dots goes, and may take another one with
it. So a resolved path decodes to at most the bytes of the segments that were put together, and to
fewer for each one that stands for dots.
-/

set_option autoImplicit false

namespace RunLedger.Http.Url

open Percent (bytes decode encode hasEscape keptInPath)

def written (segments : List (List Char)) : List Char := segments.flatMap ('/' :: ·)

/-- A text with every slash leaning forward. -/
def upright (cs : List Char) : List Char := cs.map fun c => if isSlash c = true then '/' else c

/-- Puts one segment, which others follow, on those already there. -/
def settle (above : List (List Char)) (s : List Char) : List (List Char) :=
  match dots? s with
  | some 1 => above
  | some _ => above.tail
  | none => encode keptInPath s :: above

/-- Whether a segment stands for dots. -/
def isDots (s : List Char) : Bool := (dots? s).isSome

variable {cs ds s : List Char} {above rest segments : List (List Char)}

/-! ### Segments -/

theorem written_append (as bs : List (List Char)) : written (as ++ bs) = written as ++ written bs :=
  List.flatMap_append

private theorem written_cons (s : List Char) (segments : List (List Char)) :
    written (s :: segments) = '/' :: (s ++ written segments) := rfl

theorem split_ne_nil (stop : Char → Bool) (cs : List Char) : split stop cs ≠ [] := by
  cases cs with
  | nil => simp [split]
  | cons c cs =>
    unfold split
    split
    · simp
    · split <;> simp

theorem split_append (stop : Char → Bool) {c : Char} (hc : stop c = true) (cs ds : List Char) :
    split stop (cs ++ c :: ds) = split stop cs ++ split stop ds := by
  induction cs with
  | nil => simp [split, hc]
  | cons a cs ih =>
    rw [List.cons_append, split, split, ih]
    split
    · rfl
    · cases hsplit : split stop cs with
      | nil => exact absurd hsplit (split_ne_nil stop cs)
      | cons piece pieces => rfl

theorem infix_of_mem_split {stop : Char → Bool} (h : s ∈ split stop cs) : s <:+: cs := by
  -- The first piece is even in front, so that one more character may join it.
  have hpieces : ∃ piece pieces, split stop cs = piece :: pieces ∧ piece <+: cs ∧
      ∀ t ∈ pieces, t <:+: cs := by
    clear h
    induction cs with
    | nil => exact ⟨[], [], rfl, List.prefix_refl [], by simp⟩
    | cons c cs ih =>
      obtain ⟨piece, pieces, hsplit, hfirst, hmore⟩ := ih
      rw [split, hsplit]
      split
      · refine ⟨[], piece :: pieces, rfl, List.nil_prefix, ?_⟩
        exact List.forall_mem_cons.2 ⟨hfirst.isInfix.trans (List.infix_cons (List.infix_refl cs)),
          fun t ht => List.infix_cons (hmore t ht)⟩
      · exact ⟨c :: piece, pieces, rfl, (List.prefix_cons_inj c).2 hfirst,
          fun t ht => List.infix_cons (hmore t ht)⟩
  obtain ⟨piece, pieces, hsplit, hfirst, hmore⟩ := hpieces
  rw [hsplit] at h
  rcases List.mem_cons.1 h with rfl | h
  · exact hfirst.isInfix
  · exact hmore s h

private theorem upright_cons (c : Char) (cs : List Char) :
    upright (c :: cs) = (if isSlash c = true then '/' else c) :: upright cs := rfl

theorem written_split (cs : List Char) : written (split isSlash cs) = '/' :: upright cs := by
  induction cs with
  | nil => rfl
  | cons c cs ih =>
    rw [split, upright_cons]
    split
    · rw [written_cons, ih, List.nil_append]
    · cases hsplit : split isSlash cs with
      | nil => exact absurd hsplit (split_ne_nil isSlash cs)
      | cons piece pieces =>
        rw [hsplit, written_cons] at ih
        rw [written_cons, List.cons_append, (List.cons.inj ih).2]

theorem encode_written (segments : List (List Char)) :
    encode keptInPath (written segments) = written (segments.map (encode keptInPath)) := by
  induction segments with
  | nil => rfl
  | cons s segments ih =>
    rw [written_cons, Percent.encode_cons, Percent.encode_append, ih, List.map_cons, written_cons]
    rfl

theorem upright_eq_self_iff : upright cs = cs ↔ '\\' ∉ cs := by
  induction cs with
  | nil => simp [upright]
  | cons c cs ih =>
    rw [upright_cons, List.cons.injEq, ih, List.mem_cons, not_or]
    refine and_congr_left fun _ => ?_
    by_cases hc : c = '/'
    · simp [hc]
    · by_cases hback : c = '\\'
      · simp [hback, isSlash]
      · simp [hc, hback, isSlash, Ne.symm hback]

theorem length_bytes_upright (cs : List Char) :
    (bytes (upright cs)).length = (bytes cs).length := by
  induction cs with
  | nil => rfl
  | cons c cs ih =>
    have hc : (bytes [if isSlash c = true then '/' else c]).length = (bytes [c]).length := by
      split
      · next hslash =>
        rcases Bool.or_eq_true_iff.1 hslash with h | h
        · rw [of_decide_eq_true h]
        · rw [of_decide_eq_true h]
          decide
      · rfl
    rw [upright_cons, Percent.bytes_cons, Percent.bytes_cons c cs, List.length_append,
      List.length_append, hc, ih]

/-! ### Decoded paths -/

theorem decode_slash (cs ds : List Char) :
    decode (cs ++ '/' :: ds) = decode cs ++ 0x2F :: decode ds :=
  Percent.decode_append (by decide) (by decide) cs ds

private theorem decode_append_written (cs : List Char) (segments : List (List Char)) :
    decode (cs ++ written segments) = decode cs ++ decode (written segments) := by
  cases segments with
  | nil => simp [written, decode]
  | cons s segments =>
    have hfirst := decode_slash [] (s ++ written segments)
    rw [List.nil_append] at hfirst
    rw [written_cons, decode_slash, hfirst]
    rfl

/-- The number of bytes that a path decodes to. -/
def size (segments : List (List Char)) : Nat := (decode (written segments)).length

private theorem size_cons (s : List Char) (segments : List (List Char)) :
    size (s :: segments) = (decode s).length + size segments + 1 := by
  have hfirst := decode_slash [] (s ++ written segments)
  rw [List.nil_append, decode_append_written] at hfirst
  rw [size, written_cons, hfirst, size]
  simp [decode]

private theorem size_append (as bs : List (List Char)) : size (as ++ bs) = size as + size bs := by
  rw [size, written_append, decode_append_written, List.length_append]
  rfl

theorem size_reverse (segments : List (List Char)) : size segments.reverse = size segments := by
  induction segments with
  | nil => rfl
  | cons s segments ih =>
    rw [List.reverse_cons, size_append, ih, size_cons, size_cons]
    simp [size, written, decode]
    omega

private theorem size_tail_le (segments : List (List Char)) :
    size segments.tail ≤ size segments := by
  cases segments with
  | nil => exact Nat.le_refl _
  | cons s segments =>
    rw [size_cons, List.tail_cons]
    omega

/-! ### Dots -/

private theorem eq_cons_of_afterDot? (h : afterDot? s = some ds) :
    s = '.' :: ds ∨ hasEscape s = true := by
  unfold afterDot? at h
  split at h
  · exact .inl (congrArg ('.' :: ·) (Option.some.inj h))
  · right
    split at h
    · next he => rcases he with rfl | rfl <;> rfl
    · cases h
  · cases h

theorem isDots_iff (h : hasEscape s = false) : isDots s = true ↔ s = ['.'] ∨ s = ['.', '.'] := by
  refine ⟨fun hdots => ?_, by rintro (rfl | rfl) <;> rfl⟩
  have hplain : ∀ {s ds}, hasEscape s = false → afterDot? s = some ds → s = '.' :: ds :=
    fun hs hafter => (eq_cons_of_afterDot? hafter).resolve_right (by simp [hs])
  rw [isDots, dots?] at hdots
  split at hdots
  · next hafter => exact .inl (hplain h hafter)
  · next rest _ hafter =>
    right
    obtain rfl := hplain h hafter
    have hrest : hasEscape rest = false :=
      Percent.hasEscape_eq_false_of_infix (List.suffix_cons '.' rest).isInfix h
    split at hdots
    · next hlast => rw [hplain hrest hlast]
    · cases hdots
  · cases hdots

/-! ### Resolved paths -/

private theorem resolve_cons (hrest : rest ≠ []) (above : List (List Char)) (s : List Char) :
    resolve above (s :: rest) = resolve (settle above s) rest := by
  have hmore : rest.isEmpty = false := by simpa using hrest
  rw [resolve, settle]
  cases dots? s with
  | none => rfl
  | some n => rcases n with _ | _ | n <;> simp [hmore]

private theorem resolve_singleton (above : List (List Char)) (s : List Char) :
    resolve above [s] =
      (if isDots s = true then [] :: settle above s else settle above s).reverse := by
  rw [resolve, settle, isDots]
  split
  · next h => simp [h, resolve]
  · next n _ h => simp [h, resolve]
  · next h => simp [h, resolve]

theorem resolve_append (hrest : rest ≠ []) (above segments : List (List Char)) :
    resolve above (segments ++ rest) = resolve (segments.foldl settle above) rest := by
  induction segments generalizing above with
  | nil => rfl
  | cons s segments ih =>
    rw [List.cons_append, resolve_cons (by simp [hrest]), ih, List.foldl_cons]

private theorem settle_of_isDots (h : isDots s = true) (above : List (List Char)) :
    settle above s = above ∨ settle above s = above.tail := by
  unfold settle
  split
  · exact .inl rfl
  · exact .inr rfl
  · next hnone =>
    rw [isDots, hnone] at h
    cases h

private theorem settle_of_not_isDots (h : isDots s = false) (above : List (List Char)) :
    settle above s = encode keptInPath s :: above := by
  have hnone : dots? s = none := by simpa [isDots] using h
  rw [settle, hnone]

/-- Segments that stand for themselves are encoded and put behind those already there. -/
theorem resolve_of_forall (h : ∀ s ∈ segments, isDots s = false) (above : List (List Char)) :
    resolve above segments = above.reverse ++ segments.map (encode keptInPath) := by
  induction segments generalizing above with
  | nil => simp [resolve]
  | cons s segments ih =>
    obtain ⟨hs, hsegments⟩ := List.forall_mem_cons.1 h
    have hsettle := settle_of_not_isDots hs above
    cases segments with
    | nil => simp [resolve_singleton, hs, hsettle]
    | cons s' segments =>
      rw [resolve_cons (List.cons_ne_nil s' segments), hsettle, ih hsegments]
      simp

private theorem size_settle (above : List (List Char)) (s : List Char) :
    size (settle above s) + (if isDots s = true then (decode s).length + 1 else 0) ≤
      size above + (decode s).length + 1 := by
  split
  · next h =>
    have htail := size_tail_le above
    rcases settle_of_isDots h above with heq | heq <;> rw [heq] <;> omega
  · next h =>
    rw [settle_of_not_isDots (by simpa using h), size_cons, Percent.decode_encode_path]
    omega

/-- Each segment that stands for dots costs the path at least one byte. -/
theorem size_resolve_le (above segments : List (List Char)) :
    size (resolve above segments) + segments.countP isDots ≤ size above + size segments := by
  induction segments generalizing above with
  | nil =>
    rw [resolve, size_reverse]
    exact Nat.le_add_right _ _
  | cons s segments ih =>
    have hsettle := size_settle above s
    have hpos : isDots s = true → 0 < (decode s).length :=
      fun h => Percent.length_decode_pos (by rintro rfl; cases h)
    rw [List.countP_cons, size_cons]
    cases segments with
    | nil =>
      rw [resolve_singleton, size_reverse]
      split
      · next h =>
        have := hpos h
        rw [if_pos h] at hsettle
        rw [size_cons]
        simp only [List.countP_nil, decode, List.length_nil]
        omega
      · next h =>
        rw [if_neg h] at hsettle
        simp only [List.countP_nil]
        omega
    | cons s' segments =>
      have hrest := ih (settle above s)
      rw [resolve_cons (List.cons_ne_nil s' segments)]
      split at hsettle
      · next h => rw [if_pos h]; omega
      · next h => rw [if_neg h]; omega

private theorem question_mark_notMem_settle (habove : ∀ t ∈ above, '?' ∉ t) (s : List Char) :
    ∀ t ∈ settle above s, '?' ∉ t := by
  by_cases h : isDots s = true
  · rcases settle_of_isDots h above with heq | heq
    · rwa [heq]
    · rw [heq]
      exact fun t ht => habove t (List.mem_of_mem_tail ht)
  · rw [settle_of_not_isDots (by simpa using h)]
    exact List.forall_mem_cons.2 ⟨Percent.question_mark_notMem_encode s, habove⟩

theorem question_mark_notMem_foldl (habove : ∀ t ∈ above, '?' ∉ t) :
    ∀ t ∈ segments.foldl settle above, '?' ∉ t := by
  induction segments generalizing above with
  | nil => exact habove
  | cons s segments ih => exact ih (question_mark_notMem_settle habove s)

theorem question_mark_notMem_resolve (habove : ∀ t ∈ above, '?' ∉ t) :
    ∀ t ∈ resolve above segments, '?' ∉ t := by
  induction segments generalizing above with
  | nil => simpa [resolve] using habove
  | cons s segments ih =>
    have hsettle := question_mark_notMem_settle habove s
    cases segments with
    | nil =>
      rw [resolve_singleton]
      intro t ht
      rw [List.mem_reverse] at ht
      split at ht
      · rcases List.mem_cons.1 ht with rfl | ht
        · exact List.not_mem_nil
        · exact hsettle t ht
      · exact hsettle t ht
    | cons s' segments =>
      rw [resolve_cons (List.cons_ne_nil s' segments)]
      exact ih hsettle

theorem question_mark_notMem_written (h : ∀ t ∈ segments, '?' ∉ t) : '?' ∉ written segments := by
  intro hmem
  obtain ⟨t, ht, hmem⟩ := List.mem_flatMap.1 hmem
  rcases List.mem_cons.1 hmem with hslash | hmem
  · exact absurd hslash (by decide)
  · exact h t ht hmem

end RunLedger.Http.Url
