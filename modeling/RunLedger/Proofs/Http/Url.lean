import Mathlib.Data.List.DropRight
import RunLedger.Proofs.Http.Path

/-!
Addresses with something put at their end. What an address begins with is settled before: its host,
and the segments that its path has at that point. Of the text at the end blanks, controls and breaks
are left out, a question mark or number sign ends the path, and the segments before it are resolved
onto those of the address. Main statement: behind the path of the address stands what decodes to the
text exactly when nothing in the text has a meaning of its own there.
-/

set_option autoImplicit false

namespace RunLedger.Http.Url

open Percent (bytes decode encode hasEscape keptInPath)

/-- What an address keeps of a text at its end. -/
def kept (name : List Char) : List Char := (trimEnd name).filter (!isBreak ·)

/-- The part of a text at the end of an address that belongs to the path. -/
def pathPart (name : List Char) : List Char := (kept name).takeWhile (!endsPath ·)

/-- The query that a text at the end of an address brings. -/
def queryPart? (name : List Char) : Option (List Char) :=
  queryOf? ((kept name).dropWhile (!endsPath ·))

/-! ### Texts that are put together -/

section Ends

variable {α : Type} {p : α → Bool} {a : α}

theorem dropWhile_append_cons (ha : p a = false) (as bs : List α) :
    (as ++ a :: bs).dropWhile p = as.dropWhile p ++ a :: bs := by
  rw [List.dropWhile_append]
  split
  · next h => rw [List.isEmpty_iff.1 h, List.nil_append, List.dropWhile_cons_of_neg (by simp [ha])]
  · rfl

theorem takeWhile_append_cons (ha : p a = false) (as bs : List α) :
    (as ++ a :: bs).takeWhile p = as.takeWhile p := by
  induction as with
  | nil => simp [ha]
  | cons b as ih => rw [List.cons_append, List.takeWhile_cons, List.takeWhile_cons, ih]

end Ends

private theorem trimEnd_append_slash (front name : List Char) :
    trimEnd (front ++ '/' :: name) = front ++ '/' :: trimEnd name := by
  rw [trimEnd, List.reverse_append, List.reverse_cons, List.append_assoc, List.singleton_append,
    dropWhile_append_cons (by decide)]
  simp [trimEnd]

private theorem kept_append_slash (front name : List Char) :
    kept (front ++ '/' :: name) = front.filter (!isBreak ·) ++ '/' :: kept name := by
  rw [kept, trimEnd_append_slash, List.filter_append, List.filter_cons_of_pos (by decide)]
  rfl

private theorem tidy_append_slash (front name : List Char) :
    tidy (front ++ '/' :: name) =
      (front.dropWhile isEdge).filter (!isBreak ·) ++ '/' :: kept name := by
  rw [tidy, dropWhile_append_cons (by decide)]
  exact kept_append_slash _ _

/-! ### The front of an address -/

private theorem splitAtFirst_append_cons {p : Char → Bool} {a : Char} (ha : p a = true)
    (as bs : List Char) :
    splitAtFirst p (as ++ a :: bs) = (as.takeWhile (!p ·), as.dropWhile (!p ·) ++ a :: bs) := by
  have hstop : (!p a) = false := by rw [ha, Bool.not_true]
  rw [splitAtFirst, dropWhile_append_cons (p := (!p ·)) hstop,
    takeWhile_append_cons (p := (!p ·)) hstop]

private theorem afterScheme?_append_slash {front rest : List Char}
    (h : afterScheme? (front ++ ['/']) = some rest) (hrest : rest ≠ []) :
    ∃ host, (∀ c ∈ host, c ∈ front) ∧
      ∀ name, afterScheme? (front ++ '/' :: name) = some (host ++ '/' :: name) := by
  by_cases hcolon : ':' ∈ front
  · obtain ⟨scheme, behind, rfl, hscheme⟩ := List.eq_append_cons_of_mem hcolon
    have hnone : scheme.dropWhile (fun c => !decide (c = ':')) = [] := by
      rw [List.dropWhile_eq_nil_iff]
      intro c hc
      have hne : c ≠ ':' := fun heq => hscheme (heq ▸ hc)
      simp [hne]
    simp only [afterScheme?, List.append_assoc, List.cons_append,
      splitAtFirst_append_cons (p := fun c => decide (c = ':')) (a := ':') (by decide), hnone,
      List.nil_append, List.tail_cons] at h ⊢
    split at h
    · next hname =>
      have hhost : behind.dropWhile isSlash ≠ [] := by
        intro hnil
        rw [List.dropWhile_append, hnil] at h
        exact hrest (Option.some.inj h).symm
      refine ⟨behind.dropWhile isSlash, fun c hc => ?_, fun name => ?_⟩
      · have hbehind : c ∈ behind := (List.dropWhile_sublist _).subset hc
        simp [hbehind]
      rw [if_pos hname, List.dropWhile_append, if_neg (by simpa using hhost)]
    · cases h
  · have hnone : (front ++ ['/']).dropWhile (fun c => !decide (c = ':')) = [] := by
      rw [List.dropWhile_eq_nil_iff]
      intro c hc
      rcases List.mem_append.1 hc with hc | hc
      · have hne : c ≠ ':' := fun heq => hcolon (heq ▸ hc)
        simp [hne]
      · rw [List.mem_singleton.1 hc]
        decide
    simp only [afterScheme?, splitAtFirst, hnone] at h
    split at h
    · exact absurd (Option.some.inj h).symm hrest
    · cases h

private theorem exists_pathOf {front : List Char} (hfront : ∀ c ∈ front.head?, isSlash c = true) :
    ∃ stack, (∀ t ∈ stack, '?' ∉ t) ∧ ∀ cs, pathOf (front ++ '/' :: cs) =
      String.ofList (written (resolve stack (split isSlash cs))) := by
  cases front with
  | nil => exact ⟨[], by simp, fun cs => rfl⟩
  | cons c front =>
    have hc : isSlash c = true := hfront c rfl
    refine ⟨(split isSlash front).foldl settle [], ?_, fun cs => ?_⟩
    · exact question_mark_notMem_foldl (by simp)
    · have hsplit := split_append isSlash (c := '/') (by decide) front cs
      simp only [pathOf, List.cons_append, List.head?_cons, Option.map_some, hc, Option.getD_some,
        if_pos, List.tail_cons, hsplit, resolve_append (split_ne_nil isSlash cs)]
      rfl

private theorem parse?_eq_some_iff {address : String} {u : Url} :
    parse? address = some u ↔ ∃ rest, afterScheme? (tidy address.toList) = some rest ∧
      let front := splitAtFirst endsHost rest
      let path := splitAtFirst endsPath front.2
      front.1 ≠ [] ∧ u = {
        authority := String.ofList front.1
        path := pathOf path.1
        query := (queryOf? path.2).map fun q => String.ofList (encode Percent.keptInQuery q) } := by
  rw [parse?, Option.bind_eq_bind, Option.bind_eq_some_iff]
  refine exists_congr fun rest => and_congr_right fun _ => ?_
  rw [Option.bind_eq_bind, Option.bind_eq_some_iff]
  constructor
  · rintro ⟨⟨⟩, hguard, h⟩
    refine ⟨fun hnil => ?_, (Option.some.inj h).symm⟩
    rw [hnil] at hguard
    cases hguard
  · rintro ⟨hne, rfl⟩
    refine ⟨(), ?_, rfl⟩
    cases hfront : (splitAtFirst endsHost rest).1 with
    | nil => exact absurd hfront hne
    | cons c front => rfl

private theorem splitAtFirst_endsPath {front : List Char} (hfront : ∀ c ∈ front, endsPath c = false)
    (name : List Char) : splitAtFirst endsPath (front ++ '/' :: name) =
      (front ++ '/' :: name.takeWhile (!endsPath ·), name.dropWhile (!endsPath ·)) := by
  have hall : ∀ c ∈ front ++ ['/'], (!endsPath c) = true := by
    intro c hc
    rcases List.mem_append.1 hc with hc | hc
    · rw [hfront c hc, Bool.not_false]
    · rw [List.mem_singleton.1 hc]
      decide
  rw [splitAtFirst, List.append_cons, List.takeWhile_append_of_pos hall,
    List.dropWhile_append_of_pos hall, ← List.append_cons]

private theorem exists_parse? {address : String} {root : Url}
    (h : parse? (address ++ "/") = some root) (hplain : ∀ c ∈ address.toList, endsPath c = false) :
    ∃ stack, (∀ t ∈ stack, '?' ∉ t) ∧ ∀ name, parse? (address ++ "/" ++ name) =
      some {
        authority := root.authority
        path := String.ofList (written (resolve stack (split isSlash (pathPart name.toList))))
        query := (queryPart? name.toList).map fun q =>
          String.ofList (encode Percent.keptInQuery q) } := by
  have htidy : ∀ name : String, tidy (address ++ "/" ++ name).toList =
      (address.toList.dropWhile isEdge).filter (!isBreak ·) ++ '/' :: kept name.toList := by
    intro name
    rw [← tidy_append_slash]
    simp
  have hroot := htidy ""
  rw [String.append_empty] at hroot
  obtain ⟨rest, hrest, hne, hsame⟩ := parse?_eq_some_iff.1 h
  rw [hroot] at hrest
  have hsome : rest ≠ [] := by
    rintro rfl
    exact hne rfl
  obtain ⟨host, hhost, hafter⟩ := afterScheme?_append_slash hrest hsome
  obtain rfl : host ++ ['/'] = rest := Option.some.inj ((hafter []).symm.trans hrest)
  have hplain' : ∀ c ∈ host, endsPath c = false := by
    intro c hc
    have hmem := (List.filter_sublist.trans (List.dropWhile_sublist _)).subset (hhost c hc)
    exact hplain c hmem
  have hcut := splitAtFirst_append_cons (show endsHost '/' = true by decide) host
  -- The host ends at a slash, as none of its characters ends a path.
  have hslash : ∀ c ∈ (host.dropWhile (!endsHost ·)).head?, isSlash c = true := by
    intro c hc
    have hhead := List.head?_dropWhile_not (!endsHost ·) host
    rw [Option.mem_def.1 hc] at hhead
    have hmem : c ∈ host := (List.dropWhile_sublist _).subset (List.mem_of_mem_head? hc)
    simpa [endsHost, hplain' c hmem] using hhead
  obtain ⟨stack, hstack, hpath⟩ := exists_pathOf hslash
  have hends := splitAtFirst_endsPath fun c hc =>
    hplain' c ((List.dropWhile_sublist (!endsHost ·)).subset hc)
  rw [hcut] at hne hsame
  refine ⟨stack, hstack, fun name => parse?_eq_some_iff.2 ⟨host ++ '/' :: kept name.toList, ?_, ?_⟩⟩
  · rw [htidy, hafter]
  · simp only [hcut, hends, hpath]
    refine ⟨hne, ?_⟩
    rw [hsame]
    rfl

/-! ### Texts that stand for themselves -/

/-- Whether nothing in a text has a meaning of its own at the end of an address: no character that
divides it or does not count, no blank or control at the end, no percent sign with two digits, and
no segment that is one dot or two. -/
structure IsLiteral (name : List Char) : Prop where
  undivided : ∀ c ∈ name, c ∉ ['?', '#', '\\', '\t', '\n', '\r']
  closed : ∀ c ∈ name.getLast?, isEdge c = false
  unescaped : hasEscape name = false
  dotless : ∀ s ∈ split isSlash name, s ≠ ['.'] ∧ s ≠ ['.', '.']

variable {name : List Char}

private theorem trimEnd_eq_self_iff :
    trimEnd name = name ↔ ∀ c ∈ name.getLast?, isEdge c = false := by
  have hdrop : trimEnd name = name.rdropWhile isEdge := rfl
  rw [hdrop, List.rdropWhile_eq_self_iff]
  constructor
  · intro h c hc
    obtain ⟨hne, rfl⟩ := List.mem_getLast?_eq_getLast hc
    simpa using h hne
  · intro h hne
    simp [h _ (List.getLast?_eq_some_getLast hne)]

instance : Decidable (IsLiteral name) :=
  decidable_of_iff
    (name.all (· ∉ ['?', '#', '\\', '\t', '\n', '\r']) = true ∧ trimEnd name = name ∧
      hasEscape name = false ∧
      (split isSlash name).all (fun s => s ≠ ['.'] && s ≠ ['.', '.']) = true)
    ⟨fun h => ⟨by simpa using h.1, trimEnd_eq_self_iff.1 h.2.1, h.2.2.1, by simpa using h.2.2.2⟩,
      fun h => ⟨by simpa using h.undivided, trimEnd_eq_self_iff.2 h.closed, h.unescaped,
        by simpa using h.dotless⟩⟩

private theorem IsLiteral.kept_eq (h : IsLiteral name) : kept name = name := by
  rw [kept, trimEnd_eq_self_iff.2 h.closed, List.filter_eq_self]
  intro c hc
  have hnone := h.undivided c hc
  simp only [List.mem_cons, List.not_mem_nil, or_false, not_or] at hnone
  simp [isBreak, hnone]

private theorem IsLiteral.endsPath_eq_false (h : IsLiteral name) :
    ∀ c ∈ name, endsPath c = false := by
  intro c hc
  have hnone := h.undivided c hc
  simp only [List.mem_cons, List.not_mem_nil, or_false, not_or] at hnone
  simp [endsPath, hnone]

private theorem IsLiteral.pathPart_eq (h : IsLiteral name) : pathPart name = name := by
  rw [pathPart, h.kept_eq, List.takeWhile_eq_self_iff]
  exact fun c hc => by simp [h.endsPath_eq_false c hc]

theorem IsLiteral.queryPart?_eq (h : IsLiteral name) : queryPart? name = none := by
  have hnil : name.dropWhile (!endsPath ·) = [] := by
    rw [List.dropWhile_eq_nil_iff]
    exact fun c hc => by simp [h.endsPath_eq_false c hc]
  rw [queryPart?, h.kept_eq, hnil]
  rfl

private theorem forall_isDots_eq_false_iff (h : hasEscape name = false) :
    (∀ s ∈ split isSlash name, isDots s = false) ↔
      ∀ s ∈ split isSlash name, s ≠ ['.'] ∧ s ≠ ['.', '.'] := by
  refine forall₂_congr fun s hs => ?_
  have hescape := Percent.hasEscape_eq_false_of_infix (infix_of_mem_split hs) h
  rw [← Bool.not_eq_true, isDots_iff hescape, not_or]

private theorem IsLiteral.isDots_eq_false (h : IsLiteral name) :
    ∀ s ∈ split isSlash name, isDots s = false :=
  (forall_isDots_eq_false_iff h.unescaped).2 h.dotless

private theorem IsLiteral.upright_eq (h : IsLiteral name) : upright name = name :=
  upright_eq_self_iff.2 fun hc => h.undivided _ hc (by decide)

/-- A text stands for itself when all of it belongs to the path, with every slash leaning forward,
and nothing in it is an escape or stands for dots. -/
private theorem isLiteral_iff : IsLiteral name ↔ pathPart name = name ∧ upright name = name ∧
    hasEscape name = false ∧ ∀ s ∈ split isSlash name, isDots s = false := by
  refine ⟨fun h => ⟨h.pathPart_eq, h.upright_eq, h.unescaped, h.isDots_eq_false⟩, ?_⟩
  rintro ⟨hpart, hupright, hescape, hdots⟩
  have htrim : (trimEnd name).Sublist name := (List.rdropWhile_prefix isEdge name).sublist
  have hback : name.Sublist (kept name) := by
    conv_lhs => rw [← hpart]
    exact List.takeWhile_sublist _
  have hkept : kept name = name := (List.filter_sublist.trans htrim).antisymm hback
  have hends : trimEnd name = name := htrim.antisymm (hback.trans List.filter_sublist)
  rw [pathPart, hkept, List.takeWhile_eq_self_iff] at hpart
  rw [kept, hends, List.filter_eq_self] at hkept
  rw [upright_eq_self_iff] at hupright
  refine ⟨fun c hc => ?_, trimEnd_eq_self_iff.1 hends, hescape,
    (forall_isDots_eq_false_iff hescape).1 hdots⟩
  have hend := hpart c hc
  have hbreak := hkept c hc
  have hslash : c ≠ '\\' := fun heq => hupright (heq ▸ hc)
  simp only [endsPath, isBreak, Bool.not_eq_true', Bool.or_eq_false_iff, decide_eq_false_iff_not]
    at hend hbreak
  simp [hend, hbreak, hslash]

private theorem pathPart_sublist (name : List Char) : (pathPart name).Sublist name :=
  (List.takeWhile_sublist _).trans
    (List.filter_sublist.trans (List.rdropWhile_prefix isEdge name).sublist)

private theorem size_split (cs : List Char) :
    size (split isSlash cs) = (decode (upright cs)).length + 1 := by
  have hfirst := decode_slash [] (upright cs)
  rw [List.nil_append] at hfirst
  rw [size, written_split, hfirst]
  simp [decode]

private theorem written_resolve_split {cs : List Char}
    (h : ∀ s ∈ split isSlash cs, isDots s = false) (stack : List (List Char)) :
    written (resolve stack (split isSlash cs)) =
      written stack.reverse ++ '/' :: encode keptInPath (upright cs) := by
  rw [resolve_of_forall h, written_append, ← encode_written, written_split, Percent.encode_cons]
  rfl

private theorem IsLiteral.written_resolve (h : IsLiteral name) (stack : List (List Char)) :
    written (resolve stack (split isSlash (pathPart name))) =
      written stack.reverse ++ '/' :: encode keptInPath name := by
  rw [h.pathPart_eq, written_resolve_split h.isDots_eq_false, h.upright_eq]

/-- Behind the segments of an address stands what decodes to a text put there exactly when the text
stands for itself. -/
private theorem decodes_iff_isLiteral (stack : List (List Char)) (name : List Char) :
    (∃ rest, written (resolve stack (split isSlash (pathPart name))) =
        written stack.reverse ++ '/' :: rest ∧ decode rest = bytes name) ↔ IsLiteral name := by
  constructor
  · rintro ⟨rest, hpath, hdecode⟩
    have hsub := pathPart_sublist name
    -- The path decodes to as many bytes as the text has, so no byte can have been lost.
    have hsize : size (resolve stack (split isSlash (pathPart name))) =
        size stack + (bytes name).length + 1 := by
      rw [size, hpath, decode_slash, hdecode, List.length_append, List.length_cons, ← size,
        size_reverse, Nat.add_assoc]
    have hresolve := size_resolve_le stack (split isSlash (pathPart name))
    have hlength := Percent.length_decode (upright (pathPart name))
    rw [size_split, hsize] at hresolve
    rw [length_bytes_upright] at hlength
    have hpart : pathPart name = name := Percent.eq_of_sublist hsub (by omega)
    rw [hpart] at hresolve hlength hpath
    have hdots : ∀ s ∈ split isSlash name, isDots s = false := by
      have hzero : (split isSlash name).countP isDots = 0 := by omega
      simpa using List.countP_eq_zero.1 hzero
    have hescape : hasEscape (upright name) = false := by
      by_contra h
      rw [if_pos (by simpa using h)] at hlength
      omega
    -- Then the path holds the text as it is, up to backslashes.
    rw [written_resolve_split hdots, List.append_cancel_left_eq, List.cons.injEq] at hpath
    rw [← hpath.2, Percent.decode_encode_path, Percent.decode_eq_bytes hescape,
      Percent.bytes_inj] at hdecode
    rw [hdecode] at hescape
    exact isLiteral_iff.2 ⟨hpart, hdecode, hescape, hdots⟩
  · intro h
    refine ⟨encode keptInPath name, h.written_resolve stack, ?_⟩
    rw [Percent.decode_encode_path, Percent.decode_eq_bytes h.unescaped]

private theorem isLiteral_nil : IsLiteral [] := by decide

/-- A text at the end of an address changes neither its host nor what the path begins with. A text
that stands for itself is encoded and put behind the path; behind it stands what decodes to the text
only then. -/
theorem parse?_append {address : String} {root : Url} (h : parse? (address ++ "/") = some root)
    (hplain : ∀ c ∈ address.toList, endsPath c = false) (name : String) :
    ∃ u, parse? (address ++ "/" ++ name) = some u ∧ u.authority = root.authority ∧
      '?' ∉ u.path.toList ∧
      u.query = (queryPart? name.toList).map (fun q =>
        String.ofList (encode Percent.keptInQuery q)) ∧
      (IsLiteral name.toList →
        u.path = root.path ++ String.ofList (encode keptInPath name.toList)) ∧
      ((∃ rest, u.path.toList = root.path.toList ++ rest ∧ decode rest = Text.Utf8.encode name) ↔
        IsLiteral name.toList) := by
  obtain ⟨stack, hstack, hparse⟩ := exists_parse? h hplain
  have hroot : root.path.toList = written stack.reverse ++ ['/'] := by
    have hempty := hparse ""
    rw [String.append_empty, h, String.toList_empty, isLiteral_nil.written_resolve] at hempty
    rw [congrArg Url.path (Option.some.inj hempty), String.toList_ofList]
    rfl
  refine ⟨_, hparse name, rfl, ?_, rfl, fun hname => ?_, ?_⟩
  · rw [String.toList_ofList]
    exact question_mark_notMem_written (question_mark_notMem_resolve hstack)
  · rw [hname.written_resolve, ← String.toList_inj, String.toList_append, String.toList_ofList,
      String.toList_ofList, hroot, List.append_assoc, List.singleton_append]
  · have hbytes : Text.Utf8.encode name = bytes name.toList := by
      rw [bytes, String.ofList_toList]
    rw [← decodes_iff_isLiteral stack, String.toList_ofList, hroot, hbytes]
    simp only [List.append_assoc, List.singleton_append]

theorem target_withQuery (u : Url) (name value : String) :
    (u.withQuery [(name, value)]).target = u.path ++ "?" ++
      (if u.query.getD "" = "" then "" else u.query.getD "" ++ "&") ++
        String.ofList (Percent.encodeForm name ++ '=' :: Percent.encodeForm value) := by
  rw [withQuery, target]
  cases u.query with
  | none => simp
  | some q =>
    simp only [Option.getD_some]
    split <;> simp [String.append_assoc]

end RunLedger.Http.Url
