import RunLedger.Proofs.Json.Numerals
import RunLedger.Proofs.Json.Quoted

/-!
Printed values. The strict scanner takes the text of a value apart without a failure; what it finds
differs from the value in its numbers only, which are what their texts denote.
-/

set_option autoImplicit false

namespace RunLedger.Json

mutual
/-- What the scanner finds in the text of a value. -/
def Document.ofPrinted : Value → Document
  | .null => .null
  | .bool b => .bool b
  | .number n => .number n.numeral.value?
  | .text s => .text (some s)
  | .list items => .list (Document.ofPrintedItems items)
  | .record fields => .record (Document.ofPrintedFields fields)

def Document.ofPrintedItems : List Value → List Document
  | [] => []
  | v :: vs => Document.ofPrinted v :: Document.ofPrintedItems vs

/-- What the scanner finds in the texts of fields. -/
def Document.ofPrintedFields : List (String × Value) → List (Option String × Document)
  | [] => []
  | (k, v) :: fs => (some k, Document.ofPrinted v) :: Document.ofPrintedFields fs
end

/-- The characters that a printed value can begin with. -/
def startsValue (c : Char) : Bool :=
  ['n', 't', 'f', '"', '[', '{', '-'].contains c || Decimal.isDigit c

theorem compact_head (v : Value) : ∃ c cs, v.compact = c :: cs ∧ startsValue c = true := by
  cases v with
  | null => exact ⟨_, _, rfl, by decide⟩
  | bool b => cases b <;> exact ⟨_, _, rfl, by decide⟩
  | number n =>
    obtain ⟨d, ds, hhead, hdigit⟩ := n.numeral_isPlain.head
    rw [Value.compact, Number.print_eq, Numeral.text]
    split
    · exact ⟨_, _, rfl, by decide⟩
    · exact ⟨d, ds, hhead, by simp [startsValue, hdigit]⟩
  | text s => exact ⟨_, _, rfl, by decide⟩
  | list items => exact ⟨_, _, rfl, by decide⟩
  | record fields => exact ⟨_, _, rfl, by decide⟩

theorem startsValue_facts {c : Char} (h : startsValue c = true) :
    isBlankPlace (some c) = false ∧ c ≠ ']' ∧ c ≠ '}' ∧ c ≠ ',' ∧ c ≠ '/' := by
  refine ⟨?_, ?_, ?_, ?_, ?_⟩
  · have hblank : ¬ (c = ' ' ∨ c = '\n' ∨ c = '\t' ∨ c = '\r') := by
      rintro (rfl | rfl | rfl | rfl) <;> revert h <;> decide
    simpa [isBlankPlace, and_assoc] using hblank
  all_goals
    rintro rfl
    revert h
    decide

mutual
theorem le_of_mem_compact {d : Char} : ∀ {v : Value}, d ∈ v.compact → 0x20 ≤ d.toNat
  | .null, h => by
    have hall : (Value.compact .null).all (fun c => decide (0x20 ≤ c.toNat)) = true := rfl
    exact of_decide_eq_true (List.all_eq_true.1 hall d h)
  | .bool true, h => by
    have hall : (Value.compact (.bool true)).all (fun c => decide (0x20 ≤ c.toNat)) = true := rfl
    exact of_decide_eq_true (List.all_eq_true.1 hall d h)
  | .bool false, h => by
    have hall : (Value.compact (.bool false)).all (fun c => decide (0x20 ≤ c.toNat)) = true := rfl
    exact of_decide_eq_true (List.all_eq_true.1 hall d h)
  | .number n, h => by
    rw [Value.compact, Number.print_eq] at h
    exact n.numeral_isPlain.le_of_mem h
  | .text s, h => le_of_mem_quoted h
  | .list items, h => by
    rcases List.mem_cons.1 h with rfl | h
    · decide
    · exact le_of_mem_compactItems h
  | .record fields, h => by
    rcases List.mem_cons.1 h with rfl | h
    · decide
    · exact le_of_mem_compactFields h

private theorem le_of_mem_compactItems {d : Char} :
    ∀ {items : List Value}, d ∈ Value.compactItems items → 0x20 ≤ d.toNat
  | [], h => by
    rw [List.mem_singleton.1 h]
    decide
  | [v], h => by
    rcases List.mem_append.1 h with h | h
    · exact le_of_mem_compact h
    · rw [List.mem_singleton.1 h]
      decide
  | v :: w :: vs, h => by
    rcases List.mem_append.1 h with h | h
    · exact le_of_mem_compact h
    · rcases List.mem_cons.1 h with rfl | h
      · decide
      · exact le_of_mem_compactItems h

private theorem le_of_mem_compactFields {d : Char} :
    ∀ {fields : List (String × Value)}, d ∈ Value.compactFields fields → 0x20 ≤ d.toNat
  | [], h => by
    rw [List.mem_singleton.1 h]
    decide
  | [(k, v)], h => by
    rcases List.mem_append.1 h with h | h
    · exact le_of_mem_quoted h
    · rcases List.mem_cons.1 h with rfl | h
      · decide
      · rcases List.mem_append.1 h with h | h
        · exact le_of_mem_compact h
        · rw [List.mem_singleton.1 h]
          decide
  | (k, v) :: f :: fs, h => by
    rcases List.mem_append.1 h with h | h
    · exact le_of_mem_quoted h
    · rcases List.mem_cons.1 h with rfl | h
      · decide
      · rcases List.mem_append.1 h with h | h
        · exact le_of_mem_compact h
        · rcases List.mem_cons.1 h with rfl | h
          · decide
          · exact le_of_mem_compactFields h
end

private theorem trimBlanks_cons {c : Char} (h : isBlankPlace (some c) = false) (cs : Input) :
    trimBlanks (some c :: cs) = some c :: cs := by
  simp [trimBlanks, h]

theorem length_compact_pos (v : Value) : 0 < v.compact.length := by
  obtain ⟨c, cs, hhead, -⟩ := compact_head v
  simp [hhead]

theorem ends_comma (rest : List Char) : Ends (',' :: rest) := ends_cons (by decide)

theorem ends_bracket (rest : List Char) : Ends (']' :: rest) := ends_cons (by decide)

theorem ends_brace (rest : List Char) : Ends ('}' :: rest) := ends_cons (by decide)

private theorem compactItems_head (v : Value) (vs : List Value) :
    ∃ c cs, Value.compactItems (v :: vs) = c :: cs ∧ startsValue c = true := by
  obtain ⟨c, cs, hhead, hstarts⟩ := compact_head v
  cases vs <;> exact ⟨c, _, by rw [Value.compactItems, hhead, List.cons_append], hstarts⟩

private theorem compactFields_head (k : String) (v : Value) (fs : List (String × Value)) :
    ∃ cs, Value.compactFields ((k, v) :: fs) = '"' :: cs := by
  cases fs <;> exact ⟨_, by rw [Value.compactFields, quoted, List.cons_append]⟩

namespace Document

private theorem scan_number {c : Char} (hstarts : c = '-' ∨ Decimal.isDigit c = true)
    (fuel : Nat) (cs : Input) : scan (fuel + 1) (some c :: cs) =
      (Numeral.scan (some c :: cs)).map fun (n, rest) => (.number n.value?, rest) := by
  have hblank : isBlankPlace (some c) = false := by
    refine (startsValue_facts ?_).1
    rcases hstarts with rfl | h
    · decide
    · simp [startsValue, h]
  have hother : c ∉ ['n', 't', 'f', '"', '[', '{'] := by
    intro h
    simp only [List.mem_cons, List.not_mem_nil, or_false] at h
    rcases h with rfl | rfl | rfl | rfl | rfl | rfl <;> revert hstarts <;> decide
  simp only [List.mem_cons, List.not_mem_nil, or_false, not_or] at hother
  obtain ⟨hn, ht, hf, hq, hl, hr⟩ := hother
  rw [scan.eq_def]
  simp only [trimBlanks_cons hblank]
  split <;> simp_all

private theorem scan_list {c : Char} (hstarts : startsValue c = true) (fuel : Nat) (cs : Input) :
    scan (fuel + 1) (some '[' :: some c :: cs) =
      (scanItems fuel (some c :: cs)).map fun (ds, rest) => (.list ds, rest) := by
  obtain ⟨hblank, hclose, -⟩ := startsValue_facts hstarts
  rw [scan, trimBlanks_cons (by decide)]
  simp only [trimBlanks_cons hblank]
  split
  · next heq =>
    simp only [List.cons.injEq, Option.some.injEq] at heq
    exact absurd heq.1 hclose
  · rfl

private theorem scan_record (fuel : Nat) (cs : Input) :
    scan (fuel + 1) (some '{' :: some '"' :: cs) =
      (scanFields fuel (some '"' :: cs)).map fun (fs, rest) => (.record fs, rest) := by
  rw [scan, trimBlanks_cons (by decide)]
  simp only [trimBlanks_cons (c := '"') (by decide)]
  split
  · next heq => simp at heq
  · rfl

end Document

open Document (ofPrinted ofPrintedItems ofPrintedFields)

mutual
/-- The scanner reads the text of a value in one go. Every value, item and field takes a character
at least, so the length of the text bounds the steps. -/
theorem scan_compact : ∀ (v : Value) (fuel : Nat) (rest : List Char), v.compact.length ≤ fuel →
    Ends rest → Document.scan fuel ((v.compact ++ rest).map some) =
      some (ofPrinted v, rest.map some)
  | v, 0, rest, hfuel, _ => by
    have := length_compact_pos v
    omega
  | .null, fuel + 1, rest, _, _ => by
    simp [Value.compact, Document.scan, trimBlanks, isBlankPlace, after?, ofPrinted]
  | .bool true, fuel + 1, rest, _, _ => by
    simp [Value.compact, Document.scan, trimBlanks, isBlankPlace, after?, ofPrinted]
  | .bool false, fuel + 1, rest, _, _ => by
    simp [Value.compact, Document.scan, trimBlanks, isBlankPlace, after?, ofPrinted]
  | .number n, fuel + 1, rest, _, hrest => by
    have hscan := Numeral.scan_text n.numeral_isPlain hrest
    obtain ⟨d, ds, hhead, hstarts⟩ := n.numeral_isPlain.text_head
    rw [Value.compact, Number.print_eq]
    rw [hhead] at hscan ⊢
    rw [List.cons_append, List.map_cons] at hscan ⊢
    rw [Document.scan_number hstarts, hscan]
    rfl
  | .text s, fuel + 1, rest, _, _ => by
    have hscan := Piece.scan_quoted s.toList (rest.map some)
    simp only [Value.compact, quoted, List.cons_append, List.append_assoc, List.map_cons,
      List.map_append, List.nil_append]
    rw [Document.scan, trimBlanks_cons (by decide)]
    simp only [hscan, Option.map_some, Piece.text?_ofChar, ofPrinted]
  | .list [], fuel + 1, rest, _, _ => by
    simp [Value.compact, Value.compactItems, Document.scan, trimBlanks, isBlankPlace, ofPrinted,
      ofPrintedItems]
  | .list (v :: vs), fuel + 1, rest, hfuel, _ => by
    have hscan := scanItems_compact v vs fuel rest
      (by simpa [Value.compact] using hfuel)
    obtain ⟨c, cs, hhead, hstarts⟩ := compactItems_head v vs
    rw [Value.compact]
    rw [hhead] at hscan ⊢
    rw [List.cons_append, List.map_cons] at hscan
    rw [List.cons_append, List.cons_append, List.map_cons, List.map_cons,
      Document.scan_list hstarts, hscan]
    rfl
  | .record [], fuel + 1, rest, _, _ => by
    simp [Value.compact, Value.compactFields, Document.scan, trimBlanks, isBlankPlace, ofPrinted,
      ofPrintedFields]
  | .record ((k, v) :: fs), fuel + 1, rest, hfuel, _ => by
    have hscan := scanFields_compact k v fs fuel rest
      (by simpa [Value.compact] using hfuel)
    obtain ⟨cs, hhead⟩ := compactFields_head k v fs
    rw [Value.compact]
    rw [hhead] at hscan ⊢
    rw [List.cons_append, List.map_cons] at hscan
    rw [List.cons_append, List.cons_append, List.map_cons, List.map_cons, Document.scan_record,
      hscan]
    rfl

theorem scanItems_compact : ∀ (v : Value) (vs : List Value) (fuel : Nat) (rest : List Char),
    (Value.compactItems (v :: vs)).length ≤ fuel →
      Document.scanItems fuel ((Value.compactItems (v :: vs) ++ rest).map some) =
        some (ofPrintedItems (v :: vs), rest.map some)
  | v, [], 0, rest, hfuel => by simp [Value.compactItems] at hfuel
  | v, w :: vs, 0, rest, hfuel => by simp [Value.compactItems] at hfuel
  | v, [], fuel + 1, rest, hfuel => by
    have hlength : v.compact.length ≤ fuel := by simpa [Value.compactItems] using hfuel
    have hscan := scan_compact v fuel _ hlength (ends_bracket rest)
    rw [Value.compactItems, List.append_assoc, List.cons_append, List.nil_append,
      Document.scanItems, hscan]
    simp only [List.map_cons, trimBlanks_cons (c := ']') (by decide)]
    rfl
  | v, w :: vs, fuel + 1, rest, hfuel => by
    have hlength : v.compact.length + (Value.compactItems (w :: vs)).length ≤ fuel := by
      simp only [Value.compactItems, List.length_append, List.length_cons] at hfuel ⊢
      omega
    have hscan := scan_compact v fuel _ (by omega)
      (ends_comma (Value.compactItems (w :: vs) ++ rest))
    have hitems := scanItems_compact w vs fuel rest (by omega)
    rw [Value.compactItems, List.append_assoc, List.cons_append, Document.scanItems, hscan]
    simp only [List.map_cons, trimBlanks_cons (c := ',') (by decide), hitems]
    rfl

theorem scanFields_compact : ∀ (k : String) (v : Value) (fs : List (String × Value)) (fuel : Nat)
    (rest : List Char), (Value.compactFields ((k, v) :: fs)).length ≤ fuel →
      Document.scanFields fuel ((Value.compactFields ((k, v) :: fs) ++ rest).map some) =
        some (ofPrintedFields ((k, v) :: fs), rest.map some)
  | k, v, [], 0, rest, hfuel => by simp [Value.compactFields] at hfuel
  | k, v, f :: fs, 0, rest, hfuel => by simp [Value.compactFields] at hfuel
  | k, v, [], fuel + 1, rest, hfuel => by
    have hlength : v.compact.length ≤ fuel := by
      simp only [Value.compactFields, List.length_append, List.length_cons] at hfuel
      omega
    have hscan := scan_compact v fuel _ hlength (ends_brace rest)
    have hkey := Piece.scan_quoted k.toList (some ':' :: (v.compact ++ '}' :: rest).map some)
    have htext : (Value.compactFields [(k, v)] ++ rest).map some = some '"' ::
        ((k.toList.flatMap escape).map some ++ some '"' :: some ':' ::
          (v.compact ++ '}' :: rest).map some) := by
      simp [Value.compactFields, quoted]
    rw [htext, Document.scanFields, trimBlanks_cons (by decide)]
    simp only [hkey, trimBlanks_cons (c := ':') (by decide), hscan, List.map_cons,
      trimBlanks_cons (c := '}') (by decide), Piece.text?_ofChar]
    rfl
  | k, v, (k', v') :: fs, fuel + 1, rest, hfuel => by
    have hlength : v.compact.length + (Value.compactFields ((k', v') :: fs)).length ≤ fuel := by
      simp only [Value.compactFields, List.length_append, List.length_cons] at hfuel ⊢
      omega
    have hscan := scan_compact v fuel _ (by omega)
      (ends_comma (Value.compactFields ((k', v') :: fs) ++ rest))
    have hfields := scanFields_compact k' v' fs fuel rest (by omega)
    have hkey := Piece.scan_quoted k.toList
      (some ':' :: (v.compact ++ ',' :: (Value.compactFields ((k', v') :: fs) ++ rest)).map some)
    have htext : (Value.compactFields ((k, v) :: (k', v') :: fs) ++ rest).map some = some '"' ::
        ((k.toList.flatMap escape).map some ++ some '"' :: some ':' ::
          (v.compact ++ ',' :: (Value.compactFields ((k', v') :: fs) ++ rest)).map some) := by
      simp [Value.compactFields, quoted]
    rw [htext, Document.scanFields, trimBlanks_cons (by decide)]
    simp only [hkey, trimBlanks_cons (c := ':') (by decide), hscan, List.map_cons,
      trimBlanks_cons (c := ',') (by decide), hfields, Piece.text?_ofChar]
    rfl
end

theorem parse?_print (v : Value) :
    Document.parse? (Text.Utf8.ofString v.print) = some (ofPrinted v) := by
  have hscan := scan_compact v (2 * v.compact.length + 2) [] (by omega) ends_nil
  rw [List.append_nil] at hscan
  have htext : Text.Utf8.ofString v.print = v.compact.map some := by
    rw [Text.Utf8.ofString, Value.print, String.toList_ofList]
  rw [htext, Document.parse?, List.length_map, hscan]
  rfl

theorem readString?_print {α : Type} (read : Reader α) (v : Value) :
    Document.readString? read v.print = read nestingLimit (ofPrinted v) := by
  rw [Document.readString?, Document.readText?, parse?_print, Option.bind_some]

mutual
private theorem depth_le_of_read : ∀ {v w : Value} {room : Nat},
    Value.read room (ofPrinted v) = some w → v.depth ≤ room
  | .null, _, _, _ => by simp [Value.depth]
  | .bool _, _, _, _ => by simp [Value.depth]
  | .number _, _, _, _ => by simp [Value.depth]
  | .text _, _, _, _ => by simp [Value.depth]
  | .list items, w, 0, h => by simp [ofPrinted, Value.read] at h
  | .record fields, w, 0, h => by simp [ofPrinted, Value.read] at h
  | .list items, w, room + 1, h => by
    simp only [ofPrinted, Value.read, Option.map_eq_some_iff] at h
    obtain ⟨ws, hread, -⟩ := h
    have := depthOfItems_le_of_read hread
    simp only [Value.depth]
    omega
  | .record fields, w, room + 1, h => by
    simp only [ofPrinted, Value.read, Option.map_eq_some_iff] at h
    obtain ⟨ws, hread, -⟩ := h
    have := depthOfFields_le_of_read hread
    simp only [Value.depth]
    omega

private theorem depthOfItems_le_of_read : ∀ {items ws : List Value} {room : Nat},
    Value.readItems room (ofPrintedItems items) = some ws → Value.depthOfItems items ≤ room
  | [], _, _, _ => by simp [Value.depthOfItems]
  | v :: vs, ws, room, h => by
    simp only [ofPrintedItems, Value.readItems] at h
    split at h
    · next w ws' hv hvs =>
      have := depth_le_of_read hv
      have := depthOfItems_le_of_read hvs
      simp only [Value.depthOfItems]
      omega
    · cases h

private theorem depthOfFields_le_of_read : ∀ {fields ws : List (String × Value)} {room : Nat},
    Value.readFields room (ofPrintedFields fields) = some ws → Value.depthOfFields fields ≤ room
  | [], _, _, _ => by simp [Value.depthOfFields]
  | (k, v) :: fs, ws, room, h => by
    simp only [ofPrintedFields, Value.readFields] at h
    split at h
    · next w ws' hv hfs =>
      have := depth_le_of_read hv
      have := depthOfFields_le_of_read hfs
      simp only [Value.depthOfFields]
      omega
    · cases h
end

/-- A value whose text can be read nests no deeper than a text may. -/
theorem depth_le_of_parse? {v w : Value} (h : Value.parse? v.print = some w) :
    v.depth ≤ nestingLimit := by
  rw [Value.parse?, readString?_print] at h
  exact depth_le_of_read h

end RunLedger.Json
