import RunLedger.Proofs.Json.Printed

/-!
Printed values as the other scanner reads them. The text of a value that nests no deeper than the
scanner goes is read whole, and writing down strictly what was read gives the same text.
-/

set_option autoImplicit false

namespace RunLedger.Json

mutual
/-- A value as its text is written. -/
def Relaxed.ofValue : Value → Relaxed
  | .null => .null
  | .bool b => .bool b
  | .number n => .number n.print
  | .text s => .text (Relaxed.Part.ofString s)
  | .list items => .list (Relaxed.ofItems items)
  | .record fields => .record (Relaxed.ofFields fields)

def Relaxed.ofItems : List Value → List Relaxed
  | [] => []
  | v :: vs => Relaxed.ofValue v :: Relaxed.ofItems vs

def Relaxed.ofFields : List (String × Value) → List (List Relaxed.Part × Relaxed)
  | [] => []
  | (k, v) :: fs => (Relaxed.Part.ofString k, Relaxed.ofValue v) :: Relaxed.ofFields fs
end

namespace Relaxed

mutual
private theorem strict_ofValue : ∀ v : Value, (ofValue v).strict = v.compact
  | .null => rfl
  | .bool true => rfl
  | .bool false => rfl
  | .number _ => rfl
  | .text s => Part.quoted_ofString s
  | .list items => by rw [ofValue, strict, strictItems_ofItems items, Value.compact]
  | .record fields => by rw [ofValue, strict, strictFields_ofFields fields, Value.compact]

private theorem strictItems_ofItems : ∀ items : List Value,
    strictItems (ofItems items) = Value.compactItems items
  | [] => rfl
  | [v] => by
    rw [ofItems, ofItems, strictItems, strict_ofValue v, Value.compactItems]
  | v :: w :: vs => by
    have hitems := strictItems_ofItems (w :: vs)
    rw [ofItems] at hitems
    rw [ofItems, ofItems, strictItems, strict_ofValue v, hitems, Value.compactItems]

private theorem strictFields_ofFields : ∀ fields : List (String × Value),
    strictFields (ofFields fields) = Value.compactFields fields
  | [] => rfl
  | [(k, v)] => by
    rw [ofFields, ofFields, strictFields, strict_ofValue v, Part.quoted_ofString,
      Value.compactFields]
  | (k, v) :: (k', v') :: fs => by
    have hfields := strictFields_ofFields ((k', v') :: fs)
    rw [ofFields] at hfields
    rw [ofFields, ofFields, strictFields, strict_ofValue v, Part.quoted_ofString, hfields,
      Value.compactFields]
end

theorem print_ofValue (v : Value) : (ofValue v).print = v.print := by
  rw [Relaxed.print, strict_ofValue, Value.print]

theorem isComputable_ofValue (v : Value) : (ofValue v).isComputable = true := by
  cases v <;> rfl

private theorem trim_cons {c : Char} (hblank : isBlank c = false) (hslash : c ≠ '/')
    (cs : List Char) :
    trim (c :: cs) = some (c :: cs) := by
  rw [trim, skip.eq_def]
  split <;> simp_all

private theorem trim_value {c : Char} (h : startsValue c = true) (cs : List Char) :
    trim (c :: cs) = some (c :: cs) := by
  refine trim_cons ?_ (startsValue_facts h).2.2.2.2 cs
  simp only [startsValue, Bool.or_eq_true, List.contains_eq_mem, List.mem_cons,
    List.not_mem_nil, or_false, decide_eq_true_eq] at h
  rcases h with (rfl | rfl | rfl | rfl | rfl | rfl | rfl) | h
  all_goals try decide
  have hall : ∀ k : Fin 10, isBlank (Decimal.digit k.val) = false := by decide
  obtain ⟨k, rfl⟩ := exists_eq_digit h
  exact hall k

private theorem scan_other {c : Char} (hstarts : startsValue c = true)
    (hother : c ∉ ['"', '[', '{']) (fuel room : Nat) (cs : List Char) :
    scan (fuel + 1) room (c :: cs) = (scanWord? (c :: cs)).or (scanNumber? (c :: cs)) := by
  have hquote : c ≠ '\'' := by
    rintro rfl
    revert hstarts
    decide
  simp only [List.mem_cons, List.not_mem_nil, or_false, not_or] at hother
  rw [scan.eq_def]
  simp only [trim_value hstarts]
  split <;> simp_all

private theorem scan_word {word rest : List Char} {v : Relaxed} (hrest : Ends rest)
    (hword : (word, v) ∈ [(['n', 'u', 'l', 'l'], .null), (['t', 'r', 'u', 'e'], .bool true),
      (['f', 'a', 'l', 's', 'e'], .bool false)]) (fuel room : Nat) :
    scan (fuel + 1) room (word ++ rest) = some (v, rest) := by
  have hall : ∀ c ∈ word, c.isAlphanum = true := by
    simp only [List.mem_cons, Prod.mk.injEq, List.not_mem_nil, or_false] at hword
    rcases hword with ⟨rfl, -⟩ | ⟨rfl, -⟩ | ⟨rfl, -⟩ <;> exact List.all_eq_true.1 rfl
  have htake := takeWhile_append_stop hall fun c hc => (hrest c hc).1
  have hdrop := dropWhile_append_stop hall fun c hc => (hrest c hc).1
  have hscan : scanWord? (word ++ rest) = some (v, rest) := by
    rw [scanWord?, htake, hdrop]
    simp only [List.mem_cons, Prod.mk.injEq, List.not_mem_nil, or_false] at hword
    rcases hword with ⟨rfl, rfl⟩ | ⟨rfl, rfl⟩ | ⟨rfl, rfl⟩ <;> rfl
  obtain ⟨c, cs, rfl, hstarts, hother⟩ :
      ∃ c cs, word = c :: cs ∧ startsValue c = true ∧ c ∉ ['"', '[', '{'] := by
    simp only [List.mem_cons, Prod.mk.injEq, List.not_mem_nil, or_false] at hword
    rcases hword with ⟨rfl, -⟩ | ⟨rfl, -⟩ | ⟨rfl, -⟩ <;> exact ⟨_, _, rfl, by decide, by decide⟩
  rw [List.cons_append] at hscan ⊢
  rw [scan_other hstarts hother, hscan]
  rfl

private theorem scan_quote (fuel room : Nat) (s : String) (rest : List Char) :
    scan (fuel + 1) room (Json.quoted s ++ rest) = some (.text (Part.ofString s), rest) := by
  have hscan := Part.scan_quoted s.toList rest
  rw [Json.quoted, List.cons_append, List.append_assoc, List.cons_append, List.nil_append, scan,
    trim_value (by decide)]
  simp only [hscan]
  rfl

private theorem scan_list (fuel room : Nat) (cs : List Char) :
    scan (fuel + 1) (room + 1) ('[' :: cs) =
      (scanItems fuel room cs).map fun (vs, rest) => (.list vs, rest) := by
  rw [scan, trim_value (by decide)]
  rfl

private theorem scan_record (fuel room : Nat) (cs : List Char) :
    scan (fuel + 1) (room + 1) ('{' :: cs) =
      (scanFields fuel room cs).map fun (fs, rest) => (.record fs, rest) := by
  rw [scan, trim_value (by decide)]
  rfl

private theorem scanItems_value {c : Char} (hstarts : startsValue c = true) (fuel room : Nat)
    (cs : List Char) : scanItems (fuel + 1) room (c :: cs) =
      match scan fuel room (c :: cs) with
      | none => none
      | some (v, r) =>
        match trim r with
        | some (',' :: r) => (scanItems fuel room r).map fun (vs, rest) => (v :: vs, rest)
        | some (']' :: rest) => some ([v], rest)
        | _ => none := by
  have hclose := (startsValue_facts hstarts).2.1
  rw [scanItems, trim_value hstarts]
  split
  · next heq => cases heq
  · next heq =>
    cases heq
    exact absurd rfl hclose
  · next heq =>
    cases heq
    rfl

private theorem scanFields_quoted (fuel room : Nat) (k : String) (cs : List Char) :
    scanFields (fuel + 1) room (Json.quoted k ++ ':' :: cs) =
      match scan fuel room cs with
      | none => none
      | some (v, r) =>
        match trim r with
        | some (',' :: r) =>
          (scanFields fuel room r).map fun (fs, rest) => ((Part.ofString k, v) :: fs, rest)
        | some ('}' :: rest) => some ([(Part.ofString k, v)], rest)
        | _ => none := by
  have hkey := Part.scan_quoted k.toList (':' :: cs)
  have hname : scanName? ('"' :: (k.toList.flatMap escape ++ '"' :: ':' :: cs)) =
      some (Part.ofString k, ':' :: cs) := by
    rw [scanName?, hkey]
    rfl
  rw [Json.quoted, List.cons_append, List.append_assoc, List.cons_append, List.nil_append,
    scanFields, trim_value (by decide)]
  split
  · next heq => cases heq
  · next heq => cases heq
  · next heq =>
    cases heq
    have hcolon : trim (':' :: cs) = some (':' :: cs) := trim_cons (by decide) (by decide) cs
    rw [hname]
    dsimp only
    exact hcolon ▸ rfl

mutual
theorem scan_compact : ∀ (v : Value) (fuel room : Nat) (rest : List Char),
    v.compact.length ≤ fuel → v.depth ≤ room → Ends rest →
      scan fuel room (v.compact ++ rest) = some (ofValue v, rest)
  | v, 0, _, rest, hfuel, _, _ => by
    have := length_compact_pos v
    omega
  | .null, fuel + 1, room, rest, _, _, hrest => scan_word hrest (by simp [ofValue, Value.compact]) fuel room
  | .bool true, fuel + 1, room, rest, _, _, hrest =>
    scan_word hrest (by simp [ofValue, Value.compact]) fuel room
  | .bool false, fuel + 1, room, rest, _, _, hrest =>
    scan_word hrest (by simp [ofValue, Value.compact]) fuel room
  | .number n, fuel + 1, room, rest, _, _, hrest => by
    have hnumber := scanNumber?_text n.numeral_isPlain hrest
    have hword := scanWord?_text n.numeral_isPlain rest
    obtain ⟨c, cs, hhead, hstarts⟩ := n.numeral_isPlain.text_head
    have hother : startsValue c = true ∧ c ∉ ['"', '[', '{'] := by
      rcases hstarts with rfl | hdigit
      · decide
      · refine ⟨by simp [startsValue, hdigit], ?_⟩
        intro h
        simp only [List.mem_cons, List.not_mem_nil, or_false] at h
        rcases h with rfl | rfl | rfl <;> revert hdigit <;> decide
    rw [Value.compact, ofValue, Number.print_eq]
    rw [hhead] at hnumber hword ⊢
    rw [List.cons_append] at hnumber hword ⊢
    rw [scan_other hother.1 hother.2, hword, hnumber]
    rfl
  | .text s, fuel + 1, room, rest, _, _, _ => scan_quote fuel room s rest
  | .list _, fuel + 1, 0, rest, _, hroom, _ => by simp [Value.depth] at hroom
  | .record _, fuel + 1, 0, rest, _, hroom, _ => by simp [Value.depth] at hroom
  | .list items, fuel + 1, room + 1, rest, hfuel, hroom, _ => by
    have hscan := scanItems_compact items fuel room rest
      (by simpa [Value.compact] using hfuel) (by simpa [Value.depth] using hroom)
    rw [Value.compact, List.cons_append, scan_list, hscan]
    rfl
  | .record fields, fuel + 1, room + 1, rest, hfuel, hroom, _ => by
    have hscan := scanFields_compact fields fuel room rest
      (by simpa [Value.compact] using hfuel) (by simpa [Value.depth] using hroom)
    rw [Value.compact, List.cons_append, scan_record, hscan]
    rfl

theorem scanItems_compact : ∀ (items : List Value) (fuel room : Nat) (rest : List Char),
    (Value.compactItems items).length ≤ fuel → Value.depthOfItems items ≤ room →
      scanItems fuel room (Value.compactItems items ++ rest) = some (ofItems items, rest)
  | [], 0, _, rest, hfuel, _ => by simp [Value.compactItems] at hfuel
  | [v], 0, _, rest, hfuel, _ => by simp [Value.compactItems] at hfuel
  | v :: w :: vs, 0, _, rest, hfuel, _ => by simp [Value.compactItems] at hfuel
  | [], fuel + 1, room, rest, _, _ => by
    rw [Value.compactItems, List.cons_append, scanItems, trim_cons (by decide) (by decide)]
    rfl
  | [v], fuel + 1, room, rest, hfuel, hroom => by
    have hlength : v.compact.length ≤ fuel := by simpa [Value.compactItems] using hfuel
    have hdepth : v.depth ≤ room := by simpa [Value.depthOfItems] using hroom
    have hscan := scan_compact v fuel room _ hlength hdepth (ends_bracket rest)
    obtain ⟨c, cs, hhead, hstarts⟩ := compact_head v
    rw [Value.compactItems, List.append_assoc, List.cons_append, List.nil_append]
    rw [hhead] at hscan ⊢
    rw [List.cons_append] at hscan ⊢
    rw [scanItems_value hstarts, hscan]
    simp only [trim_cons (c := ']') (by decide) (by decide)]
    rfl
  | v :: w :: vs, fuel + 1, room, rest, hfuel, hroom => by
    have hlength : v.compact.length + (Value.compactItems (w :: vs)).length ≤ fuel := by
      simp only [Value.compactItems, List.length_append, List.length_cons] at hfuel ⊢
      omega
    have hdepth : v.depth ≤ room ∧ Value.depthOfItems (w :: vs) ≤ room := by
      rw [Value.depthOfItems] at hroom
      omega
    have hscan := scan_compact v fuel room _ (by omega) hdepth.1
      (ends_comma (Value.compactItems (w :: vs) ++ rest))
    have hitems := scanItems_compact (w :: vs) fuel room rest (by omega) hdepth.2
    obtain ⟨c, cs, hhead, hstarts⟩ := compact_head v
    rw [Value.compactItems, List.append_assoc, List.cons_append]
    rw [hhead] at hscan ⊢
    rw [List.cons_append] at hscan ⊢
    rw [scanItems_value hstarts, hscan]
    simp only [trim_cons (c := ',') (by decide) (by decide), hitems]
    rfl

theorem scanFields_compact : ∀ (fields : List (String × Value)) (fuel room : Nat)
    (rest : List Char), (Value.compactFields fields).length ≤ fuel →
      Value.depthOfFields fields ≤ room →
        scanFields fuel room (Value.compactFields fields ++ rest) = some (ofFields fields, rest)
  | [], 0, _, rest, hfuel, _ => by simp [Value.compactFields] at hfuel
  | [(k, v)], 0, _, rest, hfuel, _ => by simp [Value.compactFields] at hfuel
  | (k, v) :: f :: fs, 0, _, rest, hfuel, _ => by simp [Value.compactFields] at hfuel
  | [], fuel + 1, room, rest, _, _ => by
    rw [Value.compactFields, List.cons_append, scanFields, trim_cons (by decide) (by decide)]
    rfl
  | [(k, v)], fuel + 1, room, rest, hfuel, hroom => by
    have hlength : v.compact.length ≤ fuel := by
      simp only [Value.compactFields, List.length_append, List.length_cons] at hfuel
      omega
    have hdepth : v.depth ≤ room := by simpa [Value.depthOfFields] using hroom
    have hscan := scan_compact v fuel room _ hlength hdepth (ends_brace rest)
    rw [Value.compactFields, List.append_assoc, List.cons_append, List.append_assoc,
      List.cons_append, List.nil_append, scanFields_quoted, hscan]
    simp only [trim_cons (c := '}') (by decide) (by decide)]
    rfl
  | (k, v) :: (k', v') :: fs, fuel + 1, room, rest, hfuel, hroom => by
    have hlength : v.compact.length + (Value.compactFields ((k', v') :: fs)).length ≤ fuel := by
      simp only [Value.compactFields, List.length_append, List.length_cons] at hfuel ⊢
      omega
    have hdepth : v.depth ≤ room ∧ Value.depthOfFields ((k', v') :: fs) ≤ room := by
      rw [Value.depthOfFields] at hroom
      omega
    have hscan := scan_compact v fuel room _ (by omega) hdepth.1
      (ends_comma (Value.compactFields ((k', v') :: fs) ++ rest))
    have hfields := scanFields_compact ((k', v') :: fs) fuel room rest (by omega)
      hdepth.2
    rw [Value.compactFields, List.append_assoc, List.cons_append, List.append_assoc,
      List.cons_append, scanFields_quoted, hscan]
    simp only [trim_cons (c := ',') (by decide) (by decide), hfields]
    rfl
end

/-- The text of a value that nests no deeper than the scanner goes is read whole. -/
theorem parse?_print {v : Value} (h : v.depth ≤ nestingLimit) :
    parse? v.print = some (ofValue v) := by
  have hvisible : ∀ c ∈ v.compact, decide (c ≠ '\x00') = true := by
    intro c hc
    have hlarge := le_of_mem_compact hc
    have hne : c ≠ '\x00' := by
      rintro rfl
      revert hlarge
      decide
    simpa using hne
  have hplain := takeWhile_append_stop hvisible (by simp : ∀ c ∈ ([] : List Char).head?, _)
  rw [List.append_nil] at hplain
  have hscan := scan_compact v (2 * v.compact.length + 2) nestingLimit [] (by omega) h ends_nil
  rw [List.append_nil] at hscan
  rw [parse?, Value.print, String.toList_ofList, hplain]
  simp only [hscan]
  rfl

end Relaxed

end RunLedger.Json
