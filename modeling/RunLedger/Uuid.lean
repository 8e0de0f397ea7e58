import RunLedger.Octets

/-!
Identifiers of sixteen bytes. They are written in lower case in groups of 8, 4, 4, 4 and 12 digits;
reading also takes upper case, the digits without hyphens, and the grouped form in braces or behind
the name of its URN scheme.
-/

set_option autoImplicit false

namespace RunLedger

structure Uuid where
  octets : Octets 16
  deriving DecidableEq

namespace Uuid

def groupSizes : List Nat := [8, 4, 4, 4, 12]

/-- Puts hyphens between groups of the given sizes. -/
def hyphenate : List Nat → List Char → List Char
  | [], cs => cs
  | [_], cs => cs
  | n :: sizes, cs => cs.take n ++ '-' :: hyphenate sizes (cs.drop n)

/-- Takes the hyphens out from between groups of the given sizes; none when they stand elsewhere. -/
def unhyphenate? : List Nat → List Char → Option (List Char)
  | [], cs => if cs.isEmpty then some [] else none
  | [_], cs => some cs
  | n :: sizes, cs =>
    match cs.drop n with
    | '-' :: rest => (unhyphenate? sizes rest).map (cs.take n ++ ·)
    | _ => none

def toString (u : Uuid) : String :=
  String.ofList (hyphenate groupSizes u.octets.toHex)

def ofDigits? (cs : List Char) : Option Uuid := (Octets.ofHex? 16 cs).map Uuid.mk

def ofGrouped? (cs : List Char) : Option Uuid :=
  (unhyphenate? groupSizes cs).bind ofDigits?

/-- What follows the name of the scheme, which may be written in either case. -/
def afterScheme? (cs : List Char) : Option (List Char) :=
  if (cs.take 9).map Char.toLower = "urn:uuid:".toList then some (cs.drop 9) else none

/-- Reads an identifier in one of its forms; how long a text is decides which form it can have. -/
def parse? (s : String) : Option Uuid :=
  let cs := s.toList
  if cs.length = 32 then ofDigits? cs
  else if cs.length = 36 then ofGrouped? cs
  else if cs.length = 38 then
    match cs with
    | '\x7b' :: rest => if rest.getLast? = some '\x7d' then ofGrouped? rest.dropLast else none
    | _ => none
  else if cs.length = 45 then (afterScheme? cs).bind ofGrouped?
  else none

instance : Inhabited Uuid := ⟨⟨List.replicate 16 0, by simp⟩⟩

/-- Taking the hyphens out undoes putting them in. -/
private theorem unhyphenate?_hyphenate {sizes : List Nat} {cs : List Char} (hne : sizes ≠ [])
    (h : sizes.foldr (· + ·) 0 ≤ cs.length) :
    unhyphenate? sizes (hyphenate sizes cs) = some cs := by
  induction sizes generalizing cs with
  | nil => exact absurd rfl hne
  | cons n sizes ih =>
    cases sizes with
    | nil => rfl
    | cons m sizes =>
      simp only [List.foldr_cons] at h
      have hlength : (cs.take n).length = n := by
        rw [List.length_take]
        omega
      have hrest := @ih (cs.drop n) (by simp) (by
        simp only [List.foldr_cons, List.length_drop]
        omega)
      have hdrop : (cs.take n ++ '-' :: hyphenate (m :: sizes) (cs.drop n)).drop n =
          '-' :: hyphenate (m :: sizes) (cs.drop n) := List.drop_left' hlength
      have htake : (cs.take n ++ '-' :: hyphenate (m :: sizes) (cs.drop n)).take n =
          cs.take n := List.take_left' hlength
      simp only [hyphenate, unhyphenate?, hdrop, htake, hrest, Option.map_some,
        List.take_append_drop]

private theorem length_hyphenate {sizes : List Nat} {cs : List Char}
    (h : sizes.foldr (· + ·) 0 ≤ cs.length) :
    (hyphenate sizes cs).length = cs.length + (sizes.length - 1) := by
  induction sizes generalizing cs with
  | nil => rfl
  | cons n sizes ih =>
    cases sizes with
    | nil => rfl
    | cons m sizes =>
      simp only [List.foldr_cons] at h
      have hrest := @ih (cs.drop n) (by
        simp only [List.foldr_cons, List.length_drop]
        omega)
      simp only [hyphenate, List.length_append, List.length_cons, hrest, List.length_take,
        List.length_drop]
      omega

private theorem mem_hyphenate {sizes : List Nat} {cs : List Char} {c : Char}
    (h : c ∈ hyphenate sizes cs) :
    c = '-' ∨ c ∈ cs := by
  fun_induction hyphenate sizes cs with
  | case1 cs => exact .inr h
  | case2 n cs => exact .inr h
  | case3 n sizes cs _ ih =>
    rcases List.mem_append.1 h with h | h
    · exact .inr (List.mem_of_mem_take h)
    · rcases List.mem_cons.1 h with h | h
      · exact .inl h
      · exact (ih h).imp_right List.mem_of_mem_drop

/-- A written identifier is made of digits and hyphens. -/
theorem mem_toString {u : Uuid} {c : Char} (h : c ∈ u.toString.toList) :
    c ∈ "-0123456789abcdef".toList := by
  rw [toString, String.toList_ofList] at h
  rcases mem_hyphenate h with rfl | h
  · decide
  · obtain ⟨n, hn, rfl⟩ := Text.Hex.mem_encode h
    have hall : ∀ m : Fin 16, Text.Hex.digit m.val ∈ "-0123456789abcdef".toList := by decide
    exact hall ⟨n, hn⟩

/-- Reading a written identifier gives it back. -/
theorem parse?_toString (u : Uuid) : parse? u.toString = some u := by
  have hlength : u.octets.toHex.length = 32 := by
    rw [Octets.toHex, Text.Hex.length_encode, u.octets.property]
  have hsizes : groupSizes.foldr (· + ·) 0 ≤ u.octets.toHex.length := by
    rw [hlength]
    decide
  have hwritten : (hyphenate groupSizes u.octets.toHex).length = 36 := by
    rw [length_hyphenate hsizes, hlength]
    rfl
  have hread : ofGrouped? (hyphenate groupSizes u.octets.toHex) = some u := by
    rw [ofGrouped?, unhyphenate?_hyphenate (by decide) hsizes, Option.bind_some, ofDigits?,
      Octets.ofHex?_toHex]
    rfl
  simp only [parse?, toString, String.toList_ofList, hwritten, hread]
  rfl

theorem toString_injective {u v : Uuid} (h : u.toString = v.toString) : u = v := by
  have := congrArg parse? h
  rwa [parse?_toString, parse?_toString, Option.some.injEq] at this

end Uuid

end RunLedger
