/-!
Results of steps that may fail, and lists that are sorted, filtered and read item by item.
-/

set_option autoImplicit false

namespace RunLedger

variable {α β ε : Type}

private theorem split_unique {p : α → Bool} {l₁ l₂ m₁ m₂ : List α} (heq : l₁ ++ l₂ = m₁ ++ m₂)
    (hl₁ : ∀ b ∈ l₁, p b = true) (hl₂ : ∀ b ∈ l₂, p b = false)
    (hm₁ : ∀ b ∈ m₁, p b = true) (hm₂ : ∀ b ∈ m₂, p b = false) : l₁ = m₁ ∧ l₂ = m₂ := by
  have htake : ∀ {k₁ k₂ : List α}, (∀ b ∈ k₁, p b = true) → (∀ b ∈ k₂, p b = false) →
      (k₁ ++ k₂).takeWhile p = k₁ := by
    intro k₁ k₂ h₁ h₂
    rw [List.takeWhile_append_of_pos h₁]
    cases k₂ with
    | nil => simp
    | cons b k₂ => simp [h₂ b List.mem_cons_self]
  have hfirst : l₁ = m₁ := by rw [← htake hl₁ hl₂, heq, htake hm₁ hm₂]
  subst hfirst
  exact ⟨rfl, List.append_cancel_left heq⟩

/-- Sorting keeps the order of items of one rank, so it can be done before or after items are left
out. -/
theorem filter_mergeSort {le : α → α → Bool}
    (trans : ∀ a b c, le a b = true → le b c = true → le a c = true)
    (total : ∀ a b, (le a b || le b a) = true) (p : α → Bool) (l : List α) :
    (l.mergeSort le).filter p = (l.filter p).mergeSort le := by
  induction l with
  | nil => simp
  | cons a l ih =>
    obtain ⟨l₁, l₂, hcons, hrest, hbefore⟩ := List.mergeSort_cons trans total a l
    have hsorted := List.pairwise_mergeSort trans total (a :: l)
    rw [hcons] at hsorted
    have hafter := (List.pairwise_cons.1 (List.pairwise_append.1 hsorted).2.1).1
    rw [hrest, List.filter_append] at ih
    by_cases ha : p a = true
    · rw [hcons, List.filter_append, List.filter_cons_of_pos ha, List.filter_cons_of_pos ha]
      obtain ⟨m₁, m₂, hcons', hrest', hbefore'⟩ := List.mergeSort_cons trans total a (l.filter p)
      have hsorted' := List.pairwise_mergeSort trans total (a :: l.filter p)
      rw [hcons'] at hsorted'
      have hafter' := (List.pairwise_cons.1 (List.pairwise_append.1 hsorted').2.1).1
      -- Both lists are cut where the items stop to come before the first one.
      obtain ⟨h₁, h₂⟩ := @split_unique _ (fun b => !le a b) _ _ _ _ (ih.trans hrest')
        (fun b hb => hbefore b ((List.mem_filter.1 hb).1))
        (fun b hb => by simp [hafter b ((List.mem_filter.1 hb).1)]) hbefore'
        (fun b hb => by simp [hafter' b hb])
      rw [hcons', h₁, h₂]
    · rw [hcons, List.filter_append, List.filter_cons_of_neg ha, List.filter_cons_of_neg ha]
      exact ih

theorem filter_not_append_filter {p : α → Bool} {l : List α}
    (h : l.Pairwise fun a b => p a = true → p b = true) :
    l.filter (!p ·) ++ l.filter p = l := by
  induction l with
  | nil => rfl
  | cons a l ih =>
    obtain ⟨ha, htail⟩ := List.pairwise_cons.1 h
    cases hp : p a with
    | false => simp [hp, ih htail]
    | true =>
      have hnone : l.filter (!p ·) = [] := by
        rw [List.filter_eq_nil_iff]
        intro b hb
        simp [ha b hb hp]
      have hall : l.filter p = l := List.filter_eq_self.2 fun b hb => ha b hb hp
      simp [hp, hnone, hall]

theorem bind_eq_ok {x : Except ε α} {f : α → Except ε β} {b : β} :
    x >>= f = .ok b ↔ ∃ a, x = .ok a ∧ f a = .ok b := by
  cases x with
  | error e => simp [bind, Except.bind]
  | ok a => simp [bind, Except.bind]

theorem exists_pairs_of_mapM {f : α → Except ε β} {l : List α} {r : List β}
    (h : l.mapM f = .ok r) : ∃ pairs : List (α × β), pairs.map Prod.fst = l ∧
      pairs.map Prod.snd = r ∧ ∀ x ∈ pairs, f x.1 = .ok x.2 := by
  induction l generalizing r with
  | nil =>
    cases h
    exact ⟨[], rfl, rfl, by simp⟩
  | cons a l ih =>
    rw [List.mapM_cons] at h
    cases ha : f a with
    | error e => simp [ha, bind, Except.bind] at h
    | ok b =>
      cases hl : l.mapM f with
      | error e => simp [ha, hl, bind, Except.bind] at h
      | ok bs =>
        simp only [ha, hl, bind, Except.bind, pure, Except.pure, Except.ok.injEq] at h
        subst h
        obtain ⟨pairs, hfst, hsnd, hread⟩ := ih hl
        refine ⟨(a, b) :: pairs, by simp [hfst], by simp [hsnd], ?_⟩
        simpa [ha] using hread

theorem exists_of_mapM_eq_error {f : α → Except ε β} {l : List α} {e : ε}
    (h : l.mapM f = .error e) : ∃ a ∈ l, f a = .error e := by
  induction l with
  | nil => cases h
  | cons a l ih =>
    rw [List.mapM_cons] at h
    cases ha : f a with
    | error e' =>
      rw [ha] at h
      cases h
      exact ⟨a, List.mem_cons_self, ha⟩
    | ok b =>
      cases hl : l.mapM f with
      | error e' =>
        simp only [ha, hl, bind, Except.bind] at h
        cases h
        obtain ⟨a', hmem, ha'⟩ := ih hl
        exact ⟨a', List.mem_cons_of_mem a hmem, ha'⟩
      | ok bs =>
        simp only [ha, hl, bind, Except.bind, pure, Except.pure] at h
        cases h

theorem exists_mapM_eq_ok {f : α → Except ε β} {l : List α} (h : ∀ a ∈ l, ∃ b, f a = .ok b) :
    ∃ r, l.mapM f = .ok r := by
  induction l with
  | nil => exact ⟨[], rfl⟩
  | cons a l ih =>
    obtain ⟨b, hb⟩ := h a List.mem_cons_self
    obtain ⟨bs, hbs⟩ := ih fun a' ha' => h a' (List.mem_cons_of_mem a ha')
    refine ⟨b :: bs, ?_⟩
    rw [List.mapM_cons, hb, hbs]
    rfl

theorem mapM_fst {f : α → Except ε β} {pairs : List (α × β)} (h : ∀ x ∈ pairs, f x.1 = .ok x.2) :
    (pairs.map Prod.fst).mapM f = .ok (pairs.map Prod.snd) := by
  induction pairs with
  | nil => rfl
  | cons x pairs ih =>
    have hrest := ih fun y hy => h y (List.mem_cons_of_mem x hy)
    rw [List.map_cons, List.mapM_cons, h x List.mem_cons_self, hrest]
    rfl

theorem filterM_eq {f : α → Except ε Bool} {p : α → Bool} {l : List α}
    (h : ∀ a ∈ l, f a = .ok (p a)) : l.filterM f = .ok (l.filter p) := by
  have haux : ∀ (l kept : List α), (∀ a ∈ l, f a = .ok (p a)) →
      l.filterAuxM f kept = .ok ((l.filter p).reverse ++ kept) := by
    intro l
    induction l with
    | nil => exact fun kept _ => rfl
    | cons a l ih =>
      intro kept hl
      have hrest := fun kept' => ih kept' fun b hb => hl b (List.mem_cons_of_mem a hb)
      rw [List.filterAuxM, hl a List.mem_cons_self]
      cases hp : p a <;> simp [hrest, hp, bind, Except.bind]
  rw [List.filterM, haux l [] h]
  simp [bind, Except.bind, pure, Except.pure]

end RunLedger
