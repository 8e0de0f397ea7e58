import Mathlib.Data.List.Forall2
import RunLedger.Proofs.Basic
import RunLedger.Proofs.Logs.Taking

/-!
Lines of one stream by their times. Of the lines of one time a listing can keep no more than a page
holds; what is kept is compared here with the pages of a sorted stream. Main statements: a page that
is not full completes what is kept, and a full page completes it up to its last time.
-/

set_option autoImplicit false

namespace RunLedger.Logs

/-- A line as a backend holds it: its time in nanoseconds and its text. -/
abbrev Stamped := Int × String

/-- Of the lines of one time as many as a page holds, when some times have passed already. -/
def keepAfter (limit : Nat) : List Int → List Stamped → List Stamped
  | _, [] => []
  | passed, l :: lines =>
    let kept := keepAfter limit (l.1 :: passed) lines
    if passed.count l.1 < limit then l :: kept else kept

/-- Of the lines of each time the first, as many as a page holds. -/
def keepPerTime (limit : Nat) (lines : List Stamped) : List Stamped := keepAfter limit [] lines

private theorem keepAfter_congr {limit : Nat} {passed passed' : List Int} {lines : List Stamped}
    (h : ∀ l ∈ lines, passed.count l.1 = passed'.count l.1) :
    keepAfter limit passed lines = keepAfter limit passed' lines := by
  induction lines generalizing passed passed' with
  | nil => rfl
  | cons l lines ih =>
    have hrest : keepAfter limit (l.1 :: passed) lines = keepAfter limit (l.1 :: passed') lines := by
      apply ih
      intro m hm
      rw [List.count_cons, List.count_cons, h m (by simp [hm])]
    simp only [keepAfter, hrest, h l (by simp)]

private theorem keepAfter_append (limit : Nat) (passed : List Int) (xs ys : List Stamped) :
    keepAfter limit passed (xs ++ ys) =
      keepAfter limit passed xs ++ keepAfter limit ((xs.map Prod.fst).reverse ++ passed) ys := by
  induction xs generalizing passed with
  | nil => rfl
  | cons x xs ih =>
    simp only [List.cons_append, keepAfter, ih, List.map_cons, List.reverse_cons,
      List.append_assoc, List.nil_append]
    split <;> rfl

theorem keepAfter_sublist (limit : Nat) (passed : List Int) (lines : List Stamped) :
    (keepAfter limit passed lines).Sublist lines := by
  induction lines generalizing passed with
  | nil => exact List.Sublist.slnil
  | cons l lines ih =>
    rw [keepAfter]
    split
    · exact (ih _).cons_cons l
    · exact (ih _).cons l

private theorem keepAfter_eq_nil {limit : Nat} {passed : List Int} {lines : List Stamped}
    (h : ∀ l ∈ lines, limit ≤ passed.count l.1) : keepAfter limit passed lines = [] := by
  induction lines generalizing passed with
  | nil => rfl
  | cons l lines ih =>
    have hl := h l (by simp)
    rw [keepAfter, if_neg (by omega)]
    apply ih
    intro m hm
    have := h m (by simp [hm])
    rw [List.count_cons]
    omega

theorem keepAfter_eq_self {limit : Nat} {passed : List Int} {lines : List Stamped}
    (h : ∀ t, t ∈ lines.map Prod.fst → passed.count t + (lines.map Prod.fst).count t ≤ limit) :
    keepAfter limit passed lines = lines := by
  induction lines generalizing passed with
  | nil => rfl
  | cons l lines ih =>
    have hl := h l.1 (by simp)
    simp only [List.map_cons, List.count_cons_self] at hl
    rw [keepAfter, if_pos (by omega), ih]
    intro t ht
    have := h t (by simp [ht])
    simp only [List.map_cons, List.count_cons] at this ⊢
    omega

private theorem keepPerTime_eq_self_of_length {limit : Nat} {lines : List Stamped}
    (h : lines.length ≤ limit) : keepPerTime limit lines = lines := by
  apply keepAfter_eq_self
  intro t _
  have := List.count_le_length (a := t) (l := lines.map Prod.fst)
  simp only [List.length_map] at this
  simp only [List.count_nil]
  omega

private theorem keepPerTime_append {limit : Nat} {xs ys : List Stamped}
    (h : ∀ x ∈ xs, ∀ y ∈ ys, x.1 ≠ y.1) :
    keepPerTime limit (xs ++ ys) = keepPerTime limit xs ++ keepPerTime limit ys := by
  unfold keepPerTime
  rw [keepAfter_append]
  congr 1
  apply keepAfter_congr
  intro y hy
  rw [List.append_nil, List.count_reverse, List.count_nil, List.count_eq_zero]
  intro hmem
  obtain ⟨x, hx, hxy⟩ := List.mem_map.1 hmem
  exact h x hx y hy hxy

private theorem take_prefix_keepPerTime (limit : Nat) (lines : List Stamped) :
    lines.take limit <+: keepPerTime limit lines := by
  have hpage : keepPerTime limit (lines.take limit) = lines.take limit :=
    keepPerTime_eq_self_of_length (List.length_take_le _ _)
  have hsplit : keepPerTime limit (lines.take limit ++ lines.drop limit) =
      keepPerTime limit (lines.take limit) ++ _ := keepAfter_append limit [] _ _
  rw [List.take_append_drop, hpage] at hsplit
  exact ⟨_, hsplit.symm⟩

private theorem keepPerTime_of_same {limit : Nat} {lines : List Stamped} {t : Int}
    (h : ∀ l ∈ lines, l.1 = t) : keepPerTime limit lines = lines.take limit := by
  have hpage : keepPerTime limit (lines.take limit) = lines.take limit :=
    keepPerTime_eq_self_of_length (List.length_take_le _ _)
  have hsplit := keepAfter_append limit [] (lines.take limit) (lines.drop limit)
  rw [List.take_append_drop] at hsplit
  have hdrop : keepAfter limit ((lines.take limit).map Prod.fst).reverse (lines.drop limit) = [] := by
    apply keepAfter_eq_nil
    intro l hl
    have hlong : limit < lines.length := by
      by_contra hle
      simp [List.drop_eq_nil_of_le (by omega : lines.length ≤ limit)] at hl
    have hall : ∀ b ∈ (lines.take limit).map Prod.fst, l.1 = b := by
      intro b hb
      obtain ⟨m, hm, rfl⟩ := List.mem_map.1 hb
      rw [h l (List.mem_of_mem_drop hl), h m (List.mem_of_mem_take hm)]
    rw [List.count_reverse, List.count_eq_length.2 hall, List.length_map, List.length_take]
    omega
  rw [List.append_nil, hdrop, List.append_nil] at hsplit
  exact hsplit.trans hpage

/-- A time whose lines are all kept, whatever is appended: a later line is there, or no further line
of the time would be kept. -/
def IsSettled (limit : Nat) (contents : List Stamped) (t : Int) : Prop :=
  (∃ l ∈ contents, t < l.1) ∨ limit ≤ (contents.map Prod.fst).count t

theorem keepPerTime_before_of_grows {limit : Nat} {contents contents' : List Stamped} {start : Int}
    (hgrows : contents <+: contents') (hsorted : contents'.Pairwise (·.1 ≤ ·.1))
    (hnonneg : ∀ l ∈ contents', 0 ≤ l.1)
    (hsettled : ∀ t, 0 ≤ t → t < start → IsSettled limit contents t) :
    keepPerTime limit (contents'.filter (·.1 < start)) =
      keepPerTime limit (contents.filter (·.1 < start)) := by
  obtain ⟨new, rfl⟩ := hgrows
  unfold keepPerTime
  rw [List.filter_append, keepAfter_append]
  have hnew : keepAfter limit (((contents.filter (·.1 < start)).map Prod.fst).reverse ++ [])
      (new.filter (·.1 < start)) = [] := by
    apply keepAfter_eq_nil
    intro l hl
    obtain ⟨hlnew, hlt⟩ := List.mem_filter.1 hl
    have hlt : l.1 < start := by simpa using hlt
    rcases hsettled l.1 (hnonneg l (by simp [hlnew])) hlt with ⟨m, hm, hlm⟩ | hfull
    · have := (List.pairwise_append.1 hsorted).2.2 m hm l hlnew
      omega
    · have hcount : ((contents.filter (·.1 < start)).map Prod.fst).count l.1 =
          (contents.map Prod.fst).count l.1 := by
        have : (contents.filter (·.1 < start)).map Prod.fst =
            (contents.map Prod.fst).filter (· < start) := by
          rw [List.filter_map]; rfl
        rw [this, List.count_filter (by simpa using hlt)]
      rw [List.append_nil, List.count_reverse, hcount]
      exact hfull
  rw [hnew, List.append_nil]

theorem filter_filter_of_iff {p q r : Stamped → Prop} [DecidablePred p] [DecidablePred q]
    [DecidablePred r] (lines : List Stamped) (h : ∀ l, q l ∧ p l ↔ r l) :
    (lines.filter (fun l => p l)).filter (fun l => q l) = lines.filter (fun l => r l) := by
  rw [List.filter_filter]
  apply List.filter_congr
  intro l _
  rw [← Bool.decide_and, decide_eq_decide]
  exact h l

theorem filter_lt_append_filter_le {lines : List Stamped} (h : lines.Pairwise (·.1 ≤ ·.1))
    (start : Int) : lines.filter (·.1 < start) ++ lines.filter (start ≤ ·.1) = lines := by
  have hcut : lines.Pairwise fun l m => decide (start ≤ l.1) = true → decide (start ≤ m.1) = true := by
    refine h.imp fun hle hstart => ?_
    rw [decide_eq_true_eq] at hstart ⊢
    omega
  have hbefore : lines.filter (·.1 < start) = lines.filter fun l => !decide (start ≤ l.1) := by
    refine List.filter_congr fun l _ => ?_
    rw [← decide_not, decide_eq_decide]
    omega
  rw [hbefore]
  exact filter_not_append_filter hcut

/-- What is kept is kept of the times before a start and of those from it on. -/
private theorem keepPerTime_split {contents : List Stamped} (limit : Nat)
    (hsorted : contents.Pairwise (·.1 ≤ ·.1)) (start : Int) :
    keepPerTime limit contents = keepPerTime limit (contents.filter (·.1 < start)) ++
      keepPerTime limit (contents.filter (start ≤ ·.1)) := by
  conv_lhs => rw [← filter_lt_append_filter_le hsorted start]
  apply keepPerTime_append
  intro x hx y hy
  have hx := (List.mem_filter.1 hx).2
  have hy := (List.mem_filter.1 hy).2
  simp only [decide_eq_true_eq] at hx hy
  omega

/-- The answer to a request: as many lines as a page holds, from the start time on. -/
def pageOf (limit : Nat) (contents : List Stamped) (start : Int) : List Stamped :=
  (contents.filter (start ≤ ·.1)).take limit

theorem filter_eq_prefix_filter_le {contents : List Stamped}
    (hsorted : contents.Pairwise (·.1 ≤ ·.1)) (start : Int) :
    contents.filter (·.1 = start) <+: contents.filter (start ≤ ·.1) := by
  have hsplit := filter_lt_append_filter_le (hsorted.filter (start ≤ ·.1)) (start + 1)
  have hat : (contents.filter (start ≤ ·.1)).filter (·.1 < start + 1) =
      contents.filter (·.1 = start) :=
    filter_filter_of_iff contents fun l => by omega
  rw [hat] at hsplit
  exact ⟨_, hsplit⟩

theorem start_le_of_mem_page {contents : List Stamped} {limit : Nat} {start : Int} {l : Stamped}
    (hl : l ∈ pageOf limit contents start) : start ≤ l.1 := by
  simpa using (List.mem_filter.1 (List.mem_of_mem_take hl)).2

theorem le_last_of_mem_page {contents : List Stamped} {limit : Nat} {start : Int}
    {last : Stamped} (hsorted : contents.Pairwise (·.1 ≤ ·.1))
    (hlast : (pageOf limit contents start).getLast? = some last) {l : Stamped}
    (hl : l ∈ pageOf limit contents start) : l.1 ≤ last.1 := by
  have hpage : (pageOf limit contents start).Pairwise (·.1 ≤ ·.1) :=
    (hsorted.filter _).sublist (List.take_sublist _ _)
  obtain ⟨front, hfront⟩ := List.getLast?_eq_some_iff.1 hlast
  rw [hfront] at hpage hl
  rcases List.mem_append.1 hl with hl | hl
  · exact (List.pairwise_append.1 hpage).2.2 l hl last (by simp)
  · exact Int.le_of_eq (congrArg Prod.fst (List.mem_singleton.1 hl))

theorem before_append_page_isPrefix {contents : List Stamped} (limit : Nat)
    (hsorted : contents.Pairwise (·.1 ≤ ·.1)) (start : Int) :
    keepPerTime limit (contents.filter (·.1 < start)) ++ pageOf limit contents start <+:
      keepPerTime limit contents := by
  rw [keepPerTime_split limit hsorted start, List.prefix_append_right_inj]
  exact take_prefix_keepPerTime limit _

theorem before_append_page_eq {contents : List Stamped} {limit : Nat} {start : Int}
    (hsorted : contents.Pairwise (·.1 ≤ ·.1)) (hshort : (pageOf limit contents start).length < limit) :
    keepPerTime limit (contents.filter (·.1 < start)) ++ pageOf limit contents start =
      keepPerTime limit contents := by
  have hall : (contents.filter (start ≤ ·.1)).length < limit := by
    simp only [pageOf, List.length_take] at hshort
    omega
  rw [keepPerTime_split limit hsorted start, keepPerTime_eq_self_of_length (Nat.le_of_lt hall), pageOf,
    List.take_of_length_le (Nat.le_of_lt hall)]

private theorem page_filter_lt {contents : List Stamped} {limit : Nat} {start : Int}
    {last : Stamped} (hsorted : contents.Pairwise (·.1 ≤ ·.1))
    (hlast : (pageOf limit contents start).getLast? = some last) {cursor : Int}
    (hcursor : cursor ≤ last.1) :
    (pageOf limit contents start).filter (·.1 < cursor) =
      (contents.filter (start ≤ ·.1)).filter (·.1 < cursor) := by
  have hrest : (contents.filter (start ≤ ·.1)).Pairwise (·.1 ≤ ·.1) := hsorted.filter _
  conv_rhs => rw [← List.take_append_drop limit (contents.filter (start ≤ ·.1))]
  rw [List.filter_append]
  have hdrop : ((contents.filter (start ≤ ·.1)).drop limit).filter (·.1 < cursor) = [] := by
    rw [List.filter_eq_nil_iff]
    intro l hl
    rw [← List.take_append_drop limit (contents.filter (start ≤ ·.1))] at hrest
    have := (List.pairwise_append.1 hrest).2.2 last (List.mem_of_getLast? hlast) l hl
    simp only [decide_eq_true_eq]
    omega
  rw [hdrop, List.append_nil, pageOf]

theorem keepPerTime_before_cursor {contents : List Stamped} {limit : Nat} {start cursor : Int}
    {last : Stamped} (hsorted : contents.Pairwise (·.1 ≤ ·.1))
    (hlast : (pageOf limit contents start).getLast? = some last) (hcursor : cursor ≤ last.1)
    (hstart : start ≤ cursor) :
    keepPerTime limit (contents.filter (·.1 < cursor)) =
      keepPerTime limit (contents.filter (·.1 < start)) ++
        (pageOf limit contents start).filter (·.1 < cursor) := by
  rw [page_filter_lt hsorted hlast hcursor]
  rw [keepPerTime_split limit (hsorted.filter (·.1 < cursor)) start]
  have hbefore : (contents.filter (·.1 < cursor)).filter (·.1 < start) =
      contents.filter (·.1 < start) :=
    filter_filter_of_iff contents fun l => by omega
  have hfrom : (contents.filter (·.1 < cursor)).filter (start ≤ ·.1) =
      (contents.filter (start ≤ ·.1)).filter (·.1 < cursor) := by
    rw [List.filter_filter, List.filter_filter]
    apply List.filter_congr
    intro l _
    exact Bool.and_comm _ _
  have hshown : keepPerTime limit ((pageOf limit contents start).filter (·.1 < cursor)) =
      (pageOf limit contents start).filter (·.1 < cursor) :=
    keepPerTime_eq_self_of_length
      (Nat.le_trans (List.length_filter_le _ _) (List.length_take_le _ _))
  rw [hbefore, hfrom, ← page_filter_lt hsorted hlast hcursor, hshown]

private theorem page_eq_take_of_same {contents : List Stamped} {limit : Nat} {start : Int}
    (hfull : (pageOf limit contents start).length = limit)
    (hsame : ∀ l ∈ pageOf limit contents start, l.1 = start) :
    pageOf limit contents start = (contents.filter (·.1 = start)).take limit := by
  have hat : (contents.filter (start ≤ ·.1)).filter (·.1 = start) =
      contents.filter (·.1 = start) :=
    filter_filter_of_iff contents fun l => by omega
  have hself : (pageOf limit contents start).filter (·.1 = start) = pageOf limit contents start := by
    rw [List.filter_eq_self]
    intro l hl
    simpa using hsame l hl
  have hpart : pageOf limit contents start <+: contents.filter (·.1 = start) := by
    rw [← hself, ← hat]
    exact (List.take_prefix _ _).filter _
  have := List.prefix_iff_eq_take.1 hpart
  rwa [hfull] at this

theorem keepPerTime_past_page {contents : List Stamped} {limit : Nat} {start : Int}
    (hsorted : contents.Pairwise (·.1 ≤ ·.1))
    (hfull : (pageOf limit contents start).length = limit)
    (hsame : ∀ l ∈ pageOf limit contents start, l.1 = start) :
    keepPerTime limit (contents.filter (·.1 < start + 1)) =
      keepPerTime limit (contents.filter (·.1 < start)) ++ pageOf limit contents start := by
  rw [keepPerTime_split limit (hsorted.filter (·.1 < start + 1)) start]
  have hbefore : (contents.filter (·.1 < start + 1)).filter (·.1 < start) =
      contents.filter (·.1 < start) :=
    filter_filter_of_iff contents fun l => by omega
  have hat : (contents.filter (·.1 < start + 1)).filter (start ≤ ·.1) =
      contents.filter (·.1 = start) :=
    filter_filter_of_iff contents fun l => by omega
  have hkept : keepPerTime limit (contents.filter (·.1 = start)) =
      (contents.filter (·.1 = start)).take limit := by
    apply keepPerTime_of_same (t := start)
    intro l hl
    simpa using (List.mem_filter.1 hl).2
  rw [hbefore, hat, hkept, page_eq_take_of_same hfull hsame]

end RunLedger.Logs
