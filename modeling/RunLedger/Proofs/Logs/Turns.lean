import RunLedger.Proofs.Logs.Taking

/-!
A listing as a sequence of turns. A turn asks for one page; the page fails the listing, ends it or
leads to the next turn. Each page that leads on has a stream that fills it, and what a page passes
over was paid for by lines that the page before gave. Main statement: whatever the backend answers, a
listing ends, its start times ascend from zero, and the cap on its lines bounds the pages that it
asks for.
-/

set_option autoImplicit false

namespace RunLedger.Logs

namespace Paging

/-- What a page is asked for with, and what was taken before. -/
structure Turn where
  asked : Nat
  start : Int
  boundary : Boundary
  lines : List Entry

def Turn.first : Turn := ⟨0, 0, [], []⟩

section Steps

variable (limits : Limits) (pages : Nat → Int → Except Error (List Stream))

/-- One turn leads to another: its page leaves room, and a stream fills it. -/
inductive Leads : Turn → Turn → Prop
  | on {t : Turn} {streams : List Stream} {taken : List Entry} {cursor : Int} :
      pages t.asked t.start = .ok streams →
      take t.start (limits.maxLines - t.lines.length) t.boundary
        (streams.flatMap Stream.arrivals) = .ok taken →
      taken.length < limits.maxLines - t.lines.length →
      cursor? limits.pageLimit streams = some cursor →
      Leads t ⟨t.asked + 1, nextStart t.start cursor,
        boundaryAt (nextStart t.start cursor) taken, t.lines ++ taken⟩

/-- What a listing gives when a turn is its last. -/
inductive Ends : Turn → Except Error (List Entry) → Prop
  | failed {t : Turn} {e : Error} : pages t.asked t.start = .error e → Ends t (.error e)
  | unreadable {t : Turn} {streams : List Stream} {e : Error} :
      pages t.asked t.start = .ok streams →
      take t.start (limits.maxLines - t.lines.length) t.boundary
        (streams.flatMap Stream.arrivals) = .error e →
      Ends t (.error e)
  | filled {t : Turn} {streams : List Stream} {taken : List Entry} :
      pages t.asked t.start = .ok streams →
      take t.start (limits.maxLines - t.lines.length) t.boundary
        (streams.flatMap Stream.arrivals) = .ok taken →
      limits.maxLines - t.lines.length ≤ taken.length →
      Ends t (.ok (t.lines ++ taken))
  | exhausted {t : Turn} {streams : List Stream} {taken : List Entry} :
      pages t.asked t.start = .ok streams →
      take t.start (limits.maxLines - t.lines.length) t.boundary
        (streams.flatMap Stream.arrivals) = .ok taken →
      taken.length < limits.maxLines - t.lines.length →
      cursor? limits.pageLimit streams = none →
      Ends t (.ok (t.lines ++ taken))

/-- Turns that lead from one to the next. -/
inductive Passes : Turn → List Turn → Turn → Prop
  | rest (t : Turn) : Passes t [] t
  | go {t t' last : Turn} {turns : List Turn} :
      Leads limits pages t t' → Passes t' turns last → Passes t (t' :: turns) last

end Steps

variable {limits : Limits} {pages pages' : Nat → Int → Except Error (List Stream)}
  {t t' last : Turn} {turns : List Turn} {result : Except Error (List Entry)}

theorem Passes.keeps {P : Turn → Prop}
    (hstep : ∀ t t', P t → Leads limits pages t t' → P t')
    (h : Passes limits pages t turns last) (ht : P t) : P last := by
  induction h with
  | rest => exact ht
  | go hleads _ ih => exact ih (hstep _ _ ht hleads)

/-- A listing goes through turns up to one that ends it. -/
private theorem exists_passes (limits : Limits) (pages : Nat → Int → Except Error (List Stream))
    (asked : Nat) (start : Int) (boundary : Boundary) (lines : List Entry) :
    ∃ turns last result, Passes limits pages ⟨asked, start, boundary, lines⟩ turns last ∧
      Ends limits pages last result ∧
      run limits pages asked start boundary lines = (result, start :: turns.map (·.start)) := by
  fun_induction run limits pages asked start boundary lines with
  | case1 asked start boundary lines e hpage =>
    exact ⟨[], _, _, .rest _, .failed hpage, rfl⟩
  | case2 asked start boundary lines streams hpage room e htake =>
    exact ⟨[], _, _, .rest _, .unreadable hpage htake, rfl⟩
  | case3 asked start boundary lines streams hpage room taken htake hfilled =>
    exact ⟨[], _, _, .rest _, .filled hpage htake hfilled, rfl⟩
  | case4 asked start boundary lines streams hpage room taken htake hopen hcursor =>
    have hroom : taken.length < room := Nat.lt_of_not_le hopen
    exact ⟨[], _, _, .rest _, .exhausted hpage htake hroom hcursor, rfl⟩
  | case5 asked start boundary lines streams hpage room taken htake hopen cursor hcursor start'
      result starts hnext ih =>
    obtain ⟨turns, last, result', hpasses, hends, hrun⟩ := ih
    rw [hnext] at hrun
    obtain ⟨rfl, rfl⟩ := Prod.mk.inj hrun
    have hroom : taken.length < room := Nat.lt_of_not_le hopen
    exact ⟨_ :: turns, last, result, .go (.on hpage htake hroom hcursor) hpasses, hends, rfl⟩

theorem Leads.exists_entries (h : Leads limits pages t t') :
    ∃ streams entries cursor, pages t.asked t.start = .ok streams ∧
      List.Forall₂ Arrival.Reads (streams.flatMap Stream.arrivals) entries ∧
      cursor? limits.pageLimit streams = some cursor ∧
      t' = ⟨t.asked + 1, nextStart t.start cursor,
        boundaryAt (nextStart t.start cursor) (fresh t.start t.boundary entries),
        t.lines ++ fresh t.start t.boundary entries⟩ := by
  cases h with
  | @on streams taken cursor hpage htake hopen hcursor =>
    obtain ⟨read, entries, -, hreads, rfl, hall, -⟩ := exists_reads_of_take htake
    rw [hall hopen] at hreads
    exact ⟨streams, entries, cursor, hpage, hreads, hcursor, rfl⟩

theorem Ends.exists_entries {lines : List Entry} (h : Ends limits pages t (.ok lines)) :
    ∃ streams read entries, pages t.asked t.start = .ok streams ∧
      read <+: streams.flatMap Stream.arrivals ∧ List.Forall₂ Arrival.Reads read entries ∧
      lines = t.lines ++ fresh t.start t.boundary entries ∧
      (lines.length < limits.maxLines → read = streams.flatMap Stream.arrivals) := by
  cases h with
  | @filled streams taken hpage htake hfilled =>
    obtain ⟨read, entries, hpart, hreads, rfl, -⟩ := exists_reads_of_take htake
    refine ⟨streams, read, entries, hpage, hpart, hreads, rfl, ?_⟩
    intro hroom
    rw [List.length_append] at hroom
    omega
  | @exhausted streams taken hpage htake hopen hcursor =>
    obtain ⟨read, entries, hpart, hreads, rfl, hall, -⟩ := exists_reads_of_take htake
    exact ⟨streams, read, entries, hpage, hpart, hreads, rfl, fun _ => hall hopen⟩

theorem lt_nextStart (start cursor : Int) : start < nextStart start cursor := by
  rw [nextStart]
  split
  · next h => exact h
  · omega

private theorem inInt64_of_reads {arrivals : List Arrival} {entries : List Entry}
    (h : List.Forall₂ Arrival.Reads arrivals entries) : ∀ e ∈ entries, Decimal.inInt64 e.time := by
  induction h with
  | nil => exact fun _ he => absurd he List.not_mem_nil
  | cons hread _ ih =>
    intro e he
    rcases List.mem_cons.1 he with rfl | he
    · exact inInt64_of_readTime hread.1
    · exact ih e he

theorem Passes.inInt64 {lines : List Entry} (h : Passes limits pages t turns last)
    (hends : Ends limits pages last (.ok lines)) (ht : ∀ e ∈ t.lines, Decimal.inInt64 e.time) :
    ∀ e ∈ lines, Decimal.inInt64 e.time := by
  have hlast : ∀ e ∈ last.lines, Decimal.inInt64 e.time := by
    refine h.keeps (P := fun t => ∀ e ∈ t.lines, Decimal.inInt64 e.time) ?_ ht
    intro t t' ht hleads e he
    obtain ⟨streams, entries, cursor, -, hreads, -, rfl⟩ := hleads.exists_entries
    rcases List.mem_append.1 he with he | he
    · exact ht e he
    · exact inInt64_of_reads hreads e ((fresh_sublist _ _ _).subset he)
  intro e he
  obtain ⟨streams, read, entries, -, -, hreads, rfl, -⟩ := hends.exists_entries
  rcases List.mem_append.1 he with he | he
  · exact hlast e he
  · exact inInt64_of_reads hreads e ((fresh_sublist _ _ _).subset he)

/-- What was taken of one entry before a turn: at the start time as often as the boundary holds it,
and past the start not at all. -/
structure Tallied (e : Entry) (t : Turn) : Prop where
  at_start : e.time = t.start → t.lines.count e = t.boundary.count e.key
  past : t.start < e.time → t.lines.count e = 0

theorem Tallied.first (e : Entry) : Tallied e .first := ⟨fun _ => rfl, fun _ => rfl⟩

theorem Tallied.count_append {e : Entry} (h : Tallied e t) {entries : List Entry}
    (hfrom : e ∈ entries → t.start ≤ e.time) :
    (t.lines ++ fresh t.start t.boundary entries).count e =
      max (t.lines.count e) (entries.count e) := by
  rw [List.count_append, count_fresh]
  by_cases hbefore : e.time < t.start
  · have hnone : entries.count e = 0 := by
      rw [List.count_eq_zero]
      intro he
      have := hfrom he
      omega
    split <;> omega
  · by_cases hat : e.time = t.start
    · have hboundary := h.at_start hat
      rw [if_pos hat]
      omega
    · have hnone := h.past (by omega)
      rw [if_neg hat]
      omega

theorem Tallied.next {e : Entry} (h : Tallied e t) {entries : List Entry} {cursor : Int}
    (hpast : e ∈ entries → e.time ≤ nextStart t.start cursor) :
    Tallied e ⟨t.asked + 1, nextStart t.start cursor,
      boundaryAt (nextStart t.start cursor) (fresh t.start t.boundary entries),
      t.lines ++ fresh t.start t.boundary entries⟩ := by
  have hmoves := lt_nextStart t.start cursor
  constructor
  · intro (hat : e.time = nextStart t.start cursor)
    have hnone := h.past (by omega)
    rw [List.count_append, hnone, Nat.zero_add, count_boundaryAt _ _ hat]
  · intro (hlater : nextStart t.start cursor < e.time)
    have hnone := h.past (by omega)
    have hfresh : (fresh t.start t.boundary entries).count e = 0 := by
      rw [List.count_eq_zero]
      intro he
      have := hpast ((fresh_sublist _ _ _).subset he)
      omega
    rw [List.count_append, hnone, hfresh]

theorem exists_full_of_cursor? {pageLimit : Nat} {streams : List Stream} {cursor : Int}
    (h : cursor? pageLimit streams = some cursor) :
    ∃ full ∈ streams, pageLimit ≤ full.entries.length ∧
      ∃ entry, full.entries.getLast? = some entry ∧ readTime entry.1 = .ok cursor := by
  obtain ⟨full, hfull, h⟩ := Option.bind_eq_some_iff.1 h
  obtain ⟨entry, hentry, h⟩ := Option.bind_eq_some_iff.1 h
  have hmem : full ∈ streams.filter (·.isFull pageLimit) := List.mem_of_getLast? hfull
  obtain ⟨hstream, hlength⟩ := List.mem_filter.1 hmem
  refine ⟨full, hstream, of_decide_eq_true hlength, entry, hentry, ?_⟩
  cases htime : readTime entry.1 with
  | error e =>
    rw [htime] at h
    cases h
  | ok time =>
    rw [htime] at h
    rw [Option.some.inj h]

private theorem pageLimit_le_arrivals {pageLimit : Nat} {streams : List Stream} {cursor : Int}
    (h : cursor? pageLimit streams = some cursor) :
    pageLimit ≤ (streams.flatMap Stream.arrivals).length := by
  obtain ⟨full, hmem, hlength, -⟩ := exists_full_of_cursor? h
  have hsub : full.arrivals.length ≤ (streams.flatMap Stream.arrivals).length :=
    (List.sublist_flatten_of_mem (List.mem_map_of_mem hmem)).length_le
  have hsame : full.arrivals.length = full.entries.length := List.length_map _
  omega

/-- What a listing has taken before a turn is more than the pages that led to it could do without:
every two pages in a row give a page's worth of lines, and of an odd one out what it passes over has
been given already. -/
structure Paid (limits : Limits) (t : Turn) : Prop where
  room : t.lines.length < limits.maxLines
  paid : (t.asked + 1) / 2 * limits.pageLimit +
    (if t.asked % 2 = 0 then t.boundary.length else 0) ≤ t.lines.length

theorem Paid.first (limits : Limits) : Paid limits .first :=
  ⟨limits.maxLines_pos, by simp [Turn.first]⟩

/-- A page that leads on has what fills it from itself or from the page before. -/
theorem Paid.step (ht : Paid limits t) (h : Leads limits pages t t') : Paid limits t' := by
  obtain ⟨hroom, hpaid⟩ := ht
  cases h with
  | @on streams taken cursor hpage htake hopen hcursor =>
    obtain ⟨read, entries, -, hreads, htaken, hall, -⟩ := exists_reads_of_take htake
    have hfull := pageLimit_le_arrivals hcursor
    rw [← hall hopen, hreads.length_eq] at hfull
    have hfresh := length_le_fresh t.start t.boundary entries
    rw [← htaken] at hfresh
    have hboundary : (boundaryAt (nextStart t.start cursor) taken).length ≤ taken.length := by
      rw [boundaryAt, List.length_map]
      exact List.length_filter_le _ _
    constructor
    · simp only [List.length_append]
      omega
    · simp only [List.length_append]
      by_cases heven : t.asked % 2 = 0
      · have hodd : ¬ (t.asked + 1) % 2 = 0 := by omega
        have hhalf : (t.asked + 1 + 1) / 2 = (t.asked + 1) / 2 + 1 := by omega
        rw [if_pos heven] at hpaid
        rw [hhalf, if_neg hodd, Nat.add_mul, Nat.one_mul]
        omega
      · have heven' : (t.asked + 1) % 2 = 0 := by omega
        have hhalf : (t.asked + 1 + 1) / 2 = (t.asked + 1) / 2 := by omega
        rw [if_neg heven] at hpaid
        rw [hhalf, if_pos heven']
        omega

private theorem Paid.asked_le (h : Paid limits t) :
    t.asked ≤ 2 * ((limits.maxLines - 1) / limits.pageLimit) := by
  obtain ⟨hroom, hpaid⟩ := h
  have hhalf : (t.asked + 1) / 2 ≤ (limits.maxLines - 1) / limits.pageLimit := by
    rw [Nat.le_div_iff_mul_le limits.pageLimit_pos]
    omega
  omega

theorem Passes.asked_eq (h : Passes limits pages t turns last) :
    last.asked = t.asked + turns.length := by
  induction h with
  | rest => rfl
  | go hleads _ ih =>
    cases hleads
    rw [ih, List.length_cons]
    simp only
    omega

theorem Passes.length_le (h : Passes limits pages .first turns last) :
    turns.length ≤ 2 * ((limits.maxLines - 1) / limits.pageLimit) := by
  have hlast : Paid limits last := h.keeps (fun _ _ => Paid.step) (Paid.first limits)
  have hasked := h.asked_eq
  have hbound := hlast.asked_le
  simp only [Turn.first] at hasked
  omega

private theorem Passes.ascends (h : Passes limits pages t turns last) :
    (t.start :: turns.map (·.start)).Pairwise (· < ·) := by
  rw [← List.isChain_iff_pairwise]
  induction h with
  | rest t => exact .singleton _
  | go hleads _ ih =>
    cases hleads
    exact List.IsChain.cons_cons (lt_nextStart _ _) ih

private theorem run_of_taken {streams : List Stream} {taken : List Entry}
    (hpage : pages t.asked t.start = .ok streams)
    (htake : take t.start (limits.maxLines - t.lines.length) t.boundary
      (streams.flatMap Stream.arrivals) = .ok taken) :
    run limits pages t.asked t.start t.boundary t.lines =
      if limits.maxLines - t.lines.length ≤ taken.length then (.ok (t.lines ++ taken), [t.start])
      else
        (cursor? limits.pageLimit streams).elim (.ok (t.lines ++ taken), [t.start]) fun cursor =>
          let start := nextStart t.start cursor
          let rest := run limits pages (t.asked + 1) start (boundaryAt start taken)
            (t.lines ++ taken)
          (rest.1, t.start :: rest.2) := by
  rw [run, hpage]
  simp only
  split
  · next hstuck => cases htake.symm.trans hstuck
  · next hsame =>
    obtain rfl := Except.ok.inj (htake.symm.trans hsame)
    split
    · rfl
    · split
      · next hcursor => rw [hcursor]; rfl
      · next hcursor => rw [hcursor]; rfl

private theorem run_of_ends (h : Ends limits pages t result) :
    run limits pages t.asked t.start t.boundary t.lines = (result, [t.start]) := by
  cases h with
  | failed hpage => rw [run, hpage]
  | unreadable hpage htake =>
    rw [run, hpage]
    simp only
    split
    · next hstuck => rw [← Except.error.inj (hstuck.symm.trans htake)]
    · next hread => cases htake.symm.trans hread
  | filled hpage htake hfilled => rw [run_of_taken hpage htake, if_pos hfilled]
  | exhausted hpage htake hopen hcursor =>
    rw [run_of_taken hpage htake, if_neg (Nat.not_le.2 hopen), hcursor, Option.elim_none]

private theorem run_of_leads (h : Leads limits pages t t') :
    run limits pages t.asked t.start t.boundary t.lines =
      ((run limits pages t'.asked t'.start t'.boundary t'.lines).1,
        t.start :: (run limits pages t'.asked t'.start t'.boundary t'.lines).2) := by
  cases h with
  | on hpage htake hopen hcursor =>
    rw [run_of_taken hpage htake, if_neg (Nat.not_le.2 hopen), hcursor, Option.elim_some]

private theorem run_of_passes (h : Passes limits pages t turns last)
    (hends : Ends limits pages last result) :
    run limits pages t.asked t.start t.boundary t.lines =
      (result, t.start :: turns.map (·.start)) := by
  induction h with
  | rest => exact run_of_ends hends
  | go hleads _ ih => rw [run_of_leads hleads, ih hends, List.map_cons]

theorem leads_or_ends (limits : Limits) (pages : Nat → Int → Except Error (List Stream))
    (t : Turn) : (∃ t', Leads limits pages t t') ∨ ∃ result, Ends limits pages t result := by
  obtain ⟨turns, last, result, hpasses, hends, -⟩ :=
    exists_passes limits pages t.asked t.start t.boundary t.lines
  cases hpasses with
  | rest => exact .inr ⟨result, hends⟩
  | go hleads _ => exact .inl ⟨_, hleads⟩

theorem Leads.not_ends (h : Leads limits pages t t') : ¬ Ends limits pages t result := by
  intro hends
  -- a last turn asks for one page, and one that leads on for another page after its own
  obtain ⟨_, _, _, -, -, hrun⟩ := exists_passes limits pages t'.asked t'.start t'.boundary t'.lines
  have hsame := congrArg Prod.snd ((run_of_leads h).symm.trans (run_of_ends hends))
  rw [hrun] at hsame
  cases hsame

private theorem Passes.asked_le (h : Passes limits pages t turns last) : t.asked ≤ last.asked := by
  rw [h.asked_eq]
  exact Nat.le_add_right _ _

theorem Passes.congr (h : Passes limits pages t turns last)
    (hpages : ∀ k < last.asked, pages k = pages' k) : Passes limits pages' t turns last := by
  induction h with
  | rest t => exact .rest t
  | go hleads hrest ih =>
    refine .go ?_ (ih hpages)
    cases hleads with
    | on hpage htake hopen hcursor =>
      rw [hpages _ hrest.asked_le] at hpage
      exact .on hpage htake hopen hcursor

theorem Ends.congr (h : Ends limits pages t result) (hpages : pages t.asked = pages' t.asked) :
    Ends limits pages' t result := by
  cases h with
  | failed hpage => exact .failed (hpages ▸ hpage)
  | unreadable hpage htake => exact .unreadable (hpages ▸ hpage) htake
  | filled hpage htake hfilled => exact .filled (hpages ▸ hpage) htake hfilled
  | exhausted hpage htake hopen hcursor => exact .exhausted (hpages ▸ hpage) htake hopen hcursor

end Paging

theorem exists_turns_of_list (limits : Limits) (backend : Nat → Int → Exchange) :
    ∃ turns last result,
      Paging.Passes limits (fun k start => (backend k start).page) .first turns last ∧
        Paging.Ends limits (fun k start => (backend k start).page) last result ∧
        (list limits backend).result = result.map Output.ofEntries ∧
        (list limits backend).starts = 0 :: turns.map (·.start) := by
  obtain ⟨turns, last, result, hpasses, hends, hrun⟩ :=
    Paging.exists_passes limits (fun k start => (backend k start).page) 0 0 [] []
  exact ⟨turns, last, result, hpasses, hends,
    congrArg (fun r => r.1.map Output.ofEntries) hrun, congrArg Prod.snd hrun⟩

theorem list_of_passes {limits : Limits} {backend : Nat → Int → Exchange}
    {turns : List Paging.Turn} {last : Paging.Turn} {result : Except Error (List Entry)}
    (h : Paging.Passes limits (fun k start => (backend k start).page) .first turns last)
    (hends : Paging.Ends limits (fun k start => (backend k start).page) last result) :
    list limits backend = ⟨result.map Output.ofEntries, 0 :: turns.map (·.start)⟩ :=
  congrArg (fun r : Except Error (List Entry) × List Int =>
    (⟨r.1.map Output.ofEntries, r.2⟩ : Listing)) (Paging.run_of_passes h hends)

/-- Whatever a backend answers, a listing comes to a last page: no turns follow one another for
longer than the cap on its lines allows, and the start times of the pages ascend from zero. -/
theorem list_ends_within_cap (limits : Limits) (backend : Nat → Int → Exchange) :
    let pages := fun k start => (backend k start).page
    let bound := 2 * ((limits.maxLines - 1) / limits.pageLimit)
    (∀ turns last, Paging.Passes limits pages .first turns last → turns.length ≤ bound) ∧
      ∃ turns last result, Paging.Passes limits pages .first turns last ∧
        Paging.Ends limits pages last result ∧
        (list limits backend).result = result.map Output.ofEntries ∧
        (list limits backend).starts = 0 :: turns.map (·.start) ∧
        (list limits backend).starts.Pairwise (· < ·) ∧
        (list limits backend).starts.length ≤ bound + 1 := by
  intro pages bound
  have hbound : ∀ turns last, Paging.Passes limits pages .first turns last →
      turns.length ≤ bound := fun turns last h => h.length_le
  refine ⟨hbound, ?_⟩
  obtain ⟨turns, last, result, hpasses, hends, hresult, hstarts⟩ :=
    exists_turns_of_list limits backend
  refine ⟨turns, last, result, hpasses, hends, hresult, hstarts, ?_, ?_⟩
  · rw [hstarts]
    exact hpasses.ascends
  · rw [hstarts, List.length_cons, List.length_map]
    have := hbound turns last hpasses
    omega

end RunLedger.Logs
