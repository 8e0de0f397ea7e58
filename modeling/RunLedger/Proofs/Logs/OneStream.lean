import Mathlib.Data.List.Forall2
import RunLedger.Proofs.Logs.PerTime

/-!
Listing a backend that holds one stream, which may grow while it is listed. Between two pages all
lines before the start have been taken that can be kept, and of the lines at the start those that the
boundary holds. Main statement: a listing is the stream itself, up to the cap, with no more lines of
one time than a page holds.
-/

set_option autoImplicit false

namespace RunLedger.Logs

def entryOf (source : Source) (l : Stamped) : Entry := ⟨source, l.1, l.2⟩

/-- What has been taken before a page is asked for: all that is kept of the times before its start,
and as many lines at the start as the boundary holds. -/
structure Collected (limit : Nat) (source : Source) (contents : List Stamped) (start : Int)
    (boundary : Paging.Boundary) (lines : List Entry) : Prop where
  settled : ∀ t, 0 ≤ t → t < start → IsSettled limit contents t
  taken : ∃ again : List Stamped,
    again <+: contents.filter (·.1 = start) ∧ again.length ≤ limit ∧
      boundary = again.map (fun l => (source, l.2)) ∧
      lines = (keepPerTime limit (contents.filter (·.1 < start)) ++ again).map (entryOf source)

theorem Collected.initial {limit : Nat} {source : Source} {contents : List Stamped}
    (hnonneg : ∀ l ∈ contents, 0 ≤ l.1) : Collected limit source contents 0 [] [] := by
  refine ⟨fun t h h' => by omega, [], by simp, by simp, rfl, ?_⟩
  have hnone : contents.filter (·.1 < 0) = [] := by
    rw [List.filter_eq_nil_iff]
    intro l hl
    have := hnonneg l hl
    simp only [decide_eq_true_eq]
    omega
  rw [hnone]
  rfl

theorem Collected.grow {limit : Nat} {source : Source} {contents contents' : List Stamped}
    {start : Int} {boundary : Paging.Boundary} {lines : List Entry}
    (h : Collected limit source contents start boundary lines)
    (hgrows : contents <+: contents') (hsorted : contents'.Pairwise (·.1 ≤ ·.1))
    (hnonneg : ∀ l ∈ contents', 0 ≤ l.1) :
    Collected limit source contents' start boundary lines := by
  obtain ⟨again, hagain, hlimit, hboundary, hlines⟩ := h.taken
  refine ⟨?_, again, hagain.trans (hgrows.filter _), hlimit, hboundary, ?_⟩
  · intro t h0 ht
    rcases h.settled t h0 ht with ⟨l, hl, hlt⟩ | hfull
    · exact .inl ⟨l, hgrows.subset hl, hlt⟩
    · exact .inr (Nat.le_trans hfull ((hgrows.map Prod.fst).sublist.count_le t))
  · rw [keepPerTime_before_of_grows hgrows hsorted hnonneg h.settled]
    exact hlines

/-- A page taken apart when it arrives: first the lines at its start that have been taken with all
that is kept of the times before, then fresh ones. -/
structure Split (limit : Nat) (source : Source) (contents : List Stamped) (start : Int)
    (lines : List Entry) (again fresh : List Stamped) : Prop where
  page : pageOf limit contents start = again ++ fresh
  again_at : ∀ l ∈ again, l.1 = start
  taken : lines = (keepPerTime limit (contents.filter (·.1 < start)) ++ again).map (entryOf source)

section Page

variable {limit : Nat} {source : Source} {contents again fresh : List Stamped} {start : Int}
  {boundary : Paging.Boundary} {lines : List Entry} {last : Stamped}

private theorem Collected.exists_split (h : Collected limit source contents start boundary lines)
    (hsorted : contents.Pairwise (·.1 ≤ ·.1)) :
    ∃ again fresh : List Stamped, Split limit source contents start lines again fresh ∧
      boundary = again.map (fun l => (source, l.2)) := by
  obtain ⟨again, hagain, hlimit, hboundary, hlines⟩ := h.taken
  have hpage : again <+: pageOf limit contents start := by
    rw [pageOf, List.prefix_take_iff]
    exact ⟨hagain.trans (filter_eq_prefix_filter_le hsorted start), hlimit⟩
  obtain ⟨fresh, hfresh⟩ := hpage
  refine ⟨again, fresh, ⟨hfresh.symm, ?_, hlines⟩, hboundary⟩
  intro l hl
  simpa using (List.mem_filter.1 (hagain.subset hl)).2

private theorem boundaryAt_map_entryOf (source : Source) (start : Int) (lines : List Stamped) :
    Paging.boundaryAt start (lines.map (entryOf source)) =
      (lines.filter (·.1 = start)).map (fun l => (source, l.2)) := by
  rw [Paging.boundaryAt, List.filter_map, List.map_map]
  rfl

private theorem Split.append_fresh (h : Split limit source contents start lines again fresh) :
    lines ++ fresh.map (entryOf source) =
      (keepPerTime limit (contents.filter (·.1 < start)) ++ pageOf limit contents start).map
        (entryOf source) := by
  rw [h.taken, h.page, ← List.map_append, List.append_assoc]

private theorem Split.next_of_lt (h : Split limit source contents start lines again fresh)
    (hsorted : contents.Pairwise (·.1 ≤ ·.1))
    (hlast : (pageOf limit contents start).getLast? = some last) (hmoves : start < last.1) :
    Collected limit source contents last.1
      (Paging.boundaryAt last.1 (fresh.map (entryOf source)))
      (lines ++ fresh.map (entryOf source)) := by
  have hmem : last ∈ pageOf limit contents start := List.mem_of_getLast? hlast
  have hcontents : last ∈ contents := (List.mem_filter.1 (List.mem_of_mem_take hmem)).1
  have hboundary : (pageOf limit contents start).filter (·.1 = last.1) =
      fresh.filter (·.1 = last.1) := by
    have hnone : again.filter (·.1 = last.1) = [] := by
      rw [List.filter_eq_nil_iff]
      intro l hl
      have := h.again_at l hl
      simp only [decide_eq_true_eq]
      omega
    rw [h.page, List.filter_append, hnone, List.nil_append]
  rw [boundaryAt_map_entryOf, h.append_fresh]
  refine ⟨fun t _ ht => .inl ⟨last, hcontents, ht⟩, fresh.filter (·.1 = last.1), ?_, ?_, rfl, ?_⟩
  · have hat : (contents.filter (start ≤ ·.1)).filter (·.1 = last.1) =
        contents.filter (·.1 = last.1) :=
      filter_filter_of_iff contents fun l => by omega
    rw [← hboundary, ← hat]
    exact (List.take_prefix _ _).filter _
  · rw [← hboundary]
    exact Nat.le_trans (List.length_filter_le _ _) (List.length_take_le _ _)
  · have hpageSorted : (pageOf limit contents start).Pairwise (·.1 ≤ ·.1) :=
      (hsorted.filter _).sublist (List.take_sublist _ _)
    have hend : (pageOf limit contents start).filter (last.1 ≤ ·.1) =
        fresh.filter (·.1 = last.1) := by
      rw [← hboundary]
      apply List.filter_congr
      intro l hl
      have := le_last_of_mem_page hsorted hlast hl
      rw [decide_eq_decide]
      omega
    rw [keepPerTime_before_cursor hsorted hlast (Int.le_refl _) (Int.le_of_lt hmoves),
      List.append_assoc, ← hend, filter_lt_append_filter_le hpageSorted]

private theorem Split.next_of_same (h : Split limit source contents start lines again fresh)
    (hsorted : contents.Pairwise (·.1 ≤ ·.1))
    (hsettled : ∀ t, 0 ≤ t → t < start → IsSettled limit contents t)
    (hfull : (pageOf limit contents start).length = limit)
    (hsame : ∀ l ∈ pageOf limit contents start, l.1 = start) :
    Collected limit source contents (start + 1)
      (Paging.boundaryAt (start + 1) (fresh.map (entryOf source)))
      (lines ++ fresh.map (entryOf source)) := by
  have hnone : fresh.filter (·.1 = start + 1) = [] := by
    rw [List.filter_eq_nil_iff]
    intro l hl
    have := hsame l (by rw [h.page]; exact List.mem_append_right _ hl)
    simp only [decide_eq_true_eq]
    omega
  rw [boundaryAt_map_entryOf, h.append_fresh, hnone]
  refine ⟨?_, [], List.nil_prefix, Nat.zero_le _, rfl, ?_⟩
  · intro t h0 ht
    by_cases hbefore : t < start
    · exact hsettled t h0 hbefore
    · have ht : t = start := by omega
      right
      have hcount : ((pageOf limit contents start).map Prod.fst).count t = limit := by
        rw [List.count_eq_length.2, List.length_map, hfull]
        intro b hb
        obtain ⟨l, hl, rfl⟩ := List.mem_map.1 hb
        rw [ht, hsame l hl]
      rw [← hcount]
      exact (((List.take_sublist _ _).trans List.filter_sublist).map _).count_le t
  · rw [List.append_nil, keepPerTime_past_page hsorted hfull hsame]

/-- A full page leads to the next: the start moves to the last time of the page, or past a time that
fills the page alone. -/
theorem Collected.next (h : Collected limit source contents start boundary lines)
    (hsplit : Split limit source contents start lines again fresh)
    (hsorted : contents.Pairwise (·.1 ≤ ·.1))
    (hfull : (pageOf limit contents start).length = limit)
    (hlast : (pageOf limit contents start).getLast? = some last) :
    Collected limit source contents (Paging.nextStart start last.1)
      (Paging.boundaryAt (Paging.nextStart start last.1) (fresh.map (entryOf source)))
      (lines ++ fresh.map (entryOf source)) := by
  by_cases hmoves : start < last.1
  · have hnext : Paging.nextStart start last.1 = last.1 := if_pos hmoves
    rw [hnext]
    exact hsplit.next_of_lt hsorted hlast hmoves
  · have hnext : Paging.nextStart start last.1 = start + 1 := if_neg hmoves
    rw [hnext]
    apply hsplit.next_of_same hsorted h.settled hfull
    intro l hl
    have := le_last_of_mem_page hsorted hlast hl
    have := start_le_of_mem_page hl
    omega

end Page

/-- Whether entries of a page show lines. -/
def Shows (entries : List (String × String)) (lines : List Stamped) : Prop :=
  List.Forall₂ (fun e l => readTime e.1 = .ok l.1 ∧ e.2 = l.2) entries lines

/-- Whether a page is an answer with lines of one stream. No stream at all will do for no lines. -/
def IsAnswer (source : Source) (lines : List Stamped) (page : List Stream) : Prop :=
  (∃ entries, page = [⟨source, entries⟩] ∧ Shows entries lines) ∨ (page = [] ∧ lines = [])

theorem IsAnswer.reads {source : Source} {lines : List Stamped} {page : List Stream}
    (h : IsAnswer source lines page) :
    List.Forall₂ Arrival.Reads (page.flatMap Stream.arrivals) (lines.map (entryOf source)) := by
  rcases h with ⟨entries, rfl, hshows⟩ | ⟨rfl, rfl⟩
  · simp only [List.flatMap_cons, List.flatMap_nil, List.append_nil, Stream.arrivals,
      List.forall₂_map_left_iff, List.forall₂_map_right_iff]
    exact hshows.imp fun e l hel => ⟨hel.1, rfl, hel.2⟩
  · simp

theorem Shows.getLast?_eq {entries : List (String × String)} {lines : List Stamped}
    (h : Shows entries lines) :
    (entries.getLast?.bind fun e => (readTime e.1).toOption) = lines.getLast?.map Prod.fst := by
  rw [← List.head?_reverse, ← List.head?_reverse]
  have hreverse : Shows entries.reverse lines.reverse := List.forall₂_reverse_iff.2 h
  generalize entries.reverse = es, lines.reverse = ls at hreverse
  cases hreverse with
  | nil => rfl
  | cons hread _ => simp [hread.1, Except.toOption]

theorem IsAnswer.cursor?_eq {source : Source} {lines : List Stamped} {page : List Stream}
    (h : IsAnswer source lines page) (limit : Nat) :
    Paging.cursor? limit page =
      if limit ≤ lines.length then lines.getLast?.map Prod.fst else none := by
  rcases h with ⟨entries, rfl, hshows⟩ | ⟨rfl, rfl⟩
  · have hlength := hshows.length_eq
    by_cases hfull : limit ≤ lines.length
    · rw [if_pos hfull, ← hshows.getLast?_eq]
      simp [Paging.cursor?, Stream.isFull, hlength, hfull, bind]
    · simp [Paging.cursor?, Stream.isFull, hlength, hfull, bind]
  · simp [Paging.cursor?, bind]

private theorem IsAnswer.of_cursor {source : Source} {contents : List Stamped} {page : List Stream}
    {limit : Nat} {start cursor : Int} (h : IsAnswer source (pageOf limit contents start) page)
    (hcursor : Paging.cursor? limit page = some cursor) :
    ∃ last, (pageOf limit contents start).length = limit ∧
      (pageOf limit contents start).getLast? = some last ∧ last.1 = cursor := by
  rw [h.cursor?_eq] at hcursor
  split at hcursor
  · next hfull =>
    obtain ⟨last, hlast, htime⟩ := Option.map_eq_some_iff.1 hcursor
    exact ⟨last, Nat.le_antisymm (List.length_take_le _ _) hfull, hlast, htime⟩
  · cases hcursor

private theorem reads_keys {source : Source} {arrivals : List Arrival} {lines : List Stamped}
    (h : List.Forall₂ Arrival.Reads arrivals (lines.map (entryOf source))) :
    arrivals.map Arrival.key = lines.map (fun l => (source, l.2)) := by
  rw [List.forall₂_map_right_iff] at h
  induction h with
  | nil => rfl
  | cons hread _ ih =>
    obtain ⟨_, hsource, htext⟩ := hread
    rw [List.map_cons, List.map_cons, ih, Arrival.key, hsource, htext]
    rfl

private theorem reads_times {source : Source} {arrivals : List Arrival} {lines : List Stamped}
    {t : Int} (h : List.Forall₂ Arrival.Reads arrivals (lines.map (entryOf source)))
    (ht : ∀ l ∈ lines, l.1 = t) : ∀ a ∈ arrivals, readTime a.timestamp = .ok t := by
  rw [List.forall₂_map_right_iff] at h
  induction h with
  | nil => simp
  | @cons a l _ _ hread _ ih =>
    intro b hb
    rcases List.mem_cons.1 hb with rfl | hb
    · rw [hread.1, ← ht l (by simp)]
      rfl
    · exact ih (fun m hm => ht m (by simp [hm])) b hb

/-- The contents of one stream at each request. They only grow at their end, are ordered by time,
and their times are those of a signed word from 0 on but for the largest. -/
structure History where
  contents : Nat → List Stamped
  grows : ∀ k, contents k <+: contents (k + 1)
  sorted : ∀ k, (contents k).Pairwise (·.1 ≤ ·.1)
  inRange : ∀ k, ∀ l ∈ contents k, 0 ≤ l.1 ∧ l.1 < 0x7FFFFFFFFFFFFFFF

/-- Whether pages answer requests out of a history, each with the contents of its moment. -/
def IsServed (limit : Nat) (source : Source) (h : History)
    (pages : Nat → Int → Except Error (List Stream)) : Prop :=
  ∀ k start, ∃ page, pages k start = .ok page ∧
    IsAnswer source (pageOf limit (h.contents k) start) page

/-- The contents that the last of some requests was answered with, when others went before. -/
def History.last (h : History) (asked : Nat) (starts : List Int) : List Stamped :=
  h.contents (asked + starts.length - 1)

private theorem Collected.take_eq {limit : Nat} {source : Source} {contents : List Stamped}
    {start : Int} {boundary : Paging.Boundary} {lines : List Entry} {page : List Stream}
    (h : Collected limit source contents start boundary lines)
    (hsorted : contents.Pairwise (·.1 ≤ ·.1))
    (hanswer : IsAnswer source (pageOf limit contents start) page) :
    ∃ again fresh : List Stamped, Split limit source contents start lines again fresh ∧
      ∀ room, 0 < room → Paging.take start room boundary (page.flatMap Stream.arrivals) =
        .ok ((fresh.map (entryOf source)).take room) := by
  obtain ⟨again, fresh, hsplit, hboundary⟩ := h.exists_split hsorted
  refine ⟨again, fresh, hsplit, ?_⟩
  intro room hroom
  have hreads := hanswer.reads
  rw [hsplit.page, List.map_append] at hreads
  have hrepeated := List.forall₂_take_append _ _ _ hreads
  have harrived := List.forall₂_drop_append _ _ _ hreads
  rw [← List.take_append_drop (again.map (entryOf source)).length (page.flatMap Stream.arrivals),
    hboundary, ← reads_keys hrepeated, Paging.take_repeated (reads_times hrepeated hsplit.again_at)]
  exact Paging.take_fresh harrived hroom

private theorem eq_of_take {α : Type} {taken xs : List α} {room : Nat} (h : taken = xs.take room)
    (hroom : taken.length < room) : taken = xs := by
  rw [h, List.length_take] at hroom
  rw [h, List.take_of_length_le (by omega)]

section Run

variable {limits : Limits} {source : Source} {h : History}
  {pages : Nat → Int → Except Error (List Stream)} {asked : Nat} {start : Int}
  {boundary : Paging.Boundary} {lines taken : List Entry} {page : List Stream}

private theorem taken_of_served (hserved : IsServed limits.pageLimit source h pages)
    (hpage : pages asked start = .ok page)
    (hcollected : Collected limits.pageLimit source (h.contents asked) start boundary lines)
    (hroom : lines.length < limits.maxLines) :
    IsAnswer source (pageOf limits.pageLimit (h.contents asked) start) page ∧
      ∃ again fresh : List Stamped,
        Split limits.pageLimit source (h.contents asked) start lines again fresh ∧
        Paging.take start (limits.maxLines - lines.length) boundary
          (page.flatMap Stream.arrivals) =
            .ok ((fresh.map (entryOf source)).take (limits.maxLines - lines.length)) := by
  obtain ⟨page', hpage', hanswer⟩ := hserved asked start
  obtain rfl : page = page' := by simpa [hpage] using hpage'
  obtain ⟨again, fresh, hsplit, htake⟩ := hcollected.take_eq (h.sorted asked) hanswer
  exact ⟨hanswer, again, fresh, hsplit, htake _ (by omega)⟩

private theorem take_of_filled {contents again fresh : List Stamped}
    (hsplit : Split limits.pageLimit source contents start lines again fresh)
    (hsorted : contents.Pairwise (·.1 ≤ ·.1)) (hroom : lines.length < limits.maxLines)
    (hfilled : limits.maxLines - lines.length ≤ fresh.length) :
    lines ++ (fresh.map (entryOf source)).take (limits.maxLines - lines.length) =
      ((keepPerTime limits.pageLimit contents).take limits.maxLines).map (entryOf source) := by
  have hpart := (before_append_page_isPrefix limits.pageLimit hsorted start).map (entryOf source)
  rw [← hsplit.append_fresh] at hpart
  obtain ⟨rest, hrest⟩ := hpart
  rw [List.map_take, ← hrest, List.take_append_of_le_length, List.take_append,
    List.take_of_length_le (Nat.le_of_lt hroom)]
  rw [List.length_append, List.length_map]
  omega

private theorem append_of_short {contents again fresh : List Stamped}
    (hsplit : Split limits.pageLimit source contents start lines again fresh)
    (hsorted : contents.Pairwise (·.1 ≤ ·.1))
    (hanswer : IsAnswer source (pageOf limits.pageLimit contents start) page)
    (hcursor : Paging.cursor? limits.pageLimit page = none) :
    lines ++ fresh.map (entryOf source) =
      (keepPerTime limits.pageLimit contents).map (entryOf source) := by
  have hshort : (pageOf limits.pageLimit contents start).length < limits.pageLimit := by
    have hpos := limits.pageLimit_pos
    rw [hanswer.cursor?_eq] at hcursor
    by_contra hfull
    rw [if_pos (by omega), Option.map_eq_none_iff, List.getLast?_eq_none_iff] at hcursor
    rw [hcursor, List.length_nil] at hfull
    omega
  rw [hsplit.append_fresh, before_append_page_eq hsorted hshort]

end Run

/-- Paging on from what has been collected gives what is kept of the contents. -/
private theorem run_of_collected {limits : Limits} {source : Source} {h : History}
    {pages : Nat → Int → Except Error (List Stream)}
    (hserved : IsServed limits.pageLimit source h pages) (asked : Nat) (start : Int)
    (boundary : Paging.Boundary) (lines : List Entry)
    (hcollected : Collected limits.pageLimit source (h.contents asked) start boundary lines)
    (hroom : lines.length < limits.maxLines) :
    (Paging.run limits pages asked start boundary lines).1 =
      .ok (((keepPerTime limits.pageLimit
        (h.last asked (Paging.run limits pages asked start boundary lines).2)).take
          limits.maxLines).map (entryOf source)) := by
  fun_induction Paging.run limits pages asked start boundary lines with
  | case1 asked start boundary lines e herror =>
    obtain ⟨page, hpage, _⟩ := hserved asked start
    simp [hpage] at herror
  | case2 asked start boundary lines page hpage room e herror =>
    obtain ⟨_, _, _, _, htake⟩ := taken_of_served hserved hpage hcollected hroom
    rw [htake] at herror
    cases herror
  | case3 asked start boundary lines page hpage room taken htaken hfilled =>
    obtain ⟨_, again, fresh, hsplit, htake⟩ := taken_of_served hserved hpage hcollected hroom
    obtain rfl : taken = (fresh.map (entryOf source)).take room :=
      Except.ok.inj (htaken.symm.trans htake)
    simp only [List.length_take, List.length_map] at hfilled
    simp only [History.last, List.length_singleton, Nat.add_sub_cancel]
    rw [take_of_filled hsplit (h.sorted asked) hroom (by omega)]
  | case4 asked start boundary lines page hpage room taken htaken hopen hcursor =>
    obtain ⟨hanswer, again, fresh, hsplit, htake⟩ := taken_of_served hserved hpage hcollected hroom
    have hall : taken = fresh.map (entryOf source) :=
      eq_of_take (Except.ok.inj (htaken.symm.trans htake)) (by omega)
    have hkept := append_of_short hsplit (h.sorted asked) hanswer hcursor
    have hlength : (keepPerTime limits.pageLimit (h.contents asked)).length ≤ limits.maxLines := by
      have := congrArg List.length hkept
      rw [← hall, List.length_append, List.length_map] at this
      omega
    simp only [History.last, List.length_singleton, Nat.add_sub_cancel]
    rw [hall, hkept, List.take_of_length_le hlength]
  | case5 asked start boundary lines page hpage room taken htaken hopen cursor hcursor start' result
      starts hnext ih =>
    obtain ⟨hanswer, again, fresh, hsplit, htake⟩ := taken_of_served hserved hpage hcollected hroom
    have hall : taken = fresh.map (entryOf source) :=
      eq_of_take (Except.ok.inj (htaken.symm.trans htake)) (by omega)
    obtain ⟨last, hfull, hlast, rfl⟩ := hanswer.of_cursor hcursor
    have hcollected' := (hcollected.next hsplit (h.sorted asked) hfull hlast).grow
      (h.grows asked) (h.sorted (asked + 1)) (fun l hl => (h.inRange (asked + 1) l hl).1)
    rw [← hall] at hcollected'
    have hroom' : (lines ++ taken).length < limits.maxLines := by
      rw [List.length_append]
      omega
    have hresult := ih hcollected' hroom'
    rw [hnext] at hresult
    have hsame : h.last asked (start :: starts) = h.last (asked + 1) starts := by
      rw [History.last, History.last, List.length_cons]
      congr 1
      omega
    rw [hresult, hsame]

def Output.side (o : Output) : Source → List Line
  | .stdout => o.stdout
  | .stderr => o.stderr

theorem side_ofEntries (entries : List Entry) (source : Source) :
    (Output.ofEntries entries).side source =
      (entries.filter (·.source = source)).map Entry.toLine := by
  cases source <;> rfl

def Line.stamped (l : Line) : Stamped := (l.time.seconds * 1000000000 + l.time.nanos, l.text)

theorem toLine_entryOf_stamped {source : Source} {l : Stamped} (h : Decimal.inInt64 l.1) :
    (entryOf source l).toLine.stamped = l := by
  have hrange : Time.InRange (l.1 / 1000000000) (l.1 % 1000000000).toNat := by
    simp only [Decimal.inInt64] at h
    simp only [Time.InRange, Time.firstSecond, Time.lastSecond, Time.second]
    omega
  have hinstant : Time.Instant.ofNanos? l.1 = some ⟨_, _, hrange⟩ := dif_pos hrange
  rw [Entry.toLine, entryOf, hinstant]
  apply Prod.ext
  · simp only [Line.stamped, Option.getD_some]
    omega
  · rfl

private theorem side_ofEntries_self {source : Source} {lines : List Stamped}
    (h : ∀ l ∈ lines, Decimal.inInt64 l.1) :
    ((Output.ofEntries (lines.map (entryOf source))).side source).map Line.stamped = lines := by
  have hside : (Output.ofEntries (lines.map (entryOf source))).side source =
      lines.map fun l => (entryOf source l).toLine := by
    rw [side_ofEntries, List.filter_map, List.map_map]
    simp [entryOf, Function.comp_def]
  rw [hside, List.map_map]
  conv_rhs => rw [← List.map_id lines]
  exact List.map_congr_left fun l hl => toLine_entryOf_stamped (h l hl)

private theorem side_ofEntries_other {source other : Source} (hother : other ≠ source)
    (lines : List Stamped) :
    (Output.ofEntries (lines.map (entryOf source))).side other = [] := by
  rw [side_ofEntries, List.filter_map]
  simp [entryOf, Function.comp_def, hother.symm]

/-- Listing one stream gives the stream as it was at the last request, up to the cap, with no more
lines of one time than a page holds; where no time has more, nothing is lost, repeated or put in
another order. -/
theorem list_one_stream {limits : Limits} {source : Source} {h : History}
    {backend : Nat → Int → Exchange}
    (hserved : IsServed limits.pageLimit source h fun k start => (backend k start).page) :
    let contents := h.last 0 (list limits backend).starts
    ∃ output, (list limits backend).result = .ok output ∧
      (∀ other, other ≠ source → output.side other = []) ∧
      (output.side source).map Line.stamped =
        (keepPerTime limits.pageLimit contents).take limits.maxLines ∧
      ((∀ t, (contents.map Prod.fst).count t ≤ limits.pageLimit) →
        (output.side source).map Line.stamped = contents.take limits.maxLines) := by
  intro contents
  have hrun := run_of_collected hserved 0 0 [] []
    (Collected.initial fun l hl => (h.inRange 0 l hl).1) limits.maxLines_pos
  have hkept : ∀ l ∈ (keepPerTime limits.pageLimit contents).take limits.maxLines,
      Decimal.inInt64 l.1 := by
    intro l hl
    have := h.inRange _ l ((keepAfter_sublist _ _ _).subset (List.mem_of_mem_take hl))
    simp only [Decimal.inInt64]
    omega
  have hside := @side_ofEntries_self source _ hkept
  refine ⟨_, congrArg (Except.map Output.ofEntries) hrun, ?_, hside, ?_⟩
  · intro other hother
    exact side_ofEntries_other hother _
  · intro hfew
    have hself : keepPerTime limits.pageLimit contents = contents :=
      keepAfter_eq_self fun t _ => by simpa using hfew t
    rw [← hself]
    exact hside

/-- Two lines of one time, to which a third of that time and a later line are appended. -/
def appendedLines : History where
  contents k := if k = 0 then [(5, "p"), (5, "p")] else [(5, "p"), (5, "p"), (5, "r"), (6, "s")]
  grows k := by
    rcases k with _ | k
    · exact ⟨[(5, "r"), (6, "s")], rfl⟩
    · exact ⟨[], rfl⟩
  sorted k := by split <;> decide
  inRange k := by split <;> decide

def bodyOf (result : String) : List UInt8 :=
  Text.Utf8.encode ("\x7b\"data\":\x7b\"resultType\":\"streams\",\"result\":" ++ result ++ "\x7d\x7d")

def appendedBackend (k : Nat) (start : Int) : Exchange :=
  .answered 200 <|
    if start ≤ 5 then bodyOf "[\x7b\"values\":[[\"5\",\"p\"],[\"5\",\"p\"]]\x7d]"
    else if k ≠ 0 ∧ start ≤ 6 then bodyOf "[\x7b\"stream\":\x7b\x7d,\"values\":[[\"+6\",\"s\"]]\x7d]"
    else bodyOf "[]"

private theorem appendedBackend_isServed :
    IsServed 2 .stdout appendedLines fun k start => (appendedBackend k start).page := by
  intro k start
  by_cases hfirst : start ≤ 5
  · refine ⟨[⟨.stdout, [("5", "p"), ("5", "p")]⟩], ?_, .inl ⟨_, rfl, ?_⟩⟩
    · simp only [appendedBackend]
      rw [if_pos hfirst]
      rfl
    · have hpage : pageOf 2 (appendedLines.contents k) start = [(5, "p"), (5, "p")] := by
        rcases k with _ | k <;> simp [pageOf, appendedLines, hfirst]
      rw [hpage]
      exact .cons ⟨rfl, rfl⟩ (.cons ⟨rfl, rfl⟩ .nil)
  · by_cases hsecond : k ≠ 0 ∧ start ≤ 6
    · refine ⟨[⟨.stdout, [("+6", "s")]⟩], ?_, .inl ⟨_, rfl, ?_⟩⟩
      · simp only [appendedBackend]
        rw [if_neg hfirst, if_pos hsecond]
        rfl
      · have hpage : pageOf 2 (appendedLines.contents k) start = [(6, "s")] := by
          simp [pageOf, appendedLines, hfirst, hsecond.1, hsecond.2]
        rw [hpage]
        exact .cons ⟨rfl, rfl⟩ .nil
    · refine ⟨[], ?_, .inr ⟨rfl, ?_⟩⟩
      · simp only [appendedBackend]
        rw [if_neg hfirst, if_neg hsecond]
        rfl
      · rcases k with _ | k
        · simp [pageOf, appendedLines, hfirst]
        · have : ¬ start ≤ 6 := by simpa using hsecond
          simp [pageOf, appendedLines, hfirst, this]

theorem list_appended_lines :
    let limits : Limits := ⟨2, 10, by decide, by decide⟩
    let contents := appendedLines.last 0 (list limits appendedBackend).starts
    IsServed 2 .stdout appendedLines (fun k start => (appendedBackend k start).page) ∧
      ∃ output, (list limits appendedBackend).result = .ok output ∧
        (∀ other, other ≠ .stdout → output.side other = []) ∧
        (output.side .stdout).map Line.stamped = (keepPerTime 2 contents).take 10 ∧
        ((∀ t, (contents.map Prod.fst).count t ≤ 2) →
          (output.side .stdout).map Line.stamped = contents.take 10) :=
  ⟨appendedBackend_isServed,
    @list_one_stream ⟨2, 10, by decide, by decide⟩ _ _ _ appendedBackend_isServed⟩

end RunLedger.Logs
