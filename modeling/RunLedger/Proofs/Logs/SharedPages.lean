import Mathlib.Data.List.Nodup
import Mathlib.Data.List.Perm.Subperm
import RunLedger.Proofs.Logs.SeveralStreams

/-!
Listing a backend whose page limit holds for all streams together. A page is divided by streams, and
only a stream that fills the page by itself leads to the next one; a page that several streams fill
ends the listing. Main statement: a listing has every line before its last start and the page from
there on, so that lines are lost exactly when more than a page is held from the last start on.
-/

set_option autoImplicit false

namespace RunLedger.Logs

/-- Lines of several streams in the order of their times, each with the stream that it stands in. -/
structure Merged where
  streams : List Nat
  source : Nat → Source
  lines : List (Nat × Stamped)
  nodup : streams.Nodup
  covered : ∀ l ∈ lines, l.1 ∈ streams
  sorted : lines.Pairwise fun l m => l.2.1 ≤ m.2.1
  inRange : ∀ l ∈ lines, 0 ≤ l.2.1 ∧ l.2.1 < 0x7FFFFFFFFFFFFFFF

namespace Merged

variable (m : Merged) (limit : Nat)

/-- A line as an entry. -/
def entry (l : Nat × Stamped) : Entry := entryOf (m.source l.1) l.2

def entries : List Entry := m.lines.map m.entry

def since (start : Int) : List (Nat × Stamped) := m.lines.filter (start ≤ ·.2.1)

/-- The first lines from a time on, over all streams. -/
def shown (start : Int) : List (Nat × Stamped) := (m.since start).take limit

/-- The lines before a time and the first lines from there on. -/
def reached (start : Int) : List (Nat × Stamped) :=
  m.lines.filter (·.2.1 < start) ++ m.shown limit start

def divided (lines : List (Nat × Stamped)) : Holding :=
  m.streams.map fun i => (m.source i, (lines.filter (·.1 = i)).map Prod.snd)

/-- Whether every request is answered with a page's worth of lines, divided by streams. -/
def IsServedTogether (pages : Nat → Int → Except Error (List Stream)) : Prop :=
  ∀ k start, ∃ page, pages k start = .ok page ∧
    ShowsStreams page (m.divided (m.shown limit start))

/-- Whether one stream has a page's worth of lines among those that are shown. -/
def IsFilledByOne (start : Int) : Prop :=
  ∃ i, limit ≤ ((m.shown limit start).filter (·.1 = i)).length

end Merged

private theorem flatMap_filter_perm {streams : List Nat} (hnodup : streams.Nodup)
    {lines : List (Nat × Stamped)} (hcovered : ∀ l ∈ lines, l.1 ∈ streams) :
    (streams.flatMap fun i => lines.filter (·.1 = i)).Perm lines := by
  induction streams generalizing lines with
  | nil =>
    obtain rfl : lines = [] := List.eq_nil_iff_forall_not_mem.2 fun l hl => by
      simpa using hcovered l hl
    exact .refl _
  | cons i streams ih =>
    obtain ⟨hfirst, hrest⟩ := List.nodup_cons.1 hnodup
    have hothers : (streams.flatMap fun j => lines.filter (·.1 = j)) =
        streams.flatMap fun j => (lines.filter fun l => !decide (l.1 = i)).filter (·.1 = j) := by
      refine List.flatMap_congr fun j hj => ?_
      rw [List.filter_filter]
      refine List.filter_congr fun l _ => ?_
      have hne : l.1 = j → l.1 ≠ i := by
        rintro hlj hli
        exact hfirst (hli ▸ hlj ▸ hj)
      by_cases hlj : l.1 = j
      · simp [hlj, hlj ▸ hne hlj]
      · simp [hlj]
    have hcovered' : ∀ l ∈ lines.filter fun l => !decide (l.1 = i), l.1 ∈ streams := by
      intro l hl
      obtain ⟨hl, hne⟩ := List.mem_filter.1 hl
      rcases List.mem_cons.1 (hcovered l hl) with h | h
      · simp [h] at hne
      · exact h
    rw [List.flatMap_cons, hothers]
    exact ((ih hrest hcovered').append_left _).trans (List.filter_append_perm _ lines)

namespace Merged

section Page

variable {m : Merged} {limit : Nat} {start start' : Int} {e : Entry}

private theorem entries_divided_perm {lines : List (Nat × Stamped)}
    (hcovered : ∀ l ∈ lines, l.1 ∈ m.streams) :
    (m.divided lines).entries.Perm (lines.map m.entry) := by
  have hentries : (m.divided lines).entries =
      (m.streams.flatMap fun i => lines.filter (·.1 = i)).map m.entry := by
    rw [divided, Holding.entries, List.flatMap_map, List.map_flatMap]
    refine List.flatMap_congr fun i _ => ?_
    rw [List.map_map]
    refine List.map_congr_left fun l hl => ?_
    have hi : l.1 = i := of_decide_eq_true (List.mem_filter.1 hl).2
    rw [Function.comp_apply, entry, hi]
  rw [hentries]
  exact (flatMap_filter_perm m.nodup hcovered).map _

private theorem shown_sublist (m : Merged) (limit : Nat) (start : Int) :
    (m.shown limit start).Sublist m.lines :=
  (List.take_sublist _ _).trans List.filter_sublist

private theorem shown_map_snd (m : Merged) (limit : Nat) (start : Int) :
    (m.shown limit start).map Prod.snd = pageOf limit (m.lines.map Prod.snd) start := by
  rw [shown, since, pageOf, List.filter_map, List.map_take]
  rfl

private theorem start_le_of_mem_shown {l : Nat × Stamped} (hl : l ∈ m.shown limit start) :
    start ≤ l.2.1 := by
  have hpage := List.mem_map_of_mem (f := Prod.snd) hl
  rw [shown_map_snd] at hpage
  exact start_le_of_mem_page hpage

private theorem le_last_of_mem_shown {l last : Nat × Stamped} (hl : l ∈ m.shown limit start)
    (hlast : (m.shown limit start).getLast? = some last) : l.2.1 ≤ last.2.1 := by
  have hpage := List.mem_map_of_mem (f := Prod.snd) hl
  have hend := congrArg (Option.map Prod.snd) hlast
  rw [← List.getLast?_map, shown_map_snd] at hend
  rw [shown_map_snd] at hpage
  exact le_last_of_mem_page (List.pairwise_map.2 m.sorted) hend hpage

private theorem shown_filter_isPrefix (hle : start ≤ start') :
    (m.shown limit start).filter (start' ≤ ·.2.1) <+: m.shown limit start' := by
  have hsince : (m.since start).filter (start' ≤ ·.2.1) = m.since start' := by
    rw [since, since, List.filter_filter]
    refine List.filter_congr fun l _ => ?_
    by_cases hl : start' ≤ l.2.1
    · have : start ≤ l.2.1 := by omega
      simp [hl, this]
    · simp [hl]
  rw [shown, shown, List.prefix_take_iff]
  constructor
  · rw [← hsince]
    exact (List.take_prefix _ _).filter _
  · exact Nat.le_trans (List.length_filter_le _ _) (List.length_take_le _ _)

private theorem count_map_filter {lines : List (Nat × Stamped)} (h : start ≤ e.time) :
    ((lines.filter (start ≤ ·.2.1)).map m.entry).count e = (lines.map m.entry).count e := by
  have hfilter : (lines.filter (start ≤ ·.2.1)).map m.entry =
      (lines.map m.entry).filter (start ≤ ·.time) := by
    rw [List.filter_map]
    rfl
  rw [hfilter]
  exact List.count_filter (by simpa using h)

private theorem count_shown (hstart : start ≤ e.time)
    (hbehind : ∀ l ∈ (m.since start).drop limit, l.2.1 ≠ e.time) :
    ((m.shown limit start).map m.entry).count e = m.entries.count e := by
  have hnone : (((m.since start).drop limit).map m.entry).count e = 0 := by
    rw [List.count_eq_zero]
    intro he
    obtain ⟨l, hl, rfl⟩ := List.mem_map.1 he
    exact hbehind l hl rfl
  have hsince : m.entries.count e = ((m.since start).map m.entry).count e :=
    (count_map_filter hstart).symm
  rw [hsince, ← List.take_append_drop limit (m.since start), List.map_append, List.count_append,
    hnone]
  rfl

private theorem count_shown_of_lt {last : Nat × Stamped} (hstart : start ≤ e.time)
    (hlast : last ∈ m.shown limit start) (hlt : e.time < last.2.1) :
    ((m.shown limit start).map m.entry).count e = m.entries.count e := by
  refine count_shown hstart fun l hl => ?_
  have hsorted : (m.since start).Pairwise fun l m => l.2.1 ≤ m.2.1 := m.sorted.filter _
  rw [← List.take_append_drop limit (m.since start), List.pairwise_append] at hsorted
  have := hsorted.2.2 last hlast l hl
  omega

private theorem count_shown_of_same (hfew : ∀ t, (m.lines.map (·.2.1)).count t ≤ limit)
    (hfull : (m.shown limit start).length = limit)
    (hsame : ∀ l ∈ m.shown limit start, l.2.1 = start) (he : e.time = start) :
    ((m.shown limit start).map m.entry).count e = m.entries.count e := by
  refine count_shown (Int.le_of_eq he.symm) fun l hl htime => ?_
  have hshown : ((m.shown limit start).map (·.2.1)).count start = limit := by
    rw [List.count_eq_length.2, List.length_map, hfull]
    intro t ht
    obtain ⟨l, hl, rfl⟩ := List.mem_map.1 ht
    exact (hsame l hl).symm
  have hbehind : 0 < (((m.since start).drop limit).map (·.2.1)).count start :=
    List.count_pos_iff.2 (List.mem_map.2 ⟨l, hl, htime.trans he⟩)
  have hheld : ((m.since start).map (·.2.1)).count start ≤ limit :=
    Nat.le_trans ((List.filter_sublist.map _).count_le start) (hfew start)
  rw [← List.take_append_drop limit (m.since start), List.map_append, List.count_append,
    ← shown, hshown] at hheld
  omega

private theorem start_le_of_mem_map_shown (he : e ∈ (m.shown limit start).map m.entry) :
    start ≤ e.time := by
  obtain ⟨l, hl, rfl⟩ := List.mem_map.1 he
  exact start_le_of_mem_shown hl

private theorem count_shown_of_before (hbefore : e.time < start) :
    ((m.shown limit start).map m.entry).count e = 0 := by
  rw [List.count_eq_zero]
  intro he
  have := start_le_of_mem_map_shown he
  omega

private theorem count_reached (m : Merged) (limit : Nat) (start : Int) (e : Entry) :
    ((m.reached limit start).map m.entry).count e =
      if e.time < start then m.entries.count e
      else ((m.shown limit start).map m.entry).count e := by
  have hpast : (m.lines.filter (·.2.1 < start)).map m.entry =
      m.entries.filter (·.time < start) := by
    rw [entries, List.filter_map]
    rfl
  rw [reached, List.map_append, List.count_append, hpast]
  split
  · next hbefore =>
    rw [count_shown_of_before hbefore, Nat.add_zero]
    exact List.count_filter (by simpa using hbefore)
  · next hfrom =>
    have hnone : (m.entries.filter (·.time < start)).count e = 0 := by
      rw [List.count_eq_zero]
      intro he
      exact hfrom (of_decide_eq_true (List.mem_filter.1 he).2)
    rw [hnone, Nat.zero_add]

private theorem shown_of_filled {i : Nat}
    (h : limit ≤ ((m.shown limit start).filter (·.1 = i)).length) :
    (m.shown limit start).filter (·.1 = i) = m.shown limit start ∧
      (m.shown limit start).length = limit := by
  have hlength : (m.shown limit start).length ≤ limit := List.length_take_le _ _
  have hall : (m.shown limit start).filter (·.1 = i) = m.shown limit start :=
    List.filter_sublist.eq_of_length_le (by omega)
  rw [hall] at h
  exact ⟨hall, by omega⟩

/-- A page has a cursor exactly when one stream fills it, and then it is the time of the last
line. -/
theorem cursor?_eq (hlimit : 0 < limit) {page : List Stream}
    (hpage : ShowsStreams page (m.divided (m.shown limit start))) :
    (Paging.cursor? limit page = none ∧ ¬ m.IsFilledByOne limit start) ∨
      (m.IsFilledByOne limit start ∧ (m.shown limit start).length = limit ∧
        ∃ last, (m.shown limit start).getLast? = some last ∧
          Paging.cursor? limit page = some last.2.1) := by
  rcases hpage.cursor?_eq hlimit with ⟨hnone, hshort⟩ | ⟨s, hs, hfull, l, hl, hcursor⟩
  · refine .inl ⟨hnone, ?_⟩
    rintro ⟨i, hi⟩
    have hmem : i ∈ m.streams := by
      obtain ⟨l, hl⟩ := List.exists_mem_of_length_pos (Nat.lt_of_lt_of_le hlimit hi)
      obtain ⟨hl, hli⟩ := List.mem_filter.1 hl
      exact of_decide_eq_true hli ▸ m.covered l ((m.shown_sublist limit start).subset hl)
    have := hshort _ (List.mem_map_of_mem hmem)
    rw [List.length_map] at this
    omega
  · obtain ⟨i, -, rfl⟩ := List.mem_map.1 hs
    rw [List.length_map] at hfull
    obtain ⟨hall, hlength⟩ := shown_of_filled hfull
    simp only [hall, List.getLast?_map] at hl
    obtain ⟨last, hlast, rfl⟩ := Option.map_eq_some_iff.1 hl
    exact .inr ⟨⟨i, hfull⟩, hlength, last, hlast, hcursor⟩

end Page

/-- What was taken of one entry before a turn: every copy that is held before the start, and at the
start no more than the next page shows. -/
structure Covers (m : Merged) (limit : Nat) (e : Entry) (t : Paging.Turn) : Prop where
  tallied : Paging.Tallied e t
  before : e.time < t.start → t.lines.count e = m.entries.count e
  at_start : e.time = t.start → t.lines.count e ≤ ((m.shown limit t.start).map m.entry).count e

section Turns

variable {m : Merged} {limit : Nat} {t : Paging.Turn} {e : Entry} {entries : List Entry}

theorem Covers.first (m : Merged) (limit : Nat) (e : Entry) : m.Covers limit e .first := by
  refine ⟨.first e, ?_, fun _ => Nat.zero_le _⟩
  intro (hbefore : e.time < 0)
  refine (List.count_eq_zero.2 fun he => ?_).symm
  obtain ⟨l, hl, rfl⟩ := List.mem_map.1 he
  exact absurd (m.inRange l hl).1 (Int.not_le.2 hbefore)

theorem Covers.count_append (h : m.Covers limit e t)
    (hperm : entries.Perm ((m.shown limit t.start).map m.entry)) :
    (t.lines ++ Paging.fresh t.start t.boundary entries).count e =
      ((m.reached limit t.start).map m.entry).count e := by
  have hfrom : e ∈ entries → t.start ≤ e.time :=
    fun he => start_le_of_mem_map_shown (hperm.mem_iff.1 he)
  rw [h.tallied.count_append hfrom, hperm.count_eq e, count_reached]
  split
  · next hbefore =>
    rw [count_shown_of_before hbefore, h.before hbefore, Nat.max_zero]
  · next hfrom =>
    have htaken : t.lines.count e ≤ ((m.shown limit t.start).map m.entry).count e := by
      by_cases hat : e.time = t.start
      · exact h.at_start hat
      · rw [h.tallied.past (by omega)]
        exact Nat.zero_le _
    exact Nat.max_eq_right htaken

private theorem Covers.count_append_le (h : m.Covers limit e t)
    (hperm : entries.Perm ((m.shown limit t.start).map m.entry)) :
    (t.lines ++ Paging.fresh t.start t.boundary entries).count e ≤ m.entries.count e := by
  rw [h.count_append hperm, count_reached]
  split
  · exact Nat.le_refl _
  · exact ((m.shown_sublist limit t.start).map m.entry).count_le e

/-- A page that one stream fills takes what is held before the next start, when no time has more
lines than a page. -/
theorem Covers.next (h : m.Covers limit e t)
    (hfew : ∀ t, (m.lines.map (·.2.1)).count t ≤ limit)
    (hperm : entries.Perm ((m.shown limit t.start).map m.entry))
    (hfull : (m.shown limit t.start).length = limit) {last : Nat × Stamped}
    (hlast : (m.shown limit t.start).getLast? = some last) :
    m.Covers limit e ⟨t.asked + 1, Paging.nextStart t.start last.2.1,
      Paging.boundaryAt (Paging.nextStart t.start last.2.1)
        (Paging.fresh t.start t.boundary entries),
      t.lines ++ Paging.fresh t.start t.boundary entries⟩ := by
  have hmoves := Paging.lt_nextStart t.start last.2.1
  have hreaches : last.2.1 ≤ Paging.nextStart t.start last.2.1 := by
    rw [Paging.nextStart]
    split <;> omega
  constructor
  · refine h.tallied.next fun he => ?_
    obtain ⟨l, hl, rfl⟩ := List.mem_map.1 (hperm.mem_iff.1 he)
    exact Int.le_trans (le_last_of_mem_shown hl hlast) hreaches
  · intro (hbefore : e.time < Paging.nextStart t.start last.2.1)
    rw [h.count_append hperm, count_reached]
    split
    · rfl
    · next hfrom =>
      by_cases hlt : e.time < last.2.1
      · exact count_shown_of_lt (by omega) (List.mem_of_getLast? hlast) hlt
      · -- the start moved by one only, so the lines of one time fill the page
        have hstays : ¬ t.start < last.2.1 := by
          intro hlt'
          rw [Paging.nextStart, if_pos hlt'] at hbefore
          omega
        rw [Paging.nextStart, if_neg hstays] at hbefore
        refine count_shown_of_same hfew hfull (fun l hl => ?_) (by omega)
        have := start_le_of_mem_shown hl
        have := le_last_of_mem_shown hl hlast
        omega
  · intro (hat : e.time = Paging.nextStart t.start last.2.1)
    rw [h.count_append hperm, count_reached, if_neg (by omega),
      ← count_map_filter (Int.le_of_eq hat.symm)]
    exact ((shown_filter_isPrefix (Int.le_of_lt hmoves)).map m.entry).sublist.count_le e

end Turns

section Served

variable {m : Merged} {limits : Limits} {pages : Nat → Int → Except Error (List Stream)}
  {t t' last : Paging.Turn} {turns : List Paging.Turn}

private theorem IsServedTogether.exists_page (hserved : m.IsServedTogether limits.pageLimit pages)
    (k : Nat) (start : Int) :
    ∃ page entries, pages k start = .ok page ∧
      List.Forall₂ Arrival.Reads (page.flatMap Stream.arrivals) entries ∧
      entries.Perm ((m.shown limits.pageLimit start).map m.entry) ∧
      ShowsStreams page (m.divided (m.shown limits.pageLimit start)) := by
  obtain ⟨page, hpage, hshows⟩ := hserved k start
  obtain ⟨entries, hreads, hperm⟩ := hshows.exists_reads
  refine ⟨page, entries, hpage, hreads, hperm.trans (entries_divided_perm fun l hl => ?_), hshows⟩
  exact m.covered l ((m.shown_sublist _ _).subset hl)

private theorem IsServedTogether.filled_of_leads
    (hserved : m.IsServedTogether limits.pageLimit pages)
    (hleads : Paging.Leads limits pages t t') : m.IsFilledByOne limits.pageLimit t.start := by
  obtain ⟨page, entries, hpage, -, -, hshows⟩ := hserved.exists_page t.asked t.start
  obtain ⟨streams, -, cursor, hpage', -, hcursor, -⟩ := hleads.exists_entries
  obtain rfl := Except.ok.inj (hpage.symm.trans hpage')
  rcases cursor?_eq limits.pageLimit_pos hshows with ⟨hnone, -⟩ | ⟨hfilled, -⟩
  · rw [hnone] at hcursor
    cases hcursor
  · exact hfilled

private theorem IsServedTogether.covers_of_leads
    (hserved : m.IsServedTogether limits.pageLimit pages)
    (hfew : ∀ t, (m.lines.map (·.2.1)).count t ≤ limits.pageLimit) {e : Entry}
    (h : m.Covers limits.pageLimit e t) (hleads : Paging.Leads limits pages t t') :
    m.Covers limits.pageLimit e t' := by
  obtain ⟨page, entries, hpage, hreads, hperm, hshows⟩ := hserved.exists_page t.asked t.start
  obtain ⟨streams, entries', cursor, hpage', hreads', hcursor, rfl⟩ := hleads.exists_entries
  obtain rfl := Except.ok.inj (hpage.symm.trans hpage')
  obtain rfl := reads_unique hreads hreads'
  rcases cursor?_eq limits.pageLimit_pos hshows with ⟨hnone, -⟩ | ⟨-, hfull, l, hlast, hsome⟩
  · rw [hnone] at hcursor
    cases hcursor
  · obtain rfl := Option.some.inj (hsome.symm.trans hcursor)
    exact h.next hfew hperm hfull hlast

private theorem IsServedTogether.filled_of_passes
    (hserved : m.IsServedTogether limits.pageLimit pages)
    (h : Paging.Passes limits pages t turns last) :
    ∃ starts, t.start :: turns.map (·.start) = starts ++ [last.start] ∧
      ∀ s ∈ starts, m.IsFilledByOne limits.pageLimit s := by
  induction h with
  | rest t => exact ⟨[], rfl, fun _ hs => absurd hs List.not_mem_nil⟩
  | @go t t' last turns hleads _ ih =>
    obtain ⟨starts, hstarts, hfilled⟩ := ih
    refine ⟨t.start :: starts, by rw [List.map_cons, hstarts, List.cons_append], ?_⟩
    intro s hs
    rcases List.mem_cons.1 hs with rfl | hs
    · exact hserved.filled_of_leads hleads
    · exact hfilled s hs

private theorem IsServedTogether.of_ends (hserved : m.IsServedTogether limits.pageLimit pages)
    (htotal : m.lines.length < limits.maxLines) (hcovers : ∀ e, m.Covers limits.pageLimit e t)
    {result : Except Error (List Entry)} (hends : Paging.Ends limits pages t result) :
    ∃ entries, entries.Perm ((m.shown limits.pageLimit t.start).map m.entry) ∧
      result = .ok (t.lines ++ Paging.fresh t.start t.boundary entries) ∧
      ¬ m.IsFilledByOne limits.pageLimit t.start := by
  obtain ⟨page, entries, hpage, hreads, hperm, hshows⟩ := hserved.exists_page t.asked t.start
  have hlength : (t.lines ++ Paging.fresh t.start t.boundary entries).length ≤ m.lines.length := by
    have hsub := List.subperm_iff_count.2 fun e => (hcovers e).count_append_le hperm
    rw [← List.length_map m.entry]
    exact hsub.length_le
  rw [List.length_append] at hlength
  have htake : Paging.take t.start (limits.maxLines - t.lines.length) t.boundary
      (page.flatMap Stream.arrivals) =
        .ok ((Paging.fresh t.start t.boundary entries).take (limits.maxLines - t.lines.length)) :=
    Paging.take_eq_fresh hreads (by omega)
  rw [List.take_of_length_le (by omega)] at htake
  refine ⟨entries, hperm, ?_⟩
  cases hends with
  | failed hfailed =>
    rw [hpage] at hfailed
    cases hfailed
  | unreadable hpage' hbroken =>
    obtain rfl := Except.ok.inj (hpage.symm.trans hpage')
    rw [htake] at hbroken
    cases hbroken
  | filled hpage' htake' hfilled =>
    obtain rfl := Except.ok.inj (hpage.symm.trans hpage')
    obtain rfl := Except.ok.inj (htake.symm.trans htake')
    omega
  | exhausted hpage' htake' _ hnone =>
    obtain rfl := Except.ok.inj (hpage.symm.trans hpage')
    obtain rfl := Except.ok.inj (htake.symm.trans htake')
    refine ⟨rfl, ?_⟩
    rcases cursor?_eq limits.pageLimit_pos hshows with ⟨-, hshared⟩ | ⟨-, -, l, -, hsome⟩
    · exact hshared
    · rw [hsome] at hnone
      cases hnone

end Served

private theorem count_reached_eq_iff (m : Merged) (limit : Nat) (start : Int) :
    (∀ e, ((m.reached limit start).map m.entry).count e = m.entries.count e) ↔
      (m.since start).length ≤ limit := by
  have hdivided : (m.lines.filter (·.2.1 < start) ++ m.since start).Perm m.lines := by
    have hnot : m.since start = m.lines.filter fun l => !decide (l.2.1 < start) := by
      refine List.filter_congr fun l _ => ?_
      by_cases hl : l.2.1 < start
      · simp [hl]
      · simp [hl, Int.not_lt.1 hl]
    rw [hnot]
    exact List.filter_append_perm _ _
  constructor
  · intro hall
    have hlength := (List.perm_iff_count.2 hall).length_eq
    rw [entries, List.length_map, List.length_map, ← hdivided.length_eq, reached,
      List.length_append, List.length_append, shown, List.length_take] at hlength
    omega
  · intro hshort e
    rw [reached, shown, List.take_of_length_le hshort]
    exact (hdivided.map m.entry).count_eq e

end Merged

/-- When the page limit holds for all streams together, a listing below its cap goes on as long as
one stream fills the page. It gives every line before its last start and the page from there on;
nothing is lost exactly when that page holds all that is left. -/
theorem list_shared_pages {limits : Limits} {m : Merged} {backend : Nat → Int → Exchange}
    (hserved : m.IsServedTogether limits.pageLimit fun k start => (backend k start).page)
    (hfew : ∀ t, (m.lines.map (·.2.1)).count t ≤ limits.pageLimit)
    (htotal : m.lines.length < limits.maxLines) :
    ∃ output starts last, (list limits backend).result = .ok output ∧
      (list limits backend).starts = starts ++ [last] ∧
      (∀ s ∈ starts, m.IsFilledByOne limits.pageLimit s) ∧
      ¬ m.IsFilledByOne limits.pageLimit last ∧
      (∀ e, output.copies e = ((m.reached limits.pageLimit last).map m.entry).count e) ∧
      ((∀ e, output.copies e = m.entries.count e) ↔ (m.since last).length ≤ limits.pageLimit) := by
  obtain ⟨turns, last, result, hpasses, hends, hresult, hasked⟩ :=
    exists_turns_of_list limits backend
  have hcovers : ∀ e, m.Covers limits.pageLimit e last := fun e =>
    hpasses.keeps (fun _ _ => hserved.covers_of_leads hfew) (.first m limits.pageLimit e)
  obtain ⟨entries, hperm, rfl, hshared⟩ := hserved.of_ends htotal hcovers hends
  obtain ⟨starts, hstarts, hfilled⟩ := hserved.filled_of_passes hpasses
  have hrange := hpasses.inInt64 hends fun _ he => absurd he List.not_mem_nil
  have hcopies : ∀ e, (Output.ofEntries (last.lines ++
      Paging.fresh last.start last.boundary entries)).copies e =
        ((m.reached limits.pageLimit last.start).map m.entry).count e := by
    intro e
    rw [copies_ofEntries hrange, (hcovers e).count_append hperm]
  refine ⟨_, starts, last.start, hresult, hasked.trans hstarts, hfilled, hshared, hcopies, ?_⟩
  simp only [hcopies]
  exact m.count_reached_eq_iff limits.pageLimit last.start

def inTurns : Merged where
  streams := [0, 1]
  source i := if i = 0 then .stdout else .stderr
  lines := [(0, 1, "a"), (1, 2, "b"), (0, 3, "c")]
  nodup := by decide
  covered := by decide
  sorted := by decide
  inRange := by decide

/-- A backend that holds these lines, with pages of two lines over both streams. -/
def inTurnsBackend (_ : Nat) (start : Int) : Exchange :=
  let a := streamText .stdout "[\"1\",\"a\"]"
  let b := streamText .stderr "[\"2\",\"b\"]"
  let c := streamText .stdout "[\"3\",\"c\"]"
  .answered 200 <|
    if start ≤ 1 then bodyOf ("[" ++ a ++ "," ++ b ++ "]")
    else if start ≤ 2 then bodyOf ("[" ++ b ++ "," ++ c ++ "]")
    else if start ≤ 3 then bodyOf ("[" ++ c ++ "]")
    else bodyOf "[]"

private theorem inTurnsBackend_isServed :
    inTurns.IsServedTogether 2 fun k start => (inTurnsBackend k start).page := by
  intro k start
  simp only [inTurnsBackend]
  by_cases hfirst : start ≤ 1
  · rw [if_pos hfirst]
    refine ⟨[⟨.stdout, [("1", "a")]⟩, ⟨.stderr, [("2", "b")]⟩], by decide +kernel, ?_⟩
    have hshown : inTurns.shown 2 start = [(0, 1, "a"), (1, 2, "b")] := by
      simp [Merged.shown, Merged.since, inTurns, hfirst, show start ≤ 2 by omega,
        show start ≤ 3 by omega]
    rw [hshown]
    exact ⟨[(.stdout, [(1, "a")]), (.stderr, [(2, "b")])], .refl _,
      .cons ⟨rfl, .cons ⟨rfl, rfl⟩ .nil⟩ (.cons ⟨rfl, .cons ⟨rfl, rfl⟩ .nil⟩ .nil)⟩
  rw [if_neg hfirst]
  by_cases hsecond : start ≤ 2
  · rw [if_pos hsecond]
    refine ⟨[⟨.stderr, [("2", "b")]⟩, ⟨.stdout, [("3", "c")]⟩], by decide +kernel, ?_⟩
    have hshown : inTurns.shown 2 start = [(1, 2, "b"), (0, 3, "c")] := by
      simp [Merged.shown, Merged.since, inTurns, hfirst, hsecond, show start ≤ 3 by omega]
    rw [hshown]
    exact ⟨[(.stderr, [(2, "b")]), (.stdout, [(3, "c")])], .swap _ _ _,
      .cons ⟨rfl, .cons ⟨rfl, rfl⟩ .nil⟩ (.cons ⟨rfl, .cons ⟨rfl, rfl⟩ .nil⟩ .nil)⟩
  rw [if_neg hsecond]
  by_cases hthird : start ≤ 3
  · rw [if_pos hthird]
    refine ⟨[⟨.stdout, [("3", "c")]⟩], by decide +kernel, ?_⟩
    have hshown : inTurns.shown 2 start = [(0, 3, "c")] := by
      simp [Merged.shown, Merged.since, inTurns, hfirst, hsecond, hthird]
    rw [hshown]
    exact ⟨[(.stdout, [(3, "c")])], .refl _, .cons ⟨rfl, .cons ⟨rfl, rfl⟩ .nil⟩ .nil⟩
  · rw [if_neg hthird]
    refine ⟨[], by decide +kernel, ?_⟩
    have hshown : inTurns.shown 2 start = [] := by
      simp [Merged.shown, Merged.since, inTurns, hfirst, hsecond, hthird]
    rw [hshown]
    exact ⟨[], .refl _, .nil⟩

private theorem inTurns_few (t : Int) : (inTurns.lines.map (·.2.1)).count t ≤ 2 := by
  have hnodup : (inTurns.lines.map (·.2.1)).Nodup := by decide
  exact Nat.le_trans (List.nodup_iff_count_le_one.1 hnodup t) (by decide)

theorem list_in_turns :
    let limits : Limits := ⟨2, 10, by decide, by decide⟩
    inTurns.IsServedTogether 2 (fun k start => (inTurnsBackend k start).page) ∧
      (∀ t, (inTurns.lines.map (·.2.1)).count t ≤ 2) ∧ inTurns.lines.length < 10 ∧
      ∃ output starts last, (list limits inTurnsBackend).result = .ok output ∧
        (list limits inTurnsBackend).starts = starts ++ [last] ∧
        (∀ s ∈ starts, inTurns.IsFilledByOne 2 s) ∧ ¬ inTurns.IsFilledByOne 2 last ∧
        (∀ e, output.copies e = ((inTurns.reached 2 last).map inTurns.entry).count e) ∧
        ((∀ e, output.copies e = inTurns.entries.count e) ↔ (inTurns.since last).length ≤ 2) :=
  ⟨inTurnsBackend_isServed, inTurns_few, by decide,
    @list_shared_pages ⟨2, 10, by decide, by decide⟩ _ _ inTurnsBackend_isServed inTurns_few
      (by decide)⟩

/-- Lines of several streams that share pages may be lost though no time has more than a page. -/
theorem shared_page_loses_line :
    ¬ ∀ (limits : Limits) (m : Merged) (backend : Nat → Int → Exchange),
      m.IsServedTogether limits.pageLimit (fun k start => (backend k start).page) →
      (∀ t, (m.lines.map (·.2.1)).count t ≤ limits.pageLimit) →
      m.lines.length < limits.maxLines →
      ∃ output, (list limits backend).result = .ok output ∧
        ∀ e, output.copies e = m.entries.count e := by
  intro hclaim
  obtain ⟨output, houtput, hcopies⟩ := hclaim ⟨2, 10, by decide, by decide⟩ inTurns inTurnsBackend
    inTurnsBackend_isServed inTurns_few (by decide)
  have hlisted : (list ⟨2, 10, by decide, by decide⟩ inTurnsBackend).result =
      .ok (.ofEntries [⟨.stdout, 1, "a"⟩, ⟨.stderr, 2, "b"⟩]) := by
    decide +kernel
  obtain rfl := Except.ok.inj (hlisted.symm.trans houtput)
  have hlost := hcopies ⟨.stdout, 3, "c"⟩
  revert hlost
  decide +kernel

end RunLedger.Logs
