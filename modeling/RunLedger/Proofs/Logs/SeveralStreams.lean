import RunLedger.Proofs.Logs.OneStream
import RunLedger.Proofs.Logs.Turns

/-!
Listing a backend that holds several streams and gives a page's worth of each. All streams share one
start and one boundary, and the boundary holds what was taken at the start alone: a line that a page
shows past the next start comes again. Main statement: a line comes more often than it is held only if
a page shows it and the next page starts before it, and a line that is held once comes twice whenever
that happens below the cap.
-/

set_option autoImplicit false

namespace RunLedger.Logs

private theorem mem_page_of_le {limit : Nat} {contents : List Stamped} {start start' : Int}
    {l : Stamped} (hl : l ∈ pageOf limit contents start) (hle : start ≤ start')
    (htime : start' ≤ l.1) :
    l ∈ pageOf limit contents start' := by
  rw [pageOf] at hl ⊢
  induction contents generalizing limit with
  | nil => simp at hl
  | cons m contents ih =>
    cases limit with
    | zero => simp at hl
    | succ limit =>
      rw [List.filter_cons] at hl ⊢
      by_cases hfrom' : start' ≤ m.1
      · have hfrom : start ≤ m.1 := by omega
        rw [if_pos (by simpa using hfrom), List.take_succ_cons, List.mem_cons] at hl
        rw [if_pos (by simpa using hfrom'), List.take_succ_cons, List.mem_cons]
        exact hl.imp_right ih
      · rw [if_neg (by simpa using hfrom')]
        by_cases hfrom : start ≤ m.1
        · rw [if_pos (by simpa using hfrom), List.take_succ_cons, List.mem_cons] at hl
          have hrest : l ∈ (contents.filter (start ≤ ·.1)).take limit := by
            rcases hl with rfl | hl
            · exact absurd htime hfrom'
            · exact hl
          have hmore : l ∈ (contents.filter (start ≤ ·.1)).take (limit + 1) :=
            (List.take_subset_take_left _ (Nat.le_succ limit)) hrest
          exact ih hmore
        · rw [if_neg (by simpa using hfrom)] at hl
          exact ih hl

/-- Streams as a backend holds them: where each was written to, and its lines. -/
abbrev Holding := List (Source × List Stamped)

namespace Holding

/-- Whether all lines are timed before the last nanosecond of a signed word, so that a page can
start one nanosecond after any of them. -/
def InRange (h : Holding) : Prop := ∀ s ∈ h, ∀ l ∈ s.2, l.1 < 0x7FFFFFFFFFFFFFFF

def entries (h : Holding) : List Entry := h.flatMap fun s => s.2.map (entryOf s.1)

/-- Of each stream as many lines as a page holds, from the start time on. -/
def pageFrom (limit : Nat) (h : Holding) (start : Int) : Holding :=
  h.map fun s => (s.1, pageOf limit s.2 start)

private theorem entries_cons (s : Source × List Stamped) (h : Holding) :
    entries (s :: h) = s.2.map (entryOf s.1) ++ entries h := rfl

private theorem entries_filter (h : Holding) : entries (h.filter (·.2 ≠ [])) = entries h := by
  induction h with
  | nil => rfl
  | cons s h ih =>
    by_cases hs : s.2 = []
    · have hnone : ¬ decide (s.2 ≠ []) = true := by simpa using hs
      rw [List.filter_cons, if_neg hnone, ih, entries_cons, hs]
      rfl
    · have hsome : decide (s.2 ≠ []) = true := by simpa using hs
      rw [List.filter_cons, if_pos hsome, entries_cons, entries_cons, ih]

private theorem entries_pageFrom_sublist (limit : Nat) (h : Holding) (start : Int) :
    (h.pageFrom limit start).entries.Sublist h.entries := by
  rw [pageFrom, entries, entries, List.flatMap_map]
  induction h with
  | nil => exact .slnil
  | cons s h ih =>
    rw [List.flatMap_cons, List.flatMap_cons]
    have hpage : (pageOf limit s.2 start).Sublist s.2 :=
      (List.take_sublist _ _).trans List.filter_sublist
    exact (hpage.map _).append ih

private theorem mem_entries {h : Holding} {e : Entry} :
    e ∈ h.entries ↔ ∃ s ∈ h, s.1 = e.source ∧ (e.time, e.text) ∈ s.2 := by
  rw [entries, List.mem_flatMap]
  constructor
  · rintro ⟨s, hs, he⟩
    obtain ⟨l, hl, rfl⟩ := List.mem_map.1 he
    exact ⟨s, hs, rfl, hl⟩
  · rintro ⟨s, hs, hsource, hl⟩
    refine ⟨s, hs, List.mem_map.2 ⟨_, hl, ?_⟩⟩
    rw [entryOf, hsource]

private theorem start_le_of_mem_pageFrom {limit : Nat} {h : Holding} {start : Int} {e : Entry}
    (he : e ∈ (h.pageFrom limit start).entries) : start ≤ e.time := by
  obtain ⟨s, hs, -, hl⟩ := mem_entries.1 he
  obtain ⟨s, -, rfl⟩ := List.mem_map.1 hs
  exact start_le_of_mem_page hl

private theorem mem_pageFrom_of_le {limit : Nat} {h : Holding} {start start' : Int} {e : Entry}
    (he : e ∈ (h.pageFrom limit start).entries) (hle : start ≤ start') (htime : start' ≤ e.time) :
    e ∈ (h.pageFrom limit start').entries := by
  obtain ⟨s, hs, hsource, hl⟩ := mem_entries.1 he
  obtain ⟨s, hmem, rfl⟩ := List.mem_map.1 hs
  exact mem_entries.2 ⟨_, List.mem_map.2 ⟨s, hmem, rfl⟩, hsource, mem_page_of_le hl hle htime⟩

end Holding

/-- Whether a page shows streams with their lines, in any order. A stream without lines is left
out. -/
def ShowsStreams (page : List Stream) (h : Holding) : Prop :=
  ∃ shown : Holding, shown.Perm (h.filter (·.2 ≠ [])) ∧
    List.Forall₂ (fun stream s => stream.source = s.1 ∧ Shows stream.entries s.2) page shown

theorem ShowsStreams.cursor?_eq {limit : Nat} (hlimit : 0 < limit) {page : List Stream}
    {h : Holding} (hpage : ShowsStreams page h) :
    (Paging.cursor? limit page = none ∧ ∀ s ∈ h, s.2.length < limit) ∨
      ∃ s ∈ h, limit ≤ s.2.length ∧
        ∃ l, s.2.getLast? = some l ∧ Paging.cursor? limit page = some l.1 := by
  obtain ⟨shown, hperm, hshows⟩ := hpage
  cases hlast : (page.filter (·.isFull limit)).getLast? with
  | none =>
    left
    constructor
    · rw [Paging.cursor?, hlast]
      rfl
    · intro s hs
      by_cases hnone : s.2 = []
      · rw [hnone]
        exact hlimit
      · have hsome : s ∈ shown :=
          hperm.mem_iff.2 (List.mem_filter.2 ⟨hs, decide_eq_true hnone⟩)
        obtain ⟨stream, hstream, -, hlines⟩ := exists_of_mem_forall₂ hshows.flip hsome
        have hshort := List.filter_eq_nil_iff.1 (List.getLast?_eq_none_iff.1 hlast) stream hstream
        rw [← hlines.length_eq]
        simpa [Stream.isFull] using hshort
  | some full =>
    right
    obtain ⟨hstream, hfull⟩ := List.mem_filter.1 (List.mem_of_getLast? hlast)
    obtain ⟨s, hs, -, hlines⟩ := exists_of_mem_forall₂ hshows hstream
    have hlength : limit ≤ s.2.length := by
      rw [← hlines.length_eq]
      exact of_decide_eq_true hfull
    refine ⟨s, (List.mem_filter.1 (hperm.mem_iff.1 hs)).1, hlength, ?_⟩
    cases hl : s.2.getLast? with
    | none =>
      rw [List.getLast?_eq_none_iff.1 hl, List.length_nil] at hlength
      omega
    | some l =>
      refine ⟨l, rfl, ?_⟩
      have hcursor : Paging.cursor? limit page =
          full.entries.getLast?.bind fun e => (readTime e.1).toOption := by
        rw [Paging.cursor?, hlast]
        rfl
      rw [hcursor, hlines.getLast?_eq, hl]
      rfl

/-- Whether every request is answered with a page's worth of each stream that has lines from its
start on. -/
def IsServedFromEach (limit : Nat) (h : Holding)
    (pages : Nat → Int → Except Error (List Stream)) : Prop :=
  ∀ k start, ∃ page, pages k start = .ok page ∧ ShowsStreams page (h.pageFrom limit start)

theorem reads_unique {arrivals : List Arrival} {entries entries' : List Entry}
    (h : List.Forall₂ Arrival.Reads arrivals entries)
    (h' : List.Forall₂ Arrival.Reads arrivals entries') : entries = entries' := by
  refine List.right_unique_forall₂' ?_ h h'
  rintro a ⟨s, t, x⟩ ⟨s', t', x'⟩ ⟨htime, hsource, htext⟩ ⟨htime', hsource', htext'⟩
  rw [Entry.mk.injEq]
  exact ⟨hsource.symm.trans hsource', Except.ok.inj (htime.symm.trans htime'),
    htext.symm.trans htext'⟩

theorem Shows.reads {stream : Stream} {source : Source} {lines : List Stamped}
    (hsource : stream.source = source) (h : Shows stream.entries lines) :
    List.Forall₂ Arrival.Reads stream.arrivals (lines.map (entryOf source)) := by
  rw [Stream.arrivals, List.forall₂_map_left_iff, List.forall₂_map_right_iff]
  exact h.imp fun e l hel => ⟨hel.1, hsource, hel.2⟩

private theorem reads_flatMap {page : List Stream} {shown : Holding}
    (h : List.Forall₂ (fun stream s => stream.source = s.1 ∧ Shows stream.entries s.2) page shown) :
    List.Forall₂ Arrival.Reads (page.flatMap Stream.arrivals) shown.entries := by
  induction h with
  | nil => exact .nil
  | cons hs _ ih =>
    rw [Holding.entries] at ih ⊢
    rw [List.flatMap_cons, List.flatMap_cons]
    exact List.rel_append (hs.2.reads hs.1) ih

theorem ShowsStreams.exists_reads {page : List Stream} {h : Holding} (hpage : ShowsStreams page h) :
    ∃ entries, List.Forall₂ Arrival.Reads (page.flatMap Stream.arrivals) entries ∧
      entries.Perm h.entries := by
  obtain ⟨shown, hperm, hshows⟩ := hpage
  refine ⟨shown.entries, reads_flatMap hshows, ?_⟩
  rw [← h.entries_filter]
  exact hperm.flatMap_right _

def Output.copies (o : Output) (e : Entry) : Nat :=
  ((o.side e.source).map Line.stamped).count (e.time, e.text)

theorem copies_ofEntries {entries : List Entry} (h : ∀ e ∈ entries, Decimal.inInt64 e.time)
    (e : Entry) : (Output.ofEntries entries).copies e = entries.count e := by
  rw [Output.copies, side_ofEntries, List.map_map]
  induction entries with
  | nil => rfl
  | cons f entries ih =>
    have hrest := ih fun g hg => h g (List.mem_cons_of_mem f hg)
    by_cases hsource : f.source = e.source
    · have hstamped : (Line.stamped ∘ Entry.toLine) f = (f.time, f.text) :=
        @toLine_entryOf_stamped f.source (f.time, f.text) (h f List.mem_cons_self)
      have hsame : ((f.time, f.text) == (e.time, e.text)) = (f == e) := by
        rw [Bool.eq_iff_iff, beq_iff_eq, beq_iff_eq, Prod.mk.injEq]
        constructor
        · rintro ⟨htime, htext⟩
          exact Entry.eq_of_key htime (Prod.ext hsource htext)
        · rintro rfl
          exact ⟨rfl, rfl⟩
      rw [List.filter_cons_of_pos (by simpa using hsource), List.map_cons, List.count_cons,
        List.count_cons, hrest, hstamped, hsame]
    · have hne : f ≠ e := by
        rintro rfl
        exact hsource rfl
      rw [List.filter_cons_of_neg (by simpa using hsource), hrest, List.count_cons_of_ne hne]

theorem size_ofEntries (entries : List Entry) :
    (Output.ofEntries entries).size = entries.length := by
  rw [Output.size, Output.ofEntries]
  simp only [List.length_map]
  induction entries with
  | nil => rfl
  | cons e entries ih =>
    cases hsource : e.source <;> simp [hsource] <;> omega

private theorem exists_passes_of_list {limits : Limits} {backend : Nat → Int → Exchange}
    {output : Output} (h : (list limits backend).result = .ok output) :
    ∃ turns last lines,
      Paging.Passes limits (fun k start => (backend k start).page) .first turns last ∧
        Paging.Ends limits (fun k start => (backend k start).page) last (.ok lines) ∧
        (list limits backend).starts = 0 :: turns.map (·.start) ∧
        output.size = lines.length ∧ ∀ e, output.copies e = lines.count e := by
  obtain ⟨turns, last, result, hpasses, hends, hresult, hstarts⟩ :=
    exists_turns_of_list limits backend
  rw [hresult] at h
  cases result with
  | error e => cases h
  | ok lines =>
    obtain rfl : Output.ofEntries lines = output := Except.ok.inj h
    have hrange := hpasses.inInt64 hends fun _ he => absurd he List.not_mem_nil
    exact ⟨turns, last, lines, hpasses, hends, hstarts, size_ofEntries lines,
      copies_ofEntries hrange⟩

section Served

variable {limits : Limits} {held : Holding} {pages : Nat → Int → Except Error (List Stream)}
  {t t' last : Paging.Turn} {turns : List Paging.Turn} {e : Entry}

private theorem IsServedFromEach.entries_perm
    (hserved : IsServedFromEach limits.pageLimit held pages)
    {k : Nat} {start : Int} {streams : List Stream} {entries : List Entry}
    (hpage : pages k start = .ok streams)
    (hreads : List.Forall₂ Arrival.Reads (streams.flatMap Stream.arrivals) entries) :
    entries.Perm (held.pageFrom limits.pageLimit start).entries := by
  obtain ⟨page, hpage', hshows⟩ := hserved k start
  obtain rfl := Except.ok.inj (hpage.symm.trans hpage')
  obtain ⟨entries', hreads', hperm⟩ := hshows.exists_reads
  rwa [reads_unique hreads hreads']

private theorem IsServedFromEach.nextStart_le
    (hserved : IsServedFromEach limits.pageLimit held pages) (hrange : held.InRange)
    (hleads : Paging.Leads limits pages t t') : t'.start ≤ 0x7FFFFFFFFFFFFFFF := by
  obtain ⟨streams, entries, cursor, hpage, -, hcursor, rfl⟩ := hleads.exists_entries
  obtain ⟨page, hpage', hshows⟩ := hserved t.asked t.start
  obtain rfl := Except.ok.inj (hpage.symm.trans hpage')
  rcases hshows.cursor?_eq limits.pageLimit_pos with ⟨hnone, -⟩ | ⟨s, hs, -, l, hl, hsome⟩
  · rw [hnone] at hcursor
    cases hcursor
  · obtain rfl : l.1 = cursor := Option.some.inj (hsome.symm.trans hcursor)
    obtain ⟨s, hmem, rfl⟩ := List.mem_map.1 hs
    have hshown : l ∈ pageOf limits.pageLimit s.2 t.start := List.mem_of_getLast? hl
    have hfrom : t.start ≤ l.1 := start_le_of_mem_page hshown
    have hheld : l ∈ s.2 := ((List.take_sublist _ _).trans List.filter_sublist).subset hshown
    have hlate := hrange s hmem l hheld
    show Paging.nextStart t.start l.1 ≤ 0x7FFFFFFFFFFFFFFF
    rw [Paging.nextStart]
    split <;> omega

private theorem Paging.Passes.start_le (h : Paging.Passes limits pages t turns last)
    (hserved : IsServedFromEach limits.pageLimit held pages) (hrange : held.InRange)
    (ht : t.start ≤ 0x7FFFFFFFFFFFFFFF) :
    ∀ s ∈ t.start :: turns.map (·.start), s ≤ 0x7FFFFFFFFFFFFFFF := by
  induction h with
  | rest =>
    intro s hs
    rwa [List.mem_singleton.1 hs]
  | go hleads _ ih =>
    intro s hs
    rcases List.mem_cons.1 hs with rfl | hs
    · exact ht
    · exact ih (hserved.nextStart_le hrange hleads) s hs

theorem IsServedFromEach.count_le (hserved : IsServedFromEach limits.pageLimit held pages)
    {k : Nat} {start : Int} {streams : List Stream} {read : List Arrival} {entries : List Entry}
    (hpage : pages k start = .ok streams) (hpart : read <+: streams.flatMap Stream.arrivals)
    (hreads : List.Forall₂ Arrival.Reads read entries) (e : Entry) :
    entries.count e ≤ (held.pageFrom limits.pageLimit start).entries.count e := by
  obtain ⟨page, hpage', hshows⟩ := hserved k start
  obtain rfl := Except.ok.inj (hpage.symm.trans hpage')
  obtain ⟨all, hall, hperm⟩ := hshows.exists_reads
  have hfirst : List.Forall₂ Arrival.Reads read (all.take read.length) := by
    rw [List.prefix_iff_eq_take.1 hpart, List.length_take]
    have := List.forall₂_take (min read.length (streams.flatMap Stream.arrivals).length) hall
    rwa [Nat.min_eq_left hpart.length_le] at this ⊢
  rw [reads_unique hreads hfirst, ← hperm.count_eq e]
  exact (List.take_sublist _ _).count_le e

/-- As long as no page shows a line past the next start, it is taken no more often than it is
held. -/
theorem Paging.Passes.count_le (h : Paging.Passes limits pages t turns last)
    (hserved : IsServedFromEach limits.pageLimit held pages)
    (hpast : (t.start :: turns.map (·.start)).IsChain fun s s' =>
      e ∈ (held.pageFrom limits.pageLimit s).entries → e.time ≤ s')
    (ht : Paging.Tallied e t) (hcount : t.lines.count e ≤ held.entries.count e) :
    Paging.Tallied e last ∧ last.lines.count e ≤ held.entries.count e := by
  induction h with
  | rest => exact ⟨ht, hcount⟩
  | @go t t' last turns hleads _ ih =>
    obtain ⟨streams, entries, cursor, hpage, hreads, -, rfl⟩ := hleads.exists_entries
    have hperm := hserved.entries_perm hpage hreads
    rw [List.map_cons, List.isChain_cons_cons] at hpast
    refine ih hpast.2 (ht.next fun he => hpast.1 (hperm.mem_iff.1 he)) ?_
    rw [ht.count_append fun he => Holding.start_le_of_mem_pageFrom (hperm.mem_iff.1 he),
      hperm.count_eq e]
    have hheld := (held.entries_pageFrom_sublist limits.pageLimit t.start).count_le e
    omega

private theorem Paging.Passes.prefix_of_ends {lines : List Entry}
    (h : Paging.Passes limits pages t turns last)
    (hends : Paging.Ends limits pages last (.ok lines)) : t.lines <+: lines := by
  have hlast : t.lines <+: last.lines := by
    refine h.keeps (P := fun t' => t.lines <+: t'.lines) ?_ (List.prefix_refl _)
    intro u u' hu hleads
    cases hleads
    exact hu.trans (List.prefix_append _ _)
  obtain ⟨streams, read, entries, -, -, -, rfl, -⟩ := hends.exists_entries
  exact hlast.trans (List.prefix_append _ _)

private theorem Paging.Passes.count_lt (h : Paging.Passes limits pages t turns last)
    (hserved : IsServedFromEach limits.pageLimit held pages) {lines : List Entry}
    (hends : Paging.Ends limits pages last (.ok lines)) (hroom : lines.length < limits.maxLines)
    (hshown : e ∈ (held.pageFrom limits.pageLimit t.start).entries) (hpast : t.start < e.time) :
    t.lines.count e < lines.count e := by
  have hadded : ∀ entries : List Entry,
      entries.Perm (held.pageFrom limits.pageLimit t.start).entries →
        t.lines.count e < (t.lines ++ Paging.fresh t.start t.boundary entries).count e := by
    intro entries hperm
    have hpos : 0 < entries.count e := List.count_pos_iff.2 (hperm.mem_iff.2 hshown)
    rw [List.count_append, Paging.count_fresh, if_neg (by omega)]
    omega
  cases h with
  | rest =>
    obtain ⟨streams, read, entries, hpage, -, hreads, rfl, hall⟩ := hends.exists_entries
    rw [hall hroom] at hreads
    exact hadded entries (hserved.entries_perm hpage hreads)
  | go hleads hrest =>
    have hkept := (hrest.prefix_of_ends hends).sublist.count_le e
    obtain ⟨streams, entries, cursor, hpage, hreads, -, rfl⟩ := hleads.exists_entries
    exact Nat.lt_of_lt_of_le (hadded entries (hserved.entries_perm hpage hreads)) hkept

/-- A line that a page shows past the next start comes twice, below the cap. -/
private theorem Paging.Passes.two_le_count (h : Paging.Passes limits pages t turns last)
    (hserved : IsServedFromEach limits.pageLimit held pages) {lines : List Entry}
    (hends : Paging.Ends limits pages last (.ok lines)) (hroom : lines.length < limits.maxLines)
    (hpast : ¬ (t.start :: turns.map (·.start)).IsChain fun s s' =>
      e ∈ (held.pageFrom limits.pageLimit s).entries → e.time ≤ s') :
    2 ≤ lines.count e := by
  induction h with
  | rest => exact absurd (List.IsChain.singleton _) hpast
  | @go t t' last turns hleads hrest ih =>
    rw [List.map_cons, List.isChain_cons_cons] at hpast
    by_cases hnext : e ∈ (held.pageFrom limits.pageLimit t.start).entries → e.time ≤ t'.start
    · exact ih hends fun hchain => hpast ⟨hnext, hchain⟩
    · obtain ⟨hshown, hlater⟩ := Classical.not_imp.1 hnext
      have hlater : t'.start < e.time := Int.not_le.1 hlater
      have hmoves : t.start < t'.start := by
        cases hleads
        exact Paging.lt_nextStart _ _
      have hagain := Holding.mem_pageFrom_of_le hshown (Int.le_of_lt hmoves) (Int.le_of_lt hlater)
      have hsecond := hrest.count_lt hserved hends hroom hagain hlater
      obtain ⟨streams, entries, cursor, hpage, hreads, -, rfl⟩ := hleads.exists_entries
      have hfirst : 0 < entries.count e :=
        List.count_pos_iff.2 ((hserved.entries_perm hpage hreads).mem_iff.2 hshown)
      rw [List.count_append, Paging.count_fresh, if_neg (by omega)] at hsecond
      omega

end Served

/-- A line of several streams that are listed together comes no more often than it is held as long
as no page shows it past the start of the next page; below the cap, a line that is held once comes
again as soon as one does. No start time runs over when no line is timed at the last nanosecond of a
signed word. -/
theorem list_several_streams {limits : Limits} {held : Holding} {backend : Nat → Int → Exchange}
    {output : Output} (e : Entry) (hrange : held.InRange)
    (hserved : IsServedFromEach limits.pageLimit held fun k start => (backend k start).page)
    (houtput : (list limits backend).result = .ok output) :
    let keepsUp := (list limits backend).starts.IsChain fun s s' =>
      e ∈ (held.pageFrom limits.pageLimit s).entries → e.time ≤ s'
    (∀ s ∈ (list limits backend).starts, s ≤ 0x7FFFFFFFFFFFFFFF) ∧
      (keepsUp → output.copies e ≤ held.entries.count e) ∧
        (held.entries.count e = 1 → output.size < limits.maxLines →
          (output.copies e ≤ 1 ↔ keepsUp)) := by
  intro keepsUp
  obtain ⟨turns, last, lines, hpasses, hends, hstarts, hsize, hcopies⟩ :=
    exists_passes_of_list houtput
  have hnoMore : keepsUp → output.copies e ≤ held.entries.count e := by
    intro hkeepsUp
    simp only [keepsUp, hstarts] at hkeepsUp
    obtain ⟨htallied, hcount⟩ := hpasses.count_le hserved hkeepsUp (.first e) (Nat.zero_le _)
    obtain ⟨streams, read, entries, hpage, hpart, hreads, rfl, -⟩ := hends.exists_entries
    have hread := hserved.count_le hpage hpart hreads e
    have hheld := (held.entries_pageFrom_sublist limits.pageLimit last.start).count_le e
    have hfrom : e ∈ entries → last.start ≤ e.time := by
      intro he
      have hshown : 0 < (held.pageFrom limits.pageLimit last.start).entries.count e :=
        Nat.lt_of_lt_of_le (List.count_pos_iff.2 he) hread
      exact Holding.start_le_of_mem_pageFrom (List.count_pos_iff.1 hshown)
    rw [hcopies, htallied.count_append hfrom]
    omega
  have hstart : ∀ s ∈ (list limits backend).starts, s ≤ 0x7FFFFFFFFFFFFFFF := by
    rw [hstarts]
    exact hpasses.start_le hserved hrange (by decide)
  refine ⟨hstart, hnoMore, ?_⟩
  intro honce hroom
  constructor
  · intro hsingle
    by_contra hbehind
    simp only [keepsUp, hstarts] at hbehind
    have htwice := hpasses.two_le_count hserved hends (hsize ▸ hroom) hbehind
    rw [hcopies] at hsingle
    omega
  · intro hkeepsUp
    exact honce ▸ hnoMore hkeepsUp

/-- Two lines that fill a page, and a later line of another stream. -/
def lateLine : Holding := [(.stdout, [(1, "a"), (2, "b")]), (.stderr, [(3, "c")])]

def streamText (source : Source) (values : String) : String :=
  let label := if source = .stderr then "\"source\":\"stderr\"" else ""
  "\x7b\"stream\":\x7b" ++ label ++ "\x7d,\"values\":[" ++ values ++ "]\x7d"

/-- A backend that holds these lines, with pages of two lines. -/
def lateBackend (_ : Nat) (start : Int) : Exchange :=
  let ab := streamText .stdout "[\"1\",\"a\"],[\"2\",\"b\"]"
  let b := streamText .stdout "[\"2\",\"b\"]"
  let c := streamText .stderr "[\"3\",\"c\"]"
  .answered 200 <|
    if start ≤ 1 then bodyOf ("[" ++ ab ++ "," ++ c ++ "]")
    else if start ≤ 2 then bodyOf ("[" ++ b ++ "," ++ c ++ "]")
    else if start ≤ 3 then bodyOf ("[" ++ c ++ "]")
    else bodyOf "[]"

private theorem lateBackend_isServed :
    IsServedFromEach 2 lateLine fun k start => (lateBackend k start).page := by
  intro k start
  simp only [lateBackend]
  by_cases hfirst : start ≤ 1
  · rw [if_pos hfirst]
    refine ⟨[⟨.stdout, [("1", "a"), ("2", "b")]⟩, ⟨.stderr, [("3", "c")]⟩], by decide +kernel, ?_⟩
    have hheld : lateLine.pageFrom 2 start = lateLine := by
      simp [Holding.pageFrom, pageOf, lateLine, hfirst, show start ≤ 2 by omega,
        show start ≤ 3 by omega]
    rw [hheld]
    exact ⟨lateLine, .refl _, .cons ⟨rfl, .cons ⟨rfl, rfl⟩ (.cons ⟨rfl, rfl⟩ .nil)⟩
      (.cons ⟨rfl, .cons ⟨rfl, rfl⟩ .nil⟩ .nil)⟩
  rw [if_neg hfirst]
  by_cases hsecond : start ≤ 2
  · rw [if_pos hsecond]
    refine ⟨[⟨.stdout, [("2", "b")]⟩, ⟨.stderr, [("3", "c")]⟩], by decide +kernel, ?_⟩
    have hheld : lateLine.pageFrom 2 start = [(.stdout, [(2, "b")]), (.stderr, [(3, "c")])] := by
      simp [Holding.pageFrom, pageOf, lateLine, hfirst, hsecond, show start ≤ 3 by omega]
    rw [hheld]
    exact ⟨_, .refl _, .cons ⟨rfl, .cons ⟨rfl, rfl⟩ .nil⟩
      (.cons ⟨rfl, .cons ⟨rfl, rfl⟩ .nil⟩ .nil)⟩
  rw [if_neg hsecond]
  by_cases hthird : start ≤ 3
  · rw [if_pos hthird]
    refine ⟨[⟨.stderr, [("3", "c")]⟩], by decide +kernel, ?_⟩
    have hheld : lateLine.pageFrom 2 start = [(.stdout, []), (.stderr, [(3, "c")])] := by
      simp [Holding.pageFrom, pageOf, lateLine, hfirst, hsecond, hthird]
    rw [hheld]
    exact ⟨[(.stderr, [(3, "c")])], .refl _, .cons ⟨rfl, .cons ⟨rfl, rfl⟩ .nil⟩ .nil⟩
  · rw [if_neg hthird]
    refine ⟨[], by decide +kernel, ?_⟩
    have hheld : lateLine.pageFrom 2 start = [(.stdout, []), (.stderr, [])] := by
      simp [Holding.pageFrom, pageOf, lateLine, hfirst, hsecond, hthird]
    rw [hheld]
    exact ⟨[], .refl _, .nil⟩

private theorem lateLine_inRange : lateLine.InRange := by
  unfold Holding.InRange
  decide

private theorem list_lateBackend :
    (list ⟨2, 10, by decide, by decide⟩ lateBackend).result =
        .ok (.ofEntries
          [⟨.stdout, 1, "a"⟩, ⟨.stdout, 2, "b"⟩, ⟨.stderr, 3, "c"⟩, ⟨.stderr, 3, "c"⟩]) ∧
      (list ⟨2, 10, by decide, by decide⟩ lateBackend).starts = [0, 2] := by
  decide +kernel

theorem list_late_line :
    let limits : Limits := ⟨2, 10, by decide, by decide⟩
    let late : Entry := ⟨.stderr, 3, "c"⟩
    let keepsUp := (list limits lateBackend).starts.IsChain fun s s' =>
      late ∈ (lateLine.pageFrom 2 s).entries → late.time ≤ s'
    ∃ output, lateLine.InRange ∧
      IsServedFromEach 2 lateLine (fun k start => (lateBackend k start).page) ∧
      (list limits lateBackend).result = .ok output ∧
      (∀ s ∈ (list limits lateBackend).starts, s ≤ 0x7FFFFFFFFFFFFFFF) ∧
      (keepsUp → output.copies late ≤ lateLine.entries.count late) ∧
      (lateLine.entries.count late = 1 → output.size < 10 → (output.copies late ≤ 1 ↔ keepsUp)) :=
  ⟨_, lateLine_inRange, lateBackend_isServed, list_lateBackend.1,
    @list_several_streams ⟨2, 10, by decide, by decide⟩ _ _ _ ⟨.stderr, 3, "c"⟩ lateLine_inRange
      lateBackend_isServed list_lateBackend.1⟩

/-- Lines that are sorted in each stream may come more often than they are held. -/
theorem later_line_listed_twice :
    ¬ ∀ (limits : Limits) (held : Holding) (backend : Nat → Int → Exchange) (output : Output),
      (∀ s ∈ held, s.2.Pairwise fun l m => l.1 ≤ m.1) →
      IsServedFromEach limits.pageLimit held (fun k start => (backend k start).page) →
      (list limits backend).result = .ok output →
      ∀ e, output.copies e ≤ held.entries.count e := by
  intro hclaim
  have htwice := hclaim ⟨2, 10, by decide, by decide⟩ lateLine lateBackend _ (by decide)
    lateBackend_isServed list_lateBackend.1 ⟨.stderr, 3, "c"⟩
  revert htwice
  decide +kernel

end RunLedger.Logs
