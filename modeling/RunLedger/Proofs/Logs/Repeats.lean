import Mathlib.Data.List.Flatten
import Mathlib.Data.List.Induction
import RunLedger.Proofs.Logs.SeveralStreams

/-!
Exactly what a listing leaves out. A page repeats lines at its start time; of each it is the first
copies that are left out, as many as the page before gave and as the page holds. Everything else that
arrives is taken once, in the order of arrival, until the listing is full. This holds whatever the
backend answers, sorted or not.
-/

set_option autoImplicit false

namespace RunLedger.Logs

/-- The entries of a page but for the first copies, at its start time, of what the page before
gave. -/
def kept (start : Int) (before entries : List Entry) : List Entry :=
  (entries.zipIdx.filter fun x =>
    ¬ (x.1.time = start ∧ (entries.take x.2).count x.1 < before.count x.1)).map Prod.fst

private theorem kept_concat (start : Int) (before entries : List Entry) (e : Entry) :
    kept start before (entries ++ [e]) = kept start before entries ++
      if e.time = start ∧ entries.count e < before.count e then [] else [e] := by
  have hearlier : (entries.zipIdx.filter fun x =>
      ¬ (x.1.time = start ∧ ((entries ++ [e]).take x.2).count x.1 < before.count x.1)) =
      entries.zipIdx.filter fun x =>
        ¬ (x.1.time = start ∧ (entries.take x.2).count x.1 < before.count x.1) := by
    refine List.filter_congr fun x hx => ?_
    have hbelow : x.2 ≤ entries.length := Nat.le_of_lt (List.snd_lt_of_mem_zipIdx hx)
    rw [List.take_append_of_le_length hbelow]
  rw [kept, List.zipIdx_append, List.filter_append, List.map_append, hearlier, ← kept]
  congr 1
  have hall : (entries ++ [e]).take (0 + entries.length) = entries := by
    rw [Nat.zero_add, List.take_left]
  split
  · next hskip => simp [List.zipIdx_cons, hskip]
  · next hkeep =>
    rw [List.zipIdx_cons, List.filter_cons_of_pos]
    · rfl
    · rw [hall]
      exact decide_eq_true hkeep

namespace Paging

private theorem fresh_concat (start : Int) (boundary : Boundary) (entries : List Entry)
    (e : Entry) :
    fresh start boundary (entries ++ [e]) = fresh start boundary entries ++
      if e.time = start ∧ entries.count e < boundary.count e.key then [] else [e] := by
  induction entries generalizing boundary with
  | nil =>
    rw [List.nil_append, fresh_cons]
    exact if_congr (and_congr_right fun _ => List.count_pos_iff.symm) rfl rfl
  | cons f entries ih =>
    rw [List.cons_append, fresh_cons, fresh_cons]
    split
    · next hskip =>
      have hsame : (e.time = start ∧ entries.count e < (boundary.erase f.key).count e.key) ↔
          e.time = start ∧ (f :: entries).count e < boundary.count e.key := by
        refine and_congr_right fun hstart => ?_
        rw [List.count_erase, List.count_cons]
        by_cases hfe : f = e
        · subst hfe
          simp only [beq_self_eq_true, if_true]
          omega
        · have hkey : f.key ≠ e.key := fun hkey =>
            hfe (Entry.eq_of_key (hskip.1.trans hstart.symm) hkey)
          simp [hfe, hkey]
      rw [ih, if_congr hsame rfl rfl]
    · next hkeep =>
      have hsame : (e.time = start ∧ entries.count e < boundary.count e.key) ↔
          e.time = start ∧ (f :: entries).count e < boundary.count e.key := by
        refine and_congr_right fun hstart => ?_
        rw [List.count_cons]
        by_cases hfe : f = e
        · subst hfe
          have hnone : boundary.count f.key = 0 :=
            List.count_eq_zero.2 fun hmem => hkeep ⟨hstart, hmem⟩
          rw [hnone]
          exact iff_of_false (Nat.not_lt_zero _) (Nat.not_lt_zero _)
        · simp [hfe]
      rw [ih, if_congr hsame rfl rfl, List.cons_append]

/-- What the boundary lets a page pass over is what `kept` leaves out. -/
private theorem fresh_boundaryAt (start : Int) (before entries : List Entry) :
    fresh start (boundaryAt start before) entries = kept start before entries := by
  induction entries using List.reverseRecOn with
  | nil => rfl
  | append_singleton entries e ih =>
    have hsame : (e.time = start ∧
        entries.count e < (boundaryAt start before).count e.key) ↔
        e.time = start ∧ entries.count e < before.count e :=
      and_congr_right fun hstart => by rw [count_boundaryAt start before hstart]
    rw [fresh_concat, kept_concat, ih, if_congr hsame rfl rfl]

end Paging

private theorem kept_sublist (start : Int) (before entries : List Entry) :
    (kept start before entries).Sublist entries := by
  rw [← Paging.fresh_boundaryAt]
  exact Paging.fresh_sublist _ _ _

private theorem count_kept (start : Int) (before entries : List Entry) (e : Entry) :
    (kept start before entries).count e =
      if e.time = start then entries.count e - before.count e else entries.count e := by
  rw [← Paging.fresh_boundaryAt, Paging.count_fresh]
  refine ite_congr rfl (fun hstart => ?_) fun _ => rfl
  rw [Paging.count_boundaryAt start before hstart]

/-- A page of a listing: since when it was asked for and what it showed, as much of that as was
read, and what was taken of it. -/
structure Page where
  start : Int
  streams : List Stream
  entries : List Entry
  taken : List Entry

namespace Page

def arrivals (p : Page) : List Arrival := p.streams.flatMap Stream.arrivals

/-- All that the page showed was read. -/
def IsWhole (p : Page) : Prop := List.Forall₂ Arrival.Reads p.arrivals p.entries

/-- How a page was read that stood after another and found so much room. -/
structure IsTaken (p : Page) (before : List Entry) (room : Nat) : Prop where
  reads : ∃ read, read <+: p.arrivals ∧ List.Forall₂ Arrival.Reads read p.entries
  /-- The first copies of what the page before gave are left out, and nothing else is. -/
  taken : p.taken = kept p.start before p.entries
  inOrder : p.taken.Sublist p.entries
  leftOut : ∀ source text, let e : Entry := ⟨source, p.start, text⟩
    p.entries.count e = p.taken.count e + min (p.entries.count e) (before.count e)
  others : ∀ e, e.time ≠ p.start → p.taken.count e = p.entries.count e
  within : p.taken.length ≤ room
  /-- There was room when an entry was read. -/
  stops : ∀ n < p.entries.length, (kept p.start before (p.entries.take n)).length < room

end Page

namespace Paging

variable {limits : Limits} {pages : Nat → Int → Except Error (List Stream)} {t last : Turn}
  {turns : List Turn} {streams : List Stream} {before taken lines : List Entry} {room : Nat}

private theorem exists_page_of_take {start : Int} (hroom : 0 < room)
    (htake : take start room (boundaryAt start before) (streams.flatMap Stream.arrivals) =
      .ok taken) :
    ∃ p : Page, p.start = start ∧ p.streams = streams ∧ p.taken = taken ∧ p.IsTaken before room ∧
      (taken.length < room → p.IsWhole) := by
  obtain ⟨read, entries, hpart, hreads, rfl, hall, hstops⟩ := exists_reads_of_take htake
  obtain ⟨hwithin, hstops⟩ := hstops hroom
  simp only [fresh_boundaryAt] at hall hwithin hstops ⊢
  refine ⟨⟨start, streams, entries, kept start before entries⟩, rfl, rfl, rfl, ?_, ?_⟩
  · refine ⟨⟨read, hpart, hreads⟩, rfl, kept_sublist _ _ _, ?_, ?_, hwithin, hstops⟩
    · intro source text e
      have hcount := (count_kept start before entries e).trans (if_pos rfl)
      simp only [hcount]
      omega
    · exact fun e hother => (count_kept start before entries e).trans (if_neg hother)
  · intro hopen
    rw [hall hopen] at hreads
    exact hreads

theorem length_lt_of_cursor? {entries : List Entry}
    (hreads : List.Forall₂ Arrival.Reads (streams.flatMap Stream.arrivals) entries)
    (hcursor : cursor? limits.pageLimit streams = none) :
    ∀ s ∈ streams, s.entries.length < limits.pageLimit := by
  intro s hs
  by_contra hfull
  have hmem : s ∈ streams.filter (·.isFull limits.pageLimit) :=
    List.mem_filter.2 ⟨hs, decide_eq_true (Nat.le_of_not_lt hfull)⟩
  obtain ⟨full, hfull⟩ : ∃ full, (streams.filter (·.isFull limits.pageLimit)).getLast? = some full :=
    Option.isSome_iff_exists.1 (List.getLast?_isSome.2 (List.ne_nil_of_mem hmem))
  obtain ⟨hstream, hlength⟩ := List.mem_filter.1 (List.mem_of_getLast? hfull)
  have hpos : 0 < full.entries.length :=
    Nat.lt_of_lt_of_le limits.pageLimit_pos (of_decide_eq_true hlength)
  obtain ⟨x, hx⟩ : ∃ x, full.entries.getLast? = some x :=
    Option.isSome_iff_exists.1 (List.getLast?_isSome.2 (List.ne_nil_of_length_pos hpos))
  have harrival : (⟨full.source, x.1, x.2⟩ : Arrival) ∈ streams.flatMap Stream.arrivals :=
    List.mem_flatMap.2 ⟨full, hstream, List.mem_map_of_mem (List.mem_of_getLast? hx)⟩
  obtain ⟨e, -, htime, -⟩ := exists_of_mem_forall₂ hreads harrival
  rw [cursor?, hfull] at hcursor
  simp [hx, htime, Except.toOption] at hcursor

/-- What the page before a page gave; the first page stands after what was given before it. -/
def givenBy (before : List Entry) (past : List Page) : List Entry :=
  (past.getLast?.map Page.taken).getD before

/-- Turns from one that stands after `before` to the last, as the pages that were read. -/
structure AreRead (limits : Limits) (pages : Nat → Int → Except Error (List Stream)) (t : Turn)
    (before lines : List Entry) (read : List Page) : Prop where
  appended : lines = t.lines ++ read.flatMap Page.taken
  within : lines.length ≤ limits.maxLines
  each : ∀ past p rest, read = past ++ p :: rest →
    pages (t.asked + past.length) p.start = .ok p.streams ∧
    p.IsTaken (givenBy before past)
      (limits.maxLines - (t.lines ++ past.flatMap Page.taken).length) ∧
    (rest ≠ [] → p.IsWhole) ∧
    (rest = [] → lines.length < limits.maxLines →
      p.IsWhole ∧ ∀ s ∈ p.streams, s.entries.length < limits.pageLimit)

section Pages

variable {p : Page} {read : List Page}

theorem AreRead.singleton (hroom : t.lines.length < limits.maxLines)
    (hpage : pages t.asked p.start = .ok p.streams)
    (htaken : p.IsTaken before (limits.maxLines - t.lines.length))
    (hwhole : (t.lines ++ p.taken).length < limits.maxLines →
      p.IsWhole ∧ ∀ s ∈ p.streams, s.entries.length < limits.pageLimit) :
    AreRead limits pages t before (t.lines ++ p.taken) [p] := by
  have hwithin := htaken.within
  refine ⟨by simp, by rw [List.length_append]; omega, ?_⟩
  intro past p' rest hsplit
  obtain ⟨rfl, rfl, rfl⟩ : past = [] ∧ p' = p ∧ rest = [] := by
    rcases past with _ | ⟨q, past⟩
    · obtain ⟨rfl, rfl⟩ := List.cons.inj hsplit
      exact ⟨rfl, rfl, rfl⟩
    · have hnil : [] = past ++ p' :: rest := (List.cons.inj hsplit).2
      cases past <;> cases hnil
  refine ⟨hpage, ?_, fun hrest => absurd rfl hrest, fun _ => hwhole⟩
  rw [List.flatMap_nil, List.append_nil]
  exact htaken

theorem AreRead.cons (hpage : pages t.asked p.start = .ok p.streams)
    (htaken : p.IsTaken before (limits.maxLines - t.lines.length)) (hwhole : p.IsWhole)
    {start : Int} {boundary : Boundary}
    (h : AreRead limits pages ⟨t.asked + 1, start, boundary, t.lines ++ p.taken⟩ p.taken lines read)
    (hread : read ≠ []) : AreRead limits pages t before lines (p :: read) := by
  refine ⟨by rw [h.appended, List.flatMap_cons, List.append_assoc], h.within, ?_⟩
  rintro (_ | ⟨q, past⟩) p' rest hsplit
  · obtain ⟨rfl, rfl⟩ := List.cons.inj hsplit
    refine ⟨hpage, ?_, fun _ => hwhole, fun hrest => absurd hrest hread⟩
    rw [List.flatMap_nil, List.append_nil]
    exact htaken
  · obtain ⟨rfl, hlater⟩ := List.cons.inj hsplit
    obtain ⟨hpage', htaken', hrest⟩ := h.each past p' rest hlater
    refine ⟨?_, ?_, hrest⟩
    · rw [List.length_cons, ← Nat.add_assoc, Nat.add_right_comm]
      exact hpage'
    · have hgiven : givenBy before (p :: past) = givenBy p.taken past := by
        rw [givenBy, givenBy, List.getLast?_cons]
        cases past.getLast? <;> rfl
      rw [hgiven, List.flatMap_cons, ← List.append_assoc]
      exact htaken'

end Pages

private theorem Passes.exists_read (h : Passes limits pages t turns last)
    (hends : Ends limits pages last (.ok lines)) (hroom : t.lines.length < limits.maxLines)
    (hboundary : t.boundary = boundaryAt t.start before) :
    ∃ read, read.map Page.start = t.start :: turns.map (·.start) ∧
      AreRead limits pages t before lines read := by
  induction h generalizing before with
  | rest t =>
    have hsome : 0 < limits.maxLines - t.lines.length := Nat.sub_pos_of_lt hroom
    cases hends with
    | filled hpage htake hfilled =>
      rw [hboundary] at htake
      obtain ⟨p, hstart, rfl, rfl, htaken, -⟩ := exists_page_of_take hsome htake
      rw [← hstart] at hpage
      refine ⟨[p], congrArg (fun s => [s]) hstart, .singleton hroom hpage htaken fun hopen => ?_⟩
      rw [List.length_append] at hopen
      omega
    | exhausted hpage htake hopen hcursor =>
      rw [hboundary] at htake
      obtain ⟨p, hstart, rfl, rfl, htaken, hwhole⟩ := exists_page_of_take hsome htake
      rw [← hstart] at hpage
      exact ⟨[p], congrArg (fun s => [s]) hstart, .singleton hroom hpage htaken fun _ =>
        ⟨hwhole hopen, length_lt_of_cursor? (hwhole hopen) hcursor⟩⟩
  | @go t _ _ _ hleads hrest ih =>
    cases hleads with
    | on hpage htake hopen hcursor =>
      rw [hboundary] at htake
      obtain ⟨p, hstart, rfl, rfl, htaken, hwhole⟩ :=
        exists_page_of_take (Nat.sub_pos_of_lt hroom) htake
      rw [← hstart] at hpage
      have hroom' : (t.lines ++ p.taken).length < limits.maxLines := by
        rw [List.length_append]
        omega
      obtain ⟨read, hstarts, hread⟩ := ih hends hroom' rfl
      refine ⟨p :: read, ?_, .cons hpage htaken (hwhole hopen) hread ?_⟩
      · rw [List.map_cons, hstart, hstarts, List.map_cons]
      · rintro rfl
        cases hstarts

end Paging

variable {limits : Limits} {backend : Nat → Int → Exchange} {output : Output}

/-- Whatever the backend answers: of what arrives at the start time of a page, the first copies are
left out of what the page before gave, as many as there are of both. Everything else is taken once,
in the order of arrival, until the listing is full, and then nothing more is read. A listing that
is not full has read all of its last page, which no stream filled. -/
theorem repeats_are_left_out_once (h : (list limits backend).result = .ok output) :
    ∃ pages : List Page,
      (list limits backend).starts = pages.map Page.start ∧
      (list limits backend).starts.head? = some 0 ∧
      output = .ofEntries (pages.flatMap Page.taken) ∧
      output.size ≤ limits.maxLines ∧
      (∀ source, (output.side source).Sublist
        (((pages.flatMap Page.entries).filter (·.source = source)).map Entry.toLine)) ∧
      ∀ past p rest, pages = past ++ p :: rest →
        (backend past.length p.start).page = .ok p.streams ∧
        p.IsTaken ((past.getLast?.map Page.taken).getD [])
          (limits.maxLines - (past.flatMap Page.taken).length) ∧
        (rest ≠ [] → p.IsWhole) ∧
        (rest = [] → output.size < limits.maxLines →
          p.IsWhole ∧ ∀ s ∈ p.streams, s.entries.length < limits.pageLimit) := by
  obtain ⟨turns, last, result, hpasses, hends, hresult, hstarts⟩ :=
    exists_turns_of_list limits backend
  rw [hresult] at h
  cases result with
  | error e => cases h
  | ok lines =>
    obtain rfl : Output.ofEntries lines = output := Except.ok.inj h
    have hboundary : Paging.Turn.first.boundary = Paging.boundaryAt Paging.Turn.first.start [] := rfl
    obtain ⟨pages, hpages, happended, hwithin, heach⟩ :=
      hpasses.exists_read hends limits.maxLines_pos hboundary
    obtain rfl : lines = pages.flatMap Page.taken := happended
    have hinOrder : (pages.flatMap Page.taken).Sublist (pages.flatMap Page.entries) := by
      refine List.Sublist.flatMap_right pages fun p hp => ?_
      obtain ⟨past, rest, hsplit⟩ := List.append_of_mem hp
      exact (heach past p rest hsplit).2.1.inOrder
    have hsize := size_ofEntries (pages.flatMap Page.taken)
    refine ⟨pages, by rw [hstarts, hpages]; rfl, by rw [hstarts]; rfl, rfl, hsize ▸ hwithin,
      fun source => ?_, fun past p rest hsplit => ?_⟩
    · rw [side_ofEntries]
      exact (hinOrder.filter _).map _
    · rw [hsize]
      obtain ⟨hpage, htaken, hrest⟩ := heach past p rest hsplit
      exact ⟨Nat.zero_add past.length ▸ hpage, htaken, hrest⟩

/-- Two copies of a line fill the first page; the second shows three of that source, in two streams,
and one of the other source. -/
def tiedBackend (_ : Nat) (start : Int) : Exchange :=
  let first := streamText .stdout "[\"1\",\"a\"],[\"5\",\"b\"],[\"5\",\"b\"]"
  let again := streamText .stdout "[\"5\",\"b\"],[\"5\",\"b\"]"
  let more := streamText .stdout "[\"5\",\"b\"]"
  let other := streamText .stderr "[\"5\",\"b\"]"
  .answered 200 <|
    if start = 0 then bodyOf ("[" ++ first ++ "]")
    else bodyOf ("[" ++ again ++ "," ++ other ++ "," ++ more ++ "]")

private theorem list_tiedBackend :
    (list ⟨3, 10, by decide, by decide⟩ tiedBackend).result =
      .ok (.ofEntries [⟨.stdout, 1, "a"⟩, ⟨.stdout, 5, "b"⟩, ⟨.stdout, 5, "b"⟩,
        ⟨.stderr, 5, "b"⟩, ⟨.stdout, 5, "b"⟩]) := by
  decide +kernel

theorem repeats_of_tiedBackend :
    let limits : Limits := ⟨3, 10, by decide, by decide⟩
    ∃ output pages, (list limits tiedBackend).result = .ok output ∧
      (list limits tiedBackend).starts = pages.map Page.start ∧
      output = .ofEntries (pages.flatMap Page.taken) ∧ output.size = 5 ∧
      ∀ past p rest, pages = past ++ p :: rest →
        p.IsTaken ((past.getLast?.map Page.taken).getD [])
          (limits.maxLines - (past.flatMap Page.taken).length) := by
  intro limits
  obtain ⟨pages, hstarts, -, houtput, -, -, heach⟩ := repeats_are_left_out_once list_tiedBackend
  exact ⟨_, pages, list_tiedBackend, hstarts, houtput, by rw [size_ofEntries]; rfl,
    fun past p rest hsplit => (heach past p rest hsplit).2.1⟩

end RunLedger.Logs
