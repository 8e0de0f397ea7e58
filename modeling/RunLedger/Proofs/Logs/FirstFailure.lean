import RunLedger.Proofs.Logs.Exchanges
import RunLedger.Proofs.Logs.Repeats

/-!
When a listing fails, and with what. A page fails because of the deadline, because of its exchange or
because of a timestamp that is reached while there is room; a listing is over with a page that is
empty, that fills no stream or that reaches the cap. Whichever comes first decides, and what a later
page would be does not matter.
-/

set_option autoImplicit false

namespace RunLedger.Logs

namespace Paging

/-- What is left of the boundary after entries. -/
def leftover (start : Int) (boundary : Boundary) (entries : List Entry) : Boundary :=
  boundary.diff ((entries.filter (·.time = start)).map Entry.key)

private theorem leftover_cons (start : Int) (boundary : Boundary) (e : Entry)
    (entries : List Entry) :
    leftover start boundary (e :: entries) =
      if e.time = start ∧ e.key ∈ boundary then leftover start (boundary.erase e.key) entries
      else leftover start boundary entries := by
  by_cases hstart : e.time = start
  · have hcons : leftover start boundary (e :: entries) =
        leftover start (boundary.erase e.key) entries := by
      rw [leftover, List.filter_cons_of_pos (by simpa using hstart), List.map_cons, List.diff_cons]
      rfl
    rw [hcons]
    -- erasing what the boundary does not hold leaves it as it is
    split
    · rfl
    · next hnot => rw [List.erase_of_not_mem fun hmem => hnot ⟨hstart, hmem⟩]
  · rw [if_neg fun h => hstart h.1, leftover, List.filter_cons_of_neg (by simpa using hstart)]
    rfl

/-- A page is taken part by part: what comes after a part that can be read is reached exactly when
the part leaves room. -/
theorem take_append {start : Int} {room : Nat} {boundary : Boundary} {read rest : List Arrival}
    {entries : List Entry} (h : List.Forall₂ Arrival.Reads read entries) (hroom : 0 < room) :
    take start room boundary (read ++ rest) =
      if room ≤ (fresh start boundary entries).length then
        .ok ((fresh start boundary entries).take room)
      else
        (take start (room - (fresh start boundary entries).length)
          (leftover start boundary entries) rest).map (fresh start boundary entries ++ ·) := by
  induction h generalizing room boundary with
  | nil =>
    have hnone : fresh start boundary [] = [] := rfl
    rw [hnone, List.length_nil, if_neg (Nat.not_le.2 hroom)]
    exact (congrFun Except.map_id _).symm
  | @cons a e read entries hread _ ih =>
    obtain ⟨htime, hsource, htext⟩ := hread
    have hkey : (a.source, a.text) = e.key := by rw [Entry.key, hsource, htext]
    have he : (⟨a.source, e.time, a.text⟩ : Entry) = e := by rw [hsource, htext]
    rw [List.cons_append, take, htime, fresh_cons, leftover_cons]
    simp only [bind, Except.bind, pure, Except.pure, hkey, he]
    split
    · exact ih hroom
    · by_cases hlast : room ≤ 1
      · obtain rfl : room = 1 := by omega
        simp
      · obtain ⟨room, rfl⟩ : ∃ r, room = r + 1 := ⟨room - 1, by omega⟩
        rw [if_neg hlast, Nat.add_sub_cancel, ih (by omega), List.length_cons]
        by_cases hfilled : room ≤ (fresh start boundary entries).length
        · rw [if_pos hfilled, if_pos (Nat.succ_le_succ hfilled)]
          rfl
        · rw [if_neg hfilled, if_neg (by omega), Nat.add_sub_add_right]
          cases take start (room - (fresh start boundary entries).length)
            (leftover start boundary entries) rest <;> rfl

private theorem reads_or_first_unreadable (arrivals : List Arrival) :
    (∃ entries, List.Forall₂ Arrival.Reads arrivals entries) ∨
      ∃ read a rest entries, arrivals = read ++ a :: rest ∧
        List.Forall₂ Arrival.Reads read entries ∧ ¬ IsTimestamp a.timestamp := by
  induction arrivals with
  | nil => exact .inl ⟨[], .nil⟩
  | cons a arrivals ih =>
    by_cases htime : IsTimestamp a.timestamp
    · obtain ⟨t, ht⟩ := exists_readTime_iff.2 htime
      have hread : a.Reads ⟨a.source, t, a.text⟩ := ⟨ht, rfl, rfl⟩
      rcases ih with ⟨entries, hreads⟩ | ⟨read, b, rest, entries, rfl, hreads, hb⟩
      · exact .inl ⟨_, .cons hread hreads⟩
      · exact .inr ⟨a :: read, b, rest, _, rfl, .cons hread hreads, hb⟩
    · exact .inr ⟨[], a, arrivals, [], rfl, .nil, htime⟩

private theorem take_eq_error_iff {start : Int} {room : Nat} {boundary : Boundary}
    {arrivals : List Arrival} {e : Error} (hroom : 0 < room) :
    take start room boundary arrivals = .error e ↔
      ∃ read a rest entries, arrivals = read ++ a :: rest ∧
        List.Forall₂ Arrival.Reads read entries ∧
        (fresh start boundary entries).length < room ∧ ¬ IsTimestamp a.timestamp ∧
        e = .invalidTimestamp a.timestamp := by
  -- the first entry that cannot be read is the one that a failure names
  have hfirst {read rest : List Arrival} {a : Arrival} {entries : List Entry}
      (hreads : List.Forall₂ Arrival.Reads read entries) (ha : ¬ IsTimestamp a.timestamp) :
      take start room boundary (read ++ a :: rest) = .error e ↔
        (fresh start boundary entries).length < room ∧ e = .invalidTimestamp a.timestamp := by
    have hstuck := readTime_eq_error_iff.2 ⟨ha, rfl⟩
    rw [take_append hreads hroom, take, hstuck, ← Nat.not_le]
    split
    · next hfilled => exact iff_of_false (by simp) fun h => h.1 hfilled
    · next hopen =>
      rw [and_iff_right hopen]
      exact ⟨fun h => (Except.error.inj h).symm, fun he => congrArg Except.error he.symm⟩
  constructor
  · intro h
    rcases reads_or_first_unreadable arrivals with
      ⟨entries, hreads⟩ | ⟨read, a, rest, entries, rfl, hreads, ha⟩
    · cases (take_eq_fresh hreads hroom).symm.trans h
    · obtain ⟨hopen, he⟩ := (hfirst hreads ha).1 h
      exact ⟨read, a, rest, entries, rfl, hreads, hopen, ha, he⟩
  · rintro ⟨read, a, rest, entries, rfl, hreads, hopen, ha, he⟩
    exact (hfirst hreads ha).2 ⟨hopen, he⟩

private theorem take_eq_ok_iff {start : Int} {room : Nat} {boundary : Boundary}
    {arrivals : List Arrival} {taken : List Entry} (hroom : 0 < room) :
    take start room boundary arrivals = .ok taken ↔
      ∃ read rest entries, arrivals = read ++ rest ∧ List.Forall₂ Arrival.Reads read entries ∧
        taken = fresh start boundary entries ∧
        (taken.length = room ∨ taken.length < room ∧ rest = []) := by
  constructor
  · intro h
    obtain ⟨read, entries, ⟨rest, rfl⟩, hreads, htaken, hall, hstops⟩ := exists_reads_of_take h
    refine ⟨read, rest, entries, rfl, hreads, htaken, ?_⟩
    rcases Nat.lt_or_eq_of_le (hstops hroom).1 with hopen | hfilled
    · exact .inr ⟨hopen, List.self_eq_append_right.1 (hall hopen)⟩
    · exact .inl hfilled
  · rintro ⟨read, rest, entries, rfl, hreads, rfl, hfilled | ⟨hopen, rfl⟩⟩
    · rw [take_append hreads hroom, if_pos (Nat.le_of_eq hfilled.symm),
        List.take_of_length_le (Nat.le_of_eq hfilled)]
    · rw [List.append_nil, take_eq_fresh hreads hroom, List.take_of_length_le (Nat.le_of_lt hopen)]

section Verdicts

variable (limits : Limits) (late : Nat → Bool) (backend : Nat → Int → Exchange)

/-- The exchanges of a listing with a deadline: a page is not asked for once the deadline has
passed. -/
def behind : Nat → Int → Exchange := fun k start => if late k then .expired else backend k start

/-- How a turn fails: because it is late, because of its exchange, or because of the first entry
whose time cannot be read, if the lines that come before leave room. -/
inductive Turn.Fails (t : Turn) : Error → Prop
  | late : late t.asked → Fails t .cancelled
  | exchange {e : Error} : ¬ late t.asked → (backend t.asked t.start).Fails e → Fails t e
  | timestamp {streams : List Stream} {read rest : List Arrival} {a : Arrival}
      {entries : List Entry} :
      ¬ late t.asked → (backend t.asked t.start).Shows streams →
      streams.flatMap Stream.arrivals = read ++ a :: rest →
      List.Forall₂ Arrival.Reads read entries →
      (t.lines ++ fresh t.start t.boundary entries).length < limits.maxLines →
      ¬ IsTimestamp a.timestamp → Fails t (.invalidTimestamp a.timestamp)

/-- How a listing comes to its end in a turn: with an empty page, with the cap on its lines, or with
a page that no stream fills. -/
inductive Turn.Finishes (t : Turn) : List Entry → Prop
  | empty : ¬ late t.asked → (backend t.asked t.start).Shows [] → Finishes t t.lines
  | capped {streams : List Stream} {read rest : List Arrival} {entries : List Entry} :
      ¬ late t.asked → (backend t.asked t.start).Shows streams →
      streams.flatMap Stream.arrivals = read ++ rest →
      List.Forall₂ Arrival.Reads read entries →
      (t.lines ++ fresh t.start t.boundary entries).length = limits.maxLines →
      Finishes t (t.lines ++ fresh t.start t.boundary entries)
  | unfilled {streams : List Stream} {entries : List Entry} :
      ¬ late t.asked → (backend t.asked t.start).Shows streams →
      List.Forall₂ Arrival.Reads (streams.flatMap Stream.arrivals) entries →
      (t.lines ++ fresh t.start t.boundary entries).length < limits.maxLines →
      (∀ s ∈ streams, s.entries.length < limits.pageLimit) →
      Finishes t (t.lines ++ fresh t.start t.boundary entries)

end Verdicts

section Reached

variable {limits : Limits} {late : Nat → Bool} {backend : Nat → Int → Exchange} {t : Turn}

private theorem behind_page_eq_error_iff {k : Nat} {start : Int} {e : Error} :
    (behind late backend k start).page = .error e ↔
      late k ∧ e = .cancelled ∨ ¬ late k ∧ (backend k start).Fails e := by
  rw [Exchange.page_eq_error_iff, behind]
  split
  · next hlate =>
    refine ⟨fun h => .inl ⟨hlate, by cases h; rfl⟩, ?_⟩
    rintro (⟨-, rfl⟩ | ⟨hnot, -⟩)
    · exact .expired
    · exact absurd hlate hnot
  · next hnot =>
    refine ⟨fun h => .inr ⟨hnot, h⟩, ?_⟩
    rintro (⟨hlate, -⟩ | ⟨-, hfails⟩)
    · exact absurd hlate hnot
    · exact hfails

private theorem behind_page_eq_ok_iff {k : Nat} {start : Int} {streams : List Stream} :
    (behind late backend k start).page = .ok streams ↔
      ¬ late k ∧ (backend k start).Shows streams := by
  rw [Exchange.page_eq_ok_iff, behind]
  split
  · next hlate =>
    refine iff_of_false ?_ fun h => h.1 hlate
    rintro ⟨⟩
  · next hnot => rw [and_iff_right hnot]

private theorem ends_error_iff (hroom : t.lines.length < limits.maxLines) {e : Error} :
    Ends limits (fun k start => (behind late backend k start).page) t (.error e) ↔
      t.Fails limits late backend e := by
  have hsome : 0 < limits.maxLines - t.lines.length := Nat.sub_pos_of_lt hroom
  constructor
  · intro h
    cases h with
    | failed hpage =>
      rcases behind_page_eq_error_iff.1 hpage with ⟨hlate, rfl⟩ | ⟨hnot, hfails⟩
      · exact .late hlate
      · exact .exchange hnot hfails
    | unreadable hpage htake =>
      obtain ⟨hnot, hshows⟩ := behind_page_eq_ok_iff.1 hpage
      obtain ⟨read, a, rest, entries, harrive, hreads, hopen, ha, rfl⟩ :=
        (take_eq_error_iff hsome).1 htake
      refine .timestamp hnot hshows harrive hreads ?_ ha
      rw [List.length_append]
      omega
  · intro h
    cases h with
    | late hlate => exact .failed (behind_page_eq_error_iff.2 (.inl ⟨hlate, rfl⟩))
    | exchange hnot hfails => exact .failed (behind_page_eq_error_iff.2 (.inr ⟨hnot, hfails⟩))
    | timestamp hnot hshows harrive hreads hopen ha =>
      rw [List.length_append] at hopen
      exact .unreadable (behind_page_eq_ok_iff.2 ⟨hnot, hshows⟩)
        ((take_eq_error_iff hsome).2 ⟨_, _, _, _, harrive, hreads, by omega, ha, rfl⟩)

private theorem ends_ok_iff (hroom : t.lines.length < limits.maxLines) {lines : List Entry} :
    Ends limits (fun k start => (behind late backend k start).page) t (.ok lines) ↔
      t.Finishes limits late backend lines := by
  have hsome : 0 < limits.maxLines - t.lines.length := Nat.sub_pos_of_lt hroom
  constructor
  · intro h
    cases h with
    | filled hpage htake hfilled =>
      obtain ⟨hnot, hshows⟩ := behind_page_eq_ok_iff.1 hpage
      obtain ⟨read, rest, entries, harrive, hreads, rfl, hend⟩ := (take_eq_ok_iff hsome).1 htake
      refine .capped hnot hshows harrive hreads ?_
      rw [List.length_append]
      omega
    | exhausted hpage htake hopen hcursor =>
      obtain ⟨hnot, hshows⟩ := behind_page_eq_ok_iff.1 hpage
      obtain ⟨read, entries, -, hreads, rfl, hall, -⟩ := exists_reads_of_take htake
      rw [hall hopen] at hreads
      refine .unfilled hnot hshows hreads ?_ (length_lt_of_cursor? hreads hcursor)
      rw [List.length_append]
      omega
  · intro h
    cases h with
    | empty hnot hshows =>
      have hpage : (behind late backend t.asked t.start).page = .ok [] :=
        behind_page_eq_ok_iff.2 ⟨hnot, hshows⟩
      have hends : Ends limits (fun k start => (behind late backend k start).page) t
          (.ok (t.lines ++ [])) := .exhausted hpage rfl hsome rfl
      rwa [List.append_nil] at hends
    | capped hnot hshows harrive hreads hfilled =>
      rw [List.length_append] at hfilled
      exact .filled (behind_page_eq_ok_iff.2 ⟨hnot, hshows⟩)
        ((take_eq_ok_iff hsome).2 ⟨_, _, _, harrive, hreads, rfl, .inl (by omega)⟩) (by omega)
    | @unfilled streams entries hnot hshows hreads hopen hfew =>
      rw [List.length_append] at hopen
      refine .exhausted (behind_page_eq_ok_iff.2 ⟨hnot, hshows⟩)
        ((take_eq_ok_iff hsome).2 ⟨_, [], _, (List.append_nil _).symm, hreads, rfl,
          .inr ⟨by omega, rfl⟩⟩) (by omega) ?_
      -- a cursor would come from a stream that fills the page
      cases hcursor : cursor? limits.pageLimit streams with
      | none => rfl
      | some cursor =>
        obtain ⟨full, hmem, hlength, -⟩ := exists_full_of_cursor? hcursor
        exact absurd hlength (Nat.not_le.2 (hfew full hmem))

end Reached

end Paging

section Deadline

variable {limits : Limits} {late : Nat → Bool} {backend : Nat → Int → Exchange}
  {turns : List Paging.Turn} {t : Paging.Turn}

open Paging

/-- A turn that a listing comes to: no page before it failed the listing or was its last. -/
def Reached (limits : Limits) (late : Nat → Bool) (backend : Nat → Int → Exchange)
    (turns : List Turn) (t : Turn) : Prop :=
  Passes limits (fun k start => (behind late backend k start).page) .first turns t

theorem Reached.room (h : Reached limits late backend turns t) :
    t.lines.length < limits.maxLines :=
  (h.keeps (fun _ _ => Paid.step) (Paid.first limits)).room

private theorem Reached.in_time (h : Reached limits late backend turns t) :
    ∀ k < t.asked, ¬ late k := by
  refine h.keeps (P := fun t => ∀ k < t.asked, ¬ late k) ?_ fun k hk => absurd hk (Nat.not_lt_zero k)
  intro t t' ht hleads
  obtain ⟨streams, _, _, hpage, -, -, rfl⟩ := hleads.exists_entries
  intro k hk
  rcases Nat.lt_or_eq_of_le (Nat.le_of_lt_succ hk) with hearlier | rfl
  · exact ht k hearlier
  · exact (behind_page_eq_ok_iff.1 hpage).1

theorem Reached.listing (h : Reached limits late backend turns t)
    {result : Except Error (List Entry)}
    (hends : Ends limits (fun k start => (behind late backend k start).page) t result) :
    list limits (behind late backend) =
      ⟨result.map Output.ofEntries, 0 :: turns.map (·.start)⟩ :=
  list_of_passes h hends

private theorem exists_reached (limits : Limits) (late : Nat → Bool)
    (backend : Nat → Int → Exchange) :
    ∃ turns t, Reached limits late backend turns t ∧
      ((∃ e, t.Fails limits late backend e) ∨ ∃ lines, t.Finishes limits late backend lines) := by
  obtain ⟨turns, t, result, hpasses, hends, -, -⟩ := exists_turns_of_list limits (behind late backend)
  have hreached : Reached limits late backend turns t := hpasses
  refine ⟨turns, t, hreached, ?_⟩
  cases result with
  | error e => exact .inl ⟨e, (ends_error_iff hreached.room).1 hends⟩
  | ok lines => exact .inr ⟨lines, (ends_ok_iff hreached.room).1 hends⟩

private theorem Reached.result_of_fails (h : Reached limits late backend turns t) {e : Error}
    (hfails : t.Fails limits late backend e) :
    list limits (behind late backend) = ⟨.error e, 0 :: turns.map (·.start)⟩ :=
  h.listing ((ends_error_iff h.room).2 hfails)

private theorem Reached.result_of_finishes (h : Reached limits late backend turns t)
    {lines : List Entry} (hfinishes : t.Finishes limits late backend lines) :
    list limits (behind late backend) = ⟨.ok (.ofEntries lines), 0 :: turns.map (·.start)⟩ :=
  h.listing ((ends_ok_iff h.room).2 hfinishes)

private theorem Reached.one_of_three (h : Reached limits late backend turns t) :
    ((∃ next, Leads limits (fun k start => (behind late backend k start).page) t next) ↔
      (∀ e, ¬ t.Fails limits late backend e) ∧ ∀ lines, ¬ t.Finishes limits late backend lines) ∧
    ∀ e lines, ¬ (t.Fails limits late backend e ∧ t.Finishes limits late backend lines) := by
  refine ⟨⟨?_, ?_⟩, ?_⟩
  · rintro ⟨next, hleads⟩
    exact ⟨fun e hfails => hleads.not_ends ((ends_error_iff h.room).2 hfails),
      fun lines hfinishes => hleads.not_ends ((ends_ok_iff h.room).2 hfinishes)⟩
  · rintro ⟨hfails, hfinishes⟩
    rcases leads_or_ends limits (fun k start => (behind late backend k start).page) t with
      hleads | ⟨result, hends⟩
    · exact hleads
    · cases result with
      | error e => exact absurd ((ends_error_iff h.room).1 hends) (hfails e)
      | ok lines => exact absurd ((ends_ok_iff h.room).1 hends) (hfinishes lines)
  · rintro e lines ⟨hfails, hfinishes⟩
    have hsame := (h.result_of_fails hfails).symm.trans (h.result_of_finishes hfinishes)
    cases congrArg Listing.result hsame

private theorem Reached.list_congr (h : Reached limits late backend turns t) {e : Error}
    (hfails : t.Fails limits late backend e) {late' : Nat → Bool} {backend' : Nat → Int → Exchange}
    (hsame : ∀ k ≤ t.asked, late' k = late k ∧ backend' k = backend k) :
    list limits (behind late' backend') = list limits (behind late backend) := by
  have hpages : ∀ k ≤ t.asked, (fun start => (behind late backend k start).page) =
      fun start => (behind late' backend' k start).page := by
    intro k hk
    obtain ⟨hlate, hbackend⟩ := hsame k hk
    simp only [behind, hlate, hbackend]
  have hends := (ends_error_iff h.room).2 hfails
  rw [h.listing hends]
  exact list_of_passes (Passes.congr h fun k hk => hpages k (Nat.le_of_lt hk))
    (hends.congr (hpages _ (Nat.le_refl _)))

/-- The first page that fails decides: a listing fails with the error of a turn that it comes to,
and it succeeds with a turn that brings it to its end. A turn does one of these or leads on, and only
one. A failure depends on no later page, and no later page is asked for. -/
theorem first_failing_page_decides (limits : Limits) (late : Nat → Bool)
    (backend : Nat → Int → Exchange) :
    let listing := list limits (behind late backend)
    (∀ e, listing.result = .error e ↔
      ∃ turns t, Reached limits late backend turns t ∧ t.Fails limits late backend e) ∧
    (∀ output, listing.result = .ok output ↔
      ∃ turns t lines, Reached limits late backend turns t ∧
        t.Finishes limits late backend lines ∧ output = .ofEntries lines) ∧
    (∀ turns t, Reached limits late backend turns t →
      t.asked = turns.length ∧ (∀ k < t.asked, ¬ late k) ∧
      ((∃ next, Leads limits (fun k start => (behind late backend k start).page) t next) ↔
        (∀ e, ¬ t.Fails limits late backend e) ∧
          ∀ lines, ¬ t.Finishes limits late backend lines) ∧
      ∀ e lines, ¬ (t.Fails limits late backend e ∧ t.Finishes limits late backend lines)) ∧
    ∀ turns t e, Reached limits late backend turns t → t.Fails limits late backend e →
      listing.starts = 0 :: turns.map (·.start) ∧
      ∀ late' backend', (∀ k ≤ t.asked, late' k = late k ∧ backend' k = backend k) →
        list limits (behind late' backend') = listing := by
  intro listing
  obtain ⟨turns, t, hreached, hlast⟩ := exists_reached limits late backend
  refine ⟨fun e => ⟨fun h => ?_, ?_⟩, fun output => ⟨fun h => ?_, ?_⟩, fun turns t h => ?_,
    fun turns t e h hfails => ⟨?_, fun late' backend' hsame => h.list_congr hfails hsame⟩⟩
  · rcases hlast with ⟨e', hfails⟩ | ⟨lines, hfinishes⟩
    · have hresult := congrArg Listing.result (hreached.result_of_fails hfails)
      obtain rfl : e' = e := Except.error.inj (hresult.symm.trans h)
      exact ⟨turns, t, hreached, hfails⟩
    · have hresult := congrArg Listing.result (hreached.result_of_finishes hfinishes)
      cases hresult.symm.trans h
  · rintro ⟨turns, t, hreached, hfails⟩
    exact congrArg Listing.result (hreached.result_of_fails hfails)
  · rcases hlast with ⟨e, hfails⟩ | ⟨lines, hfinishes⟩
    · have hresult := congrArg Listing.result (hreached.result_of_fails hfails)
      cases hresult.symm.trans h
    · have hresult := congrArg Listing.result (hreached.result_of_finishes hfinishes)
      exact ⟨turns, t, lines, hreached, hfinishes, Except.ok.inj (h.symm.trans hresult)⟩
  · rintro ⟨turns, t, lines, hreached, hfinishes, rfl⟩
    exact congrArg Listing.result (hreached.result_of_finishes hfinishes)
  · have hasked : t.asked = turns.length := by
      have hfirst := Passes.asked_eq h
      rwa [Turn.first, Nat.zero_add] at hfirst
    exact ⟨hasked, h.in_time, h.one_of_three⟩
  · exact congrArg Listing.starts (h.result_of_fails hfails)

end Deadline

/-- A page that is full, and then an answer of another type, whose result is no list of streams. -/
def matrixBackend (k : Nat) (_ : Int) : Exchange :=
  .answered 200 <|
    if k = 0 then bodyOf ("[" ++ streamText .stdout "[\"1\",\"a\"],[\"2\",\"b\"]" ++ "]")
    else Text.Utf8.encode "\x7b\"data\":\x7b\"resultType\":\"matrix\",\"result\":7\x7d\x7d"

theorem matrixBackend_fails_second_page :
    let limits : Limits := ⟨2, 10, by decide, by decide⟩
    let late : Nat → Bool := fun k => 5 ≤ k
    ∃ turns t, Reached limits late matrixBackend turns t ∧ t.asked = 1 ∧
      t.Fails limits late matrixBackend (.unexpectedResultType "matrix") ∧
      (list limits (Paging.behind late matrixBackend)).starts = [0, 2] ∧
      ∀ late' backend',
        (∀ k ≤ 1, late' k = late k ∧ backend' k = matrixBackend k) →
        (list limits (Paging.behind late' backend')).result =
          .error (.unexpectedResultType "matrix") := by
  intro limits late
  have hlisting : (list limits (Paging.behind late matrixBackend)).result =
        .error (.unexpectedResultType "matrix") ∧
      (list limits (Paging.behind late matrixBackend)).starts = [0, 2] := by
    decide +kernel
  obtain ⟨hfails, -, hturn, hlast⟩ := first_failing_page_decides limits late matrixBackend
  obtain ⟨turns, t, hreached, ht⟩ := (hfails _).1 hlisting.1
  obtain ⟨hstarts, hlater⟩ := hlast turns t _ hreached ht
  have hlength : turns.length = 1 := by
    have hrest := congrArg List.length (List.tail_eq_of_cons_eq (hlisting.2.symm.trans hstarts))
    rw [List.length_map] at hrest
    exact hrest.symm
  have hasked : t.asked = 1 := (hturn turns t hreached).1.trans hlength
  refine ⟨turns, t, hreached, hasked, ht, hlisting.2, fun late' backend' hsame => ?_⟩
  rw [hlater late' backend' (hasked.symm ▸ hsame)]
  exact hlisting.1

end RunLedger.Logs
