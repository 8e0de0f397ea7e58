import RunLedger.Logs.Output
import RunLedger.Logs.Stream

/-!
Assembling a listing from pages. A backend answers at most a page's worth of entries a stream, from
a start time on. A stream that fills its page moves the start to its last time; since the start is
inclusive, the next page repeats the lines taken at that time, and as many copies of each are passed
over. Each page takes at least one line or clears what is to be passed over, so paging comes to an
end for every backend.
-/

set_option autoImplicit false

namespace RunLedger.Logs

/-- How many entries a page holds and how many lines a listing may have. -/
structure Limits where
  pageLimit : Nat
  maxLines : Nat
  pageLimit_pos : 0 < pageLimit
  maxLines_pos : 0 < maxLines

def Limits.new (pageLimit maxLines : Nat) : Except Error Limits :=
  if h : 0 < pageLimit ∧ 0 < maxLines then .ok ⟨pageLimit, maxLines, h.1, h.2⟩
  else .error (.config "page_limit and max_lines must be positive")

/-- A line that was taken, with its time in nanoseconds. -/
structure Entry where
  source : Source
  time : Int
  text : String
  deriving DecidableEq, Repr

/-- The line of an entry. Times of 64 bits are all in the range of instants. -/
def Entry.toLine (e : Entry) : Line :=
  ⟨(Time.Instant.ofNanos? e.time).getD .epoch, e.text⟩

/-- Entries divided by their source, in order. -/
def Output.ofEntries (entries : List Entry) : Output :=
  let linesOf (s : Source) := (entries.filter (·.source = s)).map Entry.toLine
  ⟨linesOf .stdout, linesOf .stderr⟩

namespace Paging

/-- Lines to be passed over when they arrive at the start time, as often as they stand here. -/
abbrev Boundary := List (Source × String)

/-- Takes entries until there is no room. The time of an entry is read when the entry is reached. -/
def take (start : Int) : Nat → Boundary → List Arrival → Except Error (List Entry)
  | _, _, [] => .ok []
  | room, boundary, a :: rest => do
    let time ← readTime a.timestamp
    if time = start ∧ (a.source, a.text) ∈ boundary then
      take start room (boundary.erase (a.source, a.text)) rest
    else if room ≤ 1 then return [⟨a.source, time, a.text⟩]
    else return ⟨a.source, time, a.text⟩ :: (← take start (room - 1) boundary rest)

/-- The last time of the last stream that fills its page. -/
def cursor? (pageLimit : Nat) (streams : List Stream) : Option Int := do
  let full ← (streams.filter (·.isFull pageLimit)).getLast?
  let last ← full.entries.getLast?
  (readTime last.1).toOption

/-- Where the next page starts. A page that does not move on is left behind by one nanosecond, which
leads out of a signed word of 64 bits from its largest number only. -/
def nextStart (start cursor : Int) : Int := if start < cursor then cursor else start + 1

/-- The lines that the next page will repeat. -/
def boundaryAt (start : Int) (taken : List Entry) : Boundary :=
  (taken.filter (·.time = start)).map fun e => (e.source, e.text)

/-- A page with an entry gives a line unless there is something to pass over. -/
private theorem take_ne_nil {start : Int} {room : Nat} {a : Arrival} {rest : List Arrival} :
    take start room [] (a :: rest) ≠ .ok [] := by
  unfold take
  cases readTime a.timestamp with
  | error e => simp [bind, Except.bind]
  | ok time =>
    simp only [bind, Except.bind, List.not_mem_nil, and_false, if_false, pure, Except.pure]
    split
    · simp
    · cases take start (room - 1) [] rest <;> simp

/-- A full stream has an entry. -/
private theorem arrivals_ne_nil {limits : Limits} {streams : List Stream} {cursor : Int}
    (h : cursor? limits.pageLimit streams = some cursor) :
    streams.flatMap Stream.arrivals ≠ [] := by
  intro hnil
  unfold cursor? at h
  cases hl : (streams.filter (·.isFull limits.pageLimit)).getLast? with
  | none => simp [hl, bind, Option.bind] at h
  | some full =>
    have hmem := List.mem_of_getLast? hl
    simp only [List.mem_filter, Stream.isFull, decide_eq_true_eq] at hmem
    have hpos := limits.pageLimit_pos
    have := (List.flatMap_eq_nil_iff.1 hnil) full hmem.1
    simp only [Stream.arrivals, List.map_eq_nil_iff] at this
    simp [this] at hmem
    omega

/-- A bound on the pages still to come. -/
def pagesLeft (limits : Limits) (lines : List Entry) (boundary : Boundary) : Nat :=
  2 * (limits.maxLines - lines.length) + if boundary.isEmpty then 0 else 1

/-- The entries of a listing, or why there is none, and the start times of the pages that it came
to. The backend is told how many pages came before. -/
def run (limits : Limits) (backend : Nat → Int → Except Error (List Stream)) (asked : Nat)
    (start : Int) (boundary : Boundary) (lines : List Entry) :
    Except Error (List Entry) × List Int :=
  match backend asked start with
  | .error e => (.error e, [start])
  | .ok streams =>
    let room := limits.maxLines - lines.length
    match _htake : take start room boundary (streams.flatMap Stream.arrivals) with
    | .error e => (.error e, [start])
    | .ok taken =>
      if room ≤ taken.length then (.ok (lines ++ taken), [start])
      else
        match _hcursor : cursor? limits.pageLimit streams with
        | none => (.ok (lines ++ taken), [start])
        | some cursor =>
          let start' := nextStart start cursor
          let (result, starts) :=
            run limits backend (asked + 1) start' (boundaryAt start' taken) (lines ++ taken)
          (result, start :: starts)
termination_by pagesLeft limits lines boundary
decreasing_by
  rename_i hroom
  have hne := arrivals_ne_nil _hcursor
  simp only [pagesLeft, List.length_append]
  cases taken with
  | nil =>
    have hb : boundary ≠ [] := by
      rintro rfl
      cases harr : streams.flatMap Stream.arrivals with
      | nil => exact hne harr
      | cons a rest => rw [harr] at _htake; exact take_ne_nil _htake
    have : boundary.isEmpty = false := by simpa using hb
    simp [boundaryAt, this]
  | cons e taken =>
    simp only [List.length_cons] at hroom ⊢
    split <;> split <;> omega

end Paging

/-- What came of listing, and the pages that it came to. -/
structure Listing where
  result : Except Error Output
  /-- The start times of the pages, in order. The last of them stands here as well when its deadline
  had passed before it was asked for, and the backend was sent nothing. -/
  starts : List Int

/-- Lists everything that a backend holds, from the beginning of 1970 on. A page that fails fails
the listing. -/
def list (limits : Limits) (backend : Nat → Int → Exchange) : Listing :=
  let (result, starts) := Paging.run limits (fun k start => (backend k start).page) 0 0 [] []
  ⟨result.map Output.ofEntries, starts⟩

end RunLedger.Logs
