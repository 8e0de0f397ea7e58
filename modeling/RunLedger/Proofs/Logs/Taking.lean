import Mathlib.Data.List.Forall2
import RunLedger.Logs.Paging

/-!
What one page adds to a listing. Lines that a page repeats are passed over exactly when the boundary
holds them in the order in which they arrive again; once the boundary is used up, lines are taken as
they arrive, as far as there is room. Main statement: whatever arrives, an entry of the start time is
passed over as often as the boundary holds it, and no other entry is.
-/

set_option autoImplicit false

namespace RunLedger.Logs

/-- What an arrival is recognised by at the start time. -/
def Arrival.key (a : Arrival) : Source × String := (a.source, a.text)

/-- Whether an arrival reads as an entry. -/
def Arrival.Reads (a : Arrival) (e : Entry) : Prop :=
  readTime a.timestamp = .ok e.time ∧ a.source = e.source ∧ a.text = e.text

/-- What an entry is recognised by at the start time. -/
def Entry.key (e : Entry) : Source × String := (e.source, e.text)

theorem Entry.eq_of_key {e f : Entry} (htime : e.time = f.time) (hkey : e.key = f.key) : e = f := by
  cases e
  cases f
  simp_all [Entry.key]

theorem inInt64_of_readTime {raw : String} {t : Int} (h : readTime raw = .ok t) :
    Decimal.inInt64 t := by
  unfold readTime at h
  split at h
  · next t' ht =>
    obtain rfl : t' = t := Except.ok.inj h
    exact of_decide_eq_true (Option.filter_eq_some_iff.1 ht).2
  · cases h

theorem exists_of_mem_forall₂ {α β : Type} {R : α → β → Prop} {xs : List α} {ys : List β}
    (h : List.Forall₂ R xs ys) {x : α} (hx : x ∈ xs) : ∃ y ∈ ys, R x y := by
  induction h with
  | nil => exact absurd hx List.not_mem_nil
  | @cons x' y xs ys hxy _ ih =>
    rcases List.mem_cons.1 hx with rfl | hx
    · exact ⟨y, List.mem_cons_self, hxy⟩
    · obtain ⟨y', hy', hxy'⟩ := ih hx
      exact ⟨y', List.mem_cons_of_mem _ hy', hxy'⟩

namespace Paging

theorem take_repeated {start : Int} {room : Nat} {again rest : List Arrival}
    (h : ∀ a ∈ again, readTime a.timestamp = .ok start) :
    take start room (again.map Arrival.key) (again ++ rest) = take start room [] rest := by
  induction again with
  | nil => rfl
  | cons a again ih =>
    have ha := h a (by simp)
    have hrest := ih fun b hb => h b (by simp [hb])
    have hmem : (a.source, a.text) ∈ (a :: again).map Arrival.key := by simp [Arrival.key]
    simp only [List.cons_append]
    rw [take, ha]
    simp only [bind, Except.bind, hmem, and_self, if_true]
    simpa [Arrival.key] using hrest

/-- Of the entries of a page those that are not passed over. -/
def fresh (start : Int) : Boundary → List Entry → List Entry
  | _, [] => []
  | boundary, e :: entries =>
    if e.time = start ∧ e.key ∈ boundary then fresh start (boundary.erase e.key) entries
    else e :: fresh start boundary entries

theorem fresh_cons (start : Int) (boundary : Boundary) (e : Entry) (entries : List Entry) :
    fresh start boundary (e :: entries) =
      if e.time = start ∧ e.key ∈ boundary then fresh start (boundary.erase e.key) entries
      else e :: fresh start boundary entries := rfl

theorem take_eq_fresh {start : Int} {room : Nat} {boundary : Boundary} {arrivals : List Arrival}
    {entries : List Entry} (h : List.Forall₂ Arrival.Reads arrivals entries) (hroom : 0 < room) :
    take start room boundary arrivals = .ok ((fresh start boundary entries).take room) := by
  induction h generalizing room boundary with
  | nil => exact congrArg Except.ok List.take_nil.symm
  | @cons a e arrivals entries hread _ ih =>
    obtain ⟨htime, hsource, htext⟩ := hread
    have hkey : (a.source, a.text) = e.key := by rw [Entry.key, hsource, htext]
    have he : (⟨a.source, e.time, a.text⟩ : Entry) = e := by rw [hsource, htext]
    rw [take, htime, fresh_cons]
    simp only [bind, Except.bind, pure, Except.pure, hkey, he]
    split
    · exact ih hroom
    · by_cases hlast : room ≤ 1
      · have hone : room = 1 := by omega
        simp [hone]
      · obtain ⟨room, rfl⟩ : ∃ r, room = r + 1 := ⟨room - 1, by omega⟩
        rw [if_neg hlast, ih (by omega)]
        rfl

private theorem fresh_nil (start : Int) (entries : List Entry) :
    fresh start [] entries = entries := by
  induction entries with
  | nil => rfl
  | cons e entries ih => rw [fresh_cons, if_neg (by simp), ih]

theorem take_fresh {start : Int} {room : Nat} {arrivals : List Arrival} {entries : List Entry}
    (h : List.Forall₂ Arrival.Reads arrivals entries) (hroom : 0 < room) :
    take start room [] arrivals = .ok (entries.take room) := by
  rw [take_eq_fresh h hroom, fresh_nil]

/-- What was taken of a page are the fresh entries of as much of it as was read, which is all of it
when there is room left. Nothing is read when there is no room left. -/
theorem exists_reads_of_take {start : Int} {room : Nat} {boundary : Boundary}
    {arrivals : List Arrival} {taken : List Entry}
    (h : take start room boundary arrivals = .ok taken) :
    ∃ read entries, read <+: arrivals ∧ List.Forall₂ Arrival.Reads read entries ∧
      taken = fresh start boundary entries ∧ (taken.length < room → read = arrivals) ∧
      (0 < room → taken.length ≤ room ∧
        ∀ n < entries.length, (fresh start boundary (entries.take n)).length < room) := by
  induction arrivals generalizing room boundary taken with
  | nil =>
    obtain rfl : [] = taken := Except.ok.inj h
    exact ⟨[], [], List.nil_prefix, .nil, rfl, fun _ => rfl, fun _ => ⟨Nat.zero_le _, nofun⟩⟩
  | cons a arrivals ih =>
    rw [take] at h
    cases htime : readTime a.timestamp with
    | error e =>
      rw [htime] at h
      cases h
    | ok time =>
      rw [htime] at h
      simp only [bind, Except.bind, pure, Except.pure] at h
      let e : Entry := ⟨a.source, time, a.text⟩
      have hread : a.Reads e := ⟨htime, rfl, rfl⟩
      split at h
      · next hskip =>
        have hfresh (rest : List Entry) :
            fresh start boundary (e :: rest) = fresh start (boundary.erase e.key) rest :=
          if_pos hskip
        obtain ⟨read, entries, hpart, hreads, rfl, hall, hstops⟩ := ih h
        refine ⟨a :: read, e :: entries, (List.prefix_cons_inj a).2 hpart, .cons hread hreads,
          (hfresh entries).symm, fun hroom => by rw [hall hroom],
          fun hroom => ⟨(hstops hroom).1, ?_⟩⟩
        rintro (_ | n) hn
        · exact hroom
        · rw [List.take_succ_cons, hfresh]
          exact (hstops hroom).2 n (Nat.lt_of_succ_lt_succ hn)
      · next hkeep =>
        have hfresh (rest : List Entry) :
            fresh start boundary (e :: rest) = e :: fresh start boundary rest := if_neg hkeep
        split at h
        · next hlast =>
          obtain rfl := Except.ok.inj h
          refine ⟨[a], [e], by simp, .cons hread .nil, (hfresh []).symm, ?_,
            fun hroom => ⟨hroom, ?_⟩⟩
          · intro hroom
            rw [List.length_singleton] at hroom
            omega
          · intro n hn
            obtain rfl : n = 0 := Nat.lt_one_iff.1 hn
            exact hroom
        · next hmore =>
          cases hrest : take start (room - 1) boundary arrivals with
          | error e =>
            rw [hrest] at h
            cases h
          | ok rest =>
            rw [hrest] at h
            obtain rfl := Except.ok.inj h
            obtain ⟨read, entries, hpart, hreads, rfl, hall, hstops⟩ := ih hrest
            obtain ⟨hwithin, hstops⟩ := hstops (by omega)
            refine ⟨a :: read, e :: entries, (List.prefix_cons_inj a).2 hpart,
              .cons hread hreads, (hfresh entries).symm, ?_, fun hroom => ⟨?_, ?_⟩⟩
            · intro hroom
              rw [List.length_cons] at hroom
              rw [hall (by omega)]
            · rw [List.length_cons]
              omega
            · rintro (_ | n) hn
              · exact hroom
              · have hless := hstops n (Nat.lt_of_succ_lt_succ hn)
                rw [List.take_succ_cons, hfresh, List.length_cons]
                omega

/-- Entries are passed over at the start time only, each as often as the boundary holds it. -/
theorem count_fresh (start : Int) (boundary : Boundary) (entries : List Entry) (e : Entry) :
    (fresh start boundary entries).count e =
      if e.time = start then entries.count e - boundary.count e.key else entries.count e := by
  induction entries generalizing boundary with
  | nil =>
    have hnone : fresh start boundary [] = [] := rfl
    rw [hnone, List.count_nil, Nat.zero_sub, ite_self]
  | cons f entries ih =>
    rw [fresh_cons]
    split
    · next hskip =>
      obtain ⟨hstart, hmem⟩ := hskip
      have hpos : 0 < boundary.count f.key := List.count_pos_iff.2 hmem
      rw [ih, List.count_cons, List.count_erase]
      by_cases hfe : f = e
      · subst hfe
        simp only [hstart, if_true, beq_self_eq_true]
        omega
      · by_cases hkey : f.key = e.key
        · have hother : e.time ≠ start := fun htime =>
            hfe (Entry.eq_of_key (hstart.trans htime.symm) hkey)
          simp [hfe, hother]
        · simp [hfe, hkey]
    · next hkeep =>
      rw [List.count_cons, List.count_cons, ih]
      by_cases hfe : f = e
      · subst hfe
        by_cases hstart : f.time = start
        · have hnone : boundary.count f.key = 0 :=
            List.count_eq_zero.2 fun hmem => hkeep ⟨hstart, hmem⟩
          simp [hstart, hnone]
        · simp [hstart]
      · simp [hfe]

theorem fresh_sublist (start : Int) (boundary : Boundary) (entries : List Entry) :
    (fresh start boundary entries).Sublist entries := by
  induction entries generalizing boundary with
  | nil => exact .slnil
  | cons e entries ih =>
    rw [fresh_cons]
    split
    · exact (ih _).cons e
    · exact (ih _).cons_cons e

theorem length_le_fresh (start : Int) (boundary : Boundary) (entries : List Entry) :
    entries.length ≤ (fresh start boundary entries).length + boundary.length := by
  induction entries generalizing boundary with
  | nil => exact Nat.zero_le _
  | cons e entries ih =>
    rw [fresh_cons]
    split
    · next hskip =>
      have hrest := ih (boundary.erase e.key)
      have hpos : 0 < boundary.length := List.length_pos_of_mem hskip.2
      rw [List.length_erase_of_mem hskip.2] at hrest
      rw [List.length_cons]
      omega
    · have hrest := ih boundary
      rw [List.length_cons, List.length_cons]
      omega

theorem count_boundaryAt (start : Int) (taken : List Entry) {e : Entry} (he : e.time = start) :
    (boundaryAt start taken).count e.key = taken.count e := by
  rw [boundaryAt]
  induction taken with
  | nil => rfl
  | cons f taken ih =>
    by_cases hf : f.time = start
    · rw [List.filter_cons_of_pos (by simpa using hf), List.map_cons, List.count_cons,
        List.count_cons, ih]
      have hsame : ((f.source, f.text) == e.key) = (f == e) := by
        rw [Bool.eq_iff_iff, beq_iff_eq, beq_iff_eq]
        constructor
        · exact fun hkey => Entry.eq_of_key (hf.trans he.symm) hkey
        · rintro rfl
          rfl
      rw [hsame]
    · have hne : f ≠ e := by
        rintro rfl
        exact hf he
      rw [List.filter_cons_of_neg (by simpa using hf), ih, List.count_cons_of_ne hne]

end Paging

end RunLedger.Logs
