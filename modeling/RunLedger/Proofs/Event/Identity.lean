import Mathlib.Algebra.Group.Nat.Defs
import RunLedger.Proofs.Store.Redelivery

/-!
What the identity of an event tells apart. The three texts stand one after another in the bytes that
are hashed, each closed by a zero byte, and a text may hold zero characters of its own. So the bytes
determine the index and the texts in a row, but where one text ends and the next one begins only if
it is known how many zero characters the first two hold.
-/

set_option autoImplicit false

namespace RunLedger

/-- Two different messages with the same hash. -/
def Digest.Sha256.Collide (a b : List UInt8) : Prop := a ≠ b ∧ digest a = digest b

namespace Event

/-- What the identity of an event is derived from. -/
structure Parts where
  topic : String
  kind : String
  key : String
  index : UInt64
  deriving DecidableEq

namespace Parts

def bytes (p : Parts) : List UInt8 := Uid.identity p.topic p.kind p.key p.index

def uid (p : Parts) : Uid := .derive p.topic p.kind p.key p.index

def event (p : Parts) (filterKeys : List String) (payload : Json.Value) : Event :=
  .new p.topic p.kind p.key p.index filterKeys payload

/-- The three texts in a row, with a zero character between two of them. -/
def written (p : Parts) : String := p.topic ++ "\x00" ++ p.kind ++ "\x00" ++ p.key

end Parts

/-- How many characters of a text look like the end of a text. -/
def separators (s : String) : Nat := s.toList.count '\x00'

/-! ### The bytes -/

private theorem mod_eq_of_bigEndian {m n width : Nat} (h : bigEndian m width = bigEndian n width) :
    m % 256 ^ width = n % 256 ^ width := by
  induction width generalizing m n with
  | zero => rw [Nat.pow_zero, Nat.mod_one, Nat.mod_one]
  | succ width ih =>
    rw [bigEndian, bigEndian] at h
    obtain ⟨hhigh, hlow⟩ := List.append_inj' h rfl
    have hrest := ih hhigh
    have hlast : m % 256 = n % 256 := by
      have := congrArg UInt8.toNat (List.singleton_inj.1 hlow)
      rwa [UInt8.toNat_ofNat', UInt8.toNat_ofNat'] at this
    rw [Nat.pow_succ', Nat.mod_mul, Nat.mod_mul, hrest, hlast]

private theorem bigEndian_inj {i j : UInt64} :
    bigEndian i.toNat 8 = bigEndian j.toNat 8 ↔ i = j := by
  refine ⟨fun h => ?_, fun h => by rw [h]⟩
  have hmod := mod_eq_of_bigEndian h
  have hi := i.toNat_lt
  have hj := j.toNat_lt
  rw [Nat.mod_eq_of_lt (by omega), Nat.mod_eq_of_lt (by omega)] at hmod
  exact UInt64.toNat_inj.1 hmod

namespace Parts

variable {p q : Parts}

private theorem bytes_eq (p : Parts) :
    p.bytes = Text.Utf8.encode (p.written ++ "\x00") ++ bigEndian p.index.toNat 8 := by
  have hzero : Text.Utf8.encode "\x00" = [0] := by decide
  simp only [bytes, Uid.identity, written, Text.Utf8.encode_append, hzero, List.flatMap_cons,
    List.flatMap_nil, List.append_nil, List.append_assoc]

private theorem bytes_eq_iff : p.bytes = q.bytes ↔ p.written = q.written ∧ p.index = q.index := by
  constructor
  · intro h
    rw [bytes_eq, bytes_eq] at h
    -- The index has eight bytes in both, so the texts end at the same place.
    have hlength : (bigEndian p.index.toNat 8).length = (bigEndian q.index.toNat 8).length := by
      rw [length_bigEndian, length_bigEndian]
    obtain ⟨htexts, hindex⟩ := List.append_inj' h hlength
    exact ⟨(String.append_left_inj _).1 (Text.Utf8.encode_inj.1 htexts), bigEndian_inj.1 hindex⟩
  · rintro ⟨hwritten, hindex⟩
    rw [bytes_eq, bytes_eq, hwritten, hindex]

/-! ### The ends of the texts -/

private theorem split_at_separator {as as' bs bs' : List Char}
    (h : as ++ '\x00' :: bs = as' ++ '\x00' :: bs')
    (hcount : as.count '\x00' = as'.count '\x00') : as = as' ∧ bs = bs' := by
  rcases List.append_eq_append_iff.1 h with ⟨cs, rfl, htail⟩ | ⟨cs, rfl, htail⟩
  all_goals
    cases cs with
    | nil =>
      obtain ⟨-, hrest⟩ := List.cons.inj htail
      exact ⟨by rw [List.append_nil], by rw [hrest]⟩
    | cons c cs =>
      rw [List.cons_append] at htail
      obtain ⟨rfl, -⟩ := List.cons.inj htail
      simp only [List.count_append, List.count_cons_self] at hcount
      omega

private theorem eq_of_written (h : p.written = q.written) (hindex : p.index = q.index)
    (htopic : separators p.topic = separators q.topic)
    (hkind : separators p.kind = separators q.kind) : p = q := by
  have hchars := congrArg String.toList h
  simp only [written, String.toList_append, List.append_assoc] at hchars
  obtain ⟨htopics, hrest⟩ := split_at_separator hchars htopic
  obtain ⟨hkinds, hkeys⟩ := split_at_separator hrest hkind
  cases p
  cases q
  simp only [Parts.mk.injEq]
  exact ⟨String.toList_inj.1 htopics, String.toList_inj.1 hkinds, String.toList_inj.1 hkeys, hindex⟩

private theorem eq_iff : p = q ↔ p.bytes = q.bytes ∧ separators p.topic = separators q.topic ∧
    separators p.kind = separators q.kind := by
  constructor
  · rintro rfl
    exact ⟨rfl, rfl, rfl⟩
  · rintro ⟨hbytes, htopic, hkind⟩
    obtain ⟨hwritten, hindex⟩ := bytes_eq_iff.1 hbytes
    exact eq_of_written hwritten hindex htopic hkind

private theorem uid_eq_iff :
    p.uid = q.uid ↔ p.bytes = q.bytes ∨ Digest.Sha256.Collide p.bytes q.bytes := by
  have hdigest : p.uid = q.uid ↔ Digest.Sha256.digest p.bytes = Digest.Sha256.digest q.bytes :=
    Uid.mk.injEq _ _ ▸ Iff.rfl
  rw [hdigest, Digest.Sha256.Collide]
  constructor
  · intro h
    by_cases hbytes : p.bytes = q.bytes
    · exact .inl hbytes
    · exact .inr ⟨hbytes, h⟩
  · rintro (h | ⟨-, h⟩)
    · rw [h]
    · exact h

/-! ### What the store takes for a redelivery -/

/-- Of two events that are saved one after the other, the second one changes nothing exactly when
its identity is that of the first or was known before. -/
private theorem redelivered_iff {e f : Event} {t : Store.Tables} {deeds : List Store.Deed}
    (hrec : Store.EventHistory.Recorded ⟨t, deeds⟩) (he : e.IsAccepted) (hf : f.IsAccepted) :
    ∃ answer t₁ answer' t₂, t.saveEvent e = .ok (answer, t₁) ∧
      t₁.saveEvent f = .ok (answer', t₂) ∧
      (t₂ = t₁ ↔ e.uid = f.uid ∨ f.uid.toString ∈ t.events.map (·.uid)) := by
  obtain ⟨answer, t₁, hsave⟩ := Store.Tables.exists_saveEvent hrec he
  have hrec₁ := hrec.save hsave
  obtain ⟨answer', t₂, hsave'⟩ := Store.Tables.exists_saveEvent hrec₁ hf
  have hknown : f.uid.toString ∈ t₁.events.map (·.uid) ↔
      e.uid = f.uid ∨ f.uid.toString ∈ t.events.map (·.uid) := by
    have hsame : e.uid = f.uid ↔ f.uid.toString = e.uid.toString :=
      ⟨fun h => by rw [h], fun h => (Store.toString_injective h).symm⟩
    rw [hsame]
    rcases Store.Tables.saveEvent_cases hrec.marks hsave with
      ⟨rfl, row, hrow, huid, -⟩ | ⟨-, rfl, -, -⟩
    · refine ⟨.inr, fun h => h.elim (fun hsame => ?_) id⟩
      exact List.mem_map.2 ⟨row, hrow, huid.trans hsame.symm⟩
    · rw [Store.Tables.events_withNew, List.map_append, List.mem_append, or_comm]
      exact or_congr_left List.mem_singleton
  refine ⟨answer, t₁, answer', t₂, hsave, hsave', Iff.trans ?_ hknown⟩
  rcases Store.Tables.saveEvent_cases hrec₁.marks hsave' with
    ⟨rfl, row, hrow, huid, -⟩ | ⟨hnew, rfl, -, -⟩
  · exact ⟨fun _ => List.mem_map.2 ⟨row, hrow, huid⟩, fun _ => rfl⟩
  · refine ⟨fun h => ?_, fun h => absurd h hnew⟩
    have hlength := congrArg (·.events.length) h
    simp at hlength

/-- Events have the same identity exactly when their texts read the same in a row and their indices
are equal, unless their bytes are a collision of the hash. They are then the same in all four parts
if their topics and kinds hold equally many zero characters. The store takes the later one of two
such events for a redelivery, and no other event that it does not know. -/
theorem uid_determines_written_parts (p q : Parts)
    (hsafe : ¬ Digest.Sha256.Collide p.bytes q.bytes) :
    (p.bytes = q.bytes ↔ p.written = q.written ∧ p.index = q.index) ∧
    (p.uid = q.uid ↔ p.written = q.written ∧ p.index = q.index) ∧
    (p = q ↔ p.uid = q.uid ∧ separators p.topic = separators q.topic ∧
      separators p.kind = separators q.kind) ∧
    ∀ (keys keys' : List String) (payload payload' : Json.Value),
      (p.event keys payload).IsAccepted → (q.event keys' payload').IsAccepted →
      ∀ attempts : List Store.Attempt, ∃ answer t₁ answer' t₂,
        (Store.EventHistory.after attempts).tables.saveEvent (p.event keys payload) =
          .ok (answer, t₁) ∧
        t₁.saveEvent (q.event keys' payload') = .ok (answer', t₂) ∧
        (t₂ = t₁ ↔ (p.written = q.written ∧ p.index = q.index) ∨
          q.uid.toString ∈ (Store.EventHistory.after attempts).tables.events.map (·.uid)) := by
  have huid : p.uid = q.uid ↔ p.bytes = q.bytes := by
    rw [uid_eq_iff]
    exact or_iff_left hsafe
  refine ⟨bytes_eq_iff, huid.trans bytes_eq_iff, ?_, ?_⟩
  · rw [huid]
    exact eq_iff
  · intro keys keys' payload payload' hp hq attempts
    obtain ⟨answer, t₁, answer', t₂, hsave, hsave', hsame⟩ :=
      redelivered_iff (Store.EventHistory.recorded_after attempts) hp hq
    refine ⟨answer, t₁, answer', t₂, hsave, hsave', hsame.trans ?_⟩
    exact or_congr_left (huid.trans bytes_eq_iff)

/-- Two events of one index are told apart by their keys. -/
theorem uid_determines_parts_of_two_keys :
    let p : Parts := ⟨"Job", "JobRegistered", "a", 1⟩
    let q : Parts := ⟨"Job", "JobRegistered", "b", 1⟩
    ∃ answer t₁ answer' t₂, Store.Tables.empty.saveEvent (p.event [] .null) = .ok (answer, t₁) ∧
      t₁.saveEvent (q.event [] .null) = .ok (answer', t₂) ∧ t₂ ≠ t₁ := by
  intro p q
  have hsafe : ¬ Digest.Sha256.Collide p.bytes q.bytes := by
    have hhash : Digest.Sha256.digest p.bytes ≠ Digest.Sha256.digest q.bytes := by decide +kernel
    exact fun h => hhash h.2
  obtain ⟨-, -, -, hstore⟩ := uid_determines_written_parts p q hsafe
  obtain ⟨answer, t₁, answer', t₂, hsave, hsave', hsame⟩ :=
    hstore [] [] .null .null (by decide +kernel) (by decide +kernel) []
  refine ⟨answer, t₁, answer', t₂, hsave, hsave', fun h => ?_⟩
  rcases hsame.1 h with ⟨hwritten, -⟩ | hknown
  · exact absurd hwritten (by decide)
  · exact absurd hknown List.not_mem_nil

/-- A zero character moves the end of a text: two different events have the same bytes, and the
store keeps the first one only. -/
theorem separator_inside_text :
    let p : Parts := ⟨"Job", "JobRegistered", "a\x00b", 1⟩
    let q : Parts := ⟨"Job", "JobRegistered\x00a", "b", 1⟩
    p ≠ q ∧ p.bytes = q.bytes ∧ p.uid = q.uid ∧
      (Store.Tables.empty.afterSaves [p.event [] .null, q.event [] .null]).events =
        [Store.EventRow.rowOf (p.event [] .null)] ∧
      ¬ ∀ p q : Parts, ¬ Digest.Sha256.Collide p.bytes q.bytes → p.uid = q.uid → p = q := by
  intro p q
  have hne : p ≠ q := by decide
  have hbytes : p.bytes = q.bytes := bytes_eq_iff.2 ⟨by decide, rfl⟩
  have huid : p.uid = q.uid := uid_eq_iff.2 (.inl hbytes)
  refine ⟨hne, hbytes, huid, by decide +kernel, fun hclaim => ?_⟩
  exact hne (hclaim p q (fun h => h.1 hbytes) huid)

end Parts

end Event

end RunLedger
