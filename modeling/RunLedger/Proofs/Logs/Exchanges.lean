import RunLedger.Logs.Stream

/-!
What an answer is worth. A timestamp can be read when it is a whole number of 64 bits in decimal. An
exchange fails or shows streams, and what it fails with is decided in the order in which an answer is
judged: the deadline, the transport, the status, the form of the body, the type of the result and the
result itself.
-/

set_option autoImplicit false

namespace RunLedger

namespace Decimal

/-- A text in decimal and the number it stands for: an optional sign and at least one digit. -/
inductive Denotes : List Char → Int → Prop
  | plain {ds : List Char} : ds ≠ [] → (∀ c ∈ ds, isDigit c) → Denotes ds (value ds)
  | plus {ds : List Char} : ds ≠ [] → (∀ c ∈ ds, isDigit c) → Denotes ('+' :: ds) (value ds)
  | minus {ds : List Char} : ds ≠ [] → (∀ c ∈ ds, isDigit c) → Denotes ('-' :: ds) (-value ds)

private theorem nat?_eq_some_iff {cs : List Char} {n : Nat} :
    nat? cs = some n ↔ (cs ≠ [] ∧ ∀ c ∈ cs, isDigit c) ∧ n = value cs := by
  simp only [nat?, List.all_eq_true]
  split
  · next h => rw [Option.some.injEq, eq_comm, and_iff_right h]
  · next h => exact iff_of_false (by simp) fun hn => h hn.1

private theorem not_isDigit_sign : ¬ isDigit '+' ∧ ¬ isDigit '-' := by decide

private theorem int?_eq_some_iff {cs : List Char} {n : Int} : int? cs = some n ↔ Denotes cs n := by
  constructor
  · intro h
    unfold int? at h
    split at h <;> obtain ⟨m, hm, rfl⟩ := Option.map_eq_some_iff.1 h <;>
      obtain ⟨⟨hne, hall⟩, rfl⟩ := nat?_eq_some_iff.1 hm
    · exact .plus hne hall
    · exact .minus hne hall
    · exact .plain hne hall
  · intro h
    cases h with
    | plus hne hall => rw [int?, nat?_eq_some_iff.2 ⟨⟨hne, hall⟩, rfl⟩]; rfl
    | minus hne hall => rw [int?, nat?_eq_some_iff.2 ⟨⟨hne, hall⟩, rfl⟩]; rfl
    | plain hne hall =>
      unfold int?
      split
      · exact absurd (hall '+' List.mem_cons_self) not_isDigit_sign.1
      · exact absurd (hall '-' List.mem_cons_self) not_isDigit_sign.2
      · rw [nat?_eq_some_iff.2 ⟨⟨hne, hall⟩, rfl⟩]; rfl

private theorem int64?_eq_some_iff {cs : List Char} {n : Int} :
    int64? cs = some n ↔ Denotes cs n ∧ inInt64 n := by
  rw [int64?, Option.filter_eq_some_iff, int?_eq_some_iff, decide_eq_true_eq]

end Decimal

namespace Logs

/-- Whether a text stands for a whole number of 64 bits. -/
def IsTimestamp (raw : String) : Prop := ∃ t, Decimal.Denotes raw.toList t ∧ Decimal.inInt64 t

theorem exists_readTime_iff {raw : String} : (∃ t, readTime raw = .ok t) ↔ IsTimestamp raw := by
  simp only [IsTimestamp, ← Decimal.int64?_eq_some_iff, readTime]
  split
  · next t h => exact iff_of_true ⟨t, rfl⟩ ⟨t, h⟩
  · next h => exact iff_of_false (by simp) (by simp [h])

theorem readTime_eq_error_iff {raw : String} {e : Error} :
    readTime raw = .error e ↔ ¬ IsTimestamp raw ∧ e = .invalidTimestamp raw := by
  rw [← exists_readTime_iff, readTime]
  split
  · next t h => exact iff_of_false (by simp) fun hnone => hnone.1 ⟨t, rfl⟩
  · rw [Except.error.injEq, eq_comm, and_iff_right (by simp)]

namespace Exchange

/-- How an exchange fails. A status is judged before the body, the type of the result before the
result. -/
inductive Fails : Exchange → Error → Prop
  | expired : Fails .expired .cancelled
  | broken : Fails .broken .request
  | status {status : Nat} {body : List UInt8} : ¬ (200 ≤ status ∧ status ≤ 299) →
      Fails (.answered status body) (.backend status (Text.Utf8.lossy (Text.Utf8.decode body)))
  | form {status : Nat} {body : List UInt8} : 200 ≤ status ∧ status ≤ 299 →
      Json.Document.readText? readAnswer (Text.Utf8.decode body) = none →
      Fails (.answered status body) .decode
  | type {status : Nat} {body : List UInt8} {type : String} {result : Json.Value} :
      200 ≤ status ∧ status ≤ 299 →
      Json.Document.readText? readAnswer (Text.Utf8.decode body) = some (type, result) →
      type ≠ "streams" → Fails (.answered status body) (.unexpectedResultType type)
  | result {status : Nat} {body : List UInt8} {result : Json.Value} :
      200 ≤ status ∧ status ≤ 299 →
      Json.Document.readText? readAnswer (Text.Utf8.decode body) = some ("streams", result) →
      Json.Reader.list Stream.read Json.nestingLimit (.ofValue result) = none →
      Fails (.answered status body) .decode

/-- An exchange that shows streams: the answer of a success, of the right type. -/
inductive Shows : Exchange → List Stream → Prop
  | streams {status : Nat} {body : List UInt8} {result : Json.Value} {streams : List Stream} :
      200 ≤ status ∧ status ≤ 299 →
      Json.Document.readText? readAnswer (Text.Utf8.decode body) = some ("streams", result) →
      Json.Reader.list Stream.read Json.nestingLimit (.ofValue result) = some streams →
      Shows (.answered status body) streams

private theorem isSuccess_iff {status : Nat} : isSuccess status ↔ 200 ≤ status ∧ status ≤ 299 := by
  rw [isSuccess, Bool.and_eq_true, decide_eq_true_eq, decide_eq_true_eq]

theorem Fails.page {x : Exchange} {e : Error} (h : x.Fails e) : x.page = .error e := by
  cases h with
  | expired => rfl
  | broken => rfl
  | status hstatus => exact if_neg (mt isSuccess_iff.1 hstatus)
  | form hstatus hform =>
    rw [Exchange.page, if_pos (isSuccess_iff.2 hstatus), streams, hform]
  | type hstatus hform htype =>
    rw [Exchange.page, if_pos (isSuccess_iff.2 hstatus), streams, hform]
    exact if_pos htype
  | result hstatus hform hresult =>
    rw [Exchange.page, if_pos (isSuccess_iff.2 hstatus), streams, hform]
    simp only [ne_eq, not_true_eq_false, if_false, hresult]

theorem Shows.page {x : Exchange} {streams : List Stream} (h : x.Shows streams) :
    x.page = .ok streams := by
  cases h with
  | streams hstatus hform hresult =>
    rw [Exchange.page, if_pos (isSuccess_iff.2 hstatus), Exchange.streams, hform]
    simp only [ne_eq, not_true_eq_false, if_false, hresult]

/-- An exchange fails or shows streams. -/
private theorem fails_or_shows (x : Exchange) : (∃ e, x.Fails e) ∨ ∃ streams, x.Shows streams := by
  cases x with
  | expired => exact .inl ⟨_, .expired⟩
  | broken => exact .inl ⟨_, .broken⟩
  | answered status body =>
    by_cases hstatus : 200 ≤ status ∧ status ≤ 299
    · cases hform : Json.Document.readText? readAnswer (Text.Utf8.decode body) with
      | none => exact .inl ⟨_, .form hstatus hform⟩
      | some data =>
        obtain ⟨type, result⟩ := data
        by_cases htype : type = "streams"
        · subst htype
          cases hresult : Json.Reader.list Stream.read Json.nestingLimit (.ofValue result) with
          | none => exact .inl ⟨_, .result hstatus hform hresult⟩
          | some streams => exact .inr ⟨streams, .streams hstatus hform hresult⟩
        · exact .inl ⟨_, .type hstatus hform htype⟩
    · exact .inl ⟨_, .status hstatus⟩

theorem page_eq_error_iff {x : Exchange} {e : Error} : x.page = .error e ↔ x.Fails e := by
  refine ⟨fun h => ?_, Fails.page⟩
  rcases x.fails_or_shows with ⟨e', hfails⟩ | ⟨streams, hshows⟩
  · obtain rfl : e' = e := Except.error.inj (hfails.page.symm.trans h)
    exact hfails
  · cases hshows.page.symm.trans h

theorem page_eq_ok_iff {x : Exchange} {streams : List Stream} :
    x.page = .ok streams ↔ x.Shows streams := by
  refine ⟨fun h => ?_, Shows.page⟩
  rcases x.fails_or_shows with ⟨e, hfails⟩ | ⟨streams', hshows⟩
  · cases hfails.page.symm.trans h
  · obtain rfl : streams' = streams := Except.ok.inj (hshows.page.symm.trans h)
    exact hshows

end Exchange

end Logs

end RunLedger
