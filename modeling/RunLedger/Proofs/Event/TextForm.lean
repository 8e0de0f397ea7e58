import RunLedger.Proofs.Json.Forms
import RunLedger.Proofs.Store.EventRows

/-!
The text form of an identity. Sixty-four digits in either case are read and nothing else, and what
is read is written in lower case. So an identity has one written form, and the store, which finds
events by what is written, finds the same event for two texts exactly when they differ at most in
the case of their letters.
-/

set_option autoImplicit false

namespace RunLedger

namespace Event.Uid

variable {s s' : String} {uid : Uid}

private theorem isSome_parse?_iff : (parse? s).isSome = true ↔
    s.length = 64 ∧ ∀ c ∈ s.toList, c ∈ "0123456789abcdefABCDEF".toList := by
  rw [parse?, Option.isSome_map, Octets.isSome_ofHex?_iff, String.length_toList]
  simp only [Text.Hex.isSome_value?_iff]

private theorem toList_toLower (s : String) : s.toLower.toList = s.toList.map Char.toLower :=
  String.toList_map

private theorem toString_of_parse? (h : parse? s = some uid) : uid.toString = s.toLower := by
  obtain ⟨octets, hread, rfl⟩ := Option.map_eq_some_iff.1 h
  rw [toString, Octets.toHex_of_ofHex? hread, ← toList_toLower, String.ofList_toList]

private theorem parse?_toLower (s : String) : parse? s.toLower = parse? s := by
  rw [parse?, parse?, toList_toLower, Octets.ofHex?, Octets.ofHex?,
    Text.Hex.decode?_map_toLower]

private theorem parse?_eq_of_toLower_eq (h : s.toLower = s'.toLower) : parse? s' = parse? s := by
  rw [← parse?_toLower, ← h, parse?_toLower]

end Event.Uid

namespace Store

open Event (Uid)

/-- The stored event that a text names. -/
def Tables.named? (t : Tables) (s : String) : Option EventRow :=
  (Uid.parse? s).bind fun uid => t.findEvent? uid.toString

variable {t : Tables} {s s' : String} {row : EventRow} {handled : Bool} {e : Event}

private theorem Tables.named?_eq_some_iff :
    t.named? s = some row ↔ ∃ uid, Uid.parse? s = some uid ∧ row.uid = uid.toString ∧
      t.findEvent? row.uid = some row := by
  rw [named?, Option.bind_eq_some_iff]
  constructor
  · rintro ⟨uid, hread, hfound⟩
    have huid : row.uid = uid.toString := by simpa using List.find?_some hfound
    exact ⟨uid, hread, huid, huid ▸ hfound⟩
  · rintro ⟨uid, hread, huid, hfound⟩
    exact ⟨uid, hread, huid ▸ hfound⟩

private theorem EventRow.toEvent_with_uid (h : row.toEvent handled = .ok e) {uid : Uid}
    (hread : Uid.parse s = .ok uid) :
    { row with uid := s }.toEvent handled = .ok { e with uid } := by
  obtain ⟨-, hkeys, hpayload, hindex, hsame⟩ := toEvent_eq_ok_iff.1 h
  refine toEvent_eq_ok_iff.2 ⟨hread, hkeys, hpayload, hindex, ?_⟩
  rw [hsame]

end Store

namespace Event.Uid

open Store (EventRow Tables)

/-- Reading takes sixty-four digits in either case and nothing else, and gives the identity whose
written form is the text in lower case; so each identity reads back from its one written form. Two
texts name the same stored event exactly when they differ at most in the case of their letters. A
text in JSON and a text in the column of a row are read in the same way, and an identity comes back
from both. -/
theorem written_form_is_canonical :
    (∀ s : String, (∃ uid, parse s = .ok uid) ↔
      s.length = 64 ∧ ∀ c ∈ s.toList, c ∈ "0123456789abcdefABCDEF".toList) ∧
    (∀ (s : String) (uid : Uid), parse s = .ok uid → uid.toString = s.toLower) ∧
    (∀ uid : Uid, parse uid.toString = .ok uid) ∧
    (∀ (t : Tables) (s s' : String) (row : EventRow), t.named? s = some row →
      (t.named? s' = some row ↔ s.toLower = s'.toLower)) ∧
    (∀ s : String, Json.Document.readString? read (Json.Value.text s).print = parse? s) ∧
    (∀ uid : Uid, Json.Document.readString? read uid.toJson.print = some uid) ∧
    (∀ (e : Event) (row : EventRow), EventRow.ofEvent e = .ok row → row.uid = e.uid.toString) ∧
    ∀ (row : EventRow) (handled : Bool) (e : Event), row.toEvent handled = .ok e →
      e.uid.toString = row.uid.toLower ∧
      (∀ uid : Uid, { row with uid := uid.toString }.toEvent handled = .ok { e with uid }) ∧
      ∀ s : String, (∃ e', { row with uid := s }.toEvent handled = .ok e') ↔
        ∃ uid, parse s = .ok uid := by
  refine ⟨fun s => ?_, fun s uid h => toString_of_parse? (parse_eq_ok.1 h),
    parse_toString, fun t s s' row h => ?_, fun s => ?_, fun uid => ?_,
    fun e row h => ?_, fun row handled e h => ⟨?_, fun uid => ?_, fun s => ?_⟩⟩
  · rw [← isSome_parse?_iff, Option.isSome_iff_exists]
    simp only [parse_eq_ok]
  · obtain ⟨uid, hread, huid, hfound⟩ := Store.Tables.named?_eq_some_iff.1 h
    constructor
    · intro h'
      obtain ⟨uid', hread', huid', -⟩ := Store.Tables.named?_eq_some_iff.1 h'
      rw [← toString_of_parse? hread, ← toString_of_parse? hread', ← huid, ← huid']
    · intro hsame
      have hread' : parse? s' = some uid := by rw [parse?_eq_of_toLower_eq hsame, hread]
      exact Store.Tables.named?_eq_some_iff.2 ⟨uid, hread', huid, hfound⟩
  · rw [Json.readString?_print]
    rfl
  · exact uid.readsBack_toJson.readString? (by simp [toJson, Json.Value.depth])
  · rw [EventRow.ofEvent_eq_ok h]
    rfl
  · exact toString_of_parse? (parse_eq_ok.1 (EventRow.toEvent_eq_ok_iff.1 h).1)
  · exact Store.EventRow.toEvent_with_uid h uid.parse_toString
  · constructor
    · rintro ⟨e', he'⟩
      exact ⟨e'.uid, (EventRow.toEvent_eq_ok_iff.1 he').1⟩
    · rintro ⟨uid, hread⟩
      exact ⟨_, Store.EventRow.toEvent_with_uid h hread⟩

/-- An event is found by its identity in upper case as it is by the one in lower case, and its row
reads as it. -/
theorem written_form_of_repeated_digit :
    let upper := String.ofList (List.replicate 64 'A')
    let lower := String.ofList (List.replicate 64 'a')
    let uid : Uid := ⟨⟨List.replicate 32 0xAA, rfl⟩⟩
    let row : EventRow := ⟨uid.toString, "Job", "JobRegistered", "k", "[]", 1, "null"⟩
    let t : Tables := { Tables.empty with events := [row] }
    parse upper = .ok uid ∧ uid.toString = upper.toLower ∧
      t.named? upper = some row ∧ t.named? lower = some row ∧
      ∃ e, row.toEvent false = .ok e ∧ e.uid.toString = row.uid.toLower := by
  intro upper lower uid row t
  obtain ⟨-, hwritten, -, hnamed, -, -, -, hcolumn⟩ := written_form_is_canonical
  have hread : parse upper = .ok uid := by decide +kernel
  have hfound : t.named? upper = some row := by decide +kernel
  have hsame : upper.toLower = lower.toLower := by
    rw [← String.toList_inj, toList_toLower, toList_toLower]
    decide +kernel
  have hrow : (row.toEvent false).toBool = true := by decide +kernel
  obtain ⟨e, he⟩ : ∃ e, row.toEvent false = .ok e := by
    cases hresult : row.toEvent false with
    | error fault =>
      rw [hresult] at hrow
      cases hrow
    | ok e => exact ⟨e, rfl⟩
  exact ⟨hread, hwritten upper uid hread, hfound, (hnamed t upper lower row hfound).2 hsame, e, he,
    (hcolumn row false e he).1⟩

end Event.Uid

end RunLedger
