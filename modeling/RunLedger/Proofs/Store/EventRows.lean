import RunLedger.Proofs.Json.Reread
import RunLedger.Proofs.Store.SavedEvents

/-!
Rows of events that are read again. Everything but the payload comes back as it was, filter keys
included; the payload comes back as the value that its text denotes, and a row can be read exactly
when its payload can.
-/

set_option autoImplicit false

namespace RunLedger

namespace Json

private theorem ofPrintedItems_texts (ss : List String) :
    Document.ofPrintedItems (ss.map Value.text) = ss.map fun s => .text (some s) := by
  induction ss with
  | nil => rfl
  | cons s ss ih =>
    rw [List.map_cons, Document.ofPrintedItems, ih, Document.ofPrinted, List.map_cons]

private theorem mapM_text (room : Nat) (ss : List String) :
    (ss.map fun s => Document.text (some s)).mapM (Reader.text room) = some ss := by
  induction ss with
  | nil => rfl
  | cons s ss ih =>
    rw [List.map_cons, List.mapM_cons, ih]
    rfl

private theorem readString?_print_texts (ss : List String) :
    Document.readString? (.list .text) (Value.texts ss).print = some ss := by
  rw [readString?_print, Value.texts, Document.ofPrinted, ofPrintedItems_texts]
  exact mapM_text _ ss

end Json

/-- What an event may read as when it was stored: the same but for its mark, with the payload that
its text denotes. -/
structure Event.ReadsAs (handed read : Event) : Prop where
  same : read = { handed with payload := read.payload, handled := read.handled }
  payload : Json.Value.parse? handed.payload.print = some read.payload
  reread : handed.payload.WellFormed → read.payload = handed.payload.reread

namespace Store.EventRow

theorem toEvent_rowOf_eq_ok {e read : Event} {handled : Bool} :
    (rowOf e).toEvent handled = .ok read ↔ e.ReadsAs read ∧ read.handled = handled := by
  have hindex : UInt64.ofNat (e.index.toNat : Int).toNat = e.index := by
    rw [Int.toNat_natCast, UInt64.ofNat_toNat]
  rw [toEvent_eq_ok_iff]
  simp only [rowOf, Event.Uid.parse_toString, Json.readString?_print_texts, hindex]
  constructor
  · rintro ⟨huid, hkeys, hpayload, -, hsame⟩
    have huid : e.uid = read.uid := Except.ok.inj huid
    have hkeys : e.filterKeys = read.filterKeys := Option.some.inj hkeys
    refine ⟨⟨?_, hpayload, fun hwell => Json.Value.parse?_print_eq hwell hpayload⟩, ?_⟩
    · rw [hsame, huid, hkeys]
    · rw [hsame]
  · rintro ⟨hreads, rfl⟩
    rw [hreads.same]
    exact ⟨rfl, rfl, hreads.payload, by omega, rfl⟩

theorem toEvent_rowOf_with {e read : Event} (h : e.ReadsAs read) (handled : Bool) :
    (rowOf e).toEvent handled = .ok { read with handled } := by
  refine toEvent_rowOf_eq_ok.2 ⟨⟨?_, h.payload, h.reread⟩, rfl⟩
  rw [h.same]

end Store.EventRow

end RunLedger
