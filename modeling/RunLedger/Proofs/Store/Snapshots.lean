import RunLedger.Proofs.Json.Members
import RunLedger.Proofs.Store.SavedEvents
import RunLedger.Store.Projection

/-!
Snapshots of allocations in stored events. What the store finds in the text of a payload is compared
with the members of the payload itself.
-/

set_option autoImplicit false

namespace RunLedger

open Json (Value)

namespace Allocation

private theorem members_of_parse {fields : List (String × Value)} {a : Allocation}
    (h : Allocation.parse (Value.record fields).print = .ok a) :
    fields.lookup "ID" = some (.text a.id) ∧ fields.lookup "JobID" = some (.text a.jobId) ∧
      (fields.lookup "CreateTime" = none ∧ a.createTime = 0 ∨
        ∃ n : Json.Number, fields.lookup "CreateTime" = some (.number n) ∧
          n.int? = some a.createTime ∧ Decimal.inInt64 a.createTime) := by
  rw [Allocation.parse, Json.readString?_print] at h
  cases hread : Allocation.read Json.nestingLimit (.ofPrinted (.record fields)) with
  | none =>
    rw [hread] at h
    cases h
  | some b =>
    rw [hread] at h
    cases h
    obtain ⟨slot, hslot, h⟩ := Option.bind_eq_some_iff.1 hread
    obtain ⟨id, hid, h⟩ := Option.bind_eq_some_iff.1 h
    obtain ⟨name, -, h⟩ := Option.bind_eq_some_iff.1 h
    obtain ⟨nodeId, -, h⟩ := Option.bind_eq_some_iff.1 h
    obtain ⟨jobId, hjobId, h⟩ := Option.bind_eq_some_iff.1 h
    obtain ⟨taskGroup, -, h⟩ := Option.bind_eq_some_iff.1 h
    obtain ⟨desiredStatus, -, h⟩ := Option.bind_eq_some_iff.1 h
    obtain ⟨clientStatus, -, h⟩ := Option.bind_eq_some_iff.1 h
    obtain ⟨clientDescription, -, h⟩ := Option.bind_eq_some_iff.1 h
    obtain ⟨taskStates, -, h⟩ := Option.bind_eq_some_iff.1 h
    obtain ⟨createIndex, -, h⟩ := Option.bind_eq_some_iff.1 h
    obtain ⟨modifyIndex, -, h⟩ := Option.bind_eq_some_iff.1 h
    obtain ⟨createTime, hcreateTime, h⟩ := Option.bind_eq_some_iff.1 h
    obtain ⟨modifyTime, -, h⟩ := Option.bind_eq_some_iff.1 h
    cases h
    refine ⟨Json.lookup_of_required hslot (by decide) hid,
      Json.lookup_of_required hslot (by decide) hjobId, ?_⟩
    rcases Json.lookup_of_withDefault hslot (by decide) hcreateTime with hnone | ⟨v, hv, htime⟩
    · exact .inl hnone
    · obtain ⟨n, rfl, hint, hrange⟩ := Json.exists_number_of_int htime
      exact .inr ⟨n, hv, hint, hrange⟩

end Allocation

namespace Event

/-- Whether an event tells of an allocation. -/
def tellsOfAllocation (e : Event) : Bool :=
  e.topic = allocationTopic && e.kind = allocationUpdated

/-- The allocation that an event carries, as JSON. -/
def member? (e : Event) : Option Value := e.payload.field? "Allocation"

/-- Whether an event tells of an allocation of a job. -/
def tellsOf (job : Uuid) (e : Event) : Bool :=
  e.tellsOfAllocation && match e.member?.bind (·.field? "JobID") with
    | some (.text s) => s = job.toString
    | _ => false

/-- Whether an allocation is what the allocation in an event reads as. -/
def Carries (e : Event) (a : Allocation) : Prop :=
  ∃ member, e.member? = some member ∧ Allocation.parse member.print = .ok a

end Event

namespace Store.Snapshot

open Json (Relaxed)

def ofEvent? (e : Event) : Option Snapshot :=
  if e.tellsOfAllocation then
    some ⟨e.index.toNat, (Relaxed.ofValue e.payload).field? "Allocation"⟩
  else none

theorem ofRow?_rowOf {e : Event} (h : e.payload.depth ≤ Json.nestingLimit) :
    ofRow? (EventRow.rowOf e) = ofEvent? e := by
  have hroom : e.payload.depth ≤ Relaxed.nestingLimit := by
    have hlimits : Json.nestingLimit ≤ Relaxed.nestingLimit := by decide
    omega
  unfold ofRow? ofEvent? Event.tellsOfAllocation EventRow.rowOf
  rw [Relaxed.parse?_print hroom]
  simp

variable {e : Event} {s : Snapshot} {job : Uuid} {a : Allocation}

theorem ofEvent?_eq_some (h : ofEvent? e = some s) :
    e.tellsOfAllocation = true ∧
      s = ⟨e.index.toNat, (Relaxed.ofValue e.payload).field? "Allocation"⟩ := by
  unfold ofEvent? at h
  split at h
  · next htells => exact ⟨htells, (Option.some.inj h).symm⟩
  · cases h

private theorem exists_of_field? (h : ofEvent? e = some s) {name : String} {r : Relaxed}
    (hfield : s.field? name = some r) : ∃ v, r = Relaxed.ofValue v := by
  obtain ⟨-, rfl⟩ := ofEvent?_eq_some h
  obtain ⟨found, hfound, hr⟩ := Option.bind_eq_some_iff.1 hfield
  obtain ⟨-, f, -, -, rfl⟩ := Relaxed.exists_of_field?_ofValue hfound
  obtain ⟨-, g, -, -, hg⟩ := Relaxed.exists_of_field?_ofValue hr
  exact ⟨g.2, hg⟩

theorem canUse_ofEvent? (h : ofEvent? e = some s) (name : String) : s.canUse name = true := by
  unfold canUse
  cases hfield : s.field? name with
  | none => rfl
  | some r =>
    obtain ⟨v, rfl⟩ := exists_of_field? h hfield
    exact Relaxed.isComputable_ofValue v

private theorem field?_of_member {member w : Value} {name : String} (hwell : e.payload.WellFormed)
    (hmember : e.member? = some member) (h : ofEvent? e = some s)
    (hplain : Json.comparedName name = Relaxed.codesOf name) (hw : member.field? name = some w) :
    s.field? name = some (Relaxed.ofValue w) := by
  obtain ⟨-, rfl⟩ := ofEvent?_eq_some h
  have hfound := Relaxed.field?_ofValue hwell (by decide) hmember
  rw [field?, hfound]
  exact Relaxed.field?_ofValue (hwell.of_field? hmember) hplain hw

private theorem key?_of_text {name text : String}
    (h : s.field? name = some (Relaxed.ofValue (.text text))) :
    (s.field? name).bind (·.key?) = some (Relaxed.codesOf text) := by
  rw [h]
  exact congrArg some (Relaxed.Part.codes_ofString text)

theorem exists_isOf_of_tellsOf (hwell : e.payload.WellFormed) (h : e.tellsOf job = true) :
    ∃ s, ofEvent? e = some s ∧ s.isOf job = true := by
  unfold Event.tellsOf at h
  obtain ⟨htells, hjob⟩ := Bool.and_eq_true_iff.1 h
  have hsnapshot : ofEvent? e =
      some ⟨e.index.toNat, (Relaxed.ofValue e.payload).field? "Allocation"⟩ := if_pos htells
  refine ⟨_, hsnapshot, ?_⟩
  split at hjob
  · next text htext =>
    obtain ⟨member, hmember, hfield⟩ := Option.bind_eq_some_iff.1 htext
    have hkey := key?_of_text (field?_of_member hwell hmember hsnapshot (by decide) hfield)
    have hsame : text = job.toString := by simpa using hjob
    rw [hsame] at hkey
    rw [isOf, jobKey?, hkey]
    simp
  · cases hjob

private theorem exists_allocation (hwell : e.payload.WellFormed) (h : ofEvent? e = some s)
    {r : Relaxed} (hfound : s.allocation = some r) :
    ∃ v, r = Relaxed.ofValue v ∧ v.WellFormed ∧ ∀ member, e.member? = some member → member = v := by
  obtain ⟨-, rfl⟩ := ofEvent?_eq_some h
  cases hmember : e.member? with
  | some member =>
    have hsame := (Relaxed.field?_ofValue hwell (by decide) hmember).symm.trans hfound
    exact ⟨member, (Option.some.inj hsame).symm, hwell.of_field? hmember,
      fun _ h => (Option.some.inj h).symm⟩
  | none =>
    obtain ⟨fields, f, hpayload, hf, rfl⟩ := Relaxed.exists_of_field?_ofValue hfound
    rw [hpayload] at hwell
    exact ⟨f.2, rfl, hwell.2.of_mem hf, nofun⟩

private theorem exists_record_of_isOf (hwell : e.payload.WellFormed) (h : ofEvent? e = some s)
    (hjob : s.isOf job = true) :
    ∃ fields, s.allocation = some (Relaxed.ofValue (.record fields)) ∧
      (Value.record fields).WellFormed ∧
      ∀ member, e.member? = some member → member = .record fields := by
  have hkey : s.jobKey? = some (Relaxed.codesOf job.toString) := by simpa [isOf] using hjob
  obtain ⟨r, hr, -⟩ := Option.bind_eq_some_iff.1 hkey
  obtain ⟨found, hfound, hr⟩ := Option.bind_eq_some_iff.1 hr
  obtain ⟨v, rfl, hplain, hmember⟩ := exists_allocation hwell h hfound
  obtain ⟨fields, -, rfl, -, -⟩ := Relaxed.exists_of_field?_ofValue hr
  exact ⟨fields, hfound, hplain, hmember⟩

private theorem parse_of_read {v : Value} (hfound : s.allocation = some (Relaxed.ofValue v))
    (hread : s.read job = .ok a) : Allocation.parse v.print = .ok a := by
  rw [Snapshot.read, hfound, Option.map_some, Relaxed.print_ofValue] at hread
  split at hread
  · next b hb => rw [Option.some.inj hb, Except.ok.inj hread]
  · cases hread

/-- A snapshot of a job that reads as an allocation is what its event carries. -/
theorem carries_of_read (hwell : e.payload.WellFormed)
    (habsent : e.member? = none → (Relaxed.ofValue e.payload).field? "Allocation" = none)
    (h : ofEvent? e = some s) (hjob : s.isOf job = true) (hread : s.read job = .ok a) :
    e.tellsOf job = true ∧ e.Carries a ∧ s.key? = some (Relaxed.codesOf a.id) := by
  obtain ⟨htells, hs⟩ := ofEvent?_eq_some h
  obtain ⟨fields, hfound, -, hsame⟩ := exists_record_of_isOf hwell h hjob
  have hmember : e.member? = some (.record fields) := by
    cases hmember : e.member? with
    | some member => rw [hsame member hmember]
    | none =>
      rw [hs, habsent hmember] at hfound
      cases hfound
  have hparse := parse_of_read hfound hread
  obtain ⟨hid, hjobId, -⟩ := Allocation.members_of_parse hparse
  have hidKey := key?_of_text (field?_of_member hwell hmember h (by decide) hid)
  have hjobKey := key?_of_text (field?_of_member hwell hmember h (by decide) hjobId)
  have hkey : s.jobKey? = some (Relaxed.codesOf job.toString) := by simpa [isOf] using hjob
  rw [← jobKey?, hkey] at hjobKey
  have hsame : job.toString = a.jobId := Relaxed.Part.codesOf_injective (Option.some.inj hjobKey)
  refine ⟨?_, ⟨_, hmember, hparse⟩, hidKey⟩
  rw [Event.tellsOf, htells, hmember]
  simp only [Option.bind_some, Value.field?, hjobId, hsame]
  simp

theorem createTime_of_read (hwell : e.payload.WellFormed) (h : ofEvent? e = some s)
    (hjob : s.isOf job = true) (hread : s.read job = .ok a) :
    s.createTime? = some a.createTime ∨ a.createTime = 0 ∧
      ∀ member, e.member? = some member → member.field? "CreateTime" = none := by
  obtain ⟨fields, hfound, hplain, hmember⟩ := exists_record_of_isOf hwell h hjob
  have hparse := parse_of_read hfound hread
  obtain ⟨-, -, ⟨hnone, hzero⟩ | ⟨n, htime, hint, hrange⟩⟩ := Allocation.members_of_parse hparse
  · exact .inr ⟨hzero, fun member h => hmember member h ▸ hnone⟩
  · have hfield : s.field? "CreateTime" = some (Relaxed.ofValue (.number n)) := by
      rw [field?, hfound]
      exact Relaxed.field?_ofValue hplain (by decide) htime
    left
    rw [createTime?, hfield]
    simp only [Relaxed.ofValue]
    rw [Json.Number.print_of_int? hint]
    exact Decimal.int64?_ofInt hrange

end Store.Snapshot

end RunLedger
