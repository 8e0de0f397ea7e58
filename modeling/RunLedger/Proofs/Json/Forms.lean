import RunLedger.Allocation
import RunLedger.Announcement.Envelope
import RunLedger.Event.Basic
import RunLedger.Logs.Output
import RunLedger.Proofs.Json.ReadsBack
import RunLedger.Proofs.Store.Outputs

/-!
The JSON forms of the ledger, printed and read again. Each of them comes back as it was, but for a
null that an output holds: it comes back as a side that is absent.
-/

set_option autoImplicit false

namespace RunLedger

open Json (ReadsBack exists_slots nestingLimit)

theorem Uuid.readsBack_toJson (id : Uuid) : ReadsBack Uuid.read id.toJson id :=
  .parsed id.parse?_toString

theorem Event.Uid.readsBack_toJson (uid : Event.Uid) : ReadsBack Event.Uid.read uid.toJson uid :=
  .parsed uid.parse?_toString

theorem Run.Status.readsBack_toJson (status : Run.Status) :
    ReadsBack Run.Status.read status.toJson status :=
  fun _ _ => status.parse?_toString

/-- Whether the text of an instant reads as the instant. -/
def Time.Instant.Exact (t : Time.Instant) : Prop := parse? t.toString = some t

theorem Time.Instant.Exact.readsBack {t : Time.Instant} (h : t.Exact) :
    ReadsBack Time.Instant.read t.toJson t := .parsed h

/-- Whether a value is one that reading can give and its floating numbers read as themselves. -/
def Json.Value.Exact (v : Json.Value) : Prop := v.WellFormed ∧ v.reread = v

theorem Json.Value.Exact.readsBack {v : Json.Value} (h : v.Exact) : ReadsBack Json.Value.read v v :=
  .value h.1 h.2

/-! ### Events -/

theorem Event.readsBack_toJson {e : Event} (h : e.payload.Exact) :
    ReadsBack Event.read e.toJson e := by
  intro room hdepth
  obtain ⟨slot, hslots, hslot⟩ := exists_slots fieldNames rfl (by decide) (.refl _) hdepth
  obtain ⟨huid, htopic, hkind, hkey, hkeys, hindex, hpayload, hhandled⟩ := hslot
  rw [toJson, read, hslots]
  simp only [Option.bind_eq_bind, Option.bind_some, huid.required e.uid.readsBack_toJson,
    htopic.required (.text _), hkind.required (.text _), hkey.required (.text _),
    hkeys.withDefault (.list e.filterKeys fun s _ => .text s), hindex.required (.nat _),
    hpayload.required h.readsBack, hhandled.withDefault (.bool _)]
  rfl

/-! ### Allocations -/

theorem TaskState.readsBack_toJson (t : TaskState) : ReadsBack TaskState.read t.toJson t := by
  intro room hdepth
  obtain ⟨slot, hslots, hslot⟩ :=
    exists_slots ["State", "Failed", "Restarts"] rfl (by decide) (.refl _) hdepth
  obtain ⟨hstate, hfailed, hrestarts⟩ := hslot
  rw [toJson, read, hslots]
  simp only [Option.bind_eq_bind, Option.bind_some, hstate.withDefault (.text _),
    hfailed.withDefault (.bool _), hrestarts.withDefault (.nat _)]
  rfl

namespace Allocation

/-- What holds of every allocation: the tasks have different names, kept in ascending order, and
the times are numbers of 64 bits. -/
structure Regular (a : Allocation) : Prop where
  sorted : ∀ states ∈ a.taskStates, states.Pairwise (·.1 < ·.1)
  createTime : Decimal.inInt64 a.createTime
  modifyTime : Decimal.inInt64 a.modifyTime

/-- An allocation with its tasks listed in another order. -/
def listed (order : List (String × TaskState) → List (String × TaskState)) (a : Allocation) :
    Allocation :=
  { a with taskStates := a.taskStates.map order }

private theorem readsBack_taskStates {order : List (String × TaskState) → List (String × TaskState)}
    (horder : ∀ states, (order states).Perm states) {states : Option (List (String × TaskState))}
    (hsorted : ∀ ss ∈ states, ss.Pairwise (·.1 < ·.1)) :
    ReadsBack (.nullable (.map TaskState.read)) (.option taskStatesJson (states.map order))
      states := by
  cases states with
  | none => exact .null
  | some ss =>
    refine .some ?_ nofun
    exact .map (fun e _ => e.2.readsBack_toJson) (hsorted ss rfl) (horder ss)

theorem readsBack_toJson {a : Allocation} (h : a.Regular)
    {order : List (String × TaskState) → List (String × TaskState)}
    (horder : ∀ states, (order states).Perm states) :
    ReadsBack Allocation.read (a.listed order).toJson a := by
  intro room hdepth
  obtain ⟨slot, hslots, hslot⟩ := exists_slots fieldNames rfl (by decide) (.refl _) hdepth
  obtain ⟨hid, hname, hnode, hjob, hgroup, hdesired, hclient, hdescription, hstates, hcreated,
    hmodified, hcreateTime, hmodifyTime⟩ := hslot
  rw [toJson, read]
  refine Option.bind_eq_some_iff.2 ⟨slot, hslots, ?_⟩
  refine Option.bind_eq_some_iff.2 ⟨_, hid.required (.text _), ?_⟩
  refine Option.bind_eq_some_iff.2 ⟨_, hname.withDefault (.text _), ?_⟩
  refine Option.bind_eq_some_iff.2 ⟨_, hnode.withDefault (.text _), ?_⟩
  refine Option.bind_eq_some_iff.2 ⟨_, hjob.required (.text _), ?_⟩
  refine Option.bind_eq_some_iff.2 ⟨_, hgroup.withDefault (.text _), ?_⟩
  refine Option.bind_eq_some_iff.2 ⟨_, hdesired.withDefault (.text _), ?_⟩
  refine Option.bind_eq_some_iff.2 ⟨_, hclient.withDefault (.text _), ?_⟩
  refine Option.bind_eq_some_iff.2 ⟨_, hdescription.withDefault (.text _), ?_⟩
  refine Option.bind_eq_some_iff.2
    ⟨_, hstates.withDefault (readsBack_taskStates horder h.sorted), ?_⟩
  refine Option.bind_eq_some_iff.2 ⟨_, hcreated.withDefault (.nat _), ?_⟩
  refine Option.bind_eq_some_iff.2 ⟨_, hmodified.withDefault (.nat _), ?_⟩
  refine Option.bind_eq_some_iff.2 ⟨_, hcreateTime.withDefault (.int h.createTime), ?_⟩
  exact Option.bind_eq_some_iff.2 ⟨_, hmodifyTime.withDefault (.int h.modifyTime), rfl⟩

end Allocation

/-! ### Runs -/

namespace Run

/-- Whether the times of a run read as themselves. -/
structure Exact (run : Run) : Prop where
  createdAt : run.createdAt.Exact
  finishedAt : ∀ t ∈ run.finishedAt, t.Exact

theorem readsBack_toJson {run : Run} (h : run.Exact) : ReadsBack Run.read run.toJson run := by
  intro room hdepth
  obtain ⟨slot, hslots, hslot⟩ := exists_slots fieldNames rfl (by decide) (.refl _) hdepth
  obtain ⟨hjob, haction, hstatus, hcreated, hfinished⟩ := hslot
  have hfinish : ReadsBack (.nullable Time.Instant.read)
      (.option Time.Instant.toJson run.finishedAt) run.finishedAt :=
    .option run.finishedAt (fun t ht => (h.finishedAt t ht).readsBack) fun t => nofun
  rw [toJson, read, hslots]
  simp only [Option.bind_eq_bind, Option.bind_some, hjob.required run.jobId.readsBack_toJson,
    haction.required run.actionId.readsBack_toJson, hstatus.required run.status.readsBack_toJson,
    hcreated.required h.createdAt.readsBack, hfinished.optional hfinish]
  rfl

end Run

/-! ### Logs -/

namespace Logs

theorem Line.readsBack_toJson {l : Line} (h : l.time.Exact) : ReadsBack Line.read l.toJson l := by
  intro room hdepth
  obtain ⟨slot, hslots, hslot⟩ :=
    exists_slots ["time", "text"] rfl (by decide) (.refl _) hdepth
  obtain ⟨htime, htext⟩ := hslot
  rw [toJson, read, hslots]
  simp only [Option.bind_eq_bind, Option.bind_some, htime.required h.readsBack,
    htext.required (.text _)]
  rfl

theorem Output.readsBack_toJson {o : Output} (h : ∀ l ∈ o.stdout ++ o.stderr, l.time.Exact) :
    ReadsBack Output.read o.toJson o := by
  intro room hdepth
  obtain ⟨slot, hslots, hslot⟩ :=
    exists_slots ["stdout", "stderr"] rfl (by decide) (.refl _) hdepth
  obtain ⟨hstdout, hstderr⟩ := hslot
  have hout : ∀ l ∈ o.stdout, ReadsBack Line.read l.toJson l :=
    fun l hl => Line.readsBack_toJson (h l (List.mem_append_left _ hl))
  have herr : ∀ l ∈ o.stderr, ReadsBack Line.read l.toJson l :=
    fun l hl => Line.readsBack_toJson (h l (List.mem_append_right _ hl))
  rw [toJson, read, hslots]
  simp only [Option.bind_eq_bind, Option.bind_some, hstdout.required (.list _ hout),
    hstderr.required (.list _ herr)]
  rfl

end Logs

/-! ### Outputs -/

/-- A value other than null. -/
def Json.Value.present? : Json.Value → Option Json.Value
  | .null => none
  | v => some v

namespace Run.Output

/-- Whether the floating numbers on both sides read as themselves. -/
structure Exact (o : Output) : Prop where
  success : ∀ v ∈ o.success, v.Exact
  failure : ∀ v ∈ o.failure, v.Exact

/-- The output with sides that hold null taken away. -/
def withoutNulls (o : Output) : Output :=
  ⟨o.success.bind Json.Value.present?, o.failure.bind Json.Value.present?⟩

private theorem readsBack_side {side : Option Json.Value} (h : ∀ v ∈ side, v.Exact) :
    ReadsBack (.nullable Json.Value.read) (.option id side) (side.bind Json.Value.present?) := by
  cases side with
  | none => exact .null
  | some v =>
    have hv := (h v rfl).readsBack
    cases v with
    | null => exact .null
    | _ => exact hv.some nofun

theorem readsBack_toJson {o : Output} (h : o.Exact) :
    ReadsBack Output.read o.toJson o.withoutNulls := by
  intro room hdepth
  obtain ⟨slot, hslots, hslot⟩ :=
    exists_slots ["success", "failure"] rfl (by decide) (.refl _) hdepth
  obtain ⟨hsuccess, hfailure⟩ := hslot
  rw [toJson, read, hslots]
  simp only [Option.bind_eq_bind, Option.bind_some, hsuccess.optional (readsBack_side h.success),
    hfailure.optional (readsBack_side h.failure)]
  rfl

private theorem isSome_read_side {side : Option Json.Value} (h : ∀ v ∈ side, v.Exact) {room : Nat}
    (hdepth : (Json.Value.option id side).depth ≤ room) :
    (Json.Value.read room (.ofPrinted (.option id side))).isSome = true := by
  cases side with
  | none => simp [Json.Value.option, Json.Document.ofPrinted, Json.Value.read]
  | some v => exact Option.isSome_of_eq_some ((h v rfl).readsBack room hdepth)

private theorem isSome_read_toJson {o : Output} (h : o.Exact) {room : Nat}
    (hdepth : o.toJson.depth ≤ room) :
    (Json.Value.read room (.ofPrinted o.toJson)).isSome = true := by
  rw [toJson, Json.Value.depth] at hdepth
  obtain ⟨room, rfl⟩ := Nat.exists_eq_add_of_le' (Nat.le_trans (Nat.le_add_left 1 _) hdepth)
  refine Json.isSome_read_record fun f hf => ?_
  have hside := (Json.Value.depth_le_of_mem_fields hf).trans (Nat.le_of_succ_le_succ hdepth)
  simp only [List.mem_cons, List.not_mem_nil, or_false] at hf
  rcases hf with rfl | rfl
  · exact isSome_read_side h.success hside
  · exact isSome_read_side h.failure hside

end Run.Output

/-! ### Announcements -/

namespace Announcement

/-- Whether the output of an announcement reads back, if it carries one. -/
def Exact : Announcement → Prop
  | ended _ _ output => ∀ o ∈ output, o.Exact
  | _ => True

/-- The announcement with an output whose sides are not null. -/
def withoutNulls : Announcement → Announcement
  | ended id status output => ended id status (output.map Run.Output.withoutNulls)
  | a => a

def bodyFields (a : Announcement) : List (String × Json.Value) :=
  ("nomad_job_id", a.jobId.toJson) :: a.ownFields

/-- All fields, in the order in which they are printed. -/
def fields (a : Announcement) : List (String × Json.Value) :=
  ("type", .text a.kind.toString) :: a.bodyFields

private theorem readsBack_status (status : Run.Status) :
    ReadsBack readStatus status.toJson status :=
  fun _ _ => status.parse?_toString

theorem Kind.parse?_toString (kind : Kind) : parse? kind.toString = some kind := by
  cases kind <;> decide

private theorem readsBack_body {a : Announcement} (h : a.Exact)
    {printed : List (String × Json.Value)} (hperm : printed.Perm a.bodyFields) :
    ReadsBack a.kind.read (.record printed) a.withoutNulls := by
  intro room hdepth
  have hjobId := a.jobId.readsBack_toJson
  cases a with
  | created id actionId =>
    obtain ⟨slot, hslots, hjob, haction⟩ :=
      exists_slots Kind.created.fieldNames rfl (by decide) hperm hdepth
    simp only [kind, Kind.read, hslots, Option.bind_eq_bind, Option.bind_some,
      hjob.required hjobId, haction.required actionId.readsBack_toJson]
    rfl
  | updated id status =>
    obtain ⟨slot, hslots, hjob, hstatus⟩ :=
      exists_slots Kind.updated.fieldNames rfl (by decide) hperm hdepth
    simp only [kind, Kind.read, hslots, Option.bind_eq_bind, Option.bind_some,
      hjob.required hjobId, hstatus.required (readsBack_status status)]
    rfl
  | ended id status output =>
    obtain ⟨slot, hslots, hjob, hstatus, houtput⟩ :=
      exists_slots Kind.ended.fieldNames rfl (by decide) hperm hdepth
    have hreads : ReadsBack (.nullable Run.Output.read) (.option Run.Output.toJson output)
        (output.map Run.Output.withoutNulls) := by
      cases output with
      | none => exact .null
      | some o => exact (Run.Output.readsBack_toJson (h o rfl)).some nofun
    simp only [kind, Kind.read, hslots, Option.bind_eq_bind, Option.bind_some,
      hjob.required hjobId, hstatus.required (readsBack_status status), houtput.optional hreads]
    rfl
  | cancelled id =>
    obtain ⟨slot, hslots, hjob⟩ :=
      exists_slots Kind.cancelled.fieldNames rfl (by decide) hperm hdepth
    simp only [kind, Kind.read, hslots, Option.bind_eq_bind, Option.bind_some,
      hjob.required hjobId]
    rfl

private theorem isSome_read_text (s : String) (room : Nat) :
    (Json.Value.read room (.ofPrinted (.text s))).isSome = true := by
  simp [Json.Document.ofPrinted, Json.Value.read]

private theorem isSome_read_field {a : Announcement} (h : a.Exact) {f : String × Json.Value}
    (hf : f ∈ a.fields) {room : Nat} (hdepth : f.2.depth ≤ room) :
    (Json.Value.read room (.ofPrinted f.2)).isSome = true := by
  cases a with
  | ended id status output =>
    simp only [fields, bodyFields, ownFields, List.mem_cons, List.not_mem_nil, or_false] at hf
    rcases hf with rfl | rfl | rfl | rfl
    · exact isSome_read_text _ _
    · exact isSome_read_text _ _
    · exact isSome_read_text _ _
    · cases output with
      | none => simp [Json.Value.option, Json.Document.ofPrinted, Json.Value.read]
      | some o => exact Run.Output.isSome_read_toJson (h o rfl) hdepth
  | _ =>
    simp only [fields, bodyFields, ownFields, List.mem_cons, List.not_mem_nil, or_false] at hf
    rcases hf with rfl | rfl | rfl
    all_goals exact isSome_read_text _ _

private theorem ne_type_of_mem_bodyFields {a : Announcement} {f : String × Json.Value}
    (hf : f ∈ a.bodyFields) : f.1 ≠ "type" := by
  have hnames : f.1 ∈ a.kind.fieldNames := by
    have hmem : f.1 ∈ a.bodyFields.map Prod.fst := List.mem_map_of_mem hf
    cases a <;> exact hmem
  have hother : ∀ name ∈ a.kind.fieldNames, name ≠ "type" := by
    cases a.kind <;> decide
  exact hother _ hnames

private theorem filter_tag {a : Announcement} {printed : List (String × Json.Value)}
    (hperm : printed.Perm a.fields) :
    printed.filter (·.1 = "type") = [("type", .text a.kind.toString)] ∧
      (printed.filter (¬ ·.1 = "type")).Perm a.bodyFields := by
  have htag : a.fields.filter (·.1 = "type") = [("type", .text a.kind.toString)] := by
    rw [fields, List.filter_cons_of_pos (by simp), List.filter_eq_nil_iff.2]
    intro f hf
    simpa using ne_type_of_mem_bodyFields hf
  have hbody : a.fields.filter (¬ ·.1 = "type") = a.bodyFields := by
    rw [fields, List.filter_cons_of_neg (by simp), List.filter_eq_self]
    intro f hf
    simpa using ne_type_of_mem_bodyFields hf
  constructor
  · exact List.perm_singleton.1 (htag ▸ hperm.filter _)
  · exact hbody ▸ hperm.filter _

/-- In whatever order its fields are written, the announcement comes back. -/
private theorem readsBack_fields {a : Announcement} (h : a.Exact)
    {printed : List (String × Json.Value)} (hperm : printed.Perm a.fields) :
    ReadsBack Announcement.read (.record printed) a.withoutNulls := by
  intro room hdepth
  rw [Json.Value.depth] at hdepth
  obtain ⟨room, rfl⟩ := Nat.exists_eq_add_of_le' (Nat.le_trans (Nat.le_add_left 1 _) hdepth)
  have hmember : ∀ f ∈ printed, f.2.depth ≤ room := fun f hf =>
    (Json.Value.depth_le_of_mem_fields hf).trans (Nat.le_of_succ_le_succ hdepth)
  obtain ⟨htag, hbody⟩ := filter_tag hperm
  have hreadable : (Json.Document.ofPrintedFields printed).all
      (fun f => f.1.isSome && (Json.Value.read room f.2).isSome) = true := by
    rw [Json.ofPrintedFields_eq_map, List.all_map, List.all_eq_true]
    intro f hf
    exact isSome_read_field h (hperm.mem_iff.1 hf) (hmember f hf)
  have htagged : (Json.Document.ofPrintedFields printed).filter isTag =
      [(some "type", .text (some a.kind.toString))] := by
    rw [Json.ofPrintedFields_eq_map, List.filter_map]
    have hsame : (isTag ∘ fun f : String × Json.Value =>
        (some f.1, Json.Document.ofPrinted f.2)) = fun f => decide (f.1 = "type") := by
      funext f
      simp [isTag]
    rw [hsame, htag]
    rfl
  have hothers : (Json.Document.ofPrintedFields printed).filter (!isTag ·) =
      Json.Document.ofPrintedFields (printed.filter (¬ ·.1 = "type")) := by
    rw [Json.ofPrintedFields_eq_map, Json.ofPrintedFields_eq_map, List.filter_map]
    congr 2
    funext f
    simp [isTag]
  have hbodyDepth : (Json.Value.record (printed.filter (¬ ·.1 = "type"))).depth ≤ room + 1 := by
    rw [Json.Value.depth]
    refine Nat.succ_le_succ (Json.Value.depthOfFields_le fun f hf => ?_)
    exact hmember f (List.mem_of_mem_filter hf)
  have hread := readsBack_body h hbody (room + 1) hbodyDepth
  rw [Json.Document.ofPrinted] at hread ⊢
  simp only [read, hreadable, htagged, hothers, Kind.parse?_toString]
  exact hread

end Announcement

/-! ### Envelopes -/

namespace Announcement.Envelope

/-- Whether the time and the output of an envelope read as themselves. -/
structure Exact (e : Envelope) : Prop where
  timestamp : e.timestamp.Exact
  event : e.event.Exact

def withoutNulls (e : Envelope) : Envelope := { e with event := e.event.withoutNulls }

theorem readsBack_toJson {e : Envelope} (h : e.Exact) :
    ReadsBack Envelope.read e.toJson e.withoutNulls := by
  intro room hdepth
  obtain ⟨slot, hslots, hid, htimestamp, hevent⟩ :=
    exists_slots ["id", "timestamp", "event"] rfl (by decide) (.refl _) hdepth
  have hannounced : ReadsBack Announcement.read e.event.toJson e.event.withoutNulls :=
    readsBack_fields h.event (.refl _)
  rw [toJson, read, hslots]
  simp only [Option.bind_eq_bind, Option.bind_some, hid.required e.id.readsBack_toJson,
    htimestamp.required h.timestamp.readsBack, hevent.required hannounced]
  rfl

end Announcement.Envelope

/-! ### All forms -/

namespace Json

open Document (readString?)

/-- Reading undoes printing for every form, as long as the text nests no deeper than a text may and
the times and floating numbers in it read as themselves. Inside an output a null that is there comes
back as a side that is absent. The tasks of an allocation and the fields of an announcement may be
written in any order. -/
theorem reading_undoes_printing :
    (∀ e : Event, e.payload.Exact → e.toJson.depth ≤ nestingLimit →
      readString? Event.read e.toJson.print = some e) ∧
    (∀ (a : Allocation) (order : List (String × TaskState) → List (String × TaskState)), a.Regular →
      (∀ states, (order states).Perm states) → (a.listed order).toJson.depth ≤ nestingLimit →
      readString? Allocation.read (a.listed order).toJson.print = some a) ∧
    (∀ run : Run, run.Exact → run.toJson.depth ≤ nestingLimit →
      readString? Run.read run.toJson.print = some run) ∧
    (∀ o : Logs.Output, (∀ l ∈ o.stdout ++ o.stderr, l.time.Exact) →
      o.toJson.depth ≤ nestingLimit → readString? Logs.Output.read o.toJson.print = some o) ∧
    (∀ o : Run.Output, o.Exact → o.toJson.depth ≤ nestingLimit →
      readString? Run.Output.read o.toJson.print = some o.withoutNulls) ∧
    (∀ (a : Announcement) (fields printed : List (String × Value)), a.Exact →
      a.toJson = .record fields → printed.Perm fields →
      (Value.record printed).depth ≤ nestingLimit →
      readString? Announcement.read (Value.record printed).print = some a.withoutNulls) ∧
    ∀ e : Announcement.Envelope, e.Exact → e.toJson.depth ≤ nestingLimit →
      readString? Announcement.Envelope.read e.toJson.print = some e.withoutNulls := by
  refine ⟨?_, ?_, ?_, ?_, ?_, ?_, ?_⟩
  · intro e he hdepth
    exact (Event.readsBack_toJson he).readString? hdepth
  · intro a order ha horder hdepth
    exact (Allocation.readsBack_toJson ha horder).readString? hdepth
  · intro run hrun hdepth
    exact (Run.readsBack_toJson hrun).readString? hdepth
  · intro o ho hdepth
    exact (Logs.Output.readsBack_toJson ho).readString? hdepth
  · intro o ho hdepth
    exact (Run.Output.readsBack_toJson ho).readString? hdepth
  · intro a fields printed ha hfields hperm hdepth
    have hsame : a.fields = fields := Value.record.inj hfields
    exact (Announcement.readsBack_fields ha (hsame ▸ hperm)).readString? hdepth
  · intro e he hdepth
    exact (Announcement.Envelope.readsBack_toJson he).readString? hdepth

/-- A payload with a floating number, a number below zero and a nested list. -/
def samplePayload : Value :=
  .record [("half", .number (.float 0x3FE0000000000000)),
    ("list", .list [.number (.neg 0), .text "\n", .null])]

private theorem exact_samplePayload : samplePayload.Exact := by
  have hhalf : (Number.float 0x3FE0000000000000).reread = .float 0x3FE0000000000000 := by
    decide +kernel
  constructor
  · refine ⟨?_, ?_, ⟨trivial, trivial, trivial, trivial⟩, trivial⟩
    · exact List.pairwise_pair.2 (by decide)
    · change Decimal.isFiniteBits 0x3FE0000000000000 = true
      decide
  · simp only [samplePayload, Value.reread, Value.rereadFields, Value.rereadItems, hhalf]
    rfl

/-- One value of each form: two tasks that are listed the other way round, an output with a null and
an announcement with its fields turned round. -/
theorem reading_undoes_printing_of_samples :
    let id : Uuid := ⟨⟨List.replicate 16 0x11, rfl⟩⟩
    let time : Time.Instant := ⟨1700000000, 123000000, by decide⟩
    let e : Event := .new "Job" "JobRegistered" "k" 18446744073709551615 ["a"] samplePayload
    let states : List (String × TaskState) := [("a", ⟨"running", false, 1⟩), ("b", ⟨"", true, 0⟩)]
    let a : Allocation := ⟨"a1", "", "", "j", "", "", "", "", some states, 0, 1, -1, 2⟩
    let run : Run := ⟨id, id, .failed, time, some time⟩
    let logs : Logs.Output := ⟨[⟨time, "out"⟩], []⟩
    let o : Run.Output := ⟨some .null, some samplePayload⟩
    let ended : Announcement := .ended id .failed (some o)
    readString? Event.read e.toJson.print = some e ∧
    readString? Allocation.read (a.listed List.reverse).toJson.print = some a ∧
    readString? Run.read run.toJson.print = some run ∧
    readString? Logs.Output.read logs.toJson.print = some logs ∧
    readString? Run.Output.read o.toJson.print = some ⟨none, some samplePayload⟩ ∧
    readString? Announcement.read (Value.record ended.fields.reverse).print =
      some (.ended id .failed (some ⟨none, some samplePayload⟩)) ∧
    readString? Announcement.Envelope.read (Announcement.Envelope.mk id time ended).toJson.print =
      some ⟨id, time, .ended id .failed (some ⟨none, some samplePayload⟩)⟩ := by
  intro id time e states a run logs o ended
  obtain ⟨hevent, hallocation, hrun, hlogs, houtput, hannouncement, henvelope⟩ :=
    reading_undoes_printing
  have htime : time.Exact := by
    change Time.Instant.parse? time.toString = some time
    decide +kernel
  have hside : o.Exact := by
    constructor
    · rintro v hv
      obtain rfl := Option.some.inj hv
      exact ⟨trivial, rfl⟩
    · rintro v hv
      obtain rfl := Option.some.inj hv
      exact exact_samplePayload
  have hended : ended.Exact := by
    rintro o' ho
    obtain rfl := Option.some.inj ho
    exact hside
  refine ⟨hevent e exact_samplePayload (by decide), ?_, ?_, ?_, ?_, ?_, ?_⟩
  · refine hallocation a List.reverse ⟨?_, by decide, by decide⟩ List.reverse_perm (by decide)
    rintro ss hss
    obtain rfl := Option.some.inj hss
    exact List.pairwise_pair.2 (by decide)
  · refine hrun run ⟨htime, fun t ht => ?_⟩ (by decide)
    obtain rfl := Option.some.inj ht
    exact htime
  · refine hlogs logs (fun l hl => ?_) (by decide)
    obtain rfl := List.mem_singleton.1 hl
    exact htime
  · exact houtput o hside (by decide)
  · exact hannouncement ended _ _ hended rfl (List.reverse_perm _) (by decide)
  · exact henvelope ⟨id, time, ended⟩ ⟨htime, hended⟩ (by decide)

end Json

end RunLedger
