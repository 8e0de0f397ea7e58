import RunLedger.Proofs.Store.Outputs
import RunLedger.Proofs.Store.RunRows

/-!
What rows keep. A run that goes through its row comes back with its times rounded down to whole
milliseconds, before 1970 as after it, and loses nothing more by going through a row again. An output
comes back as it was exactly when the floating numbers in it read back as they are printed, and in
any case a side that is absent stays apart from one that holds null.
-/

set_option autoImplicit false

namespace RunLedger

namespace Time.Instant

variable {t u : Instant} {ms : Int}

/-- Nanoseconds since the beginning of 1970; they are negative before it. -/
def toNanos (t : Instant) : Int := t.seconds * 1000000000 + t.nanos

/-- The last instant in whole milliseconds that is not after another. -/
structure IsFloorOf (u t : Instant) : Prop where
  ordinary : u.nanos < second
  whole : 1000000 ∣ u.toNanos
  notAfter : u.toNanos ≤ t.toNanos
  close : t.toNanos < u.toNanos + 1000000

private theorem toNanos_of_ofMillis? (h : ofMillis? ms = some u) : u.toNanos = 1000000 * ms := by
  unfold ofMillis? ofSeconds? at h
  split at h
  · obtain rfl := Option.some.inj h
    simp only [toNanos]
    omega
  · cases h

private theorem isFloorOf_floorMillis (h : t.nanos < second) : t.floorMillis.IsFloorOf t := by
  have hnanos := toNanos_of_ofMillis? (ofMillis?_toMillis h)
  have hmillis : t.toMillis = t.seconds * 1000 + (t.nanos / 1000000 : Nat) := rfl
  have htotal : t.toNanos = t.seconds * 1000000000 + t.nanos := rfl
  exact ⟨floorMillis_nanos h, ⟨t.toMillis, hnanos⟩, by omega, by omega⟩

end Time.Instant

/-- A run as it comes back from its row: all but the times is as it was, and these are rounded down
to whole milliseconds. -/
structure Run.IsKeptAs (run read : Run) : Prop where
  jobId : read.jobId = run.jobId
  actionId : read.actionId = run.actionId
  status : read.status = run.status
  createdAt : read.createdAt.IsFloorOf run.createdAt
  finishedAt : Option.Rel Time.Instant.IsFloorOf read.finishedAt run.finishedAt

private theorem Run.IsOrdinary.isKeptAs {run : Run} (h : run.IsOrdinary) :
    run.IsKeptAs run.inMillis := by
  obtain ⟨hcreated, hfinished⟩ := h
  refine ⟨rfl, rfl, rfl, Time.Instant.isFloorOf_floorMillis hcreated, ?_⟩
  change Option.Rel _ (run.finishedAt.map Time.Instant.floorMillis) run.finishedAt
  cases hend : run.finishedAt with
  | none => exact .none
  | some t => exact .some (Time.Instant.isFloorOf_floorMillis (hfinished t hend))

/-! ### Outputs -/

namespace Json

/-- The floating numbers of a value, if there is one. -/
def floatsOfSide (side : Option Value) : List UInt64 := side.elim [] Value.floats

/-- Two sides are alike in being absent and in holding null. -/
structure SidesAgree (a b : Option Value) : Prop where
  absent : a = none ↔ b = none
  null : a = some .null ↔ b = some .null

private theorem map_reread_eq_self_iff {side : Option Value} (hwell : ∀ v ∈ side, v.WellFormed) :
    side.map Value.reread = side ↔ ∀ bits ∈ floatsOfSide side, FloatReadsBack bits := by
  cases side with
  | none => simp [floatsOfSide]
  | some v =>
    rw [Option.map_some, Option.some.injEq, Value.reread_eq_self_iff (hwell v rfl)]
    rfl

private theorem Value.reread_eq_null_iff (v : Value) : v.reread = .null ↔ v = .null := by
  cases v <;> simp [reread]

private theorem sidesAgree_reread (side : Option Value) : SidesAgree
    (side.map Value.reread) side := by
  cases side with
  | none => exact ⟨Iff.rfl, Iff.rfl⟩
  | some v => exact ⟨by simp, by simp [Value.reread_eq_null_iff]⟩

end Json

namespace Run.Output

def floats (o : Output) : List UInt64 := Json.floatsOfSide o.success ++ Json.floatsOfSide o.failure

theorem reread_eq_self_iff {o : Output} (hwell : o.WellFormed) :
    o.reread = o ↔ ∀ bits ∈ o.floats, Json.FloatReadsBack bits := by
  rw [floats, List.forall_mem_append, ← Json.map_reread_eq_self_iff hwell.1,
    ← Json.map_reread_eq_self_iff hwell.2]
  cases o
  simp [reread]

end Run.Output

namespace Store

/-- Outside leap seconds every run is read from its row, with its times rounded down to whole
milliseconds, and the run that is read has the same row. An output that nests no deeper than a text
may is read from its row as well. It is the output that was written exactly when every floating
number in it reads back as it is printed, and whether a side is absent and whether it holds null
does not hang on that. -/
theorem rows_keep_runs_and_outputs :
    (∀ run : Run, run.IsOrdinary → ∃ read, (RunRow.ofRun run).toRun = .ok read ∧
      run.IsKeptAs read ∧ RunRow.ofRun read = RunRow.ofRun run) ∧
    ∀ (id : Uuid) (o : Run.Output), o.WellFormed → o.Fits →
      ∃ read, (OutputRow.ofOutput o).toOutput id = .ok read ∧
        (read = o ↔ ∀ bits ∈ o.floats, Json.FloatReadsBack bits) ∧
        Json.SidesAgree read.success o.success ∧ Json.SidesAgree read.failure o.failure := by
  constructor
  · intro run hrun
    exact ⟨run.inMillis, RunRow.toRun_ofRun hrun, hrun.isKeptAs, RunRow.ofRun_inMillis hrun⟩
  · intro id o hwell hfits
    exact ⟨o.reread, OutputRow.toOutput_ofOutput hwell hfits, Run.Output.reread_eq_self_iff hwell,
      Json.sidesAgree_reread o.success, Json.sidesAgree_reread o.failure⟩

/-- A run that was created in the last nanosecond before 1970 and ended in the last of all, and an
output with a null on one side and one half beside the text of null on the other. -/
theorem rows_keep_samples :
    let id : Uuid := ⟨⟨List.replicate 16 0x11, rfl⟩⟩
    let run : Run := ⟨id, id, .failed, ⟨-1, 999999999, by decide⟩,
      some ⟨Time.lastSecond, 999999999, by decide⟩⟩
    let o : Run.Output :=
      ⟨some .null, some (.list [.number (.float 0x3FE0000000000000), .text "null"])⟩
    (∃ read, (RunRow.ofRun run).toRun = .ok read ∧ read.createdAt.toNanos = -1000000 ∧
      RunRow.ofRun read = RunRow.ofRun run) ∧
    (OutputRow.ofOutput o).toOutput id = .ok o := by
  intro id run o
  obtain ⟨hruns, houtputs⟩ := rows_keep_runs_and_outputs
  have hordinary : run.IsOrdinary := by
    refine ⟨by decide, fun t ht => ?_⟩
    obtain rfl := Option.some.inj ht
    decide
  have hfinite : Decimal.isFiniteBits 0x3FE0000000000000 = true := by decide
  have hwell : o.WellFormed := by
    constructor
    · intro v hv
      obtain rfl := Option.some.inj hv
      trivial
    · intro v hv
      obtain rfl := Option.some.inj hv
      exact ⟨hfinite, trivial, trivial⟩
  have hfits : o.Fits := by
    constructor <;> intro v hv <;> obtain rfl := Option.some.inj hv <;> decide
  have hhalf : Json.FloatReadsBack 0x3FE0000000000000 :=
    (Json.floatReadsBack_iff hfinite).2 (by decide +kernel)
  constructor
  · obtain ⟨read, hread, hkept, hrow⟩ := hruns run hordinary
    refine ⟨read, hread, ?_, hrow⟩
    obtain ⟨-, hwhole, hnotAfter, hclose⟩ := hkept.createdAt
    have hnanos : run.createdAt.toNanos = -1 := rfl
    omega
  · obtain ⟨read, hread, hsame, -⟩ := houtputs id o hwell hfits
    rw [hread]
    refine congrArg Except.ok (hsame.2 fun bits hbits => ?_)
    obtain rfl := List.mem_singleton.1 hbits
    exact hhalf

end Store

end RunLedger
