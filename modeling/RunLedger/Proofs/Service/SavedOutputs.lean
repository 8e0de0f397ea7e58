import RunLedger.Proofs.Service.Delivery

/-!
What a committed save leaves for the calls that follow. The output is stored as text, and asking for
it, ending the run and cancelling it all read that text first. An output that nests no deeper than a
text may is read by all three; one that nests deeper was stored all the same and is read by none.
-/

set_option autoImplicit false

namespace RunLedger.Service

open RunLedger.Store (Tables OutputRow)

/-- No transaction is open, and a run is stored together with its output. -/
def Ledger.Holds (l : Ledger) (id : Uuid) (row : OutputRow) : Prop :=
  ∃ t, l.IsAtRest t ∧ (t.findRun? id).isSome = true ∧ t.findOutput? id = some row

variable {l l₁ l₂ : Ledger} {t t' written : Tables} {run : Run} {output carried : Run.Output}
  {value : Option Run.Output} {row : OutputRow} {id : Uuid} {k : Nat} {now : Time.Instant}

/-! ### What a save leaves -/

private theorem Ledger.stage_eq_ok {context : String}
    {write : Tables → Except Error Staged × Tables} (h : l.stage context write = (.ok k, l₁)) :
    ∃ t staged t', write t = (.ok staged, t') ∧
      l₁ = { l with
        database := l.database.withView t'
        staged := l.staged ++ [some staged] } := by
  unfold stage at h
  split at h
  · cases h
  · split at h
    · cases h
    · next t _ =>
      rcases hwrite : write t with ⟨e | staged, t'⟩
      · simp [hwrite] at h
      · simp only [hwrite, Prod.mk.injEq] at h
        exact ⟨t, staged, t', hwrite, h.2.symm⟩

theorem Ledger.database_of_commitThrough (h : l.commitThrough k = .ok (value, l₂)) :
    l₂.database = l.database.commit := by
  unfold commitThrough at h
  split at h
  · cases h
  · split at h
    · cases h
    · cases h
      rfl

theorem Ledger.Holds.of_save (hopen : l.database.isOpen = true)
    (hsave : l.save run output = (.ok k, l₁)) (hcommit : l₁.commitThrough k = .ok (value, l₂)) :
    l₂.Holds run.jobId (.ofOutput output) := by
  obtain ⟨t, staged, t', hwrite, rfl⟩ := stage_eq_ok hsave
  obtain ⟨written, hrun, houtput, -⟩ := save_eq_ok hwrite
  have hrest : l₂.IsAtRest t' := by
    rw [IsAtRest, database_of_commitThrough hcommit, ← hopen]
    rfl
  refine ⟨t', hrest, ?_, ?_⟩
  · rw [Tables.findRun?_insertOutput houtput, Tables.findRun?_insertRun hrun, if_pos rfl]
    rfl
  · rw [Tables.findOutput?_insertOutput houtput, if_pos rfl]

/-! ### What later calls make of it -/

namespace Ledger.Holds

private theorem output?_eq (hrow : t.findOutput? id = some row) :
    t.output? id = some <$> row.toOutput id := by
  rw [Tables.output?, hrow, Option.mapM_some]

private theorem tables_output?_eq (h : l.Holds id row) :
    l.database.tables.bind (·.output? id) = some <$> row.toOutput id := by
  obtain ⟨t, hrest, -, hrow⟩ := h
  rw [tables_of_rest hrest]
  exact output?_eq hrow

private theorem getOutput_eq (h : l.Holds id row) (hread : row.toOutput id = .ok carried) :
    getOutput l.database id = .ok carried := by
  rw [getOutput, h.tables_output?_eq, hread]
  rfl

private theorem write_finish (h : l.Holds run.jobId row)
    (hread : row.toOutput run.jobId = .ok carried) :
    (l.write (.finish run) .commit).1 = .kept (some carried) ∧
      (l.write (.finish run) .commit).2.announced =
        l.announced ++ [.ended run.jobId run.status (some carried)] := by
  obtain ⟨t, hrest, hrun, hrow⟩ := h
  obtain ⟨written, hwrite⟩ := (t.exists_updateRun_iff run).2 hrun
  have hremove : written.removeOutput run.jobId =
      (.ok (some carried), written.dropOutput run.jobId) := by
    refine Prod.ext ?_ rfl
    change written.output? run.jobId = _
    rw [output?_eq ((Tables.findOutput?_updateRun hwrite _).trans hrow), hread]
    rfl
  have happly : Change.apply t (.finish run) = (.ok ⟨some carried, .ended run.jobId run.status
      (some carried)⟩, written.dropOutput run.jobId) := by
    simp only [Change.apply, Service.finish, hwrite, hremove]
  obtain ⟨hanswer, -, hannounced⟩ := l.write_of_apply hrest happly
  exact ⟨hanswer, hannounced⟩

private theorem outputReads_iff (hrow : t.findOutput? id = some row) :
    t.OutputReads id ↔ ∃ output, row.toOutput id = .ok output := by
  simp [Tables.OutputReads, hrow]

theorem cancel_cases (h : l.Holds run.jobId row) (now : Time.Instant) (remote : Deregistration) :
    ((l.cancel run now remote).1 = some (.ok (run.cancel now)) ∧
        ∃ output, row.toOutput run.jobId = .ok output) ∨
      (∀ answer, (l.cancel run now remote).1 ≠ some (.ok answer)) ∧
        ¬ ((∃ output, row.toOutput run.jobId = .ok output) ∧ remote = .accepted) := by
  obtain ⟨t, hrest, hrun, hrow⟩ := h
  have hdb : l.database = ⟨some t, none, true⟩ := hrest
  have hopen : l.database.isOpen = true := by rw [hdb]
  have hwritable : l.database.writable = .ok t := by rw [hdb]; rfl
  rcases cancel_outcome hopen hwritable run now remote with
    ⟨written, value, hwrite, hvalue, hanswer, -⟩ | ⟨hnot, hfails, -⟩
  · refine .inl ⟨hanswer, ?_⟩
    rw [← outputReads_iff hrow, ← outputReads_of_updateRun hwrite]
    exact (Tables.exists_removeOutput_iff written run.jobId).1 ⟨value, hvalue⟩
  · refine .inr ⟨hfails, ?_⟩
    rintro ⟨hreads, hremote⟩
    exact hnot ⟨hrun, (outputReads_iff hrow).2 hreads, hremote⟩

private theorem cancel_accepted (h : l.Holds run.jobId row)
    (hread : row.toOutput run.jobId = .ok carried) :
    (l.cancel run now .accepted).1 = some (.ok (run.cancel now)) := by
  rcases h.cancel_cases now .accepted with ⟨hanswer, -⟩ | ⟨-, hnot⟩
  · exact hanswer
  · exact absurd ⟨⟨carried, hread⟩, rfl⟩ hnot

/-- A run whose output cannot be read is neither ended nor cancelled. -/
private theorem stuck (h : l.Holds run.jobId row)
    (hread : ∀ output, row.toOutput run.jobId ≠ .ok output) :
    (∀ output, getOutput l.database run.jobId ≠ .ok output) ∧
      (l.write (.finish run) .commit).1 = .undone ∧
      ∀ now remote answer, (l.cancel run now remote).1 ≠ some (.ok answer) := by
  obtain ⟨e, herror⟩ : ∃ e, row.toOutput run.jobId = .error e := by
    cases hrow : row.toOutput run.jobId with
    | error e => exact ⟨e, rfl⟩
    | ok output => exact absurd hrow (hread output)
  refine ⟨?_, ?_, ?_⟩
  · rw [getOutput, h.tables_output?_eq, herror]
    intro output hread
    cases hread
  · obtain ⟨t, hrest, -, hrow⟩ := h
    rcases l.write_cases hrest (.finish run) .commit with ⟨staged, t', -, happly, -⟩ | ⟨hundone, -⟩
    · obtain ⟨written, value, hwrite, hvalue, -⟩ := finish_eq_ok happly
      rw [output?_eq ((Tables.findOutput?_updateRun hwrite _).trans hrow), herror] at hvalue
      cases hvalue
    · exact hundone
  · intro now remote
    rcases h.cancel_cases now remote with ⟨-, output, houtput⟩ | ⟨hfails, -⟩
    · exact absurd houtput (hread output)
    · exact hfails

end Ledger.Holds

/-! ### From the save on -/

/-- Once a save was committed its output is found, the end of the run is kept and hands it over, and
a cancellation that the orchestrator goes along with succeeds. The output that comes back is the one
that was saved, with every floating number as its text reads. -/
theorem saved_run_can_be_finished (hopen : l.database.isOpen = true)
    (hsave : l.save run output = (.ok k, l₁)) (hcommit : l₁.commitThrough k = .ok (value, l₂))
    (hwell : output.WellFormed) (hfits : output.Fits) :
    getOutput l₂.database run.jobId = .ok output.reread ∧
      ∀ later : Run, later.jobId = run.jobId →
        ((l₂.write (.finish later) .commit).1 = .kept (some output.reread) ∧
          (l₂.write (.finish later) .commit).2.announced =
            l₂.announced ++ [.ended run.jobId later.status (some output.reread)]) ∧
        ∀ now, (l₂.cancel later now .accepted).1 = some (.ok (later.cancel now)) := by
  have hholds := Ledger.Holds.of_save hopen hsave hcommit
  have hread : (OutputRow.ofOutput output).toOutput run.jobId = .ok output.reread :=
    OutputRow.toOutput_ofOutput hwell hfits
  refine ⟨hholds.getOutput_eq hread, ?_⟩
  intro later hlater
  rw [← hlater] at hholds hread ⊢
  exact ⟨hholds.write_finish hread, fun _ => hholds.cancel_accepted hread⟩

/-- A ledger with empty tables and a transaction that wrote nothing yet. -/
def Ledger.begun : Ledger :=
  { Ledger.fresh with database := { Ledger.fresh.database with transaction := some .begun } }

private theorem exists_save_begun (output : Run.Output) :
    ∃ l₁ l₂, Ledger.begun.save sampleRun output = (.ok 0, l₁) ∧
      l₁.commitThrough 0 = .ok (none, l₂) :=
  ⟨_, _, rfl, rfl⟩

/-- The run of a first save is ended with the output and cancelled. -/
theorem saved_sample_can_be_finished :
    ∃ l, (∃ l₁, Ledger.begun.save sampleRun (.ofSuccess (.texts ["done"])) = (.ok 0, l₁) ∧
        l₁.commitThrough 0 = .ok (none, l)) ∧
      (l.write (.finish sampleRun) .commit).1 =
        .kept (some (Run.Output.ofSuccess (.texts ["done"])).reread) ∧
      (l.cancel sampleRun .epoch .accepted).1 = some (.ok (sampleRun.cancel .epoch)) := by
  obtain ⟨l₁, l₂, hsave, hcommit⟩ := exists_save_begun (.ofSuccess (.texts ["done"]))
  have hwell : (Run.Output.ofSuccess (.texts ["done"])).WellFormed :=
    Run.Output.wellFormed_ofSuccess.2 ⟨trivial, trivial⟩
  have hfits : (Run.Output.ofSuccess (.texts ["done"])).Fits :=
    Run.Output.fits_ofSuccess.2 (by decide)
  obtain ⟨-, hlater⟩ := saved_run_can_be_finished rfl hsave hcommit hwell hfits
  obtain ⟨⟨hended, -⟩, hcancelled⟩ := hlater sampleRun rfl
  exact ⟨l₂, ⟨l₁, hsave, hcommit⟩, hended, hcancelled .epoch⟩

/-! ### Outputs that do not come back -/

def nestedLists : Nat → Json.Value
  | 0 => .null
  | n + 1 => .list [nestedLists n]

private theorem wellFormed_nestedLists (n : Nat) : (nestedLists n).WellFormed := by
  induction n with
  | zero => trivial
  | succ n ih => exact ⟨ih, trivial⟩

private theorem depth_nestedLists (n : Nat) : (nestedLists n).depth = n := by
  induction n with
  | zero => rfl
  | succ n ih =>
    rw [nestedLists, Json.Value.depth, Json.Value.depthOfItems, Json.Value.depthOfItems, ih]
    simp

/-- What a save accepts need not be read as it was saved: the text of `3e+23` reads as the number
next to it. Nor need it be read at all: with one list too many inside one another the save is
committed, and afterwards the run is neither ended nor cancelled. -/
theorem saved_but_not_read_back :
    (∃ l₁ l₂ carried, let output : Run.Output := .ofSuccess (.number (.float 0x44CFC3842BD1F072))
      Ledger.begun.save sampleRun output = (.ok 0, l₁) ∧ l₁.commitThrough 0 = .ok (none, l₂) ∧
      getOutput l₂.database sampleRun.jobId = .ok carried ∧ carried ≠ output) ∧
    ∃ l₁ l₂, Ledger.begun.save sampleRun (.ofSuccess (nestedLists 128)) = (.ok 0, l₁) ∧
      l₁.commitThrough 0 = .ok (none, l₂) ∧
      (∀ output, getOutput l₂.database sampleRun.jobId ≠ .ok output) ∧
      (l₂.write (.finish sampleRun) .commit).1 = .undone ∧
      ∀ now answer, (l₂.cancel sampleRun now .accepted).1 ≠ some (.ok answer) := by
  constructor
  · let output : Run.Output := .ofSuccess (.number (.float 0x44CFC3842BD1F072))
    obtain ⟨l₁, l₂, hsave, hcommit⟩ := exists_save_begun output
    have hfinite : Decimal.isFiniteBits 0x44CFC3842BD1F072 = true := by decide +kernel
    have hwell : output.WellFormed := Run.Output.wellFormed_ofSuccess.2 hfinite
    have hfits : output.Fits := Run.Output.fits_ofSuccess.2 (by decide)
    have hread : (OutputRow.ofOutput output).toOutput sampleRun.jobId = .ok output.reread :=
      OutputRow.toOutput_ofOutput hwell hfits
    refine ⟨l₁, l₂, output.reread, hsave, hcommit,
      (Ledger.Holds.of_save rfl hsave hcommit).getOutput_eq hread, ?_⟩
    intro hsame
    have hnumber : (Json.Number.float 0x44CFC3842BD1F072).reread ≠ .float 0x44CFC3842BD1F072 := by
      decide +kernel
    exact hnumber (Json.Value.number.inj (Option.some.inj (congrArg Run.Output.success hsame)))
  · let output : Run.Output := .ofSuccess (nestedLists 128)
    obtain ⟨l₁, l₂, hsave, hcommit⟩ := exists_save_begun output
    have hwell : output.WellFormed :=
      Run.Output.wellFormed_ofSuccess.2 (wellFormed_nestedLists 128)
    have hdeep : ¬ output.Fits := by
      rw [Run.Output.fits_ofSuccess, depth_nestedLists]
      decide
    have hread : ∀ o, (OutputRow.ofOutput output).toOutput sampleRun.jobId ≠ .ok o :=
      fun o ho => hdeep ((OutputRow.exists_toOutput_iff hwell).1 ⟨o, ho⟩)
    obtain ⟨hnone, hundone, hfails⟩ := (Ledger.Holds.of_save rfl hsave hcommit).stuck hread
    exact ⟨l₁, l₂, hsave, hcommit, hnone, hundone, fun now => hfails now .accepted⟩

end RunLedger.Service
