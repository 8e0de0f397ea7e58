import RunLedger.Proofs.Basic
import RunLedger.Proofs.Json.ReadsBack
import RunLedger.Store.RunRow

/-!
Outputs that are stored and read again. A side comes back as the value that its text denotes, and a
side that was absent stays so.
-/

set_option autoImplicit false

namespace RunLedger

/-- Both sides are values that reading a text can give. -/
def Run.Output.WellFormed (o : Run.Output) : Prop :=
  (∀ v ∈ o.success, v.WellFormed) ∧ ∀ v ∈ o.failure, v.WellFormed

/-- An output with every number as its text reads. -/
def Run.Output.reread (o : Run.Output) : Run.Output :=
  ⟨o.success.map Json.Value.reread, o.failure.map Json.Value.reread⟩

/-- Both sides nest no deeper than a text may. -/
def Run.Output.Fits (o : Run.Output) : Prop :=
  (∀ v ∈ o.success, v.depth ≤ Json.nestingLimit) ∧ ∀ v ∈ o.failure, v.depth ≤ Json.nestingLimit

@[simp]
theorem Run.Output.wellFormed_ofSuccess {v : Json.Value} :
    (ofSuccess v).WellFormed ↔ v.WellFormed := by
  simp [WellFormed, ofSuccess]

@[simp]
theorem Run.Output.fits_ofSuccess {v : Json.Value} :
    (ofSuccess v).Fits ↔ v.depth ≤ Json.nestingLimit := by
  simp [Fits, ofSuccess]

namespace Store.OutputRow

private theorem readSide_print {which : String} {id : Uuid} {side r : Option Json.Value}
    (hwell : ∀ v ∈ side, v.WellFormed) (h : readSide which id (side.map Json.Value.print) = .ok r) :
    r = side.map Json.Value.reread := by
  cases side with
  | none =>
    cases h
    rfl
  | some v =>
    simp only [readSide, Option.map_some, Option.mapM_some] at h
    cases hparse : Json.Value.parse? v.print with
    | none =>
      rw [hparse] at h
      cases h
    | some w =>
      rw [hparse] at h
      cases h
      rw [Json.Value.parse?_print_eq (hwell v rfl) hparse, Option.map_some]

theorem eq_reread_of_toOutput {id : Uuid} {o carried : Run.Output} (hwell : o.WellFormed)
    (h : (ofOutput o).toOutput id = .ok carried) : carried = o.reread := by
  obtain ⟨success, hsuccess, h⟩ := bind_eq_ok.1 h
  obtain ⟨failure, hfailure, h⟩ := bind_eq_ok.1 h
  cases h
  rw [readSide_print hwell.1 hsuccess, readSide_print hwell.2 hfailure, Run.Output.reread]

private theorem exists_readSide_iff (which : String) (id : Uuid) {side : Option Json.Value}
    (hwell : ∀ v ∈ side, v.WellFormed) :
    (∃ r, readSide which id (side.map Json.Value.print) = .ok r) ↔
      ∀ v ∈ side, v.depth ≤ Json.nestingLimit := by
  cases side with
  | none => exact ⟨fun _ => nofun, fun _ => ⟨none, rfl⟩⟩
  | some v =>
    constructor
    · rintro ⟨r, hr⟩ w hw
      obtain rfl := Option.some.inj hw
      simp only [readSide, Option.map_some, Option.mapM_some] at hr
      obtain ⟨value, hvalue, -⟩ := bind_eq_ok.1 hr
      cases hparse : Json.Value.parse? v.print with
      | none =>
        rw [hparse] at hvalue
        cases hvalue
      | some value => exact Json.depth_le_of_parse? hparse
    · intro hdepth
      refine ⟨some v.reread, ?_⟩
      simp only [readSide, Option.map_some, Option.mapM_some,
        Json.Value.parse?_print (hwell v rfl) (hdepth v rfl)]
      rfl

/-- An output can be read from its row exactly when it nests no deeper than a text may. -/
theorem exists_toOutput_iff {id : Uuid} {o : Run.Output} (hwell : o.WellFormed) :
    (∃ r, (ofOutput o).toOutput id = .ok r) ↔ o.Fits := by
  constructor
  · rintro ⟨r, hr⟩
    obtain ⟨success, hsuccess, hr⟩ := bind_eq_ok.1 hr
    obtain ⟨failure, hfailure, -⟩ := bind_eq_ok.1 hr
    exact ⟨(exists_readSide_iff _ _ hwell.1).1 ⟨_, hsuccess⟩,
      (exists_readSide_iff _ _ hwell.2).1 ⟨_, hfailure⟩⟩
  · rintro ⟨hsuccess, hfailure⟩
    obtain ⟨success, hsuccess⟩ := (exists_readSide_iff "success" id hwell.1).2 hsuccess
    obtain ⟨failure, hfailure⟩ := (exists_readSide_iff "failure" id hwell.2).2 hfailure
    exact ⟨⟨success, failure⟩,
      bind_eq_ok.2 ⟨success, hsuccess, bind_eq_ok.2 ⟨failure, hfailure, rfl⟩⟩⟩

theorem toOutput_ofOutput {id : Uuid} {o : Run.Output} (hwell : o.WellFormed) (hfits : o.Fits) :
    (ofOutput o).toOutput id = .ok o.reread := by
  obtain ⟨r, hr⟩ := (exists_toOutput_iff hwell).2 hfits
  rw [hr, eq_reread_of_toOutput hwell hr]

end Store.OutputRow

end RunLedger
