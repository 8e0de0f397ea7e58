import RunLedger.Proofs.Service.Operations
import RunLedger.Proofs.Store.Outputs

/-!
Where the output of a run is. From the commit that saved it an output is in one place: in the store
as it was saved, or on its way with one announced end, or discarded by one cancellation. A step
moves the output of a run at most once, and a run is created before all else that is announced about
it, since an identifier that was ever stored is refused.
-/

set_option autoImplicit false

namespace RunLedger

/-- Whether an announcement is the end of a run and carries its output. -/
def Announcement.delivers (id : Uuid) : Announcement → Bool
  | .ended job _ (some _) => job = id
  | _ => false

private theorem Announcement.jobId_of_delivers {id : Uuid} {a : Announcement}
    (h : a.delivers id = true) : a.jobId = id := by
  unfold delivers at h
  split at h
  · exact of_decide_eq_true h
  · cases h

namespace Service

open RunLedger.Store (Tables OutputRow)

def Ledger.fresh : Ledger := .ofDatabase .migrated

/-- A run is created before all else that is announced about it, and once. -/
def CreatedFirst (id : Uuid) (announced : List Announcement) : Prop :=
  announced.filter (·.jobId = id) = [] ∨
    ∃ actionId later, announced.filter (·.jobId = id) = .created id actionId :: later ∧
      ∀ a ∈ later, a.kind ≠ .created

/-- Where the output of a run is after a sequence of steps; each place says what the others deny.
`isCarried` says which output may be delivered for the one that was saved. -/
inductive Whereabouts (id : Uuid) (past : List Step) (l : Ledger) (output : Run.Output)
    (isCarried : Run.Output → Prop) : Prop
  /-- It is stored as it was saved. -/
  | stored : l.storedOutput? id = some (.ofOutput output) →
      l.announced.filter (·.delivers id) = [] → past.filter (·.discards id) = [] →
      Whereabouts id past l output isCarried
  /-- One announced end carries it, and the commit of that step answered it. -/
  | delivered (s : Step) (status : Run.Status) (carried : Run.Output) :
      isCarried carried → s ∈ past → s.answer = .kept (some carried) →
      s.announced = [.ended id status (some carried)] → l.storedOutput? id = none →
      l.announced.filter (·.delivers id) = [.ended id status (some carried)] →
      past.filter (·.discards id) = [] → Whereabouts id past l output isCarried
  /-- One cancellation that took effect dropped it. -/
  | discarded (s : Step) : l.storedOutput? id = none →
      l.announced.filter (·.delivers id) = [] → past.filter (·.discards id) = [s] →
      Whereabouts id past l output isCarried

/-- What one step does about one run: it leaves the output where it is, saves it, delivers it or
discards it. -/
inductive Effect (id : Uuid) (s : Step) : Prop
  | quiet : s.after.hasRun id = s.before.hasRun id →
      s.after.storedOutput? id = s.before.storedOutput? id →
      (∀ a ∈ s.announced, a.jobId = id → s.before.hasRun id = true ∧ a.kind ≠ .created) →
      (∀ a ∈ s.announced, a.delivers id = false) → s.saved? id = none →
      s.discards id = false → Effect id s
  | saved (output : Run.Output) (actionId : Uuid) : s.before.hasRun id = false →
      s.after.hasRun id = true → s.after.storedOutput? id = some (.ofOutput output) →
      s.announced = [.created id actionId] → s.saved? id = some output →
      s.discards id = false → Effect id s
  | delivered (row : OutputRow) (status : Run.Status) (carried : Run.Output) :
      s.before.hasRun id = true → s.after.hasRun id = true →
      s.before.storedOutput? id = some row → row.toOutput id = .ok carried →
      s.after.storedOutput? id = none → s.answer = .kept (some carried) →
      s.announced = [.ended id status (some carried)] → s.saved? id = none →
      s.discards id = false → Effect id s
  | discarded (row : OutputRow) : s.before.hasRun id = true → s.after.hasRun id = true →
      s.before.storedOutput? id = some row → s.after.storedOutput? id = none →
      s.announced = [.cancelled id] → s.saved? id = none → s.discards id = true → Effect id s

variable {id : Uuid} {s : Step} {past : List Step} {l : Ledger} {t t' written : Tables}
  {run : Run} {output : Run.Output} {value : Option Run.Output} {op : Operation}
  {a : Announcement}

private theorem Ledger.hasRun_eq (hrest : l.IsAtRest t) (id : Uuid) :
    l.hasRun id = (t.findRun? id).isSome := by
  have hdb : l.database = ⟨some t, none, true⟩ := hrest
  rw [hasRun, hdb]
  rfl

private theorem Ledger.storedOutput?_eq (hrest : l.IsAtRest t) (id : Uuid) :
    l.storedOutput? id = t.findOutput? id := by
  have hdb : l.database = ⟨some t, none, true⟩ := hrest
  rw [storedOutput?, hdb]
  rfl

/-! ### What a step does about a run -/

private theorem isSome_findRun?_updateRun (hwrite : t.updateRun run = .ok written) (id : Uuid) :
    (written.findRun? id).isSome = (t.findRun? id).isSome := by
  rw [Tables.findRun?_updateRun hwrite id]
  split
  · exact Option.isSome_map
  · rfl

theorem isSome_findRun?_of_updateRun (hwrite : t.updateRun run = .ok written) :
    (t.findRun? run.jobId).isSome = true :=
  (t.exists_updateRun_iff run).1 ⟨written, hwrite⟩

/-- An operation leaves all runs alone but the one that it announces. -/
private theorem Commits.frame (h : Commits t op value a t') (hid : a.jobId ≠ id) :
    (t'.findRun? id).isSome = (t.findRun? id).isSome ∧ t'.findOutput? id = t.findOutput? id := by
  cases h with
  | @save run output written _ hrun houtput =>
    have hjob : ¬ id = run.jobId := fun h => hid h.symm
    rw [Tables.findRun?_insertOutput houtput, Tables.findRun?_insertRun hrun, if_neg hjob,
      Tables.findOutput?_insertOutput houtput, if_neg hjob, Tables.findOutput?_insertRun hrun]
    exact ⟨rfl, rfl⟩
  | update hwrite =>
    exact ⟨isSome_findRun?_updateRun hwrite id, Tables.findOutput?_updateRun hwrite id⟩
  | @finish run written value hwrite hread =>
    have hjob : ¬ id = run.jobId := fun h => hid h.symm
    rw [Tables.findOutput?_dropOutput, if_neg hjob, Tables.findOutput?_updateRun hwrite]
    exact ⟨isSome_findRun?_updateRun hwrite id, rfl⟩
  | @cancel run now remote written value hwrite hread =>
    have hjob : ¬ id = run.jobId := fun h => hid h.symm
    rw [Tables.findOutput?_dropOutput, if_neg hjob, Tables.findOutput?_updateRun hwrite]
    exact ⟨isSome_findRun?_updateRun hwrite id, rfl⟩

private theorem mapM_toOutput_of_updateRun (hwrite : t.updateRun run = .ok written)
    (hread : written.output? id = .ok value) :
    (t.findOutput? id).mapM (·.toOutput id) = .ok value := by
  rwa [Tables.output?, Tables.findOutput?_updateRun hwrite] at hread

namespace Step

private theorem saved?_of_undone (h : s.answer = .undone) (id : Uuid) : s.saved? id = none := by
  unfold saved?
  rw [h]
  split
  · next hkept => cases hkept
  · rfl

private theorem discards_of_undone (h : s.answer = .undone) (id : Uuid) :
    s.discards id = false := by
  unfold discards
  rw [h]
  split
  · next hkept => cases hkept
  · rfl

private theorem saved?_of_other (h : Commits t s.operation value a t')
    (hanswer : s.answer = .kept value) (hid : a.jobId ≠ id) : s.saved? id = none := by
  generalize hop : s.operation = op at h
  cases h with
  | save =>
    simp only [saved?, hop, hanswer]
    exact if_neg hid
  | update => simp only [saved?, hop]
  | finish => simp only [saved?, hop]
  | cancel => simp only [saved?, hop]

private theorem discards_of_other (h : Commits t s.operation value a t')
    (hanswer : s.answer = .kept value) (hid : a.jobId ≠ id) : s.discards id = false := by
  generalize hop : s.operation = op at h
  cases h with
  | save => simp only [discards, hop]
  | update => simp only [discards, hop]
  | finish => simp only [discards, hop]
  | @cancel run now remote written value hwrite hread =>
    have hjob : decide (run.jobId = id) = false := decide_eq_false hid
    simp only [discards, hop, hanswer, hjob, Bool.false_and]

end Step

private theorem Effect.of_other (hrest : s.before.IsAtRest t) (hafter : s.after.IsAtRest t')
    (h : Commits t s.operation value a t') (hanswer : s.answer = .kept value)
    (hannounced : s.announced = [a]) (hid : a.jobId ≠ id) : Effect id s := by
  obtain ⟨hrun, houtput⟩ := h.frame hid
  refine .quiet ?_ ?_ ?_ ?_ (Step.saved?_of_other h hanswer hid)
    (Step.discards_of_other h hanswer hid)
  · rw [Ledger.hasRun_eq hafter, Ledger.hasRun_eq hrest, hrun]
  · rw [Ledger.storedOutput?_eq hafter, Ledger.storedOutput?_eq hrest, houtput]
  · intro b hb hjob
    rw [hannounced, List.mem_singleton] at hb
    exact absurd (hb ▸ hjob) hid
  · intro b hb
    rw [hannounced, List.mem_singleton] at hb
    rw [hb]
    exact Bool.eq_false_iff.2 fun hdelivers => hid (Announcement.jobId_of_delivers hdelivers)

private theorem Effect.of_save (hrest : s.before.IsAtRest t) (hafter : s.after.IsAtRest t')
    (hop : s.operation = .write (.save run output) .commit) (hanswer : s.answer = .kept none)
    (hannounced : s.announced = [.created run.jobId run.actionId])
    (hrun : t.insertRun run = .ok written)
    (houtput : written.insertOutput run.jobId output = .ok t') : Effect run.jobId s := by
  refine .saved output run.actionId ?_ ?_ ?_ hannounced ?_ ?_
  · rw [Ledger.hasRun_eq hrest, (Tables.insertRun_eq_ok_iff.1 hrun).1]
    rfl
  · rw [Ledger.hasRun_eq hafter, Tables.findRun?_insertOutput houtput,
      Tables.findRun?_insertRun hrun, if_pos rfl]
    rfl
  · rw [Ledger.storedOutput?_eq hafter, Tables.findOutput?_insertOutput houtput, if_pos rfl]
  · simp only [Step.saved?, hop, hanswer, if_true]
  · simp only [Step.discards, hop]

private theorem Effect.of_announced
    (hbefore : s.before.hasRun id = true) (hafter : s.after.hasRun id = true)
    (hstays : s.after.storedOutput? id = s.before.storedOutput? id) (hannounced : s.announced = [a])
    (hkind : a.kind ≠ .created) (hdelivers : a.delivers id = false) (hsaved : s.saved? id = none)
    (hdiscards : s.discards id = false) : Effect id s := by
  refine .quiet (by rw [hbefore, hafter]) hstays ?_ ?_ hsaved hdiscards
  · intro b hb _
    rw [hannounced, List.mem_singleton] at hb
    rw [hb]
    exact ⟨hbefore, hkind⟩
  · intro b hb
    rw [hannounced, List.mem_singleton] at hb
    rw [hb, hdelivers]

private theorem Effect.of_update (hrest : s.before.IsAtRest t) (hafter : s.after.IsAtRest t')
    (hop : s.operation = .write (.update run) .commit)
    (hannounced : s.announced = [.updated run.jobId run.status])
    (hwrite : t.updateRun run = .ok t') : Effect run.jobId s := by
  have hfound := isSome_findRun?_of_updateRun hwrite
  refine .of_announced ?_ ?_ ?_ hannounced nofun rfl ?_ ?_
  · rw [Ledger.hasRun_eq hrest, hfound]
  · rw [Ledger.hasRun_eq hafter, isSome_findRun?_updateRun hwrite, hfound]
  · rw [Ledger.storedOutput?_eq hafter, Ledger.storedOutput?_eq hrest,
      Tables.findOutput?_updateRun hwrite]
  · simp only [Step.saved?, hop]
  · simp only [Step.discards, hop]

private theorem hasRun_of_dropOutput (hrest : s.before.IsAtRest t)
    (hafter : s.after.IsAtRest (written.dropOutput run.jobId))
    (hwrite : t.updateRun run = .ok written) :
    s.before.hasRun run.jobId = true ∧ s.after.hasRun run.jobId = true := by
  have hfound := isSome_findRun?_of_updateRun hwrite
  rw [Ledger.hasRun_eq hrest, Ledger.hasRun_eq hafter]
  refine ⟨hfound, ?_⟩
  rw [← hfound]
  exact isSome_findRun?_updateRun hwrite run.jobId

private theorem storedOutput?_of_dropOutput
    (hafter : s.after.IsAtRest (written.dropOutput id)) : s.after.storedOutput? id = none := by
  rw [Ledger.storedOutput?_eq hafter, Tables.findOutput?_dropOutput, if_pos rfl]

private theorem Effect.of_finish (hrest : s.before.IsAtRest t)
    (hafter : s.after.IsAtRest (written.dropOutput run.jobId))
    (hop : s.operation = .write (.finish run) .commit) (hanswer : s.answer = .kept value)
    (hannounced : s.announced = [.ended run.jobId run.status value])
    (hwrite : t.updateRun run = .ok written) (hread : written.output? run.jobId = .ok value) :
    Effect run.jobId s := by
  obtain ⟨hbefore, hstays⟩ := hasRun_of_dropOutput hrest hafter hwrite
  have hgone := storedOutput?_of_dropOutput hafter
  have hsaved : s.saved? run.jobId = none := by simp only [Step.saved?, hop]
  have hdiscards : s.discards run.jobId = false := by simp only [Step.discards, hop]
  have htaken := mapM_toOutput_of_updateRun hwrite hread
  rw [← Ledger.storedOutput?_eq hrest] at htaken
  cases hrow : s.before.storedOutput? run.jobId with
  | none =>
    rw [hrow] at htaken
    cases htaken
    exact .of_announced hbefore hstays (by rw [hgone, hrow]) hannounced nofun rfl hsaved hdiscards
  | some row =>
    rw [hrow, Option.mapM_some] at htaken
    cases hcarried : row.toOutput run.jobId with
    | error e =>
      rw [hcarried] at htaken
      cases htaken
    | ok carried =>
      rw [hcarried] at htaken
      cases htaken
      exact .delivered row run.status carried hbefore hstays hrow hcarried hgone hanswer
        hannounced hsaved hdiscards

private theorem Effect.of_cancel {now : Time.Instant} {remote : Deregistration}
    (hrest : s.before.IsAtRest t) (hafter : s.after.IsAtRest (written.dropOutput run.jobId))
    (hop : s.operation = .cancel run now remote) (hanswer : s.answer = .kept none)
    (hannounced : s.announced = [.cancelled run.jobId])
    (hwrite : t.updateRun (run.cancel now) = .ok written) : Effect run.jobId s := by
  have hdropped : s.after.IsAtRest (written.dropOutput (run.cancel now).jobId) := hafter
  obtain ⟨hbefore, hstays⟩ := hasRun_of_dropOutput hrest hdropped hwrite
  rw [Run.cancel_jobId] at hbefore hstays
  have hgone := storedOutput?_of_dropOutput hafter
  have hsaved : s.saved? run.jobId = none := by simp only [Step.saved?, hop]
  have hdiscards : s.discards run.jobId = (s.before.storedOutput? run.jobId).isSome := by
    simp only [Step.discards, hop, hanswer, decide_true, Bool.true_and]
  cases hrow : s.before.storedOutput? run.jobId with
  | none =>
    rw [hrow] at hdiscards
    exact .of_announced hbefore hstays (by rw [hgone, hrow]) hannounced nofun rfl hsaved hdiscards
  | some row =>
    rw [hrow] at hdiscards
    exact .discarded row hbefore hstays hrow hgone hannounced hsaved hdiscards

private theorem Step.effect (hrest : s.before.IsAtRest t) (id : Uuid) : Effect id s := by
  rcases s.kept_or_undone hrest with
    ⟨value, a, t', hcommits, hanswer, hafter, hannounced⟩ | ⟨hanswer, hafter, hannounced⟩
  · by_cases hid : a.jobId = id
    · subst hid
      generalize hop : s.operation = op at hcommits
      cases hcommits with
      | save hrun houtput => exact .of_save hrest hafter hop hanswer hannounced hrun houtput
      | update hwrite => exact .of_update hrest hafter hop hannounced hwrite
      | finish hwrite hread => exact .of_finish hrest hafter hop hanswer hannounced hwrite hread
      | cancel hwrite hread => exact .of_cancel hrest hafter hop hanswer hannounced hwrite
    · exact .of_other hrest hafter hcommits hanswer hannounced hid
  · refine .quiet ?_ ?_ ?_ ?_ (saved?_of_undone hanswer id) (discards_of_undone hanswer id)
    · rw [Ledger.hasRun_eq hafter, Ledger.hasRun_eq hrest]
    · rw [Ledger.storedOutput?_eq hafter, Ledger.storedOutput?_eq hrest]
    · simp [hannounced]
    · simp [hannounced]

/-! ### What a sequence of steps keeps -/

/-- What is known of a run after a sequence of steps: it was never saved, or it was saved once and
its output is in one place. -/
inductive Account (id : Uuid) (past : List Step) (l : Ledger) : Prop
  | unused : l.hasRun id = false → l.announced.filter (·.jobId = id) = [] →
      past.filterMap (·.saved? id) = [] → past.filter (·.discards id) = [] → Account id past l
  | used (actionId : Uuid) (later : List Announcement) (output : Run.Output) :
      l.hasRun id = true → l.announced.filter (·.jobId = id) = .created id actionId :: later →
      (∀ a ∈ later, a.kind ≠ .created) → past.filterMap (·.saved? id) = [output] →
      Whereabouts id past l output (fun carried => (OutputRow.ofOutput output).toOutput id =
        .ok carried) → Account id past l

private theorem filter_discards_of_false (h : s.discards id = false) (past : List Step) :
    (past ++ [s]).filter (·.discards id) = past.filter (·.discards id) := by
  simp [List.filter_append, h]

theorem Whereabouts.next
    (h : Whereabouts id past s.before output fun carried =>
      (OutputRow.ofOutput output).toOutput id = .ok carried)
    (heffect : Effect id s) (hrun : s.before.hasRun id = true)
    (hannounced : s.after.announced = s.before.announced ++ s.announced) :
    Whereabouts id (past ++ [s]) s.after output fun carried =>
      (OutputRow.ofOutput output).toOutput id = .ok carried := by
  have hdeliveries : s.after.announced.filter (·.delivers id) =
      s.before.announced.filter (·.delivers id) ++ s.announced.filter (·.delivers id) := by
    rw [hannounced, List.filter_append]
  cases heffect with
  | quiet _ hstays _ hsilent _ hdiscards =>
    have hnone : s.announced.filter (·.delivers id) = [] :=
      List.filter_eq_nil_iff.2 fun a ha => Bool.eq_false_iff.1 (hsilent a ha)
    rw [hnone, List.append_nil] at hdeliveries
    have hdiscarded := filter_discards_of_false hdiscards past
    cases h with
    | stored hstored hnever hkept =>
      exact .stored (hstays.trans hstored) (hdeliveries.trans hnever) (hdiscarded.trans hkept)
    | delivered r status carried hcarried hr hanswer hone hgone honce hkept =>
      exact .delivered r status carried hcarried (List.mem_append_left _ hr) hanswer hone
        (hstays.trans hgone) (hdeliveries.trans honce) (hdiscarded.trans hkept)
    | discarded r hgone hnever honce =>
      exact .discarded r (hstays.trans hgone) (hdeliveries.trans hnever) (hdiscarded.trans honce)
  | saved _ _ hnew => exact absurd (hrun.symm.trans hnew) (by decide)
  -- What leaves the store was stored, so it had neither been delivered nor discarded.
  | delivered row status carried _ _ hrow hread hgone hanswer hone _ hdiscards =>
    have hdiscarded := filter_discards_of_false hdiscards past
    cases h with
    | stored hstored hnever hkept =>
      obtain rfl : OutputRow.ofOutput output = row := Option.some.inj (hstored.symm.trans hrow)
      rw [hnever, hone] at hdeliveries
      refine .delivered s status carried hread (by simp) hanswer hone hgone ?_
        (hdiscarded.trans hkept)
      rw [hdeliveries]
      simp [Announcement.delivers]
    | delivered _ _ _ _ _ _ _ hbefore => exact absurd (hbefore.symm.trans hrow) nofun
    | discarded _ hbefore => exact absurd (hbefore.symm.trans hrow) nofun
  | discarded row _ _ hrow hgone hone _ hdiscards =>
    cases h with
    | stored hstored hnever hkept =>
      refine .discarded s hgone ?_ ?_
      · rw [hdeliveries, hnever, hone]
        rfl
      · simp [List.filter_append, hkept, hdiscards]
    | delivered _ _ _ _ _ _ _ hbefore => exact absurd (hbefore.symm.trans hrow) nofun
    | discarded _ hbefore => exact absurd (hbefore.symm.trans hrow) nofun

private theorem Effect.of_stored (h : Effect id s) (hrun : s.before.hasRun id = true) :
    s.after.hasRun id = true ∧ s.saved? id = none ∧
      ∀ a ∈ s.announced, a.jobId = id → a.kind ≠ .created := by
  cases h with
  | quiet hstays _ hothers _ hsaved _ =>
    exact ⟨hstays.trans hrun, hsaved, fun a ha hjob => (hothers a ha hjob).2⟩
  | saved _ _ hnew => exact absurd (hrun.symm.trans hnew) (by decide)
  | delivered _ _ _ _ hafter _ _ _ _ hone hsaved _ =>
    refine ⟨hafter, hsaved, ?_⟩
    intro a ha _
    rw [hone, List.mem_singleton] at ha
    rw [ha]
    nofun
  | discarded _ _ hafter _ _ hone hsaved _ =>
    refine ⟨hafter, hsaved, ?_⟩
    intro a ha _
    rw [hone, List.mem_singleton] at ha
    rw [ha]
    nofun

private theorem filter_delivers_eq_nil {announced : List Announcement}
    (h : announced.filter (·.jobId = id) = []) : announced.filter (·.delivers id) = [] := by
  apply List.filter_eq_nil_iff.2
  intro a ha hdelivers
  have hjob : a.jobId = id := Announcement.jobId_of_delivers hdelivers
  exact List.filter_eq_nil_iff.1 h a ha (decide_eq_true hjob)

theorem Account.next (h : Account id past s.before) (heffect : Effect id s)
    (hannounced : s.after.announced = s.before.announced ++ s.announced) :
    Account id (past ++ [s]) s.after := by
  have habout : s.after.announced.filter (·.jobId = id) =
      s.before.announced.filter (·.jobId = id) ++ s.announced.filter (·.jobId = id) := by
    rw [hannounced, List.filter_append]
  have hsaves : (past ++ [s]).filterMap (·.saved? id) =
      past.filterMap (·.saved? id) ++ (s.saved? id).toList := by
    rw [List.filterMap_append]
    cases hsaved : s.saved? id <;> simp [hsaved]
  cases h with
  | unused hrun hsilent hunsaved hkept =>
    cases heffect with
    | quiet hstays _ hothers _ hsaved hdiscards =>
      have hnone : s.announced.filter (·.jobId = id) = [] := by
        apply List.filter_eq_nil_iff.2
        intro a ha hjob
        have hbefore := (hothers a ha (of_decide_eq_true hjob)).1
        exact absurd (hrun.symm.trans hbefore) (by decide)
      refine .unused (hstays.trans hrun) ?_ ?_ ?_
      · rw [habout, hsilent, hnone]
        rfl
      · rw [hsaves, hunsaved, hsaved]
        rfl
      · rw [filter_discards_of_false hdiscards, hkept]
    -- Nothing was announced about the run, so what this save announces comes first.
    | saved output actionId _ hafter hstored hone hsaved hdiscards =>
      refine .used actionId [] output hafter ?_ nofun ?_ (.stored hstored ?_ ?_)
      · rw [habout, hsilent, hone]
        simp [Announcement.jobId]
      · rw [hsaves, hunsaved, hsaved]
        rfl
      · rw [hannounced, List.filter_append, filter_delivers_eq_nil hsilent, hone]
        rfl
      · rw [filter_discards_of_false hdiscards, hkept]
    | delivered _ _ _ hbefore => exact absurd (hrun.symm.trans hbefore) (by decide)
    | discarded _ hbefore => exact absurd (hrun.symm.trans hbefore) (by decide)
  -- The identifier is stored and a second save is refused, so only the place can change.
  | used actionId later output hrun hfirst hlater hsaved hplace =>
    obtain ⟨hafter, hnothing, hkinds⟩ := heffect.of_stored hrun
    refine .used actionId (later ++ s.announced.filter (·.jobId = id)) output hafter ?_ ?_ ?_
      (hplace.next heffect hrun hannounced)
    · rw [habout, hfirst, List.cons_append]
    · intro a ha
      rcases List.mem_append.1 ha with ha | ha
      · exact hlater a ha
      · obtain ⟨hmem, hjob⟩ := List.mem_filter.1 ha
        exact hkinds a hmem (of_decide_eq_true hjob)
    · rw [hsaves, hsaved, hnothing]
      rfl

private theorem account (ops : List Operation) (id : Uuid) :
    Account id (Ledger.fresh.steps ops) (Ledger.fresh.performAll ops) := by
  have hfresh : Ledger.fresh.IsAtRest .empty := rfl
  induction ops using List.reverseRecOn with
  | nil => exact .unused rfl rfl rfl rfl
  | append_singleton ops op ih =>
    obtain ⟨t, hrest⟩ := Ledger.exists_rest hfresh ops
    let s : Step := ⟨op, Ledger.fresh.performAll ops⟩
    have hs : s.before.IsAtRest t := hrest
    have hnext : Account id (Ledger.fresh.steps ops ++ [s]) s.after :=
      ih.next (s.effect hs id) (s.announced_after hs)
    rw [Ledger.steps_append, Ledger.performAll_append]
    exact hnext

/-! ### Where an output is -/

private theorem Whereabouts.mono {P Q : Run.Output → Prop} (h : Whereabouts id past l output P)
    (hPQ : ∀ carried, P carried → Q carried) : Whereabouts id past l output Q := by
  cases h with
  | stored hstored hnever hkept => exact .stored hstored hnever hkept
  | delivered r status carried hcarried hr hanswer hone hgone honce hkept =>
    exact .delivered r status carried (hPQ carried hcarried) hr hanswer hone hgone honce hkept
  | discarded r hgone hnever honce => exact .discarded r hgone hnever honce

private theorem getOutput_of_missing (hrest : l.IsAtRest t) (hnone : l.storedOutput? id = none) :
    getOutput l.database id = .error (.outputNotFound id) := by
  rw [Ledger.storedOutput?_eq hrest] at hnone
  have hread : t.output? id = .ok none := by
    rw [Tables.output?, hnone]
    rfl
  have htables : l.database.tables.bind (·.output? id) = .ok none := by
    rw [Ledger.tables_of_rest hrest]
    exact hread
  rw [getOutput, htables]
  rfl

private theorem Ledger.exists_announced (hrest : l.IsAtRest t) (ops : List Operation) :
    ∃ more, (l.performAll ops).announced = l.announced ++ more := by
  induction ops generalizing l t with
  | nil => exact ⟨[], (List.append_nil _).symm⟩
  | cons op ops ih =>
    let s : Step := ⟨op, l⟩
    have hstep : s.after.announced = l.announced ++ s.announced := s.announced_after hrest
    obtain ⟨t', hafter⟩ := Ledger.exists_rest hrest [op]
    obtain ⟨more, hmore⟩ := ih hafter
    refine ⟨s.announced ++ more, ?_⟩
    rw [← List.append_assoc, ← hstep]
    exact hmore

/-- An output that has left the store does not come back, and no later end delivers one. -/
private theorem Whereabouts.of_gone {P Q : Run.Output → Prop} {later : List Step} {l' : Ledger}
    {output' : Run.Output} {more : List Announcement} (h : Whereabouts id past l output P)
    (hgone : l.storedOutput? id = none) (h' : Whereabouts id (past ++ later) l' output' Q)
    (hmore : l'.announced = l.announced ++ more) :
    l'.storedOutput? id = none ∧ more.filter (·.delivers id) = [] := by
  have hdeliveries : l'.announced.filter (·.delivers id) =
      l.announced.filter (·.delivers id) ++ more.filter (·.delivers id) := by
    rw [hmore, List.filter_append]
  have hdiscards : (past ++ later).filter (·.discards id) =
      past.filter (·.discards id) ++ later.filter (·.discards id) := List.filter_append _ _
  -- Both lists only grow and either place allows one entry, so the later place names the same one.
  cases h with
  | stored hstored => exact absurd (hgone.symm.trans hstored) nofun
  | delivered _ _ _ _ _ _ _ _ honce =>
    rw [honce] at hdeliveries
    cases h' with
    | stored _ hnever => exact absurd (hnever.symm.trans hdeliveries) nofun
    | delivered _ _ _ _ _ _ _ hgone' honce' =>
      refine ⟨hgone', ?_⟩
      exact (List.cons.inj (honce'.symm.trans hdeliveries)).2.symm
    | discarded _ _ hnever => exact absurd (hnever.symm.trans hdeliveries) nofun
  | discarded _ _ hnever honce =>
    rw [honce] at hdiscards
    rw [hnever, List.nil_append] at hdeliveries
    cases h' with
    | stored _ _ hkept => exact absurd (hkept.symm.trans hdiscards) nofun
    | delivered _ _ _ _ _ _ _ _ _ hkept => exact absurd (hkept.symm.trans hdiscards) nofun
    | discarded _ hgone' hnever' => exact ⟨hgone', hdeliveries.symm.trans hnever'⟩

/-- After every sequence of operations a run was created before all else that was announced about
it, and an output that was saved is in one place: stored as it was saved, delivered by one announced
end, or discarded by one cancellation. What is delivered is what the stored text reads as, which is
the output itself but for floating numbers that their text does not give back. Once an output has
left the store it is not found again, and no later end carries one. -/
theorem output_in_one_place (ops later : List Operation) (id : Uuid) :
    let past := Ledger.fresh.steps ops
    let l := Ledger.fresh.performAll ops
    let l' := Ledger.fresh.performAll (ops ++ later)
    CreatedFirst id l.announced ∧
      ∀ output, output ∈ past.filterMap (·.saved? id) →
        Whereabouts id past l output (fun carried =>
          (OutputRow.ofOutput output).toOutput id = .ok carried ∧
            (output.WellFormed → carried = output.reread)) ∧
        (l.storedOutput? id = none →
          getOutput l'.database id = .error (.outputNotFound id) ∧
          ∀ status value, .ended id status value ∈ l'.announced.drop l.announced.length →
            value = none) := by
  intro past l l'
  have hfresh : Ledger.fresh.IsAtRest .empty := rfl
  obtain ⟨t, hrest⟩ := Ledger.exists_rest hfresh ops
  obtain ⟨t', hrest'⟩ := Ledger.exists_rest hfresh (ops ++ later)
  obtain ⟨more, hmore⟩ := Ledger.exists_announced hrest later
  rw [← Ledger.performAll_append] at hmore
  have hafter := account (ops ++ later) id
  rw [Ledger.steps_append] at hafter
  cases account ops id with
  | unused _ hsilent hunsaved _ =>
    refine ⟨.inl hsilent, ?_⟩
    intro output houtput
    rw [hunsaved] at houtput
    cases houtput
  | used actionId about saved _ hfirst hkinds hsaved hplace =>
    refine ⟨.inr ⟨actionId, about, hfirst, hkinds⟩, ?_⟩
    intro output houtput
    rw [hsaved, List.mem_singleton] at houtput
    subst houtput
    refine ⟨hplace.mono fun carried h => ⟨h, fun hwell =>
      OutputRow.eq_reread_of_toOutput hwell h⟩, ?_⟩
    intro hgone
    cases hafter with
    | unused _ _ hunsaved _ =>
      rw [List.filterMap_append, hsaved] at hunsaved
      cases hunsaved
    | used _ _ _ _ _ _ _ hplace' =>
      obtain ⟨hgone', hsilent⟩ := hplace.of_gone hgone hplace' hmore
      refine ⟨getOutput_of_missing hrest' hgone', ?_⟩
      intro status value hended
      rw [hmore, List.drop_left] at hended
      cases value with
      | none => rfl
      | some carried =>
        have hdelivers := List.filter_eq_nil_iff.1 hsilent _ hended
        exact absurd (decide_eq_true rfl) hdelivers

def sampleRun : Run :=
  .new ⟨⟨List.replicate 16 0x22, rfl⟩⟩ ⟨⟨List.replicate 16 0x33, rfl⟩⟩ .epoch

/-- An end that was rolled back and one that was committed; later the run is not saved again, and
neither a cancellation nor a second end finds an output. -/
theorem output_of_ended_run :
    let id := sampleRun.jobId
    let output : Run.Output := .ofFailure (.texts ["lost"])
    let save : Operation := .write (.save sampleRun output) .commit
    let ops : List Operation :=
      [save, .write (.finish sampleRun) .rollback, .write (.finish sampleRun) .commit]
    let later : List Operation :=
      [save, .cancel sampleRun .epoch .accepted, .write (.finish sampleRun) .commit]
    let past := Ledger.fresh.steps ops
    let l := Ledger.fresh.performAll ops
    output ∈ past.filterMap (·.saved? id) ∧ l.storedOutput? id = none ∧
      Whereabouts id past l output (fun carried =>
        (OutputRow.ofOutput output).toOutput id = .ok carried ∧
          (output.WellFormed → carried = output.reread)) ∧
      getOutput (Ledger.fresh.performAll (ops ++ later)).database id =
        .error (.outputNotFound id) := by
  intro id output save ops later past l
  have hsaved : past.filterMap (·.saved? id) = [output] := rfl
  have hmem : output ∈ past.filterMap (·.saved? id) := by
    rw [hsaved]
    exact List.mem_singleton_self output
  have hgone : l.storedOutput? id = none := by decide +kernel
  obtain ⟨-, houtputs⟩ := output_in_one_place ops later id
  obtain ⟨hplace, hstays⟩ := houtputs output hmem
  exact ⟨hmem, hgone, hplace, (hstays hgone).1⟩

/-- The text of the output that an announcement carries. -/
def carriedText : Announcement → Option String
  | .ended _ _ output => output.map (·.toJson.print)
  | _ => none

/-- What is delivered need not be the output that was saved: the text of `3e+23` reads as the number
next to it. -/
theorem delivered_other_than_saved :
    ¬ ∀ (ops : List Operation) (id : Uuid) (output : Run.Output),
      output ∈ (Ledger.fresh.steps ops).filterMap (·.saved? id) →
        Whereabouts id (Ledger.fresh.steps ops) (Ledger.fresh.performAll ops) output
          (· = output) := by
  intro h
  let output : Run.Output := .ofSuccess (.number (.float 0x44CFC3842BD1F072))
  let ops : List Operation :=
    [.write (.save sampleRun output) .commit, .write (.finish sampleRun) .commit]
  have hsaved : (Ledger.fresh.steps ops).filterMap (·.saved? sampleRun.jobId) = [output] := rfl
  cases h ops sampleRun.jobId output (by rw [hsaved]; exact List.mem_singleton_self output) with
  | stored hstored =>
    have hgone : (Ledger.fresh.performAll ops).storedOutput? sampleRun.jobId = none := by
      decide +kernel
    exact absurd (hgone.symm.trans hstored) nofun
  | delivered s status carried hcarried _ _ _ _ honce =>
    subst hcarried
    have htexts : ((Ledger.fresh.performAll ops).announced.filter
        (·.delivers sampleRun.jobId)).map carriedText ≠ [some output.toJson.print] := by
      decide +kernel
    exact htexts (congrArg (List.map carriedText) honce)
  | discarded s _ _ honce =>
    have hnever : ((Ledger.fresh.steps ops).filter (·.discards sampleRun.jobId)).length = 0 := by
      decide +kernel
    rw [honce] at hnever
    cases hnever

end Service

end RunLedger
