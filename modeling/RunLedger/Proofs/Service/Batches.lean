import RunLedger.Proofs.Service.Delivery

/-!
Transactions with any number of changes. A change that could be written stages its announcement, but
a transaction is committed through one staged change, and that is the only one announced. All that
was written is kept with it, so a change is announced exactly when it is kept only as long as no
transaction that is committed holds a second change.
-/

set_option autoImplicit false

namespace RunLedger.Service

open RunLedger.Store (Tables)

/-- A transaction: its changes in order, and the staged change that it is committed through, counted
among its own. With none, or one that is not there, it is rolled back. -/
structure Batch where
  changes : List Change
  through : Option Nat

/-- The changes that could be written, one after the other, and the tables after them. What a change
wrote before it failed stays. -/
def Change.applyAll (t : Tables) : List Change → List Staged × Tables
  | [] => ([], t)
  | change :: changes =>
    match change.apply t with
    | (.error _, t) => applyAll t changes
    | (.ok staged, t) => (staged :: (applyAll t changes).1, (applyAll t changes).2)

/-- What becomes of a transaction. -/
structure Settlement where
  /-- The changes that could be written. -/
  writes : List Staged
  /-- The one that the transaction was committed through; none when it was rolled back. -/
  carrier : Option Staged
  tables : Tables

namespace Settlement

/-- What there is to announce of the changes that are kept. -/
def durable (s : Settlement) : List Announcement :=
  if s.carrier.isSome then s.writes.map (·.announcement) else []

def announced (s : Settlement) : List Announcement := (s.carrier.map (·.announcement)).toList

end Settlement

namespace Batch

def settle (b : Batch) (t : Tables) : Settlement :=
  match b.through.bind ((Change.applyAll t b.changes).1[·]?) with
  | none => ⟨(Change.applyAll t b.changes).1, none, t⟩
  | some carrier => ⟨(Change.applyAll t b.changes).1, some carrier, (Change.applyAll t b.changes).2⟩

/-- What becomes of transactions, one after the other. -/
def settleAll (t : Tables) : List Batch → List Settlement
  | [] => []
  | b :: batches => b.settle t :: settleAll (b.settle t).tables batches

/-- The tables after transactions, one after the other. -/
def tablesAfter (t : Tables) (batches : List Batch) : Tables :=
  batches.foldl (fun t b => (b.settle t).tables) t

end Batch

namespace Ledger

/-- Stages changes in the open transaction; one that fails does not end it. -/
def stageAll (l : Ledger) : List Change → List Nat × Ledger
  | [] => ([], l)
  | change :: changes =>
    match l.stageChange change with
    | (.error _, l) => l.stageAll changes
    | (.ok k, l) => (k :: (l.stageAll changes).1, (l.stageAll changes).2)

def transact (l : Ledger) (b : Batch) : Ledger :=
  match l.begin with
  | .error _ => l
  | .ok l =>
    match b.through.bind ((l.stageAll b.changes).1[·]?) with
    | none => (l.stageAll b.changes).2.abandon
    | some k =>
      match (l.stageAll b.changes).2.commitThrough k with
      | .error _ => (l.stageAll b.changes).2.abandon
      | .ok (_, l) => l

def transactAll (l : Ledger) (batches : List Batch) : Ledger := batches.foldl transact l

end Ledger

variable {l : Ledger} {t v : Tables}

/-! ### One transaction -/

private theorem Ledger.stageAll_spec {x : Store.Transaction} (changes : List Change)
    (hdb : l.database = ⟨some t, some x, true⟩) (hview : l.database.view = .ok v) :
    let r := l.stageAll changes
    let written := Change.applyAll v changes
    r.1 = List.range' l.staged.length written.1.length ∧
      r.2.staged = l.staged ++ written.1.map some ∧ r.2.announced = l.announced ∧
      ∃ y, r.2.database = ⟨some t, some y, true⟩ ∧ r.2.database.view = .ok written.2 := by
  induction changes generalizing l v x with
  | nil => exact ⟨rfl, (List.append_nil _).symm, rfl, x, hdb, hview⟩
  | cons change changes ih =>
    have hstage := stageChange_of_view change hdb hview
    rcases happly : change.apply v with ⟨e | staged, v'⟩
    · rw [happly] at hstage
      have hrest := @ih { l with database := ⟨some t, some (.writing v'), true⟩ } v' _ rfl rfl
      simp only [stageAll, Change.applyAll, hstage, happly]
      exact hrest
    · rw [happly] at hstage
      obtain ⟨hnumbers, hstaged, hannounced, y, hafter, hsees⟩ := @ih
        { l with
          database := ⟨some t, some (.writing v'), true⟩
          staged := l.staged ++ [some staged] } v' _ rfl rfl
      simp only [stageAll, Change.applyAll, hstage, happly]
      refine ⟨?_, ?_, hannounced, y, hafter, hsees⟩
      · rw [hnumbers, List.length_append, List.length_singleton, List.length_cons,
          List.range'_succ]
      · rw [hstaged, List.append_assoc, List.map_cons, List.singleton_append]

/-- A transaction that is committed keeps all that it wrote and announces the change that it was
committed through; one that is rolled back leaves tables and announcements alone. -/
private theorem Ledger.transact_spec (hrest : l.IsAtRest t) (b : Batch) :
    (l.transact b).IsAtRest (b.settle t).tables ∧
      (l.transact b).announced = l.announced ++ (b.settle t).announced := by
  have hdb : l.database = ⟨some t, none, true⟩ := hrest
  have hbegin : l.begin = .ok { l with database := ⟨some t, some .begun, true⟩ } := by
    simp [begin, hdb]
  obtain ⟨hnumbers, hstaged, hannounced, y, hopen, hsees⟩ :=
    @stageAll_spec { l with database := ⟨some t, some .begun, true⟩ } t t .begun b.changes rfl rfl
  simp only [transact, hbegin, Batch.settle]
  generalize Ledger.stageAll { l with database := ⟨some t, some .begun, true⟩ } b.changes = r at *
  generalize Change.applyAll t b.changes = written at *
  obtain ⟨numbers, l'⟩ := r
  obtain ⟨writes, v⟩ := written
  simp only at hnumbers hstaged hannounced hopen hsees ⊢
  have habandoned : l'.abandon.IsAtRest t ∧ l'.abandon.announced = l.announced ++ [] := by
    have hrollback : l'.abandon = { l' with database := ⟨some t, none, true⟩ } := by
      simp [abandon, rollback, hopen, Store.Database.rollback, Except.toOption]
    rw [hrollback, List.append_nil]
    exact ⟨rfl, hannounced⟩
  cases hthrough : b.through with
  | none => exact habandoned
  | some i =>
    simp only [Option.bind_some, hnumbers]
    by_cases hi : i < writes.length
    · have hwrite : writes[i]? = some writes[i] := List.getElem?_eq_getElem hi
      have hnumber : (List.range' l.staged.length writes.length)[i]? =
          some (l.staged.length + i) := by
        rw [List.getElem?_range' hi, Nat.one_mul]
      have hfound : (l'.staged[l.staged.length + i]?).join = some writes[i] := by
        rw [hstaged, List.getElem?_append_right (by omega)]
        simp [hwrite]
      simp only [hnumber, hwrite, commitThrough_of_view hopen hsees hfound]
      exact ⟨rfl, congrArg (· ++ [writes[i].announcement]) hannounced⟩
    · have hwrite : writes[i]? = none := List.getElem?_eq_none (by omega)
      have hnumber : (List.range' l.staged.length writes.length)[i]? = none :=
        List.getElem?_eq_none (by simpa using hi)
      simp only [hnumber, hwrite]
      exact habandoned

/-! ### Any number of transactions -/

private theorem Ledger.transactAll_spec (hrest : l.IsAtRest t) (batches : List Batch) :
    (l.transactAll batches).IsAtRest (Batch.tablesAfter t batches) ∧
      (l.transactAll batches).announced =
        l.announced ++ (Batch.settleAll t batches).flatMap Settlement.announced := by
  induction batches generalizing l t with
  | nil => exact ⟨hrest, (List.append_nil _).symm⟩
  | cons b batches ih =>
    obtain ⟨hafter, hannounced⟩ := Ledger.transact_spec hrest b
    obtain ⟨hlast, hall⟩ := ih hafter
    refine ⟨hlast, ?_⟩
    rw [Batch.settleAll, List.flatMap_cons, ← List.append_assoc, ← hannounced]
    exact hall

namespace Settlement

variable {s : Settlement} {settled : List Settlement}

private theorem carrier_mem_of_settle {b : Batch} {carrier : Staged}
    (h : (b.settle t).carrier = some carrier) : carrier ∈ (b.settle t).writes := by
  unfold Batch.settle at h ⊢
  split at h
  · cases h
  · next found hfound =>
    obtain ⟨i, -, hi⟩ := Option.bind_eq_some_iff.1 hfound
    cases h
    exact List.mem_of_getElem? hi

private theorem carrier_mem {batches : List Batch} (hs : s ∈ Batch.settleAll t batches) :
    ∀ carrier ∈ s.carrier, carrier ∈ s.writes := by
  induction batches generalizing t with
  | nil => cases hs
  | cons b batches ih =>
    rcases List.mem_cons.1 hs with rfl | hs
    · exact fun carrier h => carrier_mem_of_settle h
    · exact ih hs

private theorem announced_sublist (h : ∀ carrier ∈ s.carrier, carrier ∈ s.writes) :
    s.announced.Sublist s.durable := by
  unfold announced durable
  cases hcarrier : s.carrier with
  | none => exact .slnil
  | some carrier =>
    exact List.singleton_sublist.2 (List.mem_map_of_mem (h carrier hcarrier))

private theorem length_announced_eq_iff :
    s.announced.length = s.durable.length ↔ (s.carrier.isSome = true → s.writes.length = 1) := by
  unfold announced durable
  cases s.carrier <;> simp [eq_comm]

private theorem flatMap_announced_sublist
    (h : ∀ s ∈ settled, ∀ carrier ∈ s.carrier, carrier ∈ s.writes) :
    (settled.flatMap announced).Sublist (settled.flatMap durable) := by
  induction settled with
  | nil => exact .slnil
  | cons s settled ih =>
    rw [List.flatMap_cons, List.flatMap_cons]
    exact (announced_sublist (h s List.mem_cons_self)).append
      (ih fun s' hs' => h s' (List.mem_cons_of_mem s hs'))

private theorem flatMap_announced_eq_iff
    (h : ∀ s ∈ settled, ∀ carrier ∈ s.carrier, carrier ∈ s.writes) :
    settled.flatMap announced = settled.flatMap durable ↔
      ∀ s ∈ settled, s.carrier.isSome = true → s.writes.length = 1 := by
  induction settled with
  | nil => simp
  | cons s settled ih =>
    have hhere := announced_sublist (h s List.mem_cons_self)
    have hrest : ∀ s' ∈ settled, ∀ carrier ∈ s'.carrier, carrier ∈ s'.writes :=
      fun s' hs' => h s' (List.mem_cons_of_mem s hs')
    have hthere := flatMap_announced_sublist hrest
    rw [List.flatMap_cons, List.flatMap_cons, List.forall_mem_cons, ← ih hrest,
      ← length_announced_eq_iff]
    constructor
    · intro hsame
      have hlength := congrArg List.length hsame
      rw [List.length_append, List.length_append] at hlength
      have hle := hhere.length_le
      have hle' := hthere.length_le
      exact ⟨by omega, hthere.eq_of_length (by omega)⟩
    · rintro ⟨hlength, hsame⟩
      rw [hhere.eq_of_length hlength, hsame]

end Settlement

/-- After any transactions the store holds all that those of them wrote that were committed, and
nothing of the others. What was announced is one change for each that was committed, the one it was
committed through, and nothing else; so every change that is kept was announced once exactly when no
transaction that was committed holds another number of changes than one. -/
theorem announced_eq_durable_iff (ops : List Operation) (batches : List Batch) :
    let l := Ledger.fresh.performAll ops
    let l' := l.transactAll batches
    ∃ t, l.IsAtRest t ∧ l'.IsAtRest (Batch.tablesAfter t batches) ∧
      let settled := Batch.settleAll t batches
      l'.announced = l.announced ++ settled.flatMap Settlement.announced ∧
      (settled.flatMap Settlement.announced).Sublist (settled.flatMap Settlement.durable) ∧
      (settled.flatMap Settlement.announced = settled.flatMap Settlement.durable ↔
        ∀ s ∈ settled, s.carrier.isSome = true → s.writes.length = 1) := by
  intro l l'
  have hfresh : Ledger.fresh.IsAtRest .empty := rfl
  obtain ⟨t, hrest⟩ := Ledger.exists_rest hfresh ops
  obtain ⟨hafter, hannounced⟩ := Ledger.transactAll_spec hrest batches
  have hcarriers : ∀ s ∈ Batch.settleAll t batches, ∀ carrier ∈ s.carrier, carrier ∈ s.writes :=
    fun s hs => Settlement.carrier_mem hs
  exact ⟨t, hrest, hafter, hannounced, Settlement.flatMap_announced_sublist hcarriers,
    Settlement.flatMap_announced_eq_iff hcarriers⟩

def secondRun : Run := { sampleRun with jobId := ⟨⟨List.replicate 16 0x44, rfl⟩⟩ }

/-- Two runs saved in one transaction are both kept, and one of them is announced. -/
theorem second_write_unannounced :
    ¬ ∀ batches : List Batch,
      ((Batch.settleAll .empty batches).flatMap Settlement.durable).Perm
        (Ledger.fresh.transactAll batches).announced := by
  intro h
  let output : Run.Output := .ofSuccess .null
  let batches : List Batch := [⟨[.save sampleRun output, .save secondRun output], some 0⟩]
  have hkept : ((Batch.settleAll .empty batches).flatMap Settlement.durable).length = 2 := by
    decide +kernel
  have hannounced : (Ledger.fresh.transactAll batches).announced.length = 1 := by
    decide +kernel
  have hlength := (h batches).length_eq
  rw [hkept, hannounced] at hlength
  cases hlength

end RunLedger.Service
