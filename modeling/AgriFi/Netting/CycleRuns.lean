import AgriFi.Netting.Cycles
import AgriFi.Threads

/-
  Whether an obligation is settled once. Nothing in an execution or an unwind looks at a row again
  between its read and its save, so two executions net the same obligations twice
  (`netted_twice`), an unwind takes back what is settled, and an execution that broke off between
  its two saves leaves obligations that its cycle's transfers do not net. `settled_once`: as long as
  no save hits an obligation or a cycle that is settled by then, what is included is due, and no
  obligation carries the cycle's id from an earlier attempt, the books are right in every state.
-/

namespace AgriFi.Netting

open AgriFi.Runs AgriFi.Threads
open AgriFi.DealDelivered (Outcome)

variable {Party : Type} [DecidableEq Party]

/-! ## What is claimed -/

namespace State

def ofCycle (s : State Party) (cycleId : Nat) : List (NettingObligation Party) :=
  s.obligations.filter (·.cycleId = some cycleId)

def IsSettled (s : State Party) (id : Nat) : Prop :=
  ∃ ob ∈ s.obligations, ob.id = id ∧ ob.status = .settled

def CycleSettled (s : State Party) (cycleId : Nat) : Prop :=
  ∃ cycle ∈ s.cycles, cycle.id = cycleId ∧ cycle.status = .settled

instance (s : State Party) (id : Nat) : Decidable (s.IsSettled id) :=
  inferInstanceAs (Decidable (∃ ob ∈ s.obligations, _))

instance (s : State Party) (cycleId : Nat) : Decidable (s.CycleSettled cycleId) :=
  inferInstanceAs (Decidable (∃ cycle ∈ s.cycles, _))

/-- The settled cycles whose transfers net the obligation. -/
def timesNetted (s : State Party) (id : Nat) : Nat :=
  (s.netted.filter fun entry => id ∈ entry.2.map NettingObligation.id).length

end State

/-- The books of one state. -/
structure SettledOnce (s : State Party) : Prop where
  once : ∀ id, s.timesNetted id ≤ 1
  due : ∀ ob ∈ s.obligations, ∀ cycle ∈ s.cycles, ob.cycleId = some cycle.id →
    ob.dueDate ≤ cycle.scheduledAt
  recorded : ∀ cycle ∈ s.cycles, cycle.status = .settled →
    ∃ rows hash, rows.Perm (s.ofCycle cycle.id) ∧ cycle.recordedTransfers =
      (calculateMultilateralNetting rows).netTransfers.map (.settle hash)

/-- What is settled is neither pending nor excluded later. -/
def KeepsSettled (s s' : State Party) : Prop := ∀ id, s.IsSettled id → s'.IsSettled id

/-! ## When it holds -/

/-- Nothing that the command saves is settled by then, or belongs to another attempt, or is not
    due. -/
def Command.Undisturbed (s : State Party) : Command Party → Prop
  | .saveAggregating cycle | .saveCycle cycle _ _ => ¬ s.CycleSettled cycle.id
  | .saveEmpty cycle => ¬ s.CycleSettled cycle.id ∧ s.ofCycle cycle.id = []
  | .saveObligations cycle _ pending =>
    ¬ s.CycleSettled cycle.id ∧ s.ofCycle cycle.id = [] ∧
      ∀ ob ∈ pending, ¬ s.IsSettled ob.id ∧ ob.dueDate ≤ cycle.scheduledAt
  | .saveExcluded ob _ => ¬ s.IsSettled ob.id
  | _ => True

instance (s : State Party) (command : Command Party) : Decidable (command.Undisturbed s) := by
  unfold Command.Undisturbed
  split <;> infer_instance

/-- The step, if it is a save, is undisturbed. -/
def Undisturbed (s : System Party) : Action Party → Prop
  | .run w _ _ =>
    match s.threads[w]? with
    | some t => t.command.Undisturbed s.state
    | none => True
  | _ => True

instance (s : System Party) (a : Action Party) : Decidable (Undisturbed s a) := by
  unfold Undisturbed
  split
  · split <;> infer_instance
  · infer_instance

/-! ## Netting looks at the parties and the amounts only -/

section SameAmounts

variable {f : NettingObligation Party → NettingObligation Party}

theorem calculateMultilateralNetting_map (hf : ∀ ob, (f ob).payerId = ob.payerId ∧
    (f ob).payerName = ob.payerName ∧ (f ob).payeeId = ob.payeeId ∧
    (f ob).payeeName = ob.payeeName ∧ (f ob).amountUsd = ob.amountUsd)
    (obligations : List (NettingObligation Party)) :
    calculateMultilateralNetting (obligations.map f) =
      calculateMultilateralNetting obligations := by
  have hamount : ∀ ob, (f ob).amount = ob.amount := by
    intro ob
    unfold NettingObligation.amount
    rw [(hf ob).2.2.2.2]
  have haccumulate : ∀ positions, (obligations.map f).foldl accumulate positions =
      obligations.foldl accumulate positions := by
    induction obligations with
    | nil => intro positions; rfl
    | cons ob obligations ih =>
      intro positions
      rw [List.map_cons, List.foldl_cons, List.foldl_cons, ih]
      congr 1
      obtain ⟨h1, h2, h3, h4, _⟩ := hf ob
      unfold accumulate
      rw [h1, h2, h3, h4, hamount]
  have hpositions : positionsOf (obligations.map f) = positionsOf obligations := by
    unfold positionsOf
    rw [haccumulate]
  have hmatching : matchingOf (obligations.map f) = matchingOf obligations := by
    unfold matchingOf
    rw [hpositions]
  have hamounts : (obligations.map f).map NettingObligation.amount =
      obligations.map NettingObligation.amount := by
    rw [List.map_map]
    exact List.map_congr_left fun ob _ => hamount ob
  unfold calculateMultilateralNetting
  rw [hpositions, hmatching, hamounts, List.length_map]

end SameAmounts

/-! ## Saves -/

section Saves

variable {s : State Party} {rows : List (NettingObligation Party)} {ob : NettingObligation Party}

omit [DecidableEq Party]

@[simp] theorem settle_id (cycle : NettingCycle Party) (hash : String) :
    (ob.settle cycle hash).id = ob.id := rfl

@[simp] theorem exclude_id : ob.exclude.id = ob.id := rfl

theorem find?_eq (hrows : (rows.map NettingObligation.id).Nodup) (h : ob ∈ rows) :
    rows.find? (·.id = ob.id) = some ob := by
  induction rows with
  | nil => cases h
  | cons row rows ih =>
    rw [List.map_cons, List.nodup_cons] at hrows
    rcases List.mem_cons.mp h with rfl | h
    · rw [List.find?_cons_of_pos (by simp)]
    · have hne : row.id ≠ ob.id := by
        intro heq
        exact hrows.1 (heq ▸ List.mem_map_of_mem h)
      rw [List.find?_cons_of_neg (by simpa using hne)]
      exact ih hrows.2 h

theorem saveObligations_ids :
    (s.saveObligations rows).obligations.map NettingObligation.id =
      s.obligations.map NettingObligation.id := by
  unfold State.saveObligations
  rw [List.map_map]
  refine List.map_congr_left fun ob _ => ?_
  show ((rows.find? (·.id = ob.id)).getD ob).id = ob.id
  cases hfind : rows.find? (·.id = ob.id) with
  | none => rfl
  | some row => simpa using List.find?_some hfind

/-- The rows after a save: those that were not saved, and those that were. -/
theorem mem_saveObligations (hrows : (rows.map NettingObligation.id).Nodup) :
    ob ∈ (s.saveObligations rows).obligations ↔
      ob ∈ s.obligations ∧ ob.id ∉ rows.map NettingObligation.id ∨
      ob ∈ rows ∧ ob.id ∈ s.obligations.map NettingObligation.id := by
  unfold State.saveObligations
  rw [List.mem_map]
  constructor
  · rintro ⟨old, hold, rfl⟩
    cases hfind : rows.find? (·.id = old.id) with
    | none =>
      refine .inl ⟨hold, fun hmem => ?_⟩
      obtain ⟨row, hrow, heq⟩ := List.mem_map.mp hmem
      have := List.find?_eq_none.mp hfind row hrow
      simp [heq] at this
    | some row =>
      have hid : row.id = old.id := by simpa using List.find?_some hfind
      refine .inr ⟨List.mem_of_find?_eq_some hfind, ?_⟩
      show row.id ∈ _
      rw [hid]
      exact List.mem_map_of_mem hold
  · rintro (⟨hold, hmem⟩ | ⟨hrow, hmem⟩)
    · refine ⟨ob, hold, ?_⟩
      have hnone : rows.find? (·.id = ob.id) = none := by
        rw [List.find?_eq_none]
        intro row hrow heq
        exact hmem (of_decide_eq_true heq ▸ List.mem_map_of_mem hrow)
      rw [hnone]
      rfl
    · obtain ⟨old, hold, heq⟩ := List.mem_map.mp hmem
      refine ⟨old, hold, ?_⟩
      rw [heq, find?_eq hrows hrow]
      rfl

theorem mem_saveCycle {cycle c : NettingCycle Party} :
    c ∈ (s.saveCycle cycle).cycles ↔
      c ∈ s.cycles ∧ c.id ≠ cycle.id ∨ c = cycle ∧ ∃ old ∈ s.cycles, old.id = cycle.id := by
  unfold State.saveCycle
  rw [List.mem_map]
  constructor
  · rintro ⟨old, hold, rfl⟩
    split
    · next h => exact .inr ⟨rfl, old, hold, h⟩
    · next h => exact .inl ⟨hold, h⟩
  · rintro (⟨hc, hne⟩ | ⟨rfl, old, hold, hid⟩)
    · exact ⟨c, hc, if_neg hne⟩
    · exact ⟨old, hold, if_pos hid⟩

end Saves

/-! ## The books -/

namespace State

/-- What never changes of a cycle. -/
def schedules (s : State Party) : List (Nat × Int) := s.cycles.map fun c => (c.id, c.scheduledAt)

/-- A caller's copy is of a cycle of the table. -/
def Known (s : State Party) (cycle : NettingCycle Party) : Prop :=
  (cycle.id, cycle.scheduledAt) ∈ s.schedules

/-- The transfers of the row net what carries the row's id. -/
def Records (s : State Party) (cycle : NettingCycle Party) : Prop :=
  ∃ rows hash, rows.Perm (s.ofCycle cycle.id) ∧ cycle.recordedTransfers =
    (calculateMultilateralNetting rows).netTransfers.map (.settle hash)

/-- Nothing more may be settled in the cycle. -/
def Closed (s : State Party) (id : Nat) : Prop := s.ofCycle id ≠ [] ∨ s.CycleSettled id

end State

/-- What holds of the tables as long as nothing is disturbed. -/
structure Books (s : State Party) : Prop where
  ids : s.obligations.map NettingObligation.id = List.range s.obligations.length
  cycleIds : s.cycles.map NettingCycle.id = List.range s.cycles.length
  linked : ∀ ob ∈ s.obligations, ob.status = .settled ↔ ob.cycleId ≠ none
  dueIn : ∀ ob ∈ s.obligations, ∀ id, ob.cycleId = some id →
    ∃ scheduledAt, (id, scheduledAt) ∈ s.schedules ∧ ob.dueDate ≤ scheduledAt
  blank : ∀ cycle ∈ s.cycles, cycle.status ≠ .settled → cycle.settlementMetadata = none
  recorded : ∀ cycle ∈ s.cycles, cycle.status = .settled → s.Records cycle
  nettedOnce : (s.netted.map Prod.fst).Nodup
  nettedSettled : ∀ entry ∈ s.netted, s.CycleSettled entry.1
  nettedRows : ∀ entry ∈ s.netted, ∀ ob ∈ entry.2,
    ∃ row ∈ s.ofCycle entry.1, row.id = ob.id

/-- What every undisturbed step leaves as it is. -/
structure Later (s s' : State Party) : Prop where
  ids : ∀ ob ∈ s.obligations, ob.id ∈ s'.obligations.map NettingObligation.id
  schedules : ∀ e ∈ s.schedules, e ∈ s'.schedules
  settled : ∀ ob ∈ s.obligations, ob.status = .settled → ob ∈ s'.obligations
  ofCycle : ∀ id, s.Closed id → ∀ ob ∈ s'.ofCycle id, ob ∈ s.ofCycle id

theorem length_le_one {α : Type} {l : List α} (hnodup : l.Nodup)
    (h : ∀ a ∈ l, ∀ b ∈ l, a = b) : l.length ≤ 1 := by
  match l with
  | [] | [_] => simp
  | a :: b :: _ =>
    have hab := h a (by simp) b (by simp)
    simp [hab] at hnodup

section Tables

variable {s s' : State Party} {ob : NettingObligation Party} {id : Nat}

omit [DecidableEq Party]

theorem mem_ofCycle : ob ∈ s.ofCycle id ↔ ob ∈ s.obligations ∧ ob.cycleId = some id := by
  unfold State.ofCycle
  rw [List.mem_filter, decide_eq_true_iff]

theorem Later.refl (s : State Party) : Later s s where
  ids _ h := List.mem_map_of_mem h
  schedules _ h := h
  settled _ h _ := h
  ofCycle _ _ _ h := h

end Tables

section Invariant

variable {s s' : State Party} {ob row : NettingObligation Party} {id : Nat}

namespace Books

theorem nodup (h : Books s) : (s.obligations.map NettingObligation.id).Nodup :=
  h.ids ▸ List.nodup_range

theorem nodupCycles (h : Books s) : (s.cycles.map NettingCycle.id).Nodup :=
  h.cycleIds ▸ List.nodup_range

theorem eq_of_id (h : Books s) (hob : ob ∈ s.obligations) (hrow : row ∈ s.obligations)
    (hid : ob.id = row.id) : ob = row :=
  List.inj_on_of_nodup_map h.nodup hob hrow hid

theorem cycle_eq_of_id (h : Books s) {c c' : NettingCycle Party} (hc : c ∈ s.cycles)
    (hc' : c' ∈ s.cycles) (hid : c.id = c'.id) : c = c' :=
  List.inj_on_of_nodup_map h.nodupCycles hc hc' hid

theorem scheduledAt_eq (h : Books s) {c : NettingCycle Party} {scheduledAt : Int}
    (hc : c ∈ s.cycles) (hmem : (c.id, scheduledAt) ∈ s.schedules) :
    c.scheduledAt = scheduledAt := by
  obtain ⟨c', hc', heq⟩ := List.mem_map.mp hmem
  obtain ⟨hid, hat⟩ := Prod.mk.inj heq
  rw [← h.cycle_eq_of_id hc' hc hid]
  exact hat

/-- What is settled in a cycle stays what it is. -/
theorem mem_ofCycle_later (h : Books s) (hlater : Later s s') (hclosed : s.Closed id) :
    ob ∈ s'.ofCycle id ↔ ob ∈ s.ofCycle id := by
  constructor
  · exact hlater.ofCycle id hclosed ob
  · intro hob
    obtain ⟨hmem, hcycle⟩ := mem_ofCycle.mp hob
    have hsettled := (h.linked ob hmem).mpr (by simp [hcycle])
    exact mem_ofCycle.mpr ⟨hlater.settled ob hmem hsettled, hcycle⟩

theorem ofCycle_nodup (h : Books s) (id : Nat) : (s.ofCycle id).Nodup :=
  (List.Nodup.of_map _ h.nodup).filter _

theorem ofCycle_perm (h : Books s) (hnodup : (s'.obligations.map NettingObligation.id).Nodup)
    (hlater : Later s s') (hclosed : s.Closed id) : (s.ofCycle id).Perm (s'.ofCycle id) := by
  have hnodup' : (s'.ofCycle id).Nodup := (List.Nodup.of_map _ hnodup).filter _
  rw [List.perm_ext_iff_of_nodup (h.ofCycle_nodup id) hnodup']
  intro ob
  exact (h.mem_ofCycle_later hlater hclosed).symm

/-- The books say what is claimed. -/
theorem settledOnce (h : Books s) : SettledOnce s := by
  constructor
  case once =>
    intro id
    unfold State.timesNetted
    refine length_le_one ((List.Nodup.of_map _ h.nettedOnce).filter _) ?_
    -- two entries with the obligation are for the cycle that its row names
    intro e he e' he'
    rw [List.mem_filter, decide_eq_true_iff] at he he'
    obtain ⟨ob, hob, hid⟩ := List.mem_map.mp he.2
    obtain ⟨ob', hob', hid'⟩ := List.mem_map.mp he'.2
    obtain ⟨row, hrow, hrowid⟩ := h.nettedRows e he.1 ob hob
    obtain ⟨row', hrow', hrowid'⟩ := h.nettedRows e' he'.1 ob' hob'
    rw [mem_ofCycle] at hrow hrow'
    have heq : row = row' := h.eq_of_id hrow.1 hrow'.1 (by omega)
    have hcycle : e.1 = e'.1 := Option.some.inj (hrow.2.symm.trans (heq ▸ hrow'.2))
    exact List.inj_on_of_nodup_map h.nettedOnce he.1 he'.1 hcycle
  case due =>
    intro ob hob cycle hcycle hid
    obtain ⟨scheduledAt, hmem, hdue⟩ := h.dueIn ob hob cycle.id hid
    rw [h.scheduledAt_eq hcycle hmem]
    exact hdue
  case recorded => exact h.recorded

end Books

/-! ## Steps on the tables -/

omit [DecidableEq Party] in
theorem Later.isSettled (hlater : Later s s') (h : s.IsSettled id) : s'.IsSettled id := by
  obtain ⟨ob, hob, hid, hsettled⟩ := h
  exact ⟨ob, hlater.settled ob hob hsettled, hid, hsettled⟩

theorem Books.records_later (h : Books s)
    (hnodup : (s'.obligations.map NettingObligation.id).Nodup) (hlater : Later s s')
    {cycle : NettingCycle Party} (hclosed : s.Closed cycle.id) (hrecords : s.Records cycle) :
    s'.Records cycle := by
  obtain ⟨rows, hash, hperm, htransfers⟩ := hrecords
  exact ⟨rows, hash, hperm.trans (h.ofCycle_perm hnodup hlater hclosed), htransfers⟩

omit [DecidableEq Party] in
theorem closed_of_settled {cycle : NettingCycle Party} (hcycle : cycle ∈ s.cycles)
    (hsettled : cycle.status = .settled) : s.Closed cycle.id :=
  .inr ⟨cycle, hcycle, rfl, hsettled⟩

section SaveObligations

variable {rows : List (NettingObligation Party)}

/-- A save of obligations none of which is settled by then, for cycles that are still open. -/
structure Saves (s : State Party) (rows : List (NettingObligation Party)) : Prop where
  ids : (rows.map NettingObligation.id).Nodup
  free : ∀ row ∈ rows, ¬ s.IsSettled row.id
  linked : ∀ row ∈ rows, row.status = .settled ↔ row.cycleId ≠ none
  isOpen : ∀ row ∈ rows, ∀ id, row.cycleId = some id → ¬ s.Closed id
  dueIn : ∀ row ∈ rows, ∀ id, row.cycleId = some id →
    ∃ scheduledAt, (id, scheduledAt) ∈ s.schedules ∧ row.dueDate ≤ scheduledAt

omit [DecidableEq Party] in
theorem Saves.later (hsaves : Saves s rows) : Later s (s.saveObligations rows) := by
  constructor
  case ids =>
    intro ob hob
    rw [saveObligations_ids]
    exact List.mem_map_of_mem hob
  case schedules => exact fun _ h => h
  case settled =>
    intro ob hob hsettled
    rw [mem_saveObligations hsaves.ids]
    refine .inl ⟨hob, fun hmem => ?_⟩
    obtain ⟨row, hrow, hid⟩ := List.mem_map.mp hmem
    exact hsaves.free row hrow ⟨ob, hob, hid.symm, hsettled⟩
  case ofCycle =>
    intro id hclosed ob hob
    rw [mem_ofCycle, mem_saveObligations hsaves.ids] at hob
    obtain ⟨⟨hmem, _⟩ | ⟨hrow, _⟩, hcycle⟩ := hob
    · exact mem_ofCycle.mpr ⟨hmem, hcycle⟩
    · exact absurd hclosed (hsaves.isOpen ob hrow id hcycle)

theorem Books.saveObligations (h : Books s) (hsaves : Saves s rows) :
    Books (s.saveObligations rows) := by
  have hlater := hsaves.later
  have hids : (s.saveObligations rows).obligations.map NettingObligation.id =
      s.obligations.map NettingObligation.id := saveObligations_ids
  have hnodup : ((s.saveObligations rows).obligations.map NettingObligation.id).Nodup :=
    hids ▸ h.nodup
  constructor
  case ids =>
    rw [hids, h.ids]
    congr 1
    exact (List.length_map _).symm
  case cycleIds => exact h.cycleIds
  case linked =>
    intro ob hob
    rw [mem_saveObligations hsaves.ids] at hob
    obtain ⟨hmem, _⟩ | ⟨hrow, _⟩ := hob
    · exact h.linked ob hmem
    · exact hsaves.linked ob hrow
  case dueIn =>
    intro ob hob
    rw [mem_saveObligations hsaves.ids] at hob
    obtain ⟨hmem, _⟩ | ⟨hrow, _⟩ := hob
    · exact h.dueIn ob hmem
    · exact hsaves.dueIn ob hrow
  case blank => exact h.blank
  case recorded =>
    intro cycle hcycle hsettled
    exact h.records_later hnodup hlater (closed_of_settled hcycle hsettled)
      (h.recorded cycle hcycle hsettled)
  case nettedOnce => exact h.nettedOnce
  case nettedSettled => exact h.nettedSettled
  case nettedRows =>
    intro entry hentry ob hob
    obtain ⟨row, hrow, hid⟩ := h.nettedRows entry hentry ob hob
    have hclosed : s.Closed entry.1 := .inr (h.nettedSettled entry hentry)
    exact ⟨row, (h.mem_ofCycle_later hlater hclosed).mpr hrow, hid⟩

end SaveObligations

section SaveCycle

variable {cycle : NettingCycle Party}

omit [DecidableEq Party] in
theorem saveCycle_schedules (hnodup : (s.cycles.map NettingCycle.id).Nodup)
    (hknown : s.Known cycle) : (s.saveCycle cycle).schedules = s.schedules := by
  unfold State.schedules State.saveCycle
  rw [List.map_map]
  refine List.map_congr_left fun c hc => ?_
  by_cases hid : c.id = cycle.id
  · obtain ⟨c', hc', heq⟩ := List.mem_map.mp hknown
    obtain ⟨hid', hat⟩ := Prod.mk.inj heq
    have hsame : c = c' := List.inj_on_of_nodup_map hnodup hc hc' (hid.trans hid'.symm)
    simp only [Function.comp, if_pos hid]
    rw [hsame, heq]
  · simp only [Function.comp, if_neg hid]

omit [DecidableEq Party] in
theorem saveCycle_ids : (s.saveCycle cycle).cycles.map NettingCycle.id =
    s.cycles.map NettingCycle.id := by
  unfold State.saveCycle
  rw [List.map_map]
  refine List.map_congr_left fun c _ => ?_
  by_cases hid : c.id = cycle.id
  · simp only [Function.comp, if_pos hid]
    exact hid.symm
  · simp only [Function.comp, if_neg hid]

/-- A save of a cycle that is not settled by then. -/
structure SavesCycle (s : State Party) (cycle : NettingCycle Party) : Prop where
  known : s.Known cycle
  free : ¬ s.CycleSettled cycle.id
  blank : cycle.status ≠ .settled → cycle.settlementMetadata = none
  records : cycle.status = .settled → s.Records cycle

theorem SavesCycle.later (h : Books s) (hsaves : SavesCycle s cycle) :
    Later s (s.saveCycle cycle) where
  ids _ hob := List.mem_map_of_mem hob
  schedules _ he := by rwa [saveCycle_schedules h.nodupCycles hsaves.known]
  settled _ hob _ := hob
  ofCycle _ _ _ hob := hob

theorem SavesCycle.cycleSettled (hsaves : SavesCycle s cycle) (h : s.CycleSettled id) :
    (s.saveCycle cycle).CycleSettled id := by
  obtain ⟨c, hc, rfl, hsettled⟩ := h
  have hne : c.id ≠ cycle.id := fun heq => hsaves.free ⟨c, hc, heq, hsettled⟩
  exact ⟨c, mem_saveCycle.mpr (.inl ⟨hc, hne⟩), rfl, hsettled⟩

theorem Books.saveCycle (h : Books s) (hsaves : SavesCycle s cycle) :
    Books (s.saveCycle cycle) := by
  constructor
  case ids => exact h.ids
  case cycleIds =>
    rw [saveCycle_ids, h.cycleIds]
    congr 1
    exact (List.length_map _).symm
  case linked => exact h.linked
  case dueIn =>
    intro ob hob
    rw [saveCycle_schedules h.nodupCycles hsaves.known]
    exact h.dueIn ob hob
  case blank =>
    intro c hc
    rcases mem_saveCycle.mp hc with ⟨hc, _⟩ | ⟨rfl, _⟩
    · exact h.blank c hc
    · exact hsaves.blank
  case recorded =>
    intro c hc
    rcases mem_saveCycle.mp hc with ⟨hc, _⟩ | ⟨rfl, _⟩
    · exact h.recorded c hc
    · exact hsaves.records
  case nettedOnce => exact h.nettedOnce
  case nettedSettled => exact fun e he => hsaves.cycleSettled (h.nettedSettled e he)
  case nettedRows => exact h.nettedRows

/-- The entry of a cycle that has just been settled. -/
theorem Books.net (h : Books s) (hsaves : SavesCycle s cycle) (hsettled : cycle.status = .settled)
    {pending : List (NettingObligation Party)}
    (hrows : ∀ ob ∈ pending, ∃ row ∈ s.ofCycle cycle.id, row.id = ob.id) :
    Books { s.saveCycle cycle with netted := s.netted ++ [(cycle.id, pending)] } := by
  have hsaved := h.saveCycle hsaves
  constructor
  case ids => exact hsaved.ids
  case cycleIds => exact hsaved.cycleIds
  case linked => exact hsaved.linked
  case dueIn => exact hsaved.dueIn
  case blank => exact hsaved.blank
  case recorded => exact hsaved.recorded
  case nettedOnce =>
    rw [List.map_append, List.nodup_append]
    refine ⟨h.nettedOnce, List.nodup_singleton _, ?_⟩
    intro a ha b hb heq
    obtain ⟨e, he, rfl⟩ := List.mem_map.mp ha
    have hb : b = cycle.id := List.mem_singleton.mp hb
    exact hsaves.free (heq.trans hb ▸ h.nettedSettled e he)
  case nettedSettled =>
    intro e he
    rcases List.mem_append.mp he with he | he
    · exact hsaved.nettedSettled e he
    · rw [List.mem_singleton.mp he]
      obtain ⟨old, hold, heq⟩ := List.mem_map.mp hsaves.known
      exact ⟨cycle, mem_saveCycle.mpr (.inr ⟨rfl, old, hold, (Prod.mk.inj heq).1⟩), rfl, hsettled⟩
  case nettedRows =>
    intro e he
    rcases List.mem_append.mp he with he | he
    · exact h.nettedRows e he
    · rw [List.mem_singleton.mp he]
      exact hrows

end SaveCycle

section NewRows

omit [DecidableEq Party] in
theorem insert_later (dto : CreateObligationDto Party) : Later s (s.insert dto) := by
  constructor
  case ids =>
    intro ob hob
    exact List.mem_map_of_mem (List.mem_append_left _ hob)
  case schedules => exact fun _ h => h
  case settled => exact fun _ h _ => List.mem_append_left _ h
  case ofCycle =>
    intro id _ ob hob
    rw [mem_ofCycle] at hob ⊢
    rcases List.mem_append.mp hob.1 with h | h
    · exact ⟨h, hob.2⟩
    · rw [List.mem_singleton.mp h] at hob
      cases hob.2

theorem Books.insert (h : Books s) (dto : CreateObligationDto Party) : Books (s.insert dto) := by
  have hids : (s.insert dto).obligations.map NettingObligation.id =
      List.range (s.insert dto).obligations.length := by
    unfold State.insert
    rw [List.map_append, h.ids, List.length_append]
    exact List.range_succ.symm
  have hnew : ∀ ob ∈ (s.insert dto).obligations, ob ∈ s.obligations ∨
      ob.status = .pending ∧ ob.cycleId = none := by
    intro ob hob
    rcases List.mem_append.mp hob with hob | hob
    · exact .inl hob
    · rw [List.mem_singleton.mp hob]
      exact .inr ⟨rfl, rfl⟩
  have hlater := insert_later (s := s) dto
  constructor
  case ids => exact hids
  case cycleIds => exact h.cycleIds
  case linked =>
    intro ob hob
    rcases hnew ob hob with hob | ⟨hstatus, hcycle⟩
    · exact h.linked ob hob
    · simp [hstatus, hcycle]
  case dueIn =>
    intro ob hob
    rcases hnew ob hob with hob | ⟨_, hcycle⟩
    · exact h.dueIn ob hob
    · simp [hcycle]
  case blank => exact h.blank
  case recorded =>
    intro cycle hcycle hsettled
    exact h.records_later (hids ▸ List.nodup_range) hlater (closed_of_settled hcycle hsettled)
      (h.recorded cycle hcycle hsettled)
  case nettedOnce => exact h.nettedOnce
  case nettedSettled => exact h.nettedSettled
  case nettedRows =>
    intro e he ob hob
    obtain ⟨row, hrow, hid⟩ := h.nettedRows e he ob hob
    exact ⟨row, (h.mem_ofCycle_later hlater (.inr (h.nettedSettled e he))).mpr hrow, hid⟩

omit [DecidableEq Party] in
theorem schedule_later (cycleNumber : String) (scheduledAt : Int) :
    Later s (s.schedule cycleNumber scheduledAt) where
  ids _ hob := List.mem_map_of_mem hob
  schedules e he := by
    unfold State.schedules State.schedule
    rw [List.map_append]
    exact List.mem_append_left _ he
  settled _ hob _ := hob
  ofCycle _ _ _ hob := hob

theorem Books.schedule (h : Books s) (cycleNumber : String) (scheduledAt : Int) :
    Books (s.schedule cycleNumber scheduledAt) := by
  have hlater := schedule_later (s := s) cycleNumber scheduledAt
  have hnew : ∀ c ∈ (s.schedule cycleNumber scheduledAt).cycles, c ∈ s.cycles ∨
      c.status = .scheduled ∧ c.settlementMetadata = none := by
    intro c hc
    rcases List.mem_append.mp hc with hc | hc
    · exact .inl hc
    · rw [List.mem_singleton.mp hc]
      exact .inr ⟨rfl, rfl⟩
  constructor
  case ids => exact h.ids
  case cycleIds =>
    unfold State.schedule
    rw [List.map_append, h.cycleIds, List.length_append]
    exact List.range_succ.symm
  case linked => exact h.linked
  case dueIn =>
    intro ob hob id hid
    obtain ⟨t, hmem, hdue⟩ := h.dueIn ob hob id hid
    exact ⟨t, hlater.schedules _ hmem, hdue⟩
  case blank =>
    intro c hc
    rcases hnew c hc with hc | ⟨_, hnone⟩
    · exact h.blank c hc
    · exact fun _ => hnone
  case recorded =>
    intro c hc hsettled
    rcases hnew c hc with hc | ⟨hstatus, _⟩
    · exact h.recorded c hc hsettled
    · rw [hstatus] at hsettled
      cases hsettled
  case nettedOnce => exact h.nettedOnce
  case nettedSettled =>
    intro e he
    obtain ⟨c, hc, hid, hsettled⟩ := h.nettedSettled e he
    exact ⟨c, List.mem_append_left _ hc, hid, hsettled⟩
  case nettedRows => exact h.nettedRows

end NewRows

end Invariant

/-! ## Calls -/

section Calls

variable {batchTxHash : BatchTxHash} {s s' : State Party} {command command' : Command Party}

/-- An execution's copy of its cycle. -/
structure CopyOk (s : State Party) (cycle : NettingCycle Party) : Prop where
  known : s.Known cycle
  status : cycle.status = .aggregating
  blank : cycle.settlementMetadata = none

/-- What a call has read still says this much about the tables. -/
def Command.Ok (batchTxHash : BatchTxHash) (s : State Party) : Command Party → Prop
  | .saveAggregating cycle | .findPending cycle | .saveEmpty cycle => CopyOk s cycle
  | .saveObligations cycle _ pending =>
    CopyOk s cycle ∧ pending ≠ [] ∧ (pending.map NettingObligation.id).Nodup ∧
      ∀ ob ∈ pending, ob.id ∈ s.obligations.map NettingObligation.id
  | .saveCycle cycle executedAt pending =>
    CopyOk s cycle ∧ pending ≠ [] ∧ (s.ofCycle cycle.id).Perm
      (pending.map (.settle cycle (hashOf batchTxHash cycle executedAt pending)))
  | .saveExcluded ob left => ∀ x ∈ ob :: left, x.cycleId = none ∨ s.IsSettled x.id
  | _ => True

omit [DecidableEq Party] in
theorem CopyOk.later {cycle : NettingCycle Party} (hlater : Later s s') (h : CopyOk s cycle) :
    CopyOk s' cycle where
  known := hlater.schedules _ h.known
  status := h.status
  blank := h.blank

/-- What others do leaves a call what it knows. -/
theorem Command.Ok.later (h : Books s) (h' : Books s') (hlater : Later s s')
    (hok : command.Ok batchTxHash s) : command.Ok batchTxHash s' := by
  cases command with
  | saveAggregating cycle => exact CopyOk.later hlater hok
  | findPending cycle => exact CopyOk.later hlater hok
  | saveEmpty cycle => exact CopyOk.later hlater hok
  | saveObligations cycle executedAt pending =>
    obtain ⟨hcopy, hne, hnodup, hrows⟩ := hok
    refine ⟨hcopy.later hlater, hne, hnodup, fun ob hob => ?_⟩
    obtain ⟨row, hrow, hid⟩ := List.mem_map.mp (hrows ob hob)
    exact hid ▸ hlater.ids row hrow
  | saveCycle cycle executedAt pending =>
    obtain ⟨hcopy, hne, hperm⟩ := hok
    have hclosed : s.Closed cycle.id := by
      refine .inl fun hnil => hne ?_
      rw [hnil] at hperm
      exact List.map_eq_nil_iff.mp hperm.symm.eq_nil
    exact ⟨hcopy.later hlater, hne, (h.ofCycle_perm h'.nodup hlater hclosed).symm.trans hperm⟩
  | saveExcluded ob left =>
    intro x hx
    exact (hok x hx).imp id hlater.isSettled
  | getCycle | findInCycle _ | finished => trivial

/-- A step keeps the books, as others see it and as its own call goes on. -/
structure Keeps (batchTxHash : BatchTxHash) (s s' : State Party) (command : Command Party) :
    Prop where
  books : Books s'
  later : Later s s'
  ok : command.Ok batchTxHash s'

theorem Keeps.read (h : Books s) (hok : command.Ok batchTxHash s) (o : Outcome) :
    Keeps batchTxHash s s (goesOn command o) where
  books := h
  later := .refl s
  ok := by
    cases o with
    | ok => exact hok
    | fail | lost => trivial

theorem Keeps.took (h : Books s) (hkeeps : Keeps batchTxHash s s' command) (o : Outcome) :
    Keeps batchTxHash s (Netting.took s s' o) (goesOn command o) := by
  cases o with
  | ok => exact hkeeps
  | fail => exact ⟨h, .refl s, trivial⟩
  | lost => exact ⟨hkeeps.books, hkeeps.later, trivial⟩

theorem Keeps.last (h : Books s) (h' : Books s') (hlater : Later s s') (o : Outcome) :
    Keeps batchTxHash s (Netting.took s s' o) .finished := by
  cases o with
  | ok | lost => exact ⟨h', hlater, trivial⟩
  | fail => exact ⟨h, .refl s, trivial⟩

/-- The read of a cycle, before an execution. -/
theorem copyOk_of_getCycle (h : Books s) {cycleId : Nat} {cycle : NettingCycle Party}
    (hget : s.getCycle cycleId = some cycle) (hsettled : cycle.status ≠ .settled) :
    CopyOk s { cycle with status := .aggregating } where
  known := List.mem_map.mpr ⟨cycle, List.mem_of_find?_eq_some hget, rfl⟩
  status := rfl
  blank := h.blank cycle (List.mem_of_find?_eq_some hget) hsettled

theorem excluding_ok {party : Party} {left : List (NettingObligation Party)}
    (hleft : ∀ x ∈ left, x.cycleId = none ∨ s.IsSettled x.id) :
    (excluding party left).Ok batchTxHash s := by
  induction left with
  | nil => trivial
  | cons ob left ih =>
    unfold excluding
    split
    · exact hleft
    · exact ih fun x hx => hleft x (List.mem_cons_of_mem _ hx)

theorem call_excluding_ok {call : Call Party} {left : List (NettingObligation Party)}
    (hleft : ∀ x ∈ left, x.cycleId = none ∨ s.IsSettled x.id) :
    (call.excluding left).Ok batchTxHash s := by
  cases call with
  | executeNettingCycle _ => trivial
  | unwindDefaultingCounterparty _ party => exact excluding_ok hleft

/-- What an unwind reads is settled if it is in a cycle. -/
theorem Books.read_linked (h : Books s) {x : NettingObligation Party} (hx : x ∈ s.obligations) :
    x.cycleId = none ∨ s.IsSettled x.id := by
  by_cases hcycle : x.cycleId = none
  · exact .inl hcycle
  · exact .inr ⟨x, hx, rfl, (h.linked x hx).mpr hcycle⟩

section Execution

variable {cycle : NettingCycle Party} {pending : List (NettingObligation Party)}
  {executedAt now : Int}

theorem saveAggregating_saves (hcopy : CopyOk s cycle) (hfree : ¬ s.CycleSettled cycle.id) :
    SavesCycle s cycle where
  known := hcopy.known
  free := hfree
  blank _ := hcopy.blank
  records hsettled := by
    rw [hcopy.status] at hsettled
    cases hsettled

theorem saveEmpty_saves (hcopy : CopyOk s cycle) (hfree : ¬ s.CycleSettled cycle.id)
    (hempty : s.ofCycle cycle.id = []) : SavesCycle s (cycle.settleEmpty now) where
  known := hcopy.known
  free := hfree
  blank hne := absurd rfl hne
  records _ := by
    refine ⟨[], "", ?_, ?_⟩
    · rw [show (cycle.settleEmpty now).id = cycle.id from rfl, hempty]
    · show (cycle.settleEmpty now).recordedTransfers = []
      unfold NettingCycle.recordedTransfers
      rw [show (cycle.settleEmpty now).settlementMetadata = none from hcopy.blank]

omit [DecidableEq Party] in
theorem saveObligations_saves (hcopy : CopyOk s cycle)
    (hnodup : (pending.map NettingObligation.id).Nodup) (hfree : ¬ s.CycleSettled cycle.id)
    (hempty : s.ofCycle cycle.id = [])
    (hpending : ∀ ob ∈ pending, ¬ s.IsSettled ob.id ∧ ob.dueDate ≤ cycle.scheduledAt)
    (hash : String) : Saves s (pending.map (.settle cycle hash)) := by
  constructor
  case ids =>
    rw [List.map_map]
    exact hnodup
  case free =>
    intro row hrow
    obtain ⟨ob, hob, rfl⟩ := List.mem_map.mp hrow
    exact (hpending ob hob).1
  case linked =>
    intro row hrow
    obtain ⟨ob, _, rfl⟩ := List.mem_map.mp hrow
    simp [NettingObligation.settle]
  case isOpen =>
    intro row hrow id hid
    obtain ⟨ob, _, rfl⟩ := List.mem_map.mp hrow
    obtain rfl : cycle.id = id := Option.some.inj hid
    rintro (hne | hsettled)
    · exact hne hempty
    · exact hfree hsettled
  case dueIn =>
    intro row hrow id hid
    obtain ⟨ob, hob, rfl⟩ := List.mem_map.mp hrow
    obtain rfl : cycle.id = id := Option.some.inj hid
    exact ⟨cycle.scheduledAt, hcopy.known, (hpending ob hob).2⟩

/-- After the first save the cycle has the pending obligations, and no others. -/
theorem saveObligations_ofCycle {hash : String} (h : Books s)
    (hnodup : (pending.map NettingObligation.id).Nodup) (hempty : s.ofCycle cycle.id = [])
    (hrows : ∀ ob ∈ pending, ob.id ∈ s.obligations.map NettingObligation.id) :
    ((s.saveObligations (pending.map (.settle cycle hash))).ofCycle cycle.id).Perm
      (pending.map (.settle cycle hash)) := by
  have hids : ((pending.map (.settle cycle hash)).map NettingObligation.id).Nodup := by
    rw [List.map_map]
    exact hnodup
  have hrow : ((s.saveObligations (pending.map (.settle cycle hash))).ofCycle cycle.id).Nodup := by
    refine (List.Nodup.of_map NettingObligation.id ?_).filter _
    rw [saveObligations_ids]
    exact h.nodup
  rw [List.perm_ext_iff_of_nodup hrow (List.Nodup.of_map _ hids)]
  intro ob
  rw [mem_ofCycle, mem_saveObligations hids]
  constructor
  · rintro ⟨⟨hmem, _⟩ | ⟨hmem, _⟩, hcycle⟩
    · have : ob ∈ s.ofCycle cycle.id := mem_ofCycle.mpr ⟨hmem, hcycle⟩
      rw [hempty] at this
      cases this
    · exact hmem
  · intro hmem
    obtain ⟨old, hold, rfl⟩ := List.mem_map.mp hmem
    exact ⟨.inr ⟨hmem, hrows old hold⟩, rfl⟩

theorem saveCycle_saves (hcopy : CopyOk s cycle) (hfree : ¬ s.CycleSettled cycle.id)
    (hperm : (s.ofCycle cycle.id).Perm
      (pending.map (.settle cycle (hashOf batchTxHash cycle executedAt pending)))) :
    SavesCycle s (cycle.settle batchTxHash executedAt pending) where
  known := hcopy.known
  free := hfree
  blank hne := absurd rfl hne
  records _ := by
    refine ⟨_, hashOf batchTxHash cycle executedAt pending, hperm.symm, ?_⟩
    rw [calculateMultilateralNetting_map (f := .settle cycle _) fun ob => ⟨rfl, rfl, rfl, rfl, rfl⟩]
    rfl

end Execution

/-- One step of a call that is not disturbed. -/
theorem stepCall_keeps {call : Call Party} {now : Int} {o : Outcome} (h : Books s)
    (hok : command.Ok batchTxHash s) (hfree : command.Undisturbed s)
    (hstep : stepCall batchTxHash call s now o command = some (s', command')) :
    Keeps batchTxHash s s' command' := by
  cases command with
  | getCycle =>
    unfold stepCall at hstep
    cases hget : s.getCycle call.cycleId with
    | none =>
      rw [hget] at hstep
      cases hstep
      exact ⟨h, .refl s, trivial⟩
    | some cycle =>
      rw [hget] at hstep
      cases hstep
      refine .read h ?_ o
      cases call with
      | unwindDefaultingCounterparty cycleId party => trivial
      | executeNettingCycle cycleId =>
        show (if cycle.status = .settled then Command.finished
          else .saveAggregating { cycle with status := .aggregating }).Ok batchTxHash s
        split
        · trivial
        · next hsettled => exact copyOk_of_getCycle h hget hsettled
  | saveAggregating cycle =>
    cases hstep
    have hsaves := saveAggregating_saves hok hfree
    have hcopy : CopyOk (s.saveCycle cycle) cycle := CopyOk.later (hsaves.later h) hok
    have hkeeps : Keeps batchTxHash s (s.saveCycle cycle) (.findPending cycle) :=
      ⟨h.saveCycle hsaves, hsaves.later h, hcopy⟩
    exact hkeeps.took h o
  | findPending cycle =>
    cases hstep
    refine .read h ?_ o
    split
    · exact hok
    · next hne =>
      have hsub : ∀ ob ∈ s.pending, ob ∈ s.obligations := fun ob hob =>
        (List.mem_filter.mp hob).1
      have hnodup : (s.pending.map NettingObligation.id).Nodup :=
        h.nodup.sublist (List.filter_sublist.map _)
      exact ⟨hok, hne, hnodup, fun ob hob => List.mem_map_of_mem (hsub ob hob)⟩
  | saveEmpty cycle =>
    cases hstep
    have hsaves : SavesCycle s (cycle.settleEmpty now) := saveEmpty_saves hok hfree.1 hfree.2
    have hlater := hsaves.later h
    refine .last h (h.net hsaves rfl ?_) ?_ o
    · intro ob hob
      cases hob
    · exact ⟨hlater.ids, hlater.schedules, hlater.settled, hlater.ofCycle⟩
  | saveObligations cycle executedAt pending =>
    cases hstep
    obtain ⟨hcopy, hne, hnodup, hrows⟩ := hok
    obtain ⟨hcycle, hempty, hpending⟩ := hfree
    have hsaves := saveObligations_saves hcopy hnodup hcycle hempty hpending
      (hashOf batchTxHash cycle executedAt pending)
    refine .took h ⟨h.saveObligations hsaves, hsaves.later, ?_⟩ o
    exact ⟨hcopy.later hsaves.later, hne, saveObligations_ofCycle h hnodup hempty hrows⟩
  | saveCycle cycle executedAt pending =>
    cases hstep
    obtain ⟨hcopy, hne, hperm⟩ := hok
    have hsaves := saveCycle_saves hcopy hfree hperm
    have hlater := hsaves.later h
    refine .last h (h.net hsaves rfl ?_) ?_ o
    · intro ob hob
      exact ⟨_, hperm.mem_iff.mpr (List.mem_map_of_mem hob), rfl⟩
    · exact ⟨hlater.ids, hlater.schedules, hlater.settled, hlater.ofCycle⟩
  | findInCycle cycle =>
    cases hstep
    refine .read h (call_excluding_ok ?_) o
    intro x hx
    exact h.read_linked (List.mem_filter.mp hx).1
  | saveExcluded ob left =>
    cases hstep
    have hnone : ob.cycleId = none :=
      (hok ob (List.mem_cons_self ..)).resolve_right hfree
    have hsaves : Saves s [ob.exclude] := by
      have hfree' : ¬ s.IsSettled ob.id := hfree
      constructor <;> simp [NettingObligation.exclude, hnone, hfree']
    have hlater := hsaves.later
    refine .took h ⟨h.saveObligations hsaves, hlater, call_excluding_ok ?_⟩ o
    intro x hx
    exact (hok x (List.mem_cons_of_mem _ hx)).imp id hlater.isSettled
  | finished => cases hstep

end Calls

/-! ## Runs -/

section Runs

variable {batchTxHash : BatchTxHash} {s s' : System Party}

structure Inv (batchTxHash : BatchTxHash) (s : System Party) : Prop where
  books : Books s.state
  oks : ∀ t ∈ s.threads, t.command.Ok batchTxHash s.state

theorem inv_start : Inv batchTxHash (start : System Party) := by
  constructor
  case books => constructor <;> simp [start, State.ofCycle]
  case oks => simp [start]

/-- A write outside of the calls. -/
theorem Inv.write {state : State Party} (h : Inv batchTxHash s) (hbooks : Books state)
    (hlater : Later s.state state) (o : Outcome) :
    Inv batchTxHash { s with state := took s.state state o } ∧
      Later s.state (took s.state state o) := by
  cases o with
  | ok | lost =>
    exact ⟨⟨hbooks, fun t ht => (h.oks t ht).later h.books hbooks hlater⟩, hlater⟩
  | fail => exact ⟨h, .refl _⟩

theorem next_keeps {a : Action Party} (h : Inv batchTxHash s)
    (hstep : next batchTxHash s a = some s') (hfree : Undisturbed s a) :
    Inv batchTxHash s' ∧ Later s.state s'.state := by
  cases a with
  | createObligation dto o =>
    simp only [next, Option.ite_none_left_eq_some, Option.some.injEq] at hstep
    obtain ⟨_, rfl⟩ := hstep
    exact h.write (h.books.insert dto) (insert_later dto) o
  | scheduleCycle cycleNumber scheduledAt o =>
    cases hstep
    exact h.write (h.books.schedule cycleNumber scheduledAt) (schedule_later _ _) o
  | call call =>
    cases hstep
    exact ⟨⟨h.books, forall_mem_append h.oks trivial⟩, .refl _⟩
  | run w now o =>
    simp only [next, Option.bind_eq_bind, Option.bind_eq_some_iff] at hstep
    obtain ⟨t, ht, ⟨state, command⟩, hcall, hs'⟩ := hstep
    obtain rfl := Option.some.inj hs'
    have hundisturbed : t.command.Undisturbed s.state := by
      simpa only [Undisturbed, ht] using hfree
    have hkeeps := stepCall_keeps h.books (h.oks t (List.mem_of_getElem? ht)) hundisturbed hcall
    refine ⟨⟨hkeeps.books, ?_⟩, hkeeps.later⟩
    refine forall_mem_set (others_of_forall fun u hu => ?_) hkeeps.ok
    exact (h.oks u hu).later h.books hkeeps.books hkeeps.later

theorem run_keeps {xs : List (Step (System Party) (Action Party))} (h : Inv batchTxHash s)
    (hrun : Run (next batchTxHash) s xs s') (hfree : ∀ x ∈ xs, Undisturbed x.pre x.act) :
    Inv batchTxHash s' ∧ KeepsSettled s.state s'.state := by
  induction hrun with
  | nil s => exact ⟨h, fun _ hid => hid⟩
  | cons hstep _ ih =>
    obtain ⟨hinv, hlater⟩ := next_keeps h hstep (hfree _ (List.mem_cons_self ..))
    obtain ⟨hend, hkept⟩ := ih hinv fun x hx => hfree x (List.mem_cons_of_mem _ hx)
    exact ⟨hend, fun id hid => hkept id (hlater.isSettled hid)⟩

/-- As long as no save is disturbed, the books are right, and what was settled at any time still
    is. -/
theorem settled_once {xs : List (Step (System Party) (Action Party))}
    (hrun : NettingRun batchTxHash xs s) (hfree : ∀ x ∈ xs, Undisturbed x.pre x.act) :
    SettledOnce s.state ∧ ∀ x ∈ xs, KeepsSettled x.pre.state s.state := by
  refine ⟨(run_keeps inv_start hrun hfree).1.books.settledOnce, fun x hx => ?_⟩
  obtain ⟨ys, zs, rfl⟩ := List.append_of_mem hx
  obtain ⟨hys, hstep, hzs⟩ := run_split.mp hrun
  have hpre := run_keeps inv_start hys fun y hy => hfree y (List.mem_append_left _ hy)
  exact (run_keeps hpre.1 (.cons hstep hzs) fun y hy => hfree y (List.mem_append_right _ hy)).2

end Runs

/-! ## Two executions at a time -/

section Example

def aHash : BatchTxHash := fun cycleNumber _ _ _ => cycleNumber

def anObligation : CreateObligationDto Bool where
  payerId := false
  payerName := "Farm"
  payeeId := true
  payeeName := "Mill"
  amountUsd := 100
  dueDate := 5

/-- An obligation, and two cycles that are both after its due date. -/
def twoCycles : List (Action Bool) :=
  [.createObligation anObligation .ok, .scheduleCycle "NET-1" 10 .ok,
    .scheduleCycle "NET-2" 20 .ok, .call (.executeNettingCycle 0), .call (.executeNettingCycle 1)]

/-- One execution after the other, and an unwind before both. -/
def inTurn : List (Action Bool) :=
  twoCycles ++ [.call (.unwindDefaultingCounterparty 0 true), .run 2 7 .ok, .run 2 7 .fail] ++
    List.replicate 5 (.run 0 11 .ok) ++ List.replicate 4 (.run 1 21 .ok)

theorem settled_once_inTurn :
    let run := replay (next aHash) start inTurn
    run.1.length = inTurn.length ∧ run.2.state.IsSettled 0 ∧ SettledOnce run.2.state := by
  have hrun := run_replay (next aHash) start inTurn
  exact ⟨by decide +kernel, by decide +kernel, (settled_once hrun (by decide +kernel)).1⟩

/-- Both read the obligation while it is pending. -/
def interleaved : List (Action Bool) :=
  twoCycles ++ List.replicate 3 (.run 0 11 .ok) ++ List.replicate 5 (.run 1 21 .ok) ++
    List.replicate 2 (.run 0 22 .ok)

/-- Both cycles' transfers include the obligation. -/
theorem netted_twice : ¬ (∀ (xs : List (Step (System Bool) (Action Bool))) (s : System Bool),
    NettingRun aHash xs s → SettledOnce s.state ∧ ∀ x ∈ xs, KeepsSettled x.pre.state s.state) := by
  intro h
  have honce := (h _ _ (run_replay (next aHash) start interleaved)).1.once 0
  revert honce
  decide +kernel

end Example

end AgriFi.Netting
