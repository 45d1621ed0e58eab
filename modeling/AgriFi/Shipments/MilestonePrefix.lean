import AgriFi.Shipments.Service
import AgriFi.Threads

/-
  The milestones of a deal are an initial segment of the sequence. Nothing locks the milestones
  between the count of a call and its insert, and the message of the last one is out before its
  transaction commits (`recorded_twice`, `published_and_rolledBack`). When a call that passes the
  checks of the sequence is the only one between its count and its end, the message is out exactly
  when its step succeeds, and the commit after it does not fail, the milestones are a prefix, the
  deal is delivered with the last of them, and one message is out for it (`milestone_prefix`).
-/

namespace AgriFi.Shipments

open AgriFi.Runs AgriFi.Threads

variable {sys sys' : System} {s : State} {deal : TradeDeal} {pc pc' : Pc} {w : Nat}
  {answer : Answer} {row : ShipmentMilestone} {m : MilestoneType} {n : Nat}

/-! ## What is claimed -/

def State.recorded (s : State) : List MilestoneType := s.milestones.map (·.milestone)

/-- The transaction of the last milestone, after its message. -/
def Pc.Importer : Pc → Prop
  | .commit row | .committed row => row.milestone = .importer
  | _ => False

structure MilestonePrefix (sys : System) : Prop where
  sequence : ∃ n, sys.state.recorded = milestoneSequence.take n
  delivered : sys.state.deal.status = .delivered ↔ .importer ∈ sys.state.recorded
  once : sys.state.published.length ≤ 1
  published : .importer ∈ sys.state.recorded → sys.state.published.length = 1
  /-- No transaction that has published was rolled back. -/
  only : ∀ v ∈ sys.state.published, ∃ pc, sys.threads[v]? = some pc ∧ pc.Importer

/-! ## The condition -/

/-- The milestone of a call that has passed the checks and is still to end. -/
def Pc.pending : Pc → Option MilestoneType
  | .recordMemo call | .save call _ => some call.milestone
  | .updateDeal row | .enqueueDealDelivered row | .commit row => some row.milestone
  | .findDeal _ | .findMilestones _ | .committed _ | .rolledBack _ => none

def Pc.Inside (pc : Pc) : Prop := pc.pending ≠ none

instance (pc : Pc) : Decidable pc.Inside := inferInstanceAs (Decidable (_ ≠ _))

def Pc.Careful (sys : System) (answer : Answer) : Pc → Prop
  -- it passes the checks while no other call is between them and its end
  | .findMilestones call => answer.fails = false →
    milestoneSequence[sys.state.milestones.length]? = some call.milestone →
      ∀ pc ∈ sys.threads, ¬ pc.Inside
  -- a message is out exactly when publishing it does not fail
  | .enqueueDealDelivered _ => answer.published = !answer.fails
  | .commit row => row.milestone = .importer → answer.fails = false
  | _ => True

instance (sys : System) (answer : Answer) : (pc : Pc) → Decidable (pc.Careful sys answer)
  | .findMilestones _ => inferInstanceAs (Decidable (_ → _ → _))
  | .enqueueDealDelivered _ => inferInstanceAs (Decidable (_ = _))
  | .commit _ => inferInstanceAs (Decidable (_ → _))
  | .findDeal _ | .recordMemo _ | .save _ _ | .updateDeal _ | .committed _ | .rolledBack _ =>
    isTrue trivial

def Careful (sys : System) : Event → Prop
  | .recordMilestone _ => True
  | .run w answer => ∀ pc ∈ sys.threads[w]?, pc.Careful sys answer

instance (sys : System) : (e : Event) → Decidable (Careful sys e)
  | .recordMilestone _ => isTrue trivial
  | .run _ _ => inferInstanceAs (Decidable (∀ pc ∈ _, _))

/-! ## The sequence -/

/-- A milestone that comes next has the last one still before it. -/
theorem importer_not_mem_take (hnext : milestoneSequence[n]? = some m) :
    .importer ∉ milestoneSequence.take n := by
  match n with
  | 0 | 1 | 2 | 3 => decide
  | n + 4 => cases hnext

theorem take_append_next (hnext : milestoneSequence[n]? = some m) :
    milestoneSequence.take n ++ [m] = milestoneSequence.take (n + 1) := by
  rw [List.take_add_one, hnext]
  rfl

/-! ## The invariant -/

/-- The call has published, and its transaction is still to commit. -/
def Pc.Enqueued : Pc → Prop
  | .commit row => row.milestone = .importer
  | _ => False

/-- Only the last milestone updates the deal. -/
def Pc.Last : Pc → Prop
  | .updateDeal row | .enqueueDealDelivered row => row.milestone = .importer
  | _ => True

structure Inv (sys : System) : Prop where
  alone : AtMostOneInside Pc.Inside sys.threads
  sequence : sys.state.recorded = milestoneSequence.take sys.state.milestones.length
  pending : ∀ pc ∈ sys.threads, ∀ m ∈ pc.pending,
    milestoneSequence[sys.state.milestones.length]? = some m
  last : ∀ pc ∈ sys.threads, pc.Last
  delivered : sys.state.deal.status = .delivered ↔ .importer ∈ sys.state.recorded
  unpublished : .importer ∉ sys.state.recorded → (∀ pc ∈ sys.threads, ¬ pc.Enqueued) →
    sys.state.published = []
  enqueued : ∀ ⦃v pc⦄, sys.threads[v]? = some pc → pc.Enqueued → sys.state.published = [v]
  committed : .importer ∈ sys.state.recorded → ∃ v row, sys.state.published = [v] ∧
    sys.threads[v]? = some (.committed row) ∧ row.milestone = .importer

theorem Pc.Enqueued.inside (h : pc.Enqueued) : pc.Inside := by
  cases pc with
  | commit row => nofun
  | _ => exact absurd h id

theorem Inv.not_recorded (h : Inv sys) (hpc : pc ∈ sys.threads) (hm : m ∈ pc.pending) :
    .importer ∉ sys.state.recorded := by
  rw [h.sequence]
  exact importer_not_mem_take (h.pending pc hpc m hm)

/-- A step that neither publishes nor commits. -/
theorem Inv.set (h : Inv sys) (hw : sys.threads[w]? = some pc) (hpc : ¬ pc.Enqueued)
    (hopen : ∀ row, pc ≠ .committed row) (hpc' : ¬ pc'.Enqueued)
    (halone : pc'.Inside → pc.Inside ∨ ∀ pc ∈ sys.threads, ¬ pc.Inside)
    (hpending : ∀ m ∈ pc'.pending, milestoneSequence[sys.state.milestones.length]? = some m)
    (hlast : pc'.Last) : Inv { sys with threads := sys.threads.set w pc' } where
  alone := by
    refine h.alone.set hw fun hinside => ?_
    obtain hinside | hfree := halone hinside
    · exact .inl hinside
    · exact .inr fun v pc hv _ => hfree pc (List.mem_of_getElem? hv)
  sequence := h.sequence
  pending := forall_mem_set (others_of_forall h.pending) hpending
  last := forall_mem_set (others_of_forall h.last) hlast
  delivered := h.delivered
  unpublished := by
    intro hnone hfree
    refine h.unpublished hnone (forall_mem_of_others hw hpc fun v pc'' hv hne => hfree pc'' ?_)
    exact List.mem_of_getElem? ((List.getElem?_set_ne hne.symm).trans hv)
  enqueued := by
    intro v pc'' hv henqueued
    obtain ⟨-, rfl⟩ | ⟨-, hv⟩ := getElem?_set_cases hv
    · exact absurd henqueued hpc'
    · exact h.enqueued hv henqueued
  committed := by
    intro himporter
    obtain ⟨v, row, hpublished, hv, hrow⟩ := h.committed himporter
    have hne : w ≠ v := by
      rintro rfl
      exact hopen row (Option.some.inj (hw.symm.trans hv))
    exact ⟨v, row, hpublished, (List.getElem?_set_ne hne).trans hv, hrow⟩

/-- A call that ends without a commit leaves everything as it was. -/
theorem Inv.rollBack (h : Inv sys) (hw : sys.threads[w]? = some pc) (hpc : ¬ pc.Enqueued)
    (hopen : ∀ row, pc ≠ .committed row) (reason : Error) :
    Inv { sys with threads := sys.threads.set w (.rolledBack reason) } :=
  h.set hw hpc hopen id (fun hinside => absurd rfl hinside) nofun trivial

/-- A call inside goes on with its milestone. -/
theorem Inv.goOn (h : Inv sys) (hw : sys.threads[w]? = some pc) (hpc : ¬ pc.Enqueued)
    (hopen : ∀ row, pc ≠ .committed row) (hpc' : ¬ pc'.Enqueued) (hinside : pc.Inside)
    (hsame : pc'.pending = pc.pending) (hlast : pc'.Last) :
    Inv { sys with threads := sys.threads.set w pc' } := by
  refine h.set hw hpc hopen hpc' (fun _ => .inl hinside) (fun m hm => ?_) hlast
  exact h.pending pc (List.mem_of_getElem? hw) m (hsame ▸ hm)

/-- The call `w` publishes: it is the only one inside, and nothing was published before. -/
theorem Inv.enqueue (h : Inv sys) (hw : sys.threads[w]? = some (.enqueueDealDelivered row)) :
    Inv ⟨{ sys.state with published := sys.state.published ++ [w] },
      sys.threads.set w (.commit row)⟩ := by
  have hmem := List.mem_of_getElem? hw
  have hothers : ∀ ⦃v pc⦄, sys.threads[v]? = some pc → v ≠ w → ¬ pc.Inside :=
    fun _ _ hv hne => h.alone.others hw nofun hv hne
  have hnone := h.not_recorded hmem rfl
  have hpublished : sys.state.published = [] := by
    refine h.unpublished hnone (forall_mem_of_others hw id fun v pc hv hne henqueued => ?_)
    exact hothers hv hne henqueued.inside
  have hrow : row.milestone = .importer := h.last _ hmem
  have hpending := h.pending _ hmem
  have hself : (sys.threads.set w (.commit row))[w]? = some (.commit row) :=
    List.getElem?_set_self (List.getElem?_eq_some_iff.mp hw).1
  rw [hpublished]
  refine ⟨h.alone.set hw fun _ => .inl nofun, h.sequence,
    forall_mem_set (others_of_forall h.pending) hpending,
    forall_mem_set (others_of_forall h.last) trivial, h.delivered, fun _ hfree => ?_, ?_,
    fun himporter => absurd himporter hnone⟩
  · exact absurd hrow (hfree _ (List.mem_of_getElem? hself))
  · intro v pc hv henqueued
    obtain ⟨rfl, -⟩ | ⟨hne, hv⟩ := getElem?_set_cases hv
    · rfl
    · exact absurd henqueued.inside (hothers hv hne)

theorem Inv.commit (h : Inv sys) (hw : sys.threads[w]? = some (.commit row)) :
    Inv ⟨sys.state.commit row, sys.threads.set w (.committed row)⟩ := by
  have hmem := List.mem_of_getElem? hw
  have hothers : ∀ ⦃v pc⦄, sys.threads[v]? = some pc → v ≠ w → ¬ pc.Inside :=
    fun _ _ hv hne => h.alone.others hw nofun hv hne
  have hnone := h.not_recorded hmem rfl
  have hnext := h.pending _ hmem row.milestone rfl
  have hrecorded : (sys.state.commit row).recorded = sys.state.recorded ++ [row.milestone] :=
    List.map_append
  have hself : (sys.threads.set w (.committed row))[w]? = some (.committed row) :=
    List.getElem?_set_self (List.getElem?_eq_some_iff.mp hw).1
  have himporter : .importer ∈ (sys.state.commit row).recorded ↔ row.milestone = .importer := by
    rw [hrecorded, List.mem_append, List.mem_singleton, eq_comm]
    exact or_iff_right hnone
  refine ⟨h.alone.set hw fun hinside => absurd rfl hinside, ?_, ?_,
    forall_mem_set (others_of_forall h.last) trivial, ?_, fun hfirst hfree => ?_, ?_, fun hlast => ?_⟩
  · rw [hrecorded, h.sequence, take_append_next hnext]
    unfold State.commit
    dsimp only
    rw [List.length_append, List.length_singleton]
  · refine forall_mem_set (fun v pc hv hne m hm => ?_) nofun
    refine absurd ?_ (hothers hv hne)
    intro hno
    rw [hno] at hm
    cases hm
  · rw [himporter]
    unfold State.commit
    dsimp only
    by_cases hrow : row.milestone = .importer
    · rw [if_pos hrow]
      exact ⟨fun _ => hrow, fun _ => rfl⟩
    · rw [if_neg hrow]
      exact ⟨fun hdelivered => absurd (h.delivered.mp hdelivered) hnone,
        fun hlast => absurd hlast hrow⟩
  · have hrow : row.milestone ≠ .importer := fun hrow => hfirst (himporter.mpr hrow)
    refine h.unpublished hnone (forall_mem_of_others hw hrow fun v pc hv hne henqueued => ?_)
    exact hothers hv hne henqueued.inside
  · intro v pc hv henqueued
    obtain ⟨-, rfl⟩ | ⟨hne, hv⟩ := getElem?_set_cases hv
    · exact absurd henqueued id
    · exact absurd henqueued.inside (hothers hv hne)
  · have hrow := himporter.mp hlast
    exact ⟨w, row, h.enqueued hw hrow, hself, hrow⟩

/-! ## Runs -/

theorem Inv.run {s' : State} (h : Inv sys) (hw : sys.threads[w]? = some pc)
    (hcareful : pc.Careful sys answer) (hstep : step sys.state w answer pc = some (s', pc')) :
    Inv ⟨s', sys.threads.set w pc'⟩ := by
  have hmem := List.mem_of_getElem? hw
  unfold step at hstep
  cases pc with
  | findDeal call =>
    dsimp only at hstep
    split at hstep <;> obtain ⟨rfl, rfl⟩ := Prod.mk.inj (Option.some.inj hstep)
    · exact h.rollBack hw id nofun .failed
    · unfold Pc.findDealThen
      split
      · exact h.rollBack hw id nofun _
      · split
        · exact h.rollBack hw id nofun _
        · exact h.set hw id nofun id (fun hinside => absurd rfl hinside) nofun trivial
  | findMilestones call =>
    dsimp only at hstep
    split at hstep <;> obtain ⟨rfl, rfl⟩ := Prod.mk.inj (Option.some.inj hstep)
    · exact h.rollBack hw id nofun .failed
    · next hworks =>
      unfold Pc.findMilestonesThen
      split
      · exact h.rollBack hw id nofun _
      · next expected hexpected =>
        split
        · exact h.rollBack hw id nofun _
        · next hsame =>
          obtain rfl : call.milestone = expected := Decidable.not_not.mp hsame
          have hfree := hcareful (Bool.eq_false_iff.mpr hworks) hexpected
          refine h.set hw id nofun id (fun _ => .inr hfree) (fun m hm => ?_) trivial
          exact Option.some.inj hm ▸ hexpected
  | recordMemo call =>
    dsimp only at hstep
    split at hstep <;> obtain ⟨rfl, rfl⟩ := Prod.mk.inj (Option.some.inj hstep)
    · exact h.rollBack hw id nofun .failed
    · exact h.goOn hw id nofun id nofun rfl trivial
  | save call stellarTxId =>
    dsimp only at hstep
    split at hstep <;> obtain ⟨rfl, rfl⟩ := Prod.mk.inj (Option.some.inj hstep)
    · exact h.rollBack hw id nofun .failed
    · unfold Pc.saveThen
      split
      · next hrow => exact h.goOn hw id nofun id nofun rfl hrow
      · next hrow => exact h.goOn hw id nofun hrow nofun rfl trivial
  | updateDeal row =>
    dsimp only at hstep
    split at hstep <;> obtain ⟨rfl, rfl⟩ := Prod.mk.inj (Option.some.inj hstep)
    · exact h.rollBack hw id nofun .failed
    · have hrow : row.milestone = .importer := h.last _ hmem
      exact h.goOn hw id nofun id nofun rfl hrow
  | enqueueDealDelivered row =>
    obtain ⟨rfl, rfl⟩ := Prod.mk.inj (Option.some.inj hstep)
    have hout : answer.published = !answer.fails := hcareful
    cases hfails : answer.fails with
    | true =>
      rw [hout, hfails]
      exact h.rollBack hw id nofun .failed
    | false =>
      rw [hout, hfails]
      exact h.enqueue hw
  | commit row =>
    dsimp only at hstep
    split at hstep <;> obtain ⟨rfl, rfl⟩ := Prod.mk.inj (Option.some.inj hstep)
    · next hfails =>
      exact h.rollBack hw (fun hrow => absurd (hcareful hrow) (by rw [hfails]; nofun)) nofun .failed
    · exact h.commit hw
  | committed | rolledBack => cases hstep

theorem Inv.next {e : Event} (h : Inv sys) (hcareful : Careful sys e)
    (hnext : next sys e = some sys') : Inv sys' := by
  cases e with
  | recordMilestone call =>
    cases hnext
    have hfresh : ∀ {v : Nat} {pc : Pc}, (sys.threads ++ [Pc.findDeal call])[v]? = some pc →
        pc.Enqueued → sys.threads[v]? = some pc := by
      intro v pc hv henqueued
      obtain hv | rfl := getElem?_append_cases hv
      · exact hv
      · exact absurd henqueued id
    refine ⟨h.alone.append fun hinside => hinside rfl, h.sequence, forall_mem_append h.pending nofun,
      forall_mem_append h.last trivial, h.delivered, fun hnone hfree => h.unpublished hnone ?_,
      fun v pc hv henqueued => h.enqueued (hfresh hv henqueued) henqueued, fun himporter => ?_⟩
    · exact fun pc hpc => hfree pc (List.mem_append_left _ hpc)
    · obtain ⟨v, row, hpublished, hv, hrow⟩ := h.committed himporter
      have hlt := (List.getElem?_eq_some_iff.mp hv).1
      exact ⟨v, row, hpublished, (List.getElem?_append_left hlt).trans hv, hrow⟩
  | run w answer =>
    simp only [Shipments.next, Option.bind_eq_bind, Option.bind_eq_some_iff,
      Option.ite_none_left_eq_some] at hnext
    obtain ⟨pc, hw, -, ⟨s', pc'⟩, hstep, hsys⟩ := hnext
    obtain rfl := Option.some.inj hsys
    exact h.run hw (hcareful pc hw) hstep

theorem inv_start (hdeal : deal.status ≠ .delivered) : Inv (start deal) where
  alone := atMostOneInside_nil
  sequence := rfl
  pending := nofun
  last := nofun
  delivered := ⟨fun hdelivered => absurd hdelivered hdeal, nofun⟩
  unpublished := fun _ _ => rfl
  enqueued := nofun
  committed := nofun

theorem Inv.milestonePrefix (h : Inv sys) : MilestonePrefix sys := by
  have hpublished : sys.state.published = [] ∨
      ∃ v pc, sys.state.published = [v] ∧ sys.threads[v]? = some pc ∧ pc.Importer := by
    by_cases himporter : .importer ∈ sys.state.recorded
    · obtain ⟨v, row, hpublished, hv, hrow⟩ := h.committed himporter
      exact .inr ⟨v, _, hpublished, hv, hrow⟩
    · by_cases hfree : ∀ pc ∈ sys.threads, ¬ pc.Enqueued
      · exact .inl (h.unpublished himporter hfree)
      · simp only [not_forall, not_not] at hfree
        obtain ⟨pc, hpc, henqueued⟩ := hfree
        obtain ⟨v, hv⟩ := List.getElem?_of_mem hpc
        refine .inr ⟨v, pc, h.enqueued hv henqueued, hv, ?_⟩
        cases pc with
        | commit row => exact henqueued
        | _ => exact absurd henqueued id
  refine ⟨⟨_, h.sequence⟩, h.delivered, ?_, fun himporter => ?_, fun v hv => ?_⟩
  · obtain hnone | ⟨v, -, hone, -⟩ := hpublished
    · rw [hnone]
      exact Nat.zero_le _
    · rw [hone]
      exact Nat.le_refl _
  · obtain ⟨v, -, hone, -⟩ := h.committed himporter
    rw [hone]
    rfl
  · obtain hnone | ⟨u, pc, hone, hu, himporter⟩ := hpublished
    · rw [hnone] at hv
      cases hv
    · rw [hone, List.mem_singleton] at hv
      exact ⟨pc, hv ▸ hu, himporter⟩

/-- In a run of careful steps the milestones are a prefix, delivered and published with the last. -/
theorem milestone_prefix (deal : TradeDeal) (xs : List (Step System Event)) (sys : System)
    (hdeal : deal.status ≠ .delivered) (hrun : ShipmentRun deal xs sys)
    (hcareful : ∀ x ∈ xs, Careful x.pre x.act) : MilestonePrefix sys :=
  (hrun.invariant Inv (inv_start hdeal) fun x hx hnext hpre =>
    hpre.next (hcareful x hx) hnext).milestonePrefix

def cocoa : TradeDeal := ⟨.funded, "trader-1"⟩

/-- The call `w` records a milestone from its start to its end. -/
def records (w : Nat) (milestone : MilestoneType) : List Event :=
  .recordMilestone ⟨"trader-1", milestone⟩ :: List.replicate
    (if milestone = .importer then 7 else 5) (.run w ⟨false, "4ce1", true⟩)

/-- One call after the other. -/
def oneByOne : List Event :=
  records 0 .farm ++ records 1 .warehouse ++ records 2 .port ++ records 3 .importer

/-- Both calls count the milestones before one of them has inserted its own. -/
def overlapping : List Event :=
  [.recordMilestone ⟨"trader-1", .farm⟩, .recordMilestone ⟨"trader-1", .farm⟩] ++
    (List.replicate 5 [Event.run 0 ⟨false, "4ce1", true⟩, .run 1 ⟨false, "9ab0", true⟩]).flatten

/-- The last commit fails. -/
def crashing : List Event := oneByOne.dropLast ++ [.run 3 ⟨true, "", false⟩]

theorem milestone_prefix_oneByOne :
    MilestonePrefix (replay next (start cocoa) oneByOne).2 :=
  milestone_prefix cocoa _ _ (by decide) (run_replay next (start cocoa) oneByOne)
    (by decide +kernel)

/-- The farm is recorded twice. -/
theorem recorded_twice : ¬ ∀ (deal : TradeDeal) (xs : List (Step System Event)) (sys : System),
    deal.status ≠ .delivered → ShipmentRun deal xs sys → MilestonePrefix sys := by
  intro h
  obtain ⟨n, hsequence⟩ := (h cocoa _ _ (by decide)
    (run_replay next (start cocoa) overlapping)).sequence
  have htwice : (replay next (start cocoa) overlapping).2.state.recorded = [.farm, .farm] := by
    decide +kernel
  rw [htwice] at hsequence
  match n with
  | 0 | 1 | 2 | 3 => exact absurd hsequence (by decide)
  | n + 4 => exact absurd hsequence nofun

/-- The message is out, and its transaction is rolled back. -/
theorem published_and_rolledBack : ¬ MilestonePrefix (replay next (start cocoa) crashing).2 := by
  intro h
  obtain ⟨pc, hpc, himporter⟩ := h.only 3 (by decide +kernel)
  have hrolledBack : (replay next (start cocoa) crashing).2.threads[3]? =
      some (.rolledBack .failed) := by decide +kernel
  obtain rfl : .rolledBack .failed = pc := Option.some.inj (hrolledBack.symm.trans hpc)
  exact himporter

end AgriFi.Shipments
