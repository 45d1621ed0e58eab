import AgriFi.EscrowContract.BatchRefund

/-
  The settlement gate and the freeze rule. `MilestonesCompleted` counts the entries of
  `MilestoneData`, whose keys are below `MilestonesCount`, so a counter that reached the count
  means that every milestone is there (`Recorded`), and each entry was written by one
  `record_milestone` of the run (`records_run`). The transfers of a call go to addresses that
  are not frozen (`paid_unfrozen`): each payout path checks the same map, and no call that
  transfers writes it.
-/

namespace AgriFi.EscrowContract

open AgriFi.Soroban AgriFi.Runs

variable {Addr : Type} [LinearOrder Addr] {led : Ledger Addr} {w w' w₀ : World Addr}
  {call : Call Addr} {xs : List (CallStep Addr)}

/-! ## Milestones -/

/-- The counter and the map of milestones agree. -/
structure Recorded (e : Escrow Addr) : Prop where
  completed_eq : e.milestonesCompleted = e.milestoneData.entries.length
  lt_count : ∀ id m, e.milestoneData.get? id = some m → id < e.milestonesCount

/-- The call records milestone `id`. -/
def Call.records (id : Nat) : Call Addr → Bool
  | .recordMilestone _ j => j = id
  | _ => false

/-- What a call does to the milestones: nothing, or it enters one that was not there. -/
inductive MilestoneStep (e e' : Escrow Addr) : Call Addr → Prop
  | same {call : Call Addr} :
      (∀ id, call.records id = false) → e'.milestoneData = e.milestoneData →
      e'.milestonesCompleted = e.milestonesCompleted → MilestoneStep e e' call
  | record {caller : Addr} {id : Nat} {m : Milestone} :
      id < e.milestonesCount → e.milestoneData.get? id = none →
      e'.milestoneData = e.milestoneData.set id m →
      e'.milestonesCompleted = e.milestonesCompleted + 1 →
      MilestoneStep e e' (.recordMilestone caller id)

/-- What refunds leave alone. -/
structure SameMilestones (e e' : Escrow Addr) : Prop where
  data_eq : e'.milestoneData = e.milestoneData
  completed_eq : e'.milestonesCompleted = e.milestonesCompleted
  count_eq : e'.milestonesCount = e.milestonesCount

theorem sameMilestones_refundAll (l : List Addr) (w : World Addr) :
    SameMilestones w.storage.toEscrow (l.foldl refundIfDue w).storage.toEscrow :=
  foldl_refundIfDue_induction
    (P := fun u => SameMilestones w.storage.toEscrow u.storage.toEscrow) l ⟨rfl, rfl, rfl⟩
    fun _ _ _ h => ⟨h.data_eq, h.completed_eq, h.count_eq⟩

theorem milestoneStep_of_moves (hm : Moves led w call w') :
    MilestoneStep w.storage.toEscrow w'.storage.toEscrow call ∧
      w'.storage.milestonesCount = w.storage.milestonesCount := by
  cases hm with
  | recordMilestone hlt hn => exact ⟨.record hlt hn rfl rfl, rfl⟩
  | refundAll =>
    have h := sameMilestones_refundAll (investorAddresses w.storage.toEscrow) w
    exact ⟨.same (fun _ => rfl) h.data_eq h.completed_eq, h.count_eq⟩
  | approve hc => rcases hc with rfl | rfl <;> exact ⟨.same (fun _ => rfl) rfl rfl, rfl⟩
  | distribute hc =>
    refine ⟨.same ?_ (by simp) (by simp), by simp⟩
    intro id
    cases call with
    | recordMilestone => simp [Call.Settles] at hc
    | _ => rfl
  | _ => exact ⟨.same (fun _ => rfl) rfl rfl, rfl⟩

theorem Recorded.step (h : Recorded w.storage.toEscrow) (hm : Moves led w call w') :
    Recorded w'.storage.toEscrow := by
  obtain ⟨hstep, hcount⟩ := milestoneStep_of_moves hm
  cases hstep with
  | same _ hdata hcompleted =>
    exact ⟨by rw [hdata, hcompleted]; exact h.completed_eq, by
      rw [hdata, hcount]
      exact h.lt_count⟩
  | @record _ id m hlt hn hdata hcompleted =>
    constructor
    · rw [hdata, hcompleted, HostMap.length_set_of_none hn, h.completed_eq]
    · intro i m' hi
      rw [hdata, HostMap.get?_set] at hi
      rw [hcount]
      split at hi
      · next he => exact he ▸ hlt
      · exact h.lt_count i m' hi

theorem Reachable.recorded (h : Reachable w) : Recorded w.storage.toEscrow := by
  obtain ⟨w₀, hinit, hr⟩ := h
  obtain ⟨hdata, hcompleted⟩ := hinit.fresh.unrecorded
  have hboth : Balanced w ∧ Recorded w.storage.toEscrow := by
    refine hr.invariant (fun u => Balanced u ∧ Recorded u.storage.toEscrow)
      ⟨hinit.fresh.balanced, ?_, ?_⟩ ?_
    · rw [hdata, hcompleted]
      rfl
    · rw [hdata]
      simp
    · rintro u a u' hs ⟨hb, hu⟩
      have hm := moves_of_step hb.unlocked hs
      exact ⟨hb.callStep hs, Recorded.step (w := u.enter a.ledger) hu hm⟩
  exact hboth.2

/-- One if milestone `id` is recorded. -/
def Escrow.entry (e : Escrow Addr) (id : Nat) : Nat :=
  if (e.milestoneData.get? id).isSome = true then 1 else 0

theorem records_step (hm : Moves led w call w') (id : Nat) :
    (if call.records id = true then 1 else 0) + w.storage.entry id = w'.storage.entry id := by
  cases (milestoneStep_of_moves hm).1 with
  | same hn hdata => simp [hn id, Escrow.entry, hdata]
  | @record _ j m hlt hnone hdata =>
    unfold Escrow.entry Call.records
    rw [hdata, HostMap.get?_set]
    by_cases hj : j = id
    · subst hj
      simp [hnone]
    · simp [hj]

/-- The successful `record_milestone` calls of a run are the entries it added. -/
theorem records_run (hb : Balanced w₀) (hr : CallRun w₀ xs w) (id : Nat) :
    (xs.countP fun x => x.act.call.records id) + w₀.storage.entry id = w.storage.entry id := by
  induction hr with
  | nil => simp
  | cons hx _ ih =>
    have hstep := records_step (moves_of_step hb.unlocked hx) id
    have hrest := ih (hb.callStep hx)
    rw [List.countP_cons]
    dsimp only [Vault.enter_storage] at hstep ⊢
    omega

/-- The call is `settle_escrow`. -/
def Call.isSettleEscrow : Call Addr → Bool
  | .settleEscrow _ => true
  | _ => false

theorem ready_of_settleEscrow (hm : Moves led w call w') (hc : call.isSettleEscrow = true) :
    w.storage.milestonesCount ≤ w.storage.milestonesCompleted ∧
      w.storage.dealValue ≤ w.storage.totalFunded := by
  cases call with
  | settleEscrow =>
    cases hm with
    | distribute _ hready => exact hready
    | approve hc => simp at hc
  | _ => simp [Call.isSettleEscrow] at hc

/-- At a `settle_escrow` of a run every milestone was recorded by exactly one step before. -/
theorem recorded_before_settle (hinit : Initialized w₀) {ys zs : List (CallStep Addr)}
    {x : CallStep Addr} (hr : CallRun w₀ (ys ++ x :: zs) w)
    (hx : x.act.call.isSettleEscrow = true) {id : Nat} (hid : id < x.pre.storage.milestonesCount) :
    (ys.countP fun y => y.act.call.records id) = 1 := by
  obtain ⟨hys, hs, _⟩ := run_split.mp hr
  have hpre : Reachable x.pre := ⟨w₀, hinit, hys.reaches⟩
  have hrec := hpre.recorded
  have hready := ready_of_settleEscrow (moves_of_step hpre.balanced.unlocked hs) hx
  have hfull := HostMap.get?_isSome_of_full hrec.lt_count
    (hrec.completed_eq ▸ hready.1) hid
  have hcount := records_run hinit.fresh.balanced hys id
  have hnone : w₀.storage.entry id = 0 := by
    unfold Escrow.entry
    rw [hinit.fresh.unrecorded.1]
    rfl
  have hone : x.pre.storage.entry id = 1 := if_pos hfull
  omega

/-! ## Frozen addresses -/

theorem frozen_refundAll (l : List Addr) (w : World Addr) :
    (l.foldl refundIfDue w).storage.frozenContributors = w.storage.frozenContributors :=
  foldl_refundIfDue_induction
    (P := fun u => u.storage.frozenContributors = w.storage.frozenContributors) l rfl
    fun _ _ _ h => h

/-- What a call sends goes to addresses that are not frozen, and a call that sends does not touch
    the frozen map. -/
theorem paid_unfrozen (ht : w.payments = []) (hm : Moves led w call w') :
    ∀ p ∈ w'.payments, p.src = w.contract →
      w.storage.isFrozen p.dst = false ∧
        w'.storage.frozenContributors = w.storage.frozenContributors := by
  intro p hp hsrc
  cases hm with
  | fund hc =>
    -- the payer of `fund` is not the contract
    simp only [Vault.received_payments, setEscrow_payments, ht, List.nil_append,
      List.mem_singleton] at hp
    rw [hp] at hsrc
    exact absurd hsrc hc
  | distribute _ _ _ hfarmer hplatform =>
    rw [distributed_payments, ht, List.nil_append] at hp
    obtain ⟨q, hq, rfl⟩ := List.mem_map.mp hp
    have hmem := List.mem_of_mem_filter hq
    refine ⟨?_, by simp⟩
    rcases List.mem_cons.mp hmem with rfl | hmem
    · exact hfarmer
    · obtain rfl := List.mem_singleton.mp hmem
      exact hplatform
  | refund _ _ hd =>
    unfold refundTo at hp
    simp only [Vault.sent_payments, setEscrow_payments, ht, List.nil_append,
      List.mem_singleton] at hp
    rw [hp]
    exact ⟨hd.2.2, rfl⟩
  | refundAll =>
    rw [foldl_refundIfDue_payments (investorAddresses_nodup _), ht, List.nil_append] at hp
    exact ⟨(mem_refundPayments.mp hp).1.2.2, frozen_refundAll _ _⟩
  | _ => simp [ht] at hp

/-! ## Runs -/

/-- In every run the milestone counter is the number of recorded milestones, all below the count;
    at a `settle_escrow` each of them was recorded by exactly one step and `TotalFunded` reached
    `DealValue`; and nothing is ever sent to an address that is frozen at that moment. -/
theorem settlement_gate (hinit : Initialized w₀) (hr : CallRun w₀ xs w) :
    (w.storage.milestonesCompleted = w.storage.milestoneData.entries.length ∧
      ∀ id m, w.storage.milestoneData.get? id = some m → id < w.storage.milestonesCount) ∧
    (∀ ys x zs, xs = ys ++ x :: zs → x.act.call.isSettleEscrow = true →
      (∀ id < x.pre.storage.milestonesCount,
        (ys.countP fun y => y.act.call.records id) = 1) ∧
      x.pre.storage.dealValue ≤ x.pre.storage.totalFunded) ∧
    ∀ x ∈ xs, ∀ p ∈ x.post.payments, p.src = x.pre.contract →
      x.pre.storage.isFrozen p.dst = false ∧ x.post.storage.isFrozen p.dst = false := by
  have hrec : Recorded w.storage.toEscrow := Reachable.recorded ⟨w₀, hinit, hr.reaches⟩
  refine ⟨⟨hrec.completed_eq, hrec.lt_count⟩, ?_, ?_⟩
  · rintro ys x zs rfl hx
    obtain ⟨hys, hs, _⟩ := run_split.mp hr
    have hb : Balanced x.pre := Reachable.balanced ⟨w₀, hinit, hys.reaches⟩
    exact ⟨fun id hid => recorded_before_settle hinit hr hx hid,
      (ready_of_settleEscrow (moves_of_step hb.unlocked hs) hx).2⟩
  · intro x hx p hp hsrc
    obtain ⟨hs, hb, _⟩ := hr.steps_invariant Balanced hinit.fresh.balanced
      (fun y _ hs hi => hi.callStep hs) x hx
    have hm := moves_of_step hb.unlocked hs
    obtain ⟨hpre, hmap⟩ := paid_unfrozen (w := x.pre.enter _) rfl hm p hp hsrc
    refine ⟨hpre, ?_⟩
    unfold Escrow.isFrozen
    rw [hmap]
    exact hpre

theorem settlement_gate_sample :
    let r := sampleRun 1 [(1, .fund 10 1000), (2, .recordMilestone 1 1),
      (3, .freezeContributor 0 10), (4, .recordMilestone 0 0), (5, .settleEscrow 0)]
    r.2.storage.milestonesCompleted = r.2.storage.milestoneData.entries.length :=
  (settlement_gate (sampleWorld_initialized 1) (sampleRun_run 1 [(1, .fund 10 1000),
    (2, .recordMilestone 1 1), (3, .freezeContributor 0 10), (4, .recordMilestone 0 0),
    (5, .settleEscrow 0)])).1.1

end AgriFi.EscrowContract
