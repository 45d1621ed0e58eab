import AgriFi.FarmCampaign.DisputeRecords
import Mathlib.Data.Set.Card

/-
  Tranches. `release_milestone` and the Release arm of `resolve_dispute` pay the same tranche,
  the first guarded by the released mark and the freeze flag, the second by the phase of the
  record. `TrancheStep` says what a call does to the released marks and their counter; the
  invariant `Campaign.TranchesSound` ties both guards together (a frozen milestone is not
  released), so a milestone's released mark is a credit that its one transfer spends
  (`tranche_step`, `tranches_unique`).
-/

namespace AgriFi.FarmCampaign

open AgriFi.Soroban AgriFi.Runs

variable {Addr : Type} [LinearOrder Addr]

/-- The call is `release_milestone` or `resolve_dispute` on milestone `i`. -/
def Call.paysTranche (i : Nat) : Call Addr → Bool
  | .releaseMilestone _ j => j = i
  | .resolveDispute _ j => j = i
  | _ => false

/-- The transfers a step makes through the two calls that pay the tranche of milestone `i`. -/
def trancheTransfers (i : Nat) (x : CallStep Addr) : List (Transfer Addr) :=
  if x.act.call.paysTranche i = true then x.post.transfers else []

/-- The milestones whose `MilestoneReleased` flag is set. -/
def Campaign.releasedSet (c : Campaign Addr) : Set Nat := {i | c.milestoneReleased i = true}

variable {env : Env Addr} {w w' w₀ : World Addr} {call : Call Addr} {xs : List (CallStep Addr)}

/-! ## What a call does to the released marks -/

inductive TrancheStep (w w' : World Addr) (call : Call Addr) : Prop
  /-- No mark is set, and neither of the two calls transfers anything. -/
  | none :
      w'.campaign.milestoneReleased = w.campaign.milestoneReleased →
      w'.campaign.state.milestonesReleased = w.campaign.state.milestonesReleased →
      (∀ i, call.paysTranche i = true → w'.transfers = w.transfers) → TrancheStep w w' call
  /-- The tranche of milestone `j` is paid by one transfer to the farmer. -/
  | pay {j : Nat} {tranche : Int} :
      (∀ i, call.paysTranche i = true ↔ i = j) →
      (w.campaign.disputeFlag j = false ∧ w.campaign.milestoneReleased j = false ∧
          j < w.campaign.config.milestoneCount) ∨
        (∃ d, w.campaign.disputeRecord j = some d ∧ ¬ d.Executed) →
      w'.campaign.milestoneReleased = Function.update w.campaign.milestoneReleased j true →
      w'.campaign.state.milestonesReleased = w.campaign.state.milestonesReleased + 1 →
      w'.transfers = w.transfers ++ [⟨w.contract, w.campaign.config.farmer, tranche⟩] →
      TrancheStep w w' call

theorem tranches_of_split {c c' : Campaign Addr} {target total : Int}
    (h : applyProportionalRefund c target = .ok (c', total)) :
    c'.milestoneReleased = c.milestoneReleased ∧
      c'.state.milestonesReleased = c.state.milestonesReleased ∧
      c'.config.milestoneCount = c.config.milestoneCount := by
  obtain ⟨_, _, rfl⟩ := applyProportionalRefund_frame h
  exact ⟨rfl, rfl, rfl⟩

omit [LinearOrder Addr] in
theorem Call.not_paysTranche_of_refundee {investor : Addr} (h : call.refundee = some investor)
    (i : Nat) : ¬ call.paysTranche i = true := by
  cases call with
  | refund => simp [Call.paysTranche]
  | refundByAdmin => simp [Call.paysTranche]
  | _ => simp [Call.refundee] at h

theorem trancheStep_of_moves (h : Moves env w call w') : TrancheStep w w' call := by
  cases h with
  | idle => exact .none rfl rfl fun _ _ => rfl
  | releaseMilestone hs hi hr hf =>
    exact .pay (by simp [Call.paysTranche, eq_comm]) (.inl ⟨hf, hr, hi⟩) rfl rfl rfl
  | resolveRelease hd hx =>
    exact .pay (by simp [Call.paysTranche, eq_comm]) (.inr ⟨_, hd, hx⟩) rfl rfl rfl
  | resolveRefund hd hx hdec hr hp =>
    obtain ⟨hmarks, hcount, _⟩ := tranches_of_split hp
    exact .none hmarks hcount fun _ _ => rfl
  | earlyClose he hs hp =>
    obtain ⟨hmarks, hcount, _⟩ := tranches_of_split hp
    exact .none hmarks hcount (by simp [Call.paysTranche])
  | markFailed he hp =>
    obtain ⟨hmarks, hcount, _⟩ := tranches_of_split hp
    exact .none hmarks hcount (by simp [Call.paysTranche])
  | distributeRevenue hs hd hr hf hp hfee =>
    have hc := (distribution_onlyTransfers hp hfee).campaign_eq
    exact .none (by rw [hc]) (by rw [hc]) (by simp [Call.paysTranche])
  | refundEnded hc =>
    exact .none rfl rfl fun i hi => absurd hi (Call.not_paysTranche_of_refundee hc i)
  | refundStake hc =>
    exact .none rfl rfl fun i hi => absurd hi (Call.not_paysTranche_of_refundee hc i)
  | _ => exact .none rfl rfl (by simp [Call.paysTranche])

theorem milestoneCount_of_moves (h : Moves env w call w') :
    w'.campaign.config.milestoneCount = w.campaign.config.milestoneCount := by
  cases h with
  | earlyClose he hs hp => exact (tranches_of_split hp).2.2
  | markFailed he hp => exact (tranches_of_split hp).2.2
  | resolveRefund hd hx hdec hr hp => exact (tranches_of_split hp).2.2
  | distributeRevenue hs hd hr hf hp hfee =>
    rw [(distribution_onlyTransfers hp hfee).campaign_eq]
  | _ => rfl

/-! ## The invariant -/

structure Campaign.TranchesSound (c : Campaign Addr) : Prop where
  unreleased_of_frozen : ∀ i, c.disputeFlag i = true → c.milestoneReleased i = false
  record_lt : ∀ i d, c.disputeRecord i = some d → i < c.config.milestoneCount
  released_lt : ∀ i ∈ c.releasedSet, i < c.config.milestoneCount
  count_eq : c.releasedSet.encard = c.state.milestonesReleased

/-- A record that is not executed leaves its milestone unreleased: its freeze flag is still set. -/
theorem unreleased_of_record {c : Campaign Addr} (h : c.TranchesSound) {i : Nat} {d : Dispute Addr}
    (hs : c.RecordSound i d) (hx : ¬ d.Executed) : c.milestoneReleased i = false := by
  refine h.unreleased_of_frozen i (hs.frozen fun hp => hx ⟨hp, ?_⟩)
  exact hs.wellFormed.verdict_iff.mpr (.inr hp)

/-- The milestone a tranche is paid for exists and was not released before. -/
theorem payable_of_step {c : Campaign Addr} (h : c.TranchesSound)
    (hrec : ∀ i d, c.disputeRecord i = some d → c.RecordSound i d) {j : Nat}
    (hj : (c.disputeFlag j = false ∧ c.milestoneReleased j = false ∧
        j < c.config.milestoneCount) ∨ ∃ d, c.disputeRecord j = some d ∧ ¬ d.Executed) :
    c.milestoneReleased j = false ∧ j < c.config.milestoneCount := by
  rcases hj with ⟨_, hr, hlt⟩ | ⟨d, hd, hx⟩
  · exact ⟨hr, hlt⟩
  · exact ⟨unreleased_of_record h (hrec j d hd) hx, h.record_lt j d hd⟩

theorem frozen_step (h : Moves env w call w') (hi : w.campaign.TranchesSound) (i : Nat)
    (hf : w'.campaign.disputeFlag i = true) : w'.campaign.milestoneReleased i = false := by
  have hslot := slotStep_of_moves h i
  cases hslot with
  | same _ _ hs =>
    exact (released_of_slot hs).trans
      (hi.unreleased_of_frozen i ((frozen_of_slot hs).symm.trans hf))
  | raise _ _ _ _ _ _ _ _ hs => exact released_of_slot hs
  | evidence _ _ _ hs =>
    exact (released_of_slot hs).trans
      (hi.unreleased_of_frozen i ((frozen_of_slot hs).symm.trans hf))
  | vote _ _ _ _ _ _ hs =>
    exact (released_of_slot hs).trans
      (hi.unreleased_of_frozen i ((frozen_of_slot hs).symm.trans hf))
  | finalize _ _ hs =>
    exact (released_of_slot hs).trans
      (hi.unreleased_of_frozen i ((frozen_of_slot hs).symm.trans hf))
  | release hs =>
    -- `release_milestone` refuses a frozen milestone, and it leaves the flag alone
    have hkept : w.campaign.disputeFlag i = true := (frozen_of_slot hs).symm.trans hf
    cases h with
    | idle hidle => exact absurd hidle id
    | releaseMilestone _ _ _ hn => simp [hkept] at hn
    | refundEnded hc => simp [Call.refundee] at hc
    | refundStake hc => simp [Call.refundee] at hc
  | resolveRelease _ _ _ hs => simp [frozen_of_slot hs] at hf
  | resolveRefund _ _ _ _ _ hs => simp [frozen_of_slot hs] at hf

/-- A record that was not there before is one `raise_dispute` wrote. -/
theorem record_lt_step (h : Moves env w call w') (hi : w.campaign.TranchesSound) (i : Nat)
    (d : Dispute Addr) (hd : w'.campaign.disputeRecord i = some d) :
    i < w.campaign.config.milestoneCount := by
  have hslot := slotStep_of_moves h i
  cases hslot with
  | same _ _ hs => exact hi.record_lt i _ (slot_record hd hs)
  | evidence hold => exact hi.record_lt i _ hold
  | vote _ hold => exact hi.record_lt i _ hold
  | finalize hold => exact hi.record_lt i _ hold
  | resolveRelease hold => exact hi.record_lt i _ hold
  | resolveRefund hold => exact hi.record_lt i _ hold
  | release hs => exact hi.record_lt i _ (slot_record hd hs)
  | raise _ _ _ _ _ _ _ _ hs =>
    cases h with
    | idle hidle => exact absurd hidle id
    | raiseDispute _ hlt => exact hlt
    | refundEnded hc => simp [Call.refundee] at hc
    | refundStake hc => simp [Call.refundee] at hc

theorem TrancheStep.releasedSet_eq (h : TrancheStep w w' call) :
    (w'.campaign.releasedSet = w.campaign.releasedSet ∧
      w'.campaign.state.milestonesReleased = w.campaign.state.milestonesReleased) ∨
    ∃ j, w'.campaign.releasedSet = insert j w.campaign.releasedSet ∧
      w'.campaign.state.milestonesReleased = w.campaign.state.milestonesReleased + 1 ∧
      ((w.campaign.disputeFlag j = false ∧ w.campaign.milestoneReleased j = false ∧
          j < w.campaign.config.milestoneCount) ∨
        ∃ d, w.campaign.disputeRecord j = some d ∧ ¬ d.Executed) := by
  cases h with
  | none hmarks hcount => exact .inl ⟨by rw [Campaign.releasedSet, hmarks]; rfl, hcount⟩
  | @pay j _ _ hguard hmarks hcount =>
    refine .inr ⟨j, ?_, hcount, hguard⟩
    ext i
    by_cases hij : i = j <;> simp [Campaign.releasedSet, hmarks, hij]

theorem Campaign.TranchesSound.step (hi : w.campaign.TranchesSound)
    (hrec : ∀ i d, w.campaign.disputeRecord i = some d → w.campaign.RecordSound i d)
    (h : Moves env w call w') : w'.campaign.TranchesSound := by
  have hcount := milestoneCount_of_moves h
  have hmarks : (∀ i ∈ w'.campaign.releasedSet, i < w.campaign.config.milestoneCount) ∧
      w'.campaign.releasedSet.encard = w'.campaign.state.milestonesReleased := by
    rcases (trancheStep_of_moves h).releasedSet_eq with ⟨hset, hn⟩ | ⟨j, hset, hn, hguard⟩
    · rw [hset, hn]
      exact ⟨hi.released_lt, hi.count_eq⟩
    · obtain ⟨hr, hlt⟩ := payable_of_step hi hrec hguard
      have hnew : j ∉ w.campaign.releasedSet := by simp [Campaign.releasedSet, hr]
      rw [hset, hn, Set.encard_insert_of_notMem hnew, hi.count_eq]
      exact ⟨fun i hmem => hmem.elim (fun he => he ▸ hlt) (hi.released_lt i), by simp⟩
  rw [← hcount] at hmarks
  exact ⟨frozen_step h hi, fun i d hd => hcount ▸ record_lt_step h hi i d hd, hmarks.1, hmarks.2⟩

theorem Fresh.tranchesSound (h : Fresh w) : w.campaign.TranchesSound := by
  rw [h.campaign_eq]
  exact ⟨by simp [Campaign.initial], by simp [Campaign.initial],
    by simp [Campaign.initial, Campaign.releasedSet],
    by simp [Campaign.initial, Campaign.releasedSet]⟩

theorem Reachable.tranchesSound (hw : Reachable w) : w.campaign.TranchesSound := by
  obtain ⟨w₀, hinit, hr⟩ := hw
  have h : Reachable w ∧ w.campaign.TranchesSound := by
    refine hr.invariant (fun u => Reachable u ∧ u.campaign.TranchesSound)
      ⟨hinit.reachable, hinit.fresh.tranchesSound⟩ ?_
    rintro u a u' hs ⟨hu, hi⟩
    obtain ⟨_, hm⟩ := moves_of_step hs
    exact ⟨hu.step hs, Campaign.TranchesSound.step (w := u.enter a.env) hi hu.recordSound hm⟩
  exact h.2

theorem Campaign.TranchesSound.count_le {c : Campaign Addr} (h : c.TranchesSound) :
    c.state.milestonesReleased ≤ c.config.milestoneCount := by
  have hsub : c.releasedSet ⊆ (Finset.range c.config.milestoneCount : Set Nat) :=
    fun i hi => by simpa using h.released_lt i hi
  have hle := Set.encard_le_encard hsub
  rw [h.count_eq, Set.encard_coe_eq_coe_finsetCard, Finset.card_range] at hle
  exact_mod_cast hle

/-! ## One transfer a milestone -/

/-- The tranche transfers milestone `i` can still have. -/
def Campaign.credit (c : Campaign Addr) (i : Nat) : Nat :=
  if c.milestoneReleased i = true then 0 else 1

theorem tranche_step (hw : Reachable w) {inv : Invocation Addr} (hs : callStep w inv = some w')
    (i : Nat) :
    (trancheTransfers i ⟨w, inv, w'⟩).length + w'.campaign.credit i ≤ w.campaign.credit i := by
  obtain ⟨_, hm⟩ := moves_of_step hs
  unfold trancheTransfers
  dsimp only
  cases trancheStep_of_moves hm with
  | none hmarks _ hquiet =>
    have hcredit : w'.campaign.credit i = w.campaign.credit i := by
      rw [Campaign.credit, hmarks]
      rfl
    rw [hcredit]
    split
    · next hp => simp [hquiet i hp]
    · simp
  | @pay j tranche hcall hguard hmarks _ ht =>
    obtain ⟨hr, _⟩ := payable_of_step (c := w.campaign) hw.tranchesSound hw.recordSound hguard
    by_cases hij : i = j
    · subst hij
      rw [if_pos ((hcall i).mpr rfl)]
      simp [ht, Campaign.credit, hmarks, hr]
    · rw [if_neg (mt (hcall i).mp hij)]
      simp [Campaign.credit, hmarks, hij]

theorem tranche_run (hw : Reachable w) (hr : CallRun w xs w') (i : Nat) :
    (xs.flatMap (trancheTransfers i)).length + w'.campaign.credit i ≤ w.campaign.credit i := by
  induction hr with
  | nil => simp
  | cons hx _ ih =>
    have hhead := tranche_step hw hx i
    have htail := ih (hw.step hx)
    rw [List.flatMap_cons, List.length_append]
    omega

/-! ## Frozen milestones and executed records -/

theorem no_release_while_frozen {i : Nat} (hf : w.campaign.disputeFlag i = true) (env : Env Addr)
    (admin : Addr) : callStep w ⟨env, .releaseMilestone admin i⟩ = none := by
  cases hs : callStep w ⟨env, .releaseMilestone admin i⟩ with
  | none => rfl
  | some w' =>
    obtain ⟨_, hm⟩ := moves_of_step hs
    cases hm with
    | idle hidle => exact absurd hidle id
    | releaseMilestone _ _ _ hn => simp [hf] at hn
    | refundEnded hc => simp [Call.refundee] at hc
    | refundStake hc => simp [Call.refundee] at hc

theorem resolve_replay (hw : Reachable w) {i : Nat} {d : Dispute Addr}
    (hd : w.campaign.disputeRecord i = some d) (hp : d.phase = .resolved) {caller : Addr}
    (hs : callStep w ⟨env, .resolveDispute caller i⟩ = some w') : w' = w.enter env := by
  have hx : d.Executed := ⟨hp, (hw.recordSound i d hd).wellFormed.verdict_iff.mpr (.inr hp)⟩
  obtain ⟨_, hm⟩ := moves_of_step hs
  cases hm with
  | idle => rfl
  | refundEnded hc => simp [Call.refundee] at hc
  | refundStake hc => simp [Call.refundee] at hc
  | resolveRelease hd' hn =>
    obtain rfl := Option.some.inj (hd.symm.trans hd')
    exact absurd hx hn
  | resolveRefund hd' hn =>
    obtain rfl := Option.some.inj (hd.symm.trans hd')
    exact absurd hx hn

/-- Along every run each milestone's tranche is transferred at most once by the two calls
    together. The released counter is the number of released milestones, which is at most
    `milestone_count`; `release_milestone` never succeeds on a frozen milestone, and
    `resolve_dispute` on a resolved record changes nothing and transfers nothing. -/
theorem tranches_unique (hinit : Initialized w₀) (hr : CallRun w₀ xs w) :
    (∀ i, (xs.flatMap (trancheTransfers i)).length ≤ 1) ∧
    w.campaign.releasedSet.encard = w.campaign.state.milestonesReleased ∧
    w.campaign.state.milestonesReleased ≤ w.campaign.config.milestoneCount ∧
    (∀ i, w.campaign.disputeFlag i = true → ∀ env admin,
      callStep w ⟨env, .releaseMilestone admin i⟩ = none) ∧
    ∀ i d, w.campaign.disputeRecord i = some d → d.phase = .resolved → ∀ env caller w',
      callStep w ⟨env, .resolveDispute caller i⟩ = some w' →
      w'.campaign = w.campaign ∧ w'.usdc = w.usdc ∧ w'.transfers = [] := by
  have hw := hinit.reachable.run hr
  have hsound := hw.tranchesSound
  refine ⟨fun i => ?_, hsound.count_eq, hsound.count_le,
    fun i hf env admin => no_release_while_frozen hf env admin, ?_⟩
  · have hrun := tranche_run hinit.reachable hr i
    have hcredit : w₀.campaign.credit i ≤ 1 := by
      unfold Campaign.credit
      split <;> omega
    omega
  · intro i d hd hp env caller w' hs
    rw [resolve_replay hw hd hp hs]
    exact ⟨rfl, rfl, rfl⟩

/-- One milestone released by its dispute, the other by `release_milestone`. -/
theorem tranches_unique_sample :
    let r := sampleRun [(1, .invest 10 10000), (2, .approve 0), (3, .raiseDispute 10 0),
      (4, .castDisputeVote 2 0 true), (5, .resolveDispute 2 0), (6, .resolveDispute 2 0),
      (7, .releaseMilestone 0 1)]
    (r.1.flatMap (trancheTransfers 0)).length ≤ 1 ∧ r.2.campaign.state.milestonesReleased ≤ 2 :=
  have h := tranches_unique sampleWorld_initialized (sampleRun_run
    [(1, .invest 10 10000), (2, .approve 0), (3, .raiseDispute 10 0),
      (4, .castDisputeVote 2 0 true), (5, .resolveDispute 2 0), (6, .resolveDispute 2 0),
      (7, .releaseMilestone 0 1)])
  ⟨h.1 0, h.2.2.1⟩

end AgriFi.FarmCampaign
