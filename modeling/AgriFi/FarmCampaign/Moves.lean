import AgriFi.FarmCampaign.Contract
import AgriFi.FarmCampaign.ProportionalRefund

/-
  What a successful call does, said once. `Moves env w call w'` has one case for each way a
  call succeeds: its guards on the state before, and the state after. `moves_of_dispatch`
  inverts every entry point into it, and the invariants of the contract are proved by cases
  on `Moves` and never unfold an entry point again. `idle` collects the calls that succeed
  and change nothing.
-/

namespace AgriFi.FarmCampaign

open AgriFi.Soroban AgriFi.Runs

variable {Addr : Type} [LinearOrder Addr]

/-! ## States after a move -/

def Campaign.invested (c : Campaign Addr) (investor : Addr) (amount : Int) : Campaign Addr :=
  { c with
    investments := c.investments.set investor (c.investments.getD investor 0 + amount)
    state.totalRaised := c.state.totalRaised + amount
    state.status :=
      if c.state.status = .open ∧ c.state.totalRaised + amount ≥ c.config.fundingTarget then .funded
      else c.state.status }

def Campaign.partiallyReleased (c : Campaign Addr) (amountBps : Nat) (amount : Int) :
    Campaign Addr :=
  { c with
    state.partialReleaseTotalBps := c.state.partialReleaseTotalBps + amountBps
    state.totalReleased := c.state.totalReleased + amount }

def Campaign.trancheReleased (c : Campaign Addr) (milestoneIndex : Nat) (tranche : Int) :
    Campaign Addr :=
  { c with
    milestoneReleased := Function.update c.milestoneReleased milestoneIndex true
    state.milestonesReleased := c.state.milestonesReleased + 1
    state.totalReleased := c.state.totalReleased + tranche
    state.status :=
      if c.state.milestonesReleased + 1 ≥ c.config.milestoneCount then .delivered
      else c.state.status }

/-- `claim_refund` after the raise ended: the entitlement is spent. -/
def Campaign.entitlementClaimed (c : Campaign Addr) (investor : Addr) : Campaign Addr :=
  { c with
    refundableInvestments := c.refundableInvestments.set investor 0
    refunded := c.refunded.set investor true }

/-- `claim_refund` before that: the whole stake is handed back. -/
def Campaign.stakeClaimed (c : Campaign Addr) (investor : Addr) : Campaign Addr :=
  { c with
    state.totalRaised := c.state.totalRaised - c.investments.getD investor 0
    investments := c.investments.set investor 0
    refunded := c.refunded.set investor true }

/-- The verdict of a record: the recorded one, else the one its votes give. -/
def Dispute.decision (d : Dispute Addr) : Bool :=
  d.verdict.getD (decide (d.releaseVotes > d.refundVotes))

/-- The record's outcome has been executed. -/
def Dispute.Executed (d : Dispute Addr) : Prop := d.phase = .resolved ∧ d.verdict.isSome = true

instance (d : Dispute Addr) : Decidable d.Executed := inferInstanceAs (Decidable (_ ∧ _))

/-- A verdict is there, or can be derived because the voting window closed. -/
def Dispute.Decidable (d : Dispute Addr) (env : Env Addr) : Prop :=
  d.verdict = none → d.votingDeadline < env.timestamp

/-- `resolve_dispute` up to the outcome: freeze flag cleared, record `Resolved`. -/
def Campaign.disputeResolved (c : Campaign Addr) (milestoneIndex : Nat) (d : Dispute Addr) :
    Campaign Addr :=
  { c with disputeFlag := Function.update c.disputeFlag milestoneIndex false }.setRecord
    milestoneIndex { d with phase := .resolved, verdict := some d.decision }

/-- The investor a refund call is for. -/
def Call.refundee : Call Addr → Option Addr
  | .refund investor => some investor
  | .refundByAdmin _ investor => some investor
  | _ => none

/-- The call finds its work already done. -/
def Call.Idles (c : Campaign Addr) : Call Addr → Prop
  | .earlyClose _ _ => c.state.raiseEnded = true
  | .markFailed _ => c.state.raiseEnded = true
  | .refund investor => c.refunded.getD investor false = true
  | .refundByAdmin _ investor => c.refunded.getD investor false = true
  | .finalizeDispute _ i => ∃ d, c.disputeRecord i = some d ∧ d.verdict.isSome = true
  | .resolveDispute _ i => ∃ d, c.disputeRecord i = some d ∧ d.Executed
  | .view => True
  | _ => False

inductive Moves (env : Env Addr) (w : World Addr) : Call Addr → World Addr → Prop
  | idle {call : Call Addr} : call.Idles w.campaign → Moves env w call w
  | setMaxFunding {admin : Addr} {maxFunding : Int} :
      w.campaign.state.raiseEnded = false → w.campaign.state.status = .open →
      w.campaign.config.fundingTarget ≤ maxFunding →
      w.campaign.state.totalRaised ≤ maxFunding →
      Moves env w (.setMaxFunding admin maxFunding)
        { w with campaign.config.maxFunding := maxFunding }
  | invest {investor : Addr} {amount : Int} :
      investor ≠ w.contract → w.campaign.state.raiseEnded = false →
      w.campaign.state.status = .open ∨ w.campaign.state.status = .funded → 0 < amount →
      env.timestamp ≤ w.campaign.config.deadline →
      w.campaign.state.totalRaised + amount ≤ w.campaign.config.maxFunding →
      Moves env w (.invest investor amount)
        (World.collected { w with campaign := w.campaign.invested investor amount }
          investor amount)
  | earlyClose {admin : Addr} {reason : String} {c' : Campaign Addr} {total : Int} :
      w.campaign.state.raiseEnded = false →
      w.campaign.state.status = .open ∨ w.campaign.state.status = .funded ∨
        w.campaign.state.status = .paused →
      applyProportionalRefund w.campaign w.campaign.config.fundingTarget = .ok (c', total) →
      Moves env w (.earlyClose admin reason)
        { w with campaign := { c' with closeReason := some reason } }
  | approve {admin : Addr} :
      w.campaign.state.status = .funded →
      Moves env w (.approve admin) { w with campaign.state.status := .active }
  | partialRelease {caller : Addr} {amountBps : Nat} {amount : Int} :
      w.campaign.state.status = .active →
      checkedPartialReleaseAmount w.campaign.state.totalRaised amountBps
        w.campaign.config.partialReleaseCapBps w.campaign.state.partialReleaseTotalBps =
          .ok amount →
      0 < amount → amount ≤ w.usdc →
      Moves env w (.partialReleaseMilestone caller amountBps)
        (World.paid { w with campaign := w.campaign.partiallyReleased amountBps amount }
          w.campaign.config.farmer amount)
  | releaseMilestone {admin : Addr} {i : Nat} {tranche : Int} :
      w.campaign.state.status = .active → i < w.campaign.config.milestoneCount →
      w.campaign.milestoneReleased i = false → w.campaign.disputeFlag i = false →
      trancheAmount w.campaign.config w.campaign.state.totalRaised = .ok tranche →
      tranche ≤ w.usdc →
      Moves env w (.releaseMilestone admin i)
        (World.paid { w with campaign := w.campaign.trancheReleased i tranche }
          w.campaign.config.farmer tranche)
  | distributeRevenue {admin : Addr} {revenue fee : Int} {w₁ w' : World Addr} :
      w.campaign.state.status = .delivered → w.campaign.distributed = false → 0 < revenue →
      platformFee w.campaign.config revenue = .ok fee →
      payShares (revenue - fee) w.campaign.state.totalRaised w.campaign.investments.entries
        { w with campaign.distributed := true, campaign.state.status := .completed } = .ok w₁ →
      (if 0 < fee then w₁.pay w.campaign.config.admin fee else .ok w₁) = .ok w' →
      Moves env w (.distributeRevenue admin revenue) w'
  | refundEnded {call : Call Addr} {investor : Addr} :
      call.refundee = some investor → w.campaign.state.raiseEnded = true →
      w.campaign.refunded.getD investor false = false →
      0 < w.campaign.refundableInvestments.getD investor 0 →
      w.campaign.refundableInvestments.getD investor 0 ≤ w.usdc →
      Moves env w call
        (World.paid { w with campaign := w.campaign.entitlementClaimed investor } investor
          (w.campaign.refundableInvestments.getD investor 0))
  | refundStake {call : Call Addr} {investor : Addr} :
      call.refundee = some investor → w.campaign.state.raiseEnded = false →
      canRefund env w.campaign → w.campaign.refunded.getD investor false = false →
      0 < w.campaign.investments.getD investor 0 →
      w.campaign.investments.getD investor 0 ≤ w.usdc →
      Moves env w call
        (World.paid { w with campaign := w.campaign.stakeClaimed investor } investor
          (w.campaign.investments.getD investor 0))
  | pause {admin : Addr} :
      w.campaign.state.raiseEnded = false →
      Moves env w (.pause admin) { w with campaign.state.status := .paused }
  | unpause {admin : Addr} :
      w.campaign.state.raiseEnded = false →
      Moves env w (.unpause admin) { w with campaign.state.status := .open }
  | markFailed {admin : Addr} {c' : Campaign Addr} {total : Int} :
      w.campaign.state.raiseEnded = false →
      applyProportionalRefund { w.campaign with state.status := .failed }
        w.campaign.state.totalReleased = .ok (c', total) →
      Moves env w (.markFailed admin) { w with campaign := c' }
  | setVotingWindow {admin : Addr} {seconds : Nat} :
      Moves env w (.setDisputeVotingWindow admin seconds)
        { w with campaign.votingWindow := some seconds }
  | setArbitratorPool {admin : Addr} {pool : List Addr} :
      w.campaign.state.raiseEnded = false → w.campaign.state.status = .open → pool ≠ [] →
      Moves env w (.setArbitratorPool admin pool)
        { w with campaign.arbitratorPool := some pool }
  | updateArbitrator {admin newArbitrator : Addr} :
      w.campaign.state.raiseEnded = false → w.campaign.state.status = .open →
      Moves env w (.updateArbitrator admin newArbitrator)
        { w with campaign.arbitrator := newArbitrator }
  | raiseDispute {caller : Addr} {i : Nat} {d : Dispute Addr} :
      w.campaign.state.status = .active → i < w.campaign.config.milestoneCount →
      w.campaign.milestoneReleased i = false → w.campaign.disputeFlag i = false →
      d.phase = .open → d.releaseVotes = 0 → d.refundVotes = 0 → d.voters = [] →
      d.verdict = none →
      Moves env w (.raiseDispute caller i)
        { w with
          campaign := { w.campaign with
            disputeFlag := Function.update w.campaign.disputeFlag i true }.setRecord i d }
  | submitEvidence {caller : Addr} {i : Nat} {uri : String} {d : Dispute Addr}
      {evidence : List (Evidence Addr)} :
      w.campaign.disputeRecord i = some d → d.phase ≠ .verdict → d.phase ≠ .resolved →
      Moves env w (.submitDisputeEvidence caller i uri)
        { w with campaign := w.campaign.setRecord i { d with evidence } }
  | castVote {voter : Addr} {i : Nat} {release : Bool} {d d' : Dispute Addr} :
      voter ∈ arbitratorPool w.campaign → w.campaign.disputeRecord i = some d →
      d.verdict = none → env.timestamp ≤ d.votingDeadline → voter ∉ d.voters →
      countVote (voteQuorum w.campaign) d voter release = .ok d' →
      Moves env w (.castDisputeVote voter i release)
        { w with campaign := w.campaign.setRecord i d' }
  | finalize {caller : Addr} {i : Nat} {d : Dispute Addr} :
      w.campaign.disputeRecord i = some d → d.verdict = none → d.votingDeadline < env.timestamp →
      Moves env w (.finalizeDispute caller i)
        { w with
          campaign := w.campaign.setRecord i
            { d with phase := .verdict, verdict := some d.decision } }
  | resolveRelease {caller : Addr} {i : Nat} {d : Dispute Addr} {tranche : Int} :
      w.campaign.disputeRecord i = some d → ¬ d.Executed → d.Decidable env →
      d.decision = true →
      trancheAmount w.campaign.config w.campaign.state.totalRaised = .ok tranche →
      tranche ≤ w.usdc →
      Moves env w (.resolveDispute caller i)
        (World.paid
          { w with campaign := (w.campaign.disputeResolved i d).trancheReleased i tranche }
          w.campaign.config.farmer tranche)
  | resolveRefund {caller : Addr} {i : Nat} {d : Dispute Addr} {c' : Campaign Addr}
      {total : Int} :
      w.campaign.disputeRecord i = some d → ¬ d.Executed → d.Decidable env →
      d.decision = false →
      applyProportionalRefund { w.campaign.disputeResolved i d with state.status := .failed }
        w.campaign.state.totalReleased = .ok (c', total) →
      Moves env w (.resolveDispute caller i) { w with campaign := c' }

/-! ## Inversion of the entry points -/

variable {env : Env Addr} {w w' : World Addr}

theorem requireAuth_bind_eq_ok {addr : Addr} {f : Unit → Result Error (World Addr)} :
    (requireAuth env w addr >>= f) = .ok w' ↔
      env.authorized addr = true ∧ addr ≠ w.contract ∧ f () = .ok w' := by
  unfold requireAuth
  rw [failIf_bind_eq_ok, not_or, Bool.not_eq_false, and_assoc]

theorem requireAdmin_bind_eq_ok {admin : Addr} {f : Unit → Result Error (World Addr)} :
    (requireAdmin env w admin >>= f) = .ok w' ↔
      (env.authorized admin = true ∧ admin ≠ w.contract) ∧
        admin = w.campaign.config.admin ∧ f () = .ok w' := by
  constructor
  · intro h
    obtain ⟨_, ha, h⟩ := bind_eq_ok.mp h
    obtain ⟨_, hs, ha⟩ := bind_eq_ok.mp ha
    exact ⟨requireAuth_eq_ok.mp hs, not_not.mp (failIf_eq_ok.mp ha), h⟩
  · rintro ⟨hs, ha, h⟩
    refine bind_eq_ok.mpr ⟨(), bind_eq_ok.mpr ⟨(), requireAuth_eq_ok.mpr hs, ?_⟩, h⟩
    exact failIf_eq_ok.mpr (not_not.mpr ha)

theorem moves_setMaxFunding {admin : Addr} {maxFunding : Int}
    (h : setMaxFunding env w admin maxFunding = .ok w') :
    Moves env w (.setMaxFunding admin maxFunding) w' := by
  unfold setMaxFunding at h
  simp only [requireAdmin_bind_eq_ok, failIf_bind_eq_ok, pure_eq_ok, Except.ok.injEq, not_or,
    not_not, not_le, not_lt, Bool.not_eq_true] at h
  obtain ⟨_, _, ⟨_, ht⟩, ⟨he, hs⟩, _, hr, rfl⟩ := h
  exact .setMaxFunding he hs ht hr

theorem moves_invest {investor : Addr} {amount : Int}
    (h : invest env w investor amount = .ok w') : Moves env w (.invest investor amount) w' := by
  unfold invest at h
  simp only [requireAuth_bind_eq_ok, failIf_bind_eq_ok, okOr_bind_eq_ok, checkedSub_eq_some,
    checkedAdd_eq_some, not_and_or, not_not, not_le, not_lt, Bool.not_eq_true] at h
  obtain ⟨_, hi, he, _, hs, ha, hd, _, _, ⟨_, rfl⟩, hr, _, ⟨_, rfl⟩, _, ⟨_, rfl⟩, h⟩ := h
  obtain rfl := collect_eq_ok h
  exact .invest hi he hs ha hd (by omega)

theorem moves_earlyClose {admin : Addr} {reason : String}
    (h : earlyClose env w admin reason = .ok w') : Moves env w (.earlyClose admin reason) w' := by
  unfold earlyClose at h
  rw [requireAdmin_bind_eq_ok] at h
  obtain ⟨_, _, h⟩ := h
  split at h
  · next he =>
    obtain rfl := Except.ok.inj h
    exact .idle he
  · next he =>
    rw [failIf_bind_eq_ok] at h
    obtain ⟨hs, h⟩ := h
    obtain ⟨⟨c', total⟩, hp, h⟩ := bind_eq_ok.mp h
    obtain rfl := Except.ok.inj h
    refine .earlyClose (Bool.not_eq_true _ ▸ he) ?_ hp
    tauto

theorem moves_approve {admin : Addr} (h : approve env w admin = .ok w') :
    Moves env w (.approve admin) w' := by
  unfold approve at h
  simp only [requireAdmin_bind_eq_ok, failIf_bind_eq_ok, pure_eq_ok, Except.ok.injEq, not_not] at h
  obtain ⟨_, _, hs, rfl⟩ := h
  exact .approve hs

theorem moves_partialRelease {caller : Addr} {amountBps : Nat}
    (h : partialReleaseMilestone env w caller amountBps = .ok w') :
    Moves env w (.partialReleaseMilestone caller amountBps) w' := by
  unfold partialReleaseMilestone at h
  simp only [requireAuth_bind_eq_ok, failIf_bind_eq_ok, not_not] at h
  obtain ⟨_, _, _, hs, h⟩ := h
  obtain ⟨amount, ha, h⟩ := bind_eq_ok.mp h
  simp only [failIf_bind_eq_ok, okOr_bind_eq_ok, checkedAddU_eq_some, checkedAdd_eq_some, not_le,
    pay_eq_ok] at h
  obtain ⟨hpos, _, ⟨_, rfl⟩, _, ⟨_, rfl⟩, hb, rfl⟩ := h
  exact .partialRelease hs ha hpos hb

theorem payTranche_eq_ok {i : Nat} (h : payTranche w i = .ok w') :
    ∃ tranche, trancheAmount w.campaign.config w.campaign.state.totalRaised = .ok tranche ∧
      tranche ≤ w.usdc ∧
      w' = World.paid { w with campaign := w.campaign.trancheReleased i tranche }
        w.campaign.config.farmer tranche := by
  unfold payTranche at h
  obtain ⟨tranche, ht, h⟩ := bind_eq_ok.mp h
  simp only [okOr_bind_eq_ok, checkedAddU_eq_some, checkedAdd_eq_some, pay_eq_ok] at h
  obtain ⟨_, ⟨_, rfl⟩, _, ⟨_, rfl⟩, hb, rfl⟩ := h
  exact ⟨tranche, ht, hb, rfl⟩

theorem moves_releaseMilestone {admin : Addr} {i : Nat}
    (h : releaseMilestone env w admin i = .ok w') :
    Moves env w (.releaseMilestone admin i) w' := by
  unfold releaseMilestone at h
  simp only [requireAdmin_bind_eq_ok, failIf_bind_eq_ok, not_not, not_le, Bool.not_eq_true] at h
  obtain ⟨_, _, hs, hi, hm, hf, h⟩ := h
  obtain ⟨tranche, ht, hb, rfl⟩ := payTranche_eq_ok h
  exact .releaseMilestone hs (by omega) hm hf ht hb

theorem moves_distributeRevenue {admin : Addr} {revenue : Int}
    (h : distributeRevenue env w admin revenue = .ok w') :
    Moves env w (.distributeRevenue admin revenue) w' := by
  unfold distributeRevenue at h
  simp only [requireAdmin_bind_eq_ok, failIf_bind_eq_ok, not_not, not_le, Bool.not_eq_true] at h
  obtain ⟨_, _, hs, hd, hr, h⟩ := h
  obtain ⟨fee, hf, h⟩ := bind_eq_ok.mp h
  simp only [okOr_bind_eq_ok, checkedSub_eq_some] at h
  obtain ⟨_, ⟨_, rfl⟩, h⟩ := h
  obtain ⟨w₁, hp, h⟩ := bind_eq_ok.mp h
  exact .distributeRevenue hs hd hr hf hp h

theorem moves_refundInvestor {call : Call Addr} {investor : Addr}
    (hc : call.refundee = some investor)
    (hidle : w.campaign.refunded.getD investor false = true → call.Idles w.campaign)
    (h : refundInvestor env w investor = .ok w') : Moves env w call w' := by
  unfold refundInvestor at h
  rw [failIf_bind_eq_ok, not_not] at h
  obtain ⟨hcan, h⟩ := h
  obtain ⟨⟨c, claimed⟩, hcl, h⟩ := bind_eq_ok.mp h
  unfold claimRefund at hcl
  split at hcl
  · next hr =>
    simp only [pure_eq_ok, Except.ok.injEq, Prod.mk.injEq] at hcl
    obtain ⟨rfl, rfl⟩ := hcl
    obtain rfl := Except.ok.inj h
    exact .idle (hidle hr)
  · next hr =>
    rw [Bool.not_eq_true] at hr
    by_cases he : w.campaign.state.raiseEnded = true
    · simp only [if_pos he, failIf_bind_eq_ok, pure_eq_ok, ok_bind, Except.ok.injEq,
        Prod.mk.injEq, not_le] at hcl
      obtain ⟨hpos, rfl, rfl⟩ := hcl
      obtain ⟨hb, rfl⟩ := pay_eq_ok.mp h
      exact .refundEnded hc he hr hpos hb
    · simp only [if_neg he, failIf_bind_eq_ok, pure_eq_ok, ok_bind, okOr_bind_eq_ok,
        checkedSub_eq_some, Except.ok.injEq, Prod.mk.injEq, not_le] at hcl
      obtain ⟨hpos, _, ⟨_, rfl⟩, rfl, rfl⟩ := hcl
      obtain ⟨hb, rfl⟩ := pay_eq_ok.mp h
      exact .refundStake hc (Bool.not_eq_true _ ▸ he) hcan hr hpos hb

theorem moves_pause {admin : Addr} (h : pause env w admin = .ok w') :
    Moves env w (.pause admin) w' := by
  unfold pause at h
  simp only [requireAdmin_bind_eq_ok, failIf_bind_eq_ok, pure_eq_ok, Except.ok.injEq,
    Bool.not_eq_true] at h
  obtain ⟨_, _, he, rfl⟩ := h
  exact .pause he

theorem moves_unpause {admin : Addr} (h : unpause env w admin = .ok w') :
    Moves env w (.unpause admin) w' := by
  unfold unpause at h
  simp only [requireAdmin_bind_eq_ok, failIf_bind_eq_ok, pure_eq_ok, Except.ok.injEq,
    Bool.not_eq_true] at h
  obtain ⟨_, _, he, rfl⟩ := h
  exact .unpause he

theorem moves_markFailed {admin : Addr} (h : markFailed env w admin = .ok w') :
    Moves env w (.markFailed admin) w' := by
  unfold markFailed at h
  rw [requireAdmin_bind_eq_ok] at h
  obtain ⟨_, _, h⟩ := h
  split at h
  · next he =>
    obtain rfl := Except.ok.inj h
    exact .idle he
  · next he =>
    obtain ⟨⟨c', total⟩, hp, h⟩ := bind_eq_ok.mp h
    obtain rfl := Except.ok.inj h
    exact .markFailed (Bool.not_eq_true _ ▸ he) hp

theorem moves_setDisputeVotingWindow {admin : Addr} {seconds : Nat}
    (h : setDisputeVotingWindow env w admin seconds = .ok w') :
    Moves env w (.setDisputeVotingWindow admin seconds) w' := by
  unfold setDisputeVotingWindow at h
  simp only [requireAdmin_bind_eq_ok, failIf_bind_eq_ok, pure_eq_ok, Except.ok.injEq] at h
  obtain ⟨_, _, _, rfl⟩ := h
  exact .setVotingWindow

theorem moves_setArbitratorPool {admin : Addr} {pool : List Addr}
    (h : setArbitratorPool env w admin pool = .ok w') :
    Moves env w (.setArbitratorPool admin pool) w' := by
  unfold setArbitratorPool at h
  simp only [requireAdmin_bind_eq_ok, failIf_bind_eq_ok, pure_eq_ok, Except.ok.injEq, not_or,
    not_not, Bool.not_eq_true] at h
  obtain ⟨_, _, ⟨he, hs⟩, hp, rfl⟩ := h
  exact .setArbitratorPool he hs hp

theorem moves_updateArbitrator {admin newArbitrator : Addr}
    (h : updateArbitrator env w admin newArbitrator = .ok w') :
    Moves env w (.updateArbitrator admin newArbitrator) w' := by
  unfold updateArbitrator at h
  simp only [requireAdmin_bind_eq_ok, failIf_bind_eq_ok, pure_eq_ok, Except.ok.injEq, not_or,
    not_not, Bool.not_eq_true] at h
  obtain ⟨_, _, ⟨he, hs⟩, rfl⟩ := h
  exact .updateArbitrator he hs

theorem moves_raiseDispute {caller : Addr} {i : Nat}
    (h : raiseDispute env w caller i = .ok w') : Moves env w (.raiseDispute caller i) w' := by
  unfold raiseDispute at h
  simp only [requireAuth_bind_eq_ok, failIf_bind_eq_ok, okOr_bind_eq_ok, checkedAddU_eq_some,
    pure_eq_ok, Except.ok.injEq, not_not, not_le, Bool.not_eq_true] at h
  obtain ⟨_, _, _, hs, hi, hm, hf, _, ⟨_, rfl⟩, rfl⟩ := h
  exact .raiseDispute hs (by omega) hm hf rfl rfl rfl rfl rfl

theorem loadDispute_eq_ok {c : Campaign Addr} {i : Nat} {d : Dispute Addr} :
    loadDispute c i = .ok d ↔ c.disputeRecord i = some d := okOr_eq_ok

theorem moves_submitDisputeEvidence {caller : Addr} {i : Nat} {uri : String}
    (h : submitDisputeEvidence env w caller i uri = .ok w') :
    Moves env w (.submitDisputeEvidence caller i uri) w' := by
  unfold submitDisputeEvidence at h
  simp only [requireAuth_bind_eq_ok, failIf_bind_eq_ok] at h
  obtain ⟨_, _, _, _, h⟩ := h
  obtain ⟨d, hd, h⟩ := bind_eq_ok.mp h
  simp only [failIf_bind_eq_ok, pure_eq_ok, Except.ok.injEq, not_or] at h
  obtain ⟨⟨hv, hr⟩, _, rfl⟩ := h
  exact .submitEvidence (loadDispute_eq_ok.mp hd) hv hr

theorem moves_castDisputeVote {voter : Addr} {i : Nat} {release : Bool}
    (h : castDisputeVote env w voter i release = .ok w') :
    Moves env w (.castDisputeVote voter i release) w' := by
  unfold castDisputeVote at h
  simp only [requireAuth_bind_eq_ok, failIf_bind_eq_ok, not_not] at h
  obtain ⟨_, _, hp, h⟩ := h
  obtain ⟨d, hd, h⟩ := bind_eq_ok.mp h
  simp only [failIf_bind_eq_ok, not_lt, Bool.not_eq_true, Option.isSome_eq_false_iff,
    Option.isNone_iff_eq_none] at h
  obtain ⟨hn, ht, hv, h⟩ := h
  obtain ⟨d', hc, h⟩ := bind_eq_ok.mp h
  obtain rfl := Except.ok.inj h
  exact .castVote hp (loadDispute_eq_ok.mp hd) hn (by omega) hv hc

omit [LinearOrder Addr] in
theorem tallyVerdict_eq_ok {d d' : Dispute Addr} {release : Bool} (hn : d.verdict = none)
    (h : tallyVerdict env d = .ok (d', release)) :
    d.votingDeadline < env.timestamp ∧ release = d.decision ∧
      d' = { d with phase := .verdict, verdict := some d.decision } := by
  unfold tallyVerdict at h
  simp only [failIf_bind_eq_ok, pure_eq_ok, Except.ok.injEq, Prod.mk.injEq, not_le] at h
  obtain ⟨ht, rfl, rfl⟩ := h
  have hd : d.decision = decide (d.releaseVotes > d.refundVotes) := by
    unfold Dispute.decision
    rw [hn]
    rfl
  rw [hd]
  exact ⟨ht, rfl, rfl⟩

theorem moves_finalizeDispute {caller : Addr} {i : Nat} {o : DisputeOutcome}
    (h : finalizeDispute env w caller i = .ok (w', o)) :
    Moves env w (.finalizeDispute caller i) w' := by
  unfold finalizeDispute at h
  obtain ⟨_, _, h⟩ := bind_eq_ok.mp h
  obtain ⟨d, hd, h⟩ := bind_eq_ok.mp h
  rw [loadDispute_eq_ok] at hd
  split at h
  · next r hr =>
    simp only [pure_eq_ok, Except.ok.injEq, Prod.mk.injEq] at h
    obtain ⟨rfl, _⟩ := h
    exact .idle ⟨d, hd, by rw [hr]; rfl⟩
  · next hn =>
    obtain ⟨⟨d', release⟩, hv, h⟩ := bind_eq_ok.mp h
    obtain ⟨ht, rfl, rfl⟩ := tallyVerdict_eq_ok hn hv
    simp only [pure_eq_ok, Except.ok.injEq, Prod.mk.injEq] at h
    obtain ⟨rfl, _⟩ := h
    exact .finalize hd hn ht

omit [LinearOrder Addr] in
/-- The two ways `resolve_dispute` gets to a verdict leave the same resolved record. -/
theorem recordedVerdict_eq_ok {d d' : Dispute Addr} {release : Bool}
    (h : recordedVerdict env d = .ok (d', release)) :
    release = d.decision ∧ d.Decidable env ∧ (d'.phase = .resolved → d.Executed ∧ d' = d) ∧
      (d'.phase ≠ .resolved → ¬ d.Executed) ∧
      { d' with phase := .resolved } =
        { d with phase := .resolved, verdict := some d.decision } := by
  unfold recordedVerdict at h
  split at h
  · next r hr =>
    simp only [pure_eq_ok, Except.ok.injEq, Prod.mk.injEq] at h
    obtain ⟨rfl, rfl⟩ := h
    have hdec : d.decision = r := by unfold Dispute.decision; rw [hr]; rfl
    refine ⟨hdec.symm, fun hn => by simp [hr] at hn, fun hp => ⟨⟨hp, by rw [hr]; rfl⟩, rfl⟩,
      fun hp hx => hp hx.1, ?_⟩
    rw [hdec, ← hr]
  · next hn =>
    obtain ⟨ht, rfl, rfl⟩ := tallyVerdict_eq_ok hn h
    have hne : ¬ d.Executed := fun hx => by simpa [hn] using hx.2
    exact ⟨rfl, fun _ => ht, fun hp => by simp at hp, fun _ => hne, rfl⟩

theorem outcomeOf_eq_release {release : Bool} : outcomeOf release = .release ↔ release = true := by
  cases release <;> simp [outcomeOf]

theorem outcomeOf_eq_refund {release : Bool} : outcomeOf release = .refund ↔ release = false := by
  cases release <;> simp [outcomeOf]

theorem moves_resolveDispute {caller : Addr} {i : Nat} {o : DisputeOutcome}
    (h : resolveDispute env w caller i = .ok (w', o)) :
    Moves env w (.resolveDispute caller i) w' := by
  unfold resolveDispute at h
  obtain ⟨_, _, h⟩ := bind_eq_ok.mp h
  rw [failIf_bind_eq_ok] at h
  obtain ⟨_, h⟩ := h
  obtain ⟨d, hd, h⟩ := bind_eq_ok.mp h
  rw [loadDispute_eq_ok] at hd
  obtain ⟨⟨d', release⟩, hv, h⟩ := bind_eq_ok.mp h
  obtain ⟨rfl, hdec, hres, hnot, hrec⟩ := recordedVerdict_eq_ok hv
  dsimp only at h
  by_cases hp : d'.phase = .resolved
  · simp only [if_pos hp, pure_eq_ok, Except.ok.injEq, Prod.mk.injEq] at h
    obtain ⟨rfl, _⟩ := h
    exact .idle ⟨d, hd, (hres hp).1⟩
  · rw [if_neg hp, hrec] at h
    cases ho : outcomeOf d.decision with
    | release =>
      simp only [ho] at h
      obtain ⟨w₁, hpay, h⟩ := bind_eq_ok.mp h
      simp only [pure_eq_ok, Except.ok.injEq, Prod.mk.injEq] at h
      obtain ⟨rfl, _⟩ := h
      obtain ⟨tranche, ht, hb, rfl⟩ := payTranche_eq_ok hpay
      exact .resolveRelease hd (hnot hp) hdec (outcomeOf_eq_release.mp ho) ht hb
    | refund =>
      simp only [ho] at h
      obtain ⟨⟨c', total⟩, ha, h⟩ := bind_eq_ok.mp h
      simp only [pure_eq_ok, Except.ok.injEq, Prod.mk.injEq] at h
      obtain ⟨rfl, _⟩ := h
      exact .resolveRefund hd (hnot hp) hdec (outcomeOf_eq_refund.mp ho) ha

theorem initializeInternal_some_ne_ok {c c' : Campaign Addr}
    {admin farmer arbitrator usdcToken : Addr} {fundingTarget maxFunding : Int} {deadline : Nat}
    {terms : CampaignTerms} {metadata : CampaignMetadata} :
    initializeInternal env (some c) admin farmer arbitrator usdcToken fundingTarget maxFunding
      deadline terms metadata ≠ .ok c' := by
  intro h
  unfold initializeInternal at h
  rw [failIf_bind_eq_ok] at h
  exact h.1 rfl

theorem moves_of_dispatch {call : Call Addr} (h : dispatch env w call = .ok w') :
    Moves env w call w' := by
  cases call with
  | initializeContract =>
    obtain ⟨_, hi, _⟩ := bind_eq_ok.mp h
    exact absurd hi initializeInternal_some_ne_ok
  | initializeWithMaxFunding =>
    obtain ⟨_, hi, _⟩ := bind_eq_ok.mp h
    exact absurd hi initializeInternal_some_ne_ok
  | setMaxFunding => exact moves_setMaxFunding h
  | invest => exact moves_invest h
  | earlyClose => exact moves_earlyClose h
  | approve => exact moves_approve h
  | partialReleaseMilestone => exact moves_partialRelease h
  | releaseMilestone => exact moves_releaseMilestone h
  | distributeRevenue => exact moves_distributeRevenue h
  | refund investor =>
    obtain ⟨_, _, h⟩ := requireAuth_bind_eq_ok.mp h
    exact moves_refundInvestor rfl id h
  | refundByAdmin admin investor =>
    obtain ⟨_, _, h⟩ := requireAdmin_bind_eq_ok.mp h
    exact moves_refundInvestor rfl id h
  | pause => exact moves_pause h
  | unpause => exact moves_unpause h
  | markFailed => exact moves_markFailed h
  | setDisputeVotingWindow => exact moves_setDisputeVotingWindow h
  | setArbitratorPool => exact moves_setArbitratorPool h
  | raiseDispute => exact moves_raiseDispute h
  | submitDisputeEvidence => exact moves_submitDisputeEvidence h
  | castDisputeVote => exact moves_castDisputeVote h
  | finalizeDispute =>
    obtain ⟨⟨_, o⟩, hf, h⟩ := bind_eq_ok.mp h
    obtain rfl := Except.ok.inj h
    exact moves_finalizeDispute hf
  | resolveDispute =>
    obtain ⟨⟨_, o⟩, hf, h⟩ := bind_eq_ok.mp h
    obtain rfl := Except.ok.inj h
    exact moves_resolveDispute hf
  | updateArbitrator => exact moves_updateArbitrator h
  | view =>
    obtain rfl := Except.ok.inj h
    exact .idle trivial

theorem callStep_eq_some {inv : Invocation Addr} :
    callStep w inv = some w' ↔
      w.now ≤ inv.env.timestamp ∧ dispatch inv.env (w.enter inv.env) inv.call = .ok w' := by
  unfold callStep
  split
  · simp; omega
  · cases dispatch inv.env (w.enter inv.env) inv.call with
    | ok a => simp; omega
    | error e => simp

/-- Every step of a run is a move of the world its call entered. -/
theorem moves_of_step {inv : Invocation Addr} (h : callStep w inv = some w') :
    w.now ≤ inv.env.timestamp ∧ Moves inv.env (w.enter inv.env) inv.call w' := by
  obtain ⟨hn, hd⟩ := callStep_eq_some.mp h
  exact ⟨hn, moves_of_dispatch hd⟩

/-- The three ways a refund call succeeds. -/
theorem moves_refund_cases {call : Call Addr} {investor : Addr} (h : Moves env w call w')
    (hc : call.refundee = some investor) :
    (w.campaign.refunded.getD investor false = true ∧ w' = w) ∨
    (w.campaign.refunded.getD investor false = false ∧ w.campaign.state.raiseEnded = true ∧
      0 < w.campaign.refundableInvestments.getD investor 0 ∧
      w' = World.paid { w with campaign := w.campaign.entitlementClaimed investor } investor
        (w.campaign.refundableInvestments.getD investor 0)) ∨
    (w.campaign.refunded.getD investor false = false ∧ w.campaign.state.raiseEnded = false ∧
      canRefund env w.campaign ∧ 0 < w.campaign.investments.getD investor 0 ∧
      w' = World.paid { w with campaign := w.campaign.stakeClaimed investor } investor
        (w.campaign.investments.getD investor 0)) := by
  cases h with
  | idle hi =>
    cases call with
    | refund => obtain rfl := Option.some.inj hc; exact .inl ⟨hi, rfl⟩
    | refundByAdmin => obtain rfl := Option.some.inj hc; exact .inl ⟨hi, rfl⟩
    | _ => simp [Call.refundee] at hc
  | refundEnded hc' he hn hpos hle =>
    obtain rfl := Option.some.inj (hc'.symm.trans hc)
    exact .inr (.inl ⟨hn, he, hpos, rfl⟩)
  | refundStake hc' he hcan hn hpos hle =>
    obtain rfl := Option.some.inj (hc'.symm.trans hc)
    exact .inr (.inr ⟨hn, he, hcan, hpos, rfl⟩)
  | _ => simp [Call.refundee] at hc

/-! ## The state a run starts from -/

/-- What `initialize` writes and the checks it made. -/
structure Fresh (w : World Addr) : Prop where
  usdc_eq : w.usdc = 0
  now_lt : w.now < w.campaign.config.deadline
  target_pos : 0 < w.campaign.config.fundingTarget
  target_le : w.campaign.config.fundingTarget ≤ w.campaign.config.maxFunding
  fee_le : w.campaign.config.platformFeeBps ≤ 10000
  campaign_eq : w.campaign = .initial w.campaign.config

theorem Initialized.fresh (h : Initialized w) : Fresh w := by
  obtain ⟨env, admin, farmer, arbitrator, usdcToken, fundingTarget, maxFunding, deadline, terms,
    metadata, c, hc, hw⟩ := h
  unfold initializeInternal at hc
  simp only [failIf_bind_eq_ok, pure_eq_ok, Except.ok.injEq, not_or, not_le, not_lt] at hc
  obtain ⟨_, ⟨htarget, _, hmax⟩, hd, hfee, _, rfl⟩ := hc
  rw [hw]
  exact ⟨rfl, hd, htarget, hmax, hfee, rfl⟩

end AgriFi.FarmCampaign
