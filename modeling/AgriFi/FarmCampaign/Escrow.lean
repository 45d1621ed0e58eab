import AgriFi.FarmCampaign.Moves
import AgriFi.FarmCampaign.Payouts

/-
  The money of a campaign as a machine of its own. `Escrow` is what a world holds of it: two
  ledgers, the running totals and the USDC. An `Effect` is what a call does to the money,
  `EscrowStep` the eight ways it can go, and `escrowStep_of_moves` shows that every successful
  call of the contract takes the step of its effect. `Balanced` is the bookkeeping invariant:
  the investments are not negative, sum to `total_raised` and stay within `max_funding`
  (`reachable_conserves`). Results on money over whole runs go through `run_escrow`.
-/

namespace AgriFi.FarmCampaign

open AgriFi.Soroban AgriFi.Runs

variable {Addr : Type} [LinearOrder Addr]

/-! ## The money view -/

structure Escrow (Addr : Type) [LinearOrder Addr] where
  contract : Addr
  config : Config Addr
  totalRaised : Int
  totalReleased : Int
  raiseEnded : Bool
  distributed : Bool
  investments : HostMap Addr Int
  refundableInvestments : HostMap Addr Int
  refunded : HostMap Addr Bool
  usdc : Int

def World.escrow (w : World Addr) : Escrow Addr where
  contract := w.contract
  config := w.campaign.config
  totalRaised := w.campaign.state.totalRaised
  totalReleased := w.campaign.state.totalReleased
  raiseEnded := w.campaign.state.raiseEnded
  distributed := w.campaign.distributed
  investments := w.campaign.investments
  refundableInvestments := w.campaign.refundableInvestments
  refunded := w.campaign.refunded
  usdc := w.usdc

/-- The entitlements not paid yet: `RefundableInvestments` over investors not marked refunded. -/
def Escrow.outstanding (e : Escrow Addr) : Int :=
  HostMap.unclaimed e.refundableInvestments e.refunded

/-- The balance after a transfer to `dst`. -/
def Escrow.balanceAfter (e : Escrow Addr) (dst : Addr) (amount : Int) : Int :=
  if dst = e.contract then e.usdc else e.usdc - amount

/-- What a call does to the money. -/
inductive Effect (Addr : Type) where
  | none
  | setCap (maxFunding : Int)
  | deposit (investor : Addr) (amount : Int)
  /-- Principal goes to the farmer. -/
  | payout (amount : Int)
  | distribute (revenue : Int)
  /-- `apply_proportional_refund` with this retained target. -/
  | split (target : Int)
  /-- An entitlement is paid. -/
  | claim (investor : Addr)
  /-- A whole stake is paid back. -/
  | withdraw (investor : Addr)

/-- A refund call pays the entitlement once the raise ended, and the stake before. -/
def Campaign.refundEffect (c : Campaign Addr) (investor : Addr) : Effect Addr :=
  if c.refunded.getD investor false = true then .none
  else if c.state.raiseEnded = true then .claim investor
  else .withdraw investor

/-- A verdict that is executed pays the tranche or splits the escrow. -/
def Campaign.verdictEffect (c : Campaign Addr) (i : Nat) : Effect Addr :=
  match c.disputeRecord i with
  | none => .none
  | some d =>
    if d.Executed then .none
    else if d.decision = true then .payout (c.config.tranche c.state.totalRaised)
    else .split c.state.totalReleased

def Call.effect (c : Campaign Addr) : Call Addr → Effect Addr
  | .setMaxFunding _ maxFunding => .setCap maxFunding
  | .invest investor amount => .deposit investor amount
  | .earlyClose _ _ =>
    if c.state.raiseEnded = true then .none else .split c.config.fundingTarget
  | .partialReleaseMilestone _ amountBps => .payout (prorata c.state.totalRaised amountBps 10000)
  | .releaseMilestone _ _ => .payout (c.config.tranche c.state.totalRaised)
  | .distributeRevenue _ revenue => .distribute revenue
  | .refund investor => c.refundEffect investor
  | .refundByAdmin _ investor => c.refundEffect investor
  | .markFailed _ =>
    if c.state.raiseEnded = true then .none else .split c.state.totalReleased
  | .resolveDispute _ i => c.verdictEffect i
  | _ => .none

inductive EscrowStep (e : Escrow Addr) : Effect Addr → Escrow Addr → Prop
  | none : EscrowStep e .none e
  | setCap {maxFunding : Int} :
      e.config.fundingTarget ≤ maxFunding → e.totalRaised ≤ maxFunding →
      EscrowStep e (.setCap maxFunding) { e with config.maxFunding := maxFunding }
  | deposit {investor : Addr} {amount : Int} :
      investor ≠ e.contract → e.raiseEnded = false → 0 < amount →
      e.totalRaised + amount ≤ e.config.maxFunding →
      EscrowStep e (.deposit investor amount)
        { e with
          investments := e.investments.set investor (e.investments.getD investor 0 + amount)
          totalRaised := e.totalRaised + amount
          usdc := e.usdc + amount }
  | payout {amount : Int} :
      0 ≤ amount → amount ≤ e.usdc →
      EscrowStep e (.payout amount)
        { e with
          totalReleased := e.totalReleased + amount
          usdc := e.balanceAfter e.config.farmer amount }
  | distribute {revenue usdc : Int} :
      e.distributed = false → 0 < revenue → e.usdc - revenue ≤ usdc → 0 ≤ usdc →
      EscrowStep e (.distribute revenue) { e with distributed := true, usdc := usdc }
  | split {target total : Int} {retained refundable : HostMap Addr Int} :
      ProportionalSplit e.totalRaised target e.investments retained refundable total →
      EscrowStep e (.split target)
        { e with
          totalRaised := e.totalRaised - total
          raiseEnded := true
          investments := retained
          refundableInvestments := refundable }
  | claim {investor : Addr} :
      e.raiseEnded = true → e.refunded.getD investor false = false →
      0 < e.refundableInvestments.getD investor 0 →
      e.refundableInvestments.getD investor 0 ≤ e.usdc →
      EscrowStep e (.claim investor)
        { e with
          refundableInvestments := e.refundableInvestments.set investor 0
          refunded := e.refunded.set investor true
          usdc := e.balanceAfter investor (e.refundableInvestments.getD investor 0) }
  | withdraw {investor : Addr} :
      e.raiseEnded = false → e.refunded.getD investor false = false →
      0 < e.investments.getD investor 0 → e.investments.getD investor 0 ≤ e.usdc →
      EscrowStep e (.withdraw investor)
        { e with
          investments := e.investments.set investor 0
          totalRaised := e.totalRaised - e.investments.getD investor 0
          refunded := e.refunded.set investor true
          usdc := e.balanceAfter investor (e.investments.getD investor 0) }

theorem le_balanceAfter (e : Escrow Addr) (dst : Addr) {amount : Int} (h : 0 ≤ amount) :
    e.usdc - amount ≤ e.balanceAfter dst amount := by
  unfold Escrow.balanceAfter
  split <;> omega

theorem balanceAfter_nonneg {e : Escrow Addr} (dst : Addr) {amount : Int} (h : 0 ≤ amount)
    (hb : amount ≤ e.usdc) : 0 ≤ e.balanceAfter dst amount := by
  have := le_balanceAfter e dst h
  omega

/-! ## Every call takes the step of its effect -/

/-- The bookkeeping invariant. -/
structure Escrow.Balanced (e : Escrow Addr) : Prop where
  target_pos : 0 < e.config.fundingTarget
  fee_le : e.config.platformFeeBps ≤ 10000
  investments_nonneg : e.investments.Nonneg
  investments_total : e.investments.total = e.totalRaised
  raised_le : e.totalRaised ≤ e.config.maxFunding
  released_nonneg : 0 ≤ e.totalReleased
  refundable_nonneg : e.refundableInvestments.Nonneg
  usdc_nonneg : 0 ≤ e.usdc
  owes_nothing_before_end : e.raiseEnded = false → e.refundableInvestments = .empty
  self_invests_nothing : e.investments.getD e.contract 0 = 0
  self_owed_nothing : e.refundableInvestments.getD e.contract 0 = 0

theorem Escrow.Balanced.raised_nonneg {e : Escrow Addr} (h : e.Balanced) : 0 ≤ e.totalRaised := by
  rw [← h.investments_total]
  exact h.investments_nonneg.total_nonneg

variable {env : Env Addr} {w w' : World Addr} {call : Call Addr}

theorem effect_of_idles (h : call.Idles w.campaign) : call.effect w.campaign = .none := by
  cases call with
  | earlyClose => exact if_pos h
  | markFailed => exact if_pos h
  | refund => exact if_pos h
  | refundByAdmin => exact if_pos h
  | resolveDispute _ i =>
    obtain ⟨d, hd, hx⟩ := h
    simp [Call.effect, Campaign.verdictEffect, hd, hx]
  | finalizeDispute => rfl
  | view => rfl
  | _ => exact absurd h id

theorem effect_of_refundee {investor : Addr} (h : call.refundee = some investor) :
    call.effect w.campaign = w.campaign.refundEffect investor := by
  cases call with
  | refund => obtain rfl := Option.some.inj h; rfl
  | refundByAdmin => obtain rfl := Option.some.inj h; rfl
  | _ => simp [Call.refundee] at h

theorem escrowStep_of_split {c c' : Campaign Addr} {target total : Int} (hb : w.escrow.Balanced)
    (ht : 0 ≤ target) (h : applyProportionalRefund c target = .ok (c', total))
    (hi : c.investments = w.campaign.investments)
    (hr : c.state.totalRaised = w.campaign.state.totalRaised) :
    ∃ retained refundable, c' = c.split retained refundable total ∧
      EscrowStep w.escrow (.split target)
        { w.escrow with
          totalRaised := w.escrow.totalRaised - total
          raiseEnded := true
          investments := retained
          refundableInvestments := refundable } := by
  obtain ⟨retained, refundable, hc, hs⟩ :=
    applyProportionalRefund_split ht (hi ▸ hb.investments_nonneg) h
  rw [hi, hr] at hs
  exact ⟨retained, refundable, hc, .split hs⟩

/-- The escrow machine simulates the contract. -/
theorem escrowStep_of_moves (hb : w.escrow.Balanced) (h : Moves env w call w') :
    EscrowStep w.escrow (call.effect w.campaign) w'.escrow := by
  have hraised : 0 ≤ w.campaign.state.totalRaised := hb.raised_nonneg
  have htranche := tranche_nonneg hb.fee_le hraised
  cases h with
  | idle hi =>
    rw [effect_of_idles hi]
    exact .none
  | setMaxFunding he hs ht hr => exact .setCap ht hr
  | invest hi he hs ha hd hr =>
    have hstep := EscrowStep.deposit (e := w.escrow) hi he ha hr
    rwa [show w.escrow.usdc = w.usdc from rfl, ← collected_usdc_of_ne hi] at hstep
  | earlyClose he hs hp =>
    obtain ⟨retained, refundable, rfl, hstep⟩ :=
      escrowStep_of_split hb hb.target_pos.le hp rfl rfl
    rw [Call.effect, if_neg (by simp [he])]
    exact hstep
  | approve hs => exact .none
  | partialRelease hs ha hpos hle =>
    obtain ⟨rfl, -⟩ := partialReleaseAmount_eq ha
    exact .payout hpos.le hle
  | releaseMilestone hs hi hm hf ht hle =>
    obtain rfl := trancheAmount_eq ht
    exact .payout htranche hle
  | distributeRevenue hs hd hr hf hp hfee =>
    have hspend := distributeRevenue_spends hb.fee_le hr.le hb.investments_nonneg
      hb.investments_total hf hp hfee
    have hstep := EscrowStep.distribute (e := w.escrow) hd hr hspend.bounded
      (hspend.nonneg hb.usdc_nonneg)
    have hframe := distribution_onlyTransfers hp hfee
    unfold World.escrow at hstep ⊢
    rw [hframe.campaign_eq, hframe.contract_eq]
    exact hstep
  | refundEnded hc he hn hpos hle =>
    rw [effect_of_refundee hc, Campaign.refundEffect, hn, he]
    exact .claim he hn hpos hle
  | refundStake hc he hcan hn hpos hle =>
    rw [effect_of_refundee hc, Campaign.refundEffect, hn, he]
    exact .withdraw he hn hpos hle
  | pause he => exact .none
  | unpause he => exact .none
  | markFailed he hp =>
    obtain ⟨retained, refundable, rfl, hstep⟩ :=
      escrowStep_of_split hb hb.released_nonneg hp rfl rfl
    rw [Call.effect, if_neg (by simp [he])]
    exact hstep
  | setVotingWindow => exact .none
  | setArbitratorPool he hs hp => exact .none
  | updateArbitrator he hs => exact .none
  | raiseDispute => exact .none
  | submitEvidence => exact .none
  | castVote => exact .none
  | finalize => exact .none
  | resolveRelease hd hx hdec hr ht hle =>
    obtain rfl := trancheAmount_eq ht
    rw [Call.effect, Campaign.verdictEffect, hd]
    simp only [if_neg hx, if_pos hr]
    exact .payout htranche hle
  | resolveRefund hd hx hdec hr hp =>
    obtain ⟨retained, refundable, rfl, hstep⟩ :=
      escrowStep_of_split hb hb.released_nonneg hp rfl rfl
    rw [Call.effect, Campaign.verdictEffect, hd]
    simp only [if_neg hx, hr]
    exact hstep

/-! ## Bookkeeping -/

theorem Escrow.Balanced.step {e e' : Escrow Addr} {eff : Effect Addr} (hb : e.Balanced)
    (h : EscrowStep e eff e') : e'.Balanced := by
  have hraised := hb.raised_nonneg
  have husdc := hb.usdc_nonneg
  cases h with
  | none => exact hb
  | setCap ht hr => exact { hb with raised_le := hr }
  | @deposit investor amount hi he ha hr =>
    have hold := hb.investments_nonneg investor
    exact { hb with
      investments_nonneg := hb.investments_nonneg.set (by omega)
      investments_total := by
        have := hb.investments_total
        rw [HostMap.total_set]
        dsimp only
        omega
      raised_le := hr
      usdc_nonneg := by dsimp only; omega
      self_invests_nothing := by
        rw [HostMap.getD_set_ne _ hi]
        exact hb.self_invests_nothing }
  | payout ha hle =>
    exact { hb with
      released_nonneg := by have := hb.released_nonneg; dsimp only; omega
      usdc_nonneg := balanceAfter_nonneg _ ha hle }
  | distribute hd hr hle hnn => exact { hb with usdc_nonneg := hnn }
  | split hs =>
    have hsum := refundableSum_bounds hs.target_nonneg hraised
    rw [← hs.total_eq] at hsum
    exact { hb with
      investments_nonneg := hs.retained_nonneg
      investments_total := by rw [hs.retained_total, hb.investments_total]
      raised_le := by have := hb.raised_le; dsimp only; omega
      refundable_nonneg := hs.refundable_nonneg
      owes_nothing_before_end := fun h => absurd h (by simp)
      self_invests_nothing := by
        have hcut := hs.cut e.contract
        have h1 := hs.refundable_nonneg e.contract
        have h2 := hs.retained_nonneg e.contract
        rw [hb.self_invests_nothing] at hcut
        dsimp only
        omega
      self_owed_nothing := by
        have hcut := hs.cut e.contract
        have h1 := hs.refundable_nonneg e.contract
        have h2 := hs.retained_nonneg e.contract
        rw [hb.self_invests_nothing] at hcut
        dsimp only
        omega }
  | claim he hn hpos hle =>
    exact { hb with
      refundable_nonneg := hb.refundable_nonneg.set le_rfl
      usdc_nonneg := balanceAfter_nonneg _ hpos.le hle
      owes_nothing_before_end := fun h => absurd (h.symm.trans he) (by simp)
      self_owed_nothing := by
        rw [HostMap.getD_set]
        split
        · rfl
        · exact hb.self_owed_nothing }
  | withdraw he hn hpos hle =>
    exact { hb with
      investments_nonneg := hb.investments_nonneg.set le_rfl
      investments_total := by
        have := hb.investments_total
        rw [HostMap.total_set]
        dsimp only
        omega
      raised_le := by have := hb.raised_le; dsimp only; omega
      usdc_nonneg := balanceAfter_nonneg _ hpos.le hle
      self_invests_nothing := by
        rw [HostMap.getD_set]
        split
        · rfl
        · exact hb.self_invests_nothing }

/-- The escrow a run starts with. -/
def Escrow.initial (contract : Addr) (config : Config Addr) : Escrow Addr where
  contract
  config
  totalRaised := 0
  totalReleased := 0
  raiseEnded := false
  distributed := false
  investments := .empty
  refundableInvestments := .empty
  refunded := .empty
  usdc := 0

theorem Fresh.escrow_eq (h : Fresh w) : w.escrow = .initial w.contract w.campaign.config := by
  unfold World.escrow
  rw [h.campaign_eq, h.usdc_eq]
  rfl

theorem Fresh.balanced (h : Fresh w) : w.escrow.Balanced := by
  rw [h.escrow_eq]
  exact {
    target_pos := h.target_pos
    fee_le := h.fee_le
    investments_nonneg := fun _ => le_rfl
    investments_total := rfl
    raised_le := h.target_pos.le.trans h.target_le
    released_nonneg := le_rfl
    refundable_nonneg := fun _ => le_rfl
    usdc_nonneg := le_rfl
    owes_nothing_before_end := fun _ => rfl
    self_invests_nothing := rfl
    self_owed_nothing := rfl }

/-- A successful call takes the escrow step of its effect, and keeps the books balanced. -/
theorem escrowStep_of_callStep {inv : Invocation Addr} (hb : w.escrow.Balanced)
    (h : callStep w inv = some w') :
    EscrowStep w.escrow (inv.call.effect w.campaign) w'.escrow ∧ w'.escrow.Balanced := by
  obtain ⟨_, hm⟩ := moves_of_step h
  have hstep := escrowStep_of_moves (w := w.enter inv.env) hb hm
  exact ⟨hstep, hb.step hstep⟩

theorem verdictEffect_ne_refund (c : Campaign Addr) (i : Nat) (investor : Addr) :
    c.verdictEffect i ≠ .claim investor ∧ c.verdictEffect i ≠ .withdraw investor := by
  unfold Campaign.verdictEffect
  split
  · simp
  · split
    · simp
    · split <;> simp

theorem refundEffect_eq {c : Campaign Addr} {i investor : Addr}
    (h : c.refundEffect i = .claim investor ∨ c.refundEffect i = .withdraw investor) :
    i = investor ∧ c.refunded.getD investor false = false := by
  unfold Campaign.refundEffect at h
  split at h
  · simp at h
  · next hn =>
    rw [Bool.not_eq_true] at hn
    split at h <;> simp at h <;> exact ⟨h, h ▸ hn⟩

/-- Money is paid out of the ledgers only to the investor a refund call is for. -/
theorem refundee_of_effect {c : Campaign Addr} {investor : Addr}
    (h : call.effect c = .claim investor ∨ call.effect c = .withdraw investor) :
    call.refundee = some investor ∧ c.refunded.getD investor false = false := by
  cases call with
  | refund i => obtain ⟨rfl, hn⟩ := refundEffect_eq h; exact ⟨rfl, hn⟩
  | refundByAdmin _ i => obtain ⟨rfl, hn⟩ := refundEffect_eq h; exact ⟨rfl, hn⟩
  | earlyClose => simp only [Call.effect] at h; split at h <;> simp at h
  | markFailed => simp only [Call.effect] at h; split at h <;> simp at h
  | resolveDispute _ i =>
    have hne := verdictEffect_ne_refund c i investor
    exact absurd h (not_or.mpr hne)
  | _ => simp [Call.effect] at h

/-- A claim or a withdrawal is a refund call that transfers something. -/
theorem pays_of_effect {inv : Invocation Addr} {investor : Addr} (hs : callStep w inv = some w')
    (h : inv.call.effect w.campaign = .claim investor ∨
      inv.call.effect w.campaign = .withdraw investor) :
    inv.call.refundee = some investor ∧ w'.transfers ≠ [] := by
  obtain ⟨hc, hopen⟩ := refundee_of_effect h
  obtain ⟨_, hm⟩ := moves_of_step hs
  refine ⟨hc, ?_⟩
  rcases moves_refund_cases hm hc with ⟨hdone, _⟩ | ⟨_, _, _, hpost⟩ | ⟨_, _, _, _, hpost⟩
  · exact absurd (hopen.symm.trans hdone) (by simp)
  · rw [hpost]; simp
  · rw [hpost]; simp

theorem Reachable.balanced (h : Reachable w) : w.escrow.Balanced := by
  obtain ⟨w₀, hinit, hr⟩ := h
  exact hr.invariant (fun w => w.escrow.Balanced) hinit.fresh.balanced
    fun u a u' hs hb => (escrowStep_of_callStep hb hs).2

/-- A property of the money holds along a run if it holds at the start and each effect of the
    run keeps it on balanced books. -/
theorem run_escrow {w₀ w : World Addr} {xs : List (CallStep Addr)} (hr : CallRun w₀ xs w)
    (hb : w₀.escrow.Balanced) (I : Escrow Addr → Prop) (h0 : I w₀.escrow)
    (hstep : ∀ x ∈ xs, callStep x.pre x.act = some x.post → x.pre.escrow.Balanced →
      EscrowStep x.pre.escrow (x.act.call.effect x.pre.campaign) x.post.escrow →
      I x.pre.escrow → I x.post.escrow) :
    I w.escrow := by
  refine (hr.invariant (fun w => w.escrow.Balanced ∧ I w.escrow) ⟨hb, h0⟩ ?_).2
  intro x hx hs hi
  obtain ⟨hstep', hb'⟩ := escrowStep_of_callStep hi.1 hs
  exact ⟨hb', hstep x hx hs hi.1 hstep' hi.2⟩

/-- The investment ledger of a campaign: no entry is negative, the entries sum to
    `total_raised`, and `total_raised` stays within `max_funding`. -/
def Campaign.Conserves (c : Campaign Addr) : Prop :=
  (∀ i v, c.investments.get? i = some v → 0 ≤ v) ∧
    c.investments.total = c.state.totalRaised ∧ c.state.totalRaised ≤ c.config.maxFunding

theorem reachable_conserves (h : Reachable w) : w.campaign.Conserves :=
  ⟨fun _ _ hv => h.balanced.investments_nonneg.of_get? hv, h.balanced.investments_total,
    h.balanced.raised_le⟩

theorem reachable_conserves_sample :
    let r := sampleRun [(1, .invest 10 6000), (2, .invest 11 7000), (3, .earlyClose 0 "full")]
    r.2.campaign.Conserves :=
  reachable_conserves (sampleRun_reachable _)

end AgriFi.FarmCampaign
