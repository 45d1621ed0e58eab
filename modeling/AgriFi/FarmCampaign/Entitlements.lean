import AgriFi.FarmCampaign.Escrow
import AgriFi.FarmCampaign.Lifecycle

/-
  The entitlements of investors once the raise has ended: they are to stay until paid, and to be
  payable. A Refund verdict rebuilds the whole refund map, also when the raise has ended before,
  and can make an entitlement smaller (`entitlement_shrinks`) or give one to an investor whose
  refund was paid and who stays marked (`entitlement_stuck`). `Effect.Keeps` and
  `Effect.SparesMarked` are the conditions on such a verdict under which entitlements last
  (`entitlement_kept`) and are claimable (`entitlements_claimable`).
-/

namespace AgriFi.FarmCampaign

open AgriFi.Soroban AgriFi.Runs

variable {Addr : Type} [LinearOrder Addr]

/-! ## Entitlements last -/

/-- The step is a refund call for `investor` that paid. -/
def PaysRefundTo (investor : Addr) (x : CallStep Addr) : Prop :=
  x.act.call.refundee = some investor ∧ x.post.transfers ≠ []

instance (investor : Addr) (x : CallStep Addr) : Decidable (PaysRefundTo investor x) :=
  inferInstanceAs (Decidable (_ ∧ _))

/-- After the raise ended, a step that pays `investor` no refund leaves him his entitlement. -/
def KeepsEntitlement (investor : Addr) (x : CallStep Addr) : Prop :=
  x.pre.campaign.state.raiseEnded = true → ¬ PaysRefundTo investor x →
    getRefundableAmount x.pre.campaign investor ≤ getRefundableAmount x.post.campaign investor

instance (investor : Addr) (x : CallStep Addr) : Decidable (KeepsEntitlement investor x) :=
  inferInstanceAs (Decidable (_ → _))

/-- A close with a surplus leaves entitlements of 1385 and 1615; the Refund verdict after a
    release of 98% replaces them by what is left to refund, 93 and 107. -/
def overwrittenCalls : List (Nat × Call Nat) :=
  [(1, .invest 10 6000), (2, .invest 11 7000), (3, .earlyClose 0 "full"), (4, .approve 0),
    (5, .raiseDispute 10 0), (6, .castDisputeVote 2 0 false),
    (7, .partialReleaseMilestone 1 9800), (8, .resolveDispute 2 0)]

theorem entitlement_shrinks :
    ¬ ∀ (w₀ w : World Nat) (xs : List (CallStep Nat)), Initialized w₀ → CallRun w₀ xs w →
      ∀ investor, ∀ x ∈ xs, KeepsEntitlement investor x := by
  intro h
  have hkeeps := h _ _ _ sampleWorld_initialized (sampleRun_run overwrittenCalls) 10
  exact absurd hkeeps (by decide +kernel)

/-- A split made after the raise ended gives `investor` a share no smaller than his entitlement. -/
def Effect.Keeps (e : Escrow Addr) (investor : Addr) : Effect Addr → Prop
  | .split target => e.raiseEnded = true →
    e.refundableInvestments.getD investor 0 ≤
      share e.totalRaised target (e.investments.getD investor 0)
  | _ => True

instance (e : Escrow Addr) (investor : Addr) (eff : Effect Addr) :
    Decidable (eff.Keeps e investor) :=
  match eff with
  | .split _ => inferInstanceAs (Decidable (_ → _))
  | .none | .setCap _ | .deposit .. | .payout _ | .distribute _ | .claim _ | .withdraw _ =>
    isTrue trivial

variable {env : Env Addr} {w w' w₀ : World Addr} {call : Call Addr} {xs : List (CallStep Addr)}

theorem entitlement_step {e e' : Escrow Addr} {eff : Effect Addr} {investor : Addr}
    (he : e.raiseEnded = true) (hk : eff.Keeps e investor) (hn : eff ≠ .claim investor)
    (h : EscrowStep e eff e') :
    e'.raiseEnded = true ∧
      e.refundableInvestments.getD investor 0 ≤ e'.refundableInvestments.getD investor 0 := by
  cases h with
  | split hs => exact ⟨rfl, (hk he).trans (hs.share_le investor)⟩
  | @claim other =>
    have hne : other ≠ investor := fun h => hn (h ▸ rfl)
    dsimp only
    rw [HostMap.getD_set_ne _ hne]
    exact ⟨he, le_rfl⟩
  | _ => exact ⟨he, le_rfl⟩

/-- An entitlement of a reachable campaign is not smaller later on, while `investor` is paid no
    refund and every split gives him at least his entitlement. -/
theorem entitlement_kept {investor : Addr} (hw : Reachable w)
    (he : w.campaign.state.raiseEnded = true) (hr : CallRun w xs w')
    (hunpaid : ∀ x ∈ xs, ¬ PaysRefundTo investor x)
    (hk : ∀ x ∈ xs, (x.act.call.effect x.pre.campaign).Keeps x.pre.escrow investor) :
    getRefundableAmount w.campaign investor ≤ getRefundableAmount w'.campaign investor := by
  have hrun := run_escrow hr hw.balanced
    (fun e => e.raiseEnded = true ∧
      getRefundableAmount w.campaign investor ≤ e.refundableInvestments.getD investor 0)
    ⟨he, le_rfl⟩ fun x hx hs _ hstep hI => by
      have hclaim : x.act.call.effect x.pre.campaign ≠ .claim investor := fun heff =>
        hunpaid x hx (pays_of_effect hs (.inl heff))
      obtain ⟨hended, hle⟩ := entitlement_step hI.1 (hk x hx) hclaim hstep
      exact ⟨hended, hI.2.trans hle⟩
  exact hrun.2

theorem entitlement_kept_sample :
    let w := (sampleRun [(1, .invest 10 6000), (2, .invest 11 7000), (3, .earlyClose 0 "full")]).2
    let r := sampleFrom w [(4, .approve 0), (5, .refund 11), (6, .raiseDispute 10 0),
      (7, .castDisputeVote 2 0 false), (8, .resolveDispute 2 0)]
    getRefundableAmount w.campaign 10 ≤ getRefundableAmount r.2.campaign 10 :=
  entitlement_kept (sampleRun_reachable _) (by decide +kernel) (sampleFrom_run _ _)
    (by decide +kernel) (by decide +kernel)

/-! ## Investors marked refunded -/

/-- A mark given before the raise ended: the stake is gone, and so is the time to invest. -/
def MarksSpent (w : World Addr) : Prop :=
  w.campaign.state.raiseEnded = false → ∀ investor,
    w.campaign.refunded.getD investor false = true →
      w.campaign.investments.getD investor 0 = 0 ∧ w.campaign.config.deadline < w.now

theorem MarksSpent.enter (h : MarksSpent w) (hn : w.now ≤ env.timestamp) :
    MarksSpent (w.enter env) := by
  intro he investor hm
  obtain ⟨h0, hd⟩ := h he investor hm
  exact ⟨h0, hd.trans_le hn⟩

/-- Before the raise ended a refund of a stake waits for the deadline. -/
theorem deadline_of_canRefund {c : Campaign Addr} (h : canRefund env c)
    (he : c.state.raiseEnded = false) (hf : c.state.status ≠ .failed) :
    c.config.deadline < env.timestamp := by
  rcases h with h | h | h
  · simp [he] at h
  · exact absurd h hf
  · exact h.2

theorem marksSpent_step (hm : Moves env w call w') (hn : w.now = env.timestamp)
    (hf : w.campaign.state.status = .failed → w.campaign.state.raiseEnded = true)
    (h : MarksSpent w) : MarksSpent w' := by
  have hended : w'.campaign.state.raiseEnded = true → MarksSpent w' := fun he he' =>
    absurd (he'.symm.trans he) (by simp)
  cases hm with
  | invest hi he hs ha hd hr =>
    intro _ investor hmark
    have hlate := (h he investor hmark).2
    rw [hn] at hlate
    omega
  | refundStake hc he hcan hnew hpos hle =>
    intro _ investor hmark
    have hlate := deadline_of_canRefund hcan he fun hs => by simp [hf hs] at he
    refine ⟨?_, hn ▸ hlate⟩
    simp only [paid_campaign, Campaign.stakeClaimed, HostMap.getD_set] at hmark ⊢
    split
    · rfl
    · next hne =>
      rw [if_neg hne] at hmark
      exact (h he investor hmark).1
  | refundEnded hc he => exact hended he
  | earlyClose he hs hp => exact hended (stage_of_split hp).2
  | markFailed he hp => exact hended (stage_of_split hp).2
  | resolveRefund hd hx hdec hr hp => exact hended (stage_of_split hp).2
  | distributeRevenue hs hd hr hf' hp hfee =>
    have hnow : w'.now = w.now := (distribution_onlyTransfers hp hfee).now_eq
    unfold MarksSpent
    rw [(distribution_onlyTransfers hp hfee).campaign_eq, hnow]
    exact h
  | _ => exact h

theorem Reachable.marksSpent (hw : Reachable w) : MarksSpent w := by
  have hinv : Reachable w ∧ MarksSpent w := by
    obtain ⟨w₀, hinit, hr⟩ := hw
    refine hr.invariant (fun u => Reachable u ∧ MarksSpent u) ⟨hinit.reachable, ?_⟩ ?_
    · intro _ investor hm
      rw [hinit.fresh.campaign_eq] at hm
      simp [Campaign.initial] at hm
    · rintro u a u' hs ⟨hu, hspent⟩
      obtain ⟨hn, hm⟩ := moves_of_step hs
      exact ⟨hu.step hs, marksSpent_step hm rfl hu.ended_of_failed (hspent.enter hn)⟩
  exact hinv.2

/-- A split made after the raise ended finds no stake with an investor marked refunded. -/
def Effect.SparesMarked (e : Escrow Addr) : Effect Addr → Prop
  | .split _ => e.raiseEnded = true → ∀ s ∈ e.investments.entries,
    e.refunded.getD s.1 false = true → s.2 = 0
  | _ => True

instance (e : Escrow Addr) (eff : Effect Addr) : Decidable (eff.SparesMarked e) :=
  match eff with
  | .split _ => inferInstanceAs (Decidable (_ → _))
  | .none | .setCap _ | .deposit .. | .payout _ | .distribute _ | .claim _ | .withdraw _ =>
    isTrue trivial

/-- No investor marked refunded has an entitlement. -/
def Escrow.MarkedOwedNothing (e : Escrow Addr) : Prop :=
  ∀ investor, e.refunded.getD investor false = true →
    e.refundableInvestments.getD investor 0 = 0

theorem stake_zero_of_entries {m : HostMap Addr Int} {done : HostMap Addr Bool}
    (h : ∀ s ∈ m.entries, done.getD s.1 false = true → s.2 = 0) {investor : Addr}
    (hd : done.getD investor false = true) : m.getD investor 0 = 0 := by
  unfold HostMap.getD
  cases hv : m.get? investor with
  | none => rfl
  | some v => exact h (investor, v) (HostMap.mem_entries_iff.mpr hv) hd

theorem markedOwedNothing_step {e e' : Escrow Addr} {eff : Effect Addr} (hb : e.Balanced)
    (hspent : e.raiseEnded = false → ∀ investor, e.refunded.getD investor false = true →
      e.investments.getD investor 0 = 0)
    (hc : eff.SparesMarked e) (h : e.MarkedOwedNothing) (hs : EscrowStep e eff e') :
    e'.MarkedOwedNothing := by
  intro investor hm
  cases hs with
  | split hs =>
    have hstake : e.investments.getD investor 0 = 0 := by
      cases he : e.raiseEnded with
      | false => exact hspent he investor hm
      | true => exact stake_zero_of_entries (hc he) hm
    have hcut := hs.cut investor
    have h1 := hs.refundable_nonneg investor
    have h2 := hs.retained_nonneg investor
    dsimp only
    omega
  | claim =>
    dsimp only at hm ⊢
    rw [HostMap.getD_set] at hm ⊢
    split
    · rfl
    · next hne =>
      rw [if_neg hne] at hm
      exact h investor hm
  | withdraw he =>
    dsimp only
    rw [hb.owes_nothing_before_end he]
    rfl
  | _ => exact h investor hm

/-- Marked investors are owed nothing in a run whose late splits find no stake with them. -/
theorem markedOwedNothing_run (hinit : Initialized w₀) (hr : CallRun w₀ xs w)
    (hc : ∀ x ∈ xs, (x.act.call.effect x.pre.campaign).SparesMarked x.pre.escrow) :
    w.escrow.MarkedOwedNothing := by
  have hreach := hr.steps_invariant Reachable hinit.reachable fun x _ hs hp => hp.step hs
  refine run_escrow hr hinit.fresh.balanced Escrow.MarkedOwedNothing ?_ ?_
  · rw [hinit.fresh.escrow_eq]
    exact fun _ _ => rfl
  · intro x hx hs hb hstep h
    have hspent := (hreach x hx).2.1.marksSpent
    exact markedOwedNothing_step hb (fun he i hm => (hspent he i hm).1) (hc x hx) h hstep

/-! ## Entitlements can be claimed -/

/-- `investor` can claim `amount`: his refund call succeeds, transfers him `amount` and nothing
    else, leaves him no entitlement, and no refund call for him right after it transfers
    anything. -/
def World.Claimable (w : World Addr) (investor : Addr) (amount : Int) : Prop :=
  ∀ env : Env Addr, w.now ≤ env.timestamp → env.authorized investor = true →
    ∃ w', callStep w ⟨env, .refund investor⟩ = some w' ∧
      w'.transfers = [⟨w.contract, investor, amount⟩] ∧
      getRefundableAmount w'.campaign investor = 0 ∧
      ∀ inv w'', inv.call.refundee = some investor → callStep w' inv = some w'' → w''.transfers = []

/-- What is advertised can be claimed. -/
def World.AdvertisedClaimable (w : World Addr) : Prop :=
  w.campaign.state.raiseEnded = true → ∀ investor amount,
    getRefundableAmount w.campaign investor = amount → 0 < amount → amount ≤ w.usdc →
      w.Claimable investor amount

theorem refund_entitlement {investor : Addr} (ha : env.authorized investor = true)
    (hi : investor ≠ w.contract) (he : w.campaign.state.raiseEnded = true)
    (hn : w.campaign.refunded.getD investor false = false)
    (hpos : 0 < w.campaign.refundableInvestments.getD investor 0)
    (hle : w.campaign.refundableInvestments.getD investor 0 ≤ w.usdc) :
    refund env w investor = .ok (World.paid
      { w with campaign := w.campaign.entitlementClaimed investor } investor
      (w.campaign.refundableInvestments.getD investor 0)) := by
  unfold refund
  rw [requireAuth_bind_eq_ok]
  refine ⟨ha, hi, ?_⟩
  unfold refundInvestor
  rw [failIf_bind_eq_ok, not_not]
  refine ⟨.inl he, ?_⟩
  have hclaim : claimRefund w.campaign investor = .ok (w.campaign.entitlementClaimed investor,
      some (w.campaign.refundableInvestments.getD investor 0)) := by
    unfold claimRefund
    simp only [hn, he, if_pos, Bool.false_eq_true, if_false]
    rw [failIf_bind_eq_ok]
    exact ⟨not_le.mpr hpos, rfl⟩
  rw [hclaim, ok_bind]
  exact pay_eq_ok.mpr ⟨hle, rfl⟩

/-- A refund call for a marked investor transfers nothing. -/
theorem marked_refund_pays_nothing {inv : Invocation Addr} {investor : Addr}
    (hm : w.campaign.refunded.getD investor false = true)
    (hc : inv.call.refundee = some investor) (hs : callStep w inv = some w') :
    w'.transfers = [] := by
  obtain ⟨_, hmoves⟩ := moves_of_step hs
  rcases moves_refund_cases hmoves hc with ⟨_, rfl⟩ | ⟨hn, _⟩ | ⟨hn, _⟩
  · rfl
  · exact absurd (hn.symm.trans hm) (by simp)
  · exact absurd (hn.symm.trans hm) (by simp)

/-- An advertised entitlement can be claimed exactly when its investor is not marked refunded. -/
theorem claimable_iff {investor : Addr} {amount : Int} (hb : w.escrow.Balanced)
    (he : w.campaign.state.raiseEnded = true)
    (ha : getRefundableAmount w.campaign investor = amount) (hpos : 0 < amount)
    (hle : amount ≤ w.usdc) :
    w.Claimable investor amount ↔ w.campaign.refunded.getD investor false = false := by
  subst ha
  constructor
  · intro hclaim
    obtain ⟨w', hs, ht, _⟩ := hclaim ⟨w.now, fun _ => true, fun _ => 0⟩ le_rfl rfl
    by_contra hm
    have hnothing := marked_refund_pays_nothing (Bool.not_eq_false _ ▸ hm) rfl hs
    rw [ht] at hnothing
    simp at hnothing
  · intro hn env hnow hauth
    have hi : investor ≠ w.contract := by
      rintro rfl
      have hself : w.campaign.refundableInvestments.getD w.contract 0 = 0 := hb.self_owed_nothing
      rw [getRefundableAmount, hself] at hpos
      exact lt_irrefl _ hpos
    have hrefund := refund_entitlement (w := w.enter env) hauth hi he hn hpos hle
    refine ⟨_, callStep_eq_some.mpr ⟨hnow, hrefund⟩, rfl, ?_, ?_⟩
    · simp [getRefundableAmount, Campaign.entitlementClaimed]
    · intro inv w'' hc hs
      refine marked_refund_pays_nothing ?_ hc hs
      simp [Campaign.entitlementClaimed]

/-- A surplus is refunded and its investor marked; the Refund verdict that follows gives him an
    entitlement of 4615 that his mark keeps him from claiming. -/
def paidThenOwedCalls : List (Nat × Call Nat) :=
  [(1, .invest 10 6000), (2, .invest 11 7000), (3, .earlyClose 0 "full"), (4, .refund 10),
    (5, .approve 0), (6, .raiseDispute 10 0), (7, .castDisputeVote 2 0 false),
    (8, .resolveDispute 2 0)]

theorem entitlement_stuck : ¬ ∀ w : World Nat, Reachable w → w.AdvertisedClaimable := by
  intro h
  have hw := sampleRun_reachable paidThenOwedCalls
  have hclaim := h _ hw (by decide +kernel) 10 4615 (by decide +kernel) (by decide)
    (by decide +kernel)
  rw [claimable_iff hw.balanced (by decide +kernel) (by decide +kernel) (by decide)
    (by decide +kernel)] at hclaim
  exact absurd hclaim (by decide +kernel)

/-- Advertised entitlements are claimable in every state reached by a run whose splits after the
    end of the raise find no stake with an investor marked refunded. -/
theorem entitlements_claimable (hinit : Initialized w₀) (hr : CallRun w₀ xs w)
    (hc : ∀ x ∈ xs, (x.act.call.effect x.pre.campaign).SparesMarked x.pre.escrow) :
    w.AdvertisedClaimable := by
  intro he investor amount ha hpos hle
  have hb := (hinit.reachable.run hr).balanced
  rw [claimable_iff hb he ha hpos hle]
  by_contra hm
  have hzero : w.campaign.refundableInvestments.getD investor 0 = 0 :=
    markedOwedNothing_run hinit hr hc investor (Bool.not_eq_false _ ▸ hm)
  rw [getRefundableAmount, hzero] at ha
  omega

theorem entitlements_claimable_sample :
    let r := sampleRun [(1, .invest 10 6000), (2, .invest 11 7000), (3, .earlyClose 0 "full"),
      (4, .refund 10), (5, .approve 0), (6, .partialReleaseMilestone 1 4000)]
    r.2.AdvertisedClaimable :=
  entitlements_claimable sampleWorld_initialized (sampleRun_run _) (by decide +kernel)

end AgriFi.FarmCampaign
