import AgriFi.FarmCampaign.Escrow

/-
  The farmer's pool: principal less the platform fee. Partial releases are capped by a basis
  point counter and tranches by one flag a milestone, and neither cap looks at the other, so
  together they can pay more than the pool (`farmerPool_overrun`). `Effect.WithinPool` is the
  check on `total_released` that would tie them together: a run that pays no refund stays within
  the pool exactly when all its calls pass it (`withinPool_run`). `released_eq_paid` ties
  `total_released` to the transfers made.
-/

namespace AgriFi.FarmCampaign

open AgriFi.Soroban AgriFi.Runs

variable {Addr : Type} [LinearOrder Addr]

/-- `total_released` is within `total_raised` less the platform fee on it. -/
def World.WithinPool (w : World Addr) : Prop :=
  w.campaign.state.totalReleased ≤ w.campaign.state.totalRaised -
    w.campaign.state.totalRaised * w.campaign.config.platformFeeBps / 10000

instance (w : World Addr) : Decidable w.WithinPool := inferInstanceAs (Decidable (_ ≤ _))

/-- The step is a refund call that paid something. -/
def PaysRefund (x : CallStep Addr) : Prop :=
  x.act.call.refundee.isSome = true ∧ x.post.transfers ≠ []

instance (x : CallStep Addr) : Decidable (PaysRefund x) := inferInstanceAs (Decidable (_ ∧ _))

/-- Half the raise as a partial release and one of two tranches: 5000 + 4900 of a pool of 9800. -/
def bothCapsCalls : List (Nat × Call Nat) :=
  [(1, .invest 10 10000), (2, .approve 0), (3, .partialReleaseMilestone 1 5000),
    (4, .releaseMilestone 0 0)]

theorem farmerPool_overrun :
    ¬ ∀ (w₀ w : World Nat) (xs : List (CallStep Nat)), Initialized w₀ → CallRun w₀ xs w →
      (∀ x ∈ xs, ¬ PaysRefund x) → w.WithinPool := by
  intro h
  have hpool := h _ _ _ sampleWorld_initialized (sampleRun_run bothCapsCalls) (by decide +kernel)
  exact absurd hpool (by decide +kernel)

/-! ## Released principal is what the farmer was paid -/

/-- The entry points that pay principal to the farmer. -/
def Call.PaysFarmer : Call Addr → Bool
  | .partialReleaseMilestone _ _ | .releaseMilestone _ _ | .resolveDispute _ _ => true
  | _ => false

/-- What a step transferred to the farmer through those entry points. -/
def farmerPayment (x : CallStep Addr) : Int :=
  if x.act.call.PaysFarmer = true then sentTo x.pre.campaign.config.farmer x.post.transfers else 0

omit [LinearOrder Addr] in
theorem Call.not_paysFarmer_of_refundee {call : Call Addr} {investor : Addr}
    (h : call.refundee = some investor) : call.PaysFarmer = false := by
  cases call with
  | refund => rfl
  | refundByAdmin => rfl
  | _ => simp [Call.refundee] at h

variable {env : Env Addr} {w w' w₀ : World Addr} {call : Call Addr} {xs : List (CallStep Addr)}

theorem released_of_split {c c' : Campaign Addr} {target total : Int}
    (h : applyProportionalRefund c target = .ok (c', total)) :
    c'.state.totalReleased = c.state.totalReleased := by
  obtain ⟨_, _, rfl⟩ := applyProportionalRefund_frame h
  rfl

/-- A call adds to `total_released` what it transfers to the farmer as a payout. -/
theorem released_of_moves (ht : w.transfers = []) (h : Moves env w call w') :
    w'.campaign.state.totalReleased = w.campaign.state.totalReleased +
      (if call.PaysFarmer = true then sentTo w.campaign.config.farmer w'.transfers else 0) := by
  cases h with
  | idle => rw [ht]; simp
  | partialRelease =>
    rw [Call.PaysFarmer, if_pos rfl, sentTo_paid ht]
    rfl
  | releaseMilestone =>
    rw [Call.PaysFarmer, if_pos rfl, sentTo_paid ht]
    rfl
  | resolveRelease =>
    rw [Call.PaysFarmer, if_pos rfl, sentTo_paid ht]
    rfl
  | resolveRefund hd hx hdec hr hp =>
    have hsame := released_of_split hp
    dsimp only
    rw [hsame, ht]
    simp [Campaign.disputeResolved, Campaign.setRecord]
  | earlyClose he hs hp =>
    have hsame := released_of_split hp
    dsimp only
    rw [hsame]
    simp [Call.PaysFarmer]
  | markFailed he hp =>
    have hsame := released_of_split hp
    dsimp only
    rw [hsame]
    simp [Call.PaysFarmer]
  | distributeRevenue hs hd hr hf hp hfee =>
    rw [(distribution_onlyTransfers hp hfee).campaign_eq]
    simp [Call.PaysFarmer]
  | refundEnded hc =>
    rw [Call.not_paysFarmer_of_refundee hc]
    simp [Campaign.entitlementClaimed]
  | refundStake hc =>
    rw [Call.not_paysFarmer_of_refundee hc]
    simp [Campaign.stakeClaimed]
  | _ => simp [Call.PaysFarmer, Campaign.invested, Campaign.setRecord]

/-- Along a run `total_released` grows by exactly what the payout calls sent to the farmer. -/
theorem released_eq_paid (hr : CallRun w₀ xs w) :
    w.campaign.state.totalReleased =
      w₀.campaign.state.totalReleased + (xs.map farmerPayment).sum := by
  induction hr with
  | nil => simp
  | cons hx _ ih =>
    obtain ⟨_, hm⟩ := moves_of_step hx
    have hstep := released_of_moves (w := World.enter _ _) rfl hm
    rw [ih, hstep]
    simp only [enter_campaign, List.map_cons, List.sum_cons, farmerPayment]
    omega

/-! ## The missing check -/

/-- The principal released so far, with this payout, fits in the farmer's pool; a split leaves a
    pool that the released principal fits in. -/
def Effect.WithinPool (e : Escrow Addr) : Effect Addr → Prop
  | .payout amount => e.totalReleased + amount ≤ e.config.farmerPool e.totalRaised
  | .split target => e.totalReleased ≤ e.config.farmerPool (keptSum e.totalRaised target)
  | _ => True

def Call.WithinPool (w : World Addr) (call : Call Addr) : Prop :=
  (call.effect w.campaign).WithinPool w.escrow

instance (e : Escrow Addr) (eff : Effect Addr) : Decidable (eff.WithinPool e) :=
  match eff with
  | .payout _ => inferInstanceAs (Decidable (_ ≤ _))
  | .split _ => inferInstanceAs (Decidable (_ ≤ _))
  | .none | .setCap _ | .deposit .. | .distribute _ | .claim _ | .withdraw _ => isTrue trivial

instance (w : World Addr) (call : Call Addr) : Decidable (call.WithinPool w) :=
  inferInstanceAs (Decidable (Effect.WithinPool _ _))

/-- `total_released` is within the pool. -/
def Escrow.WithinPool (e : Escrow Addr) : Prop :=
  e.totalReleased ≤ e.config.farmerPool e.totalRaised

theorem withinPool_step {e e' : Escrow Addr} {eff : Effect Addr} (hb : e.Balanced)
    (hw : ∀ i, eff ≠ .withdraw i) (h : e.WithinPool) (hs : EscrowStep e eff e') :
    e'.WithinPool ↔ eff.WithinPool e := by
  have hraised := hb.raised_nonneg
  cases hs with
  | none => exact iff_of_true h trivial
  | setCap => exact iff_of_true h trivial
  | @deposit _ amount hi he ha hr =>
    have hle : e.totalRaised ≤ e.totalRaised + amount := by omega
    exact iff_of_true (h.trans (farmerPool_mono hb.fee_le hraised hle)) trivial
  | payout ha hle => exact Iff.rfl
  | distribute => exact iff_of_true h trivial
  | split hs =>
    unfold Escrow.WithinPool Effect.WithinPool
    dsimp only
    rw [hs.total_eq, sub_refundableSum hs.target_nonneg hraised]
  | claim => exact iff_of_true h trivial
  | withdraw => exact absurd rfl (hw _)

/-- A withdrawal is a refund that pays. -/
theorem not_withdraw_of_unpaid {x : CallStep Addr} (hx : callStep x.pre x.act = some x.post)
    (hn : ¬ PaysRefund x) (investor : Addr) :
    x.act.call.effect x.pre.campaign ≠ .withdraw investor := by
  intro heff
  obtain ⟨hc, hpays⟩ := pays_of_effect hx (.inr heff)
  exact hn ⟨by rw [hc]; rfl, hpays⟩

theorem Fresh.released_zero (h : Fresh w) : w.campaign.state.totalReleased = 0 := by
  rw [h.campaign_eq]
  rfl

theorem Fresh.withinPool (h : Fresh w) : w.escrow.WithinPool := by
  rw [h.escrow_eq]
  exact (farmerPool_zero _).ge

theorem withinPool_iff (hb : w.escrow.Balanced) : w.WithinPool ↔ w.escrow.WithinPool := by
  have hraised : 0 ≤ w.campaign.state.totalRaised := hb.raised_nonneg
  unfold World.WithinPool
  rw [← fee_eq_ediv _ hraised]
  rfl

/-! ## Runs -/

/-- In a run that pays no refund `total_released` is the sum of the farmer's payouts, and it
    stays within the pool exactly when every call passes the check. -/
theorem withinPool_run (hinit : Initialized w₀) (hr : CallRun w₀ xs w)
    (hunpaid : ∀ x ∈ xs, ¬ PaysRefund x) :
    w.campaign.state.totalReleased = (xs.map farmerPayment).sum ∧
      ((∀ x ∈ xs, x.post.WithinPool) ↔ ∀ x ∈ xs, x.act.call.WithinPool x.pre) := by
  have hpaid := released_eq_paid hr
  rw [hinit.fresh.released_zero, zero_add] at hpaid
  refine ⟨hpaid, ?_⟩
  have hstep : ∀ x ∈ xs, callStep x.pre x.act = some x.post → x.pre.escrow.Balanced →
      x.pre.escrow.WithinPool →
      x.post.escrow.Balanced ∧ (x.post.escrow.WithinPool ↔ x.act.call.WithinPool x.pre) := by
    intro x hx hs hb hi
    obtain ⟨hstep, hb'⟩ := escrowStep_of_callStep hb hs
    exact ⟨hb', withinPool_step hb (not_withdraw_of_unpaid hs (hunpaid x hx)) hi hstep⟩
  have hstart : w₀.escrow.Balanced ∧ w₀.escrow.WithinPool :=
    ⟨hinit.fresh.balanced, hinit.fresh.withinPool⟩
  constructor
  · intro hpool x hx
    obtain ⟨hs, ⟨hb, hi⟩, _, hi'⟩ := hr.steps_invariant
      (fun w => w.escrow.Balanced ∧ w.escrow.WithinPool) hstart (fun y hy hs hi => by
        have hb' := (hstep y hy hs hi.1 hi.2).1
        exact ⟨hb', (withinPool_iff hb').mp (hpool y hy)⟩) x hx
    exact (hstep x hx hs hb hi).2.mp hi'
  · intro hc x hx
    obtain ⟨_, _, hb', hi'⟩ := hr.steps_invariant
      (fun w => w.escrow.Balanced ∧ w.escrow.WithinPool) hstart (fun y hy hs hi => by
        obtain ⟨hb', hiff⟩ := hstep y hy hs hi.1 hi.2
        exact ⟨hb', hiff.mpr (hc y hy)⟩) x hx
    exact (withinPool_iff hb').mpr hi'

theorem withinPool_run_sample :
    let r := sampleRun [(1, .invest 10 10000), (2, .approve 0),
      (3, .partialReleaseMilestone 1 4000), (4, .releaseMilestone 0 0)]
    r.2.campaign.state.totalReleased = (r.1.map farmerPayment).sum ∧
      ((∀ x ∈ r.1, x.post.WithinPool) ↔ ∀ x ∈ r.1, x.act.call.WithinPool x.pre) :=
  withinPool_run sampleWorld_initialized (sampleRun_run _) (by decide +kernel)

end AgriFi.FarmCampaign
