import AgriFi.FarmCampaign.Entitlements

/-
  Refunds of a stake, which are made while the raise has not ended. They pay the whole stake, so
  when part of the principal was released they must not be open at all. `canRefund` looks at the
  status alone, and `pause` and `unpause` give an active campaign a status that opens them
  (`stake_refund_exceeds`). `stake_refund_bounded` says exactly which of these refunds stay
  within the investor's part of what is still in escrow, and that a run which pauses and
  unpauses only before approval makes none.
-/

namespace AgriFi.FarmCampaign

open AgriFi.Soroban AgriFi.Runs

variable {Addr : Type} [LinearOrder Addr]

/-- The quotient rounded up, for a positive divisor. -/
def ceilDiv (a b : Int) : Int := -(-a / b)

theorem le_ceilDiv_iff {v r b : Int} (hb : 0 < b) : v ≤ ceilDiv (v * (b - r)) b ↔ v * r < b := by
  have hx : -(v * (b - r)) = v * r - v * b := by rw [mul_sub]; omega
  have hdiv : -(v * (b - r)) / b < -v + 1 ↔ -(v * (b - r)) < (-v + 1) * b :=
    Int.ediv_lt_iff_lt_mul hb
  rw [hx, add_mul, one_mul, neg_mul] at hdiv
  unfold ceilDiv
  rw [hx]
  omega

/-- A refund step sends `investor` at most his part, rounded up, of the principal not released
    when it was called. -/
def RefundWithinEscrow (investor : Addr) (x : CallStep Addr) : Prop :=
  sentTo investor x.post.transfers ≤
    ceilDiv (x.pre.campaign.investments.getD investor 0 *
      (x.pre.campaign.state.totalRaised - x.pre.campaign.state.totalReleased))
      x.pre.campaign.state.totalRaised

instance (investor : Addr) (x : CallStep Addr) : Decidable (RefundWithinEscrow investor x) :=
  inferInstanceAs (Decidable (_ ≤ _))

/-- Principal was released and the raise has not ended. -/
def Campaign.ReleasedBeforeEnd (c : Campaign Addr) : Prop :=
  c.state.raiseEnded = false ∧ 0 < c.state.totalReleased

instance (c : Campaign Addr) : Decidable c.ReleasedBeforeEnd := inferInstanceAs (Decidable (_ ∧ _))

/-- Half of the raise is released; paused past the deadline, the campaign still pays a whole
    stake back. -/
def pausedRefundCalls : List (Nat × Call Nat) :=
  [(1, .invest 10 4000), (2, .invest 11 6000), (3, .approve 0),
    (4, .partialReleaseMilestone 1 5000), (5, .pause 0), (1001, .refund 10)]

theorem stake_refund_exceeds :
    ¬ ∀ (w₀ w : World Nat) (xs : List (CallStep Nat)), Initialized w₀ → CallRun w₀ xs w →
      ∀ investor, ∀ x ∈ xs, x.pre.campaign.ReleasedBeforeEnd →
        x.act.call.refundee = some investor → RefundWithinEscrow investor x := by
  intro h
  have hbound := h _ _ _ sampleWorld_initialized (sampleRun_run pausedRefundCalls) 10
  exact absurd hbound (by decide +kernel)

/-! ## Pausing only before approval -/

variable {env : Env Addr} {w w' w₀ : World Addr} {call : Call Addr} {xs : List (CallStep Addr)}

def Call.isPause : Call Addr → Bool
  | .pause _ => true
  | _ => false

/-- A `pause` or `unpause` finds a campaign that was not approved. -/
def Call.PausesRaise (c : Campaign Addr) (call : Call Addr) : Prop :=
  (call.isPause = true ∨ call.isUnpause = true) → ¬ c.state.status.Progressed

instance (c : Campaign Addr) (call : Call Addr) : Decidable (call.PausesRaise c) :=
  inferInstanceAs (Decidable (_ → _))

/-- Principal is released and disputes are open only on an approved campaign. -/
def Campaign.ReleasesApproved (c : Campaign Addr) : Prop :=
  c.state.raiseEnded = true ∨ c.state.status.Progressed ∨
    (c.state.totalReleased = 0 ∧ ∀ i, c.disputeRecord i = none)

theorem ended_stage {c : Campaign Addr} {st : CampaignStatus} {ended : Bool}
    (h : StageStep c call st ended) (he : c.state.raiseEnded = true) : ended = true := by
  cases h with
  | fund _ hn => simp [he] at hn
  | pause hn => simp [he] at hn
  | unpause hn => simp [he] at hn
  | close => rfl
  | markFailed => rfl
  | verdictRefund => rfl
  | _ => exact he

theorem progressed_stage {c : Campaign Addr} {st : CampaignStatus} {ended : Bool}
    (h : StageStep c call st ended) (hp : c.state.status.Progressed) (hc : call.PausesRaise c) :
    st.Progressed := by
  cases h with
  | stay => exact hp
  | close => exact hp
  | fund hs => simp [hs, CampaignStatus.Progressed] at hp
  | approve hs => simp [hs, CampaignStatus.Progressed] at hp
  | pause => exact absurd hp (hc (.inl rfl))
  | unpause => exact absurd hp (hc (.inr rfl))
  | _ => simp [CampaignStatus.Progressed]

theorem releasesApproved_step (hm : Moves env w call w') (hc : call.PausesRaise w.campaign)
    (h : w.campaign.ReleasesApproved) : w'.campaign.ReleasesApproved := by
  have hstage := stageStep_of_moves hm
  by_cases hp : w.campaign.state.status.Progressed
  · exact .inr (.inl (progressed_stage hstage hp hc))
  have hne : ∀ st : CampaignStatus, st.Progressed → w.campaign.state.status ≠ st := by
    rintro st hst rfl
    exact hp hst
  rcases h with he | hprog | ⟨hz, hrec⟩
  · exact .inl (ended_stage hstage he)
  · exact absurd hprog hp
  cases hm with
  | earlyClose he hs hp' => exact .inl (stage_of_split hp').2
  | markFailed he hp' => exact .inl (stage_of_split hp').2
  | resolveRefund hd hx hdec hr hp' => exact .inl (stage_of_split hp').2
  | partialRelease hs => exact absurd hs (hne _ (by simp [CampaignStatus.Progressed]))
  | releaseMilestone hs => exact absurd hs (hne _ (by simp [CampaignStatus.Progressed]))
  | raiseDispute hs => exact absurd hs (hne _ (by simp [CampaignStatus.Progressed]))
  | distributeRevenue hs => exact absurd hs (hne _ (by simp [CampaignStatus.Progressed]))
  | submitEvidence hd => simp [hrec] at hd
  | castVote _ hd => simp [hrec] at hd
  | finalize hd => simp [hrec] at hd
  | resolveRelease hd => simp [hrec] at hd
  | _ => exact .inr (.inr ⟨hz, hrec⟩)

theorem releasesApproved_run (hinit : Initialized w₀) (hr : CallRun w₀ xs w)
    (hc : ∀ x ∈ xs, x.act.call.PausesRaise x.pre.campaign) : w.campaign.ReleasesApproved := by
  refine hr.invariant (fun u => u.campaign.ReleasesApproved) ?_ ?_
  · rw [hinit.fresh.campaign_eq]
    exact .inr (.inr ⟨rfl, fun _ => rfl⟩)
  · intro x hx hs h
    obtain ⟨_, hm⟩ := moves_of_step hs
    exact releasesApproved_step (w := x.pre.enter _) hm (hc x hx) h

/-- An approved campaign whose raise has not ended pays no stake back. -/
theorem not_canRefund {c : Campaign Addr} (he : c.state.raiseEnded = false)
    (hf : c.state.status = .failed → c.state.raiseEnded = true) (hp : c.state.status.Progressed) :
    ¬ canRefund env c := by
  have hfailed : c.state.status ≠ .failed := fun hs => by simp [hf hs] at he
  rintro (h | h | ⟨h | h, _⟩)
  · simp [he] at h
  · exact hfailed h
  · simp [h, CampaignStatus.Progressed] at hp
  · simp [h, CampaignStatus.Progressed] at hp

/-- A refund call made after a release and before the end of the raise stays within the
    investor's part of the escrow exactly when he is marked refunded already or his stake times
    the released principal is less than the raise; and it transfers nothing at all in a run
    that pauses and unpauses only before approval. -/
theorem stake_refund_bounded {inv : Invocation Addr} {investor : Addr} (hinit : Initialized w₀)
    (hr : CallRun w₀ xs w) (hw : w.campaign.ReleasedBeforeEnd) (hs : callStep w inv = some w')
    (hc : inv.call.refundee = some investor) :
    (RefundWithinEscrow investor ⟨w, inv, w'⟩ ↔
      (w.campaign.refunded.getD investor false = true ∨
        w.campaign.investments.getD investor 0 * w.campaign.state.totalReleased <
          w.campaign.state.totalRaised)) ∧
    ((∀ x ∈ xs, x.act.call.PausesRaise x.pre.campaign) → w'.transfers = []) := by
  obtain ⟨he, hrel⟩ := hw
  have hreach := hinit.reachable.run hr
  obtain ⟨_, hm⟩ := moves_of_step hs
  rcases moves_refund_cases hm hc with ⟨hmark, rfl⟩ | ⟨_, hended, _⟩ | ⟨hn, _, hcan, hpos, rfl⟩
  · have hstake := (hreach.marksSpent he investor hmark).1
    refine ⟨iff_of_true ?_ (.inl hmark), fun _ => rfl⟩
    simp [RefundWithinEscrow, hstake, ceilDiv]
  · exact absurd (he.symm.trans hended) (by simp)
  · have hb := hreach.balanced
    have hraised : 0 < w.campaign.state.totalRaised := by
      have hle := hb.investments_nonneg.getD_le_total investor
      rw [hb.investments_total] at hle
      exact lt_of_lt_of_le hpos hle
    constructor
    · have hnot : ¬ w.campaign.refunded.getD investor false = true := by
        rw [Bool.not_eq_true]
        exact hn
      unfold RefundWithinEscrow
      dsimp only
      rw [sentTo_paid rfl, enter_campaign, le_ceilDiv_iff hraised, or_iff_right hnot]
    · intro hpauses
      rcases releasesApproved_run hinit hr hpauses with h | h | ⟨h, _⟩
      · exact absurd (he.symm.trans h) (by simp)
      · exact absurd hcan (not_canRefund he hreach.ended_of_failed h)
      · omega

/-- A stake of 1 in a raise of 10000, after the release of one ten-thousandth. -/
theorem stake_refund_bounded_sample :
    let w := (sampleRun [(1, .invest 10 1), (2, .invest 11 9999), (3, .approve 0),
      (4, .partialReleaseMilestone 1 1), (5, .pause 0)]).2
    ∃ w', callStep w ⟨sampleEnv 1001, .refund 10⟩ = some w' ∧
      RefundWithinEscrow 10 ⟨w, ⟨sampleEnv 1001, .refund 10⟩, w'⟩ := by
  intro w
  obtain ⟨w', hs⟩ : ∃ w', callStep w ⟨sampleEnv 1001, .refund 10⟩ = some w' :=
    Option.isSome_iff_exists.mp (by decide +kernel)
  refine ⟨w', hs, ?_⟩
  exact (stake_refund_bounded sampleWorld_initialized (sampleRun_run _) (by decide +kernel) hs
    rfl).1.mpr (by decide +kernel)

end AgriFi.FarmCampaign
