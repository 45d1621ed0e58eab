import AgriFi.FarmCampaign.Escrow

/-
  Solvency after the raise has ended: does the escrow hold every entitlement not paid yet? The
  contract never reserves entitlements against later payouts, so it can lose them
  (`solvency_fails`). `Effect.Covered` is the check that is missing: while the raise is over,
  what goes out must come from the principal that was retained and not released yet, and a
  raise may only be split while the principal already released fits in the retained part.
  `Escrow.Covers` is the invariant this keeps, and `covered_run_solvent` the result: every run
  whose calls all pass the check is solvent throughout.
-/

namespace AgriFi.FarmCampaign

open AgriFi.Soroban AgriFi.Runs

variable {Addr : Type} [LinearOrder Addr]

/-- Once the raise has ended the contract holds the sum of `RefundableInvestments` over the
    investors not marked refunded. -/
def World.Solvent (w : World Addr) : Prop :=
  w.campaign.state.raiseEnded = true → w.escrow.outstanding ≤ w.usdc

instance (w : World Addr) : Decidable w.Solvent := inferInstanceAs (Decidable (_ → _))

/-- Entitlements of 5000 are set aside by `mark_failed`; the Release verdict then pays the
    farmer a tranche out of them. -/
def lateVerdictCalls : List (Nat × Call Nat) :=
  [(1, .invest 10 6000), (2, .invest 11 4000), (3, .approve 0), (4, .raiseDispute 10 0),
    (5, .castDisputeVote 2 0 true), (6, .partialReleaseMilestone 1 5000), (7, .markFailed 0),
    (8, .resolveDispute 2 0)]

theorem solvency_fails : ¬ ∀ w : World Nat, Reachable w → w.Solvent := by
  intro h
  exact absurd (h _ (sampleRun_reachable lateVerdictCalls)) (by decide +kernel)

/-! ## The missing check -/

/-- Released principal that left the contract; a farmer who is the contract itself is paid
    nothing. -/
def Escrow.paidOut (e : Escrow Addr) : Int :=
  if e.config.farmer = e.contract then 0 else e.totalReleased

/-- The call takes nothing that is reserved for refunds, and a split keeps at least what was
    already paid out. -/
def Effect.Covered (e : Escrow Addr) : Effect Addr → Prop
  | .payout amount =>
    e.raiseEnded = true → e.config.farmer = e.contract ∨
      (e.distributed = false ∧ e.totalReleased + amount ≤ e.totalRaised)
  | .distribute revenue => e.raiseEnded = true → e.paidOut + revenue ≤ e.totalRaised
  | .split target => e.distributed = false ∧ e.paidOut ≤ keptSum e.totalRaised target
  | _ => True

def Call.Covered (w : World Addr) (call : Call Addr) : Prop :=
  (call.effect w.campaign).Covered w.escrow

instance (e : Escrow Addr) (eff : Effect Addr) : Decidable (eff.Covered e) :=
  match eff with
  | .payout _ => inferInstanceAs (Decidable (_ → _))
  | .distribute _ => inferInstanceAs (Decidable (_ → _))
  | .split _ => inferInstanceAs (Decidable (_ ∧ _))
  | .none | .setCap _ | .deposit .. | .claim _ | .withdraw _ => isTrue trivial

instance (w : World Addr) (call : Call Addr) : Decidable (call.Covered w) :=
  inferInstanceAs (Decidable (Effect.Covered _ _))

/-! ## The invariant -/

/-- Before revenue goes out the balance is the principal not released plus the entitlements;
    after that the entitlements are all it has to hold. -/
structure Escrow.Covers (e : Escrow Addr) : Prop where
  exact_before_end : e.raiseEnded = false → e.distributed = false →
    e.usdc = e.totalRaised - e.paidOut
  covered : e.distributed = false → e.totalRaised - e.paidOut + e.outstanding ≤ e.usdc
  retained : e.raiseEnded = true → e.distributed = false → e.paidOut ≤ e.totalRaised
  reserved : e.raiseEnded = true → e.distributed = true → e.outstanding ≤ e.usdc

variable {e e' : Escrow Addr}

theorem Escrow.Covers.outstanding_le (h : e.Covers) (he : e.raiseEnded = true) :
    e.outstanding ≤ e.usdc := by
  cases hd : e.distributed with
  | false =>
    have h1 := h.covered hd
    have h2 := h.retained he hd
    omega
  | true => exact h.reserved he hd

theorem Escrow.Balanced.outstanding_nonneg (hb : e.Balanced) : 0 ≤ e.outstanding :=
  HostMap.unclaimed_nonneg hb.refundable_nonneg _

theorem Escrow.Balanced.outstanding_before_end (hb : e.Balanced) (he : e.raiseEnded = false) :
    e.outstanding = 0 := by
  unfold Escrow.outstanding
  rw [hb.owes_nothing_before_end he]
  rfl

/-- The contract itself never holds a stake. -/
theorem Escrow.Balanced.investor_ne_self (hb : e.Balanced) {investor : Addr}
    (h : 0 < e.investments.getD investor 0) : investor ≠ e.contract := by
  rintro rfl
  rw [hb.self_invests_nothing] at h
  exact lt_irrefl _ h

/-- A payout moves the balance and the released principal together. -/
theorem covers_payout {amount : Int} (h : e.Covers) (hc : (Effect.payout amount).Covered e) :
    Escrow.Covers { e with
      totalReleased := e.totalReleased + amount
      usdc := e.balanceAfter e.config.farmer amount } := by
  by_cases hf : e.config.farmer = e.contract
  · have hp : ∀ released usdc, Escrow.paidOut
        { e with totalReleased := released, usdc := usdc } = e.paidOut := by
      intro released usdc
      simp [Escrow.paidOut, hf]
    have hu : e.balanceAfter e.config.farmer amount = e.usdc := if_pos hf
    rw [hu]
    exact {
      exact_before_end := fun he hd => by rw [hp]; exact h.exact_before_end he hd
      covered := fun hd => by rw [hp]; exact h.covered hd
      retained := fun he hd => by rw [hp]; exact h.retained he hd
      reserved := h.reserved }
  · have hold : e.paidOut = e.totalReleased := if_neg hf
    have hp : ∀ released usdc, Escrow.paidOut
        { e with totalReleased := released, usdc := usdc } = released := by
      intro released usdc
      simp [Escrow.paidOut, hf]
    have hu : e.balanceAfter e.config.farmer amount = e.usdc - amount := if_neg hf
    rw [hu]
    exact {
      exact_before_end := fun he hd => by
        have := h.exact_before_end he hd
        rw [hp]
        dsimp only
        omega
      covered := fun hd => by
        have := h.covered hd
        rw [hp]
        simp only [Escrow.outstanding] at this ⊢
        omega
      retained := fun he hd => by
        rw [hp]
        exact ((hc he).resolve_left hf).2
      reserved := fun he hd => by
        have hopen := ((hc he).resolve_left hf).1
        exact absurd (hopen.symm.trans hd) (by simp) }

/-- A split moves `total` from the raised principal to the entitlements, and drops the
    entitlements there were. -/
theorem covers_split {target total : Int} {retained refundable : HostMap Addr Int}
    (hb : e.Balanced) (h : e.Covers) (hc : (Effect.split target).Covered e)
    (hs : ProportionalSplit e.totalRaised target e.investments retained refundable total) :
    Escrow.Covers { e with
      totalRaised := e.totalRaised - total
      raiseEnded := true
      investments := retained
      refundableInvestments := refundable } := by
  obtain ⟨hd, hret⟩ := hc
  have hp : ∀ raised ended inv ref, Escrow.paidOut
      { e with
        totalRaised := raised, raiseEnded := ended, investments := inv
        refundableInvestments := ref } = e.paidOut := fun _ _ _ _ => rfl
  have hnew : HostMap.unclaimed refundable e.refunded ≤ total := by
    rw [← hs.refundable_total]
    exact HostMap.unclaimed_le_total hs.refundable_nonneg _
  exact {
    exact_before_end := fun he => absurd he (by simp)
    covered := fun _ => by
      have hcov := h.covered hd
      have hold := hb.outstanding_nonneg
      rw [hp]
      simp only [Escrow.outstanding] at hcov hold ⊢
      omega
    retained := fun _ _ => by
      rw [hp, hs.total_eq]
      dsimp only
      rw [sub_refundableSum hs.target_nonneg hb.raised_nonneg]
      exact hret
    reserved := fun _ hd' => absurd (hd.symm.trans hd') (by simp) }

theorem covers_claim {investor : Addr} (h : e.Covers) (he : e.raiseEnded = true)
    (hn : e.refunded.getD investor false = false)
    (hpos : 0 < e.refundableInvestments.getD investor 0) :
    Escrow.Covers { e with
      refundableInvestments := e.refundableInvestments.set investor 0
      refunded := e.refunded.set investor true
      usdc := e.balanceAfter investor (e.refundableInvestments.getD investor 0) } := by
  have hle := le_balanceAfter e investor hpos.le
  have hout := HostMap.unclaimed_claim e.refundableInvestments hn
  have hp : ∀ ref done usdc, Escrow.paidOut
      { e with refundableInvestments := ref, refunded := done, usdc := usdc } = e.paidOut :=
    fun _ _ _ => rfl
  exact {
    exact_before_end := fun he' => absurd (he'.symm.trans he) (by simp)
    covered := fun hd => by
      have hcov := h.covered hd
      rw [hp]
      simp only [Escrow.outstanding] at hcov ⊢
      omega
    retained := h.retained
    reserved := fun _ hd => by
      have hres := h.reserved he hd
      simp only [Escrow.outstanding] at hres ⊢
      omega }

theorem covers_withdraw {investor : Addr} (hb : e.Balanced) (h : e.Covers)
    (he : e.raiseEnded = false) (hpos : 0 < e.investments.getD investor 0) :
    Escrow.Covers { e with
      investments := e.investments.set investor 0
      totalRaised := e.totalRaised - e.investments.getD investor 0
      refunded := e.refunded.set investor true
      usdc := e.balanceAfter investor (e.investments.getD investor 0) } := by
  have hu : e.balanceAfter investor (e.investments.getD investor 0) =
      e.usdc - e.investments.getD investor 0 := if_neg (hb.investor_ne_self hpos)
  have hp : ∀ inv raised done usdc, Escrow.paidOut
      { e with investments := inv, totalRaised := raised, refunded := done, usdc := usdc } =
        e.paidOut := fun _ _ _ _ => rfl
  have hout : ∀ done, HostMap.unclaimed e.refundableInvestments done = 0 := by
    intro done
    rw [hb.owes_nothing_before_end he]
    rfl
  rw [hu]
  exact {
    exact_before_end := fun _ hd => by
      have := h.exact_before_end he hd
      rw [hp]
      dsimp only
      omega
    covered := fun hd => by
      have := h.exact_before_end he hd
      rw [hp]
      simp only [Escrow.outstanding, hout]
      omega
    retained := fun he' => absurd (he.symm.trans he') (by simp)
    reserved := fun he' => absurd (he.symm.trans he') (by simp) }

theorem Escrow.Covers.step {eff : Effect Addr} (hb : e.Balanced) (h : e.Covers)
    (hc : eff.Covered e) (hs : EscrowStep e eff e') : e'.Covers := by
  cases hs with
  | none => exact h
  | setCap => exact { h with }
  | @deposit investor amount hi he ha hr =>
    have hout := hb.outstanding_before_end he
    have hp : ∀ inv raised usdc, Escrow.paidOut
        { e with investments := inv, totalRaised := raised, usdc := usdc } = e.paidOut :=
      fun _ _ _ => rfl
    exact {
      exact_before_end := fun _ hd => by
        have := h.exact_before_end he hd
        rw [hp]
        dsimp only
        omega
      covered := fun hd => by
        have := h.covered hd
        rw [hp]
        simp only [Escrow.outstanding] at this ⊢
        omega
      retained := fun he' => absurd (he.symm.trans he') (by simp)
      reserved := fun he' => absurd (he.symm.trans he') (by simp) }
  | payout ha hle => exact covers_payout h hc
  | distribute hd hr hle hnn =>
    exact {
      exact_before_end := fun _ hd' => absurd hd' (by simp)
      covered := fun hd' => absurd hd' (by simp)
      retained := fun _ hd' => absurd hd' (by simp)
      reserved := fun he _ => by
        have hcov := h.covered hd
        have hfit := hc he
        simp only [Escrow.outstanding] at hcov ⊢
        omega }
  | split hs => exact covers_split hb h hc hs
  | claim he hn hpos hle => exact covers_claim h he hn hpos
  | withdraw he hn hpos hle => exact covers_withdraw hb h he hpos

variable {w w₀ : World Addr} {xs : List (CallStep Addr)}

theorem paidOut_of_released_zero (h : e.totalReleased = 0) : e.paidOut = 0 := by
  unfold Escrow.paidOut
  split
  · rfl
  · exact h

theorem Fresh.covers (h : Fresh w) : w.escrow.Covers := by
  rw [h.escrow_eq]
  have hp : (Escrow.initial w.contract w.campaign.config).paidOut = 0 :=
    paidOut_of_released_zero rfl
  exact {
    exact_before_end := fun _ _ => by rw [hp]; rfl
    covered := fun _ => by rw [hp]; exact le_rfl
    retained := fun he => absurd he (by simp [Escrow.initial])
    reserved := fun he => absurd he (by simp [Escrow.initial]) }

/-! ## Runs -/

theorem covers_of_run (hinit : Initialized w₀) (hr : CallRun w₀ xs w)
    (hc : ∀ x ∈ xs, x.act.call.Covered x.pre) : w.escrow.Covers :=
  run_escrow hr hinit.fresh.balanced Escrow.Covers hinit.fresh.covers
    fun x hx _ hb hs h => h.step hb (hc x hx) hs

/-- Every run whose calls all pass the check is solvent in the state it reaches. -/
theorem covered_run_solvent (hinit : Initialized w₀) (hr : CallRun w₀ xs w)
    (hc : ∀ x ∈ xs, x.act.call.Covered x.pre) : w.Solvent :=
  fun he => (covers_of_run hinit hr hc).outstanding_le he

theorem covered_run_solvent_sample :
    (sampleRun [(1, .invest 10 6000), (2, .invest 11 7000), (3, .earlyClose 0 "full"),
      (4, .approve 0), (5, .partialReleaseMilestone 1 5000), (6, .refund 10)]).2.Solvent :=
  covered_run_solvent sampleWorld_initialized (sampleRun_run _) (by decide +kernel)

end AgriFi.FarmCampaign
