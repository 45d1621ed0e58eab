import AgriFi.FarmCampaign.Escrow

/-
  What `distribute_revenue` pays. Revenue comes to the contract from outside, so the runs here
  are made of calls and deposits; both keep the books balanced (`eventRun_balanced`). On balanced
  books a distribution pays every investor the part of the pool its principal stands for, rounded
  down, and the platform its fee (`distributeRevenue_transfers`), which is all the revenue but for
  less than a unit for each investor. A campaign can be delivered after everybody took the
  principal back: a Release verdict pays the last tranche also while the campaign is paused. Then
  only the fee is paid, so the bounds need `0 < total_raised`. The flag `Distributed` is set once
  and for all (`distributes_once`).
-/

namespace AgriFi.FarmCampaign

open AgriFi.Soroban AgriFi.Runs

variable {Addr : Type}

/-! ## The split -/

/-- The investors that have principal in the campaign. -/
def holdersOf (l : List (Addr × Int)) : List (Addr × Int) := l.filter fun e => e.2 > 0

/-- A transfer that is made when its amount is positive. -/
def transferIfPositive (src dst : Addr) (amount : Int) : List (Transfer Addr) :=
  if amount > 0 then [⟨src, dst, amount⟩] else []

/-- The transfers of the payout loop. -/
def shareTransfers (src : Addr) (investorPool totalRaised : Int) (l : List (Addr × Int)) :
    List (Transfer Addr) :=
  (holdersOf l).flatMap fun e =>
    transferIfPositive src e.1 (prorata investorPool e.2 totalRaised)

theorem sum_transferIfPositive (src dst : Addr) {amount : Int} (h : 0 ≤ amount) :
    ((transferIfPositive src dst amount).map Transfer.amount).sum = amount := by
  unfold transferIfPositive
  split
  · simp
  · simp only [List.map_nil, List.sum_nil]
    omega

theorem sum_shareTransfers (src : Addr) {investorPool totalRaised : Int} (hp : 0 ≤ investorPool)
    (hr : 0 ≤ totalRaised) (l : List (Addr × Int)) :
    ((shareTransfers src investorPool totalRaised l).map Transfer.amount).sum =
      ((holdersOf l).map fun e => prorata investorPool e.2 totalRaised).sum := by
  unfold shareTransfers
  have hpos : ∀ e ∈ holdersOf l, 0 < e.2 := fun e he => by
    simpa using (List.mem_filter.mp he).2
  generalize holdersOf l = holders at hpos ⊢
  induction holders with
  | nil => rfl
  | cons e l ih =>
    have he := prorata_nonneg hp (hpos e (List.mem_cons_self ..)).le hr
    rw [List.flatMap_cons, List.map_append, List.sum_append, sum_transferIfPositive src e.1 he,
      ih fun e he => hpos e (List.mem_cons_of_mem _ he), List.map_cons, List.sum_cons]

variable [LinearOrder Addr]

theorem paid_contract (w : World Addr) (dst : Addr) (amount : Int) :
    (w.paid dst amount).contract = w.contract := rfl

section Loop

variable {w w' : World Addr} {investorPool totalRaised : Int} {l : List (Addr × Int)}

theorem payShares_transfers (hr : ∀ e ∈ l, 0 < e.2 → 0 < totalRaised)
    (h : payShares investorPool totalRaised l w = .ok w') :
    w'.transfers = w.transfers ++ shareTransfers w.contract investorPool totalRaised l := by
  induction l generalizing w with
  | nil =>
    obtain rfl := Except.ok.inj h
    simp [shareTransfers, holdersOf]
  | cons e l ih =>
    obtain ⟨investor, invested⟩ := e
    have hrest : ∀ e ∈ l, 0 < e.2 → 0 < totalRaised := fun e he =>
      hr e (List.mem_cons_of_mem _ he)
    unfold payShares at h
    unfold shareTransfers holdersOf at ih ⊢
    by_cases hpos : invested > 0
    · rw [if_pos ⟨hpos, hr (investor, invested) (List.mem_cons_self ..) hpos⟩] at h
      simp only [okOr_bind_eq_ok, checkedMul_eq_some, checkedDiv_eq_some] at h
      obtain ⟨_, ⟨_, rfl⟩, _, ⟨_, _, rfl⟩, h⟩ := h
      rw [List.filter_cons_of_pos (by simpa using hpos), List.flatMap_cons]
      unfold transferIfPositive prorata at *
      split at h
      · next hshare =>
        obtain ⟨w₁, hpay, h⟩ := bind_eq_ok.mp h
        obtain ⟨_, rfl⟩ := pay_eq_ok.mp hpay
        rw [if_pos hshare, ih hrest h, paid_transfers, paid_contract, List.append_assoc]
      · next hshare => rw [if_neg hshare, ih hrest h, List.nil_append]
    · rw [if_neg fun hp => hpos hp.1] at h
      rw [List.filter_cons_of_neg (by simpa using hpos)]
      exact ih hrest h

/-- The loop ends if its products fit and the contract holds the shares. -/
theorem payShares_ok (hp : 0 ≤ investorPool) (hfits : FitsI128 investorPool)
    (hproducts : ∀ e ∈ l, 0 < e.2 → FitsI128 (investorPool * e.2))
    (hle : ∀ e ∈ l, e.2 ≤ totalRaised)
    (husdc : (l.map fun e => revenueShare investorPool totalRaised e.2).sum ≤ w.usdc) :
    ∃ w', payShares investorPool totalRaised l w = .ok w' := by
  induction l generalizing w with
  | nil => exact ⟨w, rfl⟩
  | cons e l ih =>
    obtain ⟨investor, invested⟩ := e
    have hrest {w : World Addr} := ih (w := w)
      (fun e he => hproducts e (List.mem_cons_of_mem _ he))
      (fun e he => hle e (List.mem_cons_of_mem _ he))
    have hshares : 0 ≤ (l.map fun e => revenueShare investorPool totalRaised e.2).sum :=
      List.sum_nonneg fun x hx => by
        obtain ⟨e, _, rfl⟩ := List.mem_map.mp hx
        exact revenueShare_nonneg hp ..
    have hhead := revenueShare_nonneg hp totalRaised invested
    rw [List.map_cons, List.sum_cons] at husdc
    dsimp only at husdc
    unfold payShares
    by_cases hpos : invested > 0 ∧ totalRaised > 0
    · have hshare : revenueShare investorPool totalRaised invested =
          (investorPool * invested).tdiv totalRaised := if_pos hpos
      have hpart : (investorPool * invested).tdiv totalRaised ≤ investorPool :=
        prorata_le hp hpos.1.le hpos.2 (hle (investor, invested) (List.mem_cons_self ..))
      have hrange : FitsI128 ((investorPool * invested).tdiv totalRaised) := by
        unfold FitsI128 at hfits ⊢
        omega
      have hmul : checkedMul investorPool invested = some (investorPool * invested) :=
        checkedMul_eq_some.mpr
          ⟨hproducts (investor, invested) (List.mem_cons_self ..) hpos.1, rfl⟩
      have hdiv : checkedDiv (investorPool * invested) totalRaised =
          some ((investorPool * invested).tdiv totalRaised) :=
        checkedDiv_eq_some.mpr ⟨hpos.2.ne', hrange, rfl⟩
      rw [hshare] at hhead husdc
      simp only [if_pos hpos, hmul, hdiv, okOr, ok_bind]
      split
      · rw [pay_eq_ok.mpr ⟨by omega, rfl⟩, ok_bind]
        have hleft := le_paid_usdc w investor hhead
        exact hrest (by omega)
      · exact hrest (by omega)
    · rw [if_neg hpos]
      exact hrest (by omega)

end Loop

/-! ## A distribution on balanced books -/

/-- What a distribution of `revenue` pays: every investor the part of the pool its principal
    stands for, rounded down, and the platform its fee. -/
structure SplitsRevenue (w : World Addr) (revenue : Int) (transfers : List (Transfer Addr)) :
    Prop where
  paid :
    let fee := revenue * w.campaign.config.platformFeeBps / 10000
    transfers = (holdersOf w.campaign.investments.entries).flatMap (fun e =>
        transferIfPositive w.contract e.1
          ((revenue - fee) * e.2 / w.campaign.state.totalRaised)) ++
      transferIfPositive w.contract w.campaign.config.admin fee
  le_revenue : (transfers.map Transfer.amount).sum ≤ revenue
  all_but_dust : 0 < w.campaign.state.totalRaised →
    revenue - (holdersOf w.campaign.investments.entries).length <
      (transfers.map Transfer.amount).sum

section Distribution

variable {w w' : World Addr} {env : Env Addr} {admin : Addr} {revenue : Int}

theorem holders_pos (w : World Addr) :
    ∀ e ∈ holdersOf w.campaign.investments.entries, 0 < e.2 := fun e he => by
  simpa using (List.mem_filter.mp he).2

theorem Escrow.Balanced.entries_nonneg (hb : w.escrow.Balanced) :
    ∀ e ∈ w.campaign.investments.entries, 0 ≤ e.2 := fun _ he =>
  hb.investments_nonneg.of_get? (HostMap.mem_entries_iff.mp he)

theorem Escrow.Balanced.holders_sum (hb : w.escrow.Balanced) :
    ((holdersOf w.campaign.investments.entries).map Prod.snd).sum =
      w.campaign.state.totalRaised := by
  unfold holdersOf
  rw [HostMap.sum_positive hb.entries_nonneg]
  exact hb.investments_total

theorem Escrow.Balanced.entry_le (hb : w.escrow.Balanced) :
    ∀ e ∈ w.campaign.investments.entries, e.2 ≤ w.campaign.state.totalRaised := by
  intro e he
  have htotal : (w.campaign.investments.entries.map Prod.snd).sum =
      w.campaign.state.totalRaised := hb.investments_total
  rw [← htotal]
  refine List.single_le_sum (fun v hv => ?_) e.2 (List.mem_map_of_mem he)
  obtain ⟨e', he', rfl⟩ := List.mem_map.mp hv
  exact hb.entries_nonneg e' he'

/-- The shares are all of the pool but for less than a unit each. -/
theorem Escrow.Balanced.pool_lt (hb : w.escrow.Balanced) {investorPool : Int}
    (hp : 0 ≤ investorPool) (hr : 0 < w.campaign.state.totalRaised) :
    investorPool - (holdersOf w.campaign.investments.entries).length <
      ((holdersOf w.campaign.investments.entries).map fun e =>
        prorata investorPool e.2 w.campaign.state.totalRaised).sum := by
  have hne : (holdersOf w.campaign.investments.entries).map Prod.snd ≠ [] := by
    intro hnil
    have hsum := hb.holders_sum
    rw [hnil, List.sum_nil] at hsum
    omega
  have hlt := mul_sum_lt_sum_prorata hp hr hne fun v hv => by
    obtain ⟨e, he, rfl⟩ := List.mem_map.mp hv
    exact (holders_pos w e he).le
  rw [hb.holders_sum, List.map_map, List.length_map] at hlt
  have hpool := lt_of_mul_lt_mul_right hlt hr.le
  exact sub_lt_iff_lt_add.mpr hpool

theorem Escrow.Balanced.shares_le (hb : w.escrow.Balanced) {investorPool : Int}
    (hp : 0 ≤ investorPool) :
    ((holdersOf w.campaign.investments.entries).map fun e =>
        prorata investorPool e.2 w.campaign.state.totalRaised).sum ≤ investorPool := by
  by_cases hr : 0 < w.campaign.state.totalRaised
  · have hnonneg : ∀ v ∈ (holdersOf w.campaign.investments.entries).map Prod.snd, 0 ≤ v := by
      intro v hv
      obtain ⟨e, he, rfl⟩ := List.mem_map.mp hv
      exact (holders_pos w e he).le
    have hle := sum_prorata_le hp hr hnonneg hb.holders_sum.le
    rwa [List.map_map] at hle
  · have hnone : holdersOf w.campaign.investments.entries = [] := by
      refine List.filter_eq_nil_iff.mpr fun e he => ?_
      have := hb.entry_le e he
      simp only [gt_iff_lt, decide_eq_true_eq, not_lt]
      omega
    rw [hnone]
    exact hp

/-- The transfers of a distribution, in order. -/
theorem distributeRevenue_transfers (hb : w.escrow.Balanced)
    (h : distributeRevenue env (w.enter env) admin revenue = .ok w') :
    0 < revenue ∧ w'.transfers =
      shareTransfers w.contract (revenue - w.campaign.config.fee revenue)
        w.campaign.state.totalRaised w.campaign.investments.entries ++
      transferIfPositive w.contract w.campaign.config.admin (w.campaign.config.fee revenue) := by
  cases moves_distributeRevenue h with
  | idle hi => exact absurd hi id
  | refundEnded hc => simp [Call.refundee] at hc
  | refundStake hc => simp [Call.refundee] at hc
  | @distributeRevenue _ _ fee w₁ _ hs hd hr hf hp hfee =>
    obtain rfl := platformFee_eq hf
    replace hfee : (if 0 < w.campaign.config.fee revenue then
        w₁.pay w.campaign.config.admin (w.campaign.config.fee revenue) else .ok w₁) = .ok w' := hfee
    have hshares := payShares_transfers (fun e he hpos => hpos.trans_le (hb.entry_le e he)) hp
    have hcontract : w₁.contract = w.contract := (payShares_onlyTransfers hp).contract_eq
    refine ⟨hr, ?_⟩
    unfold transferIfPositive
    by_cases hpos : 0 < w.campaign.config.fee revenue
    · rw [if_pos hpos] at hfee ⊢
      obtain ⟨_, rfl⟩ := pay_eq_ok.mp hfee
      rw [paid_transfers, hshares, hcontract]
      rfl
    · rw [if_neg hpos] at hfee ⊢
      obtain rfl := Except.ok.inj hfee
      rw [hshares, List.append_nil]
      rfl

theorem splits_of_distributeRevenue (hb : w.escrow.Balanced)
    (h : distributeRevenue env (w.enter env) admin revenue = .ok w') :
    SplitsRevenue w revenue w'.transfers := by
  obtain ⟨hr, htransfers⟩ := distributeRevenue_transfers hb h
  have hfee := fee_nonneg w.campaign.config hr.le
  have hpool : 0 ≤ revenue - w.campaign.config.fee revenue := by
    have hle : w.campaign.config.fee revenue ≤ revenue := fee_le hb.fee_le hr.le
    omega
  have hsum : (w'.transfers.map Transfer.amount).sum =
      ((holdersOf w.campaign.investments.entries).map fun e =>
        prorata (revenue - w.campaign.config.fee revenue) e.2
          w.campaign.state.totalRaised).sum + w.campaign.config.fee revenue := by
    have hraised : 0 ≤ w.campaign.state.totalRaised := hb.raised_nonneg
    rw [htransfers, List.map_append, List.sum_append, sum_shareTransfers w.contract hpool hraised,
      sum_transferIfPositive _ _ hfee]
  constructor
  case paid =>
    have hediv := fee_eq_ediv w.campaign.config hr.le
    dsimp only
    rw [htransfers, ← hediv]
    congr 1
    unfold shareTransfers
    refine List.flatMap_congr fun e he => ?_
    rw [prorata_eq_ediv hpool (holders_pos w e he).le]
  case le_revenue =>
    have hle := hb.shares_le hpool
    omega
  case all_but_dust =>
    intro hraised
    have hlt := hb.pool_lt hpool hraised
    omega

/-- The products of a distribution are `i128`s. -/
structure ProductsFit (w : World Addr) (revenue : Int) : Prop where
  revenue_fits : FitsI128 revenue
  fee_fits : FitsI128 (revenue * w.campaign.config.platformFeeBps)
  shares_fit : ∀ e ∈ w.campaign.investments.entries, 0 < e.2 →
    FitsI128 ((revenue - w.campaign.config.fee revenue) * e.2)

/-- A distribution that the checks let pass ends if the contract holds the revenue. -/
theorem distributeRevenue_ok (hb : w.escrow.Balanced) (hs : w.campaign.state.status = .delivered)
    (hd : w.campaign.distributed = false) (hauth : env.authorized admin = true)
    (hself : admin ≠ w.contract) (hadmin : admin = w.campaign.config.admin) (hr : 0 < revenue)
    (hfits : ProductsFit w revenue) (husdc : revenue ≤ w.usdc) :
    ∃ w', distributeRevenue env (w.enter env) admin revenue = .ok w' := by
  have hrevenue := hfits.revenue_fits
  unfold FitsI128 at hrevenue
  have hfee := fee_nonneg w.campaign.config hr.le
  have hle : w.campaign.config.fee revenue ≤ revenue := fee_le hb.fee_le hr.le
  have hpool : 0 ≤ revenue - w.campaign.config.fee revenue := by omega
  have hplatform : platformFee w.campaign.config revenue = .ok (w.campaign.config.fee revenue) := by
    unfold platformFee
    simp only [okOr_bind_eq_ok, okOr_eq_ok, checkedMul_eq_some, checkedDiv_eq_some]
    refine ⟨_, ⟨hfits.fee_fits, rfl⟩, by decide, ?_, rfl⟩
    change FitsI128 (w.campaign.config.fee revenue)
    unfold FitsI128
    omega
  have hpoolFits : FitsI128 (revenue - w.campaign.config.fee revenue) := by
    unfold FitsI128
    omega
  have hsum := sum_revenueShare_le hpool hb.investments_nonneg hb.investments_total
  let locked : World Addr :=
    { w.enter env with campaign.distributed := true, campaign.state.status := .completed }
  obtain ⟨w₁, hshares⟩ := payShares_ok (w := locked) hpool hpoolFits hfits.shares_fit
    hb.entry_le
    (hsum.trans (by change _ ≤ w.usdc; omega))
  have hleft : w.campaign.config.fee revenue ≤ w₁.usdc := by
    have hspent := (payShares_spends hpool hshares).bounded
    have husdc' : locked.usdc = w.usdc := rfl
    have hsum' : (w.campaign.investments.entries.map fun e => revenueShare
      (revenue - w.campaign.config.fee revenue) w.campaign.state.totalRaised e.2).sum ≤
        revenue - w.campaign.config.fee revenue := hsum
    omega
  obtain ⟨w', hlast⟩ : ∃ w', (if 0 < w.campaign.config.fee revenue then
      w₁.pay w.campaign.config.admin (w.campaign.config.fee revenue) else .ok w₁) = .ok w' := by
    split
    · exact ⟨_, pay_eq_ok.mpr ⟨hleft, rfl⟩⟩
    · exact ⟨w₁, rfl⟩
  refine ⟨w', ?_⟩
  unfold distributeRevenue
  rw [requireAdmin_bind_eq_ok]
  refine ⟨⟨hauth, hself⟩, hadmin, failIf_bind_eq_ok.mpr ⟨not_not.mpr hs, failIf_bind_eq_ok.mpr
    ⟨by simp [hd], failIf_bind_eq_ok.mpr ⟨not_le.mpr hr, ?_⟩⟩⟩⟩
  exact bind_eq_ok.mpr ⟨_, hplatform, okOr_bind_eq_ok.mpr
    ⟨_, checkedSub_eq_some.mpr ⟨hpoolFits, rfl⟩, bind_eq_ok.mpr ⟨w₁, hshares, hlast⟩⟩⟩

end Distribution

/-! ## Runs with revenue from outside -/

/-- A call of the contract, or USDC sent to it. -/
inductive Event (Addr : Type) where
  | call (inv : Invocation Addr)
  | deposit (amount : Nat)

def eventStep (w : World Addr) : Event Addr → Option (World Addr)
  | .call inv => callStep w inv
  | .deposit amount => some { w with usdc := w.usdc + amount }

/-- The event is a call of `distribute_revenue`. -/
def Event.distributes : Event Addr → Bool
  | .call ⟨_, .distributeRevenue _ _⟩ => true
  | _ => false

abbrev EventStep (Addr : Type) [LinearOrder Addr] := Step (World Addr) (Event Addr)

section Runs

variable {w w' : World Addr} {event : Event Addr}

theorem balanced_eventStep (hb : w.escrow.Balanced) (h : eventStep w event = some w') :
    w'.escrow.Balanced := by
  cases event with
  | call inv => exact (escrowStep_of_callStep hb h).2
  | deposit amount =>
    obtain rfl := Option.some.inj h
    have husdc : 0 ≤ w.usdc := hb.usdc_nonneg
    exact { hb with usdc_nonneg := by change 0 ≤ w.usdc + amount; omega }

/-- A distribution sets the flag it was refused under, and nothing clears it. -/
theorem distributed_eventStep (hb : w.escrow.Balanced) (h : eventStep w event = some w') :
    (event.distributes = true → w.campaign.distributed = false ∧ w'.campaign.distributed = true) ∧
      (w.campaign.distributed = true → w'.campaign.distributed = true) := by
  cases event with
  | deposit amount =>
    obtain rfl := Option.some.inj h
    exact ⟨fun hd => absurd hd (by simp [Event.distributes]), id⟩
  | call inv =>
    have hmove := (escrowStep_of_callStep hb h).1
    have hflag (w : World Addr) : w.campaign.distributed = w.escrow.distributed := rfl
    rw [hflag, hflag]
    constructor
    · intro hd
      obtain ⟨env, call⟩ := inv
      cases call with
      | distributeRevenue admin revenue =>
        replace hmove : EscrowStep w.escrow (.distribute revenue) w'.escrow := hmove
        generalize w'.escrow = e' at hmove ⊢
        cases hmove with
        | distribute hopen => exact ⟨hopen, rfl⟩
      | _ => simp [Event.distributes] at hd
    · intro hd
      generalize inv.call.effect w.campaign = effect at hmove
      generalize w'.escrow = e' at hmove ⊢
      cases hmove with
      | distribute hopen => rfl
      | _ => exact hd

theorem distributions_le {w₀ w : World Addr} {xs : List (EventStep Addr)}
    (hb : w₀.escrow.Balanced) (hr : Run eventStep w₀ xs w) :
    (xs.filter fun x => x.act.distributes).length ≤
      if w₀.campaign.distributed = true then 0 else 1 := by
  induction hr with
  | nil => simp
  | @cons w₀ w₁ w event xs hstep hr ih =>
    have hrest := ih (balanced_eventStep hb hstep)
    obtain ⟨hsets, hkeeps⟩ := distributed_eventStep hb hstep
    by_cases hd : event.distributes = true
    · obtain ⟨hopen, hclosed⟩ := hsets hd
      rw [hclosed] at hrest
      rw [hopen, List.filter_cons_of_pos (by simpa using hd)]
      simpa using hrest
    · rw [List.filter_cons_of_neg (by simpa using hd)]
      refine hrest.trans ?_
      by_cases hw : w₀.campaign.distributed = true
      · simp [hw, hkeeps hw]
      · rw [if_neg hw]
        split <;> simp

end Runs

/-- The campaign `w` is initialised and `xs` has happened to it since. -/
def EventRun (w : World Addr) (xs : List (EventStep Addr)) : Prop :=
  ∃ w₀, Initialized w₀ ∧ Run eventStep w₀ xs w

theorem EventRun.balanced {w : World Addr} {xs : List (EventStep Addr)} (h : EventRun w xs) :
    w.escrow.Balanced := by
  obtain ⟨w₀, hinit, hr⟩ := h
  exact hr.invariant (fun w => w.escrow.Balanced) hinit.fresh.balanced fun x _ hs hb =>
    balanced_eventStep hb hs

/-- What is distributed in a delivered campaign: the call ends if the products fit and the
    contract holds the revenue; it pays the investors their parts, rounded down, and the platform
    its fee, which is at most the revenue and, while any principal is left, more than the revenue
    less the number of investors; and at most one such call succeeds in a run. -/
theorem revenue_split {w : World Addr} {xs : List (EventStep Addr)} (h : EventRun w xs) :
    (∀ env admin revenue, w.campaign.state.status = .delivered → w.campaign.distributed = false →
      env.authorized admin = true → admin ≠ w.contract → admin = w.campaign.config.admin →
      0 < revenue → ProductsFit w revenue → revenue ≤ w.usdc →
      ∃ w', distributeRevenue env (w.enter env) admin revenue = .ok w') ∧
    (∀ env admin revenue w', distributeRevenue env (w.enter env) admin revenue = .ok w' →
      SplitsRevenue w revenue w'.transfers) ∧
    (xs.filter fun x => x.act.distributes).length ≤ 1 := by
  have hb := h.balanced
  refine ⟨fun env admin revenue hs hd hauth hself hadmin hr hfits husdc =>
    distributeRevenue_ok hb hs hd hauth hself hadmin hr hfits husdc, fun env admin revenue w' hok =>
    splits_of_distributeRevenue hb hok, ?_⟩
  obtain ⟨w₀, hinit, hr⟩ := h
  refine (distributions_le hinit.fresh.balanced hr).trans ?_
  split <;> simp

/-- The sample campaign with a number of milestones, and what happened to it. -/
def sampleEvents (milestoneCount : Nat) (calls : List (Nat × Call Nat)) (revenue : Nat) :
    List (EventStep Nat) × World Nat :=
  replay eventStep { sampleWorld with campaign := .initial { sampleConfig with milestoneCount } }
    (calls.map (fun e => .call ⟨sampleEnv e.1, e.2⟩) ++ [.deposit revenue])

theorem sampleEvents_run (milestoneCount : Nat) (calls : List (Nat × Call Nat)) (revenue : Nat) :
    EventRun (sampleEvents milestoneCount calls revenue).2
      (sampleEvents milestoneCount calls revenue).1 :=
  ⟨_, ⟨sampleEnv 0, 0, 1, 2, 3, 10000, 15000, 1000, ⟨200, milestoneCount, 9800⟩,
    ⟨"maize", "maize"⟩, _, rfl, rfl⟩, run_replay _ _ _⟩

/-- Two investors, both milestones released, and revenue of 5000. -/
def deliveredCalls : List (Nat × Call Nat) :=
  [(1, .invest 10 6000), (2, .invest 11 4000), (3, .approve 0), (4, .releaseMilestone 0 0),
    (5, .releaseMilestone 0 1)]

theorem revenue_split_sample :
    let w := (sampleEvents 2 deliveredCalls 5000).2
    ∃ w', distributeRevenue (sampleEnv 6) (w.enter (sampleEnv 6)) 0 5000 = .ok w' ∧
      SplitsRevenue w 5000 w'.transfers := by
  obtain ⟨hok, hsplit, _⟩ := revenue_split (sampleEvents_run 2 deliveredCalls 5000)
  obtain ⟨w', hw'⟩ := hok (sampleEnv 6) 0 5000 (by decide +kernel) (by decide +kernel) rfl
    (by decide +kernel) (by decide +kernel) (by decide)
    ⟨by decide, by decide +kernel, by decide +kernel⟩ (by decide +kernel)
  exact ⟨w', hw', hsplit _ _ _ _ hw'⟩

/-- The only investor takes the principal back while the campaign is paused, and the Release
    verdict on the only milestone is executed after that. -/
def deliveredEmptyCalls : List (Nat × Call Nat) :=
  [(1, .invest 10 10000), (2, .approve 0), (3, .raiseDispute 10 0), (4, .castDisputeVote 2 0 true),
    (5, .pause 0), (2000, .refund 10), (2001, .resolveDispute 2 0)]

/-- With nobody's principal left the pool stays in the contract. -/
theorem revenue_split_bound_fails :
    ¬ ∀ (w : World Nat) (xs : List (EventStep Nat)), EventRun w xs →
      w.campaign.state.status = .delivered → ∀ env admin revenue w',
      distributeRevenue env (w.enter env) admin revenue = .ok w' →
      revenue - w.campaign.investments.entries.length < (w'.transfers.map Transfer.amount).sum := by
  intro h
  have hone : (sampleEvents 1 deliveredEmptyCalls 1000).2.campaign.investments.entries.length = 1 :=
    by decide +kernel
  have hsum : (distributeRevenue (sampleEnv 3000)
      ((sampleEvents 1 deliveredEmptyCalls 1000).2.enter (sampleEnv 3000)) 0 1000).map
        (fun w => (w.transfers.map Transfer.amount).sum) = .ok 20 := by decide +kernel
  have hbound := h _ _ (sampleEvents_run 1 deliveredEmptyCalls 1000) (by decide +kernel)
    (sampleEnv 3000) 0 1000
  cases hok : distributeRevenue (sampleEnv 3000)
      ((sampleEvents 1 deliveredEmptyCalls 1000).2.enter (sampleEnv 3000)) 0 1000 with
  | error e => simp [hok, Except.map] at hsum
  | ok w' =>
    rw [hok] at hsum
    have hpaid : (w'.transfers.map Transfer.amount).sum = 20 := Except.ok.inj hsum
    have hlt := hbound w' hok
    rw [hone, hpaid] at hlt
    omega

end AgriFi.FarmCampaign
