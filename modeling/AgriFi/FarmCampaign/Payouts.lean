import AgriFi.Prorata
import AgriFi.FarmCampaign.Contract

/-
  The payout arithmetic of the contract: the platform fee, a milestone's tranche, a partial
  release and the revenue shares as pro rata parts, and what the payout loop of
  `distribute_revenue` does: it changes nothing but the balance (`OnlyTransfers`), and what it
  costs (`Spends`) is at most the revenue it was called with (`distributeRevenue_spends`).
-/

namespace AgriFi.FarmCampaign

open AgriFi.Soroban

variable {Addr : Type}

/-! ## Fee, tranche, partial release -/

/-- The platform's part of an amount. -/
def Config.fee (config : Config Addr) (amount : Int) : Int :=
  prorata amount config.platformFeeBps 10000

/-- What the farmer gets out of `totalRaised` over all milestones. -/
def Config.farmerPool (config : Config Addr) (totalRaised : Int) : Int :=
  totalRaised - config.fee totalRaised

def Config.tranche (config : Config Addr) (totalRaised : Int) : Int :=
  (config.farmerPool totalRaised).tdiv config.milestoneCount

theorem platformFee_eq {config : Config Addr} {amount fee : Int}
    (h : platformFee config amount = .ok fee) : fee = config.fee amount := by
  unfold platformFee at h
  simp only [okOr_bind_eq_ok, okOr_eq_ok, checkedMul_eq_some, checkedDiv_eq_some] at h
  obtain ⟨_, ⟨_, rfl⟩, _, _, rfl⟩ := h
  rfl

theorem trancheAmount_eq {config : Config Addr} {totalRaised tranche : Int}
    (h : trancheAmount config totalRaised = .ok tranche) :
    tranche = config.tranche totalRaised := by
  unfold trancheAmount at h
  obtain ⟨fee, hf, h⟩ := bind_eq_ok.mp h
  obtain rfl := platformFee_eq hf
  simp only [okOr_bind_eq_ok, okOr_eq_ok, checkedSub_eq_some, checkedDiv_eq_some] at h
  obtain ⟨_, ⟨_, rfl⟩, _, _, rfl⟩ := h
  rfl

theorem partialReleaseAmount_eq {totalRaised amount : Int} {amountBps capBps releasedBps : Nat}
    (h : checkedPartialReleaseAmount totalRaised amountBps capBps releasedBps = .ok amount) :
    amount = prorata totalRaised amountBps 10000 ∧ releasedBps + amountBps ≤ capBps := by
  unfold checkedPartialReleaseAmount at h
  simp only [failIf_bind_eq_ok, okOr_bind_eq_ok, okOr_eq_ok, checkedAddU_eq_some,
    checkedMul_eq_some, checkedDiv_eq_some, not_lt] at h
  obtain ⟨_, _, ⟨_, rfl⟩, hcap, _, ⟨_, rfl⟩, _, _, rfl⟩ := h
  exact ⟨rfl, hcap⟩

theorem fee_eq_ediv (config : Config Addr) {amount : Int} (ha : 0 ≤ amount) :
    config.fee amount = amount * config.platformFeeBps / 10000 :=
  prorata_eq_ediv ha (Int.natCast_nonneg _)

theorem fee_nonneg (config : Config Addr) {amount : Int} (ha : 0 ≤ amount) :
    0 ≤ config.fee amount :=
  prorata_nonneg ha (Int.natCast_nonneg _) (by omega)

theorem fee_le {config : Config Addr} (hbps : config.platformFeeBps ≤ 10000) {amount : Int}
    (ha : 0 ≤ amount) : config.fee amount ≤ amount :=
  prorata_le ha (Int.natCast_nonneg _) (by omega) (by omega)

theorem farmerPool_zero (config : Config Addr) : config.farmerPool 0 = 0 := by
  simp [Config.farmerPool, Config.fee, prorata]

/-- A larger raise leaves the farmer no less. -/
theorem farmerPool_mono {config : Config Addr} (hbps : config.platformFeeBps ≤ 10000) {a b : Int}
    (ha : 0 ≤ a) (hab : a ≤ b) : config.farmerPool a ≤ config.farmerPool b := by
  have hmul : (b - a) * config.platformFeeBps ≤ (b - a) * 10000 :=
    mul_le_mul_of_nonneg_left (by omega) (by omega)
  rw [sub_mul] at hmul
  unfold Config.farmerPool
  rw [fee_eq_ediv config ha, fee_eq_ediv config (ha.trans hab)]
  omega

theorem tranche_nonneg {config : Config Addr} (hbps : config.platformFeeBps ≤ 10000)
    {totalRaised : Int} (hr : 0 ≤ totalRaised) : 0 ≤ config.tranche totalRaised := by
  have hpool : 0 ≤ config.farmerPool totalRaised := by
    unfold Config.farmerPool
    have := fee_le hbps hr
    omega
  exact Int.tdiv_nonneg hpool (Int.natCast_nonneg _)

/-! ## Revenue shares -/

def revenueShare (investorPool totalRaised invested : Int) : Int :=
  if invested > 0 ∧ totalRaised > 0 then prorata investorPool invested totalRaised else 0

theorem revenueShare_nonneg {investorPool : Int} (hp : 0 ≤ investorPool)
    (totalRaised invested : Int) : 0 ≤ revenueShare investorPool totalRaised invested := by
  unfold revenueShare
  split
  · next h => exact prorata_nonneg hp h.1.le h.2.le
  · exact le_rfl

variable [LinearOrder Addr]

/-- The shares of a whole ledger fit in the pool they are cut from. -/
theorem sum_revenueShare_le {investorPool totalRaised : Int} {m : HostMap Addr Int}
    (hp : 0 ≤ investorPool) (hm : m.Nonneg) (ht : m.total = totalRaised) :
    (m.entries.map fun e => revenueShare investorPool totalRaised e.2).sum ≤ investorPool := by
  by_cases hr : 0 < totalRaised
  · have hshare : ∀ e ∈ m.entries, revenueShare investorPool totalRaised e.2 =
        prorata investorPool e.2 totalRaised := by
      intro e he
      have hv : 0 ≤ e.2 := hm.of_get? (HostMap.mem_entries_iff.mp he)
      unfold revenueShare
      rcases hv.lt_or_eq with hv | hv
      · rw [if_pos ⟨hv, hr⟩]
      · simp [← hv, prorata]
    rw [List.map_congr_left hshare]
    have hw : ∀ v ∈ m.entries.map Prod.snd, 0 ≤ v := by
      intro v hv
      obtain ⟨e, he, rfl⟩ := List.mem_map.mp hv
      exact hm.of_get? (HostMap.mem_entries_iff.mp he)
    have hsum := sum_prorata_le hp hr hw ht.le
    rwa [List.map_map] at hsum
  · have hzero : ∀ e ∈ m.entries, revenueShare investorPool totalRaised e.2 = 0 := by
      intro e _
      exact if_neg fun h => hr h.2
    rw [List.map_congr_left hzero]
    simpa using hp

/-! ## What a series of transfers does -/

variable {w w₁ w' : World Addr}

/-- Nothing but the balance and the transfers differs. -/
structure OnlyTransfers (w w' : World Addr) : Prop where
  campaign_eq : w'.campaign = w.campaign
  contract_eq : w'.contract = w.contract
  now_eq : w'.now = w.now

theorem OnlyTransfers.refl (w : World Addr) : OnlyTransfers w w := ⟨rfl, rfl, rfl⟩

theorem OnlyTransfers.trans (h₁ : OnlyTransfers w w₁) (h₂ : OnlyTransfers w₁ w') :
    OnlyTransfers w w' :=
  ⟨h₂.campaign_eq.trans h₁.campaign_eq, h₂.contract_eq.trans h₁.contract_eq,
    h₂.now_eq.trans h₁.now_eq⟩

theorem OnlyTransfers.of_pay {dst : Addr} {amount : Int} (h : w.pay dst amount = .ok w') :
    OnlyTransfers w w' := by
  obtain ⟨_, rfl⟩ := pay_eq_ok.mp h
  exact ⟨rfl, rfl, rfl⟩

theorem payShares_onlyTransfers {investorPool totalRaised : Int} {l : List (Addr × Int)}
    (h : payShares investorPool totalRaised l w = .ok w') : OnlyTransfers w w' := by
  induction l generalizing w with
  | nil =>
    obtain rfl := Except.ok.inj h
    exact .refl w
  | cons e l ih =>
    unfold payShares at h
    split at h
    · simp only [okOr_bind_eq_ok] at h
      obtain ⟨_, _, share, _, h⟩ := h
      split at h
      · obtain ⟨w₁, hpay, h⟩ := bind_eq_ok.mp h
        exact (OnlyTransfers.of_pay hpay).trans (ih h)
      · exact ih h
    · exact ih h

/-- The payouts of a distribution leave the storage as it was written before them. -/
theorem distribution_onlyTransfers {investorPool totalRaised fee : Int} {l : List (Addr × Int)}
    {admin : Addr} (hs : payShares investorPool totalRaised l w = .ok w₁)
    (h : (if 0 < fee then w₁.pay admin fee else .ok w₁) = .ok w') : OnlyTransfers w w' := by
  refine (payShares_onlyTransfers hs).trans ?_
  split at h
  · exact .of_pay h
  · obtain rfl := Except.ok.inj h
    exact .refl w₁

/-- The transfers between `w` and `w'` cost at most `bound` and do not overdraw the contract. -/
structure Spends (w : World Addr) (bound : Int) (w' : World Addr) : Prop where
  bounded : w.usdc - bound ≤ w'.usdc
  nonneg : 0 ≤ w.usdc → 0 ≤ w'.usdc

theorem Spends.refl (w : World Addr) : Spends w 0 w := ⟨by omega, id⟩

theorem Spends.trans {a b : Int} (h₁ : Spends w a w₁) (h₂ : Spends w₁ b w') :
    Spends w (a + b) w' where
  bounded := by
    have h1 := h₁.bounded
    have h2 := h₂.bounded
    omega
  nonneg h := h₂.nonneg (h₁.nonneg h)

theorem Spends.of_pay {dst : Addr} {amount : Int} (ha : 0 ≤ amount)
    (h : w.pay dst amount = .ok w') : Spends w amount w' := by
  obtain ⟨hb, rfl⟩ := pay_eq_ok.mp h
  have hle := le_paid_usdc w dst ha
  exact ⟨hle, fun _ => by omega⟩

/-- One round of the payout loop. -/
theorem payShares_cons {investorPool totalRaised invested : Int} {investor : Addr}
    {rest : List (Addr × Int)} (hp : 0 ≤ investorPool)
    (h : payShares investorPool totalRaised ((investor, invested) :: rest) w = .ok w') :
    ∃ w₁, Spends w (revenueShare investorPool totalRaised invested) w₁ ∧
      payShares investorPool totalRaised rest w₁ = .ok w' := by
  have hnn := revenueShare_nonneg hp totalRaised invested
  unfold payShares at h
  split at h
  · next hpos =>
    simp only [okOr_bind_eq_ok, checkedMul_eq_some, checkedDiv_eq_some] at h
    obtain ⟨_, ⟨_, rfl⟩, _, ⟨_, _, rfl⟩, h⟩ := h
    have hshare : revenueShare investorPool totalRaised invested =
        (investorPool * invested).tdiv totalRaised := if_pos hpos
    rw [hshare] at hnn ⊢
    split at h
    · obtain ⟨w₁, hpay, h⟩ := bind_eq_ok.mp h
      exact ⟨w₁, .of_pay hnn hpay, h⟩
    · next hz =>
      have hzero : (investorPool * invested).tdiv totalRaised = 0 := by omega
      rw [hzero]
      exact ⟨w, .refl w, h⟩
  · next hneg =>
    refine ⟨w, ?_, h⟩
    have hzero : revenueShare investorPool totalRaised invested = 0 := if_neg hneg
    rw [hzero]
    exact .refl w

theorem payShares_spends {investorPool totalRaised : Int} {l : List (Addr × Int)}
    (hp : 0 ≤ investorPool) (h : payShares investorPool totalRaised l w = .ok w') :
    Spends w (l.map fun e => revenueShare investorPool totalRaised e.2).sum w' := by
  induction l generalizing w with
  | nil =>
    obtain rfl := Except.ok.inj h
    exact .refl w
  | cons e l ih =>
    obtain ⟨w₁, hone, hrest⟩ := payShares_cons hp h
    exact hone.trans (ih hrest)

/-- A distribution costs the escrow at most the revenue it is called with. -/
theorem distributeRevenue_spends {config : Config Addr} {revenue fee totalRaised : Int}
    {m : HostMap Addr Int} (hbps : config.platformFeeBps ≤ 10000) (hr : 0 ≤ revenue)
    (hm : m.Nonneg) (ht : m.total = totalRaised) (hf : platformFee config revenue = .ok fee)
    (hs : payShares (revenue - fee) totalRaised m.entries w = .ok w₁)
    (h : (if 0 < fee then w₁.pay config.admin fee else .ok w₁) = .ok w') :
    Spends w revenue w' := by
  obtain rfl := platformFee_eq hf
  have hfee := fee_nonneg config hr
  have hpool : 0 ≤ revenue - config.fee revenue := by
    have := fee_le hbps hr
    omega
  have hshares := payShares_spends hpool hs
  have hsum := sum_revenueShare_le hpool hm ht
  have htail : Spends w₁ (config.fee revenue) w' := by
    split at h
    · exact .of_pay hfee h
    · obtain rfl := Except.ok.inj h
      have hz : config.fee revenue = 0 := by omega
      rw [hz]
      exact .refl w₁
  have hall := hshares.trans htail
  exact ⟨by have := hall.bounded; omega, hall.nonneg⟩

end AgriFi.FarmCampaign
