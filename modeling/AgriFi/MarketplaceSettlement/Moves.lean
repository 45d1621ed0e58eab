import AgriFi.MarketplaceSettlement.Contract
import AgriFi.Prorata
import Mathlib.Algebra.BigOperators.Ring.Finset

/-
  What a successful call does. Of an order's amount the platform takes its fee, the investors a
  pool split pro rata with the remainder to the last, and the farmer the rest: `Order.payout`.
  `confirm_delivery` pays that when the fee fits in the amount. A larger fee leaves a negative
  rest, of which nothing is paid, but the fee itself is sent (`Moves.overcharge`).
-/

namespace AgriFi.MarketplaceSettlement

open AgriFi.Soroban AgriFi.Runs
open AgriFi.Soroban.Vault (requireAuth)

variable {Addr Id : Type}

/-! ## What an order pays -/

namespace Order

def platformFee (o : Order Addr Id) : Int := prorata o.amount o.platformFeeBps 10000

def distributable (o : Order Addr Id) : Int := o.amount - o.platformFee

def totalBps (o : Order Addr Id) : Nat := (o.investorShares.map InvestorShare.shareBps).sum

def investorPool (o : Order Addr Id) : Int := prorata o.distributable o.totalBps 10000

def farmerAmount (o : Order Addr Id) : Int := o.distributable - o.investorPool

/-- The investors' parts of the pool, rounded down. -/
def investorParts (o : Order Addr Id) : List Int :=
  o.investorShares.map fun s => prorata o.investorPool s.shareBps o.totalBps

def investorAmounts (o : Order Addr Id) : List Int :=
  remainderToLast o.investorPool o.investorParts

/-- What a delivery pays: the farmer, the investors, and `admin` the fee. -/
def payout (o : Order Addr Id) (admin : Addr) : List (Addr × Int) :=
  (o.farmer, o.farmerAmount) ::
    ((o.investorShares.map InvestorShare.investor).zip o.investorAmounts ++
      [(admin, o.platformFee)])

/-- The fee, rounded down, is at most the amount. -/
def FeeFits (o : Order Addr Id) : Prop := o.amount * o.platformFeeBps < (o.amount + 1) * 10000

instance (o : Order Addr Id) : Decidable o.FeeFits := inferInstanceAs (Decidable (_ < _))

/-- What `create_order` checks. -/
structure Valid (o : Order Addr Id) : Prop where
  amount_pos : 0 < o.amount
  bps_le : o.totalBps ≤ 9800

variable {o : Order Addr Id}

theorem platformFee_nonneg (h : o.Valid) : 0 ≤ o.platformFee :=
  prorata_nonneg h.amount_pos.le (Int.natCast_nonneg _) (by decide)

theorem feeFits_iff (h : o.Valid) : o.FeeFits ↔ o.platformFee ≤ o.amount := by
  have hdiv : o.platformFee = o.amount * o.platformFeeBps / 10000 :=
    prorata_eq_ediv h.amount_pos.le (Int.natCast_nonneg _)
  have hlt : o.amount * o.platformFeeBps / 10000 < o.amount + 1 ↔
      o.amount * o.platformFeeBps < (o.amount + 1) * 10000 :=
    Int.ediv_lt_iff_lt_mul (by decide)
  unfold FeeFits
  rw [hdiv]
  omega

theorem bps_le_ten_thousand (h : o.Valid) : (o.totalBps : Int) ≤ 10000 := by
  have := h.bps_le
  omega

theorem investorPool_nonneg (hd : 0 ≤ o.distributable) : 0 ≤ o.investorPool :=
  prorata_nonneg hd (Int.natCast_nonneg _) (by decide)

theorem investorPool_le (h : o.Valid) (hd : 0 ≤ o.distributable) :
    o.investorPool ≤ o.distributable :=
  prorata_le hd (Int.natCast_nonneg _) (by decide) (bps_le_ten_thousand h)

/-- Of a negative rest the pool is at least as large as the rest itself, and not positive. -/
theorem investorPool_of_neg (h : o.Valid) (hd : o.distributable < 0) :
    o.distributable ≤ o.investorPool ∧ o.investorPool ≤ 0 := by
  have hle := prorata_le (neg_nonneg.mpr hd.le) (Int.natCast_nonneg o.totalBps)
    (by decide : (0 : Int) < 10000) (bps_le_ten_thousand h)
  rw [prorata_neg] at hle
  exact ⟨neg_le_neg_iff.mp hle, prorata_nonpos hd.le (Int.natCast_nonneg _) (by decide)⟩

theorem investorParts_nonneg (hp : 0 ≤ o.investorPool) : ∀ a ∈ o.investorParts, 0 ≤ a := by
  intro a ha
  obtain ⟨s, _, rfl⟩ := List.mem_map.mp ha
  exact prorata_nonneg hp (Int.natCast_nonneg _) (Int.natCast_nonneg _)

theorem sum_investorParts_le (hp : 0 ≤ o.investorPool) : o.investorParts.sum ≤ o.investorPool := by
  have hparts : o.investorParts = (o.investorShares.map fun s => (s.shareBps : Int)).map
      fun w => prorata o.investorPool w o.totalBps := by
    simp [investorParts]
  have hsum : (o.investorShares.map fun s => (s.shareBps : Int)).sum = o.totalBps := by
    rw [totalBps, Nat.cast_list_sum, List.map_map]
    rfl
  rcases Nat.eq_zero_or_pos o.totalBps with hz | hpos
  · have hzero : ∀ a ∈ o.investorParts, a = 0 := by
      intro a ha
      obtain ⟨s, _, rfl⟩ := List.mem_map.mp ha
      simp [prorata, hz]
    rw [List.sum_eq_zero hzero]
    exact hp
  · rw [hparts]
    refine sum_prorata_le hp (by exact_mod_cast hpos) ?_ hsum.le
    intro w hw
    obtain ⟨s, _, rfl⟩ := List.mem_map.mp hw
    exact Int.natCast_nonneg _

theorem investorAmounts_nonneg (hp : 0 ≤ o.investorPool) : ∀ a ∈ o.investorAmounts, 0 ≤ a :=
  remainderToLast_nonneg (investorParts_nonneg hp) (sum_investorParts_le hp)

end Order

/-! ## Moves -/

section Moves

variable [LinearOrder Id]

def setOrder (w : World Addr Id) (id : Id) (o : Order Addr Id) : World Addr Id :=
  { w with storage.orders := w.storage.orders.set id o }

@[simp] theorem setOrder_orders (w : World Addr Id) (id : Id) (o : Order Addr Id) :
    (setOrder w id o).storage.orders = w.storage.orders.set id o := rfl

@[simp] theorem setOrder_admin (w : World Addr Id) (id : Id) (o : Order Addr Id) :
    (setOrder w id o).storage.admin = w.storage.admin := rfl

@[simp] theorem setOrder_contract (w : World Addr Id) (id : Id) (o : Order Addr Id) :
    (setOrder w id o).contract = w.contract := rfl

@[simp] theorem setOrder_balance (w : World Addr Id) (id : Id) (o : Order Addr Id) :
    (setOrder w id o).balance = w.balance := rfl

@[simp] theorem setOrder_payments (w : World Addr Id) (id : Id) (o : Order Addr Id) :
    (setOrder w id o).payments = w.payments := rfl

def countOrder (w : World Addr Id) : World Addr Id :=
  { w with storage.orderCount := w.storage.orderCount + 1 }

/-- The order under `id`, when it is pending. -/
def Market.Pending (m : Market Addr Id) (id : Id) (o : Order Addr Id) : Prop :=
  m.orders.get? id = some o ∧ o.status = .pending

/-- Every order stored is one that `create_order` accepts, and its buyer signed for it. -/
def Market.Sound (contract : Addr) (m : Market Addr Id) : Prop :=
  ∀ id o, m.orders.get? id = some o → o.Valid ∧ o.buyer ≠ contract

variable [DecidableEq Addr]

inductive Moves (led : Ledger Addr) (w : World Addr Id) : Call Addr Id → World Addr Id → Prop
  | view : Moves led w .view w
  | create {id : Id} {o : Order Addr Id} :
      o.buyer ≠ w.contract → w.storage.orders.get? id = none → o.Valid → o.status = .pending →
      o.platformFeeBps = w.storage.platformFeeBps →
      Moves led w (.createOrder o.buyer id o.farmer o.amount o.investorShares)
        ((countOrder (setOrder w id o)).received o.buyer o.amount)
  | deliver {admin : Addr} {id : Id} {o : Order Addr Id} :
      admin = w.storage.admin → admin ≠ w.contract → w.storage.Pending id o → o.FeeFits →
      Moves led w (.confirmDelivery admin id)
        ((setOrder w id { o with status := .completed }).sentEach (o.payout admin))
  | overcharge {admin : Addr} {id : Id} {o : Order Addr Id} :
      admin = w.storage.admin → admin ≠ w.contract → w.storage.Pending id o →
      o.amount < o.platformFee →
      Moves led w (.confirmDelivery admin id)
        ((setOrder w id { o with status := .completed }).sent admin o.platformFee)
  | refund {admin : Addr} {id : Id} {o : Order Addr Id} :
      admin = w.storage.admin → w.storage.Pending id o →
      Moves led w (.refundBuyer admin id)
        ((setOrder w id { o with status := .refunded }).sent o.buyer o.amount)

end Moves

/-! ## Inversion of the entry points -/

variable [DecidableEq Addr] [LinearOrder Id] {led : Ledger Addr} {w w' : World Addr Id}
  {admin : Addr} {id : Id}

omit [DecidableEq Addr] in
theorem totalInvestorBps_eq_ok {l : List (InvestorShare Addr)} {acc t : Nat}
    (h : totalInvestorBps l acc = .ok t) : t = acc + (l.map InvestorShare.shareBps).sum := by
  induction l generalizing acc with
  | nil => exact (Except.ok.inj h).symm
  | cons s l ih =>
    unfold totalInvestorBps at h
    simp only [okOr_bind_eq_ok, checkedAddU_eq_some] at h
    obtain ⟨_, ⟨_, rfl⟩, h⟩ := h
    rw [ih h, List.map_cons, List.sum_cons, Nat.add_assoc]

theorem loadPending_eq_ok {o : Order Addr Id} (h : loadPending led w admin id = .ok o) :
    admin = w.storage.admin ∧ admin ≠ w.contract ∧ w.storage.Pending id o := by
  unfold loadPending at h
  simp only [Vault.requireAuth_bind_eq_ok, failIf_bind_eq_ok, okOr_bind_eq_ok, pure_eq_ok,
    Except.ok.injEq, not_not] at h
  obtain ⟨_, hc, ha, _, hg, hs, rfl⟩ := h
  exact ⟨ha, hc, hg, hs⟩

theorem sendIfPositive_eq_ok {dst : Addr} {amount : Int}
    (h : sendIfPositive w dst amount = .ok w') : w' = w.sentIfPositive dst amount := by
  unfold sendIfPositive at h
  unfold Vault.sentIfPositive
  split at h
  · next hpos => rw [if_pos hpos, (Vault.send_eq_ok.mp h).2.2]
  · next hpos => rw [if_neg hpos, Except.ok.inj h]

/-! ### The investor loop -/

omit [DecidableEq Addr] in
theorem investorAmount_eq_ok {pool paid amount : Int} {total : Nat} {s : InvestorShare Addr}
    {rest : List (InvestorShare Addr)}
    (h : investorAmount pool total s rest paid = .ok amount) :
    amount = if rest = [] then pool - paid else prorata pool s.shareBps total := by
  unfold investorAmount at h
  split at h
  · next hr =>
    rw [if_pos (List.isEmpty_iff.mp hr)]
    exact ((checkedSub_eq_some.mp (okOr_eq_ok.mp h)).2).symm
  · next hr =>
    rw [if_neg (mt List.isEmpty_iff.mpr hr)]
    split at h
    · simp only [okOr_bind_eq_ok, okOr_eq_ok, checkedMul_eq_some, checkedDiv_eq_some] at h
      obtain ⟨_, ⟨_, rfl⟩, _, _, rfl⟩ := h
      rfl
    · next ht =>
      have hz : total = 0 := by omega
      rw [← Except.ok.inj h, hz]
      simp [prorata]

/-- The loop sends what is left of the pool pro rata, and the last investor the remainder. -/
theorem payInvestors_eq_ok {pool paid : Int} {total : Nat} {l : List (InvestorShare Addr)}
    (hp : 0 ≤ pool) (h : payInvestors pool total l paid w = .ok w') :
    w' = w.sentEach ((l.map InvestorShare.investor).zip
      (remainderToLast (pool - paid) (l.map fun s => prorata pool s.shareBps total))) := by
  induction l generalizing paid w with
  | nil => exact (Except.ok.inj h).symm
  | cons s l ih =>
    unfold payInvestors at h
    obtain ⟨amount, ha, h⟩ := bind_eq_ok.mp h
    have hamount := investorAmount_eq_ok ha
    cases l with
    | nil =>
      rw [if_pos rfl] at hamount
      subst hamount
      change w' = w.sentIfPositive s.investor (pool - paid)
      unfold Vault.sentIfPositive
      split at h
      · next hpos =>
        obtain ⟨u, hu, h⟩ := bind_eq_ok.mp h
        obtain ⟨_, _, rfl⟩ := Vault.send_eq_ok.mp hu
        simp only [okOr_bind_eq_ok] at h
        obtain ⟨_, _, h⟩ := h
        rw [if_pos hpos, Except.ok.inj h]
      · next hpos => rw [if_neg hpos, Except.ok.inj h]
    | cons s' l =>
      rw [if_neg (by simp)] at hamount
      have hnonneg : 0 ≤ amount := by
        rw [hamount]
        exact prorata_nonneg hp (Int.natCast_nonneg _) (Int.natCast_nonneg _)
      -- the rest of the loop runs on the world and the pool that this round leaves
      have hrest : payInvestors pool total (s' :: l) (paid + amount)
          (w.sentIfPositive s.investor amount) = .ok w' := by
        unfold Vault.sentIfPositive
        split at h
        · next hpos =>
          obtain ⟨u, hu, h⟩ := bind_eq_ok.mp h
          obtain ⟨_, _, rfl⟩ := Vault.send_eq_ok.mp hu
          simp only [okOr_bind_eq_ok, checkedAdd_eq_some] at h
          obtain ⟨_, ⟨_, rfl⟩, h⟩ := h
          rw [if_pos hpos]
          exact h
        · next hpos =>
          have hz : amount = 0 := by omega
          rw [if_neg hpos, hz, add_zero]
          exact h
      rw [ih hrest, ← sub_sub, hamount]
      rfl

/-- Of a negative pool nobody is paid. -/
theorem payInvestors_of_nonpos {pool : Int} {total : Nat} {l : List (InvestorShare Addr)}
    (hp : pool ≤ 0) (h : payInvestors pool total l 0 w = .ok w') : w' = w := by
  induction l with
  | nil => exact (Except.ok.inj h).symm
  | cons s l ih =>
    unfold payInvestors at h
    obtain ⟨amount, ha, h⟩ := bind_eq_ok.mp h
    have hamount := investorAmount_eq_ok ha
    have hnonpos : amount ≤ 0 := by
      split at hamount
      · omega
      · rw [hamount]
        exact prorata_nonpos hp (Int.natCast_nonneg _) (Int.natCast_nonneg _)
    rw [if_neg (by omega)] at h
    exact ih h

/-! ### Calls -/

theorem moves_createOrder {buyer farmer : Addr} {amount : Int}
    {investorShares : List (InvestorShare Addr)}
    (h : createOrder led w buyer id farmer amount investorShares = .ok w') :
    Moves led w (.createOrder buyer id farmer amount investorShares) w' := by
  unfold createOrder at h
  simp only [Vault.requireAuth_bind_eq_ok, failIf_bind_eq_ok, not_le, gt_iff_lt,
    Bool.not_eq_true, Option.isSome_eq_false_iff, Option.isNone_iff_eq_none] at h
  obtain ⟨_, hb, ha, hn, h⟩ := h
  obtain ⟨total, ht, h⟩ := bind_eq_ok.mp h
  simp only [failIf_bind_eq_ok, okOr_bind_eq_ok, checkedAddU_eq_some, not_lt] at h
  obtain ⟨htotal, _, ⟨_, rfl⟩, h⟩ := h
  obtain rfl := Vault.receive_eq_ok h
  have hbps := totalInvestorBps_eq_ok ht
  rw [Nat.zero_add] at hbps
  exact .create (o := ⟨id, buyer, farmer, amount, w.storage.platformFeeBps, .pending,
    led.timestamp, investorShares⟩) hb hn ⟨ha, hbps.symm.le.trans htotal⟩ rfl rfl

/-- The transfers of `confirm_delivery`, made once the order is marked as completed. -/
theorem moves_payout {o : Order Addr Id} {pool : Int} (hvalid : o.Valid)
    (hpool : pool = o.investorPool) (ha : admin = w.storage.admin) (hc : admin ≠ w.contract)
    (hpending : w.storage.Pending id o)
    (h : (do
      let farmerAmount ← okOr (checkedSub o.distributable pool) (.trap .overflow)
      let w ← sendIfPositive (setOrder w id { o with status := .completed }) o.farmer farmerAmount
      let w ← payInvestors pool o.totalBps o.investorShares 0 w
      sendIfPositive w w.storage.admin o.platformFee : Result Error (World Addr Id)) = .ok w') :
    Moves led w (.confirmDelivery admin id) w' := by
  subst hpool
  simp only [okOr_bind_eq_ok, checkedSub_eq_some] at h
  obtain ⟨farmerAmount, ⟨_, hfarmer⟩, h⟩ := h
  obtain rfl : o.farmerAmount = farmerAmount := hfarmer
  obtain ⟨u, hu, h⟩ := bind_eq_ok.mp h
  obtain ⟨v, hv, h⟩ := bind_eq_ok.mp h
  have hu := sendIfPositive_eq_ok hu
  have hw' := sendIfPositive_eq_ok h
  by_cases hd : 0 ≤ o.distributable
  · have hv := payInvestors_eq_ok (Order.investorPool_nonneg hd) hv
    rw [sub_zero] at hv
    have hadmin : v.storage.admin = admin := by rw [hv, hu, ha]; simp
    have hend : w' =
        (setOrder w id { o with status := .completed }).sentEach (o.payout admin) := by
      rw [hw', hadmin, hv, hu, Order.payout, ← List.singleton_append, Vault.sentEach_append,
        Vault.sentEach_append]
      rfl
    rw [hend]
    exact .deliver ha hc hpending ((Order.feeFits_iff hvalid).mpr (sub_nonneg.mp hd))
  · have hneg : o.distributable < 0 := not_le.mp hd
    obtain ⟨hle, hnonpos⟩ := Order.investorPool_of_neg hvalid hneg
    have hv := payInvestors_of_nonpos hnonpos hv
    have hfarmer : ¬ o.farmerAmount > 0 := by unfold Order.farmerAmount; omega
    have hover : o.amount < o.platformFee := sub_neg.mp hneg
    have hfee : o.platformFee > 0 := hvalid.amount_pos.trans hover
    rw [Vault.sentIfPositive, if_neg hfarmer] at hu
    rw [Vault.sentIfPositive, if_pos hfee, hv, hu, setOrder_admin, ← ha] at hw'
    rw [hw']
    exact .overcharge ha hc hpending hover

theorem moves_confirmDelivery (hsound : w.storage.Sound w.contract)
    (h : confirmDelivery led w admin id = .ok w') :
    Moves led w (.confirmDelivery admin id) w' := by
  unfold confirmDelivery at h
  obtain ⟨o, ho, h⟩ := bind_eq_ok.mp h
  obtain ⟨ha, hc, hpending⟩ := loadPending_eq_ok ho
  have hvalid := (hsound id o hpending.1).1
  simp only [okOr_bind_eq_ok, checkedMul_eq_some, checkedDiv_eq_some, checkedSub_eq_some] at h
  obtain ⟨_, ⟨_, rfl⟩, fee, ⟨_, _, hfee⟩, dist, ⟨_, hdist⟩, h⟩ := h
  obtain rfl : o.platformFee = fee := hfee
  obtain rfl : o.distributable = dist := hdist
  obtain ⟨total, ht, h⟩ := bind_eq_ok.mp h
  have htotal : total = o.totalBps := by rw [totalInvestorBps_eq_ok ht, Nat.zero_add]; rfl
  subst htotal
  split at h
  · simp only [okOr_bind_eq_ok, checkedMul_eq_some, checkedDiv_eq_some] at h
    obtain ⟨_, ⟨_, rfl⟩, pool, ⟨_, _, hpool⟩, h⟩ := h
    exact moves_payout hvalid hpool.symm ha hc hpending (okOr_bind_eq_ok.mpr h)
  · next hnone =>
    have hz : o.totalBps = 0 := by omega
    have hpool : 0 = o.investorPool := by simp [Order.investorPool, prorata, hz]
    exact moves_payout hvalid hpool ha hc hpending h

theorem moves_refundBuyer (h : refundBuyer led w admin id = .ok w') :
    Moves led w (.refundBuyer admin id) w' := by
  unfold refundBuyer at h
  obtain ⟨o, ho, h⟩ := bind_eq_ok.mp h
  obtain ⟨ha, _, hpending⟩ := loadPending_eq_ok ho
  obtain ⟨_, _, rfl⟩ := Vault.send_eq_ok.mp h
  exact .refund ha hpending

theorem moves_of_dispatch {call : Call Addr Id} (hsound : w.storage.Sound w.contract)
    (h : dispatch led w call = .ok w') : Moves led w call w' := by
  cases call with
  | initializeContract => simp [dispatch, initializeContract, failIf] at h
  | createOrder => exact moves_createOrder h
  | confirmDelivery => exact moves_confirmDelivery hsound h
  | refundBuyer => exact moves_refundBuyer h
  | view =>
    obtain rfl := Except.ok.inj h
    exact .view

theorem moves_of_step {inv : Invocation Addr Id} (hsound : w.storage.Sound w.contract)
    (h : callStep w inv = some w') : Moves inv.ledger (w.enter inv.ledger) inv.call w' :=
  moves_of_dispatch hsound (Vault.step_eq_some.mp h).2

end AgriFi.MarketplaceSettlement
