import AgriFi.EscrowContract.Moves
import AgriFi.Prorata

/-
  Conservation. `Balanced` ties the contributions, `TotalFunded` and the token balance together
  until the release and says what is left after it; every move keeps it (`Balanced.step`), the
  batch refund because a single refund does. A run has at most one step that settles, and after
  it nothing is transferred (`settled_run`). `retained` is the part of the payout that is
  addressed to the contract itself, which a transfer cannot move.
-/

namespace AgriFi.EscrowContract

open AgriFi.Soroban AgriFi.Runs

variable {Addr : Type} [LinearOrder Addr]

/-! ## The payout -/

theorem farmerAmount_eq {e : Escrow Addr} (h : 0 ≤ e.totalFunded) :
    e.farmerAmount = e.totalFunded * 98 / 100 :=
  Int.tdiv_eq_ediv_of_nonneg (by omega)

theorem farmerAmount_nonneg {e : Escrow Addr} (h : 0 ≤ e.totalFunded) : 0 ≤ e.farmerAmount := by
  rw [farmerAmount_eq h]
  omega

theorem platformAmount_nonneg {e : Escrow Addr} (h : 0 ≤ e.totalFunded) :
    0 ≤ e.platformAmount := by
  unfold Escrow.platformAmount
  rw [farmerAmount_eq h]
  omega

theorem payout_nonneg {e : Escrow Addr} (h : 0 ≤ e.totalFunded) : ∀ p ∈ e.payout, 0 ≤ p.2 := by
  intro p hp
  rcases List.mem_cons.mp hp with rfl | hp
  · exact farmerAmount_nonneg h
  · obtain rfl := List.mem_singleton.mp hp
    exact platformAmount_nonneg h

theorem sum_payout (e : Escrow Addr) : (e.payout.map Prod.snd).sum = e.totalFunded := by
  simp only [Escrow.payout, Escrow.platformAmount, List.map_cons, List.map_nil, List.sum_cons,
    List.sum_nil]
  omega

/-- What a settlement leaves with the contract: the shares addressed to itself. -/
def Escrow.retained (e : Escrow Addr) (contract : Addr) : Int :=
  Vault.addressedTo contract e.payout

variable {led : Ledger Addr} {w w' w₀ : World Addr} {call : Call Addr} {xs : List (CallStep Addr)}

@[simp] theorem distributed_storage (w : World Addr) :
    (distributed w).storage.toEscrow = { w.storage.toEscrow with released := true } := by
  simp [distributed, markReleased]

@[simp] theorem distributed_contract (w : World Addr) :
    (distributed w).contract = w.contract := by
  simp [distributed, markReleased]

theorem distributed_payments (w : World Addr) :
    (distributed w).payments = w.payments ++ Vault.transfers w.contract w.storage.payout :=
  Vault.sentEach_payments _ _

theorem distributed_balance (ht : 0 ≤ w.storage.totalFunded)
    (hb : w.balance = w.storage.totalFunded) :
    (distributed w).balance = w.storage.retained w.contract := by
  unfold distributed
  rw [Vault.sentEach_balance _ (payout_nonneg ht), sum_payout]
  change w.balance - w.storage.totalFunded + w.storage.retained w.contract = _
  omega

/-! ## The invariant -/

structure Balanced (w : World Addr) : Prop where
  unlocked : w.storage.operationInProgress = false
  dealValue_pos : 0 < w.storage.dealValue
  contributions_nonneg : w.storage.investors.Nonneg
  /-- The contract never contributed to itself. -/
  self_zero : w.storage.contribution w.contract = 0
  refunded_zero : ∀ a, w.storage.isRefunded a = true → w.storage.contribution a = 0
  total_fits : FitsI128 w.storage.totalFunded
  sum_eq : w.storage.investors.total = w.storage.totalFunded
  balance_eq : w.balance =
    if w.storage.released = true then w.storage.retained w.contract else w.storage.totalFunded

theorem Balanced.total_nonneg (h : Balanced w) : 0 ≤ w.storage.totalFunded :=
  h.sum_eq ▸ h.contributions_nonneg.total_nonneg

theorem Balanced.due_ne (h : Balanced w) {a : Addr} (hd : w.storage.Due a) : a ≠ w.contract := by
  rintro rfl
  have hpos := hd.1
  rw [h.self_zero] at hpos
  exact absurd hpos (lt_irrefl 0)

theorem Balanced.enter (h : Balanced w) (led : Ledger Addr) : Balanced (w.enter led) :=
  ⟨h.unlocked, h.dealValue_pos, h.contributions_nonneg, h.self_zero, h.refunded_zero,
    h.total_fits, h.sum_eq, h.balance_eq⟩

theorem Balanced.fund (h : Balanced w) {caller : Addr} {amount : Int} (hc : caller ≠ w.contract)
    (hr : w.storage.released = false) (ha : 0 < amount)
    (hfit : FitsI128 (w.storage.totalFunded + amount)) :
    Balanced ((setEscrow w (w.storage.funded caller amount)).received caller amount) where
  unlocked := h.unlocked
  dealValue_pos := h.dealValue_pos
  contributions_nonneg := by
    have hold := h.contributions_nonneg caller
    exact h.contributions_nonneg.set (by unfold Escrow.contribution; omega)
  self_zero := by
    rw [Vault.received_storage, setEscrow_storage, contribution_funded]
    exact (if_neg hc).trans h.self_zero
  refunded_zero := by
    intro a hmark
    rw [Vault.received_storage, setEscrow_storage] at hmark ⊢
    rw [isRefunded_funded] at hmark
    rw [contribution_funded]
    split at hmark
    · simp at hmark
    · next hne => exact (if_neg hne).trans (h.refunded_zero a hmark)
  total_fits := hfit
  sum_eq := by
    have hset := HostMap.total_set w.storage.investors caller
      (w.storage.contribution caller + amount)
    have hsum := h.sum_eq
    unfold Escrow.contribution at hset
    simp only [Vault.received_storage, setEscrow_storage, Escrow.funded, Escrow.contribution]
    omega
  balance_eq := by
    have hb := h.balance_eq
    rw [if_neg (by simp [hr])] at hb
    have hbal : ((setEscrow w (w.storage.funded caller amount)).received caller amount).balance =
        w.balance + amount := if_neg hc
    rw [hbal, hb, Vault.received_storage, setEscrow_storage, if_neg (by simp [Escrow.funded, hr])]
    rfl

theorem Balanced.refundTo (h : Balanced w) {a : Addr} (hr : w.storage.released = false)
    (hd : w.storage.Due a) : Balanced (refundTo w a) where
  unlocked := h.unlocked
  dealValue_pos := h.dealValue_pos
  contributions_nonneg := h.contributions_nonneg.set le_rfl
  self_zero := (refundTo_contribution_ne w (h.due_ne hd)).trans h.self_zero
  refunded_zero := by
    intro b hmark
    by_cases hab : a = b
    · exact (contribution_refundedTo _ a b).trans (if_pos hab)
    · rw [refundTo_contribution_ne w hab]
      have hkept := (isRefunded_refundedTo w.storage.toEscrow a b).trans (if_neg hab)
      exact h.refunded_zero b (hkept.symm.trans hmark)
  total_fits := by
    have hle : w.storage.contribution a ≤ w.storage.investors.total :=
      h.contributions_nonneg.getD_le_total a
    have hpos := hd.1
    have hsum := h.sum_eq
    have hfits := h.total_fits
    change FitsI128 (w.storage.totalFunded - w.storage.contribution a)
    unfold FitsI128 at hfits ⊢
    constructor <;> omega
  sum_eq := by
    have hset := HostMap.total_set w.storage.investors a 0
    have hsum := h.sum_eq
    change (w.storage.investors.set a 0).total =
      w.storage.totalFunded - w.storage.investors.getD a 0
    omega
  balance_eq := by
    have hb := h.balance_eq
    rw [if_neg (by simp [hr])] at hb
    have hbal : (EscrowContract.refundTo w a).balance = w.balance - w.storage.contribution a :=
      if_neg (h.due_ne hd)
    rw [hbal, hb]
    exact (if_neg (by simpa [EscrowContract.refundTo, Escrow.refundedTo] using hr)).symm

theorem Balanced.refundAll (h : Balanced w) (hr : w.storage.released = false) (l : List Addr) :
    Balanced (l.foldl refundIfDue w) := by
  have hboth : Balanced (l.foldl refundIfDue w) ∧
      (l.foldl refundIfDue w).storage.released = false :=
    foldl_refundIfDue_induction (P := fun u => Balanced u ∧ u.storage.released = false) l ⟨h, hr⟩
      fun _ _ hd hu => ⟨hu.1.refundTo hu.2 hd, hu.2⟩
  exact hboth.1

theorem Balanced.distributed (h : Balanced w) (hr : w.storage.released = false) :
    Balanced (distributed w) := by
  have hb := h.balance_eq
  rw [if_neg (by simp [hr])] at hb
  refine ⟨?_, ?_, ?_, ?_, ?_, ?_, ?_, ?_⟩
  · simpa using h.unlocked
  · simpa using h.dealValue_pos
  · simpa using h.contributions_nonneg
  · simpa [Escrow.contribution] using h.self_zero
  · simpa [Escrow.contribution, Escrow.isRefunded] using h.refunded_zero
  · simpa using h.total_fits
  · simpa using h.sum_eq
  · rw [distributed_balance h.total_nonneg hb]
    simp only [distributed_storage, distributed_contract, if_pos]
    rfl

theorem Balanced.step (h : Balanced w) (hm : Moves led w call w') : Balanced w' := by
  cases hm with
  | view => exact h
  | idleRefund => exact h
  | fund hc hr ha hfit => exact h.fund hc hr ha hfit
  | distribute _ _ hr => exact h.distributed hr
  | refund _ he hd => exact h.refundTo he.unreleased hd
  | refundAll he => exact h.refundAll he.unreleased _
  | _ =>
    exact ⟨h.unlocked, h.dealValue_pos, h.contributions_nonneg, h.self_zero, h.refunded_zero,
      h.total_fits, h.sum_eq, h.balance_eq⟩

/-! ## The state a run starts from -/

/-- Entering investors at zero leaves a ledger of zeros. -/
theorem getD_foldl_zero (l : List Addr) {m : HostMap Addr Int} (h : ∀ a, m.getD a 0 = 0)
    (a : Addr) : (l.foldl (fun m investor => m.set investor 0) m).getD a 0 = 0 := by
  induction l generalizing m with
  | nil => exact h a
  | cons b l ih =>
    apply ih
    intro a'
    rw [HostMap.getD_set]
    split
    · rfl
    · exact h a'

theorem total_foldl_zero (l : List Addr) {m : HostMap Addr Int} (h : ∀ a, m.getD a 0 = 0) :
    (l.foldl (fun m investor => m.set investor 0) m).total = m.total := by
  induction l generalizing m with
  | nil => rfl
  | cons b l ih =>
    have hset : ∀ a, (m.set b 0).getD a 0 = 0 := fun a => by
      rw [HostMap.getD_set]
      split
      · rfl
      · exact h a
    rw [List.foldl_cons, ih hset, HostMap.total_set, h b]
    omega

/-- What `initialize` writes. -/
structure Fresh (w : World Addr) : Prop where
  balanced : Balanced w
  unreleased : w.storage.released = false
  unrecorded : w.storage.milestoneData = .empty ∧ w.storage.milestonesCompleted = 0

theorem Initialized.fresh (h : Initialized w) : Fresh w := by
  obtain ⟨admin, farmer, platform, usdcToken, dealValue, count, investors, deadline, e, now, he,
    hw⟩ := h
  unfold initializeContract at he
  simp only [failIf_bind_eq_ok, pure_eq_ok, Except.ok.injEq, not_le] at he
  obtain ⟨_, hdeal, _, _, rfl⟩ := he
  have hzero := getD_foldl_zero investors (m := .empty) fun _ => rfl
  have htotal := total_foldl_zero investors (m := .empty) fun _ => rfl
  rw [hw]
  exact ⟨⟨rfl, hdeal, fun a => (hzero a).ge, hzero _, fun a _ => hzero a,
    by simp [Vault.fresh, FitsI128], htotal, rfl⟩, rfl, rfl, rfl⟩

theorem Balanced.callStep (h : Balanced w) {inv : Invocation Addr}
    (hs : callStep w inv = some w') : Balanced w' :=
  (h.enter inv.ledger).step (moves_of_step h.unlocked hs)

theorem Reachable.balanced (h : Reachable w) : Balanced w := by
  obtain ⟨w₀, hinit, hr⟩ := h
  exact hr.invariant Balanced hinit.fresh.balanced fun _ _ _ hs hu => hu.callStep hs

/-! ## One settlement -/

/-- The transfers of a settlement of the escrow as it stands. -/
def settlement (w : World Addr) : List (Payment Addr) :=
  Vault.transfers w.contract w.storage.payout

/-- A settled escrow transfers nothing more and keeps its payout. -/
theorem settled_step (hm : Moves led w call w') (hr : w.storage.released = true) :
    call.Settles = false ∧ w'.payments = w.payments ∧ w'.storage.released = true ∧
      settlement w' = settlement w := by
  cases hm with
  | fund _ hn => simp [hr] at hn
  | distribute _ _ hn => simp [hr] at hn
  | refund _ he => simp [he.unreleased] at hr
  | refundAll he => simp [he.unreleased] at hr
  | approve hc => rcases hc with rfl | rfl <;> exact ⟨rfl, rfl, hr, rfl⟩
  | _ => exact ⟨rfl, rfl, hr, rfl⟩

theorem released_of_refundAll (l : List Addr) :
    (l.foldl refundIfDue w).storage.released = w.storage.released :=
  foldl_refundIfDue_induction (P := fun u => u.storage.released = w.storage.released) l rfl
    fun _ _ _ h => h

theorem unsettled_step (hm : Moves led w call w') (hr : w.storage.released = false) :
    (call.Settles = true ∧ w' = distributed w) ∨
      (call.Settles = false ∧ w'.storage.released = false) := by
  cases hm with
  | distribute hc => exact .inl ⟨hc, rfl⟩
  | refundAll he => exact .inr ⟨rfl, (released_of_refundAll _).trans hr⟩
  | approve hc => rcases hc with rfl | rfl <;> exact .inr ⟨rfl, hr⟩
  | _ => exact .inr ⟨rfl, hr⟩

theorem settled_tail (hb : Balanced w) (hrun : CallRun w xs w') (hr : w.storage.released = true) :
    (∀ x ∈ xs, x.act.call.Settles = false ∧ x.post.payments = []) ∧
      settlement w' = settlement w := by
  induction hrun with
  | nil => exact ⟨by simp, rfl⟩
  | cons hx _ ih =>
    have hm := moves_of_step hb.unlocked hx
    obtain ⟨hc, hp, hr', hpay⟩ := settled_step (w := Vault.enter _ _) hm hr
    obtain ⟨hall, hend⟩ := ih (hb.callStep hx) hr'
    refine ⟨?_, hend.trans hpay⟩
    intro y hy
    rcases List.mem_cons.mp hy with rfl | hy
    · exact ⟨hc, hp⟩
    · exact hall y hy

/-- A run from an unreleased escrow either settles nothing, or has exactly one step that settles;
    that step makes the payout, and nothing is transferred after it. -/
theorem settled_run (hb : Balanced w₀) (hu : w₀.storage.released = false) (hrun : CallRun w₀ xs w) :
    (w.storage.released = false ∧ ∀ x ∈ xs, x.act.call.Settles = false) ∨
    ∃ ys x zs, xs = ys ++ x :: zs ∧ x.act.call.Settles = true ∧
      (∀ y ∈ ys ++ zs, y.act.call.Settles = false) ∧
      x.post.payments = settlement w ∧ ∀ z ∈ zs, z.post.payments = [] := by
  induction hrun with
  | nil => exact .inl ⟨hu, by simp⟩
  | @cons s s' t a xs hx htail ih =>
    have hm := moves_of_step hb.unlocked hx
    rcases unsettled_step hm hu with ⟨hc, hpost⟩ | ⟨hc, hu'⟩
    · have hrel : s'.storage.released = true := by simp [hpost]
      obtain ⟨hall, hpay⟩ := settled_tail (hb.callStep hx) htail hrel
      refine .inr ⟨[], ⟨s, a, s'⟩, xs, rfl, hc, fun y hy => (hall y hy).1, ?_,
        fun z hz => (hall z hz).2⟩
      rw [hpay]
      unfold settlement
      dsimp only
      rw [hpost, distributed_payments, distributed_storage, distributed_contract]
      rfl
    · rcases ih (hb.callStep hx) hu' with ⟨hend, hall⟩ | ⟨ys, x, zs, rfl, hx', hall, hp, hz⟩
      · refine .inl ⟨hend, ?_⟩
        intro y hy
        rcases List.mem_cons.mp hy with rfl | hy
        · exact hc
        · exact hall y hy
      · refine .inr ⟨⟨s, a, s'⟩ :: ys, x, zs, rfl, hx', ?_, hp, hz⟩
        intro y hy
        rcases List.mem_cons.mp hy with rfl | hy
        · exact hc
        · exact hall y hy

/-! ## Runs -/

/-- The farmer's address is the contract's own: 98% of the deal cannot leave. -/
def selfFarmerCalls : List (Nat × Call Nat) :=
  [(1, .fund 10 1000), (2, .approveDelivery 0), (3, .release 0)]

theorem released_balance_left :
    ¬ ∀ (w₀ w : World Nat) (xs : List (CallStep Nat)), Initialized w₀ → CallRun w₀ xs w →
      w.storage.released = true → w.balance = 0 := by
  intro h
  have hzero := h _ _ _ (sampleWorld_initialized 99) (sampleRun_run 99 selfFarmerCalls)
    (by decide +kernel)
  exact absurd hzero (by decide +kernel)

/-- Along every run contributions are non-negative; until the release they sum to `TotalFunded`,
    which is the balance. After it one step of the run paid the farmer 98%, rounded down, and the
    platform the rest; nothing was transferred since, and the balance is zero but for a share
    addressed to the contract itself. -/
theorem conservation_run (hinit : Initialized w₀) (hr : CallRun w₀ xs w) :
    (∀ a, 0 ≤ w.storage.investors.getD a 0) ∧
    (w.storage.released = false →
      w.storage.investors.total = w.storage.totalFunded ∧ w.balance = w.storage.totalFunded) ∧
    (w.storage.released = true →
      w.balance = w.storage.retained w.contract ∧
      (w.storage.farmer ≠ w.contract → w.storage.platform ≠ w.contract → w.balance = 0) ∧
      (w.storage.farmerAmount = w.storage.totalFunded * 98 / 100 ∧
        ((settlement w).map Payment.amount).sum = w.storage.totalFunded) ∧
      ∃ ys x zs, xs = ys ++ x :: zs ∧ x.act.call.Settles = true ∧
        (∀ y ∈ ys ++ zs, y.act.call.Settles = false) ∧
        x.post.payments = settlement w ∧ ∀ z ∈ zs, z.post.payments = []) := by
  have hb : Balanced w := Reachable.balanced ⟨w₀, hinit, hr.reaches⟩
  have hbal := hb.balance_eq
  refine ⟨hb.contributions_nonneg, ?_, ?_⟩
  · intro hu
    rw [if_neg (by simp [hu])] at hbal
    exact ⟨hb.sum_eq, hbal⟩
  · intro hrel
    rw [if_pos hrel] at hbal
    refine ⟨hbal, ?_, ⟨farmerAmount_eq hb.total_nonneg, ?_⟩, ?_⟩
    · intro hf hp
      rw [hbal]
      simp [Escrow.retained, Vault.addressedTo, Escrow.payout, hf, hp]
    · exact (Vault.sum_transfers _ (payout_nonneg hb.total_nonneg)).trans (sum_payout _)
    · rcases settled_run hinit.fresh.balanced hinit.fresh.unreleased hr with ⟨hu, _⟩ | hex
      · simp [hrel] at hu
      · exact hex

theorem conservation_run_sample :
    (sampleRun 1 [(1, .fund 10 1000), (2, .recordMilestone 1 0), (3, .recordMilestone 0 1),
      (4, .settleEscrow 0), (5, .approveDelivery 0)]).2.balance = 0 :=
  ((conservation_run (sampleWorld_initialized 1) (sampleRun_run 1 [(1, .fund 10 1000),
    (2, .recordMilestone 1 0), (3, .recordMilestone 0 1), (4, .settleEscrow 0),
    (5, .approveDelivery 0)])).2.2 (by decide +kernel)).2.1 (by decide +kernel) (by decide +kernel)

end AgriFi.EscrowContract
