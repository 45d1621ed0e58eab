import AgriFi.MarketplaceSettlement.Moves

/-
  Custody of the buyers' payments. The contract keeps one balance for all orders, so it covers
  the pending ones (`Custody`) only as long as no delivery pays out more than its own order's
  amount. A delivery whose fee fits pays exactly that amount (`delivered_of_fits`); one whose fee
  does not sends the fee, which is larger (`overcharge_calls`: another buyer's payment is spent).
  An order is opened once and closed at most once whatever the fee (`OrderStep`).
-/

namespace AgriFi.MarketplaceSettlement

open AgriFi.Soroban AgriFi.Runs

variable {Addr Id : Type} [LinearOrder Id]

/-! ## Orders opened and closed -/

/-- What a call does to the orders: nothing, it opens one, or it closes a pending one. -/
inductive OrderStep (contract : Addr) (m m' : Market Addr Id) : Call Addr Id → Prop
  | same {call : Call Addr Id} : m'.orders = m.orders → OrderStep contract m m' call
  | opened {id : Id} {o : Order Addr Id} :
      o.Valid → o.buyer ≠ contract → o.status = .pending → m.orders.get? id = none →
      m'.orders = m.orders.set id o →
      OrderStep contract m m' (.createOrder o.buyer id o.farmer o.amount o.investorShares)
  | closed {call : Call Addr Id} {id : Id} {o : Order Addr Id} {s : OrderStatus} :
      m.Pending id o → s ≠ .pending → m'.orders = m.orders.set id { o with status := s } →
      OrderStep contract m m' call

def Market.isPending (m : Market Addr Id) (id : Id) : Bool :=
  (m.orders.get? id).elim false fun o => o.status = .pending

/-- 1 for an order that is no longer pending. -/
def Market.closedCount (m : Market Addr Id) (id : Id) : Nat :=
  (m.orders.get? id).elim 0 fun o => if o.status = .pending then 0 else 1

/-- The sum of the amounts of the pending orders. -/
def Market.pendingTotal (m : Market Addr Id) : Int :=
  m.orders.sumBy fun _ o => if o.status = .pending then o.amount else 0

theorem pendingTotal_opened {m m' : Market Addr Id} {id : Id} {o : Order Addr Id}
    (hn : m.orders.get? id = none) (hp : o.status = .pending)
    (ho : m'.orders = m.orders.set id o) : m'.pendingTotal = m.pendingTotal + o.amount := by
  unfold Market.pendingTotal
  rw [ho, HostMap.sumBy_set, HostMap.contrib, hn, if_pos hp]
  simp

theorem pendingTotal_closed {w : World Addr Id} {id : Id} {o o' : Order Addr Id}
    (hpending : w.storage.Pending id o) (hs : o'.status ≠ .pending) :
    (setOrder w id o').storage.pendingTotal = w.storage.pendingTotal - o.amount := by
  unfold Market.pendingTotal
  rw [setOrder_orders, HostMap.sumBy_set, HostMap.contrib, hpending.1, if_neg hs]
  simp [hpending.2]

/-- What holds of every order, whatever its status, is to be checked when one is opened. -/
theorem OrderStep.forall_orders {contract : Addr} {m m' : Market Addr Id} {call : Call Addr Id}
    {P : Order Addr Id → Prop} (hs : OrderStep contract m m' call)
    (hstatus : ∀ o status, P o → P { o with status })
    (hopen : ∀ id o, call = .createOrder o.buyer id o.farmer o.amount o.investorShares →
      o.Valid → o.buyer ≠ contract → P o)
    (h : ∀ id o, m.orders.get? id = some o → P o) :
    ∀ id o, m'.orders.get? id = some o → P o := by
  intro id o ho
  cases hs with
  | same heq => exact h id o (heq ▸ ho)
  | @opened id' o' hvalid hb _ _ heq =>
    rw [heq, HostMap.get?_set] at ho
    split at ho
    · obtain rfl := Option.some.inj ho
      exact hopen id' o' rfl hvalid hb
    · exact h id o ho
  | @closed _ id' o' _ hp _ heq =>
    rw [heq, HostMap.get?_set] at ho
    split at ho
    · obtain rfl := Option.some.inj ho
      exact hstatus o' _ (h id' o' hp.1)
    · exact h id o ho

theorem OrderStep.closedCount_eq {contract : Addr} {m m' : Market Addr Id} {call : Call Addr Id}
    (hs : OrderStep contract m m' call) (id : Id) :
    m'.closedCount id = m.closedCount id + (m.isPending id && !m'.isPending id).toNat := by
  unfold Market.closedCount Market.isPending
  cases hs with
  | same heq => cases h : m.orders.get? id <;> simp [heq, h]
  | @opened id' o' _ _ hp hn heq =>
    rw [heq, HostMap.get?_set]
    by_cases hid : id' = id
    · subst hid
      simp [hn, hp]
    · cases h : m.orders.get? id <;> simp [hid]
  | @closed _ id' o' _ hp hst heq =>
    rw [heq, HostMap.get?_set]
    by_cases hid : id' = id
    · subst hid
      simp [hp.1, hp.2, hst]
    · cases h : m.orders.get? id <;> simp [hid]

variable [DecidableEq Addr] {led : Ledger Addr} {w w' w₀ : World Addr Id} {call : Call Addr Id}
  {xs : List (CallStep Addr Id)}

theorem orderStep_of_moves (hm : Moves led w call w') :
    OrderStep w.contract w.storage w'.storage call := by
  cases hm with
  | view => exact .same rfl
  | create hb hn hvalid hp => exact .opened hvalid hb hp hn rfl
  | deliver _ _ hp => exact .closed (s := .completed) hp (by simp) (by simp)
  | overcharge _ _ hp => exact .closed (s := .completed) hp (by simp) rfl
  | refund _ hp => exact .closed (s := .refunded) hp (by simp) rfl

theorem contract_of_moves (hm : Moves led w call w') : w'.contract = w.contract := by
  cases hm with
  | deliver => simp
  | _ => rfl

omit [DecidableEq Addr] in
theorem Initialized.fresh (h : Initialized w) : w.storage.orders = .empty ∧ w.balance = 0 := by
  obtain ⟨admin, usdcToken, platformFeeBps, m, now, he, hw⟩ := h
  obtain rfl := Except.ok.inj he
  rw [hw]
  exact ⟨rfl, rfl⟩

theorem sound_step {inv : Invocation Addr Id} (h : w.storage.Sound w.contract)
    (hs : callStep w inv = some w') :
    Moves inv.ledger (w.enter inv.ledger) inv.call w' ∧ w'.storage.Sound w'.contract := by
  have hm := moves_of_step h hs
  have hc : w'.contract = w.contract := contract_of_moves (w := w.enter _) hm
  refine ⟨hm, ?_⟩
  rw [hc]
  exact (orderStep_of_moves (w := w.enter _) hm).forall_orders
    (P := fun o => o.Valid ∧ o.buyer ≠ w.contract) (fun o _ ho => ⟨⟨ho.1.1, ho.1.2⟩, ho.2⟩)
    (fun _ _ _ hvalid hb => ⟨hvalid, hb⟩) h

omit [DecidableEq Addr] in
theorem Initialized.sound (h : Initialized w) : w.storage.Sound w.contract := by
  intro id o ho
  simp [h.fresh.1] at ho

/-! ## One delivery -/

/-- The payments of a delivery: what the order pays, adding up to its amount, with no part of it
    negative; every investor but the last gets his part of the pool rounded down. -/
structure Delivered (contract admin : Addr) (o : Order Addr Id) (payments : List (Payment Addr)) :
    Prop where
  payments_eq : payments = Vault.transfers contract (o.payout admin)
  total_eq : (payments.map Payment.amount).sum = o.amount
  payout_nonneg : ∀ p ∈ o.payout admin, 0 ≤ p.2
  floors : o.investorParts =
    o.investorShares.map fun s => o.investorPool * s.shareBps / o.totalBps
  remainder : o.investorShares ≠ [] →
    o.investorAmounts = o.investorParts.dropLast ++ [o.investorPool - o.investorParts.dropLast.sum]

section Delivery

variable {o : Order Addr Id} {admin : Addr}

omit [LinearOrder Id] [DecidableEq Addr] in
theorem length_investorAmounts : o.investorAmounts.length = o.investorShares.length := by
  rw [Order.investorAmounts, length_remainderToLast, Order.investorParts, List.length_map]

omit [LinearOrder Id] [DecidableEq Addr] in
theorem sum_investorAmounts : o.investorAmounts.sum = o.investorPool := by
  rcases eq_or_ne o.investorShares [] with hnil | hne
  · simp [Order.investorAmounts, Order.investorParts, Order.investorPool, Order.totalBps, hnil,
      remainderToLast, prorata]
  · exact sum_remainderToLast _ (by simpa [Order.investorParts] using hne)

omit [LinearOrder Id] [DecidableEq Addr] in
/-- The payout adds up to the order's amount, whatever the fee. -/
theorem sum_payout : ((o.payout admin).map Prod.snd).sum = o.amount := by
  have hzip : ((o.investorShares.map InvestorShare.investor).zip o.investorAmounts).map Prod.snd =
      o.investorAmounts := List.map_snd_zip (by rw [length_investorAmounts, List.length_map])
  rw [Order.payout, List.map_cons, List.map_append, hzip, List.sum_cons, List.sum_append,
    sum_investorAmounts]
  simp only [List.map_cons, List.map_nil, List.sum_singleton, Order.farmerAmount,
    Order.distributable]
  omega

omit [LinearOrder Id] [DecidableEq Addr] in
theorem payout_nonneg (hvalid : o.Valid) (hfits : o.FeeFits) : ∀ p ∈ o.payout admin, 0 ≤ p.2 := by
  have hd : 0 ≤ o.distributable := sub_nonneg.mpr ((Order.feeFits_iff hvalid).mp hfits)
  have hpool := Order.investorPool_nonneg hd
  intro p hp
  rcases List.mem_cons.mp hp with rfl | hp
  · exact sub_nonneg.mpr (Order.investorPool_le hvalid hd)
  · rcases List.mem_append.mp hp with hp | hp
    · exact Order.investorAmounts_nonneg hpool p.2 (List.of_mem_zip hp).2
    · obtain rfl := List.mem_singleton.mp hp
      exact Order.platformFee_nonneg hvalid

omit [LinearOrder Id] [DecidableEq Addr] in
theorem delivered_of_fits (contract : Addr) (hvalid : o.Valid) (hfits : o.FeeFits) :
    Delivered contract admin o (Vault.transfers contract (o.payout admin)) where
  payments_eq := rfl
  total_eq := (Vault.sum_transfers contract (payout_nonneg hvalid hfits)).trans sum_payout
  payout_nonneg := payout_nonneg hvalid hfits
  floors := by
    have hd : 0 ≤ o.distributable := sub_nonneg.mpr ((Order.feeFits_iff hvalid).mp hfits)
    exact List.map_congr_left fun s _ =>
      prorata_eq_ediv (Order.investorPool_nonneg hd) (Int.natCast_nonneg _)
  remainder hne := remainderToLast_eq _ (by simpa [Order.investorParts] using hne)

/-- An order that names the contract neither as its farmer nor as an investor. -/
def Order.Outside (contract : Addr) (o : Order Addr Id) : Prop :=
  o.farmer ≠ contract ∧ ∀ s ∈ o.investorShares, s.investor ≠ contract

omit [LinearOrder Id] in
theorem addressedTo_payout {contract : Addr} (h : o.Outside contract) (ha : admin ≠ contract) :
    Vault.addressedTo contract (o.payout admin) = 0 := by
  apply Vault.addressedTo_eq_zero
  intro p hp
  rcases List.mem_cons.mp hp with rfl | hp
  · exact h.1
  · rcases List.mem_append.mp hp with hp | hp
    · obtain ⟨s, hs, heq⟩ := List.mem_map.mp (List.of_mem_zip hp).1
      exact heq ▸ h.2 s hs
    · obtain rfl := List.mem_singleton.mp hp
      exact ha

end Delivery

/-! ## The balance -/

/-- The orders are sound and name others, and the balance is what the pending ones brought in. -/
structure Custody (w : World Addr Id) : Prop where
  sound : w.storage.Sound w.contract
  outside : ∀ id o, w.storage.orders.get? id = some o → o.Outside w.contract
  balance_eq : w.balance = w.storage.pendingTotal

/-- An order created names neither as farmer nor as investor the contract itself. -/
def Call.NamesOthers (contract : Addr) : Call Addr Id → Prop
  | .createOrder _ _ farmer _ investorShares =>
    farmer ≠ contract ∧ ∀ s ∈ investorShares, s.investor ≠ contract
  | _ => True

/-- A delivery whose platform fee is at most the order's amount. -/
def Call.FeeFits (m : Market Addr Id) : Call Addr Id → Prop
  | .confirmDelivery _ id => ∀ o ∈ m.orders.get? id, o.FeeFits
  | _ => True

instance (contract : Addr) : DecidablePred fun call : Call Addr Id => call.NamesOthers contract
  | .createOrder .. => inferInstanceAs (Decidable (_ ∧ _))
  | .initializeContract .. | .confirmDelivery .. | .refundBuyer .. | .view => isTrue trivial

instance (m : Market Addr Id) : DecidablePred (Call.FeeFits m)
  | .confirmDelivery _ id => inferInstanceAs (Decidable (∀ o ∈ m.orders.get? id, o.FeeFits))
  | .initializeContract .. | .createOrder .. | .refundBuyer .. | .view => isTrue trivial

theorem balance_of_moves (h : Custody w) (hm : Moves led w call w')
    (hfits : call.FeeFits w.storage) : w'.balance = w'.storage.pendingTotal := by
  have hb := h.balance_eq
  cases hm with
  | view => exact hb
  | @create id o hbuyer hn hvalid hp =>
    rw [Vault.received_balance_of_ne (v := countOrder (setOrder w id o)) hbuyer,
      pendingTotal_opened (m := w.storage) (o := o) hn hp rfl, ← hb]
    rfl
  | @deliver admin id o _ hadmin hp =>
    have hout := h.outside id o hp.1
    have hnonneg : ∀ p ∈ o.payout admin, 0 ≤ p.2 :=
      payout_nonneg (h.sound id o hp.1).1 (hfits o hp.1)
    rw [Vault.sentEach_balance _ hnonneg, sum_payout, setOrder_contract,
      addressedTo_payout hout hadmin, Vault.sentEach_storage,
      pendingTotal_closed hp (by simp), ← hb]
    simp
  | @overcharge _ id o _ _ hp hover =>
    have hle := (Order.feeFits_iff (h.sound id o hp.1).1).mp (hfits o hp.1)
    omega
  | @refund _ id o _ hp =>
    rw [Vault.sent_balance_of_ne (v := setOrder w id { o with status := .refunded })
        (h.sound id o hp.1).2,
      Vault.sent_storage, pendingTotal_closed hp (by simp), ← hb]
    rfl

omit [DecidableEq Addr] in
theorem Custody.enter (h : Custody w) (led : Ledger Addr) : Custody (w.enter led) :=
  ⟨h.sound, h.outside, h.balance_eq⟩

theorem Custody.step (h : Custody w) {inv : Invocation Addr Id} (hs : callStep w inv = some w')
    (hother : inv.call.NamesOthers w.contract) (hfits : inv.call.FeeFits w.storage) :
    Custody w' := by
  obtain ⟨hm, hsound⟩ := sound_step h.sound hs
  have hc : w'.contract = w.contract := contract_of_moves (w := w.enter _) hm
  have hopen : ∀ id (o : Order Addr Id),
      inv.call = .createOrder o.buyer id o.farmer o.amount o.investorShares →
        o.Outside w.contract := by
    intro id o hcall
    rw [hcall] at hother
    exact hother
  refine ⟨hsound, ?_, balance_of_moves (h.enter inv.ledger) hm hfits⟩
  rw [hc]
  exact (orderStep_of_moves (w := w.enter _) hm).forall_orders
    (P := fun o => o.Outside w.contract) (fun _ _ ho => ho) (fun id o hcall _ _ => hopen id o hcall)
    h.outside

omit [DecidableEq Addr] in
theorem Initialized.custody (h : Initialized w) : Custody w where
  sound := h.sound
  outside id o ho := by simp [h.fresh.1] at ho
  balance_eq := by rw [h.fresh.2, Market.pendingTotal, h.fresh.1]; rfl

/-! ## Runs -/

theorem Initialized.sound_steps (hinit : Initialized w₀) (hr : CallRun w₀ xs w) :
    ∀ x ∈ xs, callStep x.pre x.act = some x.post ∧ x.pre.storage.Sound x.pre.contract :=
  fun x hx =>
    have h := hr.steps_invariant (fun u => u.storage.Sound u.contract) hinit.sound
      (fun _ _ hs hu => (sound_step hu hs).2) x hx
    ⟨h.1, h.2.1⟩

/-- The step closes the order under `id`. -/
def closes (id : Id) (x : CallStep Addr Id) : Bool :=
  x.pre.storage.isPending id && !x.post.storage.isPending id

/-- Whatever the fee, an order leaves `Pending` once if it has left it, and else not at all. -/
theorem countP_closes (hsound : w₀.storage.Sound w₀.contract) (hr : CallRun w₀ xs w) (id : Id) :
    w.storage.closedCount id = w₀.storage.closedCount id + xs.countP (closes id) := by
  induction hr with
  | nil => rfl
  | @cons s s' t a xs hx _ ih =>
    obtain ⟨hm, hsound'⟩ := sound_step hsound hx
    have hstep := (orderStep_of_moves (w := s.enter _) hm).closedCount_eq id
    have hrest := ih hsound'
    rw [List.countP_cons]
    unfold closes at hrest ⊢
    dsimp only [Vault.enter_storage] at hstep ⊢
    rw [hrest, hstep]
    cases s.storage.isPending id && !s'.storage.isPending id <;> simp
    omega

/-- What a step must do: leave the balance at the sum of the pending orders' amounts and, when it
    delivers, pay exactly the order's amount. -/
structure StepCustody (x : CallStep Addr Id) : Prop where
  balance_eq : x.post.balance = x.post.storage.pendingTotal
  delivered : ∀ admin id, x.act.call = .confirmDelivery admin id →
    ∃ o, x.pre.storage.Pending id o ∧ Delivered x.pre.contract admin o x.post.payments

/-- A fee that does not fit is paid all the same. -/
theorem fits_of_delivered {x : CallStep Addr Id} (hsound : x.pre.storage.Sound x.pre.contract)
    (hs : callStep x.pre x.act = some x.post) (h : StepCustody x) :
    x.act.call.FeeFits x.pre.storage := by
  have hm := (sound_step hsound hs).1
  have hd := h.delivered
  generalize hcall : x.act.call = call at hm hd
  generalize hpost : x.post = w' at hm hd
  cases hm with
  | @deliver admin id o _ _ hp hfits =>
    intro o' ho'
    obtain rfl := Option.some.inj (hp.1.symm.trans ho')
    exact hfits
  | @overcharge admin id o _ _ hp hover =>
    obtain ⟨o', hp', hd⟩ := hd admin id rfl
    obtain rfl := Option.some.inj (hp.1.symm.trans hp'.1)
    have htotal := hd.total_eq
    simp [Vault.sent] at htotal
    omega
  | _ => trivial

theorem stepCustody_of_fits {x : CallStep Addr Id} (h : Custody x.pre)
    (hs : callStep x.pre x.act = some x.post) (hpost : Custody x.post)
    (hfits : x.act.call.FeeFits x.pre.storage) : StepCustody x := by
  refine ⟨hpost.balance_eq, ?_⟩
  intro admin id hcall
  have hm := (sound_step h.sound hs).1
  rw [hcall] at hm hfits
  generalize x.post = w' at hm
  cases hm with
  | @deliver _ _ o _ _ hp hfit =>
    refine ⟨o, hp, ?_⟩
    rw [Vault.sentEach_payments]
    exact delivered_of_fits _ (h.sound id o hp.1).1 hfit
  | @overcharge _ _ o _ _ hp hover =>
    have hle := (Order.feeFits_iff (h.sound id o hp.1).1).mp (hfits o hp.1)
    omega

/-- The admin charges 200%: delivering the smaller order spends part of the larger one. -/
def overchargeCalls : List (Nat × Call Nat Nat) :=
  [(1, .createOrder 10 1 20 100 []), (2, .createOrder 11 2 20 300 []), (3, .confirmDelivery 0 1)]

theorem overcharge_spends_pending :
    ¬ ∀ (w₀ w : World Nat Nat) (xs : List (CallStep Nat Nat)), Initialized w₀ → CallRun w₀ xs w →
      (∀ x ∈ xs, x.act.call.NamesOthers w₀.contract) →
      w.balance = w.storage.pendingTotal := by
  intro h
  have hbal := h _ _ _ (sampleWorld_initialized 20000) (sampleRun_run 20000 overchargeCalls)
    (by decide +kernel)
  exact absurd hbal (by decide +kernel)

/-- Take a run whose orders never name the contract itself. Every step keeps the balance at the
    sum of the pending orders' amounts, and every delivery pays exactly its order's amount, if and
    only if the fee of every order delivered is at most its amount. In any case the steps at
    which an order leaves `Pending` are one if the order is closed at the end, and none else. -/
theorem custody_run (hinit : Initialized w₀) (hr : CallRun w₀ xs w)
    (hother : ∀ x ∈ xs, x.act.call.NamesOthers w₀.contract) :
    ((∀ x ∈ xs, StepCustody x) ↔ ∀ x ∈ xs, x.act.call.FeeFits x.pre.storage) ∧
    ∀ id, xs.countP (closes id) = w.storage.closedCount id := by
  refine ⟨⟨?_, ?_⟩, ?_⟩
  · intro h x hx
    obtain ⟨hs, hsound⟩ := hinit.sound_steps hr x hx
    exact fits_of_delivered hsound hs (h x hx)
  · intro h
    have hinv := hr.steps_invariant (fun u => Custody u ∧ u.contract = w₀.contract)
      ⟨hinit.custody, rfl⟩ fun x hx hs hu =>
        ⟨hu.1.step hs (hu.2 ▸ hother x hx) (h x hx),
          (contract_of_moves (w := x.pre.enter _) (sound_step hu.1.sound hs).1).trans hu.2⟩
    intro x hx
    obtain ⟨hs, hpre, hpost⟩ := hinv x hx
    exact stepCustody_of_fits hpre.1 hs hpost.1 (h x hx)
  · intro id
    have hzero : w₀.storage.closedCount id = 0 := by
      rw [Market.closedCount, hinit.fresh.1]
      rfl
    rw [countP_closes hinit.sound hr id, hzero, Nat.zero_add]

/-- A fee of 2% with two investors, a refund, and an order left pending. -/
def mixedCalls : List (Nat × Call Nat Nat) :=
  [(1, .createOrder 10 1 20 1001 [⟨30, 3333⟩, ⟨31, 3333⟩]), (2, .createOrder 11 2 21 300 []),
    (3, .createOrder 12 3 20 70 []), (4, .confirmDelivery 0 1), (5, .refundBuyer 0 2)]

theorem custody_run_sample :
    (∀ x ∈ (sampleRun 200 mixedCalls).1, StepCustody x) ∧
      (sampleRun 200 mixedCalls).1.countP (closes 1) = 1 :=
  have h := custody_run (sampleWorld_initialized 200) (sampleRun_run 200 mixedCalls)
    (by decide +kernel)
  ⟨h.1.mpr (by decide +kernel), (h.2 1).trans (by decide +kernel)⟩

end AgriFi.MarketplaceSettlement
