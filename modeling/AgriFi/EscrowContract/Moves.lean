import AgriFi.EscrowContract.Contract

/-
  What a successful call does with the token that calls nothing back. `Moves led w call w'` has
  one case for each way a call succeeds, with its guards and the state after. The batch refund is
  read as a fold: its loop pays the addresses one after the other, and as long as its local
  variables agree with storage (`Synced`) a round is `refundIfDue` (`refundEach_eq`).
-/

namespace AgriFi.EscrowContract

open AgriFi.Soroban AgriFi.Runs
open AgriFi.Soroban.Vault (requireAuth)

variable {Addr : Type} [LinearOrder Addr]

/-! ## States after a move -/

def setEscrow (w : World Addr) (e : Escrow Addr) : World Addr :=
  { w with storage.toEscrow := e }

@[simp] theorem setEscrow_storage (w : World Addr) (e : Escrow Addr) :
    (setEscrow w e).storage.toEscrow = e := rfl

@[simp] theorem setEscrow_contract (w : World Addr) (e : Escrow Addr) :
    (setEscrow w e).contract = w.contract := rfl

@[simp] theorem setEscrow_balance (w : World Addr) (e : Escrow Addr) :
    (setEscrow w e).balance = w.balance := rfl

@[simp] theorem setEscrow_payments (w : World Addr) (e : Escrow Addr) :
    (setEscrow w e).payments = w.payments := rfl

def Escrow.contribution (e : Escrow Addr) (investor : Addr) : Int := e.investors.getD investor 0

def Escrow.isFrozen (e : Escrow Addr) (addr : Addr) : Bool := e.frozenContributors.getD addr false

def Escrow.isRefunded (e : Escrow Addr) (addr : Addr) : Bool := e.refunded.getD addr false

def Escrow.funded (e : Escrow Addr) (caller : Addr) (amount : Int) : Escrow Addr :=
  { e with
    totalFunded := e.totalFunded + amount
    investors := e.investors.set caller (e.contribution caller + amount)
    refunded := if e.isRefunded caller = true then e.refunded.set caller false else e.refunded }

/-- The farmer's share, rounded down, and the platform's rest. -/
def Escrow.farmerAmount (e : Escrow Addr) : Int := (e.totalFunded * 98).tdiv 100

def Escrow.platformAmount (e : Escrow Addr) : Int := e.totalFunded - e.farmerAmount

/-- The contributor's whole contribution is handed back. -/
def Escrow.refundedTo (e : Escrow Addr) (contributor : Addr) : Escrow Addr :=
  { e with
    refunded := e.refunded.set contributor true
    investors := e.investors.set contributor 0
    totalFunded := e.totalFunded - e.contribution contributor }

def Escrow.milestoneRecorded (e : Escrow Addr) (milestoneId : Nat) (m : Milestone) : Escrow Addr :=
  { e with
    milestoneData := e.milestoneData.set milestoneId m
    milestonesCompleted := e.milestonesCompleted + 1 }

theorem contribution_funded (e : Escrow Addr) (caller a : Addr) (amount : Int) :
    (e.funded caller amount).contribution a =
      if caller = a then e.contribution caller + amount else e.contribution a :=
  HostMap.getD_set _ _ _ _ _

/-- A contributor who funds again is no longer marked as refunded. -/
theorem isRefunded_funded (e : Escrow Addr) (caller a : Addr) (amount : Int) :
    (e.funded caller amount).isRefunded a = if caller = a then false else e.isRefunded a := by
  unfold Escrow.funded Escrow.isRefunded
  dsimp only
  by_cases hr : e.refunded.getD caller false = true
  · rw [if_pos hr]
    exact HostMap.getD_set _ _ _ _ _
  · rw [if_neg hr]
    split
    · next h => exact h ▸ Bool.not_eq_true _ ▸ hr
    · rfl

theorem contribution_refundedTo (e : Escrow Addr) (contributor a : Addr) :
    (e.refundedTo contributor).contribution a =
      if contributor = a then 0 else e.contribution a :=
  HostMap.getD_set _ _ _ _ _

theorem isRefunded_refundedTo (e : Escrow Addr) (contributor a : Addr) :
    (e.refundedTo contributor).isRefunded a =
      if contributor = a then true else e.isRefunded a :=
  HostMap.getD_set _ _ _ _ _

/-- The contributor has something to refund and may receive it. -/
def Escrow.Due (e : Escrow Addr) (contributor : Addr) : Prop :=
  0 < e.contribution contributor ∧ e.isRefunded contributor = false ∧
    e.isFrozen contributor = false

instance (e : Escrow Addr) (contributor : Addr) : Decidable (e.Due contributor) :=
  inferInstanceAs (Decidable (_ ∧ _))

def markReleased (w : World Addr) : World Addr :=
  setEscrow w { w.storage.toEscrow with released := true }

/-- What a release or settlement pays. -/
def Escrow.payout (e : Escrow Addr) : List (Addr × Int) :=
  [(e.farmer, e.farmerAmount), (e.platform, e.platformAmount)]

def distributed (w : World Addr) : World Addr := (markReleased w).sentEach w.storage.payout

def refundTo (w : World Addr) (contributor : Addr) : World Addr :=
  (setEscrow w (w.storage.refundedTo contributor)).sent contributor
    (w.storage.contribution contributor)

def refundIfDue (w : World Addr) (contributor : Addr) : World Addr :=
  if w.storage.Due contributor then refundTo w contributor else w

/-- Refunds are open: the deadline went by, nothing was released and the target was missed. -/
structure Escrow.Expired (e : Escrow Addr) (led : Ledger Addr) : Prop where
  deadline_lt : e.fundingDeadline < led.timestamp
  unreleased : e.released = false
  target_missed : e.totalFunded < e.dealValue

/-- The two calls that pay the farmer and the platform. -/
def Call.Settles : Call Addr → Bool
  | .release _ | .settleEscrow _ => true
  | _ => false

/-- What the call requires before it distributes. -/
def Call.SettleReady (e : Escrow Addr) : Call Addr → Prop
  | .release _ => e.deliveryApproved = true ∧ 0 < e.totalFunded
  | .settleEscrow _ => e.milestonesCount ≤ e.milestonesCompleted ∧ e.dealValue ≤ e.totalFunded
  | _ => False

inductive Moves (led : Ledger Addr) (w : World Addr) : Call Addr → World Addr → Prop
  | view : Moves led w .view w
  | idleRefund {contributor : Addr} :
      w.storage.isRefunded contributor = true → Moves led w (.refundAfterExpiry contributor) w
  | fund {caller : Addr} {amount : Int} :
      caller ≠ w.contract → w.storage.released = false → 0 < amount →
      FitsI128 (w.storage.totalFunded + amount) →
      Moves led w (.fund caller amount)
        ((setEscrow w (w.storage.funded caller amount)).received caller amount)
  | approve {caller : Addr} {call : Call Addr} :
      call = .approveDelivery caller ∨ call = .submitDeliveryMilestone caller →
      Moves led w call (setEscrow w { w.storage.toEscrow with deliveryApproved := true })
  | distribute {call : Call Addr} :
      call.Settles = true → call.SettleReady w.storage.toEscrow → w.storage.released = false →
      w.storage.isFrozen w.storage.farmer = false → w.storage.isFrozen w.storage.platform = false →
      Moves led w call (distributed w)
  | recordMilestone {caller : Addr} {milestoneId : Nat} {m : Milestone} :
      milestoneId < w.storage.milestonesCount → w.storage.milestoneData.get? milestoneId = none →
      Moves led w (.recordMilestone caller milestoneId)
        (setEscrow w (w.storage.milestoneRecorded milestoneId m))
  | upgrade {caller : Addr} {newWasmHash : BitVec 256} :
      Moves led w (.upgrade caller newWasmHash) { w with storage.wasm := some newWasmHash }
  | freeze {caller contributor : Addr} :
      Moves led w (.freezeContributor caller contributor)
        (setEscrow w { w.storage.toEscrow with
          frozenContributors := w.storage.frozenContributors.set contributor true })
  | unfreeze {caller contributor : Addr} :
      Moves led w (.unfreezeContributor caller contributor)
        (setEscrow w { w.storage.toEscrow with
          frozenContributors := w.storage.frozenContributors.remove contributor })
  | refund {contributor : Addr} :
      contributor ≠ w.contract → w.storage.Expired led → w.storage.Due contributor →
      Moves led w (.refundAfterExpiry contributor) (refundTo w contributor)
  | refundAll {caller : Addr} :
      w.storage.Expired led →
      Moves led w (.refundAllAfterExpiry caller)
        ((investorAddresses w.storage.toEscrow).foldl refundIfDue w)

/-! ## The lock around a transfer -/

def setLock (w : World Addr) (locked : Bool) : World Addr :=
  { w with storage.operationInProgress := locked }

theorem setLock_of_unlocked {w : World Addr} (h : w.storage.operationInProgress = false) :
    setLock w false = w := by
  unfold setLock
  rw [← h]

theorem setLock_setLock (w : World Addr) (locked locked' : Bool) :
    setLock (setLock w locked) locked' = setLock w locked' := rfl

theorem refundIfDue_setLock (w : World Addr) (locked : Bool) (contributor : Addr) :
    refundIfDue (setLock w locked) contributor = setLock (refundIfDue w contributor) locked := by
  unfold refundIfDue
  by_cases h : w.storage.Due contributor
  · rw [if_pos h, if_pos (show (setLock w locked).storage.Due contributor from h)]
    rfl
  · rw [if_neg h, if_neg (show ¬ (setLock w locked).storage.Due contributor from h)]

theorem foldl_refundIfDue_setLock (l : List Addr) (w : World Addr) (locked : Bool) :
    l.foldl refundIfDue (setLock w locked) = setLock (l.foldl refundIfDue w) locked := by
  induction l generalizing w with
  | nil => rfl
  | cons a l ih => rw [List.foldl_cons, refundIfDue_setLock, ih, List.foldl_cons]

/-! ## What a refund leaves alone -/

theorem refundTo_contribution_ne (w : World Addr) {a a' : Addr} (h : a ≠ a') :
    (refundTo w a).storage.contribution a' = w.storage.contribution a' :=
  (contribution_refundedTo _ a a').trans (if_neg h)

/-- A property that a refund keeps is kept by any sequence of them. -/
theorem foldl_refundIfDue_induction {P : World Addr → Prop} {w : World Addr} (l : List Addr)
    (h0 : P w) (hstep : ∀ u a, u.storage.Due a → P u → P (refundTo u a)) :
    P (l.foldl refundIfDue w) := by
  induction l generalizing w with
  | nil => exact h0
  | cons a l ih =>
    rw [List.foldl_cons]
    apply ih
    unfold refundIfDue
    split
    · next hd => exact hstep w a hd h0
    · exact h0

theorem foldl_refundIfDue_lock (l : List Addr) (w : World Addr) :
    (l.foldl refundIfDue w).storage.operationInProgress = w.storage.operationInProgress :=
  foldl_refundIfDue_induction
    (P := fun u => u.storage.operationInProgress = w.storage.operationInProgress) l rfl
    fun _ _ _ h => h

/-! ## The batch loop -/

/-- The loop's local variables hold what storage holds. -/
structure Synced (b : Batch Addr) (w : World Addr) : Prop where
  refunded_eq : b.updatedRefundedMap = w.storage.refunded
  investors_eq : b.updatedInvestorsMap = w.storage.investors
  total_eq : b.totalFunded = w.storage.totalFunded

theorem writeBatch_of_synced {b : Batch Addr} {w : World Addr} (h : Synced b w) :
    writeBatch w b = w := by
  unfold writeBatch
  rw [h.refunded_eq, h.investors_eq, h.total_eq]

/-- The variables after a round that pays `investor`. -/
def Batch.paid (b : Batch Addr) (investor : Addr) (amount : Int) : Batch Addr where
  updatedRefundedMap := b.updatedRefundedMap.set investor true
  updatedInvestorsMap := b.updatedInvestorsMap.set investor 0
  totalRefunded := b.totalRefunded + amount
  totalFunded := b.totalFunded - amount

theorem writeBatch_paid {b : Batch Addr} {w : World Addr} (h : Synced b w) (a : Addr) :
    (writeBatch w (b.paid a (w.storage.contribution a))).sent a (w.storage.contribution a) =
      refundTo w a := by
  unfold writeBatch Batch.paid
  rw [h.refunded_eq, h.investors_eq, h.total_eq]
  rfl

theorem synced_paid {b : Batch Addr} {w : World Addr} (h : Synced b w) (a : Addr) :
    Synced (b.paid a (w.storage.contribution a)) (refundTo w a) :=
  ⟨congrArg (fun m => m.set a true) h.refunded_eq, congrArg (fun m => m.set a 0) h.investors_eq,
    congrArg (· - w.storage.contribution a) h.total_eq⟩

theorem refundEach_eq {investorsMap : HostMap Addr Int} {l : List Addr} {b b' : Batch Addr}
    {w w' : World Addr}
    (h : refundEach passive investorsMap w.storage.frozenContributors l b w = .ok (b', w'))
    (hb : Synced b w) (hl : l.Nodup)
    (hi : ∀ a ∈ l, investorsMap.getD a 0 = w.storage.contribution a) :
    w' = l.foldl refundIfDue w ∧ Synced b' w' := by
  induction l generalizing b w with
  | nil =>
    obtain ⟨rfl, rfl⟩ := Prod.mk.inj (Except.ok.inj h)
    exact ⟨rfl, hb⟩
  | cons a l ih =>
    obtain ⟨hnew, hl⟩ := List.nodup_cons.mp hl
    have hia := hi a (List.mem_cons_self ..)
    have hskip : ¬ w.storage.Due a →
        refundEach passive investorsMap w.storage.frozenContributors l b w = .ok (b', w') →
        w' = (a :: l).foldl refundIfDue w ∧ Synced b' w' := by
      intro hdue hrest
      rw [List.foldl_cons, refundIfDue, if_neg hdue]
      exact ih hrest hb hl fun a' ha' => hi a' (List.mem_cons_of_mem _ ha')
    unfold refundEach at h
    dsimp only at h
    rw [hia] at h
    split at h
    · next hpos =>
      rw [hb.refunded_eq] at hpos
      split at h
      · next hf => exact hskip (fun hd => by simp [Escrow.Due, Escrow.isFrozen, hf] at hd) h
      · next hf =>
        simp only [failIf_bind_eq_ok, okOr_bind_eq_ok, checkedSub_eq_some, checkedAdd_eq_some,
          pay_passive] at h
        obtain ⟨hle, _, ⟨_, rfl⟩, _, ⟨_, rfl⟩, h⟩ := h
        obtain ⟨u, hu, h⟩ := bind_eq_ok.mp h
        obtain ⟨_, _, rfl⟩ := Vault.send_eq_ok.mp hu
        have hround : refundEach passive investorsMap w.storage.frozenContributors l
            (b.paid a (w.storage.contribution a)) (refundTo w a) = .ok (b', w') := by
          rw [← writeBatch_paid hb a]
          exact h
        have hdue : w.storage.Due a := ⟨hpos.1, hpos.2, Bool.not_eq_true _ ▸ hf⟩
        rw [List.foldl_cons, refundIfDue, if_pos hdue]
        refine ih hround (synced_paid hb a) hl ?_
        intro a' ha'
        have hne : a ≠ a' := by
          rintro rfl
          exact hnew ha'
        rw [refundTo_contribution_ne w hne]
        exact hi a' (List.mem_cons_of_mem _ ha')
    · next hpos =>
      rw [hb.refunded_eq] at hpos
      exact hskip (fun hd => hpos ⟨hd.1, hd.2.1⟩) h

theorem investorAddresses_nodup (e : Escrow Addr) : (investorAddresses e).Nodup :=
  e.investors.keys_nodup

/-! ## Inversion of the entry points -/

section Inversion

variable {led : Ledger Addr} {w w' : World Addr} {caller : Addr}

theorem requireAdmin_bind_eq_ok {f : Unit → Result Error (World Addr)} :
    (requireAdmin led w caller >>= f) = .ok w' ↔
      (led.authorized caller = true ∧ caller ≠ w.contract) ∧
        caller = w.storage.admin ∧ f () = .ok w' := by
  unfold requireAdmin
  rw [bind_assoc, Vault.requireAuth_bind_eq_ok, failIf_bind_eq_ok, not_not, and_assoc]

theorem requireAdminOrFarmer_bind_eq_ok {f : Unit → Result Error (World Addr)} :
    (requireAdminOrFarmer led w caller >>= f) = .ok w' ↔
      (led.authorized caller = true ∧ caller ≠ w.contract) ∧
        (caller = w.storage.admin ∨ caller = w.storage.farmer) ∧ f () = .ok w' := by
  unfold requireAdminOrFarmer
  rw [bind_assoc, Vault.requireAuth_bind_eq_ok, failIf_bind_eq_ok, not_and_or, not_not, not_not,
    and_assoc]

theorem requireUnlocked_bind_eq_ok {f : Unit → Result Error (World Addr)} :
    (requireUnlocked w >>= f) = .ok w' ↔
      w.storage.operationInProgress = false ∧ f () = .ok w' := by
  unfold requireUnlocked
  rw [failIf_bind_eq_ok, Bool.not_eq_true]

theorem moves_fund {amount : Int} (h : fund passive led w caller amount = .ok w') :
    Moves led w (.fund caller amount) w' := by
  unfold fund at h
  simp only [Vault.requireAuth_bind_eq_ok, requireUnlocked_bind_eq_ok, failIf_bind_eq_ok,
    okOr_bind_eq_ok, checkedAdd_eq_some, collect_passive, not_le, Bool.not_eq_true] at h
  obtain ⟨ha, _, hc, hr, hl, _, ⟨hfit, rfl⟩, _, ⟨_, rfl⟩, h⟩ := h
  obtain ⟨u, hu, h⟩ := bind_eq_ok.mp h
  obtain rfl := Vault.receive_eq_ok hu
  obtain rfl := Except.ok.inj h
  change Moves led w _ ((setEscrow (setLock w false)
    ((setLock w false).storage.funded caller amount)).received caller amount)
  rw [setLock_of_unlocked hl]
  exact .fund hc hr ha hfit

theorem payIfPositive_eq_ok {dst : Addr} {amount : Int}
    (h : payIfPositive passive w dst amount = .ok w') : w' = w.sentIfPositive dst amount := by
  unfold payIfPositive at h
  unfold Vault.sentIfPositive
  split at h
  · next hpos =>
    rw [pay_passive, Vault.send_eq_ok] at h
    rw [if_pos hpos, h.2.2]
  · next hpos => rw [if_neg hpos, Except.ok.inj h]

theorem sentEach_setLock (w : World Addr) (locked : Bool) (payout : List (Addr × Int)) :
    (setLock w locked).sentEach payout = setLock (w.sentEach payout) locked := by
  unfold Vault.sentEach
  induction payout generalizing w with
  | nil => rfl
  | cons p payout ih =>
    have hone : (setLock w locked).sentIfPositive p.1 p.2 =
        setLock (w.sentIfPositive p.1 p.2) locked := by
      unfold Vault.sentIfPositive
      split <;> rfl
    rw [List.foldl_cons, hone, ih, List.foldl_cons]

theorem distribute_eq_ok (hl : w.storage.operationInProgress = false)
    (h : distribute passive w = .ok w') :
    w.storage.isFrozen w.storage.farmer = false ∧
      w.storage.isFrozen w.storage.platform = false ∧ w' = distributed w := by
  unfold distribute at h
  simp only [failIf_bind_eq_ok, okOr_bind_eq_ok, checkedMul_eq_some, checkedDiv_eq_some,
    checkedSub_eq_some, Bool.not_eq_true] at h
  obtain ⟨hfarmer, hplatform, _, ⟨_, rfl⟩, _, ⟨_, _, rfl⟩, _, ⟨_, rfl⟩, h⟩ := h
  obtain ⟨u, hu, h⟩ := bind_eq_ok.mp h
  obtain ⟨v, hv, h⟩ := bind_eq_ok.mp h
  obtain rfl := payIfPositive_eq_ok hu
  obtain rfl := payIfPositive_eq_ok hv
  obtain rfl := Except.ok.inj h
  refine ⟨hfarmer, hplatform, ?_⟩
  -- both transfers run under the lock, which is then taken off again
  change setLock ((setLock (markReleased w) true).sentEach w.storage.payout) false = _
  rw [sentEach_setLock, setLock_setLock, ← sentEach_setLock,
    setLock_of_unlocked (w := markReleased w) hl]
  rfl

theorem moves_release (h : release passive led w caller = .ok w') :
    Moves led w (.release caller) w' := by
  unfold release at h
  simp only [requireAdmin_bind_eq_ok, requireUnlocked_bind_eq_ok, failIf_bind_eq_ok, not_le,
    Bool.not_eq_true, Bool.not_eq_false] at h
  obtain ⟨_, _, hr, hl, hd, ht, h⟩ := h
  obtain ⟨hfarmer, hplatform, rfl⟩ := distribute_eq_ok hl h
  exact .distribute rfl ⟨hd, ht⟩ hr hfarmer hplatform

theorem moves_settleEscrow (h : settleEscrow passive led w caller = .ok w') :
    Moves led w (.settleEscrow caller) w' := by
  unfold settleEscrow at h
  simp only [requireAdmin_bind_eq_ok, requireUnlocked_bind_eq_ok, failIf_bind_eq_ok, not_lt,
    Bool.not_eq_true] at h
  obtain ⟨_, _, hr, hl, hm, ht, h⟩ := h
  obtain ⟨hfarmer, hplatform, rfl⟩ := distribute_eq_ok hl h
  exact .distribute rfl ⟨hm, ht⟩ hr hfarmer hplatform

theorem moves_recordMilestone {milestoneId : Nat}
    (h : recordMilestone led w caller milestoneId = .ok w') :
    Moves led w (.recordMilestone caller milestoneId) w' := by
  unfold recordMilestone at h
  simp only [requireAdminOrFarmer_bind_eq_ok, requireUnlocked_bind_eq_ok, failIf_bind_eq_ok,
    okOr_bind_eq_ok, checkedAddU_eq_some, pure_eq_ok, Except.ok.injEq, ge_iff_le, not_le,
    Bool.not_eq_true, Option.isSome_eq_false_iff, Option.isNone_iff_eq_none] at h
  obtain ⟨_, _, _, hlt, hn, _, ⟨_, rfl⟩, rfl⟩ := h
  exact .recordMilestone hlt hn

theorem moves_refundAfterExpiry (hl : w.storage.operationInProgress = false)
    (h : refundAfterExpiry passive led w caller = .ok w') :
    Moves led w (.refundAfterExpiry caller) w' := by
  unfold refundAfterExpiry at h
  dsimp only at h
  rw [if_neg (by simp [hl]), Vault.requireAuth_bind_eq_ok] at h
  obtain ⟨_, hc, h⟩ := h
  split at h
  · next hr =>
    obtain rfl := Except.ok.inj h
    exact .idleRefund hr
  · next hr =>
    simp only [failIf_bind_eq_ok, okOr_bind_eq_ok, checkedSub_eq_some, pay_passive, not_le, not_lt,
      Bool.not_eq_true] at h
    obtain ⟨hd, hu, ht, hpos, hf, _, _, ⟨_, rfl⟩, h⟩ := h
    obtain ⟨u, hu', h⟩ := bind_eq_ok.mp h
    obtain ⟨_, _, rfl⟩ := Vault.send_eq_ok.mp hu'
    obtain rfl := Except.ok.inj h
    change Moves led w _ (refundTo (setLock w false) caller)
    rw [setLock_of_unlocked hl]
    exact .refund hc ⟨hd, hu, not_le.mp ht⟩ ⟨hpos, Bool.not_eq_true _ ▸ hr, hf⟩

theorem moves_refundAllAfterExpiry (hl : w.storage.operationInProgress = false)
    (h : refundAllAfterExpiry passive led w caller = .ok w') :
    Moves led w (.refundAllAfterExpiry caller) w' := by
  unfold refundAllAfterExpiry at h
  dsimp only at h
  rw [if_neg (by simp [hl])] at h
  simp only [requireAdmin_bind_eq_ok, failIf_bind_eq_ok, not_le, Bool.not_eq_true] at h
  obtain ⟨_, _, hd, hu, ht, h⟩ := h
  obtain ⟨⟨b, v⟩, hloop, h⟩ := bind_eq_ok.mp h
  obtain ⟨rfl, hb⟩ := refundEach_eq (w := setLock w true) hloop ⟨rfl, rfl, rfl⟩
    (investorAddresses_nodup w.storage.toEscrow) fun _ _ => rfl
  have hunlocked := (foldl_refundIfDue_lock (investorAddresses w.storage.toEscrow) w).trans hl
  have hmove : Moves led w (.refundAllAfterExpiry caller)
      ((investorAddresses w.storage.toEscrow).foldl refundIfDue w) :=
    .refundAll ⟨hd, hu, not_le.mp ht⟩
  rw [foldl_refundIfDue_setLock] at h hb
  generalize (investorAddresses w.storage.toEscrow).foldl refundIfDue w = paid at *
  change (if b.totalRefunded = 0 then Except.ok (setLock paid false) else
    Except.ok (writeBatch (setLock paid false) b)) = _ at h
  have hsynced : Synced b paid := ⟨hb.refunded_eq, hb.investors_eq, hb.total_eq⟩
  rw [setLock_of_unlocked hunlocked, writeBatch_of_synced hsynced, ite_self] at h
  exact Except.ok.inj h ▸ hmove

theorem moves_of_dispatch {call : Call Addr} (hl : w.storage.operationInProgress = false)
    (h : dispatch passive led w call = .ok w') : Moves led w call w' := by
  cases call with
  | initializeContract => simp [dispatch, initializeContract, failIf] at h
  | fund => exact moves_fund h
  | approveDelivery =>
    simp only [dispatch, approveDelivery, requireAdmin_bind_eq_ok, requireUnlocked_bind_eq_ok,
      pure_eq_ok, Except.ok.injEq] at h
    obtain ⟨_, _, _, rfl⟩ := h
    exact .approve (.inl rfl)
  | submitDeliveryMilestone =>
    simp only [dispatch, submitDeliveryMilestone, requireAdminOrFarmer_bind_eq_ok,
      requireUnlocked_bind_eq_ok, pure_eq_ok, Except.ok.injEq] at h
    obtain ⟨_, _, _, rfl⟩ := h
    exact .approve (.inr rfl)
  | release => exact moves_release h
  | recordMilestone => exact moves_recordMilestone h
  | settleEscrow => exact moves_settleEscrow h
  | upgrade =>
    simp only [dispatch, upgrade, requireAdmin_bind_eq_ok, requireUnlocked_bind_eq_ok,
      pure_eq_ok, Except.ok.injEq] at h
    obtain ⟨_, _, _, rfl⟩ := h
    exact .upgrade
  | freezeContributor =>
    simp only [dispatch, freezeContributor, requireAdmin_bind_eq_ok, requireUnlocked_bind_eq_ok,
      pure_eq_ok, Except.ok.injEq] at h
    obtain ⟨_, _, _, rfl⟩ := h
    exact .freeze
  | unfreezeContributor =>
    simp only [dispatch, unfreezeContributor, requireAdmin_bind_eq_ok, requireUnlocked_bind_eq_ok,
      failIf_bind_eq_ok, pure_eq_ok, Except.ok.injEq] at h
    obtain ⟨_, _, _, _, rfl⟩ := h
    exact .unfreeze
  | refundAfterExpiry => exact moves_refundAfterExpiry hl h
  | refundAllAfterExpiry => exact moves_refundAllAfterExpiry hl h
  | view =>
    obtain rfl := Except.ok.inj h
    exact .view

/-- Every step of a run is a move of the world its call entered. -/
theorem moves_of_step {inv : Invocation Addr} (hl : w.storage.operationInProgress = false)
    (h : callStep w inv = some w') : Moves inv.ledger (w.enter inv.ledger) inv.call w' := by
  unfold callStep at h
  split at h
  · simp at h
  · exact moves_of_dispatch hl (Vault.step_eq_some.mp h).2

end Inversion

end AgriFi.EscrowContract
