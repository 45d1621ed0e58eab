import AgriFi.EscrowContract.Conservation

/-
  The re-entrancy lock. `Adversary` is a token that makes any finite sequence of calls back into
  the escrow while a transfer runs, each chosen from the world it sees, their own transfers
  included. Under the lock every entry point fails or returns at once (`locked_call`), so all an
  adversary leaves is its record (`react_locked`); every transfer runs under the lock, so each
  entry point agrees with its run on the passive token up to that record (`dispatch_agrees`).
-/

namespace AgriFi.EscrowContract

open AgriFi.Soroban AgriFi.Runs

variable {Addr : Type} [LinearOrder Addr]

/-! ## Adversarial tokens -/

/-- A re-entrant call: one that fails is rolled back, and the caller goes on. -/
def reenter (token : TokenCode Addr) (led : Ledger Addr) (call : Call Addr) (w : World Addr) :
    World Addr :=
  let w' :=
    match dispatch token led w call with
    | .ok w' => w'
    | .error _ => w
  { w' with
    storage.reentries := w'.storage.reentries ++
      [⟨w.storage.toEscrow, w'.storage.toEscrow, w.payments, w'.payments⟩] }

/-- What a token does while a transfer runs: nothing more, or a call back into the escrow, in
    whose transfers it does `inner`, and then the rest. -/
inductive Adversary (Addr : Type) [LinearOrder Addr] where
  | done
  | call (choose : World Addr → Ledger Addr × Call Addr) (inner rest : World Addr → Adversary Addr)

def Adversary.react : Adversary Addr → World Addr → World Addr
  | .done, w => w
  | .call choose inner rest, w =>
    let token : TokenCode Addr := ⟨fun u => (inner u).react u, fun u => (inner u).react u⟩
    let w' := reenter token (choose w).1 (choose w).2 w
    (rest w').react w'

/-- The token that reacts to each transfer, before and after the money moves, by a strategy
    chosen from the world it finds. -/
def hostile (strategy : World Addr → Adversary Addr) : TokenCode Addr :=
  ⟨fun u => (strategy u).react u, fun u => (strategy u).react u⟩

/-- A successful call with the token's strategy during that call. -/
def hostileStep (w : World Addr) (x : (World Addr → Adversary Addr) × Invocation Addr) :
    Option (World Addr) :=
  if w.storage.wasm.isSome = true then none else Vault.step (dispatch (hostile x.1)) w x.2

/-- Reached from initialisation by calls during which the token did anything it likes. -/
def HostileReachable (w : World Addr) : Prop := ∃ w₀, Initialized w₀ ∧ Reaches hostileStep w₀ w

/-- The re-entrant call changed no storage and made no transfer. -/
def Reentry.Quiet (r : Reentry Addr) : Prop :=
  r.storageAfter = r.storageBefore ∧ r.paymentsAfter = r.paymentsBefore

/-! ## Calls under the lock -/

theorem locked_call {token : TokenCode Addr} {led : Ledger Addr} {w w' : World Addr}
    {call : Call Addr} (hl : w.storage.operationInProgress = true)
    (h : dispatch token led w call = .ok w') : w' = w := by
  cases call with
  | refundAfterExpiry =>
    simp only [dispatch, refundAfterExpiry, if_pos hl] at h
    exact (Except.ok.inj h).symm
  | refundAllAfterExpiry =>
    simp only [dispatch, refundAllAfterExpiry, if_pos hl] at h
    exact (Except.ok.inj h).symm
  | view => exact (Except.ok.inj h).symm
  | initializeContract => simp [dispatch, initializeContract, failIf] at h
  | fund =>
    simp [dispatch, fund, Vault.requireAuth_bind_eq_ok, requireUnlocked_bind_eq_ok, hl] at h
  | release =>
    simp [dispatch, release, requireAdmin_bind_eq_ok, requireUnlocked_bind_eq_ok, hl] at h
  | settleEscrow =>
    simp [dispatch, settleEscrow, requireAdmin_bind_eq_ok, requireUnlocked_bind_eq_ok, hl] at h
  | approveDelivery =>
    simp [dispatch, approveDelivery, requireAdmin_bind_eq_ok, requireUnlocked_bind_eq_ok, hl] at h
  | submitDeliveryMilestone =>
    simp [dispatch, submitDeliveryMilestone, requireAdminOrFarmer_bind_eq_ok,
      requireUnlocked_bind_eq_ok, hl] at h
  | recordMilestone =>
    simp [dispatch, recordMilestone, requireAdminOrFarmer_bind_eq_ok,
      requireUnlocked_bind_eq_ok, hl] at h
  | upgrade =>
    simp [dispatch, upgrade, requireAdmin_bind_eq_ok, requireUnlocked_bind_eq_ok, hl] at h
  | freezeContributor =>
    simp [dispatch, freezeContributor, requireAdmin_bind_eq_ok, requireUnlocked_bind_eq_ok,
      hl] at h
  | unfreezeContributor =>
    simp [dispatch, unfreezeContributor, requireAdmin_bind_eq_ok, requireUnlocked_bind_eq_ok,
      hl] at h

/-! ## What an adversary leaves -/

/-- The world with the records of some re-entrant calls added. -/
def logged (w : World Addr) (log : List (Reentry Addr)) : World Addr :=
  { w with storage.reentries := w.storage.reentries ++ log }

theorem logged_nil (w : World Addr) : logged w [] = w := by
  unfold logged
  rw [List.append_nil]

theorem logged_logged (w : World Addr) (l l' : List (Reentry Addr)) :
    logged (logged w l) l' = logged w (l ++ l') := by
  unfold logged
  rw [← List.append_assoc]

/-- `u` is `v` with records of re-entrant calls that did nothing. -/
def Shadows (u v : World Addr) : Prop := ∃ log, (∀ r ∈ log, r.Quiet) ∧ u = logged v log

theorem Shadows.refl (w : World Addr) : Shadows w w := ⟨[], by simp, (logged_nil w).symm⟩

theorem Shadows.trans {u v w : World Addr} (h₁ : Shadows u v) (h₂ : Shadows v w) :
    Shadows u w := by
  obtain ⟨l, hl, rfl⟩ := h₁
  obtain ⟨l', hl', rfl⟩ := h₂
  refine ⟨l' ++ l, ?_, logged_logged w l' l⟩
  intro r hr
  rcases List.mem_append.mp hr with h | h
  · exact hl' r h
  · exact hl r h

theorem reenter_locked {token : TokenCode Addr} {led : Ledger Addr} {w : World Addr}
    {call : Call Addr} (hl : w.storage.operationInProgress = true) :
    Shadows (reenter token led call w) w := by
  refine ⟨[⟨w.storage.toEscrow, w.storage.toEscrow, w.payments, w.payments⟩],
    by simp [Reentry.Quiet], ?_⟩
  unfold reenter
  cases h : dispatch token led w call with
  | ok w' =>
    obtain rfl := locked_call hl h
    rfl
  | error e => rfl

theorem Shadows.locked {u v : World Addr} (h : Shadows u v) :
    u.storage.operationInProgress = v.storage.operationInProgress := by
  obtain ⟨_, _, rfl⟩ := h
  rfl

theorem react_locked (a : Adversary Addr) {w : World Addr}
    (hl : w.storage.operationInProgress = true) : Shadows (a.react w) w := by
  induction a generalizing w with
  | done => exact Shadows.refl w
  | call choose inner rest _ ih =>
    have hcall : Shadows (reenter ⟨fun u => (inner u).react u, fun u => (inner u).react u⟩
        (choose w).1 (choose w).2 w) w := reenter_locked hl
    exact (ih _ (hcall.locked.trans hl)).trans hcall

/-- A token that leaves nothing but records when it runs under the lock. -/
def Inert (token : TokenCode Addr) : Prop :=
  ∀ w, w.storage.operationInProgress = true →
    Shadows (token.before w) w ∧ Shadows (token.after w) w

theorem hostile_inert (strategy : World Addr → Adversary Addr) : Inert (hostile strategy) :=
  fun _ hl => ⟨react_locked _ hl, react_locked _ hl⟩

/-! ## Agreement with the passive token -/

section Agreement

variable {token : TokenCode Addr} {led : Ledger Addr} {u v w : World Addr}

/-- Related worlds in the middle of a transfer. -/
def LockedShadows (u v : World Addr) : Prop :=
  Shadows u v ∧ v.storage.operationInProgress = true

theorem send_agrees (h : LockedShadows u v) (dst : Addr) (amount : Int) :
    Agrees LockedShadows (u.send dst amount : Result Error _) (v.send dst amount) := by
  obtain ⟨⟨log, hlog, rfl⟩, hl⟩ := h
  unfold Vault.send failIf
  by_cases hc : amount < 0 ∨ v.balance < amount
  · rw [if_pos hc, if_pos (show amount < 0 ∨ (logged v log).balance < amount from hc)]
    exact .error _
  · rw [if_neg hc, if_neg (show ¬ (amount < 0 ∨ (logged v log).balance < amount) from hc)]
    exact .ok ⟨⟨log, hlog, rfl⟩, hl⟩

theorem receive_agrees (h : LockedShadows u v) (src : Addr) (amount : Int) :
    Agrees LockedShadows (u.receive led src amount : Result Error _)
      (v.receive led src amount) := by
  obtain ⟨⟨log, hlog, rfl⟩, hl⟩ := h
  unfold Vault.receive
  refine Agrees.bind_same _ ?_
  intro _
  exact .ok ⟨⟨log, hlog, rfl⟩, hl⟩

theorem Inert.before (ht : Inert token) (h : LockedShadows u v) :
    LockedShadows (token.before u) v :=
  ⟨(ht u (h.1.locked.trans h.2)).1.trans h.1, h.2⟩

theorem Inert.after (ht : Inert token) (h : LockedShadows u v) :
    LockedShadows (token.after u) v :=
  ⟨(ht u (h.1.locked.trans h.2)).2.trans h.1, h.2⟩

theorem pay_agrees (ht : Inert token) (h : LockedShadows u v) (dst : Addr) (amount : Int) :
    Agrees LockedShadows (pay token u dst amount) (pay passive v dst amount) := by
  unfold pay
  exact (send_agrees (ht.before h) dst amount).bind fun _ _ h' => .ok (ht.after h')

theorem collect_agrees (ht : Inert token) (h : LockedShadows u v) (src : Addr) (amount : Int) :
    Agrees LockedShadows (collect token led u src amount) (collect passive led v src amount) := by
  unfold collect
  exact (receive_agrees (ht.before h) src amount).bind fun _ _ h' => .ok (ht.after h')

theorem payIfPositive_agrees (ht : Inert token) (h : LockedShadows u v) (dst : Addr)
    (amount : Int) :
    Agrees LockedShadows (payIfPositive token u dst amount)
      (payIfPositive passive v dst amount) := by
  unfold payIfPositive
  split
  · exact pay_agrees ht h dst amount
  · exact .ok h

/-- The lock is taken off at the end. -/
theorem LockedShadows.unlock (h : LockedShadows u v) :
    Shadows (setLock u false) (setLock v false) := by
  obtain ⟨⟨log, hlog, rfl⟩, _⟩ := h
  exact ⟨log, hlog, rfl⟩

theorem fund_agrees (ht : Inert token) (caller : Addr) (amount : Int) :
    Agrees Shadows (fund token led w caller amount) (fund passive led w caller amount) := by
  unfold fund
  refine .bind_same _ fun _ => .bind_same _ fun _ => .bind_same _ fun _ => .bind_same _ fun _ =>
    .bind_same _ fun _ => .bind_same _ fun _ => ?_
  exact (collect_agrees ht ⟨Shadows.refl _, rfl⟩ caller amount).bind fun _ _ h => .ok h.unlock

theorem distribute_agrees (ht : Inert token) :
    Agrees Shadows (distribute token w) (distribute passive w) := by
  unfold distribute
  refine .bind_same _ fun _ => .bind_same _ fun _ => .bind_same _ fun _ => .bind_same _ fun _ =>
    .bind_same _ fun _ => ?_
  refine (payIfPositive_agrees ht ⟨Shadows.refl _, rfl⟩ _ _).bind ?_
  intro _ _ h
  exact (payIfPositive_agrees ht h _ _).bind fun _ _ h => .ok h.unlock

theorem release_agrees (ht : Inert token) (caller : Addr) :
    Agrees Shadows (release token led w caller) (release passive led w caller) := by
  unfold release
  exact .bind_same _ fun _ => .bind_same _ fun _ => .bind_same _ fun _ => .bind_same _ fun _ =>
    .bind_same _ fun _ => distribute_agrees ht

theorem settleEscrow_agrees (ht : Inert token) (caller : Addr) :
    Agrees Shadows (settleEscrow token led w caller) (settleEscrow passive led w caller) := by
  unfold settleEscrow
  exact .bind_same _ fun _ => .bind_same _ fun _ => .bind_same _ fun _ => .bind_same _ fun _ =>
    .bind_same _ fun _ => distribute_agrees ht

theorem refundAfterExpiry_agrees (ht : Inert token) (contributor : Addr) :
    Agrees Shadows (refundAfterExpiry token led w contributor)
      (refundAfterExpiry passive led w contributor) := by
  unfold refundAfterExpiry
  dsimp only
  split
  · exact .ok (Shadows.refl w)
  · refine .bind_same _ ?_
    intro _
    split
    · exact .ok (Shadows.refl w)
    · refine .bind_same _ fun _ => .bind_same _ fun _ => .bind_same _ fun _ =>
        .bind_same _ fun _ => .bind_same _ fun _ => .bind_same _ fun _ => .bind_same _ fun _ => ?_
      exact (pay_agrees ht ⟨Shadows.refl _, rfl⟩ _ _).bind fun _ _ h => .ok h.unlock

/-- The loop reads only its local variables, so related worlds stay related. -/
theorem refundEach_agrees (ht : Inert token) (investorsMap : HostMap Addr Int)
    (frozenMap : HostMap Addr Bool) (l : List Addr) (b : Batch Addr) (h : LockedShadows u v) :
    Agrees (fun p q => p.1 = q.1 ∧ LockedShadows p.2 q.2)
      (refundEach token investorsMap frozenMap l b u)
      (refundEach passive investorsMap frozenMap l b v) := by
  induction l generalizing b u v with
  | nil => exact .ok ⟨rfl, h⟩
  | cons a l ih =>
    unfold refundEach
    dsimp only
    split
    · split
      · exact ih b h
      · refine .bind_same _ fun _ => .bind_same _ fun _ => .bind_same _ fun _ => ?_
        refine (pay_agrees ht ?_ a _).bind fun _ _ h' => ih _ h'
        obtain ⟨⟨log, hlog, rfl⟩, hl⟩ := h
        exact ⟨⟨log, hlog, rfl⟩, hl⟩
    · exact ih b h

theorem refundAllAfterExpiry_agrees (ht : Inert token) (caller : Addr) :
    Agrees Shadows (refundAllAfterExpiry token led w caller)
      (refundAllAfterExpiry passive led w caller) := by
  unfold refundAllAfterExpiry
  dsimp only
  split
  · exact .ok (Shadows.refl w)
  · refine .bind_same _ fun _ => .bind_same _ fun _ => .bind_same _ fun _ =>
      .bind_same _ fun _ => ?_
    refine (refundEach_agrees ht _ _ _ _ ⟨Shadows.refl _, rfl⟩).bind ?_
    rintro ⟨b, u⟩ ⟨b', v⟩ ⟨hb, hw⟩
    dsimp only at hb hw ⊢
    subst hb
    obtain ⟨log, hlog, hu⟩ := hw.unlock
    split
    · exact .ok ⟨log, hlog, hu⟩
    · exact .ok ⟨log, hlog, congrArg (fun w => writeBatch w b) hu⟩

theorem dispatch_agrees (ht : Inert token) (call : Call Addr) :
    Agrees Shadows (dispatch token led w call) (dispatch passive led w call) := by
  cases call with
  | fund caller amount => exact fund_agrees ht caller amount
  | release caller => exact release_agrees ht caller
  | settleEscrow caller => exact settleEscrow_agrees ht caller
  | refundAfterExpiry contributor => exact refundAfterExpiry_agrees ht contributor
  | refundAllAfterExpiry caller => exact refundAllAfterExpiry_agrees ht caller
  | _ => exact Agrees.refl _ Shadows.refl

end Agreement

/-! ## Runs against a hostile token -/

/-- The world without the ghost record of re-entrant calls. -/
def World.observed (w : World Addr) : World Addr := { w with storage.reentries := [] }

theorem Shadows.observed_eq {u v : World Addr} (h : Shadows u v) :
    World.observed u = World.observed v := by
  obtain ⟨_, _, rfl⟩ := h
  rfl

theorem hostileStep_agrees (w : World Addr)
    (x : (World Addr → Adversary Addr) × Invocation Addr) :
    (hostileStep w x = none ∧ callStep w x.2 = none) ∨
      ∃ u v, hostileStep w x = some u ∧ callStep w x.2 = some v ∧ Shadows u v := by
  unfold hostileStep callStep
  split
  · exact .inl ⟨rfl, rfl⟩
  · unfold Vault.step
    split
    · exact .inl ⟨rfl, rfl⟩
    · have hagree : Agrees Shadows (dispatch (hostile x.1) x.2.ledger (w.enter x.2.ledger) x.2.call)
          (dispatch passive x.2.ledger (w.enter x.2.ledger) x.2.call) :=
        dispatch_agrees (hostile_inert x.1) x.2.call
      generalize dispatch (hostile x.1) x.2.ledger (w.enter x.2.ledger) x.2.call = p at hagree ⊢
      generalize dispatch passive x.2.ledger (w.enter x.2.ledger) x.2.call = q at hagree ⊢
      cases hagree with
      | ok h => exact .inr ⟨_, _, rfl, rfl, h⟩
      | error e => exact .inl ⟨rfl, rfl⟩

/-- With the passive token no call is re-entrant. -/
theorem reentries_of_moves {led : Ledger Addr} {w w' : World Addr} {call : Call Addr}
    (hm : Moves led w call w') : w'.storage.reentries = w.storage.reentries := by
  cases hm with
  | distribute => simp [distributed, markReleased, setEscrow]
  | refundAll =>
    exact foldl_refundIfDue_induction
      (P := fun u => u.storage.reentries = w.storage.reentries) _ rfl fun _ _ _ h => h
  | _ => rfl

theorem Balanced.of_observed {u v : World Addr} (h : World.observed u = World.observed v)
    (hv : Balanced v) : Balanced u := by
  have hobs : Balanced (World.observed v) :=
    ⟨hv.unlocked, hv.dealValue_pos, hv.contributions_nonneg, hv.self_zero, hv.refunded_zero,
      hv.total_fits, hv.sum_eq, hv.balance_eq⟩
  rw [← h] at hobs
  exact ⟨hobs.unlocked, hobs.dealValue_pos, hobs.contributions_nonneg, hobs.self_zero,
    hobs.refunded_zero, hobs.total_fits, hobs.sum_eq, hobs.balance_eq⟩

theorem HostileReachable.quiet {w : World Addr} (hw : HostileReachable w) :
    Balanced w ∧ ∀ r ∈ w.storage.reentries, r.Quiet := by
  obtain ⟨w₀, hinit, hr⟩ := hw
  refine hr.invariant (fun w => Balanced w ∧ ∀ r ∈ w.storage.reentries, r.Quiet)
    ⟨hinit.fresh.balanced, ?_⟩ ?_
  · obtain ⟨_, _, _, _, _, _, _, _, _, _, _, hw₀⟩ := hinit
    rw [hw₀]
    simp [Vault.fresh]
  · rintro w x u hs ⟨hb, hq⟩
    rcases hostileStep_agrees w x with ⟨hn, _⟩ | ⟨u', v, hu, hv, hshadow⟩
    · simp [hn] at hs
    · obtain rfl := Option.some.inj (hu.symm.trans hs)
      refine ⟨.of_observed hshadow.observed_eq (hb.callStep hv), ?_⟩
      intro r hr
      have hsame := reentries_of_moves (moves_of_step hb.unlocked hv)
      obtain ⟨log, hlog, rfl⟩ := hshadow
      rcases List.mem_append.mp hr with h | h
      · exact hq r (hsame ▸ h)
      · exact hlog r h

/-- Whatever the token does during transfers: between calls the lock is off; every re-entrant
    call it made changed no storage and made no transfer; and each further call ends as it does
    with the passive token, failing or not, with the same storage, balance and transfers. -/
theorem reentry_harmless {w : World Addr} (hw : HostileReachable w) :
    w.storage.operationInProgress = false ∧ (∀ r ∈ w.storage.reentries, r.Quiet) ∧
    ∀ strategy inv, (hostileStep w (strategy, inv)).map World.observed =
      (callStep w inv).map World.observed := by
  obtain ⟨hb, hq⟩ := hw.quiet
  refine ⟨hb.unlocked, hq, ?_⟩
  intro strategy inv
  rcases hostileStep_agrees w (strategy, inv) with ⟨hu, hv⟩ | ⟨u, v, hu, hv, hshadow⟩
  · rw [hu, hv]
  · rw [hu, hv]
    exact congrArg some hshadow.observed_eq

/-- A token that calls `release` and the batch refund back whenever it moves money. -/
def greedy : World Nat → Adversary Nat := fun _ =>
  .call (fun _ => (sampleLedger 200, .release 0)) (fun _ => .done) fun _ =>
    .call (fun _ => (sampleLedger 200, .refundAllAfterExpiry 0)) (fun _ => .done) fun _ => .done

/-- Funding under that token makes four re-entrant calls, which leave the escrow as it is. -/
theorem reentry_harmless_sample :
    ∃ w, hostileStep (sampleWorld 1) (greedy, ⟨sampleLedger 1, .fund 10 300⟩) = some w ∧
      w.storage.reentries.length = 4 ∧ w.storage.operationInProgress = false := by
  obtain ⟨w, hw⟩ := Option.isSome_iff_exists.mp (by decide +kernel :
    (hostileStep (sampleWorld 1) (greedy, ⟨sampleLedger 1, .fund 10 300⟩)).isSome = true)
  have hreach : HostileReachable w :=
    ⟨_, sampleWorld_initialized 1, reaches_of_next hw⟩
  have hfour : ((hostileStep (sampleWorld 1) (greedy, ⟨sampleLedger 1, .fund 10 300⟩)).map
      fun w => w.storage.reentries.length) = some 4 := by decide +kernel
  rw [hw] at hfour
  exact ⟨w, hw, Option.some.inj hfour, (reentry_harmless hreach).1⟩

end AgriFi.EscrowContract
