import AgriFi.EscrowContract.Conservation
import Mathlib.Data.List.Nodup

/-
  The batch refund against single refunds. A single refund that is not due changes nothing or
  fails, a due one is `refundTo`, so calling `refund_after_expiry` once for each address of a
  list is `Escrow.refundIfDue` folded over it (`refundSingly_spec`). The batch refund never
  fails where it is admissible (`refundAll_ok`) and is the same fold over the keys; refunds of
  different addresses commute, so the order does not matter (`refundAll_refines`).
-/

namespace AgriFi.EscrowContract

open AgriFi.Soroban AgriFi.Runs

variable {Addr : Type} [LinearOrder Addr]

/-! ## Refunds on storage -/

def Escrow.refundIfDue (e : Escrow Addr) (contributor : Addr) : Escrow Addr :=
  if e.Due contributor then e.refundedTo contributor else e

/-- The transfer of a due refund. -/
def refundPayment (w : World Addr) (contributor : Addr) : Payment Addr :=
  ⟨w.contract, contributor, w.storage.contribution contributor⟩

/-- A refund leaves the others' claims alone. -/
theorem due_refundedTo (e : Escrow Addr) {a b : Addr} (h : a ≠ b) :
    (e.refundedTo a).Due b ↔ e.Due b := by
  unfold Escrow.Due
  rw [contribution_refundedTo, isRefunded_refundedTo, if_neg h, if_neg h]
  rfl

theorem due_refundIfDue (e : Escrow Addr) {a b : Addr} (h : a ≠ b) :
    (e.refundIfDue a).Due b ↔ e.Due b := by
  unfold Escrow.refundIfDue
  split
  · exact due_refundedTo e h
  · exact Iff.rfl

theorem refundedTo_comm (e : Escrow Addr) {a b : Addr} (h : a ≠ b) :
    (e.refundedTo a).refundedTo b = (e.refundedTo b).refundedTo a := by
  have hab : (e.refundedTo a).contribution b = e.contribution b :=
    (contribution_refundedTo e a b).trans (if_neg h)
  have hba : (e.refundedTo b).contribution a = e.contribution a :=
    (contribution_refundedTo e b a).trans (if_neg h.symm)
  rw [Escrow.refundedTo, hab, Escrow.refundedTo.eq_def (e.refundedTo b), hba]
  simp only [Escrow.refundedTo]
  rw [HostMap.set_comm e.refunded h, HostMap.set_comm e.investors h, sub_right_comm]

theorem Escrow.refundIfDue_comm (e : Escrow Addr) (a b : Addr) :
    (e.refundIfDue a).refundIfDue b = (e.refundIfDue b).refundIfDue a := by
  by_cases hab : a = b
  · rw [hab]
  · have hb := due_refundIfDue e hab
    have ha := due_refundIfDue e (Ne.symm hab)
    rw [Escrow.refundIfDue.eq_def (e.refundIfDue a), Escrow.refundIfDue.eq_def (e.refundIfDue b)]
    simp only [ha, hb]
    unfold Escrow.refundIfDue
    by_cases hda : e.Due a <;> by_cases hdb : e.Due b <;> simp [hda, hdb, refundedTo_comm e hab]

theorem refundIfDue_storage (w : World Addr) (a : Addr) :
    (refundIfDue w a).storage.toEscrow = w.storage.toEscrow.refundIfDue a := by
  unfold refundIfDue Escrow.refundIfDue
  split <;> rfl

theorem foldl_refundIfDue_storage (l : List Addr) (w : World Addr) :
    (l.foldl refundIfDue w).storage.toEscrow = l.foldl Escrow.refundIfDue w.storage.toEscrow := by
  induction l generalizing w with
  | nil => rfl
  | cons a l ih => rw [List.foldl_cons, List.foldl_cons, ih, refundIfDue_storage]

/-- Due addresses that are not in `l` keep their claim over refunds of `l`. -/
theorem refundIfDue_frame (w : World Addr) {a b : Addr} (h : a ≠ b) :
    ((refundIfDue w a).storage.Due b ↔ w.storage.Due b) ∧
      refundPayment (refundIfDue w a) b = refundPayment w b := by
  unfold refundIfDue
  split
  · refine ⟨due_refundedTo _ h, ?_⟩
    unfold refundPayment
    rw [refundTo_contribution_ne w h]
    rfl
  · exact ⟨Iff.rfl, rfl⟩

/-- The transfers of a list of refunds: those that are due, in order. -/
def refundPayments (w : World Addr) (l : List Addr) : List (Payment Addr) :=
  (l.filter fun a => w.storage.Due a).map (refundPayment w)

theorem refundPayments_frame (w : World Addr) {a : Addr} {l : List Addr} (h : a ∉ l) :
    refundPayments (refundIfDue w a) l = refundPayments w l := by
  have hne : ∀ b ∈ l, a ≠ b := fun b hb hab => h (hab ▸ hb)
  have hfilter : l.filter (fun b => (refundIfDue w a).storage.Due b) =
      l.filter fun b => w.storage.Due b :=
    List.filter_congr fun b hb => decide_eq_decide.mpr (refundIfDue_frame w (hne b hb)).1
  unfold refundPayments
  rw [hfilter]
  exact List.map_congr_left fun b hb => (refundIfDue_frame w (hne b (List.mem_of_mem_filter hb))).2

theorem refundPayments_cons (w : World Addr) {a : Addr} {l : List Addr} (h : a ∉ l) :
    refundPayments w (a :: l) =
      (if w.storage.Due a then [refundPayment w a] else []) ++
        refundPayments (refundIfDue w a) l := by
  rw [refundPayments_frame w h]
  unfold refundPayments
  by_cases hd : w.storage.Due a <;> simp [hd]

theorem foldl_refundIfDue_payments {l : List Addr} (hl : l.Nodup) (w : World Addr) :
    (l.foldl refundIfDue w).payments = w.payments ++ refundPayments w l := by
  induction l generalizing w with
  | nil => simp [refundPayments]
  | cons a l ih =>
    obtain ⟨hnew, hl⟩ := List.nodup_cons.mp hl
    rw [List.foldl_cons, ih hl, refundPayments_cons w hnew, ← List.append_assoc]
    congr 1
    unfold refundIfDue
    split
    · rfl
    · simp

/-! ## Single refunds -/

variable {led : Ledger Addr} {w w' : World Addr}

theorem Balanced.contribution_le (h : Balanced w) (a : Addr) :
    w.storage.contribution a ≤ w.storage.totalFunded :=
  h.sum_eq ▸ h.contributions_nonneg.getD_le_total a

theorem fits_sub {a b : Int} (ha : FitsI128 a) (hb : 0 ≤ b) (hle : b ≤ a) : FitsI128 (a - b) := by
  unfold FitsI128 at *
  constructor <;> omega

/-- The transfer of a due refund is covered. -/
theorem Balanced.send_ok (h : Balanced w) (hr : w.storage.released = false) {a : Addr}
    (hd : w.storage.Due a) {e : Escrow Addr} :
    ((setEscrow w e).send a (w.storage.contribution a) : Result Error _) =
      .ok ((setEscrow w e).sent a (w.storage.contribution a)) := by
  have hbal := h.balance_eq
  rw [if_neg (by simp [hr])] at hbal
  have hle := h.contribution_le a
  exact Vault.send_eq_ok.mpr ⟨hd.1.le, by rw [setEscrow_balance, hbal]; exact hle, rfl⟩

theorem refundAfterExpiry_ok (hb : Balanced w) (he : w.storage.Expired led) {a : Addr}
    (hd : w.storage.Due a) (hauth : led.authorized a = true) :
    refundAfterExpiry passive led w a = .ok (refundTo w a) := by
  have hle := hb.contribution_le a
  have hfits := fits_sub hb.total_fits hd.1.le hle
  have hsend := hb.send_ok (e := { w.storage.refundedTo a with operationInProgress := true })
    he.unreleased hd
  unfold refundAfterExpiry
  dsimp only
  rw [if_neg (by simp [hb.unlocked]), Vault.requireAuth_bind_eq_ok]
  refine ⟨hauth, hb.due_ne hd, ?_⟩
  rw [if_neg (by simpa [Escrow.isRefunded] using hd.2.1)]
  simp only [failIf_bind_eq_ok, okOr_bind_eq_ok, checkedSub_eq_some, pay_passive]
  refine ⟨not_le.mpr he.deadline_lt, by simp [he.unreleased], not_le.mpr he.target_missed,
    not_le.mpr hd.1, by simpa [Escrow.isFrozen] using hd.2.2, not_lt.mpr hle, _, ⟨hfits, rfl⟩, ?_⟩
  refine bind_eq_ok.mpr ⟨_, hsend, ?_⟩
  change Except.ok (setLock (refundTo w a) false) = _
  rw [setLock_of_unlocked (w := refundTo w a) hb.unlocked]

/-- A single refund at a time after expiry: due, it pays; else it leaves storage alone. -/
theorem refund_step (hb : Balanced w) (hw : w.storage.wasm = none)
    (ht : w.now ≤ led.timestamp) (he : w.storage.Expired led) {a : Addr}
    (hauth : led.authorized a = true) :
    callStep w ⟨led, .refundAfterExpiry a⟩ = some (refundIfDue (w.enter led) a) ∨
      (callStep w ⟨led, .refundAfterExpiry a⟩ = none ∧ ¬ w.storage.Due a) := by
  by_cases hd : w.storage.Due a
  · refine .inl ?_
    have hok := refundAfterExpiry_ok (w := w.enter led) (hb.enter led) he hd hauth
    unfold callStep refundIfDue
    rw [if_neg (by simp [hw]), if_pos (show (w.enter led).storage.Due a from hd)]
    exact Vault.step_eq_some.mpr ⟨ht, hok⟩
  · cases hs : callStep w ⟨led, .refundAfterExpiry a⟩ with
    | none => exact .inr ⟨rfl, hd⟩
    | some w' =>
      refine .inl ?_
      unfold refundIfDue
      rw [if_neg (show ¬ (w.enter led).storage.Due a from hd)]
      cases moves_of_step hb.unlocked hs with
      | idleRefund => rfl
      | approve hc => simp at hc
      | distribute hc => simp [Call.Settles] at hc
      | refund _ _ hdue => exact absurd hdue hd

/-- `refund_after_expiry` called once for each address, in order, a call that fails being
    ignored: the world at the end and the transfers made on the way. -/
def refundSingly (led : Addr → Ledger Addr) :
    List Addr → World Addr → World Addr × List (Payment Addr)
  | [], w => (w, [])
  | a :: l, w =>
    match callStep w ⟨led a, .refundAfterExpiry a⟩ with
    | none => refundSingly led l w
    | some w' => ((refundSingly led l w').1, w'.payments ++ (refundSingly led l w').2)

/-- Each single refund is made at time `t`, signed by the address it refunds. -/
def SignedAt (led : Addr → Ledger Addr) (t : Nat) : Prop :=
  ∀ a, (led a).timestamp = t ∧ (led a).authorized a = true

theorem Escrow.Expired.refundIfDue {e : Escrow Addr} (h : e.Expired led) (a : Addr)
    (hn : 0 ≤ e.contribution a) : (e.refundIfDue a).Expired led := by
  unfold Escrow.refundIfDue
  split
  · refine ⟨h.deadline_lt, h.unreleased, ?_⟩
    have hmissed := h.target_missed
    change e.totalFunded - e.contribution a < e.dealValue
    omega
  · exact h

theorem Escrow.Expired.at_time {e : Escrow Addr} {led' : Ledger Addr} (h : e.Expired led)
    (ht : led'.timestamp = led.timestamp) : e.Expired led' :=
  ⟨ht ▸ h.deadline_lt, h.unreleased, h.target_missed⟩

theorem Balanced.refundIfDue (h : Balanced w) (hr : w.storage.released = false) (a : Addr) :
    Balanced (refundIfDue w a) := by
  unfold EscrowContract.refundIfDue
  split
  · next hd => exact h.refundTo hr hd
  · exact h

@[simp] theorem refundIfDue_wasm (w : World Addr) (a : Addr) :
    (refundIfDue w a).storage.wasm = w.storage.wasm := by
  unfold refundIfDue
  split <;> rfl

@[simp] theorem refundIfDue_now (w : World Addr) (a : Addr) :
    (refundIfDue w a).now = w.now := by
  unfold refundIfDue
  split <;> rfl

theorem refundSingly_spec {leds : Addr → Ledger Addr} (hleds : SignedAt leds led.timestamp)
    {l : List Addr} (hl : l.Nodup) (hb : Balanced w) (hw : w.storage.wasm = none)
    (ht : w.now ≤ led.timestamp) (he : w.storage.Expired led) :
    (refundSingly leds l w).1.storage.toEscrow =
        l.foldl Escrow.refundIfDue w.storage.toEscrow ∧
      (refundSingly leds l w).2 = refundPayments w l := by
  induction l generalizing w with
  | nil => exact ⟨rfl, rfl⟩
  | cons a l ih =>
    obtain ⟨hnew, hl⟩ := List.nodup_cons.mp hl
    obtain ⟨htime, hauth⟩ := hleds a
    have hpay := refundPayments_cons w hnew
    unfold refundSingly
    rcases refund_step hb hw (htime ▸ ht) (he.at_time htime) hauth with hs | ⟨hs, hd⟩
    · have hstorage := refundIfDue_storage (w.enter (leds a)) a
      obtain ⟨hend, hpays⟩ := ih (w := refundIfDue (w.enter (leds a)) a) hl
        ((hb.enter _).refundIfDue he.unreleased a) (by simpa using hw)
        (by rw [refundIfDue_now]; exact htime.le)
        (by rw [hstorage]; exact he.refundIfDue a (hb.contributions_nonneg a))
      rw [hs]
      constructor
      · dsimp only
        rw [hend, hstorage]
        rfl
      · dsimp only
        rw [hpays, refundPayments_frame _ hnew, hpay, refundPayments_frame w hnew]
        congr 1
        unfold refundIfDue
        by_cases hd : w.storage.Due a
        · rw [if_pos (show (w.enter (leds a)).storage.Due a from hd), if_pos hd]
          rfl
        · rw [if_neg (show ¬ (w.enter (leds a)).storage.Due a from hd), if_neg hd]
          rfl
    · rw [hs, List.foldl_cons, Escrow.refundIfDue, if_neg hd]
      rw [refundPayments_frame w hnew, if_neg hd, List.nil_append] at hpay
      rw [hpay]
      exact ih hl hb hw ht he

/-! ## The batch refund -/

/-- `refund_all_after_expiry` passes its checks: no upgrade, the admin's signature, expiry. -/
structure Admissible (w : World Addr) (led : Ledger Addr) (caller : Addr) : Prop where
  wasm_none : w.storage.wasm = none
  now_le : w.now ≤ led.timestamp
  authorized : led.authorized caller = true ∧ caller ≠ w.contract
  isAdmin : caller = w.storage.admin
  expired : w.storage.Expired led

/-- The loop never fails: what it refunds is covered by `TotalFunded` and by the balance. -/
theorem refundEach_ok {investorsMap : HostMap Addr Int} {l : List Addr} {b : Batch Addr}
    (hb : Balanced w) (hr : w.storage.released = false) (hs : Synced b w) (hl : l.Nodup)
    (hi : ∀ a ∈ l, investorsMap.getD a 0 = w.storage.contribution a)
    (hsum : 0 ≤ b.totalRefunded ∧ FitsI128 (b.totalRefunded + w.storage.totalFunded)) :
    ∃ r, refundEach passive investorsMap w.storage.frozenContributors l b (setLock w true) =
      .ok r := by
  induction l generalizing b w with
  | nil => exact ⟨_, rfl⟩
  | cons a l ih =>
    obtain ⟨hnew, hl⟩ := List.nodup_cons.mp hl
    have hrest := fun a' ha' => hi a' (List.mem_cons_of_mem a ha')
    unfold refundEach
    dsimp only
    rw [hi a (List.mem_cons_self ..)]
    split
    · next hpos =>
      rw [hs.refunded_eq] at hpos
      split
      · exact ih hb hr hs hl hrest hsum
      · next hf =>
        have hd : w.storage.Due a := ⟨hpos.1, hpos.2, Bool.not_eq_true _ ▸ hf⟩
        have hle := hb.contribution_le a
        have hfits := fits_sub hb.total_fits hd.1.le hle
        have hsum' : FitsI128 (b.totalRefunded + w.storage.contribution a) := by
          have hall := hsum.2
          unfold FitsI128 at hall ⊢
          constructor <;> omega
        obtain ⟨r, hround⟩ := ih (w := refundTo w a) (b := b.paid a (w.storage.contribution a))
          (hb.refundTo hr hd) hr (synced_paid hs a) hl
          (fun a' ha' => by
            have hne : a ≠ a' := by
              rintro rfl
              exact hnew ha'
            rw [refundTo_contribution_ne w hne]
            exact hrest a' ha')
          ⟨by have h0 := hsum.1; simp only [Batch.paid]; omega, by
            have hall := hsum.2
            change FitsI128 (b.totalRefunded + w.storage.contribution a +
              (w.storage.totalFunded - w.storage.contribution a))
            unfold FitsI128 at hall ⊢
            constructor <;> omega⟩
        refine ⟨r, ?_⟩
        simp only [failIf_bind_eq_ok, okOr_bind_eq_ok, checkedSub_eq_some, checkedAdd_eq_some,
          pay_passive]
        rw [hs.total_eq]
        refine ⟨not_lt.mpr hle, _, ⟨hfits, rfl⟩, _, ⟨hsum', rfl⟩, ?_⟩
        have hsend := hb.send_ok (e := { w.storage.refundedTo a with operationInProgress := true })
          hr hd
        refine bind_eq_ok.mpr ⟨setLock (refundTo w a) true, ?_, ?_⟩
        · rw [hs.refunded_eq, hs.investors_eq]
          exact hsend
        · rw [← hs.total_eq]
          exact hround
    · exact ih hb hr hs hl hrest hsum

theorem refundAll_ok {caller : Addr} (hb : Balanced w) (ha : Admissible w led caller) :
    ∃ w', callStep w ⟨led, .refundAllAfterExpiry caller⟩ = some w' := by
  have hr := ha.expired.unreleased
  obtain ⟨⟨b, v⟩, hloop⟩ := refundEach_ok (w := w.enter led) (b := {
      updatedRefundedMap := w.storage.refunded
      updatedInvestorsMap := w.storage.investors
      totalRefunded := 0
      totalFunded := w.storage.totalFunded }) (hb.enter led) hr ⟨rfl, rfl, rfl⟩
    (investorAddresses_nodup w.storage.toEscrow) (fun _ _ => rfl)
    ⟨le_rfl, by rw [zero_add]; exact hb.total_fits⟩
  have hok : ∃ w', refundAllAfterExpiry passive led (w.enter led) caller = .ok w' := by
    unfold refundAllAfterExpiry
    dsimp only
    rw [if_neg (by simp [hb.unlocked])]
    simp only [requireAdmin_bind_eq_ok, failIf_bind_eq_ok]
    by_cases hz : b.totalRefunded = 0
    · exact ⟨_, ha.authorized, ha.isAdmin, not_le.mpr ha.expired.deadline_lt, by simp [hr],
        not_le.mpr ha.expired.target_missed, bind_eq_ok.mpr ⟨(b, v), hloop, if_pos hz⟩⟩
    · exact ⟨_, ha.authorized, ha.isAdmin, not_le.mpr ha.expired.deadline_lt, by simp [hr],
        not_le.mpr ha.expired.target_missed, bind_eq_ok.mpr ⟨(b, v), hloop, if_neg hz⟩⟩
  obtain ⟨w', hok⟩ := hok
  refine ⟨w', ?_⟩
  unfold callStep
  rw [if_neg (by simp [ha.wasm_none])]
  exact Vault.step_eq_some.mpr ⟨ha.now_le, hok⟩

/-- A due address is a key of `Investors`. -/
theorem mem_investorAddresses {e : Escrow Addr} {a : Addr} (h : e.Due a) :
    a ∈ investorAddresses e := by
  refine HostMap.mem_keys_iff.mpr ?_
  have hpos := h.1
  unfold Escrow.contribution HostMap.getD at hpos
  cases hv : e.investors.get? a with
  | none => simp [hv] at hpos
  | some v => rfl

theorem mem_refundPayments {p : Payment Addr} :
    p ∈ refundPayments w (investorAddresses w.storage.toEscrow) ↔
      w.storage.Due p.dst ∧ p = refundPayment w p.dst := by
  unfold refundPayments
  constructor
  · intro h
    obtain ⟨a, ha, rfl⟩ := List.mem_map.mp h
    have hd : w.storage.Due a := by simpa using (List.mem_filter.mp ha).2
    exact ⟨hd, rfl⟩
  · rintro ⟨hd, hp⟩
    have hkey := mem_investorAddresses hd
    exact List.mem_map.mpr ⟨p.dst, List.mem_filter.mpr ⟨hkey, by simpa using hd⟩, hp.symm⟩

theorem refundPayments_nodup (w : World Addr) :
    (refundPayments w (investorAddresses w.storage.toEscrow)).Nodup := by
  have hinj : Function.Injective (refundPayment w) := fun a b h => congrArg Payment.dst h
  exact List.Nodup.map hinj ((investorAddresses_nodup w.storage.toEscrow).filter _)

/-- Where the batch refund is admissible it succeeds, and refunding the keys of `Investors` one
    by one, in any order, leaves the same storage and makes the same transfers up to order: one
    to each unfrozen contributor with something to refund, of the whole contribution. -/
theorem refundAll_refines (hw : Reachable w) {caller : Addr} (ha : Admissible w led caller)
    {leds : Addr → Ledger Addr} (hleds : SignedAt leds led.timestamp) {order : List Addr}
    (ho : order.Perm (investorAddresses w.storage.toEscrow)) :
    ∃ w', callStep w ⟨led, .refundAllAfterExpiry caller⟩ = some w' ∧
      (refundSingly leds order w).1.storage.toEscrow = w'.storage.toEscrow ∧
      (refundSingly leds order w).2.Perm w'.payments ∧ w'.payments.Nodup ∧
      ∀ p, p ∈ w'.payments ↔ w.storage.Due p.dst ∧ p = refundPayment w p.dst := by
  have hb := hw.balanced
  have hkeys := investorAddresses_nodup w.storage.toEscrow
  obtain ⟨w', hs⟩ := refundAll_ok hb ha
  have hpost : w' = (investorAddresses w.storage.toEscrow).foldl refundIfDue (w.enter led) := by
    cases moves_of_step hb.unlocked hs with
    | refundAll => rfl
    | approve hc => simp at hc
    | distribute hc => simp [Call.Settles] at hc
  have hpays : w'.payments = refundPayments w (investorAddresses w.storage.toEscrow) := by
    rw [hpost, foldl_refundIfDue_payments hkeys]
    rfl
  obtain ⟨hstorage, htransfers⟩ := refundSingly_spec hleds (ho.nodup_iff.mpr hkeys) hb
    ha.wasm_none ha.now_le ha.expired
  refine ⟨w', hs, ?_, ?_, ?_, ?_⟩
  · rw [hstorage, hpost, foldl_refundIfDue_storage]
    exact ho.foldl_eq' (fun a _ b _ e => e.refundIfDue_comm a b) _
  · rw [htransfers, hpays]
    exact (ho.filter _).map _
  · rw [hpays]
    exact refundPayments_nodup w
  · intro p
    rw [hpays]
    exact mem_refundPayments

/-- Three contributors, one of them frozen, refunded after expiry in another order. -/
theorem refundAll_refines_sample :
    let w := (sampleRun 1 [(1, .fund 10 300), (2, .fund 11 200), (3, .fund 12 100),
      (4, .freezeContributor 0 11)]).2
    ∃ w', callStep w ⟨sampleLedger 101, .refundAllAfterExpiry 0⟩ = some w' ∧
      (refundSingly (fun _ => sampleLedger 101) [12, 10, 11] w).1.storage.toEscrow =
        w'.storage.toEscrow := by
  intro w
  have hw : Reachable w := sampleRun_reachable 1 _
  have ha : Admissible w (sampleLedger 101) 0 :=
    ⟨by decide +kernel, by decide +kernel, by decide +kernel, by decide +kernel,
      ⟨by decide +kernel, by decide +kernel, by decide +kernel⟩⟩
  have hleds : SignedAt (fun _ => sampleLedger 101) (sampleLedger 101).timestamp :=
    fun _ => ⟨rfl, rfl⟩
  have horder : [12, 10, 11].Perm (investorAddresses w.storage.toEscrow) := by decide +kernel
  obtain ⟨w', hs, hstorage, _⟩ := refundAll_refines hw ha hleds horder
  exact ⟨w', hs, hstorage⟩

end AgriFi.EscrowContract
