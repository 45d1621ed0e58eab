import AgriFi.Ethereum.DealEscrow
import AgriFi.Threads
import Mathlib.Algebra.Order.BigOperators.Group.List
import Mathlib.Algebra.Order.Ring.Nat

/-
  The escrow pays out its deal exactly once. `Books w k p` says that the escrow holds `k` tokens of
  the deal and has paid `p` to the buyer and the seller, also in the middle of a call; a callback
  keeps both, a payment moves its amount from one to the other, and between calls both are what the
  status says (`Inv`). So the balance follows the status, no payment of the escrow lacks its tokens,
  and a closed deal has paid its total (`pays_once`). A seller that is the escrow itself, which the
  terms do not exclude, is paid and leaves the tokens where they are (`paid_to_itself`).
-/

namespace AgriFi.Ethereum

open AgriFi.Runs AgriFi.Threads

variable {w w' : World} {e e' : DealEscrow} {k p amount : Nat} {t : Transfer} {sender dst : Address}

/-! ## What is claimed -/

def DealEscrow.Terminal (e : DealEscrow) : Prop := e.status = .released ∨ e.status = .refunded

instance (e : DealEscrow) : Decidable e.Terminal := inferInstanceAs (Decidable (_ ∨ _))

/-- The tokens of the deal that the escrow should hold. -/
def DealEscrow.held (e : DealEscrow) : Nat :=
  match e.status with
  | .funded | .disputed => e.totalAmount - e.releasedAmount
  | .created | .released | .refunded => 0

def Milestone.releasedPart (m : Milestone) : Nat := if m.released then m.amount else 0

/-- The sum of the released milestones. -/
def releasedMilestones (milestones : List Milestone) : Nat :=
  (milestones.map Milestone.releasedPart).sum

/-- What the escrow has paid to the buyer and the seller. -/
def World.received (w : World) : Nat :=
  ((w.payments.filter fun payment =>
    payment.recipient = w.escrow.buyer ∨ payment.recipient = w.escrow.seller).map (·.amount)).sum

structure PaysOnce (w : World) : Prop where
  balance : w.balanceOf w.this = w.outside + w.escrow.held
  milestones : w.escrow.mode = .milestone →
    w.escrow.releasedAmount = releasedMilestones w.escrow.milestones
  within : w.escrow.releasedAmount ≤ w.escrow.totalAmount
  paid : w.escrow.Terminal → w.received = w.escrow.totalAmount
  /-- `fund` alone may find a balance too low: the buyer's. -/
  reverts : ∀ c, w.call c ≠ .error .panic ∧
    (c.function ≠ .fund → w.call c ≠ .error .insufficientBalance)

/-- A closed deal stays as it is. -/
def StaysClosed (x : Step World Event) : Prop :=
  x.pre.escrow.Terminal → x.post.escrow.status = x.pre.escrow.status

/-! ## Milestones -/

theorem releasedMilestones_set {milestones : List Milestone} {i : Nat} {m : Milestone}
    (hm : milestones[i]? = some m) (hopen : ¬ m.released) :
    releasedMilestones (milestones.set i { m with released := true }) =
      releasedMilestones milestones + m.amount := by
  have hset := sum_map_set (f := Milestone.releasedPart) (y := { m with released := true }) hm
  unfold releasedMilestones
  simp only [Milestone.releasedPart, if_true, if_neg hopen] at hset ⊢
  omega

theorem sum_amounts_set {milestones : List Milestone} {i : Nat} {m : Milestone}
    (hm : milestones[i]? = some m) :
    ((milestones.set i { m with released := true }).map (·.amount)).sum =
      (milestones.map (·.amount)).sum := by
  have hset := sum_map_set (f := Milestone.amount) (y := { m with released := true }) hm
  exact Nat.add_right_cancel hset

theorem releasedMilestones_le (milestones : List Milestone) :
    releasedMilestones milestones ≤ (milestones.map (·.amount)).sum := by
  unfold releasedMilestones
  refine List.sum_le_sum fun m _ => ?_
  unfold Milestone.releasedPart
  split
  · exact Nat.le_refl _
  · exact Nat.zero_le _

/-! ## The books -/

/-- What the escrow should have paid. -/
def DealEscrow.paid (e : DealEscrow) : Nat :=
  match e.status with
  | .created => 0
  | .funded | .disputed => e.releasedAmount
  | .released | .refunded => e.totalAmount

/-- Terms that hold in every state of a call. -/
structure Sound (this : Address) (e : DealEscrow) : Prop where
  seller : e.seller ≠ this
  buyer : e.status ≠ .created → e.buyer ≠ this
  total : e.totalAmount < 2 ^ 128
  milestones : e.mode = .milestone → e.releasedAmount = releasedMilestones e.milestones ∧
    (e.milestones.map (·.amount)).sum = e.totalAmount
  unreleased : e.mode ≠ .milestone → e.status ≠ .released → e.releasedAmount = 0
  created : e.status = .created → e.releasedAmount = 0
  within : e.releasedAmount ≤ e.totalAmount

structure Books (w : World) (k p : Nat) : Prop where
  sound : Sound w.this w.escrow
  balance : w.balanceOf w.this = w.outside + k
  received : w.received = p

/-- Between calls. -/
def Inv (w : World) : Prop := Books w w.escrow.held w.escrow.paid

/-- What callbacks leave of the escrow. -/
def Kept (e e' : DealEscrow) : Prop :=
  ∃ arbitrators, e' = { e with arbitrators } ∨
    e.mode = .dispute ∧ e.status = .funded ∧ e' = { e with arbitrators, status := .disputed }

theorem Kept.refl (e : DealEscrow) : Kept e e := ⟨e.arbitrators, .inl rfl⟩

theorem Kept.trans {e'' : DealEscrow} (h : Kept e e') (h' : Kept e' e'') : Kept e e'' := by
  obtain ⟨_, rfl | ⟨hmode, hstatus, rfl⟩⟩ := h
  · obtain ⟨arbitrators, rfl | ⟨hmode, hstatus, rfl⟩⟩ := h'
    · exact ⟨arbitrators, .inl rfl⟩
    · exact ⟨arbitrators, .inr ⟨hmode, hstatus, rfl⟩⟩
  · obtain ⟨arbitrators, rfl | ⟨_, hfunded, _⟩⟩ := h'
    · exact ⟨arbitrators, .inr ⟨hmode, hstatus, rfl⟩⟩
    · exact absurd hfunded nofun

/-- Only the status can have changed, from one in which the deal is open to another one. -/
theorem Kept.eqs (h : Kept e e') : e'.buyer = e.buyer ∧ e'.seller = e.seller ∧ e'.mode = e.mode ∧
    e'.totalAmount = e.totalAmount ∧ e'.releasedAmount = e.releasedAmount ∧
    e'.milestones = e.milestones ∧ e'.held = e.held ∧ e'.paid = e.paid := by
  obtain ⟨_, rfl | ⟨_, hstatus, rfl⟩⟩ := h
  · exact ⟨rfl, rfl, rfl, rfl, rfl, rfl, rfl, rfl⟩
  · refine ⟨rfl, rfl, rfl, rfl, rfl, rfl, ?_, ?_⟩
    · simp only [DealEscrow.held, hstatus]
    · simp only [DealEscrow.paid, hstatus]

theorem Kept.status (h : Kept e e') :
    e'.status = e.status ∨ e.status = .funded ∧ e'.status = .disputed := by
  obtain ⟨_, rfl | ⟨_, hstatus, rfl⟩⟩ := h
  · exact .inl rfl
  · exact .inr ⟨hstatus, rfl⟩

theorem Kept.created (h : Kept e e') (hopen : e.status ≠ .created) : e'.status ≠ .created := by
  obtain hsame | ⟨_, hdisputed⟩ := h.status
  · rwa [hsame]
  · rw [hdisputed]
    nofun

theorem Sound.kept {this : Address} (h : Sound this e) (hkept : Kept e e') : Sound this e' := by
  obtain ⟨_, rfl | ⟨hmode, hstatus, rfl⟩⟩ := hkept
  · exact ⟨h.seller, h.buyer, h.total, h.milestones, h.unreleased, h.created, h.within⟩
  · have hbuyer : e.buyer ≠ this := h.buyer (by rw [hstatus]; nofun)
    exact ⟨h.seller, fun _ => hbuyer, h.total, h.milestones,
      fun hm _ => h.unreleased hm (by rw [hstatus]; nofun), nofun, h.within⟩

theorem received_kept (hkept : Kept w.escrow w'.escrow) (hpayments : w'.payments = w.payments) :
    w'.received = w.received := by
  obtain ⟨hbuyer, hseller, -⟩ := hkept.eqs
  unfold World.received
  rw [hbuyer, hseller, hpayments]

/-! ## Moves and callbacks -/

theorem balanceOf_move_of_ne {holder x : Address} (hholder : x ≠ holder) (hdst : x ≠ dst) :
    (w.move holder dst amount).balanceOf x = w.balanceOf x := by
  unfold World.move
  simp only [Function.update_of_ne hdst, Function.update_of_ne hholder]

theorem balanceOf_move_dst {holder : Address} (hne : dst ≠ holder) :
    (w.move holder dst amount).balanceOf dst = w.balanceOf dst + amount := by
  unfold World.move
  simp only [Function.update_self, Function.update_of_ne hne]

theorem balanceOf_move_holder {holder : Address} (hne : holder ≠ dst) :
    (w.move holder dst amount).balanceOf holder = w.balanceOf holder - amount := by
  unfold World.move
  simp only [Function.update_of_ne hne, Function.update_self]

theorem openDispute_kept {reasonHash : BitVec 256} (h : w.openDispute sender reasonHash = .ok w') :
    w' = w.setStatus .disputed ∧ Kept w.escrow w'.escrow := by
  unfold World.openDispute at h
  split at h
  · cases h
  · split at h
    · cases h
    · next hmode hstatus =>
      obtain rfl := Except.ok.inj h
      have hmode : w.escrow.mode = .dispute := Decidable.not_not.mp fun hne => hmode (.inl hne)
      have hstatus : w.escrow.status = .funded :=
        Decidable.not_not.mp fun hne => hstatus (.inl hne)
      exact ⟨rfl, w.escrow.arbitrators, .inr ⟨hmode, hstatus, rfl⟩⟩

theorem Books.others (h : Books w k p) (holder dst : Address) (amount : Nat) :
    Books (w.others holder dst amount) k p ∧ Kept w.escrow (w.others holder dst amount).escrow ∧
      (w.others holder dst amount).this = w.this := by
  unfold World.others
  split
  · exact ⟨h, .refl _, rfl⟩
  · next hguard =>
    have hholder : w.this ≠ holder := fun heq => hguard (.inl heq.symm)
    split
    · next hdst =>
      refine ⟨⟨h.sound, ?_, h.received⟩, .refl _, rfl⟩
      have hmove : (w.move holder dst amount).balanceOf w.this = w.balanceOf w.this + amount := by
        rw [hdst]
        exact balanceOf_move_dst hholder
      have hbalance := h.balance
      show (w.move holder dst amount).balanceOf w.this = w.outside + amount + k
      omega
    · next hdst =>
      refine ⟨⟨h.sound, ?_, h.received⟩, .refl _, rfl⟩
      exact (balanceOf_move_of_ne hholder (fun heq => hdst heq.symm)).trans h.balance

theorem Books.callback (h : Books w k p) (c : Callback) :
    Books (w.callback c) k p ∧ Kept w.escrow (w.callback c).escrow ∧
      (w.callback c).this = w.this := by
  cases c with
  | transfer holder dst amount => exact h.others holder dst amount
  | roles arbitrators =>
    have hkept : Kept w.escrow { w.escrow with arbitrators } := ⟨arbitrators, .inl rfl⟩
    exact ⟨⟨h.sound.kept hkept, h.balance, h.received⟩, hkept, rfl⟩
  | call sender function =>
    cases function with
    | openDispute reasonHash =>
      have hcallback : w.callback (.call sender (.openDispute reasonHash)) =
          (w.openDispute sender reasonHash).toOption.getD w := rfl
      rw [hcallback]
      cases hopen : w.openDispute sender reasonHash with
      | error => exact ⟨h, .refl _, rfl⟩
      | ok w' =>
        obtain ⟨rfl, hkept⟩ := openDispute_kept hopen
        exact ⟨⟨h.sound.kept hkept, h.balance, (received_kept hkept rfl).trans h.received⟩, hkept,
          rfl⟩
    | fund | releaseSimple | releaseMilestone | resolveDispute | refundAfterTimeout =>
      exact ⟨h, .refl _, rfl⟩

theorem Books.callbacks (h : Books w k p) (cs : List Callback) :
    Books (cs.foldl World.callback w) k p ∧
      Kept w.escrow (cs.foldl World.callback w).escrow ∧
      (cs.foldl World.callback w).this = w.this := by
  induction cs generalizing w with
  | nil => exact ⟨h, .refl _, rfl⟩
  | cons c cs ih =>
    obtain ⟨hbooks, hkept, hthis⟩ := h.callback c
    obtain ⟨hrest, hkept', hthis'⟩ := ih hbooks
    exact ⟨hrest, hkept.trans hkept', hthis'.trans hthis⟩

/-! ## Payments -/

/-- A call ends in a world with `P`, or reverts, though neither on arithmetic nor on a balance. -/
def Ends (P : World → Prop) : Except Revert World → Prop
  | .ok w => P w
  | .error err => err ≠ .panic ∧ err ≠ .insufficientBalance

theorem Ends.bind {P Q : World → Prop} {r : Except Revert World} {f : World → Except Revert World}
    (h : Ends P r) (hf : ∀ w, P w → Ends Q (f w)) : Ends Q (r >>= f) := by
  cases r with
  | ok w => exact hf w h
  | error err => exact h

theorem Ends.mono {P Q : World → Prop} {r : Except Revert World} (h : Ends P r)
    (hPQ : ∀ w, P w → Q w) : Ends Q r := by
  cases r with
  | ok w => exact hPQ w h
  | error err => exact h

theorem received_pay (hdst : dst = w.escrow.buyer ∨ dst = w.escrow.seller) :
    World.received { w with payments := w.payments ++ [⟨dst, amount⟩] } = w.received + amount := by
  unfold World.received
  rw [List.filter_append, List.map_append, List.sum_append, List.filter_cons_of_pos]
  · rfl
  · exact decide_eq_true hdst

/-- A payment to the buyer or the seller finds its tokens, and moves its amount in the books. -/
theorem Books.safeTransfer (h : Books w k p) (hopen : w.escrow.status ≠ .created)
    (hdst : dst = w.escrow.buyer ∨ dst = w.escrow.seller) (hamount : amount ≤ k) (t : Transfer) :
    Ends (fun w' => Books w' (k - amount) (p + amount) ∧ Kept w.escrow w'.escrow)
      (w.safeTransfer dst amount t) := by
  unfold World.safeTransfer World.transfer
  obtain ⟨hbefore, hkept, hthis⟩ := h.callbacks t.before
  generalize t.before.foldl World.callback w = u at hbefore hkept hthis
  dsimp only
  split
  · exact ⟨nofun, nofun⟩
  · rw [← hthis]
    have hbalance := hbefore.balance
    rw [if_neg (by omega)]
    obtain ⟨hbuyer, hseller, -⟩ := hkept.eqs
    have hdst' : dst = u.escrow.buyer ∨ dst = u.escrow.seller := by rwa [hbuyer, hseller]
    have hne : u.this ≠ dst := by
      rintro rfl
      obtain heq | heq := hdst'
      · exact hbefore.sound.buyer (hkept.created hopen) heq.symm
      · exact hbefore.sound.seller heq.symm
    have hmoved : Books { u.move u.this dst amount with
        payments := (u.move u.this dst amount).payments ++ [⟨dst, amount⟩] }
        (k - amount) (p + amount) := by
      refine ⟨hbefore.sound, ?_, ?_⟩
      · show (u.move u.this dst amount).balanceOf u.this = u.outside + (k - amount)
        rw [balanceOf_move_holder hne]
        omega
      · exact (received_pay (w := u.move u.this dst amount) hdst').trans
          (congrArg (· + amount) hbefore.received)
    obtain ⟨hafter, hkept', _⟩ := hmoved.callbacks t.after
    exact ⟨hafter, hkept.trans hkept'⟩

/-- Between calls the books are those of the status that was set before the payment. -/
theorem Inv.of_kept (h : Books w' k p) (hkept : Kept e w'.escrow) (hheld : k = e.held)
    (hpaid : p = e.paid) : Inv w' := by
  obtain ⟨-, -, -, -, -, -, hheld', hpaid'⟩ := hkept.eqs
  unfold Inv
  rwa [hheld', hpaid', ← hheld, ← hpaid]

/-! ## The functions -/

theorem checkedSub_eq {a b : Nat} (h : b ≤ a) : checkedSub a b = .ok (a - b) := if_pos h

theorem Inv.releaseSimple (h : Inv w) : Ends Inv (w.releaseSimple sender t) := by
  unfold World.releaseSimple
  split
  · exact ⟨nofun, nofun⟩
  · split
    · exact ⟨nofun, nofun⟩
    · next hguard hfunded =>
      have hmode : w.escrow.mode = .simple := Decidable.not_not.mp fun hne => hguard (.inl hne)
      have hstatus : w.escrow.status = .funded := Decidable.not_not.mp hfunded
      have hnone : w.escrow.releasedAmount = 0 :=
        h.sound.unreleased (by rw [hmode]; nofun) (by rw [hstatus]; nofun)
      have hheld : w.escrow.held = w.escrow.totalAmount := by
        simp only [DealEscrow.held, hstatus, hnone, Nat.sub_zero]
      have hpaid : w.escrow.paid = 0 := by simp only [DealEscrow.paid, hstatus, hnone]
      have hbuyer : w.escrow.buyer ≠ w.this := h.sound.buyer (by rw [hstatus]; nofun)
      have hbooks : Books { w with escrow := { w.escrow with
          status := .released
          releasedAmount := w.escrow.totalAmount } } w.escrow.totalAmount 0 := by
        refine ⟨⟨h.sound.seller, fun _ => hbuyer, h.sound.total, ?_, ?_, nofun, Nat.le_refl _⟩, ?_,
          ?_⟩
        · exact fun hm => absurd (hmode.symm.trans hm) nofun
        · exact fun _ hopen => absurd rfl hopen
        · exact hheld ▸ h.balance
        · exact h.received.trans hpaid
      refine (hbooks.safeTransfer nofun (.inr rfl) (Nat.le_refl _) t).mono ?_
      rintro w' ⟨hdone, hkept⟩
      exact Inv.of_kept hdone hkept (Nat.sub_self _) (Nat.zero_add _)

section Release

variable {milestoneId r : Nat} {m : Milestone} (hstatus : e.status = .funded)
include hstatus

theorem status_release : (e.release milestoneId m r).status ≠ .created := by
  unfold DealEscrow.release
  dsimp only
  split
  · nofun
  · rw [hstatus]
    nofun

theorem held_release : (e.release milestoneId m r).held = e.totalAmount - r := by
  unfold DealEscrow.release DealEscrow.held
  by_cases hall : r = e.totalAmount
  · simp only [if_pos hall]
    omega
  · simp only [if_neg hall, hstatus]

theorem paid_release : (e.release milestoneId m r).paid = r := by
  unfold DealEscrow.release DealEscrow.paid
  by_cases hall : r = e.totalAmount
  · simp only [if_pos hall]
    exact hall.symm
  · simp only [if_neg hall, hstatus]

end Release

/-- What is released stays within the sum of the milestones. -/
theorem Sound.release_le {this : Address} {milestoneId : Nat} {m : Milestone} (h : Sound this e)
    (hmode : e.mode = .milestone) (hm : e.milestones[milestoneId]? = some m)
    (hopen : ¬ m.released) : e.releasedAmount + m.amount ≤ e.totalAmount := by
  obtain ⟨hreleased, hsum⟩ := h.milestones hmode
  have hset := releasedMilestones_set hm hopen
  have hamounts := sum_amounts_set hm
  have hle := releasedMilestones_le (e.milestones.set milestoneId { m with released := true })
  omega

theorem Sound.release {this : Address} {milestoneId : Nat} {m : Milestone} (h : Sound this e)
    (hmode : e.mode = .milestone) (hstatus : e.status = .funded)
    (hm : e.milestones[milestoneId]? = some m) (hopen : ¬ m.released) :
    Sound this (e.release milestoneId m (e.releasedAmount + m.amount)) := by
  obtain ⟨hreleased, hsum⟩ := h.milestones hmode
  have hbuyer : e.buyer ≠ this := h.buyer (by rw [hstatus]; nofun)
  refine ⟨h.seller, fun _ => hbuyer, h.total, fun _ => ⟨?_, (sum_amounts_set hm).trans hsum⟩,
    fun hne => absurd hmode hne, fun hcreated => absurd hcreated (status_release hstatus),
    h.release_le hmode hm hopen⟩
  show e.releasedAmount + m.amount = _
  rw [hreleased]
  exact (releasedMilestones_set hm hopen).symm

theorem Inv.releaseMilestone {milestoneId : Nat} (h : Inv w) :
    Ends Inv (w.releaseMilestone sender milestoneId t) := by
  unfold World.releaseMilestone
  split
  · exact ⟨nofun, nofun⟩
  · split
    · exact ⟨nofun, nofun⟩
    · split
      · exact ⟨nofun, nofun⟩
      · split
        · exact ⟨nofun, nofun⟩
        · next hguard hfunded _ m hm hopen =>
          have hmode : w.escrow.mode = .milestone :=
            Decidable.not_not.mp fun hne => hguard (.inl hne)
          have hstatus : w.escrow.status = .funded := Decidable.not_not.mp hfunded
          have hle := h.sound.release_le hmode hm hopen
          have hlimit := h.sound.total
          have hadd : checkedAdd 128 w.escrow.releasedAmount m.amount =
              .ok (w.escrow.releasedAmount + m.amount) := if_pos (by omega)
          have hheld : w.escrow.held = w.escrow.totalAmount - w.escrow.releasedAmount := by
            simp only [DealEscrow.held, hstatus]
          have hpaid : w.escrow.paid = w.escrow.releasedAmount := by
            simp only [DealEscrow.paid, hstatus]
          have hbooks : Books { w with
              escrow := w.escrow.release milestoneId m (w.escrow.releasedAmount + m.amount) }
              (w.escrow.totalAmount - w.escrow.releasedAmount) w.escrow.releasedAmount :=
            ⟨h.sound.release hmode hstatus hm hopen, hheld ▸ h.balance, h.received.trans hpaid⟩
          rw [hadd]
          refine (hbooks.safeTransfer (status_release hstatus) (.inr rfl)
            (by omega) t).mono ?_
          rintro w' ⟨hdone, hkept⟩
          refine Inv.of_kept hdone hkept ?_ (paid_release hstatus).symm
          rw [held_release hstatus]
          omega

theorem Books.payUnlessZero (h : Books w k p) (hopen : w.escrow.status ≠ .created)
    (hdst : dst = w.escrow.buyer ∨ dst = w.escrow.seller) (hamount : amount ≤ k) (t : Transfer) :
    Ends (fun w' => Books w' (k - amount) (p + amount) ∧ Kept w.escrow w'.escrow)
      (w.payUnlessZero dst amount t) := by
  unfold World.payUnlessZero
  split
  · exact h.safeTransfer hopen hdst hamount t
  · next hzero =>
    obtain rfl : amount = 0 := Decidable.not_not.mp hzero
    exact ⟨h, .refl _⟩

theorem Inv.resolveDispute {recipient : Address} {award refund : Transfer} (h : Inv w) :
    Ends Inv (w.resolveDispute sender recipient amount award refund) := by
  unfold World.resolveDispute
  split
  · exact ⟨nofun, nofun⟩
  · split
    · exact ⟨nofun, nofun⟩
    · split
      · exact ⟨nofun, nofun⟩
      · next hdisputed hterms =>
        have hmode : w.escrow.mode = .dispute :=
          Decidable.not_not.mp fun hne => hdisputed (.inl hne)
        have hstatus : w.escrow.status = .disputed :=
          Decidable.not_not.mp fun hne => hdisputed (.inr hne)
        have hamount : amount ≤ w.escrow.totalAmount := Nat.not_lt.mp fun hlt => hterms (.inr hlt)
        have hrecipient : recipient = w.escrow.buyer ∨ recipient = w.escrow.seller :=
          Decidable.or_iff_not_imp_left.mpr fun hne =>
            Decidable.not_not.mp fun hne' => hterms (.inl ⟨hne, hne'⟩)
        have hnone : w.escrow.releasedAmount = 0 :=
          h.sound.unreleased (by rw [hmode]; nofun) (by rw [hstatus]; nofun)
        have hheld : w.escrow.held = w.escrow.totalAmount := by
          simp only [DealEscrow.held, hstatus, hnone, Nat.sub_zero]
        have hpaid : w.escrow.paid = 0 := by simp only [DealEscrow.paid, hstatus, hnone]
        have hbuyer : w.escrow.buyer ≠ w.this := h.sound.buyer (by rw [hstatus]; nofun)
        have hbooks : Books { w with escrow := { w.escrow with
            status := .released
            releasedAmount := amount } } w.escrow.totalAmount 0 := by
          refine ⟨⟨h.sound.seller, fun _ => hbuyer, h.sound.total, ?_, ?_, nofun, hamount⟩, ?_, ?_⟩
          · exact fun hm => absurd (hmode.symm.trans hm) nofun
          · exact fun _ hopen => absurd rfl hopen
          · exact hheld ▸ h.balance
          · exact h.received.trans hpaid
        rw [checkedSub_eq hamount]
        refine (hbooks.payUnlessZero nofun hrecipient hamount award).bind ?_
        rintro u ⟨hawarded, hkept⟩
        have hopen : u.escrow.status ≠ .created := hkept.created nofun
        refine (hawarded.payUnlessZero hopen (.inl rfl) (Nat.le_refl _) refund).mono ?_
        rintro w' ⟨hdone, hkept'⟩
        refine Inv.of_kept hdone (hkept.trans hkept') (Nat.sub_self _) ?_
        show 0 + amount + (w.escrow.totalAmount - amount) = w.escrow.totalAmount
        omega

theorem Inv.refundAfterTimeout (h : Inv w) : Ends Inv (w.refundAfterTimeout sender t) := by
  unfold World.refundAfterTimeout
  split
  · exact ⟨nofun, nofun⟩
  · split
    · exact ⟨nofun, nofun⟩
    · next hguard =>
      have hopen : w.escrow.status = .funded ∨ w.escrow.status = .disputed :=
        Decidable.or_iff_not_imp_left.mpr fun hne =>
          Decidable.not_not.mp fun hne' => hguard (.inl ⟨hne, hne'⟩)
      have hheld : w.escrow.held = w.escrow.totalAmount - w.escrow.releasedAmount := by
        obtain hstatus | hstatus := hopen <;> simp only [DealEscrow.held, hstatus]
      have hpaid : w.escrow.paid = w.escrow.releasedAmount := by
        obtain hstatus | hstatus := hopen <;> simp only [DealEscrow.paid, hstatus]
      have hcreated : w.escrow.status ≠ .created ∧ w.escrow.status ≠ .released := by
        obtain hstatus | hstatus := hopen <;> rw [hstatus] <;> exact ⟨nofun, nofun⟩
      have hbuyer : w.escrow.buyer ≠ w.this := h.sound.buyer hcreated.1
      have hbooks : Books (w.setStatus .refunded)
          (w.escrow.totalAmount - w.escrow.releasedAmount) w.escrow.releasedAmount :=
        ⟨⟨h.sound.seller, fun _ => hbuyer, h.sound.total, h.sound.milestones,
          fun hne _ => h.sound.unreleased hne hcreated.2, nofun, h.sound.within⟩,
          hheld ▸ h.balance, h.received.trans hpaid⟩
      rw [checkedSub_eq h.sound.within]
      refine (hbooks.safeTransfer nofun (.inl rfl) (Nat.le_refl _) t).bind ?_
      rintro w' ⟨hdone, hkept⟩
      rw [checkedSub_eq hdone.sound.within]
      refine Inv.of_kept hdone hkept (Nat.sub_self _) ?_
      exact Nat.add_sub_cancel' h.sound.within

theorem Inv.openDispute {reasonHash : BitVec 256} (h : Inv w) :
    Ends Inv (w.openDispute sender reasonHash) := by
  cases hopen : w.openDispute sender reasonHash with
  | ok w' =>
    obtain ⟨rfl, hkept⟩ := openDispute_kept hopen
    exact Inv.of_kept ⟨h.sound.kept hkept, h.balance, (received_kept hkept rfl).trans h.received⟩
      hkept rfl rfl
  | error err =>
    unfold World.openDispute at hopen
    split at hopen
    · cases hopen
      exact ⟨nofun, nofun⟩
    · split at hopen
      · cases hopen
        exact ⟨nofun, nofun⟩
      · cases hopen

theorem fund_ne_panic : w.fund sender t ≠ .error .panic := by
  unfold World.fund World.transfer
  dsimp only
  repeat' split
  all_goals nofun

/-- The buyer's payment, from a balance that may be too low. -/
theorem Inv.fund (h : Inv w) (hsender : sender ≠ w.this) (hfund : w.fund sender t = .ok w') :
    Inv w' := by
  unfold World.fund at hfund
  split at hfund
  · cases hfund
  · split at hfund
    · cases hfund
    · next hbuyer hcreated =>
      have hstatus : w.escrow.status = .created := Decidable.not_not.mp hcreated
      have hnone : w.escrow.releasedAmount = 0 := h.sound.created hstatus
      have hbuyer : w.escrow.buyer ≠ w.this := Decidable.not_not.mp hbuyer ▸ hsender
      have hheld : w.escrow.held = 0 := by simp only [DealEscrow.held, hstatus]
      have hpaid : w.escrow.paid = 0 := by simp only [DealEscrow.paid, hstatus]
      have hbooks : Books (w.setStatus .funded) 0 0 :=
        ⟨⟨h.sound.seller, fun _ => hbuyer, h.sound.total, h.sound.milestones, fun _ _ => hnone,
          nofun, h.sound.within⟩, hheld ▸ h.balance, h.received.trans hpaid⟩
      obtain ⟨hbefore, hkept, hthis⟩ := hbooks.callbacks t.before
      unfold World.transfer at hfund
      generalize t.before.foldl World.callback (w.setStatus .funded) = u
        at hfund hbefore hkept hthis
      dsimp only at hfund
      split at hfund
      · cases hfund
      · split at hfund
        · cases hfund
        · obtain rfl := Except.ok.inj hfund
          have hthis : u.this = w.this := hthis
          have hmoved : Books { u.move w.escrow.buyer w.this w.escrow.totalAmount with
              payments := (u.move w.escrow.buyer w.this w.escrow.totalAmount).payments ++ [] }
              w.escrow.totalAmount 0 := by
            refine ⟨hbefore.sound, ?_, ?_⟩
            · show (u.move w.escrow.buyer w.this w.escrow.totalAmount).balanceOf u.this = _
              rw [hthis, balanceOf_move_dst hbuyer.symm, ← hthis]
              exact congrArg (· + w.escrow.totalAmount) hbefore.balance
            · rw [List.append_nil]
              exact hbefore.received
          obtain ⟨hafter, hkept', _⟩ := hmoved.callbacks t.after
          refine Inv.of_kept hafter (hkept.trans hkept') ?_ ?_
          · show w.escrow.totalAmount = w.escrow.totalAmount - w.escrow.releasedAmount
            rw [hnone, Nat.sub_zero]
          · exact hnone.symm

/-! ## Runs -/

/-- Every function but `fund` ends well, whoever calls it. -/
theorem Inv.ends {c : Call} (h : Inv w) (hfund : c.function ≠ .fund) : Ends Inv (w.call c) := by
  unfold World.call
  cases hf : c.function with
  | fund => exact absurd hf hfund
  | releaseSimple => exact h.releaseSimple
  | releaseMilestone milestoneId => exact h.releaseMilestone
  | openDispute reasonHash => exact h.openDispute
  | resolveDispute recipient amount => exact h.resolveDispute
  | refundAfterTimeout => exact h.refundAfterTimeout

theorem call_fund {c : Call} (hfund : c.function = .fund) : w.call c = w.fund c.sender c.first := by
  unfold World.call
  rw [hfund]

/-- A call by an account other than the escrow. -/
theorem Inv.call {c : Call} (h : Inv w) (hsender : c.sender ≠ w.this) (hcall : w.call c = .ok w') :
    Inv w' := by
  by_cases hfund : c.function = .fund
  · rw [call_fund hfund] at hcall
    exact h.fund hsender hcall
  · have hends := h.ends hfund
    rwa [hcall] at hends

theorem Inv.next {a : Event} (h : Inv w) (hnext : w.next a = some w') : Inv w' := by
  cases a with
  | tick seconds =>
    cases hnext
    exact ⟨h.sound, h.balance, h.received⟩
  | outside callback =>
    cases callback with
    | call => cases hnext
    | transfer holder dst amount =>
      cases hnext
      obtain ⟨hbooks, hkept, _⟩ := h.callback (.transfer holder dst amount)
      exact Inv.of_kept hbooks hkept rfl rfl
    | roles arbitrators =>
      cases hnext
      obtain ⟨hbooks, hkept, _⟩ := h.callback (.roles arbitrators)
      exact Inv.of_kept hbooks hkept rfl rfl
  | call c =>
    simp only [World.next, Option.ite_none_left_eq_some, Option.some.injEq] at hnext
    obtain ⟨hsender, rfl⟩ := hnext
    cases hcall : w.call c with
    | ok w' => exact h.call hsender hcall
    | error => exact h

/-- No function runs on a closed deal. -/
theorem call_closed {c : Call} (hclosed : w.escrow.Terminal) : w.call c ≠ .ok w' := by
  have hstatus : w.escrow.status ≠ .created ∧ w.escrow.status ≠ .funded ∧
      w.escrow.status ≠ .disputed := by
    obtain hstatus | hstatus := hclosed <;> rw [hstatus] <;> exact ⟨nofun, nofun, nofun⟩
  obtain ⟨hcreated, hfunded, hdisputed⟩ := hstatus
  unfold World.call World.fund World.releaseSimple World.releaseMilestone World.openDispute
    World.resolveDispute World.refundAfterTimeout
  cases c.function <;> simp only [hcreated, hfunded, hdisputed, ne_eq, not_false_eq_true, true_or,
    or_true, and_true, if_true] <;> (repeat' split) <;> nofun

theorem next_closed {a : Event} (hclosed : w.escrow.Terminal) (hnext : w.next a = some w') :
    w'.escrow.status = w.escrow.status := by
  cases a with
  | tick seconds =>
    cases hnext
    rfl
  | outside callback =>
    cases callback with
    | call => cases hnext
    | roles arbitrators =>
      cases hnext
      rfl
    | transfer holder dst amount =>
      cases hnext
      unfold World.callback World.others
      dsimp only
      split
      · rfl
      · split <;> rfl
  | call c =>
    simp only [World.next, Option.ite_none_left_eq_some, Option.some.injEq] at hnext
    obtain ⟨_, rfl⟩ := hnext
    cases hcall : w.call c with
    | ok w' => exact absurd hcall (call_closed hclosed)
    | error => rfl

theorem Inv.paysOnce (h : Inv w) : PaysOnce w where
  balance := h.balance
  milestones := fun hmode => (h.sound.milestones hmode).1
  within := h.sound.within
  paid := by
    intro hclosed
    refine h.received.trans ?_
    obtain hstatus | hstatus := hclosed <;> simp only [DealEscrow.paid, hstatus]
  reverts := by
    intro c
    by_cases hfund : c.function = .fund
    · rw [call_fund hfund]
      exact ⟨fund_ne_panic, fun hne => absurd hfund hne⟩
    · have hends := h.ends hfund
      constructor
      · intro hpanic
        rw [hpanic] at hends
        exact hends.1 rfl
      · intro _ hbalance
        rw [hbalance] at hends
        exact hends.2 rfl

theorem releasedMilestones_unreleased (amounts : List (BitVec 128)) :
    releasedMilestones (amounts.map fun amount => ⟨amount.toNat, false⟩) = 0 := by
  unfold releasedMilestones
  induction amounts with
  | nil => rfl
  | cons amount amounts ih => exact (Nat.zero_add _).trans ih

theorem sum_of_milestonesValid {terms : Terms} (hvalid : terms.milestonesValid)
    (hmode : terms.mode = .milestone) :
    (terms.milestoneAmounts.map (·.toNat)).sum = terms.totalAmount.toNat := by
  unfold Terms.milestonesValid at hvalid
  rw [hmode] at hvalid
  exact (of_decide_eq_true hvalid).2.2.2

theorem inv_start {terms : Terms} {this : Address} {timestamp : Nat}
    (hinit : terms.initializer timestamp = .ok e) (hseller : terms.seller ≠ this)
    (balanceOf : Address → Nat) : Inv (start this e balanceOf timestamp) := by
  unfold Terms.initializer at hinit
  split at hinit
  · next hvalid =>
    have hmilestones : terms.milestonesValid := (of_decide_eq_true hvalid).2.2.2.2.2.2.2
    cases hdeadline : checkedAdd 64 (timestamp % 2 ^ 64) terms.disputeWindowSeconds.toNat with
    | error err =>
      rw [hdeadline] at hinit
      cases hinit
    | ok disputeDeadline =>
      rw [hdeadline] at hinit
      obtain rfl := Except.ok.inj hinit
      refine ⟨⟨hseller, fun hne => absurd rfl hne, terms.totalAmount.isLt, fun hmode => ⟨?_, ?_⟩,
        fun _ _ => rfl, fun _ => rfl, Nat.zero_le _⟩, rfl, rfl⟩
      · exact (releasedMilestones_unreleased _).symm
      · exact (congrArg List.sum List.map_map).trans (sum_of_milestonesValid hmilestones hmode)
  · cases hinit

/-- Whatever the token does in its transfers, a deal whose seller is not the escrow is paid out
    exactly once. -/
theorem pays_once (terms : Terms) (this : Address) (timestamp : Nat) (escrow : DealEscrow)
    (balanceOf : Address → Nat) (xs : List (Step World Event)) (w : World)
    (hinit : terms.initializer timestamp = .ok escrow) (hseller : terms.seller ≠ this)
    (hrun : EscrowRun this escrow balanceOf timestamp xs w) :
    PaysOnce w ∧ ∀ x ∈ xs, StaysClosed x := by
  have hstart := inv_start hinit hseller balanceOf
  refine ⟨?_, fun x hx hclosed => ?_⟩
  · exact (hrun.invariant Inv hstart fun x _ hnext hpre => hpre.next hnext).paysOnce
  · obtain ⟨hnext, -, -⟩ := hrun.steps_invariant Inv hstart (fun x _ hnext hpre => hpre.next hnext)
      x hx
    exact next_closed hclosed hnext

/-- A token that only moves what it is told to. -/
def plain : Transfer := ⟨[], [], false⟩

/-- The buyer opens a dispute while his payment is under way. -/
def disputing : Transfer := ⟨[.call 0xb0 (.openDispute 0x1)], [], false⟩

def cocoa : Terms := {
  admin := 0xad
  buyer := 0xb0
  seller := 0x5e
  arbitrator := 0xa2
  asset := 0x05
  totalAmount := 500
  disputeWindowSeconds := 3600
  milestoneAmounts := []
  mode := .dispute
}

/-- The sale as the terms set it up, at second 7. -/
def cocoaEscrow : DealEscrow := ⟨0xb0, 0x5e, .dispute, .created, 500, 0, 3607, [], [0xa2]⟩

def wallets : Address → Nat := fun holder => if holder = 0xb0 then 500 else 0

def disputed : List Event :=
  [.call ⟨0xb0, .fund, disputing, plain⟩, .call ⟨0xa2, .resolveDispute 0x5e 300, plain, plain⟩]

theorem pays_once_disputed :
    PaysOnce (replay World.next (start 0xe5 cocoaEscrow wallets 7) disputed).2 ∧
      ∀ x ∈ (replay World.next (start 0xe5 cocoaEscrow wallets 7) disputed).1, StaysClosed x :=
  pays_once cocoa 0xe5 7 cocoaEscrow wallets _ _ (by decide) (by decide)
    (run_replay World.next (start 0xe5 cocoaEscrow wallets 7) disputed)

/-- A simple sale whose seller is the escrow. -/
def selfSale : Terms := { cocoa with seller := 0xe5, mode := .simple }

def selfEscrow : DealEscrow := ⟨0xb0, 0xe5, .simple, .created, 500, 0, 3607, [], [0xa2]⟩

def released : List Event :=
  [.call ⟨0xb0, .fund, plain, plain⟩, .call ⟨0xb0, .releaseSimple, plain, plain⟩]

/-- The deal is closed, and the escrow keeps its tokens; and a buyer who cannot pay is refused. -/
theorem paid_to_itself :
    (¬ ∀ (terms : Terms) (this : Address) (timestamp : Nat) (escrow : DealEscrow)
      (balanceOf : Address → Nat) (xs : List (Step World Event)) (w : World),
      terms.initializer timestamp = .ok escrow → EscrowRun this escrow balanceOf timestamp xs w →
        w.balanceOf w.this = w.outside + w.escrow.held) ∧
    ¬ ∀ (terms : Terms) (this : Address) (timestamp : Nat) (escrow : DealEscrow)
      (balanceOf : Address → Nat) (xs : List (Step World Event)) (w : World),
      terms.initializer timestamp = .ok escrow → EscrowRun this escrow balanceOf timestamp xs w →
        ∀ c, w.call c ≠ .error .insufficientBalance := by
  constructor
  · intro h
    have hbalance := h selfSale 0xe5 7 selfEscrow wallets _ _ (by decide)
      (run_replay World.next (start 0xe5 selfEscrow wallets 7) released)
    exact absurd hbalance (by decide +kernel)
  · intro h
    exact h cocoa 0xe5 7 cocoaEscrow (fun _ => 0) [] _ (by decide) (.nil _)
      ⟨0xb0, .fund, plain, plain⟩ rfl

end AgriFi.Ethereum
