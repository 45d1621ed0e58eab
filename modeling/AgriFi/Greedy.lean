import Mathlib.Algebra.BigOperators.Group.List.Basic
import Mathlib.Algebra.Ring.Int.Defs
import Mathlib.Data.List.Basic
import Mathlib.Order.Lattice

/-
  Paying debts off against credits, largest first or in any other order: the first debtor pays the
  first creditor what both have left, and whoever has nothing left is done (`settle`). Debts and
  credits that add up to the same are all paid (`paidTo_settle`, `paidBy_settle`), by payments one
  fewer than there are parties (`length_settle`), and nothing is paid twice (`total_settle`).
-/

namespace AgriFi.Greedy

variable {α : Type}

/-- What a party has to get or to pay. -/
structure Account (α : Type) where
  party : α
  amount : Int
  deriving DecidableEq, Repr

structure Payment (α : Type) where
  payer : α
  payee : α
  amount : Int
  deriving DecidableEq, Repr

def total (accounts : List (Account α)) : Int := (accounts.map Account.amount).sum

/-- What is left on the first account. -/
def without (paid : Int) (account : Account α) (rest : List (Account α)) : List (Account α) :=
  if account.amount ≤ paid then rest else { account with amount := account.amount - paid } :: rest

/-- The smaller of two accounts is done. -/
theorem length_without_add (creditor debtor : Account α) (cs ds : List (Account α)) :
    (without debtor.amount creditor cs).length + (without creditor.amount debtor ds).length ≤
      cs.length + ds.length + 1 := by
  unfold without
  rcases le_total creditor.amount debtor.amount with h | h
  · rw [if_pos h]
    split
    · omega
    · rw [List.length_cons]
      omega
  · rw [if_pos h]
    split
    · omega
    · rw [List.length_cons]
      omega

/-- The greedy matching of creditors and debtors. -/
def settle (creditors debtors : List (Account α)) : List (Payment α) :=
  match creditors, debtors with
  | creditor :: cs, debtor :: ds =>
    ⟨debtor.party, creditor.party, min creditor.amount debtor.amount⟩ ::
      settle (without debtor.amount creditor cs) (without creditor.amount debtor ds)
  | _, _ => []
termination_by creditors.length + debtors.length
decreasing_by
  have := length_without_add creditor debtor cs ds
  simp only [List.length_cons]
  omega

variable [DecidableEq α]

/-- What a party has on its accounts. -/
def held (p : α) (accounts : List (Account α)) : Int :=
  total (accounts.filter (·.party = p))

def paidTo (p : α) (payments : List (Payment α)) : Int :=
  ((payments.filter (·.payee = p)).map Payment.amount).sum

def paidBy (p : α) (payments : List (Payment α)) : Int :=
  ((payments.filter (·.payer = p)).map Payment.amount).sum

section Lemmas

variable {p : α} {creditors debtors rest : List (Account α)} {account : Account α}
  {payment : Payment α} {paid : Int}

omit [DecidableEq α]

@[simp] theorem total_nil : total ([] : List (Account α)) = 0 := rfl

@[simp] theorem total_cons : total (account :: rest) = account.amount + total rest := rfl

theorem total_nonneg (h : ∀ a ∈ rest, 0 < a.amount) : 0 ≤ total rest := by
  induction rest with
  | nil => exact le_refl 0
  | cons a rest ih =>
    have ha := h a (List.mem_cons_self ..)
    have := ih fun b hb => h b (List.mem_cons_of_mem _ hb)
    rw [total_cons]
    omega

/-- Nothing adds up to nothing only when there is nothing. -/
theorem eq_nil_of_total (h : ∀ a ∈ rest, 0 < a.amount) (hzero : total rest = 0) : rest = [] := by
  cases rest with
  | nil => rfl
  | cons a rest =>
    have ha := h a (List.mem_cons_self ..)
    have := total_nonneg fun b hb => h b (List.mem_cons_of_mem _ hb)
    rw [total_cons] at hzero
    omega

theorem total_without : total (without paid account rest) =
    account.amount - min account.amount paid + total rest := by
  unfold without
  split
  · next h => rw [min_eq_left h]; omega
  · next h => rw [min_eq_right (by omega)]; rfl

theorem without_pos (h : ∀ a ∈ account :: rest, 0 < a.amount) :
    ∀ a ∈ without paid account rest, 0 < a.amount := by
  intro a ha
  unfold without at ha
  split at ha
  · exact h a (List.mem_cons_of_mem _ ha)
  · rcases List.mem_cons.mp ha with rfl | ha
    · show 0 < account.amount - paid
      omega
    · exact h a (List.mem_cons_of_mem _ ha)

theorem mem_without_party {q : α} (h : q ∈ (without paid account rest).map Account.party) :
    q ∈ (account :: rest).map Account.party := by
  unfold without at h
  split at h
  · exact List.mem_cons_of_mem _ h
  · exact h

theorem settle_cons (creditor debtor : Account α) (cs ds : List (Account α)) :
    settle (creditor :: cs) (debtor :: ds) =
      ⟨debtor.party, creditor.party, min creditor.amount debtor.amount⟩ ::
        settle (without debtor.amount creditor cs) (without creditor.amount debtor ds) := by
  rw [settle]

theorem settle_nil_left : settle ([] : List (Account α)) debtors = [] := by
  rw [settle]
  intro _ _ _ _ h
  cases h

theorem settle_nil_right : settle creditors ([] : List (Account α)) = [] := by
  rw [settle]
  intro _ _ _ _ _ h
  cases h

/-- The induction that `settle` goes by: nothing to do on one side, or one payment. -/
theorem settle_induction {P : List (Account α) → List (Account α) → Prop}
    (hleft : ∀ ds, P [] ds) (hright : ∀ cs, P cs [])
    (hstep : ∀ creditor cs debtor ds,
      P (without debtor.amount creditor cs) (without creditor.amount debtor ds) →
        P (creditor :: cs) (debtor :: ds)) (creditors debtors : List (Account α)) :
    P creditors debtors := by
  induction creditors, debtors using settle.induct with
  | case1 creditor cs debtor ds ih => exact hstep creditor cs debtor ds ih
  | case2 creditors debtors h =>
    cases creditors with
    | nil => exact hleft debtors
    | cons c cs =>
      cases debtors with
      | nil => exact hright _
      | cons d ds => exact absurd rfl (h c cs d ds rfl)

/-- A payment is of something, from a debtor to a creditor. -/
theorem mem_settle (hc : ∀ a ∈ creditors, 0 < a.amount) (hd : ∀ a ∈ debtors, 0 < a.amount)
    (h : payment ∈ settle creditors debtors) :
    0 < payment.amount ∧ payment.payer ∈ debtors.map Account.party ∧
      payment.payee ∈ creditors.map Account.party := by
  induction creditors, debtors using settle_induction with
  | hleft ds => rw [settle_nil_left] at h; cases h
  | hright cs => rw [settle_nil_right] at h; cases h
  | hstep creditor cs debtor ds ih =>
    rw [settle_cons] at h
    rcases List.mem_cons.mp h with rfl | h
    · have h1 := hc creditor (List.mem_cons_self ..)
      have h2 := hd debtor (List.mem_cons_self ..)
      exact ⟨lt_min h1 h2, List.mem_cons_self .., List.mem_cons_self ..⟩
    · obtain ⟨hpos, hpayer, hpayee⟩ := ih (without_pos hc) (without_pos hd) h
      exact ⟨hpos, mem_without_party hpayer, mem_without_party hpayee⟩

/-- What is paid in all is what the creditors had to get. -/
theorem total_settle (hc : ∀ a ∈ creditors, 0 < a.amount) (hd : ∀ a ∈ debtors, 0 < a.amount)
    (h : total creditors = total debtors) :
    ((settle creditors debtors).map Payment.amount).sum = total creditors := by
  induction creditors, debtors using settle_induction with
  | hleft ds => rw [settle_nil_left]; rfl
  | hright cs =>
    rw [settle_nil_right, eq_nil_of_total hc h]
    rfl
  | hstep creditor cs debtor ds ih =>
    rw [total_cons, total_cons] at h
    have hmin := min_comm creditor.amount debtor.amount
    have := ih (without_pos hc) (without_pos hd) (by rw [total_without, total_without]; omega)
    rw [settle_cons, List.map_cons, List.sum_cons, this, total_without, total_cons]
    dsimp only
    omega

/-- Every payment finishes a party, the last one finishes two. -/
theorem length_settle (hc : ∀ a ∈ creditors, 0 < a.amount) (hd : ∀ a ∈ debtors, 0 < a.amount)
    (h : total creditors = total debtors) :
    (settle creditors debtors).length ≤ creditors.length + debtors.length - 1 := by
  induction creditors, debtors using settle_induction with
  | hleft ds => rw [settle_nil_left]; exact Nat.zero_le _
  | hright cs => rw [settle_nil_right]; exact Nat.zero_le _
  | hstep creditor cs debtor ds ih =>
    rw [total_cons, total_cons] at h
    have hmin := min_comm creditor.amount debtor.amount
    have htotal : total (without debtor.amount creditor cs) =
        total (without creditor.amount debtor ds) := by
      rw [total_without, total_without]
      omega
    have := ih (without_pos hc) (without_pos hd) htotal
    rw [settle_cons, List.length_cons]
    have hshorter := length_without_add creditor debtor cs ds
    rw [List.length_cons, List.length_cons]
    -- when one side is at an end, so is the other
    cases hleft : without debtor.amount creditor cs with
    | nil =>
      rw [settle_nil_left, List.length_nil]
      omega
    | cons a l =>
      rw [hleft, List.length_cons] at this hshorter
      omega

end Lemmas

section Parties

variable {p : α} {creditors debtors rest : List (Account α)} {account : Account α} {paid : Int}

theorem held_cons : held p (account :: rest) =
    (if account.party = p then account.amount else 0) + held p rest := by
  unfold held
  rw [List.filter_cons]
  split
  · next h => rw [if_pos (by simpa using h)]; rfl
  · next h => rw [if_neg (by simpa using h)]; omega

theorem held_without : held p (without paid account rest) =
    (if account.party = p then account.amount - min account.amount paid else 0) + held p rest := by
  unfold without
  split
  · next h => rw [min_eq_left h]; split <;> omega
  · next h => rw [min_eq_right (by omega), held_cons]

/-- One account for each of a list of parties that names none twice. -/
theorem held_map {ids : List α} (hnodup : ids.Nodup) (balance : α → Int) :
    held p (ids.map fun q => ⟨q, balance q⟩) = if p ∈ ids then balance p else 0 := by
  induction ids with
  | nil => rfl
  | cons q ids ih =>
    rw [List.nodup_cons] at hnodup
    rw [List.map_cons, held_cons, ih hnodup.2]
    by_cases hq : q = p
    · subst hq
      rw [if_pos rfl, if_neg hnodup.1, if_pos (List.mem_cons_self ..), add_zero]
    · rw [if_neg hq, zero_add]
      by_cases hp : p ∈ ids
      · rw [if_pos hp, if_pos (List.mem_cons_of_mem _ hp)]
      · rw [if_neg hp, if_neg]
        rintro hmem
        rcases List.mem_cons.mp hmem with rfl | hmem
        · exact hq rfl
        · exact hp hmem

/-- Credits and debts of the same total: each creditor gets what it had to get. -/
theorem paidTo_settle (hc : ∀ a ∈ creditors, 0 < a.amount) (hd : ∀ a ∈ debtors, 0 < a.amount)
    (h : total creditors = total debtors) :
    paidTo p (settle creditors debtors) = held p creditors := by
  induction creditors, debtors using settle_induction with
  | hleft ds => rw [settle_nil_left]; rfl
  | hright cs => rw [settle_nil_right, eq_nil_of_total hc h]; rfl
  | hstep creditor cs debtor ds ih =>
    rw [total_cons, total_cons] at h
    have hmin := min_comm creditor.amount debtor.amount
    have hrest := ih (without_pos hc) (without_pos hd) (by rw [total_without, total_without]; omega)
    rw [held_without] at hrest
    rw [settle_cons, held_cons]
    unfold paidTo at hrest ⊢
    rw [List.filter_cons]
    by_cases hp : creditor.party = p
    · rw [if_pos hp] at hrest ⊢
      rw [if_pos (by simpa using hp), List.map_cons, List.sum_cons, hrest]
      dsimp only
      omega
    · rw [if_neg hp] at hrest ⊢
      rw [if_neg (by simpa using hp)]
      exact hrest

/-- Each debtor pays what it had to pay. -/
theorem paidBy_settle (hc : ∀ a ∈ creditors, 0 < a.amount) (hd : ∀ a ∈ debtors, 0 < a.amount)
    (h : total creditors = total debtors) :
    paidBy p (settle creditors debtors) = held p debtors := by
  induction creditors, debtors using settle_induction with
  | hleft ds => rw [settle_nil_left, eq_nil_of_total hd h.symm]; rfl
  | hright cs => rw [settle_nil_right]; rfl
  | hstep creditor cs debtor ds ih =>
    rw [total_cons, total_cons] at h
    have hmin := min_comm creditor.amount debtor.amount
    have hrest := ih (without_pos hc) (without_pos hd) (by rw [total_without, total_without]; omega)
    rw [held_without] at hrest
    rw [settle_cons, held_cons]
    unfold paidBy at hrest ⊢
    rw [List.filter_cons]
    by_cases hp : debtor.party = p
    · rw [if_pos hp] at hrest ⊢
      rw [if_pos (by simpa using hp), List.map_cons, List.sum_cons, hrest]
      dsimp only
      omega
    · rw [if_neg hp] at hrest ⊢
      rw [if_neg (by simpa using hp)]
      exact hrest

end Parties

end AgriFi.Greedy
