import AgriFi.Runs
import AgriFi.Soroban.Checked
import Mathlib.Algebra.BigOperators.Group.List.Basic

/-
  A contract that keeps one token: its instance storage `σ`, the balance the token contract
  keeps for it, and the payments of the current call. The token is the asset contract of the
  host: `transfer` refuses a negative amount and one the sender does not hold, and a transfer
  from an account to itself moves nothing. `Vault.step` is a successful call of a contract given
  by its dispatch: a call that fails is rolled back, so it is no step.
-/

namespace AgriFi.Soroban

open AgriFi.Runs

/-- What a call reads of the ledger: its time, who signed, and the tokens the others hold. -/
structure Ledger (Addr : Type) where
  timestamp : Nat
  authorized : Addr → Bool
  balance : Addr → Int

/-- One `token.transfer(src, dst, amount)`. -/
structure Payment (Addr : Type) where
  src : Addr
  dst : Addr
  amount : Int
  deriving DecidableEq, Repr

structure Vault (Addr σ : Type) where
  /-- `env.current_contract_address()`. -/
  contract : Addr
  storage : σ
  /-- Tokens held by the contract. -/
  balance : Int
  /-- Transfers of the latest call, in order. -/
  payments : List (Payment Addr)
  now : Nat

namespace Vault

variable {Addr σ ε β : Type} [DecidableEq Addr]

/-- `addr.require_auth()`. The host refuses re-entry, so the contract itself never signs. -/
def requireAuth (led : Ledger Addr) (v : Vault Addr σ) (addr : Addr) : Result ε Unit :=
  failIf (led.authorized addr = false ∨ addr = v.contract) (.trap .auth)

/-- The vault after the contract sent `amount` to `dst`. -/
def sent (v : Vault Addr σ) (dst : Addr) (amount : Int) : Vault Addr σ :=
  { v with
    balance := if dst = v.contract then v.balance else v.balance - amount
    payments := v.payments ++ [⟨v.contract, dst, amount⟩] }

/-- The vault after `src` sent `amount` to the contract. -/
def received (v : Vault Addr σ) (src : Addr) (amount : Int) : Vault Addr σ :=
  { v with
    balance := if src = v.contract then v.balance else v.balance + amount
    payments := v.payments ++ [⟨src, v.contract, amount⟩] }

/-- `token.transfer(current_contract_address, dst, amount)`. -/
def send (v : Vault Addr σ) (dst : Addr) (amount : Int) : Result ε (Vault Addr σ) := do
  failIf (amount < 0 ∨ v.balance < amount) (.trap .token)
  pure (v.sent dst amount)

/-- `token.transfer(src, current_contract_address, amount)`. -/
def receive (v : Vault Addr σ) (led : Ledger Addr) (src : Addr) (amount : Int) :
    Result ε (Vault Addr σ) := do
  failIf (amount < 0 ∨ (if src = v.contract then v.balance else led.balance src) < amount)
    (.trap .token)
  pure (v.received src amount)

/-- The vault a call starts from: no transfer made yet, at the ledger's time. -/
def enter (v : Vault Addr σ) (led : Ledger Addr) : Vault Addr σ :=
  { v with payments := [], now := led.timestamp }

/-! ## Frame and inversion -/

@[simp] theorem sent_storage (v : Vault Addr σ) (dst : Addr) (amount : Int) :
    (v.sent dst amount).storage = v.storage := rfl

@[simp] theorem sent_contract (v : Vault Addr σ) (dst : Addr) (amount : Int) :
    (v.sent dst amount).contract = v.contract := rfl

@[simp] theorem sent_payments (v : Vault Addr σ) (dst : Addr) (amount : Int) :
    (v.sent dst amount).payments = v.payments ++ [⟨v.contract, dst, amount⟩] := rfl

@[simp] theorem received_storage (v : Vault Addr σ) (src : Addr) (amount : Int) :
    (v.received src amount).storage = v.storage := rfl

@[simp] theorem received_contract (v : Vault Addr σ) (src : Addr) (amount : Int) :
    (v.received src amount).contract = v.contract := rfl

@[simp] theorem received_payments (v : Vault Addr σ) (src : Addr) (amount : Int) :
    (v.received src amount).payments = v.payments ++ [⟨src, v.contract, amount⟩] := rfl

omit [DecidableEq Addr] in
@[simp] theorem enter_storage (v : Vault Addr σ) (led : Ledger Addr) :
    (v.enter led).storage = v.storage := rfl

omit [DecidableEq Addr] in
@[simp] theorem enter_contract (v : Vault Addr σ) (led : Ledger Addr) :
    (v.enter led).contract = v.contract := rfl

omit [DecidableEq Addr] in
@[simp] theorem enter_balance (v : Vault Addr σ) (led : Ledger Addr) :
    (v.enter led).balance = v.balance := rfl

omit [DecidableEq Addr] in
@[simp] theorem enter_payments (v : Vault Addr σ) (led : Ledger Addr) :
    (v.enter led).payments = [] := rfl

theorem sent_balance_of_ne {v : Vault Addr σ} {dst : Addr} (h : dst ≠ v.contract) (amount : Int) :
    (v.sent dst amount).balance = v.balance - amount := if_neg h

theorem received_balance_of_ne {v : Vault Addr σ} {src : Addr} (h : src ≠ v.contract)
    (amount : Int) : (v.received src amount).balance = v.balance + amount := if_neg h

theorem send_eq_ok {v v' : Vault Addr σ} {dst : Addr} {amount : Int} :
    (v.send dst amount : Result ε _) = .ok v' ↔
      0 ≤ amount ∧ amount ≤ v.balance ∧ v' = v.sent dst amount := by
  unfold send
  simp only [failIf_bind_eq_ok, pure_eq_ok, Except.ok.injEq, not_or, not_lt, and_assoc]
  exact and_congr_right fun _ => and_congr_right fun _ => eq_comm

theorem receive_eq_ok {v v' : Vault Addr σ} {led : Ledger Addr} {src : Addr} {amount : Int}
    (h : (v.receive led src amount : Result ε _) = .ok v') : v' = v.received src amount := by
  unfold receive at h
  simp only [failIf_bind_eq_ok, pure_eq_ok, Except.ok.injEq] at h
  exact h.2.symm

theorem requireAuth_bind_eq_ok {led : Ledger Addr} {v : Vault Addr σ} {addr : Addr}
    {f : Unit → Result ε β} {b : β} :
    (requireAuth led v addr >>= f) = .ok b ↔
      led.authorized addr = true ∧ addr ≠ v.contract ∧ f () = .ok b := by
  unfold requireAuth
  rw [failIf_bind_eq_ok, not_or, Bool.not_eq_false, and_assoc]

/-! ## Payouts: a list of transfers, zero amounts left out -/

/-- The vault after `if amount > 0 { token.transfer(..) }`. -/
def sentIfPositive (v : Vault Addr σ) (dst : Addr) (amount : Int) : Vault Addr σ :=
  if amount > 0 then v.sent dst amount else v

/-- The vault after the positive amounts of a payout were sent, in order. -/
def sentEach (v : Vault Addr σ) (payout : List (Addr × Int)) : Vault Addr σ :=
  payout.foldl (fun v p => v.sentIfPositive p.1 p.2) v

/-- The transfers of a payout made from `contract`. -/
def transfers (contract : Addr) (payout : List (Addr × Int)) : List (Payment Addr) :=
  (payout.filter fun p => p.2 > 0).map fun p => ⟨contract, p.1, p.2⟩

/-- The part of a payout that is addressed to `addr`. -/
def addressedTo (addr : Addr) (payout : List (Addr × Int)) : Int :=
  ((payout.filter fun p => p.1 = addr).map Prod.snd).sum

@[simp] theorem sentIfPositive_storage (v : Vault Addr σ) (dst : Addr) (amount : Int) :
    (v.sentIfPositive dst amount).storage = v.storage := by
  unfold sentIfPositive
  split <;> rfl

@[simp] theorem sentIfPositive_contract (v : Vault Addr σ) (dst : Addr) (amount : Int) :
    (v.sentIfPositive dst amount).contract = v.contract := by
  unfold sentIfPositive
  split <;> rfl

@[simp] theorem sentIfPositive_payments (v : Vault Addr σ) (dst : Addr) (amount : Int) :
    (v.sentIfPositive dst amount).payments =
      v.payments ++ transfers v.contract [(dst, amount)] := by
  unfold sentIfPositive transfers
  by_cases h : amount > 0 <;> simp [h]

theorem sentIfPositive_balance (v : Vault Addr σ) (dst : Addr) {amount : Int} (h : 0 ≤ amount) :
    (v.sentIfPositive dst amount).balance =
      v.balance - amount + addressedTo v.contract [(dst, amount)] := by
  unfold sentIfPositive sent addressedTo
  by_cases hd : dst = v.contract
  · by_cases hp : amount > 0 <;> simp [hd, hp]
  · by_cases hp : amount > 0
    · simp [hd, hp]
    · have hz : amount = 0 := by omega
      simp [hd, hz]

@[simp] theorem sentEach_storage (v : Vault Addr σ) (payout : List (Addr × Int)) :
    (v.sentEach payout).storage = v.storage := by
  unfold sentEach
  induction payout generalizing v with
  | nil => rfl
  | cons p payout ih => rw [List.foldl_cons, ih, sentIfPositive_storage]

@[simp] theorem sentEach_contract (v : Vault Addr σ) (payout : List (Addr × Int)) :
    (v.sentEach payout).contract = v.contract := by
  unfold sentEach
  induction payout generalizing v with
  | nil => rfl
  | cons p payout ih => rw [List.foldl_cons, ih, sentIfPositive_contract]

theorem sentEach_append (v : Vault Addr σ) (l l' : List (Addr × Int)) :
    v.sentEach (l ++ l') = (v.sentEach l).sentEach l' := List.foldl_append

omit [DecidableEq Addr] in
theorem transfers_append (contract : Addr) (l l' : List (Addr × Int)) :
    transfers contract (l ++ l') = transfers contract l ++ transfers contract l' := by
  unfold transfers
  rw [List.filter_append, List.map_append]

theorem addressedTo_cons (addr : Addr) (p : Addr × Int) (payout : List (Addr × Int)) :
    addressedTo addr (p :: payout) = addressedTo addr [p] + addressedTo addr payout := by
  unfold addressedTo
  by_cases h : p.1 = addr <;> simp [h]

theorem addressedTo_eq_zero {addr : Addr} {payout : List (Addr × Int)}
    (h : ∀ p ∈ payout, p.1 ≠ addr) : addressedTo addr payout = 0 := by
  unfold addressedTo
  rw [List.filter_eq_nil_iff.mpr fun p hp => by simpa using h p hp]
  rfl

theorem sentEach_payments (v : Vault Addr σ) (payout : List (Addr × Int)) :
    (v.sentEach payout).payments = v.payments ++ transfers v.contract payout := by
  induction payout generalizing v with
  | nil => simp [sentEach, transfers]
  | cons p payout ih =>
    have hrest := ih (v.sentIfPositive p.1 p.2)
    unfold sentEach at hrest ⊢
    rw [List.foldl_cons, hrest, sentIfPositive_payments, sentIfPositive_contract, List.append_assoc,
      ← transfers_append]
    rfl

/-- A payout costs its total, less what it sends to the contract itself. -/
theorem sentEach_balance (v : Vault Addr σ) {payout : List (Addr × Int)}
    (h : ∀ p ∈ payout, 0 ≤ p.2) :
    (v.sentEach payout).balance =
      v.balance - (payout.map Prod.snd).sum + addressedTo v.contract payout := by
  induction payout generalizing v with
  | nil => simp [sentEach, addressedTo]
  | cons p payout ih =>
    have hrest := ih (v.sentIfPositive p.1 p.2) fun q hq => h q (List.mem_cons_of_mem _ hq)
    have hhead : (v.sentIfPositive p.1 p.2).balance =
        v.balance - p.2 + addressedTo v.contract [p] :=
      v.sentIfPositive_balance p.1 (h p (List.mem_cons_self ..))
    have hsum := addressedTo_cons v.contract p payout
    unfold sentEach at hrest ⊢
    rw [List.foldl_cons, hrest, hhead, sentIfPositive_contract, hsum, List.map_cons, List.sum_cons]
    omega

omit [DecidableEq Addr] in
/-- The transfers of a payout add up to it. -/
theorem sum_transfers (contract : Addr) {payout : List (Addr × Int)} (h : ∀ p ∈ payout, 0 ≤ p.2) :
    ((transfers contract payout).map Payment.amount).sum = (payout.map Prod.snd).sum := by
  induction payout with
  | nil => rfl
  | cons p payout ih =>
    have hrest := ih fun q hq => h q (List.mem_cons_of_mem _ hq)
    have hp := h p (List.mem_cons_self ..)
    unfold transfers at hrest ⊢
    by_cases hpos : p.2 > 0
    · rw [List.filter_cons_of_pos (by simpa using hpos)]
      simp only [List.map_cons, List.sum_cons, hrest]
    · rw [List.filter_cons_of_neg (by simpa using hpos), hrest, List.map_cons, List.sum_cons]
      omega

/-! ## Calls and runs -/

/-- A call together with the ledger it runs on. -/
structure Invocation (Addr κ : Type) where
  ledger : Ledger Addr
  call : κ

variable {κ : Type}

/-- A successful call at a ledger time not before the last one. -/
def step (dispatch : Ledger Addr → Vault Addr σ → κ → Result ε (Vault Addr σ)) (v : Vault Addr σ)
    (inv : Invocation Addr κ) : Option (Vault Addr σ) :=
  if inv.ledger.timestamp < v.now then none
  else
    match dispatch inv.ledger (v.enter inv.ledger) inv.call with
    | .ok v' => some v'
    | .error _ => none

omit [DecidableEq Addr] in
theorem step_eq_some {dispatch : Ledger Addr → Vault Addr σ → κ → Result ε (Vault Addr σ)}
    {v v' : Vault Addr σ} {inv : Invocation Addr κ} :
    step dispatch v inv = some v' ↔
      v.now ≤ inv.ledger.timestamp ∧
        dispatch inv.ledger (v.enter inv.ledger) inv.call = .ok v' := by
  unfold step
  split
  · next h => simp [h]
  · next h =>
    cases dispatch inv.ledger (v.enter inv.ledger) inv.call with
    | ok u => simp [not_lt.mp h]
    | error e => simp

/-- A contract just initialised with `storage`, holding none of the token. -/
def fresh (contract : Addr) (storage : σ) (now : Nat) : Vault Addr σ :=
  ⟨contract, storage, 0, [], now⟩

end Vault

end AgriFi.Soroban
