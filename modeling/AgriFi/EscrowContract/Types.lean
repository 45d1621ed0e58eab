import AgriFi.Soroban.Vault
import AgriFi.Soroban.HostMap

/-
  Data model of the escrow contract (`contracts/escrow`). `Escrow` is the instance storage that
  `initialize` writes, one field for each `DataKey`; nothing removes a key, so they are plain
  fields. A `World` is the contract with the token balance it holds. A transfer runs the token
  contract's code, which may call back into the escrow: `TokenCode` is what it does before and
  after it moves the money, and `passive` is the token that only moves the money. Re-entrant
  calls leave a record each (`Reentry`), a ghost that the contract never reads.
-/

namespace AgriFi.EscrowContract

open AgriFi.Soroban

inductive Error where
  | unauthorized
  | notInitialized
  | alreadyInitialized
  | invalidAmount
  | invalidShares
  | alreadyReleased
  | balanceInsufficient
  | deliveryNotApproved
  | invalidMilestones
  | milestoneAlreadyRecorded
  | insufficientMilestonesCompleted
  | noInvestors
  | deadlineNotPassed
  | targetMet
  | nothingToRefund
  | contributorFrozen
  | notFrozen
  | operationInProgress
  deriving DecidableEq, Repr

structure Milestone where
  id : Nat
  completed : Bool
  timestamp : Nat

/-- Instance storage after `initialize`. -/
structure Escrow (Addr : Type) [LinearOrder Addr] where
  admin : Addr
  farmer : Addr
  platform : Addr
  usdcToken : Addr
  dealValue : Int
  totalFunded : Int
  released : Bool
  deliveryApproved : Bool
  milestonesCount : Nat
  milestonesCompleted : Nat
  investors : HostMap Addr Int
  milestoneData : HostMap Nat Milestone
  fundingDeadline : Nat
  refunded : HostMap Addr Bool
  frozenContributors : HostMap Addr Bool
  operationInProgress : Bool

/-- What one re-entrant call found and left. -/
structure Reentry (Addr : Type) [LinearOrder Addr] where
  storageBefore : Escrow Addr
  storageAfter : Escrow Addr
  paymentsBefore : List (Payment Addr)
  paymentsAfter : List (Payment Addr)

/-- The contract instance: its storage, the code that replaced this one, and the re-entrant
    calls so far. -/
structure Instance (Addr : Type) [LinearOrder Addr] extends Escrow Addr where
  wasm : Option (BitVec 256)
  reentries : List (Reentry Addr)

abbrev World (Addr : Type) [LinearOrder Addr] := Vault Addr (Instance Addr)

/-- What the token contract does before and after it moves the money of a transfer. -/
structure TokenCode (Addr : Type) [LinearOrder Addr] where
  before : World Addr → World Addr
  after : World Addr → World Addr

variable {Addr : Type} [LinearOrder Addr]

/-- The token that only moves the money. -/
def passive : TokenCode Addr := ⟨id, id⟩

/-- `usdc.transfer(current_contract_address, dst, amount)`. -/
def pay (token : TokenCode Addr) (w : World Addr) (dst : Addr) (amount : Int) :
    Result Error (World Addr) := do
  let w ← (token.before w).send dst amount
  pure (token.after w)

/-- `usdc.transfer(src, current_contract_address, amount)`. -/
def collect (token : TokenCode Addr) (led : Ledger Addr) (w : World Addr) (src : Addr)
    (amount : Int) : Result Error (World Addr) := do
  let w ← (token.before w).receive led src amount
  pure (token.after w)

@[simp] theorem pay_passive (w : World Addr) (dst : Addr) (amount : Int) :
    pay passive w dst amount = w.send dst amount := by
  unfold pay
  cases h : (passive.before w).send dst amount with
  | ok u => exact h.symm
  | error e => exact h.symm

@[simp] theorem collect_passive (led : Ledger Addr) (w : World Addr) (src : Addr) (amount : Int) :
    collect passive led w src amount = w.receive led src amount := by
  unfold collect
  cases h : (passive.before w).receive led src amount with
  | ok u => exact h.symm
  | error e => exact h.symm

end AgriFi.EscrowContract
