import AgriFi.Runs
import Mathlib.Algebra.GroupWithZero.Nat

/-
  The escrow contract of a deal (`DealEscrow.sol`) with the token that it holds. A transfer of the
  token moves exactly its amount or reverts, and calls back: into the escrow, where every function
  but `openDispute` is refused by the reentrancy guard, or into anything else. What a call does
  before it reverts is undone, so a call is its new world or its error. What the escrow has paid, and
  what others have sent it, are history variables.
-/

namespace AgriFi.Ethereum

open AgriFi.Runs

abbrev Address := BitVec 160

inductive DealMode where
  | simple
  | milestone
  | dispute
  deriving DecidableEq

inductive DealStatus where
  | created
  | funded
  | disputed
  | released
  | refunded
  deriving DecidableEq

structure Milestone where
  amount : Nat
  released : Bool
  deriving DecidableEq

/-- The errors of the contract and of its base contracts, an arithmetic panic, and the two ways in
    which the token refuses a transfer. -/
inductive Revert where
  | invalidTerms
  | unauthorized
  | invalidStatus
  | invalidMilestone
  | missingRole
  | panic
  | insufficientBalance
  | refused
  deriving DecidableEq

/-- The storage of the escrow. Numbers are kept within their types by checked arithmetic. -/
structure DealEscrow where
  buyer : Address
  seller : Address
  mode : DealMode
  status : DealStatus
  totalAmount : Nat
  releasedAmount : Nat
  disputeDeadline : Nat
  milestones : List Milestone
  /-- The accounts that have `ARBITRATOR_ROLE`. -/
  arbitrators : List Address
  deriving DecidableEq

/-- An addition of numbers of type `uint⟨bits⟩`. -/
def checkedAdd (bits a b : Nat) : Except Revert Nat :=
  if a + b < 2 ^ bits then .ok (a + b) else .error .panic

def checkedSub (a b : Nat) : Except Revert Nat := if b ≤ a then .ok (a - b) else .error .panic

/-! ## The terms -/

structure Terms where
  admin : Address
  buyer : Address
  seller : Address
  arbitrator : Address
  asset : Address
  totalAmount : BitVec 128
  disputeWindowSeconds : BitVec 64
  milestoneAmounts : List (BitVec 128)
  mode : DealMode

/-- 64 amounts do not leave `uint256`, so their sum is exact. -/
def Terms.milestonesValid (terms : Terms) : Bool :=
  match terms.mode with
  | .milestone =>
    terms.milestoneAmounts ≠ [] ∧ terms.milestoneAmounts.length ≤ 64 ∧
      (∀ amount ∈ terms.milestoneAmounts, amount ≠ 0) ∧
      (terms.milestoneAmounts.map (·.toNat)).sum = terms.totalAmount.toNat
  | .simple | .dispute => terms.milestoneAmounts = []

def Terms.valid (terms : Terms) : Bool :=
  terms.admin ≠ 0 ∧ terms.buyer ≠ 0 ∧ terms.seller ≠ 0 ∧ terms.asset ≠ 0 ∧ terms.totalAmount ≠ 0 ∧
    terms.buyer ≠ terms.seller ∧ ¬ (terms.mode = .dispute ∧ terms.arbitrator = 0) ∧
    terms.milestonesValid

/-- `initialize`, at a block's timestamp. -/
def Terms.initializer (terms : Terms) (timestamp : Nat) : Except Revert DealEscrow :=
  if terms.valid then do
    let disputeDeadline ←
      checkedAdd 64 (timestamp % 2 ^ 64) terms.disputeWindowSeconds.toNat
    return {
      buyer := terms.buyer
      seller := terms.seller
      mode := terms.mode
      status := .created
      totalAmount := terms.totalAmount.toNat
      releasedAmount := 0
      disputeDeadline
      milestones := terms.milestoneAmounts.map fun amount => ⟨amount.toNat, false⟩
      arbitrators := if terms.arbitrator ≠ 0 then [terms.arbitrator] else []
    }
  else .error .invalidTerms

/-! ## The world -/

structure Payment where
  recipient : Address
  amount : Nat
  deriving DecidableEq

structure World where
  /-- The address of the escrow. -/
  this : Address
  escrow : DealEscrow
  /-- The token's balances. -/
  balanceOf : Address → Nat
  timestamp : Nat
  /-- What the escrow has paid. -/
  payments : List Payment
  /-- What the escrow holds that it did not get from `fund`. -/
  outside : Nat

inductive EntryPoint where
  | fund
  | releaseSimple
  | releaseMilestone (milestoneId : Nat)
  | openDispute (reasonHash : BitVec 256)
  | resolveDispute (recipient : Address) (amount : Nat)
  | refundAfterTimeout
  deriving DecidableEq

/-- What others do: call the escrow, move tokens of their own, or change who has the role. -/
inductive Callback where
  | call (sender : Address) (function : EntryPoint)
  | transfer (holder dst : Address) (amount : Nat)
  | roles (arbitrators : List Address)

/-- What a transfer does besides moving its amount. The token may refuse it, for want of an allowance
    for instance, or let an error of a callback through. -/
structure Transfer where
  before : List Callback
  after : List Callback
  refuses : Bool

/-- Move tokens. -/
def World.move (w : World) (holder dst : Address) (amount : Nat) : World :=
  let taken := Function.update w.balanceOf holder (w.balanceOf holder - amount)
  { w with balanceOf := Function.update taken dst (taken dst + amount) }

def World.setStatus (w : World) (status : DealStatus) : World :=
  { w with escrow.status := status }

def World.openDispute (w : World) (sender : Address) (reasonHash : BitVec 256) :
    Except Revert World :=
  if w.escrow.mode ≠ .dispute ∨ (sender ≠ w.escrow.buyer ∧ sender ≠ w.escrow.seller) then
    .error .unauthorized
  else if w.escrow.status ≠ .funded ∨ reasonHash = 0 then .error .invalidStatus
  else .ok (w.setStatus .disputed)

/-- Tokens that others move, from balances that suffice. The escrow gives no allowance. -/
def World.others (w : World) (holder dst : Address) (amount : Nat) : World :=
  if holder = w.this ∨ w.balanceOf holder < amount then w
  else if dst = w.this then { w.move holder dst amount with outside := w.outside + amount }
  else w.move holder dst amount

def World.callback (w : World) : Callback → World
  | .call sender (.openDispute reasonHash) => (w.openDispute sender reasonHash).toOption.getD w
  -- the guard reverts the others
  | .call _ _ => w
  | .transfer holder dst amount => w.others holder dst amount
  | .roles arbitrators => { w with escrow.arbitrators := arbitrators }

/-! ## The functions -/

/-- A transfer by the token; `pay` is the history that it adds. -/
def World.transfer (w : World) (holder dst : Address) (amount : Nat) (pay : List Payment)
    (t : Transfer) : Except Revert World :=
  let w' := t.before.foldl World.callback w
  if t.refuses then .error .refused
  else if w'.balanceOf holder < amount then .error .insufficientBalance
  else
    let moved := w'.move holder dst amount
    .ok (t.after.foldl World.callback { moved with payments := moved.payments ++ pay })

def World.safeTransfer (w : World) (dst : Address) (amount : Nat) (t : Transfer) :
    Except Revert World :=
  w.transfer w.this dst amount [⟨dst, amount⟩] t

def World.fund (w : World) (sender : Address) (t : Transfer) : Except Revert World :=
  if sender ≠ w.escrow.buyer then .error .unauthorized
  else if w.escrow.status ≠ .created then .error .invalidStatus
  else (w.setStatus .funded).transfer w.escrow.buyer w.this w.escrow.totalAmount [] t

def World.releaseSimple (w : World) (sender : Address) (t : Transfer) : Except Revert World :=
  if w.escrow.mode ≠ .simple ∨ sender ≠ w.escrow.buyer then .error .unauthorized
  else if w.escrow.status ≠ .funded then .error .invalidStatus
  else
    let escrow := { w.escrow with
      status := .released
      releasedAmount := w.escrow.totalAmount }
    { w with escrow }.safeTransfer w.escrow.seller w.escrow.totalAmount t

/-- The escrow after a milestone was released. -/
def DealEscrow.release (escrow : DealEscrow) (milestoneId : Nat) (milestone : Milestone)
    (releasedAmount : Nat) : DealEscrow :=
  { escrow with
    milestones := escrow.milestones.set milestoneId { milestone with released := true }
    releasedAmount
    status := if releasedAmount = escrow.totalAmount then .released else escrow.status }

def World.releaseMilestone (w : World) (sender : Address) (milestoneId : Nat) (t : Transfer) :
    Except Revert World :=
  if w.escrow.mode ≠ .milestone ∨ sender ≠ w.escrow.buyer then .error .unauthorized
  else if w.escrow.status ≠ .funded then .error .invalidMilestone
  else
    match w.escrow.milestones[milestoneId]? with
    | none => .error .invalidMilestone
    | some milestone =>
      if milestone.released then .error .invalidMilestone
      else do
        let releasedAmount ← checkedAdd 128 w.escrow.releasedAmount milestone.amount
        let escrow := w.escrow.release milestoneId milestone releasedAmount
        { w with escrow }.safeTransfer w.escrow.seller milestone.amount t

/-- A payment that is left out when it is nothing. -/
def World.payUnlessZero (w : World) (dst : Address) (amount : Nat) (t : Transfer) :
    Except Revert World :=
  if amount ≠ 0 then w.safeTransfer dst amount t else .ok w

def World.resolveDispute (w : World) (sender recipient : Address) (amount : Nat)
    (award refund : Transfer) : Except Revert World :=
  if sender ∉ w.escrow.arbitrators then .error .missingRole
  else if w.escrow.mode ≠ .dispute ∨ w.escrow.status ≠ .disputed then .error .invalidStatus
  else if (recipient ≠ w.escrow.buyer ∧ recipient ≠ w.escrow.seller) ∨
      w.escrow.totalAmount < amount then
    .error .invalidTerms
  else do
    let escrow := { w.escrow with
      status := .released
      releasedAmount := amount }
    let refundAmount ← checkedSub w.escrow.totalAmount amount
    let w ← { w with escrow }.payUnlessZero recipient amount award
    w.payUnlessZero w.escrow.buyer refundAmount refund

def World.refundAfterTimeout (w : World) (sender : Address) (t : Transfer) : Except Revert World :=
  if sender ≠ w.escrow.buyer then .error .unauthorized
  else if (w.escrow.status ≠ .funded ∧ w.escrow.status ≠ .disputed) ∨
      w.timestamp ≤ w.escrow.disputeDeadline then
    .error .invalidStatus
  else do
    let refundAmount ← checkedSub w.escrow.totalAmount w.escrow.releasedAmount
    let w ← (w.setStatus .refunded).safeTransfer w.escrow.buyer refundAmount t
    -- the event subtracts once more
    let _ ← checkedSub w.escrow.totalAmount w.escrow.releasedAmount
    return w

/-! ## Runs -/

/-- A call with what its first and its second transfer do. -/
structure Call where
  sender : Address
  function : EntryPoint
  first : Transfer
  second : Transfer

def World.call (w : World) (c : Call) : Except Revert World :=
  match c.function with
  | .fund => w.fund c.sender c.first
  | .releaseSimple => w.releaseSimple c.sender c.first
  | .releaseMilestone milestoneId => w.releaseMilestone c.sender milestoneId c.first
  | .openDispute reasonHash => w.openDispute c.sender reasonHash
  | .resolveDispute recipient amount =>
    w.resolveDispute c.sender recipient amount c.first c.second
  | .refundAfterTimeout => w.refundAfterTimeout c.sender c.first

inductive Event where
  | call (c : Call)
  | outside (callback : Callback)
  | tick (seconds : Nat)

/-- A call that reverts leaves the world as it was. The escrow itself calls only the token. -/
def World.next (w : World) : Event → Option World
  | .call c => if c.sender = w.this then none else some ((w.call c).toOption.getD w)
  | .outside (.call _ _) => none
  | .outside callback => some (w.callback callback)
  | .tick seconds => some { w with timestamp := w.timestamp + seconds }

/-- A deal at its start: an escrow, and balances from before. -/
def start (this : Address) (escrow : DealEscrow) (balanceOf : Address → Nat) (timestamp : Nat) :
    World :=
  ⟨this, escrow, balanceOf, timestamp, [], balanceOf this⟩

abbrev EscrowRun (this : Address) (escrow : DealEscrow) (balanceOf : Address → Nat)
    (timestamp : Nat) (xs : List (Step World Event)) (w : World) : Prop :=
  Run World.next (start this escrow balanceOf timestamp) xs w

end AgriFi.Ethereum
