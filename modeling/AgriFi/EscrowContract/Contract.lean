import AgriFi.EscrowContract.Types

/-
  The entry points of the escrow contract, the dispatch over them and the run they make. Every
  entry point takes the token contract's code, and `callStep` runs them with the token that
  calls nothing back. `distribute` is the tail that `release` and `settle_escrow` share word for
  word. The loop of `refund_all_after_expiry` keeps its maps and totals in local variables
  (`Batch`) and writes them to storage as it goes.
-/

namespace AgriFi.EscrowContract

open AgriFi.Soroban AgriFi.Runs
open AgriFi.Soroban.Vault (requireAuth)

variable {Addr : Type} [LinearOrder Addr]

/-! ## Initialisation -/

/-- `initialize`; `storage` is what the instance holds before the call. -/
def initializeContract (storage : Option (Escrow Addr)) (admin farmer platform usdcToken : Addr)
    (dealValue : Int) (milestoneCount : Nat) (investors : List Addr) (fundingDeadline : Nat) :
    Result Error (Escrow Addr) := do
  failIf (storage.isSome = true) (.err .alreadyInitialized)
  failIf (dealValue ≤ 0) (.err .invalidAmount)
  failIf (milestoneCount = 0) (.err .invalidMilestones)
  failIf (investors = []) (.err .noInvestors)
  pure {
    admin, farmer, platform, usdcToken, dealValue
    totalFunded := 0
    released := false
    operationInProgress := false
    deliveryApproved := false
    milestonesCount := milestoneCount
    milestonesCompleted := 0
    fundingDeadline
    investors := investors.foldl (fun m investor => m.set investor 0) .empty
    milestoneData := .empty
    refunded := .empty
    frozenContributors := .empty }

/-! ## Funding and approval -/

/-- The lock check of the entry points that fail on it. -/
def requireUnlocked (w : World Addr) : Result Error Unit :=
  failIf (w.storage.operationInProgress = true) (.err .operationInProgress)

def requireAdmin (led : Ledger Addr) (w : World Addr) (caller : Addr) : Result Error Unit := do
  requireAuth led w caller
  failIf (caller ≠ w.storage.admin) (.err .unauthorized)

def requireAdminOrFarmer (led : Ledger Addr) (w : World Addr) (caller : Addr) :
    Result Error Unit := do
  requireAuth led w caller
  failIf (caller ≠ w.storage.admin ∧ caller ≠ w.storage.farmer) (.err .unauthorized)

def fund (token : TokenCode Addr) (led : Ledger Addr) (w : World Addr) (caller : Addr)
    (amount : Int) : Result Error (World Addr) := do
  let e := w.storage
  failIf (amount ≤ 0) (.err .invalidAmount)
  requireAuth led w caller
  failIf (e.released = true) (.err .alreadyReleased)
  requireUnlocked w
  let nextTotal ← okOr (checkedAdd e.totalFunded amount) (.err .invalidAmount)
  let existing := e.investors.getD caller 0
  let nextContribution ← okOr (checkedAdd existing amount) (.err .invalidAmount)
  let refunded :=
    if e.refunded.getD caller false = true then e.refunded.set caller false else e.refunded
  let w ← collect token led
    { w with
      storage.totalFunded := nextTotal
      storage.investors := e.investors.set caller nextContribution
      storage.refunded := refunded
      storage.operationInProgress := true } caller amount
  pure { w with storage.operationInProgress := false }

def approveDelivery (led : Ledger Addr) (w : World Addr) (caller : Addr) :
    Result Error (World Addr) := do
  requireAdmin led w caller
  requireUnlocked w
  pure { w with storage.deliveryApproved := true }

def submitDeliveryMilestone (led : Ledger Addr) (w : World Addr) (caller : Addr) :
    Result Error (World Addr) := do
  requireAdminOrFarmer led w caller
  requireUnlocked w
  pure { w with storage.deliveryApproved := true }

/-! ## Release and settlement -/

/-- `if amount > 0 { usdc.transfer(..) }`. -/
def payIfPositive (token : TokenCode Addr) (w : World Addr) (dst : Addr) (amount : Int) :
    Result Error (World Addr) :=
  if amount > 0 then pay token w dst amount else pure w

/-- The farmer's 98% and the platform's rest, refused while one of them is frozen. -/
def distribute (token : TokenCode Addr) (w : World Addr) : Result Error (World Addr) := do
  let e := w.storage
  failIf (e.frozenContributors.getD e.farmer false = true) (.err .contributorFrozen)
  failIf (e.frozenContributors.getD e.platform false = true) (.err .contributorFrozen)
  let product ← okOr (checkedMul e.totalFunded 98) (.trap .overflow)
  let farmerAmount ← okOr (checkedDiv product 100) (.trap .overflow)
  let platformAmount ← okOr (checkedSub e.totalFunded farmerAmount) (.trap .overflow)
  let w ← payIfPositive token
    { w with storage.released := true, storage.operationInProgress := true } e.farmer farmerAmount
  let w ← payIfPositive token w e.platform platformAmount
  pure { w with storage.operationInProgress := false }

def release (token : TokenCode Addr) (led : Ledger Addr) (w : World Addr) (caller : Addr) :
    Result Error (World Addr) := do
  let e := w.storage
  requireAdmin led w caller
  failIf (e.released = true) (.err .alreadyReleased)
  requireUnlocked w
  failIf (e.deliveryApproved = false) (.err .deliveryNotApproved)
  failIf (e.totalFunded ≤ 0) (.err .balanceInsufficient)
  distribute token w

def recordMilestone (led : Ledger Addr) (w : World Addr) (caller : Addr) (milestoneId : Nat) :
    Result Error (World Addr) := do
  let e := w.storage
  requireAdminOrFarmer led w caller
  requireUnlocked w
  failIf (milestoneId ≥ e.milestonesCount) (.err .invalidMilestones)
  failIf ((e.milestoneData.get? milestoneId).isSome = true) (.err .milestoneAlreadyRecorded)
  let milestone : Milestone := { id := milestoneId, completed := true, timestamp := led.timestamp }
  let completed ← okOr (checkedAddU 32 e.milestonesCompleted 1) (.trap .overflow)
  pure { w with
    storage.milestoneData := e.milestoneData.set milestoneId milestone
    storage.milestonesCompleted := completed }

def settleEscrow (token : TokenCode Addr) (led : Ledger Addr) (w : World Addr) (caller : Addr) :
    Result Error (World Addr) := do
  let e := w.storage
  requireAdmin led w caller
  failIf (e.released = true) (.err .alreadyReleased)
  requireUnlocked w
  failIf (e.milestonesCompleted < e.milestonesCount) (.err .insufficientMilestonesCompleted)
  failIf (e.totalFunded < e.dealValue) (.err .balanceInsufficient)
  distribute token w

/-- `upgrade`: from the next call on the contract runs the new code. -/
def upgrade (led : Ledger Addr) (w : World Addr) (caller : Addr) (newWasmHash : BitVec 256) :
    Result Error (World Addr) := do
  requireAdmin led w caller
  requireUnlocked w
  pure { w with storage.wasm := some newWasmHash }

/-! ## Freezing -/

def freezeContributor (led : Ledger Addr) (w : World Addr) (caller contributor : Addr) :
    Result Error (World Addr) := do
  requireAdmin led w caller
  requireUnlocked w
  pure { w with
    storage.frozenContributors := w.storage.frozenContributors.set contributor true }

def unfreezeContributor (led : Ledger Addr) (w : World Addr) (caller contributor : Addr) :
    Result Error (World Addr) := do
  requireAdmin led w caller
  requireUnlocked w
  failIf (w.storage.frozenContributors.get? contributor = none) (.err .notFrozen)
  pure { w with storage.frozenContributors := w.storage.frozenContributors.remove contributor }

/-! ## Refunds after expiry -/

def targetMet (e : Escrow Addr) : Prop := e.totalFunded ≥ e.dealValue

instance (e : Escrow Addr) : Decidable (targetMet e) := inferInstanceAs (Decidable (_ ≤ _))

def refundAfterExpiry (token : TokenCode Addr) (led : Ledger Addr) (w : World Addr)
    (contributor : Addr) : Result Error (World Addr) := do
  let e := w.storage
  if e.operationInProgress = true then pure w
  else do
    requireAuth led w contributor
    if e.refunded.getD contributor false = true then pure w
    else do
      failIf (led.timestamp ≤ e.fundingDeadline) (.err .deadlineNotPassed)
      failIf (e.released = true) (.err .alreadyReleased)
      failIf (targetMet e.toEscrow) (.err .targetMet)
      let amount := e.investors.getD contributor 0
      failIf (amount ≤ 0) (.err .nothingToRefund)
      failIf (e.frozenContributors.getD contributor false = true) (.err .contributorFrozen)
      failIf (e.totalFunded < amount) (.err .balanceInsufficient)
      let totalFunded ← okOr (checkedSub e.totalFunded amount) (.trap .overflow)
      let w ← pay token
        { w with
          storage.refunded := e.refunded.set contributor true
          storage.investors := e.investors.set contributor 0
          storage.totalFunded := totalFunded
          storage.operationInProgress := true } contributor amount
      pure { w with storage.operationInProgress := false }

/-- The local variables of the batch refund: the updated maps and the two running totals. -/
structure Batch (Addr : Type) [LinearOrder Addr] where
  updatedRefundedMap : HostMap Addr Bool
  updatedInvestorsMap : HostMap Addr Int
  totalRefunded : Int
  totalFunded : Int

/-- The storage keys the batch refund writes. -/
def writeBatch (w : World Addr) (b : Batch Addr) : World Addr :=
  { w with
    storage.refunded := b.updatedRefundedMap
    storage.investors := b.updatedInvestorsMap
    storage.totalFunded := b.totalFunded }

/-- The loop of `refund_all_after_expiry` over the addresses `investorAddresses`. -/
def refundEach (token : TokenCode Addr) (investorsMap : HostMap Addr Int)
    (frozenMap : HostMap Addr Bool) :
    List Addr → Batch Addr → World Addr → Result Error (Batch Addr × World Addr)
  | [], b, w => pure (b, w)
  | investor :: investorAddresses, b, w => do
    let amount := investorsMap.getD investor 0
    if amount > 0 ∧ b.updatedRefundedMap.getD investor false = false then
      if frozenMap.getD investor false = true then
        refundEach token investorsMap frozenMap investorAddresses b w
      else do
        failIf (b.totalFunded < amount) (.err .balanceInsufficient)
        let totalFunded ← okOr (checkedSub b.totalFunded amount) (.trap .overflow)
        let totalRefunded ← okOr (checkedAdd b.totalRefunded amount) (.trap .overflow)
        let b : Batch Addr := {
          updatedRefundedMap := b.updatedRefundedMap.set investor true
          updatedInvestorsMap := b.updatedInvestorsMap.set investor 0
          totalRefunded
          totalFunded }
        let w ← pay token (writeBatch w b) investor amount
        refundEach token investorsMap frozenMap investorAddresses b w
    else refundEach token investorsMap frozenMap investorAddresses b w

/-- `investors_map.keys()`. -/
def investorAddresses (e : Escrow Addr) : List Addr := e.investors.entries.map Prod.fst

def refundAllAfterExpiry (token : TokenCode Addr) (led : Ledger Addr) (w : World Addr)
    (caller : Addr) : Result Error (World Addr) := do
  let e := w.storage
  if e.operationInProgress = true then pure w
  else do
    requireAdmin led w caller
    failIf (led.timestamp ≤ e.fundingDeadline) (.err .deadlineNotPassed)
    failIf (e.released = true) (.err .alreadyReleased)
    failIf (targetMet e.toEscrow) (.err .targetMet)
    let (b, w) ← refundEach token e.investors e.frozenContributors (investorAddresses e.toEscrow)
      { updatedRefundedMap := e.refunded
        updatedInvestorsMap := e.investors
        totalRefunded := 0
        totalFunded := e.totalFunded }
      { w with storage.operationInProgress := true }
    let w : World Addr := { w with storage.operationInProgress := false }
    if b.totalRefunded = 0 then pure w else pure (writeBatch w b)

/-! ## Calls and runs -/

inductive Call (Addr : Type) where
  | initializeContract (admin farmer platform usdcToken : Addr) (dealValue : Int)
      (milestoneCount : Nat) (investors : List Addr) (fundingDeadline : Nat)
  | fund (caller : Addr) (amount : Int)
  | approveDelivery (caller : Addr)
  | submitDeliveryMilestone (caller : Addr)
  | release (caller : Addr)
  | recordMilestone (caller : Addr) (milestoneId : Nat)
  | settleEscrow (caller : Addr)
  | upgrade (caller : Addr) (newWasmHash : BitVec 256)
  | freezeContributor (caller contributor : Addr)
  | unfreezeContributor (caller contributor : Addr)
  | refundAfterExpiry (contributor : Addr)
  | refundAllAfterExpiry (caller : Addr)
  /-- Any of the read-only entry points; none of them writes. -/
  | view

/-- The entry point a call names, on an initialised instance. -/
def dispatch (token : TokenCode Addr) (led : Ledger Addr) (w : World Addr) :
    Call Addr → Result Error (World Addr)
  | .initializeContract admin farmer platform usdcToken dealValue milestoneCount investors
      fundingDeadline => do
    let e ← initializeContract (some w.storage.toEscrow) admin farmer platform usdcToken dealValue
      milestoneCount investors fundingDeadline
    pure { w with storage := { w.storage with toEscrow := e } }
  | .fund caller amount => fund token led w caller amount
  | .approveDelivery caller => approveDelivery led w caller
  | .submitDeliveryMilestone caller => submitDeliveryMilestone led w caller
  | .release caller => release token led w caller
  | .recordMilestone caller milestoneId => recordMilestone led w caller milestoneId
  | .settleEscrow caller => settleEscrow token led w caller
  | .upgrade caller newWasmHash => upgrade led w caller newWasmHash
  | .freezeContributor caller contributor => freezeContributor led w caller contributor
  | .unfreezeContributor caller contributor => unfreezeContributor led w caller contributor
  | .refundAfterExpiry contributor => refundAfterExpiry token led w contributor
  | .refundAllAfterExpiry caller => refundAllAfterExpiry token led w caller
  | .view => pure w

abbrev Invocation (Addr : Type) := Vault.Invocation Addr (Call Addr)

/-- A successful call of this code, with a token that calls nothing back. -/
def callStep (w : World Addr) (inv : Invocation Addr) : Option (World Addr) :=
  if w.storage.wasm.isSome = true then none else Vault.step (dispatch passive) w inv

/-- A contract just initialised, holding no USDC. -/
def Initialized (w : World Addr) : Prop :=
  ∃ admin farmer platform usdcToken dealValue milestoneCount investors fundingDeadline e now,
    initializeContract none admin farmer platform usdcToken dealValue milestoneCount investors
      fundingDeadline = .ok e ∧
    w = .fresh w.contract ⟨e, none, []⟩ now

abbrev CallStep (Addr : Type) [LinearOrder Addr] := Step (World Addr) (Invocation Addr)

/-- The successful calls `xs`, made one after the other from `w₀`, lead to `w`. -/
abbrev CallRun (w₀ : World Addr) (xs : List (CallStep Addr)) (w : World Addr) : Prop :=
  Run callStep w₀ xs w

/-- Reached from initialisation by successful calls. -/
def Reachable (w : World Addr) : Prop := ∃ w₀, Initialized w₀ ∧ Reaches callStep w₀ w

/-! ## A sample escrow -/

/-- A ledger on which everybody signed and holds USDC. -/
def sampleLedger (timestamp : Nat) : Ledger Nat := ⟨timestamp, fun _ => true, fun _ => 1000000⟩

/-- Admin 0, farmer `farmer`, platform 2, a deal of 1000 with two milestones, expiry at 100. -/
def sampleEscrow (farmer : Nat) : Escrow Nat where
  admin := 0
  farmer := farmer
  platform := 2
  usdcToken := 3
  dealValue := 1000
  totalFunded := 0
  released := false
  operationInProgress := false
  deliveryApproved := false
  milestonesCount := 2
  milestonesCompleted := 0
  fundingDeadline := 100
  investors := HostMap.set .empty 10 0
  milestoneData := .empty
  refunded := .empty
  frozenContributors := .empty

/-- The sample escrow, deployed at address 99. -/
def sampleWorld (farmer : Nat) : World Nat := .fresh 99 ⟨sampleEscrow farmer, none, []⟩ 0

theorem sampleWorld_initialized (farmer : Nat) : Initialized (sampleWorld farmer) :=
  ⟨0, farmer, 2, 3, 1000, 2, [10], 100, _, 0, rfl, rfl⟩

/-- Calls made on the sample escrow from its start, at the given times. -/
def sampleRun (farmer : Nat) (calls : List (Nat × Call Nat)) :
    List (CallStep Nat) × World Nat :=
  replay callStep (sampleWorld farmer) (calls.map fun c => ⟨sampleLedger c.1, c.2⟩)

theorem sampleRun_run (farmer : Nat) (calls : List (Nat × Call Nat)) :
    CallRun (sampleWorld farmer) (sampleRun farmer calls).1 (sampleRun farmer calls).2 :=
  run_replay _ _ _

theorem sampleRun_reachable (farmer : Nat) (calls : List (Nat × Call Nat)) :
    Reachable (sampleRun farmer calls).2 :=
  ⟨_, sampleWorld_initialized farmer, (sampleRun_run farmer calls).reaches⟩

end AgriFi.EscrowContract
