import Mathlib.Data.Rat.Floor
import Mathlib.Algebra.BigOperators.Group.List.Basic
import AgriFi.Soroban.Checked

/-
  The release of a deal's escrow on Stellar (`src/stellar/stellar.service.ts`, `releaseEscrow` with
  `submitWithFeeBumpRetry`, and `calculateReleasePlan`). The investors are paid in batches, one
  transaction each; `distributedToInvestors` runs through all of them, and what the last investor
  gets is the pool less that. A transaction refused with `tx_insufficient_fee` is built again at a
  higher fee by the same closure, which adds its batch to `distributedToInvestors` once more.
  Amounts are rationals, in stroops.
-/

namespace AgriFi.Stellar

open AgriFi.Soroban (failIf)

def batchSize : Nat := 98
def baseFee : Nat := 100
def maxAttempts : Nat := 4

inductive ReleaseError where
  | invalidTotalValue
  | invalidDistribution
  | releaseFailed (batchIdx : Nat)
  deriving DecidableEq, Repr

structure InvestorShare (Addr : Type) where
  walletAddress : Addr
  tokenAmount : Rat

/-- What `calculateReleasePlan` returns. -/
structure ReleasePlan where
  totalStroops : Rat
  platformStroops : Int
  investorPoolStroops : Rat
  totalTokens : Rat

/-- An operation of the release, with its amount in stroops. -/
inductive Operation (Addr : Type) where
  | payment (destination : Addr) (amount : Int)
  | createClaimableBalance (claimant : Addr) (amount : Int)
  deriving DecidableEq, Repr

def Operation.recipient {Addr : Type} : Operation Addr → Addr
  | .payment destination _ => destination
  | .createClaimableBalance claimant _ => claimant

def Operation.amount {Addr : Type} : Operation Addr → Int
  | .payment _ amount => amount
  | .createClaimableBalance _ amount => amount

structure Transaction (Addr : Type) where
  fee : Nat
  operations : List (Operation Addr)
  deriving DecidableEq, Repr

/-- The arguments of `releaseEscrow`, and what it finds out before the first batch: which
    investors hold a USDC trustline, and `STELLAR_MAX_FEE`. -/
structure ReleaseRequest (Addr : Type) where
  investorShares : List (InvestorShare Addr)
  platformWallet : Addr
  totalValue : Rat
  hasUsdcTrustline : Nat → Bool
  maxFee : Nat

variable {Addr σ τ : Type}

def calculateReleasePlan (totalValue : Rat) (investorShares : List (InvestorShare Addr)) :
    Except ReleaseError ReleasePlan := do
  let totalStroops := totalValue * 10000000
  failIf (totalStroops ≤ 0) .invalidTotalValue
  let platformStroops := ⌊totalStroops * (2 / 100)⌋
  let investorPoolStroops := totalStroops - platformStroops
  let totalTokens := (investorShares.map InvestorShare.tokenAmount).sum
  failIf (totalTokens ≤ 0) .invalidDistribution
  pure { totalStroops, platformStroops, investorPoolStroops, totalTokens }

/-- The stroops that `new BigNumber(stroops).dividedBy(1e7).toFixed(7)` writes: halves go away
    from zero. -/
def toFixed7 (stroops : Rat) : Int :=
  if 0 ≤ stroops then ⌊stroops + 1 / 2⌋ else -⌊-stroops + 1 / 2⌋

def shareStroops (plan : ReleasePlan) (share : InvestorShare Addr) : Int :=
  ⌊share.tokenAmount / plan.totalTokens * plan.investorPoolStroops⌋

/-- The operation that pays `stroops` to the investor at `globalIdx`, if there is one. -/
def shareOperation (q : ReleaseRequest Addr) (globalIdx : Nat) (share : InvestorShare Addr)
    (stroops : Rat) : List (Operation Addr) :=
  let shareAmount := toFixed7 stroops
  if shareAmount > 0 then
    if q.hasUsdcTrustline globalIdx = true then [.payment share.walletAddress shareAmount]
    else [.createClaimableBalance share.walletAddress shareAmount]
  else []

/-- The loop over a batch; `distributedToInvestors` goes in and comes out. -/
def addShares (q : ReleaseRequest Addr) (plan : ReleasePlan) :
    Nat → List (InvestorShare Addr) → Rat → List (Operation Addr) × Rat
  | _, [], distributedToInvestors => ([], distributedToInvestors)
  | globalIdx, share :: batch, distributedToInvestors =>
    let stroops : Rat :=
      if globalIdx = q.investorShares.length - 1 then
        plan.investorPoolStroops - distributedToInvestors
      else shareStroops plan share
    let rest := addShares q plan (globalIdx + 1) batch (distributedToInvestors + stroops)
    (shareOperation q globalIdx share stroops ++ rest.1, rest.2)

def ReleaseRequest.batchCount (q : ReleaseRequest Addr) : Nat :=
  max 1 ((q.investorShares.length + (batchSize - 1)) / batchSize)

/-- `investorShares.slice(batchStart, batchStart + BATCH_SIZE)`. -/
def ReleaseRequest.batch (q : ReleaseRequest Addr) (batchIdx : Nat) : List (InvestorShare Addr) :=
  (q.investorShares.drop (batchIdx * batchSize)).take batchSize

/-- The closure that builds the transaction of a batch at a given fee. -/
def buildTx (q : ReleaseRequest Addr) (plan : ReleasePlan) (batchIdx fee : Nat)
    (distributedToInvestors : Rat) : Transaction Addr × Rat :=
  let shares := addShares q plan (batchIdx * batchSize) (q.batch batchIdx) distributedToInvestors
  let platform : List (Operation Addr) :=
    if batchIdx = q.batchCount - 1 then [.payment q.platformWallet plan.platformStroops] else []
  (⟨fee, shares.1 ++ platform⟩, shares.2)

/-- Builds and submits until the network, which answers `tx_insufficient_fee` to the next
    `rejections` transactions, accepts one; `attempts` are left. The closure `build` keeps its
    state over the attempts. -/
def submitWithFeeBumpRetry (build : Nat → σ → τ × σ) (maxFee : Nat) :
    Nat → Nat → Nat → σ → Option (τ × σ)
  | 0, _, _, _ => none
  | _ + 1, 0, fee, s => some (build fee s)
  | attempts + 1, rejections + 1, fee, s =>
    if fee < maxFee then
      submitWithFeeBumpRetry build maxFee attempts rejections (min (fee * 2) maxFee) (build fee s).2
    else none

/-- The loop over the batches from `batchIdx` on; the result lists the accepted transactions. -/
def releaseBatches (q : ReleaseRequest Addr) (plan : ReleasePlan) (rejections : Nat → Nat) :
    Nat → Nat → Rat → Except ReleaseError (List (Transaction Addr))
  | 0, _, _ => pure []
  | remaining + 1, batchIdx, distributedToInvestors =>
    match submitWithFeeBumpRetry (buildTx q plan batchIdx) q.maxFee maxAttempts
      (rejections batchIdx) baseFee distributedToInvestors with
    | none => .error (.releaseFailed batchIdx)
    | some (tx, distributedToInvestors) => do
      let txs ← releaseBatches q plan rejections remaining (batchIdx + 1) distributedToInvestors
      pure (tx :: txs)

/-- `releaseEscrow` when the network refuses the transaction of batch `b` for its fee
    `rejections b` times and then accepts it. -/
def releaseEscrow (q : ReleaseRequest Addr) (rejections : Nat → Nat) :
    Except ReleaseError (List (Transaction Addr)) := do
  let plan ← calculateReleasePlan q.totalValue q.investorShares
  releaseBatches q plan rejections q.batchCount 0 0

end AgriFi.Stellar
