import AgriFi.Prorata
import AgriFi.Stellar.EscrowRelease

/-
  What the database records of a release (`src/escrow/escrow.service.ts`): the split of a deal's
  `totalValue` into cents (`splitTotalValue`, `allocateProportionalAmounts`), the farmers' payouts
  (`distributePayment`, with `computeFarmerPayoutSplits` of `src/escrow/payout-split.ts`), and the
  transaction of `processDealDelivered` around them. Amounts are rationals, in USD. The lease of
  `processDealDelivered`, its metrics and its notifications are left out here.
-/

namespace AgriFi.EscrowService

open AgriFi.Soroban (failIf okOr)
open AgriFi.Stellar

/-! ## Cents -/

/-- `Math.round`: halves go up. -/
def mathRound (x : Rat) : Int := ⌊x + 1 / 2⌋

/-- `Number.EPSILON`. -/
def epsilon : Rat := 1 / 2 ^ 52

def toCents (value : Rat) : Int := mathRound ((value + epsilon) * 100)

def fromCents (cents : Int) : Rat := cents / 100

/-- The platform's part and the pool. -/
def splitTotalValue (totalValue : Rat) : Rat × Rat :=
  let totalCents := toCents totalValue
  let platformCents := mathRound (totalCents * (2 / 100))
  let investorPoolCents := totalCents - platformCents
  (fromCents platformCents, fromCents investorPoolCents)

inductive PayoutError where
  | dealNotFound
  | farmerWalletMissing
  | investorWalletMissing
  | noPositiveWeights
  | release (e : ReleaseError)
  | database
  deriving DecidableEq, Repr

/-- The loop of both splits: every weight but the last gets its part rounded down, the last one
    what is left. -/
def allocateCents (totalCents : Int) (totalWeight : Rat) : Int → List Rat → List Int
  | _, [] => []
  | allocatedCents, [_] => [totalCents - allocatedCents]
  | allocatedCents, weight :: next :: weights =>
    let shareCents := ⌊totalCents * weight / totalWeight⌋
    shareCents :: allocateCents totalCents totalWeight (allocatedCents + shareCents)
      (next :: weights)

def allocateProportionalAmounts (totalValue : Rat) (weights : List Rat) :
    Except PayoutError (List Rat) := do
  if weights = [] then pure [] else
    failIf (weights.sum ≤ 0) .noPositiveWeights
    pure ((allocateCents (toCents totalValue) weights.sum 0 weights).map fromCents)

/-! ## Farmers -/

structure PayoutParticipant (Addr Id : Type) where
  farmerId : Id
  walletAddress : Option Addr
  portionPercent : Rat
  deriving Repr

structure FarmerPayout (Addr Id : Type) where
  recipientId : Id
  walletAddress : Option Addr
  amountUsd : Rat
  deriving Repr

variable {Addr Id : Type}

/-- `Math.max(p.portionPercent, 0)`. -/
def PayoutParticipant.weight (p : PayoutParticipant Addr Id) : Rat := max p.portionPercent 0

def computeFarmerPayoutSplits (netPoolUsd : Rat) (participants : List (PayoutParticipant Addr Id)) :
    Except PayoutError (List (FarmerPayout Addr Id)) := do
  if participants.isEmpty then pure [] else
    let weights := participants.map PayoutParticipant.weight
    failIf (weights.sum ≤ 0) .noPositiveWeights
    let cents := allocateCents (toCents netPoolUsd) weights.sum 0 weights
    let rows := (participants.zip cents).map fun row =>
      (⟨row.1.farmerId, row.1.walletAddress, fromCents row.2⟩ : FarmerPayout Addr Id)
    pure (rows.filter fun row => row.amountUsd > 0)

/-! ## The database -/

inductive RecipientType where
  | farmer
  | investor
  | platform
  deriving DecidableEq, Repr

/-- A row of `payment_distributions` of the deal, with status `confirmed`. A Stellar transaction is
    named by its place in what `releaseEscrow` returned. -/
structure PaymentDistribution (Addr Id : Type) where
  recipientType : RecipientType
  recipientId : Option Id
  walletAddress : Option Addr
  amountUsd : Rat
  stellarTxId : Option Nat
  deriving DecidableEq, Repr

/-- The rows of the deal that are committed, and those a query runner has written in a transaction
    that it has not ended. -/
structure Database (Addr Id : Type) where
  committed : List (PaymentDistribution Addr Id)
  transaction : Option (List (PaymentDistribution Addr Id))
  deriving DecidableEq, Repr

/-- The database calls of a payout, each of which can fail. -/
inductive DbCall where
  | findDeal
  | findCoFarmers
  | saveFarmers
  | saveRest
  | updateDeal
  | commit
  deriving DecidableEq, Repr

namespace Database

def startTransaction (db : Database Addr Id) : Database Addr Id :=
  { db with transaction := some [] }

/-- `qr.manager.save`; the column `wallet_address` is `NOT NULL`. -/
def save (db : Database Addr Id) (rows : List (PaymentDistribution Addr Id)) :
    Except PayoutError (Database Addr Id) := do
  failIf (rows.any fun row => row.walletAddress.isNone) .database
  pure { db with transaction := db.transaction.map (· ++ rows) }

def commitTransaction (db : Database Addr Id) : Database Addr Id :=
  ⟨db.committed ++ db.transaction.getD [], none⟩

def rollbackTransaction (db : Database Addr Id) : Database Addr Id :=
  { db with transaction := none }

end Database

/-! ## Payouts -/

structure Deal (Addr Id : Type) where
  delivered : Bool
  totalValue : Rat
  farmerId : Id
  farmerWallet : Option Addr

/-- A confirmed investment. -/
structure Investment (Addr Id : Type) where
  investorId : Id
  walletAddress : Option Addr
  tokenAmount : Rat

/-- An accepted co-farmer. -/
structure DealCoFarmer (Addr Id : Type) where
  farmerId : Id
  walletAddress : Option Addr
  portionPercent : Rat

/-- What a payout reads, and which database calls fail. -/
structure PayoutRequest (Addr Id : Type) where
  deal : Option (Deal Addr Id)
  investments : List (Investment Addr Id)
  coFarmers : List (DealCoFarmer Addr Id)
  platformWallet : Addr
  hasUsdcTrustline : Nat → Bool
  maxFee : Nat
  fails : DbCall → Bool

/-- The lead farmer, with what the portions of the co-farmers leave, and the co-farmers. -/
def payoutParticipants (deal : Deal Addr Id) (coFarmers : List (DealCoFarmer Addr Id)) :
    List (PayoutParticipant Addr Id) :=
  ⟨deal.farmerId, deal.farmerWallet, 100 - (coFarmers.map DealCoFarmer.portionPercent).sum⟩ ::
    coFarmers.map fun cf => ⟨cf.farmerId, cf.walletAddress, cf.portionPercent⟩

def FarmerPayout.row (stellarTxId : Option Nat) (payout : FarmerPayout Addr Id) :
    PaymentDistribution Addr Id :=
  ⟨.farmer, some payout.recipientId, payout.walletAddress, payout.amountUsd, stellarTxId⟩

/-- The `try` block of `distributePayment`. -/
def writeFarmerRows (q : PayoutRequest Addr Id) (stellarTxId : Option Nat)
    (db : Database Addr Id) :
    Except PayoutError (List (PaymentDistribution Addr Id) × Database Addr Id) := do
  failIf (q.fails .findDeal) .database
  let deal ← okOr q.deal .dealNotFound
  failIf deal.farmerWallet.isNone .farmerWalletMissing
  failIf (q.fails .findCoFarmers) .database
  let netPool := (splitTotalValue deal.totalValue).2
  let payouts ← computeFarmerPayoutSplits netPool (payoutParticipants deal q.coFarmers)
  if payouts.isEmpty then pure ([], db) else
    let distributions := payouts.map (FarmerPayout.row stellarTxId)
    failIf (q.fails .saveFarmers) .database
    let db ← db.save distributions
    pure (distributions, db)

/-- `distributePayment`; without a query runner of the caller's it `ownsTransaction`. Its
    `finally` only releases the query runner, which neither commits nor rolls back. -/
def distributePayment (q : PayoutRequest Addr Id) (ownsTransaction : Bool)
    (stellarTxId : Option Nat) (db : Database Addr Id) :
    Except PayoutError (List (PaymentDistribution Addr Id)) × Database Addr Id :=
  let db := if ownsTransaction then db.startTransaction else db
  match writeFarmerRows q stellarTxId db with
  | .ok (rows, db) => (.ok rows, db)
  | .error e => (.error e, if ownsTransaction then db.rollbackTransaction else db)

def Investment.row (stellarTxId : Option Nat) (investment : Investment Addr Id) (amountUsd : Rat) :
    PaymentDistribution Addr Id :=
  ⟨.investor, some investment.investorId, investment.walletAddress, amountUsd, stellarTxId⟩

/-- Phase 3 of `processDealDelivered` up to its commit. -/
def writeDistributions (q : PayoutRequest Addr Id) (deal : Deal Addr Id)
    (stellarTxId : Option Nat) (db : Database Addr Id) :
    Except PayoutError (Database Addr Id) := do
  let split := splitTotalValue deal.totalValue
  let weights := q.investments.map Investment.tokenAmount
  let investorAmounts ← allocateProportionalAmounts split.2 weights
  match distributePayment q false stellarTxId db with
  | (.error e, _) => .error e
  | (.ok _, db) =>
    let investorRows := List.zipWith (Investment.row stellarTxId) q.investments investorAmounts
    let platformRow := ⟨.platform, none, some q.platformWallet, split.1, stellarTxId⟩
    failIf (q.fails .saveRest) .database
    let db ← db.save (investorRows ++ [platformRow])
    failIf (q.fails .updateDeal) .database
    failIf (q.fails .commit) .database
    pure db.commitTransaction

/-- The arguments of `releaseEscrow`, once every investor has a wallet. -/
def PayoutRequest.release (q : PayoutRequest Addr Id) (deal : Deal Addr Id) :
    ReleaseRequest Addr where
  investorShares := q.investments.filterMap fun inv =>
    inv.walletAddress.map fun wallet => ⟨wallet, inv.tokenAmount⟩
  platformWallet := q.platformWallet
  totalValue := deal.totalValue
  hasUsdcTrustline := q.hasUsdcTrustline
  maxFee := q.maxFee

/-- `processDealDelivered`, the network refusing the transaction of batch `b` for its fee
    `rejections b` times. It returns the accepted transactions, or `none` where it skips. -/
def processDealDelivered (q : PayoutRequest Addr Id) (rejections : Nat → Nat)
    (db : Database Addr Id) :
    Except PayoutError (Option (List (Transaction Addr))) × Database Addr Id :=
  match q.deal with
  | none => (.error .dealNotFound, db)
  | some deal =>
    if deal.delivered = false then (.ok none, db)
    else if q.investments.isEmpty then (.ok none, db)
    else if deal.farmerWallet.isNone then (.error .farmerWalletMissing, db)
    else if q.investments.any fun inv => inv.walletAddress.isNone then
      (.error .investorWalletMissing, db)
    else
      match releaseEscrow (q.release deal) rejections with
      | .error e => (.error (.release e), db)
      | .ok txs =>
        -- `stellarTxIds[0]`: the transaction of the first batch
        match writeDistributions q deal (some 0) db.startTransaction with
        | .error e => (.error e, db.rollbackTransaction)
        | .ok db => (.ok (some txs), db)

end AgriFi.EscrowService
