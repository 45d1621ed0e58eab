import AgriFi.Binary64
import Mathlib.Data.List.Sort

/-
  `calculateMultilateralNetting` (`src/settlement/netting.service.ts`). The amount of an obligation
  is a `decimal(18, 2)` column, a number of cents; `Number(ob.amountUsd)` is the double that stands
  for it, and from there on every sum, difference and product is one of doubles. `partyPositions`
  is the list of its values in the order in which the parties were first seen. The ids of the
  transfers, made from the clock, are left out.
-/

namespace AgriFi.Netting

open AgriFi.Binary64

inductive ObligationStatus where
  | pending
  | includedInCycle
  | netted
  | settled
  | excluded
  deriving DecidableEq, Repr

/-- The row, as far as the service reads it; `amountUsd` in cents. -/
structure NettingObligation (Party : Type) where
  id : Nat
  payerId : Party
  payerName : String
  payeeId : Party
  payeeName : String
  amountUsd : Int
  status : ObligationStatus
  cycleId : Option Nat
  dueDate : Int
  settlementTxHash : Option String
  deriving DecidableEq, Repr

inductive PositionStatus where
  | netCreditor
  | netDebtor
  | neutral
  deriving DecidableEq, Repr

structure NetPartyPosition (Party : Type) where
  partyId : Party
  partyName : String
  grossPayableUsd : Rat
  grossReceivableUsd : Rat
  netBalanceUsd : Rat
  status : PositionStatus
  counterpartyRiskScore : Nat
  creditLimitUsd : Rat
  limitBreached : Bool
  deriving DecidableEq

inductive TransferStatus where
  | pending
  | settled
  deriving DecidableEq, Repr

structure NettedTransfer (Party : Type) where
  fromPartyId : Party
  fromPartyName : String
  toPartyId : Party
  toPartyName : String
  amountUsd : Rat
  status : TransferStatus
  txHash : Option String
  deriving DecidableEq

structure MultilateralNettingResult (Party : Type) where
  grossObligationCount : Nat
  grossTotalVolumeUsd : Rat
  netSettlementCount : Nat
  netTotalVolumeUsd : Rat
  transactionCountReductionPct : Rat
  volumeReductionPct : Rat
  estimatedFeeSavingsUsd : Rat
  partyPositions : List (NetPartyPosition Party)
  netTransfers : List (NettedTransfer Party)
  isBalanced : Bool
  deriving DecidableEq

def DEFAULT_CREDIT_LIMIT_USD : Rat := 250000

def ESTIMATED_FEE_PER_TX_USD : Rat := 25

variable {Party : Type} [DecidableEq Party]

/-- `Number(ob.amountUsd)`. -/
def NettingObligation.amount (ob : NettingObligation Party) : Rat := cents ob.amountUsd

/-! ## Step 1: what each party has to pay and to get -/

def NetPartyPosition.opened (partyId : Party) (partyName : String) : NetPartyPosition Party where
  partyId
  partyName
  grossPayableUsd := 0
  grossReceivableUsd := 0
  netBalanceUsd := 0
  status := .neutral
  counterpartyRiskScore := 25
  creditLimitUsd := DEFAULT_CREDIT_LIMIT_USD
  limitBreached := false

/-- `partyPositions[partyId]` is changed by `f`, after it was opened if it was not there. -/
def upsert (partyId : Party) (partyName : String)
    (f : NetPartyPosition Party → NetPartyPosition Party)
    (positions : List (NetPartyPosition Party)) : List (NetPartyPosition Party) :=
  let opened :=
    if partyId ∈ positions.map NetPartyPosition.partyId then positions
    else positions ++ [.opened partyId partyName]
  opened.map fun pos => if pos.partyId = partyId then f pos else pos

def NetPartyPosition.addPayable (amount : Rat) (pos : NetPartyPosition Party) :
    NetPartyPosition Party :=
  { pos with grossPayableUsd := add pos.grossPayableUsd amount }

def NetPartyPosition.addReceivable (amount : Rat) (pos : NetPartyPosition Party) :
    NetPartyPosition Party :=
  { pos with grossReceivableUsd := add pos.grossReceivableUsd amount }

def accumulate (positions : List (NetPartyPosition Party)) (ob : NettingObligation Party) :
    List (NetPartyPosition Party) :=
  upsert ob.payeeId ob.payeeName (.addReceivable ob.amount)
    (upsert ob.payerId ob.payerName (.addPayable ob.amount) positions)

/-! ## Step 2: net balances -/

/-- `0.005`. -/
def halfCent : Rat := toDouble (5 / 1000)

/-- A pass of the second loop, over one position. -/
def NetPartyPosition.net (pos : NetPartyPosition Party) : NetPartyPosition Party :=
  let grossPayableUsd := roundCents pos.grossPayableUsd
  let grossReceivableUsd := roundCents pos.grossReceivableUsd
  let netBalanceUsd := roundCents (sub grossReceivableUsd grossPayableUsd)
  { pos with
    grossPayableUsd
    grossReceivableUsd
    netBalanceUsd
    limitBreached := pos.creditLimitUsd < |netBalanceUsd|
    status :=
      if halfCent < netBalanceUsd then .netCreditor
      else if netBalanceUsd < -halfCent then .netDebtor
      else .neutral }

structure Creditor (Party : Type) where
  partyId : Party
  partyName : String
  remainingCredit : Rat
  deriving DecidableEq

structure Debtor (Party : Type) where
  partyId : Party
  partyName : String
  remainingDebt : Rat
  deriving DecidableEq

def creditorsOf (positions : List (NetPartyPosition Party)) : List (Creditor Party) :=
  (positions.filter (·.status = .netCreditor)).map fun pos =>
    ⟨pos.partyId, pos.partyName, pos.netBalanceUsd⟩

def debtorsOf (positions : List (NetPartyPosition Party)) : List (Debtor Party) :=
  (positions.filter (·.status = .netDebtor)).map fun pos =>
    ⟨pos.partyId, pos.partyName, |pos.netBalanceUsd|⟩

/-! ## Step 3: matching -/

/-- What the loop works on: the creditors from `cIndex` on and the debtors from `dIndex` on. -/
structure Matching (Party : Type) where
  creditors : List (Creditor Party)
  debtors : List (Debtor Party)
  netTransfers : List (NettedTransfer Party)
  netTotalVolumeUsd : Rat
  deriving DecidableEq

/-- One pass of the loop; `none` when its condition does not hold. -/
def matchOnce (s : Matching Party) : Option (Matching Party) :=
  match s.creditors, s.debtors with
  | creditor :: cs, debtor :: ds =>
    let settlementAmount := min creditor.remainingCredit debtor.remainingDebt
    let roundedAmount := roundCents settlementAmount
    let remainingCredit := roundCents (sub creditor.remainingCredit settlementAmount)
    let remainingDebt := roundCents (sub debtor.remainingDebt settlementAmount)
    some {
      creditors :=
        if remainingCredit ≤ halfCent then cs else { creditor with remainingCredit } :: cs
      debtors := if remainingDebt ≤ halfCent then ds else { debtor with remainingDebt } :: ds
      netTransfers :=
        if 0 < roundedAmount then
          s.netTransfers ++ [⟨debtor.partyId, debtor.partyName, creditor.partyId,
            creditor.partyName, roundedAmount, .pending, none⟩]
        else s.netTransfers
      netTotalVolumeUsd :=
        if 0 < roundedAmount then add s.netTotalVolumeUsd roundedAmount
        else s.netTotalVolumeUsd }
  | _, _ => none

/-- The loop, for no more passes than `fuel`. -/
def matchAll (s : Matching Party) : (fuel : Nat) → Matching Party
  | 0 => s
  | fuel + 1 =>
    match matchOnce s with
    | none => s
    | some s' => matchAll s' fuel

/-- A number of passes that is enough, see `matchAll_ends`. -/
def Matching.passes (s : Matching Party) : Nat := s.creditors.length + s.debtors.length

/-! ## The function -/

def positionsOf (obligations : List (NettingObligation Party)) : List (NetPartyPosition Party) :=
  (obligations.foldl accumulate []).map NetPartyPosition.net

/-- The loop's start: both sides sorted by what remains, the largest first. -/
def startOf (positions : List (NetPartyPosition Party)) : Matching Party where
  creditors := (creditorsOf positions).insertionSort
    fun a b => sub b.remainingCredit a.remainingCredit ≤ 0
  debtors := (debtorsOf positions).insertionSort
    fun a b => sub b.remainingDebt a.remainingDebt ≤ 0
  netTransfers := []
  netTotalVolumeUsd := 0

/-- The state in which the loop ends. -/
def matchingOf (obligations : List (NettingObligation Party)) : Matching Party :=
  matchAll (startOf (positionsOf obligations)) (startOf (positionsOf obligations)).passes

/-- `Math.round(part / whole * 1000) / 10`. -/
def percentage (part whole : Rat) : Rat :=
  div (mathRound (mul (div part whole) 1000)) 10

def calculateMultilateralNetting (obligations : List (NettingObligation Party)) :
    MultilateralNettingResult Party :=
  let partyPositions := positionsOf obligations
  let grossTotalVolumeUsd := sum (obligations.map NettingObligation.amount)
  let netSumCheck := sum (partyPositions.map NetPartyPosition.netBalanceUsd)
  let matching := matchingOf obligations
  let grossObligationCount := obligations.length
  let netSettlementCount := matching.netTransfers.length
  let eliminatedTxs := max ((grossObligationCount : Rat) - netSettlementCount) 0
  let savedVolumeUsd := sub grossTotalVolumeUsd matching.netTotalVolumeUsd
  { grossObligationCount
    grossTotalVolumeUsd := roundCents grossTotalVolumeUsd
    netSettlementCount
    netTotalVolumeUsd := roundCents matching.netTotalVolumeUsd
    transactionCountReductionPct :=
      if 0 < grossObligationCount then
        percentage ((grossObligationCount : Rat) - netSettlementCount) grossObligationCount
      else 0
    volumeReductionPct :=
      if 0 < grossTotalVolumeUsd then percentage savedVolumeUsd grossTotalVolumeUsd else 0
    estimatedFeeSavingsUsd :=
      roundCents (add (mul eliminatedTxs ESTIMATED_FEE_PER_TX_USD)
        (mul savedVolumeUsd (toDouble (15 / 10000))))
    partyPositions
    netTransfers := matching.netTransfers
    isBalanced := |netSumCheck| < toDouble (5 / 100) }

end AgriFi.Netting
