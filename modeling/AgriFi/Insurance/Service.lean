import AgriFi.Binary64
import AgriFi.Runs

/-
  `src/insurance/insurance.service.ts`: `submitClaim`, `handleProviderWebhook`, `initiatePayout` and
  `completePayout`, for one claim. A thread is a webhook; each of its queries, its request to the
  provider and its Stellar release is a step. Amounts are in cents where a column keeps them, and
  doubles where the code reads them with `Number`.
-/

namespace AgriFi.Insurance

open AgriFi.Binary64 AgriFi.Runs

inductive InsuranceCoverageType where
  | cropFailure
  | shipmentDamage
  | priceFluctuation
  deriving DecidableEq

inductive InsurancePolicyStatus where
  | anchorPending
  | active
  | expired
  deriving DecidableEq

inductive InsuranceClaimStatus where
  | submitted
  | submissionFailed
  | approved
  | rejected
  | payoutPending
  | payoutProcessing
  | paid
  deriving DecidableEq

structure InsurancePolicy where
  coverageType : InsuranceCoverageType
  coverageAmount : Int
  status : InsurancePolicyStatus
  deriving DecidableEq

structure InsuranceClaim where
  eventType : InsuranceCoverageType
  amount : Int
  approvedAmount : Option Int
  providerClaimId : Option String
  providerPayoutId : Option String
  payoutTxHash : Option String
  status : InsuranceClaimStatus
  deriving DecidableEq

/-- `x.toFixed(2)` of a number that is not negative. -/
def toFixed (x : Rat) : Int := mathRound (x * 100)

/-- `Number` of a column that may be `null`. -/
def number (amount : Option Int) : Rat := cents (amount.getD 0)

/-! ## Submission -/

structure CreateInsuranceClaimDto where
  eventType : InsuranceCoverageType
  amount : Rat
  deriving DecidableEq

/-- The claim, and whether it is to be sent to the provider. -/
def submitClaim (policy : InsurancePolicy) (existing : Option InsuranceClaim)
    (dto : CreateInsuranceClaimDto) : Except String (InsuranceClaim × Bool) :=
  if policy.status ≠ .active then .error "Claims require an active anchored policy."
  else if dto.eventType ≠ policy.coverageType then
    .error "Event type is not covered by this policy."
  else if cents policy.coverageAmount < dto.amount then
    .error "Claim amount exceeds policy coverage."
  else match existing with
    | some claim =>
      if claim.eventType ≠ dto.eventType ∨ cents claim.amount ≠ dto.amount then
        .error "This event ID is already associated with a different claim."
      else .ok (claim, claim.status = .submissionFailed)
    | none => .ok ({
        eventType := dto.eventType
        amount := toFixed dto.amount
        approvedAmount := none
        providerClaimId := none
        providerPayoutId := none
        payoutTxHash := none
        status := .submitted }, true)

/-- How sending a claim ends: the id that the provider answers with, if any, and whether the claim
    is saved with it; when not, or without an id, a second save may fail too. -/
structure Delivery where
  claimId : Option String
  saved : Bool
  failureSaved : Bool
  deriving DecidableEq

/-- The row after `sendClaimToProvider`. -/
def sendClaimToProvider (claim : InsuranceClaim) (delivery : Delivery) : InsuranceClaim :=
  let id := delivery.claimId.filter (· ≠ "")
  if id.isSome && delivery.saved then { claim with providerClaimId := id, status := .submitted }
  else if delivery.failureSaved then
    { claim with providerClaimId := id.or claim.providerClaimId, status := .submissionFailed }
  else claim

/-! ## Webhooks -/

inductive WebhookStatus where
  | approved
  | rejected
  | paid
  deriving DecidableEq

structure InsuranceProviderWebhookDto where
  providerClaimId : String
  status : WebhookStatus
  approvedAmount : Option Rat
  payoutId : Option String
  payoutAmount : Option Rat
  deriving DecidableEq

/-- What a webhook does next, with the claim as it has it. -/
inductive Pc where
  | find (dto : InsuranceProviderWebhookDto)
  | saveRejected (claim : InsuranceClaim)
  | saveApproved (claim : InsuranceClaim)
  | initiatePayout (claim : InsuranceClaim)
  | savePending (claim : InsuranceClaim)
  | acquire (claim : InsuranceClaim) (payoutAmount : Rat)
  | release (claim : InsuranceClaim) (payoutAmount : Rat)
  | savePaid (claim : InsuranceClaim)
  | done
  deriving DecidableEq

/-- `completePayout` up to the update that acquires the claim. -/
def completePayout (claim : InsuranceClaim) (dto : InsuranceProviderWebhookDto) :
    Except String Pc :=
  let payoutAmount := dto.payoutAmount.getD (number claim.approvedAmount)
  if claim.status = .paid then .ok .done
  else if claim.status ≠ .payoutPending ∨ claim.providerPayoutId.getD "" = "" then
    .error "Claim has no pending insurer payout."
  else if dto.payoutId ≠ claim.providerPayoutId then
    .error "Provider payout reference does not match."
  else if payoutAmount ≠ number claim.approvedAmount then
    .error "Confirmed payout must match the approved amount."
  else .ok (.acquire claim payoutAmount)

/-- `handleProviderWebhook` from the claim that it finds up to its next query. -/
def handleProviderWebhook (claim : InsuranceClaim) (dto : InsuranceProviderWebhookDto) :
    Except String Pc :=
  if claim.providerClaimId ≠ some dto.providerClaimId then
    .error "Provider claim reference does not match."
  else match dto.status with
    | .rejected =>
      if claim.status = .paid then .error "A paid claim cannot be rejected."
      else .ok (.saveRejected { claim with status := .rejected })
    | .approved =>
      let approvedAmount := dto.approvedAmount.getD (cents claim.amount)
      if claim.status = .payoutPending ∨ claim.status = .paid then .ok .done
      else if claim.status ≠ .submitted ∧ claim.status ≠ .approved then
        .error "Claim cannot be approved in its current state."
      else if cents claim.amount < approvedAmount then
        .error "Approved amount exceeds the submitted claim."
      else .ok (.saveApproved { claim with
        approvedAmount := some (toFixed approvedAmount), status := .approved })
    | .paid => completePayout claim dto

inductive Outcome where
  | ok
  | fail
  /-- It takes effect, and the webhook does not learn that. -/
  | lost
  deriving DecidableEq

/-- What a step finds: how it ends, whether the farmer has a wallet and an escrow is configured, the
    payout id of the provider and the hash of the release. -/
structure Input where
  outcome : Outcome
  hasWallet : Bool
  hasEscrow : Bool
  payoutId : Option String
  hash : String
  deriving DecidableEq

def initiatePayout (claim : InsuranceClaim) (input : Input) : Except String Pc :=
  if input.hasWallet = false then .error "Farmer has no Stellar payout wallet."
  else if input.hasEscrow = false then .error "Insurance payout escrow is not configured."
  else if claim.status = .payoutPending ∧ claim.providerPayoutId.getD "" ≠ "" then .ok .done
  else if input.payoutId.getD "" = "" then .error "Provider omitted payout_id."
  else .ok (.savePending { claim with providerPayoutId := input.payoutId, status := .payoutPending })

/-- The row, and the amounts that were released. -/
structure State where
  claim : InsuranceClaim
  released : List Rat
  deriving DecidableEq

def State.save (s : State) (claim : InsuranceClaim) : State := { s with claim }

/-- An error ends the webhook. -/
def orDone (r : Except String Pc) : Pc :=
  match r with
  | .ok pc => pc
  | .error _ => .done

/-- A step that does not fail. A payout that is not positive is refused before it is sent. -/
def proceed (s : State) (input : Input) : Pc → State × Pc
  | .find dto => (s, orDone (handleProviderWebhook s.claim dto))
  | .saveRejected claim => (s.save claim, .done)
  | .saveApproved claim => (s.save claim, .initiatePayout claim)
  | .initiatePayout claim => (s, orDone (initiatePayout claim input))
  | .savePending claim => (s.save claim, .done)
  | .acquire claim payoutAmount =>
    if input.hasWallet = true ∧ s.claim.status = .payoutPending then
      (s.save { s.claim with status := .payoutProcessing }, .release claim payoutAmount)
    else (s, .done)
  | .release claim payoutAmount =>
    if 0 < payoutAmount then
      ({ s with released := s.released ++ [payoutAmount] },
        .savePaid { claim with payoutTxHash := some input.hash, status := .paid })
    else (s, .done)
  | .savePaid claim => (s.save claim, .done)
  | .done => (s, .done)

def stepPc (s : State) (input : Input) (pc : Pc) : State × Pc :=
  match input.outcome with
  | .ok => proceed s input pc
  | .fail => (s, .done)
  | .lost => ((proceed s input pc).1, .done)

/-! ## Runs -/

structure System where
  state : State
  threads : List Pc
  deriving DecidableEq

inductive Action where
  | receive (dto : InsuranceProviderWebhookDto)
  | run (w : Nat) (input : Input)
  deriving DecidableEq

def start (claim : InsuranceClaim) : System := ⟨⟨claim, []⟩, []⟩

def next (s : System) : Action → Option System
  | .receive dto => some { s with threads := s.threads ++ [.find dto] }
  | .run w input => do
    let pc ← s.threads[w]?
    let (state, pc) := stepPc s.state input pc
    some ⟨state, s.threads.set w pc⟩

/-- A claim as its submission leaves it. -/
def submitted (policy : InsurancePolicy) (dto : CreateInsuranceClaimDto) (delivery : Delivery) :
    Except String InsuranceClaim := do
  let (claim, send) ← submitClaim policy none dto
  .ok (if send then sendClaimToProvider claim delivery else claim)

/-- Webhooks for the claim. -/
abbrev WebhookRun (claim : InsuranceClaim) (xs : List (Step System Action)) (s : System) : Prop :=
  Run next (start claim) xs s

end AgriFi.Insurance
