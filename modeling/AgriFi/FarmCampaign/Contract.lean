import AgriFi.Runs
import AgriFi.FarmCampaign.Refund

/-
  The entry points of the contract, the dispatch over them and the run they make. An entry
  point takes the ledger environment and the world and gives the world after the call; a
  failing call gives a fault and leaves the world alone (`callStep`). Code the source repeats
  word for word in two entry points is one definition here: `payTranche` (`release_milestone`
  and the Release arm of `resolve_dispute`), `refundInvestor` (`refund` and
  `refund_by_admin`) and `tallyVerdict` (`finalize_dispute` and `resolve_dispute`).
-/

namespace AgriFi.FarmCampaign

open AgriFi.Soroban AgriFi.Runs

variable {Addr : Type} [LinearOrder Addr]

/-! ## Raise -/

/-- The storage `initialize_internal` writes. -/
def Campaign.initial (config : Config Addr) : Campaign Addr where
  config
  state := {
    status := .open
    totalRaised := 0
    milestonesReleased := 0
    partialReleaseTotalBps := 0
    raiseEnded := false
    totalReleased := 0 }
  investments := .empty
  milestoneReleased := fun _ => false
  distributed := false
  arbitrator := config.arbitrator
  disputeFlag := fun _ => false
  refundableInvestments := .empty
  refunded := .empty
  closeReason := none
  disputeRecord := fun _ => none
  arbitratorPool := none
  votingWindow := none

/-- `initialize_internal`; `storage` is what the instance holds before the call. -/
def initializeInternal (env : Env Addr) (storage : Option (Campaign Addr))
    (admin farmer arbitrator usdcToken : Addr) (fundingTarget maxFunding : Int) (deadline : Nat)
    (terms : CampaignTerms) (metadata : CampaignMetadata) : Result Error (Campaign Addr) := do
  failIf (storage.isSome = true) (.err .alreadyInitialized)
  failIf (fundingTarget ≤ 0 ∨ maxFunding ≤ 0 ∨ maxFunding < fundingTarget) (.err .invalidAmount)
  failIf (deadline ≤ env.timestamp) (.err .deadlinePassed)
  failIf (terms.platformFeeBps > 10000) (.err .invalidBps)
  failIf (terms.partialReleaseCapBps = 0 ∨ terms.partialReleaseCapBps > 10000) (.err .invalidBps)
  pure (Campaign.initial {
    admin, farmer, arbitrator, usdcToken, fundingTarget, deadline
    platformFeeBps := terms.platformFeeBps
    milestoneCount := terms.milestoneCount
    partialReleaseCapBps := terms.partialReleaseCapBps
    projectName := metadata.projectName
    commodity := metadata.commodity
    maxFunding })

/-- `initialize`: `max_funding` defaults to `funding_target`. -/
def initializeContract (env : Env Addr) (storage : Option (Campaign Addr))
    (admin farmer arbitrator usdcToken : Addr) (fundingTarget : Int) (deadline : Nat)
    (terms : CampaignTerms) (metadata : CampaignMetadata) : Result Error (Campaign Addr) :=
  initializeInternal env storage admin farmer arbitrator usdcToken fundingTarget fundingTarget
    deadline terms metadata

def initializeWithMaxFunding (env : Env Addr) (storage : Option (Campaign Addr))
    (admin farmer arbitrator usdcToken : Addr) (fundingTarget maxFunding : Int) (deadline : Nat)
    (terms : CampaignTerms) (metadata : CampaignMetadata) : Result Error (Campaign Addr) :=
  initializeInternal env storage admin farmer arbitrator usdcToken fundingTarget maxFunding
    deadline terms metadata

/-- The check every admin entry point opens with. -/
def requireAdmin (env : Env Addr) (w : World Addr) (admin : Addr) : Result Error Unit := do
  requireAuth env w admin
  failIf (admin ≠ w.campaign.config.admin) (.err .unauthorized)

def setMaxFunding (env : Env Addr) (w : World Addr) (admin : Addr) (maxFunding : Int) :
    Result Error (World Addr) := do
  let c := w.campaign
  requireAdmin env w admin
  failIf (maxFunding ≤ 0 ∨ maxFunding < c.config.fundingTarget) (.err .invalidAmount)
  failIf (c.state.raiseEnded = true ∨ c.state.status ≠ .open) (.err .fundingClosed)
  failIf (env.timestamp > c.config.deadline) (.err .deadlinePassed)
  failIf (c.state.totalRaised > maxFunding) (.err .targetExceeded)
  pure { w with campaign.config.maxFunding := maxFunding }

def invest (env : Env Addr) (w : World Addr) (investor : Addr) (amount : Int) :
    Result Error (World Addr) := do
  let c := w.campaign
  requireAuth env w investor
  failIf (c.state.raiseEnded = true) (.err .fundingClosed)
  failIf (c.state.status = .paused) (.err .paused)
  failIf (c.state.status ≠ .open ∧ c.state.status ≠ .funded) (.err .fundingClosed)
  failIf (amount ≤ 0) (.err .invalidAmount)
  failIf (env.timestamp > c.config.deadline) (.err .deadlinePassed)
  failIf (c.state.totalRaised ≥ c.config.maxFunding) (.err .targetExceeded)
  let remaining ← okOr (checkedSub c.config.maxFunding c.state.totalRaised) (.trap .overflow)
  failIf (amount > remaining) (.err .targetExceeded)
  let nextTotal ← okOr (checkedAdd c.state.totalRaised amount) (.err .invalidAmount)
  let existing := c.investments.getD investor 0
  let nextInvestment ← okOr (checkedAdd existing amount) (.err .invalidAmount)
  let status :=
    if c.state.status = .open ∧ nextTotal ≥ c.config.fundingTarget then .funded
    else c.state.status
  { w with
    campaign.investments := c.investments.set investor nextInvestment
    campaign.state.totalRaised := nextTotal
    campaign.state.status := status }.collect env investor amount

def earlyClose (env : Env Addr) (w : World Addr) (admin : Addr) (closeReason : String) :
    Result Error (World Addr) := do
  let c := w.campaign
  requireAdmin env w admin
  if c.state.raiseEnded = true then pure w
  else do
    failIf (c.state.status ≠ .open ∧ c.state.status ≠ .funded ∧ c.state.status ≠ .paused)
      (.err .fundingClosed)
    let (c, _) ← applyProportionalRefund c c.config.fundingTarget
    pure { w with campaign := { c with closeReason := some closeReason } }

def approve (env : Env Addr) (w : World Addr) (admin : Addr) : Result Error (World Addr) := do
  requireAdmin env w admin
  failIf (w.campaign.state.status ≠ .funded) (.err .notFunded)
  pure { w with campaign.state.status := .active }

/-! ## Payouts -/

def isPartialReleaseAuthorized (caller : Addr) (config : Config Addr) : Prop :=
  caller = config.admin ∨ caller = config.farmer

instance (caller : Addr) (config : Config Addr) :
    Decidable (isPartialReleaseAuthorized caller config) :=
  inferInstanceAs (Decidable (_ ∨ _))

def checkedPartialReleaseAmount (totalRaised : Int) (amountBps capBps releasedBps : Nat) :
    Result Error Int := do
  failIf (amountBps = 0 ∨ amountBps > capBps) (.err .invalidBps)
  let nextTotal ← okOr (checkedAddU 32 releasedBps amountBps) (.err .releaseCapExceeded)
  failIf (nextTotal > capBps) (.err .releaseCapExceeded)
  let product ← okOr (checkedMul totalRaised amountBps) (.err .invalidAmount)
  okOr (checkedDiv product 10000) (.err .invalidAmount)

def partialReleaseMilestone (env : Env Addr) (w : World Addr) (caller : Addr) (amountBps : Nat) :
    Result Error (World Addr) := do
  let c := w.campaign
  requireAuth env w caller
  failIf (¬ isPartialReleaseAuthorized caller c.config) (.err .unauthorized)
  failIf (c.state.status ≠ .active) (.err .notFunded)
  let releaseAmount ← checkedPartialReleaseAmount c.state.totalRaised amountBps
    c.config.partialReleaseCapBps c.state.partialReleaseTotalBps
  failIf (releaseAmount ≤ 0) (.err .invalidAmount)
  let bps ← okOr (checkedAddU 32 c.state.partialReleaseTotalBps amountBps)
    (.err .releaseCapExceeded)
  let totalReleased ← okOr (checkedAdd c.state.totalReleased releaseAmount) (.err .invalidAmount)
  { w with
    campaign.state.partialReleaseTotalBps := bps
    campaign.state.totalReleased := totalReleased }.pay c.config.farmer releaseAmount

/-- `(amount * platform_fee_bps) / 10_000` with plain operators. -/
def platformFee (config : Config Addr) (amount : Int) : Result Error Int := do
  let product ← okOr (checkedMul amount config.platformFeeBps) (.trap .overflow)
  okOr (checkedDiv product 10000) (.trap .overflow)

/-- One milestone's share of the farmer pool. -/
def trancheAmount (config : Config Addr) (totalRaised : Int) : Result Error Int := do
  let fee ← platformFee config totalRaised
  let farmerPool ← okOr (checkedSub totalRaised fee) (.trap .overflow)
  okOr (checkedDiv farmerPool config.milestoneCount) (.trap .overflow)

/-- Marks the milestone released and pays its tranche to the farmer. -/
def payTranche (w : World Addr) (milestoneIndex : Nat) : Result Error (World Addr) := do
  let c := w.campaign
  let tranche ← trancheAmount c.config c.state.totalRaised
  let milestonesReleased ← okOr (checkedAddU 32 c.state.milestonesReleased 1) (.trap .overflow)
  let totalReleased ← okOr (checkedAdd c.state.totalReleased tranche) (.err .invalidAmount)
  let status :=
    if milestonesReleased ≥ c.config.milestoneCount then .delivered else c.state.status
  { w with
    campaign.milestoneReleased := Function.update c.milestoneReleased milestoneIndex true
    campaign.state.milestonesReleased := milestonesReleased
    campaign.state.totalReleased := totalReleased
    campaign.state.status := status }.pay c.config.farmer tranche

def releaseMilestone (env : Env Addr) (w : World Addr) (admin : Addr) (milestoneIndex : Nat) :
    Result Error (World Addr) := do
  let c := w.campaign
  requireAdmin env w admin
  failIf (c.state.status ≠ .active) (.err .notFunded)
  failIf (milestoneIndex ≥ c.config.milestoneCount) (.err .milestoneNotFound)
  failIf (c.milestoneReleased milestoneIndex = true) (.err .milestoneAlreadyDone)
  failIf (c.disputeFlag milestoneIndex = true) (.err .disputeActive)
  payTranche w milestoneIndex

/-- The payout loop of `distribute_revenue`. -/
def payShares (investorPool totalRaised : Int) :
    List (Addr × Int) → World Addr → Result Error (World Addr)
  | [], w => pure w
  | (investor, invested) :: rest, w =>
    if invested > 0 ∧ totalRaised > 0 then do
      let product ← okOr (checkedMul investorPool invested) (.trap .overflow)
      let share ← okOr (checkedDiv product totalRaised) (.trap .overflow)
      if share > 0 then do
        let w ← w.pay investor share
        payShares investorPool totalRaised rest w
      else payShares investorPool totalRaised rest w
    else payShares investorPool totalRaised rest w

def distributeRevenue (env : Env Addr) (w : World Addr) (admin : Addr) (revenueAmount : Int) :
    Result Error (World Addr) := do
  let c := w.campaign
  requireAdmin env w admin
  failIf (c.state.status ≠ .delivered) (.err .notFunded)
  failIf (c.distributed = true) (.err .alreadyDistributed)
  failIf (revenueAmount ≤ 0) (.err .invalidAmount)
  let fee ← platformFee c.config revenueAmount
  let investorPool ← okOr (checkedSub revenueAmount fee) (.trap .overflow)
  let w ← payShares investorPool c.state.totalRaised c.investments.entries
    { w with campaign.distributed := true, campaign.state.status := .completed }
  if fee > 0 then w.pay c.config.admin fee else pure w

/-! ## Refunds, pause, failure -/

/-- Refunds are open: the raise ended, the campaign failed, or the deadline went by. -/
def canRefund (env : Env Addr) (c : Campaign Addr) : Prop :=
  c.state.raiseEnded = true ∨ c.state.status = .failed ∨
    ((c.state.status = .open ∨ c.state.status = .paused) ∧ env.timestamp > c.config.deadline)

instance (env : Env Addr) (c : Campaign Addr) : Decidable (canRefund env c) :=
  inferInstanceAs (Decidable (_ ∨ _))

def refundInvestor (env : Env Addr) (w : World Addr) (investor : Addr) :
    Result Error (World Addr) := do
  failIf (¬ canRefund env w.campaign) (.err .refundNotAllowed)
  let (c, claimed) ← claimRefund w.campaign investor
  match claimed with
  | none => pure w
  | some amount => World.pay { w with campaign := c } investor amount

def refund (env : Env Addr) (w : World Addr) (investor : Addr) : Result Error (World Addr) := do
  requireAuth env w investor
  refundInvestor env w investor

def refundByAdmin (env : Env Addr) (w : World Addr) (admin investor : Addr) :
    Result Error (World Addr) := do
  requireAdmin env w admin
  refundInvestor env w investor

def pause (env : Env Addr) (w : World Addr) (admin : Addr) : Result Error (World Addr) := do
  requireAdmin env w admin
  failIf (w.campaign.state.raiseEnded = true) (.err .fundingClosed)
  pure { w with campaign.state.status := .paused }

def unpause (env : Env Addr) (w : World Addr) (admin : Addr) : Result Error (World Addr) := do
  requireAdmin env w admin
  failIf (w.campaign.state.raiseEnded = true) (.err .fundingClosed)
  pure { w with campaign.state.status := .open }

def markFailed (env : Env Addr) (w : World Addr) (admin : Addr) : Result Error (World Addr) := do
  let c := w.campaign
  requireAdmin env w admin
  if c.state.raiseEnded = true then pure w
  else do
    let (c, _) ← applyProportionalRefund { c with state.status := .failed } c.state.totalReleased
    pure { w with campaign := c }

/-! ## Disputes -/

def configuredVotingWindow (c : Campaign Addr) : Nat := c.votingWindow.getD defaultVotingWindowSecs

def setDisputeVotingWindow (env : Env Addr) (w : World Addr) (admin : Addr) (seconds : Nat) :
    Result Error (World Addr) := do
  requireAdmin env w admin
  failIf (seconds = 0) (.err .invalidAmount)
  pure { w with campaign.votingWindow := some seconds }

/-- The configured roster, or the single arbitrator of `initialize`/`update_arbitrator`. -/
def arbitratorPool (c : Campaign Addr) : List Addr :=
  match c.arbitratorPool with
  | some pool => if pool ≠ [] then pool else [c.arbitrator]
  | none => [c.arbitrator]

def setArbitratorPool (env : Env Addr) (w : World Addr) (admin : Addr) (pool : List Addr) :
    Result Error (World Addr) := do
  let c := w.campaign
  requireAdmin env w admin
  failIf (c.state.raiseEnded = true ∨ c.state.status ≠ .open) (.err .unauthorized)
  failIf (pool = []) (.err .emptyArbitratorPool)
  pure { w with campaign.arbitratorPool := some pool }

/-- Strict majority of the roster. -/
def voteQuorum (c : Campaign Addr) : Nat :=
  let size := (arbitratorPool c).length
  if size = 0 then 1 else size / 2 + 1

def isDisputeParty (c : Campaign Addr) (caller : Addr) : Prop :=
  caller = c.config.admin ∨ caller = c.config.farmer ∨ c.investments.getD caller 0 > 0

instance (c : Campaign Addr) (caller : Addr) : Decidable (isDisputeParty c caller) :=
  inferInstanceAs (Decidable (_ ∨ _))

def loadDispute (c : Campaign Addr) (milestoneIndex : Nat) : Result Error (Dispute Addr) :=
  okOr (c.disputeRecord milestoneIndex) (.err .noDispute)

def Campaign.setRecord (c : Campaign Addr) (milestoneIndex : Nat) (d : Dispute Addr) :
    Campaign Addr :=
  { c with disputeRecord := Function.update c.disputeRecord milestoneIndex (some d) }

def raiseDispute (env : Env Addr) (w : World Addr) (caller : Addr) (milestoneIndex : Nat) :
    Result Error (World Addr) := do
  let c := w.campaign
  requireAuth env w caller
  failIf (¬ isDisputeParty c caller) (.err .unauthorized)
  failIf (c.state.status ≠ .active) (.err .notFunded)
  failIf (milestoneIndex ≥ c.config.milestoneCount) (.err .milestoneNotFound)
  failIf (c.milestoneReleased milestoneIndex = true) (.err .milestoneAlreadyDone)
  failIf (c.disputeFlag milestoneIndex = true) (.err .disputeActive)
  let votingDeadline ← okOr (checkedAddU 64 env.timestamp (configuredVotingWindow c))
    (.err .invalidAmount)
  let dispute : Dispute Addr := {
    milestoneIndex
    raisedBy := caller
    openedAt := env.timestamp
    votingDeadline
    phase := .open
    releaseVotes := 0
    refundVotes := 0
    voters := []
    evidence := []
    verdict := none }
  let c := { c with disputeFlag := Function.update c.disputeFlag milestoneIndex true }
  pure { w with campaign := c.setRecord milestoneIndex dispute }

def submitDisputeEvidence (env : Env Addr) (w : World Addr) (caller : Addr) (milestoneIndex : Nat)
    (uri : String) : Result Error (World Addr) := do
  let c := w.campaign
  requireAuth env w caller
  failIf (¬ isDisputeParty c caller) (.err .unauthorized)
  failIf (uri = "") (.err .invalidEvidence)
  let dispute ← loadDispute c milestoneIndex
  failIf (dispute.phase = .verdict ∨ dispute.phase = .resolved) (.err .disputeDecided)
  failIf (dispute.evidence.length ≥ maxDisputeEvidence) (.err .evidenceLimitReached)
  let entry : Evidence Addr := { submitter := caller, uri, submittedAt := env.timestamp }
  let dispute := { dispute with evidence := dispute.evidence ++ [entry] }
  pure { w with campaign := c.setRecord milestoneIndex dispute }

/-- `votes += 1` on the side that is voted for. -/
def addVote (votedFor : Bool) (votes : Nat) : Result Error Nat :=
  if votedFor = true then okOr (checkedAddU 32 votes 1) (.trap .overflow) else pure votes

/-- A vote added to the record, with the verdict a majority then fixes. -/
def countVote (quorum : Nat) (d : Dispute Addr) (voter : Addr) (release : Bool) :
    Result Error (Dispute Addr) := do
  let releaseVotes ← addVote release d.releaseVotes
  let refundVotes ← addVote (!release) d.refundVotes
  let voters := d.voters ++ [voter]
  let d := { d with voters, releaseVotes, refundVotes, phase := .arbitration }
  pure (
    if releaseVotes ≥ quorum then { d with phase := .verdict, verdict := some true }
    else if refundVotes ≥ quorum then { d with phase := .verdict, verdict := some false }
    else d)

def castDisputeVote (env : Env Addr) (w : World Addr) (voter : Addr) (milestoneIndex : Nat)
    (release : Bool) : Result Error (World Addr) := do
  let c := w.campaign
  requireAuth env w voter
  failIf (voter ∉ arbitratorPool c) (.err .notAnArbitrator)
  let dispute ← loadDispute c milestoneIndex
  failIf (dispute.verdict.isSome = true) (.err .disputeDecided)
  failIf (env.timestamp > dispute.votingDeadline) (.err .votingWindowClosed)
  failIf (voter ∈ dispute.voters) (.err .alreadyVoted)
  let dispute ← countVote (voteQuorum c) dispute voter release
  pure { w with campaign := c.setRecord milestoneIndex dispute }

def outcomeOf (release : Bool) : DisputeOutcome := if release then .release else .refund

/-- The verdict of a window that closed: more release votes than refund votes, else refund. -/
def tallyVerdict (env : Env Addr) (d : Dispute Addr) : Result Error (Dispute Addr × Bool) := do
  failIf (env.timestamp ≤ d.votingDeadline) (.err .votingNotOver)
  let release := decide (d.releaseVotes > d.refundVotes)
  pure ({ d with phase := .verdict, verdict := some release }, release)

/-- The verdict `resolve_dispute` goes by: the recorded one, else the tally. -/
def recordedVerdict (env : Env Addr) (d : Dispute Addr) : Result Error (Dispute Addr × Bool) :=
  match d.verdict with
  | some release => pure (d, release)
  | none => tallyVerdict env d

def finalizeDispute (env : Env Addr) (w : World Addr) (caller : Addr) (milestoneIndex : Nat) :
    Result Error (World Addr × DisputeOutcome) := do
  let c := w.campaign
  requireAuth env w caller
  let dispute ← loadDispute c milestoneIndex
  match dispute.verdict with
  | some decision => pure (w, outcomeOf decision)
  | none => do
    let (dispute, release) ← tallyVerdict env dispute
    pure ({ w with campaign := c.setRecord milestoneIndex dispute }, outcomeOf release)

def resolveDispute (env : Env Addr) (w : World Addr) (caller : Addr) (milestoneIndex : Nat) :
    Result Error (World Addr × DisputeOutcome) := do
  let c := w.campaign
  requireAuth env w caller
  failIf (caller ∉ arbitratorPool c ∧ caller ≠ c.config.admin) (.err .unauthorized)
  let dispute ← loadDispute c milestoneIndex
  let (dispute, release) ← recordedVerdict env dispute
  -- a derived verdict has phase `Verdict`, so nothing was written when this branch is taken
  if dispute.phase = .resolved then pure (w, outcomeOf release)
  else do
    let c := { c with disputeFlag := Function.update c.disputeFlag milestoneIndex false }.setRecord
      milestoneIndex { dispute with phase := .resolved }
    match outcomeOf release with
    | .release => do
      let w ← payTranche { w with campaign := c } milestoneIndex
      pure (w, .release)
    | .refund => do
      let (c, _) ← applyProportionalRefund { c with state.status := .failed } c.state.totalReleased
      pure ({ w with campaign := c }, .refund)

def updateArbitrator (env : Env Addr) (w : World Addr) (admin newArbitrator : Addr) :
    Result Error (World Addr) := do
  let c := w.campaign
  requireAdmin env w admin
  failIf (c.state.raiseEnded = true ∨ c.state.status ≠ .open) (.err .unauthorized)
  pure { w with campaign.arbitrator := newArbitrator }

/-! ## View -/

def getRefundableAmount (c : Campaign Addr) (investor : Addr) : Int :=
  c.refundableInvestments.getD investor 0

/-! ## Calls and runs -/

inductive Call (Addr : Type) where
  | initializeContract (admin farmer arbitrator usdcToken : Addr) (fundingTarget : Int)
      (deadline : Nat) (terms : CampaignTerms) (metadata : CampaignMetadata)
  | initializeWithMaxFunding (admin farmer arbitrator usdcToken : Addr)
      (fundingTarget maxFunding : Int) (deadline : Nat) (terms : CampaignTerms)
      (metadata : CampaignMetadata)
  | setMaxFunding (admin : Addr) (maxFunding : Int)
  | invest (investor : Addr) (amount : Int)
  | earlyClose (admin : Addr) (closeReason : String)
  | approve (admin : Addr)
  | partialReleaseMilestone (caller : Addr) (amountBps : Nat)
  | releaseMilestone (admin : Addr) (milestoneIndex : Nat)
  | distributeRevenue (admin : Addr) (revenueAmount : Int)
  | refund (investor : Addr)
  | refundByAdmin (admin investor : Addr)
  | pause (admin : Addr)
  | unpause (admin : Addr)
  | markFailed (admin : Addr)
  | setDisputeVotingWindow (admin : Addr) (seconds : Nat)
  | setArbitratorPool (admin : Addr) (pool : List Addr)
  | raiseDispute (caller : Addr) (milestoneIndex : Nat)
  | submitDisputeEvidence (caller : Addr) (milestoneIndex : Nat) (uri : String)
  | castDisputeVote (voter : Addr) (milestoneIndex : Nat) (release : Bool)
  | finalizeDispute (caller : Addr) (milestoneIndex : Nat)
  | resolveDispute (caller : Addr) (milestoneIndex : Nat)
  | updateArbitrator (admin newArbitrator : Addr)
  /-- Any of the read-only entry points; none of them writes. -/
  | view

/-- The entry point a call names, on an initialised instance. -/
def dispatch (env : Env Addr) (w : World Addr) : Call Addr → Result Error (World Addr)
  | .initializeContract admin farmer arbitrator usdcToken fundingTarget deadline terms
      metadata => do
    let c ← initializeContract env (some w.campaign) admin farmer arbitrator usdcToken fundingTarget
      deadline terms metadata
    pure { w with campaign := c }
  | .initializeWithMaxFunding admin farmer arbitrator usdcToken fundingTarget maxFunding deadline
      terms metadata => do
    let c ← initializeWithMaxFunding env (some w.campaign) admin farmer arbitrator usdcToken
      fundingTarget maxFunding deadline terms metadata
    pure { w with campaign := c }
  | .setMaxFunding admin maxFunding => setMaxFunding env w admin maxFunding
  | .invest investor amount => invest env w investor amount
  | .earlyClose admin closeReason => earlyClose env w admin closeReason
  | .approve admin => approve env w admin
  | .partialReleaseMilestone caller amountBps => partialReleaseMilestone env w caller amountBps
  | .releaseMilestone admin milestoneIndex => releaseMilestone env w admin milestoneIndex
  | .distributeRevenue admin revenueAmount => distributeRevenue env w admin revenueAmount
  | .refund investor => refund env w investor
  | .refundByAdmin admin investor => refundByAdmin env w admin investor
  | .pause admin => pause env w admin
  | .unpause admin => unpause env w admin
  | .markFailed admin => markFailed env w admin
  | .setDisputeVotingWindow admin seconds => setDisputeVotingWindow env w admin seconds
  | .setArbitratorPool admin pool => setArbitratorPool env w admin pool
  | .raiseDispute caller milestoneIndex => raiseDispute env w caller milestoneIndex
  | .submitDisputeEvidence caller milestoneIndex uri =>
    submitDisputeEvidence env w caller milestoneIndex uri
  | .castDisputeVote voter milestoneIndex release =>
    castDisputeVote env w voter milestoneIndex release
  | .finalizeDispute caller milestoneIndex => do
    let (w, _) ← finalizeDispute env w caller milestoneIndex
    pure w
  | .resolveDispute caller milestoneIndex => do
    let (w, _) ← resolveDispute env w caller milestoneIndex
    pure w
  | .updateArbitrator admin newArbitrator => updateArbitrator env w admin newArbitrator
  | .view => pure w

/-- A call together with the ledger it runs on. -/
structure Invocation (Addr : Type) where
  env : Env Addr
  call : Call Addr

/-- A successful call at a ledger time not before the last one. -/
def callStep (w : World Addr) (inv : Invocation Addr) : Option (World Addr) :=
  if inv.env.timestamp < w.now then none
  else
    match dispatch inv.env (w.enter inv.env) inv.call with
    | .ok w' => some w'
    | .error _ => none

/-- A contract just initialised, holding no USDC. -/
def Initialized (w : World Addr) : Prop :=
  ∃ env admin farmer arbitrator usdcToken fundingTarget maxFunding deadline terms metadata c,
    initializeInternal env none admin farmer arbitrator usdcToken fundingTarget maxFunding deadline
      terms metadata = .ok c ∧
    w = { contract := w.contract, campaign := c, usdc := 0, transfers := [], now := env.timestamp }

abbrev CallStep (Addr : Type) [LinearOrder Addr] := Step (World Addr) (Invocation Addr)

/-- The successful calls `xs`, made one after the other from `w₀`, lead to `w`. -/
abbrev CallRun (w₀ : World Addr) (xs : List (CallStep Addr)) (w : World Addr) : Prop :=
  Run callStep w₀ xs w

/-- Reached from initialisation by successful calls. -/
def Reachable (w : World Addr) : Prop := ∃ w₀, Initialized w₀ ∧ Reaches callStep w₀ w

theorem Initialized.reachable {w : World Addr} (h : Initialized w) : Reachable w := ⟨w, h, .refl w⟩

theorem Reachable.step {w w' : World Addr} {inv : Invocation Addr} (h : Reachable w)
    (hs : callStep w inv = some w') : Reachable w' := by
  obtain ⟨w₀, hinit, hr⟩ := h
  exact ⟨w₀, hinit, hr.trans (reaches_of_next hs)⟩

theorem Reachable.run {w w' : World Addr} {xs : List (CallStep Addr)} (h : Reachable w)
    (hr : CallRun w xs w') : Reachable w' := by
  obtain ⟨w₀, hinit, hr₀⟩ := h
  exact ⟨w₀, hinit, hr₀.trans hr.reaches⟩

/-! ## A sample campaign -/

/-- A ledger on which everybody signed and holds USDC. -/
def sampleEnv (timestamp : Nat) : Env Nat := ⟨timestamp, fun _ => true, fun _ => 1000000⟩

/-- Two milestones, a 2% fee, and one arbitrator, for a raise of 10000 to 15000. -/
def sampleConfig : Config Nat where
  admin := 0
  farmer := 1
  arbitrator := 2
  usdcToken := 3
  fundingTarget := 10000
  deadline := 1000
  platformFeeBps := 200
  milestoneCount := 2
  partialReleaseCapBps := 9800
  projectName := "maize"
  commodity := "maize"
  maxFunding := 15000

def sampleWorld : World Nat where
  contract := 99
  campaign := .initial sampleConfig
  usdc := 0
  transfers := []
  now := 0

theorem sampleWorld_initialized : Initialized sampleWorld :=
  ⟨sampleEnv 0, 0, 1, 2, 3, 10000, 15000, 1000, ⟨200, 2, 9800⟩, ⟨"maize", "maize"⟩, _, rfl, rfl⟩

/-- Calls made from `w` at the given times. -/
def sampleFrom (w : World Nat) (calls : List (Nat × Call Nat)) : List (CallStep Nat) × World Nat :=
  replay callStep w (calls.map fun e => ⟨sampleEnv e.1, e.2⟩)

theorem sampleFrom_run (w : World Nat) (calls : List (Nat × Call Nat)) :
    CallRun w (sampleFrom w calls).1 (sampleFrom w calls).2 :=
  run_replay _ _ _

/-- Calls made on the sample campaign from its start. -/
def sampleRun (calls : List (Nat × Call Nat)) : List (CallStep Nat) × World Nat :=
  sampleFrom sampleWorld calls

theorem sampleRun_run (calls : List (Nat × Call Nat)) :
    CallRun sampleWorld (sampleRun calls).1 (sampleRun calls).2 :=
  sampleFrom_run sampleWorld calls

theorem sampleRun_reachable (calls : List (Nat × Call Nat)) : Reachable (sampleRun calls).2 :=
  sampleWorld_initialized.reachable.run (sampleRun_run calls)

end AgriFi.FarmCampaign
