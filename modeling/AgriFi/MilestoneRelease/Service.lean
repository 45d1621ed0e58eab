import AgriFi.Runs
import AgriFi.DealDelivered.Workers

/-
  `MilestonePartialReleaseService` (`src/escrow/milestone-partial-release.service.ts`) for one deal:
  `onMilestoneRecorded`, called any number of times and with one step for each repository call, and
  `calculateFinalSettlementAmount`. The table has a unique index on deal and milestone type
  (`src/escrow/entities/milestone-release-record.entity.ts`). Percentages and amounts are rationals.
-/

namespace AgriFi.MilestoneRelease

open AgriFi.Runs
open AgriFi.DealDelivered (Outcome)

inductive MilestoneType where
  | farm
  | warehouse
  | port
  | importer
  deriving DecidableEq, Repr

structure MilestoneReleaseRecord where
  milestoneType : MilestoneType
  releasePct : Rat
  farmerAmountUsd : Rat
  deriving DecidableEq, Repr

/-- `ESCROW_CAP`. -/
def escrowCap : Rat := 98

/-- `releasePct` per cent of the 98% pool. -/
def releasedAmount (totalValue releasePct : Rat) : Rat :=
  totalValue * (escrowCap / 100) * (releasePct / 100)

def cumulativeReleasedPct (records : List MilestoneReleaseRecord) : Rat :=
  (records.map MilestoneReleaseRecord.releasePct).sum

def calculateFinalSettlementAmount (totalValue : Rat) (records : List MilestoneReleaseRecord) :
    Rat :=
  let remainingPct := escrowCap - cumulativeReleasedPct records
  totalValue * (escrowCap / 100) * (remainingPct / 100)

/-! ## Calls -/

inductive Ending where
  | saved
  | skipped
  | failed
  deriving DecidableEq, Repr

/-- The repository call that a call of `onMilestoneRecorded` is about to make, with what it has
    read so far. -/
inductive Pc where
  | findDeal
  | findExisting (milestoneReleasePct : Rat)
  | findPrevious (milestoneReleasePct : Rat)
  | save (previousReleases : List MilestoneReleaseRecord) (releaseRecord : MilestoneReleaseRecord)
  | finished (ending : Ending)
  deriving DecidableEq, Repr

structure Call where
  milestoneType : MilestoneType
  pc : Pc
  deriving DecidableEq, Repr

/-- The deal's `milestoneReleasePct` and its release records. -/
structure Shared where
  milestoneReleasePct : Rat
  records : List MilestoneReleaseRecord
  deriving DecidableEq, Repr

def Shared.released (s : Shared) (milestoneType : MilestoneType) : Bool :=
  s.records.any fun r => r.milestoneType = milestoneType

def stepFindDeal (s : Shared) : Pc :=
  if s.milestoneReleasePct = 0 then .finished .skipped else .findExisting s.milestoneReleasePct

def stepFindExisting (s : Shared) (milestoneType : MilestoneType) (pct : Rat) : Pc :=
  if s.released milestoneType then .finished .skipped else .findPrevious pct

def stepFindPrevious (totalValue : Rat) (s : Shared) (milestoneType : MilestoneType) (pct : Rat) :
    Pc :=
  if cumulativeReleasedPct s.records + pct > escrowCap then .finished .skipped
  else .save s.records ⟨milestoneType, pct, releasedAmount totalValue pct⟩

/-- The insert fails when the unique index has the milestone already. -/
def stepSave (s : Shared) (releaseRecord : MilestoneReleaseRecord) : Outcome → Shared × Pc
  | .ok =>
    if s.released releaseRecord.milestoneType then (s, .finished .failed)
    else ({ s with records := s.records ++ [releaseRecord] }, .finished .saved)
  | .fail => (s, .finished .failed)
  | .lost =>
    if s.released releaseRecord.milestoneType then (s, .finished .failed)
    else ({ s with records := s.records ++ [releaseRecord] }, .finished .failed)

/-- A repository call that throws ends the call; `save` can take effect all the same. -/
def stepCall (totalValue : Rat) (s : Shared) (call : Call) (o : Outcome) : Option (Shared × Pc) :=
  match call.pc with
  | .finished _ => none
  | .save _ releaseRecord => some (stepSave s releaseRecord o)
  | .findDeal => some (s, if o = .ok then stepFindDeal s else .finished .failed)
  | .findExisting pct =>
    some (s, if o = .ok then stepFindExisting s call.milestoneType pct else .finished .failed)
  | .findPrevious pct =>
    some (s, if o = .ok then stepFindPrevious totalValue s call.milestoneType pct
      else .finished .failed)

/-! ## The system -/

structure System where
  shared : Shared
  calls : List Call
  deriving DecidableEq, Repr

inductive Action where
  /-- The deal's `milestoneReleasePct` is changed. -/
  | configure (milestoneReleasePct : Rat)
  | onMilestoneRecorded (milestoneType : MilestoneType)
  | run (w : Nat) (o : Outcome)
  deriving DecidableEq, Repr

def next (totalValue : Rat) (s : System) : Action → Option System
  | .configure pct => some { s with shared := { s.shared with milestoneReleasePct := pct } }
  | .onMilestoneRecorded milestoneType =>
    some { s with calls := s.calls ++ [⟨milestoneType, .findDeal⟩] }
  | .run w o => do
    let call ← s.calls[w]?
    let (shared, pc) ← stepCall totalValue s.shared call o
    some ⟨shared, s.calls.set w { call with pc }⟩

/-- A deal with no milestone released. -/
def start (milestoneReleasePct : Rat) : System := ⟨⟨milestoneReleasePct, []⟩, []⟩

abbrev ReleaseRun (totalValue milestoneReleasePct : Rat) (xs : List (Step System Action))
    (s : System) : Prop :=
  Run (next totalValue) (start milestoneReleasePct) xs s

end AgriFi.MilestoneRelease
