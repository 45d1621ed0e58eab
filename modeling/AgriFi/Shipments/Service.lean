import AgriFi.Investments.Service
import AgriFi.Runs

/-
  The milestones of a shipment (`recordMilestone` of `src/shipments/shipments.service.ts`) for one
  deal. A call is one READ COMMITTED transaction: it reads the deal and the milestones that are
  committed, anchors the next milestone on the ledger, inserts it, and for the last milestone updates
  the deal, which locks its row until the end, and publishes a message outside of the transaction.
  Any of these steps may fail, and then the transaction is rolled back.
-/

namespace AgriFi.Shipments

open AgriFi.Runs
open AgriFi.Investments (TradeDealStatus)

inductive MilestoneType where
  | farm
  | warehouse
  | port
  | importer
  deriving DecidableEq

/-- `MILESTONE_SEQUENCE`. -/
def milestoneSequence : List MilestoneType := [.farm, .warehouse, .port, .importer]

structure TradeDeal where
  status : TradeDealStatus
  traderId : String
  deriving DecidableEq

structure ShipmentMilestone where
  milestone : MilestoneType
  recordedBy : String
  stellarTxId : String
  deriving DecidableEq

/-- What is committed, and the calls that have published `deal.delivered`. -/
structure State where
  deal : TradeDeal
  milestones : List ShipmentMilestone
  published : List Nat
  deriving DecidableEq

inductive Error where
  | dealNotFunded
  | notAssignedTrader
  | allMilestonesRecorded
  | expected (milestone : MilestoneType)
  /-- A step has failed. -/
  | failed
  deriving DecidableEq

/-! ## A call -/

structure Call where
  userId : String
  milestone : MilestoneType
  deriving DecidableEq

/-- The next step of a call. -/
inductive Pc where
  | findDeal (call : Call)
  | findMilestones (call : Call)
  | recordMemo (call : Call)
  | save (call : Call) (stellarTxId : String)
  | updateDeal (row : ShipmentMilestone)
  | enqueueDealDelivered (row : ShipmentMilestone)
  | commit (row : ShipmentMilestone)
  | committed (row : ShipmentMilestone)
  | rolledBack (error : Error)
  deriving DecidableEq

/-- How a step goes. -/
structure Answer where
  fails : Bool
  stellarTxId : String
  /-- The message reaches the broker. -/
  published : Bool

def Pc.findDealThen (call : Call) (deal : TradeDeal) : Pc :=
  if deal.status ≠ .funded then .rolledBack .dealNotFunded
  else if deal.traderId ≠ call.userId then .rolledBack .notAssignedTrader
  else .findMilestones call

/-- The checks of the sequence. -/
def Pc.findMilestonesThen (call : Call) (existing : List ShipmentMilestone) : Pc :=
  match milestoneSequence[existing.length]? with
  | none => .rolledBack .allMilestonesRecorded
  | some expected =>
    if call.milestone ≠ expected then .rolledBack (.expected expected) else .recordMemo call

/-- What the last milestone of a call does next. -/
def Pc.saveThen (row : ShipmentMilestone) : Pc :=
  if row.milestone = .importer then .updateDeal row else .commit row

def State.commit (s : State) (row : ShipmentMilestone) : State :=
  { s with
    milestones := s.milestones ++ [row]
    deal.status := if row.milestone = .importer then .delivered else s.deal.status }

/-- A step of the call `w`. -/
def step (s : State) (w : Nat) (answer : Answer) : Pc → Option (State × Pc)
  | .enqueueDealDelivered row =>
    -- a message that is out stays out
    let s := if answer.published then { s with published := s.published ++ [w] } else s
    some (s, if answer.fails then .rolledBack .failed else .commit row)
  | .committed _ | .rolledBack _ => none
  | pc =>
    if answer.fails then some (s, .rolledBack .failed)
    else
      match pc with
      | .findDeal call => some (s, .findDealThen call s.deal)
      | .findMilestones call => some (s, .findMilestonesThen call s.milestones)
      | .recordMemo call => some (s, .save call answer.stellarTxId)
      | .save call stellarTxId => some (s, .saveThen ⟨call.milestone, call.userId, stellarTxId⟩)
      | .updateDeal row => some (s, .enqueueDealDelivered row)
      | .commit row => some (s.commit row, .committed row)
      | .enqueueDealDelivered _ | .committed _ | .rolledBack _ => none

/-! ## The system -/

structure System where
  state : State
  threads : List Pc

/-- The call has updated the deal. -/
def Pc.Locks : Pc → Bool
  | .enqueueDealDelivered _ => true
  | .commit row => row.milestone = .importer
  | _ => false

def Pc.Waits : Pc → Bool
  | .updateDeal _ => true
  | _ => false

inductive Event where
  | recordMilestone (call : Call)
  | run (w : Nat) (answer : Answer)

/-- An update of the deal waits until the row is free, or fails. -/
def next (sys : System) : Event → Option System
  | .recordMilestone call => some { sys with threads := sys.threads ++ [.findDeal call] }
  | .run w answer => do
    let pc ← sys.threads[w]?
    if pc.Waits ∧ ¬ answer.fails ∧ sys.threads.any Pc.Locks then none
    else do
      let (state, pc') ← step sys.state w answer pc
      some ⟨state, sys.threads.set w pc'⟩

def start (deal : TradeDeal) : System := ⟨⟨deal, [], []⟩, []⟩

abbrev ShipmentRun (deal : TradeDeal) (xs : List (Step System Event)) (sys : System) : Prop :=
  Run next (start deal) xs sys

end AgriFi.Shipments
