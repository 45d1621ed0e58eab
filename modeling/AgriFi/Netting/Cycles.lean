import AgriFi.DealDelivered.Workers
import AgriFi.Netting.Multilateral
import AgriFi.Runs

/-
  `createObligation`, `scheduleCycle`, `executeNettingCycle` and `unwindDefaultingCounterparty`
  (`src/settlement/netting.service.ts`) on the tables of obligations and cycles. A call is a thread
  that sends one repository command at a time. An execution reads its cycle and all the pending
  obligations, and saves them as it has read them, with new statuses: first the obligations, in one
  `save`, then the cycle. An unwind saves one obligation after the other. Nothing is locked, and no
  `save` looks at what is in the table by then.
-/

namespace AgriFi.Netting

open AgriFi.Runs
open AgriFi.DealDelivered (Outcome)

inductive NettingCycleStatus where
  | scheduled
  | aggregating
  | netted
  | settling
  | settled
  | failed
  deriving DecidableEq, Repr

structure SettlementMetadata (Party : Type) where
  partyPositions : List (NetPartyPosition Party)
  netTransfers : List (NettedTransfer Party)
  deriving DecidableEq

structure NettingCycle (Party : Type) where
  id : Nat
  cycleNumber : String
  status : NettingCycleStatus
  scheduledAt : Int
  executedAt : Option Int
  settledAt : Option Int
  grossObligationsCount : Nat
  grossTotalAmountUsd : Rat
  netSettlementCount : Nat
  netTotalAmountUsd : Rat
  transactionReductionPct : Rat
  feeSavingsUsd : Rat
  settlementBatchTxHash : Option String
  settlementMetadata : Option (SettlementMetadata Party)
  deriving DecidableEq

structure CreateObligationDto (Party : Type) where
  payerId : Party
  payerName : String
  payeeId : Party
  payeeName : String
  /-- The number as it is written. -/
  amountUsd : Rat
  dueDate : Int

/-- The hash of the cycle's number, the time, the net volume and the number of transfers. -/
abbrev BatchTxHash : Type := String → Int → Rat → Nat → String

variable {Party : Type} [DecidableEq Party]

/-! ## The tables -/

/-- The two tables, and as a history variable each cycle that was settled with the obligations that
    its recorded transfers net. -/
structure State (Party : Type) where
  obligations : List (NettingObligation Party)
  cycles : List (NettingCycle Party)
  netted : List (Nat × List (NettingObligation Party))

/-- The row as `createObligation` inserts it; the column rounds the amount to cents. -/
def CreateObligationDto.row (dto : CreateObligationDto Party) (id : Nat) :
    NettingObligation Party where
  id
  payerId := dto.payerId
  payerName := dto.payerName
  payeeId := dto.payeeId
  payeeName := dto.payeeName
  amountUsd := Decimal.halfUp (dto.amountUsd * 100)
  status := .pending
  cycleId := none
  dueDate := dto.dueDate
  settlementTxHash := none

def NettingCycle.schedule (id : Nat) (cycleNumber : String) (scheduledAt : Int) :
    NettingCycle Party where
  id
  cycleNumber
  status := .scheduled
  scheduledAt
  executedAt := none
  settledAt := none
  grossObligationsCount := 0
  grossTotalAmountUsd := 0
  netSettlementCount := 0
  netTotalAmountUsd := 0
  transactionReductionPct := 0
  feeSavingsUsd := 0
  settlementBatchTxHash := none
  settlementMetadata := none

namespace State

def insert (s : State Party) (dto : CreateObligationDto Party) : State Party :=
  { s with obligations := s.obligations ++ [dto.row s.obligations.length] }

def schedule (s : State Party) (cycleNumber : String) (scheduledAt : Int) : State Party :=
  { s with cycles := s.cycles ++ [.schedule s.cycles.length cycleNumber scheduledAt] }

def getCycle (s : State Party) (cycleId : Nat) : Option (NettingCycle Party) :=
  s.cycles.find? (·.id = cycleId)

def pending (s : State Party) : List (NettingObligation Party) :=
  s.obligations.filter (·.status = .pending)

/-- The obligations of a cycle and the pending ones. -/
def inCycleOrPending (s : State Party) (cycleId : Nat) : List (NettingObligation Party) :=
  s.obligations.filter fun ob => ob.cycleId = some cycleId ∨ ob.status = .pending

/-- `save` writes each column of a row as the caller holds it. -/
def saveObligations (s : State Party) (rows : List (NettingObligation Party)) : State Party :=
  { s with
    obligations := s.obligations.map fun ob => (rows.find? (·.id = ob.id)).getD ob }

def saveCycle (s : State Party) (cycle : NettingCycle Party) : State Party :=
  { s with cycles := s.cycles.map fun c => if c.id = cycle.id then cycle else c }

end State

/-! ## What an execution saves -/

/-- An obligation that is included in a cycle. -/
def NettingObligation.settle (cycle : NettingCycle Party) (hash : String)
    (ob : NettingObligation Party) : NettingObligation Party :=
  { ob with status := .settled, cycleId := some cycle.id, settlementTxHash := some hash }

def NettingObligation.exclude (ob : NettingObligation Party) : NettingObligation Party :=
  { ob with status := .excluded }

def NettedTransfer.settle (hash : String) (t : NettedTransfer Party) : NettedTransfer Party :=
  { t with status := .settled, txHash := some hash }

/-- The cycle when there was nothing pending. -/
def NettingCycle.settleEmpty (now : Int) (cycle : NettingCycle Party) : NettingCycle Party :=
  { cycle with
    status := .settled
    settledAt := some now
    grossObligationsCount := 0
    netSettlementCount := 0 }

def hashOf (batchTxHash : BatchTxHash) (cycle : NettingCycle Party) (executedAt : Int)
    (pending : List (NettingObligation Party)) : String :=
  let nettingResult := calculateMultilateralNetting pending
  batchTxHash cycle.cycleNumber executedAt nettingResult.netTotalVolumeUsd
    nettingResult.netSettlementCount

def NettingCycle.settle (batchTxHash : BatchTxHash) (executedAt : Int)
    (pending : List (NettingObligation Party)) (cycle : NettingCycle Party) :
    NettingCycle Party :=
  let nettingResult := calculateMultilateralNetting pending
  let hash := hashOf batchTxHash cycle executedAt pending
  { cycle with
    status := .settled
    executedAt := some executedAt
    settledAt := some executedAt
    grossObligationsCount := nettingResult.grossObligationCount
    grossTotalAmountUsd := nettingResult.grossTotalVolumeUsd
    netSettlementCount := nettingResult.netSettlementCount
    netTotalAmountUsd := nettingResult.netTotalVolumeUsd
    transactionReductionPct := nettingResult.transactionCountReductionPct
    feeSavingsUsd := nettingResult.estimatedFeeSavingsUsd
    settlementBatchTxHash := some hash
    settlementMetadata := some {
      partyPositions := nettingResult.partyPositions
      netTransfers := nettingResult.netTransfers.map (.settle hash) } }

/-- The transfers that a cycle has recorded. -/
def NettingCycle.recordedTransfers (cycle : NettingCycle Party) : List (NettedTransfer Party) :=
  match cycle.settlementMetadata with
  | some metadata => metadata.netTransfers
  | none => []

/-! ## Calls -/

inductive Call (Party : Type) where
  | executeNettingCycle (cycleId : Nat)
  | unwindDefaultingCounterparty (cycleId : Nat) (defaultingPartyId : Party)

/-- The command that a call sends next, with what it has read. -/
inductive Command (Party : Type) where
  | getCycle
  | saveAggregating (cycle : NettingCycle Party)
  | findPending (cycle : NettingCycle Party)
  | saveEmpty (cycle : NettingCycle Party)
  | saveObligations (cycle : NettingCycle Party) (executedAt : Int)
      (pending : List (NettingObligation Party))
  | saveCycle (cycle : NettingCycle Party) (executedAt : Int)
      (pending : List (NettingObligation Party))
  | findInCycle (cycle : NettingCycle Party)
  /-- The save of one excluded obligation, with those that the loop has still to look at. -/
  | saveExcluded (ob : NettingObligation Party) (left : List (NettingObligation Party))
  | finished

def NettingObligation.involves (party : Party) (ob : NettingObligation Party) : Bool :=
  ob.payerId = party ∨ ob.payeeId = party

/-- The loop of an unwind up to its next save. -/
def excluding (party : Party) : List (NettingObligation Party) → Command Party
  | [] => .finished
  | ob :: left => if ob.involves party then .saveExcluded ob left else excluding party left

/-- What follows the read of the cycle. -/
def Call.found (cycle : NettingCycle Party) : Call Party → Command Party
  | .executeNettingCycle _ =>
    if cycle.status = .settled then .finished
    else .saveAggregating { cycle with status := .aggregating }
  | .unwindDefaultingCounterparty _ _ => .findInCycle cycle

def Call.cycleId : Call Party → Nat
  | .executeNettingCycle cycleId => cycleId
  | .unwindDefaultingCounterparty cycleId _ => cycleId

/-- The loop of an unwind goes on. -/
def Call.excluding (left : List (NettingObligation Party)) : Call Party → Command Party
  | .executeNettingCycle _ => .finished
  | .unwindDefaultingCounterparty _ party => Netting.excluding party left

/-- The command goes through; an error ends the call. -/
def goesOn (command : Command Party) : Outcome → Command Party
  | .ok => command
  | .fail | .lost => .finished

/-- What a save leaves. -/
def took (s s' : State Party) : Outcome → State Party
  | .ok | .lost => s'
  | .fail => s

/-- The next command of a call, at the time `now`. -/
def stepCall (batchTxHash : BatchTxHash) (call : Call Party) (s : State Party) (now : Int)
    (o : Outcome) : Command Party → Option (State Party × Command Party)
  | .getCycle =>
    match s.getCycle call.cycleId with
    | none => some (s, .finished)
    | some cycle => some (s, goesOn (call.found cycle) o)
  | .saveAggregating cycle => some (took s (s.saveCycle cycle) o, goesOn (.findPending cycle) o)
  | .findPending cycle =>
    let pending := s.pending
    some (s, goesOn (if pending = [] then .saveEmpty cycle
      else .saveObligations cycle now pending) o)
  | .saveEmpty cycle =>
    some (took s { s.saveCycle (cycle.settleEmpty now) with
      netted := s.netted ++ [(cycle.id, [])] } o, .finished)
  | .saveObligations cycle executedAt pending =>
    let hash := hashOf batchTxHash cycle executedAt pending
    some (took s (s.saveObligations (pending.map (.settle cycle hash))) o,
      goesOn (.saveCycle cycle executedAt pending) o)
  | .saveCycle cycle executedAt pending =>
    some (took s { s.saveCycle (cycle.settle batchTxHash executedAt pending) with
      netted := s.netted ++ [(cycle.id, pending)] } o, .finished)
  | .findInCycle cycle =>
    some (s, goesOn (call.excluding (s.inCycleOrPending cycle.id)) o)
  | .saveExcluded ob left =>
    some (took s (s.saveObligations [ob.exclude]) o, goesOn (call.excluding left) o)
  | .finished => none

/-! ## The system -/

structure Thread (Party : Type) where
  call : Call Party
  command : Command Party

structure System (Party : Type) where
  state : State Party
  threads : List (Thread Party)

inductive Action (Party : Type) where
  | createObligation (dto : CreateObligationDto Party) (o : Outcome)
  | scheduleCycle (cycleNumber : String) (scheduledAt : Int) (o : Outcome)
  | call (call : Call Party)
  | run (w : Nat) (now : Int) (o : Outcome)

def next (batchTxHash : BatchTxHash) (s : System Party) : Action Party → Option (System Party)
  | .createObligation dto o =>
    if dto.amountUsd ≤ 0 ∨ dto.payerId = dto.payeeId then none
    else some { s with state := took s.state (s.state.insert dto) o }
  | .scheduleCycle cycleNumber scheduledAt o =>
    some { s with state := took s.state (s.state.schedule cycleNumber scheduledAt) o }
  | .call call => some { s with threads := s.threads ++ [⟨call, .getCycle⟩] }
  | .run w now o => do
    let t ← s.threads[w]?
    let (state, command) ← stepCall batchTxHash t.call s.state now o t.command
    some { state, threads := s.threads.set w { t with command } }

/-- No obligations and no cycles. -/
def start : System Party := ⟨⟨[], [], []⟩, []⟩

abbrev NettingRun (batchTxHash : BatchTxHash) (xs : List (Step (System Party) (Action Party)))
    (s : System Party) : Prop :=
  Run (next batchTxHash) start xs s

end AgriFi.Netting
