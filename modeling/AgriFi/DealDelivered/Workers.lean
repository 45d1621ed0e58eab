import AgriFi.Runs
import AgriFi.Stellar.EscrowRelease

/-
  The workers that handle `deal.delivered` for one deal: `EscrowConsumer.processDealDelivered`
  (`src/escrow/escrow.consumer.ts`), the `EscrowService.processDealDelivered` it calls
  (`src/escrow/escrow.service.ts`), and the leases of `src/queue/idempotency.service.ts`.
  A worker is one delivery of the message; between two of its external operations any other worker
  may run. An operation succeeds, fails, or takes effect and is then reported as failed. Each
  lease is a Redis key with a time to live, so it can also go at any time.
-/

namespace AgriFi.DealDelivered

open AgriFi.Runs AgriFi.Stellar

/-- `ESCROW_MAX_DELIVERY_ATTEMPTS`. -/
def maxDeliveryAttempts : Nat := 5

/-! ## The deal -/

/-- One entry of `investorShares`, that is one confirmed investment, or the platform. -/
inductive Recipient where
  | investor (globalIdx : Nat)
  | platform
  deriving DecidableEq, Repr

/-- What the workers find configured, and the number of confirmed investments of the deal. -/
structure Config where
  /-- `REDIS_URL` is set and Redis was reached; otherwise every lease is granted. -/
  redis : Bool
  investments : Nat

def Config.batchCount (cfg : Config) : Nat :=
  max 1 ((cfg.investments + (batchSize - 1)) / batchSize)

/-- Whom the transaction of a batch pays. -/
def Config.batch (cfg : Config) (batchIdx : Nat) : List Recipient :=
  (((List.range cfg.investments).drop (batchIdx * batchSize)).take batchSize).map .investor ++
    if batchIdx = cfg.batchCount - 1 then [.platform] else []

inductive DealStatus where
  | delivered
  | completed
  deriving DecidableEq, Repr

/-! ## Shared state -/

inductive KeyStatus where
  | processing
  | done
  deriving DecidableEq, Repr

/-- The lease a worker takes: `deal.delivered` in the consumer, `payment.distribution` in the
    service. -/
inductive Lease where
  | consumer
  | service
  deriving DecidableEq, Repr

/-- Redis, the deal's row, and the payments on the ledger. -/
structure Shared where
  consumerKey : Option KeyStatus
  serviceKey : Option KeyStatus
  status : DealStatus
  chain : List Recipient
  deriving DecidableEq, Repr

def Shared.key (s : Shared) : Lease → Option KeyStatus
  | .consumer => s.consumerKey
  | .service => s.serviceKey

def Shared.setKey (s : Shared) (key : Option KeyStatus) : Lease → Shared
  | .consumer => { s with consumerKey := key }
  | .service => { s with serviceKey := key }

/-! ## Workers -/

/-- How a worker leaves its message. -/
inductive Ending where
  | ack
  | requeue
  | deadLetter
  /-- The worker is gone without settling it. -/
  | unsettled
  deriving DecidableEq, Repr

/-- The external operation a worker is about to make. -/
inductive Pc where
  /-- `client.get` and `client.set NX` of `acquireLease`. -/
  | acquireGet (lease : Lease)
  | acquireSet (lease : Lease)
  /-- The deal and its investments, with the checks that come before the second lease. -/
  | readDeal
  /-- The submission of a batch by `releaseEscrow`. -/
  | releasing (batchIdx : Nat)
  /-- The database transaction that records the payments and completes the deal. -/
  | dbWrite
  | markDone (lease : Lease)
  /-- What follows in the service once its lease is marked. -/
  | notify
  /-- `client.get` and `client.del` of `releaseLease`, on an error path. -/
  | releaseGet (lease : Lease)
  | releaseDel (lease : Lease)
  | finished (ending : Ending)
  deriving DecidableEq, Repr

/-- How an external operation ends: `lost` takes effect and is reported as an error. -/
inductive Outcome where
  | ok
  | fail
  | lost
  deriving DecidableEq, Repr

/-- `channel.nack` at the end of the consumer's error path. -/
def nackEnding (attempt : Nat) : Ending :=
  if attempt ≥ maxDeliveryAttempts then .deadLetter else .requeue

/-! ### Where a worker goes on -/

def acquired : Lease → Pc
  | .consumer => .readDeal
  | .service => .releasing 0

/-- The lease is another worker's, or the work is done: the consumer acknowledges the message,
    and the service returns normally. -/
def notAcquired : Lease → Pc
  | .consumer => .finished .ack
  | .service => .markDone .consumer

/-- `acquireLease` throws; the consumer calls it outside its `try`. -/
def acquireThrows : Lease → Pc
  | .consumer => .finished .unsettled
  | .service => .releaseGet .consumer

def marked : Lease → Pc
  | .consumer => .finished .ack
  | .service => .notify

def released (attempt : Nat) : Lease → Pc
  | .consumer => .finished (nackEnding attempt)
  | .service => .releaseGet .consumer

def releaseThrows : Lease → Pc
  | .consumer => .finished .unsettled
  | .service => .releaseGet .consumer

/-! ### One operation -/

def stepAcquireGet (cfg : Config) (s : Shared) (lease : Lease) (o : Outcome) : Shared × Pc :=
  if cfg.redis = false then (s, acquired lease)
  else if o = .ok then
    if s.key lease = none then (s, .acquireSet lease) else (s, notAcquired lease)
  else (s, acquireThrows lease)

def stepAcquireSet (s : Shared) (lease : Lease) : Outcome → Shared × Pc
  | .ok =>
    if s.key lease = none then (s.setKey (some .processing) lease, acquired lease)
    else (s, notAcquired lease)
  | .fail => (s, acquireThrows lease)
  | .lost =>
    (if s.key lease = none then s.setKey (some .processing) lease else s, acquireThrows lease)

def stepReadDeal (cfg : Config) (s : Shared) (o : Outcome) : Shared × Pc :=
  if o = .ok then
    if s.status = .delivered ∧ cfg.investments ≠ 0 then (s, .acquireGet .service)
    else (s, .markDone .consumer)
  else (s, .releaseGet .consumer)

/-- A failed submission, like any error of the service, gives its lease back. -/
def stepReleasing (cfg : Config) (s : Shared) (batchIdx : Nat) : Outcome → Shared × Pc
  | .ok =>
    ({ s with chain := s.chain ++ cfg.batch batchIdx },
      if batchIdx + 1 < cfg.batchCount then .releasing (batchIdx + 1) else .dbWrite)
  | .fail => (s, .releaseGet .service)
  | .lost => ({ s with chain := s.chain ++ cfg.batch batchIdx }, .releaseGet .service)

def stepDbWrite (s : Shared) : Outcome → Shared × Pc
  | .ok => ({ s with status := .completed }, .markDone .service)
  | .fail => (s, .releaseGet .service)
  | .lost => ({ s with status := .completed }, .releaseGet .service)

def stepMarkDone (cfg : Config) (s : Shared) (lease : Lease) (o : Outcome) : Shared × Pc :=
  if cfg.redis = false then (s, marked lease)
  else
    match o with
    | .ok => (s.setKey (some .done) lease, marked lease)
    | .fail => (s, .releaseGet lease)
    | .lost => (s.setKey (some .done) lease, .releaseGet lease)

def stepNotify (s : Shared) (o : Outcome) : Shared × Pc :=
  if o = .ok then (s, .markDone .consumer) else (s, .releaseGet .consumer)

/-- A lease marked as done is left as it is. -/
def stepReleaseGet (cfg : Config) (s : Shared) (attempt : Nat) (lease : Lease) (o : Outcome) :
    Shared × Pc :=
  if cfg.redis = false then (s, released attempt lease)
  else if o = .ok then
    if s.key lease = some .processing then (s, .releaseDel lease) else (s, released attempt lease)
  else (s, releaseThrows lease)

def stepReleaseDel (s : Shared) (attempt : Nat) (lease : Lease) : Outcome → Shared × Pc
  | .ok => (s.setKey none lease, released attempt lease)
  | .fail => (s, releaseThrows lease)
  | .lost => (s.setKey none lease, releaseThrows lease)

/-- The next operation of a worker on its `attempt`-th delivery. -/
def stepWorker (cfg : Config) (attempt : Nat) (s : Shared) (o : Outcome) :
    Pc → Option (Shared × Pc)
  | .acquireGet lease => some (stepAcquireGet cfg s lease o)
  | .acquireSet lease => some (stepAcquireSet s lease o)
  | .readDeal => some (stepReadDeal cfg s o)
  | .releasing batchIdx => some (stepReleasing cfg s batchIdx o)
  | .dbWrite => some (stepDbWrite s o)
  | .markDone lease => some (stepMarkDone cfg s lease o)
  | .notify => some (stepNotify s o)
  | .releaseGet lease => some (stepReleaseGet cfg s attempt lease o)
  | .releaseDel lease => some (stepReleaseDel s attempt lease o)
  | .finished _ => none

/-! ## The system -/

structure Worker where
  /-- `getDeliveryAttempt`. -/
  attempt : Nat
  pc : Pc
  deriving DecidableEq, Repr

/-- The shared state and the workers, in the order of the deliveries. -/
structure System where
  shared : Shared
  workers : List Worker
  deriving DecidableEq, Repr

inductive Action where
  /-- The broker delivers the message, for the first time or again. -/
  | deliver (attempt : Nat)
  /-- A worker makes its next operation. -/
  | run (w : Nat) (o : Outcome)
  /-- A worker's process dies. -/
  | crash (w : Nat)
  /-- The time to live of a lease, or of its done marker, runs out. -/
  | expire (lease : Lease)
  deriving DecidableEq, Repr

def next (cfg : Config) (s : System) : Action → Option System
  | .deliver attempt => some { s with workers := s.workers ++ [⟨attempt, .acquireGet .consumer⟩] }
  | .run w o => do
    let worker ← s.workers[w]?
    let (shared, pc) ← stepWorker cfg worker.attempt s.shared o worker.pc
    some ⟨shared, s.workers.set w { worker with pc }⟩
  | .crash w => do
    let worker ← s.workers[w]?
    some { s with workers := s.workers.set w { worker with pc := .finished .unsettled } }
  | .expire lease => some { s with shared := s.shared.setKey none lease }

/-- A delivered deal that no worker has touched. -/
def start : System := ⟨⟨none, none, .delivered, []⟩, []⟩

abbrev SystemRun (cfg : Config) (xs : List (Step System Action)) (s : System) : Prop :=
  Run (next cfg) start xs s

end AgriFi.DealDelivered
