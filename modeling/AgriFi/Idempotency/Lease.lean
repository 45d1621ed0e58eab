import AgriFi.Runs
import AgriFi.DealDelivered.Workers

/-
  `IdempotencyService` (`src/queue/idempotency.service.ts`) on one key: `acquireLease`, `markDone`
  and `releaseLease`, called by any number of workers, with one step for each Redis command. A
  worker calls `markDone` or `releaseLease` for a lease that `acquireLease` reported to it, until
  one of them returns. Between two commands any other worker may run, and the time to live of the
  key's value may run out. A command succeeds, fails, or takes effect and is then reported as
  failed.
-/

namespace AgriFi.Idempotency

open AgriFi.Runs
open AgriFi.DealDelivered (KeyStatus Outcome)

/-! ## The key -/

/-- The key's value in Redis. Two history variables say what the value alone does not: `holder` is
    the worker whose `acquireLease` set the present lease, and `marker` that the done marker was
    set and its own time to live has not run out. -/
structure Store where
  value : Option KeyStatus
  holder : Option Nat
  marker : Bool
  deriving DecidableEq, Repr

/-- `client.set(key, 'processing', { NX, EX })` of worker `w`, on a free key. -/
def Store.lease (w : Nat) (s : Store) : Store :=
  { s with value := some .processing, holder := some w }

/-- `client.set(key, 'done', { EX })`. -/
def Store.done (_ : Store) : Store := ⟨some .done, none, true⟩

/-- `client.del(key)`. -/
def Store.del (s : Store) : Store := { s with value := none, holder := none }

/-- The time to live of the key's value runs out. -/
def Store.expire (s : Store) : Store :=
  ⟨none, none, if s.value = some .done then false else s.marker⟩

/-! ## Workers -/

/-- The command a worker is about to send, or how its last call left it. -/
inductive Pc where
  | idle
  /-- `client.get`, `client.set NX` and, when that finds the key set, `client.get` again. -/
  | acquireGet
  | acquireSet
  | acquireReread
  /-- `acquireLease` returned `{ acquired: false, status }`. -/
  | notAcquired (status : KeyStatus)
  /-- `acquireLease` returned `{ acquired: true }`. -/
  | holding
  | markDone
  /-- `client.get` and `client.del` of `releaseLease`. -/
  | releaseGet
  | releaseDel
  deriving DecidableEq, Repr

structure Worker where
  /-- The replica has a client and it is connected; otherwise the service does nothing. -/
  connected : Bool
  pc : Pc
  deriving DecidableEq, Repr

inductive Call where
  | acquireLease
  | markDone
  | releaseLease
  deriving DecidableEq, Repr

/-- A call up to its first command. Without a connection every lease is granted, and the other two
    return at once. -/
def stepCall (connected : Bool) : Call → Pc → Option Pc
  | .acquireLease, .idle | .acquireLease, .notAcquired _ =>
    some (if connected then .acquireGet else .holding)
  | .markDone, .holding => some (if connected then .markDone else .idle)
  | .releaseLease, .holding => some (if connected then .releaseGet else .idle)
  | _, _ => none

def stepAcquireGet (s : Store) : Outcome → Store × Pc
  | .ok =>
    match s.value with
    | some status => (s, .notAcquired status)
    | none => (s, .acquireSet)
  | .fail | .lost => (s, .idle)

def stepAcquireSet (w : Nat) (s : Store) : Outcome → Store × Pc
  | .ok => if s.value = none then (s.lease w, .holding) else (s, .acquireReread)
  | .fail => (s, .idle)
  | .lost => (if s.value = none then s.lease w else s, .idle)

def stepAcquireReread (s : Store) : Outcome → Store × Pc
  | .ok => (s, .notAcquired (s.value.getD .processing))
  | .fail | .lost => (s, .idle)

/-- After an error the lease is still the worker's to mark or to give back. -/
def stepMarkDone (s : Store) : Outcome → Store × Pc
  | .ok => (s.done, .idle)
  | .fail => (s, .holding)
  | .lost => (s.done, .holding)

def stepReleaseGet (s : Store) : Outcome → Store × Pc
  | .ok => (s, if s.value = some .processing then .releaseDel else .idle)
  | .fail | .lost => (s, .holding)

def stepReleaseDel (s : Store) : Outcome → Store × Pc
  | .ok => (s.del, .idle)
  | .fail => (s, .holding)
  | .lost => (s.del, .holding)

/-- The next command of worker `w`. -/
def stepWorker (w : Nat) (s : Store) (o : Outcome) : Pc → Option (Store × Pc)
  | .acquireGet => some (stepAcquireGet s o)
  | .acquireSet => some (stepAcquireSet w s o)
  | .acquireReread => some (stepAcquireReread s o)
  | .markDone => some (stepMarkDone s o)
  | .releaseGet => some (stepReleaseGet s o)
  | .releaseDel => some (stepReleaseDel s o)
  | .idle | .notAcquired _ | .holding => none

/-! ## The system -/

structure System where
  store : Store
  workers : List Worker
  deriving DecidableEq, Repr

inductive Action where
  | join (connected : Bool)
  | call (w : Nat) (c : Call)
  | run (w : Nat) (o : Outcome)
  /-- The worker's process dies, or it sends no further command for its lease. -/
  | quit (w : Nat)
  /-- The time to live of the key's value runs out. -/
  | expire
  deriving DecidableEq, Repr

def next (s : System) : Action → Option System
  | .join connected => some { s with workers := s.workers ++ [⟨connected, .idle⟩] }
  | .call w c => do
    let worker ← s.workers[w]?
    let pc ← stepCall worker.connected c worker.pc
    some { s with workers := s.workers.set w { worker with pc } }
  | .run w o => do
    let worker ← s.workers[w]?
    let (store, pc) ← stepWorker w s.store o worker.pc
    some ⟨store, s.workers.set w { worker with pc }⟩
  | .quit w => do
    let worker ← s.workers[w]?
    some { s with workers := s.workers.set w { worker with pc := .idle } }
  | .expire => some { s with store := s.store.expire }

/-- A key that was never set, and no workers yet. -/
def start : System := ⟨⟨none, none, false⟩, []⟩

abbrev LeaseRun (xs : List (Step System Action)) (s : System) : Prop := Run next start xs s

end AgriFi.Idempotency
