import AgriFi.DealDelivered.Workers
import AgriFi.Runs

/-
  The outbox: `publishPending`, `markProcessed`, `markFailed` and `moveToDeadLetter`
  (`src/outbox/outbox.service.ts`), `processOutbox` and `processEvent`
  (`src/outbox/outbox.processor.ts`). A thread is a replica of the processor, or a call of
  `moveToDeadLetter`. The claim of a batch locks its rows until the COMMIT, which comes before the
  first event is emitted; each update is a statement of its own.
-/

namespace AgriFi.Outbox

open AgriFi.Runs
open AgriFi.DealDelivered (Outcome)

def BATCH_SIZE : Nat := 50

def MAX_RETRIES : Nat := 10

structure OutboxEntity (Payload : Type) where
  id : Nat
  eventType : String
  payload : Payload
  processed : Bool
  retryCount : Nat
  lastError : Option String
  createdAt : Int
  processedAt : Option Int
  deriving DecidableEq

/-- A row of `outbox_dead_letter`; nothing makes `originalEventId` unique. -/
structure DeadLetter (Payload : Type) where
  originalEventId : Nat
  eventType : String
  payload : Payload
  retryCount : Nat
  lastError : Option String
  deriving DecidableEq

variable {Payload : Type}

namespace OutboxEntity

def written (id : Nat) (eventType : String) (payload : Payload) (createdAt : Int) :
    OutboxEntity Payload where
  id
  eventType
  payload
  processed := false
  retryCount := 0
  lastError := none
  createdAt
  processedAt := none

def markProcessed (now : Int) (row : OutboxEntity Payload) : OutboxEntity Payload :=
  { row with processed := true, processedAt := some now }

def increment (row : OutboxEntity Payload) : OutboxEntity Payload :=
  { row with retryCount := row.retryCount + 1 }

def note (error : String) (row : OutboxEntity Payload) : OutboxEntity Payload :=
  { row with lastError := some error }

/-- `processed = FALSE AND retry_count < 10`. -/
def isPending (row : OutboxEntity Payload) : Bool := !row.processed && row.retryCount < MAX_RETRIES

/-- `processed = FALSE AND retry_count >= $1`. -/
def isExhausted (row : OutboxEntity Payload) : Bool :=
  !row.processed && MAX_RETRIES ≤ row.retryCount

def deadLetter (row : OutboxEntity Payload) : DeadLetter Payload where
  originalEventId := row.id
  eventType := row.eventType
  payload := row.payload
  retryCount := row.retryCount
  lastError := row.lastError

end OutboxEntity

/-! ## The tables -/

/-- What is committed, and as history variables how many rows were written, which replica has
    emitted which row, and which has failed at which. -/
structure State (Payload : Type) where
  outbox : List (OutboxEntity Payload)
  deadLetters : List (DeadLetter Payload)
  written : Nat
  emitted : List (Nat × Nat)
  failed : List (Nat × Nat)

namespace State

def writeEvent (s : State Payload) (eventType : String) (payload : Payload) (createdAt : Int) :
    State Payload :=
  { s with
    outbox := s.outbox ++ [.written s.written eventType payload createdAt]
    written := s.written + 1 }

def update (s : State Payload) (id : Nat) (f : OutboxEntity Payload → OutboxEntity Payload) :
    State Payload :=
  { s with outbox := s.outbox.map fun row => if row.id = id then f row else row }

/-- The insert and the delete of a move become visible together. -/
def move (s : State Payload) (moved : List (OutboxEntity Payload)) : State Payload :=
  { s with
    outbox := s.outbox.filter fun row => row.id ∉ moved.map OutboxEntity.id
    deadLetters := s.deadLetters ++ moved.map OutboxEntity.deadLetter }

def emit (s : State Payload) (w id : Nat) : State Payload :=
  { s with emitted := s.emitted ++ [(w, id)] }

def fail (s : State Payload) (w id : Nat) : State Payload :=
  { s with failed := s.failed ++ [(w, id)] }

end State

/-! ## Threads -/

/-- The command that a thread sends next; a replica that is `idle` waits for its next tick. -/
inductive Pc (Payload : Type) where
  | idle
  | commitClaim (events : List (OutboxEntity Payload))
  | emit (event : OutboxEntity Payload) (left : List (OutboxEntity Payload))
  | markProcessed (event : OutboxEntity Payload) (left : List (OutboxEntity Payload))
  | increment (event : OutboxEntity Payload) (left : List (OutboxEntity Payload)) (error : String)
  | note (event : OutboxEntity Payload) (left : List (OutboxEntity Payload)) (error : String)
  | insertMoved
  | deleteMoved (moved : List (OutboxEntity Payload))
  | commitMove (moved : List (OutboxEntity Payload))
  | finished

/-- The loop of `processOutbox`. -/
def publishing : List (OutboxEntity Payload) → Pc Payload
  | [] => .idle
  | event :: left => .emit event left

namespace Pc

/-- The rows that the thread's transaction has locked. -/
def locks : Pc Payload → List Nat
  | .commitClaim rows | .commitMove rows => rows.map OutboxEntity.id
  | _ => []

/-- The rows that the next command has to lock, if they are there. -/
def waitsFor : Pc Payload → List Nat
  | .markProcessed event _ | .increment event _ _ | .note event _ _ => [event.id]
  | .deleteMoved moved => moved.map OutboxEntity.id
  | _ => []

/-- The event that a replica is at. -/
def current : Pc Payload → Option Nat
  | .emit event _ | .markProcessed event _ | .increment event _ _ | .note event _ _ =>
    some event.id
  | _ => none

/-- The process dies; a replica comes back, a transaction is rolled back. -/
def crash : Pc Payload → Pc Payload
  | .insertMoved | .deleteMoved _ | .commitMove _ | .finished => .finished
  | _ => .idle

end Pc

/-- The next command of thread `w`, at the time `now`; `error` is the text of what goes wrong. -/
def stepPc (w : Nat) (s : State Payload) (now : Int) (o : Outcome) (error : String) :
    Pc Payload → Option (State Payload × Pc Payload)
  | .commitClaim events =>
    match o with
    | .ok => some (s, publishing events)
    | .fail | .lost => some (s, .idle)
  | .emit event left =>
    match o with
    | .ok => some (s.emit w event.id, .markProcessed event left)
    | .fail | .lost => some (s.fail w event.id, .increment event left error)
  | .markProcessed event left =>
    match o with
    | .ok => some (s.update event.id (.markProcessed now), publishing left)
    | .fail => some (s.fail w event.id, .increment event left error)
    | .lost =>
      some ((s.update event.id (.markProcessed now)).fail w event.id, .increment event left error)
  | .increment event left error =>
    match o with
    | .ok => some (s.update event.id .increment, .note event left error)
    | .fail => some (s, .idle)
    | .lost => some (s.update event.id .increment, .idle)
  | .note event left error =>
    match o with
    | .ok => some (s.update event.id (.note error), publishing left)
    | .fail => some (s, .idle)
    | .lost => some (s.update event.id (.note error), .idle)
  | .insertMoved =>
    let moved := s.outbox.filter OutboxEntity.isExhausted
    match o with
    | .ok => some (s, if moved = [] then .commitMove [] else .deleteMoved moved)
    | .fail | .lost => some (s, .finished)
  | .deleteMoved moved =>
    match o with
    | .ok => some (s, .commitMove moved)
    | .fail | .lost => some (s, .finished)
  | .commitMove moved =>
    match o with
    | .ok | .lost => some (s.move moved, .finished)
    | .fail => some (s, .finished)
  | .idle | .finished => none

/-! ## The system -/

structure System (Payload : Type) where
  state : State Payload
  threads : List (Pc Payload)

namespace System

def locked (s : System Payload) (id : Nat) : Bool := s.threads.any fun t => id ∈ t.locks

/-- What the SELECT of `publishPending` may return, before its ORDER BY and its LIMIT. -/
def pending (s : System Payload) : List (OutboxEntity Payload) :=
  s.state.outbox.filter fun row => row.isPending && !s.locked row.id

end System

inductive Action (Payload : Type) where
  /-- A transaction that has called `writeEvent` commits. -/
  | writeEvent (eventType : String) (payload : Payload) (createdAt : Int)
  | replica
  | moveToDeadLetter
  /-- The claim of a replica; `sorted` are the pending rows in the order of ORDER BY, which leaves
      open how rows of the same time stand. -/
  | publishPending (w : Nat) (sorted : List (OutboxEntity Payload)) (o : Outcome)
  | run (w : Nat) (now : Int) (o : Outcome) (error : String)
  | crash (w : Nat)

variable [DecidableEq Payload]

def next (s : System Payload) : Action Payload → Option (System Payload)
  | .writeEvent eventType payload createdAt =>
    some { s with state := s.state.writeEvent eventType payload createdAt }
  | .replica => some { s with threads := s.threads ++ [.idle] }
  | .moveToDeadLetter => some { s with threads := s.threads ++ [.insertMoved] }
  | .publishPending w sorted o =>
    match s.threads[w]? with
    | some .idle =>
      if sorted.Perm s.pending ∧ sorted.Pairwise (·.createdAt ≤ ·.createdAt) then
        match o with
        | .ok => some { s with threads := s.threads.set w (.commitClaim (sorted.take BATCH_SIZE)) }
        | .fail | .lost => some s
      else none
    | _ => none
  | .run w now o error => do
    let t ← s.threads[w]?
    if t.waitsFor.any s.locked then none
    else
      let (state, t') ← stepPc w s.state now o error t
      some { state, threads := s.threads.set w t' }
  | .crash w => do
    let t ← s.threads[w]?
    let state := match t.current with
      | some id => s.state.fail w id
      | none => s.state
    some { state, threads := s.threads.set w t.crash }

/-- Nothing is written yet. -/
def start : System Payload := ⟨⟨[], [], 0, [], []⟩, []⟩

abbrev OutboxRun (xs : List (Step (System Payload) (Action Payload))) (s : System Payload) :
    Prop :=
  Run next start xs s

end AgriFi.Outbox
