import AgriFi.Runs
import Mathlib.Data.List.Basic

/-
  The offline queue of the frontend (`offlineQueue.ts`). Any number of calls share one object store,
  also from several tabs: an `enqueueOfflineOperation` looks for an operation of its key, asks the
  user, and puts the new one in a transaction of its own; a `flushOfflineOperations` sends a snapshot
  of the store, one request after the other. A page can be closed in the middle of a call. Ids are
  numbers in the order in which the store compares them, and are never drawn twice. Which version of
  an operation a record holds, and since when its key is queued, are history variables.
-/

namespace AgriFi.OfflineQueue

open AgriFi.Runs

inductive OperationType where
  | shipmentMilestone
  | investmentDraft
  deriving DecidableEq

inductive Method where
  | post
  | patch
  deriving DecidableEq

/-- What a caller of `enqueueOfflineOperation` gives. -/
structure Request where
  resourceKey : String
  type : OperationType
  method : Method
  endpoint : String
  body : String
  deriving DecidableEq

structure OfflineOperation extends Request where
  id : Nat
  createdAt : Nat
  updatedAt : Nat
  retryCount : Nat
  /-- The number of the call that was accepted with this body. -/
  version : Nat
  /-- The number of the call that queued the operation first. -/
  first : Nat
  deriving DecidableEq

/-! ## The store -/

/-- The records, in the order of their ids. -/
abbrev Store := List OfflineOperation

/-- The index on `resourceKey` gives the record with the least id. -/
def Store.getByKey (store : Store) (resourceKey : String) : Option OfflineOperation :=
  store.find? (·.resourceKey = resourceKey)

def Store.put (store : Store) (operation : OfflineOperation) : Store :=
  store.filter (·.id < operation.id) ++ operation :: store.filter (operation.id < ·.id)

def Store.delete (store : Store) (id : Nat) : Store := store.filter (·.id ≠ id)

def OfflineOperation.retried (operation : OfflineOperation) : OfflineOperation :=
  { operation with retryCount := operation.retryCount + 1 }

def Store.markRetry (store : Store) (id : Nat) : Store :=
  store.map fun operation => if operation.id = id then operation.retried else operation

/-! ## Calls -/

/-- A request with a version was sent, and an OK response to one has arrived. -/
inductive Entry where
  | sent (version : Nat)
  | ok (version : Nat)
  deriving DecidableEq

structure State where
  store : Store
  /-- The operations that were put, in order. -/
  accepted : List OfflineOperation
  log : List Entry

/-- What a flush has sent, and what is left of its snapshot. -/
structure Flush where
  sent : List OfflineOperation
  rest : List OfflineOperation
  deriving DecidableEq

/-- The next step. -/
inductive Pc where
  | get (request : Request)
  | put (request : Request) (existing : Option OfflineOperation)
  | enqueued (operation : OfflineOperation) (conflict : Bool)
  | rejected
  | getAll
  | sending (flush : Flush)
  | awaiting (operation : OfflineOperation) (flush : Flush)
  | deleting (operation : OfflineOperation) (flush : Flush)
  | marking (operation : OfflineOperation) (flush : Flush)
  | flushed (flush : Flush)
  deriving DecidableEq

/-- How a step goes: its transaction or request fails, the user confirms, the id that is drawn, and
    the time. -/
structure Answer where
  fails : Bool
  confirmed : Bool
  id : Nat
  now : Nat

/-- The operation that a request is queued as. -/
def queued (s : State) (request : Request) (existing : Option OfflineOperation) (answer : Answer) :
    OfflineOperation :=
  { request with
    id := (existing.map (·.id)).getD answer.id
    createdAt := (existing.map (·.createdAt)).getD answer.now
    updatedAt := answer.now
    retryCount := (existing.map (·.retryCount)).getD 0
    version := s.accepted.length
    first := (existing.map (·.first)).getD s.accepted.length }

def State.accept (s : State) (operation : OfflineOperation) : State :=
  { s with
    store := s.store.put operation
    accepted := s.accepted ++ [operation] }

/-- The operation of the key that was found, if any, and whether the user replaces it. -/
def getThen (s : State) (request : Request) (confirmed : Bool) : Pc :=
  match s.store.getByKey request.resourceKey with
  | none => .put request none
  | some existing => if confirmed then .put request (some existing) else .enqueued existing true

/-- The head of what is left is sent, unless it is a draft. -/
def sendNext (s : State) (flush : Flush) : State × Pc :=
  match flush.rest with
  | [] => (s, .flushed flush)
  | operation :: rest =>
    if operation.type = .investmentDraft then (s, .sending { flush with rest })
    else
      ({ s with log := s.log ++ [.sent operation.version] },
        .awaiting operation ⟨flush.sent ++ [operation], rest⟩)

/-- A request that fails has no OK response. -/
def step (s : State) (answer : Answer) : Pc → Option (State × Pc)
  | .get request =>
    if answer.fails then some (s, .rejected) else some (s, getThen s request answer.confirmed)
  | .put request existing =>
    if answer.fails then some (s, .rejected)
    else
      let operation := queued s request existing answer
      some (s.accept operation, .enqueued operation existing.isSome)
  | .getAll => some (s, if answer.fails then .rejected else .sending ⟨[], s.store⟩)
  | .sending flush => some (sendNext s flush)
  | .awaiting operation flush =>
    if answer.fails then some (s, .marking operation flush)
    else some ({ s with log := s.log ++ [.ok operation.version] }, .deleting operation flush)
  | .deleting operation flush =>
    if answer.fails then some (s, .marking operation flush)
    else some ({ s with store := s.store.delete operation.id }, .sending flush)
  | .marking operation flush =>
    if answer.fails then some (s, .flushed flush)
    else some ({ s with store := s.store.markRetry operation.id }, .sending flush)
  | .enqueued _ _ | .rejected | .flushed _ => none

/-- A call whose page was closed. -/
def Pc.closed : Pc → Pc
  | .sending flush | .awaiting _ flush | .deleting _ flush | .marking _ flush => .flushed flush
  | .get _ | .put _ _ | .getAll => .rejected
  | pc => pc

/-! ## The system -/

structure System where
  state : State
  threads : List Pc

inductive Event where
  | enqueueOfflineOperation (request : Request)
  | flushOfflineOperations (onLine : Bool)
  | run (w : Nat) (answer : Answer)
  | close (w : Nat)

def next (sys : System) : Event → Option System
  | .enqueueOfflineOperation request => some { sys with threads := sys.threads ++ [.get request] }
  | .flushOfflineOperations onLine =>
    some { sys with threads := sys.threads ++ [if onLine then .getAll else .flushed ⟨[], []⟩] }
  | .run w answer => do
    let pc ← sys.threads[w]?
    if ∃ operation ∈ sys.state.accepted, operation.id = answer.id then none
    else do
      let (state, pc') ← step sys.state answer pc
      some ⟨state, sys.threads.set w pc'⟩
  | .close w => do
    let pc ← sys.threads[w]?
    some { sys with threads := sys.threads.set w pc.closed }

def start : System := ⟨⟨[], [], []⟩, []⟩

abbrev QueueRun (xs : List (Step System Event)) (sys : System) : Prop := Run next start xs sys

end AgriFi.OfflineQueue
