import Mathlib.Data.List.MinMax
import AgriFi.Feeds

/-
  The indexer of contract events (`src/soroban/soroban-event-indexer.service.ts`). A poll asks the
  RPC for the first events from the last ledger on, and passes each to `processEvent`, which leaves
  out what its cache of processed events knows; `replayEvents` asks for a range of ledgers, window
  by window, and leaves out what the cache knows by another key. The RPC keeps the events in the
  order of their ledgers, and answers with the first `limit` of those in the window. A ledger's
  sequence number is an integer, transactions and contracts have numbers in place of their hashes
  and addresses.
-/

namespace AgriFi.EventIndexer

open AgriFi.Feeds

structure Event where
  id : Nat
  transactionHash : Nat
  ledger : Int
  contractId : Nat
  type : String
  topic : List String
  deriving DecidableEq, Repr

/-- A contract event: number `id` of transaction `transactionHash`, by contract 7. -/
def contractEvent (id transactionHash : Nat) (ledger : Int) : Event :=
  ⟨id, transactionHash, ledger, 7, "contract", ["transfer"]⟩

/-! ## The RPC -/

/-- The contracts' events: in the order of their ledgers, each with an id of its own. -/
structure History (events : List Event) : Prop where
  sorted : Sorted Event.ledger events
  nodup : (events.map Event.id).Nodup
  positive : ∀ e ∈ events, 0 < e.ledger

/-- `getEvents`: the first `limit` events that the filters let through, from `startLedger` on, and
    up to `endLedger` when one is given. -/
def getEvents (events : List Event) (filters : Event → Bool) (startLedger : Int)
    (endLedger : Option Int) (limit : Nat) : List Event :=
  (events.filter fun e => filters e ∧ startLedger ≤ e.ledger ∧ ∀ last ∈ endLedger, e.ledger ≤ last)
    |>.take limit

/-- The `limit` of each request. -/
def pageLimit : Nat := 100

/-! ## The cache -/

/-- `eventKey` of `processEvent`, and the digest of `computeEventHash`. -/
inductive CacheKey where
  | key (transactionHash contractId : Nat) (type : String)
  | hash (transactionHash contractId : Nat) (type : String) (topic : List String)
  deriving DecidableEq, Repr

def Event.eventKey (e : Event) : CacheKey := .key e.transactionHash e.contractId e.type

def Event.eventHash (e : Event) : CacheKey := .hash e.transactionHash e.contractId e.type e.topic

/-- The entries that `processEvent` keeps. -/
def cacheLimit : Nat := 1000

/-- The keys of `processedEventsCache` in the order of their insertion. What was dispatched is a
    history variable. -/
structure Indexer where
  isRunning : Bool
  lastLedger : Int
  processedEventsCache : List CacheKey
  dispatched : List Event

namespace Indexer

/-- `throws` says which events' handlers throw. -/
def processEvent (throws : Event → Bool) (s : Indexer) (e : Event) : Indexer :=
  if e.eventKey ∈ s.processedEventsCache ∨ throws e then s
  else
    { s with
      dispatched := s.dispatched ++ [e]
      processedEventsCache := push cacheLimit s.processedEventsCache e.eventKey }

/-! ## Polling -/

/-- `buildEventFilters`: without known contracts there are no filters. -/
def buildEventFilters (known : List Nat) (e : Event) : Bool :=
  known = [] ∨ e.contractId ∈ known

def queryEvents (known : List Nat) (events : List Event) (s : Indexer) : List Event :=
  getEvents events (buildEventFilters known) s.lastLedger none pageLimit

/-- `Math.max` over the ledgers of a page. -/
def maxLedger (page : List Event) (last : Int) : Int :=
  ((page.map Event.ledger).max?).getD last

/-- A poll; when the RPC does not answer, its page is empty. -/
def pollForEvents (known : List Nat) (events : List Event) (answered : Bool)
    (throws : Event → Bool) (s : Indexer) : Indexer :=
  if s.isRunning = false ∨ s.lastLedger = 0 ∨ answered = false then s
  else
    let page := s.queryEvents known events
    { page.foldl (processEvent throws) s with lastLedger := maxLedger page s.lastLedger }

end Indexer

/-! ## Replaying -/

def batchSize : Nat := 100

/-- The loop of `queryEventsFromRange`, from `currentLedger` on; `fuel` bounds its iterations. -/
def queryBatches (events : List Event) (contractId : Nat) (toLedger : Int) :
    Nat → Int → List Event
  | 0, _ => []
  | fuel + 1, currentLedger =>
    if currentLedger ≤ toLedger then
      let batchEndLedger := min (currentLedger + batchSize - 1) toLedger
      getEvents events (fun e => e.contractId = contractId) currentLedger batchEndLedger
          batchSize ++
        queryBatches events contractId toLedger fuel (batchEndLedger + 1)
    else []

/-- Each iteration takes a ledger at least. -/
def queryEventsFromRange (events : List Event) (contractId : Nat) (fromLedger toLedger : Int) :
    List Event :=
  queryBatches events contractId toLedger (toLedger + 1 - fromLedger).toNat fromLedger

/-- The indexer, and the counts of a replay. -/
structure Replay where
  indexer : Indexer
  processed : Nat
  duplicates : Nat

/-- One event of a replay. -/
def Replay.step (throws : Event → Bool) (r : Replay) (e : Event) : Replay :=
  if e.eventHash ∈ r.indexer.processedEventsCache then { r with duplicates := r.duplicates + 1 }
  else
    let indexer := r.indexer.processEvent throws e
    { r with
      indexer :=
        { indexer with
          processedEventsCache := indexer.processedEventsCache ++ [e.eventHash] }
      processed := r.processed + 1 }

/-- `replayEvents`. A `toLedger` of 0 stands for the current ledger, as one that is left out. -/
def replayEvents (events : List Event) (currentLedger : Int) (contractId : Nat)
    (fromLedger toLedger : Int) (throws : Event → Bool) (s : Indexer) : Replay :=
  let endLedger := if toLedger = 0 then currentLedger else toLedger
  (queryEventsFromRange events contractId fromLedger endLedger).foldl (Replay.step throws) ⟨s, 0, 0⟩

end AgriFi.EventIndexer
