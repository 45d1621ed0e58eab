import AgriFi.Investments.Service
import AgriFi.Rows
import AgriFi.Threads

/-
  The payment stream of `src/stellar/stellar-monitor.service.ts`: the stream from Horizon, its
  reconnections, and `pollPaymentsFallback`, over the operations of the platform's account in the
  order of the ledger. An operation is named by its place there, and its `id` is its paging token;
  no token is `now`, and no two are the same. Each payment is handled by a thread that sends one
  query at a time. Amounts are in units of 1e-7. Other services add investments and move their
  statuses. What became of each payment is a history variable.
-/

namespace AgriFi.StellarMonitor

open AgriFi.Investments AgriFi.Rows AgriFi.Runs AgriFi.Threads
open AgriFi.DealDelivered (Outcome)

/-! ## Data -/

/-- A record of Horizon, with the text memo of its transaction. -/
structure Operation where
  id : String
  type : String
  transactionHash : String
  sender : String
  recipient : String
  amount : Nat
  assetCode : Option String
  assetIssuer : Option String
  memo : Option String
  deriving DecidableEq

structure Investment where
  id : String
  tradeDealId : String
  amountUsd : Nat
  status : InvestmentStatus
  stellarTxId : Option String
  deriving DecidableEq

structure UnrecognisedPayment where
  txHash : String
  fromAccount : String
  amount : Nat
  assetCode : Option String
  assetIssuer : Option String
  memo : Option String
  reason : String
  deriving DecidableEq

/-- The account, `trim`, and the uuid that a column of the database reads in a text, if it does not
    refuse it. -/
structure Setup where
  platformAccountId : String
  trim : String → String
  uuid : String → Option String

/-- A payment to the platform's account. -/
def Setup.Incoming (setup : Setup) (payment : Operation) : Prop :=
  payment.recipient = setup.platformAccountId ∧ payment.type = "payment"

instance (setup : Setup) (payment : Operation) : Decidable (setup.Incoming payment) :=
  inferInstanceAs (Decidable (_ ∧ _))

/-- The groups of `MEMO_PATTERN`, of a memo cut at its hyphens. -/
def memoGroups : List (List Char) → Option (List (List Char) × List (List Char))
  | [deal, d₁, d₂, d₃, d₄, inv, i₁, i₂, i₃, i₄] =>
    if deal = "DEAL".toList ∧ inv = "INV".toList ∧ [] ∉ [d₁, d₂, d₃, d₄, i₁, i₂, i₃, i₄] then
      some ([d₁, d₂, d₃, d₄], [i₁, i₂, i₃, i₄])
    else none
  | _ => none

def joined (groups : List (List Char)) : String := String.ofList (['-'].intercalate groups)

/-- The ids of the deal and of the investment. -/
def Setup.parseMemo (setup : Setup) (memo : Option String) : Option (String × String) := do
  let memo ← memo.filter (· ≠ "")
  let (dealId, investmentId) ← memoGroups ((setup.trim memo).toList.splitOn '-')
  some (joined dealId, joined investmentId)

def statusText : InvestmentStatus → String
  | .pending => "pending"
  | .confirmed => "confirmed"
  | .active => "active"
  | .releasing => "releasing"
  | .completed => "completed"
  | .cancelled => "cancelled"
  | .failed => "failed"
  | .refunded => "refunded"

/-! ## The state -/

structure State where
  operations : List Operation
  /-- The operations that were there when the monitor began. -/
  began : Nat
  lastProcessedPagingToken : String
  /-- The place of the operation that an open stream delivers next. -/
  stream : Option Nat
  investments : List Investment
  unrecognised : List UnrecognisedPayment
  /-- The payments credited, with the investment of each, and the payments recorded. -/
  credits : List (Nat × String)
  recorded : List Nat

namespace State

def setCursor (s : State) (cursor : String) : State := { s with lastProcessedPagingToken := cursor }

/-- The place of the first operation after a cursor. -/
def place (s : State) (cursor : String) : Nat :=
  if cursor = "now" then s.operations.length
  else s.operations.findIdx (·.id = cursor) + 1

def findConfirmed (s : State) (txHash : String) : Option Investment :=
  s.investments.find? (·.stellarTxId = some txHash)

def findUnrecognised (s : State) (txHash : String) : Option UnrecognisedPayment :=
  s.unrecognised.find? (·.txHash = txHash)

def findInvestment (s : State) (id tradeDealId : String) : Option Investment :=
  s.investments.find? fun i => i.id = id && i.tradeDealId = tradeDealId

/-- The save of `creditInvestment`. -/
def credit (s : State) (n : Nat) (investment : Investment) (txHash : String) : State :=
  { s with
    investments := update (fun i => i.id = investment.id)
      (fun i => { i with status := .confirmed, stellarTxId := some txHash }) s.investments
    credits := s.credits ++ [(n, investment.id)] }

/-- The insertion of `recordUnrecognisedPayment`; a hash that is there already is refused. -/
def record (s : State) (n : Nat) (payment : Operation) (memo : Option String) (reason : String) :
    State :=
  if (s.findUnrecognised payment.transactionHash).isSome then s
  else
    { s with
      unrecognised := s.unrecognised ++
        [⟨payment.transactionHash, payment.sender, payment.amount, payment.assetCode,
          payment.assetIssuer, memo, reason⟩]
      recorded := s.recorded ++ [n] }

def written (s s' : State) : Outcome → State
  | .ok | .lost => s'
  | .fail => s

end State

/-! ## Handling one payment -/

/-- The next query of `handleIncomingPayment`, after its checks and the move of the cursor. -/
inductive Pc where
  | findConfirmed
  | findUnrecognised
  | fetchMemo
  | findInvestment (memo : Option String) (dealId investmentId : String)
  | credit (investment : Investment)
  | record (memo : Option String) (reason : String)
  | returned
  | threw
  deriving DecidableEq

/-- A query that went through, or its error. -/
def onOk (pc : Pc) (o : Outcome) : Pc := if o = .ok then pc else .threw

def matched (memo : Option String) (dealId investmentId : String) : Option Investment → Pc
  | none =>
    .record memo ("investment_not_found:deal=" ++ dealId ++ ",inv=" ++ investmentId)
  | some investment =>
    if investment.status = .pending then .credit investment
    else .record memo ("investment_not_pending:status=" ++ statusText investment.status)

/-- A failure to fetch the memo counts as none. -/
def Setup.stepFetchMemo (setup : Setup) (payment : Operation) (o : Outcome) : Pc :=
  let memo := if o = .ok then payment.memo else none
  match setup.parseMemo memo with
  | none => .record memo "memo_invalid_format"
  | some (dealId, investmentId) => .findInvestment memo dealId investmentId

def Setup.stepFindInvestment (setup : Setup) (s : State) (o : Outcome) (memo : Option String)
    (dealId investmentId : String) : Pc :=
  match setup.uuid investmentId, setup.uuid dealId with
  | some id, some tradeDealId =>
    onOk (matched memo dealId investmentId (s.findInvestment id tradeDealId)) o
  | _, _ => .threw

/-- The next query for the payment at place `n`. -/
def Setup.stepHandle (setup : Setup) (s : State) (o : Outcome) (n : Nat) (payment : Operation) :
    Pc → Option (State × Pc)
  | .findConfirmed =>
    some (s, onOk (if (s.findConfirmed payment.transactionHash).isSome then .returned
      else .findUnrecognised) o)
  | .findUnrecognised =>
    some (s, onOk (if (s.findUnrecognised payment.transactionHash).isSome then .returned
      else .fetchMemo) o)
  | .fetchMemo => some (s, setup.stepFetchMemo payment o)
  | .findInvestment memo dealId investmentId =>
    some (s, setup.stepFindInvestment s o memo dealId investmentId)
  | .credit investment =>
    some (s.written (s.credit n investment payment.transactionHash) o, onOk .returned o)
  -- an error of the save, or of the alert, is caught
  | .record memo reason => some (s.written (s.record n payment memo reason) o, .returned)
  | .returned | .threw => none

/-! ## Threads -/

inductive Thread where
  /-- The stream's handling of the payment at place `n`. -/
  | handler (n : Nat) (pc : Pc)
  /-- A poll: its request, its loop over `left` records from place `k` on, and its handling of one. -/
  | requested (cursor : String)
  | loop (k left : Nat)
  | handling (n : Nat) (pc : Pc) (left : Nat)
  | finished
  deriving DecidableEq

/-- The `limit` of a poll. -/
def pollLimit : Nat := 50

def handled (n : Nat) : Pc → Thread
  | .returned | .threw => .finished
  | pc => .handler n pc

/-- An error ends the loop. -/
def pollHandled (n left : Nat) : Pc → Thread
  | .returned => .loop (n + 1) left
  | .threw => .finished
  | pc => .handling n pc left

def stepRequested (s : State) (o : Outcome) (cursor : String) : Thread :=
  if o = .ok then .loop (s.place cursor) (min pollLimit (s.operations.length - s.place cursor))
  else .finished

/-- One turn of the loop, up to the first query. -/
def Setup.stepLoop (setup : Setup) (s : State) (k left : Nat) (payment : Operation) :
    State × Thread :=
  if setup.Incoming payment then (s.setCursor payment.id, .handling k .findConfirmed left)
  else
    (if s.lastProcessedPagingToken < payment.id then s.setCursor payment.id else s,
      .loop (k + 1) left)

def Setup.stepThread (setup : Setup) (s : State) (o : Outcome) : Thread → Option (State × Thread)
  | .handler n pc => do
    let payment ← s.operations[n]?
    let (s', pc') ← setup.stepHandle s o n payment pc
    some (s', handled n pc')
  | .requested cursor => some (s, stepRequested s o cursor)
  | .loop _ 0 => some (s, .finished)
  | .loop k (left + 1) => do
    let payment ← s.operations[k]?
    some (setup.stepLoop s k left payment)
  | .handling n pc left => do
    let payment ← s.operations[n]?
    let (s', pc') ← setup.stepHandle s o n payment pc
    some (s', pollHandled n left pc')
  | .finished => none

/-! ## The system -/

structure System where
  state : State
  threads : List Thread

inductive Action where
  /-- An operation of the account is in the ledger. -/
  | arrive (operation : Operation)
  | invest (id tradeDealId : String) (amountUsd : Nat)
  | setStatus (id : String) (status : InvestmentStatus)
  /-- `startPaymentStream`, at the start or to reconnect, and the end of a stream. -/
  | connect
  | disconnect
  | deliver
  | pollPaymentsFallback
  | run (w : Nat) (o : Outcome)

def System.join (s : System) (t : Thread) : System := { s with threads := s.threads ++ [t] }

/-- A message of the stream. -/
def Setup.onMessage (setup : Setup) (s : System) (p : Nat) (payment : Operation) : System :=
  let state := { s.state with stream := some (p + 1) }
  if setup.Incoming payment then
    System.join ⟨state.setCursor payment.id, s.threads⟩ (.handler p .findConfirmed)
  else ⟨state, s.threads⟩

def Setup.next (setup : Setup) (s : System) : Action → Option System
  | .arrive operation =>
    if operation.id ≠ "now" ∧ operation.id ∉ s.state.operations.map (·.id) then
      some { s with state := { s.state with operations := s.state.operations ++ [operation] } }
    else none
  | .invest id tradeDealId amountUsd =>
    if id ∉ s.state.investments.map (·.id) then
      some { s with
        state := { s.state with
          investments := s.state.investments ++ [⟨id, tradeDealId, amountUsd, .pending, none⟩] } }
    else none
  | .setStatus id status =>
    some { s with
      state := { s.state with
        investments := update (·.id = id) (fun i => { i with status }) s.state.investments } }
  | .connect =>
    if s.state.stream = none then
      some { s with
        state := { s.state with stream := some (s.state.place s.state.lastProcessedPagingToken) } }
    else none
  | .disconnect => some { s with state := { s.state with stream := none } }
  | .deliver => do
    let p ← s.state.stream
    let payment ← s.state.operations[p]?
    some (setup.onMessage s p payment)
  | .pollPaymentsFallback => some (s.join (.requested s.state.lastProcessedPagingToken))
  | .run w o => do
    let t ← s.threads[w]?
    let (state, t') ← setup.stepThread s.state o t
    some ⟨state, s.threads.set w t'⟩

/-- The account's past, of which the monitor handles nothing. -/
structure History where
  operations : List Operation
  distinct : (operations.map (·.id)).Nodup
  tokens : "now" ∉ operations.map (·.id)

/-- The cursor is `now` until the first payment. -/
def start (history : History) : System :=
  ⟨⟨history.operations, history.operations.length, "now", none, [], [], [], []⟩, []⟩

abbrev PaymentRun (setup : Setup) (history : History) (xs : List (Step System Action))
    (s : System) : Prop :=
  Run setup.next (start history) xs s

end AgriFi.StellarMonitor
