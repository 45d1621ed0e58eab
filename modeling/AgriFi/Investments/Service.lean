import AgriFi.Runs
import AgriFi.Soroban.Checked
import AgriFi.Stellar.EscrowRelease
import AgriFi.DealDelivered.Workers

/-
  The investments of one deal: `createInvestment`, `confirmInvestment`, `fundEscrow` and
  `requestCoolingOffCancel` (`src/investments/investments.service.ts`), and the `investment.fund`
  job (`processInvestmentFund` of `src/queue/queue.processor.ts`). A call or a job is a thread that
  sends one command at a time, to the database or to Stellar; between two of them any other thread
  may run. A transaction reads what is committed and its own writes (READ COMMITTED, the default of
  PostgreSQL), and keeps the lock of each row it has locked or written until it ends; a command
  waits for a lock that another thread holds. US dollars are counted in units of 1e-7, the scale of
  the columns. Investments are numbered in the order of their insertion, and investors have a number
  in place of their uuid.
-/

namespace AgriFi.Investments

open AgriFi.Runs
open AgriFi.Soroban (failIf)
open AgriFi.DealDelivered (Outcome)

/-! ## Tables -/

inductive InvestmentStatus where
  | pending
  | confirmed
  | active
  | releasing
  | completed
  | cancelled
  | failed
  | refunded
  deriving DecidableEq, Repr

structure Investment where
  investorId : Nat
  tokenAmount : Nat
  amountUsd : Nat
  status : InvestmentStatus
  createdAt : Nat
  deriving DecidableEq, Repr

inductive TradeDealStatus where
  | draft
  | opened
  | funded
  | delivered
  | completed
  | failed
  | canceled
  | expired
  deriving DecidableEq, Repr

structure TradeDeal where
  status : TradeDealStatus
  totalValue : Nat
  tokenCount : Nat
  totalInvested : Nat
  escrowPublicKey : Option String
  issuerPublicKey : Option String
  minLotSize : Option Nat
  lotStep : Option Nat
  deriving DecidableEq, Repr

/-- The deal's row, its investments, the `investment.fund` messages of the outbox by the investment
    each names, and the time in milliseconds. -/
structure Database where
  deal : TradeDeal
  investments : List Investment
  jobs : List Nat
  now : Nat
  deriving DecidableEq, Repr

/-- One US dollar. -/
def usd : Nat := 10 ^ 7

/-- A column that is neither null nor empty. -/
def isSet : Option String → Bool
  | none => false
  | some value => value ≠ ""

/-! ## Checks -/

/-- A request for an investment; `amountUsd` is in units and not yet rounded to the column. -/
structure CreateInvestmentDto where
  tokenAmount : Nat
  amountUsd : Rat
  deriving DecidableEq

inductive Refusal where
  | dealNotOpen
  | noEscrowAccount
  | noIssuerKey
  | insufficientTokens (availableTokens : Int)
  | lotSizeBelowMin
  | lotSizeInvalidStep
  | overFunding
  deriving DecidableEq, Repr

/-- What `createInvestment` checks of the deal it has locked. -/
def checkDeal (tradeDeal : TradeDeal) : Except Refusal Unit := do
  failIf (tradeDeal.status ≠ .opened) .dealNotOpen
  failIf (isSet tradeDeal.escrowPublicKey = false) .noEscrowAccount
  failIf (isSet tradeDeal.issuerPublicKey = false) .noIssuerKey

/-- `%`, for a dividend that is not negative. -/
def remainder (x y : Rat) : Rat := x - y * ⌊x / y⌋

def validateLotSize (amountUsd : Rat) (minLotSize lotStep : Nat) : Except Refusal Unit := do
  failIf (amountUsd < minLotSize) .lotSizeBelowMin
  failIf (lotStep > 0 ∧ remainder (amountUsd - minLotSize) lotStep ≠ 0) .lotSizeInvalidStep

def totalTokens (investments : List Investment) : Nat :=
  (investments.map Investment.tokenAmount).sum

def totalUsd (investments : List Investment) : Nat :=
  (investments.map Investment.amountUsd).sum

/-- What `createInvestment` checks against the investments it counts. -/
def checkInvestment (tradeDeal : TradeDeal) (currentInvestments : List Investment)
    (dto : CreateInvestmentDto) : Except Refusal Unit := do
  let availableTokens : Int := tradeDeal.tokenCount - totalTokens currentInvestments
  failIf (dto.tokenAmount > availableTokens) (.insufficientTokens availableTokens)
  validateLotSize dto.amountUsd (tradeDeal.minLotSize.getD usd) (tradeDeal.lotStep.getD usd)
  failIf (totalUsd currentInvestments + dto.amountUsd > tradeDeal.totalValue) .overFunding

/-- A Stellar transaction hash: 64 hexadecimal digits. -/
def isStellarTxHash (stellarTxId : List Char) : Bool :=
  stellarTxId.length = 64 ∧ stellarTxId.all fun c =>
    c.isDigit ∨ ('a' ≤ c ∧ c ≤ 'f') ∨ ('A' ≤ c ∧ c ≤ 'F')

/-! ## Reads and writes -/

namespace Database

def confirmed (db : Database) : List Investment :=
  db.investments.filter fun i => i.status = .confirmed

/-- The investment is there and `PENDING`. -/
def isPending (db : Database) (id : Nat) : Bool :=
  db.investments[id]?.any fun i => i.status = .pending

/-- The investment is there, `PENDING`, and its owner is the caller. -/
def isPendingOf (db : Database) (investorId id : Nat) : Bool :=
  db.investments[id]?.any fun i => i.investorId = investorId ∧ i.status = .pending

/-- The cooling-off window of the investment has passed. -/
def coolingOffExpired (db : Database) (coolingOffHours id : Nat) : Bool :=
  db.investments[id]?.any fun i => i.createdAt + coolingOffHours * 3600000 < db.now

def insert (db : Database) (investorId : Nat) (dto : CreateInvestmentDto) : Database :=
  { db with
    investments := db.investments ++
      [⟨investorId, dto.tokenAmount, (Stellar.toFixed7 dto.amountUsd).toNat, .pending, db.now⟩] }

def setStatus (db : Database) (id : Nat) (status : InvestmentStatus) : Database :=
  { db with investments := db.investments.modify id fun i => { i with status } }

/-- The update of `requestCoolingOffCancel`, `WHERE id = … AND status = 'pending'`. -/
def cancel (db : Database) (id : Nat) : Database :=
  if db.isPending id then db.setStatus id .cancelled else db

def enqueue (db : Database) (id : Nat) : Database := { db with jobs := db.jobs ++ [id] }

/-- `newTotalInvested` of `confirmInvestment`, whose transaction has set the status of `id`. -/
def newTotalInvested (db : Database) (id : Nat) : Nat :=
  totalUsd (db.setStatus id .confirmed).confirmed

/-- What the transaction of `confirmInvestment` has written when it ends. -/
def confirm (db : Database) (id newTotalInvested : Nat) : Database :=
  { db.setStatus id .confirmed with
    deal :=
      { db.deal with
        totalInvested := newTotalInvested
        status :=
          if newTotalInvested ≥ db.deal.totalValue ∧ db.deal.status = .opened then .funded
          else db.deal.status } }

end Database

/-! ## Threads -/

/-- `DEFAULT_QUEUE_MAX_RETRIES`. -/
def maxRetries : Nat := 3

/-- The command that a thread sends next. -/
inductive Pc where
  /-- The transaction of `createInvestment`: it locks the deal, finds the confirmed investments, and
      ends with the insertion. -/
  | lockDeal (investorId : Nat) (dto : CreateInvestmentDto)
  | findConfirmed (tradeDeal : TradeDeal) (investorId : Nat) (dto : CreateInvestmentDto)
  | insert (investorId : Nat) (dto : CreateInvestmentDto)
  /-- `confirmInvestment`: its read, then its transaction up to the commit. -/
  | readToConfirm (investorId id : Nat)
  | updateStatus (id : Nat)
  | findTotal (id : Nat)
  | updateTotal (id newTotalInvested : Nat)
  | commit (id newTotalInvested : Nat)
  /-- `fundEscrow`: its read, then the outbox or Stellar. -/
  | readToFund (id : Nat) (signed : Bool)
  | enqueue (id : Nat)
  | fundStellar (investorId id : Nat)
  /-- `requestCoolingOffCancel`. -/
  | readToCancel (investorId id : Nat)
  | cancel (id : Nat)
  /-- `processInvestmentFund`; `attempt` counts the failures so far. -/
  | readToProcess (id : Nat)
  | submit (id attempt : Nat)
  | updateConfirmed (id attempt : Nat)
  | markDone (id attempt : Nat)
  | updateFailed (id : Nat)
  | finished

/-! ### Where a thread goes on -/

/-- A read, or a command inside a transaction, went through; an error ends the call. -/
def onOk (pc : Pc) : Outcome → Pc
  | .ok => pc
  | .fail | .lost => .finished

/-- A write that commits at once, or a commit. -/
def written (db db' : Database) : Outcome → Database
  | .ok | .lost => db'
  | .fail => db

/-- The `catch` of the job's loop, and what follows its last attempt. -/
def retry (id attempt : Nat) : Pc :=
  if attempt + 1 < maxRetries then .submit id (attempt + 1) else .updateFailed id

def lockedDeal (tradeDeal : TradeDeal) (investorId : Nat) (dto : CreateInvestmentDto) : Pc :=
  if (checkDeal tradeDeal).isOk then .findConfirmed tradeDeal investorId dto else .finished

def counted (tradeDeal : TradeDeal) (currentInvestments : List Investment) (investorId : Nat)
    (dto : CreateInvestmentDto) : Pc :=
  if (checkInvestment tradeDeal currentInvestments dto).isOk then .insert investorId dto
  else .finished

/-- `confirmInvestment` before its first read. -/
def confirming (investorId id : Nat) (stellarTxId : List Char) : Pc :=
  if isStellarTxHash stellarTxId then .readToConfirm investorId id else .finished

/-- `fundEscrow` with its investment and the deal read. -/
def funding (db : Database) (id : Nat) (signed : Bool) : Pc :=
  match db.investments[id]? with
  | none => .finished
  | some investment =>
    if investment.status ≠ .pending ∨ isSet db.deal.escrowPublicKey = false then .finished
    else if signed then .enqueue id
    else .fundStellar investment.investorId id

/-! ### Commands -/

/-- The next database command of a thread. -/
def stepDb (coolingOffHours : Nat) (db : Database) (o : Outcome) : Pc → Option (Database × Pc)
  | .lockDeal investorId dto => some (db, onOk (lockedDeal db.deal investorId dto) o)
  | .findConfirmed tradeDeal investorId dto =>
    some (db, onOk (counted tradeDeal db.confirmed investorId dto) o)
  | .insert investorId dto => some (written db (db.insert investorId dto) o, .finished)
  | .readToConfirm investorId id =>
    some (db, onOk (if db.isPendingOf investorId id then .updateStatus id else .finished) o)
  | .updateStatus id => some (db, onOk (.findTotal id) o)
  | .findTotal id => some (db, onOk (.updateTotal id (db.newTotalInvested id)) o)
  | .updateTotal id newTotalInvested => some (db, onOk (.commit id newTotalInvested) o)
  | .commit id newTotalInvested => some (written db (db.confirm id newTotalInvested) o, .finished)
  | .readToFund id signed => some (db, onOk (funding db id signed) o)
  | .enqueue id => some (written db (db.enqueue id) o, .finished)
  | .readToCancel investorId id =>
    let refused := ¬ db.isPendingOf investorId id ∨ db.coolingOffExpired coolingOffHours id
    some (db, onOk (if refused then .finished else .cancel id) o)
  | .cancel id => some (written db (db.cancel id) o, .finished)
  | .readToProcess id => some (db, onOk (if db.isPending id then .submit id 0 else .finished) o)
  | .updateConfirmed id attempt =>
    let db' := written db (db.setStatus id .confirmed) o
    some (db', if o = .ok then .markDone id attempt else retry id attempt)
  | .markDone id attempt => some (db, if o = .ok then .finished else retry id attempt)
  | .updateFailed id => some (written db (db.setStatus id .failed) o, .finished)
  | .fundStellar _ _ | .submit _ _ | .finished => none

/-- Stellar's answer to a thread: a transaction hash, or an error. The job's submission and its
    transfer of the tokens are one request here. -/
def stepStellar (answer : Option (List Char)) : Pc → Option Pc
  | .fundStellar investorId id =>
    some (match answer with | none => .finished | some hash => confirming investorId id hash)
  | .submit id attempt =>
    some (match answer with | none => retry id attempt | some _ => .updateConfirmed id attempt)
  | _ => none

/-! ### Locks -/

/-- The thread's transaction has locked or written the deal's row. -/
def Pc.holdsDeal : Pc → Bool
  | .findConfirmed _ _ _ | .insert _ _ | .commit _ _ => true
  | _ => false

/-- The thread's transaction has written the row of investment `id`. -/
def Pc.holdsInvestment (id : Nat) : Pc → Bool
  | .findTotal id' | .updateTotal id' _ | .commit id' _ => id' = id
  | _ => false

/-- The thread's next command waits for a row that `holder` holds. -/
def Pc.waitsFor : Pc → Pc → Bool
  | .lockDeal _ _, holder | .updateTotal _ _, holder => holder.holdsDeal
  | .updateStatus id, holder | .cancel id, holder | .updateConfirmed id _, holder
  | .updateFailed id, holder => holder.holdsInvestment id
  | _, _ => false

/-! ## The system -/

structure System where
  db : Database
  threads : List Pc
  /-- `INVESTMENT_COOLING_OFF_HOURS`. -/
  coolingOffHours : Nat

inductive Action where
  /-- A call that has passed the checks before the transaction, of the investor, the wallet and the
      caps. None of them reads the deal's investments. -/
  | createInvestment (investorId : Nat) (dto : CreateInvestmentDto)
  | confirmInvestment (investorId id : Nat) (stellarTxId : List Char)
  | fundEscrow (id : Nat) (signed : Bool)
  | requestCoolingOffCancel (investorId id : Nat)
  /-- A message of the outbox is delivered, the first time or once more, and gets its lease. -/
  | deliver (n : Nat)
  | run (w : Nat) (o : Outcome)
  | stellar (w : Nat) (answer : Option (List Char))
  /-- The thread's process dies; its transaction is rolled back. -/
  | quit (w : Nat)
  | wait (ms : Nat)

def System.join (s : System) (pc : Pc) : System := { s with threads := s.threads ++ [pc] }

def next (s : System) : Action → Option System
  | .createInvestment investorId dto => some (s.join (.lockDeal investorId dto))
  | .confirmInvestment investorId id stellarTxId =>
    some (s.join (confirming investorId id stellarTxId))
  | .fundEscrow id signed => some (s.join (.readToFund id signed))
  | .requestCoolingOffCancel investorId id => some (s.join (.readToCancel investorId id))
  | .deliver n => do
    let id ← s.db.jobs[n]?
    some (s.join (.readToProcess id))
  | .run w o => do
    let pc ← s.threads[w]?
    if s.threads.any fun holder => pc.waitsFor holder then none
    else
      let (db, pc') ← stepDb s.coolingOffHours s.db o pc
      some { s with db, threads := s.threads.set w pc' }
  | .stellar w answer => do
    let pc ← s.threads[w]?
    let pc' ← stepStellar answer pc
    some { s with threads := s.threads.set w pc' }
  | .quit w => do
    let _ ← s.threads[w]?
    some { s with threads := s.threads.set w .finished }
  | .wait ms => some { s with db := { s.db with now := s.db.now + ms } }

/-- A deal without investments, and no threads yet. -/
def start (deal : TradeDeal) (coolingOffHours : Nat) : System :=
  ⟨⟨deal, [], [], 0⟩, [], coolingOffHours⟩

abbrev FundingRun (deal : TradeDeal) (coolingOffHours : Nat) (xs : List (Step System Action))
    (s : System) : Prop :=
  Run next (start deal coolingOffHours) xs s

end AgriFi.Investments
