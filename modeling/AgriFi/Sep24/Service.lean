import AgriFi.DealDelivered.Workers
import AgriFi.Investments.Service
import AgriFi.Runs

/-
  The status callbacks of one SEP-24 transaction (`src/stellar/sep24.service.ts`), from its
  initiation on. Each callback is a thread that sends one query at a time: the read of the row, for
  the completion of a withdrawal with a destination the read of the user, and the save, which
  writes the whole row as it was read, with what has changed. Users link other wallets meanwhile.
  What was found of users and the rows that were saved are history variables.
-/

namespace AgriFi.Sep24

open AgriFi.Investments AgriFi.Runs
open AgriFi.DealDelivered (Outcome)

/-! ## Data -/

inductive Sep24TxKind where
  | deposit
  | withdraw
  deriving DecidableEq

inductive Sep24TxStatus where
  | incomplete
  | pendingAnchor
  | pendingExternal
  | pendingStellar
  | pendingUser
  | pendingUserTransferStart
  | pendingTrust
  | completed
  | error
  | refunded
  | expired
  deriving DecidableEq

/-- The values of the enumeration. -/
def Sep24TxStatus.values : List (String × Sep24TxStatus) :=
  [("incomplete", .incomplete), ("pending_anchor", .pendingAnchor),
    ("pending_external", .pendingExternal), ("pending_stellar", .pendingStellar),
    ("pending_user", .pendingUser), ("pending_user_transfer_start", .pendingUserTransferStart),
    ("pending_trust", .pendingTrust), ("completed", .completed), ("error", .error),
    ("refunded", .refunded), ("expired", .expired)]

/-- `TERMINAL_STATUSES`. -/
def Sep24TxStatus.Terminal (status : Sep24TxStatus) : Prop :=
  status ∈ [completed, error, refunded, expired]

instance (status : Sep24TxStatus) : Decidable status.Terminal :=
  inferInstanceAs (Decidable (_ ∈ _))

structure Sep24Transaction where
  id : String
  userId : Option String
  kind : Sep24TxKind
  amountIn : Option String
  amountOut : Option String
  status : Sep24TxStatus
  message : Option String
  dest : Option String
  externalTxId : Option String
  stellarTransactionId : Option String
  destinationVerified : Bool
  deriving DecidableEq

structure User where
  id : String
  walletAddress : Option String

structure Sep24InteractiveRequest where
  amount : Option String
  dest : Option String

structure Sep24CallbackPayload where
  transactionId : String
  status : String
  message : Option String
  amountIn : Option String
  amountOut : Option String
  externalTransactionId : Option String
  stellarTransactionId : Option String

/-- The row of `initiateDepositInteractive` and `initiateWithdrawInteractive`. -/
def Sep24Transaction.initiated (id : String) (kind : Sep24TxKind) (req : Sep24InteractiveRequest)
    (userId : Option String) : Sep24Transaction where
  id := id
  userId := userId
  kind := kind
  amountIn := req.amount
  amountOut := none
  status := .pendingAnchor
  message := some "Complete verification in the interactive window."
  dest := if kind = .withdraw then req.dest else none
  externalTxId := none
  stellarTransactionId := none
  destinationVerified := false

/-- `ALLOWED_INSTITUTION_ADDRS`, and `trim`. -/
structure Setup where
  allowedInstitutionAddrs : String
  trim : String → String

def Setup.institutions (setup : Setup) : List String :=
  ((setup.allowedInstitutionAddrs.toList.splitOn ',').map fun addr =>
    setup.trim (String.ofList addr)).filter (· ≠ "")

/-- The rows, with what was found of users and what was saved. -/
structure State where
  row : Sep24Transaction
  users : List User
  found : List User
  saved : List Sep24Transaction

/-! ## A callback -/

inductive CallbackError where
  | fieldsRequired
  | invalidStatus (status : String)
  | transactionNotFound
  | noUser
  | userNotFound
  | foreignDestination
  | database
  deriving DecidableEq

/-- The next query. -/
inductive Pc where
  | findTransaction (payload : Sep24CallbackPayload) (status : Sep24TxStatus)
  | findUser (payload : Sep24CallbackPayload) (tx : Sep24Transaction) (userId : String)
  | save (tx : Sep24Transaction)
  | returned
  | threw (error : CallbackError)

def handleStatusCallback (payload : Sep24CallbackPayload) : Pc :=
  if payload.transactionId = "" ∨ payload.status = "" then .threw .fieldsRequired
  else
    match Sep24TxStatus.values.lookup payload.status with
    | none => .threw (.invalidStatus payload.status)
    | some status => .findTransaction payload status

/-- The columns that a callback sets. -/
def Sep24Transaction.withPayload (tx : Sep24Transaction) (payload : Sep24CallbackPayload)
    (status : Sep24TxStatus) : Sep24Transaction :=
  let given (field column : Option String) := if isSet field then field else column
  { tx with
    status
    message := given payload.message tx.message
    amountIn := given payload.amountIn tx.amountIn
    amountOut := given payload.amountOut tx.amountOut
    externalTxId := given payload.externalTransactionId tx.externalTxId
    stellarTransactionId := given payload.stellarTransactionId tx.stellarTransactionId }

/-- `verifyDestinationOwnership` up to its query. -/
def verifyDestinationOwnership (payload : Sep24CallbackPayload) (tx : Sep24Transaction) : Pc :=
  -- 'skipping ownership check'
  if isSet tx.dest = false then .save (tx.withPayload payload .completed)
  else
    match tx.userId with
    | none => .threw .noUser
    | some userId => if userId = "" then .threw .noUser else .findUser payload tx userId

def stepFindTransaction (row : Sep24Transaction) (payload : Sep24CallbackPayload)
    (status : Sep24TxStatus) : Pc :=
  if payload.transactionId ≠ row.id then .threw .transactionNotFound
  else if row.status.Terminal then .returned
  else if row.kind = .withdraw ∧ status = .completed then verifyDestinationOwnership payload row
  else .save (row.withPayload payload status)

/-- The destination is the user's wallet or an allowed institution. -/
def Setup.Owns (setup : Setup) (tx : Sep24Transaction) (user : User) : Prop :=
  tx.dest = user.walletAddress ∨ ∃ dest ∈ tx.dest, dest ∈ setup.institutions

instance (setup : Setup) (tx : Sep24Transaction) (user : User) : Decidable (setup.Owns tx user) :=
  inferInstanceAs (Decidable (_ ∨ ∃ dest ∈ tx.dest, _))

/-- `verifyDestinationOwnership` with the user that was found. -/
def Setup.stepFindUser (setup : Setup) (payload : Sep24CallbackPayload) (tx : Sep24Transaction)
    (found : Option User) : Pc :=
  match found with
  | none => .threw .userNotFound
  | some user =>
    if setup.Owns tx user then
      .save ({ tx with destinationVerified := true }.withPayload payload .completed)
    else .threw .foreignDestination

def onOk (o : Outcome) (pc : Pc) : Pc := if o = .ok then pc else .threw .database

def State.save (s : State) (tx : Sep24Transaction) : State :=
  { s with row := tx, saved := s.saved ++ [tx] }

def State.saveWith (s : State) (tx : Sep24Transaction) : Outcome → State
  | .ok | .lost => s.save tx
  | .fail => s

/-- One query of a callback. -/
def Setup.step (setup : Setup) (s : State) (o : Outcome) : Pc → Option (State × Pc)
  | .findTransaction payload status => some (s, onOk o (stepFindTransaction s.row payload status))
  | .findUser payload tx userId =>
    let user := s.users.find? (·.id = userId)
    let found := if o = .ok then s.found ++ user.toList else s.found
    some ({ s with found }, onOk o (setup.stepFindUser payload tx user))
  | .save tx => some (s.saveWith tx o, onOk o .returned)
  | .returned | .threw _ => none

/-! ## The system -/

structure System where
  state : State
  threads : List Pc

inductive Event where
  | handleStatusCallback (payload : Sep24CallbackPayload)
  | setUsers (users : List User)
  | run (w : Nat) (o : Outcome)

def Setup.next (setup : Setup) (sys : System) : Event → Option System
  | .handleStatusCallback payload =>
    some { sys with threads := sys.threads ++ [Sep24.handleStatusCallback payload] }
  | .setUsers users => some { sys with state := { sys.state with users } }
  | .run w o => do
    let pc ← sys.threads[w]?
    let (state, pc') ← setup.step sys.state o pc
    some ⟨state, sys.threads.set w pc'⟩

/-- The transaction is initiated. -/
def start (row : Sep24Transaction) : System := ⟨⟨row, [], [], [row]⟩, []⟩

abbrev CallbackRun (setup : Setup) (row : Sep24Transaction) (xs : List (Step System Event))
    (sys : System) : Prop :=
  Run setup.next (start row) xs sys

end AgriFi.Sep24
