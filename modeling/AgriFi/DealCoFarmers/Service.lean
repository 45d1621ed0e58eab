import AgriFi.EscrowService.Payouts
import AgriFi.Investments.Service
import AgriFi.Rows
import AgriFi.Threads

/-
  The co-farmers of one deal (`src/trade-deals/deal-co-farmers.service.ts`), beside `publishDeal` of
  the controller, which asserts that they are verified, and other services that move the deal's
  status. Each call is a thread that sends one query at a time, and a save writes the whole row as
  it was read, with what has changed. Portions are rationals, and hundredths of a percent in their
  column. The users stay as they are; e-mails are left out.
-/

namespace AgriFi.DealCoFarmers

open AgriFi.Investments AgriFi.Rows AgriFi.Runs
open AgriFi.DealDelivered (Outcome)
open AgriFi.EscrowService (mathRound)

/-! ## Data -/

structure User where
  id : String
  email : String
  walletAddress : Option String
  role : String
  kycStatus : String
  deriving DecidableEq

/-- The deal's columns that never change here, the users, and `toLowerCase`. -/
structure Setup where
  farmerId : String
  traderId : String
  documents : Nat
  users : List User
  toLowerCase : String → String

inductive DealCoFarmerStatus where
  | invited
  | accepted
  | declined
  | removed
  deriving DecidableEq

/-- A row, of which a deal has one for each farmer. -/
structure DealCoFarmer where
  farmerId : String
  portionPercent : Nat
  status : DealCoFarmerStatus
  invitationToken : Option String
  invitationExpiresAt : Option Int
  deriving DecidableEq

/-- The body of an invitation, with what its validation has found. -/
structure InviteCoFarmerDto where
  email : Option String
  walletAddress : Option String
  portionPercent : Rat
  least : 1 / 100 ≤ portionPercent
  most : portionPercent ≤ 100

/-- `numeric(5, 2)`. -/
def percentColumn (percent : Rat) : Nat := (mathRound (100 * percent)).toNat

inductive CoFarmerError where
  | missingInviteTarget
  | notDealOwner
  | dealNotModifiable
  | invalidCoFarmer
  | leadFarmerConflict
  | alreadyInvited
  | portionExceedsTotal
  | invitationNotFound
  | alreadyAccepted
  | invalidToken
  | coFarmerNotFound
  | coFarmersNotVerified (blocking : List (String × String))
  | notAssignedTrader
  | dealNotDraft
  | noDocuments
  | database
  deriving DecidableEq

/-- The deal's status and its rows. Whether the deal went live through `publishDeal`, and whether an
    invitation was saved since its co-farmers were last found verified, are history variables. -/
structure State where
  status : TradeDealStatus
  rows : List DealCoFarmer
  activated : Bool
  invitedSince : Bool

namespace State

def findOne (s : State) (farmerId : String) : Option DealCoFarmer :=
  s.rows.find? (·.farmerId = farmerId)

/-- The portions of the other co-farmers that are not removed, in hundredths. -/
def committedPortions (s : State) (farmerId : String) : Nat :=
  ((s.rows.filter fun r => r.status ≠ .removed && r.farmerId ≠ farmerId).map
    (·.portionPercent)).sum

def save (s : State) (record : DealCoFarmer) : State :=
  { s with rows := update (·.farmerId = record.farmerId) (fun _ => record) s.rows }

/-- The save of an invitation, of the row that was there or of a new one. -/
def saveInvitation (s : State) (existing : Option DealCoFarmer) (record : DealCoFarmer) :
    Option State :=
  if existing.isSome then some { s.save record with invitedSince := true }
  -- `UQ_deal_co_farmer`
  else if record.farmerId ∈ s.rows.map (·.farmerId) then none
  else some { s with rows := s.rows ++ [record], invitedSince := true }

end State

/-! ## Calls -/

/-- `INVITATION_TTL_MS`. -/
def invitationTtlMs : Int := 7 * 24 * 60 * 60 * 1000

/-- The next query of a call. -/
inductive Pc where
  | inviteFindDeal (inviterId : String) (dto : InviteCoFarmerDto) (token : String)
  | inviteFindTarget (dto : InviteCoFarmerDto) (token : String)
  | inviteFindExisting (target : User) (dto : InviteCoFarmerDto) (token : String)
  | inviteFindRows (target : User) (existing : Option DealCoFarmer) (dto : InviteCoFarmerDto)
      (token : String)
  | saveInvitation (existing : Option DealCoFarmer) (committedPortions : Nat)
      (record : DealCoFarmer)
  | acceptFind (userId token : String)
  | saveAccepted (read : DealCoFarmer)
  | declineFind (userId token : String)
  | saveDeclined (read : DealCoFarmer)
  | removeFindDeal (farmerId requesterId : String)
  | removeFind (farmerId : String)
  | saveRemoved (read : DealCoFarmer)
  | assertAllCoFarmersVerified (traderId : String)
  | publishDeal (traderId : String)
  | openDeal
  | returned
  | threw (error : CoFarmerError)

def onOk (pc : Pc) (o : Outcome) : Pc := if o = .ok then pc else .threw .database

def onWritten (o : Outcome) : Pc := onOk .returned o

def written (s s' : State) : Outcome → State
  | .ok | .lost => s'
  | .fail => s

def inviteCoFarmer (inviterId : String) (dto : InviteCoFarmerDto) (token : String) : Pc :=
  if isSet dto.email ∨ isSet dto.walletAddress then .inviteFindDeal inviterId dto token
  else .threw .missingInviteTarget

def Setup.stepInviteFindDeal (setup : Setup) (s : State) (inviterId : String)
    (dto : InviteCoFarmerDto) (token : String) : Pc :=
  if setup.farmerId ≠ inviterId ∧ setup.traderId ≠ inviterId then .threw .notDealOwner
  else if s.status ≠ .draft ∧ s.status ≠ .opened then .threw .dealNotModifiable
  else .inviteFindTarget dto token

def Setup.findTarget (setup : Setup) (dto : InviteCoFarmerDto) : Option User :=
  if isSet dto.walletAddress then setup.users.find? (·.walletAddress = dto.walletAddress)
  else setup.users.find? fun user => some user.email = dto.email.map setup.toLowerCase

def Setup.stepInviteFindTarget (setup : Setup) (dto : InviteCoFarmerDto) (token : String) : Pc :=
  match setup.findTarget dto with
  | none => .threw .invalidCoFarmer
  | some target =>
    if target.role ≠ "farmer" then .threw .invalidCoFarmer
    else if target.id = setup.farmerId then .threw .leadFarmerConflict
    else .inviteFindExisting target dto token

def stepInviteFindExisting (s : State) (target : User) (dto : InviteCoFarmerDto) (token : String) :
    Pc :=
  match s.findOne target.id with
  | none => .inviteFindRows target none dto token
  | some existing =>
    if existing.status ≠ .removed then .threw .alreadyInvited
    else .inviteFindRows target (some existing) dto token

def stepInviteFindRows (s : State) (now : Int) (target : User) (existing : Option DealCoFarmer)
    (dto : InviteCoFarmerDto) (token : String) : Pc :=
  let committedPortions := s.committedPortions target.id
  if 100 < committedPortions / 100 + dto.portionPercent then .threw .portionExceedsTotal
  else
    .saveInvitation existing committedPortions
      ⟨target.id, percentColumn dto.portionPercent, .invited, some token,
        some (now + invitationTtlMs)⟩

/-- `findInvitation`. -/
def findInvitation (s : State) (userId : String) : Except CoFarmerError DealCoFarmer :=
  match s.findOne userId with
  | none => .error .invitationNotFound
  | some record =>
    if record.status = .removed then .error .invitationNotFound
    else if record.status = .accepted then .error .alreadyAccepted
    else .ok record

def stepAcceptFind (s : State) (now : Int) (userId token : String) : Pc :=
  match findInvitation s userId with
  | .error e => .threw e
  | .ok record =>
    if record.invitationToken = some token ∧ ∃ expires ∈ record.invitationExpiresAt, now ≤ expires
    then .saveAccepted record
    else .threw .invalidToken

def stepDeclineFind (s : State) (userId token : String) : Pc :=
  match findInvitation s userId with
  | .error e => .threw e
  | .ok record =>
    if record.invitationToken = some token then .saveDeclined record else .threw .invalidToken

def Setup.stepRemoveFindDeal (setup : Setup) (s : State) (farmerId requesterId : String) : Pc :=
  if setup.farmerId ≠ requesterId ∧ setup.traderId ≠ requesterId then .threw .notDealOwner
  else if s.status = .delivered ∨ s.status = .completed then .threw .dealNotModifiable
  else .removeFind farmerId

def stepRemoveFind (s : State) (farmerId : String) : Pc :=
  match s.findOne farmerId with
  | none => .threw .coFarmerNotFound
  | some record => .saveRemoved record

/-- The rows as the three saves write them. -/
def DealCoFarmer.accepted (read : DealCoFarmer) : DealCoFarmer :=
  { read with status := .accepted, invitationToken := none }

def DealCoFarmer.declined (read : DealCoFarmer) : DealCoFarmer :=
  { read with status := .declined, invitationToken := none }

def DealCoFarmer.removed (read : DealCoFarmer) : DealCoFarmer := { read with status := .removed }

def Setup.kycStatus (setup : Setup) (farmerId : String) : Option String :=
  (setup.users.find? (·.id = farmerId)).map (·.kycStatus)

/-- Why a co-farmer blocks the deal. -/
def Setup.blocking (setup : Setup) (record : DealCoFarmer) : Option (String × String) :=
  if record.status = .removed then none
  else if record.status ≠ .accepted then some (record.farmerId, "invitation_not_accepted")
  else if setup.kycStatus record.farmerId ≠ some "verified" then
    some (record.farmerId, "kyc_" ++ (setup.kycStatus record.farmerId).getD "unknown")
  else none

/-- The rows that are found block the deal, or it goes on and nobody was invited since. -/
def Setup.stepAssertVerified (setup : Setup) (s : State) (traderId : String) (o : Outcome) :
    State × Pc :=
  if o ≠ .ok then (s, .threw .database)
  else
    match s.rows.filterMap setup.blocking with
    | [] => ({ s with invitedSince := false }, .publishDeal traderId)
    | blocking => (s, .threw (.coFarmersNotVerified blocking))

def Setup.stepPublishDeal (setup : Setup) (s : State) (traderId : String) : Pc :=
  if setup.traderId ≠ traderId then .threw .notAssignedTrader
  else if s.status ≠ .draft then .threw .dealNotDraft
  else if setup.documents = 0 then .threw .noDocuments
  else .openDeal

/-- One query of a call. -/
def Setup.step (setup : Setup) (s : State) (o : Outcome) (now : Int) : Pc → Option (State × Pc)
  | .inviteFindDeal inviterId dto token =>
    some (s, onOk (setup.stepInviteFindDeal s inviterId dto token) o)
  | .inviteFindTarget dto token => some (s, onOk (setup.stepInviteFindTarget dto token) o)
  | .inviteFindExisting target dto token =>
    some (s, onOk (stepInviteFindExisting s target dto token) o)
  | .inviteFindRows target existing dto token =>
    some (s, onOk (stepInviteFindRows s now target existing dto token) o)
  | .saveInvitation existing _ record =>
    match s.saveInvitation existing record with
    | none => some (s, .threw .database)
    | some s' => some (written s s' o, onWritten o)
  | .acceptFind userId token => some (s, onOk (stepAcceptFind s now userId token) o)
  | .saveAccepted read => some (written s (s.save read.accepted) o, onWritten o)
  | .declineFind userId token => some (s, onOk (stepDeclineFind s userId token) o)
  | .saveDeclined read => some (written s (s.save read.declined) o, onWritten o)
  | .removeFindDeal farmerId requesterId =>
    some (s, onOk (setup.stepRemoveFindDeal s farmerId requesterId) o)
  | .removeFind farmerId => some (s, onOk (stepRemoveFind s farmerId) o)
  | .saveRemoved read => some (written s (s.save read.removed) o, onWritten o)
  | .assertAllCoFarmersVerified traderId => some (setup.stepAssertVerified s traderId o)
  | .publishDeal traderId => some (s, onOk (setup.stepPublishDeal s traderId) o)
  -- the worker of the queue, when the tokens are issued
  | .openDeal => some (written s { s with status := .opened, activated := true } o, onWritten o)
  | .returned | .threw _ => none

/-! ## The system -/

structure System where
  state : State
  threads : List Pc

inductive Action where
  | inviteCoFarmer (inviterId : String) (dto : InviteCoFarmerDto) (token : String)
  | acceptInvitation (userId token : String)
  | declineInvitation (userId token : String)
  | removeCoFarmer (farmerId requesterId : String)
  | publishDeal (traderId : String)
  | setStatus (status : TradeDealStatus)
  | run (w : Nat) (o : Outcome) (now : Int)

def System.join (s : System) (pc : Pc) : System := { s with threads := s.threads ++ [pc] }

def Setup.next (setup : Setup) (s : System) : Action → Option System
  | .inviteCoFarmer inviterId dto token => some (s.join (inviteCoFarmer inviterId dto token))
  | .acceptInvitation userId token => some (s.join (.acceptFind userId token))
  | .declineInvitation userId token => some (s.join (.declineFind userId token))
  | .removeCoFarmer farmerId requesterId => some (s.join (.removeFindDeal farmerId requesterId))
  | .publishDeal traderId => some (s.join (.assertAllCoFarmersVerified traderId))
  | .setStatus status => some { s with state := { s.state with status } }
  | .run w o now => do
    let pc ← s.threads[w]?
    let (state, pc') ← setup.step s.state o now pc
    some ⟨state, s.threads.set w pc'⟩

/-- A draft without co-farmers. -/
def start : System := ⟨⟨.draft, [], false, true⟩, []⟩

abbrev CoFarmerRun (setup : Setup) (xs : List (Step System Action)) (s : System) : Prop :=
  Run setup.next start xs s

end AgriFi.DealCoFarmers
