import Mathlib.Data.List.Basic
import AgriFi.DealDelivered.Workers
import AgriFi.Runs

/-
  The signing links of documents (`src/documents/signature-request.service.ts`): a request for a
  co-signer's signature is created with a link, the link is verified, a signature is submitted
  through it, and a request is revoked. Each call is a thread that sends one query, or calls one
  other service, at a time. A token is verified exactly when it was signed with the secret of the
  service, which signs other tokens as well; uuids are never drawn twice. Which links were issued is
  a history variable.
-/

namespace AgriFi.SignatureRequests

open AgriFi.Runs
open AgriFi.DealDelivered (Outcome)

/-! ## Data -/

inductive SignatureRequestStatus where
  | pending
  | signed
  | expired
  | revoked
  deriving DecidableEq

inductive SignatureMethod where
  | sep10
  | openpgp
  deriving DecidableEq

structure SignatureRequest where
  id : String
  documentId : String
  coSignerId : String
  requesterId : String
  status : SignatureRequestStatus
  signingToken : String
  signingTokenHash : String
  signingTokenExpiresAt : Int
  pfpHash : Option String
  stellarTxId : Option String
  signatureMethod : Option SignatureMethod
  signedAt : Option Int
  deriving DecidableEq

structure Document where
  id : String
  ipfsHash : String
  deriving DecidableEq

structure User where
  id : String
  walletAddress : Option String

/-- What a token says. The time of its expiry is in seconds. -/
structure Payload where
  sid : String
  doc : String
  cosigner : String
  requester : String
  typ : String
  jti : String
  exp : Int
  deriving DecidableEq

/-- The link of a request. -/
structure Link where
  requestId : String
  token : String
  deriving DecidableEq

/-- The rows, the time in milliseconds, the tokens signed, and the uuids drawn for requests and for
    tokens. -/
structure State where
  requests : List SignatureRequest
  documents : List Document
  users : List User
  now : Int
  signed : List (String × Payload)
  requestIds : List String
  tokenIds : List String
  links : List Link

/-- The configuration, and the libraries and services that are called. -/
structure Setup where
  /-- `SIGNING_LINK_TTL_SECONDS`. -/
  signingLinkTtlSeconds : Int
  encode : Payload → String
  sha256 : String → String
  /-- `fetchAndVerifyIpfsDocument`. -/
  fetchDocument : (ipfsHash : String) → Option String
  /-- Some trusted key verifies the armored signature of the bytes. -/
  openPgpVerifies : (file signatureAsc : String) → Bool
  /-- The envelope is signed by the wallet. -/
  sep10Verifies : (walletAddress envelope : String) → Bool
  /-- The id of the Stellar transaction that anchors the hash. -/
  anchorIpfsCid : (pfpHash : String) → String
  /-- The logger has a method `info`. -/
  loggerInfo : Bool

def defaultSigningTtlSeconds : Int := 7 * 24 * 3600

def maxSigningTtlSeconds : Int := 30 * 24 * 3600

def Setup.resolveTtl (setup : Setup) (requested : Option Int) : Int :=
  match requested with
  | some ttl =>
    if 1 ≤ ttl ∧ ttl ≤ maxSigningTtlSeconds then ttl
    else min (max setup.signingLinkTtlSeconds 1) maxSigningTtlSeconds
  | none => min (max setup.signingLinkTtlSeconds 1) maxSigningTtlSeconds

/-! ## The calls -/

/-- A `createSignatureRequest`, with the uuids that it and the database draw. -/
structure CreateCall where
  documentId : String
  coSignerId : String
  requesterId : String
  ttlSeconds : Option Int
  sid : String
  jti : String
  id : String
  deriving DecidableEq

inductive Submission where
  | openPgp (documentId signatureAsc : String)
  | sep10 (documentId stellarEnvelope : String)
  deriving DecidableEq

inductive Refusal where
  | documentNotFound
  | sameUser
  | coSignerNotFound
  | invalidToken
  | notASigningLink
  | requestNotFound
  | notPending (status : SignatureRequestStatus)
  | linkExpired
  | tokenMismatch
  | signatureRequired
  | signatureTooLong
  | signatureInvalid
  | storage
  | anchoring
  | logger
  | database
  deriving DecidableEq

/-- The next query or call. A verification is done for a submission or on its own. -/
inductive Pc where
  | createFindDocument (call : CreateCall)
  | createFindCoSigner (call : CreateCall)
  | createSave (request : SignatureRequest)
  | createNotify (request : SignatureRequest)
  | verifyFind (token : String) (payload : Payload) (purpose : Option Submission)
  | markExpired (id : String)
  | signFindDocument (id coSignerId : String) (submission : Submission)
  | signFetch (id ipfsHash signatureAsc : String)
  | signFindWallet (id coSignerId envelope : String)
  | signRevoke (id : String)
  | signAnchor (id : String) (method : SignatureMethod) (pfpHash : String)
  | signUpdate (id : String) (method : SignatureMethod) (pfpHash txId : String)
  | signNotify (id : String)
  | revokeFind (id : String)
  | revokeUpdate (id : String)
  | revokeReload (id : String)
  | created (link : Link)
  | accepted (id documentId coSignerId : String)
  | signed (id : String)
  | revoked (id : String)
  | threw (refusal : Refusal)
  deriving DecidableEq

/-! ## Creation -/

def createFindDocument (call : CreateCall) (found : Option Document) : Pc :=
  if found = none then .threw .documentNotFound
  else if call.coSignerId = call.requesterId then .threw .sameUser
  else .createFindCoSigner call

/-- The payload of the link, whose `sid` is a new uuid. -/
def Setup.payload (setup : Setup) (now : Int) (call : CreateCall) : Payload where
  sid := call.sid
  doc := call.documentId
  cosigner := call.coSignerId
  requester := call.requesterId
  typ := "signing_link"
  jti := call.jti
  exp := now / 1000 + setup.resolveTtl call.ttlSeconds

/-- The row that is saved; its id is drawn by the database. -/
def Setup.request (setup : Setup) (now : Int) (call : CreateCall) : SignatureRequest where
  id := call.id
  documentId := call.documentId
  coSignerId := call.coSignerId
  requesterId := call.requesterId
  status := .pending
  signingToken := setup.encode (setup.payload now call)
  signingTokenHash := setup.sha256 (setup.encode (setup.payload now call))
  signingTokenExpiresAt := now + setup.resolveTtl call.ttlSeconds * 1000
  pfpHash := none
  stellarTxId := none
  signatureMethod := none
  signedAt := none

def SignatureRequest.link (request : SignatureRequest) : Link := ⟨request.id, request.signingToken⟩

/-- `logger.info`, before the call returns. -/
def Setup.logged (setup : Setup) (pc : Pc) : Pc :=
  if setup.loggerInfo then pc else .threw .logger

/-! ## Verification -/

/-- `jwtService.verify`. -/
def State.verifyJwt (s : State) (token : String) : Option Payload := do
  let payload ← s.signed.lookup token
  if s.now / 1000 < payload.exp then some payload else none

/-- `verifySigningToken` up to its query. -/
def State.verifySigningToken (s : State) (token : String) (purpose : Option Submission) : Pc :=
  match s.verifyJwt token with
  | none => .threw .invalidToken
  | some payload =>
    if payload.typ ≠ "signing_link" then .threw .notASigningLink
    else .verifyFind token payload purpose

def State.findRequest (s : State) (id : String) : Option SignatureRequest :=
  s.requests.find? (·.id = id)

/-- What a verified link is used for. -/
def submit (id : String) (payload : Payload) : Option Submission → Pc
  | none => .accepted id payload.doc payload.cosigner
  | some (.openPgp documentId signatureAsc) =>
    if signatureAsc = "" then .threw .signatureRequired
    else if 4096 < signatureAsc.length then .threw .signatureTooLong
    else .signFindDocument id payload.cosigner (.openPgp documentId signatureAsc)
  | some (.sep10 documentId stellarEnvelope) =>
    if stellarEnvelope = "" then .threw .signatureRequired
    else .signFindDocument id payload.cosigner (.sep10 documentId stellarEnvelope)

def Setup.stepVerifyFind (setup : Setup) (now : Int) (token : String) (payload : Payload)
    (purpose : Option Submission) (found : Option SignatureRequest) : Pc :=
  match found with
  | none => .threw .requestNotFound
  | some request =>
    if request.status ≠ .pending then .threw (.notPending request.status)
    else if request.signingTokenExpiresAt ≤ now then .markExpired request.id
    else if request.signingTokenHash ≠ setup.sha256 token then .threw .tokenMismatch
    else submit request.id payload purpose

/-! ## Signatures -/

def stepSignFindDocument (id coSignerId : String) (submission : Submission)
    (documents : List Document) : Pc :=
  let found (documentId : String) := documents.find? (·.id = documentId)
  match submission with
  | .openPgp documentId signatureAsc =>
    match found documentId with
    | none => .threw .documentNotFound
    | some document => .signFetch id document.ipfsHash signatureAsc
  | .sep10 documentId stellarEnvelope =>
    match found documentId with
    | none => .threw .documentNotFound
    | some _ => .signFindWallet id coSignerId stellarEnvelope

def Setup.stepSignFetch (setup : Setup) (id ipfsHash signatureAsc : String) : Pc :=
  match setup.fetchDocument ipfsHash with
  | none => .threw .storage
  | some file =>
    if setup.openPgpVerifies file signatureAsc then
      .signAnchor id .openpgp (setup.sha256 signatureAsc)
    else .signRevoke id

def Setup.stepSignFindWallet (setup : Setup) (id coSignerId envelope : String)
    (users : List User) : Pc :=
  match (users.find? (·.id = coSignerId)).bind User.walletAddress with
  | none => .signRevoke id
  | some walletAddress =>
    if setup.sep10Verifies walletAddress envelope then
      .signAnchor id .sep10 (setup.sha256 envelope)
    else .signRevoke id

def stepRevokeFind (id : String) (found : Option SignatureRequest) : Pc :=
  match found with
  | none => .threw .requestNotFound
  | some request =>
    if request.status ≠ .pending then .threw (.notPending request.status) else .revokeUpdate id

/-! ## Steps -/

/-- `requestRepo.update(id, …)`. -/
def State.update (s : State) (id : String) (set : SignatureRequest → SignatureRequest) : State :=
  { s with requests := s.requests.map fun request =>
      if request.id = id then set request else request }

def SignatureRequest.withStatus (status : SignatureRequestStatus) (request : SignatureRequest) :
    SignatureRequest :=
  { request with status }

def SignatureRequest.sign (now : Int) (method : SignatureMethod) (pfpHash txId : String)
    (request : SignatureRequest) : SignatureRequest :=
  { request with
    status := .signed
    signatureMethod := some method
    pfpHash := some pfpHash
    stellarTxId := some txId
    signedAt := some now }

def State.saveRequest (s : State) (request : SignatureRequest) : State :=
  { s with requests := s.requests ++ [request], links := s.links ++ [request.link] }

/-- The outcome of a write, and what the call does next. -/
def written (s s' : State) (o : Outcome) (pc : Pc) : State × Pc :=
  match o with
  | .ok => (s', pc)
  | .lost => (s', .threw .database)
  | .fail => (s, .threw .database)

def onOk (o : Outcome) (pc : Pc) : Pc := if o = .ok then pc else .threw .database

/-- One query or call. Notifications that fail stop no call. -/
def Setup.step (setup : Setup) (s : State) (o : Outcome) : Pc → Option (State × Pc)
  | .createFindDocument call =>
    some (s, onOk o (createFindDocument call (s.documents.find? (·.id = call.documentId))))
  | .createFindCoSigner call =>
    if o = .ok ∧ (s.users.find? (·.id = call.coSignerId)).isSome then
      let payload := setup.payload s.now call
      some ({ s with signed := (setup.encode payload, payload) :: s.signed },
        .createSave (setup.request s.now call))
    else some (s, onOk o (.threw .coSignerNotFound))
  | .createSave request => some (written s (s.saveRequest request) o (.createNotify request))
  -- the co-signer's e-mail is read
  | .createNotify request => some (s, onOk o (setup.logged (.created request.link)))
  | .verifyFind token payload purpose =>
    some (s, onOk o
      (setup.stepVerifyFind s.now token payload purpose (s.findRequest payload.sid)))
  | .markExpired id =>
    some (written s (s.update id (.withStatus .expired)) o (.threw .linkExpired))
  | .signFindDocument id coSignerId submission =>
    some (s, onOk o (stepSignFindDocument id coSignerId submission s.documents))
  | .signFetch id ipfsHash signatureAsc =>
    some (s, if o = .ok then setup.stepSignFetch id ipfsHash signatureAsc else .threw .storage)
  | .signFindWallet id coSignerId envelope =>
    some (s, onOk o (setup.stepSignFindWallet id coSignerId envelope s.users))
  | .signRevoke id =>
    some (written s (s.update id (.withStatus .revoked)) o (.threw .signatureInvalid))
  | .signAnchor id method pfpHash =>
    some (s, if o = .ok then .signUpdate id method pfpHash (setup.anchorIpfsCid pfpHash)
      else .threw .anchoring)
  | .signUpdate id method pfpHash txId =>
    some (written s (s.update id (.sign s.now method pfpHash txId)) o (.signNotify id))
  | .signNotify id => some (s, setup.logged (.signed id))
  | .revokeFind id => some (s, onOk o (stepRevokeFind id (s.findRequest id)))
  | .revokeUpdate id =>
    some (written s (s.update id (.withStatus .revoked)) o (.revokeReload id))
  | .revokeReload id =>
    some (s, onOk o (if (s.findRequest id).isSome then .revoked id else .threw .requestNotFound))
  | .created _ | .accepted _ _ _ | .signed _ | .revoked _ | .threw _ => none

/-! ## The system -/

structure System where
  state : State
  threads : List Pc

inductive Event where
  | createSignatureRequest (call : CreateCall)
  | verifySigningToken (token : String)
  | processSignature (token : String) (submission : Submission)
  | revokeSignatureRequest (id : String)
  /-- Another service signs a token with the same secret. -/
  | signOther (token : String) (payload : Payload)
  | setDocuments (documents : List Document)
  | setUsers (users : List User)
  | tick (ms : Nat)
  | run (w : Nat) (o : Outcome)

def System.call (sys : System) (pc : Pc) : System := { sys with threads := sys.threads ++ [pc] }

/-- The uuids of the call were never drawn before. -/
def CreateCall.Fresh (call : CreateCall) (s : State) : Prop :=
  [call.id, call.sid, call.jti].Nodup ∧
    ∀ uuid ∈ [call.id, call.sid, call.jti], uuid ∉ s.requestIds ∧ uuid ∉ s.tokenIds

instance (call : CreateCall) (s : State) : Decidable (call.Fresh s) :=
  inferInstanceAs (Decidable (_ ∧ _))

def State.draw (s : State) (call : CreateCall) : State :=
  { s with
    requestIds := call.id :: s.requestIds
    tokenIds := call.sid :: call.jti :: s.tokenIds }

def Setup.next (setup : Setup) (sys : System) : Event → Option System
  | .createSignatureRequest call =>
    if call.Fresh sys.state then
      some ⟨sys.state.draw call, sys.threads ++ [.createFindDocument call]⟩
    else none
  | .verifySigningToken token => some (sys.call (sys.state.verifySigningToken token none))
  | .processSignature token submission =>
    some (sys.call (sys.state.verifySigningToken token (some submission)))
  | .revokeSignatureRequest id => some (sys.call (.revokeFind id))
  | .signOther token payload =>
    if payload.typ = "signing_link" then none
    else some { sys with state := { sys.state with signed := (token, payload) :: sys.state.signed } }
  | .setDocuments documents => some { sys with state := { sys.state with documents } }
  | .setUsers users => some { sys with state := { sys.state with users } }
  | .tick ms => some { sys with state := { sys.state with now := sys.state.now + ms } }
  | .run w o => do
    let pc ← sys.threads[w]?
    let (state, pc') ← setup.step sys.state o pc
    some ⟨state, sys.threads.set w pc'⟩

/-- No requests yet. -/
def start (now : Int) : System := ⟨⟨[], [], [], now, [], [], [], []⟩, []⟩

abbrev SigningRun (setup : Setup) (now : Int) (xs : List (Step System Event)) (sys : System) :
    Prop :=
  Run setup.next (start now) xs sys

end AgriFi.SignatureRequests
