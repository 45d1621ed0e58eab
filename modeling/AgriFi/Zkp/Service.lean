import Mathlib.Logic.Function.Basic
import AgriFi.DealDelivered.Workers
import AgriFi.Runs

/-
  The life of credential proofs (`src/zkp/zkp.service.ts`): they are generated, verified, revoked,
  expired and anchored. Each call is a thread that sends one query at a time; a save writes every
  column of the entity as it was loaded, with what the call has set. Which revocations were saved
  and which have returned are history variables, and a loaded entity remembers how many revocations
  of its proof had been saved.
-/

namespace AgriFi.Zkp

open AgriFi.Runs
open AgriFi.DealDelivered (Outcome)

/-! ## Data -/

inductive CredentialType where
  | creditScore
  | compliance
  | financialHealth
  | kyc
  deriving DecidableEq

inductive ProofStatus where
  | pending
  | active
  | revoked
  | expired
  deriving DecidableEq

inductive ZkpStandard where
  | groth16
  | plonk
  deriving DecidableEq

/-- `Inputs` are the public inputs of a circuit. -/
structure ZkpProof (Inputs : Type) where
  id : String
  ownerId : String
  credentialType : CredentialType
  proofPayload : String
  publicInputs : Inputs
  circuitId : String
  standard : ZkpStandard
  status : ProofStatus
  credentialCommitment : String
  stellarTxId : Option String
  expiresAt : Option Nat
  revocationReason : Option String
  generationTimeMs : Nat
  deriving DecidableEq

/-- What the circuit service has generated for an owner. -/
structure Generated (Inputs : Type) where
  ownerId : String
  credentialType : CredentialType
  proofPayload : String
  publicInputs : Inputs
  circuitId : String
  standard : ZkpStandard
  credentialCommitment : String
  generationTimeMs : Nat

variable {Inputs : Type}

/-- `DEFAULT_EXPIRY_MS`. -/
def defaultExpiryMs : Nat := 365 * 24 * 60 * 60 * 1000

/-- The row that `generateProof` creates at the time `now`. -/
def Generated.proof (result : Generated Inputs) (id : String) (now : Nat) : ZkpProof Inputs where
  id := id
  ownerId := result.ownerId
  credentialType := result.credentialType
  proofPayload := result.proofPayload
  publicInputs := result.publicInputs
  circuitId := result.circuitId
  standard := result.standard
  status := .active
  credentialCommitment := result.credentialCommitment
  stellarTxId := none
  expiresAt := some (now + defaultExpiryMs)
  revocationReason := none
  generationTimeMs := result.generationTimeMs

/-- `ZkpCircuitService.verifyProof`. -/
abbrev Circuit (Inputs : Type) :=
  (proofPayload : String) → Inputs → (circuitId credentialCommitment : String) → Bool

def ZkpProof.isExpired (proof : ZkpProof Inputs) (now : Nat) : Bool :=
  match proof.expiresAt with
  | none => false
  | some expiresAt => expiresAt < now

/-- The rows, and the ids whose revocation was saved and whose revocation has returned. -/
structure State (Inputs : Type) where
  proofs : String → Option (ZkpProof Inputs)
  now : Nat
  revocations : List String
  revoked : List String

/-- An entity as it was loaded. -/
structure Loaded (Inputs : Type) where
  proof : ZkpProof Inputs
  /-- How many revocations of the proof had been saved. -/
  seen : Nat
  deriving DecidableEq

/-! ## The calls -/

/-- A `verifyProof`, with the time of its call and whether a revocation of the proof had returned. -/
structure VerifyCall (Inputs : Type) where
  proofId : String
  callerPublicInputs : Option Inputs
  startedAt : Nat
  afterRevoked : Bool
  deriving DecidableEq

/-- The next query. -/
inductive Pc (Inputs : Type) where
  | generateSave (proof : ZkpProof Inputs)
  | verifyFind (call : VerifyCall Inputs)
  | verifyLog (call : VerifyCall Inputs) (valid : Bool)
  | revokeFind (proofId ownerId reason : String)
  | revokeSave (loaded : Loaded Inputs) (reason : String)
  | revokeLog (proofId : String)
  | expireFind (proofId : String)
  /-- The save of `expireProof`, for the verification that called it, if any. -/
  | expireSave (loaded : Loaded Inputs) (call : Option (VerifyCall Inputs))
  | anchorFind (proofId : String)
  | anchorSave (loaded : Loaded Inputs)
  | verified (call : VerifyCall Inputs) (valid : Bool)
  | returned
  | threw
  deriving DecidableEq

def State.load (s : State Inputs) (proof : ZkpProof Inputs) : Loaded Inputs :=
  ⟨proof, s.revocations.count proof.id⟩

def State.save (s : State Inputs) (proof : ZkpProof Inputs) : State Inputs :=
  { s with proofs := Function.update s.proofs proof.id (some proof) }

def verifyProof (circuit : Circuit Inputs) (s : State Inputs) (call : VerifyCall Inputs)
    (proof : ZkpProof Inputs) : Pc Inputs :=
  if proof.status = .revoked then .verifyLog call false
  else if proof.isExpired s.now then .expireSave (s.load proof) (some call)
  else
    .verifyLog call (circuit proof.proofPayload (call.callerPublicInputs.getD proof.publicInputs)
      proof.circuitId proof.credentialCommitment)

def revokeProof (s : State Inputs) (ownerId reason : String) (proof : ZkpProof Inputs) :
    Pc Inputs :=
  -- 'You can only revoke your own proofs'
  if proof.ownerId ≠ ownerId then .threw
  -- 'Proof is already revoked'
  else if proof.status = .revoked then .threw
  else .revokeSave (s.load proof) reason

def ZkpProof.revoke (proof : ZkpProof Inputs) (reason : String) : ZkpProof Inputs :=
  { proof with status := .revoked, revocationReason := some reason }

def ZkpProof.expire (proof : ZkpProof Inputs) : ZkpProof Inputs :=
  { proof with status := .expired }

/-- `anchorProofOnChain` sets the transaction id to null. -/
def ZkpProof.anchor (proof : ZkpProof Inputs) : ZkpProof Inputs :=
  { proof with stellarTxId := none }

/-- `findOne`, and what the call does with the proof. -/
def State.findOne (s : State Inputs) (id : String) (o : Outcome)
    (found : ZkpProof Inputs → Pc Inputs) : Pc Inputs :=
  match o, s.proofs id with
  | .ok, some proof => found proof
  | _, _ => .threw

/-- The outcome of a save, and what the call does next. -/
def State.saveWith (s : State Inputs) (proof : ZkpProof Inputs) (o : Outcome)
    (saved failed : Pc Inputs) : State Inputs × Pc Inputs :=
  match o with
  | .ok => (s.save proof, saved)
  | .lost => (s.save proof, failed)
  | .fail => (s, failed)

/-- One query of a call. An audit log that cannot be written stops no call. -/
def step (circuit : Circuit Inputs) (s : State Inputs) (o : Outcome) :
    Pc Inputs → Option (State Inputs × Pc Inputs)
  | .generateSave proof =>
    -- the primary key
    if (s.proofs proof.id).isSome then some (s, .threw)
    else some (s.saveWith proof o .returned .threw)
  | .verifyFind call => some (s, s.findOne call.proofId o (verifyProof circuit s call))
  | .verifyLog call valid => some (s, .verified call valid)
  | .revokeFind proofId ownerId reason =>
    some (s, s.findOne proofId o (revokeProof s ownerId reason))
  | .revokeSave loaded reason =>
    let done := s.saveWith (loaded.proof.revoke reason) o (.revokeLog loaded.proof.id) .threw
    let revocations :=
      if o = .fail then s.revocations else loaded.proof.id :: s.revocations
    some ({ done.1 with revocations }, done.2)
  | .revokeLog proofId => some ({ s with revoked := proofId :: s.revoked }, .returned)
  | .expireFind proofId =>
    some (s, s.findOne proofId o fun proof => .expireSave (s.load proof) none)
  | .expireSave loaded call =>
    let saved := call.elim .returned fun call => .verifyLog call false
    some (s.saveWith loaded.proof.expire o saved .threw)
  | .anchorFind proofId => some (s, s.findOne proofId o fun proof => .anchorSave (s.load proof))
  -- a failed anchoring returns null as well
  | .anchorSave loaded => some (s.saveWith loaded.proof.anchor o .returned .returned)
  | .verified _ _ | .returned | .threw => none

/-! ## The system -/

structure System (Inputs : Type) where
  state : State Inputs
  threads : List (Pc Inputs)

inductive Event (Inputs : Type) where
  /-- The database gives the new row the id. -/
  | generateProof (id : String) (result : Generated Inputs)
  | verifyProof (proofId : String) (callerPublicInputs : Option Inputs)
  | revokeProof (proofId ownerId reason : String)
  | expireProof (proofId : String)
  | anchorProofOnChain (proofId : String)
  | tick (ms : Nat)
  | run (w : Nat) (o : Outcome)

def System.call (sys : System Inputs) (pc : Pc Inputs) : System Inputs :=
  { sys with threads := sys.threads ++ [pc] }

def next (circuit : Circuit Inputs) (sys : System Inputs) : Event Inputs → Option (System Inputs)
  | .generateProof id result => some (sys.call (.generateSave (result.proof id sys.state.now)))
  | .verifyProof proofId callerPublicInputs =>
    some (sys.call (.verifyFind
      ⟨proofId, callerPublicInputs, sys.state.now, decide (proofId ∈ sys.state.revoked)⟩))
  | .revokeProof proofId ownerId reason => some (sys.call (.revokeFind proofId ownerId reason))
  | .expireProof proofId => some (sys.call (.expireFind proofId))
  | .anchorProofOnChain proofId => some (sys.call (.anchorFind proofId))
  | .tick ms => some { sys with state := { sys.state with now := sys.state.now + ms } }
  | .run w o => do
    let pc ← sys.threads[w]?
    let (state, pc') ← step circuit sys.state o pc
    some ⟨state, sys.threads.set w pc'⟩

/-- No proofs yet. -/
def empty : System Inputs := ⟨⟨fun _ => none, 0, [], []⟩, []⟩

abbrev ProofRun (circuit : Circuit Inputs) (xs : List (Step (System Inputs) (Event Inputs)))
    (sys : System Inputs) : Prop :=
  Run (next circuit) empty xs sys

end AgriFi.Zkp
