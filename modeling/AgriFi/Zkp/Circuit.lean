import AgriFi.Base64
import AgriFi.JsonText
import AgriFi.Zkp.Service

/-
  The circuits of credential proofs (`src/zkp/zkp-circuit.service.ts`). A payload is a JSON value
  that is read as it comes, so its fields may have any type. SHA-256, `Number`, lower case, `trim`
  and the reading of bytes that are no UTF-8 are parameters.
-/

namespace AgriFi.ZkpCircuit

open AgriFi.JsonText AgriFi.Middle
open AgriFi.JsValue (Number)
open AgriFi.JsString (str)
open AgriFi.Zkp (CredentialType ZkpStandard)

structure Library where
  /-- The hexadecimal digest. -/
  sha256 : List UInt8 → JsString
  /-- `Number(value)`. -/
  number : Value → Number
  toLowerCase : JsString → JsString
  trim : JsString → JsString
  malformed : List UInt8 → List Char

/-- The value of the enumeration. -/
def typeText : CredentialType → JsString
  | .creditScore => str "credit_score"
  | .compliance => str "compliance"
  | .financialHealth => str "financial_health"
  | .kyc => str "kyc"

def standardText : ZkpStandard → JsString
  | .groth16 => str "groth16"
  | .plonk => str "plonk"

/-- The circuit of `CIRCUIT_DEFINITIONS`. -/
def getCircuitId : CredentialType → JsString
  | .creditScore => str "credit_score_range_v1"
  | .compliance => str "compliance_status_v1"
  | .financialHealth => str "financial_health_threshold_v1"
  | .kyc => str "kyc_verified_v1"

/-! ## Objects -/

def entry (es : List (JsString × Value)) (key : JsString) : Option Value :=
  (es.find? fun e => e.1 = key).map Prod.snd

/-- The text of an index. -/
def indexText (i : Nat) : JsString := JsString.ofChars (Number.digitsOf i)

/-- `Object.keys`, which throws for `null` and `undefined`. -/
def ownKeys : Value → Option (List JsString)
  | .undefined | .null => none
  | .bool _ | .num _ => some []
  | .str s => some ((List.range s.length).map indexText)
  | .arr xs => some ((List.range xs.length).map indexText)
  | .obj es => some (es.map Prod.fst)

/-- `value[key]` for one of the own keys. -/
def field (v : Value) (key : JsString) : Value :=
  match v with
  | .obj es => (entry es key).getD .undefined
  | .arr xs => ((xs.zipIdx.find? fun x => indexText x.2 = key).map Prod.fst).getD .undefined
  | .str s => ((s.zipIdx.find? fun x => indexText x.2 = key).map fun x => .str [x.1]).getD .undefined
  | _ => .undefined

/-- Reading a property, which throws for `null` and `undefined`. -/
def property (v : Value) (key : String) : Option Value :=
  match v with
  | .undefined | .null => none
  | v => some (field v (str key))

mutual

/-- The keys of a list, in its order, at every depth. -/
def restrict (allow : List JsString) : Value → Value
  | .arr xs => .arr (restrictElements allow xs)
  | .obj es =>
    let es := restrictMembers allow es
    .obj (allow.filterMap fun k => (entry es k).map fun v => (k, v))
  | v => v

def restrictElements (allow : List JsString) : List Value → List Value
  | [] => []
  | x :: xs => restrict allow x :: restrictElements allow xs

def restrictMembers (allow : List JsString) :
    List (JsString × Value) → List (JsString × Value)
  | [] => []
  | (k, v) :: es => (k, restrict allow v) :: restrictMembers allow es

end

mutual

/-- What `join` writes for an element. -/
def joinText : Value → JsString
  | .undefined | .null => []
  | .bool b => str (if b then "true" else "false")
  | .num n => JsString.ofChars (Number.toText n)
  | .str s => s
  | .arr xs => (str ",").intercalate (joinTexts xs)
  | .obj _ => str "[object Object]"

def joinTexts : List Value → List JsString
  | [] => []
  | x :: xs => joinText x :: joinTexts xs

end

section Service

variable (lib : Library)

def computeCommitment (credentialValue : JsString) : JsString :=
  lib.sha256 (JsString.utf8 credentialValue)

/-! ## Admission -/

def numberText (n : Number) : String := String.ofList (Number.toText n)

/-- The bounds, and the threshold, of a circuit over scores. -/
structure ScoreCircuit where
  lo : Rat
  hi : Rat
  rangeError : String
  thresholdError : String
  name : String

def creditScore : ScoreCircuit :=
  ⟨300, 850, "Credit score must be a number between 300 and 850",
    "Credit score threshold must be between 300 and 850", "Credit score"⟩

def financialHealth : ScoreCircuit :=
  ⟨0, 100, "Financial health score must be a number between 0 and 100",
    "Financial health threshold must be between 0 and 100", "Financial health score"⟩

def isOutside (c : ScoreCircuit) (n : Number) : Bool :=
  n = .nan || n.lt (.finite c.lo) || Number.lt (.finite c.hi) n

def validateScore (c : ScoreCircuit) (credentialValue : JsString) (publicInputs : Value) :
    Except String Unit := do
  let score := lib.number (.str credentialValue)
  if isOutside c score then throw c.rangeError
  match field publicInputs (str "threshold") with
  | .undefined => pure ()
  | threshold =>
    let t := lib.number threshold
    if isOutside c t then throw c.thresholdError
    if score.lt t then
      throw (s!"{c.name} {numberText score} does not meet threshold {numberText t} " ++
        "— cannot generate proof")

def validateCircuitInputs (credentialType : CredentialType) (credentialValue : JsString)
    (publicInputs : Value) : Except String Unit := do
  if credentialValue = [] ∨ lib.trim credentialValue = [] then
    throw "Credential value cannot be empty"
  match credentialType with
  | .creditScore => validateScore lib creditScore credentialValue publicInputs
  | .compliance =>
    if lib.toLowerCase credentialValue ∉ [str "verified", str "pending", str "rejected"] then
      throw "Compliance status must be one of: verified, pending, rejected"
  | .financialHealth => validateScore lib financialHealth credentialValue publicInputs
  | .kyc =>
    if lib.toLowerCase credentialValue ≠ str "verified" then
      throw "KYC proof can only be generated for verified status"

/-! ## Payloads -/

/-- The signature; `none` where the keys of the inputs cannot be listed. -/
def computeProofSignature (circuitId standard credentialCommitment nonce publicInputs : Value) :
    Option JsString := do
  let keys ← ownKeys publicInputs
  let inputs ← stringify (restrict (sortOn id keys) publicInputs)
  let data := (str "|").intercalate
    [joinText circuitId, joinText standard, joinText credentialCommitment, joinText nonce,
      JsString.ofChars inputs]
  some (lib.sha256 (JsString.utf8 data ++ JsString.utf8 (joinText circuitId)))

def payloadEntries (circuitId standard credentialCommitment credentialType publicInputs nonce
    signature : Value) : List (JsString × Value) :=
  [(str "circuitId", circuitId), (str "standard", standard),
    (str "credentialCommitment", credentialCommitment), (str "credentialType", credentialType),
    (str "publicInputs", publicInputs), (str "nonce", nonce), (str "signature", signature),
    (str "version", .num (.finite 1))]

/-- The object that is written as a payload. -/
def payload (circuitId standard credentialCommitment credentialType publicInputs nonce
    signature : Value) : Value :=
  .obj (payloadEntries circuitId standard credentialCommitment credentialType publicInputs nonce
    signature)

def encodePayload (v : Value) : List Char := Base64.encode (JsString.encodeUtf8 (text v))

def decodeProofPayload (proofPayload : List Char) : Option Value :=
  parse (JsString.decodeUtf8 lib.malformed (Base64.decode proofPayload))

def buildProofPayload (circuitId standard credentialCommitment credentialType nonce : JsString)
    (publicInputs : Value) : Option (List Char) := do
  let signature ← computeProofSignature lib (.str circuitId) (.str standard)
    (.str credentialCommitment) (.str nonce) publicInputs
  some (encodePayload (payload (.str circuitId) (.str standard) (.str credentialCommitment)
    (.str credentialType) publicInputs (.str nonce) (.str signature)))

structure ProofGenerationResult where
  proofPayload : List Char
  credentialCommitment : JsString
  circuitId : JsString
  publicInputs : Value
  generationTimeMs : Nat

/-- `nonce` is the hexadecimal text of 32 random bytes. -/
def generateProof (credentialType : CredentialType) (credentialValue : JsString)
    (publicInputs : Value) (standard : ZkpStandard) (nonce : JsString) (generationTimeMs : Nat) :
    Except String ProofGenerationResult := do
  validateCircuitInputs lib credentialType credentialValue publicInputs
  let circuitId := getCircuitId credentialType
  let commitment := computeCommitment lib credentialValue
  match buildProofPayload lib circuitId (standardText standard) commitment
      (typeText credentialType) nonce publicInputs with
  | none => throw "Cannot convert undefined or null to object"
  | some proofPayload =>
    if 30000 < generationTimeMs then throw "Proof generation exceeded 30000ms timeout"
    pure ⟨proofPayload, commitment, circuitId, publicInputs, generationTimeMs⟩

/-! ## Verification -/

def publicInputsMatch (a b : Value) : Option Bool := do
  let aKeys := sortOn id (← ownKeys a)
  let bKeys := sortOn id (← ownKeys b)
  some (decide (aKeys = bKeys) &&
    aKeys.all fun k => decide (stringify (field a k) = stringify (field b k)))

inductive Verification where
  | valid
  | circuitMismatch
  | commitmentMismatch
  | inputsMismatch
  | badSignature
  /-- Something threw. -/
  | failed
  deriving DecidableEq

/-- `decoded.publicInputs ?? {}`. -/
def orEmpty : Value → Value
  | .undefined | .null => .obj []
  | v => v

/-- `value === text`. -/
def isText (v : Value) (s : JsString) : Bool :=
  match v with
  | .str t => t = s
  | _ => false

def verifyProof (proofPayload : List Char) (publicInputs : Value)
    (circuitId credentialCommitment : JsString) : Verification :=
  let verdict : Option Verification := do
    let decoded ← decodeProofPayload lib proofPayload
    let decodedCircuit ← property decoded "circuitId"
    if !isText decodedCircuit circuitId then return .circuitMismatch
    let decodedCommitment ← property decoded "credentialCommitment"
    if !isText decodedCommitment credentialCommitment then return .commitmentMismatch
    let decodedPublicInputs := orEmpty (← property decoded "publicInputs")
    let inputsMatch ← publicInputsMatch decodedPublicInputs publicInputs
    if !inputsMatch then return .inputsMismatch
    let standard ← property decoded "standard"
    let nonce ← property decoded "nonce"
    let expectedSignature ← computeProofSignature lib decodedCircuit standard decodedCommitment
      nonce decodedPublicInputs
    let signature ← property decoded "signature"
    if !isText signature expectedSignature then return .badSignature
    return .valid
  verdict.getD .failed

end Service

end AgriFi.ZkpCircuit

/-
  What a credential proof says and what its signature binds. The signed text is the same for a nonce
  and for a list of one nonce, so that a payload with its nonce in a list still verifies
  (`verify_listed_nonce`).
-/

namespace AgriFi.ZkpCircuit

open AgriFi.JsonText AgriFi.Middle
open AgriFi.JsValue (Number)
open AgriFi.JsString (str)
open AgriFi.Zkp (CredentialType ZkpStandard)

/-- The public inputs of a request: an object of JSON, as it is in memory. -/
structure JsonObject where
  entries : List (JsString × Value)
  isJson : IsJson (.obj entries)
  ordered : JsonText.ordered (.obj entries) = .obj entries

def JsonObject.value (o : JsonObject) : Value := .obj o.entries

/-! ## Payloads -/

section Payload

variable {lib : Library} {c s m t i n g v : Value}

/-- The keys of a payload. -/
def payloadKeys : List JsString :=
  [str "circuitId", str "standard", str "credentialCommitment", str "credentialType",
    str "publicInputs", str "nonce", str "signature", str "version"]

theorem payloadKeys_nodup : payloadKeys.Nodup := by decide +kernel

theorem arrayIndex_payloadKeys : ∀ k ∈ payloadKeys, arrayIndex k = none := by decide +kernel

theorem isJson_payload (hc : IsJson c) (hs : IsJson s) (hm : IsJson m) (ht : IsJson t)
    (hi : IsJson i) (hn : IsJson n) (hg : IsJson g) : IsJson (payload c s m t i n g) := by
  refine .obj payloadKeys_nodup ?_
  have hversion : IsJson (.num (.finite 1)) := .num (by decide +kernel)
  simp only [payloadEntries, List.forall_mem_cons, List.not_mem_nil, false_implies, implies_true, and_true]
  exact ⟨hc, hs, hm, ht, hi, hn, hg, hversion⟩

theorem ordered_payload (hc : ordered c = c) (hs : ordered s = s) (hm : ordered m = m)
    (ht : ordered t = t) (hi : ordered i = i) (hn : ordered n = n) (hg : ordered g = g) :
    ordered (payload c s m t i n g) = payload c s m t i n g := by
  unfold payload payloadEntries
  simp only [ordered, orderedMembers, hc, hs, hm, ht, hi, hn, hg]
  refine congrArg Value.obj (ownOrder_eq ?_ ?_)
  · exact payloadKeys_nodup
  simp only [List.forall_mem_cons, List.not_mem_nil, false_implies, implies_true, and_true]
  have h := arrayIndex_payloadKeys
  simpa only [payloadKeys, List.forall_mem_cons, List.not_mem_nil, false_implies, implies_true,
    and_true] using h

theorem decode_encodePayload (h : IsJson v) (hordered : ordered v = v) :
    decodeProofPayload lib (encodePayload v) = some v := by
  unfold decodeProofPayload encodePayload
  rw [Base64.decode_encode, JsString.decodeUtf8_encodeUtf8, parse_text h hordered]

/-- The fields of a payload. -/
theorem property_payload :
    property (payload c s m t i n g) "circuitId" = some c ∧
      property (payload c s m t i n g) "standard" = some s ∧
      property (payload c s m t i n g) "credentialCommitment" = some m ∧
      property (payload c s m t i n g) "publicInputs" = some i ∧
      property (payload c s m t i n g) "nonce" = some n ∧
      property (payload c s m t i n g) "signature" = some g := by
  have h := payloadKeys_nodup
  simp only [payloadKeys, List.nodup_cons, List.mem_cons, List.not_mem_nil, or_false, not_or,
    not_false_eq_true] at h
  simp [property, payload, payloadEntries, field, entry, h]

end Payload

theorem publicInputsMatch_self (o : JsonObject) :
    publicInputsMatch o.value o.value = some true := by
  simp [publicInputsMatch, JsonObject.value, ownKeys]

section Verify

variable {lib : Library} {circuitId commitment signature : JsString} {standard t nonce : Value}
  {o : JsonObject}

/-- A payload whose signature is that of its fields verifies. -/
theorem verifyProof_payload
    (hjson : IsJson (payload (.str circuitId) standard (.str commitment) t o.value nonce
      (.str signature)))
    (hordered : ordered (payload (.str circuitId) standard (.str commitment) t o.value nonce
      (.str signature)) = payload (.str circuitId) standard (.str commitment) t o.value nonce
      (.str signature))
    (hsignature : computeProofSignature lib (.str circuitId) standard (.str commitment) nonce
      o.value = some signature) :
    verifyProof lib (encodePayload (payload (.str circuitId) standard (.str commitment) t o.value
      nonce (.str signature))) o.value circuitId commitment = .valid := by
  obtain ⟨hc, hs, hm, hi, hn, hg⟩ := @property_payload (.str circuitId) standard (.str commitment) t
    o.value nonce (.str signature)
  have hempty : orEmpty o.value = o.value := rfl
  unfold verifyProof
  rw [decode_encodePayload hjson hordered]
  simp [hc, hs, hm, hi, hn, hg, hempty, isText, publicInputsMatch_self, hsignature]

end Verify

/-! ## The nonce in a list -/

theorem computeProofSignature_listed (lib : Library) (c s m i : Value) (nonce : JsString) :
    computeProofSignature lib c s m (.arr [.str nonce]) i =
      computeProofSignature lib c s m (.str nonce) i := by
  have hjoin : joinText (.arr [.str nonce]) = joinText (.str nonce) := by
    simp [joinText, joinTexts, List.intercalate]
  simp only [computeProofSignature, hjoin]

section Proofs

variable {lib : Library} {credentialType : CredentialType} {credentialValue nonce : JsString}
  {o : JsonObject} {standard : ZkpStandard} {generationTimeMs : Nat} {r : ProofGenerationResult}

/-- What `generateProof` returns. -/
theorem generateProof_ok (h : generateProof lib credentialType credentialValue o.value standard
    nonce generationTimeMs = .ok r) :
    ∃ signature, computeProofSignature lib (.str (getCircuitId credentialType))
        (.str (standardText standard)) (.str (computeCommitment lib credentialValue)) (.str nonce)
        o.value = some signature ∧
      r.proofPayload = encodePayload (payload (.str (getCircuitId credentialType))
        (.str (standardText standard)) (.str (computeCommitment lib credentialValue))
        (.str (typeText credentialType)) o.value (.str nonce) (.str signature)) ∧
      r.circuitId = getCircuitId credentialType ∧
      r.credentialCommitment = computeCommitment lib credentialValue := by
  unfold generateProof buildProofPayload at h
  cases hvalid : validateCircuitInputs lib credentialType credentialValue o.value with
  | error e => simp [hvalid, bind, Except.bind] at h
  | ok _ =>
    cases hsignature : computeProofSignature lib (.str (getCircuitId credentialType))
        (.str (standardText standard)) (.str (computeCommitment lib credentialValue)) (.str nonce)
        o.value with
    | none => simp [hvalid, hsignature, bind, Except.bind, throw, throwThe, MonadExceptOf.throw] at h
    | some signature =>
      by_cases htime : 30000 < generationTimeMs
      · simp [hvalid, hsignature, htime, bind, Except.bind, throw, throwThe,
          MonadExceptOf.throw] at h
      · simp [hvalid, hsignature, htime, bind, Except.bind, pure, Except.pure] at h
        subst h
        exact ⟨signature, rfl, rfl, rfl, rfl⟩

/-- The fields that a forger may change. -/
def tamperable : List JsString :=
  [str "publicInputs", str "standard", str "nonce", str "credentialCommitment"]

/-- A payload with the other fields, the signature among them, as they were. -/
def Tampered (lib : Library) (proofPayload : List Char) (tampered : Value) : Prop :=
  ∃ es es', decodeProofPayload lib proofPayload = some (.obj es) ∧ tampered = .obj es' ∧
    IsJson tampered ∧ es'.map Prod.fst = es.map Prod.fst ∧
    (∀ k, k ∉ tamperable → entry es' k = entry es k) ∧ es' ≠ es

/-- What the description of the circuit says of the value. -/
def Satisfies (lib : Library) (credentialType : CredentialType) (credentialValue : JsString)
    (publicInputs : Value) : Prop :=
  let withinClaim (c : ScoreCircuit) : Prop :=
    isOutside c (lib.number (.str credentialValue)) = false ∧
      (field publicInputs (str "threshold") ≠ .undefined →
        (lib.number (.str credentialValue)).lt
          (lib.number (field publicInputs (str "threshold"))) = false)
  match credentialType with
  | .creditScore => withinClaim creditScore
  | .financialHealth => withinClaim financialHealth
  | .compliance | .kyc => lib.toLowerCase credentialValue = str "verified"

/-- A proof verifies, says what the circuit says, and no change to it verifies. -/
structure Meant (lib : Library) (credentialType : CredentialType) (credentialValue : JsString)
    (publicInputs : Value) (r : ProofGenerationResult) : Prop where
  complete : verifyProof lib r.proofPayload publicInputs r.circuitId r.credentialCommitment = .valid
  satisfied : Satisfies lib credentialType credentialValue publicInputs
  bound : ∀ tampered, Tampered lib r.proofPayload tampered → ∀ inputs circuitId commitment,
    verifyProof lib (encodePayload tampered) inputs circuitId commitment ≠ .valid

theorem ordered_str (s : JsString) : ordered (.str s) = .str s := by
  rw [ordered]

/-- With its nonce in a list the payload verifies. -/
theorem verify_listed_nonce (h : generateProof lib credentialType credentialValue o.value standard
    nonce generationTimeMs = .ok r) :
    ∃ tampered, Tampered lib r.proofPayload tampered ∧
      verifyProof lib (encodePayload tampered) o.value r.circuitId r.credentialCommitment =
        .valid := by
  obtain ⟨signature, hsignature, hpayload, hcircuit, hcommitment⟩ := generateProof_ok h
  have hlist : IsJson (.arr [.str nonce]) := .arr (List.forall_mem_singleton.mpr (.str _))
  have hlistOrdered : ordered (.arr [.str nonce]) = .arr [.str nonce] := by
    simp only [ordered, orderedElements]
  have hold := @isJson_payload (.str (getCircuitId credentialType)) (.str (standardText standard))
    (.str (computeCommitment lib credentialValue)) (.str (typeText credentialType)) o.value
    (.str nonce) (.str signature) (.str _) (.str _) (.str _) (.str _) o.isJson (.str _) (.str _)
  have hnew := @isJson_payload (.str (getCircuitId credentialType)) (.str (standardText standard))
    (.str (computeCommitment lib credentialValue)) (.str (typeText credentialType)) o.value
    (.arr [.str nonce]) (.str signature) (.str _) (.str _) (.str _) (.str _) o.isJson hlist (.str _)
  have holdOrdered := @ordered_payload (.str (getCircuitId credentialType))
    (.str (standardText standard)) (.str (computeCommitment lib credentialValue))
    (.str (typeText credentialType)) o.value (.str nonce) (.str signature) (ordered_str _)
    (ordered_str _) (ordered_str _) (ordered_str _) o.ordered (ordered_str _) (ordered_str _)
  have hnewOrdered := @ordered_payload (.str (getCircuitId credentialType))
    (.str (standardText standard)) (.str (computeCommitment lib credentialValue))
    (.str (typeText credentialType)) o.value (.arr [.str nonce]) (.str signature) (ordered_str _)
    (ordered_str _) (ordered_str _) (ordered_str _) o.ordered hlistOrdered (ordered_str _)
  refine ⟨_, ⟨payloadEntries _ _ _ _ _ (.str nonce) _, payloadEntries _ _ _ _ _ _ _, ?_, rfl, hnew,
    rfl, fun k hk => ?_, ?_⟩, ?_⟩
  · rw [hpayload]
    exact decode_encodePayload hold holdOrdered
  · have hne : str "nonce" ≠ k := by
      rintro rfl
      exact hk (by simp [tamperable])
    simp [entry, payloadEntries, List.find?_cons, hne]
  · simp [payloadEntries]
  · rw [hcircuit, hcommitment]
    refine verifyProof_payload hnew hnewOrdered ?_
    rw [computeProofSignature_listed, hsignature]

end Proofs

/-! ## A pending status -/

/-- A digest that is injective, and texts that are in lower case already. -/
def plainLibrary : Library where
  sha256 bytes := bytes.map fun b => JsString.unit b.toNat
  number _ := .nan
  toLowerCase s := s
  trim s := s
  malformed _ := []

def noInputs : JsonObject := ⟨[], .obj List.nodup_nil (by simp), by simp [ordered, orderedMembers]; rfl⟩

/-- A proof of the circuit of verified status is generated for a pending one. -/
theorem pending_proof_not_meant :
    ¬∀ r, generateProof plainLibrary .compliance (str "pending") noInputs.value .groth16
      (List.replicate 64 48) 1 = .ok r →
        Meant plainLibrary .compliance (str "pending") noInputs.value r := by
  intro h
  have hok : (generateProof plainLibrary .compliance (str "pending") noInputs.value .groth16
      (List.replicate 64 48) 1).toBool = true := by
    decide +kernel
  cases hr : generateProof plainLibrary .compliance (str "pending") noInputs.value .groth16
      (List.replicate 64 48) 1 with
  | error e =>
    rw [hr] at hok
    cases hok
  | ok r =>
    have hverified : str "pending" = str "verified" := (h r hr).satisfied
    exact absurd hverified (by decide +kernel)

end AgriFi.ZkpCircuit
