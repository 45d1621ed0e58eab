import AgriFi.JsValue
import AgriFi.Runs

/-
  One letter of credit: `requestAmendment`, `decideAmendment`, `verifyDocument` and `settleLc`
  (`src/letter-of-credit/letter-of-credit.service.ts`). The letter is an object in memory, and an
  approved amendment may give any of its fields any value, so the letter is the function that reads
  its fields. A call that throws keeps what it has written by then.
-/

namespace AgriFi.LetterOfCreditService

open AgriFi.JsValue AgriFi.Runs

abbrev LetterOfCredit : Type := String → Value

/-- `lc[key] = val`. -/
def LetterOfCredit.write (lc : LetterOfCredit) (key : String) (val : Value) : LetterOfCredit :=
  fun k => if k = key then val else lc k

/-- The own keys of a letter. -/
def LC_KEYS : List String :=
  ["id", "lcNumber", "dealId", "dealTitle", "commodity", "lcType", "issuingBank", "advisingBank",
    "applicantId", "applicantName", "beneficiaryId", "beneficiaryName", "amount", "currency",
    "tolerancePercentage", "expiryDate", "presentationPeriodDays", "shipmentDate", "portOfLoading",
    "portOfDischarge", "status", "ucp600Compliant", "swiftMt700Message", "blockchainAnchoringHash",
    "blockchainTxHash", "requiredDocuments", "presentedDocuments", "amendments", "createdAt",
    "updatedAt", "settledAt"]

/-- A letter that was just issued, with any terms. -/
def issued (terms : String → Value) : LetterOfCredit
  | "status" => .str "ISSUED"
  | "presentedDocuments" => .arr []
  | "amendments" => .arr []
  | "settledAt" => .null
  | key => terms key

inductive Error where
  | notFound (message : String)
  | badRequest (message : String)
  | typeError
  deriving DecidableEq

/-- The letter after a call, and what the call returned or threw. -/
structure Called (α : Type) where
  lc : LetterOfCredit
  result : Except Error α

def Called.succeeded {α : Type} (called : Called α) : Bool := called.result.toBool

def threw {α : Type} (lc : LetterOfCredit) (error : Error) : Called α := ⟨lc, .error error⟩

/-! ## Amendments -/

def amendmentOf (id requestedBy now message : String) (amendmentNumber : Nat)
    (proposedChanges : Value) (reason : String) : Value :=
  .obj [("id", .str id), ("amendmentNumber", .num (.finite amendmentNumber)),
    ("requestedBy", .str requestedBy), ("requestedAt", .str now),
    ("proposedChanges", proposedChanges), ("status", .str "PENDING_APPROVAL"),
    ("swiftMt707Message", .str message), ("decisionReason", .str reason)]

/-- `id` and `message`, the SWIFT MT707 text, are made from the clock, the letter and the
    changes. -/
def requestAmendment (id requestedBy now message : String) (proposedChanges : Value)
    (reason : String) (lc : LetterOfCredit) : Called Value :=
  match lc "amendments" with
  | .arr amendments =>
    let amendment := amendmentOf id requestedBy now message (amendments.length + 1) proposedChanges
      reason
    let lc := lc.write "amendments" (.arr (amendments ++ [amendment]))
    ⟨lc.write "updatedAt" (.str now), .ok amendment⟩
  | _ => threw lc .typeError

/-- The index of the first element that `p` accepts; `none` when `p` throws before. -/
def findIndex (p : Value → Option Bool) : List Value → Option (Option Nat)
  | [] => some none
  | v :: vs => do
    if ← p v then return some 0
    let found ← findIndex p vs
    return found.map (· + 1)

/-- `Object.entries(v)`, as far as the keys can be a letter's. -/
def entriesOf : Value → Option (List (String × Value))
  | .undefined | .null => none
  | .obj entries => some entries
  | .bool _ | .num _ | .str _ | .arr _ => some []

/-- `lc[key] = val`, if the letter has the key and it may be changed. -/
def applyChange (lc : LetterOfCredit) (change : String × Value) : LetterOfCredit :=
  if change.1 ∈ LC_KEYS ∧ change.1 ≠ "id" ∧ change.1 ≠ "lcNumber" then
    lc.write change.1 change.2
  else lc

def applyChanges (lc : LetterOfCredit) (changes : List (String × Value)) : LetterOfCredit :=
  changes.foldl applyChange lc

/-- The amendment once it is decided. -/
def decided (approved : Bool) (now : String) (reason : Option String) (amendment : Value) : Value :=
  let status := if approved then "APPROVED" else "REJECTED"
  let amendment' := (amendment.set "status" (.str status)).set "decidedAt" (.str now)
  match reason with
  | some text => if text ≠ "" then amendment'.set "decisionReason" (.str text) else amendment'
  | none => amendment'

/-- `a.id === amendmentId`. -/
def hasId (amendmentId : String) (a : Value) : Option Bool :=
  (a.get "id").map (·.strictEq (.str amendmentId))

/-- The amendment that a call of `decideAmendment` finds, with its place. -/
def pendingAmendment (js : Coercions) (lc : LetterOfCredit) (amendmentId : String) :
    Except Error (Nat × Value) :=
  match lc "amendments" with
  | .arr amendments =>
    match findIndex (hasId amendmentId) amendments with
    | none => .error .typeError
    | some none =>
      .error (.notFound ("Amendment " ++ amendmentId ++ " not found on LC " ++ js.text (lc "id")))
    | some (some k) =>
      let amendment := amendments.getD k .undefined
      match amendment.get "status" with
      | none => .error .typeError
      | some status =>
        if status.strictEq (.str "PENDING_APPROVAL") then .ok (k, amendment)
        else .error (.badRequest ("Amendment is already " ++ js.text status))
  | _ => .error .typeError

/-- The changes that an amendment proposes. -/
def changesOf (amendment : Value) : Option (List (String × Value)) :=
  (amendment.get "proposedChanges").bind entriesOf

/-- The letter with its amendment `k` replaced. -/
def writeAmendment (lc : LetterOfCredit) (k : Nat) (amendment : Value) : LetterOfCredit :=
  lc.write "amendments" (.arr ((lc "amendments").elements.set k amendment))

/-- The changes are applied, and the letter is anchored anew. -/
def approve (js : Coercions) (sha256 : String → String) (amendmentId : String)
    (changes : List (String × Value)) (lc : LetterOfCredit) : LetterOfCredit :=
  let lc := applyChanges lc changes
  let hash := sha256 (js.text (lc "blockchainAnchoringHash") ++ "|amend:" ++ amendmentId)
  lc.write "blockchainAnchoringHash" (.str hash)

def decideAmendment (js : Coercions) (sha256 : String → String) (amendmentId now : String)
    (approved : Bool) (reason : Option String) (lc : LetterOfCredit) : Called Unit :=
  match pendingAmendment js lc amendmentId with
  | .error error => threw lc error
  | .ok (k, amendment) =>
    let lc := writeAmendment lc k (decided approved now reason amendment)
    if approved then
      match changesOf amendment with
      | none => threw lc .typeError
      | some changes =>
        ⟨(approve js sha256 amendmentId changes lc).write "updatedAt" (.str now), .ok ()⟩
    else ⟨lc.write "updatedAt" (.str now), .ok ()⟩

/-! ## Documents -/

structure VerifyDocumentDto where
  docType : String
  documentNumber : String
  issueDate : String
  documentHash : String
  documentUrl : String
  statedAmount : Option Number
  deriving DecidableEq

/-- `toFixed(2)`, and how a number is written. -/
structure Texts where
  fixed : Number → String
  written : Number → String

/-- The amount that a document states, if it is one that counts as true. -/
def VerifyDocumentDto.amount (dto : VerifyDocumentDto) : Option Number :=
  dto.statedAmount.filter fun n => (Value.num n).truthy

/-- What the terms of the letter have against the document. -/
def discrepanciesOf (js : Coercions) (texts : Texts) (dto : VerifyDocumentDto)
    (lc : LetterOfCredit) : List String :=
  let docDate := Value.str dto.issueDate
  let amount := js.number (lc "amount")
  let tolerance := (js.number (lc "tolerancePercentage")).divBy 100
  let maxAllowed := amount.mul (Number.add (.finite 1) tolerance)
  let minAllowed := amount.mul (Number.sub (.finite 1) tolerance)
  let minimumCover := amount.mul (.ofRat (11 / 10))
  let late :=
    if js.isAfter docDate (lc "expiryDate") then
      ["Document presented after LC expiry date (" ++ js.text (lc "expiryDate") ++ ")"]
    else []
  let shipped :=
    if dto.docType = "BILL_OF_LADING" ∧ js.isAfter docDate (lc "shipmentDate") then
      ["Bill of Lading date (" ++ dto.issueDate ++ ") exceeds latest shipment date (" ++
        js.text (lc "shipmentDate") ++ ")"]
    else []
  let invoiced :=
    match dto.docType, dto.amount with
    | "COMMERCIAL_INVOICE", some stated =>
      if maxAllowed.lt stated then
        ["Invoice amount ($" ++ texts.written stated ++ ") exceeds maximum LC value with tolerance ($"
          ++ texts.fixed maxAllowed ++ ")"]
      else if stated.lt minAllowed then
        ["Invoice amount ($" ++ texts.written stated ++ ") is below minimum LC tolerance ($" ++
          texts.fixed minAllowed ++ ")"]
      else []
    | _, _ => []
  let insured :=
    match dto.docType, dto.amount with
    | "INSURANCE_CERTIFICATE", some stated =>
      if stated.lt minimumCover then
        ["Insurance cover ($" ++ texts.written stated ++ ") is below mandatory 110% CIF ($" ++
          texts.fixed minimumCover ++ ") per UCP 600 Art. 28"]
      else []
    | _, _ => []
  late ++ shipped ++ invoiced ++ insured

def presentedDoc (id now : String) (dto : VerifyDocumentDto) (discrepancies : List String) :
    Value :=
  .obj [("id", .str id), ("docType", .str dto.docType),
    ("documentNumber", .str dto.documentNumber), ("issueDate", .str dto.issueDate),
    ("documentHash", .str dto.documentHash), ("documentUrl", .str dto.documentUrl),
    ("isCompliant", .bool (discrepancies = [])),
    ("discrepancies", .arr (discrepancies.map .str)), ("verifiedAt", .str now)]

/-- `d.docType === docType`. -/
def hasType (docType : Value) (d : Value) : Option Bool :=
  (d.get "docType").map (·.strictEq docType)

def isCompliant (d : Value) : Option Bool := (d.get "isCompliant").map Value.truthy

/-- `p.docType === req && p.isCompliant`. -/
def fulfils (req p : Value) : Option Bool := do
  if ← hasType req p then isCompliant p else return false

/-- The presented documents once `doc` is on file; `none` when the search throws. -/
def present (dto : VerifyDocumentDto) (doc : Value) (lc : LetterOfCredit) : Option (List Value) :=
  match lc "presentedDocuments" with
  | .arr docs =>
    (findIndex (hasType (.str dto.docType)) docs).map fun
      | some k => docs.set k doc
      | none => docs ++ [doc]
  | _ => none

/-- The status that the documents on file give; `none` when that throws. -/
def statusOf (required : Value) (docs : List Value) : Option String :=
  match required with
  | .arr required => do
    if ← required.allM fun req => docs.anyM (fulfils req) then return "VERIFIED"
    if ← docs.anyM fun p => (isCompliant p).map (!·) then return "DISCREPANT"
    return "DOCUMENTS_PRESENTED"
  | _ => none

def verifyDocument (js : Coercions) (texts : Texts) (id now : String) (dto : VerifyDocumentDto)
    (lc : LetterOfCredit) : Called Value :=
  let doc := presentedDoc id now dto (discrepanciesOf js texts dto lc)
  match present dto doc lc with
  | none => threw lc .typeError
  | some docs =>
    let lc := lc.write "presentedDocuments" (.arr docs)
    match statusOf (lc "requiredDocuments") docs with
    | none => threw lc .typeError
    | some status =>
      let lc := lc.write "status" (.str status)
      ⟨lc.write "updatedAt" (.str now), .ok doc⟩

/-! ## Settlement -/

structure Settlement where
  txHash : String
  message : String
  deriving DecidableEq

def settleLc (js : Coercions) (settlementTx now : String) (lc : LetterOfCredit) :
    Called Settlement :=
  if (lc "status").strictEq (.str "VERIFIED") then
    let lc := lc.write "status" (.str "SETTLED")
    let lc := lc.write "settledAt" (.str now)
    ⟨lc.write "updatedAt" (.str now), .ok {
      txHash := settlementTx
      message := "LC " ++ js.text (lc "lcNumber") ++ " settled successfully. Funds released to " ++
        js.text (lc "beneficiaryName") ++ "." }⟩
  else
    threw lc (.badRequest ("Cannot settle LC in '" ++ js.text (lc "status") ++
      "' status. All required documents must be verified and compliant under UCP 600."))

/-! ## Runs -/

/-- The letter, and as history variables how often `settleLc` has succeeded and which documents were
    put on file. -/
structure State where
  lc : LetterOfCredit
  settlements : Nat
  presented : List VerifyDocumentDto

inductive Action where
  | requestAmendment (id requestedBy now message : String) (proposedChanges : Value)
      (reason : String)
  | decideAmendment (amendmentId now : String) (approved : Bool) (reason : Option String)
  | verifyDocument (id now : String) (dto : VerifyDocumentDto)
  | settleLc (settlementTx now : String)

/-- What the service finds around it. -/
structure Env where
  js : Coercions
  texts : Texts
  sha256 : String → String

def next (env : Env) (s : State) : Action → Option State
  | .requestAmendment id requestedBy now message proposedChanges reason =>
    some { s with
      lc := (requestAmendment id requestedBy now message proposedChanges reason s.lc).lc }
  | .decideAmendment amendmentId now approved reason =>
    some { s with
      lc := (decideAmendment env.js env.sha256 amendmentId now approved reason s.lc).lc }
  | .verifyDocument id now dto =>
    let doc := presentedDoc id now dto (discrepanciesOf env.js env.texts dto s.lc)
    some { s with
      lc := (verifyDocument env.js env.texts id now dto s.lc).lc
      presented := if (present dto doc s.lc).isSome then s.presented ++ [dto] else s.presented }
  | .settleLc settlementTx now =>
    let called := settleLc env.js settlementTx now s.lc
    some { s with
      lc := called.lc
      settlements := if called.succeeded then s.settlements + 1 else s.settlements }

def start (terms : String → Value) : State := ⟨issued terms, 0, []⟩

abbrev LcRun (env : Env) (terms : String → Value) (xs : List (Step State Action)) (s : State) :
    Prop :=
  Run (next env) (start terms) xs s

end AgriFi.LetterOfCreditService
