import AgriFi.Base64
import AgriFi.Chunked
import AgriFi.JsValue

/-
  One transaction for several investments (`src/stellar/stellar.service.ts`,
  `createBulkInvestmentTransaction`): trustlines first, then for each investment its payment and
  its compliance data, the Base64 text of the JSON in pieces of 64 bytes, at most four of them. The
  number of operations is checked before they are made, with four for each compliance data.
-/

namespace AgriFi.Stellar.BulkInvestment

open AgriFi.JsValue AgriFi.Chunked

/-! ## Accounts, investments, operations -/

structure Asset where
  code : String
  issuer : String
  deriving DecidableEq

structure Balance where
  native : Bool
  assetCode : Option String
  assetIssuer : Option String
  /-- The balance, through `parseFloat`. -/
  balance : Number
  deriving DecidableEq

/-- The investor's account, as loaded. -/
structure Account where
  balances : List Balance
  subentryCount : Nat
  deriving DecidableEq

structure Investment where
  escrowPublicKey : String
  amountUSD : Number
  assetCode : String
  issuerPublicKey : Option String
  /-- `Buffer.from(JSON.stringify(complianceData))`. -/
  complianceData : Option (List UInt8)
  deriving DecidableEq

inductive Operation where
  | changeTrust (asset : Asset)
  | payment (destination : String) (asset : Asset) (stroops : Nat)
  | manageData (name : String) (value : List Char)
  deriving DecidableEq

structure Transaction where
  operations : List Operation
  fee : Nat
  memo : String
  deriving DecidableEq

inductive Failure where
  | noInvestment
  | tooManyInvestments (received : Nat)
  | invalidAsset (code issuer : String)
  | insufficientXlm (minRequired : Number) (trustlines : Nat) (xlmBalance : Number)
  | tooManyOperations (payments complianceOps trustlineOps : Nat)
  | invalidPayment (destination : String) (amountUSD : Number)
  deriving DecidableEq

/-- What the language and the SDK supply. -/
structure Platform where
  trim : String → String
  isPublicKey : String → Bool
  isDestination : String → Bool

def maxOps : Nat := 100

/-! ## Trustlines -/

def createAsset (platform : Platform) (code issuer : String) : Option Asset :=
  let trimmed := platform.trim code
  if code = "" ∨ ¬ (1 ≤ trimmed.length ∧ trimmed.length ≤ 12 ∧
      trimmed.toList.all Char.isAlphanum) ∨
      issuer = "" ∨ !platform.isPublicKey (platform.trim issuer) then none
  else some ⟨trimmed, platform.trim issuer⟩

def hasTrustline (account : Account) (asset : Asset) : Bool :=
  account.balances.any fun b =>
    !b.native && b.assetCode = some asset.code && b.assetIssuer = some asset.issuer

/-- The assets by `code:issuer`, in the order of their first investment. -/
def uniqueAssets (platform : Platform) :
    List Investment → List (String × Asset) → Except Failure (List (String × Asset))
  | [], assets => .ok assets
  | inv :: investments, assets =>
    match inv.issuerPublicKey with
    | none => uniqueAssets platform investments assets
    | some issuer =>
      if issuer = "" ∨ assets.any (fun entry => entry.1 = inv.assetCode ++ ":" ++ issuer) then
        uniqueAssets platform investments assets
      else
        match createAsset platform inv.assetCode issuer with
        | none => .error (.invalidAsset inv.assetCode issuer)
        | some asset =>
          uniqueAssets platform investments
            (assets ++ [(inv.assetCode ++ ":" ++ issuer, asset)])

def missingTrustlines (account : Account) (assets : List (String × Asset)) : List Asset :=
  (assets.map (·.2)).filter fun asset => !hasTrustline account asset

def xlmBalance (account : Account) : Number :=
  match account.balances.find? (·.native) with
  | some b => b.balance
  | none => .finite 0

/-- `(subentries + missing) * 0.5 + 2 + 0.001 * missing`. -/
def minRequired (account : Account) (missing : Nat) : Number :=
  (((Number.ofRat (account.subentryCount + missing)).mul (.ofRat (1 / 2))).add (.finite 2)).add
    ((Number.ofRat (1 / 1000)).mul (.ofRat missing))

def reserveFailure (account : Account) (missing : Nat) : Option Failure :=
  if 0 < missing ∧ (xlmBalance account).lt (minRequired account missing) then
    some (.insufficientXlm (minRequired account missing) missing (xlmBalance account))
  else none

/-! ## Payments and compliance data -/

/-- `amountUSD.toFixed(7)` as the SDK reads it, which refuses what is not positive or more than an
    `int64`. -/
def toStroops : Number → Option Nat
  | .finite q =>
    let n := Binary64.mathRound (q * 10000000)
    if 0 < n ∧ n ≤ 9223372036854775807 then some n.toNat else none
  | .nan | .infinity _ => none

/-- The name of a data entry, counted from 0 here. -/
def fatfName (index : Nat) : String := "fatf_" ++ toString (index + 1)

/-- The pieces of the Base64 text that are written. -/
def writtenChunks (json : List UInt8) : List (List Char) := (chunks 64 (Base64.encode json)).take 4

def complianceDataOperations (complianceData : Option (List UInt8)) : List Operation :=
  match complianceData with
  | none => []
  | some json =>
    (numbered fatfName 0 (writtenChunks json)).map fun (name, value) => .manageData name value

def investmentOperations (platform : Platform) (usdcAsset : Asset) :
    List Investment → Except Failure (List Operation)
  | [] => .ok []
  | inv :: investments =>
    match toStroops inv.amountUSD with
    | none => .error (.invalidPayment inv.escrowPublicKey inv.amountUSD)
    | some stroops =>
      if platform.isDestination inv.escrowPublicKey then
        match investmentOperations platform usdcAsset investments with
        | .error failure => .error failure
        | .ok operations =>
          .ok (.payment inv.escrowPublicKey usdcAsset stroops ::
            (complianceDataOperations inv.complianceData ++ operations))
      else .error (.invalidPayment inv.escrowPublicKey inv.amountUSD)

/-- Four operations for each compliance data. -/
def totalComplianceOps (investments : List Investment) : Nat :=
  4 * investments.countP (·.complianceData.isSome)

/-- The fee is the one for each operation; the builder multiplies it once more. -/
def createBulkInvestmentTransaction (platform : Platform) (usdcAsset : Asset) (account : Account)
    (investments : List Investment) : Except Failure Transaction :=
  if investments.length = 0 then .error .noInvestment
  else if maxOps < investments.length then .error (.tooManyInvestments investments.length)
  else
    match uniqueAssets platform investments [] with
    | .error failure => .error failure
    | .ok assets =>
      let missing := missingTrustlines account assets
      match reserveFailure account missing.length with
      | some failure => .error failure
      | none =>
        let complianceOps := totalComplianceOps investments
        let totalOps := investments.length + complianceOps + missing.length
        if maxOps < totalOps then
          .error (.tooManyOperations investments.length complianceOps missing.length)
        else
          match investmentOperations platform usdcAsset investments with
          | .error failure => .error failure
          | .ok operations =>
            .ok {
              operations := missing.map .changeTrust ++ operations
              fee := 100 * totalOps
              memo := "bulk:" ++ toString investments.length ++ "deals" }

/-! ## What is built -/

section Built

variable {platform : Platform} {usdcAsset : Asset} {account : Account}
variable {investments : List Investment} {operations : List Operation} {tx : Transaction}

/-- A transaction that is built has its trustlines, then the operations of the investments, and
    the estimate of their number is within the limit. -/
theorem built
    (h : createBulkInvestmentTransaction platform usdcAsset account investments = .ok tx) :
    ∃ (missing : List Asset) (operations : List Operation),
      investmentOperations platform usdcAsset investments = .ok operations ∧
      tx.operations = missing.map .changeTrust ++ operations ∧
      investments.length + totalComplianceOps investments + missing.length ≤ 100 := by
  unfold createBulkInvestmentTransaction at h
  split at h
  · cases h
  split at h
  · cases h
  split at h
  · cases h
  · next assets _ =>
    dsimp only at h
    split at h
    · cases h
    split at h
    · cases h
    · next hops =>
      split at h
      · cases h
      · next operations hoperations =>
        cases h
        exact ⟨_, operations, hoperations, rfl, not_lt.mp hops⟩

/-- The operations of the first investment, then those of the others. -/
theorem investmentOperations_cons {inv : Investment}
    (h : investmentOperations platform usdcAsset (inv :: investments) = .ok operations) :
    ∃ stroops rest, toStroops inv.amountUSD = some stroops ∧
      investmentOperations platform usdcAsset investments = .ok rest ∧
      operations = .payment inv.escrowPublicKey usdcAsset stroops ::
        (complianceDataOperations inv.complianceData ++ rest) := by
  rw [investmentOperations] at h
  split at h
  · cases h
  · next stroops hstroops =>
    split at h
    · split at h
      · cases h
      · next rest hrest =>
        cases h
        exact ⟨stroops, rest, hstroops, hrest, rfl⟩
    · cases h

theorem length_complianceDataOperations_le (complianceData : Option (List UInt8)) :
    (complianceDataOperations complianceData).length ≤ if complianceData.isSome then 4 else 0 := by
  cases complianceData with
  | none => exact le_rfl
  | some json =>
    rw [complianceDataOperations, List.length_map, length_numbered]
    exact List.length_take_le 4 _

theorem length_investmentOperations_le
    (h : investmentOperations platform usdcAsset investments = .ok operations) :
    operations.length ≤ investments.length + totalComplianceOps investments := by
  induction investments generalizing operations with
  | nil =>
    cases h
    exact Nat.zero_le _
  | cons inv investments ih =>
    obtain ⟨stroops, rest, -, hrest, rfl⟩ := investmentOperations_cons h
    have hown := length_complianceDataOperations_le inv.complianceData
    have hothers := ih hrest
    unfold totalComplianceOps at hothers ⊢
    rw [List.countP_cons, List.length_cons, List.length_append, List.length_cons]
    split at hown
    · next hsome => rw [if_pos hsome]; omega
    · next hsome => rw [if_neg hsome]; omega

end Built

end AgriFi.Stellar.BulkInvestment
