import AgriFi.Stellar.BulkInvestment

/-
  What a bulk transaction leaves of the compliance data. The entries of all investments have the
  same names and a text is cut after four pieces, so one text can be read back from the account,
  and its first 192 bytes (`recovered_same`). `survives_iff`: the operations are few enough and the
  payments are right in every transaction that is built, and all compliance data survive exactly
  if they are one and the same text of at most 192 bytes.
-/

namespace AgriFi.Stellar.BulkInvestment

open AgriFi.Chunked

/-! ## Reading a transaction -/

def payments (operations : List Operation) : List (String × Asset × Nat) :=
  operations.filterMap fun
    | .payment destination asset stroops => some (destination, asset, stroops)
    | _ => none

def dataEntries (operations : List Operation) : List (String × List Char) :=
  operations.filterMap fun
    | .manageData name value => some (name, value)
    | _ => none

/-- The data entries of an account without any, after the transaction. -/
def Transaction.accountData (tx : Transaction) : List (String × List Char) :=
  putAll [] (dataEntries tx.operations)

/-- The bytes in `fatf_1`, `fatf_2` and so on. -/
def Transaction.recovered (tx : Transaction) : List UInt8 :=
  Base64.decode (readFrom fatfName tx.accountData 0 tx.accountData.length).flatten

/-- What the transaction is for. -/
structure Survives (usdcAsset : Asset) (investments : List Investment) (tx : Transaction) :
    Prop where
  operations : tx.operations.length ≤ 100
  /-- Each escrow gets its amount, in order. -/
  payments : (payments tx.operations).map (fun (destination, asset, stroops) =>
      (destination, asset, some stroops)) =
    investments.map fun inv => (inv.escrowPublicKey, usdcAsset, toStroops inv.amountUSD)
  complianceData : ∀ inv ∈ investments, ∀ json, inv.complianceData = some json →
    tx.recovered = json

def compliances (investments : List Investment) : List (List UInt8) :=
  investments.filterMap (·.complianceData)

/-- All compliance data are one text of at most 192 bytes. -/
def OneShortText (investments : List Investment) : Prop :=
  (∀ a ∈ compliances investments, ∀ b ∈ compliances investments, a = b) ∧
    ∀ a ∈ compliances investments, a.length ≤ 192

/-! ## Names and pieces -/

theorem fatfName_injective : Function.Injective fatfName := by
  intro i j h
  have hnumber := (String.append_right_inj "fatf_").mp h
  have hdigits := congrArg String.toList hnumber
  rw [Nat.toString_eq_repr, Nat.toString_eq_repr, Nat.toList_repr, Nat.toList_repr] at hdigits
  have hvalue := congrArg (Nat.ofDigitChars 10 · 0) hdigits
  simp only [Nat.ofDigitChars_ten_toDigits] at hvalue
  omega

/-- Four pieces of 64 digits stand for 192 bytes. -/
theorem decode_writtenChunks (json : List UInt8) :
    Base64.decode (writtenChunks json).flatten = json.take 192 := by
  rw [writtenChunks, flatten_take_chunks 64 _ (by decide), Base64.take_encode json 64,
    Base64.decode_encode]

/-! ## The entries of a transaction -/

theorem dataEntries_append (xs ys : List Operation) :
    dataEntries (xs ++ ys) = dataEntries xs ++ dataEntries ys :=
  List.filterMap_append

theorem dataEntries_changeTrust (assets : List Asset) :
    dataEntries (assets.map .changeTrust) = [] := by
  rw [dataEntries, List.filterMap_map]
  exact List.filterMap_eq_nil_iff.mpr fun _ _ => rfl

theorem payments_append (xs ys : List Operation) :
    payments (xs ++ ys) = payments xs ++ payments ys :=
  List.filterMap_append

theorem payments_changeTrust (assets : List Asset) : payments (assets.map .changeTrust) = [] := by
  rw [payments, List.filterMap_map]
  exact List.filterMap_eq_nil_iff.mpr fun _ _ => rfl

theorem payments_complianceDataOperations (complianceData : Option (List UInt8)) :
    payments (complianceDataOperations complianceData) = [] := by
  cases complianceData with
  | none => rfl
  | some json =>
    rw [payments, complianceDataOperations, List.filterMap_map]
    exact List.filterMap_eq_nil_iff.mpr fun _ _ => rfl

theorem compliances_cons (inv : Investment) (investments : List Investment) :
    compliances (inv :: investments) = inv.complianceData.toList ++ compliances investments := by
  unfold compliances
  rw [List.filterMap_cons]
  cases inv.complianceData with
  | none => rfl
  | some json => rfl

/-- The entries that the compliance data make. -/
def entriesOf (jsons : List (List UInt8)) : List (String × List Char) :=
  jsons.flatMap fun json => numbered fatfName 0 (writtenChunks json)

theorem dataEntries_compliance (json : List UInt8) :
    dataEntries (complianceDataOperations (some json)) =
      numbered fatfName 0 (writtenChunks json) := by
  rw [complianceDataOperations, dataEntries, List.filterMap_map]
  exact List.filterMap_some

section Built

variable {platform : Platform} {usdcAsset : Asset} {account : Account}
variable {investments : List Investment} {operations : List Operation} {tx : Transaction}

theorem dataEntries_investmentOperations
    (h : investmentOperations platform usdcAsset investments = .ok operations) :
    dataEntries operations = entriesOf (compliances investments) := by
  induction investments generalizing operations with
  | nil =>
    cases h
    rfl
  | cons inv investments ih =>
    obtain ⟨stroops, rest, -, hrest, rfl⟩ := investmentOperations_cons h
    have hpayment : dataEntries (.payment inv.escrowPublicKey usdcAsset stroops ::
        (complianceDataOperations inv.complianceData ++ rest)) =
        dataEntries (complianceDataOperations inv.complianceData) ++ dataEntries rest :=
      dataEntries_append _ rest
    rw [hpayment, ih hrest, compliances_cons]
    cases inv.complianceData with
    | none => rfl
    | some json =>
      rw [dataEntries_compliance]
      rfl

theorem payments_investmentOperations
    (h : investmentOperations platform usdcAsset investments = .ok operations) :
    (payments operations).map (fun (destination, asset, stroops) =>
        (destination, asset, some stroops)) =
      investments.map fun inv => (inv.escrowPublicKey, usdcAsset, toStroops inv.amountUSD) := by
  induction investments generalizing operations with
  | nil =>
    cases h
    rfl
  | cons inv investments ih =>
    obtain ⟨stroops, rest, hstroops, hrest, rfl⟩ := investmentOperations_cons h
    have hpayment : payments (.payment inv.escrowPublicKey usdcAsset stroops ::
        (complianceDataOperations inv.complianceData ++ rest)) =
        (inv.escrowPublicKey, usdcAsset, stroops) ::
          payments (complianceDataOperations inv.complianceData ++ rest) :=
      rfl
    rw [hpayment, payments_append, payments_complianceDataOperations, List.nil_append,
      List.map_cons, ih hrest, List.map_cons, hstroops]

/-! ## What is recovered -/

/-- The pieces that stand under the names, when pieces are written over others. -/
def overlay (old new : List (List Char)) : List (List Char) := new ++ old.drop new.length

theorem putAll_entriesOf (jsons : List (List UInt8)) (pieces : List (List Char)) :
    putAll (numbered fatfName 0 pieces) (entriesOf jsons) =
      numbered fatfName 0 ((jsons.map writtenChunks).foldl overlay pieces) := by
  induction jsons generalizing pieces with
  | nil => rfl
  | cons json jsons ih =>
    rw [entriesOf, List.flatMap_cons, putAll_append, putAll_numbered fatfName_injective]
    exact ih _

/-- The same pieces over themselves. -/
theorem foldl_overlay_same {piecesList : List (List (List Char))} {pieces : List (List Char)}
    (h : ∀ p ∈ piecesList, p = pieces) : piecesList.foldl overlay pieces = pieces := by
  induction piecesList with
  | nil => rfl
  | cons p piecesList ih =>
    have hsame : overlay pieces p = pieces := by
      rw [h p List.mem_cons_self, overlay, List.drop_length, List.append_nil]
    rw [List.foldl_cons, hsame]
    exact ih fun q hq => h q (List.mem_cons_of_mem p hq)

theorem recovered_eq
    (h : createBulkInvestmentTransaction platform usdcAsset account investments = .ok tx) :
    tx.recovered = Base64.decode
      (((compliances investments).map writtenChunks).foldl overlay []).flatten := by
  obtain ⟨missing, operations, hoperations, htx, -⟩ := built h
  have hdata : tx.accountData = numbered fatfName 0
      (((compliances investments).map writtenChunks).foldl overlay []) := by
    rw [Transaction.accountData, htx, dataEntries_append, dataEntries_changeTrust,
      dataEntries_investmentOperations hoperations]
    exact putAll_entriesOf (compliances investments) []
  rw [Transaction.recovered, hdata, length_numbered,
    readFrom_numbered fatfName_injective _ 0 _ (by omega), List.drop_zero]

/-- When all compliance data are the same, its first 192 bytes are read back. -/
theorem recovered_same {json : List UInt8}
    (h : createBulkInvestmentTransaction platform usdcAsset account investments = .ok tx)
    (hjson : json ∈ compliances investments) (hsame : ∀ a ∈ compliances investments, a = json) :
    tx.recovered = json.take 192 := by
  rw [recovered_eq h, ← decode_writtenChunks]
  cases hlist : compliances investments with
  | nil =>
    rw [hlist] at hjson
    cases hjson
  | cons first jsons =>
    rw [hlist] at hsame
    have hfirst : overlay [] (writtenChunks first) = writtenChunks json := by
      rw [hsame first List.mem_cons_self, overlay, List.drop_nil, List.append_nil]
    rw [List.map_cons, List.foldl_cons, hfirst, foldl_overlay_same]
    intro p hp
    obtain ⟨a, ha, rfl⟩ := List.mem_map.mp hp
    rw [hsame a (List.mem_cons_of_mem first ha)]

theorem mem_compliances {json : List UInt8} :
    json ∈ compliances investments ↔ ∃ inv ∈ investments, inv.complianceData = some json :=
  List.mem_filterMap

/-- The compliance data of all investments survive exactly if they are one text of at most 192
    bytes. -/
theorem survives_iff
    (h : createBulkInvestmentTransaction platform usdcAsset account investments = .ok tx) :
    Survives usdcAsset investments tx ↔ OneShortText investments := by
  constructor
  · intro hsurvives
    have hall : ∀ a ∈ compliances investments, tx.recovered = a := by
      intro a ha
      obtain ⟨inv, hinv, hdata⟩ := mem_compliances.mp ha
      exact hsurvives.complianceData inv hinv a hdata
    refine ⟨fun a ha b hb => (hall a ha).symm.trans (hall b hb), fun a ha => ?_⟩
    have hsame := recovered_same h ha fun b hb => (hall b hb).symm.trans (hall a ha)
    rw [hall a ha] at hsame
    have hlength := congrArg List.length hsame
    rw [List.length_take] at hlength
    omega
  · rintro ⟨hsame, hshort⟩
    obtain ⟨missing, operations, hoperations, htx, hbudget⟩ := built h
    have hlength := length_investmentOperations_le hoperations
    constructor
    case operations =>
      rw [htx, List.length_append, List.length_map]
      omega
    case payments =>
      rw [htx, payments_append, payments_changeTrust, List.nil_append]
      exact payments_investmentOperations hoperations
    case complianceData =>
      intro inv hinv json hdata
      have hjson : json ∈ compliances investments := mem_compliances.mpr ⟨inv, hinv, hdata⟩
      rw [recovered_same h hjson fun a ha => hsame a ha json hjson]
      exact List.take_of_length_le (hshort json hjson)

end Built

/-! ## Two originators -/

def samplePlatform : Platform := ⟨id, fun _ => true, fun _ => true⟩

def usdc : Asset := ⟨"USDC", "GISSUER"⟩

def sampleAccount : Account := ⟨[⟨true, none, none, .finite 10⟩], 1⟩

/-- The bytes of an object with a name. -/
def named (letter : Char) : List UInt8 :=
  (['\x7b'] ++ "\"name\":\"".toList ++ [letter, '"', '\x7d']).map fun c => UInt8.ofNat c.toNat

def investmentOf (escrow : String) (letter : Char) : Investment :=
  ⟨escrow, .finite 5000, "COFFEE", none, some (named letter)⟩

/-- Two investments of one and the same originator. -/
def oneOriginator : Transaction where
  operations :=
    [.payment "GESCROW1" usdc 50000000000, .manageData "fatf_1" "eyJuYW1lIjoiQSJ9".toList,
      .payment "GESCROW2" usdc 50000000000, .manageData "fatf_1" "eyJuYW1lIjoiQSJ9".toList]
  fee := 1000
  memo := "bulk:2deals"

theorem survives_iff_oneOriginator :
    Survives usdc [investmentOf "GESCROW1" 'A', investmentOf "GESCROW2" 'A'] oneOriginator ↔
      OneShortText [investmentOf "GESCROW1" 'A', investmentOf "GESCROW2" 'A'] :=
  survives_iff (by decide +kernel : createBulkInvestmentTransaction samplePlatform usdc
    sampleAccount _ = .ok oneOriginator)

/-- Two investments, each with its own originator. -/
def twoOriginators : Transaction where
  operations :=
    [.payment "GESCROW1" usdc 50000000000, .manageData "fatf_1" "eyJuYW1lIjoiQSJ9".toList,
      .payment "GESCROW2" usdc 50000000000, .manageData "fatf_1" "eyJuYW1lIjoiQiJ9".toList]
  fee := 1000
  memo := "bulk:2deals"

/-- The second compliance data replace the first. -/
theorem second_replaces_first :
    createBulkInvestmentTransaction samplePlatform usdc sampleAccount
        [investmentOf "GESCROW1" 'A', investmentOf "GESCROW2" 'B'] = .ok twoOriginators ∧
      ¬ Survives usdc [investmentOf "GESCROW1" 'A', investmentOf "GESCROW2" 'B']
        twoOriginators := by
  refine ⟨by decide +kernel, fun h => ?_⟩
  have hfirst := h.complianceData _ List.mem_cons_self (named 'A') rfl
  revert hfirst
  decide +kernel

end AgriFi.Stellar.BulkInvestment
