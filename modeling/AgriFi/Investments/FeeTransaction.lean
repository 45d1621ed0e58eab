import AgriFi.Base64
import AgriFi.NumberText

/-
  Fees in the memo of an investment transaction. The fee hash is the beginning of the Base64 text
  of the breakdown, so short that it holds the first field's name and no amount: it is one and the
  same text for every breakdown (`feeHash_eq`), and the check for tampering accepts every pair. The
  memo carries it after the asset code and the token amount, and Stellar takes 28 bytes: what is
  left for the two is three characters (`tamper_check_and_memo_iff`).
-/

namespace AgriFi.Investments.FeeTransaction

open AgriFi.JsValue

/-! ## Texts and bytes -/

/-- `Buffer.from(text)`. -/
def utf8 (text : List Char) : List UInt8 := text.flatMap String.utf8EncodeChar

/-- `JSON.stringify` of an object whose fields are numbers. -/
def jsonObject (fields : List (String × Number)) : List Char :=
  ['\x7b'] ++
    [','].intercalate (fields.map fun (name, n) =>
      ['"'] ++ name.toList ++ ['"', ':'] ++ n.jsonText) ++
    ['\x7d']

/-- `Math.round`. -/
def round : Number → Number
  | .finite q => .finite (Binary64.mathRound q)
  | n => n

/-! ## `fee-transaction.utils.ts` -/

structure FeeLineItem where
  amount : Number
  ratePercent : Number
  deriving DecidableEq

structure FeeBreakdown where
  grossAmount : Number
  platformOriginationFee : Option FeeLineItem
  platformSuccessFee : Option FeeLineItem
  investorEntryFee : Option FeeLineItem
  earlyExitFee : Option FeeLineItem
  totalFees : Number
  netInvestmentAmount : Number
  deriving DecidableEq

structure EncodedFeeData where
  feeHash : List Char
  totalFeeStroops : Number
  compressed : List Char
  deriving DecidableEq

/-- `n || 0`. -/
def orZero : Option Number → Number
  | some .nan | none => .finite 0
  | some n => n

/-- The fields under the fee hash. -/
def feeFields (feeBreakdown : FeeBreakdown) : List (String × Number) :=
  [("grossAmount", feeBreakdown.grossAmount),
    ("platformOriginationFee", orZero (feeBreakdown.platformOriginationFee.map (·.amount))),
    ("platformSuccessFee", orZero (feeBreakdown.platformSuccessFee.map (·.amount))),
    ("investorEntryFee", orZero (feeBreakdown.investorEntryFee.map (·.amount))),
    ("earlyExitFee", orZero (feeBreakdown.earlyExitFee.map (·.amount))),
    ("totalFees", feeBreakdown.totalFees),
    ("netInvestmentAmount", feeBreakdown.netInvestmentAmount)]

def compressedFields (feeBreakdown : FeeBreakdown) : List (String × Number) :=
  [("t", feeBreakdown.totalFees),
    ("n", feeBreakdown.netInvestmentAmount),
    ("pof", orZero (feeBreakdown.platformOriginationFee.map (·.ratePercent))),
    ("psf", orZero (feeBreakdown.platformSuccessFee.map (·.ratePercent))),
    ("ief", orZero (feeBreakdown.investorEntryFee.map (·.ratePercent))),
    ("eef", orZero (feeBreakdown.earlyExitFee.map (·.ratePercent)))]

def encodeFeeData (feeBreakdown : FeeBreakdown) : EncodedFeeData where
  feeHash := (Base64.encode (utf8 (jsonObject (feeFields feeBreakdown)))).take 16
  totalFeeStroops := round (feeBreakdown.totalFees.mul (.finite 10000000))
  compressed := Base64.encode (utf8 (jsonObject (compressedFields feeBreakdown)))

def generateInvestmentMemo (assetCode : List Char) (tokenAmount : Number)
    (feeData : EncodedFeeData) : List Char :=
  "invest:".toList ++ assetCode ++ [':'] ++ tokenAmount.toText ++ [':'] ++ feeData.feeHash

def verifyFeeData (originalFeeBreakdown : FeeBreakdown) (encodedFeeData : EncodedFeeData) : Bool :=
  (encodeFeeData originalFeeBreakdown).feeHash = encodedFeeData.feeHash

def extractFeeHashFromMemo (memo : List Char) : Option (List Char) :=
  match memo.splitOn ':' with
  | first :: _ :: _ :: feeHash :: _ => if first = "invest".toList then some feeHash else none
  | _ => none

/-! ## The memo of the transaction -/

/-- `InvestmentTxService.buildInvestmentMemo`. -/
def buildInvestmentMemo (assetCode : List Char) (tokenAmount : Number)
    (investmentMemo : Option (List Char)) : List Char :=
  match investmentMemo with
  | some (c :: memo) => c :: memo
  | some [] | none => "invest:".toList ++ assetCode ++ [':'] ++ tokenAmount.toText

/-- `Memo.text` throws at more than 28 bytes. -/
def memoText (text : List Char) : Option (List Char) :=
  if (utf8 text).length ≤ 28 then some text else none

/-- The memo in `createInvestmentTransaction`, or an error. -/
def transactionMemo (assetCode : List Char) (tokenAmount : Number)
    (investmentMemo : Option (List Char)) : Option (List Char) :=
  memoText (buildInvestmentMemo assetCode tokenAmount investmentMemo)

/-- The code of a Stellar asset. -/
structure AssetCode where
  text : List Char
  isAlphanum : ∀ c ∈ text, c.isAlphanum
  length : 1 ≤ text.length ∧ text.length ≤ 12

/-- The check accepts exactly the breakdowns that agree on all fields. -/
def TamperEvident (a b : FeeBreakdown) : Prop :=
  verifyFeeData a (encodeFeeData b) ↔ feeFields a = feeFields b

/-- The generated memo fits, and the fee hash is read back from it. -/
def MemoRoundTrips (assetCode : AssetCode) (tokenAmount : Number) (b : FeeBreakdown) : Prop :=
  ∃ memo, transactionMemo assetCode.text tokenAmount
      (some (generateInvestmentMemo assetCode.text tokenAmount (encodeFeeData b))) = some memo ∧
    (utf8 memo).length ≤ 28 ∧ extractFeeHashFromMemo memo = some (encodeFeeData b).feeHash

/-! ## The fee hash -/

theorem utf8_append (s t : List Char) : utf8 (s ++ t) = utf8 s ++ utf8 t :=
  List.flatMap_append

theorem length_utf8 {text : List Char} (h : ∀ c ∈ text, Number.IsPlain c ∨ c = ':') :
    (utf8 text).length = text.length := by
  induction text with
  | nil => rfl
  | cons c text ih =>
    have hsize : (String.utf8EncodeChar c).length = 1 := by
      rw [String.length_utf8EncodeChar]
      cases h c List.mem_cons_self with
      | inl hplain => exact hplain.utf8Size
      | inr hcolon => subst hcolon; decide
    have hrest := ih fun d hd => h d (List.mem_cons_of_mem c hd)
    unfold utf8 at hrest ⊢
    rw [List.flatMap_cons, List.length_append, hsize, hrest, List.length_cons, Nat.add_comm]

/-- The twelve characters the fee hash is made of. -/
def hashed : List Char := '\x7b' :: "\"grossAmoun".toList

/-- The text under the hash begins with the name of its first field. -/
theorem jsonObject_feeFields (b : FeeBreakdown) :
    ∃ rest, jsonObject (feeFields b) = hashed ++ rest :=
  ⟨_, rfl⟩

def constantHash : List Char := "eyJncm9zc0Ftb3Vu".toList

theorem feeHash_eq (b : FeeBreakdown) : (encodeFeeData b).feeHash = constantHash := by
  obtain ⟨rest, hrest⟩ := jsonObject_feeFields b
  have hhashed : Base64.encode (utf8 hashed) = constantHash := by decide
  rw [encodeFeeData, hrest, utf8_append, Base64.encode_append (by decide), hhashed]
  exact List.take_left' rfl

theorem verifyFeeData_encodeFeeData (a b : FeeBreakdown) : verifyFeeData a (encodeFeeData b) := by
  unfold verifyFeeData
  rw [feeHash_eq, feeHash_eq]
  decide

/-! ## The memo -/

section Memo

variable (assetCode : AssetCode) (tokenAmount : Number) (b : FeeBreakdown)

theorem isPlain_constantHash {c : Char} (h : c ∈ constantHash) : Number.IsPlain c := by
  have hall : constantHash.all Char.isAlphanum := by decide
  exact .inl (List.all_eq_true.mp hall c h)

theorem generateInvestmentMemo_eq :
    generateInvestmentMemo assetCode.text tokenAmount (encodeFeeData b) =
      [':'].intercalate ["invest".toList, assetCode.text, tokenAmount.toText, constantHash] := by
  unfold generateInvestmentMemo
  simp [List.intercalate, feeHash_eq]

theorem extractFeeHashFromMemo_generate :
    extractFeeHashFromMemo (generateInvestmentMemo assetCode.text tokenAmount (encodeFeeData b)) =
      some (encodeFeeData b).feeHash := by
  have hparts : ∀ part ∈ ["invest".toList, assetCode.text, tokenAmount.toText, constantHash],
      ':' ∉ part := by
    intro part hpart hcolon
    have hplain : Number.IsPlain ':' := by
      simp only [List.mem_cons, List.not_mem_nil, or_false] at hpart
      rcases hpart with rfl | rfl | rfl | rfl
      · exact absurd hcolon (by decide)
      · exact .inl (assetCode.isAlphanum _ hcolon)
      · exact Number.isPlain_toText hcolon
      · exact isPlain_constantHash hcolon
    exact hplain.ne_colon rfl
  unfold extractFeeHashFromMemo
  simp only [generateInvestmentMemo_eq, feeHash_eq]
  simp only [List.splitOn_intercalate ':' hparts (List.cons_ne_nil _ _), if_true]

theorem isPlain_of_mem_memo {c : Char}
    (h : c ∈ generateInvestmentMemo assetCode.text tokenAmount (encodeFeeData b)) :
    Number.IsPlain c ∨ c = ':' := by
  have hinvest : "invest:".toList.all fun d => decide (d.isAlphanum ∨ d = ':') := by decide
  unfold generateInvestmentMemo at h
  simp only [feeHash_eq, List.mem_append, List.mem_singleton] at h
  rcases h with ((((h | h) | rfl) | h) | rfl) | h
  · exact (of_decide_eq_true (List.all_eq_true.mp hinvest c h)).imp_left .inl
  · exact .inl (.inl (assetCode.isAlphanum c h))
  · exact .inr rfl
  · exact .inl (Number.isPlain_toText h)
  · exact .inr rfl
  · exact .inl (isPlain_constantHash h)

theorem length_generateInvestmentMemo :
    (utf8 (generateInvestmentMemo assetCode.text tokenAmount (encodeFeeData b))).length =
      25 + assetCode.text.length + tokenAmount.toText.length := by
  have h1 : "invest:".toList.length = 7 := rfl
  have h2 : constantHash.length = 16 := rfl
  rw [length_utf8 fun c => isPlain_of_mem_memo assetCode tokenAmount b]
  unfold generateInvestmentMemo
  simp only [feeHash_eq, List.length_append, List.length_cons, List.length_nil]
  omega

theorem transactionMemo_generate :
    transactionMemo assetCode.text tokenAmount
        (some (generateInvestmentMemo assetCode.text tokenAmount (encodeFeeData b))) =
      memoText (generateInvestmentMemo assetCode.text tokenAmount (encodeFeeData b)) :=
  rfl

theorem memoRoundTrips_iff :
    MemoRoundTrips assetCode tokenAmount b ↔
      assetCode.text.length + tokenAmount.toText.length ≤ 3 := by
  unfold MemoRoundTrips
  rw [transactionMemo_generate, memoText, length_generateInvestmentMemo]
  constructor
  · rintro ⟨memo, hmemo, -⟩
    split at hmemo
    · omega
    · cases hmemo
  · intro h
    refine ⟨_, if_pos (by omega), ?_, extractFeeHashFromMemo_generate assetCode tokenAmount b⟩
    rw [length_generateInvestmentMemo]
    omega

end Memo

/-! ## Both together -/

/-- The check tells two breakdowns apart only if they agree anyway, and the memo gets on chain only
    if asset code and amount are three characters together. -/
theorem tamper_check_and_memo_iff (assetCode : AssetCode) (tokenAmount : Number)
    (a b c : FeeBreakdown) :
    TamperEvident a b ∧ MemoRoundTrips assetCode tokenAmount c ↔
      feeFields a = feeFields b ∧ assetCode.text.length + tokenAmount.toText.length ≤ 3 := by
  unfold TamperEvident
  rw [memoRoundTrips_iff]
  constructor
  · rintro ⟨hverify, hlength⟩
    exact ⟨hverify.mp (verifyFeeData_encodeFeeData a b), hlength⟩
  · rintro ⟨hfields, hlength⟩
    exact ⟨⟨fun _ => hfields, fun _ => verifyFeeData_encodeFeeData a b⟩, hlength⟩

def coffee : AssetCode := ⟨"COFFEE".toList, List.all_eq_true.mp (by decide), by decide⟩

/-- A hundred dollars with an entry fee. -/
def charged : FeeBreakdown where
  grossAmount := .finite 100
  platformOriginationFee := none
  platformSuccessFee := none
  investorEntryFee := some ⟨.finite 2, .finite 2⟩
  earlyExitFee := none
  totalFees := .finite 2
  netInvestmentAmount := .finite 98

/-- The same hundred dollars without it. -/
def waived : FeeBreakdown :=
  { charged with
    investorEntryFee := none, totalFees := .finite 0, netInvestmentAmount := .finite 100 }

/-- A waived fee passes the check against a charged one, and ten units of `COFFEE` make a memo that
    no transaction takes. -/
theorem waived_passes_and_memo_refused :
    ¬ TamperEvident charged waived ∧ ¬ MemoRoundTrips coffee (.finite 10) charged := by
  constructor
  · intro h
    have hfields := h.mp (by decide +kernel)
    revert hfields
    decide
  · rintro ⟨memo, hmemo, -⟩
    have hrefused : transactionMemo coffee.text (.finite 10) (some (generateInvestmentMemo
        coffee.text (.finite 10) (encodeFeeData charged))) = none := by
      decide +kernel
    rw [hrefused] at hmemo
    cases hmemo

end AgriFi.Investments.FeeTransaction
