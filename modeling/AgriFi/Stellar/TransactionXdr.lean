import Mathlib

/-
  The check of a signed transaction before it is submitted (`src/stellar/stellar.service.ts`,
  `validateTransactionXdr`). The names of the operation types are looked up by number, but the SDK
  reports a type by its name: every operation is checked as `unknown_<type>`, against lower-cased
  entries (`refusal_eq_none_iff`). No operation is listed under such a name by intention, so what
  is right is the refusal of what should be refused; `validates_iff` has the exact condition.
-/

namespace AgriFi.Stellar.TransactionXdr

/-! ## Operations -/

/-- `op.type`, as the SDK reports it. -/
inductive OperationType where
  | createAccount
  | payment
  | pathPaymentStrictReceive
  | pathPaymentStrictSend
  | createPassiveSellOffer
  | manageSellOffer
  | manageBuyOffer
  | setOptions
  | changeTrust
  | allowTrust
  | accountMerge
  | inflation
  | manageData
  | bumpSequence
  | createClaimableBalance
  | claimClaimableBalance
  | beginSponsoringFutureReserves
  | endSponsoringFutureReserves
  | revokeSponsorship
  | revokeAccountSponsorship
  | revokeTrustlineSponsorship
  | revokeOfferSponsorship
  | revokeDataSponsorship
  | revokeClaimableBalanceSponsorship
  | revokeLiquidityPoolSponsorship
  | revokeSignerSponsorship
  | clawback
  | clawbackClaimableBalance
  | setTrustLineFlags
  | liquidityPoolDeposit
  | liquidityPoolWithdraw
  | invokeHostFunction
  | extendFootprintTtl
  | restoreFootprint
  deriving DecidableEq

def OperationType.name : OperationType → String
  | createAccount => "createAccount"
  | payment => "payment"
  | pathPaymentStrictReceive => "pathPaymentStrictReceive"
  | pathPaymentStrictSend => "pathPaymentStrictSend"
  | createPassiveSellOffer => "createPassiveSellOffer"
  | manageSellOffer => "manageSellOffer"
  | manageBuyOffer => "manageBuyOffer"
  | setOptions => "setOptions"
  | changeTrust => "changeTrust"
  | allowTrust => "allowTrust"
  | accountMerge => "accountMerge"
  | inflation => "inflation"
  | manageData => "manageData"
  | bumpSequence => "bumpSequence"
  | createClaimableBalance => "createClaimableBalance"
  | claimClaimableBalance => "claimClaimableBalance"
  | beginSponsoringFutureReserves => "beginSponsoringFutureReserves"
  | endSponsoringFutureReserves => "endSponsoringFutureReserves"
  | revokeSponsorship => "revokeSponsorship"
  | revokeAccountSponsorship => "revokeAccountSponsorship"
  | revokeTrustlineSponsorship => "revokeTrustlineSponsorship"
  | revokeOfferSponsorship => "revokeOfferSponsorship"
  | revokeDataSponsorship => "revokeDataSponsorship"
  | revokeClaimableBalanceSponsorship => "revokeClaimableBalanceSponsorship"
  | revokeLiquidityPoolSponsorship => "revokeLiquidityPoolSponsorship"
  | revokeSignerSponsorship => "revokeSignerSponsorship"
  | clawback => "clawback"
  | clawbackClaimableBalance => "clawbackClaimableBalance"
  | setTrustLineFlags => "setTrustLineFlags"
  | liquidityPoolDeposit => "liquidityPoolDeposit"
  | liquidityPoolWithdraw => "liquidityPoolWithdraw"
  | invokeHostFunction => "invokeHostFunction"
  | extendFootprintTtl => "extendFootprintTtl"
  | restoreFootprint => "restoreFootprint"

/-- The operations that can move funds to an account. -/
def OperationType.movesFunds : OperationType → Bool
  | payment | createAccount | pathPaymentStrictReceive | pathPaymentStrictSend | accountMerge =>
    true
  | _ => false

/-- A decoded operation, as far as the check looks at it. -/
structure Operation where
  type : OperationType
  destination : Option String
  deriving DecidableEq

/-- `String.prototype.toLowerCase`. -/
structure LowerCase where
  toLowerCase : String → String
  /-- No letter from A to Z is left. -/
  noCapital : ∀ s, (toLowerCase s).toList.any Char.isUpper = false

/-! ## `validateTransactionXdr` -/

structure Validation where
  valid : Bool
  reason : Option String
  deriving DecidableEq

def Validation.refused (reason : String) : Validation := ⟨false, some reason⟩

/-- The keys of an object are texts, also those written as numbers. -/
def opTypeMap : String → Option String
  | "1" => some "createAccount"
  | "2" => some "payment"
  | "3" => some "pathPaymentStrictReceive"
  | "4" => some "manageSellOffer"
  | "5" => some "createPassiveSellOffer"
  | "6" => some "setOptions"
  | "7" => some "changeTrust"
  | "8" => some "allowTrust"
  | "9" => some "accountMerge"
  | "10" => some "inflation"
  | "11" => some "manageData"
  | "12" => some "bumpSequence"
  | "13" => some "manageBuyOffer"
  | "14" => some "pathPaymentStrictSend"
  | "15" => some "claimClaimableBalance"
  | "16" => some "beginSponsoringFutureReserves"
  | "17" => some "endSponsoringFutureReserves"
  | "18" => some "revokeSponsorship"
  | "19" => some "clawback"
  | "20" => some "clawbackClaimableBalance"
  | "21" => some "setTrustLineFlags"
  | "22" => some "liquidityPoolDeposit"
  | "23" => some "liquidityPoolWithdraw"
  | _ => none

def opName (type : OperationType) : String := (opTypeMap type.name).getD ("unknown_" ++ type.name)

section Check

variable (language : LowerCase) (allowedOpTypes : List String)
variable (allowedDestinations : Option (List String))

def allowedSet : List String := allowedOpTypes.map language.toLowerCase

/-- The reason for the destination of one operation; an empty destination is not looked at. -/
def destinationRefusal (op : Operation) : Option String :=
  match allowedDestinations with
  | none => none
  | some destinations =>
    if opName op.type = "payment" ∨ opName op.type = "createAccount" then
      match op.destination with
      | none => none
      | some dest =>
        if dest ≠ "" ∧ dest ∉ destinations then
          some ("Destination " ++ dest ++ " is not in the allowed escrow list")
        else none
    else none

/-- The reason of the first operation that is not allowed. -/
def refusal : List Operation → Option String
  | [] => none
  | op :: operations =>
    if opName op.type ∉ allowedSet language allowedOpTypes then
      some ("Operation type '" ++ opName op.type ++ "' is not allowed. Allowed: " ++
        ", ".intercalate allowedOpTypes)
    else
      match destinationRefusal allowedDestinations op with
      | some reason => some reason
      | none => refusal operations

/-- `fromXDR` is the SDK's, which throws at what is no envelope. -/
def validateTransactionXdr (fromXDR : String → Option (List Operation)) (signedXdr : String) :
    Validation :=
  match fromXDR signedXdr with
  | none => .refused "Invalid XDR: could not decode transaction"
  | some operations =>
    match refusal language allowedOpTypes allowedDestinations operations with
    | some reason => .refused reason
    | none => ⟨true, none⟩

/-- What the check is for: the type is listed, and funds go to a listed account. -/
def Acceptable (op : Operation) : Prop :=
  op.type.name ∈ allowedOpTypes ∧
    ∀ destinations, allowedDestinations = some destinations → op.type.movesFunds →
      ∃ dest ∈ destinations, op.destination = some dest

/-- One of the three types whose name has no capital letter, with an entry that reads
    `unknown_<type>` in lower case. -/
def ListedAsUnknown (op : Operation) : Prop :=
  (op.type = .payment ∨ op.type = .inflation ∨ op.type = .clawback) ∧
    ∃ entry ∈ allowedOpTypes, language.toLowerCase entry = "unknown_" ++ op.type.name

/-! ## Names -/

/-- No name of a type is a number. -/
theorem opName_eq (type : OperationType) : opName type = "unknown_" ++ type.name := by
  cases type <;> rfl

theorem destinationRefusal_eq_none (op : Operation) :
    destinationRefusal allowedDestinations op = none := by
  have hname : ¬ (opName op.type = "payment" ∨ opName op.type = "createAccount") := by
    rw [opName_eq]
    cases op.type <;> decide
  unfold destinationRefusal
  cases allowedDestinations with
  | none => rfl
  | some destinations => exact if_neg hname

theorem hasCapital {type : OperationType}
    (h : ¬ (type = .payment ∨ type = .inflation ∨ type = .clawback)) :
    ("unknown_" ++ type.name).toList.any Char.isUpper = true := by
  rw [String.toList_append, List.any_append, Bool.or_eq_true]
  right
  revert h
  cases type <;> rw [OperationType.name, String.toList_ofList] <;> decide

theorem mem_allowedSet_iff (op : Operation) :
    opName op.type ∈ allowedSet language allowedOpTypes ↔
      ListedAsUnknown language allowedOpTypes op := by
  rw [opName_eq, allowedSet, List.mem_map]
  constructor
  · rintro ⟨entry, hentry, hlower⟩
    refine ⟨?_, entry, hentry, hlower⟩
    by_contra hother
    have hcapital := hasCapital hother
    rw [← hlower, language.noCapital] at hcapital
    cases hcapital
  · rintro ⟨-, entry, hentry, hlower⟩
    exact ⟨entry, hentry, hlower⟩

/-! ## The verdict -/

theorem refusal_eq_none_iff (operations : List Operation) :
    refusal language allowedOpTypes allowedDestinations operations = none ↔
      ∀ op ∈ operations, ListedAsUnknown language allowedOpTypes op := by
  induction operations with
  | nil => simp [refusal]
  | cons op operations ih =>
    rw [List.forall_mem_cons, ← ih, ← mem_allowedSet_iff, refusal, destinationRefusal_eq_none]
    by_cases h : opName op.type ∈ allowedSet language allowedOpTypes
    · simp [h]
    · simp [h]

theorem valid_iff {fromXDR : String → Option (List Operation)} {signedXdr : String}
    {operations : List Operation} (h : fromXDR signedXdr = some operations) :
    (validateTransactionXdr language allowedOpTypes allowedDestinations fromXDR signedXdr).valid ↔
      ∀ op ∈ operations, ListedAsUnknown language allowedOpTypes op := by
  rw [← refusal_eq_none_iff language allowedOpTypes allowedDestinations, validateTransactionXdr, h]
  dsimp only
  cases refusal language allowedOpTypes allowedDestinations operations with
  | none => simp
  | some reason => simp [Validation.refused]

/-- The verdict is right if every operation is acceptable and listed as unknown as well, or if one
    is not acceptable and one is not listed as unknown. -/
theorem validates_iff {fromXDR : String → Option (List Operation)} {signedXdr : String}
    {operations : List Operation} (h : fromXDR signedXdr = some operations) :
    ((validateTransactionXdr language allowedOpTypes allowedDestinations fromXDR
          signedXdr).valid ↔
        ∀ op ∈ operations, Acceptable allowedOpTypes allowedDestinations op) ↔
      (∀ op ∈ operations, Acceptable allowedOpTypes allowedDestinations op ∧
        ListedAsUnknown language allowedOpTypes op) ∨
      ((∃ op ∈ operations, ¬ Acceptable allowedOpTypes allowedDestinations op) ∧
        ∃ op ∈ operations, ¬ ListedAsUnknown language allowedOpTypes op) := by
  rw [valid_iff language allowedOpTypes allowedDestinations h]
  constructor
  · intro hsame
    by_cases hall : ∀ op ∈ operations, Acceptable allowedOpTypes allowedDestinations op
    · exact .inl fun op hop => ⟨hall op hop, hsame.mpr hall op hop⟩
    · have hlisted := mt hsame.mp hall
      push Not at hall hlisted
      exact .inr ⟨hall, hlisted⟩
  · rintro (hboth | ⟨⟨op, hop, hrefuse⟩, op', hop', hunlisted⟩)
    · exact ⟨fun _ op hop => (hboth op hop).1, fun _ op hop => (hboth op hop).2⟩
    · exact ⟨fun hlisted => absurd (hlisted op' hop') hunlisted,
        fun hall => absurd (hall op hop) hrefuse⟩

end Check

/-! ## A payment to the escrow -/

/-- The letters of ASCII in lower case. -/
def asciiLowerCase : LowerCase where
  toLowerCase s := String.ofList (s.toList.map Char.toLower)
  noCapital s := by
    rw [String.toList_ofList, List.any_map, List.any_eq_false]
    intro c _
    rw [Function.comp_apply, Char.isUpper_toLower_eq_false]
    decide

def paysEscrow : Operation := ⟨.payment, some "GESCROW"⟩

/-- A signed envelope with that payment. -/
def decodePayment (signedXdr : String) : Option (List Operation) :=
  if signedXdr = "AAAA" then some [paysEscrow] else none

/-- With the default types, a payment to an active escrow is refused. -/
theorem payment_refused :
    ¬ ((validateTransactionXdr asciiLowerCase ["payment", "changeTrust"] (some ["GESCROW"])
          decodePayment "AAAA").valid ↔
        ∀ op ∈ [paysEscrow], Acceptable ["payment", "changeTrust"] (some ["GESCROW"]) op) := by
  intro h
  have hacceptable : ∀ op ∈ [paysEscrow],
      Acceptable ["payment", "changeTrust"] (some ["GESCROW"]) op := by
    intro op hop
    rw [List.mem_singleton.mp hop]
    refine ⟨by decide, fun destinations hdestinations _ => ⟨"GESCROW", ?_, rfl⟩⟩
    rw [← Option.some.inj hdestinations]
    exact List.mem_singleton_self _
  have hrefused : (validateTransactionXdr asciiLowerCase ["payment", "changeTrust"]
      (some ["GESCROW"]) decodePayment "AAAA").valid = false := by decide
  rw [h.mpr hacceptable] at hrefused
  cases hrefused

theorem validates_iff_payment :
    ((validateTransactionXdr asciiLowerCase ["payment", "changeTrust"] (some ["GESCROW"])
          decodePayment "AAAA").valid ↔
        ∀ op ∈ [paysEscrow], Acceptable ["payment", "changeTrust"] (some ["GESCROW"]) op) ↔
      (∀ op ∈ [paysEscrow], Acceptable ["payment", "changeTrust"] (some ["GESCROW"]) op ∧
        ListedAsUnknown asciiLowerCase ["payment", "changeTrust"] op) ∨
      ((∃ op ∈ [paysEscrow], ¬ Acceptable ["payment", "changeTrust"] (some ["GESCROW"]) op) ∧
        ∃ op ∈ [paysEscrow], ¬ ListedAsUnknown asciiLowerCase ["payment", "changeTrust"] op) :=
  validates_iff asciiLowerCase ["payment", "changeTrust"] (some ["GESCROW"]) (by decide)

end AgriFi.Stellar.TransactionXdr
