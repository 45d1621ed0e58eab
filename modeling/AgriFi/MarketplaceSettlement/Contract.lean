import AgriFi.Soroban.Vault
import AgriFi.Soroban.HostMap

/-
  The marketplace settlement contract (`contracts/marketplace_settlement`): a buyer's payment is
  held per order until the admin confirms the delivery, which pays farmer, investors and
  platform, or refunds the buyer. Order ids are only compared, so their type is a parameter.
-/

namespace AgriFi.MarketplaceSettlement

open AgriFi.Soroban AgriFi.Runs
open AgriFi.Soroban.Vault (requireAuth)

inductive Error where
  | unauthorized
  | orderNotFound
  | orderAlreadyExists
  | invalidAmount
  | invalidState
  | notInitialized
  | alreadyInitialized
  deriving DecidableEq, Repr

inductive OrderStatus where
  | pending
  | completed
  | refunded
  deriving DecidableEq, Repr

structure InvestorShare (Addr : Type) where
  investor : Addr
  shareBps : Nat

structure Order (Addr Id : Type) where
  orderId : Id
  buyer : Addr
  farmer : Addr
  amount : Int
  platformFeeBps : Nat
  status : OrderStatus
  createdAt : Nat
  investorShares : List (InvestorShare Addr)

/-- Instance storage after `initialize`. -/
structure Market (Addr Id : Type) [LinearOrder Id] where
  admin : Addr
  usdcToken : Addr
  platformFeeBps : Nat
  orders : HostMap Id (Order Addr Id)
  orderCount : Nat

abbrev World (Addr Id : Type) [LinearOrder Id] := Vault Addr (Market Addr Id)

variable {Addr Id : Type} [DecidableEq Addr] [LinearOrder Id]

/-! ## Entry points -/

/-- `initialize`; `storage` is what the instance holds before the call. -/
def initializeContract (storage : Option (Market Addr Id)) (admin usdcToken : Addr)
    (platformFeeBps : Nat) : Result Error (Market Addr Id) := do
  failIf (storage.isSome = true) (.err .alreadyInitialized)
  pure { admin, usdcToken, platformFeeBps, orders := .empty, orderCount := 0 }

/-- `investor_shares.iter().map(|s| s.share_bps).sum()` on `u32`. -/
def totalInvestorBps : List (InvestorShare Addr) → Nat → Result Error Nat
  | [], acc => pure acc
  | share :: shares, acc => do
    let acc ← okOr (checkedAddU 32 acc share.shareBps) (.trap .overflow)
    totalInvestorBps shares acc

def createOrder (led : Ledger Addr) (w : World Addr Id) (buyer : Addr) (orderId : Id)
    (farmer : Addr) (amount : Int) (investorShares : List (InvestorShare Addr)) :
    Result Error (World Addr Id) := do
  let m := w.storage
  requireAuth led w buyer
  failIf (amount ≤ 0) (.err .invalidAmount)
  failIf ((m.orders.get? orderId).isSome = true) (.err .orderAlreadyExists)
  let total ← totalInvestorBps investorShares 0
  failIf (total > 9800) (.err .invalidAmount)
  let order : Order Addr Id := {
    orderId, buyer, farmer, amount
    platformFeeBps := m.platformFeeBps
    status := .pending
    createdAt := led.timestamp
    investorShares }
  let count ← okOr (checkedAddU 32 m.orderCount 1) (.trap .overflow)
  { w with
    storage.orders := m.orders.set orderId order
    storage.orderCount := count }.receive led buyer amount

/-- The checks `confirm_delivery` and `refund_buyer` open with: the admin, and a pending order. -/
def loadPending (led : Ledger Addr) (w : World Addr Id) (admin : Addr) (orderId : Id) :
    Result Error (Order Addr Id) := do
  requireAuth led w admin
  failIf (admin ≠ w.storage.admin) (.err .unauthorized)
  let order ← okOr (w.storage.orders.get? orderId) (.err .orderNotFound)
  failIf (order.status ≠ .pending) (.err .invalidState)
  pure order

/-- `if amount > 0 { usdc.transfer(..) }`. -/
def sendIfPositive (w : World Addr Id) (dst : Addr) (amount : Int) : Result Error (World Addr Id) :=
  if amount > 0 then w.send dst amount else pure w

/-- What the loop of `confirm_delivery` gives `share`; the last investor gets the rest. -/
def investorAmount (investorPool : Int) (total : Nat) (share : InvestorShare Addr)
    (rest : List (InvestorShare Addr)) (paidToInvestors : Int) : Result Error Int :=
  if rest.isEmpty = true then okOr (checkedSub investorPool paidToInvestors) (.trap .overflow)
  else if total > 0 then do
    let product ← okOr (checkedMul investorPool share.shareBps) (.trap .overflow)
    okOr (checkedDiv product total) (.trap .overflow)
  else pure 0

/-- The investor loop of `confirm_delivery`. -/
def payInvestors (investorPool : Int) (total : Nat) :
    List (InvestorShare Addr) → Int → World Addr Id → Result Error (World Addr Id)
  | [], _, w => pure w
  | share :: rest, paidToInvestors, w => do
    let amount ← investorAmount investorPool total share rest paidToInvestors
    if amount > 0 then do
      let w ← w.send share.investor amount
      let paid ← okOr (checkedAdd paidToInvestors amount) (.trap .overflow)
      payInvestors investorPool total rest paid w
    else payInvestors investorPool total rest paidToInvestors w

def confirmDelivery (led : Ledger Addr) (w : World Addr Id) (admin : Addr) (orderId : Id) :
    Result Error (World Addr Id) := do
  let order ← loadPending led w admin orderId
  let product ← okOr (checkedMul order.amount order.platformFeeBps) (.trap .overflow)
  let platformFee ← okOr (checkedDiv product 10000) (.trap .overflow)
  let distributable ← okOr (checkedSub order.amount platformFee) (.trap .overflow)
  let total ← totalInvestorBps order.investorShares 0
  let investorPool ←
    if total > 0 then do
      let product ← okOr (checkedMul distributable total) (.trap .overflow)
      okOr (checkedDiv product 10000) (.trap .overflow)
    else pure 0
  let farmerAmount ← okOr (checkedSub distributable investorPool) (.trap .overflow)
  let w : World Addr Id :=
    { w with storage.orders := w.storage.orders.set orderId { order with status := .completed } }
  let w ← sendIfPositive w order.farmer farmerAmount
  let w ← payInvestors investorPool total order.investorShares 0 w
  sendIfPositive w w.storage.admin platformFee

def refundBuyer (led : Ledger Addr) (w : World Addr Id) (admin : Addr) (orderId : Id) :
    Result Error (World Addr Id) := do
  let order ← loadPending led w admin orderId
  { w with
    storage.orders := w.storage.orders.set orderId { order with status := .refunded }
    }.send order.buyer order.amount

/-! ## Calls and runs -/

inductive Call (Addr Id : Type) where
  | initializeContract (admin usdcToken : Addr) (platformFeeBps : Nat)
  | createOrder (buyer : Addr) (orderId : Id) (farmer : Addr) (amount : Int)
      (investorShares : List (InvestorShare Addr))
  | confirmDelivery (admin : Addr) (orderId : Id)
  | refundBuyer (admin : Addr) (orderId : Id)
  /-- Any of the read-only entry points; none of them writes. -/
  | view

def dispatch (led : Ledger Addr) (w : World Addr Id) :
    Call Addr Id → Result Error (World Addr Id)
  | .initializeContract admin usdcToken platformFeeBps => do
    let m ← initializeContract (some w.storage) admin usdcToken platformFeeBps
    pure { w with storage := m }
  | .createOrder buyer orderId farmer amount investorShares =>
    createOrder led w buyer orderId farmer amount investorShares
  | .confirmDelivery admin orderId => confirmDelivery led w admin orderId
  | .refundBuyer admin orderId => refundBuyer led w admin orderId
  | .view => pure w

abbrev Invocation (Addr Id : Type) := Vault.Invocation Addr (Call Addr Id)

/-- A successful call. -/
def callStep (w : World Addr Id) (inv : Invocation Addr Id) : Option (World Addr Id) :=
  Vault.step dispatch w inv

/-- A contract just initialised, holding no USDC. -/
def Initialized (w : World Addr Id) : Prop :=
  ∃ admin usdcToken platformFeeBps m now,
    initializeContract none admin usdcToken platformFeeBps = .ok m ∧
    w = .fresh w.contract m now

abbrev CallStep (Addr Id : Type) [LinearOrder Id] := Step (World Addr Id) (Invocation Addr Id)

abbrev CallRun (w₀ : World Addr Id) (xs : List (CallStep Addr Id)) (w : World Addr Id) : Prop :=
  Run callStep w₀ xs w

/-! ## A sample market -/

/-- A ledger on which everybody signed and holds USDC. -/
def sampleLedger (timestamp : Nat) : Ledger Nat := ⟨timestamp, fun _ => true, fun _ => 1000000⟩

/-- Admin 0, a platform fee of `fee` basis points, deployed at address 99. -/
def sampleWorld (fee : Nat) : World Nat Nat := .fresh 99 ⟨0, 3, fee, .empty, 0⟩ 0

theorem sampleWorld_initialized (fee : Nat) : Initialized (sampleWorld fee) :=
  ⟨0, 3, fee, _, 0, rfl, rfl⟩

def sampleRun (fee : Nat) (calls : List (Nat × Call Nat Nat)) :
    List (CallStep Nat Nat) × World Nat Nat :=
  replay callStep (sampleWorld fee) (calls.map fun c => ⟨sampleLedger c.1, c.2⟩)

theorem sampleRun_run (fee : Nat) (calls : List (Nat × Call Nat Nat)) :
    CallRun (sampleWorld fee) (sampleRun fee calls).1 (sampleRun fee calls).2 :=
  run_replay _ _ _

end AgriFi.MarketplaceSettlement
