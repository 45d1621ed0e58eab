import AgriFi.Runs
import AgriFi.Soroban.Checked
import AgriFi.Soroban.HostMap

/-
  The RevenueDistributor contract (`contracts/revenue_distributor`): an admin registers holders
  with their token balances, beside a counter of the total supply, and pays revenue out to them
  pro rata. `initialize` writes the five keys of the instance together and nothing removes them,
  so they are the fields of `Distributor`, and a contract that is not initialised holds none.
-/

namespace AgriFi.RevenueDistributor

open AgriFi.Soroban AgriFi.Runs

inductive Error where
  | unauthorized
  | invalidShares
  | invalidAmount
  | alreadyInitialized
  | notInitialized
  | holderExists
  | noHolders
  | zeroSupply
  | arithmeticOverflow
  deriving DecidableEq, Repr

/-- Instance storage after `initialize`. -/
structure Distributor (Addr : Type) [LinearOrder Addr] where
  admin : Addr
  usdcToken : Addr
  holderBalances : HostMap Addr Int
  totalSupply : Int
  distributionCount : Nat

/-- One `usdc.transfer(current_contract_address, dst, amount)`. -/
structure Payment (Addr : Type) where
  asset : Addr
  dst : Addr
  amount : Int
  deriving DecidableEq, Repr

structure World (Addr : Type) [LinearOrder Addr] where
  /-- `env.current_contract_address()`. -/
  contract : Addr
  storage : Option (Distributor Addr)
  /-- What the contract holds of each asset. -/
  held : Addr → Int
  /-- Transfers of the latest call, in order. -/
  payments : List (Payment Addr)

variable {Addr : Type} [LinearOrder Addr]

/-! ## Host -/

/-- `addr.require_auth()`. The host refuses re-entry, so the contract itself never signs. -/
def requireAuth (authorized : Addr → Bool) (w : World Addr) (addr : Addr) : Result Error Unit :=
  failIf (authorized addr = false ∨ addr = w.contract) (.trap .auth)

/-- The world after the contract sent `amount` of `asset` to `dst`. -/
def World.paid (w : World Addr) (asset dst : Addr) (amount : Int) : World Addr :=
  { w with
    held :=
      if dst = w.contract then w.held
      else Function.update w.held asset (w.held asset - amount)
    payments := w.payments ++ [⟨asset, dst, amount⟩] }

/-- `token::Client::new(asset).transfer(current_contract_address, dst, amount)`: the asset
    contract refuses an amount that the sender does not hold. -/
def World.pay (w : World Addr) (asset dst : Addr) (amount : Int) : Result Error (World Addr) := do
  failIf (w.held asset < amount) (.trap .token)
  pure (w.paid asset dst amount)

/-! ## Entry points -/

/-- `env.storage().instance().get(&DataKey::Admin).ok_or(Error::NotInitialized)?`, with all that
    is stored beside it. -/
def load (w : World Addr) : Result Error (Distributor Addr) :=
  okOr w.storage (.err .notInitialized)

def initializeContract (w : World Addr) (admin usdcToken : Addr) : Result Error (World Addr) := do
  failIf (w.storage.isSome = true) (.err .alreadyInitialized)
  pure { w with
    storage := some {
      admin, usdcToken
      holderBalances := .empty
      totalSupply := 0
      distributionCount := 0 } }

def registerHolder (authorized : Addr → Bool) (w : World Addr) (caller holder : Addr)
    (balance : Int) : Result Error (World Addr) := do
  requireAuth authorized w caller
  let s ← load w
  failIf (caller ≠ s.admin) (.err .unauthorized)
  failIf (balance ≤ 0) (.err .invalidAmount)
  let oldBalance := s.holderBalances.getD holder 0
  let totalSupply ← okOr (checkedSub s.totalSupply oldBalance) (.trap .overflow)
  let totalSupply ← okOr (checkedAdd totalSupply balance) (.trap .overflow)
  pure { w with
    storage := some { s with
      holderBalances := s.holderBalances.set holder balance
      totalSupply } }

/-- What the holder at place `i` of `count` gets: the rest if it is the last one. -/
def holderAmount (totalAmount totalSupply : Int) (count i : Nat) (balance distributed : Int) :
    Result Error Int :=
  if i = count - 1 then okOr (checkedSub totalAmount distributed) (.err .arithmeticOverflow)
  else do
    let numerator ← okOr (checkedMul balance totalAmount) (.err .arithmeticOverflow)
    okOr (checkedDiv numerator totalSupply) (.err .arithmeticOverflow)

/-- The loop of `distribute` from place `i` on, with what it has paid out so far. -/
def payHolders (totalAmount totalSupply : Int) (count : Nat) (asset : Addr) (i : Nat) :
    List (Addr × Int) → World Addr → HostMap Addr Int → Int →
      Result Error (World Addr × HostMap Addr Int)
  | [], w, payouts, _ => pure (w, payouts)
  | (holder, balance) :: rest, w, payouts, distributed => do
    let amount ← holderAmount totalAmount totalSupply count i balance distributed
    if amount > 0 then do
      let distributed ← okOr (checkedAdd distributed amount) (.err .arithmeticOverflow)
      let w ← w.pay asset holder amount
      payHolders totalAmount totalSupply count asset (i + 1) rest w (payouts.set holder amount)
        distributed
    else payHolders totalAmount totalSupply count asset (i + 1) rest w payouts distributed

def distribute (authorized : Addr → Bool) (w : World Addr) (caller asset : Addr)
    (totalAmount : Int) : Result Error (World Addr × HostMap Addr Int) := do
  requireAuth authorized w caller
  let s ← load w
  failIf (caller ≠ s.admin) (.err .unauthorized)
  failIf (totalAmount ≤ 0) (.err .invalidAmount)
  failIf (s.totalSupply ≤ 0) (.err .zeroSupply)
  let balances := s.holderBalances.entries
  failIf (balances = []) (.err .noHolders)
  let (w, payouts) ← payHolders totalAmount s.totalSupply balances.length asset 0 balances w
    .empty 0
  let count ← okOr (checkedAddU 32 s.distributionCount 1) (.trap .overflow)
  pure ({ w with storage := some { s with distributionCount := count } }, payouts)

/-! ## Calls and runs -/

inductive Call (Addr : Type) where
  | initializeContract (admin usdcToken : Addr)
  | registerHolder (caller holder : Addr) (balance : Int)
  | distribute (caller asset : Addr) (totalAmount : Int)
  /-- An account sends the contract `amount` of `asset`. -/
  | fund (asset : Addr) (amount : Nat)

/-- A call together with who signed it. -/
structure Invocation (Addr : Type) where
  authorized : Addr → Bool
  call : Call Addr

/-- The entry point a call names. -/
def dispatch (w : World Addr) (inv : Invocation Addr) : Result Error (World Addr) :=
  match inv.call with
  | .initializeContract admin usdcToken => initializeContract w admin usdcToken
  | .registerHolder caller holder balance => registerHolder inv.authorized w caller holder balance
  | .distribute caller asset totalAmount => do
    let (w, _) ← distribute inv.authorized w caller asset totalAmount
    pure w
  | .fund asset amount =>
    pure { w with held := Function.update w.held asset (w.held asset + amount) }

/-- A successful call. -/
def callStep (w : World Addr) (inv : Invocation Addr) : Option (World Addr) :=
  match dispatch { w with payments := [] } inv with
  | .ok w' => some w'
  | .error _ => none

/-- A contract just deployed. -/
def deployed (contract : Addr) : World Addr where
  contract
  storage := none
  held := fun _ => 0
  payments := []

end AgriFi.RevenueDistributor
