import AgriFi.Runs
import AgriFi.Soroban.Checked

/-
  The PriceFeed contract (`contracts/price-feed`): oracles on the allow-list of a feed submit
  prices, and a price is refused when it moves too far from the one stored before. Keys of the
  instance that may be absent are options; an absent flag reads as false.
-/

namespace AgriFi.PriceFeed

open AgriFi.Soroban AgriFi.Runs

def maxDeviationBps : Nat := 10000

inductive Error where
  | unauthorized
  | notInitialized
  | alreadyInitialized
  | paused
  | feedNotConfigured
  | oracleNotAllowed
  | invalidPrice
  | stalePrice
  | deviationTooHigh
  | roundNotIncreasing
  | invalidConfig
  | invalidFeedId
  | priceNotFound
  deriving DecidableEq, Repr

structure FeedConfig where
  feedId : String
  /-- Number of decimals the integer `value` is scaled by. -/
  decimals : Nat
  heartbeatSecs : Nat
  /-- Maximum allowed move between rounds, in basis points. -/
  maxDeviationBps : Nat
  deriving DecidableEq

structure PriceData (Addr : Type) where
  value : Int
  decimals : Nat
  roundId : Nat
  timestamp : Nat
  oracle : Addr
  deriving DecidableEq

/-- Instance storage. -/
structure Storage (Addr : Type) where
  admin : Option Addr
  isPaused : Bool
  feedConfig : String → Option FeedConfig
  priceData : String → Option (PriceData Addr)
  oracleAllowed : String → Addr → Bool

/-- `a.saturating_mul(b)` on `i128`. -/
def saturatingMul (a b : Int) : Int := max (-2 ^ 127) (min (2 ^ 127 - 1) (a * b))

variable {Addr : Type} [DecidableEq Addr]

/-! ## Checks -/

def requireAuth (authorized : Addr → Bool) (addr : Addr) : Result Error Unit :=
  failIf (authorized addr = false) (.trap .auth)

def requireInitialized (s : Storage Addr) : Result Error Unit :=
  failIf (s.admin = none) (.err .notInitialized)

def requireNotPaused (s : Storage Addr) : Result Error Unit :=
  failIf (s.isPaused = true) (.err .paused)

def requireAdmin (s : Storage Addr) (caller : Addr) : Result Error Unit := do
  let admin ← okOr s.admin (.err .notInitialized)
  failIf (caller ≠ admin) (.err .unauthorized)

/-! ## Entry points -/

def initializeContract (s : Storage Addr) (admin : Addr) : Result Error (Storage Addr) := do
  failIf (s.admin ≠ none) (.err .alreadyInitialized)
  pure { s with admin := some admin, isPaused := false }

def configureFeed (authorized : Addr → Bool) (s : Storage Addr) (caller : Addr) (feedId : String)
    (decimals heartbeatSecs deviationBps : Nat) : Result Error (Storage Addr) := do
  requireAuth authorized caller
  requireAdmin s caller
  failIf (feedId = "") (.err .invalidFeedId)
  failIf (decimals > 18 ∨ heartbeatSecs = 0 ∨ deviationBps > maxDeviationBps) (.err .invalidConfig)
  let config : FeedConfig := { feedId, decimals, heartbeatSecs, maxDeviationBps := deviationBps }
  pure { s with feedConfig := Function.update s.feedConfig feedId (some config) }

def setOracle (authorized : Addr → Bool) (s : Storage Addr) (caller : Addr) (feedId : String)
    (oracle : Addr) (allowed : Bool) : Result Error (Storage Addr) := do
  requireAuth authorized caller
  requireAdmin s caller
  failIf (s.feedConfig feedId = none) (.err .feedNotConfigured)
  pure { s with
    oracleAllowed := Function.update s.oracleAllowed feedId
      (Function.update (s.oracleAllowed feedId) oracle allowed) }

def setPaused (authorized : Addr → Bool) (s : Storage Addr) (caller : Addr) (paused : Bool) :
    Result Error (Storage Addr) := do
  requireAuth authorized caller
  requireAdmin s caller
  pure { s with isPaused := paused }

def pause (authorized : Addr → Bool) (s : Storage Addr) (caller : Addr) :
    Result Error (Storage Addr) := setPaused authorized s caller true

def unpause (authorized : Addr → Bool) (s : Storage Addr) (caller : Addr) :
    Result Error (Storage Addr) := setPaused authorized s caller false

/-- The move from `prev` to `value` as `submit_price` computes it, in basis points. -/
def deviationBps (value prev : Int) : Result Error Int := do
  let diff ← okOr (if value > prev then checkedSub value prev else checkedSub prev value)
    (.trap .overflow)
  okOr (checkedDiv (saturatingMul diff maxDeviationBps) prev) (.trap .overflow)

/-- The checks against the price stored before. -/
def checkMove (config : FeedConfig) (prev : PriceData Addr) (value : Int)
    (roundId timestamp : Nat) : Result Error Unit := do
  failIf (roundId ≤ prev.roundId) (.err .roundNotIncreasing)
  failIf (timestamp ≤ prev.timestamp) (.err .stalePrice)
  let deviation ← deviationBps value prev.value
  failIf (deviation > config.maxDeviationBps) (.err .deviationTooHigh)

def submitPrice (authorized : Addr → Bool) (s : Storage Addr) (oracle : Addr) (feedId : String)
    (value : Int) (roundId timestamp : Nat) : Result Error (Storage Addr × PriceData Addr) := do
  requireAuth authorized oracle
  requireInitialized s
  requireNotPaused s
  failIf (value ≤ 0) (.err .invalidPrice)
  let config ← okOr (s.feedConfig feedId) (.err .feedNotConfigured)
  failIf (s.oracleAllowed feedId oracle = false) (.err .oracleNotAllowed)
  match s.priceData feedId with
  | some prev => checkMove config prev value roundId timestamp
  | none => pure ()
  let data : PriceData Addr := { value, decimals := config.decimals, roundId, timestamp, oracle }
  pure ({ s with priceData := Function.update s.priceData feedId (some data) }, data)

/-! ## Calls and runs -/

inductive Call (Addr : Type) where
  | initializeContract (admin : Addr)
  | configureFeed (caller : Addr) (feedId : String) (decimals heartbeatSecs deviationBps : Nat)
  | setOracle (caller : Addr) (feedId : String) (oracle : Addr) (allowed : Bool)
  | pause (caller : Addr)
  | unpause (caller : Addr)
  | submitPrice (oracle : Addr) (feedId : String) (value : Int) (roundId timestamp : Nat)

/-- A call together with who signed it. -/
structure Invocation (Addr : Type) where
  authorized : Addr → Bool
  call : Call Addr

/-- The entry point a call names. -/
def dispatch (s : Storage Addr) (inv : Invocation Addr) : Result Error (Storage Addr) :=
  match inv.call with
  | .initializeContract admin => initializeContract s admin
  | .configureFeed caller feedId decimals heartbeatSecs deviationBps =>
    configureFeed inv.authorized s caller feedId decimals heartbeatSecs deviationBps
  | .setOracle caller feedId oracle allowed =>
    setOracle inv.authorized s caller feedId oracle allowed
  | .pause caller => pause inv.authorized s caller
  | .unpause caller => unpause inv.authorized s caller
  | .submitPrice oracle feedId value roundId timestamp => do
    let (s, _) ← submitPrice inv.authorized s oracle feedId value roundId timestamp
    pure s

/-- A successful call. -/
def callStep (s : Storage Addr) (inv : Invocation Addr) : Option (Storage Addr) :=
  match dispatch s inv with
  | .ok s' => some s'
  | .error _ => none

/-- The storage of a contract just deployed. -/
def deployed : Storage Addr where
  admin := none
  isPaused := false
  feedConfig := fun _ => none
  priceData := fun _ => none
  oracleAllowed := fun _ _ => false

abbrev CallStep (Addr : Type) := Step (Storage Addr) (Invocation Addr)

end AgriFi.PriceFeed
