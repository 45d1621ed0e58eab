import AgriFi.Runs
import AgriFi.Soroban.Checked
import AgriFi.Soroban.HostMap
import Mathlib.Data.List.Lex
import Mathlib.Order.Fin.Basic

/-
  The alert registry contract (`contracts/alert-registry`): watchers store alert rules under ids
  of their choice. The rules come with three indexes the contract keeps by hand: the ids of each
  watcher, the number of rules, and the number of rules of each asset.
-/

namespace AgriFi.AlertRegistry

open AgriFi.Soroban AgriFi.Runs

def maxAlertsPerWatcher : Nat := 50
def globalAlertLimit : Nat := 10000
def maxAlertsPerAsset : Nat := 500

inductive Error where
  | unauthorized
  | notInitialized
  | alreadyInitialized
  | watcherNotFound
  | alertNotFound
  | invalidThreshold
  | invalidCooldown
  | tooManyAlerts
  | alertAlreadyExists
  | invalidAlertId
  | registryCallFailed
  | invalidAsset
  | globalAlertLimitExceeded
  | duplicateRule
  | ruleLimitPerAsset
  | invalidWatcherRegistry
  | paused
  deriving DecidableEq, Repr

/-- A host `String`: bytes. -/
abbrev Text := List (Fin 256)

inductive AlertCondition where
  | priceAbove
  | priceBelow
  | volatilitySpike
  deriving DecidableEq, Repr

structure AlertRule (Addr : Type) where
  alertId : Text
  watcher : Addr
  asset : Text
  threshold : Int
  cooldownSecs : Nat
  condition : AlertCondition
  createdAt : Nat
  deriving DecidableEq, Repr

/-- Instance storage after `initialize`. -/
structure Registry (Addr : Type) [LinearOrder Addr] where
  admin : Addr
  watcherRegistry : Addr
  isPaused : Bool
  globalAlertCount : Option Nat
  watcherAlerts : HostMap Addr (List Text)
  alertRule : HostMap Text (AlertRule Addr)
  assetAlertCount : HostMap Text Nat

/-- What a call reads of the ledger. -/
structure Env (Addr : Type) where
  timestamp : Nat
  authorized : Addr → Bool

variable {Addr : Type} [LinearOrder Addr]

/-! ## Entry points -/

/-- `initialize`; `storage` is what the instance holds before the call. -/
def initializeContract (storage : Option (Registry Addr)) (admin watcherRegistry : Addr) :
    Result Error (Registry Addr) := do
  failIf (storage.isSome = true) (.err .alreadyInitialized)
  pure {
    admin, watcherRegistry
    isPaused := false
    globalAlertCount := some 0
    watcherAlerts := .empty
    alertRule := .empty
    assetAlertCount := .empty }

def requireAuth (env : Env Addr) (addr : Addr) : Result Error Unit :=
  failIf (env.authorized addr = false) (.trap .auth)

def requireAdmin (r : Registry Addr) (caller : Addr) : Result Error Unit :=
  failIf (caller ≠ r.admin) (.err .unauthorized)

def requireNotPaused (r : Registry Addr) : Result Error Unit :=
  failIf (r.isPaused = true) (.err .paused)

def getWatcherAlertIds (r : Registry Addr) (watcher : Addr) : List Text :=
  r.watcherAlerts.getD watcher []

def pause (env : Env Addr) (r : Registry Addr) (caller : Addr) : Result Error (Registry Addr) := do
  requireAuth env caller
  requireAdmin r caller
  pure { r with isPaused := true }

def unpause (env : Env Addr) (r : Registry Addr) (caller : Addr) :
    Result Error (Registry Addr) := do
  requireAuth env caller
  requireAdmin r caller
  pure { r with isPaused := false }

def addAlert (env : Env Addr) (r : Registry Addr) (watcher : Addr) (alertId asset : Text)
    (threshold : Int) (cooldownSecs : Nat) (condition : AlertCondition) :
    Result Error (Registry Addr) := do
  requireAuth env watcher
  requireNotPaused r
  failIf (alertId.isEmpty = true) (.err .invalidAlertId)
  failIf (asset.isEmpty = true) (.err .invalidAsset)
  failIf (threshold ≤ 0) (.err .invalidThreshold)
  failIf (cooldownSecs = 0) (.err .invalidCooldown)
  failIf ((r.alertRule.get? alertId).isSome = true) (.err .alertAlreadyExists)
  let watcherAlerts := getWatcherAlertIds r watcher
  failIf (watcherAlerts.length ≥ maxAlertsPerWatcher) (.err .tooManyAlerts)
  let globalCount := r.globalAlertCount.getD 0
  failIf (globalCount ≥ globalAlertLimit) (.err .globalAlertLimitExceeded)
  let assetCount := r.assetAlertCount.getD asset 0
  failIf (assetCount ≥ maxAlertsPerAsset) (.err .ruleLimitPerAsset)
  let rule : AlertRule Addr :=
    { alertId, watcher, asset, threshold, cooldownSecs, condition, createdAt := env.timestamp }
  let globalCount ← okOr (checkedAddU 32 globalCount 1) (.trap .overflow)
  let assetCount ← okOr (checkedAddU 32 assetCount 1) (.trap .overflow)
  pure { r with
    alertRule := r.alertRule.set alertId rule
    watcherAlerts := r.watcherAlerts.set watcher (watcherAlerts ++ [alertId])
    globalAlertCount := some globalCount
    assetAlertCount := r.assetAlertCount.set asset assetCount }

def removeAlert (env : Env Addr) (r : Registry Addr) (caller : Addr) (alertId : Text) :
    Result Error (Registry Addr) := do
  requireAuth env caller
  requireNotPaused r
  let rule ← okOr (r.alertRule.get? alertId) (.err .alertNotFound)
  failIf (caller ≠ rule.watcher ∧ caller ≠ r.admin) (.err .unauthorized)
  let newIds := (getWatcherAlertIds r rule.watcher).filter fun id => id ≠ alertId
  -- `saturating_sub` on `u32` is subtraction on `Nat`
  let globalCount := r.globalAlertCount.getD 1 - 1
  let assetCount := r.assetAlertCount.getD rule.asset 1 - 1
  pure { r with
    watcherAlerts := r.watcherAlerts.set rule.watcher newIds
    globalAlertCount := some globalCount
    assetAlertCount := r.assetAlertCount.set rule.asset assetCount
    alertRule := r.alertRule.remove alertId }

/-! ## Calls and runs -/

inductive Call (Addr : Type) where
  | initializeContract (admin watcherRegistry : Addr)
  | pause (caller : Addr)
  | unpause (caller : Addr)
  | addAlert (watcher : Addr) (alertId asset : Text) (threshold : Int) (cooldownSecs : Nat)
      (condition : AlertCondition)
  | removeAlert (caller : Addr) (alertId : Text)
  /-- Any of the read-only entry points; none of them writes. -/
  | view

def dispatch (env : Env Addr) (r : Registry Addr) : Call Addr → Result Error (Registry Addr)
  | .initializeContract admin watcherRegistry => initializeContract (some r) admin watcherRegistry
  | .pause caller => pause env r caller
  | .unpause caller => unpause env r caller
  | .addAlert watcher alertId asset threshold cooldownSecs condition =>
    addAlert env r watcher alertId asset threshold cooldownSecs condition
  | .removeAlert caller alertId => removeAlert env r caller alertId
  | .view => pure r

/-- A call together with the ledger it runs on. -/
structure Invocation (Addr : Type) where
  env : Env Addr
  call : Call Addr

/-- A successful call. -/
def callStep (r : Registry Addr) (inv : Invocation Addr) : Option (Registry Addr) :=
  match dispatch inv.env r inv.call with
  | .ok r' => some r'
  | .error _ => none

def Initialized (r : Registry Addr) : Prop :=
  ∃ admin watcherRegistry, initializeContract none admin watcherRegistry = .ok r

abbrev CallStep (Addr : Type) [LinearOrder Addr] := Step (Registry Addr) (Invocation Addr)

abbrev CallRun (r₀ : Registry Addr) (xs : List (CallStep Addr)) (r : Registry Addr) : Prop :=
  Run callStep r₀ xs r

/-! ## A sample registry -/

/-- A ledger on which everybody signed. -/
def sampleEnv (timestamp : Nat) : Env Nat := ⟨timestamp, fun _ => true⟩

/-- Admin 0. -/
def sampleRegistry : Registry Nat := ⟨0, 1, false, some 0, .empty, .empty, .empty⟩

theorem sampleRegistry_initialized : Initialized sampleRegistry := ⟨0, 1, rfl⟩

def sampleRun (calls : List (Nat × Call Nat)) : List (CallStep Nat) × Registry Nat :=
  replay callStep sampleRegistry (calls.map fun c => ⟨sampleEnv c.1, c.2⟩)

theorem sampleRun_run (calls : List (Nat × Call Nat)) :
    CallRun sampleRegistry (sampleRun calls).1 (sampleRun calls).2 :=
  run_replay _ _ _

end AgriFi.AlertRegistry
