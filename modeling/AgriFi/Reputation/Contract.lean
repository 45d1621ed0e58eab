import AgriFi.Soroban.Vault
import AgriFi.Soroban.HostMap

/-
  The reputation contract (`contracts/reputation`): users stake tokens to take part, the admin
  rewards and slashes them, and a user who leaves gets back what is left of the stake.
-/

namespace AgriFi.Reputation

open AgriFi.Soroban AgriFi.Runs
open AgriFi.Soroban.Vault (requireAuth)

inductive Error where
  | unauthorized
  | notInitialized
  | alreadyInitialized
  | insufficientStake
  | nothingStaked
  | slashExceedsStake
  | invalidScore
  | userNotFound
  deriving DecidableEq, Repr

/-- 1 000 tokens with 7 decimals. -/
def minStake : Int := 10000000000
def rewardScoreDelta : Int := 10
def slashScoreDelta : Int := 30
def maxScore : Int := 1000
def firstScore : Int := 500

/-- Instance and persistent storage after `initialize`. -/
structure Registry (Addr : Type) [LinearOrder Addr] where
  admin : Addr
  stakeToken : Addr
  stake : HostMap Addr Int
  score : HostMap Addr Int
  rewards : HostMap Addr Int

abbrev World (Addr : Type) [LinearOrder Addr] := Vault Addr (Registry Addr)

variable {Addr : Type} [LinearOrder Addr]

/-! ## Entry points -/

/-- `initialize` of the contract deployed at `contract`; `storage` is what it holds before. -/
def initializeContract (led : Ledger Addr) (contract : Addr) (storage : Option (Registry Addr))
    (admin stakeToken : Addr) : Result Error (Registry Addr) := do
  failIf (storage.isSome = true) (.err .alreadyInitialized)
  failIf (led.authorized admin = false ∨ admin = contract) (.trap .auth)
  pure { admin, stakeToken, stake := .empty, score := .empty, rewards := .empty }

def requireAdmin (led : Ledger Addr) (w : World Addr) (caller : Addr) : Result Error Unit := do
  requireAuth led w caller
  failIf (caller ≠ w.storage.admin) (.err .unauthorized)

def getScoreInternal (w : World Addr) (user : Addr) : Result Error Int :=
  okOr (w.storage.score.get? user) (.err .userNotFound)

def stake (led : Ledger Addr) (w : World Addr) (user : Addr) (amount : Int) :
    Result Error (World Addr) := do
  requireAuth led w user
  failIf (amount < minStake) (.err .insufficientStake)
  let w ← w.receive led user amount
  let staked ← okOr (checkedAdd (w.storage.stake.getD user 0) amount) (.trap .overflow)
  let w : World Addr := { w with storage.stake := w.storage.stake.set user staked }
  if (w.storage.score.get? user).isNone = true then
    pure { w with storage.score := w.storage.score.set user firstScore }
  else pure w

/-- The second component is the amount handed back. -/
def unstake (led : Ledger Addr) (w : World Addr) (user : Addr) :
    Result Error (World Addr × Int) := do
  requireAuth led w user
  let staked ← okOr (w.storage.stake.get? user) (.err .nothingStaked)
  failIf (staked = 0) (.err .nothingStaked)
  let w : World Addr := { w with
    storage.stake := w.storage.stake.remove user
    storage.score := w.storage.score.remove user }
  let w ← w.send user staked
  pure (w, staked)

def reward (led : Ledger Addr) (w : World Addr) (caller user : Addr) (tokenAmount : Int) :
    Result Error (World Addr) := do
  requireAdmin led w caller
  let score ← getScoreInternal w user
  let newScore ← okOr (narrow64 (score + rewardScoreDelta)) (.trap .overflow)
  let earned ← okOr (checkedAdd (w.storage.rewards.getD user 0) tokenAmount) (.trap .overflow)
  pure { w with
    storage.score := w.storage.score.set user (min newScore maxScore)
    storage.rewards := w.storage.rewards.set user earned }

def slash (led : Ledger Addr) (w : World Addr) (caller user : Addr) (slashAmount : Int) :
    Result Error (World Addr) := do
  requireAdmin led w caller
  let staked ← okOr (w.storage.stake.get? user) (.err .nothingStaked)
  failIf (slashAmount > staked) (.err .slashExceedsStake)
  let left ← okOr (checkedSub staked slashAmount) (.trap .overflow)
  let w : World Addr := { w with storage.stake := w.storage.stake.set user left }
  let score ← getScoreInternal w user
  let newScore ← okOr (narrow64 (score - slashScoreDelta)) (.trap .overflow)
  pure { w with storage.score := w.storage.score.set user (max newScore 0) }

/-! ## Calls and runs -/

inductive Call (Addr : Type) where
  | initializeContract (admin stakeToken : Addr)
  | stake (user : Addr) (amount : Int)
  | unstake (user : Addr)
  | reward (caller user : Addr) (tokenAmount : Int)
  | slash (caller user : Addr) (slashAmount : Int)
  /-- Any of the read-only entry points; none of them writes. -/
  | view

def dispatch (led : Ledger Addr) (w : World Addr) : Call Addr → Result Error (World Addr)
  | .initializeContract admin stakeToken => do
    let r ← initializeContract led w.contract (some w.storage) admin stakeToken
    pure { w with storage := r }
  | .stake user amount => stake led w user amount
  | .unstake user => do
    let (w, _) ← unstake led w user
    pure w
  | .reward caller user tokenAmount => reward led w caller user tokenAmount
  | .slash caller user slashAmount => slash led w caller user slashAmount
  | .view => pure w

abbrev Invocation (Addr : Type) := Vault.Invocation Addr (Call Addr)

/-- A successful call. -/
def callStep (w : World Addr) (inv : Invocation Addr) : Option (World Addr) :=
  Vault.step dispatch w inv

/-- A contract just initialised, holding none of the stake token. -/
def Initialized (w : World Addr) : Prop :=
  ∃ led admin stakeToken r now,
    initializeContract led w.contract none admin stakeToken = .ok r ∧ w = .fresh w.contract r now

abbrev CallStep (Addr : Type) [LinearOrder Addr] := Step (World Addr) (Invocation Addr)

abbrev CallRun (w₀ : World Addr) (xs : List (CallStep Addr)) (w : World Addr) : Prop :=
  Run callStep w₀ xs w

/-! ## A sample registry -/

/-- A ledger on which everybody signed and holds the stake token. -/
def sampleLedger (timestamp : Nat) : Ledger Nat := ⟨timestamp, fun _ => true, fun _ => 10 ^ 12⟩

/-- Admin 0, deployed at address 99. -/
def sampleWorld : World Nat := .fresh 99 ⟨0, 3, .empty, .empty, .empty⟩ 0

theorem sampleWorld_initialized : Initialized sampleWorld :=
  ⟨sampleLedger 0, 0, 3, _, 0, rfl, rfl⟩

def sampleRun (calls : List (Nat × Call Nat)) : List (CallStep Nat) × World Nat :=
  replay callStep sampleWorld (calls.map fun c => ⟨sampleLedger c.1, c.2⟩)

theorem sampleRun_run (calls : List (Nat × Call Nat)) :
    CallRun sampleWorld (sampleRun calls).1 (sampleRun calls).2 :=
  run_replay _ _ _

end AgriFi.Reputation
