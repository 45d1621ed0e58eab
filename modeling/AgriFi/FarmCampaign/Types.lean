import AgriFi.Soroban.Checked
import AgriFi.Soroban.HostMap

/-
  Data model of the FarmCampaign contract (`contracts/farm_campaign`). `Campaign` is the
  instance storage of an initialised contract, one field for each `DataKey`: `initialize`
  writes `Config`, `State` and the three maps together and nothing removes them, so those are
  plain fields, and the keys that may be absent are options or presence flags. `World` adds
  what the host keeps: the contract's address, the USDC it holds, the transfers of the current
  call and the last ledger time. Amounts (`i128`) are integers, `u32` and `u64` are naturals.
-/

namespace AgriFi.FarmCampaign

open AgriFi.Soroban

inductive Error where
  | notInitialized
  | alreadyInitialized
  | unauthorized
  | fundingClosed
  | targetExceeded
  | insufficientFunds
  | invalidAmount
  | paused
  | notFunded
  | milestoneNotFound
  | milestoneAlreadyDone
  | refundNotAllowed
  | deadlinePassed
  | alreadyDistributed
  | disputeActive
  | noDispute
  | invalidBps
  | releaseCapExceeded
  | votingWindowClosed
  | votingNotOver
  | alreadyVoted
  | notAnArbitrator
  | evidenceLimitReached
  | emptyArbitratorPool
  | disputeDecided
  | invalidEvidence
  deriving DecidableEq, Repr

def defaultVotingWindowSecs : Nat := 7 * 24 * 60 * 60

def maxDisputeEvidence : Nat := 32

structure Config (Addr : Type) where
  admin : Addr
  farmer : Addr
  arbitrator : Addr
  usdcToken : Addr
  fundingTarget : Int
  deadline : Nat
  platformFeeBps : Nat
  milestoneCount : Nat
  partialReleaseCapBps : Nat
  projectName : String
  commodity : String
  maxFunding : Int

structure CampaignTerms where
  platformFeeBps : Nat
  milestoneCount : Nat
  partialReleaseCapBps : Nat

structure CampaignMetadata where
  projectName : String
  commodity : String

inductive CampaignStatus where
  | «open»
  | funded
  | active
  | delivered
  | completed
  | failed
  | paused
  deriving DecidableEq, Repr

structure State where
  status : CampaignStatus
  totalRaised : Int
  milestonesReleased : Nat
  partialReleaseTotalBps : Nat
  raiseEnded : Bool
  totalReleased : Int

inductive DisputePhase where
  | «open»
  | arbitration
  | verdict
  | resolved
  deriving DecidableEq, Repr

inductive DisputeOutcome where
  | release
  | refund
  deriving DecidableEq, Repr

structure Evidence (Addr : Type) where
  submitter : Addr
  uri : String
  submittedAt : Nat

structure Dispute (Addr : Type) where
  milestoneIndex : Nat
  raisedBy : Addr
  openedAt : Nat
  votingDeadline : Nat
  phase : DisputePhase
  releaseVotes : Nat
  refundVotes : Nat
  voters : List Addr
  evidence : List (Evidence Addr)
  verdict : Option Bool

/-- Instance storage after `initialize`. -/
structure Campaign (Addr : Type) [LinearOrder Addr] where
  config : Config Addr
  state : State
  investments : HostMap Addr Int
  /-- `MilestoneReleased(i)` is present. -/
  milestoneReleased : Nat → Bool
  /-- `Distributed` is present. -/
  distributed : Bool
  arbitrator : Addr
  /-- `Dispute(i)`, the freeze flag, is present. -/
  disputeFlag : Nat → Bool
  refundableInvestments : HostMap Addr Int
  refunded : HostMap Addr Bool
  closeReason : Option String
  disputeRecord : Nat → Option (Dispute Addr)
  arbitratorPool : Option (List Addr)
  votingWindow : Option Nat

/-- One `usdc.transfer`. -/
structure Transfer (Addr : Type) where
  src : Addr
  dst : Addr
  amount : Int
  deriving DecidableEq, Repr

/-- What a call reads of the ledger: its time, who signed, and the USDC the other accounts hold. -/
structure Env (Addr : Type) where
  timestamp : Nat
  authorized : Addr → Bool
  balance : Addr → Int

structure World (Addr : Type) [LinearOrder Addr] where
  /-- `env.current_contract_address()`. -/
  contract : Addr
  campaign : Campaign Addr
  /-- USDC held by the contract. -/
  usdc : Int
  /-- Transfers of the latest call, in order. -/
  transfers : List (Transfer Addr)
  now : Nat

variable {Addr : Type} [LinearOrder Addr]

/-- `addr.require_auth()`. The host refuses re-entry, so the contract itself never signs. -/
def requireAuth (env : Env Addr) (w : World Addr) (addr : Addr) : Result Error Unit :=
  failIf (env.authorized addr = false ∨ addr = w.contract) (.trap .auth)

/-- The world after the contract sent `amount` to `dst`. -/
def World.paid (w : World Addr) (dst : Addr) (amount : Int) : World Addr :=
  { w with
    usdc := if dst = w.contract then w.usdc else w.usdc - amount
    transfers := w.transfers ++ [⟨w.contract, dst, amount⟩] }

/-- The world after `src` sent `amount` to the contract. -/
def World.collected (w : World Addr) (src : Addr) (amount : Int) : World Addr :=
  { w with
    usdc := if src = w.contract then w.usdc else w.usdc + amount
    transfers := w.transfers ++ [⟨src, w.contract, amount⟩] }

/-- `usdc.transfer(current_contract_address, dst, amount)`: it succeeds when the balance covers
    the amount. -/
def World.pay (w : World Addr) (dst : Addr) (amount : Int) : Result Error (World Addr) := do
  failIf (w.usdc < amount) (.trap .token)
  pure (w.paid dst amount)

/-- `usdc.transfer(src, current_contract_address, amount)`. -/
def World.collect (w : World Addr) (env : Env Addr) (src : Addr) (amount : Int) :
    Result Error (World Addr) := do
  failIf ((if src = w.contract then w.usdc else env.balance src) < amount) (.trap .token)
  pure (w.collected src amount)

/-- What `transfers` sent to `dst`. -/
def sentTo (dst : Addr) (transfers : List (Transfer Addr)) : Int :=
  ((transfers.filter fun t => t.dst = dst).map Transfer.amount).sum

/-- The world a call starts from: no transfer made yet, at the ledger's time. -/
def World.enter (w : World Addr) (env : Env Addr) : World Addr :=
  { w with transfers := [], now := env.timestamp }

@[simp] theorem paid_campaign (w : World Addr) (dst : Addr) (amount : Int) :
    (w.paid dst amount).campaign = w.campaign := rfl

@[simp] theorem paid_transfers (w : World Addr) (dst : Addr) (amount : Int) :
    (w.paid dst amount).transfers = w.transfers ++ [⟨w.contract, dst, amount⟩] := rfl

/-- A transfer out costs at most its amount. -/
theorem le_paid_usdc (w : World Addr) (dst : Addr) {amount : Int} (h : 0 ≤ amount) :
    w.usdc - amount ≤ (w.paid dst amount).usdc := by
  unfold World.paid
  dsimp only
  split <;> omega

@[simp] theorem sentTo_nil (dst : Addr) : sentTo dst [] = 0 := rfl

theorem sentTo_paid {w : World Addr} (ht : w.transfers = []) (dst : Addr) (amount : Int)
    (c : Campaign Addr) :
    sentTo dst (World.paid { w with campaign := c } dst amount).transfers = amount := by
  simp [ht, sentTo]

@[simp] theorem collected_campaign (w : World Addr) (src : Addr) (amount : Int) :
    (w.collected src amount).campaign = w.campaign := rfl

theorem collected_usdc_of_ne {w : World Addr} {src : Addr} (h : src ≠ w.contract) (amount : Int) :
    (w.collected src amount).usdc = w.usdc + amount := if_neg h

@[simp] theorem enter_campaign (w : World Addr) (env : Env Addr) :
    (w.enter env).campaign = w.campaign := rfl

@[simp] theorem enter_contract (w : World Addr) (env : Env Addr) :
    (w.enter env).contract = w.contract := rfl

@[simp] theorem enter_transfers (w : World Addr) (env : Env Addr) :
    (w.enter env).transfers = [] := rfl

theorem pay_eq_ok {w w' : World Addr} {dst : Addr} {amount : Int} :
    w.pay dst amount = .ok w' ↔ amount ≤ w.usdc ∧ w' = w.paid dst amount := by
  unfold World.pay
  simp only [failIf_bind_eq_ok, pure_eq_ok, Except.ok.injEq, not_lt]
  exact and_congr_right fun _ => eq_comm

theorem collect_eq_ok {w w' : World Addr} {env : Env Addr} {src : Addr} {amount : Int}
    (h : w.collect env src amount = .ok w') : w' = w.collected src amount := by
  unfold World.collect at h
  simp only [failIf_bind_eq_ok, pure_eq_ok, Except.ok.injEq] at h
  exact h.2.symm

theorem requireAuth_eq_ok {env : Env Addr} {w : World Addr} {addr : Addr} :
    requireAuth env w addr = .ok () ↔ env.authorized addr = true ∧ addr ≠ w.contract := by
  unfold requireAuth
  rw [failIf_eq_ok, not_or, Bool.not_eq_false]

end AgriFi.FarmCampaign
