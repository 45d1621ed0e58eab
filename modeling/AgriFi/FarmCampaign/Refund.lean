import AgriFi.FarmCampaign.Types

/-
  The refund arithmetic of the contract: `refundable_total`, `refundable_amount`,
  `apply_proportional_refund` with its two loops over the investment map, and `claim_refund`.
-/

namespace AgriFi.FarmCampaign

open AgriFi.Soroban

variable {Addr : Type} [LinearOrder Addr]

def refundableTotal (totalRaised fundingTarget : Int) : Result Error Int :=
  if totalRaised ≤ 0 then pure 0
  else if totalRaised < fundingTarget then pure totalRaised
  else okOr (checkedSub totalRaised fundingTarget) (.err .invalidAmount)

def refundableAmount (totalRaised fundingTarget invested : Int) : Result Error Int :=
  if totalRaised ≤ 0 ∨ invested ≤ 0 then pure 0
  else if totalRaised < fundingTarget then pure invested
  else do
    let refundable ← okOr (checkedSub totalRaised fundingTarget) (.err .invalidAmount)
    let product ← okOr (checkedMul invested refundable) (.err .invalidAmount)
    okOr (checkedDiv product totalRaised) (.err .invalidAmount)

/-- The two maps `apply_proportional_refund` builds. -/
structure Split (Addr : Type) [LinearOrder Addr] where
  refundable : HostMap Addr Int
  retained : HostMap Addr Int

/-- The first loop: every positive investment is split by `refundable_amount`. -/
def allocate (totalRaised retainedTarget : Int) :
    List (Addr × Int) → Split Addr → Int → Result Error (Split Addr × Int)
  | [], maps, allocated => pure (maps, allocated)
  | (investor, invested) :: rest, maps, allocated =>
    if invested ≤ 0 then allocate totalRaised retainedTarget rest maps allocated
    else do
      let amount ← refundableAmount totalRaised retainedTarget invested
      let (refundable, allocated) ←
        if amount > 0 then do
          let allocated ← okOr (checkedAdd allocated amount) (.err .invalidAmount)
          pure (maps.refundable.set investor amount, allocated)
        else pure (maps.refundable, allocated)
      let retainedAmount ← okOr (checkedSub invested amount) (.err .invalidAmount)
      let retained :=
        if retainedAmount > 0 then maps.retained.set investor retainedAmount else maps.retained
      allocate totalRaised retainedTarget rest ⟨refundable, retained⟩ allocated

/-- The second loop: what rounding left over goes out one unit at a time. -/
def spreadResidual :
    List (Addr × Int) → Split Addr → Int → Result Error (Split Addr × Int)
  | [], maps, residual => pure (maps, residual)
  | (investor, invested) :: rest, maps, residual =>
    if residual = 0 then pure (maps, residual)
    else if invested ≤ 0 then spreadResidual rest maps residual
    else do
      let current := maps.refundable.getD investor 0
      if current < invested then do
        let next ← okOr (checkedAdd current 1) (.err .invalidAmount)
        let retainedAmount ← okOr (checkedSub invested next) (.err .invalidAmount)
        let retained :=
          if retainedAmount > 0 then maps.retained.set investor retainedAmount
          else maps.retained.remove investor
        let residual ← okOr (checkedSub residual 1) (.trap .overflow)
        spreadResidual rest ⟨maps.refundable.set investor next, retained⟩ residual
      else spreadResidual rest maps residual

/-- The second loop runs only when something is left. -/
def spreadLeftover (l : List (Addr × Int)) (maps : Split Addr) (residual : Int) :
    Result Error (Split Addr × Int) :=
  if residual > 0 then spreadResidual l maps residual else pure (maps, residual)

/-- Splits `total_raised` into what is kept (up to `retainedTarget`) and what becomes
    refundable. Returns the storage after the writes and the refundable total. -/
def applyProportionalRefund (c : Campaign Addr) (retainedTarget : Int) :
    Result Error (Campaign Addr × Int) := do
  let totalRefundable ← refundableTotal c.state.totalRaised retainedTarget
  let (maps, allocated) ←
    allocate c.state.totalRaised retainedTarget c.investments.entries ⟨.empty, .empty⟩ 0
  let residual ← okOr (checkedSub totalRefundable allocated) (.err .invalidAmount)
  let (maps, residual) ← spreadLeftover c.investments.entries maps residual
  failIf (residual ≠ 0) (.err .invalidAmount)
  let totalRaised ← okOr (checkedSub c.state.totalRaised totalRefundable) (.err .invalidAmount)
  pure ({ c with
    state.totalRaised := totalRaised
    state.raiseEnded := true
    investments := maps.retained
    refundableInvestments := maps.refundable }, totalRefundable)

/-- `None` when the investor is already marked refunded; otherwise the amount to pay. -/
def claimRefund (c : Campaign Addr) (investor : Addr) :
    Result Error (Campaign Addr × Option Int) := do
  if c.refunded.getD investor false = true then
    pure (c, none)
  else do
    let amount :=
      if c.state.raiseEnded = true then c.refundableInvestments.getD investor 0
      else c.investments.getD investor 0
    failIf (amount ≤ 0) (.err .insufficientFunds)
    let c ←
      if c.state.raiseEnded = true then
        pure { c with refundableInvestments := c.refundableInvestments.set investor 0 }
      else do
        let totalRaised ← okOr (checkedSub c.state.totalRaised amount) (.err .invalidAmount)
        pure { c with
          state.totalRaised := totalRaised
          investments := c.investments.set investor 0 }
    pure ({ c with refunded := c.refunded.set investor true }, some amount)

end AgriFi.FarmCampaign
