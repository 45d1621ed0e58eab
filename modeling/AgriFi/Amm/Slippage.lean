import AgriFi.Amm.Moves

/-
  What a caller's limits are worth in a swap (`src/amm/services/amm-swap.service.ts`). A minimum
  is enforced only if no slippage is given with it: with one, a swap below the minimum is recorded
  as such and goes through. A slippage without a minimum is measured against the quote of the swap
  itself, which it never falls short of, and not against the one the caller has seen. A refusal
  leaves the pool alone unless it comes from the row of the swap, which is saved after the pool.
  `protects_iff` puts this together.
-/

namespace AgriFi.Amm

open AgriFi.Decimal AgriFi.Soroban

/-! ## The whole call -/

inductive SwapStatus where
  | pending
  | completed
  | failed
  | cancelled
  deriving DecidableEq, Repr

structure AMMSwap (User : Type) where
  userId : User
  direction : SwapDirection
  amountIn : BigNumber
  amountOut : BigNumber
  executionPrice : BigNumber
  priceImpact : BigNumber
  feePaid : BigNumber
  minimumAmountOut : Option BigNumber
  slippageExceeded : Bool
  status : SwapStatus
  deriving DecidableEq, Repr

variable {User : Type}

/-- `getSwapQuote`, for the amount and the direction of a swap. -/
def getSwapQuote (s : State User) (dto : SwapDto) : PricingResult :=
  quote s.pool dto.direction dto.amountIn

/-- `executeSwap` with the row of the swap; `swapSaved` says whether its save goes through. -/
def executeSwapRecorded (s : State User) (userId : User) (dto : SwapDto) (swapSaved : Bool) :
    State User × Except AmmError (AMMSwap User) :=
  match executeSwap s dto with
  | .error e => (s, .error e)
  | .ok (s', amountOut) =>
    let quote := quote s.pool dto.direction dto.amountIn
    let minimum := minAmountOut dto quote.amountOut
    if swapSaved then
      (s', .ok
        { userId
          direction := dto.direction
          amountIn := dto.amountIn.toFixed 8
          amountOut := amountOut.toFixed 8
          executionPrice := quote.executionPrice
          priceImpact := quote.priceImpact
          feePaid := quote.feePaid
          minimumAmountOut := minimum
          slippageExceeded := belowMinimum quote.amountOut minimum
          status := .completed })
    else (s', .error .saveFailed)

/-! ## What the caller is promised -/

/-- The amount meets the caller's minimum, or if he gave none, his part of the amount quoted. -/
def Meets (quoted : BigNumber) (dto : SwapDto) (amountOut : BigNumber) : Prop :=
  match dto.minimumAmountOut, dto.slippagePercentage with
  | some minimum, _ => minimum.isLessThanOrEqualTo amountOut = true
  | none, some slippage =>
    (quoted.multipliedBy (.finite (100 - slippage))).isLessThanOrEqualTo
      (amountOut.multipliedBy (.finite 100)) = true
  | none, none => True

instance (quoted : BigNumber) (dto : SwapDto) (amountOut : BigNumber) :
    Decidable (Meets quoted dto amountOut) :=
  match dto with
  | ⟨_, _, some _, _⟩ => inferInstanceAs (Decidable (_ = true))
  | ⟨_, _, none, some _⟩ => inferInstanceAs (Decidable (_ = true))
  | ⟨_, _, none, none⟩ => isTrue trivial

/-- The limits hold in a completed swap, and a call that throws leaves the pool as it is; the
    caller had his quote from `s₀` and the call meets `s`. -/
structure Protects (s₀ s : State User) (userId : User) (dto : SwapDto) (swapSaved : Bool) :
    Prop where
  completed : ∀ s' swap, executeSwapRecorded s userId dto swapSaved = (s', .ok swap) →
    swap.status = .completed → Meets (getSwapQuote s₀ dto).amountOut dto swap.amountOut
  rejected : ∀ s' e, executeSwapRecorded s userId dto swapSaved = (s', .error e) → s'.pool = s.pool

/-! ## The pool after a swap -/

/-- The row of the pool that a swap saves, if its columns hold it. -/
def AMMPool.swapped (pool : AMMPool) (dto : SwapDto) : Option AMMPool :=
  let quote := quote pool dto.direction dto.amountIn
  (Numeric.store (pool.totalVolume24h.read.plus dto.amountIn)).bind fun totalVolume24h =>
    match dto.direction with
    | .token0ToToken1 =>
      (Numeric.store (pool.reserveToken0.read.plus dto.amountIn)).bind fun reserveToken0 =>
      (Numeric.store (pool.reserveToken1.read.minus quote.amountOut)).bind fun reserveToken1 =>
      (Numeric.store (pool.accumulatedFees0.read.plus quote.feePaid)).map fun accumulatedFees0 =>
        { pool with reserveToken0, reserveToken1, accumulatedFees0, totalVolume24h }
    | .token1ToToken0 =>
      (Numeric.store (pool.reserveToken0.read.minus quote.amountOut)).bind fun reserveToken0 =>
      (Numeric.store (pool.reserveToken1.read.plus dto.amountIn)).bind fun reserveToken1 =>
      (Numeric.store (pool.accumulatedFees1.read.plus quote.feePaid)).map fun accumulatedFees1 =>
        { pool with reserveToken0, reserveToken1, accumulatedFees1, totalVolume24h }

/-- The guard: a minimum without a slippage that the pool's price does not reach. -/
def Guarded (s : State User) (dto : SwapDto) : Prop :=
  belowMinimum (getSwapQuote s dto).amountOut dto.minimumAmountOut = true ∧
    dto.slippagePercentage.getD 0 = 0

theorem save_bind_eq {precision scale : Nat} {β : Type} (a : BigNumber)
    (f : Numeric precision scale → Except AmmError β) :
    (save a >>= f) = match Numeric.store a with
      | some c => f c
      | none => .error .saveFailed := by
  unfold save
  cases Numeric.store a <;> rfl

/-- Three columns saved one after the other, and what is made of them. -/
theorem saves_eq {β : Type} (a b c : BigNumber) (f : Amount → Amount → Amount → AMMPool)
    (g : AMMPool → β) :
    (do
      let x ← save (a.toFixed 8)
      let y ← save (b.toFixed 8)
      let z ← save (c.toFixed 8)
      pure (g (f x y z)) : Except AmmError β) =
      match (Numeric.store a).bind fun x => (Numeric.store b).bind fun y =>
          (Numeric.store c).map (f x y) with
      | none => .error .saveFailed
      | some pool => .ok (g pool) := by
  simp only [save_bind_eq, Numeric.store_toFixed]
  cases (Numeric.store a : Option Amount) with
  | none => rfl
  | some x =>
    cases (Numeric.store b : Option Amount) with
    | none => rfl
    | some y => cases (Numeric.store c : Option Amount) <;> rfl

theorem toFixed_toFixed {places : Nat} (a : BigNumber) :
    (a.toFixed places).toFixed places = a.toFixed places := by
  cases a with
  | nan => rfl
  | infinity negative => rfl
  | finite x =>
    rw [BigNumber.toFixed_finite, BigNumber.toFixed_finite]
    refine congrArg _ (roundTo_of_int (n := halfUp (x * 10 ^ places)) places ?_)
    unfold roundTo
    exact div_mul_cancel₀ _ (by positivity)

theorem multipliedBy_one (a : BigNumber) : a.multipliedBy (.finite 1) = a := by
  cases a with
  | nan => rfl
  | infinity negative => cases negative <;> rfl
  | finite x => exact congrArg BigNumber.finite (mul_one x)

theorem isLessThan_self (a : BigNumber) : a.isLessThan a = false := by
  cases a with
  | nan => rfl
  | infinity negative => cases negative <;> rfl
  | finite x => exact decide_eq_false (lt_irrefl x)

/-- The price is written with eight places. -/
theorem toFixed_amountOut (params : PricingParams) :
    (calculatePrice params).amountOut.toFixed 8 = (calculatePrice params).amountOut := by
  unfold calculatePrice
  cases params.pricingModel <;> exact toFixed_toFixed _

theorem guard_iff (s : State User) (dto : SwapDto) :
    (belowMinimum (getSwapQuote s dto).amountOut
        (minAmountOut dto (getSwapQuote s dto).amountOut) = true ∧
      dto.slippagePercentage.getD 0 = 0) ↔ Guarded s dto := by
  unfold Guarded
  refine and_congr_left fun hzero => ?_
  unfold minAmountOut
  cases dto.minimumAmountOut with
  | some minimum => exact Iff.rfl
  | none =>
    cases hslippage : dto.slippagePercentage with
    | none => exact Iff.rfl
    | some slippage =>
      rw [hslippage, Option.getD_some] at hzero
      subst hzero
      -- the whole of the amount, which is not below itself
      have hwhole : ((BigNumber.ofInt 100).minus (.finite 0)).div (.ofInt 100) = .finite 1 := by
        decide +kernel
      dsimp only [belowMinimum]
      rw [hwhole, multipliedBy_one, getSwapQuote, quote, toFixed_amountOut, isLessThan_self]

/-- The guard, then the columns of the pool. -/
theorem executeSwap_eq (s : State User) (dto : SwapDto) [Decidable (Guarded s dto)] :
    executeSwap s dto =
      if Guarded s dto then .error .slippageExceeded
      else
        match s.pool.swapped dto with
        | none => .error .saveFailed
        | some pool => .ok ({ s with pool }, (getSwapQuote s dto).amountOut) := by
  have hguard := guard_iff s dto
  unfold getSwapQuote at hguard ⊢
  unfold executeSwap AMMPool.swapped
  dsimp only
  by_cases h : Guarded s dto
  · rw [if_pos h, failIf, if_pos (hguard.mpr h)]
    rfl
  · rw [if_neg h, failIf_of_not (mt hguard.mp h), ok_bind, save_bind_eq, Numeric.store_toFixed]
    cases (Numeric.store (s.pool.totalVolume24h.read.plus dto.amountIn) : Option Amount) with
    | none => rfl
    | some volume =>
      cases dto.direction with
      | token0ToToken1 =>
        exact saves_eq _ _ _
          (fun reserveToken0 reserveToken1 accumulatedFees0 =>
            { s.pool with
              reserveToken0, reserveToken1, accumulatedFees0, totalVolume24h := volume })
          fun pool => ({ s with pool }, (quote s.pool .token0ToToken1 dto.amountIn).amountOut)
      | token1ToToken0 =>
        exact saves_eq _ _ _
          (fun reserveToken0 reserveToken1 accumulatedFees1 =>
            { s.pool with
              reserveToken0, reserveToken1, accumulatedFees1, totalVolume24h := volume })
          fun pool => ({ s with pool }, (quote s.pool .token1ToToken0 dto.amountIn).amountOut)

/-! ## What the limits are worth -/

/-- A minimum alone stops the swap, or the pool's columns cannot hold it. Otherwise the swap's row
    is saved and the price of the pool at the time of the call meets the limits, or the row is not
    saved and nothing had changed in the pool. -/
def Honoured (s₀ s : State User) (dto : SwapDto) (swapSaved : Bool) : Prop :=
  Guarded s dto ∨
    match s.pool.swapped dto with
    | none => True
    | some pool =>
      if swapSaved then Meets (getSwapQuote s₀ dto).amountOut dto (getSwapQuote s dto).amountOut
      else pool = s.pool

/-- A call that throws before it saves the pool breaks no promise. -/
theorem protects_of_error {s₀ s : State User} {userId : User} {dto : SwapDto} {swapSaved : Bool}
    {e : AmmError} (h : executeSwap s dto = .error e) : Protects s₀ s userId dto swapSaved := by
  constructor
  case completed =>
    intro s' swap hcall
    rw [executeSwapRecorded, h] at hcall
    cases hcall
  case rejected =>
    intro s' e' hcall
    rw [executeSwapRecorded, h] at hcall
    cases hcall
    rfl

/-- Once the pool is saved, all depends on the price and on the save of the swap's row. -/
theorem protects_of_ok {s₀ s : State User} {userId : User} {dto : SwapDto} {pool : AMMPool}
    {amountOut : BigNumber} (h : executeSwap s dto = .ok ({ s with pool }, amountOut))
    (swapSaved : Bool) :
    Protects s₀ s userId dto swapSaved ↔
      if swapSaved then Meets (getSwapQuote s₀ dto).amountOut dto (amountOut.toFixed 8)
      else pool = s.pool := by
  cases swapSaved with
  | true =>
    rw [if_pos rfl]
    constructor
    · intro hprotects
      exact hprotects.completed _ _ (by rw [executeSwapRecorded, h]; rfl) rfl
    · intro hmeets
      constructor
      case completed =>
        intro s' swap hcall _
        rw [executeSwapRecorded, h] at hcall
        cases hcall
        exact hmeets
      case rejected =>
        intro s' e hcall
        rw [executeSwapRecorded, h] at hcall
        cases hcall
  | false =>
    rw [if_neg Bool.false_ne_true]
    constructor
    · intro hprotects
      exact hprotects.rejected _ .saveFailed (by rw [executeSwapRecorded, h]; rfl)
    · intro hsame
      constructor
      case completed =>
        intro s' swap hcall
        rw [executeSwapRecorded, h] at hcall
        cases hcall
      case rejected =>
        intro s' e hcall
        rw [executeSwapRecorded, h] at hcall
        cases hcall
        exact hsame

/-- A minimum alone is kept: a price that is a number meets it, or the guard stops the swap. -/
theorem guarded_or_meets {s₀ s : State User} {dto : SwapDto} {minimum price : Rat}
    (hminimum : dto.minimumAmountOut = some (.finite minimum))
    (hslippage : dto.slippagePercentage.getD 0 = 0)
    (hprice : (getSwapQuote s dto).amountOut = .finite price) :
    Guarded s dto ∨
      Meets (getSwapQuote s₀ dto).amountOut dto (getSwapQuote s dto).amountOut := by
  unfold Guarded Meets
  rw [hminimum, hprice]
  rcases lt_or_ge price minimum with hlt | hge
  · exact .inl ⟨decide_eq_true hlt, hslippage⟩
  · exact .inr (decide_eq_true hge)

/-! ## Limits that are not kept -/

/-- A swap that is completed below the caller's limits. -/
def completedBelow (s₀ s : State User) (userId : User) (dto : SwapDto) : Bool :=
  match (executeSwapRecorded s userId dto true).2 with
  | .ok swap =>
    swap.status = .completed ∧ ¬ Meets (getSwapQuote s₀ dto).amountOut dto swap.amountOut
  | .error _ => false

theorem not_protects {s₀ s : State User} {userId : User} {dto : SwapDto}
    (h : completedBelow s₀ s userId dto = true) : ¬ Protects s₀ s userId dto true := by
  intro hprotects
  unfold completedBelow at h
  cases hcall : executeSwapRecorded s userId dto true with
  | mk s' result =>
    rw [hcall] at h
    cases result with
    | error e => cases h
    | ok swap =>
      obtain ⟨hstatus, hbelow⟩ := of_decide_eq_true h
      exact hbelow (hprotects.completed s' swap hcall hstatus)

theorem zero_fits : Int.natAbs 0 < 10 ^ 20 := by decide

theorem feePercentage_fits : Int.natAbs 3000 < 10 ^ 5 := by decide

/-- A pool of 1000 and 1000 at 0.3%. -/
def evenPool : State Nat where
  pool :=
    { reserveToken0 := .units 100000000000 (by decide)
      reserveToken1 := .units 100000000000 (by decide)
      feePercentage := .units 3000 feePercentage_fits
      accumulatedFees0 := .units 0 zero_fits
      accumulatedFees1 := .units 0 zero_fits
      pricingModel := .constantProduct
      status := .active
      totalLiquidity := .units 100000000000 (by decide)
      totalVolume24h := .units 0 zero_fits }
  positions := []

/-- Ten units for at least a hundred, with a slippage of 1%. -/
def bothLimits : SwapDto := ⟨.ofInt 10, .token0ToToken1, some (.ofInt 100), some 1⟩

/-- Ten units with a slippage of 1% from the quote. -/
def slippageOnly : SwapDto := ⟨.ofInt 10, .token0ToToken1, none, some 1⟩

/-- The pool after somebody else has swapped 500 units. -/
def movedPool : Option (State Nat) :=
  next evenPool (.executeSwap 8 ⟨.ofInt 500, .token0ToToken1, none, none⟩)

end AgriFi.Amm
