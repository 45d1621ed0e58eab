import AgriFi.Decimal
import AgriFi.Runs
import AgriFi.Soroban.Checked

/-
  The AMM (`src/amm`): `AMMPricingService`, `AMMPoolService` and `AMMSwapService` for one pool and
  the positions in it, with calls taken one after the other. Amounts come as strings and are
  `BigNumber`s here; the columns are `numeric(20, 8)`, the fee `numeric(5, 4)`. An optional string
  counts when it is given and not empty. `addLiquidity` and `removeLiquidity` save the pool first
  and the position after it, in no transaction, so the second save may fail with the first done.
  `executeSwap` saves a row of the swap after the pool; no call reads it.
-/

namespace AgriFi.Amm

open AgriFi.Decimal AgriFi.Runs
open AgriFi.Soroban (failIf)

inductive AmmError where
  | badRequest
  | dealNotFound
  | initialReservesNotPositive
  | poolNotActive
  | amountsNotPositive
  | slippageMinimumLpTokens
  | positionNotFound
  | insufficientLpTokens
  | slippageToken0
  | slippageToken1
  | slippageExceeded
  | saveFailed
  deriving DecidableEq, Repr

inductive PoolStatus where
  | active
  | paused
  | deprecated
  deriving DecidableEq, Repr

inductive PricingModel where
  | constantProduct
  | stableSwap
  | linear
  deriving DecidableEq, Repr

inductive SwapDirection where
  | token0ToToken1
  | token1ToToken0
  deriving DecidableEq, Repr

abbrev Amount := Numeric 20 8

structure AMMPool where
  reserveToken0 : Amount
  reserveToken1 : Amount
  feePercentage : Numeric 5 4
  accumulatedFees0 : Amount
  accumulatedFees1 : Amount
  pricingModel : PricingModel
  status : PoolStatus
  totalLiquidity : Amount
  totalVolume24h : Amount
  deriving DecidableEq, Repr

structure AMMLiquidityPosition (User : Type) where
  userId : User
  lpTokenAmount : Amount
  depositToken0Amount : Amount
  depositToken1Amount : Amount
  isActive : Bool
  deriving DecidableEq, Repr

/-- A pool with the positions in it, in the order they were created. -/
structure State (User : Type) where
  pool : AMMPool
  positions : List (AMMLiquidityPosition User)
  deriving DecidableEq, Repr

structure CreatePoolDto where
  reserveToken0 : BigNumber
  reserveToken1 : BigNumber
  feePercentage : Rat
  pricingModel : Option PricingModel

structure SwapDto where
  amountIn : BigNumber
  direction : SwapDirection
  minimumAmountOut : Option BigNumber
  slippagePercentage : Option Rat

structure AddLiquidityDto where
  amount0 : BigNumber
  amount1 : BigNumber
  minLpTokens : Option BigNumber

structure RemoveLiquidityDto where
  lpTokenAmount : BigNumber
  minAmount0 : Option BigNumber
  minAmount1 : Option BigNumber

/-! ## `AMMPricingService` -/

structure PricingParams where
  reserveToken0 : BigNumber
  reserveToken1 : BigNumber
  amountIn : BigNumber
  direction : SwapDirection
  feePercentage : BigNumber
  pricingModel : PricingModel

structure PricingResult where
  amountOut : BigNumber
  executionPrice : BigNumber
  priceImpact : BigNumber
  feePaid : BigNumber

/-- `Math.max(0, x)`. -/
def mathMaxZero (x : BigNumber) : BigNumber :=
  if x = .nan then .nan else if x.isLessThan (.ofInt 0) then .ofInt 0 else x

def feeMultiplier (feePercentage : BigNumber) : BigNumber :=
  (BigNumber.ofInt 1).minus (feePercentage.div (.ofInt 100))

def constantProductPrice (params : PricingParams) : PricingResult :=
  let reserve0 := params.reserveToken0
  let reserve1 := params.reserveToken1
  let input := params.amountIn
  let amountInAfterFee := input.multipliedBy (feeMultiplier params.feePercentage)
  let feePaid := input.minus amountInAfterFee
  let k := reserve0.multipliedBy reserve1
  let amountOut :=
    match params.direction with
    | .token0ToToken1 => reserve1.minus (k.div (reserve0.plus amountInAfterFee))
    | .token1ToToken0 => reserve0.minus (k.div (reserve1.plus amountInAfterFee))
  let spotPrice :=
    match params.direction with
    | .token0ToToken1 => reserve1.div reserve0
    | .token1ToToken0 => reserve0.div reserve1
  let executionPrice := amountOut.div amountInAfterFee
  let priceImpact := ((spotPrice.minus executionPrice).div spotPrice).multipliedBy (.ofInt 100)
  { amountOut := amountOut.toFixed 8
    executionPrice := executionPrice.toFixed 8
    priceImpact := mathMaxZero priceImpact
    feePaid := feePaid.toFixed 8 }

def stableSwapPrice (params : PricingParams) : PricingResult :=
  let reserve0 := params.reserveToken0
  let reserve1 := params.reserveToken1
  let input := params.amountIn
  let amountInAfterFee := input.multipliedBy (feeMultiplier params.feePercentage)
  let feePaid := input.minus amountInAfterFee
  let constant := reserve0.plus reserve1
  let amountOut :=
    match params.direction with
    | .token0ToToken1 => reserve1.minus (constant.minus (reserve0.plus amountInAfterFee))
    | .token1ToToken0 => reserve0.minus (constant.minus (reserve1.plus amountInAfterFee))
  let executionPrice := amountOut.div amountInAfterFee
  { amountOut := amountOut.toFixed 8
    executionPrice := executionPrice.toFixed 8
    priceImpact := .finite (1 / 2)
    feePaid := feePaid.toFixed 8 }

/-- The direction is not looked at. -/
def linearPrice (params : PricingParams) : PricingResult :=
  let reserve0 := params.reserveToken0
  let reserve1 := params.reserveToken1
  let input := params.amountIn
  let amountInAfterFee := input.multipliedBy (feeMultiplier params.feePercentage)
  let feePaid := input.minus amountInAfterFee
  let spotPrice := reserve1.div reserve0
  let amountOut := amountInAfterFee.multipliedBy spotPrice
  { amountOut := amountOut.toFixed 8
    executionPrice := spotPrice.toFixed 8
    priceImpact := .ofInt 0
    feePaid := feePaid.toFixed 8 }

def calculatePrice (params : PricingParams) : PricingResult :=
  match params.pricingModel with
  | .constantProduct => constantProductPrice params
  | .stableSwap => stableSwapPrice params
  | .linear => linearPrice params

def calculateLpTokens (reserve0 reserve1 amount0 amount1 existingLp : BigNumber) : BigNumber :=
  if reserve0.isZero || reserve1.isZero then (amount0.multipliedBy amount1).sqrt.toFixed 8
  else
    let liquidityFromAmount0 := (amount0.multipliedBy existingLp).div reserve0
    let liquidityFromAmount1 := (amount1.multipliedBy existingLp).div reserve1
    (liquidityFromAmount0.min liquidityFromAmount1).toFixed 8

/-! ## `AMMPoolService` and `AMMSwapService` -/

variable {User : Type}

/-- Save a value in a column. -/
def save {precision scale : Nat} (a : BigNumber) : Except AmmError (Numeric precision scale) :=
  match Numeric.store a with
  | some column => .ok column
  | none => .error .saveFailed

/-- `if (given) { if (amount.isLessThan(given)) throw … }`. -/
def belowMinimum (amount : BigNumber) : Option BigNumber → Bool
  | some minimum => amount.isLessThan minimum
  | none => false

/-- `createPool`, once the deal is looked up; the request is checked against its DTO first. -/
def createPool (dto : CreatePoolDto) (dealFound : Bool) : Except AmmError (State User) := do
  failIf (dto.feePercentage < 0 ∨ 100 < dto.feePercentage) .badRequest
  failIf (dealFound = false) .dealNotFound
  let reserve0 := dto.reserveToken0
  let reserve1 := dto.reserveToken1
  failIf (reserve0.isLessThanOrEqualTo (.ofInt 0) || reserve1.isLessThanOrEqualTo (.ofInt 0))
    .initialReservesNotPositive
  let reserveToken0 ← save (reserve0.toFixed 8)
  let reserveToken1 ← save (reserve1.toFixed 8)
  -- `dto.feePercentage || 0.3`
  let feePercentage ← save (.finite (if dto.feePercentage = 0 then 3 / 10 else dto.feePercentage))
  let totalLiquidity ← save ((reserve0.multipliedBy reserve1).sqrt.toFixed 8)
  let zero ← save (.ofInt 0)
  pure
    { pool :=
        { reserveToken0, reserveToken1, feePercentage, totalLiquidity
          accumulatedFees0 := zero, accumulatedFees1 := zero, totalVolume24h := zero
          pricingModel := dto.pricingModel.getD .constantProduct
          status := .active }
      positions := [] }

/-- The quote for a swap of `amountIn` with the pool as it is. -/
def quote (pool : AMMPool) (direction : SwapDirection) (amountIn : BigNumber) : PricingResult :=
  calculatePrice
    { reserveToken0 := pool.reserveToken0.read
      reserveToken1 := pool.reserveToken1.read
      amountIn, direction
      feePercentage := pool.feePercentage.read
      pricingModel := pool.pricingModel }

/-- `minAmountOut`: what the caller gave, or what his slippage leaves of the quote. -/
def minAmountOut (dto : SwapDto) (amountOut : BigNumber) : Option BigNumber :=
  match dto.minimumAmountOut, dto.slippagePercentage with
  | some minimum, _ => some minimum
  | none, some slippage =>
    let maxSlippage := ((BigNumber.ofInt 100).minus (.finite slippage)).div (.ofInt 100)
    some ((amountOut.multipliedBy maxSlippage).toFixed 8)
  | none, none => none

/-- `executeSwap` up to the save of the pool; returns the amount paid out. -/
def executeSwap (s : State User) (dto : SwapDto) : Except AmmError (State User × BigNumber) := do
  let pool := s.pool
  let quote := quote pool dto.direction dto.amountIn
  -- a slippage of zero is taken for none given
  failIf (belowMinimum quote.amountOut (minAmountOut dto quote.amountOut) = true ∧
    dto.slippagePercentage.getD 0 = 0) .slippageExceeded
  let amountIn := dto.amountIn
  let amountOut := quote.amountOut
  let totalVolume24h ← save ((pool.totalVolume24h.read.plus amountIn).toFixed 8)
  match dto.direction with
  | .token0ToToken1 =>
    let reserveToken0 ← save ((pool.reserveToken0.read.plus amountIn).toFixed 8)
    let reserveToken1 ← save ((pool.reserveToken1.read.minus amountOut).toFixed 8)
    let accumulatedFees0 ← save ((pool.accumulatedFees0.read.plus quote.feePaid).toFixed 8)
    pure ({ s with pool :=
      { pool with reserveToken0, reserveToken1, accumulatedFees0, totalVolume24h } }, amountOut)
  | .token1ToToken0 =>
    let reserveToken0 ← save ((pool.reserveToken0.read.minus amountOut).toFixed 8)
    let reserveToken1 ← save ((pool.reserveToken1.read.plus amountIn).toFixed 8)
    let accumulatedFees1 ← save ((pool.accumulatedFees1.read.plus quote.feePaid).toFixed 8)
    pure ({ s with pool :=
      { pool with reserveToken0, reserveToken1, accumulatedFees1, totalVolume24h } }, amountOut)

/-- The row that `addLiquidity` saves for the caller. -/
def createPosition (userId : User) (lpTokens amount0 amount1 : BigNumber) :
    Except AmmError (AMMLiquidityPosition User) := do
  let lpTokenAmount ← save lpTokens
  let depositToken0Amount ← save (amount0.toFixed 8)
  let depositToken1Amount ← save (amount1.toFixed 8)
  pure { userId, lpTokenAmount, depositToken0Amount, depositToken1Amount, isActive := true }

/-- `addLiquidity`; `positionSaved` says whether the second save goes through. Returns the LP
    tokens of the position, if there is one. -/
def addLiquidity (s : State User) (dto : AddLiquidityDto) (userId : User) (positionSaved : Bool) :
    Except AmmError (State User × Option BigNumber) := do
  let pool := s.pool
  failIf (pool.status ≠ .active) .poolNotActive
  let amount0 := dto.amount0
  let amount1 := dto.amount1
  failIf (amount0.isLessThanOrEqualTo (.ofInt 0) || amount1.isLessThanOrEqualTo (.ofInt 0))
    .amountsNotPositive
  let lpTokens := calculateLpTokens pool.reserveToken0.read pool.reserveToken1.read
    amount0 amount1 pool.totalLiquidity.read
  failIf (belowMinimum lpTokens dto.minLpTokens = true) .slippageMinimumLpTokens
  let reserveToken0 ← save ((pool.reserveToken0.read.plus amount0).toFixed 8)
  let reserveToken1 ← save ((pool.reserveToken1.read.plus amount1).toFixed 8)
  let totalLiquidity ← save ((pool.totalLiquidity.read.plus lpTokens).toFixed 8)
  let pool := { pool with reserveToken0, reserveToken1, totalLiquidity }
  match positionSaved, createPosition userId lpTokens amount0 amount1 with
  | true, .ok position => pure ({ pool, positions := s.positions ++ [position] }, some lpTokens)
  | _, _ => pure ({ s with pool }, none)

/-- `removeLiquidity`; `found` is the row that `findOne` returns, any of the caller's active
    positions. Returns the two amounts, if both saves go through. -/
def removeLiquidity (s : State User) [DecidableEq User] (dto : RemoveLiquidityDto) (userId : User)
    (found : Nat) (positionSaved : Bool) :
    Except AmmError (State User × Option (BigNumber × BigNumber)) := do
  let pool := s.pool
  match s.positions[found]? with
  | none => .error .positionNotFound
  | some position => do
    failIf (position.userId ≠ userId ∨ position.isActive = false) .positionNotFound
    let lpTokensToRemove := dto.lpTokenAmount
    failIf (lpTokensToRemove.isGreaterThan position.lpTokenAmount.read = true)
      .insufficientLpTokens
    let totalLp := pool.totalLiquidity.read
    let reserve0 := pool.reserveToken0.read
    let reserve1 := pool.reserveToken1.read
    let proportion := lpTokensToRemove.div totalLp
    let amount0 := reserve0.multipliedBy proportion
    let amount1 := reserve1.multipliedBy proportion
    failIf (belowMinimum amount0 dto.minAmount0 = true) .slippageToken0
    failIf (belowMinimum amount1 dto.minAmount1 = true) .slippageToken1
    let reserveToken0 ← save ((reserve0.minus amount0).toFixed 8)
    let reserveToken1 ← save ((reserve1.minus amount1).toFixed 8)
    let totalLiquidity ← save ((totalLp.minus lpTokensToRemove).toFixed 8)
    let pool := { pool with reserveToken0, reserveToken1, totalLiquidity }
    match positionSaved, (save ((position.lpTokenAmount.read.minus lpTokensToRemove).toFixed 8) :
        Except AmmError Amount) with
    | true, .ok lpTokenAmount =>
      let isActive := position.isActive && !lpTokenAmount.read.isZero
      pure ({ pool, positions := s.positions.set found { position with lpTokenAmount, isActive } },
        some (amount0.toFixed 8, amount1.toFixed 8))
    | _, _ => pure ({ s with pool }, none)

/-! ## Calls -/

inductive Call (User : Type) where
  | executeSwap (userId : User) (dto : SwapDto)
  | addLiquidity (userId : User) (dto : AddLiquidityDto) (positionSaved : Bool)
  | removeLiquidity (userId : User) (dto : RemoveLiquidityDto) (found : Nat) (positionSaved : Bool)

def Call.userId : Call User → User
  | .executeSwap userId _ => userId
  | .addLiquidity userId _ _ => userId
  | .removeLiquidity userId _ _ _ => userId

variable [DecidableEq User]

/-- A call that saves the pool; one that throws before changes nothing. -/
def next (s : State User) : Call User → Option (State User)
  | .executeSwap _ dto => (executeSwap s dto).toOption.map Prod.fst
  | .addLiquidity userId dto positionSaved =>
    (addLiquidity s dto userId positionSaved).toOption.map Prod.fst
  | .removeLiquidity userId dto found positionSaved =>
    (removeLiquidity s dto userId found positionSaved).toOption.map Prod.fst

end AgriFi.Amm
