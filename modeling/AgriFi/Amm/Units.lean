import AgriFi.Amm.Moves

/-
  The calls in units of the eighth decimal, for amounts that are numbers: a reserve of `R` units, an
  amount of `A = a · 10^8`, which need not be whole. A quotient of two amounts is rounded to 12
  decimals of a unit, one that has no unit to 20.
-/

namespace AgriFi.Amm

open AgriFi.Decimal AgriFi.Runs AgriFi.Soroban

variable {User : Type}

/-- An amount in units of the eighth decimal. -/
def inUnits (a : Rat) : Rat := a * 10 ^ 8

theorem inUnits_neg (a : Rat) : inUnits (-a) = -inUnits a := neg_mul a _

theorem inUnits_div (A : Rat) : inUnits (A / 10 ^ 8) = A := div_mul_cancel₀ _ (by positivity)

namespace AMMPool

/-- The reserves, the LP supply and the fee are numbers. -/
structure IsNumeric (pool : AMMPool) : Prop where
  reserve0 : pool.reserveToken0.IsNumber
  reserve1 : pool.reserveToken1.IsNumber
  liquidity : pool.totalLiquidity.IsNumber
  fee : pool.feePercentage.IsNumber

/-- What the fee leaves of an amount put in. -/
def multiplier (pool : AMMPool) : Rat := 1 - pool.feePercentage.toUnits / 10 ^ 6

/-- The fee is at least zero and less than ten per cent. -/
def FeeInRange (pool : AMMPool) : Prop :=
  0 ≤ pool.feePercentage.toUnits ∧ pool.feePercentage.toUnits < 10 ^ 5

theorem isNumber_in {pool : AMMPool} (h : pool.IsNumeric) (direction : SwapDirection) :
    (pool.reserveIn direction).IsNumber := by
  cases direction with
  | token0ToToken1 => exact h.reserve0
  | token1ToToken0 => exact h.reserve1

theorem isNumber_out {pool : AMMPool} (h : pool.IsNumeric) (direction : SwapDirection) :
    (pool.reserveOut direction).IsNumber := by
  cases direction with
  | token0ToToken1 => exact h.reserve1
  | token1ToToken0 => exact h.reserve0

theorem multiplier_pos {pool : AMMPool} (h : pool.FeeInRange) : 0 < pool.multiplier := by
  have h2 : (pool.feePercentage.toUnits : Rat) < 10 ^ 5 := by exact_mod_cast h.2
  unfold multiplier
  linarith

theorem multiplier_le_one {pool : AMMPool} (h : pool.FeeInRange) : pool.multiplier ≤ 1 := by
  have h1 : (0 : Rat) ≤ pool.feePercentage.toUnits := by exact_mod_cast h.1
  unfold multiplier
  linarith

end AMMPool

theorem Opened.feeInRange {dto : CreatePoolDto} {s : State User} (h : Opened dto s) :
    s.pool.feePercentage.IsNumber ∧ s.pool.FeeInRange := by
  obtain ⟨hn, hu⟩ := Numeric.store_finite h.fee
  have hb := s.pool.feePercentage.toUnits_bound
  have hpos : 0 ≤ s.pool.feePercentage.toUnits := by
    rw [hu]
    refine halfUp_nonneg (mul_nonneg ?_ (by positivity))
    split
    · norm_num
    · exact h.fee_range.1
  refine ⟨hn, hpos, ?_⟩
  omega

/-- A pool that opens with at least half a unit of both tokens holds some of each, and LP tokens. -/
theorem Opened.units {dto : CreatePoolDto} {s : State User} {r0 r1 : Rat} (h : Opened dto s)
    (h0 : dto.reserveToken0 = .finite r0) (h1 : dto.reserveToken1 = .finite r1)
    (hr0 : 1 / 2 ≤ inUnits r0) (hr1 : 1 / 2 ≤ inUnits r1) :
    s.pool.IsNumeric ∧ 0 < s.pool.reserveToken0.toUnits ∧ 0 < s.pool.reserveToken1.toUnits ∧
    0 < s.pool.totalLiquidity.toUnits := by
  have hs0 := h.reserve0
  have hs1 := h.reserve1
  have hl := h.liquidity
  rw [h0] at hs0 hl
  rw [h1] at hs1 hl
  unfold inUnits at hr0 hr1
  have hprod : 1 / 4 ≤ r0 * r1 * 10 ^ 16 := by
    calc (1 / 4 : Rat) = 1 / 2 * (1 / 2) := by norm_num
      _ ≤ r0 * 10 ^ 8 * (r1 * 10 ^ 8) := mul_le_mul hr0 hr1 (by norm_num) (by linarith)
      _ = r0 * r1 * 10 ^ 16 := by ring
  rw [BigNumber.multipliedBy_finite, BigNumber.sqrt, if_neg (by linarith)] at hl
  obtain ⟨hn0, hu0⟩ := Numeric.store_finite hs0
  obtain ⟨hn1, hu1⟩ := Numeric.store_finite hs1
  obtain ⟨hnl, hul⟩ := Numeric.store_finite hl
  have hpos (r : Rat) (hr : 1 / 2 ≤ r) : 0 < halfUp r :=
    Int.lt_iff_add_one_le.mpr ((le_halfUp_iff (by norm_num)).mpr (by norm_num; linarith))
  refine ⟨⟨hn0, hn1, hnl, h.feeInRange.1⟩, by rw [hu0]; exact hpos _ hr0,
    by rw [hu1]; exact hpos _ hr1, ?_⟩
  rw [hul]
  by_contra hle
  have := (BigNumber.halfUp_sqrtRat_le_iff (by linarith) le_rfl).mp (not_lt.mp hle)
  norm_num at this
  linarith

/-! ## A swap -/

/-- What the pool's pricing model pays for `A` units, before it is rounded to a unit. -/
def payout (pool : AMMPool) (direction : SwapDirection) (A : Rat) : Rat :=
  let reserveIn : Rat := (pool.reserveIn direction).toUnits
  let reserveOut : Rat := (pool.reserveOut direction).toUnits
  let afterFee := A * pool.multiplier
  match pool.pricingModel with
  | .constantProduct => reserveOut - roundTo 12 (reserveIn * reserveOut / (reserveIn + afterFee))
  | .stableSwap => afterFee
  | .linear => afterFee * roundTo 20 (pool.reserveToken1.toUnits / pool.reserveToken0.toUnits)

/-- The price divides by something. -/
def Priced (pool : AMMPool) (direction : SwapDirection) (A : Rat) : Prop :=
  match pool.pricingModel with
  | .constantProduct => ((pool.reserveIn direction).toUnits : Rat) + A * pool.multiplier ≠ 0
  | .stableSwap => True
  | .linear => pool.reserveToken0.toUnits ≠ 0

theorem feeMultiplier_read {pool : AMMPool} (h : pool.feePercentage.IsNumber) :
    feeMultiplier pool.feePercentage.read = .finite pool.multiplier := by
  have hround : roundTo 20 ((pool.feePercentage.toUnits : Rat) / 10 ^ 4 / (100 : Int)) =
      pool.feePercentage.toUnits / 10 ^ 4 / (100 : Int) :=
    roundTo_of_int (n := pool.feePercentage.toUnits * 10 ^ 14) 20 (by push_cast; ring)
  unfold feeMultiplier AMMPool.multiplier
  rw [Numeric.read_of_isNumber h, BigNumber.ofInt, BigNumber.ofInt,
    BigNumber.div_finite (by norm_num), BigNumber.decimalPlaces, hround, BigNumber.minus_finite]
  congr 1
  push_cast
  ring

/-- A quotient of amounts, in units, is rounded to 12 decimals. -/
theorem roundTo_inUnits (z : Rat) : inUnits (roundTo 20 (z / 10 ^ 8)) = roundTo 12 z :=
  roundTo_shift 12 8 z

theorem toFixed_inUnits (x : Rat) :
    (BigNumber.finite x).toFixed 8 = .finite (halfUp (inUnits x) / 10 ^ 8) := rfl

/-- The payout of the constant product, for either direction. -/
theorem constantProduct_inUnits {rin rout k m a : Rat} (hk : k = rin / 10 ^ 8 * (rout / 10 ^ 8))
    (hne : rin + inUnits a * m ≠ 0) :
    (BigNumber.minus (.finite (rout / 10 ^ 8)) (BigNumber.div (.finite k)
      (BigNumber.plus (.finite (rin / 10 ^ 8)) (.finite (a * m))))).toFixed 8 =
      .finite (halfUp (rout - roundTo 12 (rin * rout / (rin + inUnits a * m))) / 10 ^ 8) := by
  have hsum : rin / 10 ^ 8 + a * m = (rin + inUnits a * m) / 10 ^ 8 := by
    unfold inUnits; ring
  have hquot : k / (rin / 10 ^ 8 + a * m) = rin * rout / (rin + inUnits a * m) / 10 ^ 8 := by
    rw [hsum, hk]; field_simp
  have hround := roundTo_inUnits (rin * rout / (rin + inUnits a * m))
  unfold inUnits at hround
  rw [BigNumber.plus_finite, BigNumber.div_finite (by rw [hsum]; positivity), hquot,
    BigNumber.minus_finite, BigNumber.decimalPlaces, toFixed_inUnits]
  unfold inUnits
  rw [sub_mul, hround, div_mul_cancel₀ _ (by positivity)]

theorem quote_amountOut {pool : AMMPool} {direction : SwapDirection} {a : Rat}
    (h : pool.IsNumeric) (hp : Priced pool direction (inUnits a)) :
    (quote pool direction (.finite a)).amountOut =
      .finite (halfUp (payout pool direction (inUnits a)) / 10 ^ 8) := by
  have hm := feeMultiplier_read h.fee
  have h0 := Numeric.read_of_isNumber h.reserve0
  have h1 := Numeric.read_of_isNumber h.reserve1
  unfold Priced at hp
  cases hmodel : pool.pricingModel with
  | constantProduct =>
    rw [hmodel] at hp
    simp only [quote, calculatePrice, constantProductPrice, payout, hmodel, hm, h0, h1,
      BigNumber.multipliedBy_finite]
    cases direction with
    | token0ToToken1 => exact constantProduct_inUnits rfl hp
    | token1ToToken0 => exact constantProduct_inUnits (mul_comm _ _) hp
  | stableSwap =>
    simp only [quote, calculatePrice, stableSwapPrice, payout, hmodel, hm, h0, h1,
      BigNumber.multipliedBy_finite, BigNumber.plus_finite, BigNumber.minus_finite]
    have hafter : inUnits (a * pool.multiplier) = inUnits a * pool.multiplier := by
      unfold inUnits; ring
    cases direction with
    | token0ToToken1 =>
      rw [show ∀ x y z : Rat, y - (x + y - (x + z)) = z by intros; ring, toFixed_inUnits, hafter]
    | token1ToToken0 =>
      rw [show ∀ x y z : Rat, x - (x + y - (y + z)) = z by intros; ring, toFixed_inUnits, hafter]
  | linear =>
    rw [hmodel] at hp
    have hp' : (pool.reserveToken0.toUnits : Rat) ≠ 0 := by exact_mod_cast hp
    simp only [quote, calculatePrice, linearPrice, payout, hmodel, hm, h0, h1,
      BigNumber.multipliedBy_finite]
    rw [BigNumber.div_finite (by positivity), BigNumber.multipliedBy_finite, toFixed_inUnits,
      div_div_div_cancel_right₀ (by positivity), BigNumber.decimalPlaces]
    unfold inUnits
    rw [mul_right_comm (a * pool.multiplier), mul_right_comm a]

/-- Where the payout of the constant product goes above `n` units. -/
theorem constantProduct_payout_le_iff {pool : AMMPool} {direction : SwapDirection} {A : Rat}
    {n : Int} (hmodel : pool.pricingModel = .constantProduct)
    (hz : 0 ≤ ((pool.reserveIn direction).toUnits : Rat) * (pool.reserveOut direction).toUnits /
      ((pool.reserveIn direction).toUnits + A * pool.multiplier)) (hn : 0 ≤ n) :
    halfUp (payout pool direction A) ≤ n ↔
      ((pool.reserveOut direction).toUnits : Rat) -
        (pool.reserveIn direction).toUnits * (pool.reserveOut direction).toUnits /
          ((pool.reserveIn direction).toUnits + A * pool.multiplier) ≤
        n + 1 / 2 - 1 / 2 / 10 ^ 12 := by
  unfold payout
  rw [hmodel]
  exact halfUp_intSub_roundTo_le_iff (by norm_num) hz hn

/-- What is not put in at a loss is not paid out at one. -/
theorem constantProduct_payout_nonneg {pool : AMMPool} {direction : SwapDirection} {A : Rat}
    (hmodel : pool.pricingModel = .constantProduct) (hfee : pool.FeeInRange)
    (hin : 0 < (pool.reserveIn direction).toUnits) (hout : 0 ≤ (pool.reserveOut direction).toUnits)
    (hA : 0 ≤ A) : 0 ≤ payout pool direction A := by
  have hm := AMMPool.multiplier_pos hfee
  have hin' : (0 : Rat) < (pool.reserveIn direction).toUnits := by exact_mod_cast hin
  have hout' : (0 : Rat) ≤ (pool.reserveOut direction).toUnits := by exact_mod_cast hout
  have hafter : 0 ≤ A * pool.multiplier := by positivity
  have hz : ((pool.reserveIn direction).toUnits : Rat) * (pool.reserveOut direction).toUnits /
      ((pool.reserveIn direction).toUnits + A * pool.multiplier) ≤
        (pool.reserveOut direction).toUnits := by
    rw [div_le_iff₀ (by linarith), mul_comm]
    exact mul_le_mul_of_nonneg_left (by linarith) hout'
  have hround : roundTo 12 _ ≤ roundTo 12 _ := roundTo_mono hz
  rw [roundTo_intCast] at hround
  unfold payout
  rw [hmodel]
  exact sub_nonneg.mpr hround

/-- What a swap of a number does, in units. -/
theorem Swapped.units {s s' : State User} {dto : SwapDto} {amountOut : BigNumber} {a : Rat}
    (h : Swapped s dto s' amountOut) (hn : s.pool.IsNumeric) (ha : dto.amountIn = .finite a)
    (hp : Priced s.pool dto.direction (inUnits a)) :
    s'.pool.IsNumeric ∧
    amountOut = .finite (halfUp (payout s.pool dto.direction (inUnits a)) / 10 ^ 8) ∧
    (s'.pool.reserveIn dto.direction).toUnits =
      halfUp ((s.pool.reserveIn dto.direction).toUnits + inUnits a) ∧
    (s'.pool.reserveOut dto.direction).toUnits = (s.pool.reserveOut dto.direction).toUnits -
      halfUp (payout s.pool dto.direction (inUnits a)) := by
  have hout : amountOut = .finite (halfUp (payout s.pool dto.direction (inUnits a)) / 10 ^ 8) := by
    rw [h.amountOut_eq, ha]
    exact quote_amountOut hn hp
  have hin := h.reserveIn
  rw [Numeric.read_of_isNumber (AMMPool.isNumber_in hn _), ha, BigNumber.plus_finite] at hin
  have hret := h.reserveOut
  rw [Numeric.read_of_isNumber (AMMPool.isNumber_out hn _), hout, BigNumber.minus_finite] at hret
  obtain ⟨hin_num, hin_eq⟩ := Numeric.store_finite hin
  obtain ⟨hout_num, hout_eq⟩ := Numeric.store_finite hret
  have hpos : (10 : Rat) ^ 8 ≠ 0 := by positivity
  refine ⟨?_, hout, ?_, ?_⟩
  · have hl : s'.pool.totalLiquidity.IsNumber := by rw [h.liquidity]; exact hn.liquidity
    have hf : s'.pool.feePercentage.IsNumber := by rw [h.fee]; exact hn.fee
    cases hd : dto.direction with
    | token0ToToken1 =>
      rw [hd] at hin_num hout_num
      exact ⟨hin_num, hout_num, hl, hf⟩
    | token1ToToken0 =>
      rw [hd] at hin_num hout_num
      exact ⟨hout_num, hin_num, hl, hf⟩
  · rw [hin_eq, add_mul, div_mul_cancel₀ _ hpos]
    rfl
  · rw [hout_eq, sub_mul, div_mul_cancel₀ _ hpos, div_mul_cancel₀ _ hpos]
    exact_mod_cast halfUp_intCast _

/-! ## A deposit -/

/-- What a deposit of `A0` and `A1` units is worth in LP tokens, at the reserve it is short of. -/
def depositShare (pool : AMMPool) (A0 A1 : Rat) : Rat :=
  min (A0 * pool.totalLiquidity.toUnits / pool.reserveToken0.toUnits)
    (A1 * pool.totalLiquidity.toUnits / pool.reserveToken1.toUnits)

/-- The LP tokens of a deposit of numbers. -/
def minted (pool : AMMPool) (a0 a1 : Rat) : Int :=
  if pool.reserveToken0.toUnits = 0 ∨ pool.reserveToken1.toUnits = 0 then
    halfUp (inUnits (BigNumber.sqrtRat (a0 * a1)))
  else halfUp (roundTo 12 (depositShare pool (inUnits a0) (inUnits a1)))

/-- The worth of a deposit at one of the reserves, as the code divides. -/
theorem liquidityFrom_inUnits {a : Rat} {reserve liquidity : Int} (hne : reserve ≠ 0) :
    BigNumber.div (.finite (a * (liquidity / 10 ^ 8))) (.finite (reserve / 10 ^ 8)) =
      .finite (roundTo 20 (inUnits a * liquidity / reserve / 10 ^ 8)) := by
  have hne' : (reserve : Rat) ≠ 0 := by exact_mod_cast hne
  have hquot : a * (liquidity / 10 ^ 8) / (reserve / 10 ^ 8) =
      inUnits a * liquidity / reserve / 10 ^ 8 := by
    unfold inUnits
    field_simp
  rw [BigNumber.div_finite (by positivity), BigNumber.decimalPlaces, hquot]

theorem lpTokens_finite {pool : AMMPool} {a0 a1 : Rat} (h : pool.IsNumeric) (h0 : 0 < a0)
    (h1 : 0 < a1) :
    pool.lpTokens (.finite a0) (.finite a1) = .finite (minted pool a0 a1 / 10 ^ 8) := by
  have hpos : (10 : Rat) ^ 8 ≠ 0 := by positivity
  have hzero (r : Int) : ((r : Rat) / 10 ^ 8 = 0) ↔ r = 0 := by
    rw [div_eq_zero_iff]
    simp
  unfold AMMPool.lpTokens calculateLpTokens minted
  rw [Numeric.read_of_isNumber h.reserve0, Numeric.read_of_isNumber h.reserve1,
    Numeric.read_of_isNumber h.liquidity]
  simp only [Bool.or_eq_true, BigNumber.isZero_finite, hzero, BigNumber.multipliedBy_finite]
  split
  · have hprod : ¬ a0 * a1 < 0 := not_lt.mpr (by positivity)
    rw [BigNumber.sqrt, if_neg hprod, toFixed_inUnits]
  · rename_i hne
    push Not at hne
    have hunits := roundTo_inUnits (depositShare pool (inUnits a0) (inUnits a1))
    unfold depositShare at hunits ⊢
    rw [liquidityFrom_inUnits hne.1, liquidityFrom_inUnits hne.2, BigNumber.min_finite, roundTo_min,
      min_div_div_right (by positivity), toFixed_inUnits, hunits]

/-- What a deposit of numbers does, in units. -/
theorem Added.units {s s' : State User} {dto : AddLiquidityDto} {userId : User}
    {positionSaved : Bool} {lpTokens : Option BigNumber} {a0 a1 : Rat}
    (h : Added s dto userId positionSaved s' lpTokens) (hn : s.pool.IsNumeric)
    (ha0 : dto.amount0 = .finite a0) (ha1 : dto.amount1 = .finite a1) :
    0 < a0 ∧ 0 < a1 ∧ s'.pool.IsNumeric ∧
    s'.pool.reserveToken0.toUnits = halfUp (s.pool.reserveToken0.toUnits + inUnits a0) ∧
    s'.pool.reserveToken1.toUnits = halfUp (s.pool.reserveToken1.toUnits + inUnits a1) ∧
    s'.pool.totalLiquidity.toUnits = s.pool.totalLiquidity.toUnits + minted s.pool a0 a1 := by
  have hpos : (10 : Rat) ^ 8 ≠ 0 := by positivity
  have hlt (a : Rat) (hle : (BigNumber.finite a).isLessThanOrEqualTo (.ofInt 0) = false) : 0 < a := by
    by_contra hneg
    rw [BigNumber.ofInt, ← Bool.not_eq_true, BigNumber.isLessThanOrEqualTo_finite] at hle
    push_cast at hle
    exact hle (not_lt.mp hneg)
  have h0 := hlt a0 (by rw [← ha0]; exact h.positive0)
  have h1 := hlt a1 (by rw [← ha1]; exact h.positive1)
  have hr0 := h.reserve0
  have hr1 := h.reserve1
  have hl := h.liquidity
  rw [Numeric.read_of_isNumber hn.reserve0, ha0, BigNumber.plus_finite] at hr0
  rw [Numeric.read_of_isNumber hn.reserve1, ha1, BigNumber.plus_finite] at hr1
  rw [Numeric.read_of_isNumber hn.liquidity, ha0, ha1, lpTokens_finite hn h0 h1,
    BigNumber.plus_finite] at hl
  obtain ⟨hr0_num, hr0_eq⟩ := Numeric.store_finite hr0
  obtain ⟨hr1_num, hr1_eq⟩ := Numeric.store_finite hr1
  obtain ⟨hl_num, hl_eq⟩ := Numeric.store_finite hl
  refine ⟨h0, h1, ⟨hr0_num, hr1_num, hl_num, by rw [h.fee]; exact hn.fee⟩, ?_, ?_, ?_⟩
  · rw [hr0_eq, add_mul, div_mul_cancel₀ _ hpos]
    rfl
  · rw [hr1_eq, add_mul, div_mul_cancel₀ _ hpos]
    rfl
  · rw [hl_eq, add_mul, div_mul_cancel₀ _ hpos, div_mul_cancel₀ _ hpos]
    exact_mod_cast halfUp_intCast _

/-! ## A removal -/

/-- A reserve's part of the removal of `Λ` units of LP tokens, in units. -/
def removedPart (pool : AMMPool) (reserve : Int) (Λ : Rat) : Rat :=
  reserve * roundTo 20 (Λ / pool.totalLiquidity.toUnits)

theorem proportion_finite {pool : AMMPool} {lp : Rat} (h : pool.totalLiquidity.IsNumber)
    (hne : pool.totalLiquidity.toUnits ≠ 0) :
    pool.proportion (.finite lp) =
      .finite (roundTo 20 (inUnits lp / pool.totalLiquidity.toUnits)) := by
  have hne' : (pool.totalLiquidity.toUnits : Rat) ≠ 0 := by exact_mod_cast hne
  have hquot : lp / (pool.totalLiquidity.toUnits / 10 ^ 8) =
      inUnits lp / pool.totalLiquidity.toUnits := by
    unfold inUnits
    field_simp
  unfold AMMPool.proportion
  rw [Numeric.read_of_isNumber h, BigNumber.div_finite (by positivity), BigNumber.decimalPlaces,
    hquot]

theorem amount_finite {pool : AMMPool} {reserve : Amount} {lp : Rat}
    (h : pool.totalLiquidity.IsNumber) (hne : pool.totalLiquidity.toUnits ≠ 0)
    (hr : reserve.IsNumber) :
    reserve.read.multipliedBy (pool.proportion (.finite lp)) =
      .finite (removedPart pool reserve.toUnits (inUnits lp) / 10 ^ 8) := by
  rw [Numeric.read_of_isNumber hr, proportion_finite h hne, BigNumber.multipliedBy_finite]
  unfold removedPart
  rw [div_mul_eq_mul_div]

/-- What a reserve holds once its part is taken out. -/
theorem reserveLeft {pool : AMMPool} {reserve reserve' : Amount} {lp : Rat}
    (h : pool.totalLiquidity.IsNumber) (hne : pool.totalLiquidity.toUnits ≠ 0)
    (hr : reserve.IsNumber)
    (hstore : Numeric.store
      (reserve.read.minus (reserve.read.multipliedBy (pool.proportion (.finite lp)))) =
        some reserve') :
    reserve'.IsNumber ∧
    reserve'.toUnits = halfUp (reserve.toUnits - removedPart pool reserve.toUnits (inUnits lp)) := by
  rw [amount_finite h hne hr, Numeric.read_of_isNumber hr, BigNumber.minus_finite] at hstore
  obtain ⟨hnum, heq⟩ := Numeric.store_finite hstore
  refine ⟨hnum, ?_⟩
  rw [heq, sub_mul, div_mul_cancel₀ _ (by positivity), div_mul_cancel₀ _ (by positivity)]

/-- What a removal of a number does to the pool, in units. -/
theorem Removed.units {s s' : State User} {dto : RemoveLiquidityDto} {userId : User}
    {found : Nat} {positionSaved : Bool} {position : AMMLiquidityPosition User}
    {amounts : Option (BigNumber × BigNumber)} {lp : Rat}
    (h : Removed s dto userId found positionSaved position s' amounts) (hn : s.pool.IsNumeric)
    (hlp : dto.lpTokenAmount = .finite lp) (hne : s.pool.totalLiquidity.toUnits ≠ 0) :
    s'.pool.IsNumeric ∧
    s'.pool.reserveToken0.toUnits = halfUp (s.pool.reserveToken0.toUnits -
      removedPart s.pool s.pool.reserveToken0.toUnits (inUnits lp)) ∧
    s'.pool.reserveToken1.toUnits = halfUp (s.pool.reserveToken1.toUnits -
      removedPart s.pool s.pool.reserveToken1.toUnits (inUnits lp)) ∧
    s'.pool.totalLiquidity.toUnits =
      halfUp (s.pool.totalLiquidity.toUnits - inUnits lp) := by
  have hr0 := h.reserve0
  have hr1 := h.reserve1
  have hl := h.liquidity
  rw [hlp] at hr0 hr1 hl
  obtain ⟨hr0_num, hr0_eq⟩ := reserveLeft hn.liquidity hne hn.reserve0 hr0
  obtain ⟨hr1_num, hr1_eq⟩ := reserveLeft hn.liquidity hne hn.reserve1 hr1
  rw [Numeric.read_of_isNumber hn.liquidity, BigNumber.minus_finite] at hl
  obtain ⟨hl_num, hl_eq⟩ := Numeric.store_finite hl
  refine ⟨⟨hr0_num, hr1_num, hl_num, by rw [h.fee]; exact hn.fee⟩, hr0_eq, hr1_eq, ?_⟩
  rw [hl_eq, sub_mul, div_mul_cancel₀ _ (by positivity)]
  rfl

/-- The amounts a removal returns. -/
theorem Removed.amounts {s s' : State User} {dto : RemoveLiquidityDto} {userId : User}
    {found : Nat} {positionSaved : Bool} {position : AMMLiquidityPosition User}
    {amounts : Option (BigNumber × BigNumber)} {lp : Rat}
    (h : Removed s dto userId found positionSaved position s' amounts) (hn : s.pool.IsNumeric)
    (hlp : dto.lpTokenAmount = .finite lp) (hne : s.pool.totalLiquidity.toUnits ≠ 0)
    (hsome : amounts ≠ none) : amounts = some
      (.finite (halfUp (removedPart s.pool s.pool.reserveToken0.toUnits (inUnits lp)) / 10 ^ 8),
       .finite (halfUp (removedPart s.pool s.pool.reserveToken1.toUnits (inUnits lp)) / 10 ^ 8))
    := by
  rcases h.positions with ⟨_, _, _, _, hamounts⟩ | ⟨_, _, hnone⟩
  · rw [hamounts, hlp, amount_finite hn.liquidity hne hn.reserve0,
      amount_finite hn.liquidity hne hn.reserve1, toFixed_inUnits, toFixed_inUnits, inUnits_div,
      inUnits_div]
  · exact absurd hnone hsome

/-! ## Shares -/

/-- The LP tokens of all the positions, in units. -/
def sharesHeld (s : State User) : Int :=
  (s.positions.map fun position => position.lpTokenAmount.toUnits).sum

/-- Every position holds a number of LP tokens, not a negative one, and one that is no longer
    active holds none. -/
def SharesValid (s : State User) : Prop :=
  ∀ position ∈ s.positions, position.lpTokenAmount.IsNumber ∧
    0 ≤ position.lpTokenAmount.toUnits ∧
    (position.isActive = false → position.lpTokenAmount.toUnits = 0)

theorem SharesValid.le_held {s : State User} (h : SharesValid s)
    {position : AMMLiquidityPosition User} (hmem : position ∈ s.positions) :
    position.lpTokenAmount.toUnits ≤ sharesHeld s := by
  refine List.single_le_sum ?_ _ (List.mem_map_of_mem hmem)
  intro n hn
  obtain ⟨other, hother, rfl⟩ := List.mem_map.mp hn
  exact (h other hother).2.1

theorem createPosition_finite {userId : User} {position : AMMLiquidityPosition User} {n : Int}
    {a0 a1 : BigNumber} (h : createPosition userId (.finite (n / 10 ^ 8)) a0 a1 = .ok position) :
    position.userId = userId ∧ position.lpTokenAmount.IsNumber ∧
    position.lpTokenAmount.toUnits = n ∧ position.isActive = true := by
  unfold createPosition at h
  simp only [save_bind_eq_ok, pure_eq_ok] at h
  obtain ⟨lpTokenAmount, hlp, _, _, _, _, heq⟩ := h
  cases heq
  obtain ⟨hnum, hunits⟩ := Numeric.store_finite hlp
  rw [div_mul_cancel₀ _ (by positivity), halfUp_intCast] at hunits
  exact ⟨rfl, hnum, hunits, rfl⟩

/-- A deposit that mints no negative number keeps the positions valid; the supply grows by what
    they do, or by more when the position is lost. -/
theorem Added.shares {s s' : State User} {dto : AddLiquidityDto} {userId : User}
    {positionSaved : Bool} {lpTokens : Option BigNumber} {a0 a1 : Rat}
    (h : Added s dto userId positionSaved s' lpTokens) (hn : s.pool.IsNumeric)
    (ha0 : dto.amount0 = .finite a0) (ha1 : dto.amount1 = .finite a1)
    (hminted : 0 ≤ minted s.pool a0 a1) (hvalid : SharesValid s) :
    SharesValid s' ∧
    (sharesHeld s' = sharesHeld s + minted s.pool a0 a1 ∧ lpTokens ≠ none ∨
      sharesHeld s' = sharesHeld s ∧ lpTokens = none) := by
  obtain ⟨h0, h1, -⟩ := h.units hn ha0 ha1
  rcases h.positions with ⟨position, _, hcreate, hpositions, hlp⟩ | ⟨_, hpositions, hlp⟩
  · rw [ha0, ha1, lpTokens_finite hn h0 h1] at hcreate
    obtain ⟨_, hnum, hunits, hactive⟩ := createPosition_finite hcreate
    constructor
    · intro p hp
      rw [hpositions, List.mem_append, List.mem_singleton] at hp
      rcases hp with hp | rfl
      · exact hvalid p hp
      · exact ⟨hnum, by omega, fun hno => by rw [hactive] at hno; cases hno⟩
    · refine .inl ⟨?_, by rw [hlp]; exact Option.some_ne_none _⟩
      simp only [sharesHeld, hpositions, List.map_append, List.map_cons, List.map_nil,
        List.sum_append, List.sum_cons, List.sum_nil, hunits]
      omega
  · refine ⟨by unfold SharesValid; rw [hpositions]; exact hvalid, .inr ⟨?_, hlp⟩⟩
    unfold sharesHeld
    rw [hpositions]

/-- The lookup never hands out more than the position has. -/
theorem Removed.le_position {s s' : State User} {dto : RemoveLiquidityDto} {userId : User}
    {found : Nat} {positionSaved : Bool} {position : AMMLiquidityPosition User}
    {amounts : Option (BigNumber × BigNumber)} {lp : Rat}
    (h : Removed s dto userId found positionSaved position s' amounts)
    (hlp : dto.lpTokenAmount = .finite lp) (hnum : position.lpTokenAmount.IsNumber) :
    inUnits lp ≤ position.lpTokenAmount.toUnits := by
  have henough := h.enough
  rw [hlp, Numeric.read_of_isNumber hnum, ← Bool.not_eq_true, BigNumber.isGreaterThan_finite,
    not_lt, le_div_iff₀ (by positivity)] at henough
  exact henough

/-- A removal takes as much from the supply as from the position. -/
theorem Removed.shares {s s' : State User} {dto : RemoveLiquidityDto} {userId : User}
    {found : Nat} {position : AMMLiquidityPosition User}
    {amounts : Option (BigNumber × BigNumber)} {lp : Rat}
    (h : Removed s dto userId found true position s' amounts) (hn : s.pool.IsNumeric)
    (hlp : dto.lpTokenAmount = .finite lp) (hne : s.pool.totalLiquidity.toUnits ≠ 0)
    (hvalid : SharesValid s) (hheld : sharesHeld s ≤ s.pool.totalLiquidity.toUnits) :
    SharesValid s' ∧ amounts ≠ none ∧
    sharesHeld s' - sharesHeld s =
      s'.pool.totalLiquidity.toUnits - s.pool.totalLiquidity.toUnits := by
  have hmem := List.mem_of_getElem? h.found_eq
  obtain ⟨hnum, hpos, _⟩ := hvalid position hmem
  have hle := h.le_position hlp hnum
  have hsupply := le_trans (hvalid.le_held hmem) hheld
  obtain ⟨_, _, _, hl⟩ := h.units hn hlp hne
  -- the supply and the position are rounded at the same distance from whole units
  have hsame : halfUp (s.pool.totalLiquidity.toUnits - inUnits lp) =
      s.pool.totalLiquidity.toUnits - position.lpTokenAmount.toUnits +
        halfUp (position.lpTokenAmount.toUnits - inUnits lp) := by
    have hrest : (position.lpTokenAmount.toUnits : Rat) ≤ s.pool.totalLiquidity.toUnits := by
      exact_mod_cast hsupply
    rw [← halfUp_intAdd (by linarith) (by push_cast; linarith)]
    congr 1
    push_cast
    ring
  have hleft : 0 ≤ halfUp (position.lpTokenAmount.toUnits - inUnits lp) :=
    halfUp_nonneg (by linarith)
  have hunits : ((position.lpTokenAmount.toUnits : Rat) / 10 ^ 8 - lp) * 10 ^ 8 =
      position.lpTokenAmount.toUnits - inUnits lp := by
    rw [sub_mul, div_mul_cancel₀ _ (by positivity)]
    rfl
  have hread : position.lpTokenAmount.read.minus dto.lpTokenAmount =
      .finite (position.lpTokenAmount.toUnits / 10 ^ 8 - lp) := by
    rw [hlp, Numeric.read_of_isNumber hnum, BigNumber.minus_finite]
  rcases h.positions with ⟨lpTokenAmount, _, hstore, hpositions, hamounts⟩ | ⟨hlost, _⟩
  · rw [hread] at hstore
    obtain ⟨hnum', hunits'⟩ := Numeric.store_finite hstore
    rw [hunits] at hunits'
    obtain ⟨hlt, hget⟩ := List.getElem?_eq_some_iff.mp h.found_eq
    refine ⟨?_, by rw [hamounts]; exact Option.some_ne_none _, ?_⟩
    · intro p hp
      rw [hpositions] at hp
      rcases List.mem_or_eq_of_mem_set hp with hp | rfl
      · exact hvalid p hp
      · refine ⟨hnum', by rw [hunits']; exact hleft, fun hinactive => ?_⟩
        have hzero : lpTokenAmount.read.isZero = true := by simpa using hinactive
        rw [Numeric.read_of_isNumber hnum', BigNumber.isZero_finite, div_eq_zero_iff] at hzero
        simpa using hzero
    · rw [hl, hsame]
      simp only [sharesHeld, hpositions, List.map_set, List.sum_set', List.length_map, hlt,
        dif_pos, List.getElem_map, hget, hunits']
      omega
  · refine absurd ⟨rfl, ?_⟩ hlost
    rw [hread]
    refine Numeric.exists_store ?_
    rw [hunits]
    have hbound := s'.pool.totalLiquidity.toUnits_bound
    omega

end AgriFi.Amm
