import AgriFi.Amm.Solvency

/-
  Swaps under the three pricing models. The constant product pays out nearly the whole reserve at
  most, and its rounding the rest; the stable swap pays the amount after the fee whatever the
  reserve is; the linear price looks neither at the reserve nor at the direction. A pool stays
  funded as long as each swap leaves half a unit of both tokens before rounding (`KeepsReserves`),
  and a swap back returns no more than was put in under a bound for each model (`ReturnsLess`).
-/

namespace AgriFi.Amm

open AgriFi.Decimal AgriFi.Runs AgriFi.Soroban

variable {User : Type}

def SwapDirection.opposite : SwapDirection → SwapDirection
  | .token0ToToken1 => .token1ToToken0
  | .token1ToToken0 => .token0ToToken1

/-- The linear model's price of token0, to 20 decimals. -/
def AMMPool.spotPrice (pool : AMMPool) : Rat :=
  roundTo 20 (pool.reserveToken1.toUnits / pool.reserveToken0.toUnits)

/-- The price leaves half a unit of the token paid out: the constant product half a unit and half
    of the last place of its quotient, the other models more than half a unit. -/
def LeavesHalf (reserveIn reserveOut afterFee spotPrice : Rat) : PricingModel → Prop
  | .constantProduct =>
    1 / 2 + 1 / 2 / 10 ^ 12 ≤ reserveIn * reserveOut / (reserveIn + afterFee)
  | .stableSwap => afterFee < reserveOut - 1 / 2
  | .linear => afterFee * spotPrice < reserveOut - 1 / 2

/-- A swap of `A` leaves half a unit of both tokens, before rounding. -/
def KeepsReserves (pool : AMMPool) (direction : SwapDirection) (A : Rat) : Prop :=
  1 / 2 ≤ ((pool.reserveIn direction).toUnits : Rat) + A ∧
  LeavesHalf (pool.reserveIn direction).toUnits (pool.reserveOut direction).toUnits
    (A * pool.multiplier) pool.spotPrice pool.pricingModel

/-- What the linear price makes of the two reserves after a swap, at the worst of the rounding of
    `paid` and of the quotient. -/
def worstSpot (reserveIn reserveOut paid : Rat) : SwapDirection → Rat
  | .token0ToToken1 => (reserveOut - paid + 1 / 2) / reserveIn + 1 / 2 / 10 ^ 20
  | .token1ToToken0 => reserveIn / (reserveOut - paid - 1 / 2) + 1 / 2 / 10 ^ 20

/-- The way back of a swap stays below `back`, with the reserve of the token put in at `reserveIn`
    before it and at `reserveIn'` after it: for the constant product a bound on the payout before
    rounding, for the stable swap on the amount after the fee, for the linear price on what the
    new spot price makes of the payout. -/
def BackBelow (reserveIn reserveIn' reserveOut m A spotPrice back : Rat)
    (direction : SwapDirection) : PricingModel → Prop
  | .constantProduct =>
    let below := back - 1 / 2 / 10 ^ 12
    reserveOut - reserveIn * reserveOut / (reserveIn + A * m) ≤
      ⌊below * reserveOut / (reserveIn' * m + below * (1 - m))⌋ + 1 / 2 - 1 / 2 / 10 ^ 12
  | .stableSwap => A * m < ⌈back / m⌉ - 1 / 2
  | .linear =>
    let paid := A * m * spotPrice
    (paid + 1 / 2) * m * worstSpot reserveIn' reserveOut paid direction < back

/-- The way back of a swap of `A` stays below half a unit above the whole units of `A`. -/
def ReturnsLess (pool : AMMPool) (direction : SwapDirection) (A : Rat) : Prop :=
  BackBelow (pool.reserveIn direction).toUnits ((pool.reserveIn direction).toUnits + halfUp A)
    (pool.reserveOut direction).toUnits pool.multiplier A pool.spotPrice (⌊A⌋ + 1 / 2) direction
    pool.pricingModel

instance (reserveIn reserveOut afterFee spotPrice : Rat) : ∀ model : PricingModel,
    Decidable (LeavesHalf reserveIn reserveOut afterFee spotPrice model)
  | .constantProduct => inferInstanceAs (Decidable (_ ≤ _))
  | .stableSwap => inferInstanceAs (Decidable (_ < _))
  | .linear => inferInstanceAs (Decidable (_ < _))

instance (reserveIn reserveIn' reserveOut m A spotPrice back : Rat) (direction : SwapDirection) :
    ∀ model : PricingModel,
      Decidable (BackBelow reserveIn reserveIn' reserveOut m A spotPrice back direction model)
  | .constantProduct => inferInstanceAs (Decidable (_ ≤ _))
  | .stableSwap => inferInstanceAs (Decidable (_ < _))
  | .linear => inferInstanceAs (Decidable (_ < _))

instance (pool : AMMPool) (direction : SwapDirection) (A : Rat) :
    Decidable (KeepsReserves pool direction A) := inferInstanceAs (Decidable (_ ∧ _))

instance (pool : AMMPool) (direction : SwapDirection) (A : Rat) :
    Decidable (ReturnsLess pool direction A) :=
  inferInstanceAs (Decidable (BackBelow _ _ _ _ _ _ _ _ _))

/-- A pool of any pricing model with some of both tokens. -/
structure Funded (pool : AMMPool) : Prop where
  numeric : pool.IsNumeric
  fee : pool.FeeInRange
  reserves : ∀ token, 0 < pool.reserve token

section Pool

variable {pool : AMMPool} {direction : SwapDirection} {A : Rat}

theorem Funded.reserveIn_pos (h : Funded pool) (direction : SwapDirection) :
    0 < (pool.reserveIn direction).toUnits := by
  rw [← reserve_tokenIn]
  exact h.reserves _

theorem Funded.reserveOut_pos (h : Funded pool) (direction : SwapDirection) :
    0 < (pool.reserveOut direction).toUnits := by
  cases direction with
  | token0ToToken1 => exact h.reserves .token1
  | token1ToToken0 => exact h.reserves .token0

/-- With the fee taken off the reserve of the token put in is still positive. -/
theorem Funded.afterFee_pos (h : Funded pool)
    (hA : 1 / 2 ≤ ((pool.reserveIn direction).toUnits : Rat) + A) :
    0 < ((pool.reserveIn direction).toUnits : Rat) + A * pool.multiplier := by
  have hm := AMMPool.multiplier_pos h.fee
  have hm1 := AMMPool.multiplier_le_one h.fee
  have hin : (0 : Rat) < (pool.reserveIn direction).toUnits := by
    exact_mod_cast h.reserveIn_pos direction
  rcases le_total 0 A with hpos | hneg
  · have : 0 ≤ A * pool.multiplier := by positivity
    linarith
  · have : A * 1 ≤ A * pool.multiplier := mul_le_mul_of_nonpos_left hm1 hneg
    linarith

theorem Funded.priced (h : Funded pool)
    (hA : 1 / 2 ≤ ((pool.reserveIn direction).toUnits : Rat) + A) : Priced pool direction A := by
  unfold Priced
  cases hmodel : pool.pricingModel with
  | constantProduct => exact (h.afterFee_pos hA).ne'
  | stableSwap => trivial
  | linear => exact (h.reserves .token0).ne'

theorem Funded.payout_nonneg (h : Funded pool) (direction : SwapDirection) (hA : 0 ≤ A) :
    0 ≤ payout pool direction A := by
  have hm := AMMPool.multiplier_pos h.fee
  have h0 : (0 : Rat) < pool.reserveToken0.toUnits := by exact_mod_cast h.reserves .token0
  have h1 : (0 : Rat) < pool.reserveToken1.toUnits := by exact_mod_cast h.reserves .token1
  cases hmodel : pool.pricingModel with
  | constantProduct =>
    exact constantProduct_payout_nonneg hmodel h.fee (h.reserveIn_pos direction)
      (h.reserveOut_pos direction).le hA
  | stableSwap =>
    simp only [payout, hmodel]
    positivity
  | linear =>
    simp only [payout, hmodel]
    exact mul_nonneg (by positivity) (roundTo_nonneg (by positivity))

/-- A swap pays out less than the reserve exactly when it is one that keeps the reserves. -/
theorem payout_lt_iff (h : Funded pool)
    (hA : 1 / 2 ≤ ((pool.reserveIn direction).toUnits : Rat) + A) :
    halfUp (payout pool direction A) < (pool.reserveOut direction).toUnits ↔
      KeepsReserves pool direction A := by
  have hout := h.reserveOut_pos direction
  have hin' : (0 : Rat) < (pool.reserveIn direction).toUnits := by
    exact_mod_cast h.reserveIn_pos direction
  have hout' : (0 : Rat) < (pool.reserveOut direction).toUnits := by exact_mod_cast hout
  have hafter := h.afterFee_pos hA
  rw [← Int.le_sub_one_iff]
  unfold KeepsReserves
  rw [and_iff_right hA]
  cases hmodel : pool.pricingModel with
  | constantProduct =>
    rw [constantProduct_payout_le_iff hmodel (by positivity) (by omega)]
    unfold LeavesHalf
    push_cast
    constructor <;> intro h <;> linarith
  | stableSwap =>
    rw [halfUp_le_iff (by omega)]
    simp only [payout, hmodel, LeavesHalf]
    push_cast
    constructor <;> intro h <;> linarith
  | linear =>
    rw [halfUp_le_iff (by omega)]
    simp only [payout, hmodel, LeavesHalf, AMMPool.spotPrice]
    push_cast
    constructor <;> intro h <;> linarith

end Pool

/-! ## A swap and the way back -/

/-- What a swap that keeps the reserves does. -/
theorem Swapped.funded {s s' : State User} {dto : SwapDto} {amountOut : BigNumber} {a : Rat}
    (h : Swapped s dto s' amountOut) (hs : Funded s.pool) (ha : dto.amountIn = .finite a)
    (hkeeps : KeepsReserves s.pool dto.direction (inUnits a)) : Funded s'.pool := by
  obtain ⟨hn', -, hin, hout⟩ := h.units hs.numeric ha (hs.priced hkeeps.1)
  have hlt := (payout_lt_iff hs hkeeps.1).mpr hkeeps
  have hone : (1 : Int) ≤ halfUp ((s.pool.reserveIn dto.direction).toUnits + inUnits a) :=
    (le_halfUp_iff (by norm_num)).mpr (by push_cast; linarith [hkeeps.1])
  refine ⟨hn', ?_, (forall_reserve_iff dto.direction).mpr ⟨?_, fun token ht => ?_⟩⟩
  · unfold AMMPool.FeeInRange
    rw [h.fee]
    exact hs.fee
  · rw [reserve_tokenIn, hin]
    omega
  · rw [reserve_out _ ht, hout]
    omega

/-- What a pool of the constant product gives back for a payout that is small enough. -/
theorem constantProduct_back_le {rin rout paid m below : Rat} (hm : 0 < m)
    (hpaid : 0 ≤ paid) (hlt : paid < rout)
    (h : paid * (rin * m + below * (1 - m)) ≤ below * rout) :
    rin - (rout - paid) * rin / (rout - paid + paid * m) ≤ below := by
  have hpos : 0 < rout - paid + paid * m := by
    have : 0 ≤ paid * m := by positivity
    linarith
  have hsplit : rin - (rout - paid) * rin / (rout - paid + paid * m) =
      rin * (paid * m) / (rout - paid + paid * m) := by
    field_simp
    ring
  rw [hsplit, div_le_iff₀ hpos]
  linarith

theorem reserveIn_opposite (pool : AMMPool) (direction : SwapDirection) :
    pool.reserveIn direction.opposite = pool.reserveOut direction := by cases direction <;> rfl

theorem reserveOut_opposite (pool : AMMPool) (direction : SwapDirection) :
    pool.reserveOut direction.opposite = pool.reserveIn direction := by cases direction <;> rfl

/-- The pool that a swap of `A` leaves. -/
structure Leaves (pool : AMMPool) (direction : SwapDirection) (A : Rat) (pool' : AMMPool) :
    Prop where
  reserveIn : (pool'.reserveIn direction).toUnits =
    (pool.reserveIn direction).toUnits + halfUp A
  reserveOut : (pool'.reserveOut direction).toUnits =
    (pool.reserveOut direction).toUnits - halfUp (payout pool direction A)
  multiplier : pool'.multiplier = pool.multiplier
  model : pool'.pricingModel = pool.pricingModel

section Back

variable {pool pool' : AMMPool} {direction : SwapDirection} {A : Rat}

theorem back_le_of_constantProduct (h : Funded pool) (h' : Leaves pool direction A pool')
    (hmodel : pool.pricingModel = .constantProduct) (hA : 0 < A)
    (hkeeps : KeepsReserves pool direction A) (hless : ReturnsLess pool direction A) :
    halfUp (payout pool' direction.opposite (halfUp (payout pool direction A))) ≤ ⌊A⌋ := by
  have hm := AMMPool.multiplier_pos h.fee
  have hm1 := AMMPool.multiplier_le_one h.fee
  have hin : (0 : Rat) < (pool.reserveIn direction).toUnits := by
    exact_mod_cast h.reserveIn_pos direction
  have hout : (0 : Rat) < (pool.reserveOut direction).toUnits := by
    exact_mod_cast h.reserveOut_pos direction
  have hafter := h.afterFee_pos hkeeps.1
  have hfloor : 0 ≤ ⌊A⌋ := Int.floor_nonneg.mpr hA.le
  have hfloor' : (0 : Rat) ≤ ⌊A⌋ := by exact_mod_cast hfloor
  have hcredit : (0 : Rat) ≤ halfUp A := by exact_mod_cast halfUp_nonneg hA.le
  have hpaid := halfUp_nonneg (h.payout_nonneg direction hA.le)
  have hpaid' : (0 : Rat) ≤ halfUp (payout pool direction A) := by exact_mod_cast hpaid
  have hlt : (halfUp (payout pool direction A) : Rat) < (pool.reserveOut direction).toUnits := by
    exact_mod_cast (payout_lt_iff h hkeeps.1).mpr hkeeps
  have hbelow : (0 : Rat) < ⌊A⌋ + 1 / 2 - 1 / 2 / 10 ^ 12 := by
    norm_num
    linarith
  have hfee : 0 ≤ (⌊A⌋ + 1 / 2 - 1 / 2 / 10 ^ 12 : Rat) * (1 - pool.multiplier) :=
    mul_nonneg hbelow.le (by linarith)
  have hgrown : 0 < ((pool.reserveIn direction).toUnits + halfUp A : Rat) * pool.multiplier :=
    mul_pos (by linarith) hm
  unfold ReturnsLess at hless
  rw [hmodel] at hless
  simp only [BackBelow] at hless
  have hfits := (constantProduct_payout_le_iff hmodel (by positivity)
    (Int.floor_nonneg.mpr (by positivity))).mpr hless
  rw [Int.le_floor, le_div_iff₀ (by linarith)] at hfits
  have hback := constantProduct_back_le hm hpaid' hlt hfits
  have hrest : (0 : Rat) ≤ (pool.reserveOut direction).toUnits -
      halfUp (payout pool direction A) := by linarith
  refine (constantProduct_payout_le_iff (h'.model.trans hmodel) ?_ hfloor).mpr ?_
  · rw [reserveIn_opposite, reserveOut_opposite, h'.reserveIn, h'.reserveOut, h'.multiplier]
    push_cast
    positivity
  · rw [reserveIn_opposite, reserveOut_opposite, h'.reserveIn, h'.reserveOut, h'.multiplier]
    push_cast
    exact hback

theorem back_le_of_stableSwap (h : Funded pool) (h' : Leaves pool direction A pool')
    (hmodel : pool.pricingModel = .stableSwap) (hA : 0 < A)
    (hless : ReturnsLess pool direction A) :
    halfUp (payout pool' direction.opposite (halfUp (payout pool direction A))) ≤ ⌊A⌋ := by
  have hm := AMMPool.multiplier_pos h.fee
  have hfloor : 0 ≤ ⌊A⌋ := Int.floor_nonneg.mpr hA.le
  have hfloor' : (0 : Rat) ≤ ⌊A⌋ := by exact_mod_cast hfloor
  unfold ReturnsLess at hless
  rw [hmodel] at hless
  simp only [BackBelow] at hless
  have hceil : 0 < ⌈(⌊A⌋ + 1 / 2 : Rat) / pool.multiplier⌉ := Int.ceil_pos.mpr (by positivity)
  have hfits : halfUp (payout pool direction A) ≤
      ⌈(⌊A⌋ + 1 / 2 : Rat) / pool.multiplier⌉ - 1 := by
    rw [halfUp_le_iff (by omega)]
    simp only [payout, hmodel]
    push_cast
    linarith
  rw [Int.le_sub_one_iff, Int.lt_ceil, lt_div_iff₀ hm] at hfits
  rw [halfUp_le_iff hfloor]
  simp only [payout, h'.model, hmodel, h'.multiplier] at hfits ⊢
  exact hfits

/-- After a swap the spot price is no more than the worst of its rounding makes it. -/
theorem spotPrice_le_worst (h : Funded pool) (h' : Leaves pool direction A pool')
    (hmodel : pool.pricingModel = .linear) (hA : 0 < A) (hkeeps : KeepsReserves pool direction A) :
    pool'.spotPrice ≤ worstSpot ((pool.reserveIn direction).toUnits + halfUp A)
      (pool.reserveOut direction).toUnits (payout pool direction A) direction := by
  have hcredit : (0 : Rat) ≤ halfUp A := by exact_mod_cast halfUp_nonneg hA.le
  have hin : (0 : Rat) < (pool.reserveIn direction).toUnits := by
    exact_mod_cast h.reserveIn_pos direction
  have hnear := abs_le.mp (halfUp_near (payout pool direction A))
  have hround := (abs_le.mp (roundTo_near 20
    ((pool'.reserveToken1.toUnits : Rat) / pool'.reserveToken0.toUnits))).1
  have hr := h'.reserveIn
  have hl := h'.reserveOut
  have hhalf := hkeeps.2
  rw [hmodel] at hhalf
  simp only [LeavesHalf] at hhalf
  have hpayout : payout pool direction A = A * pool.multiplier * pool.spotPrice := by
    simp only [payout, hmodel, AMMPool.spotPrice]
  rw [← hpayout] at hhalf
  have hquot : (pool'.reserveToken1.toUnits : Rat) / pool'.reserveToken0.toUnits + 1 / 2 / 10 ^ 20 ≤
      worstSpot ((pool.reserveIn direction).toUnits + halfUp A)
        (pool.reserveOut direction).toUnits (payout pool direction A) direction := by
    cases direction with
    | token0ToToken1 =>
      simp only [AMMPool.reserveIn, AMMPool.reserveOut] at hr hl hin hhalf
      simp only [worstSpot, AMMPool.reserveIn, AMMPool.reserveOut, hr, hl]
      push_cast
      gcongr
      linarith
    | token1ToToken0 =>
      simp only [AMMPool.reserveIn, AMMPool.reserveOut] at hr hl hin hhalf
      simp only [worstSpot, AMMPool.reserveIn, AMMPool.reserveOut, hr, hl]
      push_cast
      have hdiv := div_le_div_of_nonneg_left
        (a := (pool.reserveToken1.toUnits : Rat) + halfUp A)
        (c := pool.reserveToken0.toUnits - payout pool .token1ToToken0 A - 1 / 2)
        (b := pool.reserveToken0.toUnits - halfUp (payout pool .token1ToToken0 A))
        (by linarith) (by linarith) (by linarith)
      linarith
  unfold AMMPool.spotPrice
  linarith

theorem back_le_of_linear (h : Funded pool) (h' : Leaves pool direction A pool')
    (hfunded' : Funded pool') (hmodel : pool.pricingModel = .linear) (hA : 0 < A)
    (hkeeps : KeepsReserves pool direction A) (hless : ReturnsLess pool direction A) :
    halfUp (payout pool' direction.opposite (halfUp (payout pool direction A))) ≤ ⌊A⌋ := by
  have hm := AMMPool.multiplier_pos h.fee
  have hfloor : 0 ≤ ⌊A⌋ := Int.floor_nonneg.mpr hA.le
  have h0 : (0 : Rat) < pool'.reserveToken0.toUnits := by exact_mod_cast hfunded'.reserves .token0
  have h1 : (0 : Rat) < pool'.reserveToken1.toUnits := by exact_mod_cast hfunded'.reserves .token1
  have hspot : 0 ≤ pool'.spotPrice := roundTo_nonneg (by positivity)
  have hpayout : payout pool direction A = A * pool.multiplier * pool.spotPrice := by
    simp only [payout, hmodel, AMMPool.spotPrice]
  have hnonneg := h.payout_nonneg direction hA.le
  have hnear := abs_le.mp (halfUp_near (payout pool direction A))
  unfold ReturnsLess at hless
  rw [hmodel] at hless
  simp only [BackBelow, ← hpayout] at hless
  rw [halfUp_le_iff hfloor]
  calc payout pool' direction.opposite (halfUp (payout pool direction A))
      = halfUp (payout pool direction A) * pool.multiplier * pool'.spotPrice := by
        simp only [payout, h'.model, hmodel, h'.multiplier, AMMPool.spotPrice]
    _ ≤ (payout pool direction A + 1 / 2) * pool.multiplier * pool'.spotPrice := by
        gcongr
        linarith
    _ ≤ _ := mul_le_mul_of_nonneg_left (spotPrice_le_worst h h' hmodel hA hkeeps)
        (by positivity)
    _ < ⌊A⌋ + 1 / 2 := hless

theorem back_le (h : Funded pool) (h' : Leaves pool direction A pool') (hfunded' : Funded pool')
    (hA : 0 < A) (hkeeps : KeepsReserves pool direction A)
    (hless : ReturnsLess pool direction A) :
    halfUp (payout pool' direction.opposite (halfUp (payout pool direction A))) ≤ ⌊A⌋ := by
  cases hmodel : pool.pricingModel with
  | constantProduct => exact back_le_of_constantProduct h h' hmodel hA hkeeps hless
  | stableSwap => exact back_le_of_stableSwap h h' hmodel hA hless
  | linear => exact back_le_of_linear h h' hfunded' hmodel hA hkeeps hless

end Back

/-! ## Runs of swaps -/

/-- The call is a swap of a number that keeps the reserves. -/
def SwapKeeps (pool : AMMPool) : Call User → Prop
  | .executeSwap _ dto =>
    dto.amountIn.Holds fun a => KeepsReserves pool dto.direction (inUnits a)
  | _ => False

instance (pool : AMMPool) : ∀ call : Call User, Decidable (SwapKeeps pool call)
  | .executeSwap _ dto => inferInstanceAs (Decidable (dto.amountIn.Holds _))
  | .addLiquidity _ _ _ => isFalse id
  | .removeLiquidity _ _ _ _ => isFalse id

theorem Opened.funded {dto : CreatePoolDto} {s : State User} (h : Opened dto s)
    (hfunded : OpensFunded dto) : Funded s.pool := by
  obtain ⟨r0, h0, hr0⟩ := BigNumber.Holds.exists_finite hfunded.1
  obtain ⟨r1, h1, hr1⟩ := BigNumber.Holds.exists_finite hfunded.2
  obtain ⟨hn, hpos0, hpos1, -⟩ := h.units h0 h1 hr0 hr1
  refine ⟨hn, h.feeInRange.2, fun token => ?_⟩
  cases token
  · exact hpos0
  · exact hpos1

theorem next_funded [DecidableEq User] {s s' : State User} {call : Call User}
    (h : next s call = some s') (hkeeps : SwapKeeps s.pool call) (hs : Funded s.pool) :
    Funded s'.pool := by
  cases call with
  | executeSwap userId dto =>
    obtain ⟨a, ha, hkeeps⟩ := BigNumber.Holds.exists_finite hkeeps
    obtain ⟨amountOut, hexec⟩ := next_executeSwap.mp h
    exact (executeSwap_ok hexec).funded hs ha hkeeps
  | addLiquidity userId dto positionSaved => exact hkeeps.elim
  | removeLiquidity userId dto found positionSaved => exact hkeeps.elim

/-- A swap's quote, paid out and swapped back, gives no more than was put in. -/
theorem Swapped.returns {s s' : State User} {dto : SwapDto} {amountOut : BigNumber} {a : Rat}
    (h : Swapped s dto s' amountOut) (hs : Funded s.pool) (ha : dto.amountIn = .finite a)
    (hpos : 0 < a) (hkeeps : KeepsReserves s.pool dto.direction (inUnits a))
    (hless : ReturnsLess s.pool dto.direction (inUnits a)) :
    (quote s'.pool dto.direction.opposite amountOut).amountOut.isGreaterThan dto.amountIn =
      false := by
  have hA : 0 < inUnits a := by unfold inUnits; positivity
  have hs' := h.funded hs ha hkeeps
  obtain ⟨-, hval, hin, hout⟩ := h.units hs.numeric ha (hs.priced hkeeps.1)
  have hin0 : (0 : Rat) < (s.pool.reserveIn dto.direction).toUnits := by
    exact_mod_cast hs.reserveIn_pos dto.direction
  rw [halfUp_intAdd hA.le (by linarith)] at hin
  have hleaves : Leaves s.pool dto.direction (inUnits a) s'.pool :=
    ⟨hin, hout, by unfold AMMPool.multiplier; rw [h.fee], h.pricingModel⟩
  have hback := back_le hs hleaves hs' hA hkeeps hless
  have hpaid : (0 : Rat) ≤ halfUp (payout s.pool dto.direction (inUnits a)) := by
    exact_mod_cast halfUp_nonneg (hs.payout_nonneg dto.direction hA.le)
  have hnew : (1 : Rat) ≤ (s'.pool.reserveIn dto.direction.opposite).toUnits := by
    exact_mod_cast hs'.reserveIn_pos dto.direction.opposite
  have hpriced : Priced s'.pool dto.direction.opposite
      (inUnits (halfUp (payout s.pool dto.direction (inUnits a)) / 10 ^ 8)) := by
    rw [inUnits_div]
    exact hs'.priced (by linarith)
  rw [hval, quote_amountOut hs'.numeric hpriced, inUnits_div, ha, ← Bool.not_eq_true,
    BigNumber.isGreaterThan_finite, not_lt, div_le_iff₀ (by positivity)]
  exact le_trans (by exact_mod_cast hback) (Int.floor_le _)

/-- The quote is less than the reserve of the token it is in. -/
def PaysLess (s : State User) (swap : SwapDto) : Prop :=
  (quote s.pool swap.direction swap.amountIn).amountOut.isLessThan
    (s.pool.reserveOut swap.direction).read = true

/-- If the swap goes through, `P` holds of the state it leaves and of what it pays out. -/
def AfterSwap (s : State User) (swap : SwapDto) (P : State User → BigNumber → Prop) : Prop :=
  match executeSwap s swap with
  | .ok (s', amountOut) => P s' amountOut
  | .error _ => True

/-- The swap leaves some of both tokens. -/
def LeavesBoth (s : State User) (swap : SwapDto) : Prop :=
  AfterSwap s swap fun s' _ => 0 < s'.pool.reserve .token0 ∧ 0 < s'.pool.reserve .token1

/-- What the swap pays out, swapped back, gives no more than was put in. -/
def BackNoMore (s : State User) (swap : SwapDto) : Prop :=
  AfterSwap s swap fun s' amountOut =>
    (quote s'.pool swap.direction.opposite amountOut).amountOut.isGreaterThan swap.amountIn = false

instance (s : State User) (swap : SwapDto) (P : State User → BigNumber → Prop)
    [∀ s' amountOut, Decidable (P s' amountOut)] : Decidable (AfterSwap s swap P) := by
  unfold AfterSwap
  split <;> infer_instance

theorem afterSwap_of_forall {s : State User} {swap : SwapDto} {P : State User → BigNumber → Prop}
    (h : ∀ s' amountOut, executeSwap s swap = .ok (s', amountOut) → P s' amountOut) :
    AfterSwap s swap P := by
  unfold AfterSwap
  split
  · exact h _ _ ‹_›
  · trivial

instance (s : State User) (swap : SwapDto) : Decidable (LeavesBoth s swap) :=
  inferInstanceAs (Decidable (AfterSwap s swap _))

instance (s : State User) (swap : SwapDto) : Decidable (BackNoMore s swap) :=
  inferInstanceAs (Decidable (AfterSwap s swap _))

instance (s : State User) (swap : SwapDto) : Decidable (PaysLess s swap) :=
  inferInstanceAs (Decidable (_ = true))

theorem pools_stay_funded [DecidableEq User] {dto : CreatePoolDto} {dealFound : Bool}
    {start t : State User} {xs : List (Step (State User) (Call User))}
    (hopen : createPool dto dealFound = .ok start) (hfunded : OpensFunded dto)
    (hrun : Run next start xs t) (hswaps : ∀ x ∈ xs, SwapKeeps x.pre.pool x.act) :
    (∀ token, 0 < t.pool.reserve token) ∧
    ∀ swap : SwapDto, ∀ a, swap.amountIn = .finite a → 0 < a →
      (PaysLess t swap ↔ KeepsReserves t.pool swap.direction (inUnits a)) ∧
      (KeepsReserves t.pool swap.direction (inUnits a) → LeavesBoth t swap ∧
        (ReturnsLess t.pool swap.direction (inUnits a) → BackNoMore t swap)) := by
  have ht : Funded t.pool := hrun.invariant (fun s => Funded s.pool)
    ((createPool_ok hopen).funded hfunded)
    fun x hx hn hpre => next_funded hn (hswaps x hx) hpre
  refine ⟨ht.reserves, fun swap a ha hpos => ⟨?_, fun hkeeps => ⟨?_, fun hless => ?_⟩⟩⟩
  · have hA : 0 < inUnits a := by unfold inUnits; positivity
    have hin : (1 : Rat) ≤ (t.pool.reserveIn swap.direction).toUnits := by
      exact_mod_cast ht.reserveIn_pos swap.direction
    have hhalf : 1 / 2 ≤ ((t.pool.reserveIn swap.direction).toUnits : Rat) + inUnits a := by
      linarith
    unfold PaysLess
    rw [ha, quote_amountOut ht.numeric (ht.priced hhalf),
      Numeric.read_of_isNumber (AMMPool.isNumber_out ht.numeric _), BigNumber.isLessThan_finite,
      div_lt_div_iff_of_pos_right (by positivity), Int.cast_lt]
    exact payout_lt_iff ht hhalf
  · refine afterSwap_of_forall fun t' amountOut hexec => ?_
    have ht' := (executeSwap_ok hexec).funded ht ha hkeeps
    exact ⟨ht'.reserves .token0, ht'.reserves .token1⟩
  · exact afterSwap_of_forall fun t' amountOut hexec =>
      (executeSwap_ok hexec).returns ht ha hpos hkeeps hless

def swapDto (direction : SwapDirection) (amountIn : Rat) : SwapDto :=
  ⟨.finite amountIn, direction, none, none⟩

/-- Two swaps with the pool, one each way. -/
def swapCalls : List (Call Nat) := [swapOf 1 .token0ToToken1 10, swapOf 2 .token1ToToken0 4]

theorem pools_stay_funded_sample :
    (replay next (hundredsPool .linear) swapCalls).1.length = 2 ∧
    PaysLess (replay next (hundredsPool .linear) swapCalls).2 (swapDto .token0ToToken1 3) ∧
    BackNoMore (replay next (hundredsPool .linear) swapCalls).2 (swapDto .token0ToToken1 3) := by
  have hopen : createPool (hundreds .linear) true = .ok (hundredsPool .linear) := by decide +kernel
  have hrun := run_replay next (hundredsPool .linear) swapCalls
  obtain ⟨-, hswap⟩ := pools_stay_funded hopen (by decide +kernel) hrun (by decide +kernel)
  obtain ⟨hpays, hkeeps⟩ := hswap (swapDto .token0ToToken1 3) 3 rfl (by norm_num)
  have hsmall : KeepsReserves (replay next (hundredsPool .linear) swapCalls).2.pool
      (swapDto .token0ToToken1 3).direction (inUnits 3) := by decide +kernel
  exact ⟨by decide +kernel, hpays.mpr hsmall, (hkeeps hsmall).2 (by decide +kernel)⟩

/-- A stable pool pays out more than it holds, a constant product quotes all that it holds, and
    the linear price gives back nearly three times what was put in. -/
theorem pools_give_away :
    (∀ model, createPool (hundreds model) true = .ok (hundredsPool model)) ∧
    ¬ PaysLess (hundredsPool .stableSwap) (swapDto .token0ToToken1 150) ∧
    ¬ LeavesBoth (hundredsPool .stableSwap) (swapDto .token0ToToken1 150) ∧
    ¬ PaysLess (hundredsPool .constantProduct) (swapDto .token0ToToken1 (3 * 10 ^ 12)) ∧
    ¬ BackNoMore (hundredsPool .linear) (swapDto .token1ToToken0 50) := by
  exact ⟨fun model => by cases model <;> decide +kernel, by decide +kernel, by decide +kernel,
    by decide +kernel, by decide +kernel⟩

end AgriFi.Amm
