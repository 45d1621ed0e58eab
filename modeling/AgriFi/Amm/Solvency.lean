import AgriFi.Amm.Units

/-
  A constant product pool over any sequence of calls. What a share is worth, `r0 * r1 / L ^ 2`,
  never falls as long as no amount is rounded past what is fair: a payout past the price without a
  fee, the LP tokens of a deposit past its part of the pool, a removal past the removed part
  (`Fair`). All of these are rounded half up, and neither `executeSwap` nor `removeLiquidity` looks
  at the sign of the amount. From the worth of a share follow the solvency of the pool and that
  nobody takes out more of both tokens than is put in (`constant_product_solvent`).
-/

namespace AgriFi.Amm

open AgriFi.Decimal AgriFi.Runs AgriFi.Soroban

variable {User : Type}

/-! ## Tokens put in and taken out -/

inductive Token where
  | token0
  | token1
  deriving DecidableEq, Repr

/-- The one of two values that belongs to the token. -/
def Token.pick {α : Type} (value0 value1 : α) : Token → α
  | .token0 => value0
  | .token1 => value1

def SwapDirection.tokenIn : SwapDirection → Token
  | .token0ToToken1 => .token0
  | .token1ToToken0 => .token1

def AMMPool.reserve (pool : AMMPool) (token : Token) : Int :=
  (token.pick pool.reserveToken0 pool.reserveToken1).toUnits

/-- What the caller gets of a token, less what he puts in. -/
def gain [DecidableEq User] (s : State User) (call : Call User) (token : Token) : Rat :=
  match call with
  | .executeSwap _ dto =>
    match executeSwap s dto with
    | .ok (_, amountOut) =>
      if token = dto.direction.tokenIn then -dto.amountIn.value else amountOut.value
    | .error _ => 0
  | .addLiquidity _ dto _ => -(token.pick dto.amount0 dto.amount1).value
  | .removeLiquidity userId dto found positionSaved =>
    match removeLiquidity s dto userId found positionSaved with
    | .ok (_, some (amount0, amount1)) => (token.pick amount0 amount1).value
    | _ => 0

/-- What the calls of some users get them of a token, over a run. -/
def gains [DecidableEq User] (who : User → Bool) (token : Token)
    (xs : List (Step (State User) (Call User))) : Rat :=
  ((xs.filter fun x => who x.act.userId).map fun x => gain x.pre x.act token).sum

/-! ## Fair rounding -/

/-- The amount is not negative and not credited with more than it is; the payout with the fee
    taken off goes less than half a unit (and half of the last place of the quotient) above what
    the swap is worth without a fee, in whole units. -/
def FairSwap (pool : AMMPool) (direction : SwapDirection) (A : Rat) : Prop :=
  let reserveIn : Rat := (pool.reserveIn direction).toUnits
  let reserveOut : Rat := (pool.reserveOut direction).toUnits
  let afterFee := A * pool.multiplier
  0 ≤ A ∧ (halfUp A : Rat) ≤ A ∧
  reserveOut - reserveIn * reserveOut / (reserveIn + afterFee) ≤
    ⌊reserveOut * halfUp A / (reserveIn + halfUp A)⌋ + 1 / 2 - 1 / 2 / 10 ^ 12

/-- Neither amount is credited with more than it is, and the LP tokens of the deposit stay less
    than half a unit above its part of the supply, in whole units. -/
def FairDeposit (pool : AMMPool) (A0 A1 : Rat) : Prop :=
  (halfUp A0 : Rat) ≤ A0 ∧ (halfUp A1 : Rat) ≤ A1 ∧
  depositShare pool A0 A1 <
    ⌊depositShare pool (halfUp A0) (halfUp A1)⌋ + 1 / 2 - 1 / 2 / 10 ^ 12

/-- A reserve's part of the removal stays less than half a unit above its part for the whole units
    that leave the supply, in whole units, and does not end in half a unit. -/
def FairPart (pool : AMMPool) (reserve : Int) (Λ : Rat) : Prop :=
  removedPart pool reserve Λ <
    ⌊(reserve : Rat) * ⌈Λ - 1 / 2⌉ / pool.totalLiquidity.toUnits⌋ + 1 / 2 ∧
  Int.fract (removedPart pool reserve Λ) ≠ 1 / 2

/-- The amounts of a call are numbers, not negative, and rounded fairly; a removal's position is
    saved after its pool. -/
def Fair (pool : AMMPool) : Call User → Prop
  | .executeSwap _ dto => dto.amountIn.Holds fun a => FairSwap pool dto.direction (inUnits a)
  | .addLiquidity _ dto _ => dto.amount0.Holds fun a0 => dto.amount1.Holds fun a1 =>
      FairDeposit pool (inUnits a0) (inUnits a1)
  | .removeLiquidity _ dto _ positionSaved =>
    positionSaved = true ∧ dto.lpTokenAmount.Holds fun lp => 0 ≤ inUnits lp ∧
      FairPart pool pool.reserveToken0.toUnits (inUnits lp) ∧
      FairPart pool pool.reserveToken1.toUnits (inUnits lp)

instance (pool : AMMPool) (direction : SwapDirection) (A : Rat) :
    Decidable (FairSwap pool direction A) := inferInstanceAs (Decidable (_ ∧ _ ∧ _))

instance (pool : AMMPool) (A0 A1 : Rat) : Decidable (FairDeposit pool A0 A1) :=
  inferInstanceAs (Decidable (_ ∧ _ ∧ _))

instance (pool : AMMPool) (reserve : Int) (Λ : Rat) : Decidable (FairPart pool reserve Λ) :=
  inferInstanceAs (Decidable (_ ∧ _))

instance (pool : AMMPool) : ∀ call : Call User, Decidable (Fair pool call)
  | .executeSwap _ dto => inferInstanceAs (Decidable (dto.amountIn.Holds _))
  | .addLiquidity _ dto _ => inferInstanceAs (Decidable (dto.amount0.Holds _))
  | .removeLiquidity _ _ _ _ => inferInstanceAs (Decidable (_ ∧ _))

/-! ## What a share is worth -/

/-- A share of the second pool is worth at least one of the first: `r0 * r1 / L ^ 2` has not
    fallen. -/
def NotWorthLess (pool pool' : AMMPool) : Prop :=
  pool.reserve .token0 * pool.reserve .token1 * pool'.totalLiquidity.toUnits ^ 2 ≤
    pool'.reserve .token0 * pool'.reserve .token1 * pool.totalLiquidity.toUnits ^ 2

/-- The constant product with both reserves and the supply positive, and the positions within the
    supply. -/
structure Solvent (s : State User) : Prop where
  numeric : s.pool.IsNumeric
  fee : s.pool.FeeInRange
  model : s.pool.pricingModel = .constantProduct
  reserves : ∀ token, 0 < s.pool.reserve token
  valid : SharesValid s
  supply : sharesHeld s < s.pool.totalLiquidity.toUnits

theorem sharesHeld_nonneg {s : State User} (h : SharesValid s) : 0 ≤ sharesHeld s := by
  refine List.sum_nonneg fun n hn => ?_
  obtain ⟨position, hmem, rfl⟩ := List.mem_map.mp hn
  exact (h position hmem).2.1

theorem Solvent.liquidity_pos {s : State User} (h : Solvent s) :
    0 < s.pool.totalLiquidity.toUnits := lt_of_le_of_lt (sharesHeld_nonneg h.valid) h.supply

theorem NotWorthLess.refl (pool : AMMPool) : NotWorthLess pool pool := le_rfl

theorem NotWorthLess.trans {a b c : AMMPool} (hab : NotWorthLess a b) (hbc : NotWorthLess b c)
    (hb : 0 < b.totalLiquidity.toUnits) : NotWorthLess a c := by
  unfold NotWorthLess at *
  have hb2 : 0 < b.totalLiquidity.toUnits ^ 2 := by positivity
  refine le_of_mul_le_mul_right ?_ hb2
  calc _ = a.reserve .token0 * a.reserve .token1 * b.totalLiquidity.toUnits ^ 2 *
        c.totalLiquidity.toUnits ^ 2 := by ring
    _ ≤ b.reserve .token0 * b.reserve .token1 * a.totalLiquidity.toUnits ^ 2 *
        c.totalLiquidity.toUnits ^ 2 := mul_le_mul_of_nonneg_right hab (by positivity)
    _ = b.reserve .token0 * b.reserve .token1 * c.totalLiquidity.toUnits ^ 2 *
        a.totalLiquidity.toUnits ^ 2 := by ring
    _ ≤ c.reserve .token0 * c.reserve .token1 * b.totalLiquidity.toUnits ^ 2 *
        a.totalLiquidity.toUnits ^ 2 := mul_le_mul_of_nonneg_right hbc (by positivity)
    _ = _ := by ring

/-- Enough that neither reserve falls behind the supply. -/
theorem notWorthLess_of_reserves {pool pool' : AMMPool}
    (h0 : 0 ≤ pool.reserve .token0) (h1 : 0 ≤ pool.reserve .token1)
    (hl' : 0 ≤ pool'.totalLiquidity.toUnits)
    (h : ∀ token, pool.reserve token * pool'.totalLiquidity.toUnits ≤
      pool'.reserve token * pool.totalLiquidity.toUnits) : NotWorthLess pool pool' := by
  unfold NotWorthLess
  calc _ = pool.reserve .token0 * pool'.totalLiquidity.toUnits *
        (pool.reserve .token1 * pool'.totalLiquidity.toUnits) := by ring
    _ ≤ pool'.reserve .token0 * pool.totalLiquidity.toUnits *
        (pool'.reserve .token1 * pool.totalLiquidity.toUnits) :=
        mul_le_mul (h .token0) (h .token1) (by positivity) (le_trans (by positivity) (h .token0))
    _ = _ := by ring

/-- What a call does to a solvent pool. -/
structure Keeps [DecidableEq User] (s : State User) (call : Call User) (s' : State User) :
    Prop where
  solvent : Solvent s'
  worth : NotWorthLess s.pool s'.pool
  paid : ∀ token, (s'.pool.reserve token : Rat) ≤
    s.pool.reserve token - inUnits (gain s call token)

/-! ### A swap -/

theorem reserve_tokenIn (pool : AMMPool) (direction : SwapDirection) :
    pool.reserve direction.tokenIn = (pool.reserveIn direction).toUnits := by
  cases direction <;> rfl

/-- The two reserves, seen from a swap. -/
theorem forall_reserve_iff {P : Token → Prop} (direction : SwapDirection) :
    (∀ token, P token) ↔ P direction.tokenIn ∧ ∀ token, token ≠ direction.tokenIn → P token := by
  constructor
  · intro h; exact ⟨h _, fun token _ => h token⟩
  · rintro ⟨hin, hout⟩ token
    by_cases ht : token = direction.tokenIn
    · rw [ht]; exact hin
    · exact hout token ht

theorem reserve_out (pool : AMMPool) {direction : SwapDirection} {token : Token}
    (h : token ≠ direction.tokenIn) :
    pool.reserve token = (pool.reserveOut direction).toUnits := by
  cases direction <;> cases token <;> first | rfl | exact absurd rfl h

theorem reserves_product (pool : AMMPool) (direction : SwapDirection) :
    pool.reserve .token0 * pool.reserve .token1 =
      (pool.reserveIn direction).toUnits * (pool.reserveOut direction).toUnits := by
  cases direction with
  | token0ToToken1 => rfl
  | token1ToToken0 => exact mul_comm _ _

/-- Paying no more than the price without a fee keeps the product. -/
theorem product_kept {rin rout credited paid : Int}
    (h : paid * (rin + credited) ≤ rout * credited) :
    rin * rout ≤ (rin + credited) * (rout - paid) := by
  linarith

theorem swap_keeps [DecidableEq User] {s s' : State User} {userId : User} {dto : SwapDto}
    (h : next s (.executeSwap userId dto) = some s') (hs : Solvent s)
    (hfair : Fair s.pool (.executeSwap userId dto)) :
    Keeps s (.executeSwap userId dto) s' ∧
      s'.pool.totalLiquidity = s.pool.totalLiquidity := by
  obtain ⟨a, ha, hA, hcredit, hpay⟩ := BigNumber.Holds.exists_finite hfair
  obtain ⟨amountOut, hexec⟩ := next_executeSwap.mp h
  have hswap := executeSwap_ok hexec
  have hin : 0 < (s.pool.reserveIn dto.direction).toUnits := by
    rw [← reserve_tokenIn]
    exact hs.reserves _
  have hout : 0 < (s.pool.reserveOut dto.direction).toUnits := by
    have hprod := mul_pos (hs.reserves .token0) (hs.reserves .token1)
    rw [reserves_product _ dto.direction] at hprod
    exact pos_of_mul_pos_right hprod hin.le
  have hin' : (0 : Rat) < (s.pool.reserveIn dto.direction).toUnits := by exact_mod_cast hin
  have hout' : (0 : Rat) < (s.pool.reserveOut dto.direction).toUnits := by exact_mod_cast hout
  have hm := AMMPool.multiplier_pos hs.fee
  have hafter : 0 ≤ inUnits a * s.pool.multiplier := by positivity
  have hpriced : Priced s.pool dto.direction (inUnits a) := by
    unfold Priced
    rw [hs.model]
    exact ne_of_gt (by linarith)
  obtain ⟨hn', hval, hrin, hrout⟩ := hswap.units hs.numeric ha hpriced
  have hcredited : 0 ≤ halfUp (inUnits a) := halfUp_nonneg hA
  have hcredited' : (0 : Rat) ≤ halfUp (inUnits a) := by exact_mod_cast hcredited
  rw [halfUp_intAdd hA (by linarith)] at hrin
  -- the payout is at most what the amount credited is worth without a fee
  have hpaid : halfUp (payout s.pool dto.direction (inUnits a)) *
      ((s.pool.reserveIn dto.direction).toUnits + halfUp (inUnits a)) ≤
        (s.pool.reserveOut dto.direction).toUnits * halfUp (inUnits a) := by
    have hle := (constantProduct_payout_le_iff hs.model (by positivity)
      (Int.floor_nonneg.mpr (by positivity))).mpr hpay
    have hsum : (0 : Rat) < (s.pool.reserveIn dto.direction).toUnits + halfUp (inUnits a) := by
      linarith
    rw [Int.le_floor, le_div_iff₀ hsum] at hle
    exact_mod_cast hle
  have hpayout := halfUp_nonneg
    (constantProduct_payout_nonneg hs.model hs.fee hin hout.le hA)
  have hkept := product_kept hpaid
  rw [← hrin, ← hrout] at hkept
  have hin1 : 0 < (s'.pool.reserveIn dto.direction).toUnits := by omega
  have hout1 : 0 < (s'.pool.reserveOut dto.direction).toUnits :=
    pos_of_mul_pos_right (lt_of_lt_of_le (mul_pos hin hout) hkept) hin1.le
  refine ⟨⟨⟨hn', ?_, ?_, ?_, ?_, ?_⟩, ?_, ?_⟩, hswap.liquidity⟩
  · unfold AMMPool.FeeInRange
    rw [hswap.fee]
    exact hs.fee
  · rw [hswap.pricingModel]
    exact hs.model
  · refine (forall_reserve_iff dto.direction).mpr ⟨?_, fun token ht => ?_⟩
    · rw [reserve_tokenIn]; exact hin1
    · rw [reserve_out _ ht]; exact hout1
  · unfold SharesValid
    rw [hswap.positions]
    exact hs.valid
  · unfold sharesHeld
    rw [hswap.positions, hswap.liquidity]
    exact hs.supply
  · unfold NotWorthLess
    rw [hswap.liquidity, reserves_product _ dto.direction, reserves_product _ dto.direction]
    exact mul_le_mul_of_nonneg_right hkept (by positivity)
  · refine (forall_reserve_iff dto.direction).mpr ⟨?_, fun token ht => ?_⟩
    · simp only [gain, hexec, if_pos, ha, BigNumber.value_finite, reserve_tokenIn, hrin]
      rw [inUnits_neg]
      push_cast
      linarith
    · simp only [gain, hexec, if_neg ht, hval, BigNumber.value_finite, reserve_out _ ht, hrout]
      rw [inUnits_div]
      push_cast
      exact le_rfl

/-! ### A deposit -/

theorem depositShare_nonneg {pool : AMMPool} {A0 A1 : Rat} (hl : 0 ≤ pool.totalLiquidity.toUnits)
    (hr : ∀ token, 0 < pool.reserve token) (h0 : 0 ≤ A0) (h1 : 0 ≤ A1) :
    0 ≤ depositShare pool A0 A1 := by
  have hl' : (0 : Rat) ≤ pool.totalLiquidity.toUnits := by exact_mod_cast hl
  have hr0 : (0 : Rat) < pool.reserveToken0.toUnits := by exact_mod_cast hr .token0
  have hr1 : (0 : Rat) < pool.reserveToken1.toUnits := by exact_mod_cast hr .token1
  exact le_min (by positivity) (by positivity)

/-- Of either token, the deposit is worth at least its share. -/
theorem depositShare_mul_le {pool : AMMPool} {A0 A1 : Rat} (hr : ∀ token, 0 < pool.reserve token)
    (token : Token) : depositShare pool A0 A1 * pool.reserve token ≤
      token.pick A0 A1 * pool.totalLiquidity.toUnits := by
  have hpos : (0 : Rat) < pool.reserve token := by exact_mod_cast hr token
  rw [← le_div_iff₀ hpos]
  cases token with
  | token0 => exact min_le_left _ _
  | token1 => exact min_le_right _ _

theorem deposit_keeps [DecidableEq User] {s s' : State User} {userId : User}
    {dto : AddLiquidityDto} {positionSaved : Bool}
    (h : next s (.addLiquidity userId dto positionSaved) = some s') (hs : Solvent s)
    (hfair : Fair s.pool (.addLiquidity userId dto positionSaved)) :
    Keeps s (.addLiquidity userId dto positionSaved) s' := by
  obtain ⟨a0, ha0, hfair⟩ := BigNumber.Holds.exists_finite hfair
  obtain ⟨a1, ha1, hcredit0, hcredit1, hshare⟩ := BigNumber.Holds.exists_finite hfair
  obtain ⟨lpTokens, hexec⟩ := next_addLiquidity.mp h
  have hadd := addLiquidity_ok hexec
  obtain ⟨h0, h1, hn', hr0, hr1, hl⟩ := hadd.units hs.numeric ha0 ha1
  have hA0 : 0 ≤ inUnits a0 := by unfold inUnits; positivity
  have hA1 : 0 ≤ inUnits a1 := by unfold inUnits; positivity
  have hc0 := halfUp_nonneg hA0
  have hc1 := halfUp_nonneg hA1
  have hlpos := hs.liquidity_pos
  have hpos (token : Token) : (0 : Rat) < s.pool.reserve token := by
    exact_mod_cast hs.reserves token
  have hreserve (token : Token) : s'.pool.reserve token =
      s.pool.reserve token + token.pick (halfUp (inUnits a0)) (halfUp (inUnits a1)) := by
    cases token with
    | token0 =>
      have := hpos .token0
      exact hr0.trans (halfUp_intAdd hA0 (by unfold AMMPool.reserve Token.pick at this; linarith))
    | token1 =>
      have := hpos .token1
      exact hr1.trans (halfUp_intAdd hA1 (by unfold AMMPool.reserve Token.pick at this; linarith))
  have hminted : minted s.pool a0 a1 =
      halfUp (roundTo 12 (depositShare s.pool (inUnits a0) (inUnits a1))) :=
    if_neg (not_or.mpr ⟨(hs.reserves .token0).ne', (hs.reserves .token1).ne'⟩)
  have hminted0 : 0 ≤ minted s.pool a0 a1 := by
    rw [hminted]
    exact halfUp_nonneg (roundTo_nonneg (depositShare_nonneg hlpos.le hs.reserves hA0 hA1))
  -- the LP tokens are at most the part of the supply that the amounts credited stand for
  have hle : (minted s.pool a0 a1 : Rat) ≤
      depositShare s.pool (halfUp (inUnits a0)) (halfUp (inUnits a1)) := by
    rw [← Int.le_floor, hminted]
    refine (halfUp_roundTo_le_iff (by norm_num) (Int.floor_nonneg.mpr ?_)).mpr hshare
    exact depositShare_nonneg hlpos.le hs.reserves (by exact_mod_cast hc0) (by exact_mod_cast hc1)
  have hpart (token : Token) : minted s.pool a0 a1 * s.pool.reserve token ≤
      token.pick (halfUp (inUnits a0)) (halfUp (inUnits a1)) * s.pool.totalLiquidity.toUnits := by
    have hmul := le_trans (mul_le_mul_of_nonneg_right hle (hpos token).le)
      (depositShare_mul_le hs.reserves token)
    cases token <;> simp only [Token.pick] at hmul ⊢ <;> exact_mod_cast hmul
  obtain ⟨hvalid, hheld⟩ := hadd.shares hs.numeric ha0 ha1 hminted0 hs.valid
  have hsupply := hs.supply
  refine ⟨⟨hn', ?_, ?_, fun token => ?_, hvalid, ?_⟩, ?_, fun token => ?_⟩
  · unfold AMMPool.FeeInRange
    rw [hadd.fee]
    exact hs.fee
  · rw [hadd.pricingModel]
    exact hs.model
  · have := hs.reserves token
    rw [hreserve]
    cases token <;> simp only [Token.pick] <;> omega
  · rcases hheld with ⟨hheld, _⟩ | ⟨hheld, _⟩ <;> omega
  · refine notWorthLess_of_reserves (hs.reserves .token0).le (hs.reserves .token1).le (by omega)
      fun token => ?_
    rw [hl, hreserve, mul_add, add_mul]
    have := hpart token
    linarith
  · rw [hreserve]
    cases token with
    | token0 =>
      simp only [gain, Token.pick, ha0, BigNumber.value_finite]
      rw [inUnits_neg]
      push_cast
      linarith
    | token1 =>
      simp only [gain, Token.pick, ha1, BigNumber.value_finite]
      rw [inUnits_neg]
      push_cast
      linarith

/-! ### A removal -/

/-- What a fair part leaves in the reserve: all of the rest, and as much as the supply keeps. -/
theorem FairPart.left {pool : AMMPool} {reserve : Int} {Λ : Rat} (h : FairPart pool reserve Λ)
    (hr : 0 ≤ reserve) (hl : 0 < pool.totalLiquidity.toUnits) (hΛ : 0 ≤ Λ)
    (hle : Λ ≤ pool.totalLiquidity.toUnits) :
    halfUp (reserve - removedPart pool reserve Λ) =
      reserve - halfUp (removedPart pool reserve Λ) ∧
    reserve * halfUp (pool.totalLiquidity.toUnits - Λ) ≤
      halfUp (reserve - removedPart pool reserve Λ) * pool.totalLiquidity.toUnits := by
  have hsub := halfUp_intSub (n := reserve) h.2
  refine ⟨hsub, ?_⟩
  have hr' : (0 : Rat) ≤ reserve := by exact_mod_cast hr
  have hl' : (0 : Rat) < pool.totalLiquidity.toUnits := by exact_mod_cast hl
  have hceil : (0 : Rat) ≤ ⌈Λ - 1 / 2⌉ := by
    exact_mod_cast Int.ceil_nonneg_of_neg_one_lt (by linarith)
  have hle' := (halfUp_le_iff (Int.floor_nonneg.mpr (by positivity))).mpr h.1
  rw [Int.le_floor, le_div_iff₀ hl'] at hle'
  have hpart : halfUp (removedPart pool reserve Λ) * pool.totalLiquidity.toUnits ≤
      reserve * ⌈Λ - 1 / 2⌉ := by exact_mod_cast hle'
  rw [hsub, halfUp_intSub_ceil hle, sub_mul, mul_sub]
  linarith

theorem removal_keeps [DecidableEq User] {s s' : State User} {userId : User}
    {dto : RemoveLiquidityDto} {found : Nat} {positionSaved : Bool}
    (h : next s (.removeLiquidity userId dto found positionSaved) = some s') (hs : Solvent s)
    (hfair : Fair s.pool (.removeLiquidity userId dto found positionSaved)) :
    Keeps s (.removeLiquidity userId dto found positionSaved) s' := by
  obtain ⟨rfl, hfair⟩ := hfair
  obtain ⟨lp, hlp, hΛ, hfair0, hfair1⟩ := BigNumber.Holds.exists_finite hfair
  obtain ⟨amounts, hexec⟩ := next_removeLiquidity.mp h
  obtain ⟨position, hrem⟩ := removeLiquidity_ok hexec
  have hlpos := hs.liquidity_pos
  have hmem := List.mem_of_getElem? hrem.found_eq
  have hle : inUnits lp ≤ s.pool.totalLiquidity.toUnits := by
    have hheld := le_trans (hs.valid.le_held hmem) hs.supply.le
    have hheld' : (position.lpTokenAmount.toUnits : Rat) ≤ s.pool.totalLiquidity.toUnits := by
      exact_mod_cast hheld
    exact le_trans (hrem.le_position hlp (hs.valid position hmem).1) hheld'
  obtain ⟨hn', hr0, hr1, hl⟩ := hrem.units hs.numeric hlp hlpos.ne'
  obtain ⟨hvalid, hsome, hheld⟩ := hrem.shares hs.numeric hlp hlpos.ne' hs.valid hs.supply.le
  have hamounts := hrem.amounts hs.numeric hlp hlpos.ne' hsome
  have hleft (token : Token) : s'.pool.reserve token =
        s.pool.reserve token - halfUp (removedPart s.pool (s.pool.reserve token) (inUnits lp)) ∧
      s.pool.reserve token * s'.pool.totalLiquidity.toUnits ≤
        s'.pool.reserve token * s.pool.totalLiquidity.toUnits := by
    have hpos := (hs.reserves token).le
    cases token with
    | token0 =>
      obtain ⟨hrest, hkept⟩ := hfair0.left hpos hlpos hΛ hle
      exact ⟨hr0.trans hrest, by rw [hl]; exact hkept.trans_eq (by rw [← hr0]; rfl)⟩
    | token1 =>
      obtain ⟨hrest, hkept⟩ := hfair1.left hpos hlpos hΛ hle
      exact ⟨hr1.trans hrest, by rw [hl]; exact hkept.trans_eq (by rw [← hr1]; rfl)⟩
  have hsupply := hs.supply
  have hlpos' : 0 < s'.pool.totalLiquidity.toUnits := by
    have := sharesHeld_nonneg hvalid
    omega
  refine ⟨⟨hn', ?_, ?_, fun token => ?_, hvalid, by omega⟩, ?_, fun token => ?_⟩
  · unfold AMMPool.FeeInRange
    rw [hrem.fee]
    exact hs.fee
  · rw [hrem.pricingModel]
    exact hs.model
  · exact pos_of_mul_pos_left
      (lt_of_lt_of_le (mul_pos (hs.reserves token) hlpos') (hleft token).2) hlpos.le
  · exact notWorthLess_of_reserves (hs.reserves .token0).le (hs.reserves .token1).le hlpos'.le
      fun token => (hleft token).2
  · rw [(hleft token).1]
    simp only [gain, hexec, hamounts]
    cases token with
    | token0 =>
      simp only [Token.pick, BigNumber.value_finite, inUnits_div]
      push_cast
      exact le_rfl
    | token1 =>
      simp only [Token.pick, BigNumber.value_finite, inUnits_div]
      push_cast
      exact le_rfl

/-! ## Runs -/

theorem call_keeps [DecidableEq User] {s s' : State User} {call : Call User}
    (h : next s call = some s') (hs : Solvent s) (hfair : Fair s.pool call) : Keeps s call s' := by
  cases call with
  | executeSwap userId dto => exact (swap_keeps h hs hfair).1
  | addLiquidity userId dto positionSaved => exact deposit_keeps h hs hfair
  | removeLiquidity userId dto found positionSaved => exact removal_keeps h hs hfair

section Run

variable [DecidableEq User] {s t : State User} {xs : List (Step (State User) (Call User))}

@[simp] theorem gains_nil (who : User → Bool) (token : Token) : gains who token [] = 0 := rfl

theorem gains_cons (who : User → Bool) (token : Token) (x : Step (State User) (Call User))
    (xs : List (Step (State User) (Call User))) :
    gains who token (x :: xs) =
      (if who x.act.userId then gain x.pre x.act token else 0) + gains who token xs := by
  unfold gains
  cases hwho : who x.act.userId <;> simp [hwho]

/-- What one user gets and what the others get is what all of them get. -/
theorem gains_split (userId : User) (token : Token) (xs : List (Step (State User) (Call User))) :
    gains (· = userId) token xs + gains (· ≠ userId) token xs = gains (fun _ => true) token xs := by
  induction xs with
  | nil => simp
  | cons x xs ih =>
    rw [gains_cons, gains_cons, gains_cons, ← ih]
    by_cases hx : x.act.userId = userId <;> simp [hx] <;> ring

/-- A solvent pool stays solvent, a share keeps its worth, and what the callers get has left the
    reserves. -/
theorem run_keeps (hrun : Run next s xs t) (hs : Solvent s)
    (hfair : ∀ x ∈ xs, Fair x.pre.pool x.act) :
    Solvent t ∧ NotWorthLess s.pool t.pool ∧ ∀ token, (t.pool.reserve token : Rat) ≤
      s.pool.reserve token - inUnits (gains (fun _ => true) token xs) := by
  induction hrun with
  | nil s => exact ⟨hs, .refl _, fun token => by simp [inUnits]⟩
  | cons hstep hrest ih =>
    have hkeeps := call_keeps hstep hs (hfair _ (List.mem_cons_self ..))
    obtain ⟨ht, hworth, hpaid⟩ := ih hkeeps.solvent
      fun x hx => hfair x (List.mem_cons_of_mem _ hx)
    refine ⟨ht, hkeeps.worth.trans hworth hkeeps.solvent.liquidity_pos, fun token => ?_⟩
    have hfirst := hkeeps.paid token
    have hlater := hpaid token
    rw [gains_cons, if_pos rfl]
    unfold inUnits at *
    linarith

end Run

/-- The calls `ys` lead from `s` to `t` without a loss: both reserves are funded while there are LP
    tokens, no swap takes from the product, and with the supply back where it was nobody has got
    more of both tokens than he put in, unless the others have put in more of one than they got. -/
structure WithoutLoss [DecidableEq User] (s : State User)
    (ys : List (Step (State User) (Call User))) (t : State User) : Prop where
  funded : 0 < t.pool.totalLiquidity.toUnits → ∀ token, 0 < t.pool.reserve token
  product : ∀ x ∈ ys, (∃ userId dto, x.act = .executeSwap userId dto) →
    x.pre.pool.reserve .token0 * x.pre.pool.reserve .token1 ≤
      x.post.pool.reserve .token0 * x.post.pool.reserve .token1
  profit : t.pool.totalLiquidity = s.pool.totalLiquidity → ∀ userId,
    (∀ token, 0 ≤ gains (· ≠ userId) token ys) → ¬ ∀ token, 0 < gains (· = userId) token ys

/-- Both reserves a pool opens with are at least half a unit. -/
def OpensFunded (dto : CreatePoolDto) : Prop :=
  dto.reserveToken0.Holds (fun r => 1 / 2 ≤ inUnits r) ∧
    dto.reserveToken1.Holds fun r => 1 / 2 ≤ inUnits r

instance (dto : CreatePoolDto) : Decidable (OpensFunded dto) :=
  inferInstanceAs (Decidable (_ ∧ _))

theorem Opened.solvent {dto : CreatePoolDto} {s : State User} (h : Opened dto s)
    (hmodel : dto.pricingModel.getD .constantProduct = .constantProduct)
    (hfunded : OpensFunded dto) : Solvent s := by
  obtain ⟨r0, h0, hr0⟩ := BigNumber.Holds.exists_finite hfunded.1
  obtain ⟨r1, h1, hr1⟩ := BigNumber.Holds.exists_finite hfunded.2
  obtain ⟨hn, hpos0, hpos1, hl⟩ := h.units h0 h1 hr0 hr1
  have hnone : ∀ position, position ∉ s.positions := by
    rw [h.positions]
    exact fun position => List.not_mem_nil
  refine ⟨hn, h.feeInRange.2, h.pricingModel.trans hmodel, fun token => ?_,
    fun position hmem => absurd hmem (hnone position), ?_⟩
  · cases token
    · exact hpos0
    · exact hpos1
  · simpa [sharesHeld, h.positions] using hl

theorem constant_product_solvent [DecidableEq User] {dto : CreatePoolDto} {dealFound : Bool}
    {start s t : State User} {xs ys : List (Step (State User) (Call User))}
    (hopen : createPool dto dealFound = .ok start)
    (hmodel : dto.pricingModel.getD .constantProduct = .constantProduct)
    (hfunded : OpensFunded dto) (hxs : Run next start xs s) (hys : Run next s ys t)
    (hfair : ∀ x ∈ xs ++ ys, Fair x.pre.pool x.act) : WithoutLoss s ys t := by
  have hstart := (createPool_ok hopen).solvent hmodel hfunded
  obtain ⟨hs, -, -⟩ := run_keeps hxs hstart fun x hx => hfair x (List.mem_append_left _ hx)
  have hfair' : ∀ x ∈ ys, Fair x.pre.pool x.act := fun x hx =>
    hfair x (List.mem_append_right _ hx)
  obtain ⟨ht, hworth, hpaid⟩ := run_keeps hys hs hfair'
  constructor
  case funded => exact fun _ => ht.reserves
  case product =>
    rintro x hx ⟨userId, swap, hact⟩
    obtain ⟨hn, hpre, -⟩ := hys.steps_invariant Solvent hs
      (fun x hx hn hpre => (call_keeps hn hpre (hfair' x hx)).solvent) x hx
    have hfairx := hfair' x hx
    rw [hact] at hn hfairx
    obtain ⟨hkeeps, hsame⟩ := swap_keeps hn hpre hfairx
    have hkept := hkeeps.worth
    unfold NotWorthLess at hkept
    rw [hsame] at hkept
    exact le_of_mul_le_mul_right hkept (pow_pos hpre.liquidity_pos 2)
  case profit =>
    intro hsame userId hothers hprofit
    unfold NotWorthLess at hworth
    rw [hsame] at hworth
    have hproduct := le_of_mul_le_mul_right hworth (pow_pos hs.liquidity_pos 2)
    have hless (token : Token) : t.pool.reserve token < s.pool.reserve token := by
      have hall := hpaid token
      have hsum := gains_split userId token ys
      have h1 := hothers token
      have h2 := hprofit token
      unfold inUnits at hall
      have : (t.pool.reserve token : Rat) < s.pool.reserve token := by linarith
      exact_mod_cast this
    exact absurd hproduct (not_le.mpr (mul_lt_mul'' (hless .token0) (hless .token1)
      (ht.reserves .token0).le (ht.reserves .token1).le))

/-- A pool of a hundred of both tokens, at a fee of 0.3%. -/
def hundreds (pricingModel : PricingModel) : CreatePoolDto :=
  ⟨.finite 100, .finite 100, 3 / 10, some pricingModel⟩

def hundredsPool (pricingModel : PricingModel) : State Nat where
  pool :=
    { reserveToken0 := .units (10 ^ 10) (by decide)
      reserveToken1 := .units (10 ^ 10) (by decide)
      feePercentage := .units 3000 (by decide)
      accumulatedFees0 := .units 0 (by decide)
      accumulatedFees1 := .units 0 (by decide)
      pricingModel
      status := .active
      totalLiquidity := .units (10 ^ 10) (by decide)
      totalVolume24h := .units 0 (by decide) }
  positions := []

def swapOf (userId : Nat) (direction : SwapDirection) (amountIn : Rat) : Call Nat :=
  .executeSwap userId ⟨.finite amountIn, direction, none, none⟩

def depositOf (userId : Nat) (amount0 amount1 : Rat) : Call Nat :=
  .addLiquidity userId ⟨.finite amount0, .finite amount1, none⟩ true

def removalOf (userId found : Nat) (lpTokenAmount : Rat) : Call Nat :=
  .removeLiquidity userId ⟨.finite lpTokenAmount, none, none⟩ found true

/-- One user swaps, another joins the pool and leaves it again. -/
def fairCalls : List (Call Nat) :=
  [swapOf 1 .token0ToToken1 10, depositOf 2 11 10, removalOf 2 0 3, swapOf 1 .token1ToToken0 3]

theorem constant_product_solvent_sample :
    (replay next (hundredsPool .constantProduct) fairCalls).1.length = 4 ∧
    WithoutLoss (hundredsPool .constantProduct)
      (replay next (hundredsPool .constantProduct) fairCalls).1
      (replay next (hundredsPool .constantProduct) fairCalls).2 := by
  have hopen : createPool (hundreds .constantProduct) true = .ok (hundredsPool .constantProduct) :=
    by decide +kernel
  have hrun := run_replay next (hundredsPool .constantProduct) fairCalls
  exact ⟨by decide +kernel, constant_product_solvent hopen rfl (by decide +kernel) (.nil _) hrun
    (by decide +kernel)⟩

/-- Take fifty of a token for a swap of minus fifty, then sell them at the pool's new price. -/
def negativeSwap : List (Call Nat) :=
  [swapOf 1 .token0ToToken1 (-50), swapOf 1 .token0ToToken1 (499 / 10)]

/-- A swap of minus the reserve. -/
def drainingSwap : List (Call Nat) := [swapOf 1 .token0ToToken1 (-100)]

/-- A swap of the smallest amount: its payout is rounded up to as much. -/
def smallestSwap : List (Call Nat) := [swapOf 1 .token0ToToken1 (1 / 10 ^ 8)]

theorem constant_product_loss :
    createPool (hundreds .constantProduct) true = .ok (hundredsPool .constantProduct) ∧
    (∃ ys t, Run next (hundredsPool .constantProduct) ys t ∧
      0 < t.pool.totalLiquidity.toUnits ∧ t.pool.reserve .token0 = 0) ∧
    (∃ ys t, Run next (hundredsPool .constantProduct) ys t ∧
      t.pool.totalLiquidity = (hundredsPool .constantProduct).pool.totalLiquidity ∧
      (∀ x ∈ ys, x.act.userId = 1) ∧ 0 < gains (· = 1) .token0 ys ∧
      0 < gains (· = 1) .token1 ys) ∧
    ∃ ys t, Run next (hundredsPool .constantProduct) ys t ∧
      ∃ x ∈ ys, x.post.pool.reserve .token0 * x.post.pool.reserve .token1 <
        x.pre.pool.reserve .token0 * x.pre.pool.reserve .token1 := by
  have hdrain := run_replay next (hundredsPool .constantProduct) drainingSwap
  have hprofit := run_replay next (hundredsPool .constantProduct) negativeSwap
  have hsmall := run_replay next (hundredsPool .constantProduct) smallestSwap
  exact ⟨by decide +kernel, ⟨_, _, hdrain, by decide +kernel, by decide +kernel⟩,
    ⟨_, _, hprofit, by decide +kernel, by decide +kernel, by decide +kernel, by decide +kernel⟩,
    ⟨_, _, hsmall, by decide +kernel⟩⟩

end AgriFi.Amm
