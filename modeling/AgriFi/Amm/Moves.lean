import AgriFi.Amm.Service

/-
  What each call does to the pool and the positions, in the terms of the code: the inversions of
  `createPool`, `executeSwap`, `addLiquidity` and `removeLiquidity`.
-/

namespace AgriFi.Amm

open AgriFi.Decimal AgriFi.Runs AgriFi.Soroban

variable {User : Type}

@[simp] theorem save_bind_eq_ok {precision scale : Nat} {a : BigNumber} {β : Type}
    {f : Numeric precision scale → Except AmmError β} {b : β} :
    (save a >>= f) = .ok b ↔ ∃ c, Numeric.store a = some c ∧ f c = .ok b := by
  unfold save
  cases Numeric.store a <;> simp

theorem save_eq_ok {precision scale : Nat} {a : BigNumber} {c : Numeric precision scale} :
    save a = .ok c ↔ Numeric.store a = some c := by
  unfold save
  cases Numeric.store a <;> simp

namespace AMMPool

def reserveIn (pool : AMMPool) : SwapDirection → Amount
  | .token0ToToken1 => pool.reserveToken0
  | .token1ToToken0 => pool.reserveToken1

def reserveOut (pool : AMMPool) : SwapDirection → Amount
  | .token0ToToken1 => pool.reserveToken1
  | .token1ToToken0 => pool.reserveToken0

/-- The LP tokens of a deposit. -/
def lpTokens (pool : AMMPool) (amount0 amount1 : BigNumber) : BigNumber :=
  calculateLpTokens pool.reserveToken0.read pool.reserveToken1.read amount0 amount1
    pool.totalLiquidity.read

end AMMPool

/-! ## Opening a pool -/

structure Opened (dto : CreatePoolDto) (s : State User) : Prop where
  fee_range : 0 ≤ dto.feePercentage ∧ dto.feePercentage ≤ 100
  positive0 : dto.reserveToken0.isLessThanOrEqualTo (.ofInt 0) = false
  positive1 : dto.reserveToken1.isLessThanOrEqualTo (.ofInt 0) = false
  reserve0 : Numeric.store dto.reserveToken0 = some s.pool.reserveToken0
  reserve1 : Numeric.store dto.reserveToken1 = some s.pool.reserveToken1
  liquidity : Numeric.store (dto.reserveToken0.multipliedBy dto.reserveToken1).sqrt =
    some s.pool.totalLiquidity
  fee : Numeric.store (.finite (if dto.feePercentage = 0 then 3 / 10 else dto.feePercentage)) =
    some s.pool.feePercentage
  pricingModel : s.pool.pricingModel = dto.pricingModel.getD .constantProduct
  positions : s.positions = []

theorem createPool_ok {dto : CreatePoolDto} {dealFound : Bool} {s : State User}
    (h : createPool dto dealFound = .ok s) : Opened dto s := by
  unfold createPool at h
  simp only [failIf_bind_eq_ok, save_bind_eq_ok, Numeric.store_toFixed, pure_eq_ok] at h
  obtain ⟨hfee, _, hpos, r0, h0, r1, h1, fee, hf, liq, hl, zero, _, heq⟩ := h
  cases heq
  simp only [Bool.not_eq_true, Bool.or_eq_false_iff] at hpos
  push Not at hfee
  exact ⟨hfee, hpos.1, hpos.2, h0, h1, hl, hf, rfl, rfl⟩

/-! ## A swap -/

/-- What a swap does. -/
structure Swapped (s : State User) (dto : SwapDto) (s' : State User) (amountOut : BigNumber) :
    Prop where
  amountOut_eq : amountOut = (quote s.pool dto.direction dto.amountIn).amountOut
  reserveIn : Numeric.store ((s.pool.reserveIn dto.direction).read.plus dto.amountIn) =
    some (s'.pool.reserveIn dto.direction)
  reserveOut : Numeric.store ((s.pool.reserveOut dto.direction).read.minus amountOut) =
    some (s'.pool.reserveOut dto.direction)
  liquidity : s'.pool.totalLiquidity = s.pool.totalLiquidity
  fee : s'.pool.feePercentage = s.pool.feePercentage
  pricingModel : s'.pool.pricingModel = s.pool.pricingModel
  positions : s'.positions = s.positions

theorem executeSwap_ok {s s' : State User} {dto : SwapDto} {amountOut : BigNumber}
    (h : executeSwap s dto = .ok (s', amountOut)) : Swapped s dto s' amountOut := by
  unfold executeSwap at h
  simp only [failIf_bind_eq_ok, save_bind_eq_ok, Numeric.store_toFixed] at h
  obtain ⟨_, _, _, h⟩ := h
  cases hd : dto.direction with
  | token0ToToken1 =>
    simp only [hd, save_bind_eq_ok, Numeric.store_toFixed, pure_eq_ok] at h
    obtain ⟨r0, h0, r1, h1, _, _, heq⟩ := h
    cases heq
    exact ⟨by rw [hd], by rw [hd]; exact h0, by rw [hd]; exact h1, rfl, rfl, rfl, rfl⟩
  | token1ToToken0 =>
    simp only [hd, save_bind_eq_ok, Numeric.store_toFixed, pure_eq_ok] at h
    obtain ⟨r0, h0, r1, h1, _, _, heq⟩ := h
    cases heq
    exact ⟨by rw [hd], by rw [hd]; exact h1, by rw [hd]; exact h0, rfl, rfl, rfl, rfl⟩

/-! ## A deposit -/

/-- What a deposit does. -/
structure Added (s : State User) (dto : AddLiquidityDto) (userId : User) (positionSaved : Bool)
    (s' : State User) (lpTokens : Option BigNumber) : Prop where
  positive0 : dto.amount0.isLessThanOrEqualTo (.ofInt 0) = false
  positive1 : dto.amount1.isLessThanOrEqualTo (.ofInt 0) = false
  reserve0 : Numeric.store (s.pool.reserveToken0.read.plus dto.amount0) = some s'.pool.reserveToken0
  reserve1 : Numeric.store (s.pool.reserveToken1.read.plus dto.amount1) = some s'.pool.reserveToken1
  liquidity : Numeric.store
      (s.pool.totalLiquidity.read.plus (s.pool.lpTokens dto.amount0 dto.amount1)) =
    some s'.pool.totalLiquidity
  fee : s'.pool.feePercentage = s.pool.feePercentage
  pricingModel : s'.pool.pricingModel = s.pool.pricingModel
  positions :
    (∃ position, positionSaved = true ∧
      createPosition userId (s.pool.lpTokens dto.amount0 dto.amount1) dto.amount0 dto.amount1 =
        .ok position ∧
      s'.positions = s.positions ++ [position] ∧
      lpTokens = some (s.pool.lpTokens dto.amount0 dto.amount1)) ∨
    (¬ (positionSaved = true ∧ ∃ position,
      createPosition userId (s.pool.lpTokens dto.amount0 dto.amount1) dto.amount0 dto.amount1 =
        .ok position) ∧ s'.positions = s.positions ∧ lpTokens = none)

theorem addLiquidity_ok {s s' : State User} {dto : AddLiquidityDto} {userId : User}
    {positionSaved : Bool} {lpTokens : Option BigNumber}
    (h : addLiquidity s dto userId positionSaved = .ok (s', lpTokens)) :
    Added s dto userId positionSaved s' lpTokens := by
  unfold addLiquidity at h
  simp only [failIf_bind_eq_ok, save_bind_eq_ok, Numeric.store_toFixed] at h
  obtain ⟨_, hpos, _, r0, h0, r1, h1, l, hl, h⟩ := h
  simp only [Bool.not_eq_true, Bool.or_eq_false_iff] at hpos
  rw [← AMMPool.lpTokens] at hl h
  split at h
  · rename_i position hposition
    cases h
    exact ⟨hpos.1, hpos.2, h0, h1, hl, rfl, rfl, .inl ⟨position, rfl, hposition, rfl, rfl⟩⟩
  · rename_i hnone
    cases h
    refine ⟨hpos.1, hpos.2, h0, h1, hl, rfl, rfl, .inr ⟨?_, rfl, rfl⟩⟩
    rintro ⟨htrue, position, hposition⟩
    exact hnone position htrue hposition

/-! ## A removal -/

/-- The part of the pool that `lpTokens` stand for. -/
def AMMPool.proportion (pool : AMMPool) (lpTokens : BigNumber) : BigNumber :=
  lpTokens.div pool.totalLiquidity.read

/-- What a removal from `position` does. -/
structure Removed (s : State User) (dto : RemoveLiquidityDto) (userId : User) (found : Nat)
    (positionSaved : Bool) (position : AMMLiquidityPosition User) (s' : State User)
    (amounts : Option (BigNumber × BigNumber)) : Prop where
  found_eq : s.positions[found]? = some position
  owner : position.userId = userId
  active : position.isActive = true
  enough : dto.lpTokenAmount.isGreaterThan position.lpTokenAmount.read = false
  reserve0 : Numeric.store (s.pool.reserveToken0.read.minus
    (s.pool.reserveToken0.read.multipliedBy (s.pool.proportion dto.lpTokenAmount))) =
      some s'.pool.reserveToken0
  reserve1 : Numeric.store (s.pool.reserveToken1.read.minus
    (s.pool.reserveToken1.read.multipliedBy (s.pool.proportion dto.lpTokenAmount))) =
      some s'.pool.reserveToken1
  liquidity : Numeric.store (s.pool.totalLiquidity.read.minus dto.lpTokenAmount) =
    some s'.pool.totalLiquidity
  fee : s'.pool.feePercentage = s.pool.feePercentage
  pricingModel : s'.pool.pricingModel = s.pool.pricingModel
  positions :
    (∃ lpTokenAmount : Amount, positionSaved = true ∧
      Numeric.store (position.lpTokenAmount.read.minus dto.lpTokenAmount) = some lpTokenAmount ∧
      s'.positions = s.positions.set found
        { position with lpTokenAmount, isActive := !lpTokenAmount.read.isZero } ∧
      amounts = some
        ((s.pool.reserveToken0.read.multipliedBy (s.pool.proportion dto.lpTokenAmount)).toFixed 8,
         (s.pool.reserveToken1.read.multipliedBy (s.pool.proportion dto.lpTokenAmount)).toFixed 8)) ∨
    (¬ (positionSaved = true ∧ ∃ lpTokenAmount : Amount,
      Numeric.store (position.lpTokenAmount.read.minus dto.lpTokenAmount) = some lpTokenAmount) ∧
      s'.positions = s.positions ∧ amounts = none)

theorem removeLiquidity_ok [DecidableEq User] {s s' : State User} {dto : RemoveLiquidityDto}
    {userId : User} {found : Nat} {positionSaved : Bool} {amounts : Option (BigNumber × BigNumber)}
    (h : removeLiquidity s dto userId found positionSaved = .ok (s', amounts)) :
    ∃ position, Removed s dto userId found positionSaved position s' amounts := by
  unfold removeLiquidity at h
  cases hfound : s.positions[found]? with
  | none => simp [hfound] at h
  | some position =>
    simp only [hfound, failIf_bind_eq_ok, save_bind_eq_ok, Numeric.store_toFixed] at h
    obtain ⟨hmine, henough, _, _, r0, h0, r1, h1, l, hl, h⟩ := h
    push Not at hmine
    obtain ⟨howner, hactive⟩ := hmine
    have hactive' : position.isActive = true := by simpa using hactive
    have henough' := Bool.eq_false_iff.mpr henough
    refine ⟨position, ?_⟩
    split at h
    · rename_i lpTokenAmount hstore
      rw [save_eq_ok, Numeric.store_toFixed] at hstore
      cases h
      exact ⟨hfound, howner, hactive', henough', h0, h1, hl, rfl, rfl,
        .inl ⟨lpTokenAmount, rfl, hstore, by rw [hactive', Bool.true_and], rfl⟩⟩
    · rename_i hnone
      cases h
      refine ⟨hfound, howner, hactive', henough', h0, h1, hl, rfl, rfl, .inr ⟨?_, rfl, rfl⟩⟩
      rintro ⟨htrue, lpTokenAmount, hstore⟩
      exact hnone lpTokenAmount htrue (save_eq_ok.mpr (by rw [Numeric.store_toFixed]; exact hstore))

/-- A removal with no minimum goes through when what it leaves fits the pool's columns. -/
theorem exists_removeLiquidity [DecidableEq User] {s : State User} {lpTokens : BigNumber}
    {userId : User} {found : Nat} {position : AMMLiquidityPosition User} {r0 r1 l : Amount}
    (positionSaved : Bool) (hfound : s.positions[found]? = some position)
    (howner : position.userId = userId) (hactive : position.isActive = true)
    (henough : lpTokens.isGreaterThan position.lpTokenAmount.read = false)
    (h0 : Numeric.store (s.pool.reserveToken0.read.minus
      (s.pool.reserveToken0.read.multipliedBy (s.pool.proportion lpTokens))) = some r0)
    (h1 : Numeric.store (s.pool.reserveToken1.read.minus
      (s.pool.reserveToken1.read.multipliedBy (s.pool.proportion lpTokens))) = some r1)
    (hl : Numeric.store (s.pool.totalLiquidity.read.minus lpTokens) = some l) :
    ∃ r, removeLiquidity s ⟨lpTokens, none, none⟩ userId found positionSaved = .ok r := by
  rw [← Numeric.store_toFixed, ← save_eq_ok] at h0 h1 hl
  unfold AMMPool.proportion at h0 h1
  unfold removeLiquidity
  simp only [hfound, howner, hactive, henough, belowMinimum, failIf, ne_eq, not_true_eq_false,
    Bool.true_eq_false, Bool.false_eq_true, or_self, if_false, ok_bind, h0, h1, hl]
  split <;> exact ⟨_, rfl⟩

/-! ## Calls -/

theorem toOption_map_fst {ε α β : Type} {x : Except ε (α × β)} {a : α} :
    x.toOption.map Prod.fst = some a ↔ ∃ b, x = .ok (a, b) := by
  cases x with
  | error e => simp [Except.toOption]
  | ok r => obtain ⟨a', b⟩ := r; simp [Except.toOption]

section Calls

variable [DecidableEq User] {s s' : State User} {userId : User}

theorem next_executeSwap {dto : SwapDto} : next s (.executeSwap userId dto) = some s' ↔
    ∃ amountOut, executeSwap s dto = .ok (s', amountOut) := toOption_map_fst

theorem next_addLiquidity {dto : AddLiquidityDto} {positionSaved : Bool} :
    next s (.addLiquidity userId dto positionSaved) = some s' ↔
      ∃ lpTokens, addLiquidity s dto userId positionSaved = .ok (s', lpTokens) := toOption_map_fst

theorem next_removeLiquidity {dto : RemoveLiquidityDto} {found : Nat} {positionSaved : Bool} :
    next s (.removeLiquidity userId dto found positionSaved) = some s' ↔
      ∃ amounts, removeLiquidity s dto userId found positionSaved = .ok (s', amounts) :=
  toOption_map_fst

end Calls

end AgriFi.Amm
