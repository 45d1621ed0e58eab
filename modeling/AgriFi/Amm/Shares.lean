import AgriFi.Amm.PricingModels

/-
  The LP tokens of a pool over any sequence of calls. The supply is the creation-time liquidity and
  what the positions hold, as long as amounts are numbers, no price divides by zero and no position
  is lost after its pool was saved. A deposit's LP tokens are worth at most the deposit and a
  removal returns what leaves the reserves under exact conditions on the rounding
  (`Counted`). The lookup of one arbitrary position is no obstacle: whichever one it returns,
  its owner can empty it, and so all of them (`Withdrawable`).
-/

namespace AgriFi.Amm

open AgriFi.Decimal AgriFi.Runs AgriFi.Soroban

variable {User : Type}

/-! ## The conditions -/

instance (pool : AMMPool) (direction : SwapDirection) (A : Rat) :
    Decidable (Priced pool direction A) := by
  unfold Priced
  split <;> infer_instance

/-- The LP tokens of a deposit come to `n` units at most: by its share of the supply, or by the
    geometric mean where a reserve is empty. -/
def MintsAtMost (pool : AMMPool) (A0 A1 : Rat) (n : Int) : Prop :=
  if pool.reserveToken0.toUnits = 0 ∨ pool.reserveToken1.toUnits = 0 then
    A0 * A1 < (n + 1 / 2 - 1 / 2 / 10 ^ 12) ^ 2
  else depositShare pool A0 A1 < n + 1 / 2 - 1 / 2 / 10 ^ 12

/-- After the deposit, `n` units of LP tokens stay below half a unit above the deposit. -/
def WorthAtMost (pool : AMMPool) (A0 A1 : Rat) (n : Int) : Prop :=
  let part := roundTo 20 ((n : Rat) / (pool.totalLiquidity.toUnits + n))
  (pool.reserveToken0.toUnits + halfUp A0) * part < ⌊A0⌋ + 1 / 2 ∧
  (pool.reserveToken1.toUnits + halfUp A1) * part < ⌊A1⌋ + 1 / 2

/-- Something of both tokens is put in, nothing of the pool is below zero, and the deposit mints
    no more than some amount of LP tokens that is worth at most the deposit. -/
def CountedDeposit (pool : AMMPool) (A0 A1 : Rat) : Prop :=
  (0 < A0 ∧ 0 < A1) ∧
  (0 ≤ pool.reserveToken0.toUnits ∧ 0 ≤ pool.reserveToken1.toUnits ∧
    0 ≤ pool.totalLiquidity.toUnits) ∧
  ∃ n, 0 ≤ n ∧ MintsAtMost pool A0 A1 n ∧ WorthAtMost pool A0 A1 n

/-- A reserve's part does not end in half a unit, unless it and the rest have different signs. -/
def SplitsEvenly (pool : AMMPool) (reserve : Int) (Λ : Rat) : Prop :=
  Int.fract (removedPart pool reserve Λ) = 1 / 2 →
    removedPart pool reserve Λ * (reserve - removedPart pool reserve Λ) < 0

/-- The amounts of a call are numbers, its price and its share divide by something, a position is
    saved after its pool, and the rounding of a deposit and of a removal is even. -/
def Counted (pool : AMMPool) : Call User → Prop
  | .executeSwap _ dto => dto.amountIn.Holds fun a => Priced pool dto.direction (inUnits a)
  | .addLiquidity _ dto positionSaved =>
    positionSaved = true ∧ dto.amount0.Holds fun a0 => dto.amount1.Holds fun a1 =>
      CountedDeposit pool (inUnits a0) (inUnits a1)
  | .removeLiquidity _ dto _ positionSaved =>
    positionSaved = true ∧ pool.totalLiquidity.toUnits ≠ 0 ∧ dto.lpTokenAmount.Holds fun lp =>
      SplitsEvenly pool pool.reserveToken0.toUnits (inUnits lp) ∧
      SplitsEvenly pool pool.reserveToken1.toUnits (inUnits lp)

instance (pool : AMMPool) (A0 A1 : Rat) (n : Int) : Decidable (WorthAtMost pool A0 A1 n) :=
  inferInstanceAs (Decidable (_ ∧ _))

instance (pool : AMMPool) (reserve : Int) (Λ : Rat) : Decidable (SplitsEvenly pool reserve Λ) :=
  inferInstanceAs (Decidable (_ → _))

/-- The reserves that a pool opens with are numbers. -/
def OpensWithNumbers (dto : CreatePoolDto) : Prop :=
  (dto.reserveToken0.Holds fun _ => True) ∧ dto.reserveToken1.Holds fun _ => True

/-! ## The accounts -/

/-- The columns are numbers, and the supply is what the pool opened with and what the positions
    hold. -/
structure Accounted (opened : Int) (s : State User) : Prop where
  numeric : s.pool.IsNumeric
  valid : SharesValid s
  supply : s.pool.totalLiquidity.toUnits = opened + sharesHeld s

/-- The removal, if it goes through, returns what leaves the reserves. -/
def RemovalExact [DecidableEq User] (s : State User) (userId : User) (dto : RemoveLiquidityDto)
    (found : Nat) (positionSaved : Bool) : Prop :=
  match removeLiquidity s dto userId found positionSaved with
  | .ok (s', amounts) =>
    amounts = some (s.pool.reserveToken0.read.minus s'.pool.reserveToken0.read,
      s.pool.reserveToken1.read.minus s'.pool.reserveToken1.read)
  | .error _ => True

def ReturnsWhatLeft [DecidableEq User] (s : State User) : Call User → Prop
  | .removeLiquidity userId dto found positionSaved =>
    RemovalExact s userId dto found positionSaved
  | _ => True

/-- The LP tokens of the deposit, removed right after it from the position that is found, return
    no more than the deposit. -/
def ReturnsNoMore [DecidableEq User] (s : State User) (userId : User) (dto : AddLiquidityDto)
    (positionSaved : Bool) (found : Nat) : Prop :=
  match addLiquidity s dto userId positionSaved with
  | .ok (s', some lpTokens) =>
    match removeLiquidity s' ⟨lpTokens, none, none⟩ userId found true with
    | .ok (_, some (amount0, amount1)) =>
      amount0.isGreaterThan dto.amount0 = false ∧ amount1.isGreaterThan dto.amount1 = false
    | _ => True
  | _ => True

/-- Whatever position the lookup returns. -/
def WorthTheDeposit [DecidableEq User] (s : State User) : Call User → Prop
  | .addLiquidity userId dto positionSaved =>
    ∀ found, ReturnsNoMore s userId dto positionSaved found
  | _ => True

instance [DecidableEq User] (s : State User) (userId : User) (dto : RemoveLiquidityDto)
    (found : Nat) (positionSaved : Bool) :
    Decidable (RemovalExact s userId dto found positionSaved) := by
  unfold RemovalExact
  split <;> infer_instance

instance [DecidableEq User] (s : State User) : ∀ call, Decidable (ReturnsWhatLeft s call)
  | .executeSwap _ _ => isTrue trivial
  | .addLiquidity _ _ _ => isTrue trivial
  | .removeLiquidity _ _ _ _ => inferInstanceAs (Decidable (RemovalExact _ _ _ _ _))

instance [DecidableEq User] (s : State User) (userId : User) (dto : AddLiquidityDto)
    (positionSaved : Bool) (found : Nat) :
    Decidable (ReturnsNoMore s userId dto positionSaved found) := by
  unfold ReturnsNoMore
  split
  · split <;> infer_instance
  · infer_instance

/-- Removing all of the position that the lookup returned. -/
def emptying (userId : User) (found : Nat) (position : AMMLiquidityPosition User) : Call User :=
  .removeLiquidity userId ⟨position.lpTokenAmount.read, none, none⟩ found true

/-- The user can get to hold no LP tokens by removing whatever the lookup returns, whichever of
    his active positions that is each time. -/
inductive Withdrawable [DecidableEq User] (userId : User) : State User → Prop
  | done {s : State User} : (∀ position ∈ s.positions, position.userId = userId →
      position.lpTokenAmount.toUnits = 0) → Withdrawable userId s
  | call {s : State User} :
      (∃ position ∈ s.positions, position.userId = userId ∧ position.isActive = true) →
      (∀ found position, s.positions[found]? = some position → position.userId = userId →
        position.isActive = true → (next s (emptying userId found position)).isSome = true) →
      (∀ found position s', s.positions[found]? = some position → position.userId = userId →
        position.isActive = true → next s (emptying userId found position) = some s' →
        Withdrawable userId s') →
      Withdrawable userId s

/-! ### A deposit -/

section Deposit

variable {pool : AMMPool} {a0 a1 A0 A1 : Rat} {m n : Int}

/-- The condition on the LP tokens of a deposit is exact. -/
theorem minted_le_iff (h0 : 0 < a0) (h1 : 0 < a1) (hn : 0 ≤ n) :
    minted pool a0 a1 ≤ n ↔ MintsAtMost pool (inUnits a0) (inUnits a1) n := by
  unfold minted MintsAtMost
  split
  · have hprod : inUnits a0 * inUnits a1 = a0 * a1 * 10 ^ 16 := by
      unfold inUnits
      ring
    rw [hprod]
    exact BigNumber.halfUp_sqrtRat_le_iff (by positivity) hn
  · exact halfUp_roundTo_le_iff (by norm_num) hn

theorem minted_nonneg (h0 : 0 < a0) (h1 : 0 < a1) (hr0 : 0 ≤ pool.reserveToken0.toUnits)
    (hr1 : 0 ≤ pool.reserveToken1.toUnits) (hl : 0 ≤ pool.totalLiquidity.toUnits) :
    0 ≤ minted pool a0 a1 := by
  have hr0' : (0 : Rat) ≤ pool.reserveToken0.toUnits := by exact_mod_cast hr0
  have hr1' : (0 : Rat) ≤ pool.reserveToken1.toUnits := by exact_mod_cast hr1
  have hl' : (0 : Rat) ≤ pool.totalLiquidity.toUnits := by exact_mod_cast hl
  unfold minted
  split
  · exact halfUp_nonneg (mul_nonneg (BigNumber.sqrtRat_nonneg _) (by positivity))
  · refine halfUp_nonneg (roundTo_nonneg ?_)
    unfold depositShare inUnits
    exact le_min (by positivity) (by positivity)

/-- Fewer LP tokens are worth less. -/
theorem WorthAtMost.mono (h : WorthAtMost pool A0 A1 n) (hm : 0 ≤ m) (hmn : m ≤ n)
    (hl : 0 ≤ pool.totalLiquidity.toUnits) (h0 : 0 ≤ pool.reserveToken0.toUnits + halfUp A0)
    (h1 : 0 ≤ pool.reserveToken1.toUnits + halfUp A1) : WorthAtMost pool A0 A1 m := by
  have hl' : (0 : Rat) ≤ pool.totalLiquidity.toUnits := by exact_mod_cast hl
  have hm' : (0 : Rat) ≤ m := by exact_mod_cast hm
  have hmn' : (m : Rat) ≤ n := by exact_mod_cast hmn
  have h0' : (0 : Rat) ≤ pool.reserveToken0.toUnits + halfUp A0 := by exact_mod_cast h0
  have h1' : (0 : Rat) ≤ pool.reserveToken1.toUnits + halfUp A1 := by exact_mod_cast h1
  have hpart : (m : Rat) / (pool.totalLiquidity.toUnits + m) ≤
      n / (pool.totalLiquidity.toUnits + n) := by
    rcases (add_nonneg hl' hm').eq_or_lt with hzero | hpos
    · rw [← hzero, div_zero]
      exact div_nonneg (by linarith) (by linarith)
    · rw [div_le_div_iff₀ hpos (by linarith)]
      have := mul_le_mul_of_nonneg_right hmn' hl'
      linarith
  have hround : roundTo 20 _ ≤ roundTo 20 _ := roundTo_mono hpart
  exact ⟨lt_of_le_of_lt (mul_le_mul_of_nonneg_left hround h0') h.1,
    lt_of_le_of_lt (mul_le_mul_of_nonneg_left hround h1') h.2⟩

/-- The amount to look at is the one that is minted. -/
theorem countedDeposit_iff : CountedDeposit pool A0 A1 ↔ (0 < A0 ∧ 0 < A1) ∧
    (0 ≤ pool.reserveToken0.toUnits ∧ 0 ≤ pool.reserveToken1.toUnits ∧
      0 ≤ pool.totalLiquidity.toUnits) ∧
    WorthAtMost pool A0 A1 (minted pool (A0 / 10 ^ 8) (A1 / 10 ^ 8)) := by
  unfold CountedDeposit
  refine and_congr_right fun ⟨hA0, hA1⟩ => and_congr_right fun ⟨hr0, hr1, hl⟩ => ?_
  have h0 : 0 < A0 / 10 ^ 8 := by positivity
  have h1 : 0 < A1 / 10 ^ 8 := by positivity
  have hminted := minted_nonneg h0 h1 hr0 hr1 hl
  constructor
  · rintro ⟨n, hn, hmint, hworth⟩
    have hle : minted pool (A0 / 10 ^ 8) (A1 / 10 ^ 8) ≤ n := by
      rw [minted_le_iff h0 h1 hn, inUnits_div, inUnits_div]
      exact hmint
    have hc0 := halfUp_nonneg hA0.le
    have hc1 := halfUp_nonneg hA1.le
    exact hworth.mono hminted hle hl (by omega) (by omega)
  · intro hworth
    have hmint := (minted_le_iff h0 h1 hminted).mp le_rfl
    rw [inUnits_div, inUnits_div] at hmint
    exact ⟨_, hminted, hmint, hworth⟩

end Deposit

instance (pool : AMMPool) (A0 A1 : Rat) : Decidable (CountedDeposit pool A0 A1) :=
  decidable_of_iff _ countedDeposit_iff.symm

instance (pool : AMMPool) : ∀ call : Call User, Decidable (Counted pool call)
  | .executeSwap _ dto => inferInstanceAs (Decidable (dto.amountIn.Holds _))
  | .addLiquidity _ _ _ => inferInstanceAs (Decidable (_ ∧ _))
  | .removeLiquidity _ _ _ _ => inferInstanceAs (Decidable (_ ∧ _ ∧ _))

theorem createPosition_exists {a0 a1 : Rat} {n : Int} (userId : User)
    (hn : n.natAbs < 10 ^ 20) (h0 : (halfUp (inUnits a0)).natAbs < 10 ^ 20)
    (h1 : (halfUp (inUnits a1)).natAbs < 10 ^ 20) :
    ∃ position, createPosition userId (.finite (n / 10 ^ 8)) (.finite a0) (.finite a1) =
      .ok position := by
  have hunits : (halfUp ((n : Rat) / 10 ^ 8 * 10 ^ 8)).natAbs < 10 ^ 20 := by
    rw [div_mul_cancel₀ _ (by positivity), halfUp_intCast]
    exact hn
  obtain ⟨lp, hlp⟩ : ∃ c : Numeric 20 8, _ := Numeric.exists_store hunits
  obtain ⟨d0, hd0⟩ : ∃ c : Numeric 20 8, _ := Numeric.exists_store h0
  obtain ⟨d1, hd1⟩ : ∃ c : Numeric 20 8, _ := Numeric.exists_store h1
  refine ⟨⟨userId, lp, d0, d1, true⟩, ?_⟩
  unfold createPosition
  simp only [save_bind_eq_ok, Numeric.store_toFixed, pure_eq_ok]
  exact ⟨lp, hlp, d0, hd0, d1, hd1, rfl⟩

/-- What a counted deposit leaves in the reserves and in the supply, and that its position is
    saved. -/
theorem Added.counted {s s' : State User} {dto : AddLiquidityDto} {userId : User}
    {lpTokens : Option BigNumber} {a0 a1 : Rat} (h : Added s dto userId true s' lpTokens)
    (hn : s.pool.IsNumeric) (ha0 : dto.amount0 = .finite a0) (ha1 : dto.amount1 = .finite a1)
    (hcount : CountedDeposit s.pool (inUnits a0) (inUnits a1)) :
    0 ≤ minted s.pool a0 a1 ∧ WorthAtMost s.pool (inUnits a0) (inUnits a1) (minted s.pool a0 a1) ∧
    lpTokens = some (.finite (minted s.pool a0 a1 / 10 ^ 8)) ∧
    s'.pool.reserveToken0.toUnits = s.pool.reserveToken0.toUnits + halfUp (inUnits a0) ∧
    s'.pool.reserveToken1.toUnits = s.pool.reserveToken1.toUnits + halfUp (inUnits a1) := by
  obtain ⟨h0, h1, _, hr0, hr1, hl'⟩ := h.units hn ha0 ha1
  obtain ⟨-, ⟨hpos0, hpos1, hl⟩, hworth⟩ := countedDeposit_iff.mp hcount
  have hA0 : 0 ≤ inUnits a0 := by unfold inUnits; positivity
  have hA1 : 0 ≤ inUnits a1 := by unfold inUnits; positivity
  have hpos0' : (0 : Rat) ≤ s.pool.reserveToken0.toUnits := by exact_mod_cast hpos0
  have hpos1' : (0 : Rat) ≤ s.pool.reserveToken1.toUnits := by exact_mod_cast hpos1
  rw [halfUp_intAdd hA0 (by linarith)] at hr0
  rw [halfUp_intAdd hA1 (by linarith)] at hr1
  have hc0 := halfUp_nonneg hA0
  have hc1 := halfUp_nonneg hA1
  have hminted := minted_nonneg h0 h1 hpos0 hpos1 hl
  have hback (a : Rat) : inUnits a / 10 ^ 8 = a := mul_div_cancel_right₀ a (by positivity)
  rw [hback, hback] at hworth
  refine ⟨hminted, hworth, ?_, hr0, hr1⟩
  rcases h.positions with ⟨_, _, _, _, hlp⟩ | ⟨hlost, _⟩
  · rw [hlp, ha0, ha1, lpTokens_finite hn h0 h1]
  · refine absurd ⟨rfl, ?_⟩ hlost
    rw [ha0, ha1, lpTokens_finite hn h0 h1]
    have hb0 := s'.pool.reserveToken0.toUnits_bound
    have hb1 := s'.pool.reserveToken1.toUnits_bound
    have hbl := s'.pool.totalLiquidity.toUnits_bound
    exact createPosition_exists userId (by omega) (by omega) (by omega)

/-- An amount less than half a unit above another is rounded to no more than it. -/
theorem not_greater_of_lt {a A : Rat} (h : A < ⌊inUnits a⌋ + 1 / 2) (ha : 0 ≤ a) :
    (BigNumber.finite (halfUp A / 10 ^ 8)).isGreaterThan (.finite a) = false := by
  have hfloor : 0 ≤ ⌊inUnits a⌋ := Int.floor_nonneg.mpr (by unfold inUnits; positivity)
  have hle := (halfUp_le_iff hfloor).mpr h
  rw [← Bool.not_eq_true, BigNumber.isGreaterThan_finite, not_lt, div_le_iff₀ (by positivity)]
  exact le_trans (by exact_mod_cast hle) (Int.floor_le _)

theorem Accounted.liquidity_nonneg {opened : Int} {s : State User} (h : Accounted opened s)
    (hopened : 0 ≤ opened) :
    0 ≤ s.pool.totalLiquidity.toUnits := by
  have := sharesHeld_nonneg h.valid
  have := h.supply
  omega

section Calls

variable {opened : Int} {s s' : State User} {userId : User}

theorem deposit_accounted {dto : AddLiquidityDto} {lpTokens : Option BigNumber}
    (h : addLiquidity s dto userId true = .ok (s', lpTokens)) (hs : Accounted opened s)
    (hcounted : Counted s.pool (.addLiquidity userId dto true)) :
    Accounted opened s' := by
  obtain ⟨-, hfinite⟩ := hcounted
  obtain ⟨a0, ha0, hfinite⟩ := BigNumber.Holds.exists_finite hfinite
  obtain ⟨a1, ha1, hcount⟩ := BigNumber.Holds.exists_finite hfinite
  have hadd := addLiquidity_ok h
  obtain ⟨hminted, _, hlp, _⟩ := hadd.counted hs.numeric ha0 ha1 hcount
  obtain ⟨_, _, hn', _, _, hl⟩ := hadd.units hs.numeric ha0 ha1
  obtain ⟨hvalid, hheld⟩ := hadd.shares hs.numeric ha0 ha1 hminted hs.valid
  refine ⟨hn', hvalid, ?_⟩
  rcases hheld with ⟨hheld, _⟩ | ⟨_, hnone⟩
  · rw [hl, hs.supply, hheld, add_assoc]
  · rw [hlp] at hnone
    cases hnone

theorem deposit_worth [DecidableEq User] {dto : AddLiquidityDto} (hs : Accounted opened s)
    (hopened : 0 ≤ opened) (hcounted : Counted s.pool (.addLiquidity userId dto true)) :
    WorthTheDeposit s (.addLiquidity userId dto true) := by
  obtain ⟨-, hfinite⟩ := hcounted
  obtain ⟨a0, ha0, hfinite⟩ := BigNumber.Holds.exists_finite hfinite
  obtain ⟨a1, ha1, hcount⟩ := BigNumber.Holds.exists_finite hfinite
  intro found
  unfold ReturnsNoMore
  split
  case h_2 => trivial
  rename_i s' lpTokens h
  split
  case h_2 => trivial
  rename_i s'' amount0 amount1 hexec
  have hadd := addLiquidity_ok h
  obtain ⟨_, hworth, hlp, hr0, hr1⟩ := hadd.counted hs.numeric ha0 ha1 hcount
  obtain ⟨_, _, hn', _, _, hl⟩ := hadd.units hs.numeric ha0 ha1
  obtain ⟨position, hrem⟩ := removeLiquidity_ok hexec
  have hlp' := Option.some.inj hlp
  by_cases hzero : s'.pool.totalLiquidity.toUnits = 0
  · -- no LP tokens of none: the amounts are not numbers
    have hnone : minted s.pool a0 a1 = 0 := by
      have := hs.liquidity_nonneg hopened
      omega
    have hnan : s'.pool.proportion lpTokens = .nan := by
      rw [hlp', hnone, AMMPool.proportion, Numeric.read_of_isNumber hn'.liquidity, hzero]
      simp [BigNumber.div]
    rcases hrem.positions with ⟨_, _, _, _, hamounts⟩ | ⟨_, _, hlost⟩
    · rw [hnan, Numeric.read_of_isNumber hn'.reserve0, Numeric.read_of_isNumber hn'.reserve1]
        at hamounts
      cases hamounts
      exact ⟨by cases dto.amount0 <;> rfl, by cases dto.amount1 <;> rfl⟩
    · cases hlost
  · have hamounts := hrem.amounts hn' hlp' hzero (Option.some_ne_none _)
    rw [inUnits_div] at hamounts
    have hpart (reserve : Int) : removedPart s'.pool reserve (minted s.pool a0 a1) =
        reserve * roundTo 20 ((minted s.pool a0 a1 : Rat) /
          (s.pool.totalLiquidity.toUnits + minted s.pool a0 a1)) := by
      unfold removedPart
      rw [hl]
      push_cast
      rfl
    have hworth0 := hworth.1
    have hworth1 := hworth.2
    rw [← Int.cast_add, ← hr0, ← hpart] at hworth0
    rw [← Int.cast_add, ← hr1, ← hpart] at hworth1
    obtain ⟨hpos0, hpos1, _⟩ := hadd.units hs.numeric ha0 ha1
    cases hamounts
    rw [ha0, ha1]
    exact ⟨not_greater_of_lt hworth0 hpos0.le, not_greater_of_lt hworth1 hpos1.le⟩

/-! ### A swap and a removal -/

theorem swap_accounted {dto : SwapDto} {amountOut : BigNumber}
    (h : executeSwap s dto = .ok (s', amountOut)) (hs : Accounted opened s)
    (hcounted : Counted s.pool (.executeSwap userId dto)) : Accounted opened s' := by
  obtain ⟨a, ha, hpriced⟩ := BigNumber.Holds.exists_finite hcounted
  have hswap := executeSwap_ok h
  obtain ⟨hn', _⟩ := hswap.units hs.numeric ha hpriced
  refine ⟨hn', ?_, ?_⟩
  · unfold SharesValid
    rw [hswap.positions]
    exact hs.valid
  · unfold sharesHeld
    rw [hswap.liquidity, hswap.positions]
    exact hs.supply

theorem removal_accounted [DecidableEq User] {dto : RemoveLiquidityDto} {found : Nat} {lp : Rat}
    {amounts : Option (BigNumber × BigNumber)}
    (h : removeLiquidity s dto userId found true = .ok (s', amounts)) (hs : Accounted opened s)
    (hopened : 0 ≤ opened) (hlp : dto.lpTokenAmount = .finite lp)
    (hne : s.pool.totalLiquidity.toUnits ≠ 0) : Accounted opened s' ∧ amounts ≠ none := by
  obtain ⟨position, hrem⟩ := removeLiquidity_ok h
  have hsupply := hs.supply
  obtain ⟨hn', _⟩ := hrem.units hs.numeric hlp hne
  obtain ⟨hvalid, hsome, hheld⟩ := hrem.shares hs.numeric hlp hne hs.valid (by omega)
  exact ⟨⟨hn', hvalid, by omega⟩, hsome⟩

/-- A reserve's part is what leaves it, exactly when the part splits evenly. -/
theorem splitsEvenly_iff {pool : AMMPool} {reserve : Int} {Λ : Rat} :
    SplitsEvenly pool reserve Λ ↔ halfUp (removedPart pool reserve Λ) =
      reserve - halfUp (reserve - removedPart pool reserve Λ) := halfUp_add_rest_iff.symm

theorem removal_returns [DecidableEq User] {dto : RemoveLiquidityDto} {found : Nat}
    (hs : Accounted opened s) (hopened : 0 ≤ opened)
    (hcounted : Counted s.pool (.removeLiquidity userId dto found true)) :
    ReturnsWhatLeft s (.removeLiquidity userId dto found true) := by
  obtain ⟨-, hne, hfinite⟩ := hcounted
  obtain ⟨lp, hlp, hsplit0, hsplit1⟩ := BigNumber.Holds.exists_finite hfinite
  show RemovalExact s userId dto found true
  unfold RemovalExact
  split
  case h_2 => trivial
  rename_i s' amounts h
  obtain ⟨_, hsome⟩ := removal_accounted h hs hopened hlp hne
  obtain ⟨position, hrem⟩ := removeLiquidity_ok h
  obtain ⟨hn', hr0, hr1, _⟩ := hrem.units hs.numeric hlp hne
  rw [splitsEvenly_iff, ← hr0] at hsplit0
  rw [splitsEvenly_iff, ← hr1] at hsplit1
  rw [hrem.amounts hs.numeric hlp hne hsome, hsplit0, hsplit1,
    Numeric.read_of_isNumber hs.numeric.reserve0, Numeric.read_of_isNumber hs.numeric.reserve1,
    Numeric.read_of_isNumber hn'.reserve0, Numeric.read_of_isNumber hn'.reserve1,
    BigNumber.minus_finite, BigNumber.minus_finite]
  push_cast
  rw [sub_div, sub_div]

theorem call_accounted [DecidableEq User] {call : Call User} (h : next s call = some s')
    (hs : Accounted opened s) (hopened : 0 ≤ opened) (hcounted : Counted s.pool call) :
    Accounted opened s' ∧ ReturnsWhatLeft s call ∧ WorthTheDeposit s call := by
  cases call with
  | executeSwap userId dto =>
    obtain ⟨amountOut, hexec⟩ := next_executeSwap.mp h
    exact ⟨swap_accounted hexec hs hcounted, trivial, trivial⟩
  | addLiquidity userId dto positionSaved =>
    obtain rfl := hcounted.1
    obtain ⟨lpTokens, hexec⟩ := next_addLiquidity.mp h
    exact ⟨deposit_accounted hexec hs hcounted, trivial, deposit_worth hs hopened hcounted⟩
  | removeLiquidity userId dto found positionSaved =>
    obtain ⟨rfl, hne, hfinite⟩ := hcounted
    obtain ⟨lp, hlp, _⟩ := BigNumber.Holds.exists_finite hfinite
    obtain ⟨amounts, hexec⟩ := next_removeLiquidity.mp h
    exact ⟨(removal_accounted hexec hs hopened hlp hne).1,
      removal_returns hs hopened ⟨rfl, hne, hfinite⟩, trivial⟩

end Calls

/-! ## Withdrawing -/

/-- The user's active positions. -/
def activePositions [DecidableEq User] (userId : User) (s : State User) : Nat :=
  s.positions.countP fun position => decide (position.userId = userId) && position.isActive

/-- What a reserve keeps of a removal of no more than the supply is within what it held. -/
theorem abs_left_le {pool : AMMPool} {reserve : Int} {Λ : Rat} (hΛ : 0 ≤ Λ)
    (hle : Λ ≤ pool.totalLiquidity.toUnits) (hpos : 0 < pool.totalLiquidity.toUnits) :
    |reserve - removedPart pool reserve Λ| ≤ |(reserve : Rat)| := by
  have hpos' : (0 : Rat) < pool.totalLiquidity.toUnits := by exact_mod_cast hpos
  have hpart0 : 0 ≤ roundTo 20 (Λ / pool.totalLiquidity.toUnits) :=
    roundTo_nonneg (by positivity)
  have hpart1 : roundTo 20 (Λ / pool.totalLiquidity.toUnits) ≤ 1 := by
    have hone : roundTo 20 _ ≤ roundTo 20 _ := roundTo_mono ((div_le_one₀ hpos').mpr hle)
    have h1 := roundTo_intCast 20 1
    push_cast at h1
    rwa [h1] at hone
  unfold removedPart
  rw [← mul_one_sub, abs_mul]
  refine mul_le_of_le_one_right (abs_nonneg _) ?_
  rw [abs_le]
  constructor <;> linarith

/-- Nothing stands in the way of removing all of a position. -/
theorem emptying_isSome [DecidableEq User] {opened : Int} {s : State User} {userId : User}
    {found : Nat} {position : AMMLiquidityPosition User} (hs : Accounted opened s)
    (hopened : 0 ≤ opened) (hpos : 0 < s.pool.totalLiquidity.toUnits)
    (hfound : s.positions[found]? = some position) (howner : position.userId = userId)
    (hactive : position.isActive = true) :
    (next s (emptying userId found position)).isSome = true := by
  obtain ⟨hnum, hlp0, _⟩ := hs.valid position (List.mem_of_getElem? hfound)
  have hle := hs.valid.le_held (List.mem_of_getElem? hfound)
  have hsupply := hs.supply
  have hlp0' : (0 : Rat) ≤ position.lpTokenAmount.toUnits := by exact_mod_cast hlp0
  have hle' : (position.lpTokenAmount.toUnits : Rat) ≤ s.pool.totalLiquidity.toUnits := by
    exact_mod_cast (show position.lpTokenAmount.toUnits ≤ s.pool.totalLiquidity.toUnits by omega)
  have hread := Numeric.read_of_isNumber hnum
  have hreserve (reserve : Amount) (hr : reserve.IsNumber) : ∃ c : Amount, Numeric.store
      (reserve.read.minus (reserve.read.multipliedBy
        (s.pool.proportion position.lpTokenAmount.read))) = some c := by
    rw [hread, amount_finite hs.numeric.liquidity hpos.ne' hr, Numeric.read_of_isNumber hr,
      BigNumber.minus_finite, inUnits_div]
    refine Numeric.exists_store (lt_of_le_of_lt ?_ reserve.toUnits_bound)
    rw [sub_mul, div_mul_cancel₀ _ (by positivity), div_mul_cancel₀ _ (by positivity)]
    exact natAbs_halfUp_le (abs_left_le hlp0' hle' hpos)
  obtain ⟨r0, hr0⟩ := hreserve _ hs.numeric.reserve0
  obtain ⟨r1, hr1⟩ := hreserve _ hs.numeric.reserve1
  obtain ⟨l, hl⟩ : ∃ c : Amount, Numeric.store
      (s.pool.totalLiquidity.read.minus position.lpTokenAmount.read) = some c := by
    rw [hread, Numeric.read_of_isNumber hs.numeric.liquidity, BigNumber.minus_finite]
    refine Numeric.exists_store (lt_of_le_of_lt ?_ s.pool.totalLiquidity.toUnits_bound)
    rw [sub_mul, div_mul_cancel₀ _ (by positivity), div_mul_cancel₀ _ (by positivity)]
    refine natAbs_halfUp_le ?_
    rw [abs_of_nonneg (by linarith), abs_of_nonneg (by linarith)]
    linarith
  have henough : position.lpTokenAmount.read.isGreaterThan position.lpTokenAmount.read = false := by
    rw [hread, ← Bool.not_eq_true, BigNumber.isGreaterThan_finite]
    exact lt_irrefl _
  obtain ⟨⟨s', amounts⟩, hexec⟩ :=
    exists_removeLiquidity true hfound howner hactive henough hr0 hr1 hl
  rw [Option.isSome_iff_exists]
  exact ⟨s', next_removeLiquidity.mpr ⟨amounts, hexec⟩⟩

/-- An emptied position is one active position less. -/
theorem emptying_activePositions [DecidableEq User] {opened : Int} {s s' : State User}
    {userId : User} {found : Nat} {position : AMMLiquidityPosition User} (hs : Accounted opened s)
    (hopened : 0 ≤ opened) (hpos : 0 < s.pool.totalLiquidity.toUnits)
    (hfound : s.positions[found]? = some position) (howner : position.userId = userId)
    (hactive : position.isActive = true)
    (h : next s (emptying userId found position) = some s') :
    Accounted opened s' ∧ activePositions userId s' + 1 = activePositions userId s := by
  obtain ⟨amounts, hexec⟩ := next_removeLiquidity.mp h
  obtain ⟨hnum, _, _⟩ := hs.valid position (List.mem_of_getElem? hfound)
  have hlp := Numeric.read_of_isNumber hnum
  obtain ⟨hs', hsome⟩ := removal_accounted hexec hs hopened hlp hpos.ne'
  refine ⟨hs', ?_⟩
  obtain ⟨position', hrem⟩ := removeLiquidity_ok hexec
  obtain rfl : position = position' := Option.some.inj (hfound.symm.trans hrem.found_eq)
  rcases hrem.positions with ⟨lpTokenAmount, _, hstore, hpositions, _⟩ | ⟨_, _, hnone⟩
  · -- nothing is left of it
    rw [hlp, BigNumber.minus_finite, sub_self] at hstore
    obtain ⟨hnum', hzero⟩ := Numeric.store_finite hstore
    have hinactive : (!lpTokenAmount.read.isZero) = false := by
      rw [Bool.not_eq_false', Numeric.read_of_isNumber hnum', hzero, BigNumber.isZero_finite]
      norm_num [halfUp]
    obtain ⟨hlt, hget⟩ := List.getElem?_eq_some_iff.mp hfound
    unfold activePositions
    have hcounted : 0 < s.positions.countP
        fun position => decide (position.userId = userId) && position.isActive :=
      List.countP_pos_iff.mpr ⟨position, List.mem_of_getElem? hfound, by simp [howner, hactive]⟩
    rw [hpositions, hinactive, List.countP_set hlt, hget]
    simp only [howner, hactive, decide_true, Bool.and_true, Bool.and_false, if_true,
      Bool.false_eq_true, if_false]
    omega
  · exact absurd hnone hsome

theorem withdrawable [DecidableEq User] {opened : Int} {s : State User} (hs : Accounted opened s)
    (hopened : 0 ≤ opened) (userId : User) : Withdrawable userId s := by
  induction hcount : activePositions userId s generalizing s with
  | zero =>
    refine .done fun position hmem howner => (hs.valid position hmem).2.2 ?_
    unfold activePositions at hcount
    rw [List.countP_eq_zero] at hcount
    simpa [howner] using hcount position hmem
  | succ count ih =>
    rcases (hs.liquidity_nonneg hopened).eq_or_lt with hzero | hpos
    · -- without a supply there are no LP tokens to remove
      refine .done fun position hmem _ => ?_
      have hle := hs.valid.le_held hmem
      have hlp := (hs.valid position hmem).2.1
      have hsupply := hs.supply
      omega
    · refine .call ?_ ?_ ?_
      · obtain ⟨position, hmem, hactive⟩ := List.countP_pos_iff.mp
          (show 0 < activePositions userId s by omega)
        exact ⟨position, hmem, by simpa using hactive⟩
      · intro found position hfound howner hactive
        exact emptying_isSome hs hopened hpos hfound howner hactive
      · intro found position s' hfound howner hactive h
        obtain ⟨hs', hless⟩ :=
          emptying_activePositions hs hopened hpos hfound howner hactive h
        exact ih hs' (by omega)

/-! ## Runs -/

/-- What the shares of a pool come to after the calls `xs`. -/
structure SharesCounted [DecidableEq User] (start : State User)
    (xs : List (Step (State User) (Call User))) (t : State User) : Prop where
  positions : ∀ position ∈ t.positions,
    position.lpTokenAmount.IsNumber ∧ 0 ≤ position.lpTokenAmount.toUnits
  supply : t.pool.totalLiquidity.IsNumber ∧
    t.pool.totalLiquidity.toUnits = start.pool.totalLiquidity.toUnits + sharesHeld t
  removals : ∀ x ∈ xs, ReturnsWhatLeft x.pre x.act
  deposits : ∀ x ∈ xs, WorthTheDeposit x.pre x.act
  withdrawable : ∀ userId, Withdrawable userId t

theorem Opened.accounted {dto : CreatePoolDto} {s : State User} (h : Opened dto s)
    (hnumbers : OpensWithNumbers dto) :
    Accounted s.pool.totalLiquidity.toUnits s ∧ 0 ≤ s.pool.totalLiquidity.toUnits := by
  obtain ⟨r0, h0, -⟩ := BigNumber.Holds.exists_finite hnumbers.1
  obtain ⟨r1, h1, -⟩ := BigNumber.Holds.exists_finite hnumbers.2
  have hs0 := h.reserve0
  have hs1 := h.reserve1
  have hl := h.liquidity
  have hp0 := h.positive0
  have hp1 := h.positive1
  rw [h0] at hs0 hl hp0
  rw [h1] at hs1 hl hp1
  rw [BigNumber.ofInt, ← Bool.not_eq_true, BigNumber.isLessThanOrEqualTo_finite, Int.cast_zero,
    not_le] at hp0 hp1
  rw [BigNumber.multipliedBy_finite, BigNumber.sqrt, if_neg (not_lt.mpr (by positivity))] at hl
  obtain ⟨hn0, -⟩ := Numeric.store_finite hs0
  obtain ⟨hn1, -⟩ := Numeric.store_finite hs1
  obtain ⟨hnl, hul⟩ := Numeric.store_finite hl
  have hnone : ∀ position, position ∉ s.positions := by
    rw [h.positions]
    exact fun position => List.not_mem_nil
  refine ⟨⟨⟨hn0, hn1, hnl, h.feeInRange.1⟩, fun position hmem => absurd hmem (hnone position),
    ?_⟩, ?_⟩
  · simp [sharesHeld, h.positions]
  · rw [hul]
    exact halfUp_nonneg (mul_nonneg (BigNumber.sqrtRat_nonneg _) (by positivity))

theorem shares_counted [DecidableEq User] {dto : CreatePoolDto} {dealFound : Bool}
    {start t : State User} {xs : List (Step (State User) (Call User))}
    (hopen : createPool dto dealFound = .ok start) (hnumbers : OpensWithNumbers dto)
    (hrun : Run next start xs t) (hcounted : ∀ x ∈ xs, Counted x.pre.pool x.act) :
    SharesCounted start xs t := by
  obtain ⟨hstart, hopened⟩ := (createPool_ok hopen).accounted hnumbers
  have hstep : ∀ x ∈ xs, next x.pre x.act = some x.post →
      Accounted start.pool.totalLiquidity.toUnits x.pre →
      Accounted start.pool.totalLiquidity.toUnits x.post :=
    fun x hx hn hpre => (call_accounted hn hpre hopened (hcounted x hx)).1
  have ht := hrun.invariant _ hstart hstep
  have hsteps := hrun.steps_invariant _ hstart hstep
  constructor
  case positions =>
    intro position hmem
    obtain ⟨hnum, hpos, _⟩ := ht.valid position hmem
    exact ⟨hnum, hpos⟩
  case supply => exact ⟨ht.numeric.liquidity, ht.supply⟩
  case removals =>
    intro x hx
    obtain ⟨hn, hpre, _⟩ := hsteps x hx
    exact (call_accounted hn hpre hopened (hcounted x hx)).2.1
  case deposits =>
    intro x hx
    obtain ⟨hn, hpre, _⟩ := hsteps x hx
    exact (call_accounted hn hpre hopened (hcounted x hx)).2.2
  case withdrawable => exact withdrawable ht hopened

/-- Two deposits of one user, a swap in between, and a removal from the second. -/
def sharesCalls : List (Call Nat) :=
  [depositOf 2 10 10, swapOf 1 .token0ToToken1 10, depositOf 2 12 10, removalOf 2 1 3]

theorem shares_counted_sample :
    (replay next (hundredsPool .constantProduct) sharesCalls).1.length = 4 ∧
    SharesCounted (hundredsPool .constantProduct)
      (replay next (hundredsPool .constantProduct) sharesCalls).1
      (replay next (hundredsPool .constantProduct) sharesCalls).2 := by
  have hopen : createPool (hundreds .constantProduct) true = .ok (hundredsPool .constantProduct) :=
    by decide +kernel
  have hrun := run_replay next (hundredsPool .constantProduct) sharesCalls
  exact ⟨by decide +kernel, shares_counted hopen ⟨trivial, trivial⟩ hrun (by decide +kernel)⟩

/-- A pool of two of one token and a half of the other. -/
def lopsided : CreatePoolDto := ⟨.finite 2, .finite (1 / 2), 3 / 10, none⟩

def lopsidedPool : State Nat where
  pool := { (hundredsPool .constantProduct).pool with
    reserveToken0 := .units (2 * 10 ^ 8) (by decide)
    reserveToken1 := .units (5 * 10 ^ 7) (by decide)
    totalLiquidity := .units (10 ^ 8) (by decide) }
  positions := []

/-- Half a unit of LP tokens is rounded up to one, which is worth two units of token0. -/
def overMinted : Call Nat := depositOf 1 (1 / 10 ^ 8) 1

/-- Half a unit of token1 is returned as one, and the reserve keeps it as well. -/
def halfReturned : List (Call Nat) := [depositOf 1 2 (1 / 2), removalOf 1 0 (1 / 10 ^ 8)]

/-- A deposit in a pool whose reserve was paid out to below zero. -/
def negativeShares : List (Call Nat) := [swapOf 1 .token0ToToken1 150, depositOf 2 1 1]

/-- The position's save fails after the pool's. -/
def lostPosition : List (Call Nat) :=
  [.addLiquidity 1 ⟨.finite 10, .finite 10, none⟩ false]

theorem shares_miscounted :
    createPool lopsided true = .ok lopsidedPool ∧
    (∀ model, createPool (hundreds model) true = .ok (hundredsPool model)) ∧
    (∃ xs t, Run next lopsidedPool xs t ∧ ∃ x ∈ xs, ¬ WorthTheDeposit x.pre x.act) ∧
    (∃ xs t, Run next lopsidedPool xs t ∧ ∃ x ∈ xs, ¬ ReturnsWhatLeft x.pre x.act) ∧
    (∃ xs t, Run next (hundredsPool .stableSwap) xs t ∧
      ∃ position ∈ t.positions, position.lpTokenAmount.toUnits < 0) ∧
    ∃ xs t, Run next (hundredsPool .constantProduct) xs t ∧ t.pool.totalLiquidity.toUnits ≠
      (hundredsPool .constantProduct).pool.totalLiquidity.toUnits + sharesHeld t := by
  have hhalf := run_replay next lopsidedPool halfReturned
  have hnegative := run_replay next (hundredsPool .stableSwap) negativeShares
  have hlost := run_replay next (hundredsPool .constantProduct) lostPosition
  obtain ⟨t, ht⟩ := Option.isSome_iff_exists.mp
    (show (next lopsidedPool overMinted).isSome = true by decide +kernel)
  have hmore : ¬ ReturnsNoMore lopsidedPool 1 ⟨.finite (1 / 10 ^ 8), .finite 1, none⟩ true 0 := by
    decide +kernel
  exact ⟨by decide +kernel, fun model => by cases model <;> decide +kernel,
    ⟨_, _, .cons ht (.nil t), _, List.mem_singleton_self _, fun hworth => hmore (hworth 0)⟩,
    ⟨_, _, hhalf, by decide +kernel⟩, ⟨_, _, hnegative, by decide +kernel⟩,
    ⟨_, _, hlost, by decide +kernel⟩⟩

end AgriFi.Amm
