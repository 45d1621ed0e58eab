import Mathlib.Data.Rat.Floor
import Mathlib.Data.Nat.Sqrt
import Mathlib.Algebra.Order.Floor.Ring
import Mathlib.Algebra.Order.Round
import Mathlib.Tactic.Linarith
import Mathlib.Tactic.FieldSimp
import Mathlib.Tactic.Ring
import Mathlib.Tactic.Positivity

/-
  Decimal arithmetic as bignumber.js does it with its default settings: sums, differences and
  products are exact, quotients and square roots are rounded to 20 places, halves away from zero;
  a number that cannot be read is `NaN`, and `NaN` compares with nothing. Negative zero is the same
  as zero here. Beside it a `numeric(precision, scale)` column of PostgreSQL, which takes `NaN`,
  refuses the infinities and what has too many digits, and rounds the rest to its scale.
-/

namespace AgriFi.Decimal

/-! ## Rounding -/

/-- The nearest whole number; halves go away from zero. -/
def halfUp (x : Rat) : Int := if 0 ≤ x then ⌊x + 1 / 2⌋ else -⌊-x + 1 / 2⌋

def roundTo (places : Nat) (x : Rat) : Rat := halfUp (x * 10 ^ places) / 10 ^ places

section Rounding

variable {x y : Rat} {n : Int} {places : Nat}

theorem halfUp_neg (x : Rat) : halfUp (-x) = -halfUp x := by
  unfold halfUp
  rcases lt_trichotomy x 0 with h | rfl | h
  · rw [if_pos (by linarith), if_neg (by linarith), neg_neg]
  · norm_num
  · rw [if_neg (by linarith), if_pos h.le, neg_neg]

/-- Rounding goes above a whole number that is not negative from half a unit on. -/
theorem halfUp_le_iff (hn : 0 ≤ n) : halfUp x ≤ n ↔ x < n + 1 / 2 := by
  have hn' : (0 : Rat) ≤ n := by exact_mod_cast hn
  unfold halfUp
  split
  · rw [← Int.lt_add_one_iff, Int.floor_lt]
    push_cast
    constructor <;> intro h <;> linarith
  · rename_i hx
    have hfloor : 0 ≤ ⌊-x + 1 / 2⌋ := Int.floor_nonneg.mpr (by linarith)
    constructor
    · intro _; linarith
    · intro _; omega

theorem le_halfUp_iff (hn : 0 < n) : n ≤ halfUp x ↔ (n : Rat) - 1 / 2 ≤ x := by
  have h := halfUp_le_iff (x := x) (n := n - 1) (by omega)
  push_cast at h
  constructor
  · intro hle
    by_contra hx
    have := h.mpr (by linarith)
    omega
  · intro hle
    by_contra hx
    have := h.mp (by omega)
    linarith

theorem halfUp_nonneg (hx : 0 ≤ x) : 0 ≤ halfUp x := by
  unfold halfUp
  rw [if_pos hx]
  exact Int.floor_nonneg.mpr (by linarith)

theorem halfUp_near (x : Rat) : |x - halfUp x| ≤ 1 / 2 := by
  unfold halfUp
  rw [abs_le]
  split
  · have h1 := Int.floor_le (x + 1 / 2)
    have h2 := Int.lt_floor_add_one (x + 1 / 2)
    constructor <;> linarith
  · have h1 := Int.floor_le (-x + 1 / 2)
    have h2 := Int.lt_floor_add_one (-x + 1 / 2)
    push_cast
    constructor <;> linarith

/-- Only one whole number is less than half a unit away. -/
theorem halfUp_eq (h : |x - n| < 1 / 2) : halfUp x = n := by
  have hnear := halfUp_near x
  rw [abs_le] at hnear
  rw [abs_lt] at h
  have h1 : (halfUp x : Rat) < n + 1 := by linarith
  have h2 : (n : Rat) < halfUp x + 1 := by linarith
  have h1' : halfUp x < n + 1 := by exact_mod_cast h1
  have h2' : n < halfUp x + 1 := by exact_mod_cast h2
  omega

@[simp] theorem halfUp_intCast (n : Int) : halfUp (n : Rat) = n := halfUp_eq (by simp)

theorem halfUp_intAdd (hx : 0 ≤ x) (hn : 0 ≤ n + x) : halfUp (n + x) = n + halfUp x := by
  unfold halfUp
  rw [if_pos hn, if_pos hx, add_assoc, Int.floor_intCast_add]

theorem halfUp_mono (h : x ≤ y) : halfUp x ≤ halfUp y := by
  by_contra hlt
  push Not at hlt
  have hx := abs_le.mp (halfUp_near x)
  have hy := abs_le.mp (halfUp_near y)
  -- the two would have to lie at the same half
  have hgap : (halfUp y : Rat) + 1 ≤ halfUp x := by exact_mod_cast hlt
  have hxy : x = y := by linarith
  rw [hxy] at hlt
  exact lt_irrefl _ hlt

theorem natAbs_halfUp_le (h : |x| ≤ |(n : Rat)|) : (halfUp x).natAbs ≤ n.natAbs := by
  have hbounds := abs_le.mp h
  have hn : |(n : Rat)| = (n.natAbs : Int) := by rw [Int.natCast_natAbs, Int.cast_abs]
  rw [hn] at hbounds
  have hup := halfUp_mono hbounds.2
  have hdown := halfUp_mono hbounds.1
  rw [halfUp_intCast] at hup
  rw [halfUp_neg, halfUp_intCast] at hdown
  omega

/-- Away from the halves, rounding commutes with taking from a whole number. -/
theorem halfUp_intSub (h : Int.fract x ≠ 1 / 2) : halfUp (n - x) = n - halfUp x := by
  have hnear := abs_le.mp (halfUp_near x)
  refine halfUp_eq (abs_lt.mpr ?_)
  push_cast
  constructor
  · rcases lt_or_eq_of_le hnear.2 with hlt | heq
    · linarith
    · refine absurd ?_ h
      rw [Int.fract_eq_iff]
      exact ⟨by norm_num, by norm_num, halfUp x, by linarith⟩
  · rcases lt_or_eq_of_le hnear.1 with hlt | heq
    · linarith
    · refine absurd ?_ h
      rw [Int.fract_eq_iff]
      exact ⟨by norm_num, by norm_num, halfUp x - 1, by push_cast; linarith⟩

/-- Taking from a whole number rounds what is taken with its halves down. -/
theorem halfUp_intSub_ceil (h : x ≤ n) : halfUp (n - x) = n - ⌈x - 1 / 2⌉ := by
  unfold halfUp
  rw [if_pos (by linarith), sub_add, sub_eq_add_neg, Int.floor_intCast_add, Int.floor_neg,
    ← sub_eq_add_neg]

/-- At a half, what is rounded and what is left of a whole number both go up. -/
theorem halfUp_intSub_half (hx : 0 ≤ x) (hn : x ≤ n) (h : Int.fract x = 1 / 2) :
    halfUp (n - x) = n - halfUp x + 1 := by
  obtain ⟨_, _, z, hz⟩ := Int.fract_eq_iff.mp h
  have hx' : halfUp x = z + 1 := by
    unfold halfUp
    rw [if_pos hx, Int.floor_eq_iff]
    push_cast
    constructor <;> linarith
  have hnx : halfUp (n - x) = n - z := by
    unfold halfUp
    rw [if_pos (by linarith), Int.floor_eq_iff]
    push_cast
    constructor <;> linarith
  rw [hx', hnx]
  ring

theorem halfUp_intSub_of_mul_neg (h : x * (n - x) < 0) : halfUp (n - x) = n - halfUp x := by
  rcases mul_neg_iff.mp h with ⟨hx, hn⟩ | ⟨hx, hn⟩
  · have hsum := halfUp_intAdd (x := x - n) (n := n) (by linarith) (by linarith)
    rw [add_sub_cancel] at hsum
    rw [hsum, ← neg_sub x, halfUp_neg]
    ring
  · rw [sub_eq_add_neg, halfUp_intAdd (by linarith) (by linarith), halfUp_neg, sub_eq_add_neg]

/-- What is rounded and what is rounded of the rest make up a whole number, unless both are
    halves on the same side of zero. -/
theorem halfUp_add_rest_iff :
    halfUp x = n - halfUp (n - x) ↔ (Int.fract x = 1 / 2 → x * (n - x) < 0) := by
  constructor
  · intro heq hhalf
    by_contra hsame
    have hsame' := not_lt.mp hsame
    rcases mul_nonneg_iff.mp hsame' with ⟨hx, hn⟩ | ⟨hx, hn⟩
    · have := halfUp_intSub_half hx (by linarith) hhalf
      omega
    · have hhalf' : Int.fract (-x) = 1 / 2 := by
        rw [Int.fract_neg (by rw [hhalf]; norm_num), hhalf]
        norm_num
      have hneg := halfUp_intSub_half (x := -x) (n := -n) (by linarith) (by push_cast; linarith)
        hhalf'
      rw [Int.cast_neg, neg_sub_neg, ← neg_sub, halfUp_neg, halfUp_neg] at hneg
      omega
  · intro h
    by_cases hhalf : Int.fract x = 1 / 2
    · rw [halfUp_intSub_of_mul_neg (h hhalf)]
      ring
    · rw [halfUp_intSub hhalf]
      ring

theorem roundTo_near (places : Nat) (x : Rat) :
    |x - roundTo places x| ≤ 1 / 2 / 10 ^ places := by
  have hpos : (0 : Rat) < 10 ^ places := by positivity
  have h := halfUp_near (x * 10 ^ places)
  unfold roundTo
  rw [le_div_iff₀ hpos]
  calc |x - halfUp (x * 10 ^ places) / 10 ^ places| * 10 ^ places
      = |(x - halfUp (x * 10 ^ places) / 10 ^ places) * 10 ^ places| := by
        rw [abs_mul, abs_of_pos hpos]
    _ = |x * 10 ^ places - halfUp (x * 10 ^ places)| := by
        rw [sub_mul, div_mul_cancel₀ _ hpos.ne']
    _ ≤ 1 / 2 := h

theorem roundTo_nonneg (hx : 0 ≤ x) : 0 ≤ roundTo places x := by
  unfold roundTo
  have := halfUp_nonneg (x := x * 10 ^ places) (by positivity)
  positivity

theorem roundTo_mono (h : x ≤ y) : roundTo places x ≤ roundTo places y := by
  unfold roundTo
  have hxy : halfUp (x * 10 ^ places) ≤ halfUp (y * 10 ^ places) :=
    halfUp_mono (mul_le_mul_of_nonneg_right h (by positivity))
  have : (halfUp (x * 10 ^ places) : Rat) ≤ halfUp (y * 10 ^ places) := by exact_mod_cast hxy
  gcongr

/-- What has no more places than that is not changed. -/
theorem roundTo_of_int (places : Nat) (h : x * 10 ^ places = n) : roundTo places x = x := by
  have hpos : (0 : Rat) < 10 ^ places := by positivity
  unfold roundTo
  rw [h, halfUp_intCast, ← h, mul_div_cancel_right₀ _ hpos.ne']

@[simp] theorem roundTo_intCast (places : Nat) (n : Int) : roundTo places (n : Rat) = n :=
  roundTo_of_int (n := n * 10 ^ places) places (by push_cast; ring)

/-- Rounding to `places` after a shift by `k` places is rounding to `k` more. -/
theorem roundTo_shift (places k : Nat) (x : Rat) :
    roundTo (places + k) (x / 10 ^ k) * 10 ^ k = roundTo places x := by
  have hk : (0 : Rat) < 10 ^ k := by positivity
  have hp : (0 : Rat) < 10 ^ places := by positivity
  unfold roundTo
  rw [pow_add, show x / 10 ^ k * (10 ^ places * 10 ^ k) = x * 10 ^ places by field_simp]
  field_simp

theorem roundTo_min (places : Nat) (x y : Rat) :
    min (roundTo places x) (roundTo places y) = roundTo places (min x y) := by
  rcases le_total x y with h | h
  · rw [min_eq_left h, min_eq_left (roundTo_mono h)]
  · rw [min_eq_right h, min_eq_right (roundTo_mono h)]

/-- Half a unit is a whole number of units of a later place. -/
theorem exists_half_units (n : Int) (hp : 0 < places) :
    ∃ M : Int, (M : Rat) = (n + 1 / 2) * 10 ^ places ∧ (0 ≤ n → 0 < M) := by
  obtain ⟨k, rfl⟩ : ∃ k, places = k + 1 := ⟨places - 1, by omega⟩
  refine ⟨(2 * n + 1) * (5 * 10 ^ k), by push_cast; ring, fun hn => ?_⟩
  positivity

/-- Rounding twice goes above a whole number a little earlier: half a unit of the first rounding
    below the half. -/
theorem halfUp_roundTo_le_iff (hp : 0 < places) (hn : 0 ≤ n) :
    halfUp (roundTo places x) ≤ n ↔ x < n + 1 / 2 - 1 / 2 / 10 ^ places := by
  have hpos : (0 : Rat) < 10 ^ places := by positivity
  obtain ⟨M, hM, hMpos⟩ := exists_half_units n hp
  have hM0 := hMpos hn
  calc halfUp (roundTo places x) ≤ n
      ↔ roundTo places x < n + 1 / 2 := halfUp_le_iff hn
    _ ↔ halfUp (x * 10 ^ places) ≤ M - 1 := by
        unfold roundTo
        rw [div_lt_iff₀ hpos, ← hM, Int.le_sub_one_iff]
        exact_mod_cast Iff.rfl
    _ ↔ x * 10 ^ places < (M - 1 : Int) + 1 / 2 := halfUp_le_iff (by omega)
    _ ↔ x < n + 1 / 2 - 1 / 2 / 10 ^ places := by
        rw [← lt_div_iff₀ hpos]
        push_cast
        rw [hM, show ((n : Rat) + 1 / 2) * 10 ^ places - 1 + 1 / 2
          = ((n : Rat) + 1 / 2) * 10 ^ places - 1 / 2 by ring, sub_div,
          mul_div_cancel_right₀ _ hpos.ne']

/-- The same of what a rounded number leaves of a whole one. -/
theorem halfUp_intSub_roundTo_le_iff {r : Int} (hp : 0 < places) (hx : 0 ≤ x) (hn : 0 ≤ n) :
    halfUp (r - roundTo places x) ≤ n ↔ r - x ≤ n + 1 / 2 - 1 / 2 / 10 ^ places := by
  have hpos : (0 : Rat) < 10 ^ places := by positivity
  obtain ⟨M, hM, -⟩ := exists_half_units (r - n - 1) hp
  have hcut : halfUp (r - roundTo places x) ≤ n ↔ M + 1 ≤ halfUp (x * 10 ^ places) := by
    rw [halfUp_le_iff hn, Int.add_one_le_iff, ← Int.cast_lt (R := Rat), hM, ← lt_div_iff₀ hpos]
    unfold roundTo
    push_cast
    constructor <;> intro h <;> linarith
  have hmove : r - x ≤ n + 1 / 2 - 1 / 2 / 10 ^ places ↔ (M : Rat) + 1 / 2 ≤ x * 10 ^ places := by
    have hM' : (M : Rat) + 1 / 2 = (r - n - 1 / 2 + 1 / 2 / 10 ^ places) * 10 ^ places := by
      rw [add_mul, div_mul_cancel₀ _ hpos.ne', hM]
      push_cast
      ring
    rw [hM', mul_le_mul_iff_left₀ hpos]
    constructor <;> intro h <;> linarith
  rw [hcut, hmove]
  rcases lt_or_ge 0 (M + 1) with hM1 | hM1
  · rw [le_halfUp_iff hM1]
    push_cast
    constructor <;> intro h <;> linarith
  · -- both sides ask for less than zero
    have hx' : 0 ≤ x * 10 ^ places := by positivity
    have hup := halfUp_nonneg hx'
    have hM1' : (M : Rat) + 1 ≤ 0 := by exact_mod_cast hM1
    constructor
    · intro _; linarith
    · intro _; omega

end Rounding

/-! ## Numbers -/

inductive BigNumber where
  | nan
  | infinity (negative : Bool)
  | finite (value : Rat)
  deriving DecidableEq, Repr

namespace BigNumber

/-- `DECIMAL_PLACES`. -/
def decimalPlaces : Nat := 20

def ofInt (n : Int) : BigNumber := .finite n

def negated : BigNumber → BigNumber
  | .nan => .nan
  | .infinity negative => .infinity !negative
  | .finite x => .finite (-x)

def plus : BigNumber → BigNumber → BigNumber
  | .finite x, .finite y => .finite (x + y)
  | .infinity s, .infinity t => if s = t then .infinity s else .nan
  | .infinity s, .finite _ => .infinity s
  | .finite _, .infinity t => .infinity t
  | _, _ => .nan

def minus (a b : BigNumber) : BigNumber := a.plus b.negated

def multipliedBy : BigNumber → BigNumber → BigNumber
  | .finite x, .finite y => .finite (x * y)
  | .infinity s, .infinity t => .infinity (s != t)
  | .infinity s, .finite y => if y = 0 then .nan else .infinity (s != decide (y < 0))
  | .finite x, .infinity t => if x = 0 then .nan else .infinity (decide (x < 0) != t)
  | _, _ => .nan

def div : BigNumber → BigNumber → BigNumber
  | .finite x, .finite y =>
    if y = 0 then (if x = 0 then .nan else .infinity (decide (x < 0)))
    else .finite (roundTo decimalPlaces (x / y))
  | .infinity s, .finite y => .infinity (s != decide (y < 0))
  | .finite _, .infinity _ => .finite 0
  | _, _ => .nan

/-- The root of `x`, to `decimalPlaces`: twice the root, rounded down to a whole number of the last
    place, tells which way the root goes. -/
def sqrtRat (x : Rat) : Rat :=
  ((Nat.sqrt ⌊4 * x * 10 ^ (2 * decimalPlaces)⌋.toNat + 1) / 2 : Nat) / 10 ^ decimalPlaces

def sqrt : BigNumber → BigNumber
  | .finite x => if x < 0 then .nan else .finite (sqrtRat x)
  | .infinity false => .infinity false
  | _ => .nan

/-- `toFixed`, read back. -/
def toFixed (places : Nat) : BigNumber → BigNumber
  | .finite x => .finite (roundTo places x)
  | x => x

def isLessThan : BigNumber → BigNumber → Bool
  | .finite x, .finite y => decide (x < y)
  | .infinity s, .infinity t => s && !t
  | .infinity s, .finite _ => s
  | .finite _, .infinity t => !t
  | _, _ => false

def isGreaterThan (a b : BigNumber) : Bool := b.isLessThan a

def isLessThanOrEqualTo : BigNumber → BigNumber → Bool
  | .finite x, .finite y => decide (x ≤ y)
  | .infinity s, .infinity t => s || !t
  | .infinity s, .finite _ => s
  | .finite _, .infinity t => !t
  | _, _ => false

def isZero (a : BigNumber) : Bool := decide (a = .finite 0)

/-- `BigNumber.min`. -/
def min : BigNumber → BigNumber → BigNumber
  | .nan, _ => .nan
  | _, .nan => .nan
  | a, b => if b.isLessThan a then b else a

/-- The number, if it is one. -/
def value : BigNumber → Rat
  | .finite x => x
  | _ => 0

/-- It is a number, and the number satisfies `P`. -/
def Holds (P : Rat → Prop) : BigNumber → Prop
  | .finite x => P x
  | _ => False

instance (P : Rat → Prop) [DecidablePred P] : ∀ a : BigNumber, Decidable (a.Holds P)
  | .finite x => inferInstanceAs (Decidable (P x))
  | .nan => isFalse id
  | .infinity _ => isFalse id

theorem Holds.exists_finite {P : Rat → Prop} {a : BigNumber} (h : a.Holds P) :
    ∃ x, a = .finite x ∧ P x := by
  cases a with
  | finite x => exact ⟨x, rfl, h⟩
  | nan => exact h.elim
  | infinity negative => exact h.elim

theorem sqrtRat_nonneg (x : Rat) : 0 ≤ sqrtRat x := by
  unfold sqrtRat
  positivity

/-- Where the root, rounded once more to `10^-8`, goes above `n` units. -/
theorem halfUp_sqrtRat_le_iff {x : Rat} {n : Int} (hx : 0 ≤ x) (hn : 0 ≤ n) :
    halfUp (sqrtRat x * 10 ^ 8) ≤ n ↔ x * 10 ^ 16 < (n + 1 / 2 - 1 / 2 / 10 ^ 12) ^ 2 := by
  obtain ⟨M, hM, hMpos⟩ : ∃ M : Int, (M : Rat) = (n + 1 / 2) * 10 ^ 12 ∧ (0 ≤ n → 0 < M) :=
    exists_half_units n (by norm_num)
  have hM0 := hMpos hn
  obtain ⟨m, rfl⟩ : ∃ m : Nat, M = m := ⟨M.toNat, by omega⟩
  have hm : 1 ≤ m := by omega
  have hM' : (m : Rat) = (n + 1 / 2) * 10 ^ 12 := by exact_mod_cast hM
  have hroot : n + 1 / 2 - 1 / 2 / 10 ^ 12 = ((2 * m - 1 : Nat) : Rat) / (2 * 10 ^ 12) := by
    rw [Nat.cast_sub (by omega)]
    push_cast
    rw [hM']
    ring
  have hfloor : 0 ≤ ⌊4 * x * 10 ^ (2 * decimalPlaces)⌋ := Int.floor_nonneg.mpr (by positivity)
  calc halfUp (sqrtRat x * 10 ^ 8) ≤ n
      ↔ sqrtRat x * 10 ^ 8 < n + 1 / 2 := halfUp_le_iff hn
    _ ↔ (((Nat.sqrt ⌊4 * x * 10 ^ (2 * decimalPlaces)⌋.toNat + 1) / 2 : Nat) : Rat) < m := by
        unfold sqrtRat decimalPlaces
        rw [hM']
        constructor <;> intro h <;> linarith
    _ ↔ Nat.sqrt ⌊4 * x * 10 ^ (2 * decimalPlaces)⌋.toNat < 2 * m - 1 := by
        rw [Nat.cast_lt]
        omega
    _ ↔ ⌊4 * x * 10 ^ (2 * decimalPlaces)⌋.toNat < (2 * m - 1) ^ 2 := Nat.sqrt_lt'
    _ ↔ 4 * x * 10 ^ (2 * decimalPlaces) < (((2 * m - 1) ^ 2 : Nat) : Int) := by
        rw [← Int.floor_lt]
        omega
    _ ↔ x * 10 ^ 16 < (n + 1 / 2 - 1 / 2 / 10 ^ 12) ^ 2 := by
        rw [hroot, div_pow, lt_div_iff₀ (by positivity)]
        unfold decimalPlaces
        push_cast
        constructor <;> intro h <;> linarith

section Finite

variable (x y : Rat) (places : Nat)

@[simp] theorem plus_finite : (finite x).plus (finite y) = finite (x + y) := rfl

@[simp] theorem minus_finite : (finite x).minus (finite y) = finite (x - y) := by
  rw [sub_eq_add_neg]; rfl

@[simp] theorem multipliedBy_finite : (finite x).multipliedBy (finite y) = finite (x * y) := rfl

theorem div_finite {x y : Rat} (hy : y ≠ 0) :
    (finite x).div (finite y) = finite (roundTo decimalPlaces (x / y)) := by
  simp [div, hy]

@[simp] theorem toFixed_finite : (finite x).toFixed places = finite (roundTo places x) := rfl

@[simp] theorem isLessThan_finite : (finite x).isLessThan (finite y) = true ↔ x < y := by
  simp [isLessThan]

@[simp] theorem isGreaterThan_finite : (finite x).isGreaterThan (finite y) = true ↔ y < x := by
  simp [isGreaterThan]

@[simp] theorem isLessThanOrEqualTo_finite :
    (finite x).isLessThanOrEqualTo (finite y) = true ↔ x ≤ y := by
  simp [isLessThanOrEqualTo]

@[simp] theorem isZero_finite : (finite x).isZero = true ↔ x = 0 := by
  simp [isZero]

theorem min_finite : (finite x).min (finite y) = finite (Min.min x y) := by
  unfold min
  simp only [isLessThan_finite]
  split
  · rw [min_eq_right (by linarith)]
  · rw [min_eq_left (by linarith)]

@[simp] theorem value_finite : (finite x).value = x := rfl

end Finite

end BigNumber

/-! ## Columns -/

/-- A `numeric(precision, scale)` column: a whole number of units of its last place. -/
inductive Numeric (precision scale : Nat) where
  | nan
  | units (n : Int) (bound : n.natAbs < 10 ^ precision)
  deriving DecidableEq, Repr

namespace Numeric

variable {precision scale : Nat}

/-- What the column holds once a value is saved, if the database takes it. -/
def store : BigNumber → Option (Numeric precision scale)
  | .nan => some .nan
  | .infinity _ => none
  | .finite x =>
    if bound : (halfUp (x * 10 ^ scale)).natAbs < 10 ^ precision then
      some (.units (halfUp (x * 10 ^ scale)) bound)
    else none

/-- `new BigNumber` of the column's text. -/
def read : Numeric precision scale → BigNumber
  | .nan => .nan
  | .units n _ => .finite (n / 10 ^ scale)

def IsNumber (c : Numeric precision scale) : Prop := c ≠ .nan

instance (c : Numeric precision scale) : Decidable c.IsNumber := inferInstanceAs (Decidable (_ ≠ _))

/-- The units held; none in a column that is not a number. -/
def toUnits : Numeric precision scale → Int
  | .nan => 0
  | .units n _ => n

theorem read_of_isNumber {c : Numeric precision scale} (h : c.IsNumber) :
    c.read = .finite (c.toUnits / 10 ^ scale) := by
  cases c with
  | nan => exact absurd rfl h
  | units n bound => rfl

theorem toUnits_bound (c : Numeric precision scale) : c.toUnits.natAbs < 10 ^ precision := by
  cases c with
  | nan => exact Nat.pow_pos (by norm_num)
  | units n bound => exact bound

theorem store_finite {x : Rat} {c : Numeric precision scale} (h : store (.finite x) = some c) :
    c.IsNumber ∧ c.toUnits = halfUp (x * 10 ^ scale) := by
  unfold store at h
  simp only at h
  split at h
  · cases h
    exact ⟨by simp [IsNumber], rfl⟩
  · cases h

theorem exists_store {x : Rat} (h : (halfUp (x * 10 ^ scale)).natAbs < 10 ^ precision) :
    ∃ c : Numeric precision scale, store (.finite x) = some c :=
  ⟨.units _ h, by simp only [store, dif_pos h]⟩

/-- A column takes back what it holds. -/
theorem store_read (c : Numeric precision scale) : store c.read = some c := by
  cases c with
  | nan => rfl
  | units n bound =>
    have hn : (n : Rat) / 10 ^ scale * 10 ^ scale = n := div_mul_cancel₀ _ (by positivity)
    simp only [read, store, hn, halfUp_intCast, dif_pos bound]

/-- Writing a number to the column's scale first changes nothing. -/
theorem store_toFixed (a : BigNumber) :
    (store (a.toFixed scale) : Option (Numeric precision scale)) = store a := by
  cases a with
  | nan => rfl
  | infinity negative => rfl
  | finite x =>
    have hx : roundTo scale x * 10 ^ scale = (halfUp (x * 10 ^ scale) : Int) := by
      unfold roundTo
      exact div_mul_cancel₀ _ (by positivity)
    simp only [BigNumber.toFixed_finite, store, hx, halfUp_intCast]

end Numeric

end AgriFi.Decimal
