import AgriFi.Decimal

/-
  Numbers of JavaScript as far as amounts of money use them: each sum, difference, product and
  quotient is rounded once to a significand of 53 binary digits, halves to the even one. A double
  is the rational number it stands for; the exponent is not bounded here, nothing below comes near
  the smallest or the largest double. `toDouble_near` is what the proofs rest on: one rounding
  moves a number by at most `2^-53` of itself.
-/

namespace AgriFi.Binary64

/-! ## Rounding to a double -/

/-- The nearest whole number; halves go to the even one. -/
def halfEven (x : Rat) : Int :=
  if x - ⌊x⌋ < 1 / 2 then ⌊x⌋
  else if 1 / 2 < x - ⌊x⌋ then ⌊x⌋ + 1
  else if ⌊x⌋ % 2 = 0 then ⌊x⌋ else ⌊x⌋ + 1

/-- The place of the leading binary digit. -/
def exponent (x : Rat) : Int :=
  let e : Int := Nat.log2 x.num.natAbs - Nat.log2 x.den
  if (2 : Rat) ^ e ≤ |x| then e else e - 1

/-- The double nearest to a number. -/
def toDouble (x : Rat) : Rat :=
  if x = 0 then 0
  else halfEven (x / 2 ^ (exponent x - 52)) * 2 ^ (exponent x - 52)

def add (x y : Rat) : Rat := toDouble (x + y)

def sub (x y : Rat) : Rat := toDouble (x - y)

def mul (x y : Rat) : Rat := toDouble (x * y)

def div (x y : Rat) : Rat := toDouble (x / y)

/-- `Math.round`: the nearest whole number; halves go up. -/
def mathRound (x : Rat) : Int := ⌊x + 1 / 2⌋

section Rounding

variable {x y : Rat}

theorem halfEven_near (x : Rat) : |halfEven x - x| ≤ 1 / 2 := by
  have h1 := Int.floor_le x
  have h2 := Int.lt_floor_add_one x
  unfold halfEven
  rw [abs_le]
  split_ifs <;> push_cast <;> constructor <;> linarith

theorem two_zpow_exponent_le (hx : x ≠ 0) : (2 : Rat) ^ exponent x ≤ |x| := by
  have hnum : x.num.natAbs ≠ 0 := by simpa using hx
  have hden : x.den ≠ 0 := x.den_nz
  unfold exponent
  dsimp only
  split
  · assumption
  · -- the denominator has no more digits than its logarithm says
    have h1 : (2 : Rat) ^ Nat.log2 x.num.natAbs ≤ x.num.natAbs := by
      exact_mod_cast Nat.log2_self_le hnum
    have h2 : (x.den : Rat) ≤ 2 ^ (Nat.log2 x.den + 1) := by
      exact_mod_cast Nat.lt_log2_self.le
    have habs : |x| = x.num.natAbs / x.den := by
      conv_lhs => rw [← Rat.num_div_den x]
      rw [abs_div, Nat.abs_cast, ← Int.cast_abs, Int.abs_eq_natAbs, Int.cast_natCast]
    rw [habs, le_div_iff₀ (by positivity)]
    calc (2 : Rat) ^ ((Nat.log2 x.num.natAbs : Int) - Nat.log2 x.den - 1) * x.den
        ≤ 2 ^ ((Nat.log2 x.num.natAbs : Int) - Nat.log2 x.den - 1) *
            2 ^ (Nat.log2 x.den + 1) :=
          mul_le_mul_of_nonneg_left h2 (zpow_nonneg (by norm_num) _)
      _ = 2 ^ Nat.log2 x.num.natAbs := by
          rw [← zpow_natCast, ← zpow_natCast, ← zpow_add₀ (by norm_num)]
          congr 1
          push_cast
          ring
      _ ≤ x.num.natAbs := h1

/-- One rounding moves a number by at most `2^-53` of itself. -/
theorem toDouble_near (x : Rat) : |toDouble x - x| ≤ |x| / 2 ^ 53 := by
  unfold toDouble
  split
  · next h => simp [h]
  · next h =>
    have hu : (0 : Rat) < 2 ^ (exponent x - 52) := zpow_pos (by norm_num) _
    have hnear := halfEven_near (x / 2 ^ (exponent x - 52))
    have hexp := two_zpow_exponent_le h
    have hsplit : (2 : Rat) ^ exponent x = 2 ^ (exponent x - 52) * 2 ^ 52 := by
      rw [← zpow_natCast, ← zpow_add₀ (by norm_num)]
      congr 1
      push_cast
      ring
    have hmove : halfEven (x / 2 ^ (exponent x - 52)) * 2 ^ (exponent x - 52) - x =
        (halfEven (x / 2 ^ (exponent x - 52)) - x / 2 ^ (exponent x - 52)) *
          2 ^ (exponent x - 52) := by
      field_simp
    rw [hmove, abs_mul, abs_of_pos hu]
    calc |(halfEven (x / 2 ^ (exponent x - 52)) : Rat) - x / 2 ^ (exponent x - 52)| *
          2 ^ (exponent x - 52)
        ≤ 1 / 2 * 2 ^ (exponent x - 52) := by gcongr
      _ = 2 ^ exponent x / 2 ^ 53 := by rw [hsplit]; ring
      _ ≤ |x| / 2 ^ 53 := by gcongr

theorem abs_toDouble_le (x : Rat) : |toDouble x| ≤ |x| * (1 + 1 / 2 ^ 53) := by
  have hnear := toDouble_near x
  have htriangle : |toDouble x| ≤ |toDouble x - x| + |x| := by
    simpa using abs_add_le (toDouble x - x) x
  linarith

theorem le_abs_toDouble (x : Rat) : |x| * (1 - 1 / 2 ^ 53) ≤ |toDouble x| := by
  have hnear := toDouble_near x
  have htriangle : |x| ≤ |toDouble x - x| + |toDouble x| := by
    have h := abs_sub_abs_le_abs_sub x (toDouble x)
    rw [abs_sub_comm] at h
    linarith
  linarith

@[simp] theorem toDouble_zero : toDouble 0 = 0 := if_pos rfl

theorem halfEven_neg (x : Rat) : halfEven (-x) = -halfEven x := by
  have h1 := Int.floor_le x
  have h2 := Int.lt_floor_add_one x
  rcases h1.eq_or_lt with h | h
  · -- a whole number stays what it is
    rw [← h, ← Int.cast_neg]
    unfold halfEven
    rw [Int.floor_intCast, Int.floor_intCast, sub_self, sub_self, if_pos (by norm_num),
      if_pos (by norm_num)]
  · have hneg : ⌊-x⌋ = -⌊x⌋ - 1 := by
      rw [Int.floor_eq_iff]
      push_cast
      constructor <;> linarith
    unfold halfEven
    rw [hneg]
    push_cast
    split_ifs <;> first | omega | (exfalso; linarith)

theorem toDouble_neg (x : Rat) : toDouble (-x) = -toDouble x := by
  have hexp : exponent (-x) = exponent x := by
    unfold exponent
    rw [Rat.neg_num, Int.natAbs_neg, Rat.neg_den, abs_neg]
  unfold toDouble
  rw [hexp]
  by_cases h : x = 0
  · rw [if_pos h, if_pos (by rw [h, neg_zero]), neg_zero]
  · rw [if_neg h, if_neg (neg_ne_zero.mpr h), neg_div, halfEven_neg, Int.cast_neg, neg_mul]

/-- What a rounded number is good for when only its distance from another is known. -/
theorem toDouble_dist {e : Rat} (h : |x - y| ≤ e) :
    |toDouble x - y| ≤ e + (|y| + e) / 2 ^ 53 := by
  have hx : |x| ≤ |y| + e := by
    have := abs_sub_abs_le_abs_sub x y
    linarith
  calc |toDouble x - y| = |(toDouble x - x) + (x - y)| := by ring_nf
    _ ≤ |toDouble x - x| + |x - y| := abs_add_le _ _
    _ ≤ |x| / 2 ^ 53 + e := add_le_add (toDouble_near x) h
    _ ≤ e + (|y| + e) / 2 ^ 53 := by
        have : |x| / 2 ^ 53 ≤ (|y| + e) / 2 ^ 53 := by gcongr
        linarith

/-- `Math.round` finds the whole number that is less than half a unit away. -/
theorem mathRound_eq {n : Int} (h : |x - n| < 1 / 2) : mathRound x = n := by
  rw [abs_lt] at h
  unfold mathRound
  rw [Int.floor_eq_iff]
  constructor <;> linarith

end Rounding

/-! ## Sums -/

/-- The sum of a list as a loop adds it up, one rounding for each entry. -/
def sum (xs : List Rat) : Rat := xs.foldl add 0

@[simp] theorem sum_nil : sum [] = 0 := rfl

theorem sum_concat (xs : List Rat) (x : Rat) : sum (xs ++ [x]) = add (sum xs) x := by
  unfold sum
  rw [List.foldl_concat]

/-! ## Whole cents -/

/-- The double that stands for a number of cents, in dollars: `Number('12.34')`. -/
def cents (k : Int) : Rat := toDouble (k / 100)

/-- `Math.round(x * 100)`. -/
def toCents (x : Rat) : Int := mathRound (mul x 100)

/-- `Math.round(x * 100) / 100`. -/
def roundCents (x : Rat) : Rat := div (toCents x) 100

section Cents

variable {x e : Rat} {k m n : Int} {ks : List Int}

theorem cents_near (k : Int) : |cents k - k / 100| ≤ |(k : Rat)| / 100 / 2 ^ 53 := by
  have h := toDouble_near ((k : Rat) / 100)
  rwa [abs_div, abs_of_pos (by norm_num : (0 : Rat) < 100)] at h

@[simp] theorem cents_zero : cents 0 = 0 := by
  unfold cents
  rw [Int.cast_zero, zero_div, toDouble_zero]

theorem cents_neg (k : Int) : cents (-k) = -cents k := by
  unfold cents
  rw [Int.cast_neg, neg_div, toDouble_neg]

/-- The cents come out of a number that is off by `e` dollars if `100 * e` and two roundings
    leave it within half a cent. -/
theorem toCents_eq (h : |x - k / 100| ≤ e)
    (he : 100 * e + (|(k : Rat)| + 100 * e) / 2 ^ 53 < 1 / 2) : toCents x = k := by
  have hscaled : |x * 100 - k| ≤ 100 * e := by
    have hfactor : x * 100 - k = (x - k / 100) * 100 := by ring
    rw [hfactor, abs_mul, abs_of_pos (by norm_num : (0 : Rat) < 100)]
    linarith
  exact mathRound_eq (lt_of_le_of_lt (toDouble_dist hscaled) he)

theorem roundCents_of_toCents (h : toCents x = k) : roundCents x = cents k := by
  unfold roundCents
  rw [h]
  rfl

theorem toCents_cents (hk : |k| ≤ 2 ^ 50) : toCents (cents k) = k := by
  have hk' : |(k : Rat)| ≤ 2 ^ 50 := by exact_mod_cast hk
  refine toCents_eq (cents_near k) ?_
  linarith

theorem roundCents_cents (hk : |k| ≤ 2 ^ 50) : roundCents (cents k) = cents k :=
  roundCents_of_toCents (toCents_cents hk)

/-- A difference of two amounts, rounded to cents: each amount was rounded once before, and the
    difference is rounded twice. -/
theorem roundCents_sub (hm : 0 ≤ m) (hn : 0 ≤ n) (hm' : 5 * m ≤ 2 ^ 52) (hn' : 5 * n ≤ 2 ^ 52) :
    roundCents (sub (cents m) (cents n)) = cents (m - n) := by
  have h0 : (0 : Rat) ≤ m := by exact_mod_cast hm
  have h1 : (0 : Rat) ≤ n := by exact_mod_cast hn
  have h2 : 5 * (m : Rat) ≤ 2 ^ 52 := by exact_mod_cast hm'
  have h3 : 5 * (n : Rat) ≤ 2 ^ 52 := by exact_mod_cast hn'
  have hmn : |((m - n : Int) : Rat)| ≤ 2 ^ 52 / 5 := by
    push_cast
    rw [abs_le]
    constructor <;> linarith
  have hscaled : |((m - n : Int) : Rat) / 100| ≤ 2 ^ 52 / 5 / 100 := by
    rw [abs_div, abs_of_pos (by norm_num : (0 : Rat) < 100)]
    linarith
  have hdiff : |cents m - cents n - ((m - n : Int) : Rat) / 100| ≤ 2 * (2 ^ 52 / 5) / 100 / 2 ^ 53 := by
    have hsplit : cents m - cents n - ((m - n : Int) : Rat) / 100 =
        (cents m - m / 100) - (cents n - n / 100) := by
      push_cast
      ring
    rw [hsplit]
    have hm'' := cents_near m
    have hn'' := cents_near n
    rw [abs_of_nonneg h0] at hm''
    rw [abs_of_nonneg h1] at hn''
    have := abs_sub (cents m - m / 100) (cents n - n / 100)
    linarith
  refine roundCents_of_toCents (toCents_eq (toDouble_dist hdiff) ?_)
  linarith

/-- More cents are a greater double while a cent is more than two roundings. -/
theorem cents_lt_cents (hm : |m| ≤ 2 ^ 50) (hn : |n| ≤ 2 ^ 50) (h : m < n) : cents m < cents n := by
  have hm' : |(m : Rat)| ≤ 2 ^ 50 := by exact_mod_cast hm
  have hn' : |(n : Rat)| ≤ 2 ^ 50 := by exact_mod_cast hn
  have h' : (m : Rat) + 1 ≤ n := by exact_mod_cast h
  have h1 := (abs_le.mp (cents_near m)).2
  have h2 := (abs_le.mp (cents_near n)).1
  linarith

theorem cents_pos (hk : k ≤ 2 ^ 50) (h : 0 < k) : 0 < cents k := by
  have := cents_lt_cents (m := 0) (n := k) (by norm_num) (by rwa [abs_of_pos h]) h
  rwa [cents_zero] at this

/-- A sum of two amounts, rounded to cents. -/
theorem roundCents_add (hm : |m| ≤ 2 ^ 49) (hn : |n| ≤ 2 ^ 49) :
    roundCents (add (cents m) (cents n)) = cents (m + n) := by
  have hm' : |(m : Rat)| ≤ 2 ^ 49 := by exact_mod_cast hm
  have hn' : |(n : Rat)| ≤ 2 ^ 49 := by exact_mod_cast hn
  have hmn : |((m + n : Int) : Rat)| ≤ 2 ^ 50 := by
    push_cast
    linarith [abs_add_le (m : Rat) n]
  have hsum : |cents m + cents n - ((m + n : Int) : Rat) / 100| ≤ 2 ^ 50 / 100 / 2 ^ 53 := by
    have hsplit : cents m + cents n - ((m + n : Int) : Rat) / 100 =
        (cents m - m / 100) + (cents n - n / 100) := by
      push_cast
      ring
    rw [hsplit]
    linarith [abs_add_le (cents m - m / 100) (cents n - n / 100), cents_near m, cents_near n]
  have hscaled : |((m + n : Int) : Rat) / 100| ≤ 2 ^ 50 / 100 := by
    rw [abs_div, abs_of_pos (by norm_num : (0 : Rat) < 100)]
    linarith
  refine roundCents_of_toCents (toCents_eq (toDouble_dist hsum) ?_)
  linarith

/-- What is left of an amount when two are taken off one after the other. -/
theorem roundCents_sub_sub (hm : |m| ≤ 2 ^ 48) (hn : |n| ≤ 2 ^ 48) (hk : |k| ≤ 2 ^ 48) :
    roundCents (sub (sub (cents m) (cents n)) (cents k)) = cents (m - n - k) := by
  have hm' : |(m : Rat)| ≤ 2 ^ 48 := by exact_mod_cast hm
  have hn' : |(n : Rat)| ≤ 2 ^ 48 := by exact_mod_cast hn
  have hk' : |(k : Rat)| ≤ 2 ^ 48 := by exact_mod_cast hk
  have hmn : |((m : Rat) - n) / 100| ≤ 2 ^ 49 / 100 := by
    rw [abs_div, abs_of_pos (by norm_num : (0 : Rat) < 100)]
    linarith [abs_sub (m : Rat) n]
  have hmnk : |((m - n - k : Int) : Rat)| ≤ 3 * 2 ^ 48 := by
    push_cast
    linarith [abs_sub ((m : Rat) - n) k, abs_sub (m : Rat) n]
  have hscaled : |((m - n - k : Int) : Rat) / 100| ≤ 3 * 2 ^ 48 / 100 := by
    rw [abs_div, abs_of_pos (by norm_num : (0 : Rat) < 100)]
    linarith
  have hfirst : |cents m - cents n - ((m : Rat) - n) / 100| ≤ 2 ^ 49 / 100 / 2 ^ 53 := by
    have hsplit : cents m - cents n - ((m : Rat) - n) / 100 =
        (cents m - m / 100) - (cents n - n / 100) := by ring
    rw [hsplit]
    linarith [abs_sub (cents m - m / 100) (cents n - n / 100), cents_near m, cents_near n]
  have hround := toDouble_dist hfirst
  have hsecond : |sub (cents m) (cents n) - cents k - ((m - n - k : Int) : Rat) / 100| ≤
      (2 ^ 49 + 2 ^ 49 + 1 + 2 ^ 48) / 100 / 2 ^ 53 := by
    have hsplit : sub (cents m) (cents n) - cents k - ((m - n - k : Int) : Rat) / 100 =
        (toDouble (cents m - cents n) - ((m : Rat) - n) / 100) - (cents k - k / 100) := by
      unfold sub
      push_cast
      ring
    rw [hsplit]
    linarith [abs_sub (toDouble (cents m - cents n) - ((m : Rat) - n) / 100) (cents k - k / 100),
      cents_near k]
  refine roundCents_of_toCents (toCents_eq (toDouble_dist hsecond) ?_)
  linarith

/-- A payment that a balance covers as a double is covered in cents. -/
theorem add_le_of_add_cents_le (hk : |k| ≤ 2 ^ 48) (hm : 0 ≤ m) (hn : 0 ≤ n)
    (h : add (cents m) (cents n) ≤ cents k) : m + n ≤ k := by
  have hk' : |(k : Rat)| ≤ 2 ^ 48 := by exact_mod_cast hk
  have hm' : (0 : Rat) ≤ m := by exact_mod_cast hm
  have hn' : (0 : Rat) ≤ n := by exact_mod_cast hn
  have h1 := (abs_le.mp (cents_near m)).1
  have h2 := (abs_le.mp (cents_near n)).1
  have h3 := (abs_le.mp (cents_near k)).2
  have h4 := (abs_le.mp (toDouble_near (cents m + cents n))).1
  rw [abs_of_nonneg hm'] at h1
  rw [abs_of_nonneg hn'] at h2
  rw [abs_of_nonneg (by linarith : 0 ≤ cents m + cents n)] at h4
  have hle : toDouble (cents m + cents n) ≤ cents k := h
  have hk0 := abs_le.mp hk'
  by_contra hlt
  have hmore : (k : Rat) + 1 ≤ m + n := by exact_mod_cast not_le.mp hlt
  linarith

theorem cents_mono (hm : |m| ≤ 2 ^ 50) (h : m ≤ n) : cents m ≤ cents n := by
  have hm' : |(m : Rat)| ≤ 2 ^ 50 := by exact_mod_cast hm
  rcases h.eq_or_lt with rfl | h
  · exact le_refl _
  have h' : (m : Rat) + 1 ≤ n := by exact_mod_cast h
  have h1 := (abs_le.mp (cents_near m)).2
  have h2 := (abs_le.mp (cents_near n)).1
  obtain ⟨hlow, hhigh⟩ := abs_le.mp hm'
  rcases abs_cases (n : Rat) with ⟨hn, -⟩ | ⟨hn, -⟩ <;> rw [hn] at h2 <;> linarith

theorem cents_nonpos (h : k ≤ 0) : cents k ≤ 0 := by
  have h' : (k : Rat) ≤ 0 := by exact_mod_cast h
  have hnear := (abs_le.mp (cents_near k)).2
  rw [abs_of_nonpos h'] at hnear
  linarith

theorem toDouble_nonneg {x : Rat} (h : 0 ≤ x) : 0 ≤ toDouble x := by
  have hnear := (abs_le.mp (toDouble_near x)).1
  rw [abs_of_nonneg h] at hnear
  linarith

theorem toCents_nonneg {x : Rat} (h : 0 ≤ x) : 0 ≤ toCents x := by
  have hmul : 0 ≤ mul x 100 := toDouble_nonneg (by linarith)
  exact Int.floor_nonneg.mpr (by linarith)

theorem cents_min (hm : |m| ≤ 2 ^ 50) (hn : |n| ≤ 2 ^ 50) :
    min (cents m) (cents n) = cents (min m n) := by
  rcases lt_trichotomy m n with h | rfl | h
  · rw [min_eq_left (cents_lt_cents hm hn h).le, min_eq_left h.le]
  · rw [min_self, min_self]
  · rw [min_eq_right (cents_lt_cents hn hm h).le, min_eq_right h.le]

/-! ## Sums of whole cents -/

/-- A power of one rounding's factor, as long as there are not too many roundings. -/
theorem one_add_pow_le {j : Nat} {u : Rat} (hu : 0 ≤ u) (hj : j * u ≤ 1) :
    (1 + u) ^ j ≤ 1 + j * u + (j * u) ^ 2 := by
  induction j with
  | zero => simp
  | succ j ih =>
    push_cast at hj ⊢
    have hj' : (j : Rat) * u ≤ 1 := by linarith
    have hju : 0 ≤ (j : Rat) * u := by positivity
    have hlast : (j * u) ^ 2 * u ≤ j * u * u := by
      have := mul_le_mul_of_nonneg_left hj' hju
      have := mul_le_mul_of_nonneg_right this hu
      linarith
    calc (1 + u) ^ (j + 1) = (1 + u) ^ j * (1 + u) := pow_succ _ _
      _ ≤ (1 + j * u + (j * u) ^ 2) * (1 + u) :=
          mul_le_mul_of_nonneg_right (ih hj') (by linarith)
      _ = 1 + (j + 1) * u + ((j * u) ^ 2 + j * u * u + (j * u) ^ 2 * u) := by ring
      _ ≤ 1 + (j + 1) * u + ((j * u) ^ 2 + j * u * u + (j * u * u + u * u)) := by
          have := mul_nonneg hu hu
          linarith
      _ = 1 + (j + 1) * u + ((j + 1) * u) ^ 2 := by ring

theorem abs_sum_le (ks : List Int) : |ks.sum| ≤ (ks.map abs).sum :=
  List.le_sum_of_subadditive abs abs_zero.le abs_add_le ks

/-- Each amount is rounded once when it is read and each sum once when it is formed. -/
theorem sum_cents_near (ks : List Int) :
    |sum (ks.map cents) - ks.sum / 100| ≤
      ((1 + 1 / 2 ^ 53) ^ (ks.length + 1) - 1) * ((ks.map abs).sum : Int) / 100 := by
  induction ks using List.reverseRecOn with
  | nil => simp
  | append_singleton ks k ih =>
    have hρ : (1 : Rat) + 1 / 2 ^ 53 ≤ (1 + 1 / 2 ^ 53) ^ (ks.length + 1) :=
      le_self_pow₀ (by norm_num) (by omega)
    have htotal : |((ks.sum + k : Int) : Rat)| ≤ ((ks.map abs).sum + |k| : Int) := by
      have h1 : |ks.sum| ≤ (ks.map abs).sum := abs_sum_le ks
      have h2 := abs_add_le ks.sum k
      exact_mod_cast h2.trans (by omega)
    have hk := cents_near k
    have hform : |sum (ks.map cents) + cents k - (ks.sum + k) / 100| ≤
        ((1 + 1 / 2 ^ 53) ^ (ks.length + 1) - 1) * (((ks.map abs).sum : Int) + |(k : Rat)|) / 100 := by
      have hsplit : sum (ks.map cents) + cents k - (ks.sum + k) / 100 =
          (sum (ks.map cents) - ks.sum / 100) + (cents k - k / 100) := by ring
      rw [hsplit]
      have hread : |(k : Rat)| / 100 / 2 ^ 53 ≤
          ((1 + 1 / 2 ^ 53) ^ (ks.length + 1) - 1) * |(k : Rat)| / 100 := by
        have := mul_le_mul_of_nonneg_right hρ (abs_nonneg (k : Rat))
        linarith
      calc _ ≤ |sum (ks.map cents) - ks.sum / 100| + |cents k - k / 100| := abs_add_le _ _
        _ ≤ _ := by linarith
    rw [List.map_append, List.map_singleton, sum_concat, List.sum_append, List.sum_singleton,
      List.map_append, List.map_singleton, List.sum_append, List.sum_singleton,
      List.length_append, List.length_singleton, pow_succ]
    simp only [Int.cast_add, Int.cast_abs] at htotal ⊢
    have htotal' : |((ks.sum : Rat) + k) / 100| ≤ (((ks.map abs).sum : Int) + |(k : Rat)|) / 100 := by
      rw [abs_div, abs_of_pos (by norm_num : (0 : Rat) < 100)]
      linarith
    refine (toDouble_dist hform).trans ?_
    have hfactor : 0 ≤ (1 + 1 / 2 ^ 53 : Rat) ^ (ks.length + 1) := by positivity
    generalize (1 + 1 / 2 ^ 53 : Rat) ^ (ks.length + 1) = ρ at *
    generalize ((ks.map abs).sum : Int) = A at *
    linarith

/-- The same with the error spelled out: two roundings more than there are amounts. -/
theorem sum_cents_dist (hlen : (ks.length + 1) ^ 2 ≤ 2 ^ 53) :
    |sum (ks.map cents) - ks.sum / 100| ≤
      (ks.length + 2) * ((ks.map abs).sum : Int) / 100 / 2 ^ 53 := by
  have hlen' : ((ks.length : Rat) + 1) ^ 2 ≤ 2 ^ 53 := by exact_mod_cast hlen
  have hone : (1 : Rat) ≤ (ks.length : Rat) + 1 := by
    have : (0 : Rat) ≤ ks.length := Nat.cast_nonneg _
    linarith
  have hpow := one_add_pow_le (j := ks.length + 1) (u := 1 / 2 ^ 53) (by norm_num) (by
    have := le_self_pow₀ hone two_ne_zero
    push_cast
    linarith)
  have hsquare : (((ks.length + 1 : Nat) : Rat) * (1 / 2 ^ 53)) ^ 2 ≤ 1 / 2 ^ 53 := by
    push_cast
    rw [mul_pow]
    linarith
  have habs : (0 : Rat) ≤ ((ks.map abs).sum : Int) := by
    exact_mod_cast (abs_nonneg _).trans (abs_sum_le ks)
  have hfactor : (1 + 1 / 2 ^ 53 : Rat) ^ (ks.length + 1) - 1 ≤ (ks.length + 2) / 2 ^ 53 := by
    push_cast at hpow hsquare
    linarith
  have := mul_le_mul_of_nonneg_right hfactor habs
  refine (sum_cents_near ks).trans ?_
  linarith

/-- A sum comes back to its cents as long as all its roundings together stay below half a cent. -/
theorem toCents_sum (hlen : (ks.length + 1) ^ 2 ≤ 2 ^ 53)
    (h : (ks.length + 4) * (ks.map abs).sum < 2 ^ 52) :
    toCents (sum (ks.map cents)) = ks.sum := by
  have habs : (0 : Rat) ≤ ((ks.map abs).sum : Int) := by
    exact_mod_cast (abs_nonneg _).trans (abs_sum_le ks)
  have hsum : |(ks.sum : Rat)| ≤ ((ks.map abs).sum : Int) := by exact_mod_cast abs_sum_le ks
  have h' : (ks.length + 4) * ((ks.map abs).sum : Int) < (2 : Rat) ^ 52 := by exact_mod_cast h
  have hshare : ((ks.length : Rat) + 2) * ((ks.map abs).sum : Int) ≤
      2 ^ 52 * ((ks.map abs).sum : Int) := by
    refine mul_le_mul_of_nonneg_right ?_ habs
    have hlen' : (ks.length + 1) ^ 2 ≤ (2 ^ 27 : Nat) ^ 2 := hlen.trans (by norm_num)
    have := (Nat.pow_le_pow_iff_left two_ne_zero).mp hlen'
    exact_mod_cast (by omega : ks.length + 2 ≤ 2 ^ 52)
  refine toCents_eq (sum_cents_dist hlen) ?_
  generalize (((ks.map abs).sum : Int) : Rat) = A at *
  linarith

end Cents

end AgriFi.Binary64
