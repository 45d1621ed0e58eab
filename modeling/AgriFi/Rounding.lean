import AgriFi.Binary64

/-
  What rounding to a double does, in units of the last place. A double is what it rounds to
  (`toDouble_toDouble`), and so is what is close to it (`toDouble_eq_of_close`).
-/

namespace AgriFi.Binary64

variable {x y : Rat} {e : Int}

theorem halfEven_eq {m : Int} (h : |y - m| < 1 / 2) : halfEven y = m := by
  have hnear := halfEven_near y
  have hdist : |((halfEven y - m : Int) : Rat)| < 1 := by
    push_cast
    calc |(halfEven y : Rat) - m| ≤ |(halfEven y : Rat) - y| + |y - m| := abs_sub_le _ _ _
      _ < 1 := by linarith
  rw [← Int.cast_abs] at hdist
  have habs : |halfEven y - m| < 1 := by exact_mod_cast hdist
  exact Int.eq_of_sub_eq_zero (Int.abs_lt_one_iff.mp habs)

theorem lt_two_zpow_exponent (x : Rat) : |x| < (2 : Rat) ^ (exponent x + 1) := by
  have hnum : x.num.natAbs < 2 ^ (Nat.log2 x.num.natAbs + 1) := Nat.lt_log2_self
  have hden : 2 ^ Nat.log2 x.den ≤ x.den := Nat.log2_self_le x.den_nz
  have hlt : |x| < (2 : Rat) ^ ((Nat.log2 x.num.natAbs : Int) - Nat.log2 x.den + 1) := by
    have hden0 : (0 : Rat) < x.den := by exact_mod_cast x.den_pos
    rw [← Rat.num_div_den x, abs_div, abs_of_pos hden0, div_lt_iff₀ hden0]
    have habs : |(x.num : Rat)| = x.num.natAbs := by
      rw [← Int.cast_abs, Int.abs_eq_natAbs, Int.cast_natCast]
    rw [Rat.num_div_den, habs]
    calc ((x.num.natAbs : Nat) : Rat) < (2 : Rat) ^ (Nat.log2 x.num.natAbs + 1) := by
          exact_mod_cast hnum
      _ = (2 : Rat) ^ ((Nat.log2 x.num.natAbs : Int) - Nat.log2 x.den + 1) *
          2 ^ Nat.log2 x.den := by
        rw [← zpow_natCast, ← zpow_natCast, ← zpow_add₀ (by norm_num)]
        congr 1
        push_cast
        ring
      _ ≤ (2 : Rat) ^ ((Nat.log2 x.num.natAbs : Int) - Nat.log2 x.den + 1) * x.den := by
        refine mul_le_mul_of_nonneg_left ?_ (zpow_nonneg (by norm_num) _)
        exact_mod_cast hden
  unfold exponent
  dsimp only
  split
  · exact hlt
  · next hnot =>
    rw [sub_add_cancel]
    exact not_le.mp hnot

theorem exponent_eq (hle : (2 : Rat) ^ e ≤ |x|) (hlt : |x| < (2 : Rat) ^ (e + 1)) :
    exponent x = e := by
  have hx : x ≠ 0 := by
    rintro rfl
    rw [abs_zero] at hle
    exact absurd hle (not_le.mpr (zpow_pos (by norm_num) e))
  have h1 := (zpow_lt_zpow_iff_right₀ (by norm_num : (1 : Rat) < 2)).mp
    ((two_zpow_exponent_le hx).trans_lt hlt)
  have h2 := (zpow_lt_zpow_iff_right₀ (by norm_num : (1 : Rat) < 2)).mp
    (hle.trans_lt (lt_two_zpow_exponent x))
  omega

theorem two_zpow_exponent_eq (x : Rat) :
    (2 : Rat) ^ exponent x = 2 ^ 52 * 2 ^ (exponent x - 52) := by
  rw [← zpow_natCast, ← zpow_add₀ (by norm_num)]
  congr 1
  push_cast
  ring

/-- A whole multiple of a power of two with at most 53 binary digits is a double. -/
theorem toDouble_mul_zpow {m k : Int} (hm : |m| < 2 ^ 53) : toDouble (m * 2 ^ k) = m * 2 ^ k := by
  rcases eq_or_ne m 0 with rfl | hm0
  · simp
  have hk : (0 : Rat) < 2 ^ k := zpow_pos (by norm_num) _
  have hx : (m : Rat) * 2 ^ k ≠ 0 := mul_ne_zero (by exact_mod_cast hm0) hk.ne'
  set e := exponent (m * 2 ^ k) with he
  have hlt : (2 : Rat) ^ e < 2 ^ (53 + k) := by
    calc (2 : Rat) ^ e ≤ |(m : Rat) * 2 ^ k| := two_zpow_exponent_le hx
      _ = |(m : Rat)| * 2 ^ k := by rw [abs_mul, abs_of_pos hk]
      _ < 2 ^ 53 * 2 ^ k := mul_lt_mul_of_pos_right (by exact_mod_cast hm) hk
      _ = 2 ^ (53 + k) := by rw [zpow_add₀ (by norm_num)]; rfl
  have hexp := (zpow_lt_zpow_iff_right₀ (by norm_num : (1 : Rat) < 2)).mp hlt
  obtain ⟨j, hj⟩ : ∃ j : Nat, k = j + (e - 52) := ⟨(k - (e - 52)).toNat, by omega⟩
  have hquot : (m : Rat) * 2 ^ k / 2 ^ (e - 52) = ((m * 2 ^ j : Int) : Rat) := by
    rw [div_eq_iff (zpow_pos (by norm_num) _).ne', hj, zpow_add₀ (by norm_num), zpow_natCast]
    push_cast
    ring
  have hwhole : halfEven ((m : Rat) * 2 ^ k / 2 ^ (e - 52)) = m * 2 ^ j := by
    refine halfEven_eq ?_
    rw [hquot, sub_self, abs_zero]
    norm_num
  rw [toDouble, if_neg hx, ← he, hwhole, ← hquot, div_mul_cancel₀ _ (zpow_pos (by norm_num) _).ne']

@[simp] theorem toDouble_toDouble (x : Rat) : toDouble (toDouble x) = toDouble x := by
  rcases eq_or_ne x 0 with rfl | hx
  · simp
  have hu : (0 : Rat) < 2 ^ (exponent x - 52) := zpow_pos (by norm_num) _
  have hlt := lt_two_zpow_exponent x
  rw [zpow_add₀ (by norm_num), two_zpow_exponent_eq] at hlt
  have hquot : |x / 2 ^ (exponent x - 52)| < 2 ^ 53 := by
    rw [abs_div, abs_of_pos hu, div_lt_iff₀ hu]
    linarith
  have hnear := halfEven_near (x / 2 ^ (exponent x - 52))
  have hx' : toDouble x = halfEven (x / 2 ^ (exponent x - 52)) * 2 ^ (exponent x - 52) := by
    rw [toDouble, if_neg hx]
  generalize halfEven (x / 2 ^ (exponent x - 52)) = m at hnear hx'
  have hm : |m| ≤ 2 ^ 53 := by
    have habs : |(m : Rat)| < 2 ^ 53 + 1 := by
      have htriangle : |(m : Rat)| ≤ |(m : Rat) - x / 2 ^ (exponent x - 52)| +
          |x / 2 ^ (exponent x - 52)| := by
        simpa using abs_add_le ((m : Rat) - x / 2 ^ (exponent x - 52)) (x / 2 ^ (exponent x - 52))
      linarith
    have habs' : |m| < 2 ^ 53 + 1 := by exact_mod_cast habs
    omega
  rw [hx']
  rcases hm.lt_or_eq with hlt' | heq
  · exact toDouble_mul_zpow hlt'
  · -- rounded up to the next power of two
    obtain ⟨n, hn, hn'⟩ : ∃ n : Int, m = n * 2 ∧ |n| < 2 ^ 53 := by
      rcases abs_choice m with h | h <;> rw [h] at heq
      · exact ⟨2 ^ 52, by omega, by norm_num⟩
      · exact ⟨-2 ^ 52, by omega, by norm_num⟩
    have hshift : (m : Rat) * 2 ^ (exponent x - 52) = n * 2 ^ (exponent x - 52 + 1) := by
      rw [hn, zpow_add₀ (by norm_num), zpow_one]
      push_cast
      ring
    rw [hshift]
    exact toDouble_mul_zpow hn'

/-! ## The nearest double -/

/-- What is within half a unit of the last place of a positive double rounds to it; below the power
    of two that a double may be, the unit is half as long. -/
theorem toDouble_eq_of_close (hx : toDouble x = x) (hpos : 0 < x)
    (h : |y - x| < 2 ^ (exponent x - 52) / 2)
    (hbelow : y < 2 ^ exponent x → |y - x| < 2 ^ (exponent x - 52) / 4) : toDouble y = x := by
  set u : Rat := 2 ^ (exponent x - 52) with hu
  have hu0 : 0 < u := zpow_pos (by norm_num) _
  obtain ⟨m, hm⟩ : ∃ m : Int, x = m * u := by
    refine ⟨halfEven (x / u), ?_⟩
    conv_lhs => rw [← hx, toDouble, if_neg hpos.ne']
  have hlow : (2 : Rat) ^ exponent x = 2 ^ 52 * u := two_zpow_exponent_eq x
  have hhigh : (2 : Rat) ^ (exponent x + 1) = 2 ^ 53 * u := by
    rw [zpow_add₀ (by norm_num), hlow]
    ring
  have hm1 : (2 : Int) ^ 52 ≤ m := by
    have hle := two_zpow_exponent_le hpos.ne'
    rw [abs_of_pos hpos, hlow, hm] at hle
    exact_mod_cast le_of_mul_le_mul_right hle hu0
  have hm2 : m < (2 : Int) ^ 53 := by
    have hlt := lt_two_zpow_exponent x
    rw [abs_of_pos hpos, hhigh, hm] at hlt
    exact_mod_cast lt_of_mul_lt_mul_right hlt hu0.le
  -- the distance in units of the last place
  have hy : y = y / u * u := (div_mul_cancel₀ y hu0.ne').symm
  generalize hz : y / u = z at hy
  have hdist : |y - x| = |z - m| * u := by rw [hy, hm, ← sub_mul, abs_mul, abs_of_pos hu0]
  rw [hdist] at h hbelow
  have hm1' : (2 : Rat) ^ 52 ≤ m := by exact_mod_cast hm1
  have hm2' : (m : Rat) ≤ 2 ^ 53 - 1 := by
    have hle : m ≤ 2 ^ 53 - 1 := by omega
    exact_mod_cast hle
  have hhalf : |z - m| < 1 / 2 := by
    refine lt_of_mul_lt_mul_right (?_ : |z - m| * u < 1 / 2 * u) hu0.le
    linarith
  obtain ⟨hz1, hz2⟩ := abs_lt.mp hhalf
  have hy0 : 0 < y := by
    rw [hy]
    exact mul_pos (by linarith) hu0
  rcases le_or_gt (2 ^ 52) z with hge | hlt
  · have hexp : exponent y = exponent x := by
      refine exponent_eq ?_ ?_
      · rw [abs_of_pos hy0, hlow, hy]
        exact mul_le_mul_of_nonneg_right hge hu0.le
      · rw [abs_of_pos hy0, hhigh, hy]
        exact mul_lt_mul_of_pos_right (by linarith) hu0
    rw [toDouble, if_neg hy0.ne', hexp, ← hu, hz, halfEven_eq hhalf, hm]
  · -- below the power of two that `x` is
    have hmpow : m = 2 ^ 52 := by
      have hle : (m : Rat) < 2 ^ 52 + 1 := by linarith
      have hle' : m < 2 ^ 52 + 1 := by exact_mod_cast hle
      omega
    have hylow : y < 2 ^ exponent x := by
      rw [hlow, hy]
      exact mul_lt_mul_of_pos_right hlt hu0
    have hquarter : |z - m| < 1 / 4 := by
      refine lt_of_mul_lt_mul_right (?_ : |z - m| * u < 1 / 4 * u) hu0.le
      linarith [hbelow hylow]
    have hu' : (2 : Rat) ^ (exponent x - 1 - 52) = u / 2 := by
      rw [hu, show exponent x - 1 - 52 = exponent x - 52 - 1 by ring, zpow_sub_one₀ (by norm_num)]
      rfl
    have hexp : exponent y = exponent x - 1 := by
      refine exponent_eq ?_ ?_
      · rw [abs_of_pos hy0, zpow_sub_one₀ (by norm_num), hlow, hy]
        nlinarith
      · rwa [abs_of_pos hy0, sub_add_cancel]
    have hdouble : halfEven (y / (u / 2)) = 2 ^ 53 := by
      refine halfEven_eq ?_
      have hquot : y / (u / 2) = 2 * z := by
        rw [← hz]
        field_simp
      rw [hmpow] at hquarter
      rw [hquot]
      push_cast at hquarter ⊢
      rw [abs_lt]
      obtain ⟨h1, h2⟩ := abs_lt.mp hquarter
      constructor <;> linarith
    rw [toDouble, if_neg hy0.ne', hexp, hu', hdouble, hm, hmpow]
    push_cast
    ring

/-- What is within `10^-16 / 2` of itself of a positive double rounds to it. -/
theorem toDouble_eq_of_near (hx : toDouble x = x) (hpos : 0 < x)
    (h : |y - x| ≤ x / (2 * 10 ^ 16)) : toDouble y = x := by
  have hu0 : (0 : Rat) < 2 ^ (exponent x - 52) := zpow_pos (by norm_num) _
  have hlt : x < 2 * 2 ^ exponent x := by
    have hexp := lt_two_zpow_exponent x
    rw [abs_of_pos hpos, zpow_add₀ (by norm_num)] at hexp
    linarith
  rw [two_zpow_exponent_eq] at hlt
  refine toDouble_eq_of_close hx hpos (h.trans_lt ?_) fun hbelow => h.trans_lt ?_
  · linarith
  · rw [two_zpow_exponent_eq] at hbelow
    linarith [(abs_le.mp h).1]

end AgriFi.Binary64
