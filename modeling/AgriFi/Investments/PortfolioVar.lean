import AgriFi.Quantiles
import Mathlib.Algebra.Order.BigOperators.GroupWithZero.List
import Mathlib.Data.Rat.Floor
import Mathlib.Order.Bounds.Basic
import Mathlib.Tactic.FieldSimp

/-
  Historical value at risk over exact rational numbers. The quantile is the least loss that enough
  observations do not exceed (`quantile_le_iff`), and every law follows from this: the laws of one
  confidence level, the order of two levels and the scale of the portfolio.
-/

namespace AgriFi.PortfolioVar

open AgriFi.Quantiles

structure VaRCalculationOptions where
  confidenceLevel : Rat
  horizonDays : Int
  portfolioValueUsd : Rat

structure VaRCalculation where
  varUsd : Rat
  expectedShortfallUsd : Rat
  sampleCount : Nat
  horizonSampleCount : Nat
  deriving DecidableEq

/-- What one window of days returns. -/
def windowReturn (window : List Rat) : Except String Rat :=
  if window.any (· ≤ -1) then throw "daily returns must be finite and greater than -1"
  else pure ((window.map (1 + ·)).prod - 1)

def getHorizonReturns (dailyReturns : List Rat) (horizonDays : Int) : Except String (List Rat) :=
  if horizonDays < 1 then throw "horizonDays must be a positive integer"
  else ((List.range (dailyReturns.length + 1 - horizonDays.toNat)).map fun start =>
    (dailyReturns.drop start).take horizonDays.toNat).mapM windowReturn

/-- `Math.ceil(probability * sorted.length) - 1`, kept inside the list. -/
def quantileIndex (probability : Rat) (length : Nat) : Nat :=
  (min (max 0 (⌈probability * length⌉ - 1)) (length - 1)).toNat

def quantile (values : List Rat) (probability : Rat) : Except String Rat :=
  match (values.mergeSort (· ≤ ·))[quantileIndex probability values.length]? with
  | none => throw "values must not be empty"
  | some value => pure value

/-- `calculatePortfolioVaR` with the method `historical`. -/
def calculatePortfolioVaR (dailyReturns : List Rat) (options : VaRCalculationOptions) :
    Except String VaRCalculation := do
  if options.confidenceLevel ≤ 0 ∨ 1 ≤ options.confidenceLevel then
    throw "confidenceLevel must be between 0 and 1"
  if options.portfolioValueUsd < 0 then
    throw "portfolioValueUsd must be a non-negative finite number"
  if dailyReturns = [] then throw "at least one daily return is required"
  let horizonReturns ← getHorizonReturns dailyReturns options.horizonDays
  if horizonReturns = [] then throw "not enough observations for the requested horizon"
  let losses := horizonReturns.map fun value => -value * options.portfolioValueUsd
  let varUsd := max 0 (← quantile losses options.confidenceLevel)
  let tailLosses := losses.filter (varUsd ≤ ·)
  return {
    varUsd
    expectedShortfallUsd := max 0 (average tailLosses)
    sampleCount := dailyReturns.length
    horizonSampleCount := horizonReturns.length }

/-! ## Quantiles -/

section Quantile

variable {values : List Rat} {c c' x q : Rat}

theorem quantileIndex_eq (hc : 0 < c) (hc' : c < 1) (hne : values ≠ []) :
    quantileIndex c values.length < values.length ∧
      (quantileIndex c values.length : Int) = ⌈c * values.length⌉ - 1 := by
  have hpos : (0 : Rat) < values.length := by exact_mod_cast List.length_pos_iff.mpr hne
  have hlow : 0 < ⌈c * values.length⌉ := Int.ceil_pos.mpr (mul_pos hc hpos)
  have hhigh : ⌈c * values.length⌉ ≤ values.length := by
    refine Int.ceil_le.mpr ?_
    push_cast
    nlinarith
  unfold quantileIndex
  omega

/-- The quantile is at most a number if and only if enough values are. -/
theorem quantile_le_iff (hc : 0 < c) (hc' : c < 1) (hne : values ≠ []) :
    ∃ q ∈ values, quantile values c = .ok q ∧
      ∀ x, q ≤ x ↔ c * values.length ≤ values.countP (· ≤ x) := by
  obtain ⟨hlt, hindex⟩ := quantileIndex_eq hc hc' hne
  have hperm := values.mergeSort_perm (· ≤ ·)
  have hlt' : quantileIndex c values.length < (values.mergeSort (· ≤ ·)).length := by
    rwa [List.length_mergeSort]
  have hsorted : (values.mergeSort (· ≤ ·)).Pairwise (· ≤ ·) := by
    have h : (values.mergeSort fun a b : Rat => decide (a ≤ b)).Pairwise
        fun a b => decide (a ≤ b) = true := List.pairwise_mergeSort
      (by simpa using fun a b c => le_trans) (by simpa using fun a b => le_total a b) values
    simpa using h
  refine ⟨_, hperm.mem_iff.mp (List.getElem_mem hlt'), ?_, fun x => ?_⟩
  · rw [quantile, List.getElem?_eq_getElem hlt']
    rfl
  · rw [getElem_le_iff hsorted, hperm.countP_eq]
    have hceil := Int.ceil_le (a := c * values.length) (z := (values.countP (· ≤ x) : Int))
    rw [Int.cast_natCast] at hceil
    rw [← hceil]
    omega

theorem quantile_mono (hcc : c ≤ c') {q' : Rat}
    (hq : ∀ x, q ≤ x ↔ c * values.length ≤ values.countP (· ≤ x))
    (hq' : ∀ x, q' ≤ x ↔ c' * values.length ≤ values.countP (· ≤ x)) : q ≤ q' := by
  refine (hq q').mpr (le_trans ?_ ((hq' q').mp le_rfl))
  exact mul_le_mul_of_nonneg_right hcc (Nat.cast_nonneg _)

end Quantile

/-! ## One calculation -/

/-- The windows of `horizonDays` days. -/
def windows (dailyReturns : List Rat) (horizonDays : Int) : List (List Rat) :=
  (List.range (dailyReturns.length + 1 - horizonDays.toNat)).map fun start =>
    (dailyReturns.drop start).take horizonDays.toNat

/-- What the portfolio loses over a window. -/
def lossOf (portfolioValueUsd : Rat) (window : List Rat) : Rat :=
  (1 - (window.map (1 + ·)).prod) * portfolioValueUsd

/-- The observed losses over the horizon. -/
def horizonLosses (dailyReturns : List Rat) (horizonDays : Int) (portfolioValueUsd : Rat) :
    List Rat :=
  (windows dailyReturns horizonDays).map (lossOf portfolioValueUsd)

/-- What is calculated from the losses and their quantile. -/
def measured (dailyReturns losses : List Rat) (q : Rat) : VaRCalculation where
  varUsd := max 0 q
  expectedShortfallUsd := max 0 (average (losses.filter (max 0 q ≤ ·)))
  sampleCount := dailyReturns.length
  horizonSampleCount := losses.length

section Calculation

variable {dailyReturns losses : List Rat} {horizonDays : Int} {c c' value q q' k : Rat}

theorem mapM_eq_ok {α β : Type} {f : α → Except String β} {g : α → β} {xs : List α}
    (h : ∀ x ∈ xs, f x = .ok (g x)) : xs.mapM f = .ok (xs.map g) := by
  induction xs with
  | nil => rfl
  | cons x xs ih =>
    obtain ⟨hx, hxs⟩ := List.forall_mem_cons.mp h
    rw [List.mapM_cons, hx, ih hxs]
    rfl

theorem mem_of_mem_windows {window : List Rat} (h : window ∈ windows dailyReturns horizonDays) :
    ∀ r ∈ window, r ∈ dailyReturns := by
  obtain ⟨start, -, rfl⟩ := List.mem_map.mp h
  exact fun r hr => List.mem_of_mem_drop (List.mem_of_mem_take hr)

theorem getHorizonReturns_eq (hdaily : ∀ r ∈ dailyReturns, -1 < r) (hh : 1 ≤ horizonDays) :
    getHorizonReturns dailyReturns horizonDays =
      .ok ((windows dailyReturns horizonDays).map fun w => (w.map (1 + ·)).prod - 1) := by
  rw [getHorizonReturns, if_neg (by omega)]
  refine mapM_eq_ok fun w hw => ?_
  have hnone : w.any (· ≤ -1) = false := by
    rw [List.any_eq_false]
    intro r hr
    simpa using hdaily r (mem_of_mem_windows hw r hr)
  rw [windowReturn, hnone]
  rfl

theorem windows_ne_nil (hlen : horizonDays ≤ dailyReturns.length) :
    windows dailyReturns horizonDays ≠ [] := by
  intro h
  have hlength := congrArg List.length h
  rw [windows, List.length_map, List.length_range, List.length_nil] at hlength
  omega

theorem calculatePortfolioVaR_eq (hdaily : ∀ r ∈ dailyReturns, -1 < r) (hh : 1 ≤ horizonDays)
    (hlen : horizonDays ≤ dailyReturns.length) (hc : 0 < c) (hc' : c < 1) (hvalue : 0 ≤ value) :
    ∃ q ∈ horizonLosses dailyReturns horizonDays value,
      calculatePortfolioVaR dailyReturns ⟨c, horizonDays, value⟩ =
        .ok (measured dailyReturns (horizonLosses dailyReturns horizonDays value) q) ∧
      ∀ x, q ≤ x ↔ c * (horizonLosses dailyReturns horizonDays value).length ≤
        (horizonLosses dailyReturns horizonDays value).countP (· ≤ x) := by
  have hne := windows_ne_nil hlen
  have hlosses : (((windows dailyReturns horizonDays).map fun w =>
      (w.map (1 + ·)).prod - 1).map fun x => -x * value) =
        horizonLosses dailyReturns horizonDays value := by
    rw [List.map_map]
    refine List.map_congr_left fun w _ => ?_
    simp only [Function.comp, lossOf]
    ring
  have hne' : horizonLosses dailyReturns horizonDays value ≠ [] := by
    simpa [horizonLosses] using hne
  obtain ⟨q, hmem, hq, hiff⟩ := quantile_le_iff hc hc' hne'
  refine ⟨q, hmem, ?_, hiff⟩
  have hdays : dailyReturns ≠ [] := by
    rintro rfl
    simp only [List.length_nil, Nat.cast_zero] at hlen
    omega
  simp only [calculatePortfolioVaR]
  rw [if_neg (by simp only [not_or, not_le]; exact ⟨hc, hc'⟩), if_neg (not_lt.mpr hvalue),
    if_neg hdays, getHorizonReturns_eq hdaily hh]
  simp only [bind, Except.bind, pure, Except.pure, hlosses, hq]
  rw [if_neg (by simpa using hne)]
  simp [measured, horizonLosses]

/-- No window loses more than the portfolio. -/
theorem lossOf_le {window : List Rat} (hwindow : ∀ r ∈ window, -1 < r) (hvalue : 0 ≤ value) :
    lossOf value window ≤ value := by
  have hprod : 0 ≤ (window.map (1 + ·)).prod := by
    refine List.prod_nonneg fun x hx => ?_
    obtain ⟨r, hr, rfl⟩ := List.mem_map.mp hx
    linarith [hwindow r hr]
  rw [lossOf]
  nlinarith

/-- The tail is not empty where the quantile is a loss. -/
theorem tail_ne_nil (hq : q ∈ losses) (h : 0 ≤ q) : losses.filter (max 0 q ≤ ·) ≠ [] := by
  rw [max_eq_right h]
  exact List.ne_nil_of_mem (List.mem_filter.mpr ⟨hq, by simp⟩)

theorem var_le_shortfall (hq : q ∈ losses) :
    (measured dailyReturns losses q).varUsd ≤
      (measured dailyReturns losses q).expectedShortfallUsd := by
  simp only [measured]
  rcases le_or_gt 0 q with h | h
  · exact le_max_of_le_right (le_average (tail_ne_nil hq h) fun x hx => by
      simpa using (List.mem_filter.mp hx).2)
  · rw [max_eq_left h.le]
    exact le_max_left _ _

theorem measured_le (hq : q ∈ losses) (hall : ∀ x ∈ losses, x ≤ value) (hvalue : 0 ≤ value) :
    (measured dailyReturns losses q).varUsd ≤ value ∧
      (measured dailyReturns losses q).expectedShortfallUsd ≤ value :=
  ⟨max_le hvalue (hall q hq), max_le hvalue (average_le hvalue fun x hx =>
    hall x (List.mem_filter.mp hx).1)⟩

theorem measured_mono (hq' : q' ∈ losses) (h : q ≤ q') :
    (measured dailyReturns losses q).varUsd ≤ (measured dailyReturns losses q').varUsd ∧
      (measured dailyReturns losses q).expectedShortfallUsd ≤
        (measured dailyReturns losses q').expectedShortfallUsd := by
  have hvar : max 0 q ≤ max 0 q' := max_le_max_left 0 h
  refine ⟨hvar, max_le_max_left 0 ?_⟩
  rcases le_or_gt 0 q' with h0 | h0
  · exact average_filter_le hvar (tail_ne_nil hq' h0)
  · -- both quantiles are gains, and both tails begin at zero
    rw [max_eq_left h0.le, max_eq_left (h.trans h0.le)]

theorem horizonLosses_mul (k value : Rat) : horizonLosses dailyReturns horizonDays (k * value) =
    (horizonLosses dailyReturns horizonDays value).map (k * ·) := by
  rw [horizonLosses, horizonLosses, List.map_map]
  refine List.map_congr_left fun w _ => ?_
  simp only [Function.comp, lossOf]
  ring

/-- The quantile of scaled losses is scaled. -/
theorem quantile_map_mul (hk : 0 ≤ k) (hq' : q' ∈ losses.map (k * ·))
    (hq : ∀ x, q ≤ x ↔ c * losses.length ≤ losses.countP (· ≤ x))
    (hiff : ∀ x, q' ≤ x ↔ c * (losses.map (k * ·)).length ≤ (losses.map (k * ·)).countP (· ≤ x)) :
    q' = k * q := by
  rcases hk.eq_or_lt with rfl | hpos
  · obtain ⟨x, -, rfl⟩ := List.mem_map.mp hq'
    rw [zero_mul, zero_mul]
  · refine eq_of_forall_ge_iff fun x => ?_
    have hcount : (losses.map (k * ·)).countP (· ≤ x) = losses.countP (· ≤ x / k) := by
      rw [List.countP_map]
      refine List.countP_congr fun y _ => ?_
      simp [le_div_iff₀ hpos, mul_comm]
    rw [hiff, List.length_map, hcount, ← hq, le_div_iff₀ hpos, mul_comm]

theorem measured_map_mul (hk : 0 ≤ k) :
    measured dailyReturns (losses.map (k * ·)) (k * q) =
      { measured dailyReturns losses q with
        varUsd := k * (measured dailyReturns losses q).varUsd
        expectedShortfallUsd := k * (measured dailyReturns losses q).expectedShortfallUsd } := by
  have hmax (x : Rat) : max 0 (k * x) = k * max 0 x := by rw [mul_max_of_nonneg _ _ hk, mul_zero]
  have htail : average ((losses.map (k * ·)).filter (k * max 0 q ≤ ·)) =
      k * average (losses.filter (max 0 q ≤ ·)) := by
    rw [← average_map_mul, List.filter_map]
    rcases hk.eq_or_lt with rfl | hpos
    · -- everything is zero
      simp [average]
    · refine congrArg (fun ys => average (ys.map (k * ·))) (List.filter_congr fun x _ => ?_)
      simp [mul_le_mul_iff_of_pos_left hpos]
  simp only [measured, hmax, htail, List.length_map]

end Calculation

/-! ## The laws -/

/-- What the results of one calculation say of the observed losses. -/
structure Laws (losses : List Rat) (c value : Rat) (result : VaRCalculation) : Prop where
  quantile : ∃ L, IsLeast {x | x ∈ losses ∧ c * losses.length ≤ losses.countP (· ≤ x)} L ∧
    result.varUsd = max 0 L
  exceeded : (losses.countP (result.varUsd < ·) : Rat) ≤ (1 - c) * losses.length
  shortfall : result.varUsd ≤ result.expectedShortfallUsd
  bounded : result.varUsd ≤ value ∧ result.expectedShortfallUsd ≤ value

section Laws

variable {dailyReturns losses : List Rat} {horizonDays : Int} {c value q : Rat}

theorem countP_gt_le (hq : c * losses.length ≤ losses.countP (· ≤ q)) :
    (losses.countP (max 0 q < ·) : Rat) ≤ (1 - c) * losses.length := by
  have hsplit := List.length_eq_countP_add_countP (fun x => decide (x ≤ q)) (l := losses)
  have hle : losses.countP (max 0 q < ·) ≤
      losses.countP fun x => decide ¬decide (x ≤ q) = true :=
    List.countP_mono_left fun x _ hx => by
      simp only [decide_eq_true_eq, not_le] at hx ⊢
      exact lt_of_le_of_lt (le_max_right 0 q) hx
  have hsum : losses.countP (· ≤ q) + losses.countP (max 0 q < ·) ≤ losses.length := by omega
  have hsum' : (losses.countP (· ≤ q) : Rat) + losses.countP (max 0 q < ·) ≤ losses.length := by
    exact_mod_cast hsum
  linarith

theorem laws_measured (hq : q ∈ losses)
    (hiff : ∀ x, q ≤ x ↔ c * losses.length ≤ losses.countP (· ≤ x))
    (hall : ∀ x ∈ losses, x ≤ value) (hvalue : 0 ≤ value) :
    Laws losses c value (measured dailyReturns losses q) where
  quantile := ⟨q, ⟨⟨hq, (hiff q).mp le_rfl⟩, fun x hx => (hiff x).mpr hx.2⟩, rfl⟩
  exceeded := countP_gt_le ((hiff q).mp le_rfl)
  shortfall := var_le_shortfall hq
  bounded := measured_le hq hall hvalue

end Laws

/-- The laws of historical value at risk: of one result, of two confidence levels and of a scaled
    portfolio. -/
theorem historical_laws {dailyReturns : List Rat} {horizonDays : Int} {c value : Rat}
    (hdaily : ∀ r ∈ dailyReturns, -1 < r) (hh : 1 ≤ horizonDays)
    (hlen : horizonDays ≤ dailyReturns.length) (hc : 0 < c) (hc' : c < 1) (hvalue : 0 ≤ value) :
    ∃ result, calculatePortfolioVaR dailyReturns ⟨c, horizonDays, value⟩ = .ok result ∧
      Laws (horizonLosses dailyReturns horizonDays value) c value result ∧
      (∀ c₂, c ≤ c₂ → c₂ < 1 → ∃ result₂,
        calculatePortfolioVaR dailyReturns ⟨c₂, horizonDays, value⟩ = .ok result₂ ∧
          result.varUsd ≤ result₂.varUsd ∧
          result.expectedShortfallUsd ≤ result₂.expectedShortfallUsd) ∧
      ∀ k, 0 ≤ k → calculatePortfolioVaR dailyReturns ⟨c, horizonDays, k * value⟩ =
        .ok { result with
          varUsd := k * result.varUsd
          expectedShortfallUsd := k * result.expectedShortfallUsd } := by
  obtain ⟨q, hq, heq, hiff⟩ := calculatePortfolioVaR_eq hdaily hh hlen hc hc' hvalue
  have hall : ∀ x ∈ horizonLosses dailyReturns horizonDays value, x ≤ value := by
    intro x hx
    obtain ⟨w, hw, rfl⟩ := List.mem_map.mp hx
    exact lossOf_le (fun r hr => hdaily r (mem_of_mem_windows hw r hr)) hvalue
  refine ⟨_, heq, laws_measured hq hiff hall hvalue, fun c₂ hle hlt => ?_, fun k hk => ?_⟩
  · obtain ⟨q₂, hq₂, heq₂, hiff₂⟩ :=
      calculatePortfolioVaR_eq hdaily hh hlen (hc.trans_le hle) hlt hvalue
    exact ⟨_, heq₂, measured_mono hq₂ (quantile_mono hle hiff hiff₂)⟩
  · obtain ⟨q', hq', heq', hiff'⟩ :=
      calculatePortfolioVaR_eq hdaily hh hlen hc hc' (mul_nonneg hk hvalue)
    rw [horizonLosses_mul] at hq' heq' hiff'
    rw [heq', quantile_map_mul hk hq' hiff hiff', measured_map_mul hk]

theorem historical_laws_four_days :
    ∃ result, calculatePortfolioVaR [1 / 10, -1 / 5, 1 / 20, -1 / 10] ⟨3 / 4, 2, 1000⟩ =
        .ok result ∧
      Laws (horizonLosses [1 / 10, -1 / 5, 1 / 20, -1 / 10] 2 1000) (3 / 4) 1000 result := by
  obtain ⟨result, heq, hlaws, -⟩ := @historical_laws [1 / 10, -1 / 5, 1 / 20, -1 / 10] 2 (3 / 4)
    1000 (by decide +kernel) (by decide) (by decide) (by norm_num) (by norm_num) (by norm_num)
  exact ⟨result, heq, hlaws⟩

end AgriFi.PortfolioVar
