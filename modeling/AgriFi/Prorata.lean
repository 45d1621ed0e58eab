import Mathlib.Algebra.Order.BigOperators.Group.List
import Mathlib.Algebra.Order.Ring.Int
import Mathlib.Tactic.Linarith

/-
  Pro rata division of integer amounts, rounded toward zero. `prorata amount weight whole` is
  the part of `amount` that `weight` out of `whole` stands for. One part is between zero and
  both `amount` and `weight` scaled accordingly, and the parts given to weights that sum to at
  most the whole never sum to more than the amount (`sum_prorata_le`). What rounding leaves over is at
  most one unit for each amount that its part has not used up (`sum_mul_le_prorata`). Handing the
  last part what is left makes the parts sum to the amount (`sum_remainderToLast`).
-/

namespace AgriFi

def prorata (amount weight whole : Int) : Int := (amount * weight).tdiv whole

variable {amount weight whole : Int}

theorem prorata_eq_ediv (ha : 0 ≤ amount) (hw : 0 ≤ weight) :
    prorata amount weight whole = amount * weight / whole :=
  Int.tdiv_eq_ediv_of_nonneg (mul_nonneg ha hw)

theorem prorata_nonneg (ha : 0 ≤ amount) (hw : 0 ≤ weight) (hn : 0 ≤ whole) :
    0 ≤ prorata amount weight whole :=
  Int.tdiv_nonneg (mul_nonneg ha hw) hn

theorem prorata_mul_le (ha : 0 ≤ amount) (hw : 0 ≤ weight) (hn : 0 < whole) :
    prorata amount weight whole * whole ≤ amount * weight := by
  rw [prorata_eq_ediv ha hw]
  exact Int.ediv_mul_le _ hn.ne'

theorem prorata_neg : prorata (-amount) weight whole = -prorata amount weight whole := by
  unfold prorata
  rw [neg_mul, Int.neg_tdiv]

theorem prorata_nonpos (ha : amount ≤ 0) (hw : 0 ≤ weight) (hn : 0 ≤ whole) :
    prorata amount weight whole ≤ 0 := by
  have h := prorata_nonneg (neg_nonneg.mpr ha) hw hn
  rw [prorata_neg] at h
  omega

/-- A part is at most the amount it is taken from. -/
theorem prorata_le (ha : 0 ≤ amount) (hw : 0 ≤ weight) (hn : 0 < whole) (hle : weight ≤ whole) :
    prorata amount weight whole ≤ amount := by
  rw [prorata_eq_ediv ha hw]
  have hmul : amount * weight ≤ amount * whole := mul_le_mul_of_nonneg_left hle ha
  exact Int.ediv_le_of_le_mul hn hmul

theorem sum_prorata_mul_le (ha : 0 ≤ amount) (hn : 0 < whole) {ws : List Int}
    (hw : ∀ w ∈ ws, 0 ≤ w) :
    (ws.map fun w => prorata amount w whole).sum * whole ≤ amount * ws.sum := by
  induction ws with
  | nil => simp
  | cons w ws ih =>
    have hhead := prorata_mul_le ha (hw w (List.mem_cons_self ..)) hn
    have htail := ih fun v hv => hw v (List.mem_cons_of_mem _ hv)
    simp only [List.map_cons, List.sum_cons, add_mul, mul_add]
    exact add_le_add hhead htail

/-- The parts of weights that fit in the whole fit in the amount. -/
theorem sum_prorata_le (ha : 0 ≤ amount) (hn : 0 < whole) {ws : List Int}
    (hw : ∀ w ∈ ws, 0 ≤ w) (hsum : ws.sum ≤ whole) :
    (ws.map fun w => prorata amount w whole).sum ≤ amount := by
  have hparts := sum_prorata_mul_le ha hn hw
  have hwhole : amount * ws.sum ≤ amount * whole := mul_le_mul_of_nonneg_left hsum ha
  exact le_of_mul_le_mul_right (hparts.trans hwhole) hn

/-! ## What rounding leaves over -/

theorem prorata_comm : prorata amount weight whole = prorata weight amount whole := by
  unfold prorata
  rw [mul_comm]

theorem lt_prorata_add_one_mul (ha : 0 ≤ amount) (hw : 0 ≤ weight) (hn : 0 < whole) :
    amount * weight < (prorata amount weight whole + 1) * whole := by
  rw [prorata_eq_ediv ha hw]
  exact Int.lt_ediv_add_one_mul_self _ hn

/-- Parts of a positive number of weights leave over less than one unit for each. -/
theorem mul_sum_lt_sum_prorata (ha : 0 ≤ amount) (hn : 0 < whole) {ws : List Int} (hne : ws ≠ [])
    (hw : ∀ w ∈ ws, 0 ≤ w) :
    amount * ws.sum < ((ws.map fun w => prorata amount w whole).sum + ws.length) * whole := by
  induction ws with
  | nil => exact absurd rfl hne
  | cons w ws ih =>
    have hhead := lt_prorata_add_one_mul ha (hw w (List.mem_cons_self ..)) hn
    have htail : amount * ws.sum ≤
        ((ws.map fun w => prorata amount w whole).sum + ws.length) * whole := by
      cases ws with
      | nil => simp
      | cons v ws => exact (ih (by simp) fun u hu => hw u (List.mem_cons_of_mem _ hu)).le
    rw [List.sum_cons, List.map_cons, List.sum_cons, List.length_cons]
    push_cast
    linarith

/-- What the parts of the other weights leave is less than the exact part of the last weight and
    one unit for each weight. -/
theorem rest_mul_lt (ha : 0 ≤ amount) (hn : 0 < whole) {ws : List Int} {last : Int}
    (hw : ∀ w ∈ ws, 0 ≤ w) (hsum : ws.sum + last = whole) :
    (amount - (ws.map fun w => prorata amount w whole).sum) * whole <
      amount * last + (ws.length + 1) * whole := by
  have hothers : amount * ws.sum ≤
      ((ws.map fun w => prorata amount w whole).sum + ws.length) * whole := by
    by_cases hne : ws = []
    · simp [hne]
    · exact (mul_sum_lt_sum_prorata ha hn hne hw).le
  have hall : amount * whole = amount * ws.sum + amount * last := by rw [← hsum, mul_add]
  linarith

/-- How many of the amounts are larger than the part taken from them. -/
def shortParts (weight whole : Int) (amounts : List Int) : Nat :=
  amounts.countP fun a => prorata a weight whole < a

theorem sum_mul_le_prorata (hw : 0 ≤ weight) (hn : 0 < whole) (hle : weight ≤ whole)
    {amounts : List Int} (ha : ∀ a ∈ amounts, 0 ≤ a) :
    amounts.sum * weight ≤ ((amounts.map fun a => prorata a weight whole).sum +
      shortParts weight whole amounts) * whole := by
  induction amounts with
  | nil => simp [shortParts]
  | cons a amounts ih =>
    have ha0 := ha a (List.mem_cons_self ..)
    have hrest := ih fun b hb => ha b (List.mem_cons_of_mem _ hb)
    unfold shortParts at hrest ⊢
    rw [List.sum_cons, List.map_cons, List.sum_cons, List.countP_cons, add_mul]
    by_cases hshort : prorata a weight whole < a
    · have hpart := lt_prorata_add_one_mul ha0 hw hn
      simp only [hshort, decide_true, if_true, Nat.cast_add, Nat.cast_one]
      linarith
    · -- nothing is left of this amount, so its part has no fraction
      have hwhole : a * weight ≤ prorata a weight whole * whole :=
        mul_le_mul (not_lt.mp hshort) hle hw (prorata_nonneg ha0 hw hn.le)
      simp only [hshort, decide_false, Bool.false_eq_true, if_false, add_zero]
      linarith

/-- Parts of a pool with one weight for each amount leave over at most one unit for each amount
    that has something left. -/
theorem sub_sum_prorata_bounds (hw : 0 ≤ weight) {amounts : List Int} (hn : 0 < amounts.sum)
    (hle : weight ≤ amounts.sum) (ha : ∀ a ∈ amounts, 0 ≤ a) :
    (amounts.map fun a => prorata a weight amounts.sum).sum ≤ weight ∧
      weight ≤ (amounts.map fun a => prorata a weight amounts.sum).sum +
        shortParts weight amounts.sum amounts := by
  constructor
  · simp only [fun a => @prorata_comm a weight amounts.sum]
    exact sum_prorata_le hw hn ha le_rfl
  · refine le_of_mul_le_mul_left ?_ hn
    rw [mul_comm amounts.sum (_ + _)]
    exact sum_mul_le_prorata hw hn hle ha

/-! ## The remainder to the last -/

/-- A pool handed out in the given parts, except that the last one gets what is left. -/
def remainderToLast (pool : Int) : List Int → List Int
  | [] => []
  | [_] => [pool]
  | a :: b :: l => a :: remainderToLast (pool - a) (b :: l)

theorem remainderToLast_eq (pool : Int) {parts : List Int} (h : parts ≠ []) :
    remainderToLast pool parts = parts.dropLast ++ [pool - parts.dropLast.sum] := by
  induction parts generalizing pool with
  | nil => exact absurd rfl h
  | cons a l ih =>
    cases l with
    | nil => simp [remainderToLast]
    | cons b l =>
      rw [remainderToLast, ih (pool - a) (by simp)]
      simp [sub_sub]

theorem sum_remainderToLast (pool : Int) {parts : List Int} (h : parts ≠ []) :
    (remainderToLast pool parts).sum = pool := by
  rw [remainderToLast_eq pool h, List.sum_append, List.sum_singleton]
  omega

theorem length_remainderToLast (pool : Int) (parts : List Int) :
    (remainderToLast pool parts).length = parts.length := by
  cases parts with
  | nil => rfl
  | cons a l =>
    rw [remainderToLast_eq pool (by simp)]
    simp

/-- Non-negative parts that fit in the pool leave a non-negative remainder. -/
theorem remainderToLast_nonneg {pool : Int} {parts : List Int} (h : ∀ a ∈ parts, 0 ≤ a)
    (hle : parts.sum ≤ pool) : ∀ a ∈ remainderToLast pool parts, 0 ≤ a := by
  induction parts generalizing pool with
  | nil => simp [remainderToLast]
  | cons a l ih =>
    have ha := h a (List.mem_cons_self ..)
    rw [List.sum_cons] at hle
    cases l with
    | nil =>
      intro b hb
      obtain rfl := List.mem_singleton.mp hb
      rw [List.sum_nil] at hle
      omega
    | cons b l =>
      intro c hc
      rcases List.mem_cons.mp hc with rfl | hc
      · exact ha
      · exact ih (fun d hd => h d (List.mem_cons_of_mem _ hd)) (by omega) c hc

end AgriFi
