import Mathlib.Algebra.BigOperators.Ring.List
import Mathlib.Algebra.Order.BigOperators.Group.List
import Mathlib.Algebra.Order.Field.Rat
import Mathlib.Data.List.Sort
import Mathlib.Tactic.Linarith

/-
  Order statistics of a list and averages of its upper parts. The element at a place of a sorted
  list is below a number if and only if more elements than the place are (`getElem_le_iff`); leaving
  out small elements does not make an average smaller (`average_filter_le`).
-/

namespace AgriFi.Quantiles

section Order

variable {α : Type} [LinearOrder α] {xs : List α} {x : α}

theorem getElem_le_iff (hsorted : xs.Pairwise (· ≤ ·)) {i : Nat} (hi : i < xs.length) :
    xs[i] ≤ x ↔ i < xs.countP (· ≤ x) := by
  induction xs generalizing i with
  | nil => exact absurd hi (Nat.not_lt_zero i)
  | cons y xs ih =>
    obtain ⟨hy, hxs⟩ := List.pairwise_cons.mp hsorted
    by_cases hyx : y ≤ x
    · rw [List.countP_cons_of_pos (by simpa using hyx)]
      cases i with
      | zero => simpa using hyx
      | succ i =>
        rw [List.getElem_cons_succ, ih hxs (by simpa using hi)]
        omega
    · -- nothing that follows is below either
      have hnone : (y :: xs).countP (· ≤ x) = 0 := by
        rw [List.countP_eq_zero]
        intro z hz
        rcases List.mem_cons.mp hz with rfl | hz
        · simpa using hyx
        · simpa using lt_of_lt_of_le (not_le.mp hyx) (hy z hz)
      rw [hnone]
      refine ⟨fun h => absurd h ?_, fun h => absurd h (Nat.not_lt_zero i)⟩
      cases i with
      | zero => simpa using hyx
      | succ i =>
        have hmem := hy _ (List.getElem_mem (by simpa using hi : i < xs.length))
        rw [List.getElem_cons_succ, not_le]
        exact lt_of_lt_of_le (not_le.mp hyx) hmem

end Order

section Averages

variable {xs : List Rat} {a b : Rat}

def average (values : List Rat) : Rat :=
  if values = [] then 0 else values.sum / values.length

theorem length_mul_le_sum (h : ∀ x ∈ xs, a ≤ x) : xs.length * a ≤ xs.sum := by
  have hle := List.card_nsmul_le_sum xs a h
  rwa [nsmul_eq_mul] at hle

theorem sum_le_length_mul (h : ∀ x ∈ xs, x ≤ a) : xs.sum ≤ xs.length * a := by
  have hle := List.sum_le_card_nsmul xs a h
  rwa [nsmul_eq_mul] at hle

theorem le_average (hne : xs ≠ []) (h : ∀ x ∈ xs, a ≤ x) : a ≤ average xs := by
  have hpos : (0 : Rat) < xs.length := by exact_mod_cast List.length_pos_iff.mpr hne
  rw [average, if_neg hne, le_div_iff₀ hpos, mul_comm]
  exact length_mul_le_sum h

theorem average_le (ha : 0 ≤ a) (h : ∀ x ∈ xs, x ≤ a) : average xs ≤ a := by
  unfold average
  split
  · exact ha
  · next hne =>
    have hpos : (0 : Rat) < xs.length := by exact_mod_cast List.length_pos_iff.mpr hne
    rw [div_le_iff₀ hpos, mul_comm]
    exact sum_le_length_mul h

theorem average_map_mul (xs : List Rat) (k : Rat) :
    average (xs.map (k * ·)) = k * average xs := by
  unfold average
  by_cases hne : xs = []
  · simp [hne]
  · rw [if_neg (by simpa using hne), if_neg hne, List.sum_map_mul_left, List.map_id',
      List.length_map, mul_div_assoc]

/-- Elements below an average's elements do not make it larger. -/
theorem average_append_le {ys : List Rat} (hne : xs ≠ []) (hxs : ∀ x ∈ xs, b ≤ x)
    (hys : ∀ y ∈ ys, y ≤ b) : average (xs ++ ys) ≤ average xs := by
  have hpos : (0 : Rat) < xs.length := by exact_mod_cast List.length_pos_iff.mpr hne
  have hnonneg : (0 : Rat) ≤ ys.length := Nat.cast_nonneg _
  have hupper := length_mul_le_sum hxs
  have hlower := sum_le_length_mul hys
  rw [average, average, if_neg (by simp [hne]), if_neg hne, List.sum_append, List.length_append,
    Nat.cast_add, div_le_div_iff₀ (by linarith) hpos]
  nlinarith [mul_le_mul_of_nonneg_left hlower hpos.le, mul_le_mul_of_nonneg_left hupper hnonneg]

theorem average_perm {ys : List Rat} (h : xs.Perm ys) : average xs = average ys := by
  unfold average
  rw [h.sum_eq, h.length_eq]
  simp only [← List.length_eq_zero_iff, h.length_eq]

/-- Leaving out small elements does not make an average smaller. -/
theorem average_filter_le (hab : a ≤ b) (hne : xs.filter (b ≤ ·) ≠ []) :
    average (xs.filter (a ≤ ·)) ≤ average (xs.filter (b ≤ ·)) := by
  have hboth : (xs.filter (a ≤ ·)).filter (b ≤ ·) = xs.filter (b ≤ ·) := by
    rw [List.filter_filter]
    refine List.filter_congr fun x _ => ?_
    have himp : b ≤ x → a ≤ x := hab.trans
    by_cases hx : b ≤ x <;> simp [hx, himp]
  have hperm := List.filter_append_perm (fun x => decide (b ≤ x)) (xs.filter (a ≤ ·))
  rw [hboth] at hperm
  rw [← average_perm hperm]
  refine average_append_le (b := b) hne (fun x hx => ?_) fun y hy => ?_
  · simpa using (List.mem_filter.mp hx).2
  · have hy' := (List.mem_filter.mp hy).2
    simp only [Bool.not_eq_true', decide_eq_false_iff_not, not_le] at hy'
    exact hy'.le

end Averages

end AgriFi.Quantiles
