import Mathlib.Data.List.Basic

/-
  The loop that keeps the best element seen so far, and of equals the first.
-/

namespace AgriFi.Best

variable {α : Type} (score : α → Int)

/-- One pass of the loop. -/
def pick (best : Option α) (x : α) : Option α :=
  match best with
  | none => some x
  | some y => if score y < score x then some x else some y

def best (xs : List α) : Option α := xs.foldl (pick score) none

variable {score} {xs : List α} {x y : α}

theorem foldl_pick_spec (h : xs.foldl (pick score) (some x) = some y) :
    (y = x ∨ y ∈ xs) ∧ score x ≤ score y ∧ ∀ z ∈ xs, score z ≤ score y := by
  induction xs generalizing x with
  | nil =>
    obtain rfl := Option.some.inj h
    exact ⟨.inl rfl, Int.le_refl _, by simp⟩
  | cons z xs ih =>
    rw [List.foldl_cons, pick] at h
    split at h
    · next hlt =>
      obtain ⟨hmem, hle, hall⟩ := ih h
      refine ⟨.inr (List.mem_cons.mpr hmem), by omega, fun w hw => ?_⟩
      rcases List.mem_cons.mp hw with rfl | hw
      · exact hle
      · exact hall w hw
    · next hnot =>
      obtain ⟨hmem, hle, hall⟩ := ih h
      refine ⟨hmem.imp_right (List.mem_cons_of_mem _), hle, fun w hw => ?_⟩
      rcases List.mem_cons.mp hw with rfl | hw
      · omega
      · exact hall w hw

theorem foldl_pick_isSome : (xs.foldl (pick score) (some x)).isSome = true := by
  induction xs generalizing x with
  | nil => rfl
  | cons z xs ih =>
    rw [List.foldl_cons, pick]
    split <;> exact ih

theorem best_none_iff : best score xs = none ↔ xs = [] := by
  unfold best
  cases xs with
  | nil => simp
  | cons x xs =>
    have hsome : (xs.foldl (pick score) (some x)).isSome = true := foldl_pick_isSome
    rw [List.foldl_cons, pick]
    constructor
    · intro h
      rw [h] at hsome
      cases hsome
    · intro h
      cases h

theorem best_spec (h : best score xs = some y) : y ∈ xs ∧ ∀ z ∈ xs, score z ≤ score y := by
  unfold best at h
  cases xs with
  | nil => cases h
  | cons x xs =>
    rw [List.foldl_cons, pick] at h
    obtain ⟨hmem, hle, hall⟩ := foldl_pick_spec h
    refine ⟨List.mem_cons.mpr hmem, fun z hz => ?_⟩
    rcases List.mem_cons.mp hz with rfl | hz
    · exact hle
    · exact hall z hz

/-- Some element reaches a bound exactly if the best one does. -/
theorem exists_le_iff {c : Int → Prop} (hc : ∀ m n, m ≤ n → c m → c n) :
    (∃ z ∈ xs, c (score z)) ↔ ∃ y, best score xs = some y ∧ c (score y) := by
  constructor
  · rintro ⟨z, hz, hcz⟩
    cases hbest : best score xs with
    | none =>
      rw [best_none_iff.mp hbest] at hz
      cases hz
    | some y => exact ⟨y, rfl, hc _ _ ((best_spec hbest).2 z hz) hcz⟩
  · rintro ⟨y, hbest, hcy⟩
    exact ⟨y, (best_spec hbest).1, hcy⟩

end AgriFi.Best
