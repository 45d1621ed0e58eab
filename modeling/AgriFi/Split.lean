import Mathlib.Data.List.Basic

/-
  Lists cut at separators: a piece has none of them, and joining the pieces gives the list back.
  A run of elements is taken off a list where the rest does not continue it (`takeWhile_stops`).
-/

namespace AgriFi.Split

variable {α : Type} {p : α → Bool} {xs ys piece : List α}

/-- A piece of a list has elements of the list that are no separators. -/
theorem of_mem_splitOnP (h : piece ∈ xs.splitOnP p) : ∀ x ∈ piece, x ∈ xs ∧ p x = false := by
  induction xs generalizing piece with
  | nil =>
    obtain rfl := List.mem_singleton.mp h
    exact nofun
  | cons y xs ih =>
    rw [List.splitOnP_cons_eq_if_modifyHead] at h
    have hlater : ∀ {piece}, piece ∈ xs.splitOnP p → ∀ x ∈ piece, x ∈ y :: xs ∧ p x = false :=
      fun hpiece x hx => (ih hpiece x hx).imp_left (List.mem_cons_of_mem y)
    split at h
    · rcases List.mem_cons.mp h with rfl | htail
      · exact nofun
      · exact hlater htail
    · next hy =>
      obtain ⟨head, tail, hsplit⟩ := List.exists_cons_of_ne_nil (List.splitOnP_ne_nil p xs)
      rw [hsplit, List.modifyHead_cons] at h
      rw [hsplit] at hlater
      rcases List.mem_cons.mp h with rfl | htail
      · intro x hx
        rcases List.mem_cons.mp hx with rfl | hx
        · exact ⟨List.mem_cons_self .., by simpa using hy⟩
        · exact hlater (List.mem_cons_self ..) x hx
      · exact hlater (List.mem_cons_of_mem _ htail)

theorem not_mem_of_mem_splitOn [BEq α] [LawfulBEq α] {x : α} (h : piece ∈ xs.splitOn x) :
    x ∉ piece := by
  rw [List.splitOn_eq_splitOnP] at h
  intro hx
  simpa using (of_mem_splitOnP h x hx).2

/-! ## Runs -/

/-- The list does not begin with a `p`. -/
def Stops (p : α → Bool) (ys : List α) : Prop := ∀ y ∈ ys.head?, p y = false

theorem stops_nil : Stops p [] := nofun

theorem stops_cons {y : α} (h : p y = false) : Stops p (y :: ys) := by
  intro y' hy'
  obtain rfl := Option.some.inj hy'
  exact h

theorem takeWhile_stops (hxs : ∀ x ∈ xs, p x = true) (hys : Stops p ys) :
    (xs ++ ys).takeWhile p = xs ∧ (xs ++ ys).dropWhile p = ys := by
  rw [List.takeWhile_append_of_pos hxs, List.dropWhile_append_of_pos hxs]
  cases ys with
  | nil => simp
  | cons y ys =>
    have hy : p y = false := hys y rfl
    rw [List.takeWhile_cons_of_neg (by simp [hy]), List.dropWhile_cons_of_neg (by simp [hy])]
    simp

end AgriFi.Split
