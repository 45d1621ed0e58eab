import Mathlib.Data.List.Basic
import Mathlib.Data.List.ReduceOption

/-
  A table whose rows keep their places: a row that is deleted leaves a hole, and new rows come at
  the end, so that a place is never used again.
-/

namespace AgriFi.Slots

variable {ρ : Type} {rows : List (Option ρ)} {i j : Nat} {x y : ρ} {p : ρ → Bool}

def get (rows : List (Option ρ)) (i : Nat) : Option ρ := (rows[i]?).join

theorem get_eq_some : get rows i = some x ↔ rows[i]? = some (some x) := Option.join_eq_some_iff

theorem lt_length_of_get (h : get rows i = some x) : i < rows.length :=
  (List.getElem?_eq_some_iff.mp (get_eq_some.mp h)).1

theorem mem_reduceOption : x ∈ rows.reduceOption ↔ ∃ i, get rows i = some x := by
  rw [List.reduceOption_mem_iff, List.mem_iff_getElem?]
  exact exists_congr fun _ => get_eq_some.symm

/-! ## A row is added -/

theorem get_append_of_lt (h : i < rows.length) : get (rows ++ [some y]) i = get rows i := by
  unfold get
  rw [List.getElem?_append_left h]

theorem get_append (h : get rows i = some x) : get (rows ++ [some y]) i = some x := by
  rwa [get_append_of_lt (lt_length_of_get h)]

theorem get_append_length : get (rows ++ [some y]) rows.length = some y := by
  rw [get_eq_some, List.getElem?_concat_length]

theorem get_append_cases (h : get (rows ++ [some y]) i = some x) :
    get rows i = some x ∨ i = rows.length ∧ x = y := by
  rcases Nat.lt_or_ge i rows.length with hlt | hge
  · rw [get_append_of_lt hlt] at h
    exact .inl h
  · have hi : i = rows.length := by
      have := lt_length_of_get h
      rw [List.length_append, List.length_singleton] at this
      omega
    subst hi
    rw [get_append_length] at h
    exact .inr ⟨rfl, (Option.some.inj h).symm⟩

/-! ## A row is replaced or deleted -/

theorem get_set_ne {row : Option ρ} (h : j ≠ i) : get (rows.set i row) j = get rows j := by
  unfold get
  rw [List.getElem?_set_ne (Ne.symm h)]

theorem get_set_cases {row : Option ρ} (h : get (rows.set i row) j = some x) :
    j = i ∧ row = some x ∨ j ≠ i ∧ get rows j = some x := by
  by_cases hji : j = i
  · subst hji
    have hj := get_eq_some.mp h
    rw [List.getElem?_set_self (List.length_set ▸ lt_length_of_get h)] at hj
    exact .inl ⟨rfl, Option.some.inj hj⟩
  · rw [get_set_ne hji] at h
    exact .inr ⟨hji, h⟩

theorem get_of_set_none (h : get (rows.set i none) j = some x) : j ≠ i ∧ get rows j = some x := by
  rcases get_set_cases h with ⟨_, hnone⟩ | hrest
  · cases hnone
  · exact hrest

theorem get_set_none (h : get rows j = some x) : get (rows.set i none) j = some x ∨ j = i := by
  by_cases hji : j = i
  · exact .inr hji
  · exact .inl ((get_set_ne hji).trans h)

theorem get_map_filter : get (rows.map (Option.filter p)) i = some x ↔
    get rows i = some x ∧ p x = true := by
  unfold get
  rw [List.getElem?_map]
  cases rows[i]? with
  | none => simp
  | some row => cases row <;> simp [Option.filter_eq_some_iff]

end AgriFi.Slots
