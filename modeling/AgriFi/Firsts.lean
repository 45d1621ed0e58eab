import Mathlib.Data.List.Basic

/-
  The loop that takes the elements which pass a test, and of those with one key only the first.
-/

namespace AgriFi.Firsts

variable {α κ : Type} [DecidableEq κ] {key : α → κ} {ok : α → Bool} {seen : List κ} {xs : List α}
  {x : α}

/-- What the loop takes when the keys `seen` are taken already. -/
def firsts (key : α → κ) (ok : α → Bool) : List κ → List α → List α
  | _, [] => []
  | seen, x :: xs =>
    if ok x = true ∧ key x ∉ seen then x :: firsts key ok (key x :: seen) xs
    else firsts key ok seen xs

theorem mem_firsts (h : x ∈ firsts key ok seen xs) : x ∈ xs ∧ ok x = true ∧ key x ∉ seen := by
  induction xs generalizing seen with
  | nil => cases h
  | cons y xs ih =>
    rw [firsts] at h
    split at h
    · next htaken =>
      rcases List.mem_cons.mp h with rfl | h
      · exact ⟨List.mem_cons_self .., htaken⟩
      · obtain ⟨hmem, hok, hnew⟩ := ih h
        exact ⟨List.mem_cons_of_mem _ hmem, hok, fun hin => hnew (List.mem_cons_of_mem _ hin)⟩
    · obtain ⟨hmem, hok, hnew⟩ := ih h
      exact ⟨List.mem_cons_of_mem _ hmem, hok, hnew⟩

/-- Of each key that passes one element is taken. -/
theorem exists_mem_firsts (hx : x ∈ xs) (hok : ok x = true) (hnew : key x ∉ seen) :
    ∃ y ∈ firsts key ok seen xs, key y = key x := by
  induction xs generalizing seen with
  | nil => cases hx
  | cons z xs ih =>
    rw [firsts]
    split
    · by_cases heq : key z = key x
      · exact ⟨z, List.mem_cons_self .., heq⟩
      · rcases List.mem_cons.mp hx with rfl | hx
        · exact absurd rfl heq
        · have hnew' : key x ∉ key z :: seen := by
            rw [List.mem_cons, not_or]
            exact ⟨Ne.symm heq, hnew⟩
          obtain ⟨y, hy, hkey⟩ := ih hx hnew'
          exact ⟨y, List.mem_cons_of_mem _ hy, hkey⟩
    · next hnot =>
      rcases List.mem_cons.mp hx with rfl | hx
      · exact absurd ⟨hok, hnew⟩ hnot
      · exact ih hx hnew

/-- An element that shares its key with no other is taken whenever it passes. -/
theorem mem_firsts_of_alone (hx : x ∈ xs) (hok : ok x = true) (hnew : key x ∉ seen)
    (halone : ∀ y ∈ xs, key y = key x → y = x) : x ∈ firsts key ok seen xs := by
  obtain ⟨y, hy, hkey⟩ := exists_mem_firsts hx hok hnew
  obtain rfl := halone y (mem_firsts hy).1 hkey
  exact hy

theorem firsts_eq_nil (h : ∀ x ∈ xs, ok x = true → key x ∈ seen) : firsts key ok seen xs = [] := by
  refine List.eq_nil_iff_forall_not_mem.mpr fun x hx => ?_
  obtain ⟨hmem, hok, hnew⟩ := mem_firsts hx
  exact hnew (h x hmem hok)

/-- What is taken passes, and nothing before it with its key does. -/
theorem mem_firsts_iff : x ∈ firsts key ok seen xs ↔ ∃ before after, xs = before ++ x :: after ∧
    ok x = true ∧ key x ∉ seen ∧ ∀ y ∈ before, ok y = true → key y ≠ key x := by
  constructor
  · intro h
    induction xs generalizing seen with
    | nil => cases h
    | cons z xs ih =>
      rw [firsts] at h
      split at h
      · next htaken =>
        rcases List.mem_cons.mp h with rfl | h
        · exact ⟨[], xs, rfl, htaken.1, htaken.2, by simp⟩
        · obtain ⟨before, after, rfl, hok, hnew, hfirst⟩ := ih h
          rw [List.mem_cons, not_or] at hnew
          refine ⟨z :: before, after, rfl, hok, hnew.2, fun y hy hoky => ?_⟩
          rcases List.mem_cons.mp hy with rfl | hy
          · exact Ne.symm hnew.1
          · exact hfirst y hy hoky
      · next hnot =>
        obtain ⟨before, after, rfl, hok, hnew, hfirst⟩ := ih h
        refine ⟨z :: before, after, rfl, hok, hnew, fun y hy hoky => ?_⟩
        rcases List.mem_cons.mp hy with rfl | hy
        · intro heq
          exact hnot ⟨hoky, heq ▸ hnew⟩
        · exact hfirst y hy hoky
  · rintro ⟨before, after, rfl, hok, hnew, hfirst⟩
    induction before generalizing seen with
    | nil =>
      rw [List.nil_append, firsts, if_pos ⟨hok, hnew⟩]
      exact List.mem_cons_self ..
    | cons z before ih =>
      have hrest : ∀ y ∈ before, ok y = true → key y ≠ key x :=
        fun y hy => hfirst y (List.mem_cons_of_mem _ hy)
      rw [List.cons_append, firsts]
      split
      · next htaken =>
        have hz : key z ≠ key x := hfirst z (List.mem_cons_self ..) htaken.1
        refine List.mem_cons_of_mem _ (ih ?_ hrest)
        rw [List.mem_cons, not_or]
        exact ⟨Ne.symm hz, hnew⟩
      · exact ih hnew hrest

/-- No key is taken twice. -/
theorem nodup_keys_firsts : ((firsts key ok seen xs).map key).Nodup := by
  induction xs generalizing seen with
  | nil => exact List.nodup_nil
  | cons x xs ih =>
    rw [firsts]
    split
    · refine List.nodup_cons.mpr ⟨fun hmem => ?_, ih⟩
      obtain ⟨y, hy, hkey⟩ := List.mem_map.mp hmem
      exact (mem_firsts hy).2.2 (hkey ▸ List.mem_cons_self ..)
    · exact ih

end AgriFi.Firsts
