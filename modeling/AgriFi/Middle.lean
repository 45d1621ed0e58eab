import Mathlib.Data.List.Sort

/-
  The element in the middle of a list that is sorted by its keys. Its key does not depend on the
  order in which the elements come (`middle_key_of_perm`), and it lies in every interval that has
  more than half of the keys (`middle_mem_of_majority`): fewer than half of the elements are before
  the middle, and fewer than half are after it.
-/

namespace AgriFi.Middle

variable {α β : Type} [LinearOrder β]

def sortOn (key : α → β) (xs : List α) : List α := xs.insertionSort fun x y => key x ≤ key y

def middle (key : α → β) (xs : List α) : Option α := (sortOn key xs)[xs.length / 2]?

variable {key : α → β} {xs ys : List α} {x : α} {i : Nat} {a b : β}

theorem sortOn_perm (key : α → β) (xs : List α) : (sortOn key xs).Perm xs :=
  List.perm_insertionSort _ xs

theorem length_sortOn (key : α → β) (xs : List α) : (sortOn key xs).length = xs.length :=
  (sortOn_perm key xs).length_eq

theorem sortOn_pairwise (key : α → β) (xs : List α) :
    (sortOn key xs).Pairwise fun x y => key x ≤ key y := by
  have : Std.Total fun x y : α => key x ≤ key y := ⟨fun x y => le_total (key x) (key y)⟩
  have : IsTrans α fun x y => key x ≤ key y := ⟨fun _ _ _ => le_trans⟩
  exact List.pairwise_insertionSort _ xs

theorem keys_of_perm (h : xs.Perm ys) : (sortOn key xs).map key = (sortOn key ys).map key := by
  have hperm : ((sortOn key xs).map key).Perm ((sortOn key ys).map key) :=
    (((sortOn_perm key xs).trans h).trans (sortOn_perm key ys).symm).map key
  refine hperm.eq_of_pairwise (fun _ _ _ _ => le_antisymm) ?_ ?_
  · exact List.pairwise_map.mpr (sortOn_pairwise key xs)
  · exact List.pairwise_map.mpr (sortOn_pairwise key ys)

theorem middle_key_of_perm (h : xs.Perm ys) :
    (middle key xs).map key = (middle key ys).map key := by
  unfold middle
  rw [← List.getElem?_map, ← List.getElem?_map, keys_of_perm h, h.length_eq]

theorem middle_isSome (key : α → β) (h : xs ≠ []) : ∃ x, middle key xs = some x := by
  have hpos := List.length_pos_iff.mpr h
  have hlt : xs.length / 2 < (sortOn key xs).length := by
    rw [length_sortOn]
    omega
  exact ⟨_, List.getElem?_eq_getElem hlt⟩

theorem mem_of_middle (h : middle key xs = some x) : x ∈ xs :=
  (sortOn_perm key xs).subset (List.mem_of_getElem? h)

/-- Only the elements before a place have a smaller key. -/
theorem countP_lt_le (hxs : xs.Pairwise fun x y => key x ≤ key y) (hx : xs[i]? = some x) :
    xs.countP (fun y => key y < key x) ≤ i := by
  have hafter : (xs.drop i).countP (fun y => key y < key x) = 0 := by
    rw [List.countP_eq_zero]
    intro y hy
    obtain ⟨j, hj⟩ := List.mem_iff_getElem?.mp hy
    rw [List.getElem?_drop] at hj
    have hle : key x ≤ key y := by
      rcases Nat.eq_zero_or_pos j with rfl | hpos
      · rw [Nat.add_zero, hx] at hj
        rw [Option.some.inj hj]
      · obtain ⟨hi, rfl⟩ := List.getElem?_eq_some_iff.mp hx
        obtain ⟨hij, rfl⟩ := List.getElem?_eq_some_iff.mp hj
        exact List.pairwise_iff_getElem.mp hxs i (i + j) hi hij (by omega)
    simpa using hle
  rw [← List.take_append_drop i xs, List.countP_append, hafter, Nat.add_zero]
  exact List.countP_le_length.trans (List.length_take_le i xs)

/-- Only the elements after a place have a larger key. -/
theorem countP_gt_lt (hxs : xs.Pairwise fun x y => key x ≤ key y) (hx : xs[i]? = some x) :
    i + xs.countP (fun y => key x < key y) < xs.length := by
  have hbefore : (xs.take (i + 1)).countP (fun y => key x < key y) = 0 := by
    rw [List.countP_eq_zero]
    intro y hy
    obtain ⟨j, hj⟩ := List.mem_iff_getElem?.mp hy
    have hlt : j < i + 1 := by
      have hbound := (List.getElem?_eq_some_iff.mp hj).1
      rw [List.length_take] at hbound
      omega
    rw [List.getElem?_take_of_lt hlt] at hj
    have hle : key y ≤ key x := by
      rcases Nat.lt_or_ge j i with hji | hij
      · obtain ⟨hi, rfl⟩ := List.getElem?_eq_some_iff.mp hx
        obtain ⟨hj', rfl⟩ := List.getElem?_eq_some_iff.mp hj
        exact List.pairwise_iff_getElem.mp hxs j i hj' hi hji
      · obtain rfl : j = i := by omega
        rw [hx] at hj
        rw [Option.some.inj hj]
    simpa using hle
  have hi : i < xs.length := (List.getElem?_eq_some_iff.mp hx).1
  have hdrop : (xs.drop (i + 1)).countP (fun y => key x < key y) ≤ xs.length - (i + 1) := by
    rw [← List.length_drop]
    exact List.countP_le_length
  have hsplit : xs.countP (fun y => key x < key y) =
      (xs.take (i + 1)).countP (fun y => key x < key y) +
        (xs.drop (i + 1)).countP (fun y => key x < key y) := by
    rw [← List.countP_append, List.take_append_drop]
  omega

theorem middle_mem_of_majority
    (h : xs.length < 2 * xs.countP fun y => a ≤ key y ∧ key y ≤ b)
    (hx : middle key xs = some x) : a ≤ key x ∧ key x ≤ b := by
  have hsorted := sortOn_pairwise key xs
  have hcount : ∀ p : α → Bool, (sortOn key xs).countP p = xs.countP p :=
    fun p => (sortOn_perm key xs).countP_eq p
  have hbelow := countP_lt_le hsorted hx
  have habove := countP_gt_lt hsorted hx
  rw [hcount] at hbelow habove
  rw [length_sortOn] at habove
  constructor
  · by_contra hlt
    have hmono : xs.countP (fun y => a ≤ key y ∧ key y ≤ b) ≤
        xs.countP fun y => key x < key y := by
      refine List.countP_mono_left fun y _ hy => ?_
      rw [decide_eq_true_eq] at hy ⊢
      exact lt_of_lt_of_le (not_le.mp hlt) hy.1
    omega
  · by_contra hgt
    have hmono : xs.countP (fun y => a ≤ key y ∧ key y ≤ b) ≤
        xs.countP fun y => key y < key x := by
      refine List.countP_mono_left fun y _ hy => ?_
      rw [decide_eq_true_eq] at hy ⊢
      exact lt_of_le_of_lt hy.2 (not_le.mp hgt)
    omega

end AgriFi.Middle
