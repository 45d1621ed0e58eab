import Mathlib.Data.List.DropRight

/-
  Reading an ordered feed. A reader gets the first elements at or after a key (`List.take` of a
  filter), and remembers the last of those it has handled (`push`, a list that forgets its oldest
  element beyond a limit). The rules below say what a page of a list sorted by its keys holds, and
  what is still remembered after a number of pushes.
-/

namespace AgriFi.Feeds

variable {α : Type} {key : α → Int} {l : List α} {limit : Nat} {x y : α}

/-! ## Pages of a sorted list -/

/-- The keys do not decrease along the list. -/
def Sorted (key : α → Int) (l : List α) : Prop := l.Pairwise fun a b => key a ≤ key b

theorem Sorted.filter (hl : Sorted key l) (p : α → Bool) : Sorted key (l.filter p) :=
  List.Pairwise.filter p hl

theorem Sorted.take (hl : Sorted key l) (n : Nat) : Sorted key (l.take n) :=
  List.Pairwise.sublist (List.take_sublist n l) hl

theorem Sorted.append {l' : List α} (hl : Sorted key l) (hl' : Sorted key l')
    (h : ∀ a ∈ l, ∀ b ∈ l', key a ≤ key b) : Sorted key (l ++ l') :=
  List.pairwise_append.mpr ⟨hl, hl', h⟩

/-- A page has all that comes before one of its elements. -/
theorem Sorted.mem_take (hl : Sorted key l) {n : Nat} (hx : x ∈ l) (hy : y ∈ l.take n)
    (hlt : key x < key y) : x ∈ l.take n := by
  rw [← List.take_append_drop n l] at hx
  unfold Sorted at hl
  rw [← List.take_append_drop n l, List.pairwise_append] at hl
  rcases List.mem_append.mp hx with hx | hx
  · exact hx
  · have hle := hl.2.2 y hy x hx
    omega

/-- A page that is not full has everything. -/
theorem take_eq_self {n : Nat} (h : (l.take n).length < n) : l.take n = l := by
  rw [List.length_take] at h
  exact List.take_of_length_le (by omega)

/-- A sorted list is what is up to a key, and then what is after it. -/
theorem Sorted.filter_append_filter (hl : Sorted key l) (m : Int) :
    (l.filter fun a => key a ≤ m) ++ (l.filter fun a => m < key a) = l := by
  induction l with
  | nil => rfl
  | cons a l ih =>
    obtain ⟨ha, hl⟩ := List.pairwise_cons.mp hl
    by_cases hle : key a ≤ m
    · have hnot : ¬ m < key a := by omega
      rw [List.filter_cons_of_pos (by simpa using hle),
        List.filter_cons_of_neg (by simpa using hnot), List.cons_append, ih hl]
    · have hafter : ∀ b ∈ a :: l, m < key b := by
        intro b hb
        rcases List.mem_cons.mp hb with rfl | hb
        · omega
        · have hab := ha b hb
          omega
      have hnone : (a :: l).filter (fun b => key b ≤ m) = [] := by
        apply List.filter_eq_nil_iff.mpr
        intro b hb
        simpa using hafter b hb
      rw [hnone, List.nil_append]
      exact List.filter_eq_self.mpr fun b hb => by simpa using hafter b hb

/-! ## A bounded memory -/

/-- The element is remembered, and the oldest one is forgotten when there are too many. -/
def push (limit : Nat) (l : List α) (x : α) : List α :=
  if limit < (l ++ [x]).length then (l ++ [x]).tail else l ++ [x]

theorem push_rtake (hlimit : 0 < limit) (l : List α) (x : α) :
    push limit (l.rtake limit) x = (l ++ [x]).rtake limit := by
  obtain ⟨n, rfl⟩ : ∃ n, limit = n + 1 := ⟨limit - 1, by omega⟩
  rw [List.rtake_concat_succ]
  unfold push List.rtake
  by_cases hfull : n + 1 ≤ l.length
  · have hdrop : l.drop (l.length - n) = (l.drop (l.length - (n + 1))).tail := by
      rw [List.tail_drop]
      congr 1
      omega
    have hne : l.drop (l.length - (n + 1)) ≠ [] := by
      intro hnil
      have hlength := congrArg List.length hnil
      rw [List.length_drop] at hlength
      simp at hlength
      omega
    rw [if_pos (by simp; omega), List.tail_append_of_ne_nil hne, hdrop]
  · have hall : l.length - (n + 1) = 0 := by omega
    have hall' : l.length - n = 0 := by omega
    rw [if_neg (by simp; omega), hall, hall']

theorem mem_of_mem_rtake {n : Nat} (h : x ∈ l.rtake n) : x ∈ l := List.mem_of_mem_drop h

/-- What came among the last `limit` elements is remembered. -/
theorem mem_rtake_append {n : Nat} (l : List α) {l' : List α} (hlength : l'.length ≤ n)
    (h : x ∈ l') : x ∈ (l ++ l').rtake n := by
  unfold List.rtake
  rw [List.length_append, List.drop_append_of_le_length (by omega)]
  exact List.mem_append_right _ h

end AgriFi.Feeds
