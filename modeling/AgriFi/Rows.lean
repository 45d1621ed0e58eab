import Mathlib.Algebra.GroupWithZero.Nat
import Mathlib.Algebra.Order.Group.Int
import Mathlib.Algebra.Ring.Int.Defs
import Mathlib.Data.List.Basic

/-
  A table as the list of its rows: the update of the rows that a condition selects, the insertion
  of rows that do not conflict, and the sum and the maximum of a column over selected rows.
-/

namespace AgriFi.Rows

variable {ρ β : Type} {rows : List ρ} {p q : ρ → Bool} {f : ρ → ρ} {row : ρ}

def update (p : ρ → Bool) (f : ρ → ρ) (rows : List ρ) : List ρ :=
  rows.map fun row => if p row then f row else row

theorem mem_update : row ∈ update p f rows ↔
    (∃ x ∈ rows, p x = true ∧ f x = row) ∨ (row ∈ rows ∧ p row = false) := by
  unfold update
  rw [List.mem_map]
  constructor
  · rintro ⟨x, hx, rfl⟩
    cases hp : p x with
    | true => exact .inl ⟨x, hx, hp, (if_pos rfl).symm⟩
    | false => exact .inr ⟨hx, hp⟩
  · rintro (⟨x, hx, hp, rfl⟩ | ⟨hrow, hp⟩)
    · exact ⟨x, hx, if_pos hp⟩
    · exact ⟨row, hrow, by simp [hp]⟩

/-- A column that the update keeps. -/
theorem map_update {g : ρ → β} (h : ∀ x, g (f x) = g x) :
    (update p f rows).map g = rows.map g := by
  unfold update
  rw [List.map_map]
  refine List.map_congr_left fun x _ => ?_
  show g (if p x then f x else x) = g x
  split
  · exact h x
  · rfl

theorem length_update : (update p f rows).length = rows.length := List.length_map ..

/-- The rows that a sublist has selected, by a key of their own. -/
theorem sum_ite_mem_sublist [DecidableEq β] {selected : List ρ} {key : ρ → β}
    (h : selected.Sublist rows) (hkeys : (rows.map key).Nodup) (f : ρ → Nat) :
    (rows.map fun row => if key row ∈ selected.map key then f row else 0).sum =
      (selected.map f).sum := by
  induction h with
  | slnil => rfl
  | @cons selected rows row hsub ih =>
    rw [List.map_cons, List.nodup_cons] at hkeys
    have hout : key row ∉ selected.map key := fun hin => hkeys.1 ((hsub.map key).subset hin)
    rw [List.map_cons, List.sum_cons, if_neg hout, Nat.zero_add]
    exact ih hkeys.2
  | @cons_cons selected rows row hsub ih =>
    rw [List.map_cons, List.nodup_cons] at hkeys
    have hrest : (rows.map fun x => if key x ∈ (row :: selected).map key then f x else 0) =
        rows.map fun x => if key x ∈ selected.map key then f x else 0 := by
      refine List.map_congr_left fun x hx => ?_
      have hne : key x ≠ key row := fun heq => hkeys.1 (heq ▸ List.mem_map_of_mem hx)
      simp only [List.map_cons, List.mem_cons, hne, false_or]
    have hin : key row ∈ (row :: selected).map key := List.mem_cons_self ..
    rw [List.map_cons, List.sum_cons, if_pos hin, hrest, ih hkeys.2, List.map_cons, List.sum_cons]

/-! ## Insertion that does nothing on a conflict -/

section Insert

variable {key : ρ → β} {table inserted : List ρ}

def insertIgnoring [DecidableEq β] (key : ρ → β) (table : List ρ) : List ρ → List ρ
  | [] => table
  | row :: inserted =>
    if key row ∈ table.map key then insertIgnoring key table inserted
    else insertIgnoring key (table ++ [row]) inserted

theorem insertIgnoring_of_nodup [DecidableEq β] (h : ((table ++ inserted).map key).Nodup) :
    insertIgnoring key table inserted = table ++ inserted := by
  induction inserted generalizing table with
  | nil => rw [insertIgnoring, List.append_nil]
  | cons row inserted ih =>
    have hnew : key row ∉ table.map key := by
      rw [List.map_append, List.nodup_append] at h
      exact fun hmem => h.2.2 _ hmem _ (List.mem_cons_self ..) rfl
    rw [insertIgnoring, if_neg hnew, ih (by rwa [List.append_assoc]), List.append_assoc]
    rfl

theorem length_insertIgnoring_le [DecidableEq β] :
    (insertIgnoring key table inserted).length ≤ table.length + inserted.length := by
  induction inserted generalizing table with
  | nil => exact le_rfl
  | cons row inserted ih =>
    have hskip := @ih table
    have hadd := @ih (table ++ [row])
    rw [List.length_append, List.length_singleton] at hadd
    rw [insertIgnoring, List.length_cons]
    split <;> omega

/-- When every row was inserted no two had the same key. -/
theorem nodup_of_length_insertIgnoring [DecidableEq β] (htable : (table.map key).Nodup)
    (h : (insertIgnoring key table inserted).length = table.length + inserted.length) :
    ((table ++ inserted).map key).Nodup := by
  induction inserted generalizing table with
  | nil => rwa [List.append_nil]
  | cons row inserted ih =>
    rw [insertIgnoring, List.length_cons] at h
    split at h
    · have hle : (insertIgnoring key table inserted).length ≤ table.length + inserted.length :=
        length_insertIgnoring_le
      omega
    · next hnew =>
      have hnext : ((table ++ [row]).map key).Nodup := by
        rw [List.map_append, List.nodup_append]
        refine ⟨htable, List.pairwise_singleton .., fun x hx y hy => ?_⟩
        rintro rfl
        exact hnew (List.mem_singleton.mp hy ▸ hx)
      have hrest := ih hnext (by rw [h, List.length_append, List.length_singleton]; omega)
      rwa [List.append_assoc] at hrest

end Insert

/-! ## A sum over the selected rows -/

section Total

variable {amount : ρ → Int}

def total (p : ρ → Bool) (amount : ρ → Int) (rows : List ρ) : Int :=
  ((rows.filter p).map amount).sum

theorem total_append {rows' : List ρ} :
    total p amount (rows ++ rows') = total p amount rows + total p amount rows' := by
  unfold total
  rw [List.filter_append, List.map_append, List.sum_append]

theorem total_congr (h : ∀ x ∈ rows, p x = q x) : total p amount rows = total q amount rows := by
  unfold total
  rw [List.filter_congr h]

/-- The two selections together count what both select twice. -/
theorem total_or : total (fun x => p x || q x) amount rows +
    total (fun x => p x && q x) amount rows = total p amount rows + total q amount rows := by
  unfold total
  induction rows with
  | nil => rfl
  | cons x rows ih =>
    cases hp : p x <;> cases hq : q x <;> simp [hp, hq] <;> omega

theorem total_update (h : ∀ x, amount (f x) = amount x) : total q amount (update p f rows) =
    total (fun x => if p x then q (f x) else q x) amount rows := by
  unfold total update
  induction rows with
  | nil => rfl
  | cons x rows ih =>
    rw [List.map_cons, List.filter_cons, List.filter_cons]
    cases hp : p x <;> cases hq : q x <;> cases hf : q (f x) <;> simp_all

end Total

/-! ## The maximum over the selected rows -/

section Highest

variable {score : ρ → Nat} {n : Nat}

theorem foldl_max_le_iff {xs : List Nat} {m : Nat} :
    xs.foldl max m ≤ n ↔ m ≤ n ∧ ∀ x ∈ xs, x ≤ n := by
  induction xs generalizing m with
  | nil => simp
  | cons x xs ih =>
    rw [List.foldl_cons, ih, List.forall_mem_cons, Nat.max_le, and_assoc]

def highest (p : ρ → Bool) (score : ρ → Nat) (rows : List ρ) : Nat :=
  ((rows.filter p).map score).foldl max 0

theorem highest_le_iff :
    highest p score rows ≤ n ↔ ∀ x ∈ rows, p x = true → score x ≤ n := by
  unfold highest
  rw [foldl_max_le_iff, List.forall_mem_map]
  simp only [Nat.zero_le, true_and, List.mem_filter, and_imp]

/-- A number is the maximum as soon as it has the same bounds. -/
theorem eq_highest (h : ∀ m, n ≤ m ↔ ∀ x ∈ rows, p x = true → score x ≤ m) :
    n = highest p score rows := by
  refine Nat.le_antisymm ((h _).mpr (highest_le_iff.mp (Nat.le_refl _))) ?_
  exact highest_le_iff.mpr ((h _).mp (Nat.le_refl _))

theorem highest_congr (h : ∀ x ∈ rows, p x = q x) : highest p score rows = highest q score rows := by
  unfold highest
  rw [List.filter_congr h]

theorem highest_update (h : ∀ x, score (f x) = score x) : highest q score (update p f rows) =
    highest (fun x => if p x then q (f x) else q x) score rows := by
  symm
  refine eq_highest fun m => ?_
  rw [highest_le_iff, update, List.forall_mem_map]
  refine forall₂_congr fun x _ => ?_
  cases p x <;> simp [h]

end Highest

end AgriFi.Rows
