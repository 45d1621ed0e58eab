import Mathlib.Data.List.Basic
import Mathlib.Logic.Function.Basic

/-
  A text in pieces of one size, and values under numbered names in a store where a later entry
  replaces an earlier one of the same name. Writing values over values keeps what is left behind
  the new ones (`putAll_numbered`); reading the names in turn gives the values
  (`readFrom_numbered`).
-/

namespace AgriFi.Chunked

/-! ## Pieces -/

section Pieces

variable {α : Type} (size : Nat) (text : List α)

/-- The pieces of `size` elements; the last may be shorter. -/
def chunks : List (List α) :=
  (List.range ((text.length + size - 1) / size)).map fun i => (text.drop (size * i)).take size

theorem flatten_slices (n : Nat) :
    ((List.range n).map fun i => (text.drop (size * i)).take size).flatten =
      text.take (size * n) := by
  induction n with
  | zero => simp
  | succ n ih =>
    rw [List.range_succ, List.map_append, List.flatten_append, ih, List.map_singleton,
      List.flatten_singleton, Nat.mul_succ, List.take_add]

theorem flatten_take_chunks (h : 0 < size) (k : Nat) :
    ((chunks size text).take k).flatten = text.take (size * k) := by
  rw [chunks, ← List.map_take, List.take_range, flatten_slices]
  by_cases hk : k ≤ (text.length + size - 1) / size
  · rw [Nat.min_eq_left hk]
  · -- all pieces are taken
    have hall : text.length ≤ size * ((text.length + size - 1) / size) := by
      have hmod := Nat.mod_lt (text.length + size - 1) h
      have hdiv := Nat.div_add_mod (text.length + size - 1) size
      omega
    have hk' : (text.length + size - 1) / size ≤ k := by omega
    rw [Nat.min_eq_right hk', List.take_of_length_le hall,
      List.take_of_length_le (Nat.le_trans hall (Nat.mul_le_mul_left size hk'))]

end Pieces

/-! ## Numbered entries -/

section Entries

variable {N V : Type} [DecidableEq N]

/-- The entry of a name, replaced in its place or added behind the others. -/
def put (name : N) (value : V) : List (N × V) → List (N × V)
  | [] => [(name, value)]
  | entry :: entries =>
    if entry.1 = name then (name, value) :: entries else entry :: put name value entries

def putAll (store entries : List (N × V)) : List (N × V) :=
  entries.foldl (fun store entry => put entry.1 entry.2 store) store

def lookup (name : N) : List (N × V) → Option V
  | [] => none
  | entry :: entries => if entry.1 = name then some entry.2 else lookup name entries

/-- The values under `name k`, `name (k + 1)` and so on, up to the first name without one. -/
def readFrom (name : Nat → N) (store : List (N × V)) (k : Nat) : Nat → List V
  | 0 => []
  | fuel + 1 =>
    match lookup (name k) store with
    | none => []
    | some value => value :: readFrom name store (k + 1) fuel

/-- Values under the names from `name k` on. -/
def numbered (name : Nat → N) (k : Nat) : List V → List (N × V)
  | [] => []
  | value :: values => (name k, value) :: numbered name (k + 1) values

variable {name : Nat → N}

omit [DecidableEq N] in
theorem length_numbered (k : Nat) (values : List V) :
    (numbered name k values).length = values.length := by
  induction values generalizing k with
  | nil => rfl
  | cons value values ih => rw [numbered, List.length_cons, ih, List.length_cons]

theorem putAll_append (store xs ys : List (N × V)) :
    putAll store (xs ++ ys) = putAll (putAll store xs) ys :=
  List.foldl_append

theorem put_numbered (h : Function.Injective name) (k : Nat) (before values : List V) (w : V) :
    put (name (k + before.length)) w (numbered name k (before ++ values)) =
      numbered name k (before ++ w :: values.drop 1) := by
  induction before generalizing k with
  | nil =>
    cases values with
    | nil => rfl
    | cons value values => exact if_pos rfl
  | cons value before ih =>
    have hne : name k ≠ name (k + (before.length + 1)) := fun heq => by
      have := h heq
      omega
    have hrest := ih (k + 1)
    rw [show k + 1 + before.length = k + (before.length + 1) by omega] at hrest
    rw [List.cons_append, List.cons_append, numbered, numbered, List.length_cons, put, if_neg hne,
      hrest]

theorem putAll_numbered_from (h : Function.Injective name) (before values ws : List V) :
    putAll (numbered name 0 (before ++ values)) (numbered name before.length ws) =
      numbered name 0 (before ++ ws ++ values.drop ws.length) := by
  induction ws generalizing before values with
  | nil => rw [List.append_nil]; rfl
  | cons w ws ih =>
    have hput := put_numbered h 0 before values w
    rw [Nat.zero_add] at hput
    have hrest := ih (before ++ [w]) (values.drop 1)
    rw [List.length_append, List.length_singleton, List.append_assoc, List.singleton_append,
      List.drop_drop] at hrest
    calc putAll (numbered name 0 (before ++ values)) (numbered name before.length (w :: ws))
        = putAll (numbered name 0 (before ++ w :: values.drop 1))
            (numbered name (before.length + 1) ws) := by
          rw [← hput]
          rfl
      _ = numbered name 0 (before ++ w :: ws ++ values.drop (w :: ws).length) := by
          rw [hrest, List.length_cons, Nat.add_comm 1]
          simp

/-- The new values come first; what is left of the old ones stands behind them. -/
theorem putAll_numbered (h : Function.Injective name) (values ws : List V) :
    putAll (numbered name 0 values) (numbered name 0 ws) =
      numbered name 0 (ws ++ values.drop ws.length) :=
  putAll_numbered_from h [] values ws

theorem lookup_numbered (h : Function.Injective name) (k i : Nat) (values : List V) :
    lookup (name (k + i)) (numbered name k values) = values[i]? := by
  induction values generalizing k i with
  | nil => rfl
  | cons value values ih =>
    rw [numbered, lookup]
    cases i with
    | zero => exact if_pos rfl
    | succ i =>
      have hne : name k ≠ name (k + (i + 1)) := fun heq => by
        have := h heq
        omega
      rw [if_neg hne, ← Nat.add_assoc, Nat.add_right_comm, ih, List.getElem?_cons_succ]

theorem readFrom_numbered (h : Function.Injective name) (values : List V) (k fuel : Nat)
    (hfuel : values.length ≤ k + fuel) :
    readFrom name (numbered name 0 values) k fuel = values.drop k := by
  induction fuel generalizing k with
  | zero => exact (List.drop_eq_nil_of_le hfuel).symm
  | succ fuel ih =>
    have hlookup := lookup_numbered h 0 k values
    rw [Nat.zero_add] at hlookup
    rw [readFrom, hlookup]
    by_cases hk : k < values.length
    · rw [List.getElem?_eq_getElem hk, List.drop_eq_getElem_cons hk]
      dsimp only
      rw [ih (k + 1) (by omega)]
    · rw [List.getElem?_eq_none (by omega), List.drop_eq_nil_of_le (by omega)]

end Entries

end AgriFi.Chunked
