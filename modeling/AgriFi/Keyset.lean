import Mathlib.Data.List.Basic
import Mathlib.Data.List.Sort

/-
  Reading a list page by page. A request returns the elements after a cursor, up to a limit, and a
  cursor made of the last of them when there are more (`cut`); `follow` makes requests until none
  is returned. A cursor excludes the element it was made of and all before it (`Resumes`), so no
  element is returned twice. It may exclude more than that: `follow_iff` says that the pages have
  all elements, in order, exactly when no cursor that is used does.
-/

namespace AgriFi.Keyset

variable {α γ : Type}

/-! ## Requests -/

/-- The first elements, and the cursor to go on from when there are more. -/
def cut (limit : Nat) (cursor : α → γ) (items : List α) : List α × Option γ :=
  if limit < items.length then (items.take limit, (items.take limit).getLast?.map cursor)
  else (items, none)

/-- The elements a request with a cursor is about. -/
def itemsFrom (after : γ → α → Bool) (rows : List α) : Option γ → List α
  | none => rows
  | some c => rows.filter (after c)

/-- The pages from a cursor on, until one has no next cursor; `none` when the fuel runs out. -/
def follow (page : Option γ → List α × Option γ) : Nat → Option γ → Option (List α)
  | 0, _ => none
  | fuel + 1, c =>
    match (page c).2 with
    | none => some (page c).1
    | some next => (follow page fuel (some next)).map fun rest => (page c).1 ++ rest

/-- Along the rows a cursor excludes a prefix, and its own element is in it. -/
structure Resumes (after : γ → α → Bool) (cursor : α → γ) (rows : List α) : Prop where
  mono : rows.Pairwise fun a b => ∀ c, after c a = true → after c b = true
  self : ∀ a ∈ rows, after (cursor a) a = false

section Resumes

variable {after : γ → α → Bool} {cursor : α → γ} {rows pre rest : List α} {x : α} {limit : Nat}

/-- What comes after a cursor comes after its element. -/
theorem Resumes.filter_eq (h : Resumes after cursor rows) (hrows : rows = pre ++ x :: rest) :
    rows.filter (after (cursor x)) = rest.filter (after (cursor x)) := by
  have hself := h.self x (by simp [hrows])
  have hmono := h.mono
  rw [hrows, List.pairwise_append] at hmono
  have hpre : pre.filter (after (cursor x)) = [] := by
    refine List.filter_eq_nil_iff.mpr fun a ha hafter => ?_
    have := hmono.2.2 a ha x (List.mem_cons_self ..) _ hafter
    rw [hself] at this
    exact Bool.false_ne_true this
  rw [hrows, List.filter_append, hpre, List.nil_append,
    List.filter_cons_of_neg (by simp [hself])]

/-- If the first of the rest comes after the cursor, all of the rest does. -/
theorem Resumes.filter_rest (h : Resumes after cursor rows) {y : α}
    (hrows : rows = pre ++ y :: rest) {c : γ} (hy : after c y = true) :
    (y :: rest).filter (after c) = y :: rest := by
  have hmono := h.mono
  rw [hrows, List.pairwise_append] at hmono
  refine List.filter_eq_self.mpr fun b hb => ?_
  rcases List.mem_cons.mp hb with rfl | hb
  · exact hy
  · exact (List.pairwise_cons.mp hmono.2.1).1 b hb c hy

end Resumes

/-! ## All pages -/

/-- Where a page ends, its cursor does not exclude the next row. -/
def Continues (after : γ → α → Bool) (cursor : α → γ) (limit : Nat) (rows : List α) : Prop :=
  ∀ k x y, rows[(k + 1) * limit - 1]? = some x → rows[(k + 1) * limit]? = some y →
    after (cursor x) y = true

section Follow

variable {after : γ → α → Bool} {cursor : α → γ} {rows rest : List α} {limit : Nat} {c : Option γ}

theorem cut_of_length_le {items : List α} (h : items.length ≤ limit) :
    cut limit cursor items = (items, none) := if_neg (by omega)

theorem cut_of_lt {front tail : List α} {x : α} (hlength : front.length + 1 = limit)
    (ht : tail ≠ []) :
    cut limit cursor (front ++ x :: tail) = (front ++ [x], some (cursor x)) := by
  have hpos := List.length_pos_iff.mpr ht
  have htake : (front ++ x :: tail).take limit = front ++ [x] := by
    rw [← hlength, List.take_length_add_append]
    simp
  unfold cut
  rw [if_pos (by simp; omega), htake]
  simp

/-- A list with more than a page of elements. -/
theorem exists_page {items : List α} (hl : 0 < limit) (h : limit < items.length) :
    ∃ front x y tail, items = front ++ x :: y :: tail ∧ front.length + 1 = limit := by
  obtain ⟨n, rfl⟩ : ∃ n, limit = n + 1 := ⟨limit - 1, by omega⟩
  refine ⟨items.take n, items[n], items[n + 1], items.drop (n + 2), ?_, ?_⟩
  · rw [← List.drop_eq_getElem_cons, ← List.drop_eq_getElem_cons, List.take_append_drop]
  · rw [List.length_take]
    omega

/-- What the pages return begins with what there is. -/
theorem head?_follow {fuel : Nat} {v : List α} (hl : 0 < limit)
    (h : follow (fun c => cut limit cursor (itemsFrom after rows c)) fuel c = some v) :
    v.head? = (itemsFrom after rows c).head? := by
  cases fuel with
  | zero => simp [follow] at h
  | succ fuel =>
    unfold follow at h
    generalize itemsFrom after rows c = items at h ⊢
    by_cases hmore : limit < items.length
    · obtain ⟨front, x, y, tail, rfl, hlength⟩ := exists_page hl hmore
      simp only [cut_of_lt hlength (List.cons_ne_nil y tail), Option.map_eq_some_iff] at h
      obtain ⟨v', _, rfl⟩ := h
      cases front <;> rfl
    · simp only [cut_of_length_le (not_lt.mp hmore), Option.some.injEq] at h
      rw [h]

/-- The next page of a full one. -/
theorem follow_more {front tail : List α} {x : α} {fuel : Nat}
    (hitems : itemsFrom after rows c = front ++ x :: tail) (hlength : front.length + 1 = limit)
    (ht : tail ≠ []) :
    follow (fun c => cut limit cursor (itemsFrom after rows c)) (fuel + 1) c =
        some (front ++ x :: tail) ↔
      follow (fun c => cut limit cursor (itemsFrom after rows c)) fuel (some (cursor x)) =
        some tail := by
  rw [follow]
  simp only [hitems, cut_of_lt hlength ht, Option.map_eq_some_iff]
  constructor
  · rintro ⟨v, hv, heq⟩
    rw [List.append_assoc, List.singleton_append] at heq
    have htail : v = tail := by simpa using heq
    rw [← htail]
    exact hv
  · intro hv
    exact ⟨tail, hv, by simp⟩

theorem getElem?_page {front l : List α} {x : α} (hlength : front.length + 1 = limit) (i : Nat) :
    (front ++ x :: l)[limit + i]? = l[i]? := by
  rw [← hlength, List.append_cons, List.getElem?_append_right (by simp)]
  simp

/-- Where a later page ends is where it ends in the rest. -/
theorem getElem?_later_page {front l : List α} {x : α} (hlength : front.length + 1 = limit)
    (k : Nat) :
    (front ++ x :: l)[(k + 1 + 1) * limit - 1]? = l[(k + 1) * limit - 1]? ∧
      (front ++ x :: l)[(k + 1 + 1) * limit]? = l[(k + 1) * limit]? := by
  have hprev : (k + 1 + 1) * limit - 1 = limit + ((k + 1) * limit - 1) := by
    rw [Nat.succ_mul (k + 1), Nat.succ_mul k]
    omega
  have hindex : (k + 1 + 1) * limit = limit + (k + 1) * limit := by
    rw [Nat.succ_mul (k + 1), Nat.add_comm]
  rw [hprev, hindex]
  exact ⟨getElem?_page hlength _, getElem?_page hlength _⟩

theorem exists_follow_more {front tail : List α} {x : α}
    (hitems : itemsFrom after rows c = front ++ x :: tail) (hlength : front.length + 1 = limit)
    (ht : tail ≠ []) :
    (∃ fuel, follow (fun c => cut limit cursor (itemsFrom after rows c)) fuel c =
        some (front ++ x :: tail)) ↔
      ∃ fuel, follow (fun c => cut limit cursor (itemsFrom after rows c)) fuel (some (cursor x)) =
        some tail := by
  constructor
  · rintro ⟨fuel, hf⟩
    cases fuel with
    | zero => simp [follow] at hf
    | succ fuel => exact ⟨fuel, (follow_more hitems hlength ht).mp hf⟩
  · rintro ⟨fuel, hf⟩
    exact ⟨fuel + 1, (follow_more hitems hlength ht).mpr hf⟩

/-- The condition on what is left splits off the end of the first page. -/
theorem continues_cons {front tail : List α} {x y : α} (hlength : front.length + 1 = limit) :
    Continues after cursor limit (front ++ x :: y :: tail) ↔
      after (cursor x) y = true ∧ Continues after cursor limit (y :: tail) := by
  have hlast : (front ++ x :: y :: tail)[limit - 1]? = some x := by
    rw [← hlength, Nat.add_sub_cancel, List.getElem?_append_right le_rfl, Nat.sub_self]
    rfl
  have hnext : (front ++ x :: y :: tail)[limit]? = some y := getElem?_page hlength 0
  constructor
  · intro h
    refine ⟨h 0 x y (by simpa using hlast) (by simpa using hnext), fun k a b ha hb => ?_⟩
    obtain ⟨hprev, hindex⟩ := getElem?_later_page (x := x) (l := y :: tail) hlength k
    exact h (k + 1) a b (hprev.trans ha) (hindex.trans hb)
  · rintro ⟨hfirst, h⟩ k a b ha hb
    cases k with
    | zero =>
      rw [Nat.zero_add, Nat.one_mul] at ha hb
      obtain rfl := Option.some.inj (hlast.symm.trans ha)
      obtain rfl := Option.some.inj (hnext.symm.trans hb)
      exact hfirst
    | succ k =>
      obtain ⟨hprev, hindex⟩ := getElem?_later_page (x := x) (l := y :: tail) hlength k
      exact h k a b (hprev.symm.trans ha) (hindex.symm.trans hb)

/-- From what is left on, the pages return all of it exactly if no cursor excludes more than the
    rows before it. -/
theorem follow_rest_iff (h : Resumes after cursor rows) (hl : 0 < limit) {pre : List α}
    (hrows : rows = pre ++ rest) (hrest : itemsFrom after rows c = rest) :
    (∃ fuel, follow (fun c => cut limit cursor (itemsFrom after rows c)) fuel c = some rest) ↔
      Continues after cursor limit rest := by
  induction hn : rest.length using Nat.strong_induction_on generalizing pre rest c with
  | _ n ih =>
    subst hn
    by_cases hmore : limit < rest.length
    · obtain ⟨front, x, y, tail, rfl, hlength⟩ := exists_page hl hmore
      have hsplit : rows = (pre ++ front) ++ x :: (y :: tail) := by rw [hrows, List.append_assoc]
      have hnext : itemsFrom after rows (some (cursor x)) =
          (y :: tail).filter (after (cursor x)) := h.filter_eq hsplit
      rw [exists_follow_more hrest hlength (by simp), continues_cons hlength]
      by_cases hy : after (cursor x) y = true
      · have hsplit' : rows = (pre ++ front ++ [x]) ++ y :: tail := by
          rw [hsplit, List.append_assoc _ [x]]
          rfl
        rw [h.filter_rest hsplit' hy] at hnext
        rw [ih _ (by simp; omega) hsplit' hnext rfl]
        simp [hy]
      · refine iff_of_false ?_ fun hc => hy hc.1
        -- the next page begins with a row after the cursor, so not with `y`
        rintro ⟨fuel, hf⟩
        have hhead := head?_follow hl hf
        rw [hnext, List.head?_cons] at hhead
        have hmem := List.mem_of_head? hhead.symm
        exact hy (List.mem_filter.mp hmem).2
    · refine iff_of_true ⟨1, ?_⟩ fun k x y _ hy => ?_
      · rw [follow, hrest, cut_of_length_le (not_lt.mp hmore)]
      · have hlt := (List.getElem?_eq_some_iff.mp hy).1
        have hle : limit ≤ (k + 1) * limit := Nat.le_mul_of_pos_left limit (by omega)
        omega

/-- The pages from the first one on have all rows, in order, exactly if no cursor that ends a page
    excludes more than the rows up to it. -/
theorem follow_iff (h : Resumes after cursor rows) (hl : 0 < limit) :
    (∃ fuel, follow (fun c => cut limit cursor (itemsFrom after rows c)) fuel none = some rows) ↔
      Continues after cursor limit rows :=
  follow_rest_iff h hl (List.nil_append rows).symm rfl

/-- Pages of no rows have none. -/
theorem follow_zero_iff :
    (∃ fuel, follow (fun c => cut 0 cursor (itemsFrom after rows c)) fuel none = some rows) ↔
      rows = [] := by
  have hfirst : cut 0 cursor rows = ([], none) := by
    unfold cut
    cases rows <;> rfl
  constructor
  · rintro ⟨fuel, hf⟩
    cases fuel with
    | zero => simp [follow] at hf
    | succ fuel =>
      rw [follow] at hf
      simp only [itemsFrom, hfirst, Option.some.injEq] at hf
      exact hf.symm
  · rintro rfl
    exact ⟨1, by simp [follow, itemsFrom, hfirst]⟩

end Follow

end AgriFi.Keyset
