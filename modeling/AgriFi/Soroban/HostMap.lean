import Mathlib.Order.Defs.LinearOrder
import Mathlib.Order.Basic
import Mathlib.Data.List.Basic
import Mathlib.Data.List.Pairwise
import Mathlib.Data.Finset.Card
import Mathlib.Algebra.BigOperators.Group.List.Basic
import Mathlib.Algebra.Order.BigOperators.Group.List
import Mathlib.Tactic.Linarith

/-
  The host's `Map`: entries in strictly increasing key order, the order `iter` visits them in.
  The order is a field, so an unsorted or duplicated entry list is not a map. `sumBy f m` adds
  `f k v` over the entries; `sumBy_set` and `sumBy_remove` say what a write does to it, and every
  conservation result about a ledger kept in a map goes through them. `unclaimed` is the case of
  a ledger of debts beside a map of marks: what is owed to the keys not marked as paid.
-/

namespace AgriFi.Soroban

structure HostMap (κ ν : Type) [LinearOrder κ] where
  entries : List (κ × ν)
  sorted : entries.Pairwise fun a b => a.1 < b.1

namespace HostMap

variable {κ ν : Type} [LinearOrder κ]

/-! ## Entry lists -/

def lookupEntry (k : κ) : List (κ × ν) → Option ν
  | [] => none
  | (a, v) :: l => if a = k then some v else lookupEntry k l

def insertEntry (k : κ) (v : ν) : List (κ × ν) → List (κ × ν)
  | [] => [(k, v)]
  | (a, w) :: l =>
    if k < a then (k, v) :: (a, w) :: l
    else if a = k then (k, v) :: l
    else (a, w) :: insertEntry k v l

example : lookupEntry 2 (insertEntry 1 'b' [(0, 'a'), (2, 'c')]) = some 'c' := by
  simp [insertEntry, lookupEntry]

theorem mem_insertEntry {k : κ} {v : ν} {e : κ × ν} {l : List (κ × ν)}
    (h : e ∈ insertEntry k v l) : e = (k, v) ∨ e ∈ l := by
  induction l with
  | nil => simpa [insertEntry] using h
  | cons x l ih =>
    obtain ⟨a, w⟩ := x
    unfold insertEntry at h
    split at h
    · exact List.mem_cons.mp h
    · split at h
      · rcases List.mem_cons.mp h with h | h
        · exact .inl h
        · exact .inr (List.mem_cons_of_mem _ h)
      · rcases List.mem_cons.mp h with h | h
        · exact .inr (h ▸ List.mem_cons_self ..)
        · rcases ih h with h | h
          · exact .inl h
          · exact .inr (List.mem_cons_of_mem _ h)

theorem sorted_insertEntry (k : κ) (v : ν) {l : List (κ × ν)}
    (h : l.Pairwise fun a b => a.1 < b.1) :
    (insertEntry k v l).Pairwise fun a b => a.1 < b.1 := by
  induction l with
  | nil => simp [insertEntry]
  | cons x l ih =>
    obtain ⟨a, w⟩ := x
    obtain ⟨hx, hl⟩ := List.pairwise_cons.mp h
    unfold insertEntry
    split
    · next hlt =>
      refine List.pairwise_cons.mpr ⟨?_, h⟩
      intro e he
      rcases List.mem_cons.mp he with rfl | he
      · exact hlt
      · exact hlt.trans (hx e he)
    · next hlt =>
      split
      · next heq => exact List.pairwise_cons.mpr ⟨fun e he => heq ▸ hx e he, hl⟩
      · next hne =>
        refine List.pairwise_cons.mpr ⟨?_, ih hl⟩
        intro e he
        rcases mem_insertEntry he with rfl | he
        · exact lt_of_le_of_ne (not_lt.mp hlt) hne
        · exact hx e he

/-- A key beyond all the others goes to the end. -/
theorem insertEntry_of_lt {k : κ} {v : ν} {l : List (κ × ν)} (h : ∀ e ∈ l, e.1 < k) :
    insertEntry k v l = l ++ [(k, v)] := by
  induction l with
  | nil => rfl
  | cons x l ih =>
    obtain ⟨a, w⟩ := x
    have ha : a < k := h (a, w) (List.mem_cons_self ..)
    rw [insertEntry, if_neg ha.asymm, if_neg ha.ne,
      ih fun e he => h e (List.mem_cons_of_mem _ he)]
    rfl

theorem lookupEntry_insertEntry (k k' : κ) (v : ν) (l : List (κ × ν)) :
    lookupEntry k' (insertEntry k v l) = if k = k' then some v else lookupEntry k' l := by
  induction l with
  | nil => rfl
  | cons x l ih =>
    obtain ⟨a, w⟩ := x
    unfold insertEntry
    split
    · rfl
    · split
      · next heq =>
        subst heq
        by_cases hk : a = k' <;> simp [lookupEntry, hk]
      · next hne =>
        by_cases hak : a = k'
        · subst hak; simp [lookupEntry, Ne.symm hne]
        · simp [lookupEntry, hak, ih]

theorem lookupEntry_eq_none {k : κ} {l : List (κ × ν)} (h : ∀ e ∈ l, e.1 ≠ k) :
    lookupEntry k l = none := by
  induction l with
  | nil => rfl
  | cons x l ih =>
    obtain ⟨a, w⟩ := x
    have ha : a ≠ k := h (a, w) (List.mem_cons_self ..)
    have hl := ih fun e he => h e (List.mem_cons_of_mem _ he)
    simp [lookupEntry, ha, hl]

theorem mem_of_lookupEntry {k : κ} {v : ν} {l : List (κ × ν)} (h : lookupEntry k l = some v) :
    (k, v) ∈ l := by
  induction l with
  | nil => simp [lookupEntry] at h
  | cons x l ih =>
    obtain ⟨a, w⟩ := x
    unfold lookupEntry at h
    split at h
    · next ha =>
      obtain rfl := Option.some.inj h
      exact ha ▸ List.mem_cons_self ..
    · exact List.mem_cons_of_mem _ (ih h)

theorem lookupEntry_of_mem {k : κ} {v : ν} {l : List (κ × ν)}
    (hs : l.Pairwise fun a b => a.1 < b.1) (h : (k, v) ∈ l) : lookupEntry k l = some v := by
  induction l with
  | nil => simp at h
  | cons x l ih =>
    obtain ⟨a, w⟩ := x
    obtain ⟨hx, hl⟩ := List.pairwise_cons.mp hs
    rcases List.mem_cons.mp h with h | h
    · obtain ⟨rfl, rfl⟩ := Prod.mk.inj h
      simp [lookupEntry]
    · have hne : a ≠ k := (hx (k, v) h).ne
      simp [lookupEntry, hne, ih hl h]

theorem lookupEntry_filter (k k' : κ) (l : List (κ × ν)) :
    lookupEntry k' (l.filter fun e => e.1 ≠ k) = if k = k' then none else lookupEntry k' l := by
  induction l with
  | nil => simp [lookupEntry]
  | cons x l ih =>
    obtain ⟨a, w⟩ := x
    by_cases hak : a = k
    · subst hak
      rw [List.filter_cons_of_neg (by simp), ih]
      by_cases hk : a = k' <;> simp [lookupEntry, hk]
    · rw [List.filter_cons_of_pos (by simpa using hak)]
      by_cases hk : a = k'
      · subst hk; simp [lookupEntry, Ne.symm hak]
      · simp only [lookupEntry, if_neg hk, ih]

/-! ## Maps -/

def empty : HostMap κ ν := ⟨[], List.Pairwise.nil⟩

def get? (m : HostMap κ ν) (k : κ) : Option ν := lookupEntry k m.entries

/-- `m.get(k).unwrap_or(d)`. -/
def getD (m : HostMap κ ν) (k : κ) (d : ν) : ν := (m.get? k).getD d

def set (m : HostMap κ ν) (k : κ) (v : ν) : HostMap κ ν :=
  ⟨insertEntry k v m.entries, sorted_insertEntry k v m.sorted⟩

def remove (m : HostMap κ ν) (k : κ) : HostMap κ ν :=
  ⟨m.entries.filter fun e => e.1 ≠ k, m.sorted.filter _⟩

@[simp] theorem get?_empty (k : κ) : (empty : HostMap κ ν).get? k = none := rfl

@[simp] theorem getD_empty (k : κ) (d : ν) : (empty : HostMap κ ν).getD k d = d := rfl

theorem get?_set (m : HostMap κ ν) (k k' : κ) (v : ν) :
    (m.set k v).get? k' = if k = k' then some v else m.get? k' :=
  lookupEntry_insertEntry k k' v m.entries

theorem getD_set (m : HostMap κ ν) (k k' : κ) (v d : ν) :
    (m.set k v).getD k' d = if k = k' then v else m.getD k' d := by
  unfold getD
  rw [get?_set]
  split <;> rfl

@[simp] theorem getD_set_self (m : HostMap κ ν) (k : κ) (v d : ν) : (m.set k v).getD k d = v := by
  simp [getD_set]

theorem getD_set_ne (m : HostMap κ ν) {k k' : κ} (h : k ≠ k') (v d : ν) :
    (m.set k v).getD k' d = m.getD k' d := by
  simp [getD_set, h]

theorem get?_remove (m : HostMap κ ν) (k k' : κ) :
    (m.remove k).get? k' = if k = k' then none else m.get? k' :=
  lookupEntry_filter k k' m.entries

theorem getD_remove (m : HostMap κ ν) (k k' : κ) (d : ν) :
    (m.remove k).getD k' d = if k = k' then d else m.getD k' d := by
  unfold getD
  rw [get?_remove]
  split <;> rfl

theorem mem_entries_iff {m : HostMap κ ν} {k : κ} {v : ν} :
    (k, v) ∈ m.entries ↔ m.get? k = some v :=
  ⟨lookupEntry_of_mem m.sorted, mem_of_lookupEntry⟩

theorem getD_of_mem {m : HostMap κ ν} {k : κ} {v : ν} (h : (k, v) ∈ m.entries) (d : ν) :
    m.getD k d = v := by
  unfold getD
  rw [mem_entries_iff.mp h]
  rfl

theorem entries_nodup (m : HostMap κ ν) : m.entries.Nodup :=
  m.sorted.imp fun hlt heq => hlt.ne (congrArg Prod.fst heq)

/-- A map is what its keys hold. -/
theorem ext_get? {m m' : HostMap κ ν} (h : ∀ k, m.get? k = m'.get? k) : m = m' := by
  have hmem : ∀ e, e ∈ m.entries ↔ e ∈ m'.entries := fun ⟨k, v⟩ => by
    rw [mem_entries_iff, mem_entries_iff, h]
  have hperm : m.entries.Perm m'.entries :=
    (List.perm_ext_iff_of_nodup m.entries_nodup m'.entries_nodup).mpr hmem
  have hentries : m.entries = m'.entries :=
    hperm.eq_of_pairwise (fun _ _ _ _ h₁ h₂ => absurd h₁ h₂.asymm) m.sorted m'.sorted
  cases m
  cases m'
  simpa using hentries

/-- Writing what is there already changes nothing. -/
theorem set_of_get? {m : HostMap κ ν} {k : κ} {v : ν} (h : m.get? k = some v) : m.set k v = m := by
  apply ext_get?
  intro k'
  rw [get?_set]
  split
  · next hk => rw [← hk, h]
  · rfl

theorem set_set (m : HostMap κ ν) (k : κ) (v u : ν) : (m.set k v).set k u = m.set k u := by
  apply ext_get?
  intro k'
  simp only [get?_set]
  split <;> rfl

theorem remove_set_of_none {m : HostMap κ ν} {k : κ} (h : m.get? k = none) (v : ν) :
    (m.set k v).remove k = m := by
  apply ext_get?
  intro k'
  rw [get?_remove, get?_set]
  split
  · next hk => rw [← hk, h]
  · rfl

theorem set_comm (m : HostMap κ ν) {a b : κ} (h : a ≠ b) (v u : ν) :
    (m.set a v).set b u = (m.set b u).set a v := by
  apply ext_get?
  intro k
  simp only [get?_set]
  by_cases ha : a = k
  · have hb : b ≠ k := fun hb => h (ha.trans hb.symm)
    simp [ha, hb]
  · simp [ha]

theorem keys_nodup (m : HostMap κ ν) : (m.entries.map Prod.fst).Nodup := by
  rw [List.Nodup, List.pairwise_map]
  exact m.sorted.imp fun h => h.ne

theorem mem_keys_iff {m : HostMap κ ν} {k : κ} :
    k ∈ m.entries.map Prod.fst ↔ (m.get? k).isSome = true := by
  rw [Option.isSome_iff_exists, List.mem_map]
  constructor
  · rintro ⟨⟨a, v⟩, he, rfl⟩
    exact ⟨v, mem_entries_iff.mp he⟩
  · rintro ⟨v, hv⟩
    exact ⟨(k, v), mem_entries_iff.mpr hv, rfl⟩

/-- A key that holds nothing is written beside the other entries. -/
theorem entries_set_perm {m : HostMap κ ν} {k : κ} (h : m.get? k = none) (v : ν) :
    (m.set k v).entries.Perm ((k, v) :: m.entries) := by
  have hnew : (k, v) ∉ m.entries := fun he => by simp [mem_entries_iff.mp he] at h
  refine (List.perm_ext_iff_of_nodup (entries_nodup _)
    (List.nodup_cons.mpr ⟨hnew, m.entries_nodup⟩)).mpr fun ⟨a, u⟩ => ?_
  rw [List.mem_cons, mem_entries_iff, mem_entries_iff, get?_set, Prod.mk.injEq]
  by_cases ha : k = a
  · subst ha
    simp [h, eq_comm]
  · simp [ha, Ne.symm ha]

/-- A removed entry is the only one that is lost. -/
theorem entries_remove_perm {m : HostMap κ ν} {k : κ} {v : ν} (h : m.get? k = some v) :
    m.entries.Perm ((k, v) :: (m.remove k).entries) := by
  have hgone : (k, v) ∉ (m.remove k).entries := fun he => by
    have hnone := mem_entries_iff.mp he
    rw [get?_remove, if_pos rfl] at hnone
    simp at hnone
  refine (List.perm_ext_iff_of_nodup m.entries_nodup
    (List.nodup_cons.mpr ⟨hgone, entries_nodup _⟩)).mpr fun ⟨a, u⟩ => ?_
  rw [List.mem_cons, mem_entries_iff, mem_entries_iff, get?_remove, Prod.mk.injEq]
  by_cases ha : k = a
  · subst ha
    simp [h, eq_comm]
  · simp [ha, Ne.symm ha]

theorem length_set_of_none {m : HostMap κ ν} {k : κ} (h : m.get? k = none) (v : ν) :
    (m.set k v).entries.length = m.entries.length + 1 :=
  (entries_set_perm h v).length_eq

/-- A map with `n` keys, all below `n`, has every one of them. -/
theorem get?_isSome_of_full {m : HostMap Nat ν} {n : Nat}
    (hlt : ∀ k v, m.get? k = some v → k < n) (hn : n ≤ m.entries.length) {k : Nat} (hk : k < n) :
    (m.get? k).isSome = true := by
  have hsub : (m.entries.map Prod.fst).toFinset ⊆ Finset.range n := fun a ha => by
    obtain ⟨v, hv⟩ := Option.isSome_iff_exists.mp (mem_keys_iff.mp (List.mem_toFinset.mp ha))
    exact Finset.mem_range.mpr (hlt a v hv)
  have hcard : (Finset.range n).card ≤ (m.entries.map Prod.fst).toFinset.card := by
    rw [Finset.card_range, List.toFinset_card_of_nodup m.keys_nodup, List.length_map]
    exact hn
  have hall := Finset.eq_of_subset_of_card_le hsub hcard
  exact mem_keys_iff.mp (List.mem_toFinset.mp (hall ▸ Finset.mem_range.mpr hk))

/-! ## Sums over the entries -/

/-- `f k v` added over the entries. -/
def sumBy (f : κ → ν → Int) (m : HostMap κ ν) : Int := (m.entries.map fun e => f e.1 e.2).sum

/-- What `k` contributes to `sumBy f m`. -/
def contrib (f : κ → ν → Int) (m : HostMap κ ν) (k : κ) : Int := (m.get? k).elim 0 (f k)

theorem sumBy_remove (f : κ → ν → Int) (m : HostMap κ ν) (k : κ) :
    (m.remove k).sumBy f = m.sumBy f - m.contrib f k := by
  obtain ⟨l, hs⟩ := m
  simp only [sumBy, contrib, get?, remove]
  induction l with
  | nil => simp [lookupEntry]
  | cons x l ih =>
    obtain ⟨a, w⟩ := x
    obtain ⟨hx, hl⟩ := List.pairwise_cons.mp hs
    by_cases hak : a = k
    · subst hak
      have hf : l.filter (fun e => decide (e.1 ≠ a)) = l :=
        List.filter_eq_self.mpr fun e he => by simpa using (hx e he).ne'
      rw [List.filter_cons_of_neg (by simp), hf]
      simp [lookupEntry]
    · rw [List.filter_cons_of_pos (by simpa using hak)]
      simp only [List.map_cons, List.sum_cons, lookupEntry, if_neg hak]
      rw [ih hl]
      omega

theorem sumBy_set (f : κ → ν → Int) (m : HostMap κ ν) (k : κ) (v : ν) :
    (m.set k v).sumBy f = m.sumBy f - m.contrib f k + f k v := by
  obtain ⟨l, hs⟩ := m
  simp only [sumBy, contrib, get?, set]
  induction l with
  | nil => simp [insertEntry, lookupEntry]
  | cons x l ih =>
    obtain ⟨a, w⟩ := x
    obtain ⟨hx, hl⟩ := List.pairwise_cons.mp hs
    unfold insertEntry
    split
    · next hlt =>
      have hn : lookupEntry k ((a, w) :: l) = none := by
        apply lookupEntry_eq_none
        intro e he
        rcases List.mem_cons.mp he with rfl | he
        · exact hlt.ne'
        · exact (hlt.trans (hx e he)).ne'
      rw [hn]
      simp only [List.map_cons, List.sum_cons, Option.elim_none]
      omega
    · split
      · next heq =>
        subst heq
        simp only [List.map_cons, List.sum_cons, lookupEntry, if_pos, Option.elim_some]
        omega
      · next hne =>
        simp only [List.map_cons, List.sum_cons, lookupEntry, if_neg hne]
        rw [ih hl]
        omega

theorem sumBy_congr {f g : κ → ν → Int} {m : HostMap κ ν}
    (h : ∀ k v, m.get? k = some v → f k v = g k v) : m.sumBy f = m.sumBy g := by
  unfold sumBy
  congr 1
  exact List.map_congr_left fun e he => h e.1 e.2 (mem_entries_iff.mp he)

theorem sumBy_le_sumBy {f g : κ → ν → Int} {m : HostMap κ ν}
    (h : ∀ k v, m.get? k = some v → f k v ≤ g k v) : m.sumBy f ≤ m.sumBy g :=
  List.sum_le_sum fun e he => h e.1 e.2 (mem_entries_iff.mp he)

theorem sumBy_nonneg {f : κ → ν → Int} {m : HostMap κ ν}
    (h : ∀ k v, m.get? k = some v → 0 ≤ f k v) : 0 ≤ m.sumBy f :=
  List.sum_nonneg fun x hx => by
    obtain ⟨e, he, rfl⟩ := List.mem_map.mp hx
    exact h e.1 e.2 (mem_entries_iff.mp he)

/-- Two summands that agree away from `k` differ by what they give `k`. -/
theorem sumBy_eq_of_agree {f g : κ → ν → Int} {m : HostMap κ ν} (k : κ)
    (h : ∀ k' v, k' ≠ k → f k' v = g k' v) :
    m.sumBy f - m.contrib f k = m.sumBy g - m.contrib g k := by
  rw [← sumBy_remove, ← sumBy_remove]
  refine sumBy_congr fun k' v hv => h k' v ?_
  rintro rfl
  simp [get?_remove] at hv

/-! ## Ledgers: maps to amounts -/

/-- The sum of a ledger's amounts. -/
def total (m : HostMap κ Int) : Int := m.sumBy fun _ v => v

@[simp] theorem total_empty : (empty : HostMap κ Int).total = 0 := rfl

omit [LinearOrder κ] in
/-- Entries of nothing add nothing. -/
theorem sum_positive {l : List (κ × Int)} (h : ∀ e ∈ l, 0 ≤ e.2) :
    ((l.filter fun e => e.2 > 0).map Prod.snd).sum = (l.map Prod.snd).sum := by
  induction l with
  | nil => rfl
  | cons e l ih =>
    have hrest := ih fun e he => h e (List.mem_cons_of_mem _ he)
    have he := h e (List.mem_cons_self ..)
    by_cases hpos : e.2 > 0
    · rw [List.filter_cons_of_pos (by simpa using hpos), List.map_cons, List.sum_cons, hrest,
        List.map_cons, List.sum_cons]
    · rw [List.filter_cons_of_neg (by simpa using hpos), hrest, List.map_cons, List.sum_cons]
      omega

theorem contrib_amount (m : HostMap κ Int) (k : κ) : m.contrib (fun _ v => v) k = m.getD k 0 := by
  unfold contrib getD
  cases m.get? k <;> rfl

theorem total_set (m : HostMap κ Int) (k : κ) (v : Int) :
    (m.set k v).total = m.total - m.getD k 0 + v := by
  unfold total
  rw [sumBy_set, contrib_amount]

theorem total_remove (m : HostMap κ Int) (k : κ) : (m.remove k).total = m.total - m.getD k 0 := by
  unfold total
  rw [sumBy_remove, contrib_amount]

/-- No amount of the ledger is negative. -/
def Nonneg (m : HostMap κ Int) : Prop := ∀ k, 0 ≤ m.getD k 0

theorem Nonneg.of_get? {m : HostMap κ Int} (h : m.Nonneg) {k : κ} {v : Int}
    (hv : m.get? k = some v) : 0 ≤ v := by
  have := h k
  rwa [getD, hv] at this

theorem nonneg_iff {m : HostMap κ Int} : m.Nonneg ↔ ∀ e ∈ m.entries, 0 ≤ e.2 := by
  constructor
  · rintro h ⟨k, v⟩ he
    exact h.of_get? (mem_entries_iff.mp he)
  · intro h k
    unfold getD
    cases hk : m.get? k with
    | none => exact le_rfl
    | some v => exact h (k, v) (mem_entries_iff.mpr hk)

instance (m : HostMap κ Int) : Decidable m.Nonneg := decidable_of_iff' _ nonneg_iff

theorem Nonneg.total_nonneg {m : HostMap κ Int} (h : m.Nonneg) : 0 ≤ m.total :=
  sumBy_nonneg fun _ _ hv => h.of_get? hv

theorem Nonneg.set {m : HostMap κ Int} (h : m.Nonneg) {k : κ} {v : Int} (hv : 0 ≤ v) :
    (m.set k v).Nonneg := by
  intro k'
  rw [getD_set]
  split
  · exact hv
  · exact h k'

/-- One entry of a non-negative ledger is at most its total. -/
theorem Nonneg.getD_le_total {m : HostMap κ Int} (h : m.Nonneg) (k : κ) :
    m.getD k 0 ≤ m.total := by
  have hr : (m.remove k).Nonneg := by
    intro k'
    rw [getD_remove]
    split
    · exact le_rfl
    · exact h k'
  have := hr.total_nonneg
  rw [total_remove] at this
  omega

/-! ## Writing a non-negative amount -/

/-- `if v > 0 { m.set(k, v) }` at a key that holds nothing. -/
theorem getD_setIfPos {m : HostMap κ Int} {k : κ} {v : Int} (hk : m.getD k 0 = 0) (hv : 0 ≤ v)
    (k' : κ) : (if v > 0 then m.set k v else m).getD k' 0 = if k = k' then v else m.getD k' 0 := by
  split
  · exact getD_set m k k' v 0
  · next hpos =>
    split
    · next h => subst h; omega
    · rfl

theorem total_setIfPos {m : HostMap κ Int} {k : κ} {v : Int} (hk : m.getD k 0 = 0) (hv : 0 ≤ v) :
    (if v > 0 then m.set k v else m).total = m.total + v := by
  split
  · rw [total_set, hk]; omega
  · omega

/-- `if v > 0 { m.set(k, v) } else { m.remove(k) }`. -/
theorem getD_setOrRemove (m : HostMap κ Int) (k : κ) {v : Int} (hv : 0 ≤ v) (k' : κ) :
    (if v > 0 then m.set k v else m.remove k).getD k' 0 = if k = k' then v else m.getD k' 0 := by
  split
  · exact getD_set m k k' v 0
  · next hpos =>
    have hz : v = 0 := by omega
    rw [getD_remove, hz]

theorem total_setOrRemove (m : HostMap κ Int) (k : κ) {v : Int} (hv : 0 ≤ v) :
    (if v > 0 then m.set k v else m.remove k).total = m.total - m.getD k 0 + v := by
  split
  · exact total_set m k v
  · rw [total_remove]; omega

/-! ## Claims against a ledger -/

/-- What `owed` still promises to the keys not marked in `done`. -/
def unclaimed (owed : HostMap κ Int) (done : HostMap κ Bool) : Int :=
  owed.sumBy fun k v => if done.getD k false = true then 0 else v

@[simp] theorem unclaimed_empty (done : HostMap κ Bool) :
    unclaimed (empty : HostMap κ Int) done = 0 := rfl

theorem unclaimed_nonneg {owed : HostMap κ Int} (h : owed.Nonneg) (done : HostMap κ Bool) :
    0 ≤ unclaimed owed done :=
  sumBy_nonneg fun k v hv => by
    split
    · exact le_rfl
    · exact h.of_get? hv

theorem unclaimed_le_total {owed : HostMap κ Int} (h : owed.Nonneg) (done : HostMap κ Bool) :
    unclaimed owed done ≤ owed.total :=
  sumBy_le_sumBy fun k v hv => by
    split
    · exact h.of_get? hv
    · exact le_rfl

/-- Settling an unmarked key takes its amount off what is promised. -/
theorem unclaimed_claim (owed : HostMap κ Int) {done : HostMap κ Bool} {k : κ}
    (hk : done.getD k false = false) :
    unclaimed (owed.set k 0) (done.set k true) = unclaimed owed done - owed.getD k 0 := by
  unfold unclaimed
  have hagree := sumBy_eq_of_agree (m := owed)
    (f := fun a v => if (done.set k true).getD a false = true then 0 else v)
    (g := fun a v => if done.getD a false = true then 0 else v) k
    (fun a v ha => by rw [getD_set_ne _ ha.symm])
  have hnew : owed.contrib (fun a v => if (done.set k true).getD a false = true then 0 else v) k
      = 0 := by
    unfold contrib
    cases owed.get? k <;> simp
  have hold : owed.contrib (fun a v => if done.getD a false = true then 0 else v) k =
      owed.getD k 0 := by
    rw [← contrib_amount]
    unfold contrib
    simp [hk]
  rw [hnew, hold] at hagree
  rw [sumBy_set, hnew]
  simp only [getD_set_self, if_pos]
  omega

end HostMap

end AgriFi.Soroban
