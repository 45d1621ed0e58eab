import Mathlib.Algebra.GroupWithZero.Nat
import Mathlib.Data.List.Basic

/-
  A list of threads of which one moves at a time, named by its position. The rules below say what
  a property of every thread, or of the one thread that is inside (`AtMostOneInside`), needs when
  one thread is replaced (`List.set`) or a new one joins at the end.
-/

namespace AgriFi.Threads

variable {τ : Type} {threads : List τ} {w v : Nat} {x y : τ}

theorem getElem?_set_cases (h : (threads.set w x)[v]? = some y) :
    v = w ∧ y = x ∨ v ≠ w ∧ threads[v]? = some y := by
  rw [List.getElem?_set] at h
  split at h
  · next hv =>
    split at h
    · exact .inl ⟨hv.symm, (Option.some.inj h).symm⟩
    · cases h
  · next hv => exact .inr ⟨Ne.symm hv, h⟩

theorem getElem?_append_place (h : (threads ++ [x])[v]? = some y) :
    threads[v]? = some y ∨ v = threads.length ∧ y = x := by
  rw [List.getElem?_append] at h
  split at h
  · exact .inl h
  · obtain ⟨hlt, hy⟩ := List.getElem?_eq_some_iff.mp h
    rw [List.length_singleton] at hlt
    exact .inr ⟨by omega, List.mem_singleton.mp (hy ▸ List.getElem_mem hlt)⟩

theorem getElem?_append_cases (h : (threads ++ [x])[v]? = some y) :
    threads[v]? = some y ∨ y = x := (getElem?_append_place h).imp_right And.right

theorem forall_mem_set {P : τ → Prop} (h : ∀ ⦃v y⦄, threads[v]? = some y → v ≠ w → P y)
    (hx : P x) : ∀ y ∈ threads.set w x, P y := by
  intro y hy
  obtain ⟨v, hv⟩ := List.mem_iff_getElem?.mp hy
  rcases getElem?_set_cases hv with ⟨_, rfl⟩ | ⟨hne, hv'⟩
  · exact hx
  · exact h hv' hne

theorem forall_mem_append {P : τ → Prop} (h : ∀ y ∈ threads, P y) (hx : P x) :
    ∀ y ∈ threads ++ [x], P y := by
  intro y hy
  rcases List.mem_append.mp hy with hy | hy
  · exact h y hy
  · rwa [List.mem_singleton.mp hy]

theorem others_of_forall {P : τ → Prop} (h : ∀ y ∈ threads, P y) :
    ∀ ⦃v y⦄, threads[v]? = some y → v ≠ w → P y :=
  fun _ y hv _ => h y (List.mem_of_getElem? hv)

theorem forall_mem_of_others {P : τ → Prop} (hw : threads[w]? = some x) (hx : P x)
    (h : ∀ ⦃v y⦄, threads[v]? = some y → v ≠ w → P y) : ∀ y ∈ threads, P y := by
  intro y hy
  obtain ⟨v, hv⟩ := List.mem_iff_getElem?.mp hy
  by_cases hvw : v = w
  · subst hvw
    obtain rfl : x = y := Option.some.inj (hw.symm.trans hv)
    exact hx
  · exact h hv hvw

/-- What a sum over the threads becomes when one is replaced. -/
theorem sum_map_set {f : τ → Nat} (h : threads[w]? = some x) :
    ((threads.set w y).map f).sum + f x = (threads.map f).sum + f y := by
  induction threads generalizing w with
  | nil => simp at h
  | cons z threads ih =>
    cases w with
    | zero =>
      obtain rfl : z = x := Option.some.inj h
      simp only [List.set_cons_zero, List.map_cons, List.sum_cons]
      omega
    | succ w =>
      have hrest := ih (w := w) h
      simp only [List.set_cons_succ, List.map_cons, List.sum_cons]
      omega

/-! ## One thread inside -/

variable {inside : τ → Prop}

/-- Of the threads at most one satisfies `inside`. -/
def AtMostOneInside (inside : τ → Prop) (threads : List τ) : Prop :=
  ∀ ⦃w v : Nat⦄ ⦃x y : τ⦄, threads[w]? = some x → threads[v]? = some y → inside x → inside y → w = v

theorem AtMostOneInside.others (h : AtMostOneInside inside threads) (hx : threads[w]? = some x)
    (hin : inside x) (hy : threads[v]? = some y) (hne : v ≠ w) : ¬ inside y := by
  intro hiny
  exact hne (h hy hx hiny hin)

/-- Replacing a thread keeps the others out when it was inside itself, or nobody else is. -/
theorem AtMostOneInside.set (h : AtMostOneInside inside threads) (hx : threads[w]? = some x)
    (hin : inside y → inside x ∨ ∀ v z, threads[v]? = some z → v ≠ w → ¬ inside z) :
    AtMostOneInside inside (threads.set w y) := by
  have hothers : ∀ ⦃v z⦄, inside y → threads[v]? = some z → v ≠ w → ¬ inside z := by
    intro v z hiny hz hne
    rcases hin hiny with hinx | hall
    · exact h.others hx hinx hz hne
    · exact hall v z hz hne
  intro v u a b ha hb hina hinb
  rcases getElem?_set_cases ha with ⟨hv, rfl⟩ | ⟨hv, ha'⟩
  · rcases getElem?_set_cases hb with ⟨hu, _⟩ | ⟨hu, hb'⟩
    · exact hv.trans hu.symm
    · exact absurd hinb (hothers hina hb' hu)
  · rcases getElem?_set_cases hb with ⟨_, rfl⟩ | ⟨_, hb'⟩
    · exact absurd hina (hothers hinb ha' hv)
    · exact h ha' hb' hina hinb

theorem AtMostOneInside.append (h : AtMostOneInside inside threads) (hx : ¬ inside x) :
    AtMostOneInside inside (threads ++ [x]) := by
  intro v u a b ha hb hina hinb
  rcases getElem?_append_cases ha with ha | rfl
  · rcases getElem?_append_cases hb with hb | rfl
    · exact h ha hb hina hinb
    · exact absurd hinb hx
  · exact absurd hina hx

theorem atMostOneInside_nil : AtMostOneInside inside ([] : List τ) := by
  intro w v x y hx
  simp at hx

end AgriFi.Threads
