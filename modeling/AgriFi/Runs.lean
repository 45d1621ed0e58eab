import Mathlib.Data.List.Basic

/-
  Runs of a deterministic machine. A step function `next : σ → α → Option σ` either refuses
  an action or moves to one next state. `Run next s xs t` lists the steps taken from `s` to
  `t`, each with the state before it, the action and the state after it, so that a property
  of a history can speak about any of them. The rules below carry an invariant along a run
  (`Run.invariant`), a history variable beside it (`Run.along`), split a run at a step
  (`run_split`) and build one by execution (`run_replay`).
-/

namespace AgriFi.Runs

variable {σ α : Type}

/-- A step that was taken: the state before, the action, the state after. -/
structure Step (σ α : Type) where
  pre : σ
  act : α
  post : σ

/-- The steps `xs`, in order, lead from the first state to the last. -/
inductive Run (next : σ → α → Option σ) : σ → List (Step σ α) → σ → Prop
  | nil (s : σ) : Run next s [] s
  | cons {s s' t : σ} {a : α} {xs : List (Step σ α)} :
      next s a = some s' → Run next s' xs t → Run next s (⟨s, a, s'⟩ :: xs) t

/-- Some run leads from `s` to `t`. -/
def Reaches (next : σ → α → Option σ) (s t : σ) : Prop :=
  ∃ xs, Run next s xs t

variable {next : σ → α → Option σ}

theorem run_append {s t : σ} {xs ys : List (Step σ α)} :
    Run next s (xs ++ ys) t ↔ ∃ m, Run next s xs m ∧ Run next m ys t := by
  induction xs generalizing s with
  | nil =>
    constructor
    · intro h; exact ⟨s, .nil s, h⟩
    · rintro ⟨m, h1, h2⟩; cases h1; exact h2
  | cons x xs ih =>
    constructor
    · intro h
      cases h with
      | cons hx hr =>
        obtain ⟨m, h1, h2⟩ := ih.mp hr
        exact ⟨m, .cons hx h1, h2⟩
    · rintro ⟨m, h1, h2⟩
      cases h1 with
      | cons hx hr => exact .cons hx (ih.mpr ⟨m, hr, h2⟩)

/-- A run cut at one of its steps. -/
theorem run_split {s t : σ} {xs ys : List (Step σ α)} {x : Step σ α} :
    Run next s (xs ++ x :: ys) t ↔
      Run next s xs x.pre ∧ next x.pre x.act = some x.post ∧ Run next x.post ys t := by
  rw [run_append]
  constructor
  · rintro ⟨m, h1, h2⟩
    cases h2 with
    | cons hx hr => exact ⟨h1, hx, hr⟩
  · rintro ⟨h1, hx, hr⟩
    exact ⟨x.pre, h1, .cons hx hr⟩

/-- What holds at the start and is kept by every step of the run holds at its end. -/
theorem Run.invariant {s t : σ} {xs : List (Step σ α)} (h : Run next s xs t) (I : σ → Prop)
    (h0 : I s) (hstep : ∀ x ∈ xs, next x.pre x.act = some x.post → I x.pre → I x.post) : I t := by
  induction h with
  | nil => exact h0
  | cons hx _ ih =>
    have hs := hstep _ (List.mem_cons_self ..) hx h0
    exact ih hs fun x hxs => hstep x (List.mem_cons_of_mem _ hxs)

theorem Reaches.invariant {s t : σ} (h : Reaches next s t) (I : σ → Prop) (h0 : I s)
    (hstep : ∀ u a u', next u a = some u' → I u → I u') : I t := by
  obtain ⟨xs, hr⟩ := h
  exact hr.invariant I h0 fun x _ hx hi => hstep _ _ _ hx hi

theorem Reaches.refl (s : σ) : Reaches next s s := ⟨[], .nil s⟩

theorem Run.reaches {s t : σ} {xs : List (Step σ α)} (h : Run next s xs t) : Reaches next s t :=
  ⟨xs, h⟩

theorem Reaches.trans {s m t : σ} (h1 : Reaches next s m) (h2 : Reaches next m t) :
    Reaches next s t := by
  obtain ⟨xs, h1⟩ := h1
  obtain ⟨ys, h2⟩ := h2
  exact ⟨xs ++ ys, run_append.mpr ⟨m, h1, h2⟩⟩

theorem reaches_of_next {s s' : σ} {a : α} (h : next s a = some s') : Reaches next s s' :=
  ⟨_, .cons h (.nil s')⟩

/-- An invariant of the run holds before and after each of its steps. -/
theorem Run.steps_invariant {s t : σ} {xs : List (Step σ α)} (h : Run next s xs t) (I : σ → Prop)
    (h0 : I s) (hstep : ∀ x ∈ xs, next x.pre x.act = some x.post → I x.pre → I x.post) :
    ∀ x ∈ xs, next x.pre x.act = some x.post ∧ I x.pre ∧ I x.post := by
  intro x hx
  obtain ⟨ys, zs, rfl⟩ := List.append_of_mem hx
  obtain ⟨hys, hn, _⟩ := run_split.mp h
  have hpre : I x.pre := hys.invariant I h0 fun y hy => hstep y (List.mem_append_left _ hy)
  exact ⟨hn, hpre, hstep x hx hn hpre⟩

/-- What each step has exactly when a condition on it holds, from an invariant that the condition
    keeps, the steps of a run all have exactly when they all meet the condition. -/
theorem Run.forall_iff {s t : σ} {xs : List (Step σ α)} {P C : Step σ α → Prop}
    (h : Run next s xs t) (I : σ → Prop) (h0 : I s)
    (hstep : ∀ x, next x.pre x.act = some x.post → I x.pre → (P x ↔ C x))
    (hkeep : ∀ x, next x.pre x.act = some x.post → I x.pre → C x → I x.post) :
    (∀ x ∈ xs, P x) ↔ ∀ x ∈ xs, C x := by
  induction h with
  | nil => simp
  | cons hx _ ih =>
    rw [List.forall_mem_cons, List.forall_mem_cons, hstep _ hx h0]
    exact and_congr_right fun hc => ih (hkeep _ hx h0 hc)

/-! ## History variables -/

/-- `P` holds of every step and of the value a history variable has before it; `upd` gives the
    value after a step. -/
def Along {β : Type} (upd : β → Step σ α → β) (P : β → Step σ α → Prop) : β → List (Step σ α) → Prop
  | _, [] => True
  | b, x :: xs => P b x ∧ Along upd P (upd b x) xs

instance {β : Type} (upd : β → Step σ α → β) (P : β → Step σ α → Prop)
    [∀ b x, Decidable (P b x)] : ∀ b xs, Decidable (Along upd P b xs)
  | _, [] => isTrue trivial
  | b, x :: xs =>
    @instDecidableAnd _ _ (inferInstanceAs (Decidable (P b x)))
      (instDecidableAlong upd P (upd b x) xs)

/-- From an assumption `P` on a run's history to a conclusion `Q`, by an invariant that ties the
    history variable to the state. -/
theorem Run.along {β : Type} {upd : β → Step σ α → β} {P Q : β → Step σ α → Prop} {s t : σ}
    {xs : List (Step σ α)} {b : β} (h : Run next s xs t) (I : β → σ → Prop) (h0 : I b s)
    (hP : Along upd P b xs)
    (hstep : ∀ b x, next x.pre x.act = some x.post → P b x → I b x.pre →
      Q b x ∧ I (upd b x) x.post) : Along upd Q b xs := by
  induction h generalizing b with
  | nil => trivial
  | cons hx _ ih =>
    obtain ⟨hQ, hI⟩ := hstep b _ hx hP.1 h0
    exact ⟨hQ, ih hI hP.2⟩

theorem along_of_forall {β : Type} (upd : β → Step σ α → β) {R : Step σ α → Prop} (b : β)
    {xs : List (Step σ α)} (h : ∀ x ∈ xs, R x) : Along upd (fun _ x => R x) b xs := by
  induction xs generalizing b with
  | nil => trivial
  | cons x xs ih =>
    exact ⟨h x (List.mem_cons_self ..), ih _ fun y hy => h y (List.mem_cons_of_mem _ hy)⟩

/-- What holds along a history holds of each step, whatever the history. -/
theorem Along.forall_mem {β : Type} {upd : β → Step σ α → β} {P : β → Step σ α → Prop}
    {R : Step σ α → Prop} {b : β} {xs : List (Step σ α)} (h : Along upd P b xs)
    (himp : ∀ b x, P b x → R x) : ∀ x ∈ xs, R x := by
  induction xs generalizing b with
  | nil => simp
  | cons x xs ih =>
    intro y hy
    rcases List.mem_cons.mp hy with rfl | hy
    · exact himp b y h.1
    · exact ih h.2 y hy

/-! ## Execution -/

/-- Execute a list of actions up to the first refused one, recording each step. -/
def replay (next : σ → α → Option σ) (s : σ) : List α → List (Step σ α) × σ
  | [] => ([], s)
  | a :: as =>
    match next s a with
    | none => ([], s)
    | some s' => (⟨s, a, s'⟩ :: (replay next s' as).1, (replay next s' as).2)

theorem run_replay (next : σ → α → Option σ) (s : σ) (as : List α) :
    Run next s (replay next s as).1 (replay next s as).2 := by
  induction as generalizing s with
  | nil => exact .nil s
  | cons a as ih =>
    unfold replay
    cases hn : next s a with
    | none => exact .nil s
    | some s' => exact .cons hn (ih s')

theorem act_mem_of_replay {s : σ} {as : List α} : ∀ x ∈ (replay next s as).1, x.act ∈ as := by
  induction as generalizing s with
  | nil => simp [replay]
  | cons a as ih =>
    intro x hx
    unfold replay at hx
    cases hn : next s a with
    | none => simp [hn] at hx
    | some s' =>
      rw [hn] at hx
      rcases List.mem_cons.mp hx with rfl | hx
      · exact List.mem_cons_self ..
      · exact List.mem_cons_of_mem _ (ih x hx)

end AgriFi.Runs
