import AgriFi.Runs
import AgriFi.Threads
import Mathlib.Logic.Function.Basic

/-
  `OrderedExecutor`. A call of `run` with a key hangs its task on the promise that `tails` has for
  the key, and puts its own there. What a promise lets run next may happen at any time after it,
  beside calls of `run` and the ends of tasks; the reactions to one promise run in the order in
  which they were added, so that the cleanup of a task, added when its promise was made, comes
  before the `catch` of the call after it.
-/

namespace AgriFi.QueueOrdering

open AgriFi.Runs AgriFi.Threads

variable {ο : Type}

/-- How far a call of `run` has come. -/
inductive Phase (ο : Type) where
  /-- `previous.catch` waits. -/
  | chained
  /-- The promise before is caught, and `task` may start. -/
  | caught
  /-- The task is in progress. -/
  | running
  /-- The promise of the task has this outcome. -/
  | finished (outcome : ο)
  /-- The promise of the caller has it too, and `cleanup` may run. -/
  | settled (outcome : ο)
  | cleaned (outcome : ο)

/-- The outcome that the caller gets. -/
def Phase.outcome? : Phase ο → Option ο
  | .finished o | .settled o | .cleaned o => some o
  | .chained | .caught | .running => none

def Phase.Cleaned (p : Phase ο) : Prop := ∃ o, p = .cleaned o

def Phase.Started (p : Phase ο) : Prop := p ≠ .chained ∧ p ≠ .caught

/-- The task has started, and its promise is not settled for the caller. -/
def Phase.InProgress (p : Phase ο) : Prop := p = .running ∨ ∃ o, p = .finished o

/-- A call of `run`: its key, the call whose promise it waits for, and how far it has come. -/
structure Entry (ο : Type) where
  key : Option String
  previous : Option Nat
  phase : Phase ο

structure State (ο : Type) where
  entries : List (Entry ο)
  /-- For each key the call whose promise is the tail. -/
  tails : String → Option Nat
  /-- The calls whose tasks were started, in order. -/
  started : List Nat

def initial : State ο := ⟨[], fun _ => none, []⟩

inductive Action (ο : Type) where
  | run (key : Option String)
  | catchPrevious (i : Nat)
  | start (i : Nat)
  | finish (i : Nat) (outcome : ο)
  | settle (i : Nat)
  | cleanup (i : Nat)

/-- The key of `run`; an empty one is none. -/
def orderingKey (key : Option String) : Option String := key.filter (· ≠ "")

/-- A call of `run`. -/
def State.run (s : State ο) (key : Option String) : State ο :=
  match orderingKey key with
  | none =>
    { s with
      entries := s.entries ++ [⟨none, none, .running⟩]
      started := s.started ++ [s.entries.length] }
  | some key =>
    { s with
      entries := s.entries ++ [⟨some key, s.tails key, .chained⟩]
      tails := Function.update s.tails key (some s.entries.length) }

/-- The call `i` comes to `phase`. -/
def State.move (s : State ο) (i : Nat) (e : Entry ο) (phase : Phase ο) : State ο :=
  { s with entries := s.entries.set i { e with phase } }

/-- Nothing keeps the call from being caught: the promise before is settled and cleaned up. -/
def State.mayCatch (s : State ο) (e : Entry ο) : Bool :=
  match e.previous with
  | none => true
  | some j =>
    match s.entries[j]? with
    | some ⟨_, _, .cleaned _⟩ => true
    | _ => false

/-- `cleanup`: the key is deleted if the tail is still this call's. -/
def State.clean (s : State ο) (key : String) (i : Nat) : State ο :=
  if s.tails key = some i then { s with tails := Function.update s.tails key none } else s

def next (s : State ο) : Action ο → Option (State ο)
  | .run key => some (s.run key)
  | .catchPrevious i => do
    let e ← s.entries[i]?
    match e.phase with
    | .chained => if s.mayCatch e then some (s.move i e .caught) else none
    | _ => none
  | .start i => do
    let e ← s.entries[i]?
    match e.phase with
    | .caught => some { s.move i e .running with started := s.started ++ [i] }
    | _ => none
  | .finish i outcome => do
    let e ← s.entries[i]?
    match e.phase with
    | .running => some (s.move i e (.finished outcome))
    | _ => none
  | .settle i => do
    let e ← s.entries[i]?
    match e.phase with
    | .finished outcome => some (s.move i e (.settled outcome))
    | _ => none
  | .cleanup i => do
    let e ← s.entries[i]?
    match e.phase, e.key with
    | .settled outcome, some key => some ((s.move i e (.cleaned outcome)).clean key i)
    | _, _ => none

/-! ## What a step does -/

section Steps

variable {s s' : State ο} {a : Action ο}

/-- The phase that a call may come to after its own. -/
inductive Advance : Phase ο → Phase ο → Action ο → Nat → Prop
  | catchPrevious (i : Nat) : Advance .chained .caught (.catchPrevious i) i
  | start (i : Nat) : Advance .caught .running (.start i) i
  | finish (i : Nat) (o : ο) : Advance .running (.finished o) (.finish i o) i
  | settle (i : Nat) (o : ο) : Advance (.finished o) (.settled o) (.settle i) i
  | cleanup (i : Nat) (o : ο) : Advance (.settled o) (.cleaned o) (.cleanup i) i

/-- What a call that comes to a phase adds to the started ones. -/
def startedBy (i : Nat) : Phase ο → List Nat
  | .running => [i]
  | _ => []

/-- The tails after a call with a key comes to a phase. -/
def State.tailsAfter (s : State ο) (i : Nat) (key : Option String) (p : Phase ο) :
    String → Option Nat :=
  match p, key with
  | .cleaned _, some key => (s.clean key i).tails
  | _, _ => s.tails

/-- A step is a call of `run`, or one call comes to its next phase. -/
theorem next_cases (h : next s a = some s') :
    (∃ key, a = .run key ∧ s' = s.run key) ∨
    ∃ i e p, s.entries[i]? = some e ∧ Advance e.phase p a i ∧
      (p = .caught → s.mayCatch e = true) ∧ (p.Cleaned → e.key ≠ none) ∧
      s' = ⟨s.entries.set i { e with phase := p }, s.tailsAfter i e.key p,
        s.started ++ startedBy i p⟩ := by
  cases a with
  | run key => exact .inl ⟨key, rfl, (Option.some.inj h).symm⟩
  | catchPrevious i =>
    obtain ⟨e, he, h⟩ := Option.bind_eq_some_iff.mp h
    obtain ⟨key, previous, phase⟩ := e
    cases phase <;> simp only [reduceCtorEq] at h
    split at h
    · next hmay =>
      obtain rfl := Option.some.inj h
      exact .inr ⟨i, _, _, he, .catchPrevious i, fun _ => hmay, nofun, by
        simp [State.move, startedBy, State.tailsAfter]⟩
    · cases h
  | start i =>
    obtain ⟨e, he, h⟩ := Option.bind_eq_some_iff.mp h
    obtain ⟨key, previous, phase⟩ := e
    cases phase <;> simp only [reduceCtorEq] at h
    obtain rfl := Option.some.inj h
    exact .inr ⟨i, _, _, he, .start i, nofun, nofun, by
      simp [State.move, startedBy, State.tailsAfter]⟩
  | finish i outcome =>
    obtain ⟨e, he, h⟩ := Option.bind_eq_some_iff.mp h
    obtain ⟨key, previous, phase⟩ := e
    cases phase <;> simp only [reduceCtorEq] at h
    obtain rfl := Option.some.inj h
    exact .inr ⟨i, _, _, he, .finish i outcome, nofun, nofun, by
      simp [State.move, startedBy, State.tailsAfter]⟩
  | settle i =>
    obtain ⟨e, he, h⟩ := Option.bind_eq_some_iff.mp h
    obtain ⟨key, previous, phase⟩ := e
    cases phase <;> simp only [reduceCtorEq] at h
    obtain rfl := Option.some.inj h
    exact .inr ⟨i, _, _, he, .settle i _, nofun, nofun, by
      simp [State.move, startedBy, State.tailsAfter]⟩
  | cleanup i =>
    obtain ⟨e, he, h⟩ := Option.bind_eq_some_iff.mp h
    obtain ⟨key, previous, phase⟩ := e
    cases phase <;> simp only [reduceCtorEq] at h
    cases key with
    | none => cases h
    | some key =>
      obtain rfl := Option.some.inj h
      refine .inr ⟨i, _, _, he, .cleanup i _, nofun, fun _ => nofun, ?_⟩
      by_cases htail : s.tails key = some i <;>
        simp [State.move, State.clean, State.tailsAfter, startedBy, htail]

end Steps

/-! ## The invariant -/

/-- The calls with the key before a place are cleaned up. -/
def State.EarlierCleaned (s : State ο) (key : String) (i : Nat) : Prop :=
  ∀ (m : Nat) (f : Entry ο), s.entries[m]? = some f → f.key = some key → m < i → f.phase.Cleaned

structure Inv (s : State ο) : Prop where
  /-- A call waits for the last one with its key, if that was not cleaned up. -/
  waits : ∀ (i : Nat) (e : Entry ο) key, s.entries[i]? = some e → e.key = some key →
    match e.previous with
    | none => s.EarlierCleaned key i
    | some j => j < i ∧ (∃ f : Entry ο, s.entries[j]? = some f ∧ f.key = some key) ∧
      ∀ (m : Nat) (f : Entry ο), s.entries[m]? = some f → f.key = some key → m < i → m ≤ j
  moved : ∀ (i : Nat) (e : Entry ο) key, s.entries[i]? = some e → e.key = some key → e.phase ≠ .chained →
    s.EarlierCleaned key i
  tail : ∀ key i, s.tails key = some i →
    (∃ e : Entry ο, s.entries[i]? = some e ∧ e.key = some key ∧ ¬e.phase.Cleaned) ∧
      ∀ (m : Nat) (f : Entry ο), s.entries[m]? = some f → f.key = some key → m ≤ i
  noTail : ∀ key, s.tails key = none → ∀ f ∈ s.entries, f.key = some key → f.phase.Cleaned
  keyless : ∀ e ∈ s.entries, e.key = none → e.phase.Started ∧ ¬e.phase.Cleaned

theorem inv_initial : Inv (initial : State ο) :=
  ⟨by simp [initial], by simp [initial], by simp [initial], by simp [initial], by simp [initial]⟩

section Invariant

variable {s s' : State ο} {a : Action ο} {i : Nat} {e : Entry ο} {p : Phase ο} {key : String}

theorem Advance.not_cleaned (h : Advance e.phase p a i) : ¬e.phase.Cleaned := by
  rintro ⟨o, ho⟩
  rw [ho] at h
  cases h

theorem Advance.ne_chained {q : Phase ο} (h : Advance q p a i) : p ≠ .chained := by
  cases h <;> exact nofun

/-- A call that moves keeps its key and the call it waits for. -/
theorem entry_of_set {m : Nat} {f : Entry ο} (he : s.entries[i]? = some e)
    (hf : (s.entries.set i { e with phase := p })[m]? = some f) :
    ∃ f', s.entries[m]? = some f' ∧ f'.key = f.key ∧ f'.previous = f.previous ∧
      (f = f' ∨ m = i ∧ f' = e ∧ f.phase = p) := by
  rcases getElem?_set_cases hf with ⟨rfl, rfl⟩ | ⟨-, hf'⟩
  · exact ⟨e, he, rfl, rfl, .inr ⟨rfl, rfl, rfl⟩⟩
  · exact ⟨f, hf', rfl, rfl, .inl rfl⟩

theorem set_of_entry {m : Nat} {f : Entry ο} (he : s.entries[i]? = some e)
    (hf : s.entries[m]? = some f) :
    ∃ f', (s.entries.set i { e with phase := p })[m]? = some f' ∧ f'.key = f.key ∧
      (f' = f ∨ m = i ∧ f'.phase = p) := by
  rw [List.getElem?_set]
  split
  · next heq =>
    subst heq
    obtain rfl := Option.some.inj (he.symm.trans hf)
    have hlt := (List.getElem?_eq_some_iff.mp he).1
    exact ⟨_, if_pos hlt, rfl, .inr ⟨rfl, rfl⟩⟩
  · exact ⟨f, hf, rfl, .inl rfl⟩

/-- What was cleaned up stays so. -/
theorem State.EarlierCleaned.set {tails : String → Option Nat} {started : List Nat} {n : Nat}
    (h : s.EarlierCleaned key n) (he : s.entries[i]? = some e) (hnot : ¬e.phase.Cleaned) :
    State.EarlierCleaned ⟨s.entries.set i { e with phase := p }, tails, started⟩ key n := by
  intro m f hf hkey hm
  rcases getElem?_set_cases hf with ⟨rfl, rfl⟩ | ⟨-, hf'⟩
  · exact absurd (h m e he hkey hm) hnot
  · exact h m f hf' hkey hm

/-- Where the call before is cleaned up, all earlier ones are. -/
theorem Inv.earlierCleaned (h : Inv s) (he : s.entries[i]? = some e) (hkey : e.key = some key)
    (hmay : s.mayCatch e = true) : s.EarlierCleaned key i := by
  have hwaits := h.waits i e key he hkey
  unfold State.mayCatch at hmay
  cases hprev : e.previous with
  | none =>
    rw [hprev] at hwaits
    exact hwaits
  | some j =>
    simp only [hprev] at hwaits hmay
    obtain ⟨-, ⟨f, hf, hfkey⟩, hlast⟩ := hwaits
    obtain ⟨fkey, fprevious, fphase⟩ := f
    rw [hf] at hmay
    cases fphase <;> simp only [Bool.false_eq_true] at hmay
    intro m g hg hgkey hm
    rcases Nat.lt_or_eq_of_le (hlast m g hg hgkey hm) with hlt | rfl
    · exact h.moved j _ key hf hfkey nofun m g hg hgkey hlt
    · obtain rfl := Option.some.inj (hf.symm.trans hg)
      exact ⟨_, rfl⟩

theorem tailsAfter_cases (s : State ο) (i : Nat) (k : Option String) (p : Phase ο) :
    (s.tailsAfter i k p = s.tails ∧ ∀ key, p.Cleaned → k = some key → s.tails key ≠ some i) ∨
      ∃ key, p.Cleaned ∧ k = some key ∧ s.tails key = some i ∧
        s.tailsAfter i k p = Function.update s.tails key none := by
  by_cases hp : ∃ o, p = .cleaned o
  · obtain ⟨o, rfl⟩ := hp
    cases k with
    | none => exact .inl ⟨rfl, fun _ _ => nofun⟩
    | some k =>
      by_cases htail : s.tails k = some i
      · exact .inr ⟨k, ⟨o, rfl⟩, rfl, htail, by simp [State.tailsAfter, State.clean, htail]⟩
      · refine .inl ⟨by simp [State.tailsAfter, State.clean, htail], ?_⟩
        rintro key - heq
        rwa [← Option.some.inj heq]
  · refine .inl ⟨?_, fun _ hcleaned => absurd hcleaned hp⟩
    cases p with
    | cleaned o => exact absurd ⟨o, rfl⟩ hp
    | _ => rfl

/-- A tail that is there after a call moved was there before, and is not the call cleaned up. -/
theorem tailsAfter_eq_some {k : Option String} {n : Nat} (h : s.tailsAfter i k p key = some n) :
    s.tails key = some n ∧ (p.Cleaned → k = some key → n ≠ i) := by
  rcases tailsAfter_cases s i k p with ⟨heq, hnot⟩ | ⟨key', -, hk, htail, heq⟩
  · rw [heq] at h
    exact ⟨h, fun hp hkey hn => hnot key hp hkey (hn ▸ h)⟩
  · rw [heq] at h
    have hne : key ≠ key' := by
      rintro rfl
      simp at h
    rw [Function.update_of_ne hne] at h
    exact ⟨h, fun _ hkey => absurd (Option.some.inj (hkey.symm.trans hk)) hne⟩

theorem tailsAfter_eq_none {k : Option String} (h : s.tailsAfter i k p key = none) :
    s.tails key = none ∨ p.Cleaned ∧ k = some key ∧ s.tails key = some i := by
  rcases tailsAfter_cases s i k p with ⟨heq, -⟩ | ⟨key', hp, hk, htail, heq⟩
  · exact .inl (heq ▸ h)
  · by_cases hkey : key = key'
    · subst hkey
      exact .inr ⟨hp, hk, htail⟩
    · rw [heq, Function.update_of_ne hkey] at h
      exact .inl h

theorem Inv.advance (h : Inv s) (he : s.entries[i]? = some e) (hadv : Advance e.phase p a i)
    (hmay : p = .caught → s.mayCatch e = true) (hkeyed : p.Cleaned → e.key ≠ none)
    (started : List Nat) :
    Inv ⟨s.entries.set i { e with phase := p }, s.tailsAfter i e.key p, started⟩ where
  waits v g key hg hkey := by
    obtain ⟨g', hg', hgkey, hgprev, -⟩ := entry_of_set he hg
    have hwaits := h.waits v g' key hg' (hgkey.trans hkey)
    rw [← hgprev]
    cases hprev : g'.previous with
    | none =>
      rw [hprev] at hwaits
      exact hwaits.set he hadv.not_cleaned
    | some j =>
      rw [hprev] at hwaits
      obtain ⟨hlt, ⟨f, hf, hfkey⟩, hlast⟩ := hwaits
      obtain ⟨f', hf', hfkey', -⟩ := @set_of_entry _ _ _ _ p _ _ he hf
      refine ⟨hlt, ⟨f', hf', hfkey'.trans hfkey⟩, fun m f hf hfk hm => ?_⟩
      obtain ⟨f'', hf'', hfkey'', -⟩ := entry_of_set he hf
      exact hlast m f'' hf'' (hfkey''.trans hfk) hm
  moved v g key hg hkey hmoved := by
    refine State.EarlierCleaned.set ?_ he hadv.not_cleaned
    obtain ⟨g', hg', hgkey, -, rfl | ⟨rfl, rfl, hp⟩⟩ := entry_of_set he hg
    · exact h.moved v g key hg' hkey hmoved
    · by_cases hchained : g'.phase = .chained
      · rw [hchained] at hadv
        cases hadv
        exact h.earlierCleaned he (hgkey.trans hkey) (hmay rfl)
      · exact h.moved v g' key he (hgkey.trans hkey) hchained
  tail key n hn := by
    obtain ⟨hn', hother⟩ := tailsAfter_eq_some hn
    obtain ⟨⟨f, hf, hfkey, hfnot⟩, hlast⟩ := h.tail key n hn'
    obtain ⟨f', hf', hfkey', hcase⟩ := @set_of_entry _ _ _ _ p _ _ he hf
    refine ⟨⟨f', hf', hfkey'.trans hfkey, ?_⟩, fun m g hg hgkey => ?_⟩
    · rcases hcase with rfl | ⟨rfl, hp⟩
      · exact hfnot
      · obtain rfl := Option.some.inj (he.symm.trans hf)
        rw [hp]
        exact fun hcleaned => hother hcleaned hfkey rfl
    · obtain ⟨g', hg', hgkey', -⟩ := entry_of_set he hg
      exact hlast m g' hg' (hgkey'.trans hgkey)
  noTail key hnone f hf hfkey := by
    obtain ⟨m, hm⟩ := List.mem_iff_getElem?.mp hf
    obtain ⟨f', hf', hfkey', -, hcase⟩ := entry_of_set he hm
    rcases tailsAfter_eq_none hnone with hnone | ⟨hcleaned, hekey, htail⟩
    · have hclean := h.noTail key hnone f' (List.mem_of_getElem? hf') (hfkey'.trans hfkey)
      rcases hcase with rfl | ⟨-, rfl, -⟩
      · exact hclean
      · exact absurd hclean hadv.not_cleaned
    · -- the last call with the key is cleaned up, and so were the others
      rcases hcase with rfl | ⟨-, -, hp⟩
      · rcases Nat.lt_or_eq_of_le ((h.tail key i htail).2 m f hf' hfkey) with hlt | rfl
        · refine h.moved i e key he hekey ?_ m f hf' hfkey hlt
          intro hchained
          rw [hchained] at hadv
          cases hadv
          obtain ⟨o, ho⟩ := hcleaned
          cases ho
        · rcases getElem?_set_cases hm with ⟨-, rfl⟩ | ⟨hne, -⟩
          · exact hcleaned
          · exact absurd rfl hne
      · rw [hp]
        exact hcleaned
  keyless f hf hfkey := by
    obtain ⟨m, hm⟩ := List.mem_iff_getElem?.mp hf
    obtain ⟨f', hf', hfkey', -, rfl | ⟨-, rfl, hp⟩⟩ := entry_of_set he hm
    · exact h.keyless f (List.mem_of_getElem? hf') hfkey
    · have hkey : f'.key = none := hfkey'.trans hfkey
      obtain ⟨hstarted, -⟩ := h.keyless f' (List.mem_of_getElem? hf') hkey
      rw [hp]
      refine ⟨⟨hadv.ne_chained, ?_⟩, fun hcleaned => hkeyed hcleaned hkey⟩
      rintro rfl
      generalize f'.phase = q at hadv hstarted
      cases hadv
      exact hstarted.1 rfl

section Append

variable {x : Entry ο} {tails : String → Option Nat} {started : List Nat}

theorem entry_of_lt {v m : Nat} {f g : Entry ο} (hv : (s.entries ++ [x])[v]? = some g)
    (hf : (s.entries ++ [x])[m]? = some f) (hm : m < v) : s.entries[m]? = some f := by
  rcases getElem?_append_place hf with hf' | ⟨rfl, -⟩
  · exact hf'
  · have hlt := (List.getElem?_eq_some_iff.mp hv).1
    rw [List.length_append, List.length_singleton] at hlt
    omega

theorem State.EarlierCleaned.append {v : Nat} {g : Entry ο}
    (hv : (s.entries ++ [x])[v]? = some g) (h : s.EarlierCleaned key v) :
    State.EarlierCleaned ⟨s.entries ++ [x], tails, started⟩ key v :=
  fun m f hf hkey hm => h m f (entry_of_lt hv hf hm) hkey hm

/-- A new call waits for the tail of its key. -/
theorem Inv.append_waits (h : Inv s) (hx : ∀ key, x.key = some key → x.previous = s.tails key)
    {v : Nat} {g : Entry ο} (hg : (s.entries ++ [x])[v]? = some g) (hkey : g.key = some key) :
    match g.previous with
    | none => State.EarlierCleaned ⟨s.entries ++ [x], tails, started⟩ key v
    | some j => j < v ∧ (∃ f : Entry ο, (s.entries ++ [x])[j]? = some f ∧ f.key = some key) ∧
      ∀ (m : Nat) (f : Entry ο), (s.entries ++ [x])[m]? = some f → f.key = some key → m < v →
        m ≤ j := by
  have hold {j : Nat} {f : Entry ο} (hf : s.entries[j]? = some f) :
      (s.entries ++ [x])[j]? = some f := by
    rw [List.getElem?_append_left (List.getElem?_eq_some_iff.mp hf).1, hf]
  rcases getElem?_append_place hg with hg' | ⟨rfl, rfl⟩
  · have hwaits := h.waits v g key hg' hkey
    cases hprev : g.previous with
    | none =>
      rw [hprev] at hwaits
      exact hwaits.append hg
    | some j =>
      rw [hprev] at hwaits
      obtain ⟨hlt, ⟨f, hf, hfkey⟩, hlast⟩ := hwaits
      exact ⟨hlt, ⟨f, hold hf, hfkey⟩, fun m f hf hfkey hm =>
        hlast m f (entry_of_lt hg hf hm) hfkey hm⟩
  · rw [hx key hkey]
    cases htail : s.tails key with
    | none =>
      exact fun m f hf hfkey hm =>
        h.noTail key htail f (List.mem_of_getElem? (entry_of_lt hg hf hm)) hfkey
    | some j =>
      obtain ⟨⟨f, hf, hfkey, -⟩, hlast⟩ := h.tail key j htail
      exact ⟨(List.getElem?_eq_some_iff.mp hf).1, ⟨f, hold hf, hfkey⟩,
        fun m f hf hfkey hm => hlast m f (entry_of_lt hg hf hm) hfkey⟩

theorem Inv.append_moved (h : Inv s) (hx : ∀ key, x.key = some key → x.phase = .chained)
    {v : Nat} {g : Entry ο} (hg : (s.entries ++ [x])[v]? = some g) (hkey : g.key = some key)
    (hmoved : g.phase ≠ .chained) :
    State.EarlierCleaned ⟨s.entries ++ [x], tails, started⟩ key v := by
  rcases getElem?_append_place hg with hg' | ⟨rfl, rfl⟩
  · exact (h.moved v g key hg' hkey hmoved).append hg
  · exact absurd (hx key hkey) hmoved

end Append

theorem Inv.runKeyless (h : Inv s) (started : List Nat) :
    Inv ⟨s.entries ++ [⟨none, none, .running⟩], s.tails, started⟩ where
  waits v g key hg hkey := h.append_waits (by rintro key ⟨⟩) hg hkey
  moved v g key hg hkey hmoved := h.append_moved (by rintro key ⟨⟩) hg hkey hmoved
  tail key n hn := by
    obtain ⟨⟨f, hf, hfkey, hfnot⟩, hlast⟩ := h.tail key n hn
    refine ⟨⟨f, ?_, hfkey, hfnot⟩, fun m g hg hgkey => ?_⟩
    · rw [List.getElem?_append_left (List.getElem?_eq_some_iff.mp hf).1, hf]
    · rcases getElem?_append_cases hg with hg' | rfl
      · exact hlast m g hg' hgkey
      · cases hgkey
  noTail key hnone f hf hfkey := by
    rcases List.mem_append.mp hf with hf | hf
    · exact h.noTail key hnone f hf hfkey
    · obtain rfl := List.mem_singleton.mp hf
      cases hfkey
  keyless f hf hfkey := by
    rcases List.mem_append.mp hf with hf | hf
    · exact h.keyless f hf hfkey
    · obtain rfl := List.mem_singleton.mp hf
      exact ⟨⟨nofun, nofun⟩, nofun⟩

theorem Inv.runKeyed (h : Inv s) (k : String) (started : List Nat) :
    Inv ⟨s.entries ++ [⟨some k, s.tails k, .chained⟩],
      Function.update s.tails k (some s.entries.length), started⟩ where
  waits v g key hg hkey := h.append_waits (by rintro key ⟨⟩; rfl) hg hkey
  moved v g key hg hkey hmoved := h.append_moved (fun _ _ => rfl) hg hkey hmoved
  tail key n hn := by
    replace hn : Function.update s.tails k (some s.entries.length) key = some n := hn
    by_cases hkey : key = k
    · subst hkey
      rw [Function.update_self] at hn
      obtain rfl := Option.some.inj hn
      refine ⟨⟨_, List.getElem?_concat_length .., rfl, nofun⟩, fun m g hg _ => ?_⟩
      have hlt := (List.getElem?_eq_some_iff.mp hg).1
      rw [List.length_append, List.length_singleton] at hlt
      omega
    · rw [Function.update_of_ne hkey] at hn
      obtain ⟨⟨f, hf, hfkey, hfnot⟩, hlast⟩ := h.tail key n hn
      refine ⟨⟨f, ?_, hfkey, hfnot⟩, fun m g hg hgkey => ?_⟩
      · rw [List.getElem?_append_left (List.getElem?_eq_some_iff.mp hf).1, hf]
      · rcases getElem?_append_cases hg with hg' | rfl
        · exact hlast m g hg' hgkey
        · exact absurd (Option.some.inj hgkey).symm hkey
  noTail key hnone f hf hfkey := by
    replace hnone : Function.update s.tails k (some s.entries.length) key = none := hnone
    have hkey : key ≠ k := by
      rintro rfl
      simp at hnone
    rw [Function.update_of_ne hkey] at hnone
    rcases List.mem_append.mp hf with hf | hf
    · exact h.noTail key hnone f hf hfkey
    · obtain rfl := List.mem_singleton.mp hf
      exact absurd (Option.some.inj hfkey).symm hkey
  keyless f hf hfkey := by
    rcases List.mem_append.mp hf with hf | hf
    · exact h.keyless f hf hfkey
    · obtain rfl := List.mem_singleton.mp hf
      cases hfkey

theorem Inv.run (h : Inv s) (key : Option String) : Inv (s.run key) := by
  unfold State.run
  cases orderingKey key with
  | none => exact h.runKeyless _
  | some k => exact h.runKeyed k _

theorem Inv.next (h : Inv s) (hstep : next s a = some s') : Inv s' := by
  rcases next_cases hstep with ⟨key, -, rfl⟩ | ⟨i, e, p, he, hadv, hmay, hkeyed, rfl⟩
  · exact h.run key
  · exact h.advance he hadv hmay hkeyed _

theorem inv_of_reaches (h : Reaches next (initial : State ο) s) : Inv s :=
  h.invariant Inv inv_initial fun _ _ _ hstep hinv => hinv.next hstep

end Invariant

end AgriFi.QueueOrdering
