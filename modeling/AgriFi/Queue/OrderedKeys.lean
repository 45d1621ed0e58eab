import AgriFi.Queue.Ordering

/-
  What `OrderedExecutor` promises. The log of started tasks names a call once and those of one key
  in the order of the calls (`StartedInv`); of the tasks of a key one is in progress, and the map
  has a key while a call with it is not cleaned up (`ordered_executor`).
-/

namespace AgriFi.QueueOrdering

open AgriFi.Runs AgriFi.Threads

variable {ο : Type}

/-- Two calls have one key. -/
def State.SameKey (s : State ο) (i j : Nat) : Prop :=
  ∃ (e f : Entry ο) (key : String), s.entries[i]? = some e ∧ s.entries[j]? = some f ∧
    e.key = some key ∧ f.key = some key

structure StartedInv (s : State ο) : Prop where
  nodup : s.started.Nodup
  mem : ∀ i, i ∈ s.started ↔ ∃ e : Entry ο, s.entries[i]? = some e ∧ e.phase.Started
  order : s.started.Pairwise fun i j => s.SameKey i j → i < j

/-- The state waits for tasks and calls of `run` only. -/
def State.Quiet (s : State ο) : Prop :=
  ∀ a s', next s a = some s' → ∃ key, a = .run key

/-- What holds of every state. -/
structure Ordered (s : State ο) : Prop where
  /-- A task is started once at most, and the task of a call without a key at once. -/
  startedOnce : s.started.Nodup ∧ (∀ i ∈ s.started, i < s.entries.length) ∧
    ∀ (i : Nat) (e : Entry ο), s.entries[i]? = some e → e.key = none → i ∈ s.started
  /-- At most one task of a key is in progress. -/
  exclusive : ∀ (i j : Nat) (e f : Entry ο) (key : String), s.entries[i]? = some e →
    s.entries[j]? = some f → e.key = some key → f.key = some key →
    e.phase.InProgress → f.phase.InProgress → i = j
  /-- Tasks of a key start in the order of their calls. -/
  inOrder : s.started.Pairwise fun i j => s.SameKey i j → i < j
  /-- A task waits for the earlier tasks of its key only. -/
  independent : ∀ (i : Nat) (e : Entry ο) (key : String), s.entries[i]? = some e →
    e.key = some key → i ∉ s.started → s.EarlierCleaned key i →
    ∃ s', Reaches next s s' ∧ i ∈ s'.started ∧
      ∀ (j : Nat), j ≠ i → s'.entries[j]? = s.entries[j]?
  /-- The map has a key while a call with it is not settled and cleaned up. -/
  tails : ∀ key, (∃ i, s.tails key = some i) ↔
    ∃ e ∈ s.entries, e.key = some key ∧ ¬e.phase.Cleaned
  /-- Where no task is in progress and no promise has a reaction left, every task was started and
      every caller has an outcome. -/
  complete : (∀ e ∈ s.entries, e.phase ≠ .running) → s.Quiet →
    ∀ (i : Nat) (e : Entry ο), s.entries[i]? = some e → i ∈ s.started ∧ e.phase.outcome?.isSome

section Keys

variable {s s' : State ο} {a : Action ο} {i j : Nat} {e f : Entry ο} {p : Phase ο} {key : String}

theorem startedInv_initial : StartedInv (initial : State ο) :=
  ⟨List.nodup_nil, by simp [initial], List.Pairwise.nil⟩

/-- An earlier call of the key is before a started one, unless it is cleaned up. -/
theorem Inv.lt_of_started (h : Inv s) (he : s.entries[i]? = some e) (hf : s.entries[j]? = some f)
    (hekey : e.key = some key) (hfkey : f.key = some key) (hestarted : e.phase.Started)
    (hf' : ¬f.phase.Cleaned) (hne : i ≠ j) : i < j := by
  rcases Nat.lt_or_ge i j with hlt | hge
  · exact hlt
  · have hmoved := h.moved i e key he hekey hestarted.1
    exact absurd (hmoved j f hf hfkey (by omega)) hf'

theorem SameKey.of_set {tails : String → Option Nat} {started : List Nat} {m n : Nat}
    (he : s.entries[i]? = some e)
    (h : State.SameKey ⟨s.entries.set i { e with phase := p }, tails, started⟩ m n) :
    s.SameKey m n := by
  obtain ⟨g, g', key, hg, hg', hkey, hkey'⟩ := h
  obtain ⟨f, hf, hfkey, -⟩ := entry_of_set he hg
  obtain ⟨f', hf', hfkey', -⟩ := entry_of_set he hg'
  exact ⟨f, f', key, hf, hf', hfkey.trans hkey, hfkey'.trans hkey'⟩

theorem Advance.started_iff {q : Phase ο} (h : Advance q p a i) :
    p.Started ↔ q.Started ∨ p = .running := by
  cases h <;> simp [Phase.Started]

theorem mem_startedBy {n : Nat} : n ∈ startedBy i p ↔ n = i ∧ p = .running := by
  cases p <;> simp [startedBy]

theorem StartedInv.advance (h : StartedInv s) (hinv : Inv s) (he : s.entries[i]? = some e)
    (hadv : Advance e.phase p a i) (tails : String → Option Nat) :
    StartedInv ⟨s.entries.set i { e with phase := p }, tails, s.started ++ startedBy i p⟩ := by
  have hnew : ∀ n ∈ startedBy i p, n ∉ s.started := by
    intro n hn hstarted
    obtain ⟨rfl, rfl⟩ := mem_startedBy.mp hn
    obtain ⟨f, hf, hphase⟩ := (h.mem n).mp hstarted
    obtain rfl := Option.some.inj (he.symm.trans hf)
    generalize e.phase = q at hadv hphase
    cases hadv
    exact hphase.2 rfl
  refine ⟨?_, fun n => ?_, ?_⟩
  · refine List.nodup_append.mpr ⟨h.nodup, by cases p <;> simp [startedBy], fun m hm n hn heq => ?_⟩
    exact hnew n hn (heq ▸ hm)
  · rw [List.mem_append, h.mem, mem_startedBy]
    constructor
    · rintro (⟨f, hf, hphase⟩ | ⟨rfl, rfl⟩)
      · obtain ⟨f', hf', -, rfl | ⟨rfl, hp⟩⟩ := @set_of_entry _ _ _ _ p _ _ he hf
        · exact ⟨f', hf', hphase⟩
        · obtain rfl := Option.some.inj (he.symm.trans hf)
          exact ⟨f', hf', hp ▸ hadv.started_iff.mpr (.inl hphase)⟩
      · refine ⟨_, List.getElem?_set_self (List.getElem?_eq_some_iff.mp he).1, ?_, ?_⟩ <;> simp
    · rintro ⟨f, hf, hphase⟩
      obtain ⟨f', hf', -, -, rfl | ⟨rfl, rfl, hp⟩⟩ := entry_of_set he hf
      · exact .inl ⟨f, hf', hphase⟩
      · rw [hp] at hphase
        rcases hadv.started_iff.mp hphase with hold | hrunning
        · exact .inl ⟨f', he, hold⟩
        · exact .inr ⟨rfl, hrunning⟩
  · refine List.pairwise_append.mpr ⟨h.order.imp fun hlt hsame => hlt (SameKey.of_set he hsame),
      by cases p <;> simp [startedBy], fun m hm n hn hsame => ?_⟩
    obtain ⟨rfl, -⟩ := mem_startedBy.mp hn
    obtain ⟨g, g', key, hg, hg', hkey, hkey'⟩ := SameKey.of_set he hsame
    obtain ⟨g₂, hg₂, hstarted⟩ := (h.mem m).mp hm
    obtain rfl := Option.some.inj (hg.symm.trans hg₂)
    obtain rfl := Option.some.inj (he.symm.trans hg')
    refine hinv.lt_of_started hg hg' hkey hkey' hstarted hadv.not_cleaned ?_
    rintro rfl
    exact hnew m hn hm

theorem State.SameKey.of_append {x : Entry ο} {tails : String → Option Nat} {started : List Nat}
    {m n : Nat} (h : State.SameKey ⟨s.entries ++ [x], tails, started⟩ m n)
    (hm : m < s.entries.length) (hn : n < s.entries.length) : s.SameKey m n := by
  obtain ⟨g, g', key, hg, hg', hkey⟩ := h
  exact ⟨g, g', key, (List.getElem?_append_left hm).symm.trans hg,
    (List.getElem?_append_left hn).symm.trans hg', hkey⟩

theorem StartedInv.lt_length (h : StartedInv s) {m : Nat} (hm : m ∈ s.started) :
    m < s.entries.length := by
  obtain ⟨e, he, -⟩ := (h.mem m).mp hm
  exact (List.getElem?_eq_some_iff.mp he).1

theorem StartedInv.append (h : StartedInv s) {x : Entry ο}
    (hx : x.phase.Started → x.phase = .running) (tails : String → Option Nat) :
    StartedInv ⟨s.entries ++ [x], tails, s.started ++ startedBy s.entries.length x.phase⟩ := by
  refine ⟨?_, fun n => ?_, ?_⟩
  · refine List.nodup_append.mpr ⟨h.nodup, by cases x.phase <;> simp [startedBy], ?_⟩
    rintro m hm n hn rfl
    obtain ⟨rfl, -⟩ := mem_startedBy.mp hn
    exact Nat.lt_irrefl _ (h.lt_length hm)
  · rw [List.mem_append, h.mem, mem_startedBy]
    constructor
    · rintro (⟨e, he, hphase⟩ | ⟨rfl, hphase⟩)
      · exact ⟨e, by rw [List.getElem?_append_left (List.getElem?_eq_some_iff.mp he).1, he], hphase⟩
      · exact ⟨x, List.getElem?_concat_length .., by simp [hphase, Phase.Started]⟩
    · rintro ⟨e, he, hphase⟩
      rcases getElem?_append_place he with he' | ⟨rfl, rfl⟩
      · exact .inl ⟨e, he', hphase⟩
      · exact .inr ⟨rfl, hx hphase⟩
  · refine List.pairwise_append.mpr ⟨?_, by cases x.phase <;> simp [startedBy], ?_⟩
    · exact h.order.imp_of_mem fun hm hn hlt hsame =>
        hlt (hsame.of_append (h.lt_length hm) (h.lt_length hn))
    · intro m hm n hn _
      obtain ⟨rfl, -⟩ := mem_startedBy.mp hn
      exact h.lt_length hm

theorem StartedInv.run (h : StartedInv s) (key : Option String) : StartedInv (s.run key) := by
  unfold State.run
  cases orderingKey key with
  | none => exact h.append (fun _ => rfl) _
  | some k =>
    have hkeyed := h.append (x := ⟨some k, s.tails k, .chained⟩) (fun hs => absurd rfl hs.1)
      (Function.update s.tails k (some s.entries.length))
    rwa [show startedBy s.entries.length (.chained : Phase ο) = [] from rfl,
      List.append_nil] at hkeyed

theorem startedInv_of_reaches (h : Reaches next (initial : State ο) s) : StartedInv s :=
  (h.invariant (fun s => Inv s ∧ StartedInv s) ⟨inv_initial, startedInv_initial⟩
    fun u a u' hstep ⟨hinv, hstarted⟩ => by
      refine ⟨hinv.next hstep, ?_⟩
      rcases next_cases hstep with ⟨key, -, rfl⟩ | ⟨i, e, p, he, hadv, -, -, rfl⟩
      · exact hstarted.run key
      · exact hstarted.advance hinv he hadv _).2

/-! ## Tasks of a key -/

theorem Phase.InProgress.started (h : p.InProgress) : p.Started ∧ ¬p.Cleaned := by
  rcases h with rfl | ⟨o, rfl⟩ <;> simp [Phase.Started, Phase.Cleaned]

theorem Inv.exclusive (h : Inv s) (he : s.entries[i]? = some e) (hf : s.entries[j]? = some f)
    (hekey : e.key = some key) (hfkey : f.key = some key) (hep : e.phase.InProgress)
    (hfp : f.phase.InProgress) : i = j := by
  by_contra hne
  have hij := h.lt_of_started he hf hekey hfkey hep.started.1 hfp.started.2 hne
  have hji := h.lt_of_started hf he hfkey hekey hfp.started.1 hep.started.2 (Ne.symm hne)
  omega

/-- The promise before may be caught once its call is cleaned up. -/
theorem mayCatch_of_cleaned (h : ∀ j, e.previous = some j →
    ∃ f : Entry ο, s.entries[j]? = some f ∧ f.phase.Cleaned) : s.mayCatch e = true := by
  unfold State.mayCatch
  cases hprev : e.previous with
  | none => rfl
  | some j =>
    obtain ⟨⟨key, previous, phase⟩, hf, o, rfl⟩ := h j hprev
    simp [hf]

theorem next_catchPrevious (he : s.entries[i]? = some e) (hphase : e.phase = .chained)
    (hmay : s.mayCatch e = true) : next s (.catchPrevious i) = some (s.move i e .caught) := by
  simp [next, he, hphase, hmay]

theorem next_start (he : s.entries[i]? = some e) (hphase : e.phase = .caught) :
    next s (.start i) = some { s.move i e .running with started := s.started ++ [i] } := by
  simp [next, he, hphase]

theorem next_settle {o : ο} (he : s.entries[i]? = some e) (hphase : e.phase = .finished o) :
    next s (.settle i) = some (s.move i e (.settled o)) := by
  simp [next, he, hphase]

theorem next_cleanup {o : ο} (he : s.entries[i]? = some e) (hphase : e.phase = .settled o)
    (hkey : e.key = some key) :
    next s (.cleanup i) = some ((s.move i e (.cleaned o)).clean key i) := by
  simp [next, he, hphase, hkey]

theorem reaches_start (he : s.entries[i]? = some e) (hphase : e.phase = .caught) :
    ∃ s', Reaches next s s' ∧ i ∈ s'.started ∧
      ∀ (j : Nat), j ≠ i → s'.entries[j]? = s.entries[j]? :=
  ⟨_, reaches_of_next (next_start he hphase), by simp, fun _ hj =>
    List.getElem?_set_ne (Ne.symm hj)⟩

/-- Where the earlier tasks of the key are cleaned up, a task can start with no other call's
    step. -/
theorem Inv.independent (h : Inv s) (he : s.entries[i]? = some e) (hkey : e.key = some key)
    (hnot : ¬e.phase.Started) (hclean : s.EarlierCleaned key i) :
    ∃ s', Reaches QueueOrdering.next s s' ∧ i ∈ s'.started ∧
      ∀ (j : Nat), j ≠ i → s'.entries[j]? = s.entries[j]? := by
  by_cases hphase : e.phase = .chained
  · have hmay : s.mayCatch e = true := by
      refine mayCatch_of_cleaned fun j hj => ?_
      have hwaits := h.waits i e key he hkey
      rw [hj] at hwaits
      obtain ⟨hlt, ⟨f, hf, hfkey⟩, -⟩ := hwaits
      exact ⟨f, hf, hclean j f hf hfkey hlt⟩
    have hcatch := next_catchPrevious he hphase hmay
    have hget : (s.move i e .caught).entries[i]? = some { e with phase := .caught } :=
      List.getElem?_set_self (List.getElem?_eq_some_iff.mp he).1
    obtain ⟨s', hreach, hmem, hframe⟩ := reaches_start hget rfl
    refine ⟨s', (reaches_of_next hcatch).trans hreach, hmem, fun j hj => ?_⟩
    rw [hframe j hj]
    exact List.getElem?_set_ne (Ne.symm hj)
  · have hcaught : e.phase = .caught := by
      by_contra hne
      exact hnot ⟨hphase, hne⟩
    exact reaches_start he hcaught

theorem Inv.tails_iff (h : Inv s) (key : String) :
    (∃ i, s.tails key = some i) ↔ ∃ e ∈ s.entries, e.key = some key ∧ ¬e.phase.Cleaned := by
  constructor
  · rintro ⟨i, hi⟩
    obtain ⟨⟨e, he, hkey, hnot⟩, -⟩ := h.tail key i hi
    exact ⟨e, List.mem_of_getElem? he, hkey, hnot⟩
  · rintro ⟨e, he, hkey, hnot⟩
    cases htail : s.tails key with
    | none => exact absurd (h.noTail key htail e he hkey) hnot
    | some i => exact ⟨i, rfl⟩

theorem State.Quiet.cleaned {o : ο} (hq : s.Quiet) (he : s.entries[i]? = some e)
    (hkey : e.key = some key) (ho : e.phase.outcome? = some o) : e.phase.Cleaned := by
  cases hphase : e.phase with
  | finished o' =>
    obtain ⟨_, h⟩ := hq _ _ (next_settle he hphase)
    cases h
  | settled o' =>
    obtain ⟨_, h⟩ := hq _ _ (next_cleanup he hphase hkey)
    cases h
  | cleaned o' => exact ⟨o', rfl⟩
  | chained | caught | running => simp [hphase, Phase.outcome?] at ho

/-- By induction on the place: a task waits for an earlier one. -/
theorem Inv.complete (h : Inv s) (hidle : ∀ e ∈ s.entries, e.phase ≠ .running) (hq : s.Quiet)
    (he : s.entries[i]? = some e) : e.phase.Started ∧ e.phase.outcome?.isSome := by
  induction i using Nat.strongRecOn generalizing e with
  | _ i ih =>
    have hstarted : e.phase.Started := by
      cases hkey : e.key with
      | none => exact (h.keyless e (List.mem_of_getElem? he) hkey).1
      | some key =>
        refine ⟨fun hphase => ?_, fun hphase => ?_⟩
        · have hmay : s.mayCatch e = true := by
            refine mayCatch_of_cleaned fun j hj => ?_
            have hwaits := h.waits i e key he hkey
            rw [hj] at hwaits
            obtain ⟨hlt, ⟨f, hf, hfkey⟩, -⟩ := hwaits
            obtain ⟨o, ho⟩ := Option.isSome_iff_exists.mp (ih j hlt hf).2
            exact ⟨f, hf, hq.cleaned hf hfkey ho⟩
          obtain ⟨_, hrun⟩ := hq _ _ (next_catchPrevious he hphase hmay)
          cases hrun
        · obtain ⟨_, hrun⟩ := hq _ _ (next_start he hphase)
          cases hrun
    refine ⟨hstarted, ?_⟩
    have hnot := hidle e (List.mem_of_getElem? he)
    obtain ⟨hchained, hcaught⟩ := hstarted
    cases hphase : e.phase with
    | chained => exact absurd hphase hchained
    | caught => exact absurd hphase hcaught
    | running => exact absurd hphase hnot
    | finished o | settled o | cleaned o => rfl

theorem ordered_of_inv (h : Inv s) (hs : StartedInv s) : Ordered s where
  startedOnce := ⟨hs.nodup, fun _ hi => hs.lt_length hi, fun i e he hkey =>
    (hs.mem i).mpr ⟨e, he, (h.keyless e (List.mem_of_getElem? he) hkey).1⟩⟩
  exclusive _ _ _ _ _ he hf hekey hfkey hep hfp := h.exclusive he hf hekey hfkey hep hfp
  inOrder := hs.order
  independent i e _ he hkey hnot hclean :=
    h.independent he hkey (fun hstarted => hnot ((hs.mem i).mpr ⟨e, he, hstarted⟩)) hclean
  tails := h.tails_iff
  complete hidle hq i e he := by
    obtain ⟨hstarted, houtcome⟩ := h.complete hidle hq he
    exact ⟨(hs.mem i).mpr ⟨e, he, hstarted⟩, houtcome⟩

end Keys

/-! ## Outcomes -/

section Outcomes

variable {s s' : State ο} {a : Action ο} {i : Nat} {o : ο}

/-- The caller of `i` has, or will get, this outcome. -/
def State.HasOutcome (s : State ο) (i : Nat) (o : ο) : Prop :=
  ∃ e : Entry ο, s.entries[i]? = some e ∧ e.phase.outcome? = some o

theorem hasOutcome_append {x : Entry ο} {tails : String → Option Nat} {started : List Nat}
    (hx : x.phase.outcome? = none) :
    State.HasOutcome ⟨s.entries ++ [x], tails, started⟩ i o ↔ s.HasOutcome i o := by
  constructor
  · rintro ⟨e, he, ho⟩
    rcases getElem?_append_cases he with he' | rfl
    · exact ⟨e, he', ho⟩
    · rw [hx] at ho
      cases ho
  · rintro ⟨e, he, ho⟩
    exact ⟨e, by rw [List.getElem?_append_left (List.getElem?_eq_some_iff.mp he).1, he], ho⟩

theorem Advance.outcome_iff {p q : Phase ο} {j : Nat} (h : Advance q p a j) :
    p.outcome? = some o ↔ q.outcome? = some o ∨ a = .finish j o := by
  cases h <;> simp [Phase.outcome?]

theorem Advance.place_of_finish {p q : Phase ο} {j : Nat} (h : Advance q p (.finish i o) j) :
    j = i := by
  cases h
  rfl

/-- A caller gets an outcome by the end of its own task. -/
theorem hasOutcome_next (h : next s a = some s') :
    s'.HasOutcome i o ↔ s.HasOutcome i o ∨ a = .finish i o := by
  rcases next_cases h with ⟨key, rfl, rfl⟩ | ⟨j, e, p, he, hadv, -, -, rfl⟩
  · have hrun : (s.run key).HasOutcome i o ↔ s.HasOutcome i o := by
      unfold State.run
      cases orderingKey key <;> exact hasOutcome_append rfl
    simp [hrun]
  · by_cases hij : i = j
    · subst hij
      have hget := List.getElem?_set_self (a := { e with phase := p })
        (List.getElem?_eq_some_iff.mp he).1
      have hpost : State.HasOutcome ⟨s.entries.set i { e with phase := p },
          s.tailsAfter i e.key p, s.started ++ startedBy i p⟩ i o ↔ p.outcome? = some o :=
        ⟨fun ⟨f, hf, ho⟩ => by
          obtain rfl := Option.some.inj (hget.symm.trans hf)
          exact ho, fun ho => ⟨_, hget, ho⟩⟩
      have hpre : s.HasOutcome i o ↔ e.phase.outcome? = some o :=
        ⟨fun ⟨f, hf, ho⟩ => by
          obtain rfl := Option.some.inj (he.symm.trans hf)
          exact ho, fun ho => ⟨_, he, ho⟩⟩
      rw [hpost, hpre, hadv.outcome_iff]
    · have hframe := List.getElem?_set_ne (l := s.entries) (a := { e with phase := p })
        (Ne.symm hij)
      unfold State.HasOutcome
      rw [hframe]
      refine ⟨.inl, fun hor => hor.elim id fun ha => ?_⟩
      subst ha
      exact absurd hadv.place_of_finish (Ne.symm hij)

theorem hasOutcome_run {xs : List (Step (State ο) (Action ο))} (h : Run next s xs s') :
    s'.HasOutcome i o ↔ s.HasOutcome i o ∨ ∃ x ∈ xs, x.act = .finish i o := by
  induction h with
  | nil => simp
  | cons hstep _ ih =>
    rw [ih, hasOutcome_next hstep, List.exists_mem_cons_iff, or_assoc]

end Outcomes

/-- `OrderedExecutor` keeps the order of each key, and a caller gets the outcome of its own task
    and no other. -/
theorem ordered_executor {xs : List (Step (State ο) (Action ο))} {s : State ο}
    (h : Run next initial xs s) :
    Ordered s ∧ ∀ i o, s.HasOutcome i o ↔ ∃ x ∈ xs, x.act = .finish i o := by
  refine ⟨ordered_of_inv (inv_of_reaches h.reaches) (startedInv_of_reaches h.reaches),
    fun i o => ?_⟩
  rw [hasOutcome_run h]
  refine or_iff_right ?_
  rintro ⟨e, he, -⟩
  simp [initial] at he

/-- Two tasks of one key and one of another: the first fails, and its cleanup comes after the
    second call. -/
def twoKeys : {acts : List (Action Bool) // (replay next initial acts).1.length = 10} :=
  ⟨[.run (some "deal"), .catchPrevious 0, .run (some "other"), .start 0, .run (some "deal"),
      .finish 0 false, .settle 0, .cleanup 0, .catchPrevious 2, .start 2],
    by decide +kernel⟩

theorem ordered_executor_two_keys :
    let r := replay next initial twoKeys.1
    Ordered r.2 ∧ ∀ i o, r.2.HasOutcome i o ↔ ∃ x ∈ r.1, x.act = .finish i o :=
  ordered_executor (run_replay next initial _)

end AgriFi.QueueOrdering
