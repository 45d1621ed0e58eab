import AgriFi.Outbox.Batches
import AgriFi.Threads

/-
  What the outbox guarantees. A row is always in one of the two tables (`in_one_table`). But the
  locks of a claim end at its COMMIT, so that a second replica can claim and emit what the first has
  in hand (`emitted_twice`), and a row that was emitted and not marked counts as failed until it is
  moved. `delivers_once`: as long as each claim is of rows that nobody has in hand, and no emitted
  row that is not yet processed has its tenth failure counted, an emitted row is never moved, and
  two replicas emit the same row only when one of them has failed at it.
-/

namespace AgriFi.Outbox

open AgriFi.Runs AgriFi.Threads
open AgriFi.DealDelivered (Outcome)

variable {Payload : Type}

/-! ## When it delivers -/

/-- A claim takes nothing that a replica has in hand, and a failure may be counted. -/
def Careful (s : System Payload) : Action Payload → Prop
  | .publishPending _ sorted .ok =>
    ∀ row ∈ sorted.take BATCH_SIZE, ∀ t ∈ s.threads, row.id ∉ t.held
  | .run w _ o _ =>
    match s.threads[w]?, o with
    | some (.increment event _ _), .ok | some (.increment event _ _), .lost =>
      s.state.MayCount event.id
    | _, _ => True
  | _ => True

instance (s : System Payload) (a : Action Payload) : Decidable (Careful s a) := by
  unfold Careful
  split
  · infer_instance
  · split <;> infer_instance
  · infer_instance

/-! ## Runs -/

section Runs

variable {s s' : System Payload} {w : Nat} {t t' : Pc Payload}

theorem inv_start : Inv (start : System Payload) := by
  constructor
  case books =>
    constructor
    case tables => constructor <;> simp [start, State.ids, State.deadIds]
    all_goals simp [start, State.deadIds]
  case oks => simp [start]
  case apart =>
    intro w v t u ht
    simp [start] at ht
  case accounted => simp [start]

/-- A thread moves. -/
theorem Inv.set {state : State Payload} (h : Inv s) (ht : s.threads[w]? = some t)
    (hmoves : Moves w s.state state t t') : Inv { state, threads := s.threads.set w t' } := by
  have hlt : w < s.threads.length := (List.getElem?_eq_some_iff.mp ht).1
  have hothers : ∀ ⦃v u⦄, s.threads[v]? = some u → v ≠ w → PcOk state u := by
    intro v u hu hne
    refine (h.oks u (List.mem_of_getElem? hu)).frame hmoves.frame fun id hid => ?_
    exact h.apart hu ht hne id hid
  constructor
  case books => exact hmoves.books
  case oks => exact forall_mem_set hothers hmoves.ok
  case apart =>
    intro v v' u u' hu hu' hne id hid
    rcases getElem?_set_cases hu with ⟨rfl, rfl⟩ | ⟨_, hold⟩
    · rcases getElem?_set_cases hu' with ⟨rfl, _⟩ | ⟨_, hold'⟩
      · exact absurd rfl hne
      · exact h.apart ht hold' hne id (hmoves.held id hid)
    · rcases getElem?_set_cases hu' with ⟨rfl, rfl⟩ | ⟨_, hold'⟩
      · exact fun hid' => h.apart hold ht hne id hid (hmoves.held id hid')
      · exact h.apart hold hold' hne id hid
  case accounted =>
    intro e he
    by_cases hw : e.1 = w
    · refine ⟨t', ?_, hmoves.accounted e he hw⟩
      rw [hw]
      exact List.getElem?_set_self hlt
    · have he' := (hmoves.emitted e he).resolve_right hw
      obtain ⟨u, hu, hacc⟩ := h.accounted e he'
      refine ⟨u, ?_, hacc.frame hmoves.frame (h.books.emittedBelow e he')⟩
      rw [List.getElem?_set_ne (Ne.symm hw)]
      exact hu

/-- A thread joins. -/
theorem Inv.join (h : Inv s) (hok : PcOk s.state t) (hheld : t.held = []) :
    Inv { s with threads := s.threads ++ [t] } := by
  constructor
  case books => exact h.books
  case oks => exact forall_mem_append h.oks hok
  case apart =>
    intro v v' u u' hu hu' hne id hid
    rcases getElem?_append_cases hu with hu | rfl
    · rcases getElem?_append_cases hu' with hu' | rfl
      · exact h.apart hu hu' hne id hid
      · simp [hheld]
    · simp [hheld] at hid
  case accounted =>
    intro e he
    obtain ⟨u, hu, hacc⟩ := h.accounted e he
    refine ⟨u, ?_, hacc⟩
    rw [List.getElem?_append_left (List.getElem?_eq_some_iff.mp hu).1]
    exact hu

theorem Inv.past (h : Inv s) (ht : s.threads[w]? = some t) :
    ∀ e ∈ s.state.emitted, e.1 = w → Accounted s.state t.sent e := by
  intro e he hw
  obtain ⟨u, hu, hacc⟩ := h.accounted e he
  rw [hw, ht] at hu
  obtain rfl := Option.some.inj hu
  exact hacc

/-- The claim of rows that nobody has in hand. -/
theorem Inv.claim {sorted : List (OutboxEntity Payload)} (h : Inv s)
    (ht : s.threads[w]? = some .idle) (hperm : sorted.Perm s.pending)
    (hfree : ∀ row ∈ sorted.take BATCH_SIZE, ∀ t ∈ s.threads, row.id ∉ t.held) :
    Inv { s with threads := s.threads.set w (.commitClaim (sorted.take BATCH_SIZE)) } := by
  have hsub : ∀ row ∈ sorted.take BATCH_SIZE, row ∈ s.state.outbox ∧ row.isPending = true := by
    intro row hrow
    have hmem := hperm.subset (List.mem_of_mem_take hrow)
    rw [System.pending, List.mem_filter, Bool.and_eq_true] at hmem
    exact ⟨hmem.1, hmem.2.1⟩
  have hnodup : ((sorted.take BATCH_SIZE).map OutboxEntity.id).Nodup := by
    have hids : (s.pending.map OutboxEntity.id).Nodup :=
      h.books.tables.nodup.sublist (List.filter_sublist.map _)
    have hsorted := (hperm.map OutboxEntity.id).nodup_iff.mpr hids
    exact hsorted.sublist ((List.take_sublist ..).map _)
  have hfree' : ∀ id ∈ (sorted.take BATCH_SIZE).map OutboxEntity.id, ∀ u ∈ s.threads,
      id ∉ u.held := by
    intro id hid
    obtain ⟨row, hrow, rfl⟩ := List.mem_map.mp hid
    exact hfree row hrow
  have hpending : ∀ id ∈ (sorted.take BATCH_SIZE).map OutboxEntity.id,
      s.state.IsPending id ∧ s.state.FailedBefore id := by
    intro id hid
    obtain ⟨row, hrow, rfl⟩ := List.mem_map.mp hid
    obtain ⟨hmem, hp⟩ := hsub row hrow
    refine ⟨⟨row, hmem, rfl, hp⟩, fun e he heq => ?_⟩
    obtain ⟨u, hu, hacc⟩ := h.accounted e he
    rcases hacc with hfailed | hdone | hsent
    · exact hfailed
    · have hprocessed := hdone row hmem heq.symm
      simp [OutboxEntity.isPending, hprocessed] at hp
    · -- whoever is at the row still has it in hand
      refine absurd ?_ (hfree' row.id hid u (List.mem_of_getElem? hu))
      cases u with
      | markProcessed event left =>
        have hat : event.id = e.2 := Option.some.inj hsent
        rw [← heq, ← hat]
        exact List.mem_cons_self ..
      | idle | commitClaim _ | emit _ _ | increment _ _ _ | note _ _ _ | insertMoved
      | deleteMoved _ | commitMove _ | finished => cases hsent
  have hlt : w < s.threads.length := (List.getElem?_eq_some_iff.mp ht).1
  constructor
  case books => exact h.books
  case oks =>
    refine forall_mem_set (others_of_forall h.oks) ⟨hnodup, hpending, fun id hid => ?_⟩
    cases hid
  case apart =>
    intro v v' u u' hu hu' hne id hid
    rcases getElem?_set_cases hu with ⟨rfl, rfl⟩ | ⟨_, hold⟩
    · rcases getElem?_set_cases hu' with ⟨rfl, _⟩ | ⟨_, hold'⟩
      · exact absurd rfl hne
      · exact hfree' id hid u' (List.mem_of_getElem? hold')
    · rcases getElem?_set_cases hu' with ⟨rfl, rfl⟩ | ⟨_, hold'⟩
      · exact fun hid' => hfree' id hid' u (List.mem_of_getElem? hold) hid
      · exact h.apart hold hold' hne id hid
  case accounted =>
    intro e he
    obtain ⟨u, hu, hacc⟩ := h.accounted e he
    by_cases hw : e.1 = w
    · obtain rfl : Pc.idle = u := Option.some.inj (ht.symm.trans (hw ▸ hu))
      refine ⟨.commitClaim (sorted.take BATCH_SIZE), ?_, hacc⟩
      rw [hw]
      exact List.getElem?_set_self hlt
    · refine ⟨u, ?_, hacc⟩
      rw [List.getElem?_set_ne (Ne.symm hw)]
      exact hu

theorem crash_moves (hbooks : Books s.state) (hok : PcOk s.state t)
    (hacc : ∀ e ∈ s.state.emitted, e.1 = w → Accounted s.state t.sent e) :
    Moves w s.state (match t.current with
      | some id => s.state.fail w id
      | none => s.state) t t.crash := by
  have hcrash : ∀ state : State Payload, PcOk state t.crash := by
    intro state
    cases t <;> first | exact idle_ok | exact finished_ok
  have hheld : t.crash.held = [] := by
    cases t <;> rfl
  cases hcurrent : t.current with
  | none =>
    refine .stop hbooks ?_ (hcrash _) hheld
    cases t with
    | markProcessed event left => cases hcurrent
    | idle | commitClaim _ | emit _ _ | increment _ _ _ | note _ _ _ | insertMoved
    | deleteMoved _ | commitMove _ | finished => exact hacc
  | some id =>
    have hframe : Frame s.state (s.state.fail w id) t.held := fail_frame w id _
    refine .of_past (hbooks.fail w id) hframe (hcrash _) (by simp [hheld]) rfl ?_
    intro e he hw
    rcases hacc e he hw with h | h | h
    · exact .inl (hframe.failed e h)
    · exact .inr (.inl h)
    · have hid : id = e.2 := by
        cases t with
        | markProcessed event left => exact Option.some.inj (hcurrent.symm.trans h)
        | idle | commitClaim _ | emit _ _ | increment _ _ _ | note _ _ _ | insertMoved
        | deleteMoved _ | commitMove _ | finished => cases h
      exact .inl (List.mem_append_right _ (List.mem_singleton.mpr (Prod.ext hw hid.symm)))

variable [DecidableEq Payload]

theorem next_keeps {a : Action Payload} (h : Inv s) (hstep : next s a = some s')
    (hcareful : Careful s a) : Inv s' := by
  cases a with
  | writeEvent eventType payload createdAt =>
    cases hstep
    constructor
    case books => exact h.books.writeEvent
    case oks =>
      exact fun t ht => (h.oks t ht).frame (writeEvent_frame []) fun _ _ hmem => by cases hmem
    case apart => exact h.apart
    case accounted =>
      intro e he
      obtain ⟨u, hu, hacc⟩ := h.accounted e he
      exact ⟨u, hu, hacc.frame (writeEvent_frame []) (h.books.emittedBelow e he)⟩
  | replica =>
    cases hstep
    exact h.join idle_ok rfl
  | moveToDeadLetter =>
    cases hstep
    refine h.join ?_ rfl
    constructor <;> simp [Pc.held, Pc.unsent, Pc.moved]
  | publishPending w sorted o =>
    simp only [next] at hstep
    split at hstep
    · next ht =>
      split at hstep
      · next hsorted =>
        cases o with
        | ok =>
          cases hstep
          exact h.claim ht hsorted.1 hcareful
        | fail | lost =>
          cases hstep
          exact h
      · cases hstep
    · cases hstep
  | run w now o error =>
    simp only [next, Option.bind_eq_bind, Option.bind_eq_some_iff, Option.ite_none_left_eq_some,
      Option.some.injEq] at hstep
    obtain ⟨t, ht, _, ⟨state, t'⟩, hpc, rfl⟩ := hstep
    refine h.set ht (stepPc_moves h.books (h.oks t (List.mem_of_getElem? ht)) (h.past ht) ?_ hpc)
    rintro event left error' rfl ho
    simp only [Careful, ht] at hcareful
    cases o with
    | ok | lost => exact hcareful
    | fail => exact absurd rfl ho
  | crash w =>
    simp only [next, Option.bind_eq_bind, Option.bind_eq_some_iff, Option.some.injEq] at hstep
    obtain ⟨t, ht, rfl⟩ := hstep
    exact h.set ht (crash_moves h.books (h.oks t (List.mem_of_getElem? ht)) (h.past ht))

/-- As long as every claim and every counted failure is as `Careful` says, in every state each row
    is in one table, what was emitted is not moved, and no two replicas emit a row unless one of
    them fails at it. -/
theorem delivers_once {xs : List (Step (System Payload) (Action Payload))}
    (hrun : OutboxRun xs s) (hcareful : ∀ x ∈ xs, Careful x.pre x.act) : Delivers s.state :=
  (hrun.invariant Inv inv_start fun x hx hstep h =>
    next_keeps h hstep (hcareful x hx)).books.delivers

/-! ## In any run -/

/-- What a thread does to the tables, careful or not. -/
structure Shifts (s s' : State Payload) (t' : Pc Payload) : Prop where
  tables : Tables s'
  written : s'.written = s.written
  moved : ∀ id ∈ t'.moved, id < s.written

omit [DecidableEq Payload] in
theorem stepPc_tables {s s' : State Payload} {now : Int} {o : Outcome} {error : String}
    (h : Tables s) (hmoved : ∀ id ∈ t.moved, id < s.written)
    (hstep : stepPc w s now o error t = some (s', t')) : Shifts s s' t' := by
  have hupdate : ∀ {f : OutboxEntity Payload → OutboxEntity Payload} (id : Nat) {u : Pc Payload},
      Marks f → u.moved = [] → Shifts s (s.update id f) u := by
    intro f id u hf hu
    exact ⟨h.update hf, rfl, by simp [hu]⟩
  have hsame : ∀ {u : Pc Payload}, u.moved = [] → Shifts s s u := by
    intro u hu
    exact ⟨h, rfl, by simp [hu]⟩
  have hfail : ∀ {state : State Payload} {u : Pc Payload} (id : Nat), Shifts s state u →
      Shifts s (state.fail w id) u := by
    intro state u id hshifts
    have htables := hshifts.tables
    exact ⟨⟨htables.nodup, htables.below, htables.deadBelow, htables.covers⟩, hshifts.written,
      hshifts.moved⟩
  cases t with
  | idle | finished => cases hstep
  | commitClaim events =>
    cases o <;> cases hstep
    · exact hsame publishing_moved
    · exact hsame rfl
    · exact hsame rfl
  | emit event left =>
    cases o <;> cases hstep
    · exact ⟨⟨h.nodup, h.below, h.deadBelow, h.covers⟩, rfl, by simp [Pc.moved]⟩
    · exact hfail _ (hsame rfl)
    · exact hfail _ (hsame rfl)
  | markProcessed event left =>
    cases o <;> cases hstep
    · exact hupdate _ (marks_markProcessed now) publishing_moved
    · exact hfail _ (hsame rfl)
    · exact hfail _ (hupdate _ (marks_markProcessed now) rfl)
  | increment event left error =>
    cases o <;> cases hstep
    · exact hupdate _ marks_increment rfl
    · exact hsame rfl
    · exact hupdate _ marks_increment rfl
  | note event left error =>
    cases o <;> cases hstep
    · exact hupdate _ (marks_note error) publishing_moved
    · exact hsame rfl
    · exact hupdate _ (marks_note error) rfl
  | insertMoved =>
    cases o <;> cases hstep
    · split
      · exact hsame rfl
      · refine ⟨h, rfl, fun id hid => ?_⟩
        obtain ⟨row, hrow, rfl⟩ := List.mem_map.mp hid
        exact h.below _ (List.mem_map_of_mem (List.mem_filter.mp hrow).1)
    · exact hsame rfl
    · exact hsame rfl
  | deleteMoved moved =>
    cases o <;> cases hstep
    · exact ⟨h, rfl, hmoved⟩
    · exact hsame rfl
    · exact hsame rfl
  | commitMove moved =>
    cases o <;> cases hstep
    · exact ⟨h.move hmoved, rfl, by simp [Pc.moved]⟩
    · exact hsame rfl
    · exact ⟨h.move hmoved, rfl, by simp [Pc.moved]⟩

theorem next_tables {a : Action Payload}
    (h : Tables s.state ∧ ∀ t ∈ s.threads, ∀ id ∈ t.moved, id < s.state.written)
    (hstep : next s a = some s') :
    Tables s'.state ∧ ∀ t ∈ s'.threads, ∀ id ∈ t.moved, id < s'.state.written := by
  obtain ⟨htables, hmoved⟩ := h
  cases a with
  | writeEvent eventType payload createdAt =>
    cases hstep
    exact ⟨htables.writeEvent, fun t ht id hid => Nat.lt_succ_of_lt (hmoved t ht id hid)⟩
  | replica | moveToDeadLetter =>
    cases hstep
    exact ⟨htables, forall_mem_append hmoved (by simp [Pc.moved])⟩
  | publishPending w sorted o =>
    simp only [next] at hstep
    split at hstep
    · split at hstep
      · cases o <;> cases hstep
        · exact ⟨htables, forall_mem_set (others_of_forall hmoved) (by simp [Pc.moved])⟩
        · exact ⟨htables, hmoved⟩
        · exact ⟨htables, hmoved⟩
      · cases hstep
    · cases hstep
  | run w now o error =>
    simp only [next, Option.bind_eq_bind, Option.bind_eq_some_iff, Option.ite_none_left_eq_some,
      Option.some.injEq] at hstep
    obtain ⟨t, ht, _, ⟨state, t'⟩, hpc, rfl⟩ := hstep
    have hshifts := stepPc_tables htables (hmoved t (List.mem_of_getElem? ht)) hpc
    refine ⟨hshifts.tables, ?_⟩
    rw [hshifts.written]
    exact forall_mem_set (others_of_forall hmoved) hshifts.moved
  | crash w =>
    simp only [next, Option.bind_eq_bind, Option.bind_eq_some_iff, Option.some.injEq] at hstep
    obtain ⟨t, _, rfl⟩ := hstep
    have hcrash : ∀ id ∈ t.crash.moved, id < s.state.written := by
      cases t <;> simp [Pc.crash, Pc.moved]
    split
    · exact ⟨⟨htables.nodup, htables.below, htables.deadBelow, htables.covers⟩,
        forall_mem_set (others_of_forall hmoved) hcrash⟩
    · exact ⟨htables, forall_mem_set (others_of_forall hmoved) hcrash⟩

/-- Whatever the claims take and whatever fails, a committed row is in exactly one table. -/
theorem in_one_table {xs : List (Step (System Payload) (Action Payload))}
    (hrun : OutboxRun xs s) : ∀ id < s.state.written,
      (id ∈ s.state.ids ∧ id ∉ s.state.deadIds) ∨ (id ∉ s.state.ids ∧ id ∈ s.state.deadIds) := by
  have hstart : Tables (start : System Payload).state := inv_start.books.tables
  exact (hrun.invariant
    (fun s => Tables s.state ∧ ∀ t ∈ s.threads, ∀ id ∈ t.moved, id < s.state.written)
    ⟨hstart, by simp [start]⟩ fun x _ hstep h => next_tables h hstep).1.delivers_oneTable

end Runs

/-! ## Two replicas with one row -/

section Example

/-- Row `id` after `n` failures. -/
def aRow (id n : Nat) : OutboxEntity Unit :=
  { OutboxEntity.written id "deal.created" () id with
    retryCount := n
    lastError := if n = 0 then none else some "down" }

/-- Replica 0 fails to emit row 0 ten times, and it is moved; replica 1 emits row 1. -/
def oneMoved : List (Action Unit) :=
  [.writeEvent "deal.created" () 0, .replica, .replica, .moveToDeadLetter] ++
    ((List.range 10).flatMap fun n => [.publishPending 0 [aRow 0 n] .ok, .run 0 5 .ok "",
      .run 0 5 .fail "down", .run 0 5 .ok "", .run 0 5 .ok ""]) ++
    List.replicate 3 (.run 2 6 .ok "") ++
    [.writeEvent "deal.created" () 1, .publishPending 1 [aRow 1 0] .ok, .run 1 7 .ok "",
      .run 1 7 .ok "", .run 1 7 .ok ""]

theorem delivers_once_oneMoved :
    let run := replay next start oneMoved
    run.1.length = oneMoved.length ∧ run.2.state.deadIds = [0] ∧
      run.2.state.emitted = [(1, 1)] ∧ Delivers run.2.state := by
  have hrun := run_replay next start oneMoved
  exact ⟨by decide +kernel, by decide +kernel, by decide +kernel,
    delivers_once hrun (by decide +kernel)⟩

/-- Row 0 is a dead letter, row 1 is in the outbox. -/
theorem in_one_table_oneMoved :
    let run := replay next start oneMoved
    run.2.state.written = 2 ∧ ∀ id < run.2.state.written,
      (id ∈ run.2.state.ids ∧ id ∉ run.2.state.deadIds) ∨
        (id ∉ run.2.state.ids ∧ id ∈ run.2.state.deadIds) :=
  ⟨by decide +kernel, in_one_table (run_replay next start oneMoved)⟩

/-- Both replicas claim the row before the first has emitted it. -/
def bothClaim : List (Action Unit) :=
  [.writeEvent "deal.created" () 0, .replica, .replica, .publishPending 0 [aRow 0 0] .ok,
    .run 0 5 .ok "", .publishPending 1 [aRow 0 0] .ok, .run 1 5 .ok "", .run 0 6 .ok "",
    .run 1 6 .ok ""]

/-- The row is emitted by both, and nothing has failed. -/
theorem emitted_twice : ¬ (∀ (xs : List (Step (System Unit) (Action Unit))) (s : System Unit),
    OutboxRun xs s → Delivers s.state) := by
  intro h
  have hexclusive := (h _ _ (run_replay next start bothClaim)).exclusive (0, 0) (by decide +kernel)
    (1, 0) (by decide +kernel)
  revert hexclusive
  decide +kernel

/-- A row that was emitted ten times and never marked is moved. -/
example :
    let acts := [Action.writeEvent "deal.created" () 0, .replica, .moveToDeadLetter] ++
      ((List.range 10).flatMap fun n => [Action.publishPending 0 [aRow 0 n] .ok, .run 0 5 .ok "",
        .run 0 5 .ok "", .run 0 5 .fail "down", .run 0 5 .ok "", .run 0 5 .ok ""]) ++
      List.replicate 3 (.run 1 6 .ok "")
    (replay next start acts).2.state.deadIds = [0] ∧
      (0, 0) ∈ (replay next start acts).2.state.emitted := by
  decide +kernel

end Example

end AgriFi.Outbox
