import AgriFi.OrderBook.Calls
import AgriFi.OrderBook.Conservation

/-
  A thread whose operations follow each other without another thread in between does to the tables
  what the function of `Matching.lean` does: `alone_matchOrder`, `alone_cancelOrder`,
  `alone_matchOpenOrders`. So every book that calls make one after the other is made by threads
  that run side by side (`interleaved_of_run`).
-/

namespace AgriFi.OrderBook

open AgriFi.Runs Relation

/-- The thread's operations lead from one state to the other, with nobody in between. -/
abbrev Alone : Book × Thread → Book × Thread → Prop :=
  ReflTransGen fun x y => ∃ e, x.2.step e x.1 = some y

variable {b : Book} {order maker : SecondaryOrder} {makers : List SecondaryOrder}
  {fills : List SecondaryTrade} {x y : Book × Thread}

theorem alone_step (e : MatchEnv) {t t' : Thread} {b b' : Book} (h : t.step e b = some (b', t'))
    (hrest : Alone (b', t') y) : Alone (b, t) y :=
  .head ⟨e, h⟩ hrest

/-- A thread that has nothing left to match takes no step. -/
example (e : MatchEnv) (b : Book) : (resume []).step e b = none := by
  simp only [resume, Thread.step]

theorem fillNext_cons (order maker : SecondaryOrder) (makers : List SecondaryOrder)
    (todo : List OrderKey) :
    fillNext order (maker :: makers) todo =
      if order.remaining ≤ qtyEpsilon then resume todo
      else if maker.userId = order.userId ∨ maker.remaining ≤ qtyEpsilon then
        fillNext order makers todo
      else ⟨.settle order maker makers, todo⟩ := by
  unfold fillNext
  rw [nextFill_cons]
  by_cases hopen : order.remaining ≤ qtyEpsilon
  · rw [if_pos hopen, if_pos hopen]
  · rw [if_neg hopen, if_neg hopen]
    by_cases hskip : maker.userId = order.userId ∨ maker.remaining ≤ qtyEpsilon
    · rw [if_pos hskip, if_pos hskip]
    · rw [if_neg hskip, if_neg hskip]

/-! ## `matchOrder` -/

theorem alone_sweepMakers (env : MatchEnv) (todo : List OrderKey) :
    Alone (b, fillNext order makers todo)
      ((sweepMakers env.settle makers order fills b).2.2, resume todo) := by
  induction makers generalizing order fills b with
  | nil => exact .refl
  | cons maker makers ih =>
    rw [sweepMakers_cons, fillNext_cons]
    by_cases hopen : order.remaining ≤ qtyEpsilon
    · rw [if_pos hopen, if_pos hopen]
    · rw [if_neg hopen, if_neg hopen]
      by_cases hskip : maker.userId = order.userId ∨ maker.remaining ≤ qtyEpsilon
      · rw [if_pos hskip, if_pos hskip]
        exact ih
      · rw [if_neg hskip, if_neg hskip]
        dsimp only
        cases hsettle : env.settle maker.n with
        | settled =>
          refine alone_step env (by simp only [Thread.step, hsettle]; rfl) ?_
          exact alone_step env rfl (alone_step env rfl ih)
        | unsettled => exact alone_step env (by simp only [Thread.step, hsettle]) .refl
        | rejected => exact alone_step env (by simp only [Thread.step, hsettle]) .refl

theorem alone_matchLive (env : MatchEnv) (order : SecondaryOrder) (b : Book)
    (todo : List OrderKey) :
    Alone (b, ⟨.findCrossingMakers order, todo⟩) ((matchLive env order b).2, resume todo) := by
  unfold matchLive
  by_cases hanswers : env.answers = false
  · rw [if_pos hanswers]
    exact alone_step env (by simp only [Thread.step, hanswers, if_true]) .refl
  · rw [if_neg hanswers]
    dsimp only
    refine alone_step env (by simp only [Thread.step, if_neg hanswers]; rfl) ?_
    unfold probed
    split
    · exact alone_step env rfl .refl
    · exact alone_sweepMakers env todo

theorem alone_matchOrder (env : MatchEnv) (orderId : OrderKey) (b : Book) (todo : List OrderKey) :
    Alone (b, ⟨.getOrder orderId, todo⟩) ((matchOrder orderId env b).2, resume todo) := by
  unfold matchOrder
  cases hget : b.getOrder orderId with
  | none => exact alone_step env (by simp only [Thread.step, hget]) .refl
  | some order =>
    refine alone_step env (by simp only [Thread.step, hget]; rfl) ?_
    dsimp only
    unfold opened
    split
    · exact .refl
    · split
      · exact alone_step env rfl .refl
      · split
        · split
          · next harms =>
            refine alone_step env (by simp only [Thread.step, harms, if_true]; rfl) ?_
            exact alone_step env rfl (alone_matchLive env _ _ todo)
          · next harms =>
            exact alone_step env (by simp only [Thread.step, harms]; rfl) .refl
        · exact alone_matchLive env order b todo

/-! ## `cancelOrder` and `matchOpenOrders` -/

theorem alone_cancelOrder (env : MatchEnv) (orderId : OrderKey) (userId : Nat) (b : Book) :
    Alone (b, (Call.cancelOrder orderId userId).start)
      ((cancelOrder orderId userId b).2, ⟨.finished, []⟩) := by
  unfold cancelOrder Call.start
  cases hget : b.getOrder orderId with
  | none => exact alone_step env (by simp only [Thread.step, hget]; rfl) .refl
  | some order =>
    dsimp only
    by_cases huser : order.userId ≠ userId
    · rw [if_pos huser]
      exact alone_step env (by simp only [Thread.step, hget, if_pos (Or.inl huser)]; rfl) .refl
    · rw [if_neg huser]
      by_cases hrest : order.isResting = false
      · rw [if_pos hrest]
        exact alone_step env (by simp only [Thread.step, hget, if_pos (Or.inr hrest)]; rfl) .refl
      · rw [if_neg hrest]
        have hneither := not_or.mpr ⟨huser, hrest⟩
        refine alone_step env (by simp only [Thread.step, hget, if_neg hneither]; rfl) ?_
        exact alone_step env rfl .refl

theorem alone_armRest (now : Nat) (tokenCode : String) (orders : List SecondaryOrder) (b : Book) :
    Alone (b, ⟨armRest tokenCode orders, []⟩)
      (orders.foldl (fun b o => b.save (o.arm now)) b, ⟨.findResting tokenCode, []⟩) := by
  induction orders generalizing b with
  | nil => exact .refl
  | cons order orders ih => exact alone_step ⟨now, true, fun _ => .rejected⟩ rfl (ih _)

theorem alone_matchEach (env : Nat → MatchEnv) (orders : List SecondaryOrder) (b : Book) :
    Alone (b, resume (orders.map SecondaryOrder.orderId))
      (matchEach env orders b, ⟨.finished, []⟩) := by
  induction orders generalizing b with
  | nil => exact .refl
  | cons order orders ih => exact (alone_matchOrder (env order.n) order.orderId b _).trans (ih _)

theorem alone_matchOpenOrders (env : Nat → MatchEnv) (tokenCode : String) (now : Nat) (b : Book) :
    Alone (b, (Call.matchOpenOrders tokenCode).start)
      (matchOpenOrders tokenCode now env b, ⟨.finished, []⟩) := by
  have hstops : Alone (b, (Call.matchOpenOrders tokenCode).start)
      (processStopLossTriggers tokenCode now b, ⟨.findResting tokenCode, []⟩) := by
    unfold processStopLossTriggers Call.start
    cases hprice : b.getLastPrice tokenCode with
    | none => exact alone_step (env 0) (by simp only [Thread.step, hprice]) .refl
    | some marketPrice =>
      refine alone_step (env 0) (by simp only [Thread.step, hprice]; rfl) ?_
      exact alone_step (env 0) rfl (alone_armRest now tokenCode _ b)
  exact hstops.trans (alone_step (env 0) rfl (alone_matchEach env _ _))

/-! ## One call after the other -/

/-- The book is `b`, and no thread is on its way. -/
structure Calls.Rests (s : Calls) (b : Book) : Prop where
  book : s.book = b
  threads : ∀ t ∈ s.threads, t = ⟨.finished, []⟩

theorem getElem?_last (ts : List Thread) (t : Thread) : (ts ++ [t])[ts.length]? = some t := by
  simp

/-- The last thread goes on alone. -/
theorem reaches_of_alone (ts : List Thread) (cancelled : List Nat) (h : Alone x y) :
    ∃ cancelled', Reaches callNext ⟨x.1, ts ++ [x.2], cancelled⟩
      ⟨y.1, ts ++ [y.2], cancelled'⟩ := by
  induction h using ReflTransGen.head_induction_on generalizing cancelled with
  | refl => exact ⟨cancelled, .refl _⟩
  | @head x z hstep _ ih =>
    obtain ⟨e, he⟩ := hstep
    have hnext : callNext ⟨x.1, ts ++ [x.2], cancelled⟩ (.operate ts.length e) =
        some ⟨z.1, ts ++ [z.2], cancelled ++ x.2.pc.cancels⟩ := by
      simp only [callNext, getElem?_last, he, Option.map_some]
      rw [List.set_append_right _ _ (Nat.le_refl _), Nat.sub_self]
      rfl
    obtain ⟨cancelled', hrest⟩ := @ih (cancelled ++ x.2.pc.cancels)
    exact ⟨cancelled', (reaches_of_next hnext).trans hrest⟩

/-- A call that nobody disturbs, from its start to its end. -/
theorem Calls.Rests.call {s : Calls} {b' : Book} {c : Call} (h : s.Rests b)
    (halone : Alone (b, c.start) (b', ⟨.finished, []⟩)) :
    ∃ t, Reaches callNext s t ∧ t.Rests b' := by
  obtain ⟨cancelled, hreach⟩ := reaches_of_alone s.threads s.cancelled halone
  have hcall : callNext s (.call c) = some ⟨b, s.threads ++ [c.start], s.cancelled⟩ := by
    rw [← h.book]
    rfl
  refine ⟨_, (reaches_of_next hcall).trans hreach, rfl, fun t ht => ?_⟩
  rcases List.mem_append.mp ht with ht | ht
  · exact h.threads t ht
  · exact List.mem_singleton.mp ht

theorem Calls.Rests.insert {s : Calls} (h : s.Rests b) (hnew : isNew b order = true) :
    ∃ t, Reaches callNext s t ∧ t.Rests (b.insert order) := by
  have hinsert : callNext s (.insert order) = some { s with book := s.book.insert order } := by
    rw [callNext, h.book, if_pos hnew]
  exact ⟨_, reaches_of_next hinsert, by rw [h.book], h.threads⟩

theorem Accepted.isNew {userId : Nat} {dto : CreateSecondaryOrderDto}
    (h : Accepted b userId dto order) : isNew b order = true :=
  decide_eq_true ⟨h.n, h.status, h.filled, h.amount, h.triggered⟩

/-- A call of the one model is a run of the other. -/
theorem Calls.Rests.next {s : Calls} {a : Action} {b' : Book} (h : s.Rests b)
    (hstep : next b a = some b') : ∃ t, Reaches callNext s t ∧ t.Rests b' := by
  cases a with
  | createOrder wallet userId dto now env =>
    simp only [OrderBook.next, Option.some.injEq, createOrder] at hstep
    cases haccept : acceptOrder wallet userId dto now b with
    | error e =>
      rw [haccept] at hstep
      exact ⟨s, .refl s, hstep ▸ h⟩
    | ok order =>
      rw [haccept] at hstep
      obtain ⟨u, hreach, hu⟩ := h.insert (accepted_of_acceptOrder haccept).isNew
      obtain ⟨t, hreach', ht⟩ := hu.call (c := .matchOrder order.id)
        (alone_matchOrder env order.id (b.insert order) [])
      exact ⟨t, hreach.trans hreach', hstep ▸ ht⟩
  | cancelOrder orderId userId =>
    obtain rfl := Option.some.inj hstep
    exact h.call (alone_cancelOrder ⟨0, true, fun _ => .rejected⟩ orderId userId b)
  | matchOrder orderId env =>
    obtain rfl := Option.some.inj hstep
    exact h.call (c := .matchOrder orderId) (alone_matchOrder env orderId b [])
  | matchOpenOrders tokenCode now env =>
    obtain rfl := Option.some.inj hstep
    exact h.call (alone_matchOpenOrders env tokenCode now b)

/-- The calls side by side can do whatever they do one after the other. -/
theorem interleaved_of_run {xs : List (Step Book Action)} (hrun : BookRun xs b) :
    ∃ s, Reaches callNext callStart s ∧ s.book = b ∧ ∀ t ∈ s.threads, t.pc = .finished := by
  have hstart : callStart.Rests start := ⟨rfl, fun t ht => absurd ht List.not_mem_nil⟩
  have hruns : ∃ s, Reaches callNext callStart s ∧ s.Rests b := by
    apply Run.invariant hrun (fun b => ∃ s, Reaches callNext callStart s ∧ s.Rests b)
      ⟨_, .refl _, hstart⟩
    intro x _ hstep h
    obtain ⟨s, hreach, hs⟩ := h
    obtain ⟨t, hreach', ht⟩ := hs.next hstep
    exact ⟨t, hreach.trans hreach', ht⟩
  obtain ⟨s, hreach, hrests⟩ := hruns
  exact ⟨s, hreach, hrests.book, fun t ht => by rw [hrests.threads t ht]⟩

/-- The book after two orders met, one call after the other. -/
def metBook : {b : Book // b.trades ≠ []} :=
  ⟨(replay OrderBook.next start twoAgainstThree).2, by decide +kernel⟩

theorem interleaved_of_run_sample :
    ∃ s, Reaches callNext callStart s ∧ s.book.trades ≠ [] ∧ ∀ t ∈ s.threads, t.pc = .finished := by
  have hrun : BookRun _ metBook.1 := run_replay OrderBook.next start twoAgainstThree
  obtain ⟨s, hreach, hbook, hthreads⟩ := interleaved_of_run hrun
  exact ⟨s, hreach, hbook ▸ metBook.2, hthreads⟩

end AgriFi.OrderBook
