import AgriFi.OrderBook.Calls
import AgriFi.OrderBook.Conservation

/-
  Calls that run side by side. Rows are saved whole as a call holds them and fills are settled on
  the rows as they were read, so that two calls can sell one order twice, and one can fill an order
  after its cancellation and write it back (`races_unsafe`).
  `interleaving_safe`: in a run in which every save and every settlement finds its rows as the
  call last read or saved them, and no settlement meets a fill that another call has settled and
  not saved, no order is oversold, filled after its cancellation or taken out of a terminal
  status. There a row's `filledAmount` and the fills of it that are not saved yet make up what is
  settled (`Tallied`).
-/

namespace AgriFi.OrderBook

open AgriFi.Runs AgriFi.Threads

variable {b b' : Book} {o o' order maker m : SecondaryOrder} {makers : List SecondaryOrder}
  {t t' : Thread} {e : MatchEnv} {todo : List OrderKey} {n amount : Nat}

/-! ## What a thread holds -/

/-- The row of the order is on the book, in whatever state. -/
def Known (b : Book) (o : SecondaryOrder) : Prop := ∃ r, b.HasRow r ∧ r.terms = o.terms

/-- A row that was on the book when it was read. -/
structure Held (b : Book) (o : SecondaryOrder) : Prop where
  known : Known b o
  resting : o.isResting

/-- Makers that were read for the order. -/
def MakersHeld (b : Book) (order : SecondaryOrder) (makers : List SecondaryOrder) : Prop :=
  ∀ m ∈ makers, Known b m ∧ Crossing order m

/-- What the thread's checks ensure of the rows that it holds. -/
def Pc.Ok (b : Book) : Pc → Prop
  | .getLastPrice order | .findCrossingMakers order | .saveExpired order | .saveArmed order
  | .saveKilled order | .saveCancelled order => Held b order
  | .settle order maker makers | .saveTaker order maker makers =>
    Known b order ∧ Known b maker ∧ Fillable order maker ∧ MakersHeld b order makers
  | .saveMaker order maker amount makers =>
    Known b order ∧ (qtyEpsilon < order.remaining → order.isResting) ∧ Held b maker ∧
      amount ≤ maker.remaining ∧ MakersHeld b order makers
  | .armNext _ order orders => ∀ o ∈ order :: orders, Held b o
  | _ => True

/-- What the thread has settled of row `n` and not saved. -/
def Pc.unsaved (n : Nat) : Pc → Nat
  | .saveTaker order maker _ =>
    if order.n = n ∨ maker.n = n then min order.remaining maker.remaining else 0
  | .saveMaker _ maker amount _ => if maker.n = n then amount else 0
  | _ => 0

def unsaved (threads : List Thread) (n : Nat) : Nat :=
  (threads.map fun t => t.pc.unsaved n).sum

/-- The row that the operation overwrites, as the thread last read or saved it. -/
def Pc.saves : Pc → List SecondaryOrder
  | .saveExpired order | .saveArmed order | .saveKilled order | .saveCancelled order
  | .saveTaker order _ _ | .armNext _ order _ => [order]
  | .saveMaker _ maker _ _ => [maker]
  | _ => []

/-- The two rows of the fill that the operation settles. -/
def Pc.settles (e : MatchEnv) : Pc → List SecondaryOrder
  | .settle order maker _ => if e.settle maker.n = .settled then [order, maker] else []
  | _ => []

theorem Known.of_terms (h : Known b o) (hterms : o'.terms = o.terms) : Known b o' := by
  obtain ⟨r, hr, ht⟩ := h
  exact ⟨r, hr, ht.trans hterms.symm⟩

theorem Book.HasRow.known (h : b.HasRow o) : Known b o := ⟨o, h, rfl⟩

theorem Indexed.held (hi : Indexed b) (hmem : o ∈ b.orders) (hr : o.isResting) : Held b o :=
  ⟨(hi.hasRow hmem).known, hr⟩

/-- Saving a row with the terms that it has keeps every row known. -/
theorem Known.save (h : Known b o) {before after : SecondaryOrder} (hb : Known b before)
    (hterms : after.terms = before.terms) : Known (b.save after) o := by
  obtain ⟨r, hr, ht⟩ := h
  by_cases hn : r.n = after.n
  · obtain ⟨r', hr', ht'⟩ := hb
    have hn' : r.n = r'.n := hn.trans ((n_eq_of_terms hterms).trans (n_eq_of_terms ht').symm)
    obtain rfl := hr.unique hr' hn'
    exact ⟨after, getElem?_save_self hr hn.symm, hterms.trans (ht'.symm.trans ht)⟩
  · exact ⟨r, (getElem?_save_of_ne hn).trans hr, ht⟩

theorem Known.insert (h : Known b o) (new : SecondaryOrder) : Known (b.insert new) o := by
  obtain ⟨r, hr, ht⟩ := h
  exact ⟨r, hr.insert new, ht⟩

/-- Opposing orders that are on the book are different rows. -/
theorem Opposing.ne_of_known (h : Opposing order maker) (ho : Known b order)
    (hm : Known b maker) : order.n ≠ maker.n := by
  obtain ⟨r, hr, hrterms⟩ := ho
  obtain ⟨r', hr', hrterms'⟩ := hm
  rw [← n_eq_of_terms hrterms, ← n_eq_of_terms hrterms']
  exact (h.of_terms hrterms hrterms').ne hr hr'

theorem Pc.Ok.mono {pc : Pc} (h : pc.Ok b) (hk : ∀ o, Known b o → Known b' o) : pc.Ok b' := by
  have hheld : ∀ o, Held b o → Held b' o := fun o ho => ⟨hk o ho.known, ho.resting⟩
  have hmakers : ∀ order makers, MakersHeld b order makers → MakersHeld b' order makers :=
    fun _ _ hms m hm => ⟨hk m (hms m hm).1, (hms m hm).2⟩
  cases pc with
  | getLastPrice | findCrossingMakers | saveExpired | saveArmed | saveKilled | saveCancelled =>
    exact hheld _ h
  | settle | saveTaker =>
    obtain ⟨ho, hm, hf, hms⟩ := h
    exact ⟨hk _ ho, hk _ hm, hf, hmakers _ _ hms⟩
  | saveMaker =>
    obtain ⟨ho, hopen, hm, ha, hms⟩ := h
    exact ⟨hk _ ho, hopen, hheld _ hm, ha, hmakers _ _ hms⟩
  | armNext => exact fun o ho => hheld o (h o ho)
  | _ => trivial

/-! ## Where it goes on -/

theorem nextFill_eq_some {maker : SecondaryOrder} {rest : List SecondaryOrder}
    (h : nextFill order makers = some (maker, rest)) :
    maker ∈ makers ∧ rest ⊆ makers ∧ qtyEpsilon < order.remaining ∧
      maker.userId ≠ order.userId ∧ qtyEpsilon < maker.remaining := by
  induction makers with
  | nil => simp [nextFill] at h
  | cons m makers ih =>
    rw [nextFill_cons] at h
    split at h
    · cases h
    · split at h
      · obtain ⟨hmem, hsub, hrest⟩ := ih h
        exact ⟨List.mem_cons_of_mem _ hmem, List.subset_cons_of_subset _ hsub, hrest⟩
      · next hopen hmaker =>
        obtain ⟨rfl, rfl⟩ := Prod.mk.inj (Option.some.inj h)
        obtain ⟨huser, hmaker⟩ := not_or.mp hmaker
        exact ⟨List.mem_cons_self .., List.subset_cons_self .., not_le.mp hopen, huser,
          not_le.mp hmaker⟩

theorem resume_ok (todo : List OrderKey) : (resume todo).pc.Ok b := by
  cases todo <;> trivial

@[simp] theorem resume_unsaved (todo : List OrderKey) (n : Nat) :
    (resume todo).pc.unsaved n = 0 := by
  cases todo <;> rfl

theorem fillNext_ok (hk : Known b order) (hopen : qtyEpsilon < order.remaining → order.isResting)
    (hms : MakersHeld b order makers) (todo : List OrderKey) :
    (fillNext order makers todo).pc.Ok b := by
  unfold fillNext
  split
  · exact resume_ok todo
  · next maker rest hnext =>
    obtain ⟨hmem, hsub, hrem, huser, hmaker⟩ := nextFill_eq_some hnext
    obtain ⟨hm, hcross⟩ := hms maker hmem
    exact ⟨hk, hm, ⟨hcross, huser, hopen hrem, hrem, hmaker⟩, fun m hm => hms m (hsub hm)⟩

@[simp] theorem fillNext_unsaved (order : SecondaryOrder) (makers : List SecondaryOrder)
    (todo : List OrderKey) (n : Nat) : (fillNext order makers todo).pc.unsaved n = 0 := by
  unfold fillNext
  split
  · exact resume_unsaved todo n
  · rfl

theorem opened_ok (hk : Known b order) (now : Nat) (todo : List OrderKey) :
    (opened now order todo).pc.Ok b := by
  unfold opened
  split
  · exact resume_ok todo
  · next hlive =>
    have hheld : Held b order := ⟨hk, isResting_iff.mpr hlive⟩
    split
    · exact hheld
    · split
      · exact hheld
      · exact hheld

@[simp] theorem opened_unsaved (now : Nat) (order : SecondaryOrder) (todo : List OrderKey)
    (n : Nat) : (opened now order todo).pc.unsaved n = 0 := by
  unfold opened
  split
  · exact resume_unsaved todo n
  · split
    · rfl
    · split <;> rfl

theorem probed_ok (hh : Held b order) (hms : MakersHeld b order makers) (todo : List OrderKey) :
    (probed order makers todo).pc.Ok b := by
  unfold probed
  split
  · exact hh
  · exact fillNext_ok hh.known (fun _ => hh.resting) hms todo

@[simp] theorem probed_unsaved (order : SecondaryOrder) (makers : List SecondaryOrder)
    (todo : List OrderKey) (n : Nat) : (probed order makers todo).pc.unsaved n = 0 := by
  unfold probed
  split
  · rfl
  · exact fillNext_unsaved order makers todo n

theorem armRest_ok {tokenCode : String} {orders : List SecondaryOrder}
    (h : ∀ o ∈ orders, Held b o) : (armRest tokenCode orders).Ok b := by
  cases orders with
  | nil => trivial
  | cons order orders => exact h

@[simp] theorem armRest_unsaved (tokenCode : String) (orders : List SecondaryOrder) (n : Nat) :
    (armRest tokenCode orders).unsaved n = 0 := by
  cases orders <;> rfl

theorem Indexed.makersHeld (hi : Indexed b) (now : Nat) (order : SecondaryOrder) :
    MakersHeld b order (b.findCrossingMakers now order) := by
  intro m hm
  obtain ⟨hmem, hcross⟩ := mem_findCrossingMakers.mp hm
  exact ⟨(hi.hasRow hmem).known, crossing_of_isCrossingMaker hcross⟩

/-! ## What an operation does -/

/-- An operation reads, saves one row, or ends a settlement. -/
inductive Effect (e : MatchEnv) (b : Book) (pc : Pc) : Book → Pc → Prop
  | read {pc' : Pc} (h : ∀ n, pc.unsaved n = 0) (h' : ∀ n, pc'.unsaved n = 0)
      (hcancels : pc.cancels = []) : Effect e b pc b pc'
  | save {pc' : Pc} {before after : SecondaryOrder} {amount : Nat} (hsaves : pc.saves = [before])
      (hknown : Known b before) (hr : before.isResting) (hterms : after.terms = before.terms)
      (hfilled : after.filledAmount = before.filledAmount + amount)
      (hunsaved : ∀ n, pc.unsaved n = pc'.unsaved n + if before.n = n then amount else 0)
      (hcancels : pc.cancels = [] ∨ pc.cancels = [before.n] ∧ after.status = .cancelled) :
      Effect e b pc (b.save after) pc'
  | pend {pc' : Pc} {order maker : SecondaryOrder} {amount : Nat} (ho : Known b order)
      (hm : Known b maker) (h : ∀ n, pc.unsaved n = 0) (h' : ∀ n, pc'.unsaved n = 0)
      (hcancels : pc.cancels = []) :
      Effect e b pc (b.addTrade (fillTrade order maker amount .pending)) pc'
  | settle {order maker : SecondaryOrder} {makers : List SecondaryOrder} (ho : Known b order)
      (hm : Known b maker) (hf : Fillable order maker) (hpc : pc = .settle order maker makers)
      (hsettles : pc.settles e = [order, maker]) :
      Effect e b pc
        (b.addTrade (fillTrade order maker (min order.remaining maker.remaining) .settled))
        (.saveTaker order maker makers)

theorem Held.save (h : Held b o) {before after : SecondaryOrder} (hb : Known b before)
    (hterms : after.terms = before.terms) : Held (b.save after) o :=
  ⟨h.known.save hb hterms, h.resting⟩

theorem MakersHeld.save (h : MakersHeld b order makers) {before after : SecondaryOrder}
    (hb : Known b before) (hterms : after.terms = before.terms) :
    MakersHeld (b.save after) order makers :=
  fun m hm => ⟨(h m hm).1.save hb hterms, (h m hm).2⟩

theorem MakersHeld.fill (h : MakersHeld b order makers) (amount : Nat) :
    MakersHeld b (order.fill amount) makers := by
  intro m hm
  obtain ⟨hk, hcross⟩ := h m hm
  exact ⟨hk, ⟨hcross.token, hcross.side, hcross.crossing⟩, hcross.resting, hcross.live⟩

/-- A save that changes only the status or the trigger of a resting row. -/
theorem Effect.status {pc pc' : Pc} {before after : SecondaryOrder} (hsaves : pc.saves = [before])
    (hh : Held b before) (hterms : after.terms = before.terms)
    (hfilled : after.filledAmount = before.filledAmount) (h : ∀ n, pc.unsaved n = 0)
    (h' : ∀ n, pc'.unsaved n = 0)
    (hcancels : pc.cancels = [] ∨ pc.cancels = [before.n] ∧ after.status = .cancelled) :
    Effect e b pc (b.save after) pc' := by
  have hunsaved : ∀ n, pc.unsaved n = pc'.unsaved n + if before.n = n then 0 else 0 := by
    intro n
    rw [h n, h' n, ite_self]
  have hfilled : after.filledAmount = before.filledAmount + 0 := hfilled
  exact .save hsaves hh.known hh.resting hterms hfilled hunsaved hcancels

/-- An operation that ends its match without a write. -/
theorem effect_resume {pc : Pc} (h : ∀ n, pc.unsaved n = 0) (hcancels : pc.cancels = [])
    (todo : List OrderKey) : Effect e b pc b (resume todo).pc ∧ (resume todo).pc.Ok b :=
  ⟨.read h (resume_unsaved todo) hcancels, resume_ok todo⟩

theorem Thread.step_effect (hi : Indexed b) (hok : t.pc.Ok b) (h : t.step e b = some (b', t')) :
    Effect e b t.pc b' t'.pc ∧ t'.pc.Ok b' := by
  obtain ⟨pc, todo⟩ := t
  cases pc with
  | getOrder orderId =>
    unfold Thread.step at h
    dsimp only at h
    split at h
    · obtain ⟨rfl, rfl⟩ := Prod.mk.inj (Option.some.inj h)
      exact effect_resume (fun _ => rfl) rfl todo
    · next order hget =>
      obtain ⟨rfl, rfl⟩ := Prod.mk.inj (Option.some.inj h)
      have hknown := (hi.getOrder_eq_some.mp hget).1.known
      exact ⟨.read (fun _ => rfl) (opened_unsaved _ _ _) rfl, opened_ok hknown _ _⟩
  | getLastPrice order =>
    unfold Thread.step at h
    dsimp only at h
    split at h
    · obtain ⟨rfl, rfl⟩ := Prod.mk.inj (Option.some.inj h)
      exact ⟨.read (fun _ => rfl) (fun _ => rfl) rfl, hok⟩
    · obtain ⟨rfl, rfl⟩ := Prod.mk.inj (Option.some.inj h)
      exact effect_resume (fun _ => rfl) rfl todo
  | findCrossingMakers order =>
    unfold Thread.step at h
    dsimp only at h
    split at h
    · obtain ⟨rfl, rfl⟩ := Prod.mk.inj (Option.some.inj h)
      exact effect_resume (fun _ => rfl) rfl todo
    · obtain ⟨rfl, rfl⟩ := Prod.mk.inj (Option.some.inj h)
      exact ⟨.read (fun _ => rfl) (probed_unsaved _ _ _) rfl,
        probed_ok hok (hi.makersHeld _ _) _⟩
  | saveExpired order =>
    obtain ⟨rfl, rfl⟩ := Prod.mk.inj (Option.some.inj h)
    exact ⟨.status rfl hok rfl rfl (fun _ => rfl) (resume_unsaved _) (.inl rfl), resume_ok _⟩
  | saveArmed order =>
    obtain ⟨rfl, rfl⟩ := Prod.mk.inj (Option.some.inj h)
    have hk : Known (b.save (order.arm e.now)) order := Known.save (Held.known hok) hok.known rfl
    exact ⟨.status rfl hok rfl rfl (fun _ => rfl) (fun _ => rfl) (.inl rfl), hk.of_terms rfl, rfl⟩
  | saveKilled order =>
    obtain ⟨rfl, rfl⟩ := Prod.mk.inj (Option.some.inj h)
    exact ⟨.status rfl hok rfl rfl (fun _ => rfl) (resume_unsaved _) (.inl rfl), resume_ok _⟩
  | settle order maker makers =>
    obtain ⟨ho, hm, hf, hms⟩ := hok
    unfold Thread.step at h
    dsimp only at h
    split at h
    · next hsettled =>
      obtain ⟨rfl, rfl⟩ := Prod.mk.inj (Option.some.inj h)
      exact ⟨.settle ho hm hf rfl (if_pos hsettled), ho, hm, hf, hms⟩
    · obtain ⟨rfl, rfl⟩ := Prod.mk.inj (Option.some.inj h)
      exact ⟨.pend ho hm (fun _ => rfl) (resume_unsaved _) rfl, resume_ok _⟩
    · obtain ⟨rfl, rfl⟩ := Prod.mk.inj (Option.some.inj h)
      exact effect_resume (fun _ => rfl) rfl todo
  | saveTaker order maker makers =>
    obtain ⟨ho, hm, hf, hms⟩ := hok
    obtain ⟨rfl, rfl⟩ := Prod.mk.inj (Option.some.inj h)
    have hne := hf.ne_of_known ho hm
    refine ⟨.save rfl ho hf.takerResting rfl rfl (fun n => ?_) (.inl rfl), ?_⟩
    · simp only [Pc.unsaved]
      split <;> split <;> split <;> omega
    · have hk : Known (b.save (order.fill (min order.remaining maker.remaining))) order :=
        ho.save ho rfl
      have hmaker : Held b maker := ⟨hm, hf.resting⟩
      exact ⟨hk.of_terms rfl, resting_fill, hmaker.save ho rfl, Nat.min_le_right ..,
        (hms.fill _).save ho rfl⟩
  | saveMaker order maker amount makers =>
    obtain ⟨ho, hopen, hm, ha, hms⟩ := hok
    obtain ⟨rfl, rfl⟩ := Prod.mk.inj (Option.some.inj h)
    refine ⟨.save rfl hm.known hm.resting rfl rfl (fun n => ?_) (.inl rfl), ?_⟩
    · rw [fillNext_unsaved, Nat.zero_add]
      rfl
    · have hk : Known (b.save (maker.fill amount)) order := ho.save hm.known rfl
      exact fillNext_ok hk hopen (hms.save hm.known rfl) _
  | getCancelled orderId userId =>
    unfold Thread.step at h
    dsimp only at h
    split at h
    · obtain ⟨rfl, rfl⟩ := Prod.mk.inj (Option.some.inj h)
      exact effect_resume (fun _ => rfl) rfl todo
    · next order hget =>
      split at h
      · obtain ⟨rfl, rfl⟩ := Prod.mk.inj (Option.some.inj h)
        exact effect_resume (fun _ => rfl) rfl todo
      · next hown =>
        obtain ⟨rfl, rfl⟩ := Prod.mk.inj (Option.some.inj h)
        have hknown := (hi.getOrder_eq_some.mp hget).1.known
        have hr := (not_or.mp hown).2
        exact ⟨.read (fun _ => rfl) (fun _ => rfl) rfl, hknown, by simpa using hr⟩
  | saveCancelled order =>
    obtain ⟨rfl, rfl⟩ := Prod.mk.inj (Option.some.inj h)
    exact ⟨.status rfl hok rfl rfl (fun _ => rfl) (resume_unsaved _) (.inr ⟨rfl, rfl⟩),
      resume_ok _⟩
  | getMarketPrice tokenCode =>
    unfold Thread.step at h
    dsimp only at h
    split at h
    · obtain ⟨rfl, rfl⟩ := Prod.mk.inj (Option.some.inj h)
      exact ⟨.read (fun _ => rfl) (fun _ => rfl) rfl, trivial⟩
    · obtain ⟨rfl, rfl⟩ := Prod.mk.inj (Option.some.inj h)
      exact ⟨.read (fun _ => rfl) (fun _ => rfl) rfl, trivial⟩
  | findDormant tokenCode marketPrice =>
    obtain ⟨rfl, rfl⟩ := Prod.mk.inj (Option.some.inj h)
    refine ⟨.read (fun _ => rfl) (armRest_unsaved _ _) rfl, armRest_ok fun o ho => ?_⟩
    obtain ⟨hmem, harmed⟩ := List.mem_filter.mp ho
    simp only [armedByPrice, decide_eq_true_eq] at harmed
    exact hi.held hmem (by simp [SecondaryOrder.isResting, harmed.2.2.1])
  | armNext tokenCode order orders =>
    obtain ⟨rfl, rfl⟩ := Prod.mk.inj (Option.some.inj h)
    have hh : Held b order := hok order (List.mem_cons_self ..)
    refine ⟨.status rfl hh rfl rfl (fun _ => rfl) (armRest_unsaved _ _) (.inl rfl),
      armRest_ok fun o ho => ?_⟩
    exact (hok o (List.mem_cons_of_mem _ ho)).save hh.known rfl
  | findResting tokenCode =>
    obtain ⟨rfl, rfl⟩ := Prod.mk.inj (Option.some.inj h)
    exact effect_resume (fun _ => rfl) rfl _
  | finished => cases h

/-! ## The tally -/

/-- The operation finds its rows as the thread last read or saved them, and settles no fill of an
    order of which another fill is settled and not saved. -/
def Undisturbed (x : Step Calls CallAction) : Prop :=
  match x.act with
  | .operate w e =>
    ∀ t ∈ x.pre.threads[w]?, (∀ o ∈ t.pc.saves ++ t.pc.settles e, x.pre.book.HasRow o) ∧
      ∀ o ∈ t.pc.settles e, unsaved x.pre.threads o.n = 0
  | _ => True

structure Tallied (s : Calls) : Prop where
  indexed : Indexed s.book
  threads : ∀ t ∈ s.threads, t.pc.Ok s.book
  rows : ∀ ⦃r : SecondaryOrder⦄, s.book.HasRow r →
    r.filledAmount + unsaved s.threads r.n = settledAmount s.book r.n ∧
      settledAmount s.book r.n ≤ r.tokenAmount
  named : ∀ t ∈ s.book.trades,
    t.takerOrder < s.book.orders.length ∧ t.makerOrder < s.book.orders.length
  cancelled : ∀ n ∈ s.cancelled, ∃ r, s.book.HasRow r ∧ r.n = n ∧ r.status = .cancelled

variable {s s' : Calls} {w : Nat}

theorem Known.lt (h : Known b o) : o.n < b.orders.length := by
  obtain ⟨r, hr, hterms⟩ := h
  rw [← n_eq_of_terms hterms]
  exact hr.lt

/-- A row that is resting is not cancelled. -/
theorem Tallied.not_cancelled (hs : Tallied s) (ho : s.book.HasRow o) (hr : o.isResting) :
    o.n ∉ s.cancelled := by
  intro hmem
  obtain ⟨r, hrow, hn, hstatus⟩ := hs.cancelled _ hmem
  obtain rfl := hrow.unique ho hn
  simp [SecondaryOrder.isResting, hstatus] at hr

theorem unsaved_set (ht : s.threads[w]? = some t) (t' : Thread) (n : Nat) :
    unsaved (s.threads.set w t') n + t.pc.unsaved n = unsaved s.threads n + t'.pc.unsaved n :=
  sum_map_set ht

theorem threads_ok (hs : Tallied s) (hok : t'.pc.Ok b') (hk : ∀ o, Known s.book o → Known b' o)
    (w : Nat) : ∀ t ∈ s.threads.set w t', t.pc.Ok b' :=
  forall_mem_set (others_of_forall fun t ht => (hs.threads t ht).mono hk) hok

theorem Tallied.save (hs : Tallied s) (ht : s.threads[w]? = some t) {before after : SecondaryOrder}
    (hrow : s.book.HasRow before) (hr : before.isResting) (hterms : after.terms = before.terms)
    (hfilled : after.filledAmount = before.filledAmount + amount)
    (hunsaved : ∀ n, t.pc.unsaved n = t'.pc.unsaved n + if before.n = n then amount else 0)
    (hcancels : t.pc.cancels = [] ∨ t.pc.cancels = [before.n] ∧ after.status = .cancelled)
    (hok : t'.pc.Ok (s.book.save after)) :
    Tallied ⟨s.book.save after, s.threads.set w t', s.cancelled ++ t.pc.cancels⟩ := by
  have hn := n_eq_of_terms hterms
  have hafter : (s.book.save after).HasRow after := getElem?_save_self hrow hn
  constructor
  case indexed => exact hs.indexed.save _
  case threads => exact threads_ok hs hok (fun o ho => ho.save hrow.known hterms) w
  case rows =>
    intro r hr
    have hset := unsaved_set ht t' r.n
    rw [hunsaved] at hset
    show r.filledAmount + unsaved (s.threads.set w t') r.n = settledAmount s.book r.n ∧
      settledAmount s.book r.n ≤ r.tokenAmount
    rcases getElem?_save_cases hr with ⟨_, rfl⟩ | ⟨hne, hr⟩
    · obtain ⟨htally, hle⟩ := hs.rows hrow
      rw [if_pos hn.symm, hn] at hset
      rw [tokenAmount_eq_of_terms hterms, hn]
      omega
    · obtain ⟨htally, hle⟩ := hs.rows hr
      rw [if_neg (by omega)] at hset
      omega
  case named =>
    intro trade htrade
    have hlength : (s.book.save after).orders.length = s.book.orders.length := List.length_set
    rw [hlength]
    exact hs.named trade htrade
  case cancelled =>
    intro n hmem
    rcases List.mem_append.mp hmem with hold | hnew
    · obtain ⟨r, hr', hrn, hstatus⟩ := hs.cancelled n hold
      have hne : r.n ≠ after.n := by
        intro heq
        obtain rfl := hr'.unique hrow (heq.trans hn)
        exact hs.not_cancelled hrow hr (hrn ▸ hold)
      exact ⟨r, (getElem?_save_of_ne hne).trans hr', hrn, hstatus⟩
    · rcases hcancels with hnone | ⟨hone, hstatus⟩
      · simp [hnone] at hnew
      · rw [hone, List.mem_singleton] at hnew
        exact ⟨after, hafter, hn.trans hnew.symm, hstatus⟩

/-- A trade that is listed, with what it makes of the tally of each row. -/
theorem Tallied.addTrade {trade : SecondaryTrade} (hs : Tallied s)
    (htaker : trade.takerOrder < s.book.orders.length)
    (hmaker : trade.makerOrder < s.book.orders.length) (hcancels : t.pc.cancels = [])
    (hok : t'.pc.Ok s.book)
    (hrows : ∀ r, s.book.HasRow r →
      r.filledAmount + unsaved (s.threads.set w t') r.n =
          settledAmount (s.book.addTrade trade) r.n ∧
        settledAmount (s.book.addTrade trade) r.n ≤ r.tokenAmount) :
    Tallied ⟨s.book.addTrade trade, s.threads.set w t', s.cancelled ++ t.pc.cancels⟩ := by
  have hok : t'.pc.Ok (s.book.addTrade trade) := hok.mono fun _ h => h
  constructor
  case indexed => exact hs.indexed.addTrade _
  case threads => exact threads_ok hs hok (fun o ho => ho) w
  case rows => exact hrows
  case named =>
    intro trade' htrade
    rcases List.mem_append.mp htrade with hold | hnew
    · exact hs.named trade' hold
    · obtain rfl := List.mem_singleton.mp hnew
      exact ⟨htaker, hmaker⟩
  case cancelled =>
    rw [hcancels, List.append_nil]
    exact hs.cancelled

theorem Tallied.settle (hs : Tallied s) (ht : s.threads[w]? = some t)
    (hpc : t.pc = .settle order maker makers) (hf : Fillable order maker)
    (hrow : s.book.HasRow order) (hrow' : s.book.HasRow maker)
    (hclear : unsaved s.threads order.n = 0) (hclear' : unsaved s.threads maker.n = 0)
    (hpc' : t'.pc = .saveTaker order maker makers) (hok : t'.pc.Ok s.book) :
    Tallied ⟨s.book.addTrade
        (fillTrade order maker (min order.remaining maker.remaining) .settled),
      s.threads.set w t', s.cancelled ++ t.pc.cancels⟩ := by
  have hopen := hf.takerOpen
  have hopen' := hf.makerOpen
  refine hs.addTrade hrow.known.lt hrow'.known.lt (by rw [hpc]; rfl) hok fun r hr => ?_
  obtain ⟨htally, hle⟩ := hs.rows hr
  have hset := unsaved_set ht t' r.n
  rw [hpc, hpc'] at hset
  rw [settledAmount_settle]
  simp only [Pc.unsaved] at hset
  by_cases hnamed : order.n = r.n ∨ maker.n = r.n
  · rw [if_pos hnamed] at hset ⊢
    unfold SecondaryOrder.remaining at *
    rcases hnamed with hn | hn
    · obtain rfl := hrow.unique hr hn
      omega
    · obtain rfl := hrow'.unique hr hn
      omega
  · rw [if_neg hnamed] at hset ⊢
    omega

theorem Tallied.operate (hs : Tallied s) (ht : s.threads[w]? = some t)
    (hstep : t.step e s.book = some (b', t'))
    (hrows : ∀ o ∈ t.pc.saves ++ t.pc.settles e, s.book.HasRow o)
    (hclear : ∀ o ∈ t.pc.settles e, unsaved s.threads o.n = 0) :
    Tallied ⟨b', s.threads.set w t', s.cancelled ++ t.pc.cancels⟩ := by
  obtain ⟨heffect, hok⟩ :=
    Thread.step_effect hs.indexed (hs.threads t (List.mem_of_getElem? ht)) hstep
  generalize hpc' : t'.pc = pc' at heffect
  cases heffect with
  | read h h' hcancels =>
    subst hpc'
    rw [hcancels, List.append_nil]
    refine ⟨hs.indexed, threads_ok hs hok (fun o ho => ho) w, fun r hr => ?_, hs.named,
      hs.cancelled⟩
    have hset := unsaved_set ht t' r.n
    rw [h, h'] at hset
    have hrow := hs.rows hr
    show r.filledAmount + unsaved (s.threads.set w t') r.n = settledAmount s.book r.n ∧
      settledAmount s.book r.n ≤ r.tokenAmount
    omega
  | save hsaves hknown hr hterms hfilled hunsaved hcancels =>
    subst hpc'
    have hrow := hrows _ (List.mem_append_left _ (hsaves ▸ List.mem_singleton_self _))
    exact hs.save ht hrow hr hterms hfilled hunsaved hcancels hok
  | pend ho hm h h' hcancels =>
    subst hpc'
    refine hs.addTrade ho.lt hm.lt hcancels (hok.mono fun _ h => h) fun r hr => ?_
    have hset := unsaved_set ht t' r.n
    rw [h, h'] at hset
    have hrow := hs.rows hr
    rw [settledAmount_addTrade_pending rfl]
    omega
  | settle ho hm hf hpc hsettles =>
    rw [hsettles] at hrows hclear
    have hrow := hrows _ (List.mem_append_right _ (List.mem_cons_self ..))
    have hrow' := hrows _ (List.mem_append_right _ (List.mem_cons_of_mem _ (List.mem_cons_self ..)))
    exact hs.settle ht hpc hf hrow hrow' (hclear _ (List.mem_cons_self ..))
      (hclear _ (List.mem_cons_of_mem _ (List.mem_cons_self ..))) hpc' (hok.mono fun _ h => h)

/-- A thread has settled nothing of a row that is not there. -/
theorem Pc.Ok.unsaved_eq_zero {pc : Pc} (h : pc.Ok b) (hn : b.orders.length ≤ n) :
    pc.unsaved n = 0 := by
  cases pc with
  | saveTaker order maker =>
    have ho := h.1.lt
    have hm := h.2.1.lt
    exact if_neg (by omega)
  | saveMaker order maker =>
    have hm := h.2.2.1.known.lt
    exact if_neg (by omega)
  | _ => rfl

theorem Tallied.unsaved_new (hs : Tallied s) (hn : s.book.orders.length ≤ n) :
    unsaved s.threads n = 0 := by
  apply List.sum_eq_zero
  intro k hk
  obtain ⟨t, ht, rfl⟩ := List.mem_map.mp hk
  exact (hs.threads t ht).unsaved_eq_zero hn

theorem Tallied.insert (hs : Tallied s) (hnew : isNew s.book order) :
    Tallied { s with book := s.book.insert order } := by
  simp only [isNew, decide_eq_true_eq] at hnew
  obtain ⟨hn, _, hfilled, hamount, _⟩ := hnew
  have hlength : (s.book.insert order).orders.length = s.book.orders.length + 1 :=
    List.length_append
  constructor
  case indexed => exact hs.indexed.insert hn
  case threads => exact fun t ht => (hs.threads t ht).mono fun o ho => ho.insert order
  case rows =>
    intro r hr
    show r.filledAmount + unsaved s.threads r.n = settledAmount s.book r.n ∧
      settledAmount s.book r.n ≤ r.tokenAmount
    rcases getElem?_append_cases hr with hr | rfl
    · exact hs.rows hr
    · have hunsaved := hs.unsaved_new (n := r.n) (by omega)
      have hsettled : settledAmount s.book r.n = 0 := by
        apply settledAmount_eq_zero
        intro t ht
        have hnamed := hs.named t ht
        omega
      omega
  case named =>
    intro t ht
    have hnamed := hs.named t ht
    show t.takerOrder < (s.book.insert order).orders.length ∧
      t.makerOrder < (s.book.insert order).orders.length
    omega
  case cancelled =>
    intro n hmem
    obtain ⟨r, hr, hrn, hstatus⟩ := hs.cancelled n hmem
    exact ⟨r, hr.insert order, hrn, hstatus⟩

theorem Tallied.call (hs : Tallied s) (c : Call) :
    Tallied { s with threads := s.threads ++ [c.start] } := by
  have hstart : c.start.pc.Ok s.book ∧ ∀ n, c.start.pc.unsaved n = 0 := by
    cases c <;> exact ⟨trivial, fun _ => rfl⟩
  refine ⟨hs.indexed, forall_mem_append hs.threads hstart.1, fun r hr => ?_, hs.named,
    hs.cancelled⟩
  have hsame : unsaved (s.threads ++ [c.start]) r.n = unsaved s.threads r.n := by
    simp [unsaved, hstart.2]
  show r.filledAmount + unsaved (s.threads ++ [c.start]) r.n = settledAmount s.book r.n ∧
    settledAmount s.book r.n ≤ r.tokenAmount
  rw [hsame]
  exact hs.rows hr

/-- An operation, with the thread that makes it. -/
theorem operate_eq_some (h : callNext s (.operate w e) = some s') :
    ∃ t b' t', s.threads[w]? = some t ∧ t.step e s.book = some (b', t') ∧
      s' = ⟨b', s.threads.set w t', s.cancelled ++ t.pc.cancels⟩ := by
  unfold callNext at h
  dsimp only at h
  split at h
  · cases h
  · next t ht =>
    obtain ⟨⟨b', t'⟩, hstep, rfl⟩ := Option.map_eq_some_iff.mp h
    exact ⟨t, b', t', ht, hstep, rfl⟩

theorem Tallied.step {x : Step Calls CallAction} (hs : Tallied x.pre)
    (hx : callNext x.pre x.act = some x.post) (hu : Undisturbed x) : Tallied x.post := by
  obtain ⟨pre, act, post⟩ := x
  dsimp only at hs hx ⊢
  cases act with
  | insert order =>
    unfold callNext at hx
    dsimp only at hx
    split at hx
    · next hnew =>
      obtain rfl := Option.some.inj hx
      exact hs.insert hnew
    · cases hx
  | call c =>
    obtain rfl := Option.some.inj hx
    exact hs.call c
  | operate w e =>
    obtain ⟨t, b', t', ht, hstep, rfl⟩ := operate_eq_some hx
    obtain ⟨hrows, hclear⟩ := hu t ht
    exact hs.operate ht hstep hrows hclear

theorem tallied_start : Tallied callStart := by
  constructor
  case indexed => exact indexed_start
  case threads =>
    intro t ht
    simp [callStart] at ht
  case rows =>
    intro r hr
    simp [callStart, start, Book.HasRow] at hr
  case named =>
    intro t ht
    simp [callStart, start] at ht
  case cancelled =>
    intro n hn
    simp [callStart] at hn

/-! ## Safety -/

/-- The step leaves no order oversold, fills none whose cancellation has succeeded, and takes none
    out of a terminal status. -/
structure SafeStep (x : Step Calls CallAction) : Prop where
  bounded : ∀ o ∈ x.post.book.orders, settledAmount x.post.book o.n ≤ o.tokenAmount
  uncancelled : ∀ t ∈ x.post.book.trades.drop x.pre.book.trades.length, t.status = .settled →
    t.takerOrder ∉ x.pre.cancelled ∧ t.makerOrder ∉ x.pre.cancelled
  terminal : ∀ o o', x.pre.book.HasRow o → x.post.book.HasRow o' → o'.n = o.n → o.isTerminal →
    o'.status = o.status

/-- An operation that finds its rows takes no row out of a terminal status. -/
theorem Effect.status_eq {pc pc' : Pc} (h : Effect e b pc b' pc')
    (hrows : ∀ o ∈ pc.saves, b.HasRow o) (ho : b.HasRow o) (ho' : b'.HasRow o')
    (hn : o'.n = o.n) (hterminal : o.isTerminal) : o'.status = o.status := by
  have hsame : b.HasRow o' → o'.status = o.status := by
    intro ho'
    rw [ho'.unique ho hn]
  cases h with
  | read => exact hsame ho'
  | @save pc' before after amount hsaves hknown hr hterms =>
    have hrow := hrows before (hsaves ▸ List.mem_singleton_self _)
    rcases getElem?_save_cases ho' with ⟨_, rfl⟩ | ⟨_, ho'⟩
    · obtain rfl := ho.unique hrow (hn.symm.trans (n_eq_of_terms hterms))
      exact absurd hterminal (isResting_iff.mp hr)
    · exact hsame ho'
  | pend => exact hsame ho'
  | settle => exact hsame ho'

/-- The settled trade that an operation adds is between the rows that it settles. -/
theorem Effect.new_trade {pc pc' : Pc} (h : Effect e b pc b' pc') {trade : SecondaryTrade}
    (ht : trade ∈ b'.trades.drop b.trades.length) (hsettled : trade.status = .settled) :
    ∃ order maker, pc.settles e = [order, maker] ∧ trade.takerOrder = order.n ∧
      trade.makerOrder = maker.n ∧ order.isResting ∧ maker.isResting := by
  cases h with
  | read => simp at ht
  | save => simp at ht
  | pend =>
    have hnew := ht
    rw [Book.addTrade, List.drop_left, List.mem_singleton] at hnew
    subst hnew
    cases hsettled
  | @settle order maker makers ho hm hf hpc hsettles =>
    have hnew := ht
    rw [Book.addTrade, List.drop_left, List.mem_singleton] at hnew
    subst hnew
    exact ⟨order, maker, hsettles, rfl, rfl, hf.takerResting, hf.resting⟩

theorem Tallied.safe {x : Step Calls CallAction} (hs : Tallied x.pre)
    (hx : callNext x.pre x.act = some x.post) (hu : Undisturbed x) : SafeStep x := by
  have hpost := hs.step hx hu
  have hbounded : ∀ o ∈ x.post.book.orders, settledAmount x.post.book o.n ≤ o.tokenAmount :=
    fun o ho => (hpost.rows (hpost.indexed.hasRow ho)).2
  obtain ⟨pre, act, post⟩ := x
  dsimp only at hs hx hbounded
  cases act with
  | insert order =>
    unfold callNext at hx
    dsimp only at hx
    split at hx
    · obtain rfl := Option.some.inj hx
      refine ⟨hbounded, fun t ht => ?_, fun o o' ho ho' hn _ => ?_⟩
      · simp [Book.insert] at ht
      · rw [Book.HasRow.unique ho' (Book.HasRow.insert ho order) hn]
    · cases hx
  | call c =>
    obtain rfl := Option.some.inj hx
    refine ⟨hbounded, fun t ht => ?_, fun o o' ho ho' hn _ => ?_⟩
    · simp at ht
    · rw [Book.HasRow.unique ho' ho hn]
  | operate w e =>
    obtain ⟨t, b', t', ht, hstep, rfl⟩ := operate_eq_some hx
    obtain ⟨hrows, _⟩ := hu t ht
    have heffect :=
      (Thread.step_effect hs.indexed (hs.threads t (List.mem_of_getElem? ht)) hstep).1
    have hsaved := fun o ho => hrows o (List.mem_append_left _ ho)
    refine ⟨hbounded, fun trade htrade hsettled => ?_, fun o o' ho ho' hn hterminal => ?_⟩
    · obtain ⟨order, maker, hsettles, htaker, hmaker, hr, hr'⟩ :=
        heffect.new_trade htrade hsettled
      have hrow := fun o ho => hrows o (List.mem_append_right _ ho)
      rw [hsettles] at hrow
      rw [htaker, hmaker]
      exact ⟨hs.not_cancelled (hrow order (by simp)) hr,
        hs.not_cancelled (hrow maker (by simp)) hr'⟩
    · exact heffect.status_eq hsaved ho ho' hn hterminal

instance : DecidablePred Undisturbed
  | ⟨pre, .operate w e, _⟩ =>
    inferInstanceAs (Decidable (∀ t ∈ pre.threads[w]?,
      (∀ o ∈ t.pc.saves ++ t.pc.settles e, pre.book.HasRow o) ∧
        ∀ o ∈ t.pc.settles e, unsaved pre.threads o.n = 0))
  | ⟨_, .insert _, _⟩ => isTrue trivial
  | ⟨_, .call _, _⟩ => isTrue trivial

/-- Row `n`: an order of user `n` for ten units at one US dollar a token. -/
def tenAtOne (n : Nat) (side : Side) : SecondaryOrder :=
  ⟨n, n, none, side, .limit, "COCOA", 10, 0, 10 ^ 7, none, none, .opened, none, none, n⟩

/-- A sell order, two buy orders, and a match of each buy order. -/
def twoMatches : List CallAction :=
  [.insert (tenAtOne 0 .sell), .insert (tenAtOne 1 .buy), .insert (tenAtOne 2 .buy),
    .call (.matchOrder (.sord 1)), .call (.matchOrder (.sord 2))]

/-- The next operation of thread `w`. -/
def op (w : Nat) : CallAction := .operate w ⟨9, true, fun _ => .settled⟩

/-- The second match begins when the first has ended. -/
def inTurn : List CallAction :=
  twoMatches ++ [op 0, op 0, op 0, op 0, op 0, op 1, op 1]

/-- Both matches read the seller's order before either saves it. -/
def atOnce : List CallAction := twoMatches ++ [op 0, op 0, op 1, op 1, op 0, op 1]

/-- The seller's order is cancelled after the first match has read it. -/
def cancelledMeanwhile : List CallAction :=
  twoMatches ++ [op 0, op 0, .call (.cancelOrder (.sord 0) 0), op 2, op 2, op 0, op 0, op 0]

end AgriFi.OrderBook
