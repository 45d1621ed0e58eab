import AgriFi.Threads
import AgriFi.OrderBook.Matching
import Mathlib.Logic.Relation

/-
  What the calls of the service do to the book. A call inserts one row, or it is a sequence of
  moves (`Move`): a resting row is armed, cancelled or expired, a fill is settled, or a trade is
  left pending (`next_cases`). In a book whose rows are numbered as they stand (`Indexed`) each
  loop saves rows that nobody has changed since it read them, which is what the rules for
  `sweepMakers` and the two sweeps carry along.
-/

namespace AgriFi.OrderBook

open AgriFi.Runs AgriFi.Threads Relation
open AgriFi.Soroban (bind_eq_ok failIf_bind_eq_ok okOr_bind_eq_ok)

/-- Row `n` stands at place `n`. -/
def Indexed (b : Book) : Prop :=
  ∀ ⦃i : Nat⦄ ⦃o : SecondaryOrder⦄, b.orders[i]? = some o → o.n = i

/-- `o` is a row of the book, as it is now. -/
abbrev Book.HasRow (b : Book) (o : SecondaryOrder) : Prop := b.orders[o.n]? = some o

variable {b b' : Book} {o o' taker maker order : SecondaryOrder} {i amount : Nat}

theorem Indexed.hasRow (hi : Indexed b) (h : o ∈ b.orders) : b.HasRow o := by
  obtain ⟨i, hget⟩ := List.mem_iff_getElem?.mp h
  obtain rfl := hi hget
  exact hget

theorem Book.HasRow.mem (h : b.HasRow o) : o ∈ b.orders := List.mem_of_getElem? h

theorem Book.HasRow.unique (h : b.HasRow o) (h' : b.HasRow o') (hn : o.n = o'.n) : o = o' := by
  unfold Book.HasRow at h
  rw [hn] at h
  exact Option.some.inj (h.symm.trans h')

theorem Book.HasRow.lt (h : b.HasRow o) : o.n < b.orders.length :=
  (List.getElem?_eq_some_iff.mp h).1

theorem Book.HasRow.insert (h : b.HasRow o) (new : SecondaryOrder) : (b.insert new).HasRow o :=
  (List.getElem?_append_left h.lt).trans h

theorem Indexed.getOrder_eq_some (hi : Indexed b) {orderId : OrderKey} :
    b.getOrder orderId = some o ↔ b.HasRow o ∧ orderId = o.orderId := by
  constructor
  · intro h
    have hkey : o.orderId = orderId := by simpa using List.find?_some h
    exact ⟨hi.hasRow (List.mem_of_find?_eq_some h), hkey.symm⟩
  · rintro ⟨hrow, rfl⟩
    cases hget : b.getOrder o.orderId with
    | none =>
      have hne := List.find?_eq_none.mp hget o hrow.mem
      simp at hne
    | some o' =>
      have hkey : o'.orderId = o.orderId := by simpa using List.find?_some hget
      have hrow' := hi.hasRow (List.mem_of_find?_eq_some hget)
      rw [hrow.unique hrow' (OrderKey.sord.inj hkey).symm]

/-! ## Rows that are written -/

@[simp] theorem save_trades (b : Book) (o : SecondaryOrder) : (b.save o).trades = b.trades := rfl

@[simp] theorem addTrade_orders (b : Book) (t : SecondaryTrade) :
    (b.addTrade t).orders = b.orders := rfl

@[simp] theorem fill_n (amount : Nat) (o : SecondaryOrder) : (o.fill amount).n = o.n := rfl

@[simp] theorem arm_n (now : Nat) (o : SecondaryOrder) : (o.arm now).n = o.n := rfl

theorem getElem?_save_self (h : b.HasRow o) (hn : o'.n = o.n) : (b.save o').HasRow o' := by
  unfold Book.HasRow Book.save
  rw [hn, List.getElem?_set_self h.lt]

theorem getElem?_save_of_ne (h : i ≠ o.n) : (b.save o).orders[i]? = b.orders[i]? :=
  List.getElem?_set_ne (Ne.symm h)

theorem getElem?_save_cases (h : (b.save o).orders[i]? = some o') :
    i = o.n ∧ o' = o ∨ i ≠ o.n ∧ b.orders[i]? = some o' :=
  getElem?_set_cases h

theorem Indexed.save (hi : Indexed b) (o : SecondaryOrder) : Indexed (b.save o) := by
  intro i o' h
  rcases getElem?_save_cases h with ⟨rfl, rfl⟩ | ⟨_, h'⟩
  · rfl
  · exact hi h'

/-- The rows after a fill. -/
theorem getElem?_fill_cases (h : (b.fill taker maker amount).orders[i]? = some o) :
    i = maker.n ∧ o = maker.fill amount ∨ i ≠ maker.n ∧ i = taker.n ∧ o = taker.fill amount ∨
      i ≠ maker.n ∧ i ≠ taker.n ∧ b.orders[i]? = some o := by
  rcases getElem?_save_cases h with h | ⟨hm, h⟩
  · exact .inl h
  · rcases getElem?_save_cases h with ⟨ht, h⟩ | ⟨ht, h⟩
    · exact .inr (.inl ⟨hm, ht, h⟩)
    · exact .inr (.inr ⟨hm, ht, h⟩)

theorem Indexed.addTrade (hi : Indexed b) (t : SecondaryTrade) : Indexed (b.addTrade t) :=
  fun _ _ h => hi h

theorem Indexed.fill (hi : Indexed b) : Indexed (b.fill taker maker amount) :=
  ((hi.addTrade _).save _).save _

theorem hasRow_fill_taker (ht : b.HasRow taker) (hne : taker.n ≠ maker.n) :
    (b.fill taker maker amount).HasRow (taker.fill amount) := by
  have hrow : ((b.addTrade (fillTrade taker maker amount .settled)).save
      (taker.fill amount)).HasRow (taker.fill amount) :=
    getElem?_save_self (b := b.addTrade _) ht rfl
  exact (getElem?_save_of_ne (o := maker.fill amount) hne).trans hrow

theorem hasRow_fill_maker (hm : b.HasRow maker) (hne : taker.n ≠ maker.n) :
    (b.fill taker maker amount).HasRow (maker.fill amount) :=
  getElem?_save_self (b := (b.addTrade _).save (taker.fill amount))
    ((getElem?_save_of_ne (o := taker.fill amount) (Ne.symm hne)).trans hm) rfl

theorem getElem?_fill_of_ne (ht : i ≠ taker.n) (hm : i ≠ maker.n) :
    (b.fill taker maker amount).orders[i]? = b.orders[i]? :=
  (getElem?_save_of_ne (o := maker.fill amount) hm).trans
    (getElem?_save_of_ne (o := taker.fill amount) ht)

/-! ## Moves -/

/-- Orders on opposite sides whose prices cross. -/
structure Opposing (taker maker : SecondaryOrder) : Prop where
  token : maker.tokenCode = taker.tokenCode
  side : maker.side = oppositeSide taker.side
  crossing : crosses taker maker

/-- A maker that the taker can meet. -/
structure Crossing (taker maker : SecondaryOrder) : Prop extends Opposing taker maker where
  resting : maker.isResting
  live : maker.isDormant = false

/-- Two orders that the loop fills against each other. -/
structure Fillable (taker maker : SecondaryOrder) : Prop extends Crossing taker maker where
  users : maker.userId ≠ taker.userId
  takerResting : taker.isResting
  takerOpen : qtyEpsilon < taker.remaining
  makerOpen : qtyEpsilon < maker.remaining

/-- A status that a resting order takes on without a fill. -/
def Sets (o o' : SecondaryOrder) : Prop :=
  (∃ now, o' = o.arm now) ∨ o' = { o with status := .cancelled } ∨
    o' = { o with status := .expired }

/-- One change of the tables; of the rows, only those with `p` may be armed. -/
inductive Move (p : Nat → Prop) : Book → Book → Prop
  | set {b : Book} {o o' : SecondaryOrder} (ho : b.HasRow o) (hr : o.isResting) (hs : Sets o o')
      (hp : p o.n ∨ o'.triggeredAt = o.triggeredAt) : Move p b (b.save o')
  | fill {b : Book} {taker maker : SecondaryOrder} (ht : b.HasRow taker) (hm : b.HasRow maker)
      (hf : Fillable taker maker) :
      Move p b (b.fill taker maker (min taker.remaining maker.remaining))
  | pend {b : Book} {taker maker : SecondaryOrder} {amount : Nat} (ht : b.HasRow taker)
      (hm : b.HasRow maker) (hf : Fillable taker maker) :
      Move p b (b.addTrade (fillTrade taker maker amount .pending))

abbrev Moves (p : Nat → Prop) : Book → Book → Prop := ReflTransGen (Move p)

variable {p q : Nat → Prop}

theorem Opposing.ne (hf : Opposing taker maker) (ht : b.HasRow taker) (hm : b.HasRow maker) :
    taker.n ≠ maker.n := by
  intro hn
  obtain rfl := ht.unique hm hn
  have hside := hf.side
  revert hside
  cases taker.side <;> decide

theorem Move.mono (h : Move p b b') (hpq : ∀ n, p n → q n) : Move q b b' := by
  cases h with
  | set ho hr hs hp => exact .set ho hr hs (hp.imp_left (hpq _))
  | fill ht hm hf => exact .fill ht hm hf
  | pend ht hm hf => exact .pend ht hm hf

theorem Moves.mono (h : Moves p b b') (hpq : ∀ n, p n → q n) : Moves q b b' := by
  induction h with
  | refl => exact .refl
  | tail _ hm ih => exact ih.tail (hm.mono hpq)

theorem Move.indexed (h : Move p b b') (hi : Indexed b) : Indexed b' := by
  cases h with
  | set => exact hi.save _
  | fill => exact hi.fill
  | pend => exact hi

theorem Move.length_eq (h : Move p b b') : b'.orders.length = b.orders.length := by
  cases h with
  | set => exact List.length_set
  | fill => simp [Book.fill, Book.save, Book.addTrade]
  | pend => rfl

/-- What every move keeps, moves keep. -/
theorem Moves.invariant (h : Moves p b b') (I : Book → Prop) (hi : Indexed b) (h0 : I b)
    (hstep : ∀ ⦃b b' : Book⦄, Indexed b → Move p b b' → I b → I b') : Indexed b' ∧ I b' := by
  induction h with
  | refl => exact ⟨hi, h0⟩
  | tail _ hm ih => exact ⟨hm.indexed ih.1, hstep ih.1 hm ih.2⟩

theorem Moves.indexed (h : Moves p b b') (hi : Indexed b) : Indexed b' :=
  (h.invariant (fun _ => True) hi trivial fun _ _ _ _ _ => trivial).1

/-! ## Rows that stay -/

/-- What no call changes once the row is inserted. -/
def SecondaryOrder.terms (o : SecondaryOrder) : SecondaryOrder :=
  { o with filledAmount := 0, status := .opened, triggeredAt := none }

/-- `o'` is a later state of the row `o`. -/
structure Later (o o' : SecondaryOrder) : Prop where
  terms : o'.terms = o.terms
  filled : o.filledAmount ≤ o'.filledAmount
  resting : o'.isResting → o.isResting
  dormant : o'.isDormant → o.isDormant

theorem Later.refl (o : SecondaryOrder) : Later o o := ⟨rfl, Nat.le_refl _, id, id⟩

theorem Later.trans {o'' : SecondaryOrder} (h : Later o o') (h' : Later o' o'') : Later o o'' where
  terms := h'.terms.trans h.terms
  filled := Nat.le_trans h.filled h'.filled
  resting hr := h.resting (h'.resting hr)
  dormant hd := h.dormant (h'.dormant hd)

theorem n_eq_of_terms (h : o'.terms = o.terms) : o'.n = o.n := by
  show o'.terms.n = o.terms.n
  rw [h]

theorem tokenAmount_eq_of_terms (h : o'.terms = o.terms) : o'.tokenAmount = o.tokenAmount := by
  show o'.terms.tokenAmount = o.terms.tokenAmount
  rw [h]

theorem tokenCode_eq_of_terms (h : o'.terms = o.terms) : o'.tokenCode = o.tokenCode := by
  show o'.terms.tokenCode = o.terms.tokenCode
  rw [h]

theorem userId_eq_of_terms (h : o'.terms = o.terms) : o'.userId = o.userId := by
  show o'.terms.userId = o.terms.userId
  rw [h]

theorem Opposing.of_terms {taker' maker' : SecondaryOrder} (h : Opposing taker maker)
    (ht : taker'.terms = taker.terms) (hm : maker'.terms = maker.terms) :
    Opposing taker' maker' := by
  have h : Opposing taker.terms maker.terms := ⟨h.token, h.side, h.crossing⟩
  rw [← ht, ← hm] at h
  exact ⟨h.token, h.side, h.crossing⟩

theorem Later.remaining_le (h : Later o o') : o'.remaining ≤ o.remaining := by
  have hfilled := h.filled
  unfold SecondaryOrder.remaining
  rw [tokenAmount_eq_of_terms h.terms]
  omega

theorem Sets.terms_eq (hs : Sets o o') : o'.terms = o.terms := by
  rcases hs with ⟨_, rfl⟩ | rfl | rfl <;> rfl

theorem Sets.later (hs : Sets o o') (hr : o.isResting) : Later o o' := by
  refine ⟨hs.terms_eq, ?_, fun _ => hr, ?_⟩
  · rcases hs with ⟨_, rfl⟩ | rfl | rfl <;> exact Nat.le_refl _
  · rcases hs with ⟨_, rfl⟩ | rfl | rfl
    · simp [SecondaryOrder.isDormant, SecondaryOrder.arm]
    · exact id
    · exact id

theorem later_fill (hr : o.isResting) (amount : Nat) : Later o (o.fill amount) :=
  ⟨rfl, Nat.le_add_right .., fun _ => hr, id⟩

/-- No move takes a row away, changes its terms, reopens it or, but for `p`, arms it. -/
theorem Move.keeps (h : Move p b b') (ho : b.HasRow o) :
    ∃ r, b'.HasRow r ∧ Later o r ∧ (p o.n ∨ r.triggeredAt = o.triggeredAt) := by
  cases h with
  | @set row row' hrow hr hs hp =>
    by_cases hn : o.n = row.n
    · obtain rfl := ho.unique hrow hn
      exact ⟨row', getElem?_save_self hrow (n_eq_of_terms hs.terms_eq), hs.later hr, hp⟩
    · rw [← n_eq_of_terms hs.terms_eq] at hn
      exact ⟨o, (getElem?_save_of_ne hn).trans ho, .refl o, .inr rfl⟩
  | @fill taker maker ht hm hf =>
    have hne := hf.ne ht hm
    by_cases hmaker : o.n = maker.n
    · obtain rfl := ho.unique hm hmaker
      exact ⟨_, hasRow_fill_maker hm hne, later_fill hf.resting _, .inr rfl⟩
    · by_cases htaker : o.n = taker.n
      · obtain rfl := ho.unique ht htaker
        exact ⟨_, hasRow_fill_taker ht hne, later_fill hf.takerResting _, .inr rfl⟩
      · exact ⟨o, (getElem?_fill_of_ne htaker hmaker).trans ho, .refl o, .inr rfl⟩
  | pend => exact ⟨o, ho, .refl o, .inr rfl⟩

theorem Moves.keeps (h : Moves p b b') (ho : b.HasRow o) :
    ∃ r, b'.HasRow r ∧ Later o r ∧ (p o.n ∨ r.triggeredAt = o.triggeredAt) := by
  induction h with
  | refl => exact ⟨o, ho, .refl o, .inr rfl⟩
  | tail _ hm ih =>
    obtain ⟨r, hr, hlater, harm⟩ := ih
    obtain ⟨r', hr', hlater', harm'⟩ := hm.keeps hr
    rw [n_eq_of_terms hlater.terms] at harm'
    refine ⟨r', hr', hlater.trans hlater', ?_⟩
    rcases harm with hp | harm
    · exact .inl hp
    · exact harm'.imp_right fun h => h.trans harm

/-- The state of a row after moves is a later one. -/
theorem Moves.later (h : Moves p b b') {r : SecondaryOrder} (ho : b.HasRow o) (hr : b'.HasRow r)
    (hn : r.n = o.n) : Later o r ∧ (p o.n ∨ r.triggeredAt = o.triggeredAt) := by
  obtain ⟨r', hr', hlater, harm⟩ := h.keeps ho
  obtain rfl := hr.unique hr' (hn.trans (n_eq_of_terms hlater.terms).symm)
  exact ⟨hlater, harm⟩

theorem Moves.length_eq (h : Moves p b b') : b'.orders.length = b.orders.length := by
  induction h with
  | refl => rfl
  | tail _ hm ih => exact hm.length_eq.trans ih

/-- Every row was there before. -/
theorem Moves.origin (h : Moves p b b') (hi : Indexed b) {r : SecondaryOrder}
    (hr : b'.HasRow r) : ∃ o, b.HasRow o ∧ r.n = o.n := by
  have hlt := hr.lt
  rw [h.length_eq] at hlt
  have hget := List.getElem?_eq_getElem hlt
  have hn := hi hget
  refine ⟨_, ?_, hn.symm⟩
  rw [Book.HasRow, hn]
  exact hget

/-! ## Trades that are added -/

/-- The trade is between two opposing orders of different users, both on the book `b`. -/
structure Meets (b : Book) (t : SecondaryTrade) (taker maker : SecondaryOrder) : Prop
    extends Opposing taker maker where
  takerRow : b.HasRow taker
  makerRow : b.HasRow maker
  takerResting : taker.isResting
  makerResting : maker.isResting
  users : maker.userId ≠ taker.userId
  takerOrder : t.takerOrder = taker.n
  makerOrder : t.makerOrder = maker.n
  tokenCode : t.tokenCode = taker.tokenCode

theorem Fillable.meets (hf : Fillable taker maker) (ht : b.HasRow taker) (hm : b.HasRow maker)
    (amount : Nat) (status : TradeStatus) :
    Meets b (fillTrade taker maker amount status) taker maker :=
  ⟨hf.toOpposing, ht, hm, hf.takerResting, hf.resting, hf.users, rfl, rfl, rfl⟩

/-- Orders that meet after moves could have met before. -/
theorem Meets.before {t : SecondaryTrade} (h : Meets b' t taker maker) (hm : Moves p b b')
    (hi : Indexed b) : ∃ taker maker, Meets b t taker maker := by
  obtain ⟨taker', ht', htn⟩ := hm.origin hi h.takerRow
  obtain ⟨maker', hm', hmn⟩ := hm.origin hi h.makerRow
  have htlater := (hm.later ht' h.takerRow htn).1
  have hmlater := (hm.later hm' h.makerRow hmn).1
  refine ⟨taker', maker', h.toOpposing.of_terms htlater.terms.symm hmlater.terms.symm, ht', hm',
    htlater.resting h.takerResting, hmlater.resting h.makerResting, ?_, h.takerOrder.trans htn,
    h.makerOrder.trans hmn, h.tokenCode.trans (tokenCode_eq_of_terms htlater.terms)⟩
  rw [← userId_eq_of_terms htlater.terms, ← userId_eq_of_terms hmlater.terms]
  exact h.users

/-- Every trade that moves add is between orders that oppose each other before the first move. -/
theorem Moves.new_trades (h : Moves p b b') (hi : Indexed b) {t : SecondaryTrade}
    (ht : t ∈ b'.trades) : t ∈ b.trades ∨ ∃ taker maker, Meets b t taker maker := by
  induction h with
  | refl => exact .inl ht
  | tail hmoves hm ih =>
    cases hm with
    | set => exact ih ht
    | fill htaker hmaker hf =>
      rcases List.mem_append.mp ht with ht | ht
      · exact ih ht
      · obtain rfl := List.mem_singleton.mp ht
        exact .inr ((hf.meets htaker hmaker _ _).before hmoves hi)
    | pend htaker hmaker hf =>
      rcases List.mem_append.mp ht with ht | ht
      · exact ih ht
      · obtain rfl := List.mem_singleton.mp ht
        exact .inr ((hf.meets htaker hmaker _ _).before hmoves hi)

/-! ## The loop over the makers -/

section Sweep

variable {settle : Nat → Settlement} {makers : List SecondaryOrder} {fills : List SecondaryTrade}

/-- What an iteration of the loop does; the size that it fills is never as small as
    `QTY_EPSILON`. -/
theorem sweepMakers_cons (settle : Nat → Settlement) (maker : SecondaryOrder)
    (makers : List SecondaryOrder) (order : SecondaryOrder) (fills : List SecondaryTrade)
    (b : Book) :
    sweepMakers settle (maker :: makers) order fills b =
      if order.remaining ≤ qtyEpsilon then (order, fills, b)
      else if maker.userId = order.userId ∨ maker.remaining ≤ qtyEpsilon then
        sweepMakers settle makers order fills b
      else
        let amount := min order.remaining maker.remaining
        match settle maker.n with
        | .settled =>
          sweepMakers settle makers (order.fill amount)
            (fills ++ [fillTrade order maker amount .settled]) (b.fill order maker amount)
        | .unsettled => (order, fills, b.addTrade (fillTrade order maker amount .pending))
        | .rejected => (order, fills, b) := by
  rw [sweepMakers]
  split
  · rfl
  · next hopen =>
    by_cases huser : maker.userId = order.userId
    · rw [if_pos huser, if_pos (.inl huser)]
    · rw [if_neg huser]
      by_cases hmaker : maker.remaining ≤ qtyEpsilon
      · rw [if_pos hmaker, if_pos (.inr hmaker)]
      · have hamount : ¬ min order.remaining maker.remaining ≤ qtyEpsilon := by omega
        rw [if_neg hmaker, if_neg (not_or.mpr ⟨huser, hmaker⟩)]
        exact if_neg hamount

theorem resting_fill (h : qtyEpsilon < (o.fill amount).remaining) : (o.fill amount).isResting := by
  have hopen : ¬ o.filledAmount + amount + qtyEpsilon ≥ o.tokenAmount := by
    unfold SecondaryOrder.remaining SecondaryOrder.fill at h
    dsimp only at h
    omega
  simp [SecondaryOrder.isResting, SecondaryOrder.fill, hopen]

/-- The rows in the hands of the loop are the book's, and its makers are different orders that
    cross the taker. -/
structure Sweeping (b : Book) (order : SecondaryOrder) (makers : List SecondaryOrder) : Prop where
  row : b.HasRow order
  resting : qtyEpsilon < order.remaining → order.isResting
  rows : ∀ m ∈ makers, b.HasRow m
  crossing : ∀ m ∈ makers, Crossing order m
  distinct : (makers.map SecondaryOrder.n).Nodup

theorem Sweeping.tail (hs : Sweeping b order (maker :: makers)) : Sweeping b order makers where
  row := hs.row
  resting := hs.resting
  rows m hm := hs.rows m (List.mem_cons_of_mem _ hm)
  crossing m hm := hs.crossing m (List.mem_cons_of_mem _ hm)
  distinct := (List.nodup_cons.mp hs.distinct).2

theorem Sweeping.fillable (hs : Sweeping b order (maker :: makers))
    (hopen : qtyEpsilon < order.remaining) (huser : maker.userId ≠ order.userId)
    (hmaker : qtyEpsilon < maker.remaining) : Fillable order maker :=
  ⟨hs.crossing maker (List.mem_cons_self ..), huser, hs.resting hopen, hopen, hmaker⟩

theorem Sweeping.ne (hs : Sweeping b order makers) {m : SecondaryOrder} (hm : m ∈ makers) :
    m.n ≠ order.n :=
  Ne.symm ((hs.crossing m hm).ne hs.row (hs.rows m hm))

theorem Sweeping.fill (hs : Sweeping b order (maker :: makers)) :
    Sweeping (b.fill order maker amount) (order.fill amount) makers where
  row := hasRow_fill_taker hs.row (Ne.symm (hs.ne (List.mem_cons_self ..)))
  resting := resting_fill
  rows m hm := by
    have hother : m.n ≠ maker.n := by
      intro hn
      have hnot := (List.nodup_cons.mp hs.distinct).1
      rw [← hn] at hnot
      exact hnot (List.mem_map_of_mem hm)
    exact (getElem?_fill_of_ne (hs.ne (List.mem_cons_of_mem _ hm)) hother).trans
      (hs.rows m (List.mem_cons_of_mem _ hm))
  crossing m hm :=
    have h := hs.crossing m (List.mem_cons_of_mem _ hm)
    ⟨⟨h.token, h.side, h.crossing⟩, h.resting, h.live⟩
  distinct := (List.nodup_cons.mp hs.distinct).2

theorem sweepMakers_moves (hs : Sweeping b order makers) :
    Moves p b (sweepMakers settle makers order fills b).2.2 := by
  induction makers generalizing order fills b with
  | nil => exact .refl
  | cons maker makers ih =>
    rw [sweepMakers_cons]
    split
    · exact .refl
    · next hopen =>
      split
      · exact ih hs.tail
      · next hskip =>
        obtain ⟨huser, hmaker⟩ := not_or.mp hskip
        have hf := hs.fillable (by omega) huser (by omega)
        have hm := hs.rows maker (List.mem_cons_self ..)
        dsimp only
        split
        · exact .head (.fill hs.row hm hf) (ih hs.fill)
        · exact .single (.pend hs.row hm hf)
        · exact .refl

end Sweep

/-! ## Makers -/

theorem mem_findCrossingMakers {now : Nat} :
    maker ∈ b.findCrossingMakers now taker ↔
      maker ∈ b.orders ∧ isCrossingMaker now taker maker := by
  rw [Book.findCrossingMakers, List.mem_insertionSort, List.mem_filter]

theorem crossing_of_isCrossingMaker {now : Nat} (h : isCrossingMaker now taker maker) :
    Crossing taker maker := by
  simp only [isCrossingMaker, decide_eq_true_eq] at h
  obtain ⟨htoken, hside, hresting, _, _, hcross, hlive⟩ := h
  exact ⟨⟨htoken, hside, hcross⟩, hresting, by simpa using hlive⟩

theorem Indexed.map_n (hi : Indexed b) :
    b.orders.map SecondaryOrder.n = List.range b.orders.length := by
  refine List.ext_getElem (by simp) fun i h h' => ?_
  rw [List.getElem_map, List.getElem_range]
  exact hi (List.getElem?_eq_getElem _)

/-- Rows picked from the book are numbered differently, however they are sorted. -/
theorem Indexed.nodup_picked (hi : Indexed b) (p : SecondaryOrder → Bool)
    (r : SecondaryOrder → SecondaryOrder → Prop) [DecidableRel r] :
    (((b.orders.filter p).insertionSort r).map SecondaryOrder.n).Nodup := by
  have hall : (b.orders.map SecondaryOrder.n).Nodup := by
    rw [hi.map_n]
    exact List.nodup_range
  have hpicked := hall.sublist ((List.filter_sublist (p := p)).map SecondaryOrder.n)
  exact ((List.perm_insertionSort r _).map _).nodup_iff.mpr hpicked

theorem Indexed.sweeping (hi : Indexed b) (ho : b.HasRow order) (hr : order.isResting)
    (now : Nat) : Sweeping b order (b.findCrossingMakers now order) where
  row := ho
  resting _ := hr
  rows _ hm := hi.hasRow (mem_findCrossingMakers.mp hm).1
  crossing _ hm := crossing_of_isCrossingMaker (mem_findCrossingMakers.mp hm).2
  distinct := hi.nodup_picked _ _

/-! ## Calls -/

theorem isResting_iff : o.isResting ↔ ¬ o.isTerminal := by
  unfold SecondaryOrder.isTerminal SecondaryOrder.isResting
  cases o.status <;> decide

theorem matchLive_moves (hi : Indexed b) (ho : b.HasRow order) (hr : order.isResting)
    (env : MatchEnv) : Moves p b (matchLive env order b).2 := by
  unfold matchLive
  split
  · exact .refl
  · dsimp only
    split
    · exact .single (.set ho hr (.inr (.inl rfl)) (.inr rfl))
    · exact sweepMakers_moves (hi.sweeping ho hr env.now)

/-- A match arms no order but its own. -/
theorem matchOrder_moves (hi : Indexed b) (orderId : OrderKey) (env : MatchEnv) :
    Moves (fun n => orderId = .sord n) b (matchOrder orderId env b).2 := by
  unfold matchOrder
  split
  · exact .refl
  · next order hget =>
    obtain ⟨ho, hkey⟩ := hi.getOrder_eq_some.mp hget
    dsimp only
    split
    · exact .refl
    · next hlive =>
      have hr := isResting_iff.mpr hlive
      split
      · exact .single (.set ho hr (.inr (.inr rfl)) (.inr rfl))
      · split
        · split
          · have ha : (b.save (order.arm env.now)).HasRow (order.arm env.now) :=
              getElem?_save_self ho rfl
            exact .head (.set ho hr (.inl ⟨_, rfl⟩) (.inl hkey))
              (matchLive_moves (hi.save _) ha rfl env)
          · exact .refl
        · exact matchLive_moves hi ho hr env

theorem foldl_arm_moves {os : List SecondaryOrder} (now : Nat)
    (hrows : ∀ o ∈ os, b.HasRow o ∧ o.isResting) (hnodup : (os.map SecondaryOrder.n).Nodup) :
    Moves (fun _ => True) b (os.foldl (fun b o => b.save (o.arm now)) b) := by
  induction os generalizing b with
  | nil => exact .refl
  | cons o os ih =>
    obtain ⟨ho, hr⟩ := hrows o (List.mem_cons_self ..)
    obtain ⟨hnot, hnodup⟩ := List.nodup_cons.mp hnodup
    refine .head (.set ho hr (.inl ⟨now, rfl⟩) (.inl trivial)) (ih ?_ hnodup)
    intro o' ho'
    obtain ⟨hrow, hr'⟩ := hrows o' (List.mem_cons_of_mem _ ho')
    have hne : o'.n ≠ (o.arm now).n := by
      intro hn
      exact hnot (hn ▸ List.mem_map_of_mem ho')
    exact ⟨(getElem?_save_of_ne hne).trans hrow, hr'⟩

theorem processStopLossTriggers_moves (hi : Indexed b) (tokenCode : String) (now : Nat) :
    Moves (fun _ => True) b (processStopLossTriggers tokenCode now b) := by
  unfold processStopLossTriggers
  split
  · exact .refl
  · next marketPrice _ =>
    have hnodup : (b.orders.map SecondaryOrder.n).Nodup := by
      rw [hi.map_n]
      exact List.nodup_range
    refine foldl_arm_moves now (fun o ho => ?_)
      (hnodup.sublist (List.filter_sublist.map SecondaryOrder.n))
    obtain ⟨hmem, harmed⟩ := List.mem_filter.mp ho
    simp only [armedByPrice, decide_eq_true_eq] at harmed
    exact ⟨hi.hasRow hmem, by simp [SecondaryOrder.isResting, harmed.2.2.1]⟩

/-- The orders that the sweep goes through. -/
theorem mem_restingOrders {tokenCode : String} :
    o ∈ restingOrders b tokenCode ↔ o ∈ b.orders ∧ o.tokenCode = tokenCode ∧ o.isResting := by
  rw [restingOrders, List.mem_insertionSort, List.mem_filter]
  simp

/-- The loop arms no orders but those it goes through. -/
theorem matchEach_moves (hi : Indexed b) (env : Nat → MatchEnv) (os : List SecondaryOrder) :
    Moves (fun n => n ∈ os.map SecondaryOrder.n) b (matchEach env os b) := by
  induction os generalizing b with
  | nil => exact .refl
  | cons o os ih =>
    have hm := matchOrder_moves hi o.orderId (env o.n)
    refine (hm.mono fun n hn => ?_).trans ((ih (hm.indexed hi)).mono fun n hn => ?_)
    · rw [List.map_cons, OrderKey.sord.inj hn]
      exact List.mem_cons_self ..
    · rw [List.map_cons]
      exact List.mem_cons_of_mem _ hn

theorem matchOpenOrders_moves (hi : Indexed b) (tokenCode : String) (now : Nat)
    (env : Nat → MatchEnv) :
    Moves (fun _ => True) b (matchOpenOrders tokenCode now env b) := by
  have hstops := processStopLossTriggers_moves hi tokenCode now
  exact hstops.trans ((matchEach_moves (hstops.indexed hi) env _).mono fun _ _ => trivial)

theorem cancelOrder_moves (hi : Indexed b) (orderId : OrderKey) (userId : Nat) :
    Moves p b (cancelOrder orderId userId b).2 := by
  unfold cancelOrder
  split
  · exact .refl
  · next order hget =>
    split
    · exact .refl
    · split
      · exact .refl
      · next hr =>
        have ho := (hi.getOrder_eq_some.mp hget).1
        exact .single (.set ho (by simpa using hr) (.inr (.inl rfl)) (.inr rfl))

/-! ## New orders -/

/-- The row that `createOrder` inserts. -/
structure Accepted (b : Book) (userId : Nat) (dto : CreateSecondaryOrderDto)
    (order : SecondaryOrder) : Prop where
  n : order.n = b.orders.length
  user : order.userId = userId
  deal : order.dealId = none
  side : order.side = dto.side
  type : order.type = dto.type.getD .limit
  token : order.tokenCode = dto.tokenCode
  status : order.status = .opened
  filled : order.filledAmount = 0
  amount : 0 < order.tokenAmount
  triggered : order.triggeredAt = none

theorem accepted_of_acceptOrder {wallet : Option Bool} {userId now : Nat}
    {dto : CreateSecondaryOrderDto} (h : acceptOrder wallet userId dto now b = .ok order) :
    Accepted b userId dto order := by
  simp only [acceptOrder, okOr_bind_eq_ok, failIf_bind_eq_ok] at h
  obtain ⟨_, _, _, _, _, h⟩ := h
  obtain ⟨_, _, h⟩ := bind_eq_ok.mp h
  obtain ⟨hamount, h⟩ := failIf_bind_eq_ok.mp h
  obtain rfl := Except.ok.inj h
  exact ⟨rfl, rfl, rfl, rfl, rfl, rfl, rfl, rfl, Nat.pos_of_ne_zero (not_or.mp hamount).1, rfl⟩

/-- The row that was just inserted is not found: `matchOrder` looks for an `orderId`. -/
theorem getOrder_uuid (b : Book) (n : Nat) : b.getOrder (.uuid n) = none := by
  rw [Book.getOrder, List.find?_eq_none]
  intro o _
  simp [SecondaryOrder.orderId]

theorem createOrder_of_accepted {wallet : Option Bool} {userId now : Nat}
    {dto : CreateSecondaryOrderDto} {env : MatchEnv}
    (h : acceptOrder wallet userId dto now b = .ok order) :
    createOrder wallet userId dto now env b = (.error .orderNotFound, b.insert order) := by
  have hmatch : matchOrder order.id env (b.insert order) =
      (.error .orderNotFound, b.insert order) := by
    rw [matchOrder, SecondaryOrder.id, getOrder_uuid]
  unfold createOrder
  rw [h]
  exact hmatch

/-- `createOrder` throws, and has inserted a row or not. -/
theorem createOrder_cases (wallet : Option Bool) (userId : Nat) (dto : CreateSecondaryOrderDto)
    (now : Nat) (env : MatchEnv) (b : Book) :
    (∃ e, createOrder wallet userId dto now env b = (.error e, b)) ∨
      ∃ order, Accepted b userId dto order ∧
        createOrder wallet userId dto now env b = (.error .orderNotFound, b.insert order) := by
  cases hc : acceptOrder wallet userId dto now b with
  | error e =>
    refine .inl ⟨e, ?_⟩
    unfold createOrder
    rw [hc]
  | ok order => exact .inr ⟨order, accepted_of_acceptOrder hc, createOrder_of_accepted hc⟩

/-- A call inserts a new row, or it moves the rows that are there. -/
theorem next_cases (hi : Indexed b) {a : Action} (h : next b a = some b') :
    (∃ userId dto order, Accepted b userId dto order ∧ b' = b.insert order) ∨
      Moves (fun _ => True) b b' := by
  cases a with
  | createOrder wallet userId dto now env =>
    obtain rfl := Option.some.inj h
    rcases createOrder_cases wallet userId dto now env b with ⟨e, hc⟩ | ⟨order, ha, hc⟩
    · rw [hc]
      exact .inr .refl
    · rw [hc]
      exact .inl ⟨userId, dto, order, ha, rfl⟩
  | cancelOrder orderId userId =>
    obtain rfl := Option.some.inj h
    exact .inr (cancelOrder_moves hi orderId userId)
  | matchOrder orderId env =>
    obtain rfl := Option.some.inj h
    exact .inr ((matchOrder_moves hi orderId env).mono fun _ _ => trivial)
  | matchOpenOrders tokenCode now env =>
    obtain rfl := Option.some.inj h
    exact .inr (matchOpenOrders_moves hi tokenCode now env)

theorem indexed_start : Indexed start := by
  intro i o h
  simp [start] at h

theorem Indexed.insert (hi : Indexed b) (hn : o.n = b.orders.length) : Indexed (b.insert o) := by
  intro i r h
  unfold Book.insert at h
  rw [List.getElem?_append] at h
  split at h
  · exact hi h
  · obtain rfl := List.mem_singleton.mp (List.mem_of_getElem? h)
    have hlt := (List.getElem?_eq_some_iff.mp h).1
    simp at hlt
    omega

/-- What holds of the empty book and is kept by new rows and by every move holds after every
    run. -/
theorem BookRun.invariant {xs : List (Step Book Action)} (h : BookRun xs b) (I : Book → Prop)
    (h0 : I start)
    (hinsert : ∀ ⦃b : Book⦄ ⦃userId : Nat⦄ ⦃dto : CreateSecondaryOrderDto⦄ ⦃o : SecondaryOrder⦄,
      Indexed b → Accepted b userId dto o → I b → I (b.insert o))
    (hmove : ∀ ⦃b b' : Book⦄, Indexed b → Move (fun _ => True) b b' → I b → I b') :
    Indexed b ∧ I b := by
  refine Run.invariant h (fun b => Indexed b ∧ I b) ⟨indexed_start, h0⟩ ?_
  rintro x _ hx ⟨hi, hI⟩
  rcases next_cases hi hx with ⟨userId, dto, order, ha, hpost⟩ | hmoves
  · rw [hpost]
    exact ⟨hi.insert ha.n, hinsert hi ha hI⟩
  · exact hmoves.invariant I hi hI hmove

end AgriFi.OrderBook
