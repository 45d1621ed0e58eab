import AgriFi.OrderBook.Moves

/-
  What the book's numbers say in every state that the service's calls lead to, whichever
  settlements fail (`book_conserved`): a row's `filledAmount` is what its settled trades add up to
  and stays within its size; it is FILLED once at most `QTY_EPSILON` of it, one unit, is left, and
  not before (`one_unit_short` leaves the unit open); and each trade has a seller and a buyer
  whose rows stand on the opposite sides and whose limits its price keeps.
-/

namespace AgriFi.OrderBook

open AgriFi.Runs

/-- What the settled trades that name row `n` add up to. -/
def settledAmount (b : Book) (n : Nat) : Nat :=
  ((b.trades.filter fun t => t.status = .settled ∧ (t.takerOrder = n ∨ t.makerOrder = n)).map
    SecondaryTrade.tokenAmount).sum

structure OrderConserved (b : Book) (o : SecondaryOrder) : Prop where
  bounded : o.filledAmount ≤ o.tokenAmount
  settled : o.filledAmount = settledAmount b o.n
  filled : o.status = .filled ↔
    0 < o.filledAmount ∧ o.tokenAmount ≤ o.filledAmount + qtyEpsilon

/-- The trade sells `seller`'s tokens to `buyer` at the maker's price and within both limits. -/
structure Respects (t : SecondaryTrade) (seller buyer : SecondaryOrder) : Prop where
  sides : seller.side = .sell ∧ buyer.side = .buy
  legs : t.takerOrder = seller.n ∧ t.makerOrder = buyer.n ∧ t.pricePerToken = buyer.pricePerToken ∨
    t.takerOrder = buyer.n ∧ t.makerOrder = seller.n ∧ t.pricePerToken = seller.pricePerToken
  parties : t.sellerId = seller.userId ∧ t.buyerId = buyer.userId
  tokens : t.tokenCode = seller.tokenCode ∧ t.tokenCode = buyer.tokenCode
  price : seller.pricePerToken ≤ t.pricePerToken ∧ t.pricePerToken ≤ buyer.pricePerToken

def Respected (b : Book) (t : SecondaryTrade) : Prop :=
  ∃ seller buyer, b.HasRow seller ∧ b.HasRow buyer ∧ Respects t seller buyer

structure Conserved (b : Book) : Prop where
  orders : ∀ ⦃o : SecondaryOrder⦄, b.HasRow o → 0 < o.tokenAmount ∧ OrderConserved b o
  trades : ∀ t ∈ b.trades, Respected b t

variable {b b' : Book} {o o' taker maker seller buyer : SecondaryOrder} {t : SecondaryTrade}
  {n amount : Nat} {p : Nat → Prop}

/-! ## Trades -/

theorem settledAmount_addTrade_settled (h : t.status = .settled) :
    settledAmount (b.addTrade t) n =
      settledAmount b n + if t.takerOrder = n ∨ t.makerOrder = n then t.tokenAmount else 0 := by
  unfold settledAmount Book.addTrade
  rw [List.filter_append, List.map_append, List.sum_append]
  by_cases hn : t.takerOrder = n ∨ t.makerOrder = n
  · simp [h, hn]
  · simp [h, hn]

theorem settledAmount_addTrade_pending (h : t.status = .pending) :
    settledAmount (b.addTrade t) n = settledAmount b n := by
  unfold settledAmount Book.addTrade
  rw [List.filter_append, List.map_append, List.sum_append]
  simp [h]

/-- A row that no trade names has nothing settled. -/
theorem settledAmount_eq_zero (h : ∀ t ∈ b.trades, t.takerOrder ≠ n ∧ t.makerOrder ≠ n) :
    settledAmount b n = 0 := by
  have hnone : (b.trades.filter fun t =>
      t.status = .settled ∧ (t.takerOrder = n ∨ t.makerOrder = n)) = [] := by
    rw [List.filter_eq_nil_iff]
    intro t ht hnames
    obtain ⟨htaker, hmaker⟩ := h t ht
    have hlegs : t.takerOrder = n ∨ t.makerOrder = n := (of_decide_eq_true hnames).2
    exact hlegs.elim htaker hmaker
  unfold settledAmount
  rw [hnone]
  rfl

theorem Conserved.settledAmount_new (hc : Conserved b) (hn : b.orders.length ≤ n) :
    settledAmount b n = 0 := by
  apply settledAmount_eq_zero
  intro t ht
  obtain ⟨seller, buyer, hs, hb, hr⟩ := hc.trades t ht
  have hseller := hs.lt
  have hbuyer := hb.lt
  have hlegs := hr.legs
  omega

theorem Respects.of_terms {seller' buyer' : SecondaryOrder} (hr : Respects t seller buyer)
    (hs : seller'.terms = seller.terms) (hb : buyer'.terms = buyer.terms) :
    Respects t seller' buyer' := by
  have h : Respects t seller.terms buyer.terms :=
    ⟨hr.sides, hr.legs, hr.parties, hr.tokens, hr.price⟩
  rw [← hs, ← hb] at h
  exact ⟨h.sides, h.legs, h.parties, h.tokens, h.price⟩

/-- The trade of a fill is between the rows of its seller and its buyer, at the maker's price. -/
theorem Opposing.respects (hc : Opposing taker maker) (amount : Nat) (status : TradeStatus) :
    Respects (fillTrade taker maker amount status)
      (if taker.side = .sell then taker else maker)
      (if taker.side = .sell then maker else taker) := by
  have hcross := hc.crossing
  have hside := hc.side
  unfold crosses at hcross
  cases htaker : taker.side with
  | sell =>
    simp only [htaker, oppositeSide, decide_eq_true_eq] at hcross hside
    simp only [if_true, fillTrade, htaker]
    exact ⟨⟨htaker, hside⟩, .inl ⟨rfl, rfl, rfl⟩, ⟨rfl, rfl⟩, ⟨rfl, hc.token.symm⟩, hcross,
      Nat.le_refl _⟩
  | buy =>
    simp only [htaker, oppositeSide, decide_eq_true_eq] at hcross hside
    simp only [reduceCtorEq, if_false, fillTrade, htaker]
    exact ⟨⟨hside, htaker⟩, .inr ⟨rfl, rfl, rfl⟩, ⟨rfl, rfl⟩, ⟨hc.token.symm, rfl⟩, Nat.le_refl _,
      hcross⟩

theorem Fillable.trade (hf : Fillable taker maker) (ht : b.HasRow taker) (hm : b.HasRow maker)
    (amount : Nat) (status : TradeStatus) : Respected b (fillTrade taker maker amount status) := by
  refine ⟨_, _, ?_, ?_, hf.toOpposing.respects amount status⟩
  · split
    · exact ht
    · exact hm
  · split
    · exact hm
    · exact ht

/-! ## Moves -/

theorem not_filled_of_resting (hr : o.isResting) : o.status ≠ .filled := by
  intro hs
  simp [SecondaryOrder.isResting, hs] at hr

theorem Sets.not_filled (hs : Sets o o') : o'.status ≠ .filled := by
  rcases hs with ⟨_, rfl⟩ | rfl | rfl <;> simp [SecondaryOrder.arm]

theorem OrderConserved.set (hc : OrderConserved b o) (hr : o.isResting) (hs : Sets o o') :
    OrderConserved (b.save o') o' := by
  have hfilled : o'.filledAmount = o.filledAmount := by
    rcases hs with ⟨_, rfl⟩ | rfl | rfl <;> rfl
  have hamount := tokenAmount_eq_of_terms hs.terms_eq
  have hn := n_eq_of_terms hs.terms_eq
  constructor
  case bounded =>
    rw [hfilled, hamount]
    exact hc.bounded
  case settled =>
    rw [hfilled, hn]
    exact hc.settled
  case filled =>
    rw [hfilled, hamount]
    have hnot := hc.filled.not.mp (not_filled_of_resting hr)
    exact iff_of_false hs.not_filled hnot

/-- A fill of no more than is open. -/
theorem OrderConserved.fill (hc : OrderConserved b o) (hopen : amount ≤ o.remaining)
    (hpos : 0 < amount) (hsum : settledAmount b' o.n = settledAmount b o.n + amount) :
    OrderConserved b' (o.fill amount) := by
  have hbound := hc.bounded
  unfold SecondaryOrder.remaining at hopen
  constructor
  case bounded =>
    show o.filledAmount + amount ≤ o.tokenAmount
    omega
  case settled =>
    show o.filledAmount + amount = settledAmount b' o.n
    rw [hsum, hc.settled]
  case filled =>
    by_cases hall : o.filledAmount + amount + qtyEpsilon ≥ o.tokenAmount
    · have hstatus : (o.fill amount).status = .filled := if_pos hall
      have hsome : 0 < o.filledAmount + amount := by omega
      exact iff_of_true hstatus ⟨hsome, hall⟩
    · have hstatus : (o.fill amount).status = .partiallyFilled := if_neg hall
      refine iff_of_false (by simp [hstatus]) ?_
      rintro ⟨_, hle⟩
      exact hall hle

theorem OrderConserved.of_settled (hc : OrderConserved b o)
    (hsum : settledAmount b' o.n = settledAmount b o.n) : OrderConserved b' o :=
  ⟨hc.bounded, hc.settled.trans hsum.symm, hc.filled⟩

/-- What the settled trade of a fill adds. -/
theorem settledAmount_settle (taker maker : SecondaryOrder) (amount n : Nat) :
    settledAmount (b.addTrade (fillTrade taker maker amount .settled)) n =
      settledAmount b n + if taker.n = n ∨ maker.n = n then amount else 0 :=
  settledAmount_addTrade_settled rfl

theorem settledAmount_fill (taker maker : SecondaryOrder) (amount n : Nat) :
    settledAmount (b.fill taker maker amount) n =
      settledAmount b n + if taker.n = n ∨ maker.n = n then amount else 0 :=
  settledAmount_settle taker maker amount n

theorem Respected.keeps (h : Respected b t)
    (hkeeps : ∀ o, b.HasRow o → ∃ r, b'.HasRow r ∧ r.terms = o.terms) : Respected b' t := by
  obtain ⟨seller, buyer, hs, hb, hr⟩ := h
  obtain ⟨seller', hs', hsterms⟩ := hkeeps seller hs
  obtain ⟨buyer', hb', hbterms⟩ := hkeeps buyer hb
  exact ⟨seller', buyer', hs', hb', hr.of_terms hsterms hbterms⟩

theorem Respected.move (h : Respected b t) (hm : Move p b b') : Respected b' t := by
  apply h.keeps
  intro o ho
  obtain ⟨r, hr, hlater, _⟩ := hm.keeps ho
  exact ⟨r, hr, hlater.terms⟩

/-- A new row has nothing filled, and no trade names it. -/
theorem Conserved.insert {userId : Nat} {dto : CreateSecondaryOrderDto} (hc : Conserved b)
    (ha : Accepted b userId dto o) : Conserved (b.insert o) := by
  constructor
  case orders =>
    intro r hr
    rcases Threads.getElem?_append_cases hr with hr | rfl
    · obtain ⟨hpos, hrow⟩ := hc.orders hr
      exact ⟨hpos, hrow.of_settled rfl⟩
    · have hnew : settledAmount (b.insert r) r.n = 0 := hc.settledAmount_new (by rw [ha.n])
      have hfilled := ha.filled
      refine ⟨ha.amount, by omega, by omega, ?_⟩
      simp [ha.status, hfilled]
  case trades =>
    intro t ht
    apply (hc.trades t ht).keeps
    intro r hr
    exact ⟨r, hr.insert o, rfl⟩

theorem Conserved.move (hc : Conserved b) (hm : Move p b b') : Conserved b' := by
  have hstays := hm
  have hkept : ∀ t ∈ b.trades, Respected b' t := fun t ht => (hc.trades t ht).move hm
  cases hm with
  | @set o o' ho hr hs =>
    refine ⟨fun r hrow => ?_, hkept⟩
    rcases getElem?_save_cases hrow with ⟨_, rfl⟩ | ⟨_, hrow⟩
    · obtain ⟨hpos, hcons⟩ := hc.orders ho
      rw [tokenAmount_eq_of_terms hs.terms_eq]
      exact ⟨hpos, hcons.set hr hs⟩
    · obtain ⟨hpos, hcons⟩ := hc.orders hrow
      exact ⟨hpos, hcons.of_settled rfl⟩
  | @fill taker maker ht hmk hf =>
    have hne := hf.ne ht hmk
    have htopen := hf.takerOpen
    have hmopen := hf.makerOpen
    refine ⟨fun r hrow => ?_, fun t htrade => ?_⟩
    · rcases getElem?_fill_cases hrow with ⟨_, rfl⟩ | ⟨_, _, rfl⟩ | ⟨hm, ht, hrow⟩
      · obtain ⟨hpos, hcons⟩ := hc.orders hmk
        refine ⟨hpos, hcons.fill (by omega) (by omega) ?_⟩
        rw [settledAmount_fill, if_pos (.inr rfl)]
      · obtain ⟨hpos, hcons⟩ := hc.orders ht
        refine ⟨hpos, hcons.fill (by omega) (by omega) ?_⟩
        rw [settledAmount_fill, if_pos (.inl rfl)]
      · obtain ⟨hpos, hcons⟩ := hc.orders hrow
        refine ⟨hpos, hcons.of_settled ?_⟩
        rw [settledAmount_fill, if_neg (by omega), Nat.add_zero]
    · rcases List.mem_append.mp htrade with hold | hnew
      · exact hkept t hold
      · obtain rfl := List.mem_singleton.mp hnew
        exact (hf.trade ht hmk _ _).move hstays
  | @pend taker maker amount ht hmk hf =>
    refine ⟨fun r hrow => ?_, fun t htrade => ?_⟩
    · obtain ⟨hpos, hcons⟩ := hc.orders hrow
      exact ⟨hpos, hcons.of_settled (settledAmount_addTrade_pending rfl)⟩
    · rcases List.mem_append.mp htrade with hold | hnew
      · exact hkept t hold
      · obtain rfl := List.mem_singleton.mp hnew
        exact hf.trade (b := b.addTrade _) ht hmk _ _

/-! ## Runs -/

theorem conserved_start : Conserved start := by
  constructor
  · intro o ho
    simp [start, Book.HasRow] at ho
  · intro t ht
    simp [start] at ht

theorem BookRun.conserved {xs : List (Step Book Action)} (h : BookRun xs b) :
    Indexed b ∧ Conserved b :=
  h.invariant Conserved conserved_start (fun _ _ _ _ _ ha hc => hc.insert ha)
    fun _ _ _ hm hc => hc.move hm

/-- An environment in which every settlement succeeds. -/
def settlesAt (now : Nat) : MatchEnv := ⟨now, true, fun _ => .settled⟩

/-- A limit order for so many units at one US dollar a token. -/
def unitsAtOne (side : Side) (units : Nat) : CreateSecondaryOrderDto where
  tokenCode := "COCOA"
  side := side
  type := none
  tokenAmount := units
  pricePerToken := 10 ^ 7
  triggerPrice := none
  stopDirection := none
  expiresAt := none

/-- User 1 sells two units, user 2 buys three. -/
def twoAgainstThree : List Action :=
  [.createOrder (some true) 1 (unitsAtOne .sell 2) 0 (settlesAt 0),
    .createOrder (some true) 2 (unitsAtOne .buy 3) 1 (settlesAt 1),
    .matchOpenOrders "COCOA" 2 fun _ => settlesAt 2]

end AgriFi.OrderBook
