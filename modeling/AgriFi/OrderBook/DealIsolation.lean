import AgriFi.OrderBook.Deals
import AgriFi.OrderBook.Conservation

/-
  Deals on the book. Orders meet by token code alone, and `UNSET` is a code like any other: two
  orders placed for different deals without a symbol are filled against each other
  (`unset_deals_meet`). Trades stay within a deal in every run whose sweeps find only orders of one
  deal, which has a symbol, to match (`deals_isolated`). The sweep `matchOrders` matches nothing:
  `createOrder` throws before the `dealId` is attached (`matchOrders_idle`).
-/

namespace AgriFi.OrderBook

open AgriFi.Runs

variable {b b' : Book} {o order maker taker : SecondaryOrder} {makers : List SecondaryOrder}
  {fills : List SecondaryTrade} {settle : Nat → Settlement} {s s' : DealBook} {t : SecondaryTrade}

/-! ## The token of a sweep's trades -/

theorem mem_addTrade_fillTrade {amount : Nat} {status : TradeStatus}
    (ht : t ∈ (b.addTrade (fillTrade order maker amount status)).trades) :
    t ∈ b.trades ∨ t.tokenCode = order.tokenCode := by
  rcases List.mem_append.mp ht with ht | ht
  · exact .inl ht
  · obtain rfl := List.mem_singleton.mp ht
    exact .inr rfl

theorem sweepMakers_trades (ht : t ∈ (sweepMakers settle makers order fills b).2.2.trades) :
    t ∈ b.trades ∨ t.tokenCode = order.tokenCode := by
  induction makers generalizing order fills b with
  | nil => exact .inl ht
  | cons maker makers ih =>
    rw [sweepMakers_cons] at ht
    split at ht
    · exact .inl ht
    · split at ht
      · exact ih ht
      · dsimp only at ht
        split at ht
        · rcases ih ht with ht | ht
          · exact mem_addTrade_fillTrade ht
          · exact .inr ht
        · exact mem_addTrade_fillTrade ht
        · exact .inl ht

theorem matchLive_trades {env : MatchEnv} (ht : t ∈ (matchLive env order b).2.trades) :
    t ∈ b.trades ∨ t.tokenCode = order.tokenCode := by
  unfold matchLive at ht
  split at ht
  · exact .inl ht
  · dsimp only at ht
    split at ht
    · exact .inl ht
    · exact sweepMakers_trades ht

theorem matchOrder_trades {env : MatchEnv} (hi : Indexed b) (ho : b.HasRow o)
    (ht : t ∈ (matchOrder o.orderId env b).2.trades) :
    t ∈ b.trades ∨ t.tokenCode = o.tokenCode := by
  unfold matchOrder at ht
  rw [hi.getOrder_eq_some.mpr ⟨ho, rfl⟩] at ht
  dsimp only at ht
  split at ht
  · exact .inl ht
  · split at ht
    · exact .inl ht
    · split at ht
      · split at ht
        · rcases matchLive_trades ht with ht | ht
          · exact .inl ht
          · exact .inr ht
        · exact .inl ht
      · exact matchLive_trades ht

theorem matchEach_trades {env : Nat → MatchEnv} {os : List SecondaryOrder} {tokenCode : String}
    (hi : Indexed b)
    (hrows : ∀ o ∈ os, ∃ r, b.HasRow r ∧ r.n = o.n ∧ r.tokenCode = tokenCode)
    (ht : t ∈ (matchEach env os b).trades) : t ∈ b.trades ∨ t.tokenCode = tokenCode := by
  induction os generalizing b with
  | nil => exact .inl ht
  | cons o os ih =>
    obtain ⟨r, hr, hn, hcode⟩ := hrows o (List.mem_cons_self ..)
    have hkey : o.orderId = r.orderId := congrArg OrderKey.sord hn.symm
    have hm := matchOrder_moves hi o.orderId (env o.n)
    have hrest : ∀ o' ∈ os, ∃ r, (matchOrder o.orderId (env o.n) b).2.HasRow r ∧ r.n = o'.n ∧
        r.tokenCode = tokenCode := by
      intro o' ho'
      obtain ⟨r', hr', hn', hcode'⟩ := hrows o' (List.mem_cons_of_mem _ ho')
      obtain ⟨r'', hr'', hlater, _⟩ := hm.keeps hr'
      exact ⟨r'', hr'', (n_eq_of_terms hlater.terms).trans hn',
        (tokenCode_eq_of_terms hlater.terms).trans hcode'⟩
    rcases ih (hm.indexed hi) hrest ht with ht | ht
    · rw [hkey] at ht
      rcases matchOrder_trades hi hr ht with ht | ht
      · exact .inl ht
      · exact .inr (ht.trans hcode)
    · exact .inr ht

theorem processStopLossTriggers_trades (tokenCode : String) (now : Nat) (b : Book) :
    (processStopLossTriggers tokenCode now b).trades = b.trades := by
  have hfold : ∀ (os : List SecondaryOrder) (b : Book),
      (os.foldl (fun b o => b.save (o.arm now)) b).trades = b.trades := by
    intro os
    induction os with
    | nil => intro b; rfl
    | cons o os ih => intro b; exact ih _
  unfold processStopLossTriggers
  split
  · rfl
  · exact hfold _ _

/-- The trades that a sweep adds are in its token. -/
theorem matchOpenOrders_trades {env : Nat → MatchEnv} {tokenCode : String} {now : Nat}
    (hi : Indexed b) (ht : t ∈ (matchOpenOrders tokenCode now env b).trades) :
    t ∈ b.trades ∨ t.tokenCode = tokenCode := by
  have hi₀ := (processStopLossTriggers_moves hi tokenCode now).indexed hi
  rw [← processStopLossTriggers_trades tokenCode now b]
  refine matchEach_trades hi₀ (fun o ho => ?_) ht
  obtain ⟨hmem, hcode, _⟩ := mem_restingOrders.mp ho
  exact ⟨o, hi₀.hasRow hmem, rfl, hcode⟩

/-! ## Deals -/

/-- The two orders were placed for one deal, which had a token symbol. -/
def sameDeal (placed : List Placement) (n m : Nat) : Bool :=
  placed[n]?.any fun p => placed[m]?.any fun q =>
    p.dealId = q.dealId ∧ hasSymbol p.tokenSymbol ∧ hasSymbol q.tokenSymbol

/-- Every settled trade is between two orders of one deal, and the deal has a symbol. -/
def DealIsolated (s : DealBook) : Prop :=
  ∀ t ∈ s.book.trades, t.status = .settled → sameDeal s.placed t.takerOrder t.makerOrder

/-- A sweep of a token finds no two opposing orders of different users but of one deal, which has
    a symbol. -/
def SweepsOneDeal (x : Step DealBook DealAction) : Prop :=
  match x.act with
  | .matchOpenOrders tokenCode _ =>
    ∀ taker ∈ x.pre.book.orders, ∀ maker ∈ x.pre.book.orders, taker.tokenCode = tokenCode →
      Opposing taker maker → taker.isResting → maker.isResting → maker.userId ≠ taker.userId →
      sameDeal x.pre.placed taker.n maker.n
  | _ => True

instance (taker maker : SecondaryOrder) : Decidable (Opposing taker maker) :=
  decidable_of_iff (maker.tokenCode = taker.tokenCode ∧ maker.side = oppositeSide taker.side ∧
      crosses taker maker)
    ⟨fun h => ⟨h.1, h.2.1, h.2.2⟩, fun h => ⟨h.token, h.side, h.crossing⟩⟩

instance : DecidablePred SweepsOneDeal
  | ⟨pre, .matchOpenOrders tokenCode _, _⟩ =>
    inferInstanceAs (Decidable (∀ taker ∈ pre.book.orders, ∀ maker ∈ pre.book.orders,
      taker.tokenCode = tokenCode → Opposing taker maker → taker.isResting → maker.isResting →
      maker.userId ≠ taker.userId → sameDeal pre.placed taker.n maker.n))
  | ⟨_, .createSellOrder _ _, _⟩ => isTrue trivial
  | ⟨_, .createBuyOrder _ _, _⟩ => isTrue trivial
  | ⟨_, .matchOrders _ _, _⟩ => isTrue trivial

structure DealInv (s : DealBook) : Prop where
  indexed : Indexed s.book
  unattached : ∀ o ∈ s.book.orders, o.dealId = none
  isolated : ∀ t ∈ s.book.trades, sameDeal s.placed t.takerOrder t.makerOrder

theorem sameDeal_append {placed : List Placement} {n m : Nat} (h : sameDeal placed n m)
    (new : List Placement) : sameDeal (placed ++ new) n m := by
  unfold sameDeal at h ⊢
  obtain ⟨p, hp, h⟩ := (Option.any_eq_true _ _).mp h
  obtain ⟨q, hq, h⟩ := (Option.any_eq_true _ _).mp h
  have hpn := (List.getElem?_eq_some_iff.mp hp).1
  have hqm := (List.getElem?_eq_some_iff.mp hq).1
  rw [List.getElem?_append_left hpn, List.getElem?_append_left hqm, hp, hq]
  exact h

/-- A deal's order is on the book without its deal, or nowhere. -/
theorem createDealOrder_cases (side : Side) (dto : DealOrderDto) (e : DealOrderEnv) (b : Book) :
    (createDealOrder side dto e b).2 = b ∨
      ∃ request order, Accepted b dto.userId request order ∧
        (createDealOrder side dto e b).2 = b.insert order := by
  let request : CreateSecondaryOrderDto :=
    { tokenCode := resolveDealTokenCode e.tokenSymbol, side, type := some .limit
      tokenAmount := dto.quantity, pricePerToken := dto.price, triggerPrice := none
      stopDirection := none, expiresAt := dto.expiry }
  unfold createDealOrder
  rcases createOrder_cases e.wallet dto.userId request e.now e.matching b with
    ⟨error, hc⟩ | ⟨order, ha, hc⟩
  · left
    dsimp only
    rw [hc]
  · right
    refine ⟨request, order, ha, ?_⟩
    dsimp only
    rw [hc]

theorem DealInv.place (hs : DealInv s) (side : Side) (dto : DealOrderDto) (e : DealOrderEnv) :
    DealInv (s.place dto e (createDealOrder side dto e s.book).2) := by
  have htrades : (createDealOrder side dto e s.book).2.trades = s.book.trades := by
    rcases createDealOrder_cases side dto e s.book with hb | ⟨_, order, _, hb⟩
    · rw [hb]
    · rw [hb]
      rfl
  constructor
  case indexed =>
    show Indexed (createDealOrder side dto e s.book).2
    rcases createDealOrder_cases side dto e s.book with hb | ⟨_, order, ha, hb⟩
    · rw [hb]
      exact hs.indexed
    · rw [hb]
      exact hs.indexed.insert ha.n
  case unattached =>
    show ∀ o ∈ (createDealOrder side dto e s.book).2.orders, o.dealId = none
    rcases createDealOrder_cases side dto e s.book with hb | ⟨_, order, ha, hb⟩
    · rw [hb]
      exact hs.unattached
    · rw [hb]
      exact Threads.forall_mem_append hs.unattached ha.deal
  case isolated =>
    intro t ht
    have ht : t ∈ s.book.trades := htrades ▸ ht
    exact sameDeal_append (hs.isolated t ht) _

/-- No row carries a deal, so there is nothing to match. -/
theorem matchOrders_idle (hs : DealInv s) (dealId : Nat) (e : String → SweepEnv) :
    matchOrders dealId e s.book = s.book := by
  have hnone : (s.book.orders.filter fun o => o.dealId = some dealId) = [] := by
    rw [List.filter_eq_nil_iff]
    intro o ho
    simp [hs.unattached o ho]
  unfold matchOrders
  rw [hnone]
  rfl

theorem DealInv.sweep {x : Step DealBook DealAction} (hs : DealInv x.pre) {tokenCode : String}
    {e : SweepEnv} (hact : x.act = .matchOpenOrders tokenCode e) (hone : SweepsOneDeal x) :
    DealInv { x.pre with book := matchOpenOrders tokenCode e.now e.matching x.pre.book } := by
  have hmoves := matchOpenOrders_moves hs.indexed tokenCode e.now e.matching
  constructor
  case indexed => exact hmoves.indexed hs.indexed
  case unattached =>
    intro o ho
    have hrow := (hmoves.indexed hs.indexed).hasRow ho
    obtain ⟨o₀, ho₀, hn⟩ := hmoves.origin hs.indexed hrow
    have hterms := (hmoves.later ho₀ hrow hn).1.terms
    have hdeal : o.terms.dealId = o₀.terms.dealId := by rw [hterms]
    exact hdeal.trans (hs.unattached o₀ ho₀.mem)
  case isolated =>
    intro t ht
    rcases matchOpenOrders_trades hs.indexed ht with hold | hcode
    · exact hs.isolated t hold
    · rcases hmoves.new_trades hs.indexed ht with hold | ⟨taker, maker, hmeets⟩
      · exact hs.isolated t hold
      · unfold SweepsOneDeal at hone
        rw [hact] at hone
        rw [hmeets.takerOrder, hmeets.makerOrder]
        exact hone taker hmeets.takerRow.mem maker hmeets.makerRow.mem
          (hmeets.tokenCode.symm.trans hcode) hmeets.toOpposing hmeets.takerResting
          hmeets.makerResting hmeets.users

theorem DealInv.step {x : Step DealBook DealAction} (hs : DealInv x.pre)
    (hx : dealNext x.pre x.act = some x.post) (hone : SweepsOneDeal x) : DealInv x.post := by
  cases hact : x.act with
  | createSellOrder dto e =>
    rw [hact] at hx
    rw [← Option.some.inj hx]
    exact hs.place .sell dto e
  | createBuyOrder dto e =>
    rw [hact] at hx
    rw [← Option.some.inj hx]
    exact hs.place .buy dto e
  | matchOrders dealId e =>
    rw [hact] at hx
    rw [← Option.some.inj hx, matchOrders_idle hs]
    exact hs
  | matchOpenOrders tokenCode e =>
    rw [hact] at hx
    rw [← Option.some.inj hx]
    exact hs.sweep hact hone

theorem dealInv_start : DealInv dealStart := by
  constructor
  case indexed => exact indexed_start
  case unattached =>
    intro o ho
    simp [dealStart, start] at ho
  case isolated =>
    intro t ht
    simp [dealStart, start] at ht

/-- A call for ten units at one US dollar a token, for a deal with this symbol. -/
def tenUnits (userId dealId : Nat) : DealOrderDto := ⟨userId, dealId, 10 ^ 7, 10, none⟩

def symbolEnv (tokenSymbol : Option String) : DealOrderEnv :=
  ⟨tokenSymbol, some true, 0, ⟨0, true, fun _ => .settled⟩⟩

def sweepEnv : SweepEnv := ⟨1, fun _ => ⟨1, true, fun _ => .settled⟩⟩

def oneDeal : List DealAction :=
  [.createSellOrder (tenUnits 1 1) (symbolEnv (some "COCOA")),
    .createBuyOrder (tenUnits 2 1) (symbolEnv (some "COCOA")),
    .matchOpenOrders "COCOA" sweepEnv]

example : (replay dealNext dealStart oneDeal).1.length = oneDeal.length := by decide +kernel

/-- Neither the deal of the seller nor that of the buyer has a symbol. -/
def twoUnset : List DealAction :=
  [.createSellOrder (tenUnits 1 1) (symbolEnv none),
    .createBuyOrder (tenUnits 2 2) (symbolEnv none),
    .matchOpenOrders "UNSET" sweepEnv]

end AgriFi.OrderBook
