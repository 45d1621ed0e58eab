import AgriFi.Runs
import AgriFi.OrderBook.Orders

/-
  `MarketplaceSettlementService` (`src/investments/marketplace-settlement.service.ts`): placing,
  cancelling and matching orders, one call at a time. A call of `matchOrder` reads a clock, sends
  the query for its makers, which may fail, and settles its fills, each of which may fail
  (`MatchEnv`). The database's other calls succeed.
-/

namespace AgriFi.OrderBook

open AgriFi.Runs
open AgriFi.Soroban (failIf okOr)

inductive OrderError where
  | userNotFound
  | noWallet
  | tokenAmountNotPositive
  | priceNotPositive
  | triggerPriceRequired
  | triggerPriceNotPositive
  | stopAlreadyCrossed
  | orderNotFound
  | notMaker
  | notResting
  | database
  deriving DecidableEq, Repr

structure MatchOrderResult where
  order : SecondaryOrder
  triggered : Bool
  killed : Bool
  filled : Bool
  fills : List SecondaryTrade
  bestOpposingPrice : Option Nat
  deriving DecidableEq, Repr

/-- How `recordFill` ends: with a settled trade, with one that stays pending, or without a trade
    because a party or its wallet is missing. The last two throw. -/
inductive Settlement where
  | settled
  | unsettled
  | rejected
  deriving DecidableEq, Repr

/-- What one call of `matchOrder` meets: the time, whether the query for its makers answers, and
    how the settlement with each maker ends. -/
structure MatchEnv where
  now : Nat
  answers : Bool
  settle : Nat → Settlement

/-! ## Fills -/

/-- The trade that `recordFill` writes. -/
def fillTrade (taker maker : SecondaryOrder) (amount : Nat) (status : TradeStatus) :
    SecondaryTrade where
  takerOrder := taker.n
  makerOrder := maker.n
  sellerId := if taker.side = .sell then taker.userId else maker.userId
  buyerId := if taker.side = .sell then maker.userId else taker.userId
  tokenCode := taker.tokenCode
  tokenAmount := amount
  pricePerToken := maker.pricePerToken
  status := status

/-- A settled fill: the trade, then the two rows. -/
def Book.fill (b : Book) (taker maker : SecondaryOrder) (amount : Nat) : Book :=
  ((b.addTrade (fillTrade taker maker amount .settled)).save (taker.fill amount)).save
    (maker.fill amount)

/-- The loop over the makers. -/
def sweepMakers (settle : Nat → Settlement) :
    List SecondaryOrder → SecondaryOrder → List SecondaryTrade → Book →
      SecondaryOrder × List SecondaryTrade × Book
  | [], order, fills, b => (order, fills, b)
  | maker :: makers, order, fills, b =>
    if order.remaining ≤ qtyEpsilon then (order, fills, b)
    else if maker.userId = order.userId then sweepMakers settle makers order fills b
    else if maker.remaining ≤ qtyEpsilon then sweepMakers settle makers order fills b
    else
      let amount := min order.remaining maker.remaining
      if amount ≤ qtyEpsilon then sweepMakers settle makers order fills b
      else
        match settle maker.n with
        | .settled =>
          sweepMakers settle makers (order.fill amount)
            (fills ++ [fillTrade order maker amount .settled]) (b.fill order maker amount)
        | .unsettled => (order, fills, b.addTrade (fillTrade order maker amount .pending))
        | .rejected => (order, fills, b)

/-! ## Matching -/

/-- The size that a fill-or-kill order finds on the book. -/
def available (order : SecondaryOrder) (makers : List SecondaryOrder) : Nat :=
  ((makers.filter fun m => m.userId ≠ order.userId).map SecondaryOrder.remaining).sum

def killsFok (order : SecondaryOrder) (makers : List SecondaryOrder) : Bool :=
  order.type = .fok ∧ available order makers + qtyEpsilon < order.remaining

/-- `matchOrder` of a live order that is not dormant. -/
def matchLive (env : MatchEnv) (order : SecondaryOrder) (b : Book) :
    Except OrderError MatchOrderResult × Book :=
  if env.answers = false then (.error .database, b)
  else
    let makers := b.findCrossingMakers env.now order
    let bestOpposingPrice := makers.head?.map SecondaryOrder.pricePerToken
    if killsFok order makers then
      let killed := { order with status := .cancelled }
      (.ok ⟨killed, order.triggeredAt.isSome, true, false, [], bestOpposingPrice⟩, b.save killed)
    else
      let swept := sweepMakers env.settle makers order [] b
      (.ok ⟨swept.1, swept.1.triggeredAt.isSome, false, swept.1.status = .filled, swept.2.1,
        bestOpposingPrice⟩, swept.2.2)

/-- The market price has crossed the trigger of a stop order. -/
def armsNow (b : Book) (order : SecondaryOrder) : Bool :=
  (b.getLastPrice order.tokenCode).any order.triggerSatisfied

def matchOrder (orderId : OrderKey) (env : MatchEnv) (b : Book) :
    Except OrderError MatchOrderResult × Book :=
  match b.getOrder orderId with
  | none => (.error .orderNotFound, b)
  | some order =>
    let empty : MatchOrderResult := ⟨order, false, false, false, [], none⟩
    if order.isTerminal then (.ok empty, b)
    else if order.isExpired env.now then
      let expired := { order with status := .expired }
      (.ok { empty with order := expired }, b.save expired)
    else if order.isDormant then
      if armsNow b order then matchLive env (order.arm env.now) (b.save (order.arm env.now))
      else (.ok empty, b)
    else matchLive env order b

/-! ## Sweeps -/

/-- The stop orders that `processStopLossTriggers` arms at the market price. -/
def armedByPrice (tokenCode : String) (marketPrice : Nat) (o : SecondaryOrder) : Bool :=
  o.tokenCode = tokenCode ∧ o.type = .stopLoss ∧ o.status = .opened ∧
    0 < o.triggerPrice.getD 0 ∧ o.triggerSatisfied marketPrice

def processStopLossTriggers (tokenCode : String) (now : Nat) (b : Book) : Book :=
  match b.getLastPrice tokenCode with
  | none => b
  | some marketPrice =>
    (b.orders.filter (armedByPrice tokenCode marketPrice)).foldl (fun b o => b.save (o.arm now)) b

/-- The resting orders of the token, oldest first. -/
def restingOrders (b : Book) (tokenCode : String) : List SecondaryOrder :=
  (b.orders.filter fun o => o.tokenCode = tokenCode ∧ o.isResting).insertionSort
    fun o o' => o.createdAt ≤ o'.createdAt

/-- The loop of `matchOpenOrders`. An order whose match fails is passed over. -/
def matchEach (env : Nat → MatchEnv) (orders : List SecondaryOrder) (b : Book) : Book :=
  orders.foldl (fun b o => (matchOrder o.orderId (env o.n) b).2) b

/-- `matchOpenOrders`, with the time at which the stop orders are armed and what each order's
    match meets. -/
def matchOpenOrders (tokenCode : String) (now : Nat) (env : Nat → MatchEnv) (b : Book) : Book :=
  let b := processStopLossTriggers tokenCode now b
  matchEach env (restingOrders b tokenCode) b

/-! ## Orders -/

/-- A request for an order; its amounts and prices are in units and not yet rounded. -/
structure CreateSecondaryOrderDto where
  tokenCode : String
  side : Side
  type : Option OrderType
  tokenAmount : Rat
  pricePerToken : Rat
  triggerPrice : Option Rat
  stopDirection : Option StopDirection
  expiresAt : Option Nat

/-- `roundAmount`, in units. -/
def roundAmount (value : Rat) : Nat := (Stellar.toFixed7 value).toNat

def resolveStopDirection (requested : Option StopDirection) (side : Side) : StopDirection :=
  requested.getD (match side with | .sell => .below | .buy => .above)

/-- The checks on a stop order's trigger. -/
def checkTrigger (dto : CreateSecondaryOrderDto) (type : OrderType) (lastPrice : Option Nat) :
    Except OrderError Unit := do
  if type = .stopLoss then
    let triggerPrice ← okOr dto.triggerPrice .triggerPriceRequired
    failIf (triggerPrice ≤ 0) .triggerPriceNotPositive
    failIf (lastPrice.any fun price =>
      isTriggerSatisfied (resolveStopDirection dto.stopDirection dto.side) price triggerPrice)
      .stopAlreadyCrossed
  else pure ()

/-- `createOrder` up to the insertion of the row, which the table's checks can still refuse.
    `wallet` is `none` when there is no such user. -/
def acceptOrder (wallet : Option Bool) (userId : Nat) (dto : CreateSecondaryOrderDto) (now : Nat)
    (b : Book) : Except OrderError SecondaryOrder := do
  let hasWallet ← okOr wallet .userNotFound
  failIf (hasWallet = false) .noWallet
  failIf (dto.tokenAmount ≤ 0) .tokenAmountNotPositive
  failIf (dto.pricePerToken ≤ 0) .priceNotPositive
  let type := dto.type.getD .limit
  checkTrigger dto type (b.getLastPrice dto.tokenCode)
  let stop := type = .stopLoss
  let order : SecondaryOrder :=
    { n := b.orders.length, userId, dealId := none, side := dto.side, type
      tokenCode := dto.tokenCode, tokenAmount := roundAmount dto.tokenAmount, filledAmount := 0
      pricePerToken := roundAmount dto.pricePerToken
      triggerPrice := if stop then dto.triggerPrice.map roundAmount else none
      stopDirection := if stop then some (resolveStopDirection dto.stopDirection dto.side) else none
      status := .opened, expiresAt := dto.expiresAt, triggeredAt := none, createdAt := now }
  failIf (order.tokenAmount = 0 ∨ 20 < order.tokenCode.length) .database
  pure order

/-- `createOrder`. It matches by the `id` of the row it has inserted. -/
def createOrder (wallet : Option Bool) (userId : Nat) (dto : CreateSecondaryOrderDto) (now : Nat)
    (env : MatchEnv) (b : Book) : Except OrderError MatchOrderResult × Book :=
  match acceptOrder wallet userId dto now b with
  | .error e => (.error e, b)
  | .ok order => matchOrder order.id env (b.insert order)

def cancelOrder (orderId : OrderKey) (userId : Nat) (b : Book) :
    Except OrderError SecondaryOrder × Book :=
  match b.getOrder orderId with
  | none => (.error .orderNotFound, b)
  | some order =>
    if order.userId ≠ userId then (.error .notMaker, b)
    else if order.isResting = false then (.error .notResting, b)
    else
      let cancelled := { order with status := .cancelled }
      (.ok cancelled, b.save cancelled)

/-! ## The system -/

inductive Action where
  | createOrder (wallet : Option Bool) (userId : Nat) (dto : CreateSecondaryOrderDto) (now : Nat)
      (env : MatchEnv)
  | cancelOrder (orderId : OrderKey) (userId : Nat)
  | matchOrder (orderId : OrderKey) (env : MatchEnv)
  | matchOpenOrders (tokenCode : String) (now : Nat) (env : Nat → MatchEnv)

def next (b : Book) : Action → Option Book
  | .createOrder wallet userId dto now env => some (createOrder wallet userId dto now env b).2
  | .cancelOrder orderId userId => some (cancelOrder orderId userId b).2
  | .matchOrder orderId env => some (matchOrder orderId env b).2
  | .matchOpenOrders tokenCode now env => some (matchOpenOrders tokenCode now env b)

def start : Book := ⟨[], []⟩

abbrev BookRun (xs : List (Step Book Action)) (b : Book) : Prop := Run next start xs b

end AgriFi.OrderBook
