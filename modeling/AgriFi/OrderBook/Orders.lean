import AgriFi.Soroban.Checked
import AgriFi.Stellar.EscrowRelease
import Mathlib.Data.List.Sort

/-
  The secondary market's book (`src/investments/entities/secondary-order.entity.ts` and
  `secondary-trade.entity.ts`) and the queries of
  `src/investments/marketplace-settlement.service.ts` on it. Amounts and prices are whole numbers
  of units of 1e-7, the scale of the columns, and `QTY_EPSILON` is one unit. Users and deals are
  numbers in place of their uuids. What the service writes and never reads (`filledAt`,
  `cancelledAt`, `cancelReason`, the fees of a trade) is left out.
-/

namespace AgriFi.OrderBook

inductive Side where
  | buy
  | sell
  deriving DecidableEq, Repr

inductive OrderType where
  | limit
  | fok
  | stopLoss
  deriving DecidableEq, Repr

inductive OrderStatus where
  | opened
  | triggered
  | partiallyFilled
  | filled
  | cancelled
  | expired
  deriving DecidableEq, Repr

inductive StopDirection where
  | above
  | below
  deriving DecidableEq, Repr

/-- What an order can be looked up by: the `id` of its row is a uuid, its `orderId` a string
    `sord-…`. No string is both. -/
inductive OrderKey where
  | uuid (n : Nat)
  | sord (n : Nat)
  deriving DecidableEq, Repr

/-- A row of `secondary_orders`. Rows are numbered in the order of their insertion. -/
structure SecondaryOrder where
  n : Nat
  userId : Nat
  dealId : Option Nat
  side : Side
  type : OrderType
  tokenCode : String
  tokenAmount : Nat
  filledAmount : Nat
  pricePerToken : Nat
  triggerPrice : Option Nat
  stopDirection : Option StopDirection
  status : OrderStatus
  expiresAt : Option Nat
  triggeredAt : Option Nat
  createdAt : Nat
  deriving DecidableEq, Repr

inductive TradeStatus where
  | pending
  | settled
  deriving DecidableEq, Repr

/-- A row of `secondary_trades`, with the two orders its `metadata` names. -/
structure SecondaryTrade where
  takerOrder : Nat
  makerOrder : Nat
  sellerId : Nat
  buyerId : Nat
  tokenCode : String
  tokenAmount : Nat
  pricePerToken : Nat
  status : TradeStatus
  deriving DecidableEq, Repr

/-- Both tables; trades are listed in the order in which they are written. -/
structure Book where
  orders : List SecondaryOrder
  trades : List SecondaryTrade
  deriving DecidableEq, Repr

/-! ## Orders -/

/-- `QTY_EPSILON`, in units. -/
def qtyEpsilon : Nat := 1

def oppositeSide : Side → Side
  | .buy => .sell
  | .sell => .buy

namespace SecondaryOrder

def id (o : SecondaryOrder) : OrderKey := .uuid o.n

def orderId (o : SecondaryOrder) : OrderKey := .sord o.n

/-- The size still open. The subtraction is cut off at zero, which is what the `Math.max(0, …)` and
    the comparisons with `QTY_EPSILON` make of it. -/
def remaining (o : SecondaryOrder) : Nat := o.tokenAmount - o.filledAmount

def isResting (o : SecondaryOrder) : Bool :=
  o.status = .opened ∨ o.status = .triggered ∨ o.status = .partiallyFilled

def isTerminal (o : SecondaryOrder) : Bool :=
  o.status = .filled ∨ o.status = .cancelled ∨ o.status = .expired

def isExpired (now : Nat) (o : SecondaryOrder) : Bool := o.expiresAt.any (· ≤ now)

/-- A stop order whose trigger has not fired. -/
def isDormant (o : SecondaryOrder) : Bool := o.type = .stopLoss ∧ o.triggeredAt = none

/-- The order once `amount` more of it is filled. -/
def fill (amount : Nat) (o : SecondaryOrder) : SecondaryOrder :=
  let filledAmount := o.filledAmount + amount
  { o with
    filledAmount
    status := if filledAmount + qtyEpsilon ≥ o.tokenAmount then .filled else .partiallyFilled }

def arm (now : Nat) (o : SecondaryOrder) : SecondaryOrder :=
  { o with status := .triggered, triggeredAt := some now }

end SecondaryOrder

/-! ## Queries -/

/-- The prices cross: the bid is at least the ask. -/
def crosses (taker maker : SecondaryOrder) : Bool :=
  match taker.side with
  | .buy => maker.pricePerToken ≤ taker.pricePerToken
  | .sell => taker.pricePerToken ≤ maker.pricePerToken

/-- The `WHERE` of `findCrossingMakers`. -/
def isCrossingMaker (now : Nat) (taker maker : SecondaryOrder) : Bool :=
  maker.tokenCode = taker.tokenCode ∧ maker.side = oppositeSide taker.side ∧ maker.isResting ∧
    maker.filledAmount < maker.tokenAmount ∧ ¬ maker.isExpired now ∧ crosses taker maker ∧
    ¬ maker.isDormant

/-- For an order of this side the first price is the better one to trade at. -/
def betterPrice : Side → Nat → Nat → Bool
  | .buy, price, price' => price < price'
  | .sell, price, price' => price' < price

/-- The `ORDER BY` of `findCrossingMakers`: the price best for the taker first, then the oldest. -/
def MakerBefore (taker m m' : SecondaryOrder) : Prop :=
  betterPrice taker.side m.pricePerToken m'.pricePerToken ∨
    m.pricePerToken = m'.pricePerToken ∧ m.createdAt ≤ m'.createdAt

instance (taker m m' : SecondaryOrder) : Decidable (MakerBefore taker m m') :=
  inferInstanceAs (Decidable (_ ∨ _))

def isTriggerSatisfied (direction : StopDirection) (marketPrice : Nat) (triggerPrice : Rat) :
    Bool :=
  if triggerPrice ≤ 0 then false
  else
    match direction with
    | .above => triggerPrice ≤ marketPrice
    | .below => marketPrice ≤ triggerPrice

/-- The trigger of a row; one without direction or trigger price is never satisfied. -/
def SecondaryOrder.triggerSatisfied (marketPrice : Nat) (o : SecondaryOrder) : Bool :=
  match o.stopDirection with
  | none => false
  | some direction => isTriggerSatisfied direction marketPrice (o.triggerPrice.getD 0)

namespace Book

/-- `findOne({ where: { orderId } })`. -/
def getOrder (b : Book) (orderId : OrderKey) : Option SecondaryOrder :=
  b.orders.find? fun o => o.orderId = orderId

/-- `orderRepo.save` of a row read before: it is written whole. -/
def save (b : Book) (o : SecondaryOrder) : Book := { b with orders := b.orders.set o.n o }

def insert (b : Book) (o : SecondaryOrder) : Book := { b with orders := b.orders ++ [o] }

def addTrade (b : Book) (t : SecondaryTrade) : Book := { b with trades := b.trades ++ [t] }

def findCrossingMakers (b : Book) (now : Nat) (taker : SecondaryOrder) : List SecondaryOrder :=
  (b.orders.filter (isCrossingMaker now taker)).insertionSort (MakerBefore taker)

/-- The price of the trade of the token that settled last. -/
def getLastPrice (b : Book) (tokenCode : String) : Option Nat :=
  (b.trades.filter fun t => t.status = .settled ∧ t.tokenCode = tokenCode).getLast?.map
    SecondaryTrade.pricePerToken

end Book

end AgriFi.OrderBook
