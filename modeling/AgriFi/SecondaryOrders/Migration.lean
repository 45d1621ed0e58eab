import AgriFi.Rows

/-
  The migration of the split order book into `secondary_orders`
  (`src/database/migrations/1960000000000-MigrateSecondaryOrdersToUnifiedTable.ts`) and back. A table
  is the list of its rows; an insertion fails when a row breaks a constraint, and then the whole
  migration does. Ids and owners are uuids, decimals are counted in the seventh place, and `now` is
  the time of the migration. An order id is the pair that its text is written from.
-/

namespace AgriFi.SecondaryOrders

open AgriFi.Rows

abbrev Uuid := Nat

/-! ## The tables -/

/-- A row of `secondary_sell_orders`. -/
structure SellOrder where
  id : Uuid
  investmentId : Uuid
  sellerId : Uuid
  dealId : Uuid
  askPrice : Int
  quantity : Int
  filledQuantity : Int
  expiry : Option Int
  status : String
  createdAt : Int
  updatedAt : Int
  deriving DecidableEq

/-- A row of `secondary_buy_orders`. -/
structure BuyOrder where
  id : Uuid
  dealId : Uuid
  buyerId : Uuid
  bidPrice : Int
  quantity : Int
  filledQuantity : Int
  expiry : Option Int
  status : String
  createdAt : Int
  updatedAt : Int
  deriving DecidableEq

inductive Side where
  | buy
  | sell
  deriving DecidableEq

inductive OrderType where
  | limit
  | fok
  | stopLoss
  deriving DecidableEq

inductive StopDirection where
  | above
  | below
  deriving DecidableEq

/-- A row of `secondary_orders`, but for its generated id. -/
structure SecondaryOrder where
  /-- `'legacy-sell-' || id` or `'legacy-buy-' || id`. -/
  orderId : Side × Uuid
  userId : Option Uuid
  dealId : Option Uuid
  investmentId : Option Uuid
  side : Side
  type : OrderType
  tokenCode : String
  tokenAmount : Int
  filledAmount : Int
  pricePerToken : Int
  triggerPrice : Option Int
  stopDirection : Option StopDirection
  status : String
  expiresAt : Option Int
  cancelledAt : Option Int
  cancelReason : Option String
  createdAt : Int
  updatedAt : Int
  deriving DecidableEq

structure TradeDeal where
  id : Uuid
  tokenSymbol : String

/-- What the migration finds. -/
structure Database where
  users : List Uuid
  tradeDeals : List TradeDeal
  sells : List SellOrder
  buys : List BuyOrder
  sells_key : (sells.map SellOrder.id).Nodup
  buys_key : (buys.map BuyOrder.id).Nodup

/-- The statuses of an order that can still be matched. -/
def liveStatuses : List String := ["open", "triggered", "partially_filled"]

def statuses : List String :=
  ["open", "triggered", "partially_filled", "filled", "cancelled", "expired"]

/-! ## Insertion -/

/-- What a `VARCHAR(n)` column stores of a text: excess spaces are cut off. -/
def varchar (n : Nat) (text : String) : Option String :=
  if text.length ≤ n then some text
  else if (text.toList.drop n).all (· = ' ') then some (String.ofList (text.toList.take n))
  else none

/-- `CHK_secondary_orders_status`. -/
def CheckStatus (status : String) : Prop := status ∈ statuses

/-- `CHK_secondary_orders_amounts`. -/
def CheckAmounts (tokenAmount filledAmount : Int) : Prop :=
  0 < tokenAmount ∧ 0 ≤ filledAmount ∧ filledAmount ≤ tokenAmount

/-- `CHK_secondary_orders_stop`. -/
def SecondaryOrder.CheckStop (order : SecondaryOrder) : Prop :=
  order.type = .stopLoss → order.triggerPrice.isSome ∧ order.stopDirection.isSome

instance (status : String) : Decidable (CheckStatus status) :=
  inferInstanceAs (Decidable (_ ∈ _))

instance (tokenAmount filledAmount : Int) : Decidable (CheckAmounts tokenAmount filledAmount) :=
  inferInstanceAs (Decidable (_ ∧ _))

instance (order : SecondaryOrder) : Decidable order.CheckStop :=
  inferInstanceAs (Decidable (_ → _))

/-- The row breaks no constraint of the table. -/
structure Database.Admits (db : Database) (order : SecondaryOrder) : Prop where
  user : ∀ userId ∈ order.userId, userId ∈ db.users
  tokenCode : (varchar 20 order.tokenCode).isSome
  status : CheckStatus order.status
  amounts : CheckAmounts order.tokenAmount order.filledAmount
  stop : order.CheckStop

theorem Database.admits_iff {db : Database} {order : SecondaryOrder} : db.Admits order ↔
    (∀ userId ∈ order.userId, userId ∈ db.users) ∧ (varchar 20 order.tokenCode).isSome ∧
      CheckStatus order.status ∧ CheckAmounts order.tokenAmount order.filledAmount ∧
      order.CheckStop :=
  ⟨fun h => ⟨h.1, h.2, h.3, h.4, h.5⟩, fun ⟨h1, h2, h3, h4, h5⟩ => ⟨h1, h2, h3, h4, h5⟩⟩

instance (db : Database) (order : SecondaryOrder) : Decidable (db.Admits order) :=
  decidable_of_iff' _ Database.admits_iff

def SecondaryOrder.stored (order : SecondaryOrder) : SecondaryOrder :=
  { order with tokenCode := (varchar 20 order.tokenCode).getD order.tokenCode }

/-- `INSERT … WHERE NOT EXISTS … ON CONFLICT (order_id) DO NOTHING`. -/
def Database.insert (db : Database) (table orders : List SecondaryOrder) :
    Option (List SecondaryOrder) :=
  let new := orders.filter fun order => order.orderId ∉ table.map SecondaryOrder.orderId
  if ∀ order ∈ new, db.Admits order then
    some (insertIgnoring SecondaryOrder.orderId table (new.map SecondaryOrder.stored))
  else none

/-! ## `up` -/

/-- The symbol of the deal that is joined. -/
def Database.tokenSymbol (db : Database) (dealId : Uuid) : Option String :=
  (db.tradeDeals.find? (·.id = dealId)).map TradeDeal.tokenSymbol

def Database.fromSell (db : Database) (s : SellOrder) : SecondaryOrder where
  orderId := (.sell, s.id)
  userId := some s.sellerId
  dealId := some s.dealId
  investmentId := some s.investmentId
  side := .sell
  type := .limit
  tokenCode := (db.tokenSymbol s.dealId).getD "UNSET"
  tokenAmount := s.quantity
  filledAmount := min s.filledQuantity s.quantity
  pricePerToken := s.askPrice
  triggerPrice := none
  stopDirection := none
  status := s.status
  expiresAt := s.expiry
  cancelledAt := none
  cancelReason := none
  createdAt := s.createdAt
  updatedAt := s.updatedAt

def Database.fromBuy (db : Database) (b : BuyOrder) : SecondaryOrder where
  orderId := (.buy, b.id)
  userId := some b.buyerId
  dealId := some b.dealId
  investmentId := none
  side := .buy
  type := .limit
  tokenCode := (db.tokenSymbol b.dealId).getD "UNSET"
  tokenAmount := b.quantity
  filledAmount := min b.filledQuantity b.quantity
  pricePerToken := b.bidPrice
  triggerPrice := none
  stopDirection := none
  status := b.status
  expiresAt := b.expiry
  cancelledAt := none
  cancelReason := none
  createdAt := b.createdAt
  updatedAt := b.updatedAt

/-- Legacy rows carrying the placeholder must not be matched. -/
def SecondaryOrder.Unmatchable (order : SecondaryOrder) : Prop :=
  order.tokenCode = "UNSET" ∧ order.status ∈ liveStatuses

instance (order : SecondaryOrder) : Decidable order.Unmatchable :=
  inferInstanceAs (Decidable (_ ∧ _))

def SecondaryOrder.cancel (now : Int) (order : SecondaryOrder) : SecondaryOrder :=
  { order with
    status := "cancelled"
    cancelReason := some "migrated_unset_token"
    cancelledAt := some now }

/-- `up`: the rows of `secondary_orders`. -/
def Database.up (db : Database) (now : Int) : Option (List SecondaryOrder) := do
  let sells ← db.insert [] (db.sells.map db.fromSell)
  let orders ← db.insert sells (db.buys.map db.fromBuy)
  some (update (fun order => order.Unmatchable) (SecondaryOrder.cancel now) orders)

/-! ## `down` -/

/-- The row that is restored of a sell order, whose id is its investment's. -/
def SecondaryOrder.toSell (order : SecondaryOrder) : Option SellOrder := do
  let investmentId ← order.investmentId
  let dealId ← order.dealId
  let userId ← order.userId
  if order.side = .sell then
    some {
      id := investmentId
      investmentId
      sellerId := userId
      dealId
      askPrice := order.pricePerToken
      quantity := order.tokenAmount
      filledQuantity := order.filledAmount
      expiry := order.expiresAt
      status := order.status
      createdAt := order.createdAt
      updatedAt := order.updatedAt }
  else none

/-- `down`: the sell orders and the buy orders. -/
def down (orders : List SecondaryOrder) : List SellOrder × List BuyOrder :=
  (insertIgnoring SellOrder.id [] (orders.filterMap SecondaryOrder.toSell), [])

end AgriFi.SecondaryOrders
