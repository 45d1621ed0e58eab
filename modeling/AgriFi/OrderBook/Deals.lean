import AgriFi.OrderBook.Matching

/-
  The deal-scoped routes of `MarketplaceSettlementService`: orders placed for a trade deal rest on
  the book of the deal's token, or of the placeholder `UNSET`. The book does not say for which
  deal an order was placed (its `dealId` is set after the matching), so that `DealBook` keeps it
  beside the book.
-/

namespace AgriFi.OrderBook

open AgriFi.Runs

/-- The deal has a token symbol; `tokenSymbol` is `none` when there is no such deal. -/
def hasSymbol (tokenSymbol : Option String) : Bool := tokenSymbol.any (· ≠ "")

/-- `deal?.[0]?.token_symbol || 'UNSET'`. -/
def resolveDealTokenCode (tokenSymbol : Option String) : String :=
  if hasSymbol tokenSymbol then tokenSymbol.getD "" else "UNSET"

/-- The request of a seller or a buyer; the price and the quantity are in units. -/
structure DealOrderDto where
  userId : Nat
  dealId : Nat
  price : Rat
  quantity : Rat
  expiry : Option Nat

/-- What a call meets: the deal's token symbol, the user's wallet, the time of the insertion and
    the environment of the match. -/
structure DealOrderEnv where
  tokenSymbol : Option String
  wallet : Option Bool
  now : Nat
  matching : MatchEnv

def createDealOrder (side : Side) (dto : DealOrderDto) (e : DealOrderEnv) (b : Book) :
    Except OrderError MatchOrderResult × Book :=
  let request : CreateSecondaryOrderDto :=
    { tokenCode := resolveDealTokenCode e.tokenSymbol, side, type := some .limit
      tokenAmount := dto.quantity, pricePerToken := dto.price, triggerPrice := none
      stopDirection := none, expiresAt := dto.expiry }
  match createOrder e.wallet dto.userId request e.now e.matching b with
  | (.error error, b) => (.error error, b)
  | (.ok result, b) =>
    let order := { result.order with dealId := some dto.dealId }
    (.ok { result with order }, b.save order)

def createSellOrder :
    DealOrderDto → DealOrderEnv → Book → Except OrderError MatchOrderResult × Book :=
  createDealOrder .sell

def createBuyOrder :
    DealOrderDto → DealOrderEnv → Book → Except OrderError MatchOrderResult × Book :=
  createDealOrder .buy

/-- What a sweep of a token meets: the time at which the stop orders are armed, and the
    environment of each match. -/
structure SweepEnv where
  now : Nat
  matching : Nat → MatchEnv

/-- `matchOrders`, the sweep of every token that has orders of the deal. -/
def matchOrders (dealId : Nat) (e : String → SweepEnv) (b : Book) : Book :=
  let rows := b.orders.filter fun o => o.dealId = some dealId
  (rows.map SecondaryOrder.tokenCode).eraseDups.foldl
    (fun b tokenCode => matchOpenOrders tokenCode (e tokenCode).now (e tokenCode).matching b) b

/-! ## The system -/

/-- The deal for which an order was placed, and the symbol that it had. -/
structure Placement where
  dealId : Nat
  tokenSymbol : Option String
  deriving DecidableEq, Repr

/-- The book, and the placement of each of its rows. -/
structure DealBook where
  book : Book
  placed : List Placement
  deriving DecidableEq, Repr

inductive DealAction where
  | createSellOrder (dto : DealOrderDto) (e : DealOrderEnv)
  | createBuyOrder (dto : DealOrderDto) (e : DealOrderEnv)
  | matchOrders (dealId : Nat) (e : String → SweepEnv)
  | matchOpenOrders (tokenCode : String) (e : SweepEnv)

/-- The book after the call, and the placement of the row that it inserted, if any. -/
def DealBook.place (s : DealBook) (dto : DealOrderDto) (e : DealOrderEnv) (book : Book) :
    DealBook where
  book := book
  placed := s.placed ++
    List.replicate (book.orders.length - s.book.orders.length) ⟨dto.dealId, e.tokenSymbol⟩

def dealNext (s : DealBook) : DealAction → Option DealBook
  | .createSellOrder dto e => some (s.place dto e (createSellOrder dto e s.book).2)
  | .createBuyOrder dto e => some (s.place dto e (createBuyOrder dto e s.book).2)
  | .matchOrders dealId e => some { s with book := matchOrders dealId e s.book }
  | .matchOpenOrders tokenCode e =>
    some { s with book := matchOpenOrders tokenCode e.now e.matching s.book }

def dealStart : DealBook := ⟨start, []⟩

abbrev DealRun (xs : List (Step DealBook DealAction)) (s : DealBook) : Prop :=
  Run dealNext dealStart xs s

end AgriFi.OrderBook
