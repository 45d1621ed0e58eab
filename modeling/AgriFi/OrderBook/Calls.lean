import AgriFi.OrderBook.Matching

/-
  The calls of `Matching.lean` run side by side. A call is a thread that holds the rows it has read
  and makes one operation at a time: a read or a save of a repository, or the settlement of a fill
  (`Pc`). Between two operations any other thread may run. A saved row is written whole, as the
  thread holds it. A trade is listed when its settlement ends; until then its row is pending, and
  nothing reads it. A thread that runs by itself does what the function of `Matching.lean` does
  (`CallsAlone.lean`).
-/

namespace AgriFi.OrderBook

open AgriFi.Runs

/-- The operation that a thread makes next, with the rows that it holds. -/
inductive Pc where
  /-- `matchOrder`: its order, then the market price for a dormant one, then the makers. -/
  | getOrder (orderId : OrderKey)
  | getLastPrice (order : SecondaryOrder)
  | findCrossingMakers (order : SecondaryOrder)
  | saveExpired (order : SecondaryOrder)
  | saveArmed (order : SecondaryOrder)
  | saveKilled (order : SecondaryOrder)
  /-- A fill with `maker`, and the saves of its two rows; `makers` are those that follow. -/
  | settle (order maker : SecondaryOrder) (makers : List SecondaryOrder)
  | saveTaker (order maker : SecondaryOrder) (makers : List SecondaryOrder)
  | saveMaker (order maker : SecondaryOrder) (amount : Nat) (makers : List SecondaryOrder)
  /-- `cancelOrder`. -/
  | getCancelled (orderId : OrderKey) (userId : Nat)
  | saveCancelled (order : SecondaryOrder)
  /-- `matchOpenOrders` up to the loop over the resting orders. -/
  | getMarketPrice (tokenCode : String)
  | findDormant (tokenCode : String) (marketPrice : Nat)
  | armNext (tokenCode : String) (order : SecondaryOrder) (orders : List SecondaryOrder)
  | findResting (tokenCode : String)
  | finished
  deriving DecidableEq, Repr

/-- A call; `todo` are the orders that its sweep has still to match. -/
structure Thread where
  pc : Pc
  todo : List OrderKey
  deriving DecidableEq, Repr

/-! ## Where a thread goes on -/

/-- The end of a match, by return or by a caught error. -/
def resume : List OrderKey → Thread
  | [] => ⟨.finished, []⟩
  | orderId :: todo => ⟨.getOrder orderId, todo⟩

/-- The maker that the loop fills next, and those behind it. -/
def nextFill (order : SecondaryOrder) :
    List SecondaryOrder → Option (SecondaryOrder × List SecondaryOrder)
  | [] => none
  | maker :: makers =>
    if order.remaining ≤ qtyEpsilon then none
    else if maker.userId = order.userId then nextFill order makers
    else if maker.remaining ≤ qtyEpsilon then nextFill order makers
    else if min order.remaining maker.remaining ≤ qtyEpsilon then nextFill order makers
    else some (maker, makers)

/-- The loop skips the makers of the same user and the filled ones. -/
theorem nextFill_cons (order maker : SecondaryOrder) (makers : List SecondaryOrder) :
    nextFill order (maker :: makers) =
      if order.remaining ≤ qtyEpsilon then none
      else if maker.userId = order.userId ∨ maker.remaining ≤ qtyEpsilon then
        nextFill order makers
      else some (maker, makers) := by
  rw [nextFill]
  by_cases hopen : order.remaining ≤ qtyEpsilon
  · rw [if_pos hopen, if_pos hopen]
  · rw [if_neg hopen, if_neg hopen]
    by_cases huser : maker.userId = order.userId
    · rw [if_pos huser, if_pos (.inl huser)]
    · by_cases hmaker : maker.remaining ≤ qtyEpsilon
      · rw [if_neg huser, if_pos hmaker, if_pos (.inr hmaker)]
      · rw [if_neg huser, if_neg hmaker, if_neg (by omega), if_neg (not_or.mpr ⟨huser, hmaker⟩)]

def fillNext (order : SecondaryOrder) (makers : List SecondaryOrder) (todo : List OrderKey) :
    Thread :=
  match nextFill order makers with
  | none => resume todo
  | some (maker, makers) => ⟨.settle order maker makers, todo⟩

def armRest (tokenCode : String) : List SecondaryOrder → Pc
  | [] => .findResting tokenCode
  | order :: orders => .armNext tokenCode order orders

/-! ## Operations -/

/-- `matchOrder` with its order read. -/
def opened (now : Nat) (order : SecondaryOrder) (todo : List OrderKey) : Thread :=
  if order.isTerminal then resume todo
  else if order.isExpired now then ⟨.saveExpired order, todo⟩
  else if order.isDormant then ⟨.getLastPrice order, todo⟩
  else ⟨.findCrossingMakers order, todo⟩

/-- `matchOrder` with its makers read. -/
def probed (order : SecondaryOrder) (makers : List SecondaryOrder) (todo : List OrderKey) :
    Thread :=
  if killsFok order makers then ⟨.saveKilled order, todo⟩ else fillNext order makers todo

/-- The next operation of a thread, and where it goes on from there. -/
def Thread.step (e : MatchEnv) (b : Book) : Thread → Option (Book × Thread)
  | ⟨.getOrder orderId, todo⟩ =>
    match b.getOrder orderId with
    | none => some (b, resume todo)
    | some order => some (b, opened e.now order todo)
  | ⟨.getLastPrice order, todo⟩ =>
    if armsNow b order then some (b, ⟨.saveArmed order, todo⟩) else some (b, resume todo)
  | ⟨.findCrossingMakers order, todo⟩ =>
    if e.answers = false then some (b, resume todo)
    else some (b, probed order (b.findCrossingMakers e.now order) todo)
  | ⟨.saveExpired order, todo⟩ => some (b.save { order with status := .expired }, resume todo)
  | ⟨.saveArmed order, todo⟩ =>
    some (b.save (order.arm e.now), ⟨.findCrossingMakers (order.arm e.now), todo⟩)
  | ⟨.saveKilled order, todo⟩ => some (b.save { order with status := .cancelled }, resume todo)
  | ⟨.settle order maker makers, todo⟩ =>
    let amount := min order.remaining maker.remaining
    match e.settle maker.n with
    | .settled =>
      some (b.addTrade (fillTrade order maker amount .settled),
        ⟨.saveTaker order maker makers, todo⟩)
    | .unsettled => some (b.addTrade (fillTrade order maker amount .pending), resume todo)
    | .rejected => some (b, resume todo)
  | ⟨.saveTaker order maker makers, todo⟩ =>
    let amount := min order.remaining maker.remaining
    some (b.save (order.fill amount), ⟨.saveMaker (order.fill amount) maker amount makers, todo⟩)
  | ⟨.saveMaker order maker amount makers, todo⟩ =>
    some (b.save (maker.fill amount), fillNext order makers todo)
  | ⟨.getCancelled orderId userId, todo⟩ =>
    match b.getOrder orderId with
    | none => some (b, resume todo)
    | some order =>
      if order.userId ≠ userId ∨ order.isResting = false then some (b, resume todo)
      else some (b, ⟨.saveCancelled order, todo⟩)
  | ⟨.saveCancelled order, todo⟩ => some (b.save { order with status := .cancelled }, resume todo)
  | ⟨.getMarketPrice tokenCode, todo⟩ =>
    match b.getLastPrice tokenCode with
    | none => some (b, ⟨.findResting tokenCode, todo⟩)
    | some marketPrice => some (b, ⟨.findDormant tokenCode marketPrice, todo⟩)
  | ⟨.findDormant tokenCode marketPrice, todo⟩ =>
    some (b, ⟨armRest tokenCode (b.orders.filter (armedByPrice tokenCode marketPrice)), todo⟩)
  | ⟨.armNext tokenCode order orders, todo⟩ =>
    some (b.save (order.arm e.now), ⟨armRest tokenCode orders, todo⟩)
  | ⟨.findResting tokenCode, _⟩ =>
    some (b, resume ((restingOrders b tokenCode).map SecondaryOrder.orderId))
  | ⟨.finished, _⟩ => none

/-! ## The system -/

inductive Call where
  | matchOrder (orderId : OrderKey)
  | cancelOrder (orderId : OrderKey) (userId : Nat)
  | matchOpenOrders (tokenCode : String)

def Call.start : Call → Thread
  | .matchOrder orderId => ⟨.getOrder orderId, []⟩
  | .cancelOrder orderId userId => ⟨.getCancelled orderId userId, []⟩
  | .matchOpenOrders tokenCode => ⟨.getMarketPrice tokenCode, []⟩

/-- The tables, the threads, and the orders whose `cancelOrder` has succeeded. -/
structure Calls where
  book : Book
  threads : List Thread
  cancelled : List Nat
  deriving DecidableEq, Repr

inductive CallAction where
  /-- The save of `createOrder`. -/
  | insert (order : SecondaryOrder)
  | call (c : Call)
  /-- The next operation of a thread. -/
  | operate (w : Nat) (e : MatchEnv)

/-- A row that `createOrder` can save. -/
def isNew (b : Book) (order : SecondaryOrder) : Bool :=
  order.n = b.orders.length ∧ order.status = .opened ∧ order.filledAmount = 0 ∧
    0 < order.tokenAmount ∧ order.triggeredAt = none

/-- The order whose `cancelOrder` succeeds with this operation. -/
def Pc.cancels : Pc → List Nat
  | .saveCancelled order => [order.n]
  | _ => []

def callNext (s : Calls) : CallAction → Option Calls
  | .insert order =>
    if isNew s.book order then some { s with book := s.book.insert order } else none
  | .call c => some { s with threads := s.threads ++ [c.start] }
  | .operate w e =>
    match s.threads[w]? with
    | none => none
    | some t =>
      (t.step e s.book).map fun r =>
        ⟨r.1, s.threads.set w r.2, s.cancelled ++ t.pc.cancels⟩

def callStart : Calls := ⟨start, [], []⟩

abbrev CallRun (xs : List (Step Calls CallAction)) (s : Calls) : Prop := Run callNext callStart xs s

end AgriFi.OrderBook
