import AgriFi.Binary64
import Mathlib.Data.List.Sort

/-
  `frontend/src/lib/social-trading/copy-trading.ts`: the copy-trading engine and its simulation of a
  window of trades. Numbers are doubles, none of them NaN or infinite; how a number, a date or a
  name is written, compared and normalised is given as a `Locale`.
-/

namespace AgriFi.SocialTrading

open AgriFi.Binary64

/-! ## Data -/

inductive RiskRating where
  | Low
  | Medium
  | High
  deriving DecidableEq

inductive CopyMode where
  | proportional
  | fixed
  | inverse_risk
  deriving DecidableEq

structure CopyConfig where
  id : String
  followerId : String
  traderId : String
  mode : CopyMode
  allocationPct : Rat
  fixedAmountUsd : Rat
  riskBudgetPct : Rat
  maxPerTrade : Rat
  monthlyLimit : Rat
  minTradeValue : Rat
  autoStopLossPct : Rat
  autoTakeProfitPct : Rat
  maxDrawdownPct : Rat
  feeBps : Rat
  blacklist : List String
  enabled : Bool
  createdAt : String

structure OpenPosition where
  dealId : String
  traderId : String
  openedAt : String
  investedUsd : Rat
  currentUsd : Rat

structure AutoStopState where
  active : Bool
  reason : Option String
  stoppedAt : Option String

structure PortfolioState where
  followerId : String
  cashUsd : Rat
  followerAumUsd : Rat
  leaderAumUsd : Rat
  monthSpendUsd : Rat
  monthKey : String
  positions : List OpenPosition
  copiedDealIds : List String
  equityUsd : Rat
  peakEquityUsd : Rat
  drawdownPct : Rat
  unrealizedPct : Rat
  autoStop : AutoStopState
  startingEquityUsd : Rat

structure CopyTradeEvent where
  dealId : String
  date : String
  amountUsd : Rat
  commodity : String
  region : String
  riskRating : RiskRating
  expectedRoiPct : Rat
  realizedRoiPct : Option Rat

structure CopyOrder where
  id : String
  configId : String
  followerId : String
  traderId : String
  dealId : String
  commodity : String
  region : String
  createdAt : String
  leaderAmountUsd : Rat
  sizedAmountUsd : Rat
  amountUsd : Rat
  feeUsd : Rat
  expectedRoiPct : Rat
  sizingBasis : CopyMode

inductive CopyRejectionCode where
  | BELOW_MINIMUM
  | EXCEEDS_PER_TRADE_LIMIT
  | MONTHLY_LIMIT_REACHED
  | BLACKLISTED
  | AUTO_STOP_ACTIVE
  | DUPLICATE
  | INSUFFICIENT_BALANCE
  | NOT_FOLLOWING
  | COPY_DISABLED
  | INVALID_INPUT
  deriving DecidableEq

/-- `REJECTION_MESSAGES`. -/
def CopyRejectionCode.message : CopyRejectionCode → String
  | .BELOW_MINIMUM => "The copied ticket falls below your minimum trade size."
  | .EXCEEDS_PER_TRADE_LIMIT => "The leader ticket exceeds your per-trade cap."
  | .MONTHLY_LIMIT_REACHED => "You have used up this month's copy allowance."
  | .BLACKLISTED => "This deal matches an entry on your copy blacklist."
  | .AUTO_STOP_ACTIVE => "Auto-stop is active, so copying is paused."
  | .DUPLICATE => "You already hold a copy of this deal."
  | .INSUFFICIENT_BALANCE => "Not enough available balance to copy this trade."
  | .NOT_FOLLOWING => "You are not following this trader."
  | .COPY_DISABLED => "Copy trading is switched off for this trader."
  | .INVALID_INPUT => "The trade or copy settings are not valid."

inductive Detail where
  | text (s : String)
  | num (x : Rat)

structure CopyRejection where
  code : CopyRejectionCode
  message : String
  details : List (String × Detail)

inductive CopyDecision where
  | accepted (message : String) (order : CopyOrder)
  | rejected (rejection : CopyRejection)

/-- A number in a template, `String(s).trim().toLowerCase()`, and `localeCompare`. -/
structure Locale where
  text : Rat → String
  normalize : String → String
  compare : String → String → Int

/-! ## Balances -/

def round2 (value : Rat) : Rat := roundCents value

def estimatedFees (amountUsd feeBps : Rat) : Rat :=
  if amountUsd ≤ 0 then 0 else round2 (div (mul amountUsd feeBps) 10000)

def positionValueUsd (portfolio : PortfolioState) : Rat :=
  sum (portfolio.positions.map (·.currentUsd))

def recomputePortfolio (portfolio : PortfolioState) : PortfolioState :=
  let equityUsd := round2 (add portfolio.cashUsd (positionValueUsd portfolio))
  let peakEquityUsd := max portfolio.peakEquityUsd equityUsd
  { portfolio with
    equityUsd
    followerAumUsd := equityUsd
    peakEquityUsd
    drawdownPct :=
      if 0 < peakEquityUsd then
        round2 (mul (div (sub peakEquityUsd equityUsd) peakEquityUsd) 100)
      else 0
    unrealizedPct :=
      if 0 < portfolio.startingEquityUsd then
        round2 (mul (sub (div equityUsd portfolio.startingEquityUsd) 1) 100)
      else 0 }

def remainingAllowance (config : CopyConfig) (portfolio : PortfolioState) : Rat :=
  max 0 (round2 (sub config.monthlyLimit portfolio.monthSpendUsd))

/-- `RISK_MULTIPLIERS`. -/
def RiskRating.multiplier : RiskRating → Rat
  | .Low => 1
  | .Medium => toDouble (6 / 10)
  | .High => toDouble (3 / 10)

def sizeCopyTrade (trade : CopyTradeEvent) (config : CopyConfig) (portfolio : PortfolioState) :
    Rat :=
  match config.mode with
  | .fixed => round2 config.fixedAmountUsd
  | .inverse_risk =>
    round2 (mul (mul portfolio.followerAumUsd (div config.riskBudgetPct 100))
      trade.riskRating.multiplier)
  | .proportional =>
    if portfolio.leaderAumUsd ≤ 0 then 0
    else
      let leaderWeight := div trade.amountUsd portfolio.leaderAumUsd
      round2 (mul (mul portfolio.followerAumUsd leaderWeight) (div config.allocationPct 100))

/-! ## Auto-stop -/

/-- The reason for which the portfolio is stopped. -/
def Locale.evaluateAutoStop (locale : Locale) (config : CopyConfig) (portfolio : PortfolioState) :
    Option String :=
  if portfolio.autoStop.active then
    some (portfolio.autoStop.reason.getD "Auto-stop previously triggered.")
  else if config.maxDrawdownPct ≤ portfolio.drawdownPct then
    some ("Drawdown " ++ locale.text portfolio.drawdownPct ++ "% has reached your " ++
      locale.text config.maxDrawdownPct ++ "% limit.")
  else if 0 < config.autoStopLossPct ∧ portfolio.unrealizedPct ≤ -config.autoStopLossPct then
    some ("Unrealised loss " ++ locale.text portfolio.unrealizedPct ++ "% has hit your -" ++
      locale.text config.autoStopLossPct ++ "% stop.")
  else if 0 < config.autoTakeProfitPct ∧ config.autoTakeProfitPct ≤ portfolio.unrealizedPct then
    some ("Unrealised gain " ++ locale.text portfolio.unrealizedPct ++ "% reached your +" ++
      locale.text config.autoTakeProfitPct ++ "% target.")
  else none

def Locale.refreshAutoStop (locale : Locale) (config : CopyConfig) (portfolio : PortfolioState)
    (now : String) : PortfolioState :=
  match locale.evaluateAutoStop config portfolio with
  | none => portfolio
  | some reason =>
    if portfolio.autoStop.active then portfolio
    else { portfolio with autoStop := ⟨true, some reason, some now⟩ }

/-! ## Orders -/

def Locale.isBlacklisted (locale : Locale) (trade : CopyTradeEvent) (config : CopyConfig) :
    Option String :=
  let entries := (config.blacklist.map locale.normalize).filter (· ≠ "")
  [trade.dealId, trade.commodity, trade.region].find? fun candidate =>
    entries.contains (locale.normalize candidate)

def reject (code : CopyRejectionCode) (proposedAmountUsd : Rat) (details : List (String × Detail)) :
    CopyDecision :=
  .rejected ⟨code, code.message, ("proposedAmountUsd", .num proposedAmountUsd) :: details⟩

/-- The order for a ticket of `amount`. -/
def orderOf (trade : CopyTradeEvent) (config : CopyConfig) (now : String)
    (sized amount feeUsd : Rat) : CopyOrder where
  id := "copy:" ++ config.id ++ ":" ++ trade.dealId
  configId := config.id
  followerId := config.followerId
  traderId := config.traderId
  dealId := trade.dealId
  commodity := trade.commodity
  region := trade.region
  createdAt := now
  leaderAmountUsd := round2 trade.amountUsd
  sizedAmountUsd := sized
  amountUsd := round2 amount
  feeUsd
  expectedRoiPct := trade.expectedRoiPct
  sizingBasis := config.mode

/-- `planCopyOrder` from the size of the ticket on. -/
def Locale.planSized (locale : Locale) (trade : CopyTradeEvent) (config : CopyConfig)
    (portfolio : PortfolioState) (now : String) : CopyDecision :=
  let sized := sizeCopyTrade trade config portfolio
  let remaining := remainingAllowance config portfolio
  let amount := min sized remaining
  let feeUsd := estimatedFees amount config.feeBps
  if sized < config.minTradeValue then
    reject .BELOW_MINIMUM sized
      [("minTradeValue", .num config.minTradeValue), ("sizedAmountUsd", .num sized)]
  else if remaining ≤ 0 then
    reject .MONTHLY_LIMIT_REACHED sized
      [("monthlyLimit", .num config.monthlyLimit), ("monthSpendUsd", .num portfolio.monthSpendUsd),
        ("remainingAllowanceUsd", .num 0)]
  else if config.maxPerTrade < sized then
    reject .EXCEEDS_PER_TRADE_LIMIT sized
      [("maxPerTrade", .num config.maxPerTrade), ("sizedAmountUsd", .num sized),
        ("leaderAmountUsd", .num (round2 trade.amountUsd))]
  else if amount < config.minTradeValue then
    reject .MONTHLY_LIMIT_REACHED sized
      [("remainingAllowanceUsd", .num remaining), ("minTradeValue", .num config.minTradeValue)]
  else if portfolio.cashUsd < add amount feeUsd then
    reject .INSUFFICIENT_BALANCE amount
      [("cashUsd", .num portfolio.cashUsd), ("requiredUsd", .num (round2 (add amount feeUsd)))]
  else
    let order := orderOf trade config now sized amount feeUsd
    .accepted ("Copying " ++ locale.text order.amountUsd ++ " USD of deal " ++ order.dealId ++ ".")
      order

def Locale.planCopyOrder (locale : Locale) (trade : CopyTradeEvent) (config : CopyConfig)
    (portfolio : PortfolioState) (following : Bool) (now : String) : CopyDecision :=
  if trade.amountUsd ≤ 0 ∨ config.minTradeValue < 0 ∨ config.maxPerTrade ≤ 0 ∨
      config.monthlyLimit ≤ 0 then
    reject .INVALID_INPUT 0
      [("tradeAmountUsd", .num trade.amountUsd), ("maxPerTrade", .num config.maxPerTrade),
        ("monthlyLimit", .num config.monthlyLimit)]
  else if config.enabled = false then
    reject .COPY_DISABLED 0 [("traderId", .text config.traderId)]
  else if following = false ∨ config.followerId ≠ portfolio.followerId then
    reject .NOT_FOLLOWING 0
      [("traderId", .text config.traderId), ("followerId", .text portfolio.followerId)]
  else match (locale.isBlacklisted trade config).filter (· ≠ "") with
    | some matched =>
      reject .BLACKLISTED 0 [("matched", .text matched), ("dealId", .text trade.dealId)]
    | none =>
      if portfolio.copiedDealIds.contains trade.dealId then
        reject .DUPLICATE 0 [("dealId", .text trade.dealId)]
      else match locale.evaluateAutoStop config portfolio with
        | some reason =>
          reject .AUTO_STOP_ACTIVE 0
            [("drawdownPct", .num portfolio.drawdownPct),
              ("unrealizedPct", .num portfolio.unrealizedPct), ("trigger", .text reason)]
        | none => locale.planSized trade config portfolio now

/-! ## The window -/

/-- `YYYY-MM` of a date that begins so, else the whole text. -/
def currentPeriod (isoDate : String) : String :=
  match isoDate.toList with
  | y₁ :: y₂ :: y₃ :: y₄ :: '-' :: m₁ :: m₂ :: _ =>
    if [y₁, y₂, y₃, y₄, m₁, m₂].all Char.isDigit then
      String.ofList [y₁, y₂, y₃, y₄, '-', m₁, m₂]
    else isoDate
  | _ => isoDate

def rolloverMonth (portfolio : PortfolioState) (isoDate : String) : PortfolioState :=
  if currentPeriod isoDate = portfolio.monthKey then portfolio
  else { portfolio with monthKey := currentPeriod isoDate, monthSpendUsd := 0 }

/-- `applyCopyOrders` with one order. -/
def applyCopyOrder (portfolio : PortfolioState) (order : CopyOrder) : PortfolioState :=
  recomputePortfolio { portfolio with
    cashUsd := round2 (sub (sub portfolio.cashUsd order.amountUsd) order.feeUsd)
    monthSpendUsd := round2 (add portfolio.monthSpendUsd order.amountUsd)
    positions := portfolio.positions ++
      [⟨order.dealId, order.traderId, order.createdAt, order.amountUsd, order.amountUsd⟩]
    copiedDealIds :=
      if portfolio.copiedDealIds.contains order.dealId then portfolio.copiedDealIds
      else portfolio.copiedDealIds ++ [order.dealId] }

def markToMarket (portfolio : PortfolioState) (roiPct : Rat) : PortfolioState :=
  let factor := add 1 (div roiPct 100)
  recomputePortfolio { portfolio with
    positions := portfolio.positions.map fun p =>
      { p with currentUsd := round2 (mul p.currentUsd factor) } }

def Locale.order (locale : Locale) (a b : CopyTradeEvent) : Int :=
  if locale.compare a.date b.date = 0 then locale.compare a.dealId b.dealId
  else locale.compare a.date b.date

def Locale.sortTradeEvents (locale : Locale) (trades : List CopyTradeEvent) : List CopyTradeEvent :=
  trades.insertionSort fun a b => locale.order a b ≤ 0

structure SimulationOptions where
  following : Bool
  markAfterEach : Bool

structure EquityPoint where
  date : String
  equityUsd : Rat
  drawdownPct : Rat

/-- What the loop of `simulateCopyWindow` carries. -/
structure Simulation where
  state : PortfolioState
  decisions : List (CopyTradeEvent × CopyDecision)
  orders : List CopyOrder
  rejections : List CopyRejection
  equityCurve : List EquityPoint

/-- The portfolio for which a trade is planned. -/
def Locale.planning (locale : Locale) (config : CopyConfig) (state : PortfolioState)
    (trade : CopyTradeEvent) : PortfolioState :=
  locale.refreshAutoStop config (rolloverMonth state trade.date) trade.date

/-- The portfolio when the trade is decided and the book is marked. -/
def settled (options : SimulationOptions) (state : PortfolioState) (trade : CopyTradeEvent) :
    CopyDecision → PortfolioState
  | .accepted _ order =>
    let state := applyCopyOrder state order
    if options.markAfterEach then
      markToMarket state (trade.realizedRoiPct.getD trade.expectedRoiPct)
    else state
  | .rejected _ =>
    match trade.realizedRoiPct with
    | some roiPct => if options.markAfterEach then markToMarket state roiPct else state
    | none => state

def CopyDecision.orders : CopyDecision → List CopyOrder
  | .accepted _ order => [order]
  | .rejected _ => []

def CopyDecision.rejections : CopyDecision → List CopyRejection
  | .accepted _ _ => []
  | .rejected rejection => [rejection]

/-- One round of the loop. -/
def Locale.simulateTrade (locale : Locale) (config : CopyConfig) (options : SimulationOptions)
    (sim : Simulation) (trade : CopyTradeEvent) : Simulation :=
  let state := locale.planning config sim.state trade
  let decision := locale.planCopyOrder trade config state options.following trade.date
  let state := locale.refreshAutoStop config (settled options state trade decision) trade.date
  { state
    decisions := sim.decisions ++ [(trade, decision)]
    orders := sim.orders ++ decision.orders
    rejections := sim.rejections ++ decision.rejections
    equityCurve := sim.equityCurve ++ [⟨trade.date, state.equityUsd, state.drawdownPct⟩] }

def Simulation.begin (config : CopyConfig) (portfolio : PortfolioState) : Simulation :=
  ⟨portfolio, [], [], [],
    [⟨(config.createdAt.take 10).toString, portfolio.equityUsd, portfolio.drawdownPct⟩]⟩

/-- The loop over trades that are in order. -/
def Locale.simulate (locale : Locale) (config : CopyConfig) (options : SimulationOptions)
    (portfolio : PortfolioState) (ordered : List CopyTradeEvent) : Simulation :=
  ordered.foldl (locale.simulateTrade config options) (.begin config portfolio)

structure SimulationResult where
  configId : String
  decisions : List (CopyTradeEvent × CopyDecision)
  orders : List CopyOrder
  rejections : List CopyRejection
  equityCurve : List EquityPoint
  finalPortfolio : PortfolioState
  deployedUsd : Rat
  feesUsd : Rat
  simulatedReturnPct : Rat

def Locale.simulateCopyWindow (locale : Locale) (trades : List CopyTradeEvent) (config : CopyConfig)
    (portfolio : PortfolioState) (options : SimulationOptions) : SimulationResult :=
  let sim := locale.simulate config options portfolio (locale.sortTradeEvents trades)
  { configId := config.id
    decisions := sim.decisions
    orders := sim.orders
    rejections := sim.rejections
    equityCurve := sim.equityCurve
    finalPortfolio := sim.state
    deployedUsd := round2 (sum (sim.orders.map (·.amountUsd)))
    feesUsd := round2 (sum (sim.orders.map (·.feeUsd)))
    simulatedReturnPct :=
      if 0 < sim.state.startingEquityUsd then
        round2 (mul (sub (div sim.state.equityUsd sim.state.startingEquityUsd) 1) 100)
      else 0 }

/-! ## Validation -/

structure FieldError where
  path : String
  message : String
  deriving DecidableEq

def errorIf (c : Prop) [Decidable c] (path message : String) : List FieldError :=
  if c then [⟨path, message⟩] else []

/-- The check of the field that the mode uses. -/
def modeErrors (config : CopyConfig) : List FieldError :=
  match config.mode with
  | .fixed =>
    if config.fixedAmountUsd ≤ 0 then
      [⟨"fixedAmountUsd", "Fixed copy amount must be greater than zero."⟩]
    else
      errorIf (config.maxPerTrade < config.fixedAmountUsd) "fixedAmountUsd"
        "Fixed amount exceeds the per-trade cap."
  | .proportional =>
    errorIf (config.allocationPct ≤ 0 ∨ 100 < config.allocationPct) "allocationPct"
      "Allocation must be between 1% and 100%."
  | .inverse_risk =>
    errorIf (config.riskBudgetPct ≤ 0 ∨ 100 < config.riskBudgetPct) "riskBudgetPct"
      "Risk budget must be between 1% and 100%."

def validateCopyConfig (config : CopyConfig) : List FieldError :=
  errorIf (config.minTradeValue < 0) "minTradeValue" "Minimum trade size must be zero or more." ++
  errorIf (config.maxPerTrade ≤ 0) "maxPerTrade" "Per-trade cap must be greater than zero." ++
  errorIf (config.monthlyLimit ≤ 0) "monthlyLimit" "Monthly limit must be greater than zero." ++
  errorIf (config.maxPerTrade < config.minTradeValue) "maxPerTrade"
    "Per-trade cap must be at least the minimum trade size." ++
  errorIf (config.monthlyLimit < config.minTradeValue) "monthlyLimit"
    "Monthly limit must be at least the minimum trade size." ++
  errorIf (config.monthlyLimit < config.maxPerTrade) "monthlyLimit"
    "Monthly limit cannot be lower than the per-trade cap." ++
  modeErrors config ++
  errorIf (config.autoStopLossPct < 0 ∨ 100 < config.autoStopLossPct) "autoStopLossPct"
    "Stop-loss must be between 0% and 100%." ++
  errorIf (config.autoTakeProfitPct < 0 ∨ 500 < config.autoTakeProfitPct) "autoTakeProfitPct"
    "Take-profit must be between 0% and 500%." ++
  errorIf (config.maxDrawdownPct ≤ 0 ∨ 100 < config.maxDrawdownPct) "maxDrawdownPct"
    "Max drawdown must be between 1% and 100%."

end AgriFi.SocialTrading
