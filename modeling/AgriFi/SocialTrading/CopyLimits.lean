import AgriFi.SocialTrading.CopyTrading
import Mathlib.Tactic.MkIffOfInductiveProp

/-
  The limits of a simulated window of copy trades. The counter of the month is set to 0 whenever a
  trade is of another month, so what was spent is forgotten when a month comes back, as the month of
  the portfolio does when the window begins earlier (`month_forgotten`); a minimum of 0 lets tickets
  of 0 through; an allowance with a fraction of a cent is rounded, also up. `limits_respected`: with
  a minimum above 0, a monthly limit in whole cents, balances that doubles hold in cents, and months
  that do not come back, every limit holds and the cash is accounted for to the cent.
-/

namespace AgriFi.SocialTrading

open AgriFi.Binary64

/-! ## What is claimed -/

/-- The cents copied in a month, with what the portfolio has spent in its month. -/
def spentIn (portfolio : PortfolioState) (orders : List CopyOrder) (month : String) : Int :=
  (if month = portfolio.monthKey then toCents portfolio.monthSpendUsd else 0) +
    ((orders.filter fun o => currentPeriod o.createdAt = month).map fun o => toCents o.amountUsd).sum

/-- The cents of all amounts and fees. -/
def paid (orders : List CopyOrder) : Int :=
  (orders.map fun o => toCents o.amountUsd + toCents o.feeUsd).sum

/-- The portfolio when the trades `seen` are done. -/
def Locale.stateAfter (locale : Locale) (config : CopyConfig) (options : SimulationOptions)
    (portfolio : PortfolioState) (seen : List CopyTradeEvent) : PortfolioState :=
  (locale.simulate config options portfolio seen).state

structure Respects (locale : Locale) (trades : List CopyTradeEvent) (config : CopyConfig)
    (portfolio : PortfolioState) (options : SimulationOptions) : Prop where
  cash : ∀ seen, seen <+: locale.sortTradeEvents trades →
    0 ≤ (locale.stateAfter config options portfolio seen).cashUsd
  sizes : ∀ o ∈ (locale.simulateCopyWindow trades config portfolio options).orders,
    config.minTradeValue ≤ o.amountUsd ∧ o.amountUsd ≤ config.maxPerTrade ∧ 0 < o.amountUsd
  once : (portfolio.copiedDealIds.dedup ++
    (locale.simulateCopyWindow trades config portfolio options).orders.map (·.dealId)).Nodup
  monthly : ∀ o ∈ (locale.simulateCopyWindow trades config portfolio options).orders,
    cents (spentIn portfolio (locale.simulateCopyWindow trades config portfolio options).orders
      (currentPeriod o.createdAt)) ≤ config.monthlyLimit
  stopped : ∀ seen trade, seen ++ [trade] <+: locale.sortTradeEvents trades →
    (locale.planning config (locale.stateAfter config options portfolio seen)
      trade).autoStop.active = true →
    (locale.simulateCopyWindow trades config portfolio options).orders =
      (locale.simulate config options portfolio seen).orders
  accounts : (locale.simulateCopyWindow trades config portfolio options).finalPortfolio.cashUsd =
    cents (toCents portfolio.cashUsd -
      paid (locale.simulateCopyWindow trades config portfolio options).orders)

/-- The amounts of the portfolio that count are whole cents. -/
structure CentAmounts (portfolio : PortfolioState) : Prop where
  cash : roundCents portfolio.cashUsd = portfolio.cashUsd
  spend : roundCents portfolio.monthSpendUsd = portfolio.monthSpendUsd

/-! ## When it holds -/

/-- A month that was left, of those of `visited`, does not come back. The last one comes first. -/
def LeftForGood : List String → List String → Prop
  | _, [] => True
  | visited, month :: months =>
    (visited.head? = some month ∨ month ∉ visited) ∧ LeftForGood (month :: visited) months

instance : (visited months : List String) → Decidable (LeftForGood visited months)
  | _, [] => isTrue trivial
  | visited, month :: months =>
    @instDecidableAnd _ _ (inferInstanceAs (Decidable (_ ∨ _)))
      (instDecidableLeftForGood (month :: visited) months)

/-- The month of the portfolio, if something was spent in it. -/
def spentMonth (portfolio : PortfolioState) : List String :=
  if portfolio.monthSpendUsd = 0 then [] else [portfolio.monthKey]

@[mk_iff] structure Sound (locale : Locale) (trades : List CopyTradeEvent) (config : CopyConfig)
    (portfolio : PortfolioState) : Prop where
  minimum : 0 < config.minTradeValue
  limit : roundCents config.monthlyLimit = config.monthlyLimit
  cash : toCents portfolio.cashUsd ≤ 2 ^ 48
  spend : |toCents portfolio.monthSpendUsd| ≤ 2 ^ 48
  months : LeftForGood (spentMonth portfolio)
    ((locale.sortTradeEvents trades).map fun trade => currentPeriod trade.date)

instance (locale : Locale) (trades : List CopyTradeEvent) (config : CopyConfig)
    (portfolio : PortfolioState) : Decidable (Sound locale trades config portfolio) :=
  decidable_of_iff _ (sound_iff ..).symm

/-! ## What a round leaves as it is -/

section Rounds

variable {locale : Locale} {config : CopyConfig} {options : SimulationOptions}
  {portfolio state state' : PortfolioState} {trade : CopyTradeEvent} {order : CopyOrder}
  {sim : Simulation} {orders : List CopyOrder} {month now message : String}
  {decision : CopyDecision} {visited : List String}

/-- The fields that the limits are about are the same. -/
structure SameCounters (state state' : PortfolioState) : Prop where
  cashUsd : state'.cashUsd = state.cashUsd
  monthSpendUsd : state'.monthSpendUsd = state.monthSpendUsd
  monthKey : state'.monthKey = state.monthKey
  copiedDealIds : state'.copiedDealIds = state.copiedDealIds

theorem SameCounters.trans {state'' : PortfolioState} (h : SameCounters state state')
    (h' : SameCounters state' state'') : SameCounters state state'' :=
  ⟨h'.cashUsd.trans h.cashUsd, h'.monthSpendUsd.trans h.monthSpendUsd, h'.monthKey.trans h.monthKey,
    h'.copiedDealIds.trans h.copiedDealIds⟩

theorem sameCounters_refresh : SameCounters state (locale.refreshAutoStop config state now) := by
  unfold Locale.refreshAutoStop
  split
  · exact ⟨rfl, rfl, rfl, rfl⟩
  · split <;> exact ⟨rfl, rfl, rfl, rfl⟩

theorem sameCounters_mark (roiPct : Rat) : SameCounters state (markToMarket state roiPct) :=
  ⟨rfl, rfl, rfl, rfl⟩

theorem sameCounters_accepted (options : SimulationOptions) (state : PortfolioState)
    (trade : CopyTradeEvent) (message : String) (order : CopyOrder) :
    SameCounters (applyCopyOrder state order)
      (settled options state trade (.accepted message order)) := by
  unfold settled
  dsimp only
  split
  · exact sameCounters_mark _
  · exact ⟨rfl, rfl, rfl, rfl⟩

theorem sameCounters_rejected (options : SimulationOptions) (state : PortfolioState)
    (trade : CopyTradeEvent) (rejection : CopyRejection) :
    SameCounters state (settled options state trade (.rejected rejection)) := by
  unfold settled
  dsimp only
  split
  · split
    · exact sameCounters_mark _
    · exact ⟨rfl, rfl, rfl, rfl⟩
  · exact ⟨rfl, rfl, rfl, rfl⟩

/-! ## Auto-stop -/

theorem refresh_active (h : state.autoStop.active = true) :
    (locale.refreshAutoStop config state now).autoStop.active = true := by
  unfold Locale.refreshAutoStop
  split
  · exact h
  · rw [if_pos h]
    exact h

theorem planCopyOrder_stopped {following : Bool} (h : state.autoStop.active = true) :
    (locale.planCopyOrder trade config state following now).orders = [] := by
  have hstop : ∃ reason, locale.evaluateAutoStop config state = some reason := by
    unfold Locale.evaluateAutoStop
    rw [if_pos h]
    exact ⟨_, rfl⟩
  obtain ⟨reason, hreason⟩ := hstop
  unfold Locale.planCopyOrder
  rw [hreason]
  dsimp only
  repeat' split
  all_goals rfl

theorem settled_autoStop : (settled options state trade decision).autoStop = state.autoStop := by
  unfold settled
  repeat' split
  all_goals rfl

/-- From a stop on nothing is ordered, and the stop stays. -/
theorem simulateTrade_stopped (options : SimulationOptions)
    (h : (locale.planning config sim.state trade).autoStop.active = true) :
    (locale.simulateTrade config options sim trade).orders = sim.orders ∧
      (locale.simulateTrade config options sim trade).state.autoStop.active = true := by
  constructor
  · show sim.orders ++ _ = sim.orders
    rw [planCopyOrder_stopped h, List.append_nil]
  · refine refresh_active ?_
    rw [settled_autoStop]
    exact h

theorem planning_active (h : state.autoStop.active = true) :
    (locale.planning config state trade).autoStop.active = true := by
  refine refresh_active ?_
  unfold rolloverMonth
  split <;> exact h

theorem foldl_stopped {trades : List CopyTradeEvent} (h : sim.state.autoStop.active = true) :
    (trades.foldl (locale.simulateTrade config options) sim).orders = sim.orders := by
  induction trades generalizing sim with
  | nil => rfl
  | cons trade trades ih =>
    obtain ⟨horders, hactive⟩ := simulateTrade_stopped options (planning_active h)
    exact (ih hactive).trans horders

/-! ## Sums over the orders -/

theorem spentIn_concat : spentIn portfolio (orders ++ [order]) month =
    spentIn portfolio orders month +
      if currentPeriod order.createdAt = month then toCents order.amountUsd else 0 := by
  unfold spentIn
  rw [List.filter_append, List.map_append, List.sum_append]
  by_cases hmonth : currentPeriod order.createdAt = month
  · simp [hmonth]
    omega
  · simp [hmonth]

theorem paid_concat : paid (orders ++ [order]) =
    paid orders + (toCents order.amountUsd + toCents order.feeUsd) := by
  unfold paid
  rw [List.map_append, List.sum_append]
  simp

theorem paid_nonneg (h : ∀ o ∈ orders, 0 < toCents o.amountUsd ∧ 0 ≤ toCents o.feeUsd) :
    0 ≤ paid orders := by
  refine List.sum_nonneg fun n hn => ?_
  obtain ⟨o, ho, rfl⟩ := List.mem_map.mp hn
  obtain ⟨hamount, hfee⟩ := h o ho
  omega

theorem spentIn_near (portfolio : PortfolioState)
    (h : ∀ o ∈ orders, 0 < toCents o.amountUsd ∧ 0 ≤ toCents o.feeUsd) (month : String) :
    |spentIn portfolio orders month| ≤ |toCents portfolio.monthSpendUsd| + paid orders := by
  induction orders using List.reverseRecOn with
  | nil =>
    unfold spentIn paid
    by_cases hmonth : month = portfolio.monthKey <;> simp [hmonth]
  | append_singleton orders order ih =>
    have hlast := h order (by simp)
    have hold := ih fun o ho => h o (List.mem_append_left _ ho)
    rw [spentIn_concat, paid_concat]
    rw [abs_le] at hold ⊢
    split <;> constructor <;> omega

/-! ## An order -/

/-- The ticket, before the fee. -/
def ticket (trade : CopyTradeEvent) (config : CopyConfig) (state : PortfolioState) : Rat :=
  min (sizeCopyTrade trade config state) (remainingAllowance config state)

/-- What is known of an order that is accepted. -/
structure Planned (config : CopyConfig) (state : PortfolioState) (trade : CopyTradeEvent)
    (now : String) (order : CopyOrder) : Prop where
  limit : 0 < config.monthlyLimit
  fresh : trade.dealId ∉ state.copiedDealIds
  dealId : order.dealId = trade.dealId
  createdAt : order.createdAt = now
  amountUsd : order.amountUsd = roundCents (ticket trade config state)
  feeUsd : order.feeUsd = estimatedFees (ticket trade config state) config.feeBps
  least : config.minTradeValue ≤ ticket trade config state
  most : ticket trade config state ≤ config.maxPerTrade
  covered : add (ticket trade config state)
    (estimatedFees (ticket trade config state) config.feeBps) ≤ state.cashUsd

theorem reject_ne {code : CopyRejectionCode} {amount : Rat} {details : List (String × Detail)} :
    reject code amount details ≠ .accepted message order := nofun

theorem planned {following : Bool}
    (h : locale.planCopyOrder trade config state following now = .accepted message order) :
    Planned config state trade now order := by
  unfold Locale.planCopyOrder at h
  split at h
  · exact absurd h reject_ne
  next hvalid =>
  split at h
  · exact absurd h reject_ne
  split at h
  · exact absurd h reject_ne
  split at h
  · exact absurd h reject_ne
  split at h
  · exact absurd h reject_ne
  next hfresh =>
  split at h
  · exact absurd h reject_ne
  unfold Locale.planSized at h
  dsimp only at h
  split at h
  · exact absurd h reject_ne
  split at h
  · exact absurd h reject_ne
  split at h
  · exact absurd h reject_ne
  next hmost =>
  split at h
  · exact absurd h reject_ne
  next hleast =>
  split at h
  · exact absurd h reject_ne
  next hcovered =>
  obtain ⟨-, rfl⟩ := CopyDecision.accepted.inj h
  simp only [not_or, not_le] at hvalid
  exact {
    limit := hvalid.2.2.2
    fresh := by simpa using hfresh
    dealId := rfl
    createdAt := rfl
    amountUsd := rfl
    feeUsd := rfl
    least := not_lt.mp hleast
    most := (min_le_left _ _).trans (not_lt.mp hmost)
    covered := not_lt.mp hcovered }

/-- A ticket is a whole number of cents, whatever it was computed from. -/
theorem ticket_cents (trade : CopyTradeEvent) (config : CopyConfig) (state : PortfolioState) :
    ∃ a, ticket trade config state = cents a := by
  have hsized : ∃ a, sizeCopyTrade trade config state = cents a := by
    unfold sizeCopyTrade
    split
    · exact ⟨_, rfl⟩
    · exact ⟨_, rfl⟩
    · split
      · exact ⟨0, cents_zero.symm⟩
      · exact ⟨_, rfl⟩
  have hremaining : ∃ a, remainingAllowance config state = cents a := by
    unfold remainingAllowance
    rcases max_choice 0 (round2 (sub config.monthlyLimit state.monthSpendUsd)) with h | h
    · exact ⟨0, h.trans cents_zero.symm⟩
    · exact ⟨_, h⟩
  unfold ticket
  rcases min_choice (sizeCopyTrade trade config state) (remainingAllowance config state) with h | h
  · rw [h]
    exact hsized
  · rw [h]
    exact hremaining

theorem Planned.cents {c : Int} (h : Planned config state trade now order)
    (hmin : 0 < config.minTradeValue) (hfee : 0 ≤ config.feeBps)
    (hcash : state.cashUsd = Binary64.cents c) (hc : |c| ≤ 2 ^ 48) :
    ∃ a f : Int, ticket trade config state = Binary64.cents a ∧
      order.amountUsd = Binary64.cents a ∧ order.feeUsd = Binary64.cents f ∧ 0 < a ∧ 0 ≤ f ∧
        a + f ≤ c := by
  obtain ⟨a, ha⟩ := ticket_cents trade config state
  have hpos : 0 < Binary64.cents a := by
    rw [← ha]
    exact hmin.trans_le h.least
  have ha0 : 0 < a := by
    by_contra hle
    exact absurd (cents_nonpos (not_lt.mp hle)) (not_le.mpr hpos)
  have hfees : estimatedFees (Binary64.cents a) config.feeBps =
      Binary64.cents (toCents (div (mul (Binary64.cents a) config.feeBps) 10000)) := by
    unfold estimatedFees
    rw [if_neg (not_le.mpr hpos)]
    rfl
  have hf : 0 ≤ toCents (div (mul (Binary64.cents a) config.feeBps) 10000) := by
    have hmul : 0 ≤ mul (Binary64.cents a) config.feeBps :=
      toDouble_nonneg (mul_nonneg hpos.le hfee)
    exact toCents_nonneg (toDouble_nonneg (by positivity))
  have hcovered := h.covered
  rw [ha, hfees, hcash] at hcovered
  have hle := add_le_of_add_cents_le hc ha0.le hf hcovered
  refine ⟨a, _, ha, ?_, h.feeUsd.trans (by rw [ha, hfees]), ha0, hf, hle⟩
  rw [h.amountUsd, ha]
  refine roundCents_cents ?_
  rw [abs_le] at hc ⊢
  constructor <;> omega

/-- A ticket fits into what is left of the month. -/
theorem Planned.monthly {a m : Int} (h : Planned config state trade now order)
    (hlimit : roundCents config.monthlyLimit = config.monthlyLimit)
    (hticket : ticket trade config state = Binary64.cents a) (ha : 0 < a)
    (hspend : state.monthSpendUsd = Binary64.cents m) (hm : |m| ≤ 2 ^ 49) (hma : m + a ≤ 2 ^ 49) :
    Binary64.cents (m + a) ≤ config.monthlyLimit := by
  have hcents : config.monthlyLimit = Binary64.cents (toCents config.monthlyLimit) := hlimit.symm
  generalize toCents config.monthlyLimit = l at hcents
  have hl : 0 < l := by
    by_contra hle
    have hpos := h.limit
    rw [hcents] at hpos
    exact absurd (cents_nonpos (not_lt.mp hle)) (not_le.mpr hpos)
  obtain ⟨hmlow, hmhigh⟩ := abs_le.mp hm
  have hbound : |m + a| ≤ 2 ^ 50 := abs_le.mpr ⟨by omega, by omega⟩
  rw [hcents]
  refine cents_mono hbound ?_
  by_contra hlt
  have hsmall : |l| ≤ 2 ^ 49 := abs_le.mpr ⟨by omega, by omega⟩
  have hremaining : remainingAllowance config state = max 0 (Binary64.cents (l - m)) := by
    unfold remainingAllowance round2 sub
    rw [hcents, hspend, sub_eq_add_neg, ← cents_neg]
    exact congrArg _ (roundCents_add hsmall (by rwa [abs_neg]))
  have hle : Binary64.cents a ≤ max 0 (Binary64.cents (l - m)) := by
    rw [← hticket, ← hremaining]
    exact min_le_right _ _
  have hpos : 0 < Binary64.cents a := cents_pos (by omega) ha
  have hle' : Binary64.cents a ≤ Binary64.cents (l - m) :=
    (le_max_iff.mp hle).resolve_left (not_le.mpr hpos)
  exact absurd hle' (not_le.mpr (cents_lt_cents (abs_le.mpr ⟨by omega, by omega⟩)
    (abs_le.mpr ⟨by omega, by omega⟩) (by omega)))

/-! ## The invariant -/

structure Inv (config : CopyConfig) (portfolio : PortfolioState) (visited : List String)
    (state : PortfolioState) (orders : List CopyOrder) : Prop where
  cash : state.cashUsd = Binary64.cents (toCents portfolio.cashUsd - paid orders)
  solvent : paid orders ≤ toCents portfolio.cashUsd
  spend : state.monthSpendUsd = Binary64.cents (spentIn portfolio orders state.monthKey)
  current : ∀ month ∈ visited.head?, month = state.monthKey
  unvisited : ∀ month, month ∉ visited → spentIn portfolio orders month = 0
  positive : ∀ o ∈ orders, 0 < toCents o.amountUsd ∧ 0 ≤ toCents o.feeUsd
  sizes : ∀ o ∈ orders, config.minTradeValue ≤ o.amountUsd ∧ o.amountUsd ≤ config.maxPerTrade ∧
    0 < o.amountUsd
  copied : ∀ id ∈ portfolio.copiedDealIds.dedup ++ orders.map (·.dealId), id ∈ state.copiedDealIds
  once : (portfolio.copiedDealIds.dedup ++ orders.map (·.dealId)).Nodup
  monthly : ∀ o ∈ orders, Binary64.cents (spentIn portfolio orders (currentPeriod o.createdAt)) ≤
    config.monthlyLimit

theorem Inv.same (h : Inv config portfolio visited state orders) (hs : SameCounters state state') :
    Inv config portfolio visited state' orders := by
  obtain ⟨hcash, hspend, hkey, hcopied⟩ := hs
  exact { h with
    cash := hcash.trans h.cash
    spend := by rw [hspend, hkey]; exact h.spend
    current := by rw [hkey]; exact h.current
    copied := by rw [hcopied]; exact h.copied }

theorem Inv.planning (locale : Locale) (h : Inv config portfolio visited state orders)
    (hmonth : visited.head? = some (currentPeriod trade.date) ∨ currentPeriod trade.date ∉ visited) :
    Inv config portfolio (currentPeriod trade.date :: visited) (locale.planning config state trade)
      orders := by
  refine Inv.same ?_ sameCounters_refresh
  have hunvisited : ∀ month, month ∉ currentPeriod trade.date :: visited →
      spentIn portfolio orders month = 0 :=
    fun month hno => h.unvisited month fun hmem => hno (List.mem_cons_of_mem _ hmem)
  unfold rolloverMonth
  split
  case isTrue hsame =>
    refine { h with current := fun month hmem => ?_, unvisited := hunvisited }
    obtain rfl := Option.some.inj hmem
    exact hsame
  case isFalse hother =>
    have hzero : spentIn portfolio orders (currentPeriod trade.date) = 0 := by
      refine h.unvisited _ (hmonth.resolve_left fun hhead => hother ?_)
      exact h.current _ hhead
    refine { h with
      spend := ?_
      current := fun month hmem => (Option.some.inj hmem).symm
      unvisited := hunvisited }
    show 0 = Binary64.cents (spentIn portfolio orders (currentPeriod trade.date))
    rw [hzero, cents_zero]

theorem Inv.accepted (h : Inv config portfolio visited state orders)
    (hplanned : Planned config state trade trade.date order)
    (hcurrent : visited.head? = some (currentPeriod trade.date))
    (hmin : 0 < config.minTradeValue)
    (hlimit : roundCents config.monthlyLimit = config.monthlyLimit)
    (hcash : toCents portfolio.cashUsd ≤ 2 ^ 48)
    (hspend : |toCents portfolio.monthSpendUsd| ≤ 2 ^ 48) (hfee : 0 ≤ config.feeBps) :
    Inv config portfolio visited (applyCopyOrder state order) (orders ++ [order]) := by
  have hpaid := paid_nonneg h.positive
  have hsolvent := h.solvent
  have hbalance : |toCents portfolio.cashUsd - paid orders| ≤ 2 ^ 48 :=
    abs_le.mpr ⟨by omega, by omega⟩
  obtain ⟨a, f, hticket, hamount, hfeeUsd, ha, hf, hle⟩ :=
    hplanned.cents hmin hfee h.cash hbalance
  have hkey : state.monthKey = currentPeriod trade.date := (h.current _ hcurrent).symm
  have hperiod : currentPeriod order.createdAt = currentPeriod trade.date := by
    rw [hplanned.createdAt]
  have htoa : toCents order.amountUsd = a := by
    rw [hamount]
    exact toCents_cents (abs_le.mpr ⟨by omega, by omega⟩)
  have htof : toCents order.feeUsd = f := by
    rw [hfeeUsd]
    exact toCents_cents (abs_le.mpr ⟨by omega, by omega⟩)
  have hnear := abs_le.mp (spentIn_near portfolio h.positive state.monthKey)
  have hmonth := hplanned.monthly hlimit hticket ha h.spend (abs_le.mpr ⟨by omega, by omega⟩)
    (by omega)
  have hpaid' : paid (orders ++ [order]) = paid orders + (a + f) := by
    rw [paid_concat, htoa, htof]
  have hspent : ∀ month, spentIn portfolio (orders ++ [order]) month =
      spentIn portfolio orders month + if month = state.monthKey then a else 0 := by
    intro month
    rw [spentIn_concat, htoa, hperiod, ← hkey]
    simp only [eq_comm]
  constructor
  case cash =>
    show roundCents (sub (sub state.cashUsd order.amountUsd) order.feeUsd) = _
    rw [h.cash, hamount, hfeeUsd, roundCents_sub_sub hbalance (abs_le.mpr ⟨by omega, by omega⟩)
      (abs_le.mpr ⟨by omega, by omega⟩), hpaid']
    congr 1
    omega
  case solvent =>
    rw [hpaid']
    omega
  case spend =>
    show roundCents (add state.monthSpendUsd order.amountUsd) =
      Binary64.cents (spentIn portfolio (orders ++ [order]) state.monthKey)
    rw [h.spend, hamount, roundCents_add (abs_le.mpr ⟨by omega, by omega⟩)
      (abs_le.mpr ⟨by omega, by omega⟩), hspent, if_pos rfl]
  case current => exact h.current
  case unvisited =>
    intro month hno
    have hne : month ≠ state.monthKey := by
      rintro rfl
      rw [hkey] at hno
      exact hno (List.mem_of_mem_head? hcurrent)
    rw [hspent, if_neg hne, h.unvisited month hno]
    rfl
  case positive =>
    rw [List.forall_mem_append, List.forall_mem_singleton, htoa, htof]
    exact ⟨h.positive, ha, hf⟩
  case sizes =>
    rw [List.forall_mem_append, List.forall_mem_singleton, hamount, ← hticket]
    exact ⟨h.sizes, hplanned.least, hplanned.most, hmin.trans_le hplanned.least⟩
  case copied =>
    have hnot : state.copiedDealIds.contains order.dealId = false := by
      rw [hplanned.dealId]
      simpa using hplanned.fresh
    show ∀ id ∈ _, id ∈ (if state.copiedDealIds.contains order.dealId = true then _ else _)
    rw [hnot, if_neg Bool.false_ne_true, List.map_append, List.map_singleton, ← List.append_assoc,
      List.forall_mem_append, List.forall_mem_singleton]
    exact ⟨fun id hid => List.mem_append_left _ (h.copied id hid),
      List.mem_append_right _ (List.mem_singleton_self _)⟩
  case once =>
    rw [List.map_append, List.map_singleton, ← List.append_assoc, hplanned.dealId]
    exact h.once.append (List.nodup_singleton _)
      (List.disjoint_singleton.mpr fun hmem => hplanned.fresh (h.copied _ hmem))
  case monthly =>
    rw [List.forall_mem_append, List.forall_mem_singleton]
    have hnew : Binary64.cents (spentIn portfolio (orders ++ [order]) state.monthKey) ≤
        config.monthlyLimit := by
      rwa [hspent, if_pos rfl]
    refine ⟨fun o ho => ?_, by rwa [hperiod, ← hkey]⟩
    by_cases hsame : currentPeriod o.createdAt = state.monthKey
    · rwa [hsame]
    · rw [hspent, if_neg hsame, add_zero]
      exact h.monthly o ho

/-! ## The loop -/

/-- What the limits ask of the settings, for every order of the trades. -/
structure Within (config : CopyConfig) (portfolio : PortfolioState) : Prop where
  minimum : 0 < config.minTradeValue
  limit : roundCents config.monthlyLimit = config.monthlyLimit
  cash : toCents portfolio.cashUsd ≤ 2 ^ 48
  spend : |toCents portfolio.monthSpendUsd| ≤ 2 ^ 48
  fee : 0 ≤ config.feeBps

theorem Inv.round (h : Inv config portfolio visited sim.state sim.orders)
    (hwithin : Within config portfolio) (options : SimulationOptions)
    (hmonth : visited.head? = some (currentPeriod trade.date) ∨ currentPeriod trade.date ∉ visited) :
    Inv config portfolio (currentPeriod trade.date :: visited)
      (locale.simulateTrade config options sim trade).state
      (locale.simulateTrade config options sim trade).orders := by
  have hplanning := h.planning locale hmonth
  refine Inv.same ?_ sameCounters_refresh
  show Inv config portfolio _ (settled options _ trade
    (locale.planCopyOrder trade config _ options.following trade.date)) (sim.orders ++ _)
  cases hplan : locale.planCopyOrder trade config (locale.planning config sim.state trade)
      options.following trade.date with
  | accepted message order =>
    refine Inv.same ?_ (sameCounters_accepted options _ trade message order)
    exact hplanning.accepted (planned hplan) rfl hwithin.minimum hwithin.limit hwithin.cash
      hwithin.spend hwithin.fee
  | rejected rejection =>
    refine Inv.same ?_ (sameCounters_rejected options _ trade rejection)
    rw [show (CopyDecision.rejected rejection).orders = [] from rfl, List.append_nil]
    exact hplanning

theorem Inv.foldl (hwithin : Within config portfolio) (options : SimulationOptions)
    (sim : Simulation) {trades : List CopyTradeEvent}
    (h : Inv config portfolio visited sim.state sim.orders)
    (hmonths : LeftForGood visited (trades.map fun trade => currentPeriod trade.date)) :
    ∃ visited', Inv config portfolio visited'
      (trades.foldl (locale.simulateTrade config options) sim).state
      (trades.foldl (locale.simulateTrade config options) sim).orders := by
  induction trades generalizing sim visited with
  | nil => exact ⟨visited, h⟩
  | cons trade trades ih => exact ih _ (h.round hwithin options hmonths.1) hmonths.2

theorem LeftForGood.left {months months' : List String}
    (h : LeftForGood visited (months ++ months')) : LeftForGood visited months := by
  induction months generalizing visited with
  | nil => trivial
  | cons month months ih => exact ⟨h.1, ih h.2⟩

theorem Inv.start (hcash : 0 ≤ portfolio.cashUsd) (hcents : CentAmounts portfolio) :
    Inv config portfolio (spentMonth portfolio) portfolio [] := by
  have hspend : Binary64.cents (toCents portfolio.monthSpendUsd) = portfolio.monthSpendUsd :=
    hcents.spend
  have hspent : ∀ month, spentIn portfolio [] month =
      if month = portfolio.monthKey then toCents portfolio.monthSpendUsd else 0 :=
    fun month => add_zero _
  constructor
  case cash =>
    show portfolio.cashUsd = Binary64.cents (toCents portfolio.cashUsd - 0)
    rw [sub_zero]
    exact hcents.cash.symm
  case solvent => exact toCents_nonneg hcash
  case spend => rw [hspent, if_pos rfl, hspend]
  case current =>
    unfold spentMonth
    split
    · exact fun month hmem => absurd hmem (Option.not_mem_none month)
    · exact fun month hmem => (Option.some.inj hmem).symm
  case unvisited =>
    intro month hno
    rw [hspent]
    split
    case isFalse => rfl
    case isTrue hmonth =>
      have hzero : portfolio.monthSpendUsd = 0 := by
        by_contra hne
        unfold spentMonth at hno
        rw [if_neg hne, hmonth] at hno
        exact hno (List.mem_singleton_self _)
      rw [hzero, ← cents_zero]
      exact toCents_cents (by norm_num)
  case once =>
    rw [List.map_nil, List.append_nil]
    exact List.nodup_dedup _
  case copied =>
    rw [List.map_nil, List.append_nil]
    exact fun id hid => List.mem_dedup.mp hid
  all_goals exact fun o ho => absurd ho List.not_mem_nil

end Rounds

/-! ## The window -/

/-- Every limit holds, and the cash is accounted for, in a window of sound settings. -/
theorem limits_respected (locale : Locale) (trades : List CopyTradeEvent) (config : CopyConfig)
    (portfolio : PortfolioState) (options : SimulationOptions)
    (hfee : 0 ≤ config.feeBps) (hcash : 0 ≤ portfolio.cashUsd) (hcents : CentAmounts portfolio)
    (hsound : Sound locale trades config portfolio) :
    Respects locale trades config portfolio options := by
  have hwithin : Within config portfolio :=
    ⟨hsound.minimum, hsound.limit, hsound.cash, hsound.spend, hfee⟩
  have hprefix : ∀ seen, seen <+: locale.sortTradeEvents trades → ∃ visited,
      Inv config portfolio visited (locale.stateAfter config options portfolio seen)
        (locale.simulate config options portfolio seen).orders := by
    rintro seen ⟨rest, hrest⟩
    have hmonths := hsound.months
    rw [← hrest, List.map_append] at hmonths
    exact Inv.foldl hwithin options (.begin config portfolio) (Inv.start hcash hcents) hmonths.left
  obtain ⟨visited, hall⟩ := hprefix _ (List.prefix_refl _)
  constructor
  case cash =>
    intro seen hseen
    obtain ⟨_, hinv⟩ := hprefix seen hseen
    rw [hinv.cash]
    have hmono := cents_mono (m := 0) (by norm_num) (sub_nonneg.mpr hinv.solvent)
    rwa [cents_zero] at hmono
  case sizes => exact hall.sizes
  case once => exact hall.once
  case monthly => exact hall.monthly
  case stopped =>
    rintro seen trade ⟨rest, hrest⟩ hactive
    obtain ⟨horders, hstill⟩ := simulateTrade_stopped options hactive
    show (locale.simulate config options portfolio (locale.sortTradeEvents trades)).orders = _
    rw [← hrest]
    unfold Locale.simulate
    rw [List.foldl_append, List.foldl_append]
    exact (foldl_stopped hstill).trans horders
  case accounts => exact hall.cash

/-! ## A month that comes back -/

/-- Texts in their own order, and numbers without digits. -/
def plainLocale : Locale :=
  ⟨fun _ => "", id, fun a b => if a < b then -1 else if a = b then 0 else 1⟩

def fixedTickets : CopyConfig where
  id := "cfg1"
  followerId := "f1"
  traderId := "t1"
  mode := .fixed
  allocationPct := 100
  fixedAmountUsd := 300
  riskBudgetPct := 1
  maxPerTrade := 300
  monthlyLimit := 500
  minTradeValue := 10
  autoStopLossPct := 0
  autoTakeProfitPct := 0
  maxDrawdownPct := 50
  feeBps := 30
  blacklist := []
  enabled := true
  createdAt := "2026-06-01"

/-- A portfolio that has spent 400 dollars in July. -/
def julyPortfolio : PortfolioState where
  followerId := "f1"
  cashUsd := 5000
  followerAumUsd := 5000
  leaderAumUsd := 50000
  monthSpendUsd := 400
  monthKey := "2026-07"
  positions := []
  copiedDealIds := []
  equityUsd := 5000
  peakEquityUsd := 5000
  drawdownPct := 0
  unrealizedPct := 0
  autoStop := ⟨false, none, none⟩
  startingEquityUsd := 5000

def tradeOn (dealId date : String) : CopyTradeEvent where
  dealId := dealId
  date := date
  amountUsd := 10000
  commodity := "Cocoa"
  region := "Ghana"
  riskRating := .Low
  expectedRoiPct := 8
  realizedRoiPct := none

def lateTrades : List CopyTradeEvent := [tradeOn "deal-2" "2026-08-02", tradeOn "deal-1" "2026-07-05"]

theorem limits_respected_late_trades :
    ((plainLocale.simulateCopyWindow lateTrades fixedTickets julyPortfolio ⟨true, true⟩).orders.map
        fun o => (o.dealId, o.amountUsd)) = [("deal-1", 100), ("deal-2", 300)] ∧
      Respects plainLocale lateTrades fixedTickets julyPortfolio ⟨true, true⟩ :=
  ⟨by decide +kernel, limits_respected plainLocale lateTrades fixedTickets julyPortfolio
    ⟨true, true⟩ (by decide +kernel) (by decide +kernel) ⟨by decide +kernel, by decide +kernel⟩
    (by decide +kernel)⟩

def earlyTrades : List CopyTradeEvent :=
  [tradeOn "deal-1" "2026-06-20", tradeOn "deal-2" "2026-07-05"]

theorem month_forgotten :
    ¬ ∀ (locale : Locale) (trades : List CopyTradeEvent) (config : CopyConfig)
        (portfolio : PortfolioState) (options : SimulationOptions),
      validateCopyConfig config = [] → 0 ≤ config.feeBps → 0 ≤ portfolio.cashUsd →
        CentAmounts portfolio → Respects locale trades config portfolio options := by
  intro h
  have hmonthly := (h plainLocale earlyTrades fixedTickets julyPortfolio ⟨true, true⟩
    (by decide +kernel) (by decide +kernel) (by decide +kernel)
    ⟨by decide +kernel, by decide +kernel⟩).monthly
  revert hmonthly
  decide +kernel

end AgriFi.SocialTrading
