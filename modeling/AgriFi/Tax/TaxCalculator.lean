import AgriFi.NumberText
import Mathlib.Data.Char
import Mathlib.Data.List.Lex
import Mathlib.Tactic.Linarith

/-
  `frontend/src/lib/tax/tax-calculator.ts`. Dates are ISO 8601 texts, given by their parts; the
  report of a tax year compares their texts and the holding period their instants. Amounts and
  rates are exact: the rounding of doubles is left out.
-/

namespace AgriFi.Tax

open AgriFi.JsValue.Number (digitChar digitsOf)

abbrev Text := List Char

/-! ## Dates -/

inductive Zone where
  | utc
  | offset (negative : Bool) (hours minutes : Nat)

/-- A time of day with its zone; a second may have a fraction. -/
structure IsoTime where
  hour : Nat
  minute : Nat
  second : Option (Nat × List Nat)
  zone : Zone

def daysInMonth (year month : Nat) : Nat :=
  if month = 2 then if year % 4 = 0 ∧ (year % 100 ≠ 0 ∨ year % 400 = 0) then 29 else 28
  else if month ∈ [4, 6, 9, 11] then 30 else 31

/-- Hour 24 is the end of the day only. -/
structure IsoTime.Valid (t : IsoTime) : Prop where
  hour : t.hour ≤ 23 ∨ t.hour = 24 ∧ t.minute = 0 ∧ ∀ s ∈ t.second, s.1 = 0 ∧ ∀ d ∈ s.2, d = 0
  minute : t.minute ≤ 59
  second : ∀ s ∈ t.second, s.1 ≤ 59 ∧ ∀ d ∈ s.2, d ≤ 9
  zone : ∀ negative hours minutes, t.zone = .offset negative hours minutes →
    hours ≤ 23 ∧ minutes ≤ 59

/-- A date, with a time and a zone or without both. -/
structure IsoDate where
  year : Nat
  month : Nat
  day : Nat
  time : Option IsoTime
  year_le : year ≤ 9999
  month_pos : 1 ≤ month
  month_le : month ≤ 12
  day_pos : 1 ≤ day
  day_le : day ≤ daysInMonth year month
  time_valid : ∀ t ∈ time, t.Valid

def twoDigits (n : Nat) : Text := [digitChar (n / 10), digitChar n]

def fourDigits (n : Nat) : Text := twoDigits (n / 100) ++ twoDigits (n % 100)

def Zone.text : Zone → Text
  | .utc => ['Z']
  | .offset negative hours minutes =>
    (if negative then '-' else '+') :: (twoDigits hours ++ ':' :: twoDigits minutes)

def secondText : Option (Nat × List Nat) → Text
  | none => []
  | some (s, []) => ':' :: twoDigits s
  | some (s, fraction) => ':' :: (twoDigits s ++ '.' :: fraction.map digitChar)

def IsoTime.text (t : IsoTime) : Text :=
  'T' :: (twoDigits t.hour ++ ':' :: (twoDigits t.minute ++ (secondText t.second ++ t.zone.text)))

/-- The text after the year. -/
def IsoDate.rest (d : IsoDate) : Text :=
  '-' :: (twoDigits d.month ++ '-' :: (twoDigits d.day ++
    match d.time with
    | none => []
    | some t => t.text))

def IsoDate.text (d : IsoDate) : Text := fourDigits d.year ++ d.rest

/-- The days from the first of the year 0 to that of `year`. -/
def daysBeforeYear (year : Nat) : Nat :=
  365 * year + (year + 3) / 4 - (year + 99) / 100 + (year + 399) / 400

def daysBeforeMonth (year month : Nat) : Nat :=
  ((List.range' 1 (month - 1)).map (daysInMonth year)).sum

def Zone.offsetMinutes : Zone → Int
  | .utc => 0
  | .offset negative hours minutes =>
    if negative then -(60 * hours + minutes : Nat) else (60 * hours + minutes : Nat)

/-- The milliseconds of a fraction of a second. -/
def millis (fraction : List Nat) : Nat := Nat.ofDigits 10 ((fraction ++ [0, 0, 0]).take 3).reverse

/-- `new Date(text).getTime()`, counted from the year 0. -/
def IsoDate.getTime (d : IsoDate) : Int :=
  let days : Nat := daysBeforeYear d.year + daysBeforeMonth d.year d.month + (d.day - 1)
  match d.time with
  | none => 86400000 * days
  | some t =>
    let ofSecond : Nat := t.second.elim 0 fun s => 1000 * s.1 + millis s.2
    86400000 * days + (60000 * (60 * t.hour + t.minute) + ofSecond : Nat) -
      60000 * t.zone.offsetMinutes

def daysBetween (start finish : IsoDate) : Int := (finish.getTime - start.getTime) / 86400000

/-! ## Rates -/

inductive Jurisdiction where
  | US | UK | CA | AU | EU | ZA | IN | SG

structure TaxRates where
  longTermGainsRate : Rat
  shortTermGainsRate : Rat
  dividendRate : Rat
  interestRate : Rat
  longTermThresholdDays : Int

def getJurisdictionRates : Jurisdiction → TaxRates
  | .US => ⟨15 / 100, 37 / 100, 15 / 100, 37 / 100, 365⟩
  | .UK => ⟨20 / 100, 45 / 100, 3375 / 10000, 45 / 100, 365⟩
  | .CA => ⟨25 / 100, 50 / 100, 3829 / 10000, 50 / 100, 365⟩
  | .AU => ⟨225 / 1000, 45 / 100, 30 / 100, 45 / 100, 365⟩
  | .EU => ⟨25 / 100, 40 / 100, 20 / 100, 30 / 100, 365⟩
  | .ZA => ⟨18 / 100, 45 / 100, 20 / 100, 45 / 100, 365⟩
  | .IN => ⟨125 / 1000, 20 / 100, 30 / 100, 30 / 100, 730⟩
  | .SG => ⟨0, 0, 22 / 100, 22 / 100, 365⟩

/-! ## Line items -/

inductive Status where
  | confirmed
  | completed
  | pending
  | refunded
  deriving DecidableEq

structure InvestmentTaxData where
  dealId : String
  dealName : String
  investedAmount : Rat
  returnAmount : Rat
  feesUsd : Rat
  purchaseDate : IsoDate
  saleDate : Option IsoDate
  status : Status

structure CapitalGainResult where
  dealId : String
  dealName : String
  investedAmount : Rat
  returnAmount : Rat
  grossGain : Rat
  fees : Rat
  netGain : Rat
  holdingPeriodDays : Int
  isLongTerm : Bool
  applicableRate : Rat
  estimatedTax : Rat

structure DividendIncomeResult where
  dealId : String
  dealName : String
  dividendAmount : Rat
  taxRate : Rat
  estimatedTax : Rat

structure InterestIncomeResult where
  source : String
  amount : Rat
  taxRate : Rat
  estimatedTax : Rat

def calculateCapitalGain (inv : InvestmentTaxData) (jurisdiction : Jurisdiction) :
    Option CapitalGainResult :=
  match inv.status, inv.saleDate with
  | .completed, some saleDate =>
    let rates := getJurisdictionRates jurisdiction
    let grossGain := inv.returnAmount - inv.investedAmount
    let netGain := grossGain - inv.feesUsd
    let holdingPeriodDays := daysBetween inv.purchaseDate saleDate
    let isLongTerm := decide (rates.longTermThresholdDays ≤ holdingPeriodDays)
    let applicableRate := if isLongTerm then rates.longTermGainsRate else rates.shortTermGainsRate
    some ⟨inv.dealId, inv.dealName, inv.investedAmount, inv.returnAmount, grossGain, inv.feesUsd,
      netGain, holdingPeriodDays, isLongTerm, applicableRate, max 0 netGain * applicableRate⟩
  | _, _ => none

def calculateDividendIncome (inv : InvestmentTaxData) (jurisdiction : Jurisdiction) :
    Option DividendIncomeResult :=
  if inv.status ≠ .completed then none
  else
    let rates := getJurisdictionRates jurisdiction
    let returnExcess := inv.returnAmount - inv.investedAmount
    if returnExcess ≤ 0 then none
    else
      let dividendAmount := returnExcess * (4 / 10)
      some ⟨inv.dealId, inv.dealName, dividendAmount, rates.dividendRate,
        dividendAmount * rates.dividendRate⟩

def calculateInterestIncome (payments : List (String × Rat)) (jurisdiction : Jurisdiction) :
    List InterestIncomeResult :=
  let rates := getJurisdictionRates jurisdiction
  payments.map fun (source, amount) =>
    ⟨source, amount, rates.interestRate, amount * rates.interestRate⟩

/-! ## Reports -/

structure TaxCalculationResult where
  taxYear : Nat
  capitalGains : List CapitalGainResult
  dividendIncome : List DividendIncomeResult
  interestIncome : List InterestIncomeResult
  totalLongTermGains : Rat
  totalShortTermGains : Rat
  totalDividendIncome : Rat
  totalInterestIncome : Rat
  totalEstimatedTax : Rat
  totalFees : Rat

/-- The text of the first instant of a year. -/
def yearStart (year : Nat) : Text := digitsOf year ++ "-01-01T00:00:00Z".toList

/-- The year's investments: by the text of the sale date, or of the purchase date. -/
def isRelevant (taxYear : Nat) (inv : InvestmentTaxData) : Bool :=
  let saleDate := (inv.saleDate.getD inv.purchaseDate).text
  yearStart taxYear ≤ saleDate && saleDate < yearStart (taxYear + 1)

/-- A sum as `reduce` adds it up from zero. -/
def total {α : Type} (amount : α → Rat) (xs : List α) : Rat :=
  xs.foldl (fun sum x => sum + amount x) 0

def calculateTaxes (investments : List InvestmentTaxData) (jurisdiction : Jurisdiction)
    (taxYear : Nat) (interestPayments : List (String × Rat)) : TaxCalculationResult :=
  let relevant := investments.filter (isRelevant taxYear)
  let capitalGains := relevant.filterMap fun inv => calculateCapitalGain inv jurisdiction
  let dividendIncome := relevant.filterMap fun inv => calculateDividendIncome inv jurisdiction
  let interestIncome := calculateInterestIncome interestPayments jurisdiction
  { taxYear, capitalGains, dividendIncome, interestIncome
    totalLongTermGains := total (max 0 ·.netGain) (capitalGains.filter (·.isLongTerm))
    totalShortTermGains := total (max 0 ·.netGain) (capitalGains.filter (!·.isLongTerm))
    totalDividendIncome := total (·.dividendAmount) dividendIncome
    totalInterestIncome := total (·.amount) interestIncome
    totalEstimatedTax := total (·.estimatedTax) capitalGains +
      total (·.estimatedTax) dividendIncome + total (·.estimatedTax) interestIncome
    totalFees := total (·.feesUsd) relevant }

end AgriFi.Tax

/-
  Reports of tax years of four digits. An investment is in the report of the year that its text
  begins with, or of the year before when the rest of the text is below that of the first instant
  (`isRelevant_iff`); its amounts are taxed twice unless the fees are as high as the dividend
  (`taxedAmount_le_iff`).
-/

namespace AgriFi.Tax

open AgriFi.JsValue.Number (digitChar digitsOf)

/-! ## Texts of years -/

theorem digitChar_lt : ∀ i < 10, ∀ j < 10, (digitChar i < digitChar j ↔ i < j) := by decide +kernel

theorem digitChar_inj : ∀ i < 10, ∀ j < 10, (digitChar i = digitChar j ↔ i = j) := by
  decide +kernel

theorem digitChar_mod (n : Nat) : digitChar n = digitChar (n % 10) := by
  rw [digitChar, digitChar, Nat.mod_mod]

theorem twoDigits_lt {a b : Nat} (ha : a < 100) (hb : b < 100) (s t : Text) :
    twoDigits a ++ s < twoDigits b ++ t ↔ a < b ∨ a = b ∧ s < t := by
  simp only [twoDigits, List.cons_append, List.nil_append, List.cons_lt_cons_iff]
  rw [digitChar_mod a, digitChar_mod b, digitChar_lt _ (by omega) _ (by omega),
    digitChar_inj _ (by omega) _ (by omega),
    digitChar_lt _ (Nat.mod_lt a (by decide)) _ (Nat.mod_lt b (by decide)),
    digitChar_inj _ (Nat.mod_lt a (by decide)) _ (Nat.mod_lt b (by decide))]
  constructor
  · rintro (h | ⟨h, h' | ⟨h', hst⟩⟩)
    · exact .inl (by omega)
    · exact .inl (by omega)
    · exact .inr ⟨by omega, hst⟩
  · rintro (h | ⟨rfl, hst⟩)
    · rcases Nat.lt_or_ge (a / 10) (b / 10) with hlt | hge
      · exact .inl hlt
      · exact .inr ⟨by omega, .inl (by omega)⟩
    · exact .inr ⟨rfl, .inr ⟨rfl, hst⟩⟩

theorem fourDigits_lt {a b : Nat} (ha : a ≤ 9999) (hb : b ≤ 9999) (s t : Text) :
    fourDigits a ++ s < fourDigits b ++ t ↔ a < b ∨ a = b ∧ s < t := by
  rw [fourDigits, fourDigits, List.append_assoc, List.append_assoc,
    twoDigits_lt (by omega) (by omega), twoDigits_lt (by omega) (by omega)]
  constructor
  · rintro (h | ⟨h, h' | ⟨h', hst⟩⟩)
    · exact .inl (by omega)
    · exact .inl (by omega)
    · exact .inr ⟨by omega, hst⟩
  · rintro (h | ⟨rfl, hst⟩)
    · rcases Nat.lt_or_ge (a / 100) (b / 100) with hlt | hge
      · exact .inl hlt
      · exact .inr ⟨by omega, .inl (by omega)⟩
    · exact .inr ⟨rfl, .inr ⟨rfl, hst⟩⟩

theorem digitsOf_year {year : Nat} (hlo : 1000 ≤ year) (hhi : year ≤ 9999) :
    digitsOf year = fourDigits year := by
  have h0 : year ≠ 0 := by omega
  have hdigits : Nat.digits 10 year = [year % 10, year / 10 % 10, year / 100 % 10, year / 1000] := by
    rw [Nat.digits_def' (by decide) (by omega), Nat.digits_def' (by decide) (by omega),
      Nat.digits_def' (by decide) (by omega), Nat.div_div_eq_div_mul, Nat.div_div_eq_div_mul,
      Nat.digits_of_lt 10 _ (by omega) (by omega)]
  have hthousands : year / 1000 = year / 100 / 10 := by omega
  have htens : year / 10 % 10 = year % 100 / 10 := by omega
  rw [digitsOf, if_neg h0, hdigits, hthousands, htens]
  simp only [List.reverse_cons, List.reverse_nil, List.nil_append, List.cons_append, List.map_cons,
    List.map_nil, fourDigits, twoDigits]
  rw [digitChar_mod (year % 100), Nat.mod_mod_of_dvd year (by decide), digitChar_mod (year / 100)]

/-! ## The year of a report -/

/-- The text sorts before the first instant of its year. -/
def IsoDate.early (d : IsoDate) : Bool := d.rest < "-01-01T00:00:00Z".toList

/-- The year in whose report a date is. -/
def IsoDate.reportYear (d : IsoDate) : Nat := if d.early then d.year - 1 else d.year

/-- The tax years whose bounds have four digits. -/
def FourDigits (year : Nat) : Prop := 1000 ≤ year ∧ year ≤ 9998

/-- The instant is in the year, in UTC. -/
def InYear (year : Nat) (instant : Int) : Prop :=
  86400000 * (daysBeforeYear year : Int) ≤ instant ∧
    instant < 86400000 * (daysBeforeYear (year + 1) : Int)

theorem daysBeforeYear_strictMono : StrictMono daysBeforeYear :=
  strictMono_nat_of_lt_succ fun year => by
    unfold daysBeforeYear
    omega

theorem InYear.unique {y z : Nat} {instant : Int} (hy : InYear y instant) (hz : InYear z instant) :
    y = z := by
  have hmono {a b : Nat} (h : a < b) : daysBeforeYear (a + 1) ≤ daysBeforeYear b :=
    daysBeforeYear_strictMono.monotone h
  obtain ⟨hy1, hy2⟩ := hy
  obtain ⟨hz1, hz2⟩ := hz
  rcases Nat.lt_trichotomy y z with h | h | h
  · have := hmono h
    omega
  · exact h
  · have := hmono h
    omega

theorem isRelevant_iff {inv : InvestmentTaxData} {d : IsoDate} {year : Nat}
    (hd : inv.saleDate.getD inv.purchaseDate = d) (hyear : FourDigits year) :
    isRelevant year inv = true ↔ d.reportYear = year := by
  obtain ⟨hlo, hhi⟩ := hyear
  have hle := d.year_le
  unfold isRelevant
  simp only [hd, Bool.and_eq_true, decide_eq_true_eq, yearStart, IsoDate.text, ← not_lt]
  rw [digitsOf_year hlo (by omega), digitsOf_year (by omega) (by omega),
    fourDigits_lt hle (by omega), fourDigits_lt hle (by omega), IsoDate.reportYear]
  by_cases hearly : d.rest < "-01-01T00:00:00Z".toList
  · simp only [IsoDate.early, hearly, decide_true, if_true, and_true]
    omega
  · simp only [IsoDate.early, hearly, decide_false, Bool.false_eq_true, if_false, and_false,
      or_false]
    omega

/-- The year of the report is the year of the instant, or neither has four digits. -/
def YearMatches (d : IsoDate) : Prop :=
  (FourDigits d.reportYear → InYear d.reportYear d.getTime) ∧
    (¬FourDigits d.reportYear → ∀ year, FourDigits year → ¬InYear year d.getTime)

theorem yearMatches_iff {inv : InvestmentTaxData} {d : IsoDate} (hd : inv.saleDate = some d) :
    (∀ year, FourDigits year → (isRelevant year inv = true ↔ InYear year d.getTime)) ↔
      YearMatches d := by
  have hrelevant {year : Nat} (hyear : FourDigits year) :=
    @isRelevant_iff inv d year (by rw [hd]; rfl) hyear
  constructor
  · intro h
    refine ⟨fun hfour => (h _ hfour).mp ((hrelevant hfour).mpr rfl), fun hnot year hyear hin => ?_⟩
    have heq := (hrelevant hyear).mp ((h year hyear).mpr hin)
    exact hnot (heq ▸ hyear)
  · rintro ⟨hfour, hnot⟩ year hyear
    rw [hrelevant hyear]
    constructor
    · rintro rfl
      exact hfour hyear
    · intro hin
      by_cases hreport : FourDigits d.reportYear
      · exact (hfour hreport).unique hin
      · exact absurd hin (hnot hreport year hyear)

/-! ## What is taxed -/

/-- The amounts of the lines of an investment that are taxed. -/
def taxedAmount (inv : InvestmentTaxData) (jurisdiction : Jurisdiction) : Rat :=
  (calculateCapitalGain inv jurisdiction).elim 0 (max 0 ·.netGain) +
    (calculateDividendIncome inv jurisdiction).elim 0 (·.dividendAmount)

/-- The fees take up the dividend of a profit, or the loss is one of the fees. -/
def FeesCover (inv : InvestmentTaxData) : Prop :=
  if 0 < inv.returnAmount - inv.investedAmount then
    (inv.returnAmount - inv.investedAmount) * (4 / 10) ≤ inv.feesUsd
  else inv.returnAmount - inv.investedAmount ≤ inv.feesUsd

theorem calculateCapitalGain_eq_none_iff {inv : InvestmentTaxData} {jurisdiction : Jurisdiction} :
    calculateCapitalGain inv jurisdiction = none ↔
      ¬(inv.status = .completed ∧ inv.saleDate.isSome) := by
  unfold calculateCapitalGain
  cases hs : inv.status <;> cases hd : inv.saleDate <;> simp

theorem fees_of_gain {inv : InvestmentTaxData} {jurisdiction : Jurisdiction}
    {gain : CapitalGainResult} (h : calculateCapitalGain inv jurisdiction = some gain) :
    gain.fees = inv.feesUsd ∧
      gain.netGain = inv.returnAmount - inv.investedAmount - inv.feesUsd := by
  unfold calculateCapitalGain at h
  split at h
  · obtain rfl := Option.some.inj h
    exact ⟨rfl, rfl⟩
  · cases h

theorem taxedAmount_le_iff {inv : InvestmentTaxData} {d : IsoDate} (jurisdiction : Jurisdiction)
    (hstatus : inv.status = .completed) (hd : inv.saleDate = some d) :
    taxedAmount inv jurisdiction ≤ max 0 (inv.returnAmount - inv.investedAmount) ↔
      FeesCover inv := by
  cases hgain : calculateCapitalGain inv jurisdiction with
  | none => exact absurd ⟨hstatus, by rw [hd]; rfl⟩ (calculateCapitalGain_eq_none_iff.mp hgain)
  | some gain =>
    rw [taxedAmount, hgain, FeesCover, calculateDividendIncome, if_neg (by simp [hstatus])]
    simp only [Option.elim_some, (fees_of_gain hgain).2]
    generalize inv.returnAmount - inv.investedAmount = profit
    by_cases hprofit : 0 < profit
    · rw [if_pos hprofit, if_neg (not_le.mpr hprofit), max_eq_right hprofit.le]
      simp only [Option.elim_some]
      constructor
      · intro h
        have := le_max_right 0 (profit - inv.feesUsd)
        linarith
      · intro h
        rcases max_cases 0 (profit - inv.feesUsd) with ⟨heq, -⟩ | ⟨heq, -⟩ <;> rw [heq] <;> linarith
    · rw [if_neg hprofit, if_pos (not_lt.mp hprofit), max_eq_left (not_lt.mp hprofit)]
      simp only [Option.elim_none, add_zero]
      constructor
      · intro h
        have := le_max_right 0 (profit - inv.feesUsd)
        linarith
      · intro h
        exact max_le le_rfl (by linarith)

/-! ## Totals -/

theorem total_eq {α : Type} (amount : α → Rat) (xs : List α) :
    total amount xs = (xs.map amount).sum := by
  have hfold (s : Rat) : xs.foldl (fun sum x => sum + amount x) s = s + (xs.map amount).sum := by
    induction xs generalizing s with
    | nil => simp
    | cons x xs ih => simp [ih, add_assoc]
  rw [total, hfold, zero_add]

/-- The totals of a report are the sums over its lines; the fees are those of its gains. -/
structure TotalsMatch (r : TaxCalculationResult) : Prop where
  longTerm : r.totalLongTermGains =
    ((r.capitalGains.filter (·.isLongTerm)).map (max 0 ·.netGain)).sum
  shortTerm : r.totalShortTermGains =
    ((r.capitalGains.filter (!·.isLongTerm)).map (max 0 ·.netGain)).sum
  dividends : r.totalDividendIncome = (r.dividendIncome.map (·.dividendAmount)).sum
  interest : r.totalInterestIncome = (r.interestIncome.map (·.amount)).sum
  tax : r.totalEstimatedTax = (r.capitalGains.map (·.estimatedTax)).sum +
    (r.dividendIncome.map (·.estimatedTax)).sum + (r.interestIncome.map (·.estimatedTax)).sum
  fees : r.totalFees = (r.capitalGains.map (·.fees)).sum

/-- The fees of the investments of a year that have no gain line. -/
def unlistedFees (investments : List InvestmentTaxData) (year : Nat) : Rat :=
  ((investments.filter fun inv => isRelevant year inv &&
    !(inv.status = .completed && inv.saleDate.isSome)).map (·.feesUsd)).sum

theorem fees_eq (investments : List InvestmentTaxData) (jurisdiction : Jurisdiction) (year : Nat) :
    ((investments.filter (isRelevant year)).map (·.feesUsd)).sum =
      (((investments.filter (isRelevant year)).filterMap fun inv =>
        calculateCapitalGain inv jurisdiction).map (·.fees)).sum +
        unlistedFees investments year := by
  unfold unlistedFees
  induction investments with
  | nil => simp
  | cons inv investments ih =>
    by_cases hrelevant : isRelevant year inv = true
    · cases hgain : calculateCapitalGain inv jurisdiction with
      | none =>
        have hnot := calculateCapitalGain_eq_none_iff.mp hgain
        have hlisted : (decide (inv.status = .completed) && inv.saleDate.isSome) = false := by
          simpa using hnot
        simp only [List.filter_cons, hrelevant, if_true, List.map_cons, List.sum_cons, ih,
          List.filterMap_cons, hgain, hlisted, Bool.not_false, Bool.and_self]
        ring
      | some gain =>
        have hlisted : (decide (inv.status = .completed) && inv.saleDate.isSome) = true := by
          by_contra hnot
          have hnone := (@calculateCapitalGain_eq_none_iff _ jurisdiction).mpr
            (by simpa using hnot)
          rw [hgain] at hnone
          cases hnone
        simp only [List.filter_cons, hrelevant, if_true, List.map_cons, List.sum_cons, ih,
          List.filterMap_cons, hgain, hlisted, Bool.not_true, Bool.and_false, Bool.false_eq_true,
          if_false, (fees_of_gain hgain).1]
        ring
    · simp only [List.filter_cons, hrelevant, Bool.false_eq_true, if_false, Bool.false_and, ih]

theorem totalsMatch_iff {investments : List InvestmentTaxData} {jurisdiction : Jurisdiction}
    {year : Nat} {payments : List (String × Rat)} :
    TotalsMatch (calculateTaxes investments jurisdiction year payments) ↔
      unlistedFees investments year = 0 := by
  have hfees := fees_eq investments jurisdiction year
  constructor
  · intro h
    have hmatch := h.fees
    simp only [calculateTaxes, total_eq] at hmatch
    rw [hmatch] at hfees
    linarith
  · intro h
    rw [h, add_zero] at hfees
    refine ⟨total_eq _ _, total_eq _ _, total_eq _ _, total_eq _ _, ?_, ?_⟩
    · simp only [calculateTaxes, total_eq]
    · simp only [calculateTaxes, total_eq]
      exact hfees

/-! ## Reports -/

/-- Sold investments are in the report of the UTC year of the sale and no other, none is taxed for
    more than its profit, and the totals are sums over lines. -/
structure Sound (investments : List InvestmentTaxData) (jurisdiction : Jurisdiction)
    (payments : List (String × Rat)) : Prop where
  partition : ∀ inv ∈ investments, inv.status = .completed → ∀ d, inv.saleDate = some d →
    ∀ year, FourDigits year → (isRelevant year inv = true ↔ InYear year d.getTime)
  taxedOnce : ∀ inv ∈ investments, inv.status = .completed → ∀ d, inv.saleDate = some d →
    ∀ year, FourDigits year → isRelevant year inv = true →
      taxedAmount inv jurisdiction ≤ max 0 (inv.returnAmount - inv.investedAmount)
  totals : ∀ year, FourDigits year →
    TotalsMatch (calculateTaxes investments jurisdiction year payments)

/-- The reports are sound exactly when each sale's text is one of its UTC year, the fees of the sold
    investments cover the dividend, and no investment without a gain line adds to the fees. -/
theorem sound_iff (investments : List InvestmentTaxData) (jurisdiction : Jurisdiction)
    (payments : List (String × Rat)) :
    Sound investments jurisdiction payments ↔
      (∀ inv ∈ investments, inv.status = .completed → ∀ d, inv.saleDate = some d →
        YearMatches d ∧ (FourDigits d.reportYear → FeesCover inv)) ∧
      ∀ year, FourDigits year → unlistedFees investments year = 0 := by
  constructor
  · rintro ⟨hpartition, htaxed, htotals⟩
    refine ⟨fun inv hinv hstatus d hd => ⟨(yearMatches_iff hd).mp (hpartition inv hinv hstatus d hd),
      fun hfour => ?_⟩, fun year hyear => totalsMatch_iff.mp (htotals year hyear)⟩
    have hrelevant := (@isRelevant_iff inv d _ (by rw [hd]; rfl) hfour).mpr rfl
    exact (taxedAmount_le_iff jurisdiction hstatus hd).mp
      (htaxed inv hinv hstatus d hd _ hfour hrelevant)
  · rintro ⟨hsold, hfees⟩
    refine ⟨fun inv hinv hstatus d hd => (yearMatches_iff hd).mpr (hsold inv hinv hstatus d hd).1,
      fun inv hinv hstatus d hd year hyear hrelevant => ?_,
      fun year hyear => totalsMatch_iff.mpr (hfees year hyear)⟩
    have heq := (@isRelevant_iff inv d _ (by rw [hd]; rfl) hyear).mp hrelevant
    exact (taxedAmount_le_iff jurisdiction hstatus hd).mpr
      ((hsold inv hinv hstatus d hd).2 (heq ▸ hyear))

/-- A deal of 100 that paid back 150, sold on a first of January by its date only. -/
def newYearSale : InvestmentTaxData where
  dealId := "deal-1"
  dealName := "coffee"
  investedAmount := 100
  returnAmount := 150
  feesUsd := 0
  purchaseDate := ⟨2023, 3, 1, none, by decide, by decide, by decide, by decide, by decide, nofun⟩
  saleDate := some
    ⟨2024, 1, 1, none, by decide, by decide, by decide, by decide, by decide +kernel, nofun⟩
  status := .completed

theorem newYearSale_not_sound : ¬Sound [newYearSale] .US [] := by
  intro h
  have hin : InYear 2024 (86400000 * daysBeforeYear 2024 : Int) :=
    ⟨le_rfl, by decide +kernel⟩
  have hrelevant := (h.partition newYearSale (by simp) rfl _ rfl 2024 ⟨by decide, by decide⟩).mpr
    hin
  exact absurd hrelevant (by decide +kernel)

end AgriFi.Tax
