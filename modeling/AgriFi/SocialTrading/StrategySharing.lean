import AgriFi.JsString
import AgriFi.NumberText
import AgriFi.SocialTrading.CopyTrading

/-
  `frontend/src/lib/social-trading/strategy-sharing.ts`, and `validateCopyConfig` of
  `copy-trading.ts`: a strategy is validated, published, revised and turned into a copy
  configuration. Numbers may be NaN or infinite here; the schema refuses NaN and what its bounds
  refuse. Its texts of issues, and lower case, are parameters.
-/

namespace AgriFi.StrategySharing

open AgriFi.JsValue AgriFi.SocialTrading

/-! ## Data -/

structure StrategyAllocation where
  sector : String
  weightPct : Number

structure StrategyCopyTemplate where
  mode : CopyMode
  allocationPct : Number
  fixedAmountUsd : Number
  riskBudgetPct : Number
  maxPerTrade : Number
  monthlyLimit : Number
  minTradeValue : Number
  autoStopLossPct : Number
  autoTakeProfitPct : Number
  maxDrawdownPct : Number

/-- The fields that `strategySchema` reads, of a draft or of a strategy. -/
structure StrategyFields where
  authorId : String
  authorName : String
  title : String
  summary : String
  thesis : String
  targetRoiPct : Number
  maxRiskScore : Number
  horizonDays : Number
  allocations : List StrategyAllocation
  regions : List String
  excludedCommodities : List String
  tags : List String
  copyTemplate : StrategyCopyTemplate

inductive Status where
  | draft
  | published
  | archived

structure StrategyDraft extends StrategyFields where
  status : Option Status

structure StrategyVersion where
  version : Nat
  changes : String
  at_ : String

structure SharedStrategy extends StrategyFields where
  id : String
  version : Nat
  changelog : List StrategyVersion
  status : Status
  subscriberCount : Nat
  publishedAt : String
  updatedAt : String

/-- `Partial<StrategyCopyTemplate>`. -/
structure TemplateRevision where
  mode : Option CopyMode
  allocationPct : Option Number
  fixedAmountUsd : Option Number
  riskBudgetPct : Option Number
  maxPerTrade : Option Number
  monthlyLimit : Option Number
  minTradeValue : Option Number
  autoStopLossPct : Option Number
  autoTakeProfitPct : Option Number
  maxDrawdownPct : Option Number

structure StrategyRevision where
  changes : String
  title : Option String
  summary : Option String
  thesis : Option String
  targetRoiPct : Option Number
  maxRiskScore : Option Number
  horizonDays : Option Number
  allocations : Option (List StrategyAllocation)
  regions : Option (List String)
  excludedCommodities : Option (List String)
  copyTemplate : TemplateRevision

structure CopyConfig where
  id : String
  followerId : String
  traderId : String
  mode : CopyMode
  allocationPct : Number
  fixedAmountUsd : Number
  riskBudgetPct : Number
  maxPerTrade : Number
  monthlyLimit : Number
  minTradeValue : Number
  autoStopLossPct : Number
  autoTakeProfitPct : Number
  maxDrawdownPct : Number
  feeBps : Nat
  blacklist : List String
  notifications : Bool
  enabled : Bool
  derivedFromStrategyId : String
  createdAt : String
  updatedAt : String

structure FieldError where
  path : String
  message : String
  deriving DecidableEq

/-! ## `validateStrategy` -/

/-- `z.number().min(lo)`. -/
def isMin (lo : Rat) (n : Number) : Bool := n ≠ .nan && !n.lt (.finite lo)

/-- `z.number().min(lo).max(hi)`. -/
def isBetween (lo hi : Rat) (n : Number) : Bool := isMin lo n && !Number.lt (.finite hi) n

/-- `z.number().positive()`. -/
def isPositive (n : Number) : Bool := Number.lt (.finite 0) n

/-- `Number.isInteger`. -/
def isInteger : Number → Bool
  | .finite q => q.den = 1
  | _ => false

/-- The length of a string in code units. -/
def lengthOf (s : String) : Nat := (JsString.str s).length

def isLong (lo hi : Nat) (s : String) : Bool := lo ≤ lengthOf s && lengthOf s ≤ hi

def issue (path : String) (ok : Bool) : List String := if ok then [] else [path]

def itemIssues {α : Type} (path : String) (ok : α → Bool) (xs : List α) : List String :=
  xs.zipIdx.flatMap fun (x, k) => issue s!"{path}.{k}" (ok x)

/-- The paths of the issues of `copyTemplateSchema`. -/
def templateIssues (t : StrategyCopyTemplate) : List String :=
  issue "copyTemplate.allocationPct" (isBetween 1 100 t.allocationPct) ++
  issue "copyTemplate.fixedAmountUsd" (isMin 0 t.fixedAmountUsd) ++
  issue "copyTemplate.riskBudgetPct" (isBetween 0 100 t.riskBudgetPct) ++
  issue "copyTemplate.maxPerTrade" (isPositive t.maxPerTrade) ++
  issue "copyTemplate.monthlyLimit" (isPositive t.monthlyLimit) ++
  issue "copyTemplate.minTradeValue" (isMin 0 t.minTradeValue) ++
  issue "copyTemplate.autoStopLossPct" (isBetween 0 100 t.autoStopLossPct) ++
  issue "copyTemplate.autoTakeProfitPct" (isBetween 0 500 t.autoTakeProfitPct) ++
  issue "copyTemplate.maxDrawdownPct" (isBetween 1 100 t.maxDrawdownPct)

/-- The paths of the issues of `strategySchema`; those of an allocation are one. -/
def schemaIssues (s : StrategyFields) : List String :=
  issue "authorId" (1 ≤ lengthOf s.authorId) ++
  issue "authorName" (2 ≤ lengthOf s.authorName) ++
  issue "title" (isLong 8 120 s.title) ++
  issue "summary" (isLong 20 320 s.summary) ++
  issue "thesis" (isLong 40 4000 s.thesis) ++
  issue "targetRoiPct" (isBetween 0 100 s.targetRoiPct) ++
  issue "maxRiskScore" (isBetween 0 100 s.maxRiskScore) ++
  issue "horizonDays" (isInteger s.horizonDays && isBetween 30 1095 s.horizonDays) ++
  issue "allocations" (1 ≤ s.allocations.length && s.allocations.length ≤ 8) ++
  itemIssues "allocations" (fun a => 2 ≤ lengthOf a.sector && isBetween 1 100 a.weightPct)
    s.allocations ++
  issue "regions" (1 ≤ s.regions.length && s.regions.length ≤ 6) ++
  itemIssues "regions" (2 ≤ lengthOf ·) s.regions ++
  issue "excludedCommodities" (s.excludedCommodities.length ≤ 12) ++
  itemIssues "excludedCommodities" (2 ≤ lengthOf ·) s.excludedCommodities ++
  issue "tags" (s.tags.length ≤ 8) ++
  itemIssues "tags" (2 ≤ lengthOf ·) s.tags ++
  templateIssues s.copyTemplate

def allocationTotal (allocations : List StrategyAllocation) : Number :=
  match allocations.foldl (fun sum a => Number.add sum a.weightPct) (Number.finite 0) with
  | .finite q => .finite (round2 q)
  | n => n

def numberText (n : Number) : String := String.ofList (Number.toText n)

def fieldError (wrong : Bool) (path message : String) : List FieldError :=
  if wrong then [⟨path, message⟩] else []

section Strategies

/-- `toLowerCase`, and the message that the schema has for an issue. -/
structure Library where
  toLowerCase : String → String
  issueMessage : String → String

variable (lib : Library)

/-- The rules that the schema cannot express. -/
def businessErrors (s : StrategyFields) : List FieldError :=
  let t := s.copyTemplate
  let total := allocationTotal s.allocations
  fieldError (total ≠ .finite 100) "allocations"
    s!"Sector weights total {numberText total}%; they must total 100%." ++
  fieldError ((s.allocations.map fun a => lib.toLowerCase a.sector).dedup.length ≠
    s.allocations.length) "allocations" "Each sector may appear only once." ++
  fieldError (t.monthlyLimit.lt t.maxPerTrade) "copyTemplate.monthlyLimit"
    "Monthly limit must be at least the per-trade cap." ++
  fieldError (t.maxPerTrade.lt t.minTradeValue) "copyTemplate.minTradeValue"
    "Minimum trade size cannot exceed the per-trade cap." ++
  fieldError (s.maxRiskScore.lt t.maxDrawdownPct) "copyTemplate.maxDrawdownPct"
    (s!"Drawdown stop {numberText t.maxDrawdownPct}% exceeds the strategy risk bound of " ++
      s!"{numberText s.maxRiskScore}%.") ++
  fieldError (Number.lt (.finite 25) s.targetRoiPct && s.maxRiskScore.lt (.finite 40))
    "targetRoiPct" "A target above 25% ROI needs a risk bound of at least 40."

/-- The errors of `validateStrategy`, which is `valid` if there are none. -/
def validateStrategy (s : StrategyFields) : List FieldError :=
  match schemaIssues s with
  | [] => businessErrors lib s
  | paths => paths.map fun path => ⟨path, lib.issueMessage path⟩

/-! ## Publishing and revising -/

/-- `[^a-z0-9]+` becomes a hyphen. -/
def hyphenate (inRun : Bool) : List Char → List Char
  | [] => []
  | c :: cs =>
    if c.isLower || c.isDigit then c :: hyphenate false cs
    else if inRun then hyphenate true cs
    else '-' :: hyphenate true cs

def slugify (value : String) : String :=
  let slug := (hyphenate false (lib.toLowerCase value).toList).dropWhile (· = '-')
  String.ofList ((slug.reverse.dropWhile (· = '-')).reverse.take 60)

def publishStrategy (draft : StrategyDraft) (at_ : String) (id : Option String) :
    SharedStrategy :=
  { draft.toStrategyFields with
    id := id.getD s!"strategy:{slugify lib draft.title}-v1"
    version := 1
    changelog := [⟨1, "Initial publication.", at_⟩]
    status := draft.status.getD .published
    subscriberCount := 0
    publishedAt := at_
    updatedAt := at_ }

/-- `{ ...template, ...revision }`. -/
def StrategyCopyTemplate.revise (t : StrategyCopyTemplate) (r : TemplateRevision) :
    StrategyCopyTemplate where
  mode := r.mode.getD t.mode
  allocationPct := r.allocationPct.getD t.allocationPct
  fixedAmountUsd := r.fixedAmountUsd.getD t.fixedAmountUsd
  riskBudgetPct := r.riskBudgetPct.getD t.riskBudgetPct
  maxPerTrade := r.maxPerTrade.getD t.maxPerTrade
  monthlyLimit := r.monthlyLimit.getD t.monthlyLimit
  minTradeValue := r.minTradeValue.getD t.minTradeValue
  autoStopLossPct := r.autoStopLossPct.getD t.autoStopLossPct
  autoTakeProfitPct := r.autoTakeProfitPct.getD t.autoTakeProfitPct
  maxDrawdownPct := r.maxDrawdownPct.getD t.maxDrawdownPct

def reviseStrategy (s : SharedStrategy) (r : StrategyRevision) (at_ : String) : SharedStrategy :=
  { s with
    title := r.title.getD s.title
    summary := r.summary.getD s.summary
    thesis := r.thesis.getD s.thesis
    targetRoiPct := r.targetRoiPct.getD s.targetRoiPct
    maxRiskScore := r.maxRiskScore.getD s.maxRiskScore
    horizonDays := r.horizonDays.getD s.horizonDays
    allocations := r.allocations.getD s.allocations
    regions := r.regions.getD s.regions
    excludedCommodities := r.excludedCommodities.getD s.excludedCommodities
    copyTemplate := s.copyTemplate.revise r.copyTemplate
    version := s.version + 1
    changelog := s.changelog ++ [⟨s.version + 1, r.changes, at_⟩]
    updatedAt := at_ }

/-- `Math.min` of two numbers that are not NaN. -/
def minNumber (m n : Number) : Number := if n.lt m then n else m

def subscribeToStrategy (s : SharedStrategy) (followerId at_ : String)
    (traderId : Option String) : CopyConfig where
  id := s!"copycfg:{followerId}:{s.authorId}"
  followerId := followerId
  traderId := traderId.getD s.authorId
  mode := s.copyTemplate.mode
  allocationPct := s.copyTemplate.allocationPct
  fixedAmountUsd := s.copyTemplate.fixedAmountUsd
  riskBudgetPct := s.copyTemplate.riskBudgetPct
  maxPerTrade := s.copyTemplate.maxPerTrade
  monthlyLimit := s.copyTemplate.monthlyLimit
  minTradeValue := s.copyTemplate.minTradeValue
  autoStopLossPct := s.copyTemplate.autoStopLossPct
  autoTakeProfitPct := s.copyTemplate.autoTakeProfitPct
  maxDrawdownPct := minNumber s.copyTemplate.maxDrawdownPct s.maxRiskScore
  feeBps := 30
  blacklist := s.excludedCommodities
  notifications := true
  enabled := false
  derivedFromStrategyId := s.id
  createdAt := at_
  updatedAt := at_

/-- A strategy whose draft, and each revision of it, was accepted. -/
inductive Shared : SharedStrategy → Prop
  | publish (draft : StrategyDraft) (at_ : String) (id : Option String) :
      validateStrategy lib draft.toStrategyFields = [] → Shared (publishStrategy lib draft at_ id)
  | revise (s : SharedStrategy) (r : StrategyRevision) (at_ : String) : Shared s →
      validateStrategy lib (reviseStrategy s r at_).toStrategyFields = [] →
      Shared (reviseStrategy s r at_)

end Strategies

/-! ## `validateCopyConfig` -/

/-- The value of a finite number. -/
def num : Number → Option Rat
  | .finite q => some q
  | _ => none

/-- Both are numbers, and the first is less. -/
def isLess (m n : Option Rat) : Bool :=
  match m, n with
  | some m, some n => m < n
  | _, _ => false

/-- Not a number, or outside of the bounds. -/
def isOutside (wrong : Rat → Bool) (n : Number) : Bool := (num n).all wrong

def modeErrors (c : CopyConfig) : List FieldError :=
  match c.mode with
  | .fixed =>
    if isOutside (· ≤ 0) c.fixedAmountUsd then
      [⟨"fixedAmountUsd", "Fixed copy amount must be greater than zero."⟩]
    else fieldError (isLess (num c.maxPerTrade) (num c.fixedAmountUsd)) "fixedAmountUsd"
      "Fixed amount exceeds the per-trade cap."
  | .proportional =>
    fieldError (isOutside (fun q => q ≤ 0 || 100 < q) c.allocationPct) "allocationPct"
      "Allocation must be between 1% and 100%."
  | .inverse_risk =>
    fieldError (isOutside (fun q => q ≤ 0 || 100 < q) c.riskBudgetPct) "riskBudgetPct"
      "Risk budget must be between 1% and 100%."

def validateCopyConfig (c : CopyConfig) : List FieldError :=
  fieldError (isOutside (· < 0) c.minTradeValue) "minTradeValue"
    "Minimum trade size must be zero or more." ++
  fieldError (isOutside (· ≤ 0) c.maxPerTrade) "maxPerTrade"
    "Per-trade cap must be greater than zero." ++
  fieldError (isOutside (· ≤ 0) c.monthlyLimit) "monthlyLimit"
    "Monthly limit must be greater than zero." ++
  fieldError (isLess (num c.maxPerTrade) (num c.minTradeValue)) "maxPerTrade"
    "Per-trade cap must be at least the minimum trade size." ++
  fieldError (isLess (num c.monthlyLimit) (num c.minTradeValue)) "monthlyLimit"
    "Monthly limit must be at least the minimum trade size." ++
  fieldError (isLess (num c.monthlyLimit) (num c.maxPerTrade)) "monthlyLimit"
    "Monthly limit cannot be lower than the per-trade cap." ++
  modeErrors c ++
  fieldError (isOutside (fun q => q < 0 || 100 < q) c.autoStopLossPct) "autoStopLossPct"
    "Stop-loss must be between 0% and 100%." ++
  fieldError (isOutside (fun q => q < 0 || 500 < q) c.autoTakeProfitPct) "autoTakeProfitPct"
    "Take-profit must be between 0% and 500%." ++
  fieldError (isOutside (fun q => q ≤ 0 || 100 < q) c.maxDrawdownPct) "maxDrawdownPct"
    "Max drawdown must be between 1% and 100%."

end AgriFi.StrategySharing

/-
  What a subscription to an accepted strategy is. Where the limits of its copy template are finite
  and the amount that its mode reads is a positive one within them, `validateCopyConfig` has nothing
  to say about the configuration (`subscription_of_accepted`).
-/

namespace AgriFi.StrategySharing

open AgriFi.JsValue AgriFi.SocialTrading

variable {lib : Library} {s t : SharedStrategy}

@[simp]
theorem issue_eq_nil {path : String} {ok : Bool} : issue path ok = [] ↔ ok = true := by
  cases ok <;> simp [issue]

@[simp]
theorem fieldError_eq_nil {wrong : Bool} {path message : String} :
    fieldError wrong path message = [] ↔ wrong = false := by
  cases wrong <;> simp [fieldError]

theorem finite_of_isBetween {lo hi : Rat} {n : Number} (h : isBetween lo hi n = true) :
    ∃ q, n = .finite q ∧ lo ≤ q ∧ q ≤ hi := by
  cases n with
  | nan => simp [isBetween, isMin] at h
  | infinity negative => cases negative <;> simp [isBetween, isMin, Number.lt] at h
  | finite q => exact ⟨q, rfl, by simpa [isBetween, isMin, Number.lt] using h⟩

theorem finite_of_isPositive {n : Number} (h : isPositive n = true) (hfinite : (num n).isSome) :
    ∃ q, n = .finite q ∧ 0 < q := by
  cases n with
  | nan => simp [num] at hfinite
  | infinity negative => simp [num] at hfinite
  | finite q => exact ⟨q, rfl, by simpa [isPositive, Number.lt] using h⟩

/-- A number that is not above a finite one is finite, unless it is below all. -/
theorem finite_of_isMin {n : Number} {cap : Rat} (h : isMin 0 n = true)
    (hcap : Number.lt (.finite cap) n = false) : ∃ q, n = .finite q ∧ 0 ≤ q ∧ q ≤ cap := by
  cases n with
  | nan => simp [isMin] at h
  | infinity negative => cases negative <;> simp [isMin, Number.lt] at h hcap
  | finite q =>
    refine ⟨q, rfl, by simpa [isMin, Number.lt] using h, ?_⟩
    simpa [Number.lt] using hcap

/-- What `validateStrategy` accepts about the copy template and the risk bound. -/
structure Accepted (s : StrategyFields) : Prop where
  template : templateIssues s.copyTemplate = []
  risk : isBetween 0 100 s.maxRiskScore = true
  cap_le_limit : s.copyTemplate.monthlyLimit.lt s.copyTemplate.maxPerTrade = false
  min_le_cap : s.copyTemplate.maxPerTrade.lt s.copyTemplate.minTradeValue = false
  drawdown_le_risk : s.maxRiskScore.lt s.copyTemplate.maxDrawdownPct = false

theorem accepted_of_validate {s : StrategyFields} (h : validateStrategy lib s = []) :
    Accepted s := by
  unfold validateStrategy at h
  split at h
  · next hschema =>
    simp only [schemaIssues, List.append_eq_nil_iff, issue_eq_nil] at hschema
    simp only [businessErrors, List.append_eq_nil_iff, fieldError_eq_nil] at h
    obtain ⟨⟨⟨⟨⟨-, -⟩, hlimit⟩, hmin⟩, hdrawdown⟩, -⟩ := h
    obtain ⟨hrest, htemplate⟩ := hschema
    exact ⟨htemplate, by tauto, hlimit, hmin, hdrawdown⟩
  · next paths hne => exact absurd (List.map_eq_nil_iff.mp h) hne

/-- The limits are finite, and the amount of the mode is a positive one that they allow. -/
structure Sized (t : StrategyCopyTemplate) : Prop where
  maxPerTrade : (num t.maxPerTrade).isSome
  monthlyLimit : (num t.monthlyLimit).isSome
  fixed : t.mode = .fixed →
    (num t.fixedAmountUsd).any (0 < ·) ∧ t.maxPerTrade.lt t.fixedAmountUsd = false
  inverse_risk : t.mode = .inverse_risk → t.riskBudgetPct ≠ .finite 0

theorem drawdown_of_accepted {s : StrategyFields} (h : Accepted s) :
    ∃ d r, s.copyTemplate.maxDrawdownPct = .finite d ∧ s.maxRiskScore = .finite r ∧ 1 ≤ d ∧
      d ≤ 100 ∧ d ≤ r ∧ minNumber s.copyTemplate.maxDrawdownPct s.maxRiskScore = .finite d := by
  have htemplate := h.template
  simp only [templateIssues, List.append_eq_nil_iff, issue_eq_nil] at htemplate
  obtain ⟨d, hd, hd1, hd100⟩ := finite_of_isBetween htemplate.2
  obtain ⟨r, hr, -, -⟩ := finite_of_isBetween h.risk
  have hle := h.drawdown_le_risk
  refine ⟨d, r, hd, hr, hd1, hd100, ?_, ?_⟩
  · simpa [hd, hr, Number.lt] using hle
  · rw [minNumber, hle, hd]
    rfl

theorem modeErrors_of_sized {c : CopyConfig} {t : StrategyCopyTemplate} (hsized : Sized t)
    (hmode : c.mode = t.mode) (hfixed : c.fixedAmountUsd = t.fixedAmountUsd)
    (hcap : c.maxPerTrade = t.maxPerTrade)
    (hallocation : ∃ q, c.allocationPct = .finite q ∧ 1 ≤ q ∧ q ≤ 100)
    (hbudget : c.riskBudgetPct = t.riskBudgetPct ∧
      ∃ q, t.riskBudgetPct = .finite q ∧ 0 ≤ q ∧ q ≤ 100) : modeErrors c = [] := by
  unfold modeErrors
  rw [hmode]
  cases h : t.mode with
  | fixed =>
    obtain ⟨hpositive, hle⟩ := hsized.fixed h
    rw [hfixed, hcap]
    cases hf : t.fixedAmountUsd with
    | nan | infinity => simp [hf, num] at hpositive
    | finite q =>
      have hq : 0 < q := by simpa [hf, num] using hpositive
      have hcapFinite := hsized.maxPerTrade
      cases hm : t.maxPerTrade with
      | nan | infinity => simp [hm, num] at hcapFinite
      | finite cap =>
        have hqcap : q ≤ cap := by simpa [hf, hm, Number.lt] using hle
        simp [isOutside, num, isLess, not_le.mpr hq, not_lt.mpr hqcap]
  | proportional =>
    obtain ⟨q, hq, hq1, hq100⟩ := hallocation
    have hpos : 0 < q := by linarith
    simp [hq, isOutside, num, hpos, hq100]
  | inverse_risk =>
    obtain ⟨hc, q, hq, hq0, hq100⟩ := hbudget
    have hpos : 0 < q := by
      refine lt_of_le_of_ne hq0 fun heq => hsized.inverse_risk h ?_
      rw [hq, ← heq]
    simp [hc, hq, isOutside, num, hpos, hq100]

theorem validateCopyConfig_subscription (h : Accepted s.toStrategyFields)
    (hsized : Sized s.copyTemplate) (followerId at_ : String) (traderId : Option String) :
    validateCopyConfig (subscribeToStrategy s followerId at_ traderId) = [] := by
  have htemplate := h.template
  simp only [templateIssues, List.append_eq_nil_iff, issue_eq_nil] at htemplate
  obtain ⟨⟨⟨⟨⟨⟨⟨⟨hallocation, -⟩, hbudget⟩, hcap⟩, hlimit⟩, hmin⟩, hstop⟩, htake⟩, -⟩ := htemplate
  obtain ⟨cap, hcapEq, hcap0⟩ := finite_of_isPositive hcap hsized.maxPerTrade
  obtain ⟨limit, hlimitEq, hlimit0⟩ := finite_of_isPositive hlimit hsized.monthlyLimit
  have hminCap := h.min_le_cap
  rw [hcapEq] at hminCap
  obtain ⟨m, hmEq, hm0, hmcap⟩ := finite_of_isMin hmin hminCap
  have hcapLimit : cap ≤ limit := by
    simpa [hcapEq, hlimitEq, Number.lt] using h.cap_le_limit
  have hmlimit : m ≤ limit := hmcap.trans hcapLimit
  obtain ⟨a, haEq, ha1, ha100⟩ := finite_of_isBetween hstop
  obtain ⟨b, hbEq, hb0, hb500⟩ := finite_of_isBetween htake
  obtain ⟨d, r, -, -, hd1, hd100, -, hmin⟩ := drawdown_of_accepted h
  have hd0 : 0 < d := by linarith
  have hmode : modeErrors (subscribeToStrategy s followerId at_ traderId) = [] :=
    modeErrors_of_sized hsized rfl rfl rfl (finite_of_isBetween hallocation)
      ⟨rfl, finite_of_isBetween hbudget⟩
  simp only [validateCopyConfig, hmode, List.append_nil, List.append_eq_nil_iff, fieldError_eq_nil]
  simp [subscribeToStrategy, hcapEq, hlimitEq, hmEq, haEq, hbEq, hmin, num, isOutside, isLess,
    hcap0, hlimit0, hm0, hmcap, hmlimit, hcapLimit, ha1, ha100, hb0, hb500, hd0, hd100]

/-- The id of a configuration names the follower and the author. -/
theorem subscription_id_eq_iff (followerId at_ at' : String) (traderId traderId' : Option String) :
    (subscribeToStrategy s followerId at_ traderId).id =
      (subscribeToStrategy t followerId at' traderId').id ↔ s.authorId = t.authorId := by
  constructor
  · intro h
    have htext := congrArg String.toList h
    simp only [subscribeToStrategy, String.toList_append, List.append_assoc, toString,
      List.append_cancel_left_eq] at htext
    exact String.toList_inj.mp htext
  · intro h
    simp only [subscribeToStrategy, h]

theorem Shared.accepted (h : Shared lib s) : Accepted s.toStrategyFields := by
  cases h with
  | publish draft at_ id hvalid => exact accepted_of_validate hvalid
  | revise s r at_ _ hvalid => exact accepted_of_validate hvalid

theorem Shared.changelog (h : Shared lib s) :
    s.changelog.map StrategyVersion.version = List.range' 1 s.version := by
  induction h with
  | publish draft at_ id _ => rfl
  | revise s r at_ _ _ ih =>
    simp only [reviseStrategy, List.map_append, ih, List.range'_1_concat, List.map_cons,
      List.map_nil, Nat.add_comm 1]

/-- A subscription to a strategy that was accepted, and accepted again after each revision. -/
theorem subscription_of_accepted (h : Shared lib s) (followerId at_ : String)
    (traderId : Option String) :
    (Sized s.copyTemplate →
      validateCopyConfig (subscribeToStrategy s followerId at_ traderId) = []) ∧
    (∃ d r, (subscribeToStrategy s followerId at_ traderId).maxDrawdownPct = .finite d ∧
      s.maxRiskScore = .finite r ∧ d ≤ r) ∧
    (∀ t at' traderId', Shared lib t →
      ((subscribeToStrategy t followerId at' traderId').id =
        (subscribeToStrategy s followerId at_ traderId).id ↔ t.authorId = s.authorId)) ∧
    s.changelog.map StrategyVersion.version = List.range' 1 s.version := by
  obtain ⟨d, r, -, hr, -, -, hle, hmin⟩ := drawdown_of_accepted h.accepted
  exact ⟨fun hsized => validateCopyConfig_subscription h.accepted hsized _ _ _,
    ⟨d, r, hmin, hr, hle⟩, fun _ _ _ _ => subscription_id_eq_iff _ _ _ _ _, h.changelog⟩

/-! ## An author with two strategies -/

def sampleLibrary : Library := ⟨id, fun _ => "Invalid"⟩

def sampleDraft (title : String) : StrategyDraft where
  authorId := "trader-a"
  authorName := "amina"
  title := title
  summary := "coffee along the coast, spread over farms"
  thesis := "coastal farms harvest in turn, so that repayments come in through the year"
  targetRoiPct := .finite 18
  maxRiskScore := .finite 40
  horizonDays := .finite 180
  allocations := [⟨"coffee", .finite 60⟩, ⟨"cocoa", .finite 40⟩]
  regions := ["coast"]
  excludedCommodities := ["tobacco"]
  tags := []
  copyTemplate := ⟨.proportional, .finite 60, .finite 0, .finite 5, .finite 800, .finite 2400,
    .finite 50, .finite 15, .finite 40, .finite 20⟩
  status := none

def sampleStrategy : {s : SharedStrategy // Shared sampleLibrary s} :=
  ⟨publishStrategy sampleLibrary (sampleDraft "coastal coffee") "2026-03-01T00:00:00.000Z" none,
    .publish _ _ _ (by decide +kernel)⟩

theorem subscription_of_accepted_sample :
    let s := sampleStrategy.1
    let c := subscribeToStrategy s "follower-1" "2026-03-02T00:00:00.000Z" none
    (Sized s.copyTemplate → validateCopyConfig c = []) ∧
    (∃ d r, c.maxDrawdownPct = .finite d ∧ s.maxRiskScore = .finite r ∧ d ≤ r) ∧
    (∀ t at' traderId', Shared sampleLibrary t →
      ((subscribeToStrategy t "follower-1" at' traderId').id = c.id ↔
        t.authorId = s.authorId)) ∧
    s.changelog.map StrategyVersion.version = List.range' 1 s.version :=
  subscription_of_accepted sampleStrategy.2 "follower-1" "2026-03-02T00:00:00.000Z" none

end AgriFi.StrategySharing
