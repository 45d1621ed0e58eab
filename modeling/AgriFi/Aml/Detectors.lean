import AgriFi.Aml.Entities
import AgriFi.Binary64
import AgriFi.Firsts
import Mathlib.Data.List.Sort

/-
  `src/aml/aml-detectors.ts`: the structuring detector over the flows of one user. Times are in
  milliseconds, amounts are doubles.
-/

namespace AgriFi.Aml

open AgriFi.Binary64 AgriFi.Firsts

inductive CashFlowDirection where
  | inflow
  | outflow
  deriving DecidableEq

structure CashFlow where
  id : String
  userId : String
  direction : CashFlowDirection
  amountUsd : Rat
  time : Int
  dealId : Option String
  counterpartyCountry : Option String
  deriving DecidableEq

structure PatternMatch where
  patternType : AmlPatternType
  ruleId : Nat
  ruleCode : String
  severity : AmlSeverity
  /-- In hundredths. -/
  riskScore : Nat
  dedupeKey : DedupeKey
  /-- In cents. -/
  amountUsd : Int
  flowIds : List String
  deriving DecidableEq

def HOUR_MS : Int := 3600000

/-- Stable, by time. -/
def sortByTime (flows : List CashFlow) : List CashFlow :=
  flows.insertionSort fun a b => a.time ≤ b.time

/-- `clampScore`, in hundredths. -/
def clampScore (score : Rat) : Nat := (mathRound (mul (min 100 (max 0 score)) 100)).toNat

def effectiveRiskScore (rule : AmlMonitoringRule) (magnitudeBoost : Rat) : Nat :=
  let base := toDouble (rule.baseRiskScore / 100)
  let sensitivity := toDouble (rule.sensitivityMultiplier / 100)
  clampScore (mul (mul base sensitivity) (add 1 magnitudeBoost))

def magnitudeBoost (log10 : Rat → Rat) (amountUsd thresholdUsd : Rat) : Rat :=
  if thresholdUsd ≤ 0 ∨ amountUsd ≤ thresholdUsd then 0
  else min (3 / 4) (mul (1 / 4) (log10 (div amountUsd thresholdUsd)))

/-- The start of the bucket of time that `windowStartLabel` writes. -/
def bucketOf (windowHours time : Int) : Int :=
  let bucketMs := max 1 windowHours * HOUR_MS
  time / bucketMs * bucketMs

/-- For each flow, those from it on that are within the hours of it. -/
def windows (windowHours : Int) : List CashFlow → List (List CashFlow)
  | [] => []
  | first :: rest =>
    let window := (first :: rest).takeWhile fun flow =>
      flow.time - first.time ≤ windowHours * HOUR_MS
    if window = [] then windows windowHours rest else window :: windows windowHours rest

def sumUsd (flows : List CashFlow) : Rat := sum (flows.map (·.amountUsd))

namespace AmlMonitoringRule

variable (rule : AmlMonitoringRule)

def maxIndividual : Rat := rule.parameters.maxIndividualAmountUsd.getD 9500

def aggregate : Rat := rule.parameters.aggregateThresholdUsd.getD 10000

def minCount : Rat := rule.parameters.minFlowCount.getD 3

/-- The inflows that count, in the order of time. -/
def inFlows (flows : List CashFlow) : List CashFlow :=
  sortByTime (flows.filter fun flow =>
    flow.direction = .inflow && flow.amountUsd ≤ rule.maxIndividual)

/-- A window with enough flows that reach the threshold together. -/
def qualifies (window : List CashFlow) : Bool :=
  rule.minCount ≤ window.length && rule.aggregate ≤ sumUsd window

def structuringKey (window : List CashFlow) : DedupeKey :=
  match window with
  | first :: _ => .structuring rule.ruleCode first.userId (bucketOf rule.windowHours first.time)
  | [] => .other "unknown"

def structuringScore (log10 : Rat → Rat) (total : Rat) : Nat :=
  effectiveRiskScore rule (magnitudeBoost log10 total rule.aggregate)

def structuringMatch (log10 : Rat → Rat) (window : List CashFlow) : PatternMatch where
  patternType := .STRUCTURING
  ruleId := rule.id
  ruleCode := rule.ruleCode
  severity := rule.riskLevel
  riskScore := rule.structuringScore log10 (sumUsd window)
  dedupeKey := rule.structuringKey window
  amountUsd := toCents (sumUsd window)
  flowIds := window.map (·.id)

/-- The windows that are matched: of those that qualify, the first for each key. -/
def structuringWindows (flows : List CashFlow) : List (List CashFlow) :=
  firsts rule.structuringKey rule.qualifies [] (windows rule.windowHours (rule.inFlows flows))

end AmlMonitoringRule

def detectStructuring (log10 : Rat → Rat) (rule : AmlMonitoringRule) (flows : List CashFlow) :
    List PatternMatch :=
  (rule.structuringWindows flows).map (rule.structuringMatch log10)

/-- The detectors of the other patterns, which match flows for their rule, and under keys of their
    own. -/
structure Detectors where
  /-- `Math.log10`. -/
  log10 : Rat → Rat
  others : AmlMonitoringRule → List CashFlow → Option String → List PatternMatch
  others_rule : ∀ rule flows country, ∀ found ∈ others rule flows country,
    found.ruleId = rule.id ∧ found.ruleCode = rule.ruleCode
  others_key : ∀ rule flows country, ∀ found ∈ others rule flows country,
    ∃ text, found.dedupeKey = .other text

def runDetector (detectors : Detectors) (rule : AmlMonitoringRule) (flows : List CashFlow)
    (userCountry : Option String) : List PatternMatch :=
  if rule.enabled = false then []
  else if flows = [] then []
  else match rule.patternType with
    | .STRUCTURING => detectStructuring detectors.log10 rule flows
    | .SANCTIONS_MATCH | .PEP_MATCH => []
    | _ => detectors.others rule flows userCountry

/-! ## What a detector finds -/

section Found

variable {rule : AmlMonitoringRule} {detectors : Detectors} {flows window : List CashFlow}
  {userCountry : Option String} {found : PatternMatch} {f : CashFlow} {n : Int}

theorem windows_sublist (h : window ∈ windows n flows) : window.Sublist flows ∧ window ≠ [] := by
  induction flows with
  | nil => cases h
  | cons first rest ih =>
    have hrest : window ∈ windows n rest → window.Sublist (first :: rest) ∧ window ≠ [] := by
      intro hmem
      obtain ⟨hsub, hne⟩ := ih hmem
      exact ⟨hsub.trans (List.sublist_cons_self ..), hne⟩
    simp only [windows] at h
    split at h
    · exact hrest h
    · next hne =>
      rcases List.mem_cons.mp h with rfl | h
      · exact ⟨List.takeWhile_sublist _, hne⟩
      · exact hrest h

theorem mem_inFlows (h : f ∈ rule.inFlows flows) : f ∈ flows := by
  rw [AmlMonitoringRule.inFlows, sortByTime, List.mem_insertionSort] at h
  exact List.mem_of_mem_filter h

theorem runDetector_structuring (henabled : rule.enabled = true)
    (hpattern : rule.patternType = .STRUCTURING) :
    runDetector detectors rule flows userCountry =
      detectStructuring detectors.log10 rule flows := by
  unfold runDetector
  rw [if_neg (by simp [henabled]), hpattern]
  split
  · next hnone =>
    rw [hnone]
    rfl
  · rfl

theorem runDetector_mem (h : found ∈ runDetector detectors rule flows userCountry) :
    (rule.patternType = .STRUCTURING ∧ found ∈ detectStructuring detectors.log10 rule flows) ∨
      (rule.patternType ≠ .STRUCTURING ∧ found ∈ detectors.others rule flows userCountry) := by
  unfold runDetector at h
  split at h
  · cases h
  split at h
  · cases h
  split at h
  · next hpattern => exact .inl ⟨hpattern, h⟩
  · cases h
  · cases h
  · next hpattern _ _ => exact .inr ⟨hpattern, h⟩

theorem runDetector_rule (h : found ∈ runDetector detectors rule flows userCountry) :
    found.ruleId = rule.id ∧ found.ruleCode = rule.ruleCode := by
  rcases runDetector_mem h with ⟨-, h⟩ | ⟨-, h⟩
  · obtain ⟨window, -, rfl⟩ := List.mem_map.mp h
    exact ⟨rfl, rfl⟩
  · exact detectors.others_rule rule flows userCountry found h

theorem runDetector_other (hpattern : rule.patternType ≠ .STRUCTURING)
    (h : found ∈ runDetector detectors rule flows userCountry) :
    ∃ text, found.dedupeKey = .other text := by
  rcases runDetector_mem h with ⟨hstructuring, -⟩ | ⟨-, h⟩
  · exact absurd hstructuring hpattern
  · exact detectors.others_key rule flows userCountry found h

end Found

end AgriFi.Aml
