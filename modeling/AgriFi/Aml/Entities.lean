import Mathlib.Data.List.Basic

/-
  The alerts, cases, rules and feedback of `src/aml/entities`, and the shared vocabulary of
  `aml.constants.ts`. A score is a number of hundredths, an amount a number of ten-millionths of a
  dollar, as their columns keep them; a sum of amounts is taken for exact.
-/

namespace AgriFi.Aml

inductive AmlPatternType where
  | STRUCTURING
  | RAPID_MOVEMENT
  | LAYERING
  | VELOCITY
  | HIGH_VALUE
  | HIGH_RISK_JURISDICTION
  | SANCTIONS_MATCH
  | PEP_MATCH
  | BEHAVIORAL_ANOMALY
  deriving DecidableEq

inductive AmlSeverity where
  | LOW
  | MEDIUM
  | HIGH
  | CRITICAL
  deriving DecidableEq

inductive AmlAlertStatus where
  | pending
  | triaged
  | escalated
  | falsePositive
  | dismissed
  deriving DecidableEq

/-- `opened` is the status `open`. -/
inductive AmlCaseStatus where
  | opened
  | inReview
  | escalated
  | awaitingInformation
  | closed
  deriving DecidableEq

inductive AmlDisposition where
  | falsePositive
  | sarFiled
  | noAction
  | referredToAuthority
  | accountRestricted
  deriving DecidableEq

/-- The key that an alert is raised once for. The structuring detector names the rule, the user
    and the start of a bucket of time; the keys of the other detectors are texts. -/
inductive DedupeKey where
  | structuring (ruleCode : String) (userId : String) (bucket : Int)
  | other (text : String)
  deriving DecidableEq

structure AmlAlert where
  id : Nat
  patternType : AmlPatternType
  ruleId : Option Nat
  ruleCode : String
  userId : Option String
  severity : AmlSeverity
  riskScore : Nat
  amountUsd : Option Int
  /-- `evidence.flowIds`. -/
  flowIds : List String
  status : AmlAlertStatus
  caseId : Option Nat
  dedupeKey : DedupeKey
  reviewedBy : Option String
  reviewedAt : Option Int
  deriving DecidableEq

/-- `Number(alert.amountUsd ?? 0)`. -/
def AmlAlert.amount (alert : AmlAlert) : Int := alert.amountUsd.getD 0

structure AmlCaseTimelineEntry where
  time : Int
  action : String
  actorId : Option String
  deriving DecidableEq

structure AmlCase where
  id : Nat
  subjectUserId : Option String
  priority : AmlSeverity
  status : AmlCaseStatus
  assignedTo : Option String
  openedBy : Option String
  alertIds : List Nat
  riskScore : Nat
  exposureUsd : Int
  timeline : List AmlCaseTimelineEntry
  disposition : Option AmlDisposition
  notes : Option String
  dueAt : Option Int
  closedAt : Option Int
  deriving DecidableEq

/-- The parameters that the structuring detector reads, as `Number` reads them; `none` where that
    is not a finite number. -/
structure AmlRuleParameters where
  maxIndividualAmountUsd : Option Rat
  aggregateThresholdUsd : Option Rat
  minFlowCount : Option Rat
  deriving DecidableEq

structure AmlMonitoringRule where
  id : Nat
  ruleCode : String
  patternType : AmlPatternType
  riskLevel : AmlSeverity
  enabled : Bool
  windowHours : Int
  parameters : AmlRuleParameters
  baseRiskScore : Int
  alertThresholdScore : Int
  sensitivityMultiplier : Int
  falsePositiveCount : Nat
  truePositiveCount : Nat
  deriving DecidableEq

structure AmlDispositionFeedback where
  alertId : Option Nat
  caseId : Option Nat
  ruleCode : String
  ruleId : Option Nat
  disposition : AmlDisposition
  recordedBy : Option String
  reason : Option String
  sensitivityBefore : Option Int
  sensitivityAfter : Option Int
  deriving DecidableEq

end AgriFi.Aml
