import AgriFi.Aml.CaseService
import AgriFi.Aml.Detectors

/-
  `src/aml/transaction-monitoring.service.ts`: a sweep over the movements of money in a window of
  time. It reads the rules from the tables of the case service, and adds its alerts and cases there.
-/

namespace AgriFi.Aml

open AgriFi.Binary64 AgriFi.Runs

/-- The rules as their table keeps them. -/
structure RuleTable where
  rows : List AmlMonitoringRule
  nodup_ids : (rows.map (·.id)).Nodup
  nodup_codes : (rows.map (·.ruleCode)).Nodup

inductive AmlRunStatus where
  | running
  | completed
  | failed
  | skipped
  deriving DecidableEq

structure SweepOptions where
  windowStart : Option Int
  windowEnd : Option Int
  userId : Option String
  dryRun : Bool
  /-- The time of the call. -/
  now : Int
  deriving DecidableEq

/-- `windowEnd`, which is the time of the call unless it is given. -/
def SweepOptions.toTime (options : SweepOptions) : Int := options.windowEnd.getD options.now

def SweepOptions.fromTime (options : SweepOptions) : Int :=
  options.windowStart.getD (options.toTime - 24 * HOUR_MS)

structure SweepResult where
  windowStart : Int
  windowEnd : Int
  usersEvaluated : Nat
  flowsEvaluated : Nat
  rulesApplied : Nat
  alertsRaised : Nat
  alertsSkippedDuplicate : Nat
  alertsBelowThreshold : Nat
  casesOpened : List Nat
  status : AmlRunStatus
  deriving DecidableEq

structure Candidate where
  found : PatternMatch
  userId : String
  deriving DecidableEq

/-- What the service runs on. -/
structure Monitoring where
  isEnabled : Bool
  /-- `none` where the setting is not a number. -/
  autoCaseScore : Option Rat
  detectors : Detectors
  country : String → Option String
  /-- The movements of money in the order that they are read. -/
  history : List CashFlow

/-! ## What a sweep looks at -/

def CashFlow.within (flow : CashFlow) (fromTime toTime : Int) : Bool :=
  fromTime ≤ flow.time && flow.time ≤ toTime

/-- An empty `userId` asks for every user. -/
def SweepOptions.wants (options : SweepOptions) (userId : String) : Bool :=
  (options.userId.filter (· ≠ "")).all (· = userId)

def Monitoring.loadCashFlows (m : Monitoring) (fromTime toTime : Int) (options : SweepOptions) :
    List CashFlow :=
  m.history.filter fun flow =>
    flow.within fromTime toTime && options.wants flow.userId && flow.userId ≠ ""

def flowsOf (flows : List CashFlow) (userId : String) : List CashFlow :=
  sortByTime (flows.filter (·.userId = userId))

def groupByUser (flows : List CashFlow) : List (String × List CashFlow) :=
  (flows.map (·.userId)).eraseDups.map fun userId => (userId, flowsOf flows userId)

def activeFlowRules (s : CaseState) : List AmlMonitoringRule :=
  s.rules.filter fun rule =>
    rule.enabled && rule.patternType ≠ .SANCTIONS_MATCH && rule.patternType ≠ .PEP_MATCH

def maxWindowHours (rules : List AmlMonitoringRule) : Int :=
  (rules.map (·.windowHours)).foldl max 24

/-- Only findings with a movement inside the window are reported. -/
def PatternMatch.inside (found : PatternMatch) (inWindow : List CashFlow) : Bool :=
  found.flowIds.any fun id => inWindow.any (·.id = id)

def Monitoring.evaluate (m : Monitoring) (flowsByUser : List (String × List CashFlow))
    (rules : List AmlMonitoringRule) (windowStart windowEnd : Int) : List Candidate :=
  flowsByUser.flatMap fun bucket =>
    let inWindow := bucket.2.filter (·.within windowStart windowEnd)
    if inWindow = [] then []
    else rules.flatMap fun rule =>
      ((runDetector m.detectors rule bucket.2 (m.country bucket.1)).filter
        (·.inside inWindow)).map fun found => ⟨found, bucket.1⟩

def findExistingKeys (s : CaseState) (keys : List DedupeKey) : List DedupeKey :=
  (s.alerts.map (·.dedupeKey)).filter (· ∈ keys)

/-- The user and the rule of an alert in a case that is not closed. -/
def AmlAlert.openCase (s : CaseState) (alert : AmlAlert) : Option (String × String) :=
  if s.cases.any fun c => alert.caseId = some c.id && c.status ≠ .closed then
    alert.userId.map (·, alert.ruleCode)
  else none

def openCaseRuleCodes (s : CaseState) (userIds : List String) : List (String × String) :=
  (s.alerts.filterMap (·.openCase s)).filter (·.1 ∈ userIds)

/-! ## What it does with the findings -/

structure Sweep where
  state : CaseState
  seen : List DedupeKey
  openCases : List (String × String)
  alertsRaised : Nat
  alertsSkippedDuplicate : Nat
  alertsBelowThreshold : Nat
  casesOpened : List Nat

def Candidate.belowThreshold (rules : List AmlMonitoringRule) (c : Candidate) : Bool :=
  (rules.find? (·.id = c.found.ruleId)).any fun rule =>
    (c.found.riskScore : Int) < rule.alertThresholdScore

/-- `riskScore >= autoCaseScore`, of doubles. -/
def Monitoring.opensCase (m : Monitoring) (riskScore : Nat) : Bool :=
  m.autoCaseScore.any (· ≤ div riskScore 100)

def Candidate.alert (c : Candidate) : NewAlert where
  patternType := c.found.patternType
  ruleId := some c.found.ruleId
  ruleCode := c.found.ruleCode
  userId := some c.userId
  severity := c.found.severity
  riskScore := c.found.riskScore
  amountUsd := some (c.found.amountUsd * 100000)
  flowIds := c.found.flowIds
  dedupeKey := c.found.dedupeKey

/-- Save the alert, and open a case for it when it is grave and the user has none for the rule. -/
def Monitoring.raise (m : Monitoring) (now : Int) (sweep : Sweep) (c : Candidate) :
    Except String Sweep := do
  let alertId := sweep.state.alerts.length
  let sweep := { sweep with
    state := sweep.state.createAlert c.alert
    alertsRaised := sweep.alertsRaised + 1 }
  if m.opensCase c.found.riskScore = true ∧ (c.userId, c.found.ruleCode) ∉ sweep.openCases then
    let created ← createCase sweep.state ⟨[alertId], some c.userId, none⟩ none now
    .ok { sweep with
      state := created.1
      casesOpened := sweep.casesOpened ++ [created.2.id]
      openCases := (c.userId, c.found.ruleCode) :: sweep.openCases }
  else .ok sweep

/-- One pass of the loop over the candidates. -/
def Monitoring.handle (m : Monitoring) (rules : List AmlMonitoringRule) (options : SweepOptions)
    (sweep : Sweep) (c : Candidate) : Except String Sweep :=
  if c.found.dedupeKey ∈ sweep.seen then
    .ok { sweep with alertsSkippedDuplicate := sweep.alertsSkippedDuplicate + 1 }
  else if c.belowThreshold rules = true then
    .ok { sweep with alertsBelowThreshold := sweep.alertsBelowThreshold + 1 }
  else
    let sweep := { sweep with seen := c.found.dedupeKey :: sweep.seen }
    if options.dryRun = true then .ok { sweep with alertsRaised := sweep.alertsRaised + 1 }
    else m.raise options.now sweep c

def Monitoring.handleAll (m : Monitoring) (rules : List AmlMonitoringRule)
    (options : SweepOptions) : List Candidate → Sweep → Except String Sweep
  | [], sweep => .ok sweep
  | c :: cs, sweep => do m.handleAll rules options cs (← m.handle rules options sweep c)

/-- The movements that the sweep reads: those of the window, and of the hours of history before it
    that the rules look back. -/
def Monitoring.loaded (m : Monitoring) (s : CaseState) (options : SweepOptions) : List CashFlow :=
  m.loadCashFlows (options.fromTime - maxWindowHours (activeFlowRules s) * HOUR_MS) options.toTime
    options

def Monitoring.candidates (m : Monitoring) (s : CaseState) (options : SweepOptions) :
    List Candidate :=
  m.evaluate (groupByUser (m.loaded s options)) (activeFlowRules s) options.fromTime options.toTime

def Monitoring.begin (m : Monitoring) (s : CaseState) (options : SweepOptions) : Sweep where
  state := s
  seen := findExistingKeys s ((m.candidates s options).map (·.found.dedupeKey))
  openCases := openCaseRuleCodes s ((groupByUser (m.loaded s options)).map (·.1))
  alertsRaised := 0
  alertsSkippedDuplicate := 0
  alertsBelowThreshold := 0
  casesOpened := []

def Monitoring.runSweep (m : Monitoring) (s : CaseState) (options : SweepOptions) :
    Except String (CaseState × SweepResult) := do
  if m.isEnabled = false then
    .ok (s, ⟨options.fromTime, options.toTime, 0, 0, 0, 0, 0, 0, [], .skipped⟩)
  else
    let candidates := m.candidates s options
    let sweep ← m.handleAll (activeFlowRules s) options candidates (m.begin s options)
    .ok (sweep.state, {
      windowStart := options.fromTime
      windowEnd := options.toTime
      usersEvaluated := (candidates.map (·.userId)).eraseDups.length
      flowsEvaluated := (m.loaded s options).length
      rulesApplied := (activeFlowRules s).length
      alertsRaised := sweep.alertsRaised
      alertsSkippedDuplicate := sweep.alertsSkippedDuplicate
      alertsBelowThreshold := sweep.alertsBelowThreshold
      casesOpened := sweep.casesOpened
      status := .completed })

/-! ## Runs -/

def Monitoring.next (m : Monitoring) (s : CaseState) (options : SweepOptions) : Option CaseState :=
  ((m.runSweep s options).map (·.1)).toOption

/-- Sweeps one after the other, from an empty table of alerts. -/
abbrev SweepRun (m : Monitoring) (rules : RuleTable) (xs : List (Step CaseState SweepOptions))
    (s : CaseState) : Prop :=
  Run m.next (.start rules.rows) xs s

end AgriFi.Aml
