import AgriFi.Aml.Entities
import AgriFi.Binary64
import AgriFi.Rows
import AgriFi.Runs

/-
  `src/aml/aml-case.service.ts`: grouping alerts into cases, closing a case, triaging an alert, and
  the feedback that tunes the rules. An id is the place of its row in its table.
-/

namespace AgriFi.Aml

open AgriFi.Binary64 AgriFi.Rows AgriFi.Runs

/-- Days that an analyst has. -/
def SLA_DAYS : AmlSeverity → Int
  | .CRITICAL => 3
  | .HIGH => 5
  | .MEDIUM => 10
  | .LOW => 30

def SEVERITY_RANK : AmlSeverity → Nat
  | .LOW => 0
  | .MEDIUM => 1
  | .HIGH => 2
  | .CRITICAL => 3

def dueDate (priority : AmlSeverity) (now : Int) : Int := now + SLA_DAYS priority * 86400000

def AmlCaseStatus.text : AmlCaseStatus → String
  | .opened => "open"
  | .inReview => "in_review"
  | .escalated => "escalated"
  | .awaitingInformation => "awaiting_information"
  | .closed => "closed"

/-- `statusMap` of `triageAlert`. -/
def statusMap : AmlDisposition → AmlAlertStatus
  | .falsePositive => .falsePositive
  | .sarFiled => .escalated
  | .noAction => .dismissed
  | .referredToAuthority => .escalated
  | .accountRestricted => .escalated

/-- In hundredths; the rate is a quotient of doubles. -/
def sensitivityFromDisposition (falsePositives truePositives : Nat) : Int :=
  let fpRate := div falsePositives (falsePositives + truePositives)
  if falsePositives + truePositives < 5 then 100
  else if toDouble (9 / 10) ≤ fpRate then 40
  else if toDouble (3 / 4) ≤ fpRate then 60
  else if toDouble (1 / 2) ≤ fpRate then 80
  else if toDouble (1 / 4) ≤ fpRate then 100
  else 125

/-! ## The tables -/

structure CaseState where
  rules : List AmlMonitoringRule
  alerts : List AmlAlert
  cases : List AmlCase
  feedback : List AmlDispositionFeedback

/-- Rules that nobody has given feedback on yet. -/
def CaseState.start (rules : List AmlMonitoringRule) : CaseState where
  rules := rules.map fun rule => { rule with falsePositiveCount := 0, truePositiveCount := 0 }
  alerts := []
  cases := []
  feedback := []

/-- `find({ where: { id: In(ids) } })`. -/
def CaseState.found (s : CaseState) (ids : List Nat) : List AmlAlert :=
  s.alerts.filter fun alert => alert.id ∈ ids

/-- The alerts whose `caseId` is the case. -/
def CaseState.alertsOf (s : CaseState) (caseId : Nat) : List AmlAlert :=
  s.alerts.filter fun alert => alert.caseId = some caseId

def CaseState.getCase (s : CaseState) (id : Nat) : Except String AmlCase :=
  match s.cases.find? (·.id = id) with
  | some target => .ok target
  | none => .error ("Case " ++ toString id ++ " not found")

def CaseState.saveCase (s : CaseState) (target : AmlCase) : CaseState :=
  { s with cases := update (fun c => c.id = target.id) (fun _ => target) s.cases }

def AmlAlert.joined (caseId : Nat) (alert : AmlAlert) : AmlAlert :=
  { alert with caseId := some caseId, status := .triaged }

/-- The alerts join a case. -/
def CaseState.link (s : CaseState) (ids : List Nat) (caseId : Nat) : CaseState :=
  { s with alerts := update (fun alert => alert.id ∈ ids) (.joined caseId) s.alerts }

/-- A fresh alert, `pending` and without a case. -/
structure NewAlert where
  patternType : AmlPatternType
  ruleId : Option Nat
  ruleCode : String
  userId : Option String
  severity : AmlSeverity
  riskScore : Nat
  amountUsd : Option Int
  flowIds : List String
  dedupeKey : DedupeKey

def CaseState.createAlert (s : CaseState) (alert : NewAlert) : CaseState :=
  { s with alerts := s.alerts ++ [{
      id := s.alerts.length
      patternType := alert.patternType
      ruleId := alert.ruleId
      ruleCode := alert.ruleCode
      userId := alert.userId
      severity := alert.severity
      riskScore := alert.riskScore
      amountUsd := alert.amountUsd
      flowIds := alert.flowIds
      status := .pending
      caseId := none
      dedupeKey := alert.dedupeKey
      reviewedBy := none
      reviewedAt := none }] }

/-! ## Cases -/

structure CreateAmlCaseDto where
  alertIds : List Nat
  subjectUserId : Option String
  priority : Option AmlSeverity

/-- The first of the severities sorted by their rank from the highest. -/
def highestSeverity (alerts : List AmlAlert) : Option AmlSeverity :=
  ((alerts.map (·.severity)).mergeSort fun a b => SEVERITY_RANK b ≤ SEVERITY_RANK a).head?

def newCase (s : CaseState) (dto : CreateAmlCaseDto) (alerts : List AmlAlert)
    (actorId : Option String) (now : Int) : AmlCase :=
  let priority := (dto.priority.or (highestSeverity alerts)).getD .MEDIUM
  {
    id := s.cases.length
    subjectUserId := dto.subjectUserId.or (alerts.findSome? (·.userId))
    priority
    status := .opened
    assignedTo := none
    openedBy := actorId
    alertIds := alerts.map (·.id)
    riskScore := (alerts.map (·.riskScore)).foldl max 0
    exposureUsd := (alerts.map (·.amount)).sum
    timeline := [⟨now, "case_opened", actorId⟩]
    disposition := none
    notes := none
    dueAt := some (dueDate priority now)
    closedAt := none }

def createCase (s : CaseState) (dto : CreateAmlCaseDto) (actorId : Option String) (now : Int) :
    Except String (CaseState × AmlCase) :=
  let alerts := s.found dto.alertIds
  if alerts.length ≠ dto.alertIds.length then .error "One or more alerts do not exist"
  else if alerts.any (·.caseId.isSome) then
    .error "One or more alerts already belong to a case"
  else
    let saved := newCase s dto alerts actorId now
    let s := { s with cases := s.cases ++ [saved] }
    .ok (s.link (alerts.map (·.id)) saved.id, saved)

/-- `this.timeline`. -/
def AmlCase.note (target : AmlCase) (now : Int) (action : String) (actorId : Option String) :
    AmlCase :=
  { target with timeline := target.timeline ++ [⟨now, action, actorId⟩] }

def AmlCase.attach (target : AmlCase) (alertIds : List Nat) (alerts : List AmlAlert) : AmlCase :=
  { target with
    alertIds := (target.alertIds ++ alertIds).eraseDups
    riskScore := (alerts.map (·.riskScore)).foldl max target.riskScore
    exposureUsd := target.exposureUsd + (alerts.map (·.amount)).sum }

def attachAlerts (s : CaseState) (caseId : Nat) (alertIds : List Nat) (actorId : Option String)
    (now : Int) : Except String CaseState := do
  let target ← s.getCase caseId
  let alerts := s.found alertIds
  if alerts.length ≠ alertIds.length then .error "One or more alerts do not exist"
  else if alerts.any fun alert => alert.caseId.any (· ≠ caseId) then
    .error "One or more alerts belong to another case"
  else
    let attached := (target.attach alertIds alerts).note now "alerts_attached" actorId
    .ok ((s.link alertIds target.id).saveCase attached)

structure UpdateAmlCaseDto where
  status : Option AmlCaseStatus
  priority : Option AmlSeverity
  assignedTo : Option String
  notes : Option String

/-- An empty text changes nothing. -/
def updated (target : AmlCase) (dto : UpdateAmlCaseDto) (actorId : Option String) (now : Int) :
    AmlCase :=
  let target := match dto.status with
    | some status => { target.note now ("status_" ++ status.text) actorId with status }
    | none => target
  let target := match dto.priority with
    | some priority => { target.note now "priority_changed" actorId with
        priority, dueAt := some (dueDate priority now) }
    | none => target
  let target := match dto.assignedTo.filter (· ≠ "") with
    | some assignedTo => { target.note now "assigned" actorId with assignedTo := some assignedTo }
    | none => target
  match dto.notes.filter (· ≠ "") with
  | some notes => { target.note now "note_added" actorId with notes := some notes }
  | none => target

def updateCase (s : CaseState) (caseId : Nat) (dto : UpdateAmlCaseDto) (actorId : Option String)
    (now : Int) : Except String CaseState := do
  let target ← s.getCase caseId
  if target.status = .closed then
    .error "Closed cases cannot be edited; reopen a new case instead"
  else .ok (s.saveCase (updated target dto actorId now))

/-! ## Feedback -/

/-- The rule counts a judgement. -/
def AmlMonitoringRule.judged (rule : AmlMonitoringRule) (disposition : AmlDisposition) :
    AmlMonitoringRule :=
  let falsePositiveCount :=
    if disposition = .falsePositive then rule.falsePositiveCount + 1 else rule.falsePositiveCount
  let truePositiveCount :=
    if disposition = .falsePositive then rule.truePositiveCount else rule.truePositiveCount + 1
  { rule with
    falsePositiveCount, truePositiveCount
    sensitivityMultiplier := sensitivityFromDisposition falsePositiveCount truePositiveCount }

structure Judgement where
  alertId : Option Nat
  ruleId : Option Nat
  ruleCode : String
  caseId : Option Nat
  disposition : AmlDisposition
  reason : Option String
  actorId : Option String

def recordFeedback (s : CaseState) (j : Judgement) : CaseState :=
  let rule := s.rules.find? fun rule => some rule.id = j.ruleId
  {
    rules := update (fun rule => some rule.id = j.ruleId) (·.judged j.disposition) s.rules
    alerts := s.alerts
    cases := s.cases
    feedback := s.feedback ++ [{
      alertId := j.alertId
      caseId := j.caseId
      ruleCode := j.ruleCode
      ruleId := j.ruleId
      disposition := j.disposition
      recordedBy := j.actorId
      reason := j.reason
      sensitivityBefore := rule.map (·.sensitivityMultiplier)
      sensitivityAfter := rule.map fun rule => (rule.judged j.disposition).sensitivityMultiplier }] }

def AmlAlert.reviewed (alert : AmlAlert) (disposition : AmlDisposition) (actorId : Option String)
    (now : Int) : AmlAlert :=
  { alert with status := statusMap disposition, reviewedBy := actorId, reviewedAt := some now }

def triageAlert (s : CaseState) (alertId : Nat) (disposition : AmlDisposition)
    (reason actorId : Option String) (now : Int) : Except String CaseState :=
  match s.alerts.find? (·.id = alertId) with
  | none => .error ("Alert " ++ toString alertId ++ " not found")
  | some alert =>
    if alert.reviewedAt.isSome then .error "Alert has already been triaged"
    else
      let saved := update (fun a => a.id = alertId) (·.reviewed disposition actorId now) s.alerts
      .ok (recordFeedback { s with alerts := saved } {
        alertId := some alert.id
        ruleId := alert.ruleId
        ruleCode := alert.ruleCode
        caseId := none
        disposition, reason, actorId })

/-- The loop of `recordDispositionForCase`; an alert that is refused ends it. -/
def triageAll (disposition : AmlDisposition) (reason actorId : Option String) (now : Int) :
    List Nat → CaseState → CaseState
  | [], s => s
  | id :: ids, s =>
    match triageAlert s id disposition reason actorId now with
    | .ok s => triageAll disposition reason actorId now ids s
    | .error _ => s

def recordDispositionForCase (s : CaseState) (target : AmlCase) (disposition : AmlDisposition)
    (reason actorId : Option String) (now : Int) : CaseState :=
  let untriaged := (s.found target.alertIds).filter fun alert => alert.reviewedAt.isNone
  if untriaged = [] then
    recordFeedback s {
      alertId := none
      ruleId := none
      ruleCode := "CASE"
      caseId := some target.id
      disposition, reason, actorId }
  else triageAll disposition reason actorId now (untriaged.map (·.id)) s

structure CloseAmlCaseDto where
  disposition : AmlDisposition
  notes : Option String

def closeCase (s : CaseState) (caseId : Nat) (dto : CloseAmlCaseDto) (actorId : Option String)
    (now : Int) : Except String CaseState := do
  let target ← s.getCase caseId
  if target.status = .closed then .error "Case is already closed"
  else
    let closed := { target.note now "case_closed" actorId with
      status := .closed
      disposition := some dto.disposition
      closedAt := some now
      notes := dto.notes.or target.notes }
    .ok (recordDispositionForCase (s.saveCase closed) closed dto.disposition dto.notes actorId now)

/-! ## Runs -/

inductive CaseAction where
  | createAlert (alert : NewAlert)
  | createCase (dto : CreateAmlCaseDto) (actorId : Option String) (now : Int)
  | attachAlerts (caseId : Nat) (alertIds : List Nat) (actorId : Option String) (now : Int)
  | updateCase (caseId : Nat) (dto : UpdateAmlCaseDto) (actorId : Option String) (now : Int)
  | closeCase (caseId : Nat) (dto : CloseAmlCaseDto) (actorId : Option String) (now : Int)
  | triageAlert (alertId : Nat) (disposition : AmlDisposition) (reason actorId : Option String)
    (now : Int)

/-- A call that is refused changes nothing. -/
def CaseState.next (s : CaseState) : CaseAction → Option CaseState
  | .createAlert alert => some (s.createAlert alert)
  | .createCase dto actorId now => ((Aml.createCase s dto actorId now).map (·.1)).toOption
  | .attachAlerts caseId alertIds actorId now =>
    (Aml.attachAlerts s caseId alertIds actorId now).toOption
  | .updateCase caseId dto actorId now => (Aml.updateCase s caseId dto actorId now).toOption
  | .closeCase caseId dto actorId now => (Aml.closeCase s caseId dto actorId now).toOption
  | .triageAlert alertId disposition reason actorId now =>
    (Aml.triageAlert s alertId disposition reason actorId now).toOption

abbrev CaseRun (rules : List AmlMonitoringRule) (xs : List (Step CaseState CaseAction))
    (s : CaseState) : Prop :=
  Run CaseState.next (.start rules) xs s

end AgriFi.Aml
