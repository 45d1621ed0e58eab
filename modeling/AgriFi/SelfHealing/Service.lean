import AgriFi.DealDelivered.Workers
import AgriFi.Rows
import AgriFi.Runs
import AgriFi.SelfHealing.SafetyCheck

/-
  `src/self-healing/self-healing.service.ts`, over the rows of its issues, actions, policies and
  scripts. Each detection cycle, manual remediation, approval and rejection is a thread that sends
  one query, or makes one call of the executor, at a time. Operators edit policies and scripts. Of
  an action only the status changes once it is recorded, so that what `update` reads of the row
  is what it writes back. Scripts are in the order of their names. The executions, with the check
  as it would decide at their moment, the approvals, the rejections and the statuses that were saved
  are history variables.
-/

namespace AgriFi.SelfHealing

open AgriFi.Rows AgriFi.Runs
open AgriFi.DealDelivered (Outcome)

/-! ## Data -/

/-- The configuration, the executor that is active and the directory of the scripts. -/
structure Setup where
  environment : RemediationEnvironment
  isEnabled : Bool
  minReplicas : Int
  maxReplicas : Int
  supports : RemediationActionType → Bool
  resolveScriptPath : String → Bool
  toLowerCase : String → String

inductive SelfHealingIssueStatus where
  | detected
  | diagnosed
  | remediating
  | remediated
  | failed
  | skipped
  | falsePositive
  deriving DecidableEq

/-- A row, whose id is its place. -/
structure SelfHealingIssue where
  id : Nat
  fingerprint : String
  issueType : SelfHealingIssueType
  severity : SelfHealingSeverity
  status : SelfHealingIssueStatus
  component : String
  target : String
  deriving DecidableEq

structure DetectedIssue where
  fingerprint : String
  issueType : SelfHealingIssueType
  severity : SelfHealingSeverity
  component : String
  target : String

inductive RemediationOutcome where
  | remediated
  | blocked
  | pendingApproval
  | failed
  | skipped
  deriving DecidableEq

/-- An action that was really run, with the script if it was one, and what the safety check says
    at that moment of it against the other actions. -/
structure Execution where
  action : RemediationAction
  script : Option RemediationScript
  decision : SafetyDecision
  requiresApproval : Bool
  approved : Bool
  rejected : Bool

/-- What the safety check reads, and the history. -/
structure Rails where
  policies : List RemediationPolicy
  actions : List RemediationAction
  now : Int
  approvals : List Nat
  rejections : List Nat
  saved : List (Nat × RemediationStatus)
  executions : List Execution

structure State where
  issues : List SelfHealingIssue
  scripts : List RemediationScript
  rails : Rails

/-! ## Scripts -/

def allowedInterpreters : List String := ["bash", "sh", "python3"]

/-- `SAFE_ARGUMENT`. -/
def safeArgument (argument : String) : Bool :=
  argument ≠ "" && argument.toList.all fun c => c.isAlphanum || c ∈ "_.:@%=,/+-".toList

/-- `run` comes to the process of the script. -/
def Setup.spawns (setup : Setup) (script : RemediationScript) : Bool :=
  script.enabled && script.interpreter ∈ allowedInterpreters &&
    setup.resolveScriptPath script.scriptPath && script.defaultArgs.all safeArgument

def findForIssueType (scripts : List RemediationScript) (issueType : SelfHealingIssueType) :
    Option RemediationScript :=
  scripts.find? fun script => script.issueType = issueType ∧ script.enabled

/-! ## Writes -/

namespace Rails

/-- The actions but one. -/
def others (rails : Rails) (own : Option Nat) : List RemediationAction :=
  rails.actions.filter fun action => some action.id ≠ own

/-- The save of an action with another status. -/
def setStatus (rails : Rails) (id : Nat) (status : RemediationStatus) : Rails :=
  match rails.actions[id]? with
  | none => rails
  | some action =>
    { rails with
      actions := rails.actions.set id { action with status }
      saved := rails.saved ++ [(id, status)]
      rejections := if status = .rejected then rails.rejections ++ [id] else rails.rejections }

def insert (rails : Rails) (action : RemediationAction) : Rails :=
  { rails with
    actions := rails.actions ++ [action]
    saved := rails.saved ++ [(action.id, action.status)] }

def approve (rails : Rails) (id : Nat) : Rails :=
  { rails with approvals := rails.approvals ++ [id] }

def savePolicy (rails : Rails) (policy : RemediationPolicy) : Rails :=
  { rails with policies := update (·.id = policy.id) (fun _ => policy) rails.policies }

/-- The action runs. -/
def execute (rails : Rails) (toLowerCase : String → String) (action : RemediationAction)
    (input : SafetyEvaluationInput) : Rails :=
  { rails with
    executions := rails.executions ++
      [⟨action, input.script,
        evaluate toLowerCase rails.policies (rails.others (some action.id)) rails.now input,
        (findPolicy rails.policies input).any (SelfHealing.requiresApproval · input),
        action.id ∈ rails.approvals, action.id ∈ rails.rejections⟩] }

end Rails

def State.saveIssue (s : State) (issue : SelfHealingIssue) : State :=
  { s with issues := s.issues.set issue.id issue }

/-! ## Calls -/

/-- What is left of `remediateIssue`, and of the cycle around it. -/
structure Remaining where
  actionTypes : List RemediationActionType
  outcome : RemediationOutcome
  issues : List SelfHealingIssue

inductive Caller where
  | remediation (remaining : Remaining)
  | approval

/-- What `runAction` has put together for the safety check. -/
structure Check where
  issue : SelfHealingIssue
  actionType : RemediationActionType
  replicas : Option Int
  script : Option RemediationScript

/-- The arguments of `executeAction`. -/
structure Attempt where
  action : RemediationAction
  issue : Option SelfHealingIssue
  script : Option RemediationScript
  caller : Caller

/-- The uses of `update`. -/
inductive Update where
  | approve (action : RemediationAction)
  | reject (action : RemediationAction)
  | start (attempt : Attempt)
  | complete (attempt : Attempt) (success : Bool)

def Update.action : Update → RemediationAction
  | .approve action | .reject action => action
  | .start attempt | .complete attempt _ => attempt.action

def Update.status : Update → RemediationStatus
  | .approve _ => .approved
  | .reject _ => .rejected
  | .start _ => .executing
  | .complete _ success => if success then .success else .failed

/-- The next query, or call of the executor. -/
inductive Pc where
  | detect
  | findDetected (detected : DetectedIssue) (rest : List DetectedIssue) (seen : List String)
  | insertDetected (detected : DetectedIssue) (rest : List DetectedIssue) (seen : List String)
  | refreshDetected (issue : SelfHealingIssue) (rest : List DetectedIssue) (seen : List String)
  | findUncleared (seen : List String)
  | saveCleared (issue : SelfHealingIssue) (rest : List SelfHealingIssue)
  | findOpen
  | analyse (issue : SelfHealingIssue) (issues : List SelfHealingIssue)
  | saveDiagnosed (issue : SelfHealingIssue) (actionTypes : List RemediationActionType)
      (issues : List SelfHealingIssue)
  | saveOutcome (issue : SelfHealingIssue) (issues : List SelfHealingIssue)
  | getCurrentReplicas (issue : SelfHealingIssue) (actionType : RemediationActionType)
      (remaining : Remaining)
  | findScript (check : Check) (remaining : Remaining)
  | findPolicy (check : Check) (remaining : Remaining)
  | countRecentExecutions (check : Check) (policy : RemediationPolicy) (remaining : Remaining)
  | findLastSuccessful (check : Check) (policy : RemediationPolicy) (rateLimited : Bool)
      (remaining : Remaining)
  | record (check : Check) (decision : SafetyDecision) (remaining : Remaining)
  | saveRemediating (attempt : Attempt) (issue : SelfHealingIssue)
  | update (u : Update)
  | findFallback (attempt : Attempt) (issue : SelfHealingIssue)
  | runExecutor (attempt : Attempt)
  | runScript (attempt : Attempt) (script : RemediationScript)
  | findValidated (attempt : Attempt)
  | saveValidated (attempt : Attempt) (policy : RemediationPolicy)
  | approveFind (id : Nat)
  | approveFindIssue (action : RemediationAction) (issueId : Nat)
  | approveFindScript (action : RemediationAction) (issue : SelfHealingIssue)
  | saveApproved (issue : SelfHealingIssue)
  | rejectFind (id : Nat)
  | returned
  | threw

def onOk (o : Outcome) (pc : Pc) : Pc := if o = .ok then pc else .threw

def written {α : Type} (s s' : α) : Outcome → α
  | .ok | .lost => s'
  | .fail => s

/-! ### The detection -/

def persistDetection (detected : List DetectedIssue) (seen : List String) : Pc :=
  match detected with
  | [] => .findUncleared seen
  | issue :: rest => .findDetected issue rest (seen ++ [issue.fingerprint])

def stepFindDetected (s : State) (detected : DetectedIssue) (rest : List DetectedIssue)
    (seen : List String) : Pc :=
  match (s.issues.filter (·.fingerprint = detected.fingerprint)).getLast? with
  | none => .insertDetected detected rest seen
  | some existing =>
    if existing.status = .remediated then .insertDetected detected rest seen
    else .refreshDetected { existing with severity := detected.severity } rest seen

def SelfHealingIssue.ofDetected (id : Nat) (detected : DetectedIssue) : SelfHealingIssue :=
  ⟨id, detected.fingerprint, detected.issueType, detected.severity, .detected, detected.component,
    detected.target⟩

def resolveClearedIssues (cleared : List SelfHealingIssue) : Pc :=
  match cleared with
  | [] => .findOpen
  | issue :: rest => .saveCleared issue rest

def SelfHealingIssue.cleared (issue : SelfHealingIssue) : SelfHealingIssue :=
  if issue.status = .detected ∨ issue.status = .diagnosed then
    { issue with status := .falsePositive }
  else issue

def stepFindUncleared (s : State) (seen : List String) : Pc :=
  resolveClearedIssues ((s.issues.filter fun issue => (issue.status = .detected ∨
    issue.status = .diagnosed ∨ issue.status = .remediating) ∧ issue.fingerprint ∉ seen).map
      SelfHealingIssue.cleared)

def remediateEach (issues : List SelfHealingIssue) : Pc :=
  match issues with
  | [] => .returned
  | issue :: rest => .analyse issue rest

def stepFindOpen (s : State) : Pc :=
  remediateEach (s.issues.filter fun issue => issue.status = .detected ∨ issue.status = .diagnosed)

/-! ### `remediateIssue` -/

def SelfHealingIssue.withOutcome (issue : SelfHealingIssue) :
    RemediationOutcome → SelfHealingIssue
  | .remediated => { issue with status := .remediated }
  | .failed => { issue with status := .failed }
  | .blocked => { issue with status := .skipped }
  | .pendingApproval | .skipped => issue

/-- The next action of the loop. -/
def nextAction (issue : SelfHealingIssue) (remaining : Remaining) : Pc :=
  match remaining.actionTypes with
  | [] => .saveOutcome (issue.withOutcome remaining.outcome) remaining.issues
  | actionType :: actionTypes =>
    let remaining := { remaining with actionTypes }
    if actionType = .scaleUp ∨ actionType = .scaleDown then
      .getCurrentReplicas issue actionType remaining
    else if actionType = .customScript then .findScript ⟨issue, actionType, none, none⟩ remaining
    else .findPolicy ⟨issue, actionType, none, none⟩ remaining

def Remaining.tried (remaining : Remaining) (outcome : RemediationOutcome) : Remaining :=
  if outcome = .remediated then { remaining with outcome := .remediated }
  else if remaining.outcome = .skipped then { remaining with outcome }
  else remaining

/-- `remediateIssue` with the diagnosis saved. -/
def stepSaveDiagnosed (issue : SelfHealingIssue) (actionTypes : List RemediationActionType)
    (issues : List SelfHealingIssue) : Pc :=
  if actionTypes = [] then .saveOutcome { issue with status := .skipped } issues
  else nextAction issue ⟨actionTypes, .skipped, issues⟩

/-! ### `runAction` -/

/-- `buildParameters`. -/
def Setup.replicas (setup : Setup) (actionType : RemediationActionType) (current : Option Int) :
    Int :=
  let base := current.getD setup.minReplicas
  min (if actionType = .scaleUp then base + 1 else max setup.minReplicas (base - 1))
    setup.maxReplicas

def Setup.checkInput (setup : Setup) (check : Check) : SafetyEvaluationInput :=
  ⟨check.actionType, check.issue.target, some check.issue.component, some check.issue.issueType,
    some check.issue.severity, setup.environment, check.replicas, check.script⟩

def Setup.stepFindPolicy (setup : Setup) (rails : Rails) (check : Check) (remaining : Remaining) :
    Pc :=
  match SelfHealing.findPolicy rails.policies (setup.checkInput check) with
  | none => .record check .ofNoPolicy remaining
  | some policy => .countRecentExecutions check policy remaining

def Setup.stepCount (setup : Setup) (rails : Rails) (check : Check) (policy : RemediationPolicy)
    (remaining : Remaining) : Pc :=
  let rateLimited := checkRateLimit policy
    (SelfHealing.countRecentExecutions rails.actions check.actionType check.issue.target 60
      rails.now)
  if policy.cooldownMinutes ≤ 0 then
    .record check (decision setup.toLowerCase policy (setup.checkInput check) rateLimited false)
      remaining
  else .findLastSuccessful check policy rateLimited remaining

def Setup.stepLast (setup : Setup) (rails : Rails) (check : Check) (policy : RemediationPolicy)
    (rateLimited : Bool) (remaining : Remaining) : Pc :=
  let coolingDown := checkCooldown policy
    (SelfHealing.findLastSuccessful rails.actions check.actionType check.issue.target) rails.now
  .record check (decision setup.toLowerCase policy (setup.checkInput check) rateLimited coolingDown)
    remaining

/-- The row of `runAction`. -/
def Setup.newAction (setup : Setup) (rails : Rails) (check : Check) (decision : SafetyDecision) :
    RemediationAction :=
  ⟨rails.actions.length, some check.issue.id, check.actionType, check.issue.target,
    some check.issue.component, check.replicas,
    if decision.blocked then .skipped
    else if decision.requiresApproval then .pendingApproval else .approved,
    if decision.blocked then .blocked
    else if decision.requiresApproval then .approvalRequired else .allowed,
    decision.policyName, setup.environment, rails.now⟩

/-! ### `executeAction` -/

def executeAction (attempt : Attempt) : Pc :=
  match attempt.issue with
  | some issue =>
    let issue := { issue with status := .remediating }
    .saveRemediating { attempt with issue := some issue } issue
  | none => .update (.start attempt)

def stepRecord (action : RemediationAction) (check : Check) (decision : SafetyDecision)
    (remaining : Remaining) (o : Outcome) : Pc :=
  if o ≠ .ok then nextAction check.issue (remaining.tried .failed)
  else if decision.blocked then nextAction check.issue (remaining.tried .blocked)
  else if decision.requiresApproval then nextAction check.issue (remaining.tried .pendingApproval)
  else executeAction ⟨action, some check.issue, check.script, .remediation remaining⟩

/-- What is run, if anything. -/
def Setup.dispatch (setup : Setup) (attempt : Attempt) : Pc :=
  if attempt.action.actionType = .customScript then
    match attempt.script with
    | some script => .runScript attempt script
    | none => .update (.complete attempt false)
  else if setup.supports attempt.action.actionType then
    -- `executeWithExecutor` refuses it
    if attempt.action.actionType = .manual then .update (.complete attempt false)
    else .runExecutor attempt
  else
    match attempt.issue with
    | some issue => .findFallback attempt issue
    | none => .update (.complete attempt false)

def Setup.attemptInput (setup : Setup) (attempt : Attempt) (script : Option RemediationScript) :
    SafetyEvaluationInput :=
  ⟨attempt.action.actionType, attempt.action.target, attempt.action.component,
    attempt.issue.map (·.issueType), attempt.issue.map (·.severity), setup.environment,
    attempt.action.replicas, script⟩

/-- `executeAction` returns to its caller. -/
def Attempt.finish (attempt : Attempt) (outcome : RemediationOutcome) : Pc :=
  match attempt.issue with
  | none => .returned
  | some issue =>
    match attempt.caller with
    | .remediation remaining => nextAction issue (remaining.tried outcome)
    | .approval => .saveApproved (issue.withOutcome outcome)

def Attempt.completed (attempt : Attempt) (success : Bool) : Pc :=
  if success = false then attempt.finish .failed
  -- `markPolicyAsValidated`
  else if attempt.action.environment ≠ .staging ∨ attempt.action.policyName.getD "" = "" then
    attempt.finish .remediated
  else .findValidated attempt

def stepFindFallback (s : State) (attempt : Attempt) (issue : SelfHealingIssue) (o : Outcome) :
    Pc :=
  -- an error of the query is caught
  match if o = .ok then findForIssueType s.scripts issue.issueType else none with
  | some script => .runScript attempt script
  | none => .update (.complete attempt false)

def stepFindValidated (rails : Rails) (attempt : Attempt) : Pc :=
  match rails.policies.find? fun policy => some policy.name = attempt.action.policyName with
  | none => attempt.finish .remediated
  | some policy =>
    if policy.stagingValidated then attempt.finish .remediated
    else .saveValidated attempt { policy with stagingValidated := true }

/-! ### `approveAction` and `rejectAction` -/

/-- The action is found pending, and so it is approved, or not. -/
def stepApproveFind (rails : Rails) (id : Nat) (o : Outcome) : Rails × Pc :=
  if o ≠ .ok then (rails, .threw)
  else
    match rails.actions[id]? with
    | none => (rails, .returned)
    | some action =>
      if action.status ≠ .pendingApproval then (rails, .returned)
      else (rails.approve id, .update (.approve action))

def approved (action : RemediationAction) : Pc :=
  match action.issueId with
  | none => executeAction ⟨action, none, none, .approval⟩
  | some issueId => .approveFindIssue action issueId

def stepApproveFindIssue (s : State) (action : RemediationAction) (issueId : Nat) : Pc :=
  match s.issues[issueId]? with
  | none => executeAction ⟨action, none, none, .approval⟩
  | some issue =>
    if action.actionType = .customScript then .approveFindScript action issue
    else executeAction ⟨action, some issue, none, .approval⟩

def stepRejectFind (rails : Rails) (id : Nat) : Pc :=
  match rails.actions[id]? with
  | none => .returned
  | some action => .update (.reject action)

/-- What follows an `update`, whose errors are caught. -/
def Setup.updated (setup : Setup) : Update → Pc
  | .approve action => approved action
  | .reject _ => .returned
  | .start attempt => setup.dispatch attempt
  | .complete attempt success => attempt.completed success

/-! ## The system -/

/-- What is answered: how a query went, and what the detector, the analysis and the executor
    say. -/
structure Answer where
  o : Outcome
  detected : List DetectedIssue
  recommendedActions : List RemediationActionType
  currentReplicas : Option Int
  success : Bool

def State.withRails (s : State) (rails : Rails) : State := { s with rails }

/-- One query, or one call of the executor. -/
def Setup.step (setup : Setup) (s : State) (a : Answer) : Pc → Option (State × Pc)
  | .detect => some (s, onOk a.o (persistDetection a.detected []))
  | .findDetected detected rest seen =>
    some (s, onOk a.o (stepFindDetected s detected rest seen))
  | .insertDetected detected rest seen =>
    let issue := .ofDetected s.issues.length detected
    some (written s { s with issues := s.issues ++ [issue] } a.o,
      onOk a.o (persistDetection rest seen))
  | .refreshDetected issue rest seen =>
    some (written s (s.saveIssue issue) a.o, onOk a.o (persistDetection rest seen))
  | .findUncleared seen => some (s, onOk a.o (stepFindUncleared s seen))
  | .saveCleared issue rest =>
    some (written s (s.saveIssue issue) a.o, onOk a.o (resolveClearedIssues rest))
  | .findOpen => some (s, onOk a.o (stepFindOpen s))
  | .analyse issue issues =>
    some (s, onOk a.o (.saveDiagnosed { issue with status := .diagnosed }
      (a.recommendedActions.filter (· ≠ .manual)) issues))
  | .saveDiagnosed issue actionTypes issues =>
    some (written s (s.saveIssue issue) a.o, onOk a.o (stepSaveDiagnosed issue actionTypes issues))
  | .saveOutcome issue issues =>
    some (written s (s.saveIssue issue) a.o, onOk a.o (remediateEach issues))
  | .getCurrentReplicas issue actionType remaining =>
    some (s, onOk a.o (.findPolicy ⟨issue, actionType,
      some (setup.replicas actionType a.currentReplicas), none⟩ remaining))
  | .findScript check remaining =>
    some (s, onOk a.o (.findPolicy
      { check with script := findForIssueType s.scripts check.issue.issueType } remaining))
  | .findPolicy check remaining => some (s, onOk a.o (setup.stepFindPolicy s.rails check remaining))
  | .countRecentExecutions check policy remaining =>
    some (s, onOk a.o (setup.stepCount s.rails check policy remaining))
  | .findLastSuccessful check policy rateLimited remaining =>
    some (s, onOk a.o (setup.stepLast s.rails check policy rateLimited remaining))
  | .record check decision remaining =>
    let action := setup.newAction s.rails check decision
    some (s.withRails (written s.rails (s.rails.insert action) a.o),
      stepRecord action check decision remaining a.o)
  | .saveRemediating attempt issue =>
    some (written s (s.saveIssue issue) a.o, onOk a.o (.update (.start attempt)))
  | .update u =>
    some (s.withRails (written s.rails (s.rails.setStatus u.action.id u.status) a.o),
      setup.updated u)
  | .findFallback attempt issue => some (s, stepFindFallback s attempt issue a.o)
  | .runExecutor attempt =>
    some (s.withRails (s.rails.execute setup.toLowerCase attempt.action
      (setup.attemptInput attempt none)), .update (.complete attempt a.success))
  | .runScript attempt script =>
    if setup.spawns script then
      some (s.withRails (s.rails.execute setup.toLowerCase attempt.action
        (setup.attemptInput attempt (some script))), .update (.complete attempt a.success))
    else some (s, .update (.complete attempt false))
  | .findValidated attempt => some (s, onOk a.o (stepFindValidated s.rails attempt))
  | .saveValidated attempt policy =>
    some (s.withRails (written s.rails (s.rails.savePolicy policy) a.o),
      onOk a.o (attempt.finish .remediated))
  | .approveFind id =>
    let found := stepApproveFind s.rails id a.o
    some (s.withRails found.1, found.2)
  | .approveFindIssue action issueId =>
    some (s, onOk a.o (stepApproveFindIssue s action issueId))
  | .approveFindScript action issue =>
    some (s, onOk a.o (executeAction
      ⟨action, some issue, findForIssueType s.scripts issue.issueType, .approval⟩))
  | .saveApproved issue => some (written s (s.saveIssue issue) a.o, onOk a.o .returned)
  | .rejectFind id => some (s, onOk a.o (stepRejectFind s.rails id))
  | .returned | .threw => none

structure System where
  state : State
  threads : List Pc

inductive Event where
  | runDetectionCycle
  | remediateIssue (issue : SelfHealingIssue)
  | approveAction (id : Nat)
  | rejectAction (id : Nat)
  | setPolicies (policies : List RemediationPolicy)
  | setScripts (scripts : List RemediationScript)
  | pass (ms : Nat)
  | run (w : Nat) (a : Answer)

def System.join (sys : System) (pc : Pc) : System := { sys with threads := sys.threads ++ [pc] }

def Setup.next (setup : Setup) (sys : System) : Event → Option System
  | .runDetectionCycle => some (sys.join (if setup.isEnabled then .detect else .returned))
  | .remediateIssue issue => some (sys.join (.analyse issue []))
  | .approveAction id => some (sys.join (.approveFind id))
  | .rejectAction id => some (sys.join (.rejectFind id))
  | .setPolicies policies =>
    some { sys with state := sys.state.withRails { sys.state.rails with policies } }
  | .setScripts scripts => some { sys with state := { sys.state with scripts } }
  | .pass ms =>
    let now := sys.state.rails.now + ms
    some { sys with state := sys.state.withRails { sys.state.rails with now } }
  | .run w a => do
    let pc ← sys.threads[w]?
    let (state, pc') ← setup.step sys.state a pc
    some ⟨state, sys.threads.set w pc'⟩

/-- Nothing was detected yet. -/
def start (policies : List RemediationPolicy) (scripts : List RemediationScript) (now : Int) :
    System :=
  ⟨⟨[], scripts, ⟨policies, [], now, [], [], [], []⟩⟩, []⟩

abbrev SelfHealingRun (setup : Setup) (policies : List RemediationPolicy)
    (scripts : List RemediationScript) (now : Int) (xs : List (Step System Event))
    (sys : System) : Prop :=
  Run setup.next (start policies scripts now) xs sys

end AgriFi.SelfHealing
