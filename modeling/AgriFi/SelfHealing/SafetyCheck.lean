import AgriFi.Best
import Mathlib.Data.List.Infix

/-
  The safety check of `src/self-healing/remediation/safety-check.service.ts`: the policy that is
  found for an action, what blocks it and whether it needs an approval, with the two queries of the
  history that the limits are computed from. Times are in milliseconds. A ground is named, and its
  text is left out.
-/

namespace AgriFi.SelfHealing

open AgriFi.Best

/-! ## Data -/

inductive RemediationActionType where
  | restartPod
  | restartService
  | scaleUp
  | scaleDown
  | cleanupDisk
  | customScript
  | manual
  deriving DecidableEq

inductive RemediationStatus where
  | pendingApproval
  | approved
  | rejected
  | executing
  | success
  | failed
  | skipped
  | rolledBack
  deriving DecidableEq

inductive RemediationSafetyDecision where
  | allowed
  | approvalRequired
  | blocked
  deriving DecidableEq

inductive RemediationEnvironment where
  | staging
  | production
  deriving DecidableEq

def RemediationEnvironment.text : RemediationEnvironment → String
  | .staging => "staging"
  | .production => "production"

inductive SelfHealingIssueType where
  | podFailure
  | podRestartLoop
  | highMemory
  | highCpu
  | diskFull
  | serviceDown
  | serviceDegradation
  | queueBacklog
  | databaseSaturation
  | certificateExpiry
  | custom
  deriving DecidableEq

inductive SelfHealingSeverity where
  | info
  | warning
  | critical
  deriving DecidableEq

structure RemediationPolicy where
  id : Nat
  name : String
  issueType : Option SelfHealingIssueType
  actionType : RemediationActionType
  enabled : Bool
  requiresApproval : Bool
  destructive : Bool
  maxExecutionsPerHour : Int
  cooldownMinutes : Int
  allowedEnvironments : List String
  stagingValidated : Bool
  minReplicas : Option Int
  maxReplicas : Option Int
  deriving DecidableEq

structure RemediationScript where
  name : String
  issueType : SelfHealingIssueType
  scriptPath : String
  interpreter : String
  defaultArgs : List String
  enabled : Bool
  requiresApproval : Bool
  destructive : Bool
  allowedEnvironments : List String
  deriving DecidableEq

/-- A row of the history, whose id is its place. Of its parameters the replicas are kept. -/
structure RemediationAction where
  id : Nat
  issueId : Option Nat
  actionType : RemediationActionType
  target : String
  component : Option String
  replicas : Option Int
  status : RemediationStatus
  safetyDecision : RemediationSafetyDecision
  policyName : Option String
  environment : RemediationEnvironment
  createdAt : Int
  deriving DecidableEq

structure SafetyEvaluationInput where
  actionType : RemediationActionType
  target : String
  component : Option String
  issueType : Option SelfHealingIssueType
  severity : Option SelfHealingSeverity
  environment : RemediationEnvironment
  replicas : Option Int
  script : Option RemediationScript

inductive Reason where
  | noPolicy
  | disabled
  | policyEnvironment
  | scriptEnvironment
  | noScript
  | protectedComponent
  | notValidated
  | destructiveAction
  | criticalIssue
  | rateLimit
  | cooldown
  | scaleBounds
  deriving DecidableEq

structure SafetyDecision where
  allowed : Bool
  requiresApproval : Bool
  blocked : Bool
  reasons : List Reason
  policyName : Option String

/-! ## The history -/

/-- The statuses that `countRecentExecutions` counts. -/
def RemediationStatus.Counted (status : RemediationStatus) : Prop :=
  status = .success ∨ status = .executing ∨ status = .approved

instance (status : RemediationStatus) : Decidable status.Counted :=
  inferInstanceAs (Decidable (_ ∨ _))

def countRecentExecutions (actions : List RemediationAction) (actionType : RemediationActionType)
    (target : String) (minutes now : Int) : Nat :=
  ((actions.filter fun action => action.actionType = actionType ∧ action.target = target ∧
    now - minutes * 60000 ≤ action.createdAt ∧ action.createdAt ≤ now).filter
      fun action => action.status.Counted).length

def findLastSuccessful (actions : List RemediationAction) (actionType : RemediationActionType)
    (target : String) : Option RemediationAction :=
  best (·.createdAt) (actions.filter fun action =>
    action.actionType = actionType ∧ action.target = target ∧ action.status = .success)

/-! ## The checks -/

def destructiveActions : List RemediationActionType := [.cleanupDisk, .scaleDown]

def highRiskOnCritical : List RemediationActionType :=
  [.scaleDown, .cleanupDisk, .customScript, .restartService]

def protectedComponents : List String :=
  ["ledger", "settlement", "database", "postgres", "stellar", "rabbitmq"]

def includes (text part : String) : Bool := part.toList <:+: text.toList

/-- The most specific policy for the action. -/
def findPolicy (policies : List RemediationPolicy) (input : SafetyEvaluationInput) :
    Option RemediationPolicy :=
  let policies := policies.filter (·.actionType = input.actionType)
  let enabled := policies.filter (·.enabled)
  let pool := if enabled = [] then policies else enabled
  ((pool.find? fun policy => policy.issueType.isSome ∧ policy.issueType = input.issueType).or
    (pool.find? (·.issueType = none))).or pool.head?

/-- `findProtectedReason`. -/
def isProtected (toLowerCase : String → String) (input : SafetyEvaluationInput) : Bool :=
  input.environment = .production && protectedComponents.any fun protectedName =>
    toLowerCase (input.component.getD "") = protectedName ||
      includes (toLowerCase (input.component.getD "")) protectedName ||
      includes (toLowerCase input.target) protectedName

def checkRateLimit (policy : RemediationPolicy) (executions : Nat) : Bool :=
  policy.maxExecutionsPerHour ≤ executions

def checkCooldown (policy : RemediationPolicy) (last : Option RemediationAction) (now : Int) :
    Bool :=
  0 < policy.cooldownMinutes &&
    last.any fun last => now - last.createdAt < policy.cooldownMinutes * 60000

def checkScaleBounds (policy : RemediationPolicy) (input : SafetyEvaluationInput) : Bool :=
  (input.actionType = .scaleUp || input.actionType = .scaleDown) &&
    match input.replicas with
    | none => true
    | some replicas =>
      policy.minReplicas.any (replicas < ·) || policy.maxReplicas.any (· < replicas)

/-- The action is destructive in production. -/
def needsDestructiveApproval (policy : RemediationPolicy) (input : SafetyEvaluationInput) : Bool :=
  input.environment = .production && (policy.destructive ||
    input.actionType ∈ destructiveActions || input.script.any (·.destructive))

def needsCriticalApproval (input : SafetyEvaluationInput) : Bool :=
  input.environment = .production && input.severity = some .critical &&
    input.actionType ∈ highRiskOnCritical

def requiresApproval (policy : RemediationPolicy) (input : SafetyEvaluationInput) : Bool :=
  policy.requiresApproval || input.script.any (·.requiresApproval) ||
    needsDestructiveApproval policy input || needsCriticalApproval input

/-- The grounds that are not computed from the history, but for the bounds. -/
def blockers (toLowerCase : String → String) (policy : RemediationPolicy)
    (input : SafetyEvaluationInput) (rateLimited coolingDown : Bool) : List Reason :=
  [(!policy.enabled, Reason.disabled),
    (input.environment.text ∉ policy.allowedEnvironments, .policyEnvironment),
    (input.script.any fun script => script.allowedEnvironments ≠ [] &&
      input.environment.text ∉ script.allowedEnvironments, .scriptEnvironment),
    (input.actionType = .customScript && input.script.isNone, .noScript),
    (isProtected toLowerCase input, .protectedComponent),
    (input.environment = .production && !policy.stagingValidated, .notValidated),
    (rateLimited, .rateLimit), (coolingDown, .cooldown),
    (checkScaleBounds policy input, .scaleBounds)].filterMap
      fun ground => if ground.1 then some ground.2 else none

def SafetyDecision.ofNoPolicy : SafetyDecision := ⟨false, false, true, [.noPolicy], none⟩

def decision (toLowerCase : String → String) (policy : RemediationPolicy)
    (input : SafetyEvaluationInput) (rateLimited coolingDown : Bool) : SafetyDecision :=
  let blockers := blockers toLowerCase policy input rateLimited coolingDown
  let blocked : Bool := blockers ≠ []
  ⟨!blocked && !requiresApproval policy input, requiresApproval policy input && !blocked, blocked,
    (if needsDestructiveApproval policy input then [.destructiveAction] else []) ++
      (if needsCriticalApproval input then [.criticalIssue] else []) ++ blockers,
    some policy.name⟩

/-- The whole check against one state of the tables. -/
def evaluate (toLowerCase : String → String) (policies : List RemediationPolicy)
    (actions : List RemediationAction) (now : Int) (input : SafetyEvaluationInput) :
    SafetyDecision :=
  match findPolicy policies input with
  | none => .ofNoPolicy
  | some policy =>
    decision toLowerCase policy input
      (checkRateLimit policy (countRecentExecutions actions input.actionType input.target 60 now))
      (checkCooldown policy (findLastSuccessful actions input.actionType input.target) now)

end AgriFi.SelfHealing
