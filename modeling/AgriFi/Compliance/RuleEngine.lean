import AgriFi.JsValue
import AgriFi.Rows
import AgriFi.Runs
import Mathlib.Data.List.Infix

/-
  `src/compliance/regulatory-rule-engine.service.ts`: how rules are created, edited, tested, deployed
  and rolled back, and how their conditions are evaluated. An id is the place of its row in the
  table; a save writes the whole row as it was read and changed.
-/

namespace AgriFi.Compliance

open AgriFi.JsValue AgriFi.Rows AgriFi.Runs

inductive RuleJurisdiction where
  | GLOBAL
  | US
  | EU
  | UK
  | NIGERIA
  | KENYA
  | GHANA
  deriving DecidableEq

inductive RuleCategory where
  | AML_SANCTIONS
  | ACCREDITATION
  | DEAL_LIMITS
  | CROSS_BORDER
  | ESG_MANDATE
  | COMMODITY_RESTRICTIONS
  deriving DecidableEq

inductive RuleSeverity where
  | LOW
  | MEDIUM
  | HIGH
  | CRITICAL
  deriving DecidableEq

inductive RuleAction where
  | ALLOW
  | FLAG_REVIEW
  | REJECT
  | REQUIRE_ENHANCED_DUE_DILIGENCE
  | CAP_TRANSACTION
  deriving DecidableEq

inductive RuleStatus where
  | draft
  | testing
  | staged
  | active
  | deprecated
  deriving DecidableEq

inductive RuleOperator where
  | EQUALS
  | NOT_EQUALS
  | GREATER_THAN
  | GREATER_THAN_OR_EQUAL
  | LESS_THAN
  | LESS_THAN_OR_EQUAL
  | IN
  | NOT_IN
  | CONTAINS
  deriving DecidableEq

inductive LogicalOperator where
  | AND
  | OR
  deriving DecidableEq

structure RuleCondition where
  field : String
  operator : RuleOperator
  value : Value
  deriving DecidableEq

structure RuleTestCase where
  name : String
  inputFacts : Value
  expectedAction : RuleAction
  expectedViolated : Bool
  deriving DecidableEq

/-- What a version says. -/
structure RuleConfiguration where
  name : String
  description : String
  jurisdiction : RuleJurisdiction
  category : RuleCategory
  severity : RuleSeverity
  action : RuleAction
  conditions : List RuleCondition
  logicalOperator : LogicalOperator
  testCases : List RuleTestCase
  deriving DecidableEq

structure TestResults where
  passed : Bool
  passedTestsCount : Nat
  totalTestsCount : Nat
  testedAt : Int
  deriving DecidableEq

structure RegulatoryRule where
  id : Nat
  ruleCode : String
  configuration : RuleConfiguration
  status : RuleStatus
  version : Nat
  parentRuleId : Option Nat
  testResults : Option TestResults
  authorId : Option String
  changeNotes : Option String
  effectiveFrom : Int
  effectiveTo : Option Int
  deriving DecidableEq

/-- What the engine takes from the language: the coercions of values, `toLowerCase`, and
    `trim().toUpperCase()`. -/
structure Engine where
  js : Coercions
  lower : String → String
  normalize : String → String

/-! ## Conditions -/

/-- `resolvePath`, over own properties. -/
def resolvePath (facts : Value) (path : String) : Value :=
  if facts.truthy = false ∨ path = "" then .undefined
  else (path.splitOn ".").foldl (fun value part => (value.get part).getD .undefined) facts

/-- `String(v).toLowerCase()`. -/
def Engine.text (engine : Engine) (v : Value) : String := engine.lower (engine.js.text v)

def Engine.lt (engine : Engine) (a b : Value) : Bool :=
  (engine.js.number a).lt (engine.js.number b)

/-- `a <= b` on numbers, of which neither is NaN. -/
def Engine.le (engine : Engine) (a b : Value) : Bool :=
  engine.lt a b || (engine.js.number a = engine.js.number b && engine.js.number a ≠ .nan)

def Engine.isIn (engine : Engine) (factValue : Value) (targetValue : List Value) : Bool :=
  (targetValue.map engine.text).contains (engine.text factValue)

def Engine.evaluateSingleCondition (engine : Engine) (condition : RuleCondition) (facts : Value) :
    Bool :=
  let factValue := resolvePath facts condition.field
  let targetValue := condition.value
  let isNone (v : Value) : Bool := v = .undefined || v = .null
  if isNone factValue = true then
    match condition.operator with
    | .EQUALS => isNone targetValue
    | .NOT_EQUALS => !isNone targetValue
    | _ => false
  else match condition.operator with
    | .EQUALS => engine.text factValue = engine.text targetValue
    | .NOT_EQUALS => engine.text factValue ≠ engine.text targetValue
    | .GREATER_THAN => engine.lt targetValue factValue
    | .GREATER_THAN_OR_EQUAL => engine.le targetValue factValue
    | .LESS_THAN => engine.lt factValue targetValue
    | .LESS_THAN_OR_EQUAL => engine.le factValue targetValue
    | .IN =>
      match targetValue with
      | .arr elements => engine.isIn factValue elements
      | _ => false
    | .NOT_IN =>
      match targetValue with
      | .arr elements => !engine.isIn factValue elements
      | _ => true
    | .CONTAINS => (engine.text targetValue).toList <:+: (engine.text factValue).toList

def Engine.evaluateConditionSet (engine : Engine) (conditions : List RuleCondition)
    (operator : LogicalOperator) (facts : Value) : Bool :=
  if conditions = [] then false
  else match operator with
    | .AND => conditions.all (engine.evaluateSingleCondition · facts)
    | .OR => conditions.any (engine.evaluateSingleCondition · facts)

def Engine.passes (engine : Engine) (configuration : RuleConfiguration) (tc : RuleTestCase) :
    Bool :=
  let isMatched := engine.evaluateConditionSet configuration.conditions
    configuration.logicalOperator tc.inputFacts
  let actualAction := if isMatched then configuration.action else .ALLOW
  let actualViolated := isMatched && configuration.action ≠ .ALLOW
  actualAction = tc.expectedAction && actualViolated = tc.expectedViolated

/-! ## The table -/

/-- The rows, and the ids of those that `deployRule` has deployed. -/
structure State where
  rules : List RegulatoryRule
  deployed : List Nat
  deriving DecidableEq

def State.findRule (s : State) (id : Nat) : Option RegulatoryRule := s.rules.find? (·.id = id)

def State.saveRule (s : State) (rule : RegulatoryRule) : State :=
  { s with rules := update (fun r => r.id = rule.id) (fun _ => rule) s.rules }

/-- The rows that are selected are retired. -/
def State.deprecate (s : State) (p : RegulatoryRule → Bool) (now : Int) : State :=
  { s with
    rules := update p (fun r => { r with status := .deprecated, effectiveTo := some now })
      s.rules }

def State.insert (s : State) (rule : RegulatoryRule) : State :=
  { s with rules := s.rules ++ [rule] }

/-! ## The operations -/

structure CreateRegulatoryRuleDto where
  ruleCode : String
  name : String
  description : Option String
  jurisdiction : Option RuleJurisdiction
  category : RuleCategory
  severity : Option RuleSeverity
  action : Option RuleAction
  conditions : List RuleCondition
  logicalOperator : Option LogicalOperator
  testCases : Option (List RuleTestCase)
  effectiveFrom : Option Int
  effectiveTo : Option Int
  authorId : Option String
  changeNotes : Option String

/-- `a || b`, of a text. -/
def orText (a : Option String) (b : String) : String := (a.filter (· ≠ "")).getD b

def Engine.createRule (engine : Engine) (s : State) (dto : CreateRegulatoryRuleDto) (now : Int) :
    State × Except String RegulatoryRule :=
  if dto.conditions = [] then (s, .error "Rule must contain at least one condition")
  else
    let rule : RegulatoryRule := {
      id := s.rules.length
      ruleCode := engine.normalize dto.ruleCode
      configuration := {
        name := dto.name
        description := dto.description.getD ""
        jurisdiction := dto.jurisdiction.getD .GLOBAL
        category := dto.category
        severity := dto.severity.getD .HIGH
        action := dto.action.getD .FLAG_REVIEW
        conditions := dto.conditions
        logicalOperator := dto.logicalOperator.getD .AND
        testCases := dto.testCases.getD [] }
      status := .draft
      version := 1
      parentRuleId := none
      testResults := none
      authorId := dto.authorId.filter (· ≠ "")
      changeNotes := some (orText dto.changeNotes "Initial rule definition")
      effectiveFrom := dto.effectiveFrom.getD now
      effectiveTo := dto.effectiveTo }
    (s.insert rule, .ok rule)

structure UpdateRegulatoryRuleDto where
  name : Option String
  description : Option String
  jurisdiction : Option RuleJurisdiction
  category : Option RuleCategory
  severity : Option RuleSeverity
  action : Option RuleAction
  conditions : Option (List RuleCondition)
  logicalOperator : Option LogicalOperator
  testCases : Option (List RuleTestCase)
  effectiveFrom : Option Int
  effectiveTo : Option Int
  changeNotes : Option String

def RuleConfiguration.edited (c : RuleConfiguration) (dto : UpdateRegulatoryRuleDto) :
    RuleConfiguration where
  name := orText dto.name c.name
  description := dto.description.getD c.description
  jurisdiction := dto.jurisdiction.getD c.jurisdiction
  category := dto.category.getD c.category
  severity := dto.severity.getD c.severity
  action := dto.action.getD c.action
  conditions := dto.conditions.getD c.conditions
  logicalOperator := dto.logicalOperator.getD c.logicalOperator
  testCases := dto.testCases.getD c.testCases

def editRule (s : State) (ruleId : Nat) (dto : UpdateRegulatoryRuleDto) (authorId : String)
    (changeNotes : Option String) (now : Int) : State × Except String RegulatoryRule :=
  match s.findRule ruleId with
  | none => (s, .error ("Rule " ++ toString ruleId ++ " not found"))
  | some existing =>
    let s := s.deprecate (fun r => r.id = existing.id &&
      (r.status = .active || r.status = .staged)) now
    let rule : RegulatoryRule := {
      id := s.rules.length
      ruleCode := existing.ruleCode
      configuration := existing.configuration.edited dto
      status := .draft
      version := existing.version + 1
      parentRuleId := some existing.id
      testResults := none
      authorId := some authorId
      changeNotes := some (orText changeNotes (orText dto.changeNotes
        ("Updated to version " ++ toString (existing.version + 1))))
      effectiveFrom := dto.effectiveFrom.getD now
      effectiveTo := dto.effectiveTo }
    (s.insert rule, .ok rule)

/-- `MAX(version)` of the code. -/
def State.latestVersion (s : State) (ruleCode : String) : Nat :=
  ((s.rules.filter (·.ruleCode = ruleCode)).map (·.version)).foldl max 0

def Engine.rollbackRule (engine : Engine) (s : State) (ruleCode : String) (targetVersion : Nat)
    (authorId : String) (now : Int) : State × Except String RegulatoryRule :=
  let code := engine.normalize ruleCode
  match s.rules.find? fun r => r.ruleCode = code && r.version = targetVersion with
  | none => (s, .error ("Version " ++ toString targetVersion ++ " for rule " ++ ruleCode ++
      " not found for rollback"))
  | some target =>
    let s := s.deprecate (fun r => r.ruleCode = code && r.status = .active) now
    let latest := s.latestVersion code
    let rolledBack : RegulatoryRule := {
      id := s.rules.length
      ruleCode := target.ruleCode
      configuration := target.configuration
      status := .active
      version := (if latest = 0 then targetVersion else latest) + 1
      parentRuleId := some target.id
      testResults := none
      authorId := some authorId
      changeNotes := some ("Rolled back to configuration of version " ++ toString targetVersion)
      effectiveFrom := now
      effectiveTo := none }
    (s.insert rolledBack, .ok rolledBack)

structure RuleTestExecutionReport where
  passed : Bool
  totalTests : Nat
  passedTests : Nat
  deriving DecidableEq

def Engine.report (engine : Engine) (configuration : RuleConfiguration)
    (testCases : List RuleTestCase) : RuleTestExecutionReport :=
  let passedTests := testCases.countP (engine.passes configuration)
  ⟨passedTests = testCases.length, testCases.length, passedTests⟩

/-- The row after a test. -/
def RegulatoryRule.tested (rule : RegulatoryRule) (report : RuleTestExecutionReport) (now : Int) :
    RegulatoryRule :=
  { rule with
    testResults := some ⟨report.passed, report.passedTests, report.totalTests, now⟩
    status := if report.passed = true ∧ rule.status = .draft then .testing else rule.status }

def Engine.testRule (engine : Engine) (s : State) (ruleId : Nat)
    (customTestCases : Option (List RuleTestCase)) (now : Int) :
    State × Except String RuleTestExecutionReport :=
  match s.findRule ruleId with
  | none => (s, .error ("Regulatory rule " ++ toString ruleId ++ " not found"))
  | some rule =>
    let testCases := customTestCases.getD rule.configuration.testCases
    if testCases = [] then (s, .ok ⟨true, 0, 0⟩)
    else
      let report := engine.report rule.configuration testCases
      (s.saveRule (rule.tested report now), .ok report)

inductive DeployTarget where
  | staged
  | active
  deriving DecidableEq

/-- The row is saved as it was read before the test. -/
def State.deploy (s : State) (rule : RegulatoryRule) (status : RuleStatus) (authorId : String)
    (now : Int) : State :=
  { s.saveRule { rule with status, authorId := some authorId, effectiveFrom := now } with
    deployed := s.deployed ++ [rule.id] }

def Engine.deployRule (engine : Engine) (s : State) (ruleId : Nat) (targetStatus : DeployTarget)
    (authorId : String) (now : Int) : State × Except String Unit :=
  match s.findRule ruleId with
  | none => (s, .error ("Regulatory rule " ++ toString ruleId ++ " not found"))
  | some rule =>
    match targetStatus with
    | .staged => (s.deploy rule .staged authorId now, .ok ())
    | .active =>
      let tested := engine.testRule s rule.id none now
      let report := engine.report rule.configuration rule.configuration.testCases
      if rule.configuration.testCases ≠ [] ∧ report.passed = false then
        (tested.1, .error ("Cannot deploy rule " ++ rule.ruleCode ++ " to production: " ++
          toString (report.totalTests - report.passedTests) ++ " test case(s) failed."))
      else
        let retired := tested.1.deprecate (fun r => r.ruleCode = rule.ruleCode &&
          r.status = .active && r.id ≠ rule.id) now
        (retired.deploy rule .active authorId now, .ok ())

/-! ## Runs -/

inductive Action where
  | createRule (dto : CreateRegulatoryRuleDto) (now : Int)
  | editRule (ruleId : Nat) (dto : UpdateRegulatoryRuleDto) (authorId : String)
    (changeNotes : Option String) (now : Int)
  | testRule (ruleId : Nat) (customTestCases : Option (List RuleTestCase)) (now : Int)
  | deployRule (ruleId : Nat) (targetStatus : DeployTarget) (authorId : String) (now : Int)
  | rollbackRule (ruleCode : String) (targetVersion : Nat) (authorId : String) (now : Int)

def Engine.after (engine : Engine) (s : State) : Action → State
  | .createRule dto now => (engine.createRule s dto now).1
  | .editRule ruleId dto authorId changeNotes now =>
    (Compliance.editRule s ruleId dto authorId changeNotes now).1
  | .testRule ruleId customTestCases now => (engine.testRule s ruleId customTestCases now).1
  | .deployRule ruleId targetStatus authorId now =>
    (engine.deployRule s ruleId targetStatus authorId now).1
  | .rollbackRule ruleCode targetVersion authorId now =>
    (engine.rollbackRule s ruleCode targetVersion authorId now).1

def Engine.next (engine : Engine) (s : State) (a : Action) : Option State :=
  some (engine.after s a)

def start : State := ⟨[], []⟩

abbrev RuleRun (engine : Engine) (xs : List (Step State Action)) (s : State) : Prop :=
  Run engine.next start xs s

end AgriFi.Compliance
