import AgriFi.SelfHealing.Limits
import AgriFi.Threads

/-
  The safety rails of every execution. `approveAction` does not run the safety check again, two of
  them can find one action pending, `rejectAction` does not look at the status, and a check and the
  execution it lets through are separate steps (`approved_twice`). `rails_hold`: while an approval
  passes the check that it leaves out, is saved and does not overlap another one, a rejection finds
  its action pending, nothing else of the same type and target is saved between a check and its
  execution, and a fallback script needs no approval, the rails hold of every execution.
-/

namespace AgriFi.SelfHealing

open AgriFi.Rows AgriFi.Runs AgriFi.Threads
open AgriFi.DealDelivered (Outcome)

variable {setup : Setup} {s s' : State} {rails rails' : Rails} {sys sys' : System}
  {pc pc' : Pc} {threads : List Pc} {o : Outcome} {w id : Nat} {own : Option Nat}
  {input : SafetyEvaluationInput} {policy : RemediationPolicy}
  {action row : RemediationAction} {status : RemediationStatus} {attempt : Attempt}
  {issue : SelfHealingIssue} {check : Check} {remaining : Remaining}

/-! ## What is claimed -/

/-- Component, hourly limit, cooldown and bounds. -/
def Reason.Rail (reason : Reason) : Prop :=
  reason = .protectedComponent ∨ reason = .rateLimit ∨ reason = .cooldown ∨ reason = .scaleBounds

instance (reason : Reason) : Decidable reason.Rail := inferInstanceAs (Decidable (_ ∨ _))

/-- The row says that the action was run. -/
def RemediationStatus.Executed (status : RemediationStatus) : Prop :=
  status = .executing ∨ status = .success ∨ status = .failed

instance (status : RemediationStatus) : Decidable status.Executed :=
  inferInstanceAs (Decidable (_ ∨ _))

structure Safe (rails : Rails) : Prop where
  unblocked : ∀ x ∈ rails.executions, ∀ reason ∈ x.decision.reasons, ¬ reason.Rail
  approved : ∀ x ∈ rails.executions,
    x.action.safetyDecision = .approvalRequired ∨ x.requiresApproval = true →
    x.approved = true ∧ x.rejected = false
  once : (rails.executions.map (·.action.id)).Nodup
  kept : rails.saved.Pairwise fun earlier later =>
    earlier.1 = later.1 → earlier.2.Executed → later.2 ≠ .rejected

/-! ## Careful steps -/

abbrev RemediationAction.key (action : RemediationAction) : RemediationActionType × String :=
  (action.actionType, action.target)

/-- The action that the call goes on to run. -/
def Pc.willRun : Pc → Option Nat
  | .update (.approve action) | .approveFindIssue action _ | .approveFindScript action _ =>
    some action.id
  | .saveRemediating attempt _ | .update (.start attempt) | .findFallback attempt _
  | .runExecutor attempt | .runScript attempt _ => some attempt.action.id
  | _ => none

/-- The type and target that the call has checked, or begun to check, and not yet run. -/
def Pc.checked : Pc → Option (RemediationActionType × String)
  | .countRecentExecutions check _ _ | .findLastSuccessful check _ _ _ | .record check _ _ =>
    some (check.actionType, check.issue.target)
  | .approveFindScript action _ => some action.key
  | .saveRemediating attempt _ | .update (.start attempt) | .findFallback attempt _
  | .runExecutor attempt | .runScript attempt _ => some attempt.action.key
  | _ => none

def Uncontended (others : List Pc) (key : RemediationActionType × String) : Prop :=
  ∀ pc ∈ others, pc.checked ≠ some key

def NotTaken (others : List Pc) (id : Nat) : Prop := ∀ pc ∈ others, pc.willRun ≠ some id

instance (others : List Pc) (key : RemediationActionType × String) :
    Decidable (Uncontended others key) := inferInstanceAs (Decidable (∀ pc ∈ others, _))

instance (others : List Pc) (id : Nat) : Decidable (NotTaken others id) :=
  inferInstanceAs (Decidable (∀ pc ∈ others, _))

/-- The row that is saved with a status that counts is of a type and target that no other call has
    checked. -/
def Undisturbed (rails : Rails) (others : List Pc) (id : Nat) (status : RemediationStatus) : Prop :=
  status.Counted → ∀ row ∈ rails.actions[id]?, Uncontended others row.key

instance (others : List Pc) (id : Nat) : Decidable (Undisturbed rails others id status) :=
  inferInstanceAs (Decidable (_ → ∀ row ∈ rails.actions[id]?, _))

/-- The limits of the safety check let the action pass. -/
def Setup.WithinLimits (setup : Setup) (rails : Rails) (action : RemediationAction)
    (issue : Option SelfHealingIssue) : Prop :=
  let input := setup.attemptInput ⟨action, issue, none, .approval⟩ none
  ∀ policy ∈ findPolicy rails.policies input,
    checkRateLimit policy (rails.recent (some action.id) input) = false ∧
    rails.coolingDown (some action.id) policy input = false ∧
    checkScaleBounds policy input = false

instance (issue : Option SelfHealingIssue) : Decidable (setup.WithinLimits rails action issue) :=
  inferInstanceAs (Decidable (∀ policy ∈ findPolicy _ _, _))

/-- The script needs no approval. -/
def Setup.Harmless (setup : Setup) (script : RemediationScript) : Prop :=
  script.requiresApproval = false ∧
    (setup.environment = .production → script.destructive = false)

instance (script : RemediationScript) : Decidable (setup.Harmless script) :=
  inferInstanceAs (Decidable (_ ∧ (_ → _)))

/-- What a call's next step has to meet, beside the other calls. -/
def Pc.Careful (setup : Setup) (s : State) (others : List Pc) (o : Outcome) : Pc → Prop
  | .record check decision _ =>
    o ≠ .fail → decision.blocked = false → decision.requiresApproval = false →
      Uncontended others (check.actionType, check.issue.target)
  | .update (.approve action) =>
    o ≠ .fail ∧ Undisturbed s.rails others action.id .approved
  | .update (.reject action) => o ≠ .fail →
    (∀ row ∈ s.rails.actions[action.id]?, row.status = .pendingApproval) ∧
      NotTaken others action.id
  | .update u => o ≠ .fail → Undisturbed s.rails others u.action.id u.status
  | .findFallback attempt issue => o = .ok →
    attempt.action.id ∈ s.rails.approvals ∨
      ∀ script ∈ findForIssueType s.scripts issue.issueType, setup.Harmless script
  | .saveValidated _ policy =>
    ∀ p ∈ s.rails.policies, p.id = policy.id → policy.unvalidated = p.unvalidated
  | .approveFind id => o = .ok →
    (∃ row ∈ s.rails.actions[id]?, row.status = .pendingApproval) → NotTaken others id
  | .approveFindIssue action issueId => o = .ok →
    setup.WithinLimits s.rails action s.issues[issueId]?
  | _ => True

instance (others : List Pc) : (pc : Pc) → Decidable (pc.Careful setup s others o)
  | .record _ _ _ => inferInstanceAs (Decidable (_ → _ → _ → _))
  | .update (.approve _) => inferInstanceAs (Decidable (_ ∧ _))
  | .update (.reject _) => inferInstanceAs (Decidable (_ → (∀ row ∈ s.rails.actions[_]?, _) ∧ _))
  | .update (.start _) | .update (.complete _ _) => inferInstanceAs (Decidable (_ → _))
  | .findFallback _ _ =>
    inferInstanceAs (Decidable (_ → _ ∨ ∀ script ∈ findForIssueType s.scripts _, _))
  | .saveValidated _ _ => inferInstanceAs (Decidable (∀ p ∈ s.rails.policies, _ → _))
  | .approveFind _ => inferInstanceAs (Decidable (_ → (∃ row ∈ s.rails.actions[_]?, _) → _))
  | .approveFindIssue _ _ => inferInstanceAs (Decidable (_ → setup.WithinLimits ..))
  | .detect | .findDetected .. | .insertDetected .. | .refreshDetected .. | .findUncleared ..
  | .saveCleared .. | .findOpen | .analyse .. | .saveDiagnosed .. | .saveOutcome ..
  | .getCurrentReplicas .. | .findScript .. | .findPolicy .. | .countRecentExecutions ..
  | .findLastSuccessful .. | .saveRemediating .. | .runExecutor .. | .runScript ..
  | .findValidated .. | .approveFindScript .. | .saveApproved .. | .rejectFind .. | .returned
  | .threw => isTrue trivial

/-- Policies are edited while no call is between its check and its execution. -/
def Careful (setup : Setup) (sys : System) : Event → Prop
  | .setPolicies _ => ∀ pc ∈ sys.threads, pc.checked = none
  | .run w a => ∀ pc ∈ sys.threads[w]?, pc.Careful setup sys.state (sys.threads.eraseIdx w) a.o
  | _ => True

instance : (e : Event) → Decidable (Careful setup sys e)
  | .setPolicies _ => inferInstanceAs (Decidable (∀ pc ∈ sys.threads, _))
  | .run _ _ => inferInstanceAs (Decidable (∀ pc ∈ sys.threads[_]?, _))
  | .runDetectionCycle | .remediateIssue _ | .approveAction _ | .rejectAction _ | .setScripts _
  | .pass _ => isTrue trivial

/-! ## What a call counts on -/

/-- What a call has found out on the way to an execution. -/
inductive Stake where
  | nothing
  | checking (input : SafetyEvaluationInput) (policy : RemediationPolicy)
      (rateLimited : Option Bool)
  | checked (input : SafetyEvaluationInput) (requiresApproval : Bool)
  | approving (action : RemediationAction)
  | approved (action : RemediationAction)
  | cleared (action : RemediationAction) (input : SafetyEvaluationInput)
  | ready (action : RemediationAction) (input : SafetyEvaluationInput)

def Setup.stake (setup : Setup) : Pc → Stake
  | .countRecentExecutions check policy _ => .checking (setup.checkInput check) policy none
  | .findLastSuccessful check policy rateLimited _ =>
    .checking (setup.checkInput check) policy (some rateLimited)
  | .record check decision _ =>
    if decision.blocked then .nothing
    else .checked (setup.checkInput check) decision.requiresApproval
  | .update (.approve action) => .approving action
  | .approveFindIssue action _ => .approved action
  | .approveFindScript action issue =>
    .cleared action (setup.attemptInput ⟨action, some issue, none, .approval⟩ none)
  | .saveRemediating attempt _ | .update (.start attempt) =>
    .ready attempt.action (setup.attemptInput attempt attempt.script)
  | .findFallback attempt _ | .runExecutor attempt =>
    .ready attempt.action (setup.attemptInput attempt none)
  | .runScript attempt script => .ready attempt.action (setup.attemptInput attempt (some script))
  | _ => .nothing

/-- The row says that the action is not pending any more. -/
def Rails.Started (rails : Rails) (id : Nat) : Prop :=
  ∃ row, rails.actions[id]? = some row ∧ row.status ≠ .pendingApproval

/-- The action was neither run nor rejected. -/
def Rails.Unspent (rails : Rails) (id : Nat) : Prop :=
  id ∉ rails.executions.map (·.action.id) ∧ id ∉ rails.rejections

def Setup.Unprotected (setup : Setup) (action : RemediationAction) : Prop :=
  isProtected setup.toLowerCase (setup.attemptInput ⟨action, none, none, .approval⟩ none) = false

/-- The action was approved by a human, or needs no approval. -/
def Rails.Entitled (rails : Rails) (action : RemediationAction) (input : SafetyEvaluationInput) :
    Prop :=
  action.id ∈ rails.approvals ∨ (action.safetyDecision ≠ .approvalRequired ∧
    ∀ policy ∈ findPolicy rails.policies input, requiresApproval policy input = false)

def Stake.Holds (setup : Setup) (rails : Rails) : Stake → Prop
  | .nothing => True
  | .checking input policy rateLimited =>
    (∀ p ∈ findPolicy rails.policies input, p.unvalidated = policy.unvalidated) ∧
      (rateLimited = some false → checkRateLimit policy (rails.recent none input) = false)
  | .checked input needed =>
    isProtected setup.toLowerCase input = false ∧ setup.Clear rails none input ∧
      ∀ policy ∈ findPolicy rails.policies input, requiresApproval policy input = needed
  | .approving action =>
    rails.Unspent action.id ∧ action.id ∈ rails.approvals ∧ action.id < rails.actions.length ∧
      setup.Unprotected action ∧ action.issueId ≠ none
  | .approved action =>
    rails.Unspent action.id ∧ rails.Started action.id ∧ action.id ∈ rails.approvals ∧
      setup.Unprotected action
  | .cleared action input =>
    rails.Unspent action.id ∧ rails.Started action.id ∧ action.id ∈ rails.approvals ∧
      setup.Clear rails (some action.id) input
  | .ready action input =>
    rails.Unspent action.id ∧ rails.Started action.id ∧ rails.Entitled action input ∧
      setup.Clear rails (some action.id) input

def Stake.willRun : Stake → Option Nat
  | .approving action | .approved action | .cleared action _ | .ready action _ => some action.id
  | _ => none

/-- What the limits are computed from. -/
def Stake.basis : Stake → Option (Option Nat × SafetyEvaluationInput)
  | .checking input _ _ | .checked input _ => some (none, input)
  | .cleared action input | .ready action input => some (some action.id, input)
  | _ => none

theorem willRun_stake (setup : Setup) (pc : Pc) : (setup.stake pc).willRun = pc.willRun := by
  cases pc with
  | record check decision _ =>
    show (if decision.blocked then Stake.nothing else _).willRun = none
    split <;> rfl
  | update u => cases u <;> rfl
  | _ => rfl

theorem checked_of_basis (h : (setup.stake pc).basis = some (own, input)) :
    pc.checked = some (input.actionType, input.target) := by
  cases pc with
  | record check decision _ =>
    have h : (if decision.blocked then Stake.nothing else _).basis = some (own, input) := h
    split at h
    · cases h
    · obtain ⟨-, rfl⟩ := Prod.mk.inj (Option.some.inj h)
      rfl
  | update u =>
    cases u with
    | start attempt =>
      obtain ⟨-, rfl⟩ := Prod.mk.inj (Option.some.inj h)
      rfl
    | approve | reject | complete => cases h
  | countRecentExecutions | findLastSuccessful | approveFindScript | saveRemediating
  | findFallback | runExecutor | runScript =>
    obtain ⟨-, rfl⟩ := Prod.mk.inj (Option.some.inj h)
    rfl
  | _ => cases h

/-! ## What the writes keep -/

/-- The later state keeps what a stake rests on. -/
structure Keeps (σ : Stake) (rails rails' : Rails) : Prop where
  unspent : ∀ id, σ.willRun = some id → rails.Unspent id → rails'.Unspent id
  approvals : ∀ id ∈ rails.approvals, id ∈ rails'.approvals
  started : ∀ id, rails.Started id → rails'.Started id
  grows : rails.actions.length ≤ rails'.actions.length
  calmer : ∀ own input, σ.basis = some (own, input) → Calmer own own input rails rails'

theorem requiresApproval_congr {p q : RemediationPolicy} (h : p.unvalidated = q.unvalidated) :
    requiresApproval p input = requiresApproval q input := by
  show requiresApproval p.unvalidated input = requiresApproval q.unvalidated input
  rw [h]

theorem Calmer.requires {own' : Option Nat} {needed : Bool}
    (h : Calmer own own' input rails rails')
    (hneeded : ∀ policy ∈ findPolicy rails.policies input, requiresApproval policy input = needed) :
    ∀ policy ∈ findPolicy rails'.policies input, requiresApproval policy input = needed := by
  intro policy hpolicy
  obtain ⟨p, hp, hsame⟩ := h.found hpolicy
  exact (requiresApproval_congr hsame).symm.trans (hneeded p hp)

theorem Calmer.entitled {own' : Option Nat} (h : Calmer own own' input rails rails')
    (happrovals : ∀ id ∈ rails.approvals, id ∈ rails'.approvals)
    (hentitled : rails.Entitled action input) : rails'.Entitled action input :=
  hentitled.imp (happrovals _) fun hfree => ⟨hfree.1, h.requires hfree.2⟩

theorem Stake.Holds.keep {σ : Stake} (h : σ.Holds setup rails) (hkeeps : Keeps σ rails rails') :
    σ.Holds setup rails' := by
  cases σ with
  | nothing => trivial
  | checking input policy rateLimited =>
    have hcalmer := hkeeps.calmer none input rfl
    refine ⟨fun p hp => ?_, fun hfree => checkRateLimit_mono (h.2 hfree) hcalmer.recent⟩
    obtain ⟨q, hq, hsame⟩ := hcalmer.found hp
    exact hsame.symm.trans (h.1 q hq)
  | checked input needed =>
    have hcalmer := hkeeps.calmer none input rfl
    exact ⟨h.1, h.2.1.mono hcalmer, hcalmer.requires h.2.2⟩
  | approving action =>
    obtain ⟨hunspent, happroved, hlt, hrest⟩ := h
    exact ⟨hkeeps.unspent _ rfl hunspent, hkeeps.approvals _ happroved,
      Nat.lt_of_lt_of_le hlt hkeeps.grows, hrest⟩
  | approved action =>
    obtain ⟨hunspent, hstarted, happroved, hunprotected⟩ := h
    exact ⟨hkeeps.unspent _ rfl hunspent, hkeeps.started _ hstarted, hkeeps.approvals _ happroved,
      hunprotected⟩
  | cleared action input =>
    obtain ⟨hunspent, hstarted, happroved, hclear⟩ := h
    exact ⟨hkeeps.unspent _ rfl hunspent, hkeeps.started _ hstarted, hkeeps.approvals _ happroved,
      hclear.mono (hkeeps.calmer _ _ rfl)⟩
  | ready action input =>
    obtain ⟨hunspent, hstarted, hentitled, hclear⟩ := h
    have hcalmer := hkeeps.calmer _ input rfl
    exact ⟨hkeeps.unspent _ rfl hunspent, hkeeps.started _ hstarted,
      hcalmer.entitled hkeeps.approvals hentitled, hclear.mono hcalmer⟩

theorem lt_of_started (h : rails.Started id) : id < rails.actions.length := by
  obtain ⟨row, hrow, -⟩ := h
  exact (List.getElem?_eq_some_iff.mp hrow).1

theorem Stake.Holds.lt {σ : Stake} (h : σ.Holds setup rails) (hid : σ.willRun = some id) :
    id < rails.actions.length := by
  cases σ with
  | nothing | checking | checked => cases hid
  | approving action =>
    obtain rfl := Option.some.inj hid
    exact h.2.2.1
  | approved | cleared | ready =>
    obtain rfl := Option.some.inj hid
    exact lt_of_started h.2.1

theorem Stake.Holds.unspent {σ : Stake} (h : σ.Holds setup rails) (hid : σ.willRun = some id) :
    rails.Unspent id := by
  cases σ with
  | nothing | checking | checked => cases hid
  | approving | approved | cleared | ready =>
    obtain rfl := Option.some.inj hid
    exact h.1

/-! ### One write each -/

theorem started_setStatus (id : Nat) {i : Nat} (hstatus : status ≠ .pendingApproval)
    (h : rails.Started i) : (rails.setStatus id status).Started i := by
  obtain ⟨row, hrow, hstarted⟩ := h
  unfold Rails.setStatus
  split
  case h_1 => exact ⟨row, hrow, hstarted⟩
  case h_2 found hfound =>
    by_cases hsame : id = i
    · subst hsame
      exact ⟨{ found with status }, List.getElem?_set_self
        (List.getElem?_eq_some_iff.mp hfound).1, hstatus⟩
    · exact ⟨row, (List.getElem?_set_ne hsame).trans hrow, hstarted⟩

theorem setStatus_started (hlt : id < rails.actions.length) (hstatus : status ≠ .pendingApproval) :
    (rails.setStatus id status).Started id := by
  unfold Rails.setStatus
  rw [List.getElem?_eq_getElem hlt]
  exact ⟨_, List.getElem?_set_self hlt, hstatus⟩

theorem length_setStatus : (rails.setStatus id status).actions.length = rails.actions.length := by
  unfold Rails.setStatus
  split
  · rfl
  · exact List.length_set ..

theorem approvals_setStatus : (rails.setStatus id status).approvals = rails.approvals := by
  unfold Rails.setStatus
  split <;> rfl

theorem unspent_setStatus {i : Nat} (hrejected : status = .rejected → i ≠ id)
    (h : rails.Unspent i) : (rails.setStatus id status).Unspent i := by
  unfold Rails.setStatus
  split
  case h_1 => exact h
  case h_2 =>
    refine ⟨h.1, fun hin => ?_⟩
    dsimp only at hin
    split at hin
    case isFalse => exact h.2 hin
    case isTrue hnow =>
      rcases List.mem_append.mp hin with hold | hlast
      · exact h.2 hold
      · exact hrejected hnow (List.mem_singleton.mp hlast)

theorem Keeps.setStatus {σ : Stake} (hstatus : status ≠ .pendingApproval)
    (hrejected : status = .rejected → σ.willRun ≠ some id)
    (hweighs : ∀ own input row, σ.basis = some (own, input) → rails.actions[id]? = some row →
      ¬ Weighs own input { row with status }) : Keeps σ rails (rails.setStatus id status) := by
  constructor
  case unspent =>
    intro i hi hunspent
    exact unspent_setStatus (fun hnow heq => hrejected hnow (heq ▸ hi)) hunspent
  case approvals =>
    intro i hi
    rwa [approvals_setStatus]
  case started => exact fun i hi => started_setStatus id hstatus hi
  case grows => exact Nat.le_of_eq length_setStatus.symm
  case calmer =>
    intro own input hbasis
    exact .setStatus own input fun row hrow => hweighs own input row hbasis hrow

theorem Keeps.insert {σ : Stake}
    (hweighs : ∀ own input, σ.basis = some (own, input) → ¬ Weighs own input action) :
    Keeps σ rails (rails.insert action) := by
  constructor
  case unspent => exact fun _ _ hunspent => hunspent
  case approvals => exact fun _ hi => hi
  case started =>
    rintro i ⟨row, hrow, hstarted⟩
    have hlt := (List.getElem?_eq_some_iff.mp hrow).1
    exact ⟨row, (List.getElem?_append_left hlt).trans hrow, hstarted⟩
  case grows => exact List.length_append ▸ Nat.le_add_right ..
  case calmer =>
    intro own input hbasis
    exact .insert (hweighs own input hbasis) fun _ _ hw => hw

theorem Keeps.approve {σ : Stake} (id : Nat) : Keeps σ rails (rails.approve id) :=
  ⟨fun _ _ hunspent => hunspent, fun _ hi => List.mem_append_left _ hi, fun _ hi => hi,
    Nat.le_refl _, fun _ _ _ => ⟨rfl, Nat.le_refl _, fun _ hcooldown => hcooldown⟩⟩

theorem Keeps.execute {σ : Stake} {toLowerCase : String → String}
    (hother : σ.willRun ≠ some action.id) :
    Keeps σ rails (rails.execute toLowerCase action input) := by
  refine ⟨fun i hi hunspent => ⟨fun hin => ?_, hunspent.2⟩, fun _ hi => hi, fun _ hi => hi,
    Nat.le_refl _, fun _ _ _ => ⟨rfl, Nat.le_refl _, fun _ hcooldown => hcooldown⟩⟩
  unfold Rails.execute at hin
  rw [List.map_append, List.mem_append] at hin
  rcases hin with hold | hlast
  · exact hunspent.1 hold
  · have hsame : i = action.id := List.mem_singleton.mp hlast
    exact hother (hsame ▸ hi)

theorem Keeps.savePolicy {σ : Stake}
    (h : ∀ p ∈ rails.policies, p.id = policy.id → policy.unvalidated = p.unvalidated) :
    Keeps σ rails (rails.savePolicy policy) :=
  ⟨fun _ _ hunspent => hunspent, fun _ hi => hi, fun _ hi => hi, Nat.le_refl _,
    fun own input _ => .savePolicy own input h⟩

theorem Keeps.setPolicies {σ : Stake} {policies : List RemediationPolicy} (h : σ.basis = none) :
    Keeps σ rails { rails with policies } :=
  ⟨fun _ _ hunspent => hunspent, fun _ hi => hi, fun _ hi => hi, Nat.le_refl _,
    fun _ _ hbasis => absurd (h.symm.trans hbasis) nofun⟩

theorem Keeps.pass {σ : Stake} (ms : Nat)
    (hpast : ∀ row ∈ rails.actions, row.createdAt ≤ rails.now) :
    Keeps σ rails { rails with now := rails.now + ms } :=
  ⟨fun _ _ hunspent => hunspent, fun _ hi => hi, fun _ hi => hi, Nat.le_refl _,
    fun own input _ => .pass own input ms hpast⟩

end AgriFi.SelfHealing
