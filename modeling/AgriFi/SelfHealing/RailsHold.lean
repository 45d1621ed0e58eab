import AgriFi.SelfHealing.SafetyRails
import Mathlib.Data.List.Nodup

/-
  The safety rails along a run: what holds of the rows (`Ground`) and of the calls in progress
  (`Calls`), and the steps one after the other.
-/

namespace AgriFi.SelfHealing

open AgriFi.Rows AgriFi.Runs AgriFi.Threads
open AgriFi.DealDelivered (Outcome)

variable {setup : Setup} {s s' : State} {rails rails' : Rails} {sys sys' : System}
  {pc pc' : Pc} {threads : List Pc} {o : Outcome} {w id : Nat} {own : Option Nat}
  {input : SafetyEvaluationInput} {policy : RemediationPolicy}
  {action row : RemediationAction} {status : RemediationStatus} {attempt : Attempt}
  {issue : SelfHealingIssue} {check : Check} {remaining : Remaining}

/-! ## The rows -/

/-- The history says that the action is past its approval. -/
def Rails.Spent (rails : Rails) (id : Nat) : Prop :=
  id ∈ rails.executions.map (·.action.id) ∨ id ∈ rails.rejections ∨
    ∃ status, (id, status) ∈ rails.saved ∧ status.Executed

structure Ground (setup : Setup) (rails : Rails) : Prop where
  ids : ∀ i (row : RemediationAction), rails.actions[i]? = some row → row.id = i
  past : ∀ row ∈ rails.actions, row.createdAt ≤ rails.now
  issues : ∀ row ∈ rails.actions, row.issueId ≠ none
  unprotected : ∀ row ∈ rails.actions, row.status = .pendingApproval → setup.Unprotected row
  spent : ∀ i, rails.Spent i → rails.Started i
  safe : Safe rails

theorem Ground.unspent (h : Ground setup rails) (hrow : rails.actions[id]? = some row)
    (hpending : row.status = .pendingApproval) : rails.Unspent id := by
  have hnot : ¬ rails.Started id := by
    rintro ⟨found, hfound, hstarted⟩
    obtain rfl := Option.some.inj (hrow.symm.trans hfound)
    exact hstarted hpending
  exact ⟨fun hin => hnot (h.spent _ (.inl hin)), fun hin => hnot (h.spent _ (.inr (.inl hin)))⟩

theorem Ground.setStatus (h : Ground setup rails) (hstatus : status ≠ .pendingApproval)
    (hrejected : status = .rejected →
      ∀ row ∈ rails.actions[id]?, row.status = .pendingApproval) :
    Ground setup (rails.setStatus id status) := by
  have hstarted := fun i (hi : rails.Started i) => started_setStatus id hstatus hi
  cases hrow : rails.actions[id]? with
  | none =>
    have hsame : rails.setStatus id status = rails := by
      unfold Rails.setStatus
      rw [hrow]
    rwa [hsame]
  | some row =>
    have hlt : id < rails.actions.length := (List.getElem?_eq_some_iff.mp hrow).1
    have hnow := setStatus_started hlt hstatus
    have hset : rails.setStatus id status = { rails with
        actions := rails.actions.set id { row with status }
        saved := rails.saved ++ [(id, status)]
        rejections := if status = .rejected then rails.rejections ++ [id]
          else rails.rejections } := by
      unfold Rails.setStatus
      rw [hrow]
    rw [hset] at hstarted hnow ⊢
    have hmem := List.mem_of_getElem? hrow
    constructor
    case ids =>
      intro i found hfound
      rcases getElem?_set_cases hfound with ⟨rfl, rfl⟩ | ⟨-, hold⟩
      · exact h.ids _ row hrow
      · exact h.ids i found hold
    case past =>
      intro found hfound
      rcases List.mem_or_eq_of_mem_set hfound with hold | rfl
      · exact h.past found hold
      · exact h.past row hmem
    case issues =>
      intro found hfound
      rcases List.mem_or_eq_of_mem_set hfound with hold | rfl
      · exact h.issues found hold
      · exact h.issues row hmem
    case unprotected =>
      intro found hfound hpending
      rcases List.mem_or_eq_of_mem_set hfound with hold | rfl
      · exact h.unprotected found hold hpending
      · exact absurd hpending hstatus
    case spent =>
      rintro i (hrun | hreject | ⟨st, hsaved, hexecuted⟩)
      · exact hstarted i (h.spent i (.inl hrun))
      · dsimp only at hreject
        split at hreject
        case isFalse => exact hstarted i (h.spent i (.inr (.inl hreject)))
        case isTrue =>
          rcases List.mem_append.mp hreject with hold | hlast
          · exact hstarted i (h.spent i (.inr (.inl hold)))
          · exact List.mem_singleton.mp hlast ▸ hnow
      · rcases List.mem_append.mp hsaved with hold | hlast
        · exact hstarted i (h.spent i (.inr (.inr ⟨st, hold, hexecuted⟩)))
        · obtain ⟨rfl, -⟩ := Prod.mk.inj (List.mem_singleton.mp hlast)
          exact hnow
    case safe =>
      refine ⟨h.safe.unblocked, h.safe.approved, h.safe.once, ?_⟩
      refine List.pairwise_append.mpr ⟨h.safe.kept, List.pairwise_singleton .., ?_⟩
      intro earlier hearlier later hlater hsame hexecuted hreject
      obtain rfl := List.mem_singleton.mp hlater
      -- the action is pending, and so it was not saved as executed
      have hpending := hrejected hreject row hrow
      have hspent : rails.Spent id :=
        .inr (.inr ⟨earlier.2, (show earlier.1 = id from hsame) ▸ hearlier, hexecuted⟩)
      obtain ⟨found, hfound, hfoundStarted⟩ := h.spent id hspent
      obtain rfl := Option.some.inj (hrow.symm.trans hfound)
      exact hfoundStarted hpending

theorem Ground.insert (h : Ground setup rails) (hid : action.id = rails.actions.length)
    (hnow : action.createdAt ≤ rails.now) (hissue : action.issueId ≠ none)
    (hunprotected : action.status = .pendingApproval → setup.Unprotected action)
    (hnew : ¬ action.status.Executed ∧ action.status ≠ .rejected) :
    Ground setup (rails.insert action) := by
  have hstarted : ∀ i, rails.Started i → (rails.insert action).Started i :=
    (Keeps.insert fun _ _ hbasis => absurd hbasis nofun : Keeps .nothing rails _).started
  constructor
  case ids =>
    intro i row hrow
    rcases Nat.lt_or_ge i rails.actions.length with hlt | hge
    · exact h.ids i row ((List.getElem?_append_left hlt).symm.trans hrow)
    · have hlast := (List.getElem?_append_right hge).symm.trans hrow
      rw [List.getElem?_singleton] at hlast
      split at hlast
      · obtain rfl := Option.some.inj hlast
        omega
      · cases hlast
  case past => exact forall_mem_append h.past hnow
  case issues => exact forall_mem_append h.issues hissue
  case unprotected => exact forall_mem_append h.unprotected hunprotected
  case spent =>
    rintro i (hrun | hreject | ⟨st, hsaved, hexecuted⟩)
    · exact hstarted i (h.spent i (.inl hrun))
    · exact hstarted i (h.spent i (.inr (.inl hreject)))
    · rcases List.mem_append.mp hsaved with hold | hlast
      · exact hstarted i (h.spent i (.inr (.inr ⟨st, hold, hexecuted⟩)))
      · obtain ⟨-, rfl⟩ := Prod.mk.inj (List.mem_singleton.mp hlast)
        exact absurd hexecuted hnew.1
  case safe =>
    refine ⟨h.safe.unblocked, h.safe.approved, h.safe.once, ?_⟩
    refine List.pairwise_append.mpr ⟨h.safe.kept, List.pairwise_singleton .., ?_⟩
    intro earlier _ later hlater _ _
    obtain rfl := List.mem_singleton.mp hlater
    exact hnew.2

theorem Ground.approve (h : Ground setup rails) (id : Nat) : Ground setup (rails.approve id) :=
  ⟨h.ids, h.past, h.issues, h.unprotected, h.spent,
    ⟨h.safe.unblocked, h.safe.approved, h.safe.once, h.safe.kept⟩⟩

theorem Ground.withPolicies (h : Ground setup rails) (policies : List RemediationPolicy) :
    Ground setup { rails with policies } :=
  ⟨h.ids, h.past, h.issues, h.unprotected, h.spent,
    ⟨h.safe.unblocked, h.safe.approved, h.safe.once, h.safe.kept⟩⟩

theorem Ground.pass (h : Ground setup rails) (ms : Nat) :
    Ground setup { rails with now := rails.now + ms } := by
  refine ⟨h.ids, fun row hrow => ?_, h.issues, h.unprotected, h.spent,
    ⟨h.safe.unblocked, h.safe.approved, h.safe.once, h.safe.kept⟩⟩
  have := h.past row hrow
  show row.createdAt ≤ rails.now + ms
  omega

/-- A check that is clear has no ground to block on. -/
theorem evaluate_of_clear (h : setup.Clear rails own input) :
    ∀ reason ∈ (evaluate setup.toLowerCase rails.policies (rails.others own) rails.now
      input).reasons, ¬ reason.Rail := by
  intro reason hreason hrail
  unfold evaluate at hreason
  split at hreason
  case h_1 =>
    obtain rfl := List.mem_singleton.mp hreason
    exact absurd hrail (by decide)
  case h_2 policy hpolicy =>
    obtain ⟨hprotected, hrate, hcooldown, hbounds⟩ := h policy hpolicy
    unfold decision at hreason
    dsimp only at hreason
    rw [List.mem_append, List.mem_append] at hreason
    rcases hreason with (hfirst | hsecond) | hblocker
    · split at hfirst
      · obtain rfl := List.mem_singleton.mp hfirst
        exact absurd hrail (by decide)
      · exact absurd hfirst List.not_mem_nil
    · split at hsecond
      · obtain rfl := List.mem_singleton.mp hsecond
        exact absurd hrail (by decide)
      · exact absurd hsecond List.not_mem_nil
    · obtain ⟨h1, h2, h3, h4⟩ := mem_blockers hblocker
      rcases hrail with rfl | rfl | rfl | rfl
      · exact absurd (h1 rfl) (by rw [hprotected]; nofun)
      · exact absurd ((h2 rfl).symm.trans hrate) nofun
      · exact absurd ((h3 rfl).symm.trans hcooldown) nofun
      · exact absurd ((h4 rfl).symm.trans hbounds) nofun

theorem Ground.execute (h : Ground setup rails)
    (hready : Stake.Holds setup rails (.ready action input)) :
    Ground setup (rails.execute setup.toLowerCase action input) := by
  obtain ⟨hunspent, hstarted, hentitled, hclear⟩ := hready
  refine ⟨h.ids, h.past, h.issues, h.unprotected, ?_, ?_⟩
  · rintro i (hrun | hrest)
    · unfold Rails.execute at hrun
      rw [List.map_append, List.mem_append] at hrun
      rcases hrun with hold | hlast
      · exact h.spent i (.inl hold)
      · have hsame : i = action.id := List.mem_singleton.mp hlast
        exact hsame ▸ hstarted
    · exact h.spent i (.inr hrest)
  · constructor
    case unblocked => exact forall_mem_append h.safe.unblocked (evaluate_of_clear hclear)
    case approved =>
      refine forall_mem_append h.safe.approved fun hneeds => ⟨?_, decide_eq_false hunspent.2⟩
      refine decide_eq_true (hentitled.resolve_right fun hfree => ?_)
      rcases hneeds with hrecorded | hnow
      · exact hfree.1 hrecorded
      · obtain ⟨policy, hpolicy, hneeded⟩ := (Option.any_eq_true _ _).mp hnow
        exact absurd (hneeded.symm.trans (hfree.2 policy hpolicy)) nofun
    case once =>
      unfold Rails.execute
      rw [List.map_append]
      exact List.nodup_append_comm.mpr (List.nodup_cons.mpr ⟨hunspent.1, h.safe.once⟩)
    case kept => exact h.safe.kept

/-! ## The calls -/

structure Calls (setup : Setup) (rails : Rails) (threads : List Pc) : Prop where
  one : ∀ i, AtMostOneInside (fun pc => (setup.stake pc).willRun = some i) threads
  holds : ∀ pc ∈ threads, (setup.stake pc).Holds setup rails

theorem mem_others {v : Nat} (hv : threads[v]? = some pc) (hne : v ≠ w) :
    pc ∈ threads.eraseIdx w := List.mem_eraseIdx_iff_getElem?.mpr ⟨v, hne, hv⟩

theorem Calls.holds_others (h : Calls setup rails threads) :
    ∀ pc ∈ threads.eraseIdx w, (setup.stake pc).Holds setup rails :=
  fun pc hpc => h.holds pc (List.mem_of_mem_eraseIdx hpc)

/-- A call goes on, which keeps what the others rest on. -/
theorem Calls.set (h : Calls setup rails threads) (hw : threads[w]? = some pc)
    (hkeeps : ∀ other ∈ threads.eraseIdx w, Keeps (setup.stake other) rails rails')
    (hholds : (setup.stake pc').Holds setup rails')
    (hrun : ∀ i, (setup.stake pc').willRun = some i →
      (setup.stake pc).willRun = some i ∨ NotTaken (threads.eraseIdx w) i) :
    Calls setup rails' (threads.set w pc') := by
  constructor
  case one =>
    intro i
    refine (h.one i).set hw fun hi => (hrun i hi).imp_right fun hnone v other hv hne => ?_
    rw [willRun_stake]
    exact hnone other (mem_others hv hne)
  case holds =>
    refine forall_mem_set (fun v other hv hne => ?_) hholds
    exact (h.holds other (List.mem_of_getElem? hv)).keep (hkeeps other (mem_others hv hne))

theorem Keeps.refl (σ : Stake) (rails : Rails) : Keeps σ rails rails :=
  ⟨fun _ _ hunspent => hunspent, fun _ hi => hi, fun _ hi => hi, Nat.le_refl _,
    fun _ _ _ => ⟨rfl, Nat.le_refl _, fun _ hcooldown => hcooldown⟩⟩

theorem notTaken_of_one (h : Calls setup rails threads) (hw : threads[w]? = some pc)
    (hi : (setup.stake pc).willRun = some id) : NotTaken (threads.eraseIdx w) id := by
  intro other hother
  obtain ⟨v, hne, hv⟩ := List.mem_eraseIdx_iff_getElem?.mp hother
  rw [← willRun_stake setup]
  exact (h.one id).others hw hi hv hne

structure Inv (setup : Setup) (rails : Rails) (threads : List Pc) : Prop where
  ground : Ground setup rails
  calls : Calls setup rails threads

/-- A call goes on over rows that stay as they are. -/
theorem Inv.moves (h : Inv setup rails threads) (hw : threads[w]? = some pc)
    (hholds : (setup.stake pc').Holds setup rails)
    (hrun : ∀ i, (setup.stake pc').willRun = some i →
      (setup.stake pc).willRun = some i ∨ NotTaken (threads.eraseIdx w) i) :
    Inv setup rails (threads.set w pc') :=
  ⟨h.ground, h.calls.set hw (fun _ _ => .refl _ _) hholds hrun⟩

theorem holds_of_idle (hidle : setup.stake pc = .nothing) :
    (setup.stake pc).Holds setup rails := by
  rw [hidle]
  trivial

theorem run_of_idle {P : Nat → Prop} (hidle : setup.stake pc = .nothing) :
    ∀ i, (setup.stake pc).willRun = some i → P i := by
  intro i hi
  rw [hidle] at hi
  cases hi

theorem Inv.rests (h : Inv setup rails threads) (hw : threads[w]? = some pc)
    (hidle : setup.stake pc' = .nothing) : Inv setup rails (threads.set w pc') :=
  h.moves hw (holds_of_idle hidle) (run_of_idle hidle)

/-! ### Calls that rest on nothing -/

theorem idle_onOk (h : setup.stake pc = .nothing) : setup.stake (onOk o pc) = .nothing := by
  unfold onOk
  split
  · exact h
  · rfl

theorem idle_persistDetection {detected : List DetectedIssue} {seen : List String} :
    setup.stake (persistDetection detected seen) = .nothing := by
  cases detected <;> rfl

theorem idle_resolveClearedIssues {cleared : List SelfHealingIssue} :
    setup.stake (resolveClearedIssues cleared) = .nothing := by
  cases cleared <;> rfl

theorem idle_remediateEach {issues : List SelfHealingIssue} :
    setup.stake (remediateEach issues) = .nothing := by
  cases issues <;> rfl

theorem idle_stepFindDetected {detected : DetectedIssue} {rest : List DetectedIssue}
    {seen : List String} : setup.stake (stepFindDetected s detected rest seen) = .nothing := by
  unfold stepFindDetected
  split
  · rfl
  · split <;> rfl

theorem idle_nextAction : setup.stake (nextAction issue remaining) = .nothing := by
  unfold nextAction
  split
  · rfl
  · dsimp only
    split
    · rfl
    · split <;> rfl

theorem idle_stepSaveDiagnosed {actionTypes : List RemediationActionType}
    {issues : List SelfHealingIssue} :
    setup.stake (stepSaveDiagnosed issue actionTypes issues) = .nothing := by
  unfold stepSaveDiagnosed
  split
  · rfl
  · exact idle_nextAction

theorem idle_finish {outcome : RemediationOutcome} :
    setup.stake (attempt.finish outcome) = .nothing := by
  unfold Attempt.finish
  split
  · rfl
  · split
    · exact idle_nextAction
    · rfl

theorem idle_completed {success : Bool} : setup.stake (attempt.completed success) = .nothing := by
  unfold Attempt.completed
  split
  · exact idle_finish
  · split
    · exact idle_finish
    · rfl

theorem idle_stepFindValidated : setup.stake (stepFindValidated rails attempt) = .nothing := by
  unfold stepFindValidated
  split
  · exact idle_finish
  · split
    · exact idle_finish
    · rfl

theorem idle_stepRejectFind : setup.stake (stepRejectFind rails id) = .nothing := by
  unfold stepRejectFind
  split <;> rfl

theorem stake_executeAction : setup.stake (executeAction attempt) =
    .ready attempt.action (setup.attemptInput attempt attempt.script) := by
  obtain ⟨action, issue, script, caller⟩ := attempt
  cases issue <;> rfl

/-! ## The check -/

/-- What a decision that does not block goes on with. -/
theorem holds_record {rateLimited coolingDown : Bool}
    (hfound : ∀ p ∈ findPolicy rails.policies (setup.checkInput check),
      p.unvalidated = policy.unvalidated)
    (hrate : rateLimited = false →
      checkRateLimit policy (rails.recent none (setup.checkInput check)) = false)
    (hcooldown : coolingDown = false →
      rails.coolingDown none policy (setup.checkInput check) = false) :
    (setup.stake (.record check (decision setup.toLowerCase policy (setup.checkInput check)
      rateLimited coolingDown) remaining)).Holds setup rails := by
  simp only [Setup.stake]
  split
  case isTrue => trivial
  case isFalse hpasses =>
    have hblocked := eq_false_of_ne_true hpasses
    obtain ⟨hprotected, hlimited, hcooling, hbounds⟩ := of_not_blocked hblocked
    refine ⟨hprotected, fun p hp => ⟨hprotected, ?_⟩, fun p hp => ?_⟩
    · have hrate : checkRateLimit policy.unvalidated _ = false := hrate hlimited
      have hcooldown : rails.coolingDown none policy.unvalidated _ = false := hcooldown hcooling
      have hbounds : checkScaleBounds policy.unvalidated _ = false := hbounds
      rw [← hfound p hp] at hrate hcooldown hbounds
      exact ⟨hrate, hcooldown, hbounds⟩
    · have hneeded : (decision setup.toLowerCase policy (setup.checkInput check) rateLimited
          coolingDown).requiresApproval = (requiresApproval policy (setup.checkInput check) &&
            !(decision setup.toLowerCase policy (setup.checkInput check) rateLimited
              coolingDown).blocked) := rfl
      rw [hneeded, hblocked, requiresApproval_congr (hfound p hp), Bool.not_false, Bool.and_true]

theorem recent_none :
    rails.recent none input = countRecentExecutions rails.actions input.actionType input.target 60
      rails.now := by
  unfold Rails.recent
  rw [others_none]

theorem holds_stepFindPolicy :
    (setup.stake (setup.stepFindPolicy rails check remaining)).Holds setup rails := by
  unfold Setup.stepFindPolicy
  split
  case h_1 => trivial
  case h_2 policy hfound =>
    refine ⟨fun p hp => ?_, nofun⟩
    obtain rfl := Option.some.inj (hfound.symm.trans hp)
    rfl

theorem holds_stepCount
    (h : Stake.Holds setup rails (.checking (setup.checkInput check) policy none)) :
    (setup.stake (setup.stepCount rails check policy remaining)).Holds setup rails := by
  unfold Setup.stepCount
  dsimp only
  split
  case isTrue hnever =>
    refine holds_record h.1 (fun hrate => ?_) fun _ => ?_
    · rw [recent_none]
      exact hrate
    · rw [coolingDown_eq_false]
      intro hpositive
      omega
  case isFalse =>
    refine ⟨h.1, fun hrate => ?_⟩
    rw [recent_none]
    exact Option.some.inj hrate

theorem holds_stepLast {rateLimited : Bool}
    (h : Stake.Holds setup rails
      (.checking (setup.checkInput check) policy (some rateLimited))) :
    (setup.stake (setup.stepLast rails check policy rateLimited remaining)).Holds setup rails := by
  refine holds_record h.1 (fun hrate => h.2 (congrArg some hrate)) fun hcooldown => ?_
  unfold Rails.coolingDown
  rw [others_none]
  exact hcooldown

/-- No call that is being checked, or counts policies, goes on to run an action yet. -/
theorem run_stepFindPolicy {P : Nat → Prop} :
    ∀ i, (setup.stake (setup.stepFindPolicy rails check remaining)).willRun = some i → P i := by
  intro i hi
  rw [willRun_stake] at hi
  unfold Setup.stepFindPolicy at hi
  split at hi <;> cases hi

theorem run_stepCount {P : Nat → Prop} :
    ∀ i, (setup.stake (setup.stepCount rails check policy remaining)).willRun = some i → P i := by
  intro i hi
  rw [willRun_stake] at hi
  unfold Setup.stepCount at hi
  dsimp only at hi
  split at hi <;> cases hi

theorem run_stepLast {rateLimited : Bool} {P : Nat → Prop} : ∀ i,
    (setup.stake (setup.stepLast rails check policy rateLimited remaining)).willRun = some i →
      P i := by
  intro i hi
  rw [willRun_stake] at hi
  cases hi

/-! ## The execution -/

theorem requiresApproval_none {script : Option RemediationScript}
    (h : requiresApproval policy (setup.attemptInput attempt script) = false) :
    requiresApproval policy (setup.attemptInput attempt none) = false := by
  simp only [requiresApproval, needsDestructiveApproval, needsCriticalApproval,
    Setup.attemptInput, Bool.or_eq_false_iff, Bool.and_eq_false_iff, Option.any_none] at h ⊢
  tauto

theorem requiresApproval_harmless {script : RemediationScript} (hscript : setup.Harmless script)
    (h : requiresApproval policy (setup.attemptInput attempt none) = false) :
    requiresApproval policy (setup.attemptInput attempt (some script)) = false := by
  obtain ⟨happroval, hdestructive⟩ := hscript
  have hscript : decide (setup.environment = .production) = false ∨ script.destructive = false := by
    by_cases hproduction : setup.environment = .production
    · exact .inr (hdestructive hproduction)
    · exact .inl (decide_eq_false hproduction)
  simp only [requiresApproval, needsDestructiveApproval, needsCriticalApproval,
    Setup.attemptInput, Bool.or_eq_false_iff, Bool.and_eq_false_iff, Option.any_none,
    Option.any_some] at h ⊢
  tauto

/-- Without its script an action needs no more approval. -/
theorem ready_none {script : Option RemediationScript}
    (h : Stake.Holds setup rails (.ready attempt.action (setup.attemptInput attempt script))) :
    Stake.Holds setup rails (.ready attempt.action (setup.attemptInput attempt none)) := by
  obtain ⟨hunspent, hstarted, hentitled, hclear⟩ := h
  refine ⟨hunspent, hstarted, hentitled.imp_right fun hfree => ⟨hfree.1, ?_⟩, hclear⟩
  exact fun policy hpolicy => requiresApproval_none (hfree.2 policy hpolicy)

theorem holds_dispatch (h : Stake.Holds setup rails
    (.ready attempt.action (setup.attemptInput attempt attempt.script))) :
    (setup.stake (setup.dispatch attempt)).Holds setup rails := by
  unfold Setup.dispatch
  split
  case isTrue =>
    split
    case h_1 script hscript =>
      rw [hscript] at h
      exact h
    case h_2 => trivial
  case isFalse =>
    split
    · split
      · trivial
      · exact ready_none h
    · split
      · exact ready_none h
      · trivial

theorem run_dispatch : ∀ i, (setup.stake (setup.dispatch attempt)).willRun = some i →
    some attempt.action.id = some i := by
  intro i hi
  rw [willRun_stake] at hi
  unfold Setup.dispatch at hi
  split at hi
  · split at hi
    · exact hi
    · cases hi
  · split at hi
    · split at hi
      · cases hi
      · exact hi
    · split at hi
      · exact hi
      · cases hi

theorem holds_stepFindFallback
    (h : Stake.Holds setup s.rails (.ready attempt.action (setup.attemptInput attempt none)))
    (hcareful : o = .ok → attempt.action.id ∈ s.rails.approvals ∨
      ∀ script ∈ findForIssueType s.scripts issue.issueType, setup.Harmless script) :
    (setup.stake (stepFindFallback s attempt issue o)).Holds setup s.rails := by
  unfold stepFindFallback
  split
  case h_2 => trivial
  case h_1 script hfound =>
    split at hfound
    case isFalse => cases hfound
    case isTrue hok =>
      obtain ⟨hunspent, hstarted, hentitled, hclear⟩ := h
      refine ⟨hunspent, hstarted, ?_, hclear⟩
      rcases hcareful hok with happroved | hharmless
      · exact .inl happroved
      · refine hentitled.imp_right fun hfree => ⟨hfree.1, fun policy hpolicy => ?_⟩
        exact requiresApproval_harmless (hharmless script hfound) (hfree.2 policy hpolicy)

theorem run_stepFindFallback : ∀ i,
    (setup.stake (stepFindFallback s attempt issue o)).willRun = some i →
      some attempt.action.id = some i := by
  intro i hi
  rw [willRun_stake] at hi
  unfold stepFindFallback at hi
  split at hi
  · exact hi
  · cases hi

theorem Inv.execute (h : Inv setup rails threads) (hw : threads[w]? = some pc)
    (hstake : setup.stake pc = .ready action input) (hidle : setup.stake pc' = .nothing) :
    Inv setup (rails.execute setup.toLowerCase action input) (threads.set w pc') := by
  have hready := h.calls.holds pc (List.mem_of_getElem? hw)
  have hmine : (setup.stake pc).willRun = some action.id := by
    rw [hstake]
    rfl
  refine ⟨h.ground.execute (hstake ▸ hready), h.calls.set hw (fun other hother => ?_)
    (holds_of_idle hidle) (run_of_idle hidle)⟩
  refine .execute fun hsame => ?_
  rw [willRun_stake] at hsame
  exact notTaken_of_one h.calls hw hmine other hother hsame

/-! ## The saves of an action -/

/-- What the others rest on does not come from the row that is saved. -/
theorem not_weighs (hchecked : ∀ other ∈ threads.eraseIdx w, status.Counted →
      other.checked ≠ some row.key) (hpc : pc ∈ threads.eraseIdx w)
    (hbasis : (setup.stake pc).basis = some (own, input)) :
    ¬ Weighs own input { row with status } := by
  rintro ⟨-, htype, htarget, hcounted⟩
  refine hchecked pc hpc hcounted ((checked_of_basis hbasis).trans ?_)
  rw [← htype, ← htarget]

theorem Keeps.others (hstatus : status ≠ .pendingApproval)
    (hrejected : status = .rejected → NotTaken (threads.eraseIdx w) id)
    (hundisturbed : Undisturbed rails (threads.eraseIdx w) id status)
    (hpc : pc ∈ threads.eraseIdx w) :
    Keeps (setup.stake pc) rails (rails.setStatus id status) := by
  refine .setStatus hstatus (fun hnow => ?_) fun own input row hbasis hrow => ?_
  · rw [willRun_stake]
    exact hrejected hnow pc hpc
  · exact not_weighs (fun other hother hcounted => hundisturbed hcounted row hrow other hother)
      hpc hbasis

/-- A call that moves on by the save of its own action. -/
theorem Inv.setStatus (h : Inv setup rails threads) (hw : threads[w]? = some pc)
    (hstatus : status ≠ .pendingApproval)
    (hrejected : status = .rejected →
      (∀ row ∈ rails.actions[id]?, row.status = .pendingApproval) ∧
        NotTaken (threads.eraseIdx w) id)
    (hundisturbed : Undisturbed rails (threads.eraseIdx w) id status)
    (hholds : (setup.stake pc').Holds setup (rails.setStatus id status))
    (hrun : ∀ i, (setup.stake pc').willRun = some i → (setup.stake pc).willRun = some i) :
    Inv setup (rails.setStatus id status) (threads.set w pc') :=
  ⟨h.ground.setStatus hstatus fun hnow => (hrejected hnow).1,
    h.calls.set hw (fun _ hother => .others hstatus (fun hnow => (hrejected hnow).2) hundisturbed
      hother) hholds fun i hi => .inl (hrun i hi)⟩

theorem written_cases {α : Type} (P : α → Prop) {x y : α} (hfail : o = .fail → P x)
    (hsaved : o ≠ .fail → P y) : P (written x y o) := by
  cases o with
  | fail => exact hfail rfl
  | ok | lost => exact hsaved nofun

/-- The own row is not counted. -/
theorem ready_setStatus (h : Ground setup rails) (hstatus : status ≠ .pendingApproval)
    (hrejected : status ≠ .rejected) (hready : Stake.Holds setup rails (.ready action input)) :
    Stake.Holds setup (rails.setStatus action.id status) (.ready action input) := by
  refine hready.keep (.setStatus hstatus (fun hnow => absurd hnow hrejected) ?_)
  intro own input row hbasis hrow hweighs
  obtain ⟨rfl, rfl⟩ := Prod.mk.inj (Option.some.inj hbasis)
  exact hweighs.1 (congrArg some (h.ids _ row hrow))

theorem holds_approved (hlt : action.issueId ≠ none)
    (h : Stake.Holds setup rails (.approved action)) :
    (setup.stake (approved action)).Holds setup rails := by
  unfold SelfHealing.approved
  split
  case h_1 hnone => exact absurd hnone hlt
  case h_2 => exact h

theorem run_approved : ∀ i, (setup.stake (approved action)).willRun = some i →
    some action.id = some i := by
  intro i hi
  unfold SelfHealing.approved at hi
  split at hi
  · rw [stake_executeAction] at hi
    exact hi
  · exact hi

theorem Inv.update {u : Update} (h : Inv setup s.rails threads)
    (hw : threads[w]? = some (.update u))
    (hcareful : (Pc.update u).Careful setup s (threads.eraseIdx w) o) :
    Inv setup (written s.rails (s.rails.setStatus u.action.id u.status) o)
      (threads.set w (setup.updated u)) := by
  have hmine := h.calls.holds _ (List.mem_of_getElem? hw)
  cases u with
  | approve action =>
    obtain ⟨hsent, hundisturbed⟩ := hcareful
    obtain ⟨hunspent, happroved, hlt, hunprotected, hissue⟩ := hmine
    refine written_cases (fun rails => Inv setup rails _) (fun hfail => absurd hfail hsent)
      fun _ => h.setStatus hw nofun nofun hundisturbed (holds_approved hissue ?_) run_approved
    refine ⟨unspent_setStatus nofun hunspent, setStatus_started hlt nofun, ?_, hunprotected⟩
    rwa [approvals_setStatus]
  | reject action =>
    refine written_cases (fun rails => Inv setup rails _) (fun _ => h.rests hw rfl) fun hsent => ?_
    exact h.setStatus hw nofun (fun _ => hcareful hsent)
      (fun hcounted => absurd hcounted (show ¬ RemediationStatus.Counted .rejected by decide))
      trivial nofun
  | start attempt =>
    refine written_cases (fun rails => Inv setup rails _) (fun _ => ?_) fun hsent => ?_
    · exact h.moves hw (holds_dispatch hmine) fun i hi => .inl (run_dispatch i hi)
    · exact h.setStatus hw nofun nofun (hcareful hsent)
        (holds_dispatch (ready_setStatus h.ground nofun nofun hmine)) run_dispatch
  | complete attempt success =>
    refine written_cases (fun rails => Inv setup rails _)
      (fun _ => h.rests hw idle_completed) fun hsent => ?_
    have hstatus : (Update.complete attempt success).status ≠ .pendingApproval ∧
        (Update.complete attempt success).status ≠ .rejected := by
      cases success <;> exact ⟨nofun, nofun⟩
    exact h.setStatus hw hstatus.1 (fun hnow => absurd hnow hstatus.2) (hcareful hsent)
      (holds_of_idle idle_completed) (run_of_idle idle_completed)

/-! ## The record of an action -/

theorem counted_newAction {decision : SafetyDecision}
    (h : (setup.newAction rails check decision).status.Counted) :
    decision.blocked = false ∧ decision.requiresApproval = false := by
  unfold Setup.newAction at h
  dsimp only at h
  split at h
  · exact absurd h (by decide)
  · split at h
    · exact absurd h (by decide)
    · exact ⟨eq_false_of_ne_true ‹_›, eq_false_of_ne_true ‹_›⟩

theorem status_newAction (setup : Setup) (rails : Rails) (check : Check)
    (decision : SafetyDecision) :
    ¬ (setup.newAction rails check decision).status.Executed ∧
      (setup.newAction rails check decision).status ≠ .rejected := by
  unfold Setup.newAction
  dsimp only
  split
  · decide
  · split <;> decide

theorem Inv.record {decision : SafetyDecision} (h : Inv setup s.rails threads)
    (hw : threads[w]? = some (.record check decision remaining))
    (hcareful : (Pc.record check decision remaining).Careful setup s (threads.eraseIdx w) o) :
    Inv setup (written s.rails (s.rails.insert (setup.newAction s.rails check decision)) o)
      (threads.set w
        (stepRecord (setup.newAction s.rails check decision) check decision remaining o)) := by
  have hmine := h.calls.holds _ (List.mem_of_getElem? hw)
  have hfresh : ∀ other ∈ threads.eraseIdx w,
      other.willRun ≠ some s.rails.actions.length := by
    intro other hother hsame
    have := (h.calls.holds_others other hother).lt ((willRun_stake setup other).trans hsame)
    omega
  refine written_cases (fun rails => Inv setup rails _) (fun hfail => ?_) fun hsent => ?_
  · refine h.rests hw ?_
    unfold stepRecord
    rw [hfail, if_pos nofun]
    exact idle_nextAction
  have hground : Ground setup (s.rails.insert (setup.newAction s.rails check decision)) := by
    refine h.ground.insert rfl (Int.le_refl _) nofun (fun hpending => ?_) (status_newAction ..)
    have hpasses : decision.blocked = false := by
      refine eq_false_of_ne_true fun hblocked => ?_
      unfold Setup.newAction at hpending
      rw [if_pos hblocked] at hpending
      cases hpending
    simp only [Setup.stake, hpasses] at hmine
    exact hmine.1
  have hothers : ∀ other ∈ threads.eraseIdx w, Keeps (setup.stake other) s.rails
      (s.rails.insert (setup.newAction s.rails check decision)) := by
    refine fun other hother => .insert fun own input hbasis => ?_
    rintro ⟨-, htype, htarget, hcounted⟩
    obtain ⟨hpasses, hfree⟩ := counted_newAction hcounted
    refine hcareful hsent hpasses hfree other hother ((checked_of_basis hbasis).trans ?_)
    rw [← htype, ← htarget]
    rfl
  have hrests : ∀ {pc}, setup.stake pc = .nothing →
      Inv setup (s.rails.insert (setup.newAction s.rails check decision)) (threads.set w pc) :=
    fun hidle => ⟨hground, h.calls.set hw hothers (holds_of_idle hidle) (run_of_idle hidle)⟩
  unfold stepRecord
  split
  case isTrue => exact hrests idle_nextAction
  case isFalse =>
    split
    case isTrue => exact hrests idle_nextAction
    case isFalse hpasses =>
      split
      case isTrue => exact hrests idle_nextAction
      case isFalse hfree =>
        have hpasses := eq_false_of_ne_true hpasses
        have hfree := eq_false_of_ne_true hfree
        simp only [Setup.stake, hpasses] at hmine
        obtain ⟨-, hclear, hneeded⟩ := hmine
        have hnew : ∀ i, s.rails.Spent i → i ≠ s.rails.actions.length := fun i hi =>
          Nat.ne_of_lt (lt_of_started (h.ground.spent i hi))
        refine ⟨hground, h.calls.set hw hothers ?_ fun i hi => .inr ?_⟩
        · rw [stake_executeAction]
          refine ⟨⟨fun hrun => hnew _ (.inl hrun) rfl, fun hreject => hnew _ (.inr (.inl hreject))
            rfl⟩, ⟨_, List.getElem?_concat_length .., ?_⟩, .inr ⟨?_, ?_⟩, hclear.mono ?_⟩
          · simp [Setup.newAction, hpasses, hfree]
          · simp [Setup.newAction, hpasses, hfree]
          · exact fun policy hpolicy => (hneeded policy hpolicy).trans hfree
          · exact .insert (fun hweighs => hweighs.1 rfl) fun row _ hweighs => ⟨nofun, hweighs.2⟩
        · rw [stake_executeAction] at hi
          obtain rfl := Option.some.inj hi
          exact hfresh

/-! ## Approvals -/

theorem Inv.approveFind (h : Inv setup s.rails threads)
    (hw : threads[w]? = some (.approveFind id))
    (hcareful : (Pc.approveFind id).Careful setup s (threads.eraseIdx w) o) :
    Inv setup (stepApproveFind s.rails id o).1
      (threads.set w (stepApproveFind s.rails id o).2) := by
  unfold stepApproveFind
  split
  case isTrue => exact h.rests hw rfl
  case isFalse hok =>
    split
    case h_1 => exact h.rests hw rfl
    case h_2 action hfound =>
      split
      case isTrue => exact h.rests hw rfl
      case isFalse hstatus =>
        have hpending : action.status = .pendingApproval := not_not.mp hstatus
        obtain rfl : action.id = id := h.ground.ids id action hfound
        have hmem := List.mem_of_getElem? hfound
        refine ⟨h.ground.approve _, h.calls.set hw (fun _ _ => .approve _) ?_ fun i hi => ?_⟩
        · exact ⟨h.ground.unspent hfound hpending,
            List.mem_append_right _ (List.mem_singleton.mpr rfl),
            (List.getElem?_eq_some_iff.mp hfound).1, h.ground.unprotected action hmem hpending,
            h.ground.issues action hmem⟩
        · obtain rfl := Option.some.inj hi
          exact .inr (hcareful (not_not.mp hok) ⟨action, hfound, hpending⟩)

theorem clear_of_within {found : Option SelfHealingIssue}
    (hwithin : setup.WithinLimits rails action found) (hunprotected : setup.Unprotected action) :
    setup.Clear rails (some action.id)
      (setup.attemptInput ⟨action, found, none, .approval⟩ none) :=
  fun policy hpolicy => ⟨hunprotected, hwithin policy hpolicy⟩

theorem Inv.approveFindIssue {issueId : Nat} (h : Inv setup s.rails threads)
    (hw : threads[w]? = some (.approveFindIssue action issueId))
    (hcareful : (Pc.approveFindIssue action issueId).Careful setup s (threads.eraseIdx w) o) :
    Inv setup s.rails (threads.set w (onOk o (stepApproveFindIssue s action issueId))) := by
  obtain ⟨hunspent, hstarted, happroved, hunprotected⟩ :=
    h.calls.holds _ (List.mem_of_getElem? hw)
  unfold onOk
  split
  case isFalse => exact h.rests hw rfl
  case isTrue hok =>
    have hclear := clear_of_within (hcareful hok) hunprotected
    unfold stepApproveFindIssue
    split
    case h_1 hnone =>
      rw [hnone] at hclear
      refine h.moves hw ?_ fun i hi => .inl ?_
      · rw [stake_executeAction]
        exact ⟨hunspent, hstarted, .inl happroved, hclear⟩
      · rw [stake_executeAction] at hi
        exact hi
    case h_2 issue hissue =>
      rw [hissue] at hclear
      split
      case isTrue =>
        exact h.moves hw ⟨hunspent, hstarted, happroved, hclear⟩ fun i hi => .inl hi
      case isFalse =>
        refine h.moves hw ?_ fun i hi => .inl ?_
        · rw [stake_executeAction]
          exact ⟨hunspent, hstarted, .inl happroved, hclear⟩
        · rw [stake_executeAction] at hi
          exact hi

theorem Inv.approveFindScript (h : Inv setup s.rails threads)
    (hw : threads[w]? = some (.approveFindScript action issue))
    (script : Option RemediationScript) :
    Inv setup s.rails
      (threads.set w (onOk o (executeAction ⟨action, some issue, script, .approval⟩))) := by
  obtain ⟨hunspent, hstarted, happroved, hclear⟩ := h.calls.holds _ (List.mem_of_getElem? hw)
  unfold onOk
  split
  case isFalse => exact h.rests hw rfl
  case isTrue =>
    refine h.moves hw ?_ fun i hi => .inl ?_
    · rw [stake_executeAction]
      exact ⟨hunspent, hstarted, .inl happroved, hclear⟩
    · rw [stake_executeAction] at hi
      exact hi

/-! ## Steps -/

theorem rails_written (h : s'.rails = s.rails) : (written s s' o).rails = s.rails := by
  cases o with
  | fail => rfl
  | ok | lost => exact h

/-- A query of an issue, or a save of one. -/
theorem Inv.other (h : Inv setup s.rails threads) (hw : threads[w]? = some pc)
    (hsame : s'.rails = s.rails) (hidle : setup.stake pc' = .nothing) :
    Inv setup s'.rails (threads.set w (onOk o pc')) :=
  hsame ▸ h.rests hw (idle_onOk hidle)

theorem Inv.checks (h : Inv setup s.rails threads) (hw : threads[w]? = some pc)
    (hholds : (setup.stake pc').Holds setup s.rails)
    (hrun : ∀ i, (setup.stake pc').willRun = some i → (setup.stake pc).willRun = some i) :
    Inv setup s.rails (threads.set w (onOk o pc')) := by
  unfold onOk
  split
  · exact h.moves hw hholds fun i hi => .inl (hrun i hi)
  · exact h.rests hw rfl

theorem Inv.step {a : Answer} (h : Inv setup s.rails threads) (hw : threads[w]? = some pc)
    (hcareful : pc.Careful setup s (threads.eraseIdx w) a.o)
    (hstep : setup.step s a pc = some (s', pc')) : Inv setup s'.rails (threads.set w pc') := by
  have hmine := h.calls.holds pc (List.mem_of_getElem? hw)
  cases pc with
  | detect =>
    obtain ⟨rfl, rfl⟩ := Prod.mk.inj (Option.some.inj hstep)
    exact h.other hw rfl idle_persistDetection
  | findDetected detected rest seen =>
    obtain ⟨rfl, rfl⟩ := Prod.mk.inj (Option.some.inj hstep)
    exact h.other hw rfl idle_stepFindDetected
  | insertDetected detected rest seen =>
    obtain ⟨rfl, rfl⟩ := Prod.mk.inj (Option.some.inj hstep)
    exact h.other hw (rails_written rfl) idle_persistDetection
  | refreshDetected issue rest seen =>
    obtain ⟨rfl, rfl⟩ := Prod.mk.inj (Option.some.inj hstep)
    exact h.other hw (rails_written rfl) idle_persistDetection
  | findUncleared seen =>
    obtain ⟨rfl, rfl⟩ := Prod.mk.inj (Option.some.inj hstep)
    exact h.other hw rfl idle_resolveClearedIssues
  | saveCleared issue rest =>
    obtain ⟨rfl, rfl⟩ := Prod.mk.inj (Option.some.inj hstep)
    exact h.other hw (rails_written rfl) idle_resolveClearedIssues
  | findOpen =>
    obtain ⟨rfl, rfl⟩ := Prod.mk.inj (Option.some.inj hstep)
    exact h.other hw rfl idle_remediateEach
  | analyse issue issues =>
    obtain ⟨rfl, rfl⟩ := Prod.mk.inj (Option.some.inj hstep)
    exact h.other hw rfl rfl
  | saveDiagnosed issue actionTypes issues =>
    obtain ⟨rfl, rfl⟩ := Prod.mk.inj (Option.some.inj hstep)
    exact h.other hw (rails_written rfl) idle_stepSaveDiagnosed
  | saveOutcome issue issues =>
    obtain ⟨rfl, rfl⟩ := Prod.mk.inj (Option.some.inj hstep)
    exact h.other hw (rails_written rfl) idle_remediateEach
  | getCurrentReplicas issue actionType remaining =>
    obtain ⟨rfl, rfl⟩ := Prod.mk.inj (Option.some.inj hstep)
    exact h.other hw rfl rfl
  | findScript check remaining =>
    obtain ⟨rfl, rfl⟩ := Prod.mk.inj (Option.some.inj hstep)
    exact h.other hw rfl rfl
  | findPolicy check remaining =>
    obtain ⟨rfl, rfl⟩ := Prod.mk.inj (Option.some.inj hstep)
    exact h.checks hw holds_stepFindPolicy run_stepFindPolicy
  | countRecentExecutions check policy remaining =>
    obtain ⟨rfl, rfl⟩ := Prod.mk.inj (Option.some.inj hstep)
    exact h.checks hw (holds_stepCount hmine) run_stepCount
  | findLastSuccessful check policy rateLimited remaining =>
    obtain ⟨rfl, rfl⟩ := Prod.mk.inj (Option.some.inj hstep)
    exact h.checks hw (holds_stepLast hmine) run_stepLast
  | record check decision remaining =>
    obtain ⟨rfl, rfl⟩ := Prod.mk.inj (Option.some.inj hstep)
    exact h.record hw hcareful
  | saveRemediating attempt issue =>
    obtain ⟨rfl, rfl⟩ := Prod.mk.inj (Option.some.inj hstep)
    have hsame : (written s (s.saveIssue issue) a.o).rails = s.rails := rails_written rfl
    rw [hsame]
    exact h.checks hw hmine fun i hi => hi
  | update u =>
    obtain ⟨rfl, rfl⟩ := Prod.mk.inj (Option.some.inj hstep)
    exact h.update hw hcareful
  | findFallback attempt issue =>
    obtain ⟨rfl, rfl⟩ := Prod.mk.inj (Option.some.inj hstep)
    exact h.moves hw (holds_stepFindFallback hmine hcareful) fun i hi =>
      .inl (run_stepFindFallback i hi)
  | runExecutor attempt =>
    obtain ⟨rfl, rfl⟩ := Prod.mk.inj (Option.some.inj hstep)
    exact h.execute hw rfl rfl
  | runScript attempt script =>
    simp only [Setup.step] at hstep
    split at hstep
    · obtain ⟨rfl, rfl⟩ := Prod.mk.inj (Option.some.inj hstep)
      exact h.execute hw rfl rfl
    · obtain ⟨rfl, rfl⟩ := Prod.mk.inj (Option.some.inj hstep)
      exact h.rests hw rfl
  | findValidated attempt =>
    obtain ⟨rfl, rfl⟩ := Prod.mk.inj (Option.some.inj hstep)
    exact h.other hw rfl idle_stepFindValidated
  | saveValidated attempt policy =>
    obtain ⟨rfl, rfl⟩ := Prod.mk.inj (Option.some.inj hstep)
    refine written_cases (fun rails => Inv setup rails _)
      (fun _ => h.rests hw (idle_onOk idle_finish)) fun _ => ?_
    exact ⟨h.ground.withPolicies _, h.calls.set hw (fun _ _ => .savePolicy hcareful)
      (holds_of_idle (idle_onOk idle_finish)) (run_of_idle (idle_onOk idle_finish))⟩
  | approveFind id =>
    obtain ⟨rfl, rfl⟩ := Prod.mk.inj (Option.some.inj hstep)
    exact h.approveFind hw hcareful
  | approveFindIssue action issueId =>
    obtain ⟨rfl, rfl⟩ := Prod.mk.inj (Option.some.inj hstep)
    exact h.approveFindIssue hw hcareful
  | approveFindScript action issue =>
    obtain ⟨rfl, rfl⟩ := Prod.mk.inj (Option.some.inj hstep)
    exact h.approveFindScript hw _
  | saveApproved issue =>
    obtain ⟨rfl, rfl⟩ := Prod.mk.inj (Option.some.inj hstep)
    exact h.other hw (rails_written rfl) rfl
  | rejectFind id =>
    obtain ⟨rfl, rfl⟩ := Prod.mk.inj (Option.some.inj hstep)
    exact h.other hw rfl idle_stepRejectFind
  | returned | threw => cases hstep

/-- A call begins, which rests on nothing yet. -/
theorem Calls.join (h : Calls setup rails threads) (hidle : setup.stake pc = .nothing) :
    Calls setup rails (threads ++ [pc]) := by
  refine ⟨fun i => (h.one i).append fun hi => ?_, forall_mem_append h.holds (holds_of_idle hidle)⟩
  exact run_of_idle (P := fun _ => False) hidle i hi

theorem Calls.keep (h : Calls setup rails threads)
    (hkeeps : ∀ pc ∈ threads, Keeps (setup.stake pc) rails rails') :
    Calls setup rails' threads :=
  ⟨h.one, fun pc hpc => (h.holds pc hpc).keep (hkeeps pc hpc)⟩

theorem basis_of_unchecked (h : pc.checked = none) : (setup.stake pc).basis = none := by
  cases hbasis : (setup.stake pc).basis with
  | none => rfl
  | some basis => cases h.symm.trans (checked_of_basis hbasis)

theorem Inv.next {e : Event} (h : Inv setup sys.state.rails sys.threads)
    (hcareful : Careful setup sys e) (hnext : setup.next sys e = some sys') :
    Inv setup sys'.state.rails sys'.threads := by
  cases e with
  | runDetectionCycle =>
    obtain rfl := Option.some.inj hnext
    refine ⟨h.ground, h.calls.join ?_⟩
    split <;> rfl
  | remediateIssue | approveAction | rejectAction =>
    obtain rfl := Option.some.inj hnext
    exact ⟨h.ground, h.calls.join rfl⟩
  | setPolicies policies =>
    obtain rfl := Option.some.inj hnext
    exact ⟨h.ground.withPolicies policies, h.calls.keep fun pc hpc =>
      .setPolicies (basis_of_unchecked (hcareful pc hpc))⟩
  | setScripts scripts =>
    obtain rfl := Option.some.inj hnext
    exact ⟨h.ground, h.calls⟩
  | pass ms =>
    obtain rfl := Option.some.inj hnext
    exact ⟨h.ground.pass ms, h.calls.keep fun _ _ => .pass ms h.ground.past⟩
  | run w a =>
    obtain ⟨pc, hw, hnext⟩ := Option.bind_eq_some_iff.mp hnext
    obtain ⟨⟨s', pc'⟩, hstep, hnext⟩ := Option.bind_eq_some_iff.mp hnext
    obtain rfl := Option.some.inj hnext
    exact h.step hw (hcareful pc hw) hstep

/-! ## The rails -/

theorem inv_start (policies : List RemediationPolicy) (scripts : List RemediationScript)
    (now : Int) : Inv setup (start policies scripts now).state.rails [] := by
  have hnoRow : ∀ row ∈ ([] : List RemediationAction), False := fun _ => List.not_mem_nil
  have hnoRun : ∀ x ∈ ([] : List Execution), False := fun _ => List.not_mem_nil
  refine ⟨⟨fun i row hrow => absurd (List.mem_of_getElem? hrow) (hnoRow row),
    fun row hrow => absurd hrow (hnoRow row), fun row hrow => absurd hrow (hnoRow row),
    fun row hrow => absurd hrow (hnoRow row), ?_,
    fun x hx => absurd hx (hnoRun x), fun x hx => absurd hx (hnoRun x), List.nodup_nil,
    List.Pairwise.nil⟩, fun _ => atMostOneInside_nil, fun _ hpc => absurd hpc List.not_mem_nil⟩
  rintro i (hrun | hreject | ⟨status, hsaved, -⟩)
  · exact absurd hrun List.not_mem_nil
  · exact absurd hreject List.not_mem_nil
  · exact absurd hsaved List.not_mem_nil

theorem rails_hold (setup : Setup) (policies : List RemediationPolicy)
    (scripts : List RemediationScript) (now : Int) {xs : List (Step System Event)} {sys : System}
    (hrun : SelfHealingRun setup policies scripts now xs sys)
    (hcareful : ∀ x ∈ xs, Careful setup x.pre x.act) : Safe sys.state.rails :=
  (hrun.invariant (fun sys => Inv setup sys.state.rails sys.threads)
    (inv_start policies scripts now)
    fun x hx hnext hinv => hinv.next (hcareful x hx) hnext).ground.safe

/-! ## A cluster in production -/

/-- The executor of Kubernetes, which does not free disk space. -/
def cluster : Setup where
  environment := .production
  isEnabled := true
  minReplicas := 1
  maxReplicas := 10
  supports actionType := actionType ≠ .customScript ∧ actionType ≠ .cleanupDisk
  resolveScriptPath _ := true
  toLowerCase text := text

def restartPods : RemediationPolicy where
  id := 0
  name := "restart-pods"
  issueType := none
  actionType := .restartPod
  enabled := true
  requiresApproval := false
  destructive := false
  maxExecutionsPerHour := 5
  cooldownMinutes := 15
  allowedEnvironments := ["staging", "production"]
  stagingValidated := true
  minReplicas := none
  maxReplicas := none

def restartServices : RemediationPolicy :=
  { restartPods with
    id := 1
    name := "restart-services"
    actionType := .restartService
    requiresApproval := true
    maxExecutionsPerHour := 1 }

def policies : List RemediationPolicy := [restartPods, restartServices]

def pod : DetectedIssue := ⟨"pod_failure:api", .podFailure, .warning, "backend", "default/api"⟩

def service : DetectedIssue :=
  ⟨"service_down:web", .serviceDown, .warning, "frontend", "default/web"⟩

def answer : Answer := ⟨.ok, [], [], none, true⟩

def queries (w n : Nat) : List Event := List.replicate n (.run w answer)

def recommend (w : Nat) (actionType : RemediationActionType) : Event :=
  .run w { answer with recommendedActions := [actionType] }

/-- A cycle that restarts a pod, and asks for the approval of the restart of a service. -/
def cycle : List Event :=
  .runDetectionCycle :: .run 0 { answer with detected := [pod, service] } :: queries 0 6 ++
    recommend 0 .restartPod :: queries 0 10 ++ recommend 0 .restartService :: queries 0 6

/-- The restart is approved, and runs. -/
def cycleAndApproval : List Event := cycle ++ .pass 60000 :: .approveAction 1 :: queries 1 8

theorem rails_hold_cluster :
    (replay cluster.next (start policies [] 0) cycleAndApproval).2.state.rails.executions.map
        (·.action.id) = [0, 1] ∧
      Safe (replay cluster.next (start policies [] 0) cycleAndApproval).2.state.rails := by
  have hrun := run_replay cluster.next (start policies [] 0) cycleAndApproval
  exact ⟨by decide +kernel, rails_hold cluster policies [] 0 hrun (by decide +kernel)⟩

/-- Two operators approve the restart at the same time. -/
def bothApprove : List Event :=
  cycle ++ [.approveAction 1, .approveAction 1] ++ queries 1 1 ++ queries 2 1 ++ queries 1 7 ++
    queries 2 7

/-- The next cycle asks for the restart again, and both are approved. -/
def cyclesAndApprovals : List Event :=
  cycle ++ .runDetectionCycle :: .run 1 { answer with detected := [service] } :: queries 1 4 ++
    recommend 1 .restartService :: queries 1 6 ++ .approveAction 1 :: queries 2 8 ++
    .approveAction 2 :: queries 3 8

def rejectedAfterwards : List Event := cycleAndApproval ++ .rejectAction 1 :: queries 2 2

theorem approved_twice :
    (¬ ∀ (setup : Setup) (policies : List RemediationPolicy) (scripts : List RemediationScript)
        (now : Int) (xs : List (Step System Event)) (sys : System),
      SelfHealingRun setup policies scripts now xs sys →
        (sys.state.rails.executions.map (·.action.id)).Nodup) ∧
    (¬ ∀ (setup : Setup) (policies : List RemediationPolicy) (scripts : List RemediationScript)
        (now : Int) (xs : List (Step System Event)) (sys : System),
      SelfHealingRun setup policies scripts now xs sys →
        ∀ x ∈ sys.state.rails.executions, ∀ reason ∈ x.decision.reasons, ¬ reason.Rail) ∧
    ¬ ∀ (setup : Setup) (policies : List RemediationPolicy) (scripts : List RemediationScript)
        (now : Int) (xs : List (Step System Event)) (sys : System),
      SelfHealingRun setup policies scripts now xs sys →
        sys.state.rails.saved.Pairwise fun earlier later =>
          earlier.1 = later.1 → earlier.2.Executed → later.2 ≠ .rejected := by
  refine ⟨fun h => ?_, fun h => ?_, fun h => ?_⟩
  · have honce := h cluster policies [] 0 _ _ (run_replay _ _ bothApprove)
    revert honce
    decide +kernel
  · have hrails := h cluster policies [] 0 _ _ (run_replay _ _ cyclesAndApprovals)
    revert hrails
    decide +kernel
  · have hkept := h cluster policies [] 0 _ _ (run_replay _ _ rejectedAfterwards)
    revert hkept
    decide +kernel

end AgriFi.SelfHealing
