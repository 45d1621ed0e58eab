import AgriFi.SelfHealing.Service

/-
  What each write does to the limits of the safety check. A check that lets an action pass goes on
  letting it pass (`Clear.mono`) while no other action of its type and target comes to a status that
  counts, and policies change in nothing but whether they were validated.
-/

namespace AgriFi.SelfHealing

open AgriFi.Best AgriFi.Rows

variable {setup : Setup} {rails rails' : Rails} {own own' : Option Nat} {id : Nat}
  {input : SafetyEvaluationInput} {policy : RemediationPolicy}
  {policies : List RemediationPolicy} {action row : RemediationAction}
  {actions : List RemediationAction} {status : RemediationStatus}

/-! ## Policies -/

/-- A policy apart from whether it was validated. -/
def RemediationPolicy.unvalidated (policy : RemediationPolicy) : RemediationPolicy :=
  { policy with stagingValidated := false }

theorem findPolicy_map {f : RemediationPolicy → RemediationPolicy}
    (hissue : ∀ p, (f p).issueType = p.issueType) (haction : ∀ p, (f p).actionType = p.actionType)
    (henabled : ∀ p, (f p).enabled = p.enabled) :
    findPolicy (policies.map f) input = (findPolicy policies input).map f := by
  have hfilter : ∀ (g : RemediationPolicy → Bool) (ps : List RemediationPolicy),
      (∀ p, g (f p) = g p) → (ps.map f).filter g = (ps.filter g).map f := by
    intro g ps hg
    rw [List.filter_map]
    exact congrArg (List.map f) (List.filter_congr fun p _ => hg p)
  have hfind : ∀ (g : RemediationPolicy → Bool) (ps : List RemediationPolicy),
      (∀ p, g (f p) = g p) → (ps.map f).find? g = (ps.find? g).map f := by
    intro g ps hg
    rw [List.find?_map]
    exact congrArg (fun q => (ps.find? q).map f) (funext hg)
  unfold findPolicy
  dsimp only
  rw [hfilter _ _ fun p => by rw [haction], hfilter _ _ henabled]
  simp only [List.map_eq_nil_iff]
  rw [← apply_ite (List.map f)]
  rw [hfind _ _ fun p => by rw [hissue], hfind _ _ fun p => by rw [hissue], List.head?_map,
    ← Option.map_or, ← Option.map_or]

theorem findPolicy_unvalidated (input : SafetyEvaluationInput)
    {policies' : List RemediationPolicy}
    (h : policies'.map RemediationPolicy.unvalidated =
      policies.map RemediationPolicy.unvalidated) :
    (findPolicy policies' input).map RemediationPolicy.unvalidated =
      (findPolicy policies input).map RemediationPolicy.unvalidated := by
  have hmap : ∀ ps : List RemediationPolicy,
      findPolicy (ps.map RemediationPolicy.unvalidated) input =
        (findPolicy ps input).map RemediationPolicy.unvalidated :=
    fun ps => findPolicy_map (fun _ => rfl) (fun _ => rfl) (fun _ => rfl)
  rw [← hmap, ← hmap, h]

/-! ## The limits against the other actions -/

namespace Rails

def recent (rails : Rails) (own : Option Nat) (input : SafetyEvaluationInput) : Nat :=
  countRecentExecutions (rails.others own) input.actionType input.target 60 rails.now

def coolingDown (rails : Rails) (own : Option Nat) (policy : RemediationPolicy)
    (input : SafetyEvaluationInput) : Bool :=
  checkCooldown policy (findLastSuccessful (rails.others own) input.actionType input.target)
    rails.now

end Rails

/-- A row that the limits of the input can come from. -/
def Weighs (own : Option Nat) (input : SafetyEvaluationInput) (row : RemediationAction) : Prop :=
  some row.id ≠ own ∧ row.actionType = input.actionType ∧ row.target = input.target ∧
    row.status.Counted

instance : Decidable (Weighs own input row) := inferInstanceAs (Decidable (_ ∧ _))

theorem others_none : rails.others none = rails.actions :=
  List.filter_eq_self.mpr fun _ _ => rfl

theorem recent_eq_countP : rails.recent own input = rails.actions.countP fun row =>
    decide (Weighs own input row) && (decide (rails.now - 60 * 60000 ≤ row.createdAt) &&
      decide (row.createdAt ≤ rails.now)) := by
  unfold Rails.recent countRecentExecutions Rails.others
  rw [List.filter_filter, List.filter_filter, ← List.countP_eq_length_filter]
  refine List.countP_congr fun row _ => ?_
  simp only [Bool.and_eq_true, decide_eq_true_eq]
  unfold Weighs
  tauto

theorem coolingDown_eq_false : rails.coolingDown own policy input = false ↔
    (0 < policy.cooldownMinutes → ∀ row ∈ rails.actions, Weighs own input row →
      row.status = .success → policy.cooldownMinutes * 60000 ≤ rails.now - row.createdAt) := by
  unfold Rails.coolingDown checkCooldown findLastSuccessful Rails.others
  have hbest := @exists_le_iff RemediationAction (·.createdAt)
    ((rails.actions.filter fun action => some action.id ≠ own).filter fun action =>
      action.actionType = input.actionType ∧ action.target = input.target ∧
        action.status = .success)
    (fun m => rails.now - m < policy.cooldownMinutes * 60000) fun m n hmn hm => by omega
  rw [← Bool.not_eq_true, Bool.and_eq_true, decide_eq_true_eq, Option.any_eq_true]
  constructor
  · intro h hpositive row hrow hweighs hsuccess
    by_contra hshort
    refine h ⟨hpositive, ?_⟩
    obtain ⟨last, hlast, hrecent⟩ := hbest.mp ⟨row, by
      obtain ⟨hother, htype, htarget, -⟩ := hweighs
      simp [hrow, hother, htype, htarget, hsuccess], by omega⟩
    exact ⟨last, hlast, decide_eq_true hrecent⟩
  · rintro h ⟨hpositive, last, hlast, hrecent⟩
    obtain ⟨row, hrow, hshort⟩ := hbest.mpr ⟨last, hlast, of_decide_eq_true hrecent⟩
    simp only [List.mem_filter, decide_eq_true_eq] at hrow
    obtain ⟨⟨hrow, hother⟩, htype, htarget, hsuccess⟩ := hrow
    have := h hpositive row hrow ⟨hother, htype, htarget, .inl hsuccess⟩ hsuccess
    omega

/-! ## Passing the check -/

/-- The grounds that are claimed about let the action pass. -/
def Setup.Clear (setup : Setup) (rails : Rails) (own : Option Nat)
    (input : SafetyEvaluationInput) : Prop :=
  ∀ policy ∈ findPolicy rails.policies input,
    isProtected setup.toLowerCase input = false ∧
    checkRateLimit policy (rails.recent own input) = false ∧
    rails.coolingDown own policy input = false ∧ checkScaleBounds policy input = false

/-- The limits of the later state are no tighter. -/
structure Calmer (own own' : Option Nat) (input : SafetyEvaluationInput) (rails rails' : Rails) :
    Prop where
  policies : rails'.policies.map RemediationPolicy.unvalidated =
    rails.policies.map RemediationPolicy.unvalidated
  recent : rails'.recent own' input ≤ rails.recent own input
  coolingDown : ∀ policy, rails.coolingDown own policy input = false →
    rails'.coolingDown own' policy input = false

theorem checkRateLimit_mono {m n : Nat} (h : checkRateLimit policy n = false) (hle : m ≤ n) :
    checkRateLimit policy m = false := by
  unfold checkRateLimit at *
  simp only [decide_eq_false_iff_not] at *
  omega

theorem Calmer.found (h : Calmer own own' input rails rails')
    (hfound : policy ∈ findPolicy rails'.policies input) :
    ∃ p ∈ findPolicy rails.policies input, p.unvalidated = policy.unvalidated := by
  have hmap := findPolicy_unvalidated input h.policies
  rw [Option.mem_def.mp hfound, Option.map_some] at hmap
  exact Option.map_eq_some_iff.mp hmap.symm

theorem Setup.Clear.mono (hclear : setup.Clear rails own input)
    (h : Calmer own own' input rails rails') : setup.Clear rails' own' input := by
  intro policy hpolicy
  obtain ⟨p, hp, hsame⟩ := h.found hpolicy
  obtain ⟨hprotected, hrate, hcooldown, hbounds⟩ := hclear p hp
  -- the checks do not look at whether the policy was validated
  have hrate : checkRateLimit p.unvalidated (rails.recent own input) = false := hrate
  have hcooldown : rails.coolingDown own p.unvalidated input = false := hcooldown
  have hbounds : checkScaleBounds p.unvalidated input = false := hbounds
  rw [hsame] at hrate hcooldown hbounds
  exact ⟨hprotected, checkRateLimit_mono hrate h.recent, h.coolingDown policy hcooldown, hbounds⟩

theorem mem_blockers {toLowerCase : String → String} {rateLimited coolingDown : Bool}
    {reason : Reason}
    (h : reason ∈ blockers toLowerCase policy input rateLimited coolingDown) :
    (reason = .protectedComponent → isProtected toLowerCase input = true) ∧
      (reason = .rateLimit → rateLimited = true) ∧ (reason = .cooldown → coolingDown = true) ∧
      (reason = .scaleBounds → checkScaleBounds policy input = true) := by
  unfold blockers at h
  obtain ⟨ground, hground, hsome⟩ := List.mem_filterMap.mp h
  split at hsome
  case isFalse => cases hsome
  case isTrue hholds =>
    obtain rfl := Option.some.inj hsome
    simp only [List.mem_cons, List.not_mem_nil, or_false] at hground
    rcases hground with rfl | rfl | rfl | rfl | rfl | rfl | rfl | rfl | rfl <;> simp_all

/-- A decision that does not block has found none of the grounds. -/
theorem of_not_blocked {toLowerCase : String → String} {rateLimited coolingDown : Bool}
    (h : (decision toLowerCase policy input rateLimited coolingDown).blocked = false) :
    isProtected toLowerCase input = false ∧ rateLimited = false ∧ coolingDown = false ∧
      checkScaleBounds policy input = false := by
  unfold decision blockers at h
  simp only [ne_eq, decide_not, Bool.not_eq_false', decide_eq_true_eq,
    List.filterMap_eq_nil_iff, List.forall_mem_cons] at h
  obtain ⟨-, -, -, -, hprotected, -, hrate, hcooldown, hbounds, -⟩ := h
  simp_all

/-! ## Writes -/

theorem countP_set_le {p : RemediationAction → Bool} (hrow : p row = false) (id : Nat) :
    (actions.set id row).countP p ≤ actions.countP p := by
  by_cases hid : id < actions.length
  · rw [List.countP_set hid, hrow]
    simp only [Bool.false_eq_true, if_false]
    omega
  · rw [List.set_eq_of_length_le (by omega)]

/-- The rows that weigh are among those that weighed. -/
theorem Calmer.of_actions (hpolicies : rails'.policies = rails.policies)
    (hnow : rails'.now = rails.now)
    (hcount : ∀ p : RemediationAction → Bool, (∀ row, p row = true → Weighs own' input row) →
      rails'.actions.countP p ≤ rails.actions.countP p)
    (hrows : ∀ row ∈ rails'.actions, Weighs own' input row → row ∈ rails.actions)
    (hown : ∀ row ∈ rails.actions, Weighs own' input row → Weighs own input row) :
    Calmer own own' input rails rails' := by
  constructor
  case policies => rw [hpolicies]
  case recent =>
    rw [recent_eq_countP, recent_eq_countP, hnow]
    refine (hcount _ fun row hp => ?_).trans (List.countP_mono_left fun row hrow hp => ?_)
    · exact of_decide_eq_true (Bool.and_eq_true _ _ ▸ hp).1
    · rw [Bool.and_eq_true] at hp ⊢
      exact ⟨decide_eq_true (hown row hrow (of_decide_eq_true hp.1)), hp.2⟩
  case coolingDown =>
    intro policy hcooldown
    rw [coolingDown_eq_false] at hcooldown ⊢
    intro hpositive row hrow hweighs hsuccess
    have hold := hrows row hrow hweighs
    rw [hnow]
    exact hcooldown hpositive row hold (hown row hold hweighs) hsuccess

theorem Calmer.setStatus (own : Option Nat) (input : SafetyEvaluationInput)
    (h : ∀ row, rails.actions[id]? = some row → ¬ Weighs own input { row with status }) :
    Calmer own own input rails (rails.setStatus id status) := by
  unfold Rails.setStatus
  split
  case h_1 => exact ⟨rfl, Nat.le_refl _, fun _ hcooldown => hcooldown⟩
  case h_2 row hrow =>
    refine .of_actions rfl rfl (fun p hp => ?_) (fun x hx hweighs => ?_) fun _ _ hw => hw
    · refine countP_set_le (eq_false_of_ne_true fun hcounts => ?_) id
      exact h row hrow (hp _ hcounts)
    · rcases List.mem_or_eq_of_mem_set hx with hold | rfl
      · exact hold
      · exact absurd hweighs (h row hrow)

theorem Calmer.insert (hnew : ¬ Weighs own' input action)
    (hown : ∀ row ∈ rails.actions, Weighs own' input row → Weighs own input row) :
    Calmer own own' input rails (rails.insert action) := by
  refine .of_actions rfl rfl (fun p hp => ?_) (fun row hrow hweighs => ?_) hown
  · show (rails.actions ++ [action]).countP p ≤ _
    rw [List.countP_append, List.countP_singleton, if_neg fun hcounts => hnew (hp _ hcounts)]
    exact Nat.le_refl _
  · rcases List.mem_append.mp hrow with hold | hlast
    · exact hold
    · exact absurd (List.mem_singleton.mp hlast ▸ hweighs) hnew

/-- A policy is saved that has not changed but for its validation. -/
theorem Calmer.savePolicy (own : Option Nat) (input : SafetyEvaluationInput)
    (h : ∀ p ∈ rails.policies, p.id = policy.id → policy.unvalidated = p.unvalidated) :
    Calmer own own input rails (rails.savePolicy policy) := by
  refine ⟨?_, Nat.le_refl _, fun _ hcooldown => hcooldown⟩
  show (update (·.id = policy.id) (fun _ => policy) rails.policies).map _ = _
  unfold update
  rw [List.map_map]
  refine List.map_congr_left fun p hp => ?_
  show RemediationPolicy.unvalidated (if _ then policy else p) = p.unvalidated
  split
  case isTrue hid => exact h p hp (of_decide_eq_true hid)
  case isFalse => rfl

/-- Time only loosens the limits. -/
theorem Calmer.pass (own : Option Nat) (input : SafetyEvaluationInput) (ms : Nat)
    (hpast : ∀ row ∈ rails.actions, row.createdAt ≤ rails.now) :
    Calmer own own input rails { rails with now := rails.now + ms } := by
  constructor
  case policies => rfl
  case recent =>
    rw [recent_eq_countP, recent_eq_countP]
    refine List.countP_mono_left fun row hrow hp => ?_
    have := hpast row hrow
    simp only [Bool.and_eq_true, decide_eq_true_eq] at hp ⊢
    exact ⟨hp.1, by omega, by omega⟩
  case coolingDown =>
    intro policy hcooldown
    rw [coolingDown_eq_false] at hcooldown ⊢
    intro hpositive row hrow hweighs hsuccess
    have := hcooldown hpositive row hrow hweighs hsuccess
    show _ ≤ rails.now + ms - row.createdAt
    omega

end AgriFi.SelfHealing
