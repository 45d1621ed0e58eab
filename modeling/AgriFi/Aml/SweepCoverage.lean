import AgriFi.Aml.CaseBooks
import AgriFi.Aml.TransactionMonitoring
import Mathlib.Data.List.Chain
import Mathlib.Tactic.MkIffOfInductiveProp

/-
  What a run of sweeps covers. A finding of the structuring rule is known by the bucket of time that
  it starts in: the detector matches the first window of a bucket only, and a sweep raises one alert
  for a bucket in all, so that inflows which come later in a bucket can satisfy the rule without an
  alert (`cluster_missed`). `sweeps_cover`: in a run without gaps every suspicious set leads to its
  alert exactly when one of its uncovered inflows is in a matched window that has an inflow in the
  sweep's window, reaches the threshold, and whose bucket no alert was raised for; and repeating a
  sweep raises nothing.
-/

namespace AgriFi.Aml

open AgriFi.Firsts AgriFi.Rows AgriFi.Runs

/-! ## What is claimed -/

/-- A set of inflows of a user that satisfies the rule, in the order of time. -/
@[mk_iff] structure Cluster (m : Monitoring) (rule : AmlMonitoringRule) (userId : String)
    (flows : List CashFlow) : Prop where
  inflows : ∀ f ∈ flows, f ∈ m.history ∧ f.userId = userId ∧ f.direction = .inflow
  distinct : flows.Nodup
  sorted : flows.Pairwise fun f g => f.time ≤ g.time
  individual : ∀ f ∈ flows, f.amountUsd ≤ rule.maxIndividual
  count : rule.minCount ≤ flows.length
  together : ∀ f ∈ flows, ∀ g ∈ flows, g.time - f.time ≤ rule.windowHours * HOUR_MS
  reaches : rule.aggregate ≤ sumUsd flows

/-- An alert of the rule has the movement. -/
def Covered (s : CaseState) (rule : AmlMonitoringRule) (flow : CashFlow) : Prop :=
  ∃ alert ∈ s.alerts, alert.ruleCode = rule.ruleCode ∧ flow.id ∈ alert.flowIds

/-- The rule is applied to the movements of the user, and what is found is stored. -/
@[mk_iff] structure Monitoring.Watches (m : Monitoring) (s : CaseState) (options : SweepOptions)
    (rule : AmlMonitoringRule) (userId : String) : Prop where
  isEnabled : m.isEnabled = true
  stored : options.dryRun = false
  rule : rule ∈ activeFlowRules s ∧ rule.patternType = .STRUCTURING
  user : options.wants userId = true ∧ userId ≠ ""

/-- A set that the sweep has to raise an alert for. -/
@[mk_iff] structure Suspect (m : Monitoring) (s : CaseState) (options : SweepOptions)
    (rule : AmlMonitoringRule) (userId : String) (flows : List CashFlow) : Prop where
  watched : m.Watches s options rule userId
  cluster : Cluster m rule userId flows
  uncovered : ∃ f ∈ flows, ¬Covered s rule f
  last : ∃ f ∈ flows.getLast?, f.within options.fromTime options.toTime = true
  score : rule.alertThresholdScore ≤ rule.structuringScore m.detectors.log10 (sumUsd flows)

section Decidable

variable (m : Monitoring) (s : CaseState) (options : SweepOptions) (rule : AmlMonitoringRule)
  (userId : String) (flows : List CashFlow) (flow : CashFlow)

instance : Decidable (Cluster m rule userId flows) := decidable_of_iff _ (cluster_iff ..).symm

instance : Decidable (Covered s rule flow) := by
  unfold Covered
  infer_instance

instance : Decidable (m.Watches s options rule userId) :=
  decidable_of_iff _ (Monitoring.watches_iff ..).symm

instance : Decidable (Suspect m s options rule userId flows) :=
  decidable_of_iff _ (suspect_iff ..).symm

end Decidable

/-- A new alert of the rule and the user has one of the uncovered inflows. -/
def LeadsToAlert (s s' : CaseState) (rule : AmlMonitoringRule) (userId : String)
    (flows : List CashFlow) : Prop :=
  ∃ f ∈ flows, ¬Covered s rule f ∧ ∃ alert ∈ s'.alerts,
    alert.ruleCode = rule.ruleCode ∧ alert.userId = some userId ∧ f.id ∈ alert.flowIds

instance (s s' : CaseState) (rule : AmlMonitoringRule) (userId : String) (flows : List CashFlow) :
    Decidable (LeadsToAlert s s' rule userId flows) := by
  unfold LeadsToAlert
  infer_instance

/-- Each window starts before the one before it ends. -/
def GapFree (sweeps : List SweepOptions) : Prop :=
  sweeps.IsChain fun a b => b.fromTime ≤ a.toTime

/-- The same window and user. -/
structure Repeats (a b : SweepOptions) : Prop where
  fromTime : b.fromTime = a.fromTime
  toTime : b.toTime = a.toTime
  userId : b.userId = a.userId

structure SweepCoverage (m : Monitoring) (xs : List (Step CaseState SweepOptions)) : Prop where
  alerted : ∀ x ∈ xs, ∀ rule userId flows, Suspect m x.pre x.act rule userId flows →
    LeadsToAlert x.pre x.post rule userId flows
  reached : ∀ first ∈ xs.head?, ∀ last ∈ xs.getLast?, ∀ flow : CashFlow,
    flow.within first.act.fromTime last.act.toTime = true →
      ∃ x ∈ xs, flow.within x.act.fromTime x.act.toTime = true
  repeated : ∀ before x between y after, xs = before ++ x :: between ++ y :: after →
    x.act.dryRun = false → Repeats x.act y.act → y.post = y.pre

/-! ## When it holds -/

/-- The movements of the user that the sweep reads. -/
def Monitoring.flowsSeen (m : Monitoring) (s : CaseState) (options : SweepOptions)
    (userId : String) : List CashFlow :=
  flowsOf (m.loaded s options) userId

/-- A window that qualifies, while none before it that shares its bucket does. -/
def Matched (rule : AmlMonitoringRule) (flows window : List CashFlow) : Prop :=
  ∃ before after, windows rule.windowHours (rule.inFlows flows) = before ++ window :: after ∧
    rule.qualifies window = true ∧ ∀ earlier ∈ before, rule.qualifies earlier = true →
      rule.structuringKey earlier ≠ rule.structuringKey window

/-- What the sweep reports. -/
structure Reported (m : Monitoring) (s : CaseState) (options : SweepOptions)
    (rule : AmlMonitoringRule) (userId : String) (window : List CashFlow) : Prop where
  first : Matched rule (m.flowsSeen s options userId) window
  inside : ∃ f ∈ window, ∃ g ∈ m.flowsSeen s options userId,
    g.within options.fromTime options.toTime = true ∧ g.id = f.id
  fresh : rule.structuringKey window ∉ s.alerts.map (·.dedupeKey)
  score : rule.alertThresholdScore ≤ rule.structuringScore m.detectors.log10 (sumUsd window)

/-- An uncovered inflow of the set is reported. -/
def Reaches (m : Monitoring) (s : CaseState) (options : SweepOptions) (rule : AmlMonitoringRule)
    (userId : String) (flows : List CashFlow) : Prop :=
  ∃ f ∈ flows, ¬Covered s rule f ∧ ∃ window, Reported m s options rule userId window ∧
    f.id ∈ window.map (·.id)

/-! ## The findings of a sweep -/

section Findings

variable {m : Monitoring} {s : CaseState} {options : SweepOptions} {rule : AmlMonitoringRule}
  {rules : List AmlMonitoringRule} {userId : String} {flows window : List CashFlow}
  {c c' : Candidate} {f : CashFlow} {n : Int}

theorem mem_flowsOf : f ∈ flowsOf flows userId ↔ f ∈ flows ∧ f.userId = userId := by
  rw [flowsOf, sortByTime, List.mem_insertionSort, List.mem_filter, decide_eq_true_iff]

theorem mem_structuringWindows : window ∈ rule.structuringWindows flows ↔
    Matched rule flows window := by
  rw [AmlMonitoringRule.structuringWindows, mem_firsts_iff]
  simp [Matched]

/-- The key of a matched window names the user. -/
theorem structuringKey_eq (h : window ∈ rule.structuringWindows (flowsOf flows userId)) :
    ∃ bucket, rule.structuringKey window = .structuring rule.ruleCode userId bucket := by
  obtain ⟨hsub, hne⟩ := windows_sublist (mem_firsts h).1
  cases window with
  | nil => exact absurd rfl hne
  | cons first rest =>
    have hfirst : first ∈ flowsOf flows userId :=
      mem_inFlows (hsub.subset (List.mem_cons_self ..))
    exact ⟨_, by rw [AmlMonitoringRule.structuringKey, (mem_flowsOf.mp hfirst).2]⟩

theorem mem_activeFlowRules : rule ∈ activeFlowRules s ↔ rule ∈ s.rules ∧ rule.enabled = true ∧
    rule.patternType ≠ .SANCTIONS_MATCH ∧ rule.patternType ≠ .PEP_MATCH := by
  simp [activeFlowRules, and_assoc]

theorem inside_iff {found : PatternMatch} : found.inside flows = true ↔
    ∃ id ∈ found.flowIds, ∃ f ∈ flows, f.id = id := by
  simp [PatternMatch.inside]

theorem mem_candidates : c ∈ m.candidates s options ↔ ∃ rule ∈ activeFlowRules s,
    c.found ∈ runDetector m.detectors rule (m.flowsSeen s options c.userId) (m.country c.userId) ∧
      c.found.inside ((m.flowsSeen s options c.userId).filter
        (·.within options.fromTime options.toTime)) = true := by
  unfold Monitoring.candidates Monitoring.evaluate groupByUser
  rw [List.mem_flatMap]
  constructor
  · rintro ⟨bucket, hbucket, hc⟩
    obtain ⟨userId, -, rfl⟩ := List.mem_map.mp hbucket
    dsimp only at hc
    split at hc
    · cases hc
    · obtain ⟨rule, hrule, hc⟩ := List.mem_flatMap.mp hc
      obtain ⟨found, hfound, rfl⟩ := List.mem_map.mp hc
      exact ⟨rule, hrule, List.mem_filter.mp hfound⟩
  · rintro ⟨rule, hrule, hfound, hinside⟩
    refine ⟨(c.userId, m.flowsSeen s options c.userId), ?_, ?_⟩
    · obtain ⟨-, -, f, hf, -⟩ := inside_iff.mp hinside
      obtain ⟨hmem, huser⟩ := mem_flowsOf.mp (List.mem_of_mem_filter hf)
      refine List.mem_map.mpr ⟨c.userId, ?_, rfl⟩
      rw [List.mem_eraseDups]
      exact List.mem_map.mpr ⟨f, hmem, huser⟩
    · dsimp only
      split
      · next hnone =>
        obtain ⟨-, -, f, hf, -⟩ := inside_iff.mp hinside
        rw [hnone] at hf
        cases hf
      · refine List.mem_flatMap.mpr ⟨rule, hrule, List.mem_map.mpr ⟨c.found, ?_, rfl⟩⟩
        exact List.mem_filter.mpr ⟨hfound, hinside⟩

/-- The findings of the structuring rule are its matched windows with an inflow in the sweep's
    window. -/
theorem structuring_candidate (hcodes : (s.rules.map (·.ruleCode)).Nodup)
    (hrule : rule ∈ activeFlowRules s) (hpattern : rule.patternType = .STRUCTURING) :
    c ∈ m.candidates s options ∧ c.found.ruleCode = rule.ruleCode ↔
      ∃ window ∈ rule.structuringWindows (m.flowsSeen s options c.userId),
        c.found = rule.structuringMatch m.detectors.log10 window ∧
          ∃ f ∈ window, ∃ g ∈ m.flowsSeen s options c.userId,
            g.within options.fromTime options.toTime = true ∧ g.id = f.id := by
  have henabled : rule.enabled = true := (mem_activeFlowRules.mp hrule).2.1
  have hinside : ∀ {window : List CashFlow},
      (rule.structuringMatch m.detectors.log10 window).inside ((m.flowsSeen s options c.userId).filter
        (·.within options.fromTime options.toTime)) = true ↔
      ∃ f ∈ window, ∃ g ∈ m.flowsSeen s options c.userId,
        g.within options.fromTime options.toTime = true ∧ g.id = f.id := by
    intro window
    rw [inside_iff]
    constructor
    · rintro ⟨id, hid, g, hg, hgid⟩
      obtain ⟨f, hf, rfl⟩ := List.mem_map.mp hid
      obtain ⟨hseen, hwithin⟩ := List.mem_filter.mp hg
      exact ⟨f, hf, g, hseen, hwithin, hgid⟩
    · rintro ⟨f, hf, g, hseen, hwithin, hgid⟩
      exact ⟨f.id, List.mem_map_of_mem hf, g, List.mem_filter.mpr ⟨hseen, hwithin⟩, hgid⟩
  rw [mem_candidates]
  constructor
  · rintro ⟨⟨rule', hrule', hfound, hin⟩, hcode⟩
    have hmem := (mem_activeFlowRules.mp hrule').1
    obtain rfl := List.inj_on_of_nodup_map hcodes hmem (mem_activeFlowRules.mp hrule).1
      ((runDetector_rule hfound).2.symm.trans hcode)
    rw [runDetector_structuring henabled hpattern] at hfound
    obtain ⟨window, hwindow, heq⟩ := List.mem_map.mp hfound
    rw [← heq] at hin
    exact ⟨window, hwindow, heq.symm, hinside.mp hin⟩
  · rintro ⟨window, hwindow, heq, hin⟩
    refine ⟨⟨rule, hrule, ?_, ?_⟩, by rw [heq]; rfl⟩
    · rw [runDetector_structuring henabled hpattern, heq]
      exact List.mem_map_of_mem hwindow
    · rw [heq]
      exact hinside.mpr hin

/-- No two findings share a key of the structuring rule. -/
theorem candidate_alone (hcodes : (s.rules.map (·.ruleCode)).Nodup)
    (hrule : rule ∈ activeFlowRules s) (hpattern : rule.patternType = .STRUCTURING)
    (hwindow : window ∈ rule.structuringWindows (m.flowsSeen s options userId))
    (hc : c ∈ m.candidates s options)
    (hkey : c.found.dedupeKey = rule.structuringKey window) :
    c = ⟨rule.structuringMatch m.detectors.log10 window, userId⟩ := by
  obtain ⟨bucket, hbucket⟩ := structuringKey_eq hwindow
  obtain ⟨rule', hrule', hfound, -⟩ := mem_candidates.mp hc
  have hcode : c.found.ruleCode = rule.ruleCode := by
    by_cases hpattern' : rule'.patternType = .STRUCTURING
    · have henabled := (mem_activeFlowRules.mp hrule').2.1
      rw [runDetector_structuring henabled hpattern'] at hfound
      obtain ⟨window', hwindow', heq⟩ := List.mem_map.mp hfound
      obtain ⟨bucket', hbucket'⟩ := structuringKey_eq hwindow'
      have hkeys : rule'.structuringKey window' = rule.structuringKey window := by
        rw [← hkey, ← heq]
        rfl
      rw [hbucket', hbucket] at hkeys
      rw [← heq]
      exact (DedupeKey.structuring.inj hkeys).1
    · obtain ⟨text, htext⟩ := runDetector_other hpattern' hfound
      rw [htext, hbucket] at hkey
      cases hkey
  obtain ⟨window', hwindow', heq, -⟩ :=
    (structuring_candidate hcodes hrule hpattern).mp ⟨hc, hcode⟩
  obtain ⟨bucket', hbucket'⟩ := structuringKey_eq hwindow'
  have hkeys : rule.structuringKey window' = rule.structuringKey window := by
    rw [← hkey, heq]
    rfl
  have huser : c.userId = userId := by
    rw [hbucket', hbucket] at hkeys
    exact (DedupeKey.structuring.inj hkeys).2.1
  rw [huser] at hwindow'
  obtain rfl := List.inj_on_of_nodup_map nodup_keys_firsts hwindow' hwindow hkeys
  rw [← heq, ← huser]

theorem belowThreshold_eq (hids : (rules.map (·.id)).Nodup) (hrule : rule ∈ rules)
    (hid : c.found.ruleId = rule.id) :
    c.belowThreshold rules = decide ((c.found.riskScore : Int) < rule.alertThresholdScore) := by
  obtain ⟨found, hfound⟩ : ∃ found, rules.find? (·.id = c.found.ruleId) = some found := by
    rw [← Option.isSome_iff_exists, List.find?_isSome]
    exact ⟨rule, hrule, by simp [hid]⟩
  have hsame : found.id = rule.id := by
    have := List.find?_some hfound
    simpa [hid] using this
  obtain rfl := List.inj_on_of_nodup_map hids (List.mem_of_find?_eq_some hfound) hrule hsame
  rw [Candidate.belowThreshold, hfound, Option.any_some]

end Findings

/-! ## The alerts of a sweep -/

/-- What an alert keeps of its finding, whatever is done with it. -/
structure Finding where
  ruleCode : String
  userId : Option String
  dedupeKey : DedupeKey
  flowIds : List String
  deriving DecidableEq

def AmlAlert.finding (alert : AmlAlert) : Finding :=
  ⟨alert.ruleCode, alert.userId, alert.dedupeKey, alert.flowIds⟩

def Candidate.finding (c : Candidate) : Finding :=
  ⟨c.found.ruleCode, some c.userId, c.found.dedupeKey, c.found.flowIds⟩

/-- What a sweep keeps of the tables. -/
structure Kept (s : CaseState) : Prop where
  books : Inv s
  settled : Settled s

/-- The tables after an alert was saved for each of the candidates. -/
structure Raised (s s' : CaseState) (cs : List Candidate) : Prop where
  kept : Kept s'
  rules : s'.rules = s.rules
  findings : s'.alerts.map (·.finding) = s.alerts.map (·.finding) ++ cs.map (·.finding)

section Alerts

variable {m : Monitoring} {s s' u : CaseState} {options : SweepOptions} {sweep sweep' : Sweep}
  {rules : List AmlMonitoringRule} {cs ds : List Candidate} {c : Candidate} {now : Int}

theorem Raised.refl (h : Kept s) : Raised s s [] := ⟨h, rfl, (List.append_nil _).symm⟩

theorem Raised.trans (h : Raised s s' cs) (h' : Raised s' u ds) : Raised s u (cs ++ ds) := by
  refine ⟨h'.kept, h'.rules.trans h.rules, ?_⟩
  rw [h'.findings, h.findings, List.map_append, List.append_assoc]

theorem Kept.createAlert (h : Kept s) : Raised s (s.createAlert c.alert) [c] := by
  obtain ⟨hinv, hsettled, -⟩ :=
    next_keeps (a := .createAlert c.alert) h.books h.settled trivial rfl
  refine ⟨⟨hinv, hsettled⟩, rfl, ?_⟩
  rw [CaseState.createAlert, List.map_append]
  rfl

theorem createCase_eq_ok {dto : CreateAmlCaseDto} {actorId : Option String}
    {created : CaseState × AmlCase} (hok : createCase s dto actorId now = .ok created) :
    created.1.rules = s.rules ∧
      created.1.alerts.map (·.finding) = s.alerts.map (·.finding) := by
  unfold createCase at hok
  dsimp only at hok
  split at hok
  · cases hok
  split at hok
  · cases hok
  cases hok
  exact ⟨rfl, map_update fun alert => rfl⟩

/-- A case for the newest alert is opened whenever that alert has none. -/
theorem Kept.createCase {alert : AmlAlert} {alerts : List AmlAlert} {userId : Option String}
    (now : Int) (h : Kept s) (hlast : s.alerts = alerts ++ [alert]) (hcase : alert.caseId = none)
    (hreviewed : alert.reviewedAt = none) :
    ∃ created, Aml.createCase s ⟨[alerts.length], userId, none⟩ none now = .ok created ∧
      Raised s created.1 [] := by
  have hids : alerts.map (·.id) = List.range alerts.length ∧ [alert.id] = [alerts.length] := by
    have hall := h.books.ids.alerts
    rw [hlast, List.map_append, List.length_append] at hall
    exact List.append_inj' (hall.trans List.range_succ) rfl
  have hid : alert.id = alerts.length := List.singleton_inj.mp hids.2
  have hold : ∀ a ∈ alerts, a.id ∉ [alerts.length] := by
    intro a ha hmem
    have hlt : a.id ∈ alerts.map (·.id) := List.mem_map_of_mem ha
    rw [hids.1, List.mem_range, List.mem_singleton.mp hmem] at hlt
    exact Nat.lt_irrefl _ hlt
  have hfound : s.found [alerts.length] = [alert] := by
    rw [CaseState.found, hlast, List.filter_append,
      List.filter_eq_nil_iff.mpr fun a ha => by simpa using hold a ha]
    simp [hid]
  have hcreated : ∃ created, Aml.createCase s ⟨[alerts.length], userId, none⟩ none now =
      .ok created := by
    unfold Aml.createCase
    dsimp only
    rw [hfound, if_neg (by simp), if_neg (by simp [hcase])]
    exact ⟨_, rfl⟩
  obtain ⟨created, hok⟩ := hcreated
  have hfresh : ∀ a ∈ s.found [alerts.length], a.reviewedAt = none := by
    intro a ha
    rw [hfound] at ha
    rwa [List.mem_singleton.mp ha]
  obtain ⟨hinv, hsettled, -⟩ := createCase_keeps h.books h.settled hfresh hok
  refine ⟨created, hok, ⟨hinv, hsettled⟩, ?_, ?_⟩
  · exact (createCase_eq_ok hok).1
  · rw [(createCase_eq_ok hok).2, List.map_nil, List.append_nil]

theorem raise_ok (m : Monitoring) (now : Int) (c : Candidate) (sweep : Sweep)
    (h : Kept sweep.state) : ∃ sweep', m.raise now sweep c = .ok sweep' ∧
    sweep'.seen = sweep.seen ∧ Raised sweep.state sweep'.state [c] := by
  have halert := h.createAlert (c := c)
  unfold Monitoring.raise
  dsimp only
  split
  · obtain ⟨created, hok, hraised⟩ := halert.kept.createCase now rfl rfl rfl
    rw [hok]
    exact ⟨_, rfl, rfl, halert.trans hraised⟩
  · exact ⟨_, rfl, rfl, halert⟩

/-- Which candidates the loop raises an alert for. -/
def raisedOf (rules : List AmlMonitoringRule) (seen : List DedupeKey) (cs : List Candidate) :
    List Candidate :=
  firsts (·.found.dedupeKey) (fun c => !c.belowThreshold rules) seen cs

theorem handleAll_ok (m : Monitoring) (rules : List AmlMonitoringRule) (cs : List Candidate)
    (sweep : Sweep) (h : Kept sweep.state) (hstored : options.dryRun = false) :
    ∃ sweep', m.handleAll rules options cs sweep = .ok sweep' ∧
      Raised sweep.state sweep'.state (raisedOf rules sweep.seen cs) := by
  induction cs generalizing sweep with
  | nil => exact ⟨sweep, rfl, .refl h⟩
  | cons c cs ih =>
    have hdry : ¬options.dryRun = true := by simp [hstored]
    unfold Monitoring.handleAll Monitoring.handle raisedOf
    rw [firsts]
    by_cases hseen : c.found.dedupeKey ∈ sweep.seen
    · have hskip : ¬((!c.belowThreshold rules) = true ∧ c.found.dedupeKey ∉ sweep.seen) :=
        fun htaken => htaken.2 hseen
      rw [if_pos hseen, if_neg hskip]
      exact ih { sweep with alertsSkippedDuplicate := sweep.alertsSkippedDuplicate + 1 } h
    rw [if_neg hseen]
    by_cases hbelow : c.belowThreshold rules = true
    · have hskip : ¬((!c.belowThreshold rules) = true ∧ c.found.dedupeKey ∉ sweep.seen) := by
        rw [hbelow]
        exact fun htaken => Bool.noConfusion htaken.1
      rw [if_pos hbelow, if_neg hskip]
      exact ih { sweep with alertsBelowThreshold := sweep.alertsBelowThreshold + 1 } h
    have htaken : (!c.belowThreshold rules) = true ∧ c.found.dedupeKey ∉ sweep.seen :=
      ⟨by simpa using hbelow, hseen⟩
    rw [if_neg hbelow, if_pos htaken]
    dsimp only
    rw [if_neg hdry]
    obtain ⟨sweep₁, hraise, hseen₁, hraised₁⟩ :=
      raise_ok m options.now c { sweep with seen := c.found.dedupeKey :: sweep.seen } h
    obtain ⟨sweep', hrest, hraised⟩ := ih sweep₁ hraised₁.kept
    rw [hraise]
    rw [hseen₁] at hraised
    exact ⟨sweep', hrest, hraised₁.trans hraised⟩

/-- A loop that raises nothing, or only counts, leaves the tables as they are. -/
theorem handleAll_idle (m : Monitoring) (sweep : Sweep)
    (h : options.dryRun = true ∨ raisedOf rules sweep.seen cs = []) :
    ∃ sweep', m.handleAll rules options cs sweep = .ok sweep' ∧ sweep'.state = sweep.state := by
  induction cs generalizing sweep with
  | nil => exact ⟨sweep, rfl, rfl⟩
  | cons c cs ih =>
    unfold raisedOf at h
    rw [firsts] at h
    rw [Monitoring.handleAll, Monitoring.handle]
    by_cases hseen : c.found.dedupeKey ∈ sweep.seen
    · have hskip : ¬((!c.belowThreshold rules) = true ∧ c.found.dedupeKey ∉ sweep.seen) :=
        fun htaken => htaken.2 hseen
      rw [if_neg hskip] at h
      rw [if_pos hseen]
      exact ih { sweep with alertsSkippedDuplicate := sweep.alertsSkippedDuplicate + 1 } h
    rw [if_neg hseen]
    by_cases hbelow : c.belowThreshold rules = true
    · have hskip : ¬((!c.belowThreshold rules) = true ∧ c.found.dedupeKey ∉ sweep.seen) := by
        rw [hbelow]
        exact fun htaken => Bool.noConfusion htaken.1
      rw [if_neg hskip] at h
      rw [if_pos hbelow]
      exact ih { sweep with alertsBelowThreshold := sweep.alertsBelowThreshold + 1 } h
    have htaken : (!c.belowThreshold rules) = true ∧ c.found.dedupeKey ∉ sweep.seen :=
      ⟨by simpa using hbelow, hseen⟩
    rw [if_pos htaken] at h
    have hdry : options.dryRun = true := h.resolve_right (List.cons_ne_nil _ _)
    rw [if_neg hbelow]
    dsimp only
    rw [if_pos hdry]
    exact ih { sweep with
      seen := c.found.dedupeKey :: sweep.seen
      alertsRaised := sweep.alertsRaised + 1 } (.inl hdry)

end Alerts

/-! ## One sweep -/

section Step

variable {m : Monitoring} {s s' : CaseState} {options : SweepOptions} {rule : AmlMonitoringRule}
  {userId : String} {flows window : List CashFlow} {c : Candidate}

/-- The candidates that a sweep raises alerts for. -/
def Monitoring.raisedBy (m : Monitoring) (s : CaseState) (options : SweepOptions) :
    List Candidate :=
  raisedOf (activeFlowRules s) (m.begin s options).seen (m.candidates s options)

theorem next_idle (h : m.isEnabled = false ∨ options.dryRun = true ∨ m.raisedBy s options = []) :
    m.next s options = some s := by
  rw [Monitoring.next, Monitoring.runSweep]
  by_cases henabled : m.isEnabled = false
  · rw [if_pos henabled]
    rfl
  · rw [if_neg henabled]
    obtain ⟨sweep', hok, hstate⟩ := handleAll_idle m (m.begin s options)
      (h.resolve_left henabled)
    dsimp only
    rw [hok]
    show some sweep'.state = some s
    rw [hstate]
    rfl

theorem next_stored (options : SweepOptions) (h : Kept s) (henabled : m.isEnabled = true)
    (hstored : options.dryRun = false) :
    ∃ s', m.next s options = some s' ∧ Raised s s' (m.raisedBy s options) := by
  obtain ⟨sweep', hok, hraised⟩ := handleAll_ok m (activeFlowRules s)
    (m.candidates s options) (m.begin s options) h hstored
  refine ⟨sweep'.state, ?_, hraised⟩
  rw [Monitoring.next, Monitoring.runSweep, if_neg (by simp [henabled])]
  dsimp only
  rw [hok]
  rfl

/-- No sweep fails, and what it does is to raise alerts, or nothing. -/
theorem next_raises (m : Monitoring) (options : SweepOptions) (h : Kept s) :
    ∃ s' cs, m.next s options = some s' ∧ Raised s s' cs := by
  by_cases hidle : m.isEnabled = false ∨ options.dryRun = true
  · have hnext : m.next s options = some s :=
      next_idle (hidle.imp_right fun hdry => Or.inl hdry)
    exact ⟨s, [], hnext, .refl h⟩
  · rw [not_or, Bool.not_eq_false, Bool.not_eq_true] at hidle
    obtain ⟨s', hnext, hraised⟩ := next_stored options h hidle.1 hidle.2
    exact ⟨s', _, hnext, hraised⟩

theorem mem_raisedBy : c ∈ m.raisedBy s options → c ∈ m.candidates s options ∧
    c.belowThreshold (activeFlowRules s) = false ∧
      c.found.dedupeKey ∉ s.alerts.map (·.dedupeKey) := by
  intro hc
  obtain ⟨hmem, hok, hnew⟩ := mem_firsts hc
  refine ⟨hmem, by simpa using hok, fun hstored => hnew ?_⟩
  refine List.mem_filter.mpr ⟨hstored, decide_eq_true ?_⟩
  exact List.mem_map.mpr ⟨c, hmem, rfl⟩

theorem fresh_begin (h : c.found.dedupeKey ∉ s.alerts.map (·.dedupeKey)) :
    c.found.dedupeKey ∉ (m.begin s options).seen :=
  fun hin => h (List.mem_of_mem_filter hin)

/-- The rules as the table promises them. -/
structure Unique (rules : List AmlMonitoringRule) : Prop where
  ids : (rules.map (·.id)).Nodup
  codes : (rules.map (·.ruleCode)).Nodup

theorem Unique.active (h : Unique s.rules) : ((activeFlowRules s).map (·.id)).Nodup :=
  h.ids.sublist (List.filter_sublist.map _)

/-- An alert of the rule and the user has a movement that none had before exactly when it is in a
    window that the sweep reports. -/
theorem raised_iff {f : CashFlow} (hunique : Unique s.rules)
    (hrule : rule ∈ activeFlowRules s ∧ rule.patternType = .STRUCTURING)
    (hraised : Raised s s' (m.raisedBy s options)) (huncovered : ¬Covered s rule f) :
    (∃ alert ∈ s'.alerts, alert.ruleCode = rule.ruleCode ∧ alert.userId = some userId ∧
      f.id ∈ alert.flowIds) ↔
    ∃ window, Reported m s options rule userId window ∧ f.id ∈ window.map (·.id) := by
  constructor
  · rintro ⟨alert, halert, hcode, huser, hid⟩
    have hfinding : alert.finding ∈ s'.alerts.map (·.finding) := List.mem_map_of_mem halert
    rw [hraised.findings, List.mem_append] at hfinding
    rcases hfinding with hold | hnew
    · obtain ⟨old, hold, heq⟩ := List.mem_map.mp hold
      obtain ⟨hoc, -, -, hof⟩ := Finding.mk.inj heq
      exact absurd ⟨old, hold, hoc.trans hcode, by rw [hof]; exact hid⟩ huncovered
    · obtain ⟨c, hc, heq⟩ := List.mem_map.mp hnew
      obtain ⟨hcc, hcu, -, hcf⟩ := Finding.mk.inj heq
      obtain rfl : c.userId = userId := Option.some.inj (hcu.trans huser)
      obtain ⟨hmem, habove, hfresh⟩ := mem_raisedBy hc
      obtain ⟨window, hwindow, hmatch, hinside⟩ :=
        (structuring_candidate hunique.codes hrule.1 hrule.2).mp ⟨hmem, hcc.trans hcode⟩
      rw [belowThreshold_eq hunique.active hrule.1 (by rw [hmatch]; rfl),
        decide_eq_false_iff_not, Int.not_lt, hmatch] at habove
      rw [hmatch] at hfresh hcf
      refine ⟨window, ⟨mem_structuringWindows.mp hwindow, hinside, hfresh, habove⟩, ?_⟩
      rw [← hcf] at hid
      exact hid
  · rintro ⟨window, hreported, hid⟩
    have hwindow := mem_structuringWindows.mpr hreported.first
    obtain ⟨c, hc⟩ : ∃ c : Candidate,
        c = ⟨rule.structuringMatch m.detectors.log10 window, userId⟩ := ⟨_, rfl⟩
    have hcandidate : c ∈ m.candidates s options := by
      refine ((structuring_candidate hunique.codes hrule.1 hrule.2).mpr ?_).1
      rw [hc]
      exact ⟨window, hwindow, rfl, hreported.inside⟩
    have habove : c.belowThreshold (activeFlowRules s) = false := by
      rw [belowThreshold_eq hunique.active hrule.1 (by rw [hc]; rfl),
        decide_eq_false_iff_not, Int.not_lt, hc]
      exact hreported.score
    have hkey : c.found.dedupeKey = rule.structuringKey window := by rw [hc]; rfl
    have hmem : c ∈ m.raisedBy s options := by
      refine mem_firsts_of_alone hcandidate (by simp [habove]) ?_ fun c' hc' heq => ?_
      · refine fresh_begin ?_
        rw [hkey]
        exact hreported.fresh
      · rw [hc]
        exact candidate_alone hunique.codes hrule.1 hrule.2 hwindow hc' (heq.trans hkey)
    have hfinding : c.finding ∈ s'.alerts.map (·.finding) := by
      rw [hraised.findings]
      exact List.mem_append_right _ (List.mem_map_of_mem hmem)
    obtain ⟨alert, halert, heq⟩ := List.mem_map.mp hfinding
    obtain ⟨hcode, huser, -, hflows⟩ := Finding.mk.inj heq
    rw [hc] at hcode huser hflows
    refine ⟨alert, halert, hcode, huser, ?_⟩
    rw [hflows]
    exact hid

/-- A repetition finds the same. -/
theorem candidates_congr {again : SweepOptions} (hrules : s'.rules = s.rules)
    (h : Repeats options again) : m.candidates s' again = m.candidates s options := by
  have hactive : activeFlowRules s' = activeFlowRules s := by
    rw [activeFlowRules, hrules]
    rfl
  have hwants : again.wants = options.wants := by
    funext userId
    rw [SweepOptions.wants, h.userId]
    rfl
  unfold Monitoring.candidates Monitoring.loaded Monitoring.loadCashFlows
  rw [hactive, hwants, h.fromTime, h.toTime]

/-- Nothing is raised when the key of every finding that reaches its threshold is stored. -/
theorem raisedBy_eq_nil (h : ∀ c ∈ m.candidates s options,
    c.belowThreshold (activeFlowRules s) = false →
      c.found.dedupeKey ∈ s.alerts.map (·.dedupeKey)) : m.raisedBy s options = [] := by
  refine firsts_eq_nil fun c hc hok => ?_
  refine List.mem_filter.mpr ⟨h c hc (by simpa using hok), decide_eq_true ?_⟩
  exact List.mem_map.mpr ⟨c, hc, rfl⟩

theorem Raised.keys {cs : List Candidate} {key : DedupeKey} (h : Raised s s' cs) :
    key ∈ s'.alerts.map (·.dedupeKey) ↔
      key ∈ s.alerts.map (·.dedupeKey) ∨ ∃ c ∈ cs, c.found.dedupeKey = key := by
  have hof : ∀ u : CaseState,
      u.alerts.map (·.dedupeKey) = (u.alerts.map (·.finding)).map (·.dedupeKey) := by
    intro u
    rw [List.map_map]
    rfl
  rw [hof s', h.findings, List.map_append, ← hof s, List.mem_append, List.map_map]
  exact or_congr_right List.mem_map

/-- After a sweep the key of every finding that reaches its threshold is stored. -/
theorem Raised.stored (h : Raised s s' (m.raisedBy s options))
    (hc : c ∈ m.candidates s options) (habove : c.belowThreshold (activeFlowRules s) = false) :
    c.found.dedupeKey ∈ s'.alerts.map (·.dedupeKey) := by
  rw [h.keys]
  by_cases hold : c.found.dedupeKey ∈ s.alerts.map (·.dedupeKey)
  · exact .inl hold
  · exact .inr (exists_mem_firsts hc (by simp [habove]) (fresh_begin hold))

end Step

/-! ## Runs -/

theorem kept_start (rules : List AmlMonitoringRule) : Kept (.start rules) := by
  refine ⟨inv_start rules, ?_⟩
  intro c hc
  cases hc

/-- In windows without gaps there is no time that none of them has. -/
theorem GapFree.exists_window {sweeps : List SweepOptions} {first last : SweepOptions} {time : Int}
    (h : GapFree sweeps) (hfirst : sweeps.head? = some first) (hlast : sweeps.getLast? = some last)
    (hfrom : first.fromTime ≤ time) (hto : time ≤ last.toTime) :
    ∃ sweep ∈ sweeps, sweep.fromTime ≤ time ∧ time ≤ sweep.toTime := by
  induction sweeps generalizing first with
  | nil => cases hfirst
  | cons sweep rest ih =>
    obtain rfl := Option.some.inj hfirst
    by_cases hhere : time ≤ sweep.toTime
    · exact ⟨sweep, List.mem_cons_self .., hfrom, hhere⟩
    · cases rest with
      | nil =>
        obtain rfl := Option.some.inj hlast
        exact absurd hto hhere
      | cons next rest =>
        obtain ⟨hnext, hrest⟩ := List.isChain_cons_cons.mp h
        obtain ⟨found, hmem, hfound⟩ := ih hrest rfl hlast (by omega)
        exact ⟨found, List.mem_cons_of_mem _ hmem, hfound⟩

section Runs

variable {m : Monitoring} {rules : RuleTable} {xs : List (Step CaseState SweepOptions)}
  {s s' : CaseState}

theorem next_kept {options : SweepOptions} (h : Kept s) (hstep : m.next s options = some s') :
    ∃ cs, Raised s s' cs := by
  obtain ⟨u, cs, hnext, hraised⟩ := next_raises m options h
  obtain rfl := Option.some.inj (hnext.symm.trans hstep)
  exact ⟨cs, hraised⟩

theorem unique_start (rules : RuleTable) : Unique (CaseState.start rules.rows).rules := by
  constructor
  case ids =>
    rw [CaseState.start, List.map_map]
    exact rules.nodup_ids
  case codes =>
    rw [CaseState.start, List.map_map]
    exact rules.nodup_codes

theorem unique_kept (hrun : SweepRun m rules xs s) :
    ∀ x ∈ xs, m.next x.pre x.act = some x.post ∧ Kept x.pre ∧ Unique x.pre.rules := by
  intro x hx
  have hsteps := hrun.steps_invariant (fun s => Kept s ∧ Unique s.rules)
    ⟨kept_start _, unique_start rules⟩ ?_ x hx
  · exact ⟨hsteps.1, hsteps.2.1⟩
  · intro y _ hstep hpre
    obtain ⟨cs, hraised⟩ := next_kept hpre.1 hstep
    refine ⟨hraised.kept, ?_⟩
    rw [hraised.rules]
    exact hpre.2

/-- A later sweep of the same window and user finds every key stored. -/
theorem repeat_idle {before between after : List (Step CaseState SweepOptions)}
    {x y : Step CaseState SweepOptions}
    (hrun : SweepRun m rules (before ++ x :: between ++ y :: after) s)
    (hstored : x.act.dryRun = false) (hrepeats : Repeats x.act y.act) : y.post = y.pre := by
  obtain ⟨hy, hstep, -⟩ := run_split.mp hrun
  obtain ⟨-, hx, hbetween⟩ := run_split.mp hy
  suffices hidle : m.next y.pre y.act = some y.pre from
    Option.some.inj (hstep.symm.trans hidle)
  by_cases henabled : m.isEnabled = true
  · have hkept : Kept x.pre := (unique_kept hy x (by simp)).2.1
    obtain ⟨post, hnext, hraised⟩ := next_stored x.act hkept henabled hstored
    obtain rfl := Option.some.inj (hnext.symm.trans hx)
    -- carried from the first sweep to the second: its findings are stored
    obtain ⟨-, hrules, hkeys⟩ := hbetween.invariant
      (fun u => Kept u ∧ u.rules = x.pre.rules ∧ ∀ c ∈ m.candidates x.pre x.act,
        c.belowThreshold (activeFlowRules x.pre) = false →
          c.found.dedupeKey ∈ u.alerts.map (·.dedupeKey))
      ⟨hraised.kept, hraised.rules, fun c hc habove => hraised.stored hc habove⟩
      (by
        rintro z - hz ⟨hkept, hrules, hkeys⟩
        obtain ⟨cs, hraised⟩ := next_kept hkept hz
        exact ⟨hraised.kept, hraised.rules.trans hrules,
          fun c hc habove => hraised.keys.mpr (.inl (hkeys c hc habove))⟩)
    refine next_idle (.inr (.inr (raisedBy_eq_nil fun c hc habove => ?_)))
    rw [candidates_congr hrules hrepeats] at hc
    have hactive : activeFlowRules y.pre = activeFlowRules x.pre := by
      rw [activeFlowRules, hrules]
      rfl
    rw [hactive] at habove
    exact hkeys c hc habove
  · exact next_idle (.inl (by simpa using henabled))

theorem leads_iff {x : Step CaseState SweepOptions} {rule : AmlMonitoringRule} {userId : String}
    {flows : List CashFlow} (hrun : SweepRun m rules xs s) (hx : x ∈ xs)
    (h : Suspect m x.pre x.act rule userId flows) :
    LeadsToAlert x.pre x.post rule userId flows ↔ Reaches m x.pre x.act rule userId flows := by
  obtain ⟨hstep, hkept, hunique⟩ := unique_kept hrun x hx
  obtain ⟨post, hnext, hraised⟩ := next_stored _ hkept h.watched.isEnabled h.watched.stored
  obtain rfl := Option.some.inj (hnext.symm.trans hstep)
  unfold LeadsToAlert Reaches
  refine exists_congr fun f => and_congr_right fun _ => and_congr_right fun huncovered => ?_
  exact raised_iff hunique h.watched.rule hraised huncovered

/-- In a run without gaps, the sweeps cover what they have to exactly when each suspicious set has
    an uncovered inflow that is reported. -/
theorem sweeps_cover (hrun : SweepRun m rules xs s) (hgap : GapFree (xs.map (·.act))) :
    SweepCoverage m xs ↔ ∀ x ∈ xs, ∀ rule userId flows, Suspect m x.pre x.act rule userId flows →
      Reaches m x.pre x.act rule userId flows := by
  constructor
  · intro h x hx rule userId flows hsuspect
    exact (leads_iff hrun hx hsuspect).mp (h.alerted x hx rule userId flows hsuspect)
  · intro h
    constructor
    case alerted =>
      intro x hx rule userId flows hsuspect
      exact (leads_iff hrun hx hsuspect).mpr (h x hx rule userId flows hsuspect)
    case reached =>
      intro first hfirst last hlast flow hwithin
      rw [CashFlow.within, Bool.and_eq_true, decide_eq_true_iff, decide_eq_true_iff] at hwithin
      have hhead : (xs.map (·.act)).head? = some first.act := by
        rw [List.head?_map, Option.mem_def.mp hfirst]
        rfl
      have hend : (xs.map (·.act)).getLast? = some last.act := by
        rw [List.getLast?_map, Option.mem_def.mp hlast]
        rfl
      obtain ⟨options, hoptions, hfrom, hto⟩ :=
        hgap.exists_window hhead hend hwithin.1 hwithin.2
      obtain ⟨x, hx, rfl⟩ := List.mem_map.mp hoptions
      refine ⟨x, hx, ?_⟩
      rw [CashFlow.within, Bool.and_eq_true, decide_eq_true_iff, decide_eq_true_iff]
      exact ⟨hfrom, hto⟩
    case repeated =>
      rintro before x between y after rfl hstored hrepeats
      exact repeat_idle hrun hstored hrepeats

end Runs

/-! ## Inflows that share a bucket -/

/-- Three deposits of ten thousand dollars or more, each below it, within a day. -/
def structuringRule : AmlMonitoringRule :=
  ⟨0, "AML-MON-STRUCT-001", .STRUCTURING, .HIGH, true, 24, ⟨some 9500, some 10000, some 3⟩, 6500,
    5000, 100, 0, 0⟩

def structuringRules : RuleTable := ⟨[structuringRule], by decide, by decide⟩

/-- A deposit of four thousand dollars at an hour of the day. -/
def deposit (id : String) (hour : Int) : CashFlow :=
  ⟨id, "investor", .inflow, 4000, hour * HOUR_MS, none, none⟩

def evening : List CashFlow := [deposit "d" 19, deposit "e" 20, deposit "f" 21]

/-- Monitoring of deposits in the morning and in the evening. -/
def depositMonitoring : Monitoring where
  isEnabled := true
  autoCaseScore := some 70
  detectors := ⟨fun _ => 0, fun _ _ _ => [], by simp, by simp⟩
  country := fun _ => none
  history := [deposit "a" 7, deposit "b" 8, deposit "c" 9] ++ evening

/-- A sweep of the first half of the day, and one of the second. -/
def halves : List SweepOptions :=
  [⟨some 0, some (12 * HOUR_MS), none, false, 12 * HOUR_MS⟩,
    ⟨some (12 * HOUR_MS), some (24 * HOUR_MS), none, false, 24 * HOUR_MS⟩]

theorem sweeps_cover_halves :
    GapFree ((replay depositMonitoring.next (.start structuringRules.rows) halves).1.map (·.act)) ∧
    (SweepCoverage depositMonitoring
        (replay depositMonitoring.next (.start structuringRules.rows) halves).1 ↔
      ∀ x ∈ (replay depositMonitoring.next (.start structuringRules.rows) halves).1,
        ∀ rule userId flows, Suspect depositMonitoring x.pre x.act rule userId flows →
          Reaches depositMonitoring x.pre x.act rule userId flows) := by
  have hrun := run_replay depositMonitoring.next (.start structuringRules.rows) halves
  have hgap : GapFree
      ((replay depositMonitoring.next (.start structuringRules.rows) halves).1.map (·.act)) := by
    unfold GapFree
    decide +kernel
  exact ⟨hgap, sweeps_cover hrun hgap⟩

/-- The evening's deposits satisfy the rule, but the day has its alert from the morning. -/
theorem cluster_missed :
    ¬ ∀ (m : Monitoring) (rules : RuleTable) (xs : List (Step CaseState SweepOptions))
        (s : CaseState), SweepRun m rules xs s → GapFree (xs.map (·.act)) → SweepCoverage m xs := by
  intro h
  have hgap : GapFree
      ((replay depositMonitoring.next (.start structuringRules.rows) halves).1.map (·.act)) := by
    unfold GapFree
    decide +kernel
  have hcovered := h depositMonitoring structuringRules _ _ (run_replay _ _ halves) hgap
  have halerted := fun x hx =>
    hcovered.alerted x hx structuringRule "investor" evening
  revert halerted
  decide +kernel

end AgriFi.Aml
