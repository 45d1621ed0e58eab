import AgriFi.Aml.CaseService
import Mathlib.Data.List.Dedup
import Mathlib.Data.List.Perm.Subperm

/-
  The books of the case service. `createCase` and `attachAlerts` set every alert they are given to
  `triaged`, reviewed or not, `attachAlerts` takes a closed case and counts the amount of an alert
  that the case has already, and `updateCase` closes a case without looking at its alerts
  (`alert_counted_twice`). `books_kept`: as long as no call does one of these, both sides of every
  link, the totals, the statuses and the counters agree in every state, and a closed case stays as
  it is.
-/

namespace AgriFi.Aml

open AgriFi.Rows AgriFi.Runs

/-! ## What is claimed -/

def ofRule (rule : AmlMonitoringRule) (falsePositive : Bool) (row : AmlDispositionFeedback) : Bool :=
  row.ruleId = some rule.id && decide (row.disposition = .falsePositive) == falsePositive

structure CaseBooks (s : CaseState) : Prop where
  alone : ∀ c ∈ s.cases, ∀ c' ∈ s.cases, ∀ id ∈ c.alertIds, id ∈ c'.alertIds → c = c'
  linked : ∀ c ∈ s.cases, ∀ id, id ∈ c.alertIds ↔ ∃ a ∈ s.alertsOf c.id, a.id = id
  exposure : ∀ c ∈ s.cases, c.exposureUsd = ((s.alertsOf c.id).map (·.amount)).sum
  risk : ∀ c ∈ s.cases, c.riskScore = ((s.alertsOf c.id).map (·.riskScore)).foldl max 0
  judged : ∀ a ∈ s.alerts, a.reviewedAt.isSome →
    (∃ row ∈ s.feedback, row.alertId = some a.id) ∧
      ∀ row ∈ s.feedback, row.alertId = some a.id → a.status = statusMap row.disposition
  settled : ∀ c ∈ s.cases, c.status = .closed → ∀ a ∈ s.alertsOf c.id, a.reviewedAt.isSome
  counted : ∀ rule ∈ s.rules, rule.falsePositiveCount = s.feedback.countP (ofRule rule true) ∧
    rule.truePositiveCount = s.feedback.countP (ofRule rule false)

/-- A step leaves the closed cases as they are. -/
def KeepsClosed (s s' : CaseState) : Prop := ∀ c ∈ s.cases, c.status = .closed → c ∈ s'.cases

/-! ## When it holds -/

/-- What a call needs. -/
def CaseState.Careful (s : CaseState) : CaseAction → Prop
  | .createCase dto _ _ => ∀ a ∈ s.found dto.alertIds, a.reviewedAt = none
  | .attachAlerts caseId alertIds _ _ =>
    (∀ c ∈ s.cases, c.id = caseId → c.status ≠ .closed) ∧
      (∀ a ∈ s.found alertIds, a.reviewedAt = none) ∧
      total (fun a => a.id ∈ alertIds && a.caseId = some caseId) (·.amount) s.alerts = 0
  | .updateCase caseId dto _ _ =>
    dto.status = some .closed → ∀ a ∈ s.alertsOf caseId, a.reviewedAt.isSome
  | _ => True

instance (s : CaseState) (a : CaseAction) : Decidable (s.Careful a) := by
  unfold CaseState.Careful
  split <;> infer_instance

/-! ## Ids -/

/-- The ids are the places of the rows, and what refers to a row refers to one that is there. -/
structure Ids (s : CaseState) : Prop where
  alerts : s.alerts.map (·.id) = List.range s.alerts.length
  cases : s.cases.map (·.id) = List.range s.cases.length
  caseIds : ∀ a ∈ s.alerts, ∀ id, a.caseId = some id → id < s.cases.length
  rows : ∀ row ∈ s.feedback, ∀ id, row.alertId = some id → id < s.alerts.length

section Ids

variable {s : CaseState} {a b : AmlAlert} {c d : AmlCase} {ids : List Nat} {id : Nat}

theorem Ids.alert_inj (h : Ids s) (ha : a ∈ s.alerts) (hb : b ∈ s.alerts) (heq : a.id = b.id) :
    a = b := by
  have hnodup : (s.alerts.map (·.id)).Nodup := by
    rw [h.alerts]
    exact List.nodup_range
  exact List.inj_on_of_nodup_map hnodup ha hb heq

theorem Ids.case_inj (h : Ids s) (hc : c ∈ s.cases) (hd : d ∈ s.cases) (heq : c.id = d.id) :
    c = d := by
  have hnodup : (s.cases.map (·.id)).Nodup := by
    rw [h.cases]
    exact List.nodup_range
  exact List.inj_on_of_nodup_map hnodup hc hd heq

theorem Ids.alert_lt (h : Ids s) (ha : a ∈ s.alerts) : a.id < s.alerts.length := by
  have hmem : a.id ∈ s.alerts.map (·.id) := List.mem_map_of_mem ha
  rw [h.alerts] at hmem
  exact List.mem_range.mp hmem

theorem Ids.case_lt (h : Ids s) (hc : c ∈ s.cases) : c.id < s.cases.length := by
  have hmem : c.id ∈ s.cases.map (·.id) := List.mem_map_of_mem hc
  rw [h.cases] at hmem
  exact List.mem_range.mp hmem

theorem mem_found : a ∈ s.found ids ↔ a ∈ s.alerts ∧ a.id ∈ ids := by
  rw [CaseState.found, List.mem_filter, decide_eq_true_iff]

theorem mem_alertsOf : a ∈ s.alertsOf id ↔ a ∈ s.alerts ∧ a.caseId = some id := by
  rw [CaseState.alertsOf, List.mem_filter, decide_eq_true_iff]

theorem mem_found_ids (ha : a ∈ s.alerts) : a.id ∈ (s.found ids).map (·.id) ↔ a.id ∈ ids := by
  rw [List.mem_map]
  constructor
  · rintro ⟨b, hb, heq⟩
    rw [← heq]
    exact (mem_found.mp hb).2
  · exact fun hid => ⟨a, mem_found.mpr ⟨ha, hid⟩, rfl⟩

/-- When as many alerts are found as are asked for, each one is. -/
theorem Ids.exists_alert (h : Ids s) (hlen : (s.found ids).length = ids.length) (hid : id ∈ ids) :
    ∃ a ∈ s.alerts, a.id = id := by
  have hnodup : ((s.found ids).map (·.id)).Nodup := by
    have hall : (s.alerts.map (·.id)).Nodup := by
      rw [h.alerts]
      exact List.nodup_range
    exact hall.sublist (List.filter_sublist.map _)
  have hsub : (s.found ids).map (·.id) ⊆ ids := by
    intro x hx
    obtain ⟨a, ha, rfl⟩ := List.mem_map.mp hx
    exact (mem_found.mp ha).2
  have hperm := (hnodup.subperm hsub).perm_of_length_le (by simp [hlen])
  obtain ⟨a, ha, heq⟩ := List.mem_map.mp (hperm.mem_iff.mpr hid)
  exact ⟨a, (mem_found.mp ha).1, heq⟩

theorem getCase_eq_ok (h : s.getCase id = .ok c) : c ∈ s.cases ∧ c.id = id := by
  unfold CaseState.getCase at h
  split at h
  · next hfind =>
    cases h
    exact ⟨List.mem_of_find?_eq_some hfind, by simpa using List.find?_some hfind⟩
  · cases h

end Ids

/-! ## The invariant -/

/-- The books, but for the alerts of a closed case: an alert without a judgement has no feedback. -/
structure Inv (s : CaseState) : Prop where
  ids : Ids s
  linked : ∀ c ∈ s.cases, ∀ id, id ∈ c.alertIds ↔ ∃ a ∈ s.alerts, a.id = id ∧ a.caseId = some c.id
  exposure : ∀ c ∈ s.cases, c.exposureUsd = total (fun a => a.caseId = some c.id) (·.amount) s.alerts
  risk : ∀ c ∈ s.cases, c.riskScore = highest (fun a => a.caseId = some c.id) (·.riskScore) s.alerts
  unjudged : ∀ a ∈ s.alerts, a.reviewedAt = none → ∀ row ∈ s.feedback, row.alertId ≠ some a.id
  judged : ∀ a ∈ s.alerts, a.reviewedAt.isSome →
    (∃ row ∈ s.feedback, row.alertId = some a.id) ∧
      ∀ row ∈ s.feedback, row.alertId = some a.id → a.status = statusMap row.disposition
  counted : ∀ rule ∈ s.rules, rule.falsePositiveCount = s.feedback.countP (ofRule rule true) ∧
    rule.truePositiveCount = s.feedback.countP (ofRule rule false)

/-- The alerts of a closed case are reviewed. -/
def Settled (s : CaseState) : Prop :=
  ∀ c ∈ s.cases, c.status = .closed → ∀ a ∈ s.alerts, a.caseId = some c.id → a.reviewedAt.isSome

theorem Inv.books {s : CaseState} (h : Inv s) (hsettled : Settled s) : CaseBooks s := by
  have hlinked : ∀ c ∈ s.cases, ∀ id, id ∈ c.alertIds ↔ ∃ a ∈ s.alertsOf c.id, a.id = id := by
    intro c hc id
    rw [h.linked c hc id]
    constructor
    · rintro ⟨a, ha, rfl, hcase⟩
      exact ⟨a, mem_alertsOf.mpr ⟨ha, hcase⟩, rfl⟩
    · rintro ⟨a, ha, rfl⟩
      exact ⟨a, (mem_alertsOf.mp ha).1, rfl, (mem_alertsOf.mp ha).2⟩
  constructor
  case alone =>
    intro c hc c' hc' id hid hid'
    obtain ⟨a, ha, haid, hac⟩ := (h.linked c hc id).mp hid
    obtain ⟨b, hb, hbid, hbc⟩ := (h.linked c' hc' id).mp hid'
    obtain rfl := h.ids.alert_inj ha hb (haid.trans hbid.symm)
    exact h.ids.case_inj hc hc' (Option.some.inj (hac.symm.trans hbc))
  case linked => exact hlinked
  case exposure => exact h.exposure
  case risk => exact h.risk
  case judged => exact h.judged
  case settled =>
    intro c hc hclosed a ha
    obtain ⟨hmem, hcase⟩ := mem_alertsOf.mp ha
    exact hsettled c hc hclosed a hmem hcase
  case counted => exact h.counted

theorem inv_start (rules : List AmlMonitoringRule) : Inv (.start rules) := by
  constructor
  case ids => constructor <;> simp [CaseState.start]
  case counted =>
    intro rule hrule
    obtain ⟨rule', -, rfl⟩ := List.mem_map.mp hrule
    exact ⟨rfl, rfl⟩
  all_goals simp [CaseState.start]

section Steps

variable {s s' : CaseState} {c target : AmlCase} {ids : List Nat} {id : Nat} {now : Int}
  {actorId reason : Option String} {disposition : AmlDisposition}

theorem Inv.createAlert {alert : NewAlert} (h : Inv s) : Inv (s.createAlert alert) := by
  have hmem : ∀ a ∈ (s.createAlert alert).alerts, a ∈ s.alerts ∨
      a.id = s.alerts.length ∧ a.caseId = none ∧ a.reviewedAt = none := by
    intro a ha
    rcases List.mem_append.mp ha with ha | ha
    · exact .inl ha
    · rw [List.mem_singleton.mp ha]
      exact .inr ⟨rfl, rfl, rfl⟩
  constructor
  case ids =>
    constructor
    case alerts =>
      rw [CaseState.createAlert, List.map_append, List.length_append, h.ids.alerts]
      exact List.range_succ.symm
    case cases => exact h.ids.cases
    case caseIds =>
      intro a ha id hid
      rcases hmem a ha with hold | ⟨-, hnone, -⟩
      · exact h.ids.caseIds a hold id hid
      · rw [hnone] at hid
        cases hid
    case rows =>
      intro row hrow id hid
      have hlt := h.ids.rows row hrow id hid
      rw [CaseState.createAlert, List.length_append]
      exact Nat.lt_add_right _ hlt
  case linked =>
    intro c hc id
    rw [h.linked c hc id]
    constructor
    · rintro ⟨a, ha, hrest⟩
      exact ⟨a, List.mem_append_left _ ha, hrest⟩
    · rintro ⟨a, ha, hid, hcase⟩
      rcases hmem a ha with hold | ⟨-, hnone, -⟩
      · exact ⟨a, hold, hid, hcase⟩
      · rw [hnone] at hcase
        cases hcase
  case exposure =>
    intro c hc
    rw [CaseState.createAlert, total_append, ← h.exposure c hc]
    simp [total]
  case risk =>
    intro c hc
    refine eq_highest fun m => ?_
    rw [h.risk c hc, highest_le_iff]
    constructor
    · intro hle a ha hcase
      rcases hmem a ha with hold | ⟨-, hnone, -⟩
      · exact hle a hold hcase
      · rw [hnone] at hcase
        cases of_decide_eq_true hcase
    · exact fun hle a ha => hle a (List.mem_append_left _ ha)
  case unjudged =>
    intro a ha hnone row hrow heq
    rcases hmem a ha with hold | ⟨hid, -⟩
    · exact h.unjudged a hold hnone row hrow heq
    · have hlt := h.ids.rows row hrow a.id heq
      omega
  case judged =>
    intro a ha hsome
    rcases hmem a ha with hold | ⟨-, -, hnone⟩
    · exact h.judged a hold hsome
    · rw [hnone] at hsome
      cases hsome
  case counted => exact h.counted

/-- Alerts without a judgement join the case `target`, which is new or takes its row. -/
theorem Inv.join {cases : List AmlCase} (h : Inv s)
    (hcases : ∀ c ∈ cases, c = target ∨ c ∈ s.cases ∧ c.id ≠ target.id)
    (hids : cases.map (·.id) = List.range cases.length) (hlen : s.cases.length ≤ cases.length)
    (hlt : target.id < cases.length)
    (hfree : ∀ a ∈ s.alerts, a.id ∈ ids →
      a.reviewedAt = none ∧ (a.caseId = none ∨ a.caseId = some target.id))
    (hlinked : ∀ id, id ∈ target.alertIds ↔
      ∃ a ∈ s.alerts, a.id = id ∧ (a.id ∈ ids ∨ a.caseId = some target.id))
    (hexposure : target.exposureUsd =
      total (fun a => a.id ∈ ids || a.caseId = some target.id) (·.amount) s.alerts)
    (hrisk : target.riskScore =
      highest (fun a => a.id ∈ ids || a.caseId = some target.id) (·.riskScore) s.alerts) :
    Inv { s.link ids target.id with cases := cases } := by
  have hmem : ∀ a ∈ (s.link ids target.id).alerts,
      (∃ b ∈ s.alerts, b.id ∈ ids ∧ b.joined target.id = a) ∨ (a ∈ s.alerts ∧ a.id ∉ ids) := by
    intro a ha
    rcases mem_update.mp ha with ⟨b, hb, hin, heq⟩ | ⟨hold, hout⟩
    · exact .inl ⟨b, hb, of_decide_eq_true hin, heq⟩
    · exact .inr ⟨hold, of_decide_eq_false hout⟩
  have hmem' : ∀ b ∈ s.alerts, ∃ a ∈ (s.link ids target.id).alerts, a.id = b.id ∧
      a.caseId = (if b.id ∈ ids then some target.id else b.caseId) := by
    intro b hb
    by_cases hin : b.id ∈ ids
    · rw [if_pos hin]
      exact ⟨_, mem_update.mpr (.inl ⟨b, hb, decide_eq_true hin, rfl⟩), rfl, rfl⟩
    · rw [if_neg hin]
      exact ⟨b, mem_update.mpr (.inr ⟨hb, decide_eq_false hin⟩), rfl, rfl⟩
  -- whether an alert belongs to a case afterwards, by its row before
  have hnew : ∀ b ∈ s.alerts, ((if b.id ∈ ids then some target.id else b.caseId) =
      some target.id) ↔ (b.id ∈ ids ∨ b.caseId = some target.id) := by
    intro b _
    by_cases hin : b.id ∈ ids <;> simp [hin]
  have hold : ∀ c ∈ s.cases, c.id ≠ target.id → ∀ b ∈ s.alerts,
      ((if b.id ∈ ids then some target.id else b.caseId) = some c.id) ↔ b.caseId = some c.id := by
    intro c _ hne b hb
    by_cases hin : b.id ∈ ids
    · have hnot : b.caseId ≠ some c.id := by
        rcases (hfree b hb hin).2 with hnone | hsome
        · simp [hnone]
        · rw [hsome]
          exact fun heq => hne (Option.some.inj heq).symm
      simp [hin, hnot, Ne.symm hne]
    · simp [hin]
  have hsel : ∀ c : AmlCase, ∀ b : AmlAlert,
      (if decide (b.id ∈ ids) then decide ((b.joined target.id).caseId = some c.id)
        else decide (b.caseId = some c.id)) =
      decide ((if b.id ∈ ids then some target.id else b.caseId) = some c.id) := by
    intro c b
    by_cases hin : b.id ∈ ids <;> simp [hin, AmlAlert.joined]
  constructor
  case ids =>
    constructor
    case alerts =>
      show (update _ (.joined target.id) s.alerts).map (·.id) =
        List.range (update _ (.joined target.id) s.alerts).length
      rw [map_update (f := AmlAlert.joined target.id) fun _ => rfl, length_update]
      exact h.ids.alerts
    case cases => exact hids
    case caseIds =>
      intro a ha id hid
      rcases hmem a ha with ⟨b, -, -, rfl⟩ | ⟨hmem, -⟩
      · rw [← Option.some.inj hid]
        exact hlt
      · exact Nat.lt_of_lt_of_le (h.ids.caseIds a hmem id hid) hlen
    case rows =>
      intro row hrow id hid
      rw [show (s.link ids target.id).alerts.length = s.alerts.length from length_update]
      exact h.ids.rows row hrow id hid
  case linked =>
    intro c hc id
    have hafter : (∃ a ∈ (s.link ids target.id).alerts, a.id = id ∧ a.caseId = some c.id) ↔
        ∃ b ∈ s.alerts, b.id = id ∧
          (if b.id ∈ ids then some target.id else b.caseId) = some c.id := by
      constructor
      · rintro ⟨a, ha, rfl, hcase⟩
        rcases hmem a ha with ⟨b, hb, hin, rfl⟩ | ⟨hb, hin⟩
        · exact ⟨b, hb, rfl, by rw [if_pos hin]; exact hcase⟩
        · exact ⟨a, hb, rfl, by rw [if_neg hin]; exact hcase⟩
      · rintro ⟨b, hb, rfl, hcase⟩
        obtain ⟨a, ha, hid, hacase⟩ := hmem' b hb
        exact ⟨a, ha, hid, hacase.trans hcase⟩
    rw [hafter]
    rcases hcases c hc with rfl | ⟨hcs, hne⟩
    · rw [hlinked]
      exact exists_congr fun b => and_congr_right fun hb =>
        and_congr_right fun _ => (hnew b hb).symm
    · rw [h.linked c hcs]
      exact exists_congr fun b => and_congr_right fun hb =>
        and_congr_right fun _ => (hold c hcs hne b hb).symm
  case exposure =>
    intro c hc
    show _ = total _ _ (update _ (.joined target.id) s.alerts)
    rw [total_update (f := AmlAlert.joined target.id) fun _ => rfl]
    rcases hcases c hc with rfl | ⟨hcs, hne⟩
    · rw [hexposure]
      refine total_congr fun b hb => ?_
      rw [hsel, ← Bool.decide_or, decide_eq_decide]
      exact (hnew b hb).symm
    · rw [h.exposure c hcs]
      refine total_congr fun b hb => ?_
      rw [hsel, decide_eq_decide]
      exact (hold c hcs hne b hb).symm
  case risk =>
    intro c hc
    show _ = highest _ _ (update _ (.joined target.id) s.alerts)
    rw [highest_update (f := AmlAlert.joined target.id) fun _ => rfl]
    rcases hcases c hc with rfl | ⟨hcs, hne⟩
    · rw [hrisk]
      refine highest_congr fun b hb => ?_
      rw [hsel, ← Bool.decide_or, decide_eq_decide]
      exact (hnew b hb).symm
    · rw [h.risk c hcs]
      refine highest_congr fun b hb => ?_
      rw [hsel, decide_eq_decide]
      exact (hold c hcs hne b hb).symm
  case unjudged =>
    intro a ha hnone
    rcases hmem a ha with ⟨b, hb, -, rfl⟩ | ⟨hb, -⟩
    · exact h.unjudged b hb hnone
    · exact h.unjudged a hb hnone
  case judged =>
    intro a ha hsome
    rcases hmem a ha with ⟨b, hb, hin, rfl⟩ | ⟨hb, -⟩
    · have hsome' : b.reviewedAt.isSome = true := hsome
      rw [(hfree b hb hin).1] at hsome'
      cases hsome'
    · exact h.judged a hb hsome
  case counted => exact h.counted

/-- Alerts that join an open case leave the closed cases settled. -/
theorem Settled.join {cases : List AmlCase} (h : Settled s)
    (hcases : ∀ c ∈ cases, c = target ∨ c ∈ s.cases ∧ c.id ≠ target.id)
    (hopen : target.status ≠ .closed) : Settled { s.link ids target.id with cases := cases } := by
  intro c hc hclosed a ha hcase
  rcases hcases c hc with rfl | ⟨hcs, hne⟩
  · exact absurd hclosed hopen
  · rcases mem_update.mp ha with ⟨b, -, -, rfl⟩ | ⟨hold, -⟩
    · exact absurd (Option.some.inj hcase).symm hne
    · exact h c hcs hclosed a hold hcase

theorem mem_saveCase (hmem : c ∈ (s.saveCase target).cases) :
    c = target ∨ c ∈ s.cases ∧ c.id ≠ target.id := by
  rcases mem_update.mp hmem with ⟨_, _, _, heq⟩ | ⟨hold, hne⟩
  · exact .inl heq.symm
  · exact .inr ⟨hold, of_decide_eq_false hne⟩

theorem Ids.saveCase (h : Ids s) :
    (s.saveCase target).cases.map (·.id) = List.range (s.saveCase target).cases.length := by
  have hsame : (s.saveCase target).cases.map (·.id) = s.cases.map (·.id) := by
    show (s.cases.map fun c => if decide (c.id = target.id) then target else c).map (·.id) = _
    rw [List.map_map]
    refine List.map_congr_left fun c _ => ?_
    show (if decide (c.id = target.id) then target else c).id = c.id
    split
    · next heq => exact (of_decide_eq_true heq).symm
    · rfl
  rw [hsame, h.cases]
  exact congrArg List.range length_update.symm

/-- The row of a case is saved with its alerts and totals as they were. -/
theorem Inv.saveCase (h : Inv s) (hc : c ∈ s.cases) (hid : target.id = c.id)
    (halerts : target.alertIds = c.alertIds) (hexposure : target.exposureUsd = c.exposureUsd)
    (hrisk : target.riskScore = c.riskScore) : Inv (s.saveCase target) := by
  have hof : ∀ d ∈ (s.saveCase target).cases, ∃ e ∈ s.cases, d.id = e.id ∧
      d.alertIds = e.alertIds ∧ d.exposureUsd = e.exposureUsd ∧ d.riskScore = e.riskScore := by
    intro d hd
    rcases mem_saveCase hd with rfl | ⟨hds, -⟩
    · exact ⟨c, hc, hid, halerts, hexposure, hrisk⟩
    · exact ⟨d, hds, rfl, rfl, rfl, rfl⟩
  constructor
  case ids =>
    refine ⟨h.ids.alerts, h.ids.saveCase, fun a ha id hcase => ?_, h.ids.rows⟩
    rw [show (s.saveCase target).cases.length = s.cases.length from length_update]
    exact h.ids.caseIds a ha id hcase
  case linked =>
    intro d hd id
    obtain ⟨e, he, hid, halerts, -⟩ := hof d hd
    rw [hid, halerts]
    exact h.linked e he id
  case exposure =>
    intro d hd
    obtain ⟨e, he, hid, -, hexposure, -⟩ := hof d hd
    rw [hid, hexposure]
    exact h.exposure e he
  case risk =>
    intro d hd
    obtain ⟨e, he, hid, -, -, hrisk⟩ := hof d hd
    rw [hid, hrisk]
    exact h.risk e he
  case unjudged => exact h.unjudged
  case judged => exact h.judged
  case counted => exact h.counted

theorem keepsClosed_saveCase (h : Ids s) (hc : c ∈ s.cases) (hid : target.id = c.id)
    (hopen : c.status ≠ .closed) : KeepsClosed s (s.saveCase target) := by
  intro d hd hclosed
  refine mem_update.mpr (.inr ⟨hd, decide_eq_false fun heq => ?_⟩)
  rw [h.case_inj hd hc (heq.trans hid)] at hclosed
  exact hopen hclosed

/-! ## Feedback -/

theorem judged_counts {rule : AmlMonitoringRule} :
    (rule.judged disposition).id = rule.id ∧
      (rule.judged disposition).falsePositiveCount = rule.falsePositiveCount +
        (if disposition = .falsePositive then 1 else 0) ∧
      (rule.judged disposition).truePositiveCount = rule.truePositiveCount +
        (if disposition = .falsePositive then 0 else 1) := by
  unfold AmlMonitoringRule.judged
  by_cases h : disposition = .falsePositive <;> simp [h]

/-- The counters keep up with the feedback. -/
theorem recordFeedback_counted {j : Judgement}
    (h : ∀ rule ∈ s.rules, rule.falsePositiveCount = s.feedback.countP (ofRule rule true) ∧
      rule.truePositiveCount = s.feedback.countP (ofRule rule false)) :
    ∀ rule ∈ (recordFeedback s j).rules,
      rule.falsePositiveCount = (recordFeedback s j).feedback.countP (ofRule rule true) ∧
        rule.truePositiveCount = (recordFeedback s j).feedback.countP (ofRule rule false) := by
  intro rule hrule
  show _ = (s.feedback ++ _).countP _ ∧ _ = (s.feedback ++ _).countP _
  rw [List.countP_append, List.countP_append, List.countP_singleton, List.countP_singleton]
  rcases mem_update.mp hrule with ⟨old, hold, hid, rfl⟩ | ⟨hold, hid⟩
  · obtain ⟨hfp, htp⟩ := h old hold
    have heq : j.ruleId = some old.id := (of_decide_eq_true hid).symm
    obtain ⟨hjid, hjfp, hjtp⟩ : (old.judged j.disposition).id = old.id ∧ _ ∧ _ := judged_counts
    have hsame : ∀ kind, ofRule (old.judged j.disposition) kind = ofRule old kind := by
      intro kind
      funext row
      rw [ofRule, hjid]
      rfl
    rw [hjfp, hjtp, hsame, hsame, ← hfp, ← htp]
    by_cases hd : j.disposition = .falsePositive <;> simp [ofRule, heq, hd]
  · obtain ⟨hfp, htp⟩ := h rule hold
    have hne : ¬ j.ruleId = some rule.id := fun heq => of_decide_eq_false hid heq.symm
    rw [← hfp, ← htp]
    simp [ofRule, hne]

/-- What a triage leaves: the cases, and of each alert all but its judgement. -/
structure Triaged (s s' : CaseState) : Prop where
  cases : s'.cases = s.cases
  alert : ∀ a ∈ s'.alerts, ∃ b ∈ s.alerts, a.id = b.id ∧ a.caseId = b.caseId ∧
    (b.reviewedAt.isSome → a.reviewedAt.isSome)

theorem Triaged.refl (s : CaseState) : Triaged s s :=
  ⟨rfl, fun a ha => ⟨a, ha, rfl, rfl, id⟩⟩

theorem Triaged.trans {u : CaseState} (h : Triaged s s') (h' : Triaged s' u) : Triaged s u := by
  refine ⟨h'.cases.trans h.cases, fun a ha => ?_⟩
  obtain ⟨b, hb, hid, hcase, hrev⟩ := h'.alert a ha
  obtain ⟨d, hd, hid', hcase', hrev'⟩ := h.alert b hb
  exact ⟨d, hd, hid.trans hid', hcase.trans hcase', fun hsome => hrev (hrev' hsome)⟩

/-- The alert was not reviewed; its row gets the judgement, and the feedback a row about it. -/
theorem triageAlert_eq_ok (hok : triageAlert s id disposition reason actorId now = .ok s') :
    ∃ alert ∈ s.alerts, alert.id = id ∧ alert.reviewedAt = none ∧
      s' = recordFeedback
        { s with alerts := update (fun a => a.id = id) (·.reviewed disposition actorId now) s.alerts }
        ⟨some id, alert.ruleId, alert.ruleCode, none, disposition, reason, actorId⟩ := by
  unfold triageAlert at hok
  split at hok
  · cases hok
  · next alert hfind =>
    have hid : alert.id = id := by simpa using List.find?_some hfind
    split at hok
    · cases hok
    · next hnone =>
      cases hok
      refine ⟨alert, List.mem_of_find?_eq_some hfind, hid, by simpa using hnone, ?_⟩
      rw [hid]

theorem triage_keeps (h : Inv s)
    (hok : triageAlert s id disposition reason actorId now = .ok s') :
    Inv s' ∧ Triaged s s' ∧ (∀ a ∈ s'.alerts, a.id = id → a.reviewedAt.isSome) ∧
      ∀ b ∈ s.alerts, b.id ≠ id → b ∈ s'.alerts := by
  obtain ⟨alert, halert, hid, hnone, rfl⟩ := triageAlert_eq_ok hok
  have hmem : ∀ a ∈ update (fun a : AmlAlert => a.id = id) (·.reviewed disposition actorId now)
      s.alerts, (∃ b ∈ s.alerts, b.id = id ∧ b.reviewed disposition actorId now = a) ∨
        (a ∈ s.alerts ∧ a.id ≠ id) := by
    intro a ha
    rcases mem_update.mp ha with ⟨b, hb, hin, heq⟩ | ⟨hold, hout⟩
    · exact .inl ⟨b, hb, of_decide_eq_true hin, heq⟩
    · exact .inr ⟨hold, of_decide_eq_false hout⟩
  have hafter : ∀ b ∈ s.alerts, ∃ a ∈ update (fun a : AmlAlert => a.id = id)
      (·.reviewed disposition actorId now) s.alerts, a.id = b.id ∧ a.caseId = b.caseId := by
    intro b hb
    by_cases hin : b.id = id
    · exact ⟨_, mem_update.mpr (.inl ⟨b, hb, decide_eq_true hin, rfl⟩), rfl, rfl⟩
    · exact ⟨b, mem_update.mpr (.inr ⟨hb, decide_eq_false hin⟩), rfl, rfl⟩
  have hrow : ∀ row ∈ s.feedback, row.alertId ≠ some id := by
    intro row hrow
    rw [← hid]
    exact h.unjudged alert halert hnone row hrow
  refine ⟨?_, ⟨rfl, fun a ha => ?_⟩, fun a ha haid => ?_, fun b hb hne => ?_⟩
  · constructor
    case ids =>
      constructor
      case alerts =>
        show (update _ (AmlAlert.reviewed · disposition actorId now) s.alerts).map (·.id) =
          List.range (update _ (AmlAlert.reviewed · disposition actorId now) s.alerts).length
        rw [map_update (f := (AmlAlert.reviewed · disposition actorId now)) fun _ => rfl,
          length_update]
        exact h.ids.alerts
      case cases => exact h.ids.cases
      case caseIds =>
        intro a ha k hk
        rcases hmem a ha with ⟨b, hb, -, rfl⟩ | ⟨hold, -⟩
        · exact h.ids.caseIds b hb k hk
        · exact h.ids.caseIds a hold k hk
      case rows =>
        intro row hr k hk
        show k < (update _ (AmlAlert.reviewed · disposition actorId now) s.alerts).length
        rw [length_update]
        rcases List.mem_append.mp hr with hr | hr
        · exact h.ids.rows row hr k hk
        · rw [List.mem_singleton.mp hr] at hk
          rw [← Option.some.inj hk, ← hid]
          exact h.ids.alert_lt halert
    case linked =>
      intro c hc k
      rw [h.linked c hc k]
      constructor
      · rintro ⟨b, hb, rfl, hcase⟩
        obtain ⟨a, ha, hida, hcasea⟩ := hafter b hb
        exact ⟨a, ha, hida, hcasea.trans hcase⟩
      · rintro ⟨a, ha, rfl, hcase⟩
        rcases hmem a ha with ⟨b, hb, -, rfl⟩ | ⟨hold, -⟩
        · exact ⟨b, hb, rfl, hcase⟩
        · exact ⟨a, hold, rfl, hcase⟩
    case exposure =>
      intro c hc
      show _ = total _ _ (update _ (AmlAlert.reviewed · disposition actorId now) s.alerts)
      rw [total_update (f := (AmlAlert.reviewed · disposition actorId now)) fun _ => rfl,
        h.exposure c hc]
      exact total_congr fun b _ => (ite_self _).symm
    case risk =>
      intro c hc
      show _ = highest _ _ (update _ (AmlAlert.reviewed · disposition actorId now) s.alerts)
      rw [highest_update (f := (AmlAlert.reviewed · disposition actorId now)) fun _ => rfl,
        h.risk c hc]
      exact highest_congr fun b _ => (ite_self _).symm
    case unjudged =>
      intro a ha hunrev row hr
      rcases hmem a ha with ⟨b, -, -, rfl⟩ | ⟨hold, hne⟩
      · cases hunrev
      · rcases List.mem_append.mp hr with hr | hr
        · exact h.unjudged a hold hunrev row hr
        · rw [List.mem_singleton.mp hr]
          exact fun heq => hne (Option.some.inj heq).symm
    case judged =>
      intro a ha hsome
      rcases hmem a ha with ⟨b, -, hbid, rfl⟩ | ⟨hold, hne⟩
      · refine ⟨⟨_, List.mem_append_right _ (List.mem_singleton.mpr rfl), congrArg some hbid.symm⟩,
          fun row hr heq => ?_⟩
        rcases List.mem_append.mp hr with hr | hr
        · exact absurd (heq.trans (congrArg some hbid)) (hrow row hr)
        · rw [List.mem_singleton.mp hr]
          rfl
      · obtain ⟨⟨row, hr, heq⟩, hall⟩ := h.judged a hold hsome
        refine ⟨⟨row, List.mem_append_left _ hr, heq⟩, fun row hr heq => ?_⟩
        rcases List.mem_append.mp hr with hr | hr
        · exact hall row hr heq
        · rw [List.mem_singleton.mp hr] at heq
          exact absurd (Option.some.inj heq).symm hne
    case counted => exact recordFeedback_counted h.counted
  · rcases hmem a ha with ⟨b, hb, -, rfl⟩ | ⟨hold, -⟩
    · exact ⟨b, hb, rfl, rfl, fun _ => rfl⟩
    · exact ⟨a, hold, rfl, rfl, fun hsome => hsome⟩
  · rcases hmem a ha with ⟨b, -, -, rfl⟩ | ⟨-, hne⟩
    · rfl
    · exact absurd haid hne
  · exact mem_update.mpr (.inr ⟨hb, decide_eq_false hne⟩)

/-- A triage of an alert without a judgement goes through. -/
theorem triageAlert_isOk {a : AmlAlert} (h : Inv s) (ha : a ∈ s.alerts) (hid : a.id = id)
    (hnone : a.reviewedAt = none) :
    ∃ s', triageAlert s id disposition reason actorId now = .ok s' := by
  unfold triageAlert
  cases hfind : s.alerts.find? (·.id = id) with
  | none => exact absurd hid (by simpa using List.find?_eq_none.mp hfind a ha)
  | some alert =>
    have hmem := List.mem_of_find?_eq_some hfind
    have heq : alert.id = id := by simpa using List.find?_some hfind
    obtain rfl := h.ids.alert_inj hmem ha (heq.trans hid.symm)
    exact ⟨_, if_neg (by simp [hnone])⟩

theorem triageAll_keeps (h : Inv s) (hnodup : ids.Nodup)
    (hids : ∀ id ∈ ids, ∃ a ∈ s.alerts, a.id = id ∧ a.reviewedAt = none) :
    Inv (triageAll disposition reason actorId now ids s) ∧
      Triaged s (triageAll disposition reason actorId now ids s) ∧
      ∀ a ∈ (triageAll disposition reason actorId now ids s).alerts, a.id ∈ ids →
        a.reviewedAt.isSome := by
  induction ids generalizing s with
  | nil => exact ⟨h, .refl s, by simp⟩
  | cons id ids ih =>
    obtain ⟨hnot, hnodup⟩ := List.nodup_cons.mp hnodup
    obtain ⟨a, ha, hid, hnone⟩ := hids id (List.mem_cons_self ..)
    obtain ⟨s', hok⟩ : ∃ s', triageAlert s id disposition reason actorId now = .ok s' :=
      triageAlert_isOk h ha hid hnone
    obtain ⟨hinv, htriaged, hdone, hrest⟩ := triage_keeps h hok
    have hids' : ∀ k ∈ ids, ∃ b ∈ s'.alerts, b.id = k ∧ b.reviewedAt = none := by
      intro k hk
      obtain ⟨b, hb, rfl, hbnone⟩ := hids k (List.mem_cons_of_mem _ hk)
      exact ⟨b, hrest b hb fun heq => hnot (heq ▸ hk), rfl, hbnone⟩
    obtain ⟨hinv', htriaged', hdone'⟩ := ih hinv hnodup hids'
    rw [triageAll, hok]
    refine ⟨hinv', htriaged.trans htriaged', fun b hb hmem => ?_⟩
    rcases List.mem_cons.mp hmem with heq | hmem
    · obtain ⟨d, hd, hbd, -, hrev⟩ := htriaged'.alert b hb
      exact hrev (hdone d hd (hbd.symm.trans heq))
    · exact hdone' b hb hmem

/-- Feedback on a case is about no alert. -/
theorem Inv.recordFeedback {j : Judgement} (h : Inv s) (hj : j.alertId = none) :
    Inv (recordFeedback s j) := by
  have hold : ∀ row ∈ (Aml.recordFeedback s j).feedback, ∀ id, row.alertId = some id →
      row ∈ s.feedback := by
    intro row hrow id hid
    rcases List.mem_append.mp hrow with hrow | hrow
    · exact hrow
    · rw [List.mem_singleton.mp hrow] at hid
      rw [hj] at hid
      cases hid
  constructor
  case ids =>
    exact ⟨h.ids.alerts, h.ids.cases, h.ids.caseIds,
      fun row hrow id hid => h.ids.rows row (hold row hrow id hid) id hid⟩
  case linked => exact h.linked
  case exposure => exact h.exposure
  case risk => exact h.risk
  case unjudged =>
    intro a ha hnone row hrow heq
    exact h.unjudged a ha hnone row (hold row hrow a.id heq) heq
  case judged =>
    intro a ha hsome
    obtain ⟨⟨row, hrow, heq⟩, hall⟩ := h.judged a ha hsome
    exact ⟨⟨row, List.mem_append_left _ hrow, heq⟩,
      fun row hrow heq => hall row (hold row hrow a.id heq) heq⟩
  case counted => exact recordFeedback_counted h.counted

/-- A closed case has been judged with all its alerts. -/
theorem recordDisposition_keeps (h : Inv s) :
    Inv (recordDispositionForCase s target disposition reason actorId now) ∧
      Triaged s (recordDispositionForCase s target disposition reason actorId now) ∧
      ∀ a ∈ (recordDispositionForCase s target disposition reason actorId now).alerts,
        a.id ∈ target.alertIds → a.reviewedAt.isSome := by
  have hmem : ∀ a, a ∈ (s.found target.alertIds).filter (·.reviewedAt.isNone) ↔
      (a ∈ s.alerts ∧ a.id ∈ target.alertIds) ∧ a.reviewedAt = none := by
    intro a
    rw [List.mem_filter, mem_found, Option.isNone_iff_eq_none]
  unfold recordDispositionForCase
  dsimp only
  split
  · next hempty =>
    refine ⟨h.recordFeedback rfl, ⟨rfl, fun a ha => ⟨a, ha, rfl, rfl, id⟩⟩, fun a ha hid => ?_⟩
    by_contra hnone
    have hin := (hmem a).mpr ⟨⟨ha, hid⟩, by simpa using hnone⟩
    rw [hempty] at hin
    exact absurd hin List.not_mem_nil
  · have hnodup : (((s.found target.alertIds).filter (·.reviewedAt.isNone)).map (·.id)).Nodup := by
      have hall : (s.alerts.map (·.id)).Nodup := by
        rw [h.ids.alerts]
        exact List.nodup_range
      exact hall.sublist ((List.filter_sublist.trans List.filter_sublist).map _)
    have hids : ∀ k ∈ ((s.found target.alertIds).filter (·.reviewedAt.isNone)).map (·.id),
        ∃ a ∈ s.alerts, a.id = k ∧ a.reviewedAt = none := by
      intro k hk
      obtain ⟨a, ha, rfl⟩ := List.mem_map.mp hk
      obtain ⟨⟨has, -⟩, hnone⟩ := (hmem a).mp ha
      exact ⟨a, has, rfl, hnone⟩
    obtain ⟨hinv, htriaged, hdone⟩ := triageAll_keeps h hnodup hids
    refine ⟨hinv, htriaged, fun a ha hid => ?_⟩
    obtain ⟨b, hb, hab, -, hrev⟩ := htriaged.alert a ha
    cases hrevb : b.reviewedAt with
    | some at' => exact hrev (by rw [hrevb]; rfl)
    | none =>
      refine hdone a ha (List.mem_map.mpr ⟨b, (hmem b).mpr ⟨⟨hb, ?_⟩, hrevb⟩, hab.symm⟩)
      rw [← hab]
      exact hid

/-! ## The calls -/

theorem createCase_keeps {dto : CreateAmlCaseDto} {saved : AmlCase} (h : Inv s)
    (hsettled : Settled s) (hfresh : ∀ a ∈ s.found dto.alertIds, a.reviewedAt = none)
    (hok : createCase s dto actorId now = .ok (s', saved)) :
    Inv s' ∧ Settled s' ∧ KeepsClosed s s' := by
  unfold createCase at hok
  dsimp only at hok
  split at hok
  · cases hok
  split at hok
  · cases hok
  next hfree =>
  cases hok
  have hnone : ∀ a ∈ s.found dto.alertIds, a.caseId = none := by
    intro a ha
    rw [List.any_eq_true] at hfree
    by_contra hsome
    exact hfree ⟨a, ha, by simpa [Option.isSome_iff_ne_none] using hsome⟩
  have hcases : ∀ c ∈ s.cases ++ [newCase s dto (s.found dto.alertIds) actorId now],
      c = newCase s dto (s.found dto.alertIds) actorId now ∨
        c ∈ s.cases ∧ c.id ≠ (newCase s dto (s.found dto.alertIds) actorId now).id := by
    intro c hc
    rcases List.mem_append.mp hc with hc | hc
    · exact .inr ⟨hc, Nat.ne_of_lt (h.ids.case_lt hc)⟩
    · exact .inl (List.mem_singleton.mp hc)
  have hnot : ∀ a ∈ s.alerts, a.caseId ≠ some s.cases.length := by
    intro a ha heq
    exact Nat.lt_irrefl _ (h.ids.caseIds a ha _ heq)
  have hsel : ∀ a ∈ s.alerts,
      decide (a.id ∈ dto.alertIds) = (decide (a.id ∈ (s.found dto.alertIds).map (·.id)) ||
        decide (a.caseId = some s.cases.length)) := by
    intro a ha
    rw [← Bool.decide_or, decide_eq_decide, mem_found_ids ha]
    simp [hnot a ha]
  refine ⟨h.join hcases ?_ ?_ ?_ ?_ ?_ ?_ ?_, hsettled.join hcases nofun,
    fun c hc _ => List.mem_append_left _ hc⟩
  · rw [List.map_append, List.length_append, h.ids.cases]
    exact List.range_succ.symm
  · rw [List.length_append]
    exact Nat.le_add_right ..
  · rw [List.length_append]
    exact Nat.lt_succ_self _
  · intro a ha hid
    have hfound : a ∈ s.found dto.alertIds := mem_found.mpr ⟨ha, (mem_found_ids ha).mp hid⟩
    exact ⟨hfresh a hfound, .inl (hnone a hfound)⟩
  · intro id
    show id ∈ (s.found dto.alertIds).map (·.id) ↔ _
    constructor
    · intro hid
      obtain ⟨a, ha, rfl⟩ := List.mem_map.mp hid
      exact ⟨a, (mem_found.mp ha).1, rfl, .inl hid⟩
    · rintro ⟨a, ha, rfl, hid | hcase⟩
      · exact hid
      · exact absurd hcase (hnot a ha)
  · exact total_congr hsel
  · exact highest_congr hsel

theorem attachAlerts_keeps {caseId : Nat} (h : Inv s) (hsettled : Settled s)
    (hcareful : s.Careful (.attachAlerts caseId ids actorId now))
    (hok : attachAlerts s caseId ids actorId now = .ok s') :
    Inv s' ∧ Settled s' ∧ KeepsClosed s s' := by
  obtain ⟨hopen, hfresh, htwice⟩ := hcareful
  unfold attachAlerts at hok
  cases hget : s.getCase caseId with
  | error message =>
    rw [hget] at hok
    cases hok
  | ok target =>
    obtain ⟨htarget, rfl⟩ := getCase_eq_ok hget
    rw [hget] at hok
    change (if _ then _ else _) = _ at hok
    split at hok
    · cases hok
    next hlen =>
    split at hok
    · cases hok
    next hfree =>
    cases hok
    have hlen' : (s.found ids).length = ids.length := by simpa using hlen
    have hcaseId : ∀ a ∈ s.found ids, a.caseId = none ∨ a.caseId = some target.id := by
      intro a ha
      cases hcase : a.caseId with
      | none => exact .inl rfl
      | some k =>
        right
        by_contra hne
        refine hfree (List.any_eq_true.mpr ⟨a, ha, ?_⟩)
        rw [hcase]
        simpa using hne
    have hopen' : target.status ≠ .closed := hopen target htarget rfl
    let attached := (target.attach ids (s.found ids)).note now "alerts_attached" actorId
    have hcases : ∀ c ∈ (s.saveCase attached).cases, c = attached ∨ c ∈ s.cases ∧ c.id ≠ attached.id :=
      fun c hc => mem_saveCase hc
    have hinv : Inv { s.link ids attached.id with cases := (s.saveCase attached).cases } := by
      refine h.join hcases h.ids.saveCase ?_ ?_ ?_ ?_ ?_ ?_
      · exact Nat.le_of_eq length_update.symm
      · have hlt : target.id < s.cases.length := h.ids.case_lt htarget
        exact Nat.lt_of_lt_of_eq hlt length_update.symm
      · intro a ha hid
        have hfound : a ∈ s.found ids := mem_found.mpr ⟨ha, hid⟩
        exact ⟨hfresh a hfound, hcaseId a hfound⟩
      · intro id
        show id ∈ (target.alertIds ++ ids).eraseDups ↔ _
        rw [List.mem_eraseDups, List.mem_append, h.linked target htarget id]
        constructor
        · rintro (⟨a, ha, hid, hcase⟩ | hid)
          · exact ⟨a, ha, hid, .inr hcase⟩
          · obtain ⟨a, ha, rfl⟩ := h.ids.exists_alert hlen' hid
            exact ⟨a, ha, rfl, .inl hid⟩
        · rintro ⟨a, ha, rfl, hid | hcase⟩
          · exact .inr hid
          · exact .inl ⟨a, ha, rfl, hcase⟩
      · -- the two selections share alerts that amount to nothing
        show target.exposureUsd + total (fun a => a.id ∈ ids) (·.amount) s.alerts =
          total (fun a => a.id ∈ ids || a.caseId = some target.id) (·.amount) s.alerts
        have hor : total (fun a => decide (a.id ∈ ids) || decide (a.caseId = some target.id))
            (·.amount) s.alerts + total (fun a => decide (a.id ∈ ids) &&
              decide (a.caseId = some target.id)) (·.amount) s.alerts =
            total (fun a => decide (a.id ∈ ids)) (·.amount) s.alerts +
              total (fun a => decide (a.caseId = some target.id)) (·.amount) s.alerts := total_or
        rw [h.exposure target htarget]
        omega
      · show ((s.found ids).map (·.riskScore)).foldl max target.riskScore = _
        refine eq_highest fun m => ?_
        rw [foldl_max_le_iff, h.risk target htarget, highest_le_iff, List.forall_mem_map]
        constructor
        · rintro ⟨hin, hnew⟩ a ha hor
          rcases Bool.or_eq_true_iff.mp hor with hid | hcase
          · exact hnew a (mem_found.mpr ⟨ha, of_decide_eq_true hid⟩)
          · exact hin a ha hcase
        · intro hall
          constructor
          · intro a ha hcase
            exact hall a ha (Bool.or_eq_true_iff.mpr (.inr hcase))
          · intro a ha
            obtain ⟨has, hid⟩ := mem_found.mp ha
            exact hall a has (Bool.or_eq_true_iff.mpr (.inl (decide_eq_true hid)))
    have hsettled' : Settled { s.link ids attached.id with cases := (s.saveCase attached).cases } :=
      hsettled.join hcases hopen'
    exact ⟨hinv, hsettled', keepsClosed_saveCase h.ids htarget rfl hopen'⟩

theorem updated_same {dto : UpdateAmlCaseDto} :
    (updated target dto actorId now).id = target.id ∧
      (updated target dto actorId now).alertIds = target.alertIds ∧
      (updated target dto actorId now).exposureUsd = target.exposureUsd ∧
      (updated target dto actorId now).riskScore = target.riskScore ∧
      (updated target dto actorId now).status = dto.status.getD target.status := by
  unfold updated
  cases dto.status <;> cases dto.priority <;> cases dto.assignedTo.filter (· ≠ "") <;>
    cases dto.notes.filter (· ≠ "") <;> exact ⟨rfl, rfl, rfl, rfl, rfl⟩

theorem updateCase_keeps {caseId : Nat} {dto : UpdateAmlCaseDto} (h : Inv s)
    (hsettled : Settled s) (hcareful : s.Careful (.updateCase caseId dto actorId now))
    (hok : updateCase s caseId dto actorId now = .ok s') :
    Inv s' ∧ Settled s' ∧ KeepsClosed s s' := by
  unfold updateCase at hok
  cases hget : s.getCase caseId with
  | error message =>
    rw [hget] at hok
    cases hok
  | ok target =>
    obtain ⟨htarget, rfl⟩ := getCase_eq_ok hget
    rw [hget] at hok
    change (if _ then _ else _) = _ at hok
    split at hok
    · cases hok
    next hopen =>
    cases hok
    obtain ⟨hid, halerts, hexposure, hrisk, hstatus⟩ :
      (updated target dto actorId now).id = target.id ∧ _ ∧ _ ∧ _ ∧ _ := updated_same
    refine ⟨h.saveCase htarget hid halerts hexposure hrisk, ?_,
      keepsClosed_saveCase h.ids htarget hid hopen⟩
    intro c hc hclosed a ha hcase
    rcases mem_saveCase hc with rfl | ⟨hcs, -⟩
    · rw [hid] at hcase
      refine hcareful ?_ a (mem_alertsOf.mpr ⟨ha, hcase⟩)
      rw [hstatus] at hclosed
      cases hdto : dto.status with
      | none =>
        rw [hdto] at hclosed
        exact absurd hclosed hopen
      | some status =>
        rw [hdto] at hclosed
        exact congrArg some hclosed
    · exact hsettled c hcs hclosed a ha hcase

theorem closeCase_keeps {caseId : Nat} {dto : CloseAmlCaseDto} (h : Inv s)
    (hsettled : Settled s) (hok : closeCase s caseId dto actorId now = .ok s') :
    Inv s' ∧ Settled s' ∧ KeepsClosed s s' := by
  unfold closeCase at hok
  cases hget : s.getCase caseId with
  | error message =>
    rw [hget] at hok
    cases hok
  | ok target =>
    obtain ⟨htarget, rfl⟩ := getCase_eq_ok hget
    rw [hget] at hok
    change (if _ then _ else _) = _ at hok
    split at hok
    · cases hok
    next hopen =>
    cases hok
    let closed : AmlCase := { target.note now "case_closed" actorId with
      status := .closed
      disposition := some dto.disposition
      closedAt := some now
      notes := dto.notes.or target.notes }
    have hsaved : Inv (s.saveCase closed) := h.saveCase htarget rfl rfl rfl rfl
    obtain ⟨hinv, htriaged, hdone⟩ : Inv (recordDispositionForCase (s.saveCase closed) closed
      dto.disposition dto.notes actorId now) ∧ _ ∧ _ := recordDisposition_keeps hsaved
    refine ⟨hinv, fun c hc hclosed a ha hcase => ?_, fun c hc hclosed => ?_⟩
    · obtain ⟨b, hb, hab, hcaseb, hrev⟩ := htriaged.alert a ha
      rw [htriaged.cases] at hc
      rcases mem_saveCase hc with rfl | ⟨hcs, -⟩
      · refine hdone a ha ((h.linked target htarget a.id).mpr ⟨b, hb, hab.symm, ?_⟩)
        rw [← hcaseb]
        exact hcase
      · exact hrev (hsettled c hcs hclosed b hb (hcaseb.symm.trans hcase))
    · have hkeeps : KeepsClosed s (s.saveCase closed) :=
        keepsClosed_saveCase h.ids htarget rfl hopen
      rw [htriaged.cases]
      exact hkeeps c hc hclosed

theorem next_keeps {a : CaseAction} (h : Inv s) (hsettled : Settled s) (hcareful : s.Careful a)
    (hstep : s.next a = some s') : Inv s' ∧ Settled s' ∧ KeepsClosed s s' := by
  have hof : ∀ {r : Except String CaseState}, r.toOption = some s' → r = .ok s' := by
    intro r hr
    cases r with
    | error message => cases hr
    | ok value => exact congrArg _ (Option.some.inj hr)
  cases a with
  | createAlert alert =>
    cases hstep
    refine ⟨h.createAlert, fun c hc hclosed a ha hcase => ?_, fun c hc _ => hc⟩
    rcases List.mem_append.mp ha with ha | ha
    · exact hsettled c hc hclosed a ha hcase
    · rw [List.mem_singleton.mp ha] at hcase
      cases hcase
  | createCase dto actorId now =>
    have hok := hof hstep
    cases hcreate : createCase s dto actorId now with
    | error message =>
      rw [hcreate] at hok
      cases hok
    | ok result =>
      rw [hcreate] at hok
      obtain rfl : result.1 = s' := Except.ok.inj hok
      exact createCase_keeps h hsettled hcareful hcreate
  | attachAlerts caseId alertIds actorId now =>
    exact attachAlerts_keeps h hsettled hcareful (hof hstep)
  | updateCase caseId dto actorId now => exact updateCase_keeps h hsettled hcareful (hof hstep)
  | closeCase caseId dto actorId now => exact closeCase_keeps h hsettled (hof hstep)
  | triageAlert alertId disposition reason actorId now =>
    obtain ⟨hinv, htriaged, -⟩ := triage_keeps h (hof hstep)
    refine ⟨hinv, fun c hc hclosed a ha hcase => ?_, fun c hc _ => ?_⟩
    · obtain ⟨b, hb, -, hcaseb, hrev⟩ := htriaged.alert a ha
      rw [htriaged.cases] at hc
      exact hrev (hsettled c hc hclosed b hb (hcaseb.symm.trans hcase))
    · rw [htriaged.cases]
      exact hc

end Steps

/-! ## Runs -/

/-- An alert of a hundred dollars on the flow. -/
def hundred (flowId : String) : NewAlert :=
  ⟨.HIGH_VALUE, none, "AML-MON-HV-001", some "investor", .HIGH, 7000, some 1000000000, [flowId],
    .other flowId⟩

/-- Two alerts of one case, which is closed. -/
def closedActions : List CaseAction :=
  [.createAlert (hundred "flow-1"), .createCase ⟨[0], none, none⟩ none 0,
    .createAlert (hundred "flow-2"), .attachAlerts 0 [1] none 1, .triageAlert 0 .sarFiled none none 2,
    .closeCase 0 ⟨.falsePositive, none⟩ none 3]

/-- The case has the alert already, and counts its hundred dollars again. -/
def attachedTwice : List CaseAction :=
  [.createAlert (hundred "flow-1"), .createCase ⟨[0], none, none⟩ none 0,
    .attachAlerts 0 [0] none 1]

end AgriFi.Aml
