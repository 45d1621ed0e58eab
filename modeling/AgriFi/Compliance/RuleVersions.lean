import AgriFi.Compliance.RuleEngine

/-
  The versions of a rule. An edit numbers its version after the version that it edits, and a new
  rule always starts at 1, so that a second edit of a version, or a second rule of a code, repeats a
  number (`version_repeated`); a rollback activates a version without testing it. `rules_versioned`:
  the table stays in order exactly in the runs in which no number is taken twice and every version
  rolled back to passes its tests or has been deployed.
-/

namespace AgriFi.Compliance

open AgriFi.JsValue AgriFi.Rows AgriFi.Runs

/-! ## What is claimed -/

/-- All its test cases pass. -/
def Engine.PassesAll (engine : Engine) (configuration : RuleConfiguration) : Prop :=
  ∀ tc ∈ configuration.testCases, engine.passes configuration tc = true

/-- A version that says the same has been deployed. -/
def State.WasDeployed (s : State) (configuration : RuleConfiguration) : Prop :=
  ∃ d ∈ s.rules, d.id ∈ s.deployed ∧ d.configuration = configuration

def Distinct (rules : List RegulatoryRule) : Prop :=
  ∀ r ∈ rules, ∀ r' ∈ rules, r.ruleCode = r'.ruleCode → r.version = r'.version → r.id = r'.id

def OneActive (rules : List RegulatoryRule) : Prop :=
  ∀ r ∈ rules, ∀ r' ∈ rules, r.status = .active → r'.status = .active →
    r.ruleCode = r'.ruleCode → r.id = r'.id

structure Versioned (engine : Engine) (s : State) : Prop where
  distinct : Distinct s.rules
  oneActive : OneActive s.rules
  vouched : ∀ r ∈ s.rules, r.status = .active →
    engine.PassesAll r.configuration ∨ s.WasDeployed r.configuration

/-- A rollback to an existing version makes what that version says the active rule of the code. -/
def RollsBack (engine : Engine) (x : Step State Action) : Prop :=
  match x.act with
  | .rollbackRule ruleCode targetVersion _ _ =>
    ∀ target ∈ x.pre.rules, target.ruleCode = engine.normalize ruleCode →
      target.version = targetVersion →
      ∃ r ∈ x.post.rules, r.ruleCode = engine.normalize ruleCode ∧ r.status = .active ∧
        r.configuration = target.configuration ∧
        ∀ r' ∈ x.post.rules, r'.ruleCode = engine.normalize ruleCode → r'.status = .active → r' = r
  | _ => True

/-! ## When it holds -/

def State.HasVersion (s : State) (ruleCode : String) (version : Nat) : Prop :=
  ∃ r ∈ s.rules, r.ruleCode = ruleCode ∧ r.version = version

instance (s : State) (ruleCode : String) (version : Nat) :
    Decidable (s.HasVersion ruleCode version) :=
  inferInstanceAs (Decidable (∃ r ∈ s.rules, _))

instance (engine : Engine) (configuration : RuleConfiguration) :
    Decidable (engine.PassesAll configuration) :=
  inferInstanceAs (Decidable (∀ tc ∈ configuration.testCases, _))

instance (s : State) (configuration : RuleConfiguration) :
    Decidable (s.WasDeployed configuration) :=
  inferInstanceAs (Decidable (∃ d ∈ s.rules, _))

/-- A rule is created under a new code, or one that has no version 1; an edited version has no
    successor yet; a version rolled back to passes its test cases or has been deployed. -/
def Engine.Careful (engine : Engine) (s : State) : Action → Prop
  | .createRule dto _ => dto.conditions ≠ [] → ¬s.HasVersion (engine.normalize dto.ruleCode) 1
  | .editRule ruleId _ _ _ _ => ∀ existing ∈ s.findRule ruleId,
      ¬s.HasVersion existing.ruleCode (existing.version + 1)
  | .rollbackRule ruleCode targetVersion _ _ => ∀ target ∈ s.rules,
      target.ruleCode = engine.normalize ruleCode → target.version = targetVersion →
        engine.PassesAll target.configuration ∨ s.WasDeployed target.configuration
  | .testRule _ _ _ | .deployRule _ _ _ _ => True

instance (engine : Engine) (s : State) : (a : Action) → Decidable (engine.Careful s a)
  | .createRule _ _ => inferInstanceAs (Decidable (_ → _))
  | .editRule _ _ _ _ _ => inferInstanceAs (Decidable (∀ existing ∈ s.findRule _, _))
  | .rollbackRule _ _ _ _ => inferInstanceAs (Decidable (∀ target ∈ s.rules, _ → _ → _ ∨ _))
  | .testRule _ _ _ | .deployRule _ _ _ _ => isTrue trivial

/-! ## The invariant -/

structure Inv (engine : Engine) (s : State) : Prop where
  ids : s.rules.map (·.id) = List.range s.rules.length
  deployed : ∀ id ∈ s.deployed, id < s.rules.length
  versioned : Versioned engine s

section Rules

variable {engine : Engine} {s s' : State} {rule r r' : RegulatoryRule} {now : Int}
  {p : RegulatoryRule → Bool} {id : Nat} {configuration : RuleConfiguration}

theorem Inv.id_lt (h : Inv engine s) (hr : r ∈ s.rules) : r.id < s.rules.length := by
  have hmem := List.mem_map_of_mem (f := fun r : RegulatoryRule => r.id) hr
  rw [h.ids] at hmem
  exact List.mem_range.mp hmem

theorem Inv.eq_of_id (h : Inv engine s) (hr : r ∈ s.rules) (hr' : r' ∈ s.rules)
    (heq : r.id = r'.id) : r = r' := by
  have hnodup : (s.rules.map (·.id)).Nodup := by
    rw [h.ids]
    exact List.nodup_range
  exact List.inj_on_of_nodup_map hnodup hr hr' heq

theorem findRule_eq_some (h : s.findRule id = some rule) : rule ∈ s.rules ∧ rule.id = id := by
  unfold State.findRule at h
  exact ⟨List.mem_of_find?_eq_some h, of_decide_eq_true (List.find?_some h :)⟩

/-! ## What a row is -/

/-- What no operation changes of a row. -/
def RegulatoryRule.key (r : RegulatoryRule) : Nat × String × Nat × RuleConfiguration :=
  (r.id, r.ruleCode, r.version, r.configuration)

theorem key_eq (h : r.key = r'.key) : r.id = r'.id ∧ r.ruleCode = r'.ruleCode ∧
    r.version = r'.version ∧ r.configuration = r'.configuration := by
  simpa [RegulatoryRule.key] using h

/-- The rows are the same but for their status and dates. -/
def SameRows (s s' : State) : Prop := s'.rules.map (·.key) = s.rules.map (·.key)

theorem SameRows.symm (h : SameRows s s') : SameRows s' s := Eq.symm h

theorem SameRows.trans {s'' : State} (h : SameRows s s') (h' : SameRows s' s'') : SameRows s s'' :=
  Eq.trans h' h

theorem SameRows.exists (h : SameRows s s') (hr : r' ∈ s'.rules) : ∃ r ∈ s.rules, r.key = r'.key := by
  have hmem := List.mem_map_of_mem (f := RegulatoryRule.key) hr
  rw [show s'.rules.map (·.key) = s.rules.map (·.key) from h] at hmem
  exact List.mem_map.mp hmem

theorem SameRows.length (h : SameRows s s') : s'.rules.length = s.rules.length := by
  simpa using congrArg List.length (show s'.rules.map (·.key) = s.rules.map (·.key) from h)

theorem SameRows.ids (h : SameRows s s') : s'.rules.map (·.id) = s.rules.map (·.id) := by
  have hmap := congrArg (List.map Prod.fst) (show s'.rules.map (·.key) = s.rules.map (·.key) from h)
  rwa [List.map_map, List.map_map] at hmap

theorem SameRows.distinct (h : SameRows s s') (hd : Distinct s.rules) : Distinct s'.rules := by
  intro r hr r' hr' hcode hversion
  obtain ⟨q, hq, hkey⟩ := h.exists hr
  obtain ⟨q', hq', hkey'⟩ := h.exists hr'
  obtain ⟨hid, hc, hv, -⟩ := key_eq hkey
  obtain ⟨hid', hc', hv', -⟩ := key_eq hkey'
  rw [← hid, ← hid']
  exact hd q hq q' hq' (by rw [hc, hc', hcode]) (by rw [hv, hv', hversion])

theorem SameRows.hasVersion (h : SameRows s s') {ruleCode : String} {version : Nat} :
    s'.HasVersion ruleCode version ↔ s.HasVersion ruleCode version := by
  constructor
  · rintro ⟨r, hr, rfl, rfl⟩
    obtain ⟨q, hq, hkey⟩ := h.exists hr
    obtain ⟨-, hc, hv, -⟩ := key_eq hkey
    exact ⟨q, hq, hc, hv⟩
  · rintro ⟨r, hr, rfl, rfl⟩
    obtain ⟨q, hq, hkey⟩ := h.symm.exists hr
    obtain ⟨-, hc, hv, -⟩ := key_eq hkey
    exact ⟨q, hq, hc, hv⟩

theorem SameRows.wasDeployed (h : SameRows s s') (hd : ∀ id ∈ s.deployed, id ∈ s'.deployed)
    (hw : s.WasDeployed configuration) : s'.WasDeployed configuration := by
  obtain ⟨d, hmem, hdep, hconf⟩ := hw
  obtain ⟨q, hq, hkey⟩ := h.symm.exists hmem
  obtain ⟨hid, -, -, hc⟩ := key_eq hkey
  exact ⟨q, hq, by rw [hid]; exact hd d.id hdep, by rw [hc, hconf]⟩

/-! ## What an operation keeps -/

/-- Rows are kept, and the active ones among them are active already. -/
structure Retires (s s' : State) : Prop where
  same : SameRows s s'
  active : ∀ r' ∈ s'.rules, r'.status = .active → ∃ r ∈ s.rules, r.key = r'.key ∧ r.status = .active
  deployed : s'.deployed = s.deployed

theorem Retires.refl : Retires s s :=
  ⟨rfl, fun r hr hactive => ⟨r, hr, rfl, hactive⟩, rfl⟩

theorem Retires.trans {s'' : State} (h : Retires s s') (h' : Retires s' s'') : Retires s s'' := by
  refine ⟨h.same.trans h'.same, ?_, h'.deployed.trans h.deployed⟩
  intro r hr hactive
  obtain ⟨q, hq, hkey, hq'⟩ := h'.active r hr hactive
  obtain ⟨q', hmem, hkey', hactive'⟩ := h.active q hq hq'
  exact ⟨q', hmem, hkey'.trans hkey, hactive'⟩

theorem Retires.oneActive (h : Retires s s') (ho : OneActive s.rules) : OneActive s'.rules := by
  intro r hr r' hr' ha ha' hcode
  obtain ⟨q, hq, hkey, hqa⟩ := h.active r hr ha
  obtain ⟨q', hq', hkey', hqa'⟩ := h.active r' hr' ha'
  obtain ⟨hid, hc, -⟩ := key_eq hkey
  obtain ⟨hid', hc', -⟩ := key_eq hkey'
  rw [← hid, ← hid']
  exact ho q hq q' hq' hqa hqa' (by rw [hc, hc', hcode])

theorem Retires.vouched (h : Retires s s') (hv : ∀ r ∈ s.rules, r.status = .active →
    engine.PassesAll r.configuration ∨ s.WasDeployed r.configuration) :
    ∀ r ∈ s'.rules, r.status = .active →
      engine.PassesAll r.configuration ∨ s'.WasDeployed r.configuration := by
  intro r hr hactive
  obtain ⟨q, hq, hkey, hqa⟩ := h.active r hr hactive
  rw [← (key_eq hkey).2.2.2]
  refine (hv q hq hqa).imp_right (h.same.wasDeployed ?_)
  intro id hid
  rwa [h.deployed]

theorem Retires.inv (h : Retires s s') (hs : Inv engine s) : Inv engine s' := by
  refine ⟨by rw [h.same.ids, h.same.length, hs.ids], ?_, ?_⟩
  · rw [h.deployed, h.same.length]
    exact hs.deployed
  · exact ⟨h.same.distinct hs.versioned.distinct, h.oneActive hs.versioned.oneActive,
      h.vouched hs.versioned.vouched⟩

theorem retires_deprecate (s : State) (p : RegulatoryRule → Bool) (now : Int) :
    Retires s (s.deprecate p now) := by
  refine ⟨map_update fun _ => rfl, ?_, rfl⟩
  intro r hr hactive
  rcases mem_update.mp hr with ⟨q, -, -, rfl⟩ | ⟨hr, -⟩
  · cases hactive
  · exact ⟨r, hr, rfl, hactive⟩

/-- No selected row is active any more. -/
theorem not_active_deprecate (hr : r ∈ (s.deprecate p now).rules) (hactive : r.status = .active) :
    r ∈ s.rules ∧ p r = false := by
  rcases mem_update.mp hr with ⟨q, -, -, rfl⟩ | hr
  · cases hactive
  · exact hr

/-- A save of a row with the key of one of the table. -/
theorem sameRows_save (h : Inv engine s) (hr : r ∈ s.rules) (hkey : rule.key = r.key) :
    SameRows s (s.saveRule rule) := by
  show (update _ _ s.rules).map (·.key) = s.rules.map (·.key)
  unfold update
  rw [List.map_map]
  refine List.map_congr_left fun q hq => ?_
  show RegulatoryRule.key (if _ then rule else q) = q.key
  split
  case isTrue hid =>
    have hidq : q.id = rule.id := of_decide_eq_true hid
    have heq : q = r := h.eq_of_id hq hr (hidq.trans (key_eq hkey).1)
    rw [hkey, heq]
  case isFalse => rfl

theorem mem_saveRule (hr : r ∈ (s.saveRule rule).rules) :
    r = rule ∨ (r ∈ s.rules ∧ r.id ≠ rule.id) := by
  rcases mem_update.mp hr with ⟨q, -, -, rfl⟩ | ⟨hr, hid⟩
  · exact .inl rfl
  · exact .inr ⟨hr, of_decide_eq_false hid⟩

theorem retires_tested (h : Inv engine s) (hr : r ∈ s.rules) (report : RuleTestExecutionReport) :
    Retires s (s.saveRule (r.tested report now)) := by
  refine ⟨sameRows_save h hr rfl, ?_, rfl⟩
  intro q hq hactive
  rcases mem_saveRule hq with rfl | ⟨hq, -⟩
  · refine ⟨r, hr, rfl, ?_⟩
    revert hactive
    show (if _ then RuleStatus.testing else r.status) = .active → _
    split
    · exact nofun
    · exact id
  · exact ⟨q, hq, rfl, hactive⟩

theorem retires_testRule (h : Inv engine s) (customTestCases : Option (List RuleTestCase)) :
    Retires s (engine.testRule s id customTestCases now).1 := by
  unfold Engine.testRule
  cases hfind : s.findRule id with
  | none => exact .refl
  | some rule =>
    dsimp only
    split
    · exact .refl
    · exact retires_tested h (findRule_eq_some hfind).1 _

/-! ## A new row -/

theorem distinct_insert (h : Inv engine s) (hid : rule.id = s.rules.length) :
    Distinct (s.insert rule).rules ↔ ¬s.HasVersion rule.ruleCode rule.version := by
  unfold Distinct State.insert
  simp only [List.forall_mem_append, List.forall_mem_singleton]
  constructor
  · rintro ⟨hold, -⟩ ⟨r, hr, hcode, hversion⟩
    have heq := (hold r hr).2 hcode hversion
    have hlt := h.id_lt hr
    omega
  · intro hnone
    refine ⟨fun r hr => ⟨h.versioned.distinct r hr, fun hc hv => ?_⟩, fun r hr hc hv => ?_, ?_⟩
    · exact absurd ⟨r, hr, hc, hv⟩ hnone
    · exact absurd ⟨r, hr, hc.symm, hv.symm⟩ hnone
    · exact fun _ _ => trivial

theorem oneActive_insert (h : Inv engine s) (hnone : rule.status = .active →
    ∀ r ∈ s.rules, r.ruleCode = rule.ruleCode → r.status ≠ .active) :
    OneActive (s.insert rule).rules := by
  unfold OneActive State.insert
  simp only [List.forall_mem_append, List.forall_mem_singleton]
  refine ⟨fun r hr => ⟨h.versioned.oneActive r hr, fun ha ha' hc => ?_⟩,
    fun r hr ha ha' hc => ?_, ?_⟩
  · exact absurd ha (hnone ha' r hr hc)
  · exact absurd ha' (hnone ha r hr hc.symm)
  · exact fun _ _ _ => trivial

theorem wasDeployed_insert (h : Inv engine s) (hid : rule.id = s.rules.length) :
    (s.insert rule).WasDeployed configuration ↔ s.WasDeployed configuration := by
  constructor
  · rintro ⟨d, hd, hdep, hconf⟩
    rcases List.mem_append.mp hd with hd | hd
    · exact ⟨d, hd, hdep, hconf⟩
    · obtain rfl := List.mem_singleton.mp hd
      have hlt := h.deployed d.id hdep
      omega
  · rintro ⟨d, hd, hdep, hconf⟩
    exact ⟨d, List.mem_append_left _ hd, hdep, hconf⟩

theorem versioned_insert (h : Inv engine s) (hid : rule.id = s.rules.length)
    (hnone : rule.status = .active →
      ∀ r ∈ s.rules, r.ruleCode = rule.ruleCode → r.status ≠ .active) :
    Versioned engine (s.insert rule) ↔ ¬s.HasVersion rule.ruleCode rule.version ∧
      (rule.status = .active →
        engine.PassesAll rule.configuration ∨ s.WasDeployed rule.configuration) := by
  rw [← distinct_insert h hid]
  constructor
  · intro hv
    refine ⟨hv.distinct, fun ha => ?_⟩
    have hvouched := hv.vouched rule (List.mem_append_right _ (List.mem_singleton_self _)) ha
    rwa [wasDeployed_insert h hid] at hvouched
  · rintro ⟨hdistinct, hvouched⟩
    refine ⟨hdistinct, oneActive_insert h hnone, fun r hr ha => ?_⟩
    rw [wasDeployed_insert h hid]
    rcases List.mem_append.mp hr with hr | hr
    · exact h.versioned.vouched r hr ha
    · obtain rfl := List.mem_singleton.mp hr
      exact hvouched ha

theorem versioned_draft (h : Inv engine s) (hid : rule.id = s.rules.length)
    (hdraft : rule.status ≠ .active) :
    Versioned engine (s.insert rule) ↔ ¬s.HasVersion rule.ruleCode rule.version := by
  rw [versioned_insert h hid fun ha => absurd ha hdraft]
  exact and_iff_left fun ha => absurd ha hdraft

theorem inv_insert (h : Inv engine s) (hid : rule.id = s.rules.length)
    (hv : Versioned engine (s.insert rule)) : Inv engine (s.insert rule) := by
  have hlength : (s.insert rule).rules.length = s.rules.length + 1 := List.length_append
  refine ⟨?_, ?_, hv⟩
  · rw [hlength, List.range_succ, ← h.ids, ← hid]
    exact List.map_append
  · intro id hmem
    rw [hlength]
    exact Nat.lt_succ_of_lt (h.deployed id hmem)

/-! ## Deployment -/

theorem inv_deploy {status : RuleStatus} {authorId : String} (h : Inv engine s) (hr : r ∈ s.rules)
    (hkey : rule.key = r.key) (hactive : status = .active →
      engine.PassesAll rule.configuration ∧
        ∀ q ∈ s.rules, q.status = .active → q.ruleCode = rule.ruleCode → q.id = rule.id) :
    Inv engine (s.deploy rule status authorId now) := by
  have hsame : SameRows s (s.deploy rule status authorId now) := sameRows_save h hr hkey
  obtain ⟨hid, -⟩ := key_eq hkey
  -- an active row is one that was, or the one deployed
  have hrows : ∀ q ∈ (s.deploy rule status authorId now).rules, q.status = .active →
      (q ∈ s.rules ∧ q.id ≠ rule.id) ∨
        (q.key = rule.key ∧ status = .active) := by
    intro q hq ha
    rcases mem_saveRule hq with rfl | hq
    · exact .inr ⟨rfl, ha⟩
    · exact .inl hq
  refine ⟨by rw [hsame.ids, hsame.length, h.ids], ?_, ?_, ?_, ?_⟩
  · rw [hsame.length]
    show ∀ id ∈ s.deployed ++ [rule.id], _
    rw [List.forall_mem_append, List.forall_mem_singleton, hid]
    exact ⟨h.deployed, h.id_lt hr⟩
  · exact hsame.distinct h.versioned.distinct
  · intro q hq q' hq' ha ha' hcode
    rcases hrows q hq ha with ⟨hmem, hne⟩ | ⟨hk, hs⟩ <;>
      rcases hrows q' hq' ha' with ⟨hmem', hne'⟩ | ⟨hk', hs'⟩
    · exact h.versioned.oneActive q hmem q' hmem' ha ha' hcode
    · exact absurd ((hactive hs').2 q hmem ha (hcode.trans (key_eq hk').2.1)) hne
    · exact absurd ((hactive hs).2 q' hmem' ha' (hcode.symm.trans (key_eq hk).2.1)) hne'
    · rw [(key_eq hk).1, (key_eq hk').1]
  · intro q hq ha
    rcases hrows q hq ha with ⟨hmem, -⟩ | ⟨hk, hs⟩
    · refine (h.versioned.vouched q hmem ha).imp_right (hsame.wasDeployed ?_)
      exact fun id hid => List.mem_append_left _ hid
    · rw [(key_eq hk).2.2.2]
      exact .inl (hactive hs).1

theorem inv_deployRule {targetStatus : DeployTarget} {authorId : String} (h : Inv engine s) :
    Inv engine (engine.deployRule s id targetStatus authorId now).1 := by
  unfold Engine.deployRule
  cases hfind : s.findRule id with
  | none => exact h
  | some rule =>
    obtain ⟨hrule, -⟩ := findRule_eq_some hfind
    cases targetStatus with
    | staged => exact inv_deploy h hrule rfl nofun
    | active =>
      have htested : Retires s (engine.testRule s rule.id none now).1 := retires_testRule h none
      dsimp only
      split
      case isTrue => exact htested.inv h
      case isFalse hfailed =>
        have hretired := htested.trans (retires_deprecate _
          (fun r => r.ruleCode = rule.ruleCode && r.status = .active && r.id ≠ rule.id) now)
        obtain ⟨row, hrow, hkey⟩ := hretired.same.symm.exists hrule
        refine inv_deploy (hretired.inv h) hrow hkey.symm fun _ => ⟨?_, fun q hq ha hcode => ?_⟩
        · intro tc htc
          have hne : rule.configuration.testCases ≠ [] := List.ne_nil_of_mem htc
          have hpassed : (engine.report rule.configuration rule.configuration.testCases).passed =
              true := by
            by_contra hno
            exact hfailed ⟨hne, Bool.eq_false_of_not_eq_true hno⟩
          exact List.countP_eq_length.mp (of_decide_eq_true hpassed) tc htc
        · obtain ⟨-, hp⟩ := not_active_deprecate hq ha
          by_contra hid
          simp [hcode, ha, hid] at hp

/-! ## Steps -/

theorem le_latestVersion (hr : r ∈ s.rules) : r.version ≤ s.latestVersion r.ruleCode := by
  refine (foldl_max_le_iff.mp (Nat.le_refl _)).2 _ (List.mem_map_of_mem ?_)
  exact List.mem_filter.mpr ⟨hr, decide_eq_true rfl⟩

theorem start_inv : Inv engine start := by
  refine ⟨rfl, ?_, ?_, ?_, ?_⟩
  · exact fun _ hid => absurd hid List.not_mem_nil
  · exact fun _ hr => absurd hr List.not_mem_nil
  · exact fun _ hr => absurd hr List.not_mem_nil
  · exact fun _ hr => absurd hr List.not_mem_nil

theorem createRule_iff (h : Inv engine s) (dto : CreateRegulatoryRuleDto) :
    Versioned engine (engine.createRule s dto now).1 ↔
      (dto.conditions ≠ [] → ¬s.HasVersion (engine.normalize dto.ruleCode) 1) := by
  unfold Engine.createRule
  split
  case isTrue hnil => exact iff_of_true h.versioned fun hne => absurd hnil hne
  case isFalse hne =>
    rw [versioned_draft h rfl (show RuleStatus.draft ≠ .active by decide)]
    exact ⟨fun hv _ => hv, fun hv => hv hne⟩

theorem editRule_iff (h : Inv engine s) (dto : UpdateRegulatoryRuleDto) (authorId : String)
    (changeNotes : Option String) :
    Versioned engine (editRule s id dto authorId changeNotes now).1 ↔
      ∀ existing ∈ s.findRule id, ¬s.HasVersion existing.ruleCode (existing.version + 1) := by
  unfold editRule
  cases hfind : s.findRule id with
  | none => exact iff_of_true h.versioned fun _ hx => absurd hx (Option.not_mem_none _)
  | some existing =>
    have hretired := retires_deprecate s
      (fun r => r.id = existing.id && (r.status = .active || r.status = .staged)) now
    dsimp only
    rw [versioned_draft (hretired.inv h) rfl (show RuleStatus.draft ≠ .active by decide),
      hretired.same.hasVersion]
    constructor
    · intro hv r hr
      cases Option.mem_some.mp hr
      exact hv
    · exact fun hv => hv existing rfl

/-- The number that a rollback takes is above all. -/
theorem not_hasVersion_next {ruleCode : String} {targetVersion : Nat}
    (hr : r ∈ s.rules) (hcode : r.ruleCode = ruleCode) (hversion : r.version = targetVersion) :
    ¬s.HasVersion ruleCode
      ((if s.latestVersion ruleCode = 0 then targetVersion else s.latestVersion ruleCode) + 1) := by
  subst hcode hversion
  rintro ⟨q, hq, hcode, hversion⟩
  have hle := le_latestVersion hq
  have hle' := le_latestVersion hr
  rw [hcode, hversion] at hle
  split at hle <;> omega

/-- A rollback to `target` retires the active rows of the code and adds an active copy of it. -/
structure RolledBack (s s' : State) (target rule : RegulatoryRule) : Prop where
  retires : Retires s s'
  mem : target ∈ s.rules
  none_active : ∀ r ∈ s'.rules, r.ruleCode = rule.ruleCode → r.status ≠ .active
  id : rule.id = s'.rules.length
  ruleCode : rule.ruleCode = target.ruleCode
  configuration : rule.configuration = target.configuration
  status : rule.status = .active
  version : ¬s'.HasVersion rule.ruleCode rule.version

theorem rollbackRule_cases {ruleCode authorId : String} {targetVersion : Nat} {s' : State}
    (hs' : (engine.rollbackRule s ruleCode targetVersion authorId now).1 = s') :
    (s' = s ∧ ∀ target ∈ s.rules, target.ruleCode = engine.normalize ruleCode →
        target.version ≠ targetVersion) ∨
      ∃ retired target rule, s' = retired.insert rule ∧ RolledBack s retired target rule ∧
        target.ruleCode = engine.normalize ruleCode ∧ target.version = targetVersion := by
  subst hs'
  unfold Engine.rollbackRule
  dsimp only
  cases hfind : s.rules.find?
      (fun r => r.ruleCode = engine.normalize ruleCode && r.version = targetVersion) with
  | none =>
    refine .inl ⟨rfl, fun target hmem hcode hversion => ?_⟩
    have hno := List.find?_eq_none.mp hfind target hmem
    simp [hcode, hversion] at hno
  | some target =>
    have hmem := List.mem_of_find?_eq_some hfind
    obtain ⟨hcode, hversion⟩ : target.ruleCode = engine.normalize ruleCode ∧
        target.version = targetVersion := by
      simpa using List.find?_some hfind
    have hretires := retires_deprecate s
      (fun r => r.ruleCode = engine.normalize ruleCode && r.status = .active) now
    obtain ⟨row, hrow, hkey⟩ := hretires.same.symm.exists hmem
    obtain ⟨-, hc, hv, -⟩ := key_eq hkey
    refine .inr ⟨_, target, _, rfl, ⟨hretires, hmem, ?_, rfl, rfl, rfl, rfl, ?_⟩, hcode, hversion⟩
    · intro r hr hrcode ha
      obtain ⟨-, hp⟩ := not_active_deprecate hr ha
      simp [hrcode, hcode, ha] at hp
    · show ¬State.HasVersion _ target.ruleCode _
      rw [hcode]
      exact not_hasVersion_next hrow (hc.trans hcode) (hv.trans hversion)

theorem RolledBack.versioned {target : RegulatoryRule} (h : RolledBack s s' target rule)
    (hs : Inv engine s) : Versioned engine (s'.insert rule) ↔
      engine.PassesAll target.configuration ∨ s.WasDeployed target.configuration := by
  have hdeployed : s'.WasDeployed target.configuration ↔ s.WasDeployed target.configuration := by
    constructor
    · exact h.retires.same.symm.wasDeployed fun id hid => h.retires.deployed ▸ hid
    · exact h.retires.same.wasDeployed fun id hid => h.retires.deployed.symm ▸ hid
  rw [versioned_insert (h.retires.inv hs) h.id fun _ => h.none_active, and_iff_right h.version,
    forall_prop_of_true h.status, h.configuration, hdeployed]

theorem rollbackRule_iff {ruleCode authorId : String} {targetVersion : Nat} (h : Inv engine s) :
    Versioned engine (engine.rollbackRule s ruleCode targetVersion authorId now).1 ↔
      ∀ target ∈ s.rules, target.ruleCode = engine.normalize ruleCode →
        target.version = targetVersion →
          engine.PassesAll target.configuration ∨ s.WasDeployed target.configuration := by
  rcases rollbackRule_cases rfl with ⟨hs, hnone⟩ | ⟨retired, target, rule, hs, hback, hcode, hversion⟩
  · rw [hs]
    exact iff_of_true h.versioned fun target hmem hc hv => absurd hv (hnone target hmem hc)
  · rw [hs, hback.versioned h]
    constructor
    · intro hvouched q hq hc hv
      have hid : q.id = target.id := h.versioned.distinct q hq target hback.mem
        (hc.trans hcode.symm) (hv.trans hversion.symm)
      rwa [h.eq_of_id hq hback.mem hid]
    · exact fun hvouched => hvouched target hback.mem hcode hversion

theorem versioned_after (h : Inv engine s) (a : Action) :
    Versioned engine (engine.after s a) ↔ engine.Careful s a := by
  cases a with
  | createRule dto now => exact createRule_iff h dto
  | editRule id dto authorId changeNotes now => exact editRule_iff h dto authorId changeNotes
  | testRule id customTestCases now =>
    exact iff_of_true ((retires_testRule h customTestCases).inv h).versioned trivial
  | deployRule id targetStatus authorId now => exact iff_of_true (inv_deployRule h).versioned trivial
  | rollbackRule ruleCode targetVersion authorId now => exact rollbackRule_iff h

theorem inv_after (h : Inv engine s) {a : Action} (hc : engine.Careful s a) :
    Inv engine (engine.after s a) := by
  have hv := (versioned_after h a).mpr hc
  cases a with
  | createRule dto now =>
    revert hv
    show Versioned engine (engine.createRule s dto now).1 → Inv engine (engine.createRule s dto now).1
    unfold Engine.createRule
    split
    · exact fun _ => h
    · exact inv_insert h rfl
  | editRule id dto authorId changeNotes now =>
    revert hv
    show Versioned engine (editRule s id dto authorId changeNotes now).1 →
      Inv engine (editRule s id dto authorId changeNotes now).1
    unfold editRule
    cases s.findRule id with
    | none => exact fun _ => h
    | some existing => exact inv_insert ((retires_deprecate s _ now).inv h) rfl
  | testRule id customTestCases now => exact (retires_testRule h customTestCases).inv h
  | deployRule id targetStatus authorId now => exact inv_deployRule h
  | rollbackRule ruleCode targetVersion authorId now =>
    rcases rollbackRule_cases (rfl : _ = engine.after s (.rollbackRule ..)) with
      ⟨hs, -⟩ | ⟨retired, target, rule, hs, hback, -, -⟩
    · rw [hs]
      exact h
    · rw [hs] at hv ⊢
      exact inv_insert (hback.retires.inv h) hback.id hv

theorem rolls_back (h : Inv engine s) (a : Action) : RollsBack engine ⟨s, a, engine.after s a⟩ := by
  cases a with
  | createRule _ _ | editRule _ _ _ _ _ | testRule _ _ _ | deployRule _ _ _ _ => trivial
  | rollbackRule ruleCode targetVersion authorId now =>
    intro target hmem hcode hversion
    rcases rollbackRule_cases (rfl : _ = engine.after s (.rollbackRule ..)) with
      ⟨-, hnone⟩ | ⟨retired, found, rule, hs, hback, hcode', hversion'⟩
    · exact absurd hversion (hnone target hmem hcode)
    · have hid : target.id = found.id := h.versioned.distinct target hmem found hback.mem
        (hcode.trans hcode'.symm) (hversion.trans hversion'.symm)
      obtain rfl := h.eq_of_id hmem hback.mem hid
      show ∃ r ∈ (engine.after s _).rules, _ ∧ _ ∧ _ ∧ ∀ r' ∈ (engine.after s _).rules, _
      rw [hs]
      refine ⟨rule, List.mem_append_right _ (List.mem_singleton_self _),
        hback.ruleCode.trans hcode, hback.status, hback.configuration, fun r hr hc ha => ?_⟩
      rcases List.mem_append.mp hr with hr | hr
      · exact absurd ha (hback.none_active r hr (hc.trans (hback.ruleCode.trans hcode).symm))
      · exact List.mem_singleton.mp hr

end Rules

/-! ## Runs -/

/-- The table is in order and every rollback does what it says, in exactly the careful runs. -/
theorem rules_versioned (engine : Engine) {xs : List (Step State Action)} {s : State}
    (hrun : RuleRun engine xs s) :
    (∀ x ∈ xs, Versioned engine x.post ∧ RollsBack engine x) ↔
      ∀ x ∈ xs, engine.Careful x.pre x.act := by
  refine hrun.forall_iff (Inv engine) start_inv ?_ ?_
  · rintro ⟨s, a, s'⟩ hnext hinv
    obtain rfl : engine.after s a = s' := Option.some.inj hnext
    rw [versioned_after hinv a]
    exact and_iff_left (rolls_back hinv a)
  · rintro ⟨s, a, s'⟩ hnext hinv hcareful
    obtain rfl : engine.after s a = s' := Option.some.inj hnext
    exact inv_after hinv hcareful

/-! ## A version edited twice -/

/-- An engine that reads no values. -/
def exampleEngine : Engine := ⟨⟨fun _ => .nan, fun _ => none, fun _ => ""⟩, id, id⟩

def limitRule : CreateRegulatoryRuleDto where
  ruleCode := "AML-002"
  name := "Cross-Border Investment Cap"
  description := none
  jurisdiction := none
  category := .DEAL_LIMITS
  severity := none
  action := none
  conditions := [⟨"transaction.amountUsd", .GREATER_THAN, .num (.finite 10000)⟩]
  logicalOperator := none
  testCases := none
  effectiveFrom := none
  effectiveTo := none
  authorId := none
  changeNotes := none

def lowered : UpdateRegulatoryRuleDto where
  name := none
  description := none
  jurisdiction := none
  category := none
  severity := some .CRITICAL
  action := none
  conditions := some [⟨"transaction.amountUsd", .GREATER_THAN, .num (.finite 5000)⟩]
  logicalOperator := none
  testCases := none
  effectiveFrom := none
  effectiveTo := none
  changeNotes := none

/-- An edit of the version that is deployed, its deployment, and the way back. -/
def editedOnce : List Action :=
  [.createRule limitRule 1, .deployRule 0 .active "officer" 2, .editRule 0 lowered "officer" none 3,
    .deployRule 1 .active "officer" 4, .rollbackRule "AML-002" 1 "officer" 5]

theorem rules_versioned_edited_once :
    (replay exampleEngine.next start editedOnce).2.rules.map (fun r => (r.version, r.status)) =
        [(1, .deprecated), (2, .deprecated), (3, .active)] ∧
      ∀ x ∈ (replay exampleEngine.next start editedOnce).1,
        Versioned exampleEngine x.post ∧ RollsBack exampleEngine x :=
  ⟨by decide +kernel, (rules_versioned exampleEngine
    (run_replay exampleEngine.next start editedOnce)).mpr (by decide +kernel)⟩

def editedTwice : List Action :=
  [.createRule limitRule 1, .editRule 0 lowered "officer" none 2,
    .editRule 0 lowered "officer" none 3]

theorem version_repeated :
    ¬ ∀ (engine : Engine) (xs : List (Step State Action)) (s : State), RuleRun engine xs s →
      ∀ x ∈ xs, Versioned engine x.post ∧ RollsBack engine x := by
  intro h
  have hrun := run_replay exampleEngine.next start editedTwice
  have hversioned := h exampleEngine _ _ hrun
    ((replay exampleEngine.next start editedTwice).1.getLast (by decide +kernel))
    (List.getLast_mem _)
  have hdistinct := hversioned.1.distinct
  revert hdistinct
  unfold Distinct
  decide +kernel

end AgriFi.Compliance
