import AgriFi.AlertRegistry.Contract

/-
  The indexes of the alert registry agree with the rules it stores (`Indexed`): the counters
  count them, in all and by asset, and the list of a watcher holds the ids of the watcher's rules,
  each once. The counters start from 0 where nothing is stored and `remove_alert` reads 1 there,
  but a counter it reads is that of a stored rule, so the default never shows.
-/

namespace AgriFi.AlertRegistry

open AgriFi.Soroban AgriFi.Runs

variable {Addr : Type} [LinearOrder Addr]

/-! ## Moves -/

/-- The registry with one rule more. -/
def added (r : Registry Addr) (rule : AlertRule Addr) : Registry Addr :=
  { r with
    alertRule := r.alertRule.set rule.alertId rule
    watcherAlerts := r.watcherAlerts.set rule.watcher
      (getWatcherAlertIds r rule.watcher ++ [rule.alertId])
    globalAlertCount := some (r.globalAlertCount.getD 0 + 1)
    assetAlertCount := r.assetAlertCount.set rule.asset (r.assetAlertCount.getD rule.asset 0 + 1) }

/-- The registry without the rule stored under `id`. -/
def removed (r : Registry Addr) (id : Text) (rule : AlertRule Addr) : Registry Addr :=
  { r with
    watcherAlerts := r.watcherAlerts.set rule.watcher
      ((getWatcherAlertIds r rule.watcher).filter fun i => i ≠ id)
    globalAlertCount := some (r.globalAlertCount.getD 1 - 1)
    assetAlertCount := r.assetAlertCount.set rule.asset (r.assetAlertCount.getD rule.asset 1 - 1)
    alertRule := r.alertRule.remove id }

/-- What `add_alert` checks of the indexes before it stores `rule`. -/
structure Room (r : Registry Addr) (rule : AlertRule Addr) : Prop where
  fresh : r.alertRule.get? rule.alertId = none
  watcher_lt : (getWatcherAlertIds r rule.watcher).length < maxAlertsPerWatcher
  global_lt : r.globalAlertCount.getD 0 < globalAlertLimit
  asset_lt : r.assetAlertCount.getD rule.asset 0 < maxAlertsPerAsset

inductive Moves (r : Registry Addr) : Call Addr → Registry Addr → Prop
  | view : Moves r .view r
  | pause {caller : Addr} {call : Call Addr} {isPaused : Bool} :
      call = .pause caller ∨ call = .unpause caller → Moves r call { r with isPaused }
  | add {rule : AlertRule Addr} :
      Room r rule →
      Moves r (.addAlert rule.watcher rule.alertId rule.asset rule.threshold rule.cooldownSecs
        rule.condition) (added r rule)
  | remove {caller : Addr} {id : Text} {rule : AlertRule Addr} :
      r.alertRule.get? id = some rule → caller = rule.watcher ∨ caller = r.admin →
      Moves r (.removeAlert caller id) (removed r id rule)

variable {env : Env Addr} {r r' r₀ : Registry Addr} {call : Call Addr} {xs : List (CallStep Addr)}
  {rule : AlertRule Addr} {id : Text}

theorem addAlert_eq_ok {watcher : Addr} {alertId asset : Text} {threshold : Int}
    {cooldownSecs : Nat} {condition : AlertCondition}
    (h : addAlert env r watcher alertId asset threshold cooldownSecs condition = .ok r') :
    ∃ rule : AlertRule Addr,
      rule = ⟨alertId, watcher, asset, threshold, cooldownSecs, condition, env.timestamp⟩ ∧
        Room r rule ∧ r' = added r rule := by
  unfold addAlert requireAuth requireNotPaused at h
  simp only [failIf_bind_eq_ok, okOr_bind_eq_ok, checkedAddU_eq_some, pure_eq_ok, Except.ok.injEq,
    ge_iff_le, not_le, Bool.not_eq_true, Option.isSome_eq_false_iff,
    Option.isNone_iff_eq_none] at h
  obtain ⟨_, _, _, _, _, _, hnew, hw, hg, ha, _, ⟨_, rfl⟩, _, ⟨_, rfl⟩, rfl⟩ := h
  exact ⟨_, rfl, ⟨hnew, hw, hg, ha⟩, rfl⟩

theorem removeAlert_eq_ok {caller : Addr} (h : removeAlert env r caller id = .ok r') :
    ∃ rule, r.alertRule.get? id = some rule ∧ (caller = rule.watcher ∨ caller = r.admin) ∧
      r' = removed r id rule := by
  unfold removeAlert requireAuth requireNotPaused at h
  simp only [failIf_bind_eq_ok, okOr_bind_eq_ok, pure_eq_ok, Except.ok.injEq, not_and_or,
    not_not] at h
  obtain ⟨_, _, rule, hr, hc, rfl⟩ := h
  exact ⟨rule, hr, hc, rfl⟩

theorem moves_of_dispatch (h : dispatch env r call = .ok r') : Moves r call r' := by
  cases call with
  | initializeContract => simp [dispatch, initializeContract, failIf] at h
  | pause =>
    simp only [dispatch, pause, requireAuth, requireAdmin, failIf_bind_eq_ok, pure_eq_ok,
      Except.ok.injEq] at h
    obtain ⟨_, _, rfl⟩ := h
    exact .pause (.inl rfl)
  | unpause =>
    simp only [dispatch, unpause, requireAuth, requireAdmin, failIf_bind_eq_ok, pure_eq_ok,
      Except.ok.injEq] at h
    obtain ⟨_, _, rfl⟩ := h
    exact .pause (.inr rfl)
  | addAlert =>
    obtain ⟨rule, rfl, hroom, rfl⟩ := addAlert_eq_ok h
    exact .add hroom
  | removeAlert =>
    obtain ⟨rule, hr, hc, rfl⟩ := removeAlert_eq_ok h
    exact .remove hr hc
  | view =>
    obtain rfl := Except.ok.inj h
    exact .view

theorem moves_of_step {inv : Invocation Addr} (h : callStep r inv = some r') :
    Moves r inv.call r' := by
  unfold callStep at h
  split at h
  · next hd => exact Option.some.inj h ▸ moves_of_dispatch hd
  · simp at h

/-! ## The indexes -/

/-- The number of stored rules with asset `asset`. -/
def Registry.assetRules (r : Registry Addr) (asset : Text) : Nat :=
  r.alertRule.entries.countP fun e => e.2.asset = asset

structure Indexed (r : Registry Addr) : Prop where
  alertId_eq : ∀ id rule, r.alertRule.get? id = some rule → rule.alertId = id
  global_eq : r.globalAlertCount = some r.alertRule.entries.length
  asset_eq : ∀ asset, r.assetAlertCount.getD asset 0 = r.assetRules asset
  watcher_nodup : ∀ w, (getWatcherAlertIds r w).Nodup
  mem_watcher : ∀ w id,
    id ∈ getWatcherAlertIds r w ↔ ∃ rule, r.alertRule.get? id = some rule ∧ rule.watcher = w
  watcher_cap : ∀ w, (getWatcherAlertIds r w).length ≤ maxAlertsPerWatcher
  asset_cap : ∀ asset, r.assetRules asset ≤ maxAlertsPerAsset
  global_cap : r.alertRule.entries.length ≤ globalAlertLimit

theorem getWatcherAlertIds_added (r : Registry Addr) (rule : AlertRule Addr) (w : Addr) :
    getWatcherAlertIds (added r rule) w =
      if rule.watcher = w then getWatcherAlertIds r rule.watcher ++ [rule.alertId]
      else getWatcherAlertIds r w :=
  HostMap.getD_set _ _ _ _ _

theorem getWatcherAlertIds_removed (r : Registry Addr) (id : Text) (rule : AlertRule Addr)
    (w : Addr) :
    getWatcherAlertIds (removed r id rule) w =
      if rule.watcher = w then (getWatcherAlertIds r rule.watcher).filter fun i => i ≠ id
      else getWatcherAlertIds r w :=
  HostMap.getD_set _ _ _ _ _

theorem assetRules_added (hnew : r.alertRule.get? rule.alertId = none) (asset : Text) :
    (added r rule).assetRules asset =
      r.assetRules asset + if rule.asset = asset then 1 else 0 := by
  have hperm := HostMap.entries_set_perm hnew rule
  rw [Registry.assetRules, added, hperm.countP_eq, List.countP_cons]
  simp [Registry.assetRules]

theorem assetRules_removed (hr : r.alertRule.get? id = some rule) (asset : Text) :
    r.assetRules asset =
      (removed r id rule).assetRules asset + if rule.asset = asset then 1 else 0 := by
  have hperm := HostMap.entries_remove_perm hr
  rw [Registry.assetRules, hperm.countP_eq, List.countP_cons]
  simp [Registry.assetRules, removed]

theorem length_removed (hr : r.alertRule.get? id = some rule) :
    r.alertRule.entries.length = (removed r id rule).alertRule.entries.length + 1 :=
  (HostMap.entries_remove_perm hr).length_eq

/-- An id that is not stored is in no watcher's list. -/
theorem Indexed.not_mem (h : Indexed r) (hnew : r.alertRule.get? id = none) (w : Addr) :
    id ∉ getWatcherAlertIds r w := fun hmem => by
  obtain ⟨rule, hr, _⟩ := (h.mem_watcher w id).mp hmem
  simp [hnew] at hr

/-- The counter of a stored rule's asset is there, whatever default it is read with. -/
theorem Indexed.assetCount_eq (h : Indexed r) (hr : r.alertRule.get? id = some rule) (d : Nat) :
    r.assetAlertCount.getD rule.asset d = r.assetRules rule.asset := by
  have hcount := assetRules_removed hr rule.asset
  rw [if_pos rfl] at hcount
  have heq := h.asset_eq rule.asset
  rw [← heq]
  unfold HostMap.getD at heq ⊢
  cases hget : r.assetAlertCount.get? rule.asset with
  | none =>
    rw [hget, Option.getD_none] at heq
    omega
  | some n => rfl

theorem Indexed.added (h : Indexed r) (hroom : Room r rule) : Indexed (added r rule) := by
  obtain ⟨hnew, hw, hg, ha⟩ := hroom
  have hlen : (AlertRegistry.added r rule).alertRule.entries.length =
      r.alertRule.entries.length + 1 := HostMap.length_set_of_none hnew rule
  have hcount := assetRules_added hnew
  constructor
  case alertId_eq =>
    intro i rule' hi
    rw [AlertRegistry.added, HostMap.get?_set] at hi
    split at hi
    · next hid => exact Option.some.inj hi ▸ hid
    · exact h.alertId_eq i rule' hi
  case global_eq =>
    rw [hlen, AlertRegistry.added, h.global_eq]
    rfl
  case asset_eq =>
    intro asset
    rw [hcount, ← h.asset_eq, AlertRegistry.added, HostMap.getD_set]
    split
    · next hasset => rw [hasset]
    · rfl
  case watcher_nodup =>
    intro w
    rw [getWatcherAlertIds_added]
    split
    · exact List.nodup_append.mpr ⟨h.watcher_nodup _, List.nodup_singleton _, fun i hi j hj hij =>
        h.not_mem hnew _ (List.mem_singleton.mp hj ▸ hij ▸ hi)⟩
    · exact h.watcher_nodup w
  case mem_watcher =>
    intro w i
    rw [getWatcherAlertIds_added, AlertRegistry.added, HostMap.get?_set]
    by_cases hid : rule.alertId = i
    · subst hid
      by_cases hwatcher : rule.watcher = w
      · simp [hwatcher]
      · simp [hwatcher, h.not_mem hnew]
    · by_cases hwatcher : rule.watcher = w
      · simp [hid, hwatcher, h.mem_watcher, Ne.symm hid]
      · simp [hid, hwatcher, h.mem_watcher]
  case watcher_cap =>
    intro w
    rw [getWatcherAlertIds_added]
    split
    · rw [List.length_append, List.length_singleton]
      exact hw
    · exact h.watcher_cap w
  case asset_cap =>
    intro asset
    rw [hcount]
    split
    · next hasset =>
      rw [h.asset_eq, hasset] at ha
      exact ha
    · exact h.asset_cap asset
  case global_cap =>
    rw [hlen]
    rw [h.global_eq] at hg
    exact hg

theorem Indexed.removed (h : Indexed r) (hr : r.alertRule.get? id = some rule) :
    Indexed (removed r id rule) := by
  have hlen := length_removed hr
  have hcount := assetRules_removed hr
  constructor
  case alertId_eq =>
    intro i rule' hi
    rw [AlertRegistry.removed, HostMap.get?_remove] at hi
    split at hi
    · simp at hi
    · exact h.alertId_eq i rule' hi
  case global_eq =>
    have hpred : r.alertRule.entries.length - 1 =
        (AlertRegistry.removed r id rule).alertRule.entries.length := by omega
    rw [← hpred, AlertRegistry.removed, h.global_eq]
    rfl
  case asset_eq =>
    intro asset
    have hasset := h.asset_eq asset
    rw [hcount asset] at hasset
    rw [AlertRegistry.removed, HostMap.getD_set, h.assetCount_eq hr]
    split
    · next heq =>
      subst heq
      rw [hcount, if_pos rfl]
      rfl
    · next hne =>
      rw [if_neg hne] at hasset
      exact hasset
  case watcher_nodup =>
    intro w
    rw [getWatcherAlertIds_removed]
    split
    · exact (h.watcher_nodup _).filter _
    · exact h.watcher_nodup w
  case mem_watcher =>
    intro w i
    rw [getWatcherAlertIds_removed, AlertRegistry.removed, HostMap.get?_remove]
    by_cases hid : id = i
    · subst hid
      by_cases hwatcher : rule.watcher = w
      · simp [hwatcher]
      · simp [hwatcher, h.mem_watcher, hr]
    · by_cases hwatcher : rule.watcher = w
      · simp [hid, hwatcher, h.mem_watcher, Ne.symm hid]
      · simp [hid, hwatcher, h.mem_watcher]
  case watcher_cap =>
    intro w
    rw [getWatcherAlertIds_removed]
    split
    · exact (List.length_filter_le _ _).trans (h.watcher_cap _)
    · exact h.watcher_cap w
  case asset_cap =>
    intro asset
    have hcap := h.asset_cap asset
    rw [hcount asset] at hcap
    exact (Nat.le_add_right _ _).trans hcap
  case global_cap =>
    have hcap := h.global_cap
    omega

theorem Indexed.step (h : Indexed r) (hm : Moves r call r') : Indexed r' := by
  cases hm with
  | view => exact h
  | pause =>
    exact ⟨h.alertId_eq, h.global_eq, h.asset_eq, h.watcher_nodup, h.mem_watcher, h.watcher_cap,
      h.asset_cap, h.global_cap⟩
  | add hroom => exact h.added hroom
  | remove hr => exact h.removed hr

theorem Initialized.indexed (h : Initialized r) : Indexed r := by
  obtain ⟨admin, watcherRegistry, he⟩ := h
  obtain rfl := Except.ok.inj he
  exact ⟨by simp, rfl, fun _ => rfl, fun _ => List.nodup_nil, by simp [getWatcherAlertIds],
    fun _ => Nat.zero_le _, fun _ => Nat.zero_le _, Nat.zero_le _⟩

/-! ## Adding and removing again -/

/-- `r'` stores the rules of `r`, and its indexes read the same. An entry for `watcher` and one
    for `asset` are there even where `r` had none, and then hold what an absent one reads as. -/
structure Restored (r r' : Registry Addr) (watcher : Addr) (asset : Text) : Prop where
  rules_eq : r'.alertRule = r.alertRule
  global_eq : r'.globalAlertCount = r.globalAlertCount
  ids_eq : ∀ w, getWatcherAlertIds r' w = getWatcherAlertIds r w
  assetCount_eq : ∀ a, r'.assetAlertCount.getD a 0 = r.assetAlertCount.getD a 0
  ids_stored : r'.watcherAlerts = r.watcherAlerts.set watcher (getWatcherAlertIds r watcher)
  assetCount_stored :
    r'.assetAlertCount = r.assetAlertCount.set asset (r.assetAlertCount.getD asset 0)

theorem Indexed.restored (h : Indexed r) (hroom : Room r rule) :
    Restored r (AlertRegistry.removed (AlertRegistry.added r rule) rule.alertId rule) rule.watcher
      rule.asset := by
  have hids : (AlertRegistry.removed (AlertRegistry.added r rule) rule.alertId rule).watcherAlerts =
      r.watcherAlerts.set rule.watcher (getWatcherAlertIds r rule.watcher) := by
    have hkeep : ∀ i ∈ getWatcherAlertIds r rule.watcher, i ≠ rule.alertId := by
      rintro i hi rfl
      exact h.not_mem hroom.fresh _ hi
    have hfilter : (getWatcherAlertIds r rule.watcher ++ [rule.alertId]).filter
        (fun i => i ≠ rule.alertId) = getWatcherAlertIds r rule.watcher := by
      rw [List.filter_append, List.filter_eq_self.mpr (by simpa using hkeep)]
      simp
    rw [AlertRegistry.removed, getWatcherAlertIds_added, if_pos rfl, hfilter]
    exact HostMap.set_set _ _ _ _
  have hcount :
      (AlertRegistry.removed (AlertRegistry.added r rule) rule.alertId rule).assetAlertCount =
        r.assetAlertCount.set rule.asset (r.assetAlertCount.getD rule.asset 0) := by
    rw [AlertRegistry.removed, AlertRegistry.added]
    dsimp only
    rw [HostMap.getD_set_self, HostMap.set_set]
    rfl
  refine ⟨HostMap.remove_set_of_none hroom.fresh rule, ?_, ?_, ?_, hids, hcount⟩
  · rw [h.global_eq]
    simp [AlertRegistry.removed, AlertRegistry.added, h.global_eq]
  · intro w
    rw [getWatcherAlertIds, hids, HostMap.getD_set]
    split
    · next hw => rw [hw]
    · rfl
  · intro a
    rw [hcount, HostMap.getD_set]
    split
    · next ha => rw [ha]
    · rfl

/-- In every reachable state the indexes agree with the stored rules and the caps hold, and a
    rule that is added there and then removed leaves the rules and the indexes as they were. -/
theorem index_consistency (hinit : Initialized r₀) (hr : CallRun r₀ xs r) :
    Indexed r ∧
    ∀ (env env' : Env Addr) (watcher caller : Addr) (alertId asset : Text) (threshold : Int)
      (cooldownSecs : Nat) (condition : AlertCondition) (r₁ r₂ : Registry Addr),
      addAlert env r watcher alertId asset threshold cooldownSecs condition = .ok r₁ →
      removeAlert env' r₁ caller alertId = .ok r₂ → Restored r r₂ watcher asset := by
  have h : Indexed r :=
    hr.invariant Indexed hinit.indexed fun _ _ hs hu => hu.step (moves_of_step hs)
  refine ⟨h, fun env env' watcher caller alertId asset threshold cooldownSecs condition r₁ r₂
    hadd hremove => ?_⟩
  obtain ⟨rule, rfl, hroom, rfl⟩ := addAlert_eq_ok hadd
  obtain ⟨rule, hget, _, rfl⟩ := removeAlert_eq_ok hremove
  rw [added, HostMap.get?_set, if_pos rfl] at hget
  obtain rfl := Option.some.inj hget
  exact h.restored hroom

/-- Two watchers and two assets; the admin removes the rule of another. -/
def twoWatcherCalls : List (Nat × Call Nat) :=
  [(1, .addAlert 10 [1] [7] 100 60 .priceAbove), (2, .addAlert 11 [2] [7] 5 60 .priceBelow),
    (3, .addAlert 10 [3] [8] 5 60 .volatilitySpike), (4, .pause 0), (5, .unpause 0),
    (6, .removeAlert 0 [2])]

/-- A watcher new to the registry adds a rule for a new asset, and removes it. -/
def addedCalls : List (Nat × Call Nat) :=
  twoWatcherCalls ++ [(7, .addAlert 12 [4] [9] 1 60 .priceAbove)]

def restoredCalls : List (Nat × Call Nat) := addedCalls ++ [(8, .removeAlert 12 [4])]

theorem index_consistency_sample :
    (sampleRun twoWatcherCalls).2.globalAlertCount = some 2 ∧
      Indexed (sampleRun twoWatcherCalls).2 ∧
      Restored (sampleRun twoWatcherCalls).2 (sampleRun restoredCalls).2 12 [9] :=
  have h := index_consistency sampleRegistry_initialized (sampleRun_run twoWatcherCalls)
  ⟨by decide +kernel, h.1, h.2 (sampleEnv 7) (sampleEnv 8) 12 12 [4] [9] 1 60 .priceAbove
    (sampleRun addedCalls).2 (sampleRun restoredCalls).2 rfl rfl⟩

end AgriFi.AlertRegistry
