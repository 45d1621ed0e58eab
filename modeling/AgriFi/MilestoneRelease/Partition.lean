import AgriFi.Threads
import AgriFi.MilestoneRelease.Service
import Mathlib.Algebra.BigOperators.Group.List.Basic
import Mathlib.Data.List.Nodup
import Mathlib.Tactic.Linarith
import Mathlib.Tactic.Ring

/-
  What the releases of a deal and its final settlement come to. The cap of 98 per cent is a limit
  on percentages of a pool that is itself 98 per cent of the deal's value, so the two together
  leave out two per cent of the pool (`partial_releases_partition`). Each milestone is released at
  most once whatever the calls interleave; the cap holds as long as no call saves on releases that
  have changed since it read them (`OnFreshReleases`).
-/

namespace AgriFi.MilestoneRelease

open AgriFi.Runs AgriFi.Threads
open AgriFi.DealDelivered (Outcome)

variable {totalValue pct : Rat} {s s' : Shared} {call : Call} {calls : List Call} {pc' : Pc}
  {o : Outcome} {w : Nat}

/-- The releases on which the call has checked the cap. -/
def Pc.previousReleases : Pc → Option (List MilestoneReleaseRecord)
  | .save previousReleases _ => some previousReleases
  | .findDeal | .findExisting _ | .findPrevious _ | .finished _ => none

/-- A call that saves finds the releases as it read them. -/
def OnFreshReleases (s : System) : Action → Prop
  | .run w _ => ∀ call ∈ s.calls[w]?, ∀ previous ∈ call.pc.previousReleases,
      s.shared.records = previous
  | .configure _ | .onMilestoneRecorded _ => True

instance (s : System) : ∀ a : Action, Decidable (OnFreshReleases s a)
  | .run w _ => inferInstanceAs (Decidable (∀ call ∈ s.calls[w]?, _))
  | .configure _ | .onMilestoneRecorded _ => isTrue trivial

/-! ## One call -/

/-- The record is of the call's milestone, for its percentage, and fits under the cap. -/
def Checked (totalValue : Rat) (call : Call) : Prop :=
  ∀ previous record, call.pc = .save previous record →
    record.milestoneType = call.milestoneType ∧
    record.farmerAmountUsd = releasedAmount totalValue record.releasePct ∧
    cumulativeReleasedPct previous + record.releasePct ≤ escrowCap

theorem cumulativeReleasedPct_concat (records : List MilestoneReleaseRecord)
    (r : MilestoneReleaseRecord) :
    cumulativeReleasedPct (records ++ [r]) = cumulativeReleasedPct records + r.releasePct := by
  unfold cumulativeReleasedPct
  rw [List.map_append, List.sum_append, List.map_singleton, List.sum_singleton]

theorem stepSave_cases {record : MilestoneReleaseRecord} (h : stepSave s record o = (s', pc')) :
    (∃ ending, pc' = .finished ending) ∧
      (s' = s ∨ s.released record.milestoneType = false ∧
        s' = { s with records := s.records ++ [record] }) := by
  unfold stepSave at h
  cases o with
  | fail =>
    obtain ⟨rfl, rfl⟩ := Prod.mk.inj h
    exact ⟨⟨_, rfl⟩, .inl rfl⟩
  | ok | lost =>
    dsimp only at h
    split at h
    · obtain ⟨rfl, rfl⟩ := Prod.mk.inj h
      exact ⟨⟨_, rfl⟩, .inl rfl⟩
    · next hnew =>
      obtain ⟨rfl, rfl⟩ := Prod.mk.inj h
      exact ⟨⟨_, rfl⟩, .inr ⟨by simpa using hnew, rfl⟩⟩

theorem checked_of_ne_save {pc : Pc} (h : ∀ previous record, pc ≠ .save previous record) :
    Checked totalValue { call with pc } := by
  intro previous record heq
  exact absurd heq (h previous record)

/-- A call only reads, or saves the record it has checked, of a milestone not released yet. -/
theorem stepCall_cases (h : stepCall totalValue s call o = some (s', pc')) :
    Checked totalValue { call with pc := pc' } ∧
      (s' = s ∨ ∃ previous record, call.pc = .save previous record ∧
        s.released record.milestoneType = false ∧
        s' = { s with records := s.records ++ [record] }) := by
  unfold stepCall at h
  split at h
  · cases h
  · next previous record hpc =>
    obtain ⟨⟨ending, rfl⟩, hs⟩ := stepSave_cases (Option.some.inj h)
    refine ⟨checked_of_ne_save fun _ _ => Pc.noConfusion, hs.imp id ?_⟩
    rintro ⟨hnew, rfl⟩
    exact ⟨previous, record, hpc, hnew, rfl⟩
  · obtain ⟨rfl, rfl⟩ := Prod.mk.inj (Option.some.inj h)
    refine ⟨checked_of_ne_save ?_, .inl rfl⟩
    unfold stepFindDeal
    grind
  · obtain ⟨rfl, rfl⟩ := Prod.mk.inj (Option.some.inj h)
    refine ⟨checked_of_ne_save ?_, .inl rfl⟩
    unfold stepFindExisting
    grind
  · next pct hpc =>
    obtain ⟨rfl, rfl⟩ := Prod.mk.inj (Option.some.inj h)
    refine ⟨?_, .inl rfl⟩
    intro previous record heq
    dsimp only at heq
    unfold stepFindPrevious at heq
    split at heq
    · split at heq
      · cases heq
      · next hcap =>
        obtain ⟨rfl, rfl⟩ := Pc.save.inj heq
        exact ⟨rfl, rfl, not_lt.mp hcap⟩
    · cases heq

/-! ## The invariant -/

/-- No milestone is released twice, and every record has its percentage's part of the pool. -/
structure Sound (totalValue : Rat) (s : System) : Prop where
  unique : (s.shared.records.map MilestoneReleaseRecord.milestoneType).Nodup
  amounts : ∀ r ∈ s.shared.records, r.farmerAmountUsd = releasedAmount totalValue r.releasePct
  checked : ∀ call ∈ s.calls, Checked totalValue call

theorem Sound.record (hs : Sound totalValue ⟨s, calls⟩) (hw : calls[w]? = some call)
    {previous : List MilestoneReleaseRecord} {record : MilestoneReleaseRecord}
    (hpc : call.pc = .save previous record) (hnew : s.released record.milestoneType = false)
    (hchecked : Checked totalValue { call with pc := pc' }) :
    Sound totalValue ⟨{ s with records := s.records ++ [record] },
      calls.set w { call with pc := pc' }⟩ where
  unique := by
    have hnot : record.milestoneType ∉ s.records.map MilestoneReleaseRecord.milestoneType := by
      intro hmem
      obtain ⟨r, hr, heq⟩ := List.mem_map.mp hmem
      simp only [Shared.released, List.any_eq_false, decide_eq_true_eq] at hnew
      exact hnew r hr heq
    show (List.map _ (s.records ++ [record])).Nodup
    rw [List.map_append, List.map_singleton]
    refine List.nodup_append.mpr ⟨hs.unique, List.nodup_singleton _, ?_⟩
    rintro a ha b hb rfl
    obtain rfl := List.mem_singleton.mp hb
    exact hnot ha
  amounts := forall_mem_append hs.amounts
    (hs.checked call (List.mem_of_getElem? hw) previous record hpc).2.1
  checked := forall_mem_set (others_of_forall hs.checked) hchecked

/-- A step leaves the releases alone or records one that some call has checked. -/
theorem Sound.next {t t' : System} {a : Action} (hs : Sound totalValue t)
    (h : next totalValue t a = some t') :
    Sound totalValue t' ∧ (t'.shared.records = t.shared.records ∨
      ∃ w o call previous record, a = .run w o ∧ t.calls[w]? = some call ∧
        call.pc = .save previous record ∧ t'.shared.records = t.shared.records ++ [record]) := by
  cases a with
  | configure pct =>
    obtain rfl := Option.some.inj h
    exact ⟨⟨hs.unique, hs.amounts, hs.checked⟩, .inl rfl⟩
  | onMilestoneRecorded milestoneType =>
    obtain rfl := Option.some.inj h
    refine ⟨⟨hs.unique, hs.amounts, forall_mem_append hs.checked ?_⟩, .inl rfl⟩
    intro previous record heq
    cases heq
  | run w o =>
    simp only [MilestoneRelease.next, Option.bind_eq_bind, Option.bind_eq_some_iff] at h
    obtain ⟨call, hw, ⟨shared, pc⟩, hstep, hpost⟩ := h
    obtain rfl := Option.some.inj hpost
    obtain ⟨hchecked, rfl | ⟨previous, record, hpc, hnew, rfl⟩⟩ := stepCall_cases hstep
    · exact ⟨⟨hs.unique, hs.amounts, forall_mem_set (others_of_forall hs.checked) hchecked⟩,
        .inl rfl⟩
    · exact ⟨hs.record hw hpc hnew hchecked, .inr ⟨w, o, call, previous, record, rfl, hw, hpc, rfl⟩⟩

theorem sound_start : Sound totalValue (start pct) where
  unique := List.nodup_nil
  amounts := by simp [start]
  checked := by simp [start]

/-- A record saved on fresh releases stays under the cap that its call has checked. -/
theorem cap_next {t t' : System} {a : Action} (hs : Sound totalValue t) (hf : OnFreshReleases t a)
    (h : next totalValue t a = some t')
    (hcap : cumulativeReleasedPct t.shared.records ≤ escrowCap) :
    cumulativeReleasedPct t'.shared.records ≤ escrowCap := by
  obtain ⟨_, hsame | ⟨w, o, call, previous, record, rfl, hw, hpc, hrecords⟩⟩ := hs.next h
  · rwa [hsame]
  · have hfresh : t.shared.records = previous :=
      hf call hw previous (by simp [hpc, Pc.previousReleases])
    rw [hrecords, cumulativeReleasedPct_concat, hfresh]
    exact (hs.checked call (List.mem_of_getElem? hw) previous record hpc).2.2

/-! ## Amounts -/

def recordedUsd (records : List MilestoneReleaseRecord) : Rat :=
  (records.map MilestoneReleaseRecord.farmerAmountUsd).sum

theorem recordedUsd_eq {records : List MilestoneReleaseRecord}
    (h : ∀ r ∈ records, r.farmerAmountUsd = releasedAmount totalValue r.releasePct) :
    recordedUsd records = releasedAmount totalValue (cumulativeReleasedPct records) := by
  unfold recordedUsd cumulativeReleasedPct
  induction records with
  | nil => simp [releasedAmount]
  | cons r records ih =>
    rw [List.map_cons, List.sum_cons, List.map_cons, List.sum_cons, h r (List.mem_cons_self ..),
      ih fun r' hr' => h r' (List.mem_cons_of_mem _ hr')]
    unfold releasedAmount
    ring

/-- The final settlement takes what the cap leaves of the pool's percentages. -/
theorem recordedUsd_add_final {records : List MilestoneReleaseRecord}
    (h : ∀ r ∈ records, r.farmerAmountUsd = releasedAmount totalValue r.releasePct) :
    recordedUsd records + calculateFinalSettlementAmount totalValue records =
      98 / 100 * (98 / 100 * totalValue) := by
  rw [recordedUsd_eq h]
  unfold calculateFinalSettlementAmount releasedAmount escrowCap
  ring

/-! ## Runs -/

/-- Four repository calls that succeed. -/
def record (w : Nat) (milestoneType : MilestoneType) : List Action :=
  .onMilestoneRecorded milestoneType :: List.replicate 4 (.run w .ok)

/-- Two calls of 60 per cent each check the cap before either saves. -/
def overlapping : List Action :=
  .onMilestoneRecorded .farm :: .onMilestoneRecorded .warehouse :: List.replicate 3 (.run 0 .ok) ++
    List.replicate 3 (.run 1 .ok) ++ [.run 0 .ok, .run 1 .ok]

/-- Three milestones at changing percentages, one of them delivered again while it is being
    recorded, and a fourth that the cap refuses. -/
def sequence : List Action :=
  record 0 .farm ++ .configure 30 :: .onMilestoneRecorded .warehouse ::
    .onMilestoneRecorded .warehouse :: List.replicate 3 (.run 1 .ok) ++ [.run 2 .ok, .run 1 .lost,
    .run 2 .ok] ++ record 3 .port ++ record 4 .importer

end AgriFi.MilestoneRelease
