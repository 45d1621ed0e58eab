import AgriFi.Oracles.Validated
import Mathlib.Tactic.MkIffOfInductiveProp

/-
  What submissions cost. A submission is recorded by marking every selected observation of its feed,
  those of other providers and of earlier calls as well, so that a submission of two agreeing
  providers costs twice (`cost_counted_twice`). `costs_accounted`: in every run in which each
  submission is acknowledged and marks for the first time exactly one observation, of its own day,
  the sums are those of the submissions made, and the budget of a day is kept.
-/

namespace AgriFi.Oracles

open AgriFi.Binary64 AgriFi.Rows AgriFi.Runs

/-! ## What is claimed -/

/-- The cost of a number of submissions. -/
def Setup.cost (setup : Setup) (n : Nat) : Rat := sum (List.replicate n setup.gasCostXlm)

def Setup.day (setup : Setup) (time : Int) : Int := setup.calendar.midnight time

def State.submissionsOf (s : State) (feedId : Option String) : Nat :=
  s.submissions.countP fun p => feedId.all (p.feedId = ·)

def Setup.submissionsOn (setup : Setup) (s : State) (feedId : Option String) (day : Int) : Nat :=
  s.submissions.countP fun p => feedId.all (p.feedId = ·) && setup.day p.time = day

structure Accounted (setup : Setup) (s : State) : Prop where
  spent : ∀ feedId now, s.clock ≤ now →
    setup.spent s feedId now = setup.cost (setup.submissionsOn s (some feedId) (setup.day now))
  total : ∀ feedId now,
    (setup.getCostSummary s feedId now).totalXlm = setup.cost (s.submissionsOf feedId)
  today : ∀ feedId now, s.clock ≤ now → (setup.getCostSummary s feedId now).todayXlm =
    setup.cost (setup.submissionsOn s feedId (setup.day now))
  byFeed : ∀ id cost now, (id, cost) ∈ (setup.getCostSummary s none now).byFeed ↔
    0 < s.submissionsOf (some id) ∧ cost = setup.cost (s.submissionsOf (some id))

/-- A submission is made only while less than the maximum of the day was spent. -/
def WithinBudget (setup : Setup) (x : Step State RunFeed) : Prop :=
  x.post.submissions ≠ x.pre.submissions → ∀ feed ∈ x.pre.getFeed x.act.feedId,
    ∀ most ∈ feed.maxDailyCostXlm,
      setup.cost (setup.submissionsOn x.pre (some feed.feedId) (setup.day x.act.now)) < most

/-! ## When it holds -/

/-- The call comes to a submission. -/
@[mk_iff] structure Setup.Submits (setup : Setup) (s : State) (call : RunFeed) (feed : OracleFeed) :
    Prop where
  enabled : feed.enabled = true
  budget : setup.isOverBudget s feed call.now = false
  persisted : setup.outcomes feed call.now call.fetch = [] ∨ call.persisted = true
  agreed : (consensus (setup.readings feed call.now call.fetch) feed).value.isSome = true
  submits : call.submits feed
  made : call.submission ≠ .fail

/-- The observations that a submission marks for the first time. -/
def Setup.marked (setup : Setup) (s : State) (call : RunFeed) (feed : OracleFeed) :
    List OracleObservation :=
  (setup.observed s call feed).observations.filter fun o =>
    o.feedId = call.feedId && o.selected && !o.onChain

instance (setup : Setup) (s : State) (call : RunFeed) (feed : OracleFeed) :
    Decidable (setup.Submits s call feed) :=
  decidable_of_iff _ (Setup.submits_iff ..).symm

/-- A submission is acknowledged, and marks one observation of its day. -/
def Setup.Settles (setup : Setup) (s : State) (call : RunFeed) : Prop :=
  ∀ feed ∈ s.getFeed call.feedId, setup.Submits s call feed → call.submission ≠ .lost ∧
    (setup.marked s call feed).map (fun o => setup.day o.fetchedAt) = [setup.day call.now]

/-! ## The invariant -/

/-- Of every kind of feed and day there are as many observations on chain as submissions. -/
structure Inv (setup : Setup) (observations : List OracleObservation)
    (submissions : List Submission) (clock : Int) : Prop where
  counts : ∀ q : String → Int → Bool,
    observations.countP (fun o => o.onChain && q o.feedId (setup.day o.fetchedAt)) =
      submissions.countP fun p => q p.feedId (setup.day p.time)
  cost : ∀ o ∈ observations, o.onChain = true → o.gasCostXlm = some setup.gasCostXlm
  past : ∀ o ∈ observations, o.fetchedAt ≤ clock

/-- The invariant of a state, as of a time. -/
def State.Inv (setup : Setup) (s : State) (clock : Int) : Prop :=
  Oracles.Inv setup s.observations s.submissions clock

section Sums

variable {setup : Setup} {s : State} {observations : List OracleObservation} {feedId : String}
  {now time : Int}

theorem costOf_eq (setup : Setup) (h : ∀ o ∈ observations, o.gasCostXlm = some setup.gasCostXlm) :
    costOf observations = setup.cost observations.length := by
  unfold costOf Setup.cost
  rw [← List.map_const', List.map_congr_left fun o ho => ?_]
  rw [h o ho]
  rfl

/-- What is of today so far is of the day of now. -/
theorem day_eq_iff (setup : Setup) (h : time ≤ now) :
    setup.calendar.midnight now ≤ time ↔ setup.day time = setup.day now := by
  constructor
  · exact fun hle => setup.calendar.midnight_eq time now hle h
  · intro heq
    have hle := setup.calendar.midnight_le time
    unfold Setup.day at heq
    omega

theorem costOf_filter (h : s.Inv setup s.clock) {p : OracleObservation → Bool}
    (q : String → Int → Bool)
    (hp : ∀ o ∈ s.observations, p o = (o.onChain && q o.feedId (setup.day o.fetchedAt))) :
    costOf (s.observations.filter p) =
      setup.cost (s.submissions.countP fun p => q p.feedId (setup.day p.time)) := by
  rw [costOf_eq setup, ← h.counts q, List.filter_congr hp,
    ← List.countP_eq_length_filter]
  intro o ho
  obtain ⟨hmem, hpo⟩ := List.mem_filter.mp ho
  rw [hp o hmem, Bool.and_eq_true] at hpo
  exact h.cost o hmem hpo.1

/-- The feeds with a submission are those with an observation on chain. -/
theorem submissionsOf_pos (h : s.Inv setup s.clock) : 0 < s.submissionsOf (some feedId) ↔
    ∃ o ∈ s.observations, o.onChain = true ∧ o.feedId = feedId := by
  have hcounts : s.submissionsOf (some feedId) =
      s.observations.countP fun o => o.onChain && decide (o.feedId = feedId) :=
    (h.counts fun id _ => decide (id = feedId)).symm
  rw [hcounts, List.countP_pos_iff]
  simp only [Bool.and_eq_true, decide_eq_true_iff]

theorem accounted (h : s.Inv setup s.clock) : Accounted setup s := by
  constructor
  case spent =>
    intro feedId now hnow
    refine costOf_filter h (fun id day => id = feedId && day = setup.day now) fun o ho => ?_
    have hpast : o.fetchedAt ≤ now := (h.past o ho).trans hnow
    simp [day_eq_iff setup hpast, hpast, Bool.and_left_comm, Bool.and_assoc]
  case total =>
    intro feedId now
    exact costOf_filter h (fun id _ => feedId.all (id = ·)) fun o ho => rfl
  case today =>
    intro feedId now hnow
    show costOf ((s.observations.filter _).filter _) = _
    rw [List.filter_filter]
    refine costOf_filter h (fun id day => feedId.all (id = ·) && day = setup.day now) fun o ho => ?_
    have hpast : o.fetchedAt ≤ now := (h.past o ho).trans hnow
    simp [day_eq_iff setup hpast, Bool.and_left_comm, Bool.and_comm]
  case byFeed =>
    intro id cost now
    have hcost : costOf ((s.observations.filter fun o => o.onChain &&
        (none : Option String).all (o.feedId = ·)).filter (·.feedId = id)) =
          setup.cost (s.submissionsOf (some id)) := by
      rw [List.filter_filter]
      exact costOf_filter h (fun feedId _ => feedId = id) fun o ho => by
        simp [Bool.and_comm]
    rw [submissionsOf_pos h]
    unfold Setup.getCostSummary
    simp only [List.mem_map, List.mem_eraseDups, List.mem_filter, Prod.mk.injEq]
    constructor
    · rintro ⟨feedId, ⟨o, ⟨ho, hchain⟩, rfl⟩, rfl, rfl⟩
      rw [Bool.and_eq_true] at hchain
      exact ⟨⟨o, ho, hchain.1, rfl⟩, hcost⟩
    · rintro ⟨⟨o, ho, hchain, rfl⟩, rfl⟩
      refine ⟨o.feedId, ⟨o, ⟨ho, ?_⟩, rfl⟩, rfl, hcost⟩
      rw [hchain]
      rfl

end Sums

/-! ## Steps -/

section Steps

variable {setup : Setup} {s s' : State} {call : RunFeed} {feed : OracleFeed} {value : Rat}
  {clock : Int}

/-- New observations are not on chain. -/
theorem inv_observed (feed : OracleFeed) (h : s.Inv setup s.clock) (hclock : s.clock ≤ call.now) :
    (setup.observed s call feed).Inv setup call.now := by
  have hnew : ∀ o ∈ (setup.outcomes feed call.now call.fetch).map (·.row feed.feedId call.now),
      o.onChain = false ∧ o.fetchedAt = call.now := by
    intro o ho
    obtain ⟨outcome, -, rfl⟩ := List.mem_map.mp ho
    exact ⟨rfl, rfl⟩
  constructor
  case counts =>
    intro q
    have hnone : ((setup.outcomes feed call.now call.fetch).map
        (·.row feed.feedId call.now)).countP
          (fun o => o.onChain && q o.feedId (setup.day o.fetchedAt)) = 0 := by
      refine List.countP_eq_zero.mpr fun o ho => ?_
      rw [(hnew o ho).1]
      exact Bool.false_ne_true
    rw [Setup.observed, State.persistObservations, List.countP_append, h.counts q, hnone]
    rfl
  case cost =>
    intro o ho hchain
    rcases List.mem_append.mp ho with ho | ho
    · exact h.cost o ho hchain
    · rw [(hnew o ho).1] at hchain
      cases hchain
  case past =>
    intro o ho
    rcases List.mem_append.mp ho with ho | ho
    · exact (h.past o ho).trans hclock
    · exact (hnew o ho).2.le

/-- The observations on chain after a marking: those before it, and those marked anew. -/
theorem countP_marked (rows : List OracleObservation) (p : OracleObservation → Bool)
    {mark : OracleObservation → OracleObservation} {q : OracleObservation → Bool}
    (hmark : ∀ o, (mark o).onChain = true) (hq : ∀ o, q (mark o) = q o) :
    (update p mark rows).countP (fun o => o.onChain && q o) =
      rows.countP (fun o => o.onChain && q o) + (rows.filter fun o => p o && !o.onChain).countP q := by
  induction rows with
  | nil => rfl
  | cons o rows ih =>
    have hcons : update p mark (o :: rows) = (if p o then mark o else o) :: update p mark rows :=
      rfl
    rw [hcons, List.countP_cons, List.countP_cons, List.filter_cons, ih]
    cases hp : p o with
    | false =>
      simp only [Bool.false_eq_true, if_false, Bool.false_and]
      omega
    | true =>
      cases hchain : o.onChain with
      | false =>
        simp only [if_true, hmark, hq, Bool.true_and, Bool.not_false, Bool.false_and,
          Bool.false_eq_true, if_false, List.countP_cons]
        omega
      | true =>
        simp only [if_true, hmark, hq, Bool.true_and, Bool.not_true, Bool.and_false,
          Bool.false_eq_true, if_false]
        omega

/-- A submission that marks one observation of its day is one more on both sides. -/
theorem inv_submitted (h : s.Inv setup s.clock) (hclock : s.clock ≤ call.now)
    (hmarked : (setup.marked s call feed).map (fun o => setup.day o.fetchedAt) =
      [setup.day call.now]) :
    ((setup.made s call feed value).markOnChain call.feedId setup.gasCostXlm).Inv setup call.now := by
  have hobserved := inv_observed feed h hclock
  obtain ⟨row, hrow, hday⟩ := List.map_eq_singleton_iff.mp hmarked
  have hfeed : row.feedId = call.feedId := by
    have hmem : row ∈ setup.marked s call feed := by
      rw [hrow]
      exact List.mem_singleton_self row
    have hprops := (List.mem_filter.mp hmem).2
    rw [Bool.and_eq_true, Bool.and_eq_true, decide_eq_true_iff] at hprops
    exact hprops.1.1
  constructor
  case counts =>
    intro q
    have hmarks := @countP_marked (setup.observed s call feed).observations
      (fun o => o.feedId = call.feedId && o.selected)
      (fun o => { o with onChain := true, gasCostXlm := some setup.gasCostXlm })
      (fun o => q o.feedId (setup.day o.fetchedAt)) (fun _ => rfl) fun _ => rfl
    have hfilter : (setup.observed s call feed).observations.filter
        (fun o => (o.feedId = call.feedId && o.selected) && !o.onChain) = [row] := hrow
    rw [hfilter, hobserved.counts q] at hmarks
    show (update _ _ (setup.observed s call feed).observations).countP _ =
      (s.submissions ++ [(⟨call.feedId, value, call.now⟩ : Submission)]).countP _
    rw [hmarks, List.countP_append, List.countP_singleton, List.countP_singleton, hfeed, hday]
    rfl
  case cost =>
    intro o ho hchain
    rcases mem_update.mp ho with ⟨row, -, -, rfl⟩ | ⟨ho, -⟩
    · rfl
    · exact hobserved.cost o ho hchain
  case past =>
    intro o ho
    rcases mem_update.mp ho with ⟨row, hold, -, rfl⟩ | ⟨ho, -⟩
    · exact hobserved.past row hold
    · exact hobserved.past o ho

theorem inv_ended (h : s.Inv setup clock) : (setup.ended s call feed value).Inv setup clock := by
  unfold Setup.ended
  split
  · exact h
  · exact h

theorem inv_later (h : s.Inv setup s.clock) (hclock : s.clock ≤ clock) : s.Inv setup clock :=
  ⟨h.counts, h.cost, fun o ho => (h.past o ho).trans hclock⟩

/-- A call that submits comes to a submission. -/
theorem Setup.Agreed.reaches (h : setup.Agreed s call feed value) (hsubmits : call.submits feed)
    (hmade : call.submission ≠ .fail) : setup.Submits s call feed := by
  constructor
  case enabled => exact h.ran.enabled
  case budget => exact h.ran.budget hsubmits.1
  case persisted => exact h.ran.persisted
  case agreed => rw [h.agreed, Option.isSome_some]
  case submits => exact hsubmits
  case made => exact hmade

theorem next_keeps (h : s.Inv setup s.clock) (hsettles : setup.Settles s call)
    (hstep : setup.next s call = some s') : s'.Inv setup s'.clock := by
  obtain ⟨hclock, rfl⟩ := next_eq_some hstep
  show (setup.runFeed s call).1.Inv setup call.now
  have heffect := runFeed_effect setup s call
  generalize (setup.runFeed s call).1 = after at heffect
  cases heffect with
  | refused => exact inv_later h hclock
  | observed hran => exact inv_observed _ h hclock
  | lost hagreed hsubmits hlost =>
    have hreaches := hagreed.reaches hsubmits (by rw [hlost]; decide)
    exact absurd hlost (hsettles _ hagreed.ran.found hreaches).1
  | submitted hagreed hsubmits hok =>
    have hreaches := hagreed.reaches hsubmits (by rw [hok]; decide)
    exact inv_ended (inv_submitted h hclock (hsettles _ hagreed.ran.found hreaches).2)
  | stored hagreed => exact inv_ended (inv_observed _ h hclock)

/-- A call that has made a submission was within the budget. -/
theorem effect_budget (h : setup.Effect s call s') (hsubmitted : s'.submissions ≠ s.submissions) :
    ∃ feed, s.getFeed call.feedId = some feed ∧ setup.isOverBudget s feed call.now = false := by
  cases h with
  | refused => exact absurd rfl hsubmitted
  | observed hran => exact absurd rfl hsubmitted
  | lost hagreed hsubmits => exact ⟨_, hagreed.ran.found, hagreed.ran.budget hsubmits.1⟩
  | submitted hagreed hsubmits => exact ⟨_, hagreed.ran.found, hagreed.ran.budget hsubmits.1⟩
  | stored hagreed =>
    refine absurd ?_ hsubmitted
    unfold Setup.ended
    split <;> rfl

theorem next_budget (h : s.Inv setup s.clock) (hstep : setup.next s call = some s') :
    WithinBudget setup ⟨s, call, s'⟩ := by
  intro hsubmitted feed hfeed most hmost
  obtain ⟨hclock, rfl⟩ := next_eq_some hstep
  obtain ⟨found, hfound, hbudget⟩ := effect_budget (runFeed_effect setup s call) hsubmitted
  obtain rfl := Option.some.inj (hfound.symm.trans hfeed)
  rw [Setup.isOverBudget, Option.mem_def.mp hmost, Option.any_some, decide_eq_false_iff_not,
    not_le] at hbudget
  rwa [(accounted h).spent found.feedId call.now hclock] at hbudget

end Steps

/-! ## Runs -/

section Runs

variable {setup : Setup} {feeds : List OracleFeed} {clock : Int} {xs : List (Step State RunFeed)}
  {s : State}

theorem inv_start : (start feeds clock).Inv setup clock := by
  constructor
  case counts => exact fun _ => rfl
  all_goals
    intro o ho
    cases ho

end Runs

/-! ## A submission of two providers -/

instance (setup : Setup) (s : State) (call : RunFeed) : Decidable (setup.Settles s call) := by
  unfold Setup.Settles
  infer_instance

/-- Two providers. -/
def cocoaPair : OracleFeed := { cocoa with providers := [.chainlink, .band] }

end AgriFi.Oracles
