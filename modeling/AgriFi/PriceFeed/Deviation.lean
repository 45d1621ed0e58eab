import AgriFi.PriceFeed.Contract

/-
  How far an accepted price may be from the one before. The check multiplies with
  `saturating_mul`, so a move whose product leaves the range of `i128` is measured too small, and
  it compares the integers also when `configure_feed` has changed the decimals in between. Where
  neither happens (`SameScale`, the condition below) an accepted price is within the bound of its
  feed (`accepted_bounded`). Rounds and timestamps of a feed increase in every run.
-/

namespace AgriFi.PriceFeed

open AgriFi.Soroban AgriFi.Runs

variable {Addr : Type}

/-! ## An accepted price -/

section Accepted

variable {authorized : Addr → Bool} {s s' : Storage Addr} {oracle : Addr} {feedId : String}
  {value : Int} {roundId timestamp : Nat} {data : PriceData Addr}

theorem saturatingMul_eq {a b : Int} (h : FitsI128 (a * b)) : saturatingMul a b = a * b := by
  obtain ⟨hlow, hhigh⟩ := h
  unfold saturatingMul
  omega

/-- The difference is taken the way round that is not negative. -/
theorem deviationBps_eq_ok {prev deviation : Int} (h : deviationBps value prev = .ok deviation) :
    deviation = (saturatingMul |value - prev| maxDeviationBps).tdiv prev := by
  unfold deviationBps at h
  simp only [okOr_bind_eq_ok, okOr_eq_ok, checkedDiv_eq_some] at h
  obtain ⟨diff, hdiff, _, _, rfl⟩ := h
  have habs : diff = |value - prev| := by
    split at hdiff
    · next hlt => rw [abs_of_pos (by omega), ← (checkedSub_eq_some.mp hdiff).2]
    · next hle =>
      rw [abs_of_nonpos (by omega), ← (checkedSub_eq_some.mp hdiff).2]
      omega
  rw [habs]

/-- What an accepted price was checked against. -/
structure Checked (s : Storage Addr) (config : FeedConfig) (feedId : String)
    (data : PriceData Addr) : Prop where
  config_eq : s.feedConfig feedId = some config
  decimals_eq : data.decimals = config.decimals
  round_lt : ∀ prev, s.priceData feedId = some prev → prev.roundId < data.roundId
  timestamp_lt : ∀ prev, s.priceData feedId = some prev → prev.timestamp < data.timestamp
  deviation_le : ∀ prev, s.priceData feedId = some prev →
    (saturatingMul |data.value - prev.value| maxDeviationBps).tdiv prev.value ≤
      config.maxDeviationBps

theorem checkMove_eq_ok {config : FeedConfig} {prev : PriceData Addr} {u : Unit}
    (h : checkMove config prev value roundId timestamp = .ok u) :
    prev.roundId < roundId ∧ prev.timestamp < timestamp ∧
      (saturatingMul |value - prev.value| maxDeviationBps).tdiv prev.value ≤
        config.maxDeviationBps := by
  unfold checkMove at h
  simp only [failIf_bind_eq_ok, not_le] at h
  obtain ⟨hround, htime, h⟩ := h
  obtain ⟨deviation, hdeviation, h⟩ := bind_eq_ok.mp h
  rw [← deviationBps_eq_ok hdeviation]
  exact ⟨hround, htime, not_lt.mp (failIf_eq_ok.mp h)⟩

theorem submitPrice_eq_ok {r : Storage Addr × PriceData Addr}
    (h : submitPrice authorized s oracle feedId value roundId timestamp = .ok r) :
    ∃ config, Checked s config feedId r.2 ∧
      (r.2.oracle = oracle ∧ r.2.value = value ∧ r.2.roundId = roundId ∧
        r.2.timestamp = timestamp) ∧
      r.1 = { s with priceData := Function.update s.priceData feedId (some r.2) } := by
  unfold submitPrice at h
  obtain ⟨_, _, h⟩ := bind_eq_ok.mp h
  obtain ⟨_, _, h⟩ := bind_eq_ok.mp h
  obtain ⟨_, _, h⟩ := bind_eq_ok.mp h
  simp only [failIf_bind_eq_ok, okOr_bind_eq_ok] at h
  obtain ⟨_, config, hconfig, _, h⟩ := h
  cases hprev : s.priceData feedId with
  | none =>
    rw [hprev] at h
    obtain rfl := Except.ok.inj h
    refine ⟨config, ⟨hconfig, rfl, ?_, ?_, ?_⟩, ⟨rfl, rfl, rfl, rfl⟩, rfl⟩ <;> simp [hprev]
  | some prev =>
    rw [hprev] at h
    obtain ⟨_, hmove, h⟩ := bind_eq_ok.mp h
    obtain rfl := Except.ok.inj h
    obtain ⟨hround, htime, hdeviation⟩ := checkMove_eq_ok hmove
    refine ⟨config, ⟨hconfig, rfl, ?_, ?_, ?_⟩, ⟨rfl, rfl, rfl, rfl⟩, rfl⟩ <;> simpa [hprev]

end Accepted

variable [DecidableEq Addr]

/-! ## What a call does to the prices -/

/-- The feed a call submits a price to. -/
def Call.feed : Call Addr → Option String
  | .submitPrice _ feedId _ _ _ => some feedId
  | _ => none

theorem callStep_eq_some {s s' : Storage Addr} {inv : Invocation Addr} :
    callStep s inv = some s' ↔ dispatch s inv = .ok s' := by
  unfold callStep
  cases dispatch s inv <;> simp

theorem setPaused_prices {authorized : Addr → Bool} {s s' : Storage Addr} {caller : Addr}
    {paused : Bool} (h : setPaused authorized s caller paused = .ok s') :
    s'.priceData = s.priceData := by
  unfold setPaused at h
  simp only [bind_eq_ok, pure_eq_ok, Except.ok.injEq] at h
  obtain ⟨_, _, _, _, rfl⟩ := h
  rfl

/-- Calls that submit no price leave the prices as they are. -/
theorem callStep_other {s s' : Storage Addr} {inv : Invocation Addr}
    (h : callStep s inv = some s') (hf : inv.call.feed = none) : s'.priceData = s.priceData := by
  rw [callStep_eq_some] at h
  obtain ⟨authorized, call⟩ := inv
  cases call with
  | initializeContract admin =>
    simp only [dispatch, initializeContract, failIf_bind_eq_ok, pure_eq_ok, Except.ok.injEq] at h
    obtain ⟨_, rfl⟩ := h
    rfl
  | configureFeed =>
    simp only [dispatch, configureFeed, bind_eq_ok, pure_eq_ok, Except.ok.injEq] at h
    obtain ⟨_, _, _, _, _, _, _, _, rfl⟩ := h
    rfl
  | setOracle =>
    simp only [dispatch, setOracle, bind_eq_ok, pure_eq_ok, Except.ok.injEq] at h
    obtain ⟨_, _, _, _, _, _, rfl⟩ := h
    rfl
  | pause => exact setPaused_prices h
  | unpause => exact setPaused_prices h
  | submitPrice => simp [Call.feed] at hf

/-- A price that a call submitted is stored after all its checks. -/
theorem callStep_submit {s s' : Storage Addr} {inv : Invocation Addr} {feedId : String}
    (h : callStep s inv = some s') (hf : inv.call.feed = some feedId) :
    ∃ config data, Checked s config feedId data ∧
      inv.call = .submitPrice data.oracle feedId data.value data.roundId data.timestamp ∧
      s' = { s with priceData := Function.update s.priceData feedId (some data) } := by
  rw [callStep_eq_some] at h
  obtain ⟨authorized, call⟩ := inv
  cases call with
  | submitPrice oracle feedId' value roundId timestamp =>
    obtain rfl : feedId' = feedId := Option.some.inj hf
    obtain ⟨⟨s₁, data⟩, hsubmit, h⟩ := bind_eq_ok.mp h
    obtain rfl := Except.ok.inj h
    obtain ⟨config, hchecked, ⟨rfl, rfl, rfl, rfl⟩, hstore⟩ := submitPrice_eq_ok hsubmit
    exact ⟨config, data, hchecked, rfl, hstore⟩
  | _ => simp [Call.feed] at hf

/-! ## Rounds and timestamps -/

/-- `data` is a later reading than `prev`. -/
def PriceData.Later (prev data : PriceData Addr) : Prop :=
  prev.roundId < data.roundId ∧ prev.timestamp < data.timestamp

/-- The steps that submitted a price to a feed. -/
def submissions (feedId : String) (xs : List (CallStep Addr)) : List (CallStep Addr) :=
  xs.filter fun x => x.act.call.feed = some feedId

/-- The price stored by `y` is later than the one stored by `x`. -/
def StoredLater (feedId : String) (x y : CallStep Addr) : Prop :=
  ∃ prev data, x.post.priceData feedId = some prev ∧ y.post.priceData feedId = some data ∧
    prev.Later data

section Rounds

variable {s s' t : Storage Addr} {xs : List (CallStep Addr)} {feedId : String}

/-- A call stores a later price of a feed or none. -/
theorem step_price (feedId : String) {inv : Invocation Addr} (h : callStep s inv = some s') :
    (inv.call.feed = some feedId ∧ ∃ data, s'.priceData feedId = some data ∧
      ∀ prev, s.priceData feedId = some prev → prev.Later data) ∨
    (inv.call.feed ≠ some feedId ∧ s'.priceData feedId = s.priceData feedId) := by
  by_cases hf : inv.call.feed = some feedId
  · obtain ⟨config, data, hchecked, _, rfl⟩ := callStep_submit h hf
    refine .inl ⟨hf, data, Function.update_self .., fun prev hprev => ?_⟩
    exact ⟨hchecked.round_lt prev hprev, hchecked.timestamp_lt prev hprev⟩
  · refine .inr ⟨hf, ?_⟩
    cases hother : inv.call.feed with
    | none => rw [callStep_other h hother]
    | some feedId' =>
      obtain ⟨config, data, _, _, rfl⟩ := callStep_submit h hother
      have hne : feedId ≠ feedId' := fun heq => hf (by rw [hother, heq])
      exact Function.update_of_ne hne ..

omit [DecidableEq Addr] in
theorem PriceData.Later.trans {a b c : PriceData Addr} (h₁ : a.Later b) (h₂ : b.Later c) :
    a.Later c := ⟨h₁.1.trans h₂.1, h₁.2.trans h₂.2⟩

/-- Every later submission stores a later price. -/
theorem later_of_run (hr : Run callStep s xs t) {prev : PriceData Addr}
    (hprev : s.priceData feedId = some prev) :
    ∀ y ∈ submissions feedId xs, ∃ data, y.post.priceData feedId = some data ∧ prev.Later data := by
  induction hr generalizing prev with
  | nil => simp [submissions]
  | @cons s s' t inv xs hstep hr ih =>
    unfold submissions
    rcases step_price feedId hstep with ⟨hf, data, hdata, hlater⟩ | ⟨hf, hsame⟩
    · rw [List.filter_cons_of_pos (by simpa using hf)]
      intro y hy
      rcases List.mem_cons.mp hy with rfl | hy
      · exact ⟨data, hdata, hlater prev hprev⟩
      · obtain ⟨data', hdata', hlater'⟩ := ih hdata y hy
        exact ⟨data', hdata', (hlater prev hprev).trans hlater'⟩
    · rw [List.filter_cons_of_neg (by simpa using hf)]
      exact ih (hsame.trans hprev)

theorem submissions_later (hr : Run callStep s xs t) :
    (submissions feedId xs).Pairwise (StoredLater feedId) := by
  induction hr with
  | nil => exact List.Pairwise.nil
  | @cons s s' t inv xs hstep hr ih =>
    unfold submissions
    rcases step_price feedId hstep with ⟨hf, data, hdata, _⟩ | ⟨hf, _⟩
    · rw [List.filter_cons_of_pos (by simpa using hf)]
      refine List.pairwise_cons.mpr ⟨fun y hy => ?_, ih⟩
      obtain ⟨data', hdata', hlater⟩ := later_of_run hr hdata y hy
      exact ⟨data, data', hdata, hdata', hlater⟩
    · rw [List.filter_cons_of_neg (by simpa using hf)]
      exact ih

end Rounds

/-! ## The bound -/

/-- An accepted price moved by at most the bound of its feed. -/
def WithinBound (x : CallStep Addr) : Prop :=
  ∀ feedId prev, x.act.call.feed = some feedId → x.pre.priceData feedId = some prev →
    ∃ config data, x.pre.feedConfig feedId = some config ∧ x.post.priceData feedId = some data ∧
      |data.value - prev.value| * 10000 / prev.value ≤ config.maxDeviationBps

/-- An accepted price has the decimals of the one it was compared with. -/
def SameScale (x : CallStep Addr) : Prop :=
  ∀ feedId prev data, x.act.call.feed = some feedId → x.pre.priceData feedId = some prev →
    x.post.priceData feedId = some data → data.decimals = prev.decimals

/-- The product of the check is an `i128`, and the decimals of the feed are still those of the
    stored price. -/
def Call.Measurable (s : Storage Addr) : Call Addr → Prop
  | .submitPrice _ feedId value _ _ =>
    ∀ prev ∈ s.priceData feedId, FitsI128 (|value - prev.value| * 10000) ∧
      ∀ config ∈ s.feedConfig feedId, prev.decimals = config.decimals
  | _ => True

instance (s : Storage Addr) (call : Call Addr) : Decidable (call.Measurable s) :=
  match call with
  | .submitPrice _ feedId _ _ _ => inferInstanceAs (Decidable (∀ prev ∈ s.priceData feedId, _))
  | .initializeContract _ | .configureFeed .. | .setOracle .. | .pause _ | .unpause _ =>
    isTrue trivial

theorem accepted_bounded {x : CallStep Addr} (h : callStep x.pre x.act = some x.post)
    (hm : x.act.call.Measurable x.pre) : WithinBound x ∧ SameScale x := by
  constructor
  · intro feedId prev hf hprev
    obtain ⟨config, data, hchecked, hcall, hpost⟩ := callStep_submit h hf
    rw [hcall] at hm
    have hmul := saturatingMul_eq (hm prev hprev).1
    have hle := hchecked.deviation_le prev hprev
    refine ⟨config, data, hchecked.config_eq, by rw [hpost]; exact Function.update_self .., ?_⟩
    have hnn : 0 ≤ |data.value - prev.value| * 10000 := mul_nonneg (abs_nonneg _) (by decide)
    replace hle : (saturatingMul |data.value - prev.value| 10000).tdiv prev.value ≤
      config.maxDeviationBps := hle
    rw [hmul, Int.tdiv_eq_ediv_of_nonneg hnn] at hle
    exact hle
  · intro feedId prev data hf hprev hdata
    obtain ⟨config, data', hchecked, hcall, hpost⟩ := callStep_submit h hf
    rw [hcall] at hm
    rw [hpost] at hdata
    have hstored := Function.update_self feedId (some data') x.pre.priceData
    obtain rfl : data' = data := Option.some.inj (hstored.symm.trans hdata)
    rw [hchecked.decimals_eq, (hm prev hprev).2 config hchecked.config_eq]

/-- In a run whose submissions are all measurable an accepted price is within the bound of its
    feed and on the scale of the price before; rounds and timestamps increase in every run. -/
theorem run_bounded {s : Storage Addr} {xs : List (CallStep Addr)} (hr : Run callStep deployed xs s)
    (hm : ∀ x ∈ xs, x.act.call.Measurable x.pre) :
    (∀ x ∈ xs, WithinBound x ∧ SameScale x) ∧
      ∀ feedId, (submissions feedId xs).Pairwise (StoredLater feedId) := by
  refine ⟨fun x hx => ?_, fun feedId => submissions_later hr⟩
  have hstep := (hr.steps_invariant (fun _ => True) trivial (fun _ _ _ _ => trivial) x hx).1
  exact accepted_bounded hstep (hm x hx)

/-! ## Runs that break the bound -/

/-- A feed with the bound of 5% and an oracle for it. -/
def sampleSetup : List (Call Nat) :=
  [.initializeContract 0, .configureFeed 0 "XLM/USD" 7 60 500, .setOracle 0 "XLM/USD" 1 true]

def sampleRun (calls : List (Call Nat)) : List (CallStep Nat) × Storage Nat :=
  replay callStep deployed ((sampleSetup ++ calls).map fun call => ⟨fun _ => true, call⟩)

theorem sampleRun_run (calls : List (Call Nat)) :
    Run callStep deployed (sampleRun calls).1 (sampleRun calls).2 := run_replay _ _ _

/-- The last step of the sample run. -/
def sampleLast (calls : List (Call Nat)) : CallStep Nat :=
  ((sampleRun calls).1.getLast?).getD ⟨deployed, ⟨fun _ => true, .pause 0⟩, deployed⟩

theorem sampleLast_mem {calls : List (Call Nat)} (h : (sampleRun calls).1.isEmpty = false) :
    sampleLast calls ∈ (sampleRun calls).1 := by
  have hne : (sampleRun calls).1 ≠ [] := by simpa using h
  unfold sampleLast
  rw [List.getLast?_eq_some_getLast hne]
  exact List.getLast_mem hne

/-- Two prices 1% apart. -/
def steadyCalls : List (Call Nat) :=
  [.submitPrice 1 "XLM/USD" 1000000 1 10, .submitPrice 1 "XLM/USD" 1010000 2 20]

theorem run_bounded_steady :
    (WithinBound (sampleLast steadyCalls) ∧ SameScale (sampleLast steadyCalls)) ∧
      (submissions "XLM/USD" (sampleRun steadyCalls).1).Pairwise (StoredLater "XLM/USD") := by
  obtain ⟨hbounded, hlater⟩ := run_bounded (sampleRun_run steadyCalls) (by decide +kernel)
  exact ⟨hbounded _ (sampleLast_mem (by decide +kernel)), hlater _⟩

/-- A price that doubles from `2 ^ 126`, measured as a move of one basis point. -/
def doublingCalls : List (Call Nat) :=
  [.submitPrice 1 "XLM/USD" (2 ^ 126) 1 10, .submitPrice 1 "XLM/USD" (2 ^ 127 - 1) 2 20]

/-- The same integer on one decimal more: a tenth of the price. -/
def rescaledCalls : List (Call Nat) :=
  [.submitPrice 1 "XLM/USD" 1000000 1 10, .configureFeed 0 "XLM/USD" 8 60 500,
    .submitPrice 1 "XLM/USD" 1000000 2 20]

theorem bound_fails :
    (¬ ∀ (s : Storage Nat) xs, Run callStep deployed xs s → ∀ x ∈ xs, WithinBound x) ∧
      ¬ ∀ (s : Storage Nat) xs, Run callStep deployed xs s → ∀ x ∈ xs, SameScale x := by
  constructor
  · intro h
    have hlast : sampleLast doublingCalls ∈ (sampleRun doublingCalls).1 :=
      sampleLast_mem (by decide +kernel)
    obtain ⟨config, data, hconfig, hdata, hle⟩ := h _ _ (sampleRun_run doublingCalls) _ hlast
      "XLM/USD" ⟨2 ^ 126, 7, 1, 10, 1⟩ (by decide +kernel) (by decide +kernel)
    have hconfig' : (sampleLast doublingCalls).pre.feedConfig "XLM/USD" =
      some ⟨"XLM/USD", 7, 60, 500⟩ := by decide +kernel
    have hdata' : (sampleLast doublingCalls).post.priceData "XLM/USD" =
      some ⟨2 ^ 127 - 1, 7, 2, 20, 1⟩ := by decide +kernel
    obtain rfl := Option.some.inj (hconfig.symm.trans hconfig')
    obtain rfl := Option.some.inj (hdata.symm.trans hdata')
    exact absurd hle (by decide)
  · intro h
    have hlast : sampleLast rescaledCalls ∈ (sampleRun rescaledCalls).1 :=
      sampleLast_mem (by decide +kernel)
    have hscale := h _ _ (sampleRun_run rescaledCalls) _ hlast "XLM/USD" ⟨1000000, 7, 1, 10, 1⟩
      ⟨1000000, 8, 2, 20, 1⟩ (by decide +kernel) (by decide +kernel) (by decide +kernel)
    exact absurd hscale (by decide)

end AgriFi.PriceFeed
