import AgriFi.Binary64
import AgriFi.Rows
import AgriFi.Runs
import Mathlib.Data.List.Sort

/-
  `src/oracles/oracle.service.ts` with `oracle-validation.service.ts`: the pipeline of a feed, from
  the readings of its providers to the value that is stored and submitted on chain, and the sums
  over what submissions cost. A number is a double, `none` where it is not finite; a time is in
  milliseconds, `none` for an invalid date.
-/

namespace AgriFi.Oracles

open AgriFi.Binary64 AgriFi.Rows AgriFi.Runs

inductive OracleProviderName where
  | chainlink
  | band
  deriving DecidableEq

structure OracleFeed where
  feedId : String
  providers : List OracleProviderName
  quorum : Nat
  decimals : Nat
  heartbeatSeconds : Int
  maxDeviationBps : Int
  contractId : Option String
  oracleAddress : Option String
  maxDailyCostXlm : Option Rat
  enabled : Bool
  lastValue : Option Rat
  deriving DecidableEq

structure OracleObservation where
  feedId : String
  provider : OracleProviderName
  value : Option Rat
  decimals : Nat
  fetchedAt : Int
  deviationBps : Option Rat
  valid : Bool
  validationError : Option String
  isFallback : Bool
  selected : Bool
  onChain : Bool
  gasCostXlm : Option Rat
  deriving DecidableEq

structure OracleReading where
  value : Option Rat
  decimals : Nat
  observedAt : Option Int
  provider : OracleProviderName
  deriving DecidableEq

structure ReadingOutcome where
  provider : OracleProviderName
  value : Option Rat
  decimals : Nat
  isFallback : Bool
  valid : Bool
  validationError : Option String
  deviationBps : Option Rat
  selected : Bool
  deriving DecidableEq

/-- Local days: `setHours(0, 0, 0, 0)` gives the start of the day of a time. -/
structure Calendar where
  midnight : Int → Int
  midnight_le : ∀ time, midnight time ≤ time
  midnight_eq : ∀ time later, midnight later ≤ time → time ≤ later → midnight time = midnight later

/-- What the service runs on. -/
structure Setup where
  /-- The driver hands a decimal column over as a text. -/
  asText : Bool
  /-- The number that a decimal column gives back for one that was saved. -/
  keep : Rat → Rat
  /-- `ORACLES_MOCK`. -/
  mock : Bool
  /-- The estimated fee of a submission, as its column gives it back. -/
  gasCostXlm : Rat
  calendar : Calendar

/-! ## Validation -/

/-- `none` where one of the numbers is not finite, and where the previous one is zero. -/
def deviationBps (next previous : Option Rat) : Option Rat :=
  match next, previous with
  | some next, some previous =>
    if previous = 0 then none else some (mul |div (sub next previous) previous| 10000)
  | _, _ => none

structure ReadingValidation where
  valid : Bool
  error : Option String
  deviationBps : Option Rat
  deriving DecidableEq

def OracleReading.usable (reading : OracleReading) : Bool := reading.value.any (0 < ·)

/-- `dev === null || dev <= maxDeviationBps`. -/
def OracleFeed.allows (feed : OracleFeed) (deviation : Option Rat) : Bool :=
  deviation.all fun bps => bps ≤ (feed.maxDeviationBps : Rat)

def validateReading (reading : OracleReading) (feed : OracleFeed) (previousValue : Option Rat)
    (now : Int) : ReadingValidation :=
  let age := reading.observedAt.map (now - ·)
  let deviation := deviationBps reading.value previousValue
  if reading.usable = false then ⟨false, some "invalid_value", none⟩
  else if age.any (feed.heartbeatSeconds * 1000 < ·) then ⟨false, some "stale_reading", none⟩
  else if age.any (· < -60000) then ⟨false, some "future_timestamp", none⟩
  else if feed.allows deviation = false then ⟨false, some "deviation_too_high", deviation⟩
  else ⟨true, none, deviation⟩

structure ConsensusResult where
  ok : Bool
  value : Option Rat
  decimals : Nat
  reason : Option String
  agreement : Nat
  deriving DecidableEq

def OracleReading.agrees (feed : OracleFeed) (value : Option Rat) (reading : OracleReading) : Bool :=
  feed.allows (deviationBps reading.value value)

/-- The value in the middle of the readings sorted by theirs. -/
def median (usable : List OracleReading) : Option Rat :=
  (usable.insertionSort fun a b => a.value.getD 0 ≤ b.value.getD 0)[usable.length / 2]?.bind (·.value)

def consensus (readings : List OracleReading) (feed : OracleFeed) : ConsensusResult :=
  let usable := readings.filter (·.usable)
  let agreeing := usable.filter (·.agrees feed (median usable))
  if usable = [] then ⟨false, none, feed.decimals, some "no_readings", 0⟩
  else if agreeing.length < max 1 feed.quorum then
    ⟨false, none, feed.decimals, some "quorum_not_met", agreeing.length⟩
  else ⟨true, median usable, feed.decimals, none, agreeing.length⟩

/-! ## Readings -/

/-- What comes of a provider: it is not registered, it throws, or it gives a reading. A number that
    is drawn at random goes with a failure, for the reading that may be made up in its place. -/
inductive Fetch where
  | unknown
  | failed (random : Rat)
  | read (reading : OracleReading)

/-- `maybeMock`, when mocks are on: the last value, or one, moved by up to a thousandth. -/
def mockReading (feed : OracleFeed) (provider : OracleProviderName) (now : Int) (random : Rat) :
    OracleReading :=
  let jitter := add 1 (mul (sub random (1 / 2)) (toDouble (2 / 1000)))
  let scale : Rat := 10 ^ feed.decimals
  {
    value := some (toDouble (mathRound (mul (feed.lastValue.getD 1) jitter * scale) / scale))
    decimals := feed.decimals
    observedAt := some now
    provider }

def failedOutcome (provider : OracleProviderName) (isFallback : Bool) (error : String) :
    ReadingOutcome :=
  ⟨provider, none, 0, isFallback, false, some error, none, false⟩

/-- The last value as the check for finite numbers takes it: a text is none. -/
def Setup.previous (setup : Setup) (feed : OracleFeed) : Option Rat :=
  if setup.asText then none else feed.lastValue

/-- One provider: the reading that counts, and the outcome. -/
def Setup.collect (setup : Setup) (feed : OracleFeed) (now : Int) (name : OracleProviderName)
    (isFallback : Bool) : Fetch → Option OracleReading × ReadingOutcome
  | .unknown => (none, failedOutcome name isFallback "provider_unknown")
  | .read reading =>
    let check := validateReading reading feed (setup.previous feed) now
    (some reading, {
      provider := name
      value := reading.value
      decimals := reading.decimals
      isFallback
      valid := check.valid
      validationError := check.error
      deviationBps := check.deviationBps
      selected := false })
  | .failed random =>
    if setup.mock = true then
      let mock := mockReading feed name now random
      (some mock, {
        provider := name
        value := mock.value
        decimals := mock.decimals
        isFallback
        valid := true
        validationError := none
        deviationBps := none
        selected := false })
    else (none, failedOutcome name isFallback "provider_unavailable")

/-- The outcomes of the providers, by their places. -/
def Setup.collected (setup : Setup) (feed : OracleFeed) (now : Int) (fetch : Nat → Fetch) :
    List (Option OracleReading × ReadingOutcome) :=
  feed.providers.zipIdx.map fun p => setup.collect feed now p.1 (0 < p.2) (fetch p.2)

def Setup.readings (setup : Setup) (feed : OracleFeed) (now : Int) (fetch : Nat → Fetch) :
    List OracleReading :=
  (setup.collected feed now fetch).filterMap (·.1)

/-- A valid outcome that agrees with the consensus is selected. -/
def ReadingOutcome.select (feed : OracleFeed) (result : ConsensusResult)
    (outcome : ReadingOutcome) : ReadingOutcome :=
  if result.ok = true ∧ outcome.valid = true ∧ outcome.value.isSome = true ∧
      feed.allows (Oracles.deviationBps outcome.value result.value) = true then
    { outcome with selected := true }
  else outcome

def Setup.outcomes (setup : Setup) (feed : OracleFeed) (now : Int) (fetch : Nat → Fetch) :
    List ReadingOutcome :=
  (setup.collected feed now fetch).map fun p =>
    p.2.select feed (consensus (setup.readings feed now fetch) feed)

/-! ## The tables -/

structure Submission where
  feedId : String
  value : Rat
  time : Int
  deriving DecidableEq

/-- A value that was stored or submitted, with the feed and the readings that it was found for. -/
structure Publication where
  feed : OracleFeed
  readings : List OracleReading
  now : Int
  value : Rat
  deriving DecidableEq

/-- The tables, what was submitted on chain, what was published in any way, and the time. -/
structure State where
  feeds : List OracleFeed
  observations : List OracleObservation
  submissions : List Submission
  published : List Publication
  clock : Int

def State.getFeed (s : State) (feedId : String) : Option OracleFeed :=
  s.feeds.find? (·.feedId = feedId)

def ReadingOutcome.row (feedId : String) (now : Int) (o : ReadingOutcome) : OracleObservation where
  feedId := feedId
  provider := o.provider
  value := o.value
  decimals := o.decimals
  fetchedAt := now
  deviationBps := o.deviationBps
  valid := o.valid
  validationError := o.validationError
  isFallback := o.isFallback
  selected := o.selected
  onChain := false
  gasCostXlm := none

def State.persistObservations (s : State) (feed : OracleFeed) (now : Int)
    (outcomes : List ReadingOutcome) : State :=
  { s with observations := s.observations ++ outcomes.map (·.row feed.feedId now) }

/-- `update({ feedId, selected: true }, { onChain: true, … })`. -/
def State.markOnChain (s : State) (feedId : String) (gasCostXlm : Rat) : State :=
  { s with
    observations := update (fun o => o.feedId = feedId && o.selected)
      (fun o => { o with onChain := true, gasCostXlm := some gasCostXlm }) s.observations }

def State.publish (s : State) (publication : Publication) : State :=
  { s with published := s.published ++ [publication] }

def State.submitPrice (s : State) (submission : Submission) : State :=
  { s with submissions := s.submissions ++ [submission] }

/-- The feed is saved with its new value. -/
def State.storeValue (s : State) (feed : OracleFeed) (lastValue : Rat) : State :=
  { s with
    feeds := update (fun f => f.feedId = feed.feedId)
      (fun _ => { feed with lastValue := some lastValue }) s.feeds }

/-! ## Costs -/

/-- The sum of `Number(o.gasCostXlm ?? 0)`. -/
def costOf (observations : List OracleObservation) : Rat :=
  sum (observations.map fun o => o.gasCostXlm.getD 0)

/-- What `isOverBudget` sums for the feed up to the time. -/
def Setup.spent (setup : Setup) (s : State) (feedId : String) (now : Int) : Rat :=
  costOf (s.observations.filter fun o =>
    o.feedId = feedId && o.onChain && setup.calendar.midnight now ≤ o.fetchedAt && o.fetchedAt ≤ now)

def Setup.isOverBudget (setup : Setup) (s : State) (feed : OracleFeed) (now : Int) : Bool :=
  feed.maxDailyCostXlm.any (· ≤ setup.spent s feed.feedId now)

structure CostSummary where
  totalXlm : Rat
  todayXlm : Rat
  byFeed : List (String × Rat)
  deriving DecidableEq

def Setup.getCostSummary (setup : Setup) (s : State) (feedId : Option String) (now : Int) :
    CostSummary :=
  let submissions := s.observations.filter fun o => o.onChain && feedId.all (o.feedId = ·)
  {
    totalXlm := costOf submissions
    todayXlm := costOf (submissions.filter (setup.calendar.midnight now ≤ ·.fetchedAt))
    byFeed := (submissions.map (·.feedId)).eraseDups.map fun id =>
      (id, costOf (submissions.filter (·.feedId = id))) }

/-! ## The pipeline -/

/-- How the submission ends: `lost` is made, and reported as an error. -/
inductive Outcome where
  | ok
  | fail
  | lost
  deriving DecidableEq

/-- A call of `runFeed`, and what it finds: the time, the providers, whether the observations and
    the feed can be saved, and how the submission ends. -/
structure RunFeed where
  feedId : String
  submit : Option Bool
  now : Int
  fetch : Nat → Fetch
  persisted : Bool
  submission : Outcome
  saved : Bool

structure RunFeedResult where
  ok : Bool
  consensusValue : Option Rat
  decimals : Nat
  agreement : Nat
  reason : Option String
  readings : List ReadingOutcome
  submitted : Bool
  deriving DecidableEq

/-- The publication of a value by the call. -/
def Setup.publication (setup : Setup) (feed : OracleFeed) (call : RunFeed) (value : Rat) :
    Publication :=
  ⟨feed, setup.readings feed call.now call.fetch, call.now, value⟩

def OracleFeed.onChain (feed : OracleFeed) : Bool :=
  feed.contractId.any (· ≠ "") && feed.oracleAddress.any (· ≠ "")

/-- The end of a call with a consensus: the value is stored. -/
def Setup.store (setup : Setup) (s : State) (feed : OracleFeed) (call : RunFeed) (value : Rat)
    (result : RunFeedResult) : State × Except String RunFeedResult :=
  if call.saved then
    ((s.storeValue feed (setup.keep value)).publish (setup.publication feed call value), .ok result)
  else (s, .error "The feed was not saved")

def Setup.runFeed (setup : Setup) (s : State) (call : RunFeed) :
    State × Except String RunFeedResult :=
  match s.getFeed call.feedId with
  | none => (s, .error ("Oracle feed " ++ call.feedId ++ " not found"))
  | some feed =>
    if feed.enabled = false then (s, .error ("Feed " ++ call.feedId ++ " is disabled"))
    else if call.submit.getD true = true ∧ setup.isOverBudget s feed call.now = true then
      (s, .error ("Feed " ++ call.feedId ++ " exceeded its daily cost budget"))
    else
      let readings := setup.readings feed call.now call.fetch
      let outcomes := setup.outcomes feed call.now call.fetch
      let agreed := consensus readings feed
      let result : RunFeedResult :=
        ⟨agreed.ok, agreed.value, agreed.decimals, agreed.agreement, agreed.reason, outcomes, false⟩
      if outcomes ≠ [] ∧ call.persisted = false then (s, .error "The observations were not saved")
      else
        let s := s.persistObservations feed call.now outcomes
        match agreed.value with
        | none => (s, .ok result)
        | some value =>
          if call.submit.getD true = true ∧ feed.onChain = true then
            let made := (s.submitPrice ⟨call.feedId, value, call.now⟩).publish
              (setup.publication feed call value)
            match call.submission with
            | .fail => (s, .error "The submission failed")
            | .lost => (made, .error "The submission failed")
            | .ok => setup.store (made.markOnChain call.feedId setup.gasCostXlm) feed call value
                { result with submitted := true }
          else setup.store s feed call value result

/-! ## What a call can do -/

/-- The call gets as far as the readings. -/
structure Setup.Ran (setup : Setup) (s : State) (call : RunFeed) (feed : OracleFeed) : Prop where
  found : s.getFeed call.feedId = some feed
  enabled : feed.enabled = true
  budget : call.submit.getD true = true → setup.isOverBudget s feed call.now = false
  persisted : setup.outcomes feed call.now call.fetch = [] ∨ call.persisted = true

/-- The call has a consensus. -/
structure Setup.Agreed (setup : Setup) (s : State) (call : RunFeed) (feed : OracleFeed)
    (value : Rat) : Prop where
  ran : setup.Ran s call feed
  agreed : (consensus (setup.readings feed call.now call.fetch) feed).value = some value

def RunFeed.submits (call : RunFeed) (feed : OracleFeed) : Prop :=
  call.submit.getD true = true ∧ feed.onChain = true

instance (call : RunFeed) (feed : OracleFeed) : Decidable (call.submits feed) :=
  inferInstanceAs (Decidable (_ ∧ _))

def Setup.observed (setup : Setup) (s : State) (call : RunFeed) (feed : OracleFeed) : State :=
  s.persistObservations feed call.now (setup.outcomes feed call.now call.fetch)

def Setup.made (setup : Setup) (s : State) (call : RunFeed) (feed : OracleFeed) (value : Rat) :
    State :=
  ((setup.observed s call feed).submitPrice ⟨call.feedId, value, call.now⟩).publish
    (setup.publication feed call value)

/-- The value is stored in the end, or that fails. -/
def Setup.ended (setup : Setup) (s : State) (call : RunFeed) (feed : OracleFeed) (value : Rat) :
    State :=
  if call.saved then
    (s.storeValue feed (setup.keep value)).publish (setup.publication feed call value)
  else s

inductive Setup.Effect (setup : Setup) (s : State) (call : RunFeed) : State → Prop
  | refused : setup.Effect s call s
  | observed {feed : OracleFeed} (h : setup.Ran s call feed) :
      setup.Effect s call (setup.observed s call feed)
  | lost {feed : OracleFeed} {value : Rat} (h : setup.Agreed s call feed value)
      (hsubmits : call.submits feed) (hlost : call.submission = .lost) :
      setup.Effect s call (setup.made s call feed value)
  | submitted {feed : OracleFeed} {value : Rat} (h : setup.Agreed s call feed value)
      (hsubmits : call.submits feed) (hok : call.submission = .ok) : setup.Effect s call
        (setup.ended ((setup.made s call feed value).markOnChain call.feedId setup.gasCostXlm) call
          feed value)
  | stored {feed : OracleFeed} {value : Rat} (h : setup.Agreed s call feed value) :
      setup.Effect s call (setup.ended (setup.observed s call feed) call feed value)

theorem store_fst {setup : Setup} {s : State} {feed : OracleFeed} {call : RunFeed} {value : Rat}
    {result : RunFeedResult} :
    (setup.store s feed call value result).1 = setup.ended s call feed value := by
  unfold Setup.store Setup.ended
  split <;> rfl

theorem runFeed_effect (setup : Setup) (s : State) (call : RunFeed) :
    setup.Effect s call (setup.runFeed s call).1 := by
  unfold Setup.runFeed
  cases hfeed : s.getFeed call.feedId with
  | none => exact .refused
  | some feed =>
    dsimp only
    split
    · exact .refused
    next henabled =>
    split
    · exact .refused
    next hbudget =>
    split
    · exact .refused
    next hpersisted =>
    have hran : setup.Ran s call feed := by
      constructor
      case found => exact hfeed
      case enabled => simpa using henabled
      case budget =>
        intro hsubmit
        simpa [hsubmit] using hbudget
      case persisted =>
        rw [not_and_or, not_not, Bool.not_eq_false] at hpersisted
        exact hpersisted
    cases hvalue : (consensus (setup.readings feed call.now call.fetch) feed).value with
    | none => exact .observed hran
    | some value =>
      have hagreed : setup.Agreed s call feed value := ⟨hran, hvalue⟩
      dsimp only
      split
      · next hsubmits =>
        cases hsubmission : call.submission with
        | ok =>
          dsimp only
          rw [store_fst]
          exact .submitted hagreed hsubmits hsubmission
        | fail => exact .observed hran
        | lost => exact .lost hagreed hsubmits hsubmission
      · rw [store_fst]
        exact .stored hagreed

/-! ## Runs -/

/-- Calls come one after the other. -/
def Setup.next (setup : Setup) (s : State) (call : RunFeed) : Option State :=
  if call.now < s.clock then none
  else some { (setup.runFeed s call).1 with clock := call.now }

/-- Feeds that were never run. -/
def start (feeds : List OracleFeed) (clock : Int) : State := ⟨feeds, [], [], [], clock⟩

abbrev FeedRun (setup : Setup) (feeds : List OracleFeed) (clock : Int)
    (xs : List (Step State RunFeed)) (s : State) : Prop :=
  Run setup.next (start feeds clock) xs s

end AgriFi.Oracles
