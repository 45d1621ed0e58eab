import AgriFi.Middle
import AgriFi.Oracles.Service

/-
  What the consensus makes of readings that disagree. Its value is the one in the middle, so that it
  stays in every interval that has more than half of the usable readings, whatever the others are
  and in whatever order they come (`consensus_resists`). The agreement counts the usable readings
  within the feed's bound of the value, by `deviationBps`; that is a computation on doubles, which
  moves the real deviation by less than `2^-51` of itself (`deviationBps_near`).
-/

namespace AgriFi.Oracles

open AgriFi.Binary64 AgriFi.Middle

/-! ## What is claimed -/

/-- The reading's value is in an interval. -/
def OracleReading.liesIn (a b : Rat) (reading : OracleReading) : Bool :=
  reading.value.any fun value => a ≤ value ∧ value ≤ b

/-- The reading deviates from a value by no more than the feed allows. -/
def OracleReading.within (feed : OracleFeed) (value : Rat) (reading : OracleReading) : Bool :=
  (deviationBps reading.value (some value)).any (· ≤ (feed.maxDeviationBps : Rat))

/-- The deviation in basis points, as a rational number. -/
def exactBps (next previous : Rat) : Rat := |next - previous| / previous * 10000

/-! ## The deviation of doubles -/

section Deviation

variable {next previous bps : Rat}

theorem deviationBps_eq (next : Rat) (h : 0 < previous) :
    deviationBps (some next) (some previous) =
      some (mul |div (sub next previous) previous| 10000) := by
  show (if previous = 0 then none else _) = _
  rw [if_neg h.ne']

/-- Three roundings. -/
theorem deviationBps_near (h : 0 < previous)
    (hbps : deviationBps (some next) (some previous) = some bps) :
    exactBps next previous * (1 - 1 / 2 ^ 51) ≤ bps ∧
      bps ≤ exactBps next previous * (1 + 1 / 2 ^ 51) := by
  rw [deviationBps_eq next h] at hbps
  obtain rfl := Option.some.inj hbps
  set difference := sub next previous with hdifference
  set quotient := div difference previous with hquotient
  have hexact : 0 ≤ exactBps next previous := by
    unfold exactBps
    positivity
  have hscale : ∀ {x y : Rat} (c : Rat), |x| ≤ |y| * c → |x / previous| ≤ |y| / previous * c := by
    intro x y c hle
    rw [abs_div, abs_of_pos h, div_mul_eq_mul_div]
    exact div_le_div_of_nonneg_right hle h.le
  have hscale' : ∀ {x y : Rat} (c : Rat), |y| * c ≤ |x| → |y| / previous * c ≤ |x / previous| := by
    intro x y c hle
    rw [abs_div, abs_of_pos h, div_mul_eq_mul_div]
    exact div_le_div_of_nonneg_right hle h.le
  have hsub := hscale _ (abs_toDouble_le (next - previous))
  have hsub' := hscale' _ (le_abs_toDouble (next - previous))
  have hdiv := abs_toDouble_le (difference / previous)
  have hdiv' := le_abs_toDouble (difference / previous)
  have hmul := abs_toDouble_le (|quotient| * 10000)
  have hmul' := le_abs_toDouble (|quotient| * 10000)
  have hnonneg : 0 ≤ mul |quotient| 10000 := toDouble_nonneg (by positivity)
  change _ ≤ |div difference previous| at hdiv'
  change |div difference previous| ≤ _ at hdiv
  change _ ≤ |mul |quotient| 10000| at hmul'
  change |mul |quotient| 10000| ≤ _ at hmul
  rw [abs_of_nonneg hnonneg, abs_of_nonneg (by positivity : 0 ≤ |quotient| * 10000)] at hmul hmul'
  change |difference / previous| ≤ _ at hsub
  change _ ≤ |difference / previous| at hsub'
  have hbase : exactBps next previous = |next - previous| / previous * 10000 := rfl
  constructor
  · linarith
  · linarith

/-- Which readings agree is decided in doubles: a reading that is within the bound by a little is
    counted, one that is beyond it by a little is not. -/
theorem within_near {feed : OracleFeed} {reading : OracleReading} {value : Rat}
    (h : 0 < value) (hreading : reading.value = some next) :
    (exactBps next value * (1 + 1 / 2 ^ 51) ≤ feed.maxDeviationBps →
      reading.within feed value = true) ∧
    (feed.maxDeviationBps < exactBps next value * (1 - 1 / 2 ^ 51) →
      reading.within feed value = false) := by
  obtain ⟨hlow, hhigh⟩ := deviationBps_near h (deviationBps_eq next h)
  unfold OracleReading.within
  rw [hreading, deviationBps_eq next h]
  constructor
  · intro hle
    simpa using hhigh.trans hle
  · intro hlt
    simpa using hlt.trans_le hlow

end Deviation

/-! ## The value in the middle -/

section Consensus

variable {feed : OracleFeed} {readings readings' usable : List OracleReading}
  {reading : OracleReading} {value a b : Rat}

/-- What the readings are sorted by. -/
def OracleReading.key (reading : OracleReading) : Rat := reading.value.getD 0

theorem median_eq (usable : List OracleReading) :
    median usable = (middle OracleReading.key usable).bind (·.value) := rfl

theorem value_of_usable (h : reading.usable = true) :
    0 < reading.key ∧ reading.value = some reading.key := by
  unfold OracleReading.usable at h
  unfold OracleReading.key
  cases hvalue : reading.value with
  | none => simp [hvalue] at h
  | some value => exact ⟨by simpa [hvalue] using h, rfl⟩

theorem median_of_usable (h : ∀ r ∈ usable, r.usable = true) :
    median usable = (middle OracleReading.key usable).map OracleReading.key := by
  rw [median_eq]
  cases hmiddle : middle OracleReading.key usable with
  | none => rfl
  | some r => exact (value_of_usable (h r (mem_of_middle hmiddle))).2

theorem usable_of_mem_filter : ∀ r ∈ readings.filter (·.usable), r.usable = true :=
  fun _ hr => (List.mem_filter.mp hr).2

theorem median_of_perm (h : readings.Perm readings') :
    median (readings.filter (·.usable)) = median (readings'.filter (·.usable)) := by
  rw [median_of_usable usable_of_mem_filter, median_of_usable usable_of_mem_filter]
  exact middle_key_of_perm (h.filter _)

/-- The order of the readings does not matter. -/
theorem consensus_of_perm (h : readings.Perm readings') :
    consensus readings feed = consensus readings' feed := by
  have husable := h.filter (·.usable)
  have hempty : readings.filter (·.usable) = [] ↔ readings'.filter (·.usable) = [] := by
    rw [← List.length_eq_zero_iff, ← List.length_eq_zero_iff, husable.length_eq]
  have hagreeing := (husable.filter
    (·.agrees feed (median (readings.filter (·.usable))))).length_eq
  unfold consensus
  dsimp only
  rw [median_of_perm h] at hagreeing ⊢
  rw [hagreeing]
  simp only [hempty]

theorem agrees_eq_within (hvalue : 0 < value) (h : reading.usable = true) :
    reading.agrees feed (some value) = reading.within feed value := by
  unfold OracleReading.agrees OracleReading.within OracleFeed.allows
  rw [(value_of_usable h).2, deviationBps_eq _ hvalue]
  rfl

/-- A consensus is the value in the middle, and its agreement the number of readings near it. -/
theorem consensus_ok (h : (consensus readings feed).ok = true) :
    ∃ r, middle OracleReading.key (readings.filter (·.usable)) = some r ∧ r.usable = true ∧
      (consensus readings feed).value = some r.key ∧
        (consensus readings feed).agreement =
          readings.countP fun reading => reading.usable && reading.within feed r.key := by
  unfold consensus at h ⊢
  dsimp only at h ⊢
  split at h
  · cases h
  next hsome =>
  split at h
  · cases h
  next hquorum =>
  obtain ⟨r, hr⟩ := middle_isSome OracleReading.key hsome
  have husable := usable_of_mem_filter r (mem_of_middle hr)
  have hmedian : median (readings.filter (·.usable)) = some r.key := by
    rw [median_of_usable usable_of_mem_filter, hr]
    rfl
  refine ⟨r, hr, husable, ?_, ?_⟩
  · rw [if_neg hsome, if_neg hquorum]
    exact hmedian
  · rw [if_neg hsome, if_neg hquorum]
    show ((readings.filter (·.usable)).filter _).length = _
    rw [hmedian, List.filter_filter, ← List.countP_eq_length_filter]
    refine List.countP_congr fun reading _ => ?_
    rw [Bool.and_comm]
    cases hreading : reading.usable with
    | false => rfl
    | true => rw [agrees_eq_within (value_of_usable husable).1 hreading]

/-- A minority of the readings cannot move the consensus out of an interval that the others are in;
    the order of the readings does not matter; and the agreement is the number of usable readings
    within the bound of the value. -/
theorem consensus_resists (readings : List OracleReading) (feed : OracleFeed) :
    (∀ a b : Rat, 0 < a →
      readings.countP (·.usable) < 2 * readings.countP (fun r => r.usable && r.liesIn a b) →
        (consensus readings feed).ok = true →
          ∃ value, (consensus readings feed).value = some value ∧ a ≤ value ∧ value ≤ b) ∧
    (∀ readings', readings.Perm readings' →
      consensus readings' feed = consensus readings feed) ∧
    ∀ value, (consensus readings feed).ok = true → (consensus readings feed).value = some value →
      (consensus readings feed).agreement =
        readings.countP fun r => r.usable && r.within feed value := by
  refine ⟨fun a b _ hmajority hok => ?_, fun readings' hperm => (consensus_of_perm hperm).symm,
    fun value hok hvalue => ?_⟩
  · obtain ⟨r, hmiddle, husable, hvalue, -⟩ := consensus_ok hok
    refine ⟨r.key, hvalue, middle_mem_of_majority ?_ hmiddle⟩
    have hinside : (readings.filter (·.usable)).countP (fun r => a ≤ r.key ∧ r.key ≤ b) =
        readings.countP fun r => r.usable && r.liesIn a b := by
      rw [List.countP_filter]
      refine List.countP_congr fun reading _ => ?_
      cases hreading : reading.usable with
      | false => simp
      | true => simp [OracleReading.liesIn, (value_of_usable hreading).2]
    rwa [hinside, ← List.countP_eq_length_filter]
  · obtain ⟨r, -, -, hvalue', hagreement⟩ := consensus_ok hok
    obtain rfl := Option.some.inj (hvalue'.symm.trans hvalue)
    exact hagreement

end Consensus

/-- Two providers agree, and a third one is far off. -/
def disagreeing : List OracleReading :=
  [⟨some 5000, 8, some 0, .chainlink⟩, ⟨some 101, 8, some 0, .band⟩, ⟨some 100, 8, some 0, .band⟩]

def loneFeed : OracleFeed :=
  ⟨"maize", [.chainlink, .band], 2, 8, 3600, 500, none, none, none, true, none⟩

theorem consensus_resists_disagreeing :
    ∃ value, (consensus disagreeing loneFeed).value = some value ∧ 100 ≤ value ∧ value ≤ 101 := by
  refine (consensus_resists disagreeing loneFeed).1 100 101 (by decide +kernel) ?_ ?_
  · decide +kernel
  · decide +kernel

theorem within_near_disagreeing :
    OracleReading.within loneFeed 100 ⟨some 101, 8, some 0, .band⟩ = true ∧
      OracleReading.within loneFeed 100 ⟨some 5000, 8, some 0, .chainlink⟩ = false :=
  ⟨(within_near (by norm_num) rfl).1 (by norm_num [exactBps, loneFeed]),
    (within_near (by norm_num) rfl).2 (by norm_num [exactBps, loneFeed])⟩

end AgriFi.Oracles
