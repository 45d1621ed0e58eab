import AgriFi.Aml.NameMatch
import AgriFi.Best

/-
  `src/aml/sanctions-list.service.ts` and `sanctions-screening.service.ts`: the rows of the lists,
  those that a name is compared with, and what a screening decides.
-/

namespace AgriFi.Aml

/-! ## The lists -/

inductive SanctionsListSource where
  | OFAC
  | UN
  | EU
  deriving DecidableEq

inductive SanctionsEntryType where
  | PERSON
  | ENTITY
  | VESSEL
  | AIRCRAFT
  deriving DecidableEq

def SanctionsEntryType.text : SanctionsEntryType → Units
  | .PERSON => units "PERSON"
  | .ENTITY => units "ENTITY"
  | .VESSEL => units "VESSEL"
  | .AIRCRAFT => units "AIRCRAFT"

structure SanctionsListEntry where
  id : Nat
  listSource : SanctionsListSource
  entryType : SanctionsEntryType
  name : Units
  normalisedName : Units
  aliases : List Units
  dateOfBirth : Option Units
  programme : Units
  enabled : Bool
  deriving DecidableEq

/-- The entry of a publisher's list. -/
structure UpsertSanctionsEntryDto where
  entryType : Option SanctionsEntryType
  name : Units
  aliases : Option (List Units)
  dateOfBirth : Option Units
  programme : Option Units

/-- The row that `upsert` and `importList` make of it. -/
def payloadFor (unicode : Unicode) (id : Nat) (listSource : SanctionsListSource)
    (entry : UpsertSanctionsEntryDto) : SanctionsListEntry where
  id
  listSource
  entryType := entry.entryType.getD .PERSON
  name := trim entry.name
  normalisedName := normaliseSanctionsName unicode entry.name
  aliases := (entry.aliases.getD []).map (normaliseSanctionsName unicode)
  dateOfBirth := entry.dateOfBirth
  programme := entry.programme.getD []
  enabled := true

def hexDigit (d : Nat) : Nat := if d < 10 then 48 + d else 87 + d

/-- A code unit within a string of a `jsonb` column's text. -/
def jsonUnit (u : Nat) : Units :=
  if u = 34 then units "\\\""
  else if u = 92 then units "\\\\"
  else if u = 8 then units "\\b"
  else if u = 9 then units "\\t"
  else if u = 10 then units "\\n"
  else if u = 12 then units "\\f"
  else if u = 13 then units "\\r"
  else if u < 32 then units "\\u00" ++ [hexDigit (u / 16), hexDigit (u % 16)]
  else [u]

/-- `entry.aliases::text`. -/
def SanctionsListEntry.aliasesText (entry : SanctionsListEntry) : Units :=
  let quoted := entry.aliases.map fun name => [34] ++ name.flatMap jsonUnit ++ [34]
  units "[" ++ (units ", ").intercalate quoted ++ units "]"

/-- The `WHERE` of `candidatesForName`. A token is made of letters and digits only, so that the
pattern matches where one of them occurs. -/
def isPlausible (unicode : Unicode) (name : Units) (entry : SanctionsListEntry) : Bool :=
  entry.enabled && (entry.normalisedName = normaliseSanctionsName unicode name ||
    (normaliseTokenSet unicode name).any fun token => token <:+: entry.aliasesText)

/-- The rows come in no order that the query names. -/
def candidatesForName (unicode : Unicode) (rows : List SanctionsListEntry) (name : Units) :
    List SanctionsListEntry :=
  if normaliseTokenSet unicode name = [] then []
  else (rows.filter (isPlausible unicode name)).take 200

/-! ## The decision -/

inductive AmlScreeningDecision where
  | clear
  | review
  | match
  deriving DecidableEq

/-- A threshold of the configuration; `none` is `NaN`. -/
abbrev Threshold : Type := Option Rat

/-- `score >= threshold`. -/
def Threshold.reachedBy (threshold : Threshold) (score : Int) : Bool :=
  match threshold with
  | some t => t ≤ score
  | none => false

structure ScreeningConfig where
  matchThreshold : Threshold
  reviewThreshold : Threshold
  /-- The review threshold as a template prints it. -/
  reviewText : Units

/-- The thresholds when the configuration names none. -/
def ScreeningConfig.default : ScreeningConfig := ⟨some 85, some 70, units "70"⟩

def ScreeningConfig.decide (config : ScreeningConfig) (score : Int) : AmlScreeningDecision :=
  if config.matchThreshold.reachedBy score then .match
  else if config.reviewThreshold.reachedBy score then .review
  else .clear

structure Hit where
  entry : SanctionsListEntry
  score : Int
  reasons : List Units
  deriving DecidableEq

def intUnits (n : Int) : Units := units (toString n)

/-- The similarity of a name to an entry, with the bonus for the date of birth. -/
def totalScore (unicode : Unicode) (name : Units) (dateOfBirth : Option Units)
    (entry : SanctionsListEntry) : Int :=
  (scoreNameSimilarity unicode name entry.name entry.aliases).score +
    dateOfBirthAgreement dateOfBirth entry.dateOfBirth

def reasonsFor (unicode : Unicode) (similarity : NameScoreComponents) (dobBonus : Int)
    (entry : SanctionsListEntry) : List Units :=
  let kind := if similarity.method = .exact then units "Exact" else units "Fuzzy"
  let shared := (units ", ").intercalate similarity.sharedTokens
  let first := kind ++ units " " ++ unicode.lower entry.entryType.text ++ units " match on \"" ++
    entry.name ++ units "\" (" ++ intUnits similarity.score ++ units "/100, shared tokens: " ++
    (if shared = [] then units "none" else shared) ++ units ")"
  [first] ++
    (if 0 < dobBonus then [units "date of birth agrees (+" ++ intUnits dobBonus ++ units ")"]
      else []) ++
    (if entry.programme = [] then [] else [units "programme " ++ entry.programme])

/-- One pass of the loop over the candidates, up to the comparison with the best hit. -/
def hitOf (unicode : Unicode) (name : Units) (dateOfBirth : Option Units)
    (entry : SanctionsListEntry) : Option Hit :=
  let similarity := scoreNameSimilarity unicode name entry.name entry.aliases
  if similarity.score ≤ 0 then none
  else
    let dobBonus := dateOfBirthAgreement dateOfBirth entry.dateOfBirth
    some {
      entry
      score := min 100 (similarity.score + dobBonus)
      reasons := reasonsFor unicode similarity dobBonus entry }

def bestNameHit (unicode : Unicode) (rows : List SanctionsListEntry) (name : Units)
    (dateOfBirth : Option Units) : Option Hit :=
  let candidates := candidatesForName unicode rows name
  Best.best Hit.score (candidates.filterMap (hitOf unicode name dateOfBirth))

/-! ## A screening -/

inductive AmlScreeningSubjectType where
  | user
  | wallet
  | transaction
  deriving DecidableEq

structure User where
  fullName : Option Units
  walletAddress : Option Units

structure ScreenSubjectDto where
  subjectType : AmlScreeningSubjectType
  subjectId : Units
  name : Option Units
  walletAddress : Option Units
  dateOfBirth : Option Units

/-- Where an outcome says that it comes from. -/
inductive OutcomeSource where
  | list (listSource : SanctionsListSource)
  | INTERNAL
  | KYT
  deriving DecidableEq

structure ScreeningOutcome where
  subjectType : AmlScreeningSubjectType
  subjectId : Units
  decision : AmlScreeningDecision
  score : Int
  matchedEntryId : Option Nat
  matchedName : Option Units
  listSource : OutcomeSource
  reasons : List Units
  deriving DecidableEq

/-- What a screening asks besides the lists. -/
structure ScreeningEnv where
  unicode : Unicode
  config : ScreeningConfig
  findUser : Units → Option User
  /-- The wallet screener, if there is one: its answer, or the message of what it throws. -/
  walletScreener : Option (Units → Except Units Bool)

def screenWallet (env : ScreeningEnv) (walletAddress : Units) : ScreeningOutcome :=
  let (sanctioned, providerError) := match env.walletScreener.map (· walletAddress) with
    | some (.ok sanctioned) => (sanctioned, [])
    | some (.error message) => (false, message)
    | none => (false, [])
  let (decision, score, reason) :=
    if sanctioned then
      (AmlScreeningDecision.match, 100, units "Address flagged by the KYT provider")
    -- an error without a message is taken for none
    else if providerError ≠ [] then
      (AmlScreeningDecision.review, 50, units "Provider unavailable: " ++ providerError)
    else (AmlScreeningDecision.clear, 0, units "Address not flagged by the KYT provider")
  ⟨.wallet, walletAddress, decision, score, none, none, .KYT, [reason]⟩

/-- The user that the subject is. -/
def ScreenSubjectDto.user (env : ScreeningEnv) (dto : ScreenSubjectDto) : Option User :=
  if dto.subjectType = .user then env.findUser dto.subjectId else none

/-- The name that is screened. -/
def ScreenSubjectDto.screenedName (env : ScreeningEnv) (dto : ScreenSubjectDto) : Option Units :=
  dto.name.or ((dto.user env).bind (·.fullName))

def screenName (env : ScreeningEnv) (rows : List SanctionsListEntry) (dto : ScreenSubjectDto)
    (name : Units) : ScreeningOutcome :=
  let hit := bestNameHit env.unicode rows name dto.dateOfBirth
  {
    subjectType := dto.subjectType
    subjectId := dto.subjectId
    decision := hit.elim .clear fun hit => env.config.decide hit.score
    score := hit.elim 0 Hit.score
    matchedEntryId := hit.map (·.entry.id)
    matchedName := hit.map (·.entry.name)
    listSource := hit.elim .INTERNAL fun hit => .list hit.entry.listSource
    reasons := hit.elim [units "No sanctions list entry within " ++ env.config.reviewText ++
      units " points of \"" ++ name ++ units "\""] Hit.reasons }

def screenSubject (env : ScreeningEnv) (rows : List SanctionsListEntry) (dto : ScreenSubjectDto) :
    ScreeningOutcome :=
  let name := dto.screenedName env
  let wallet := dto.walletAddress.or ((dto.user env).bind (·.walletAddress))
  let addressed := wallet.any (· ≠ [])
  if dto.subjectType = .wallet ∨ name = none ∧ addressed then
    screenWallet env (if dto.subjectId ≠ [] then dto.subjectId else wallet.getD (units "null"))
  else
    match name.filter (· ≠ []) with
    | none => ⟨dto.subjectType, dto.subjectId, .clear, 0, none, none, .INTERNAL,
        [units "No name available to screen"]⟩
    | some name => screenName env rows dto name

end AgriFi.Aml
