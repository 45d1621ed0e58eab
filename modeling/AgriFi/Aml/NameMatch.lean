import AgriFi.Binary64

/-
  `src/aml/aml-name-match.ts`. A string is the list of its UTF-16 code units; the decomposition and
  the lower case of Unicode are given as a `Unicode`.
-/

namespace AgriFi.Aml

open AgriFi.Binary64

/-- A string, as its code units. -/
abbrev Units : Type := List Nat

def units (s : String) : Units := s.toList.map Char.toNat

structure Unicode where
  /-- `s.normalize('NFD')`. -/
  nfd : Units → Units
  /-- `s.toLowerCase()`. -/
  lower : Units → Units
  nfd_nil : nfd [] = []
  lower_nil : lower [] = []

/-- `\s` of a regular expression. -/
def isSpace (u : Nat) : Bool :=
  9 ≤ u && u ≤ 13 || 8192 ≤ u && u ≤ 8202 ||
    u ∈ [32, 160, 5760, 8232, 8233, 8239, 8287, 12288, 65279]

/-- `[a-z0-9]`. -/
def isWord (u : Nat) : Bool := 97 ≤ u && u ≤ 122 || 48 ≤ u && u ≤ 57

/-- The combining marks U+0300 to U+036F. -/
def isMark (u : Nat) : Bool := 768 ≤ u && u ≤ 879

def NOISE_TOKENS : List Units :=
  ["limited", "ltd", "incorporated", "inc", "corp", "corporation", "co", "company", "holding",
    "group", "the", "of", "and"].map units

/-- The tokens that `normaliseSanctionsName` joins. -/
def nameTokens (unicode : Unicode) (name : Units) : List Units :=
  let stripped := (unicode.nfd name).filter fun u => !isMark u
  let spaced := (unicode.lower stripped).map fun u => if isWord u || isSpace u then u else 32
  (spaced.splitOnP isSpace).filter fun token => token ≠ [] && token ∉ NOISE_TOKENS

def normaliseSanctionsName (unicode : Unicode) (name : Units) : Units :=
  [32].intercalate (nameTokens unicode name)

def normaliseTokenSet (unicode : Unicode) (name : Units) : List Units :=
  let normalised := normaliseSanctionsName unicode name
  if normalised = [] then [] else (normalised.splitOnP (· = 32)).eraseDups

theorem normaliseTokenSet_nil (unicode : Unicode) : normaliseTokenSet unicode [] = [] := by
  have htokens : nameTokens unicode [] = [] := by
    simp [nameTokens, unicode.nfd_nil, unicode.lower_nil]
  rw [normaliseTokenSet, normaliseSanctionsName, htokens]
  rfl

inductive Method where
  | exact
  | tokenOverlap
  | partialMatch
  | none
  deriving DecidableEq

structure NameScoreComponents where
  score : Int
  exactMatch : Bool
  sharedTokens : List Units
  method : Method
  deriving DecidableEq

def NameScoreComponents.none : NameScoreComponents := ⟨0, false, [], .none⟩

/-- `Math.round(jaccard * 100)`. -/
def jaccardScore (shared union : Nat) : Int := mathRound (mul (div shared union) 100)

/-- The score of the subject's tokens against those of one listed name. -/
def scoreTokens (subject listed shared : List Units) (exact : Bool) : Int × Method :=
  let score := jaccardScore shared.length (subject ++ listed).eraseDups.length
  if exact then (100, .exact)
  else if 2 ≤ subject.length ∧ shared.length = subject.length ∨
      2 ≤ listed.length ∧ shared.length = listed.length then
    (max score 90, .tokenOverlap)
  else if 2 ≤ shared.length then (max score (70 + (shared.length - 2) * 5), .tokenOverlap)
  else if shared.length = 1 ∧ subject.length ≤ 2 ∧ listed.length ≤ 2 then
    (min score 65, .partialMatch)
  else if shared.length = 0 then (0, .none)
  else (score, .partialMatch)

/-- One pass of the loop over the names of an entry. -/
def scoreCandidate (unicode : Unicode) (subjectName : Units) (best : NameScoreComponents)
    (candidate : Units) : NameScoreComponents :=
  let subject := normaliseTokenSet unicode subjectName
  let listed := normaliseTokenSet unicode candidate
  if listed = [] then best
  else
    let shared := subject.filter (· ∈ listed)
    let exact : Bool :=
      normaliseSanctionsName unicode subjectName = normaliseSanctionsName unicode candidate
    let (score, method) := scoreTokens subject listed shared exact
    if best.score < score then ⟨score, exact, shared, method⟩ else best

def scoreNameSimilarity (unicode : Unicode) (subjectName : Units) (name : Units)
    (aliases : List Units) : NameScoreComponents :=
  if normaliseTokenSet unicode subjectName = [] then .none
  else (name :: aliases).foldl (scoreCandidate unicode subjectName) .none

/-- `s.trim()`. -/
def trim (s : Units) : Units := ((s.dropWhile isSpace).reverse.dropWhile isSpace).reverse

/-- A date that is not there, or empty. -/
def present (date : Option Units) : Option Units := date.filter (· ≠ [])

def dateOfBirthAgreement (subjectDob entryDob : Option Units) : Int :=
  match present subjectDob, present entryDob with
  | some subjectDob, some entryDob =>
    let subject := trim subjectDob
    let listed := trim entryDob
    if subject = listed then 8
    else if 4 ≤ subject.length ∧ (subject.take 4).isPrefixOf listed then 4
    else if 4 ≤ listed.length ∧ (listed.take 4).isPrefixOf subject then 4
    else 0
  | _, _ => 0

end AgriFi.Aml
