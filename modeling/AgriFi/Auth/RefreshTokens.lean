import AgriFi.Auth.VerifyMfa

/-
  The refresh tokens of one user (`refresh`, `logout` and `verifyMfa` of `src/auth/auth.service.ts`,
  and `token-blocklist.service.ts`). A refresh reads the user's row, asks Redis for the family and the
  id of the token, marks the id, and issues the next pair; a token that comes back after that closes
  its family and raises the version in the row, as a logout does. Every save writes the whole row as it
  was read. Exactly the tokens that were signed verify, and random ids are never drawn twice. What was
  presented, accepted and shut down is a history variable.
-/

namespace AgriFi.Auth

open AgriFi.Runs

inductive TokenType where
  | access
  | refresh
  deriving DecidableEq

/-- What a token says. `exp` is in seconds. -/
structure JwtPayload where
  sub : String
  email : String
  role : String
  tokenVersion : Nat
  typ : TokenType
  jti : Option String
  familyId : Option String
  exp : Int
  deriving DecidableEq

/-- The lifetimes of the tokens as they are signed, and of a closed family as `durationToSeconds`
    reads it. -/
structure Lifetimes where
  accessSeconds : Nat
  refreshSeconds : Nat
  familySeconds : Nat

def JwtPayload.Expired (token : JwtPayload) (now : Int) : Prop := token.exp ≤ now / 1000

instance (token : JwtPayload) (now : Int) : Decidable (token.Expired now) :=
  inferInstanceAs (Decidable (_ ≤ _))

def User.accessToken (user : User) (lifetimes : Lifetimes) (now : Int) : JwtPayload :=
  { sub := user.id
    email := user.email
    role := user.role
    tokenVersion := user.tokenVersion
    typ := .access
    jti := none
    familyId := none
    exp := now / 1000 + lifetimes.accessSeconds }

def User.refreshToken (user : User) (lifetimes : Lifetimes) (now : Int)
    (jti familyId : Option String) (seconds : Nat) : JwtPayload :=
  { user.accessToken lifetimes now with
    typ := .refresh
    jti
    familyId
    exp := now / 1000 + seconds }

/-- A pair that `issueTokenPair` signs. -/
def User.issueTokenPair (user : User) (lifetimes : Lifetimes) (now : Int) (jti familyId : String) :
    List JwtPayload :=
  [user.accessToken lifetimes now,
    user.refreshToken lifetimes now (some jti) (some familyId) lifetimes.refreshSeconds]

/-- A sign-in with a wallet signs a refresh token without an id, for seven days. -/
def User.walletPair (user : User) (lifetimes : Lifetimes) (now : Int) : List JwtPayload :=
  [user.accessToken lifetimes now, user.refreshToken lifetimes now none none (7 * 24 * 3600)]

/-! ## Redis -/

/-- The keys of one kind with the times at which they expire. -/
abbrev Keys := List (String × Int)

def Keys.setEx (keys : Keys) (key : String) (until' : Int) : Keys :=
  (key, until') :: keys.filter (·.1 ≠ key)

def Keys.get (keys : Keys) (key : String) (now : Int) : Bool :=
  keys.any fun entry => entry.1 = key ∧ now < entry.2

/-! ## Calls -/

/-- A refresh token was presented, another pair was issued for it, and a logout or a detection of a
    reuse has returned, with the tokens that were issued before. -/
inductive TokenEntry where
  | presented (token : JwtPayload)
  | accepted (token : JwtPayload)
  | shutdown (issued : List JwtPayload)
  deriving DecidableEq

structure TokenState where
  account : State
  /-- `blocklist:refresh:jti` -/
  rotated : Keys
  /-- `blocklist:refresh:family` -/
  revoked : Keys
  issued : List JwtPayload
  /-- The last entry comes first. -/
  history : List TokenEntry

def TokenState.row (s : TokenState) : User := s.account.row

def TokenState.now (s : TokenState) : Int := s.account.now

def TokenState.sign (s : TokenState) (tokens : List JwtPayload) : TokenState :=
  { s with issued := s.issued ++ tokens }

def TokenState.log (s : TokenState) (entry : TokenEntry) : TokenState :=
  { s with history := entry :: s.history }

/-- The next step. -/
inductive TokenPc where
  | find (token : JwtPayload)
  | isFamilyRevoked (token : JwtPayload) (user : User)
  | isRotated (token : JwtPayload) (user : User)
  | revokeFamily (token : JwtPayload) (user : User)
  | saveReuse (token : JwtPayload) (user : User)
  | markRotated (token : JwtPayload) (user : User) (ttlSeconds : Int)
  | issue (token : JwtPayload) (user : User)
  | refreshed
  | refused
  | logoutFind
  | logoutSave (user : User)
  | loggedOut
  | mfa (pc : Pc)
  deriving DecidableEq

/-- After the check of the family. -/
def TokenPc.checkJti (token : JwtPayload) (user : User) : TokenPc :=
  if token.jti.isSome then .isRotated token user else .issue token user

/-- The checks of the row, which is the one that `sub` names: the tokens are this user's. -/
def TokenPc.findThen (token : JwtPayload) (user : User) : TokenPc :=
  if token.tokenVersion ≠ user.tokenVersion then .refused
  else if token.familyId.isSome then .isFamilyRevoked token user
  else .checkJti token user

def User.raiseVersion (user : User) : User := { user with tokenVersion := user.tokenVersion + 1 }

/-- A save of the row as one call has it, with a higher version; then the call returns. -/
def TokenState.shutDown (s : TokenState) (user : User) : TokenState :=
  { s with account := { s.account with row := user.raiseVersion } }.log (.shutdown s.issued)

/-- Ids that a step may draw. -/
structure Draw where
  jti : String
  familyId : String

def TokenState.markRotated (s : TokenState) (token : JwtPayload) (ttlSeconds : Int) : TokenState :=
  match token.jti with
  | some jti => { s with rotated := s.rotated.setEx jti (s.now + ttlSeconds * 1000) }
  | none => s

/-- A lifetime of no seconds closes nothing. -/
def TokenState.revokeFamily (s : TokenState) (token : JwtPayload) (ttlSeconds : Nat) : TokenState :=
  match token.familyId with
  | some familyId =>
    if ttlSeconds = 0 then s
    else { s with revoked := s.revoked.setEx familyId (s.now + ttlSeconds * 1000) }
  | none => s

def TokenState.issue (s : TokenState) (lifetimes : Lifetimes) (token : JwtPayload) (user : User)
    (draw : Draw) : TokenState :=
  (s.sign (user.issueTokenPair lifetimes s.now draw.jti (token.familyId.getD draw.familyId))).log
    (.accepted token)

def tokenStep (verifier : Verifier) (lifetimes : Lifetimes) (s : TokenState) (draw : Draw) :
    TokenPc → Option (TokenState × TokenPc)
  | .find token => some (s, .findThen token s.row)
  | .isFamilyRevoked token user =>
    some (s, if s.revoked.get (token.familyId.getD "") s.now then .refused
      else .checkJti token user)
  | .isRotated token user =>
    some (s, if s.rotated.get (token.jti.getD "") s.now then
        if token.familyId.isSome then .revokeFamily token user else .saveReuse token user
      else .markRotated token user (max (token.exp - s.now / 1000) 1))
  | .revokeFamily token user =>
    some (s.revokeFamily token lifetimes.familySeconds, .saveReuse token user)
  | .saveReuse _ user => some (s.shutDown user, .refused)
  | .markRotated token user ttlSeconds => some (s.markRotated token ttlSeconds, .issue token user)
  | .issue token user => some (s.issue lifetimes token user draw, .refreshed)
  | .logoutFind => some (s, .logoutSave s.row)
  | .logoutSave user => some (s.shutDown user, .loggedOut)
  | .mfa pc => (verifier.step s.account pc).map fun r => ({ s with account := r.1 }, .mfa r.2)
  | .refreshed | .refused | .loggedOut => none

/-! ## The system -/

structure TokenSystem where
  state : TokenState
  threads : List TokenPc

inductive TokenEvent where
  | signIn (draw : Draw)
  | walletSignIn
  | refresh (token : JwtPayload)
  | logout
  | verifyMfa (token : String)
  | tick (ms : Nat)
  | run (w : Nat) (draw : Draw)

def TokenState.Fresh (s : TokenState) (draw : Draw) : Prop :=
  ∀ token ∈ s.issued, token.jti ≠ some draw.jti ∧ token.familyId ≠ some draw.familyId

instance (s : TokenState) (draw : Draw) : Decidable (s.Fresh draw) :=
  inferInstanceAs (Decidable (∀ token ∈ s.issued, _))

/-- A refresh token that was signed. -/
def TokenState.Signed (s : TokenState) (token : JwtPayload) : Prop :=
  token ∈ s.issued ∧ token.typ = .refresh

instance (s : TokenState) (token : JwtPayload) : Decidable (s.Signed token) :=
  inferInstanceAs (Decidable (_ ∧ _))

/-- A call of `refresh`, up to its read of the row. -/
def TokenSystem.refresh (sys : TokenSystem) (token : JwtPayload) : TokenSystem :=
  if sys.state.Signed token then
    ⟨sys.state.log (.presented token), sys.threads ++
      [if token.Expired sys.state.now then .refused else .find token]⟩
  else { sys with threads := sys.threads ++ [.refused] }

def tokenNext (verifier : Verifier) (lifetimes : Lifetimes) (sys : TokenSystem) :
    TokenEvent → Option TokenSystem
  | .signIn draw =>
    if sys.state.Fresh draw then
      some ⟨sys.state.sign (sys.state.row.issueTokenPair lifetimes sys.state.now draw.jti
        draw.familyId), sys.threads⟩
    else none
  | .walletSignIn =>
    some ⟨sys.state.sign (sys.state.row.walletPair lifetimes sys.state.now), sys.threads⟩
  | .refresh token => some (sys.refresh token)
  | .logout => some { sys with threads := sys.threads ++ [.logoutFind] }
  | .verifyMfa token => some { sys with threads := sys.threads ++ [.mfa (.find token)] }
  | .tick ms =>
    some { sys with state.account.now := sys.state.now + ms }
  | .run w draw => do
    let pc ← sys.threads[w]?
    if sys.state.Fresh draw then do
      let (state, pc') ← tokenStep verifier lifetimes sys.state draw pc
      some ⟨state, sys.threads.set w pc'⟩
    else none

def tokenStart (user : User) (now : Int) : TokenSystem := ⟨⟨⟨user, now, []⟩, [], [], [], []⟩, []⟩

abbrev TokenRun (verifier : Verifier) (lifetimes : Lifetimes) (user : User) (now : Int)
    (xs : List (Step TokenSystem TokenEvent)) (sys : TokenSystem) : Prop :=
  Run (tokenNext verifier lifetimes) (tokenStart user now) xs sys

end AgriFi.Auth
