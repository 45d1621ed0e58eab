import AgriFi.Runs

/-
  The second factor of a login (`verifyMfa` of `src/auth/auth.service.ts`) for one user. A call reads
  the user, checks the token with the time-based code and then, hash by hash, with the backup codes,
  and saves the user as it was read with what the call has changed. Between these steps other calls
  run. What was evaluated, and what came of it, is a history variable.
-/

namespace AgriFi.Auth

open AgriFi.Runs

/-- The columns of a user that the calls read. Times are in milliseconds. -/
structure User where
  id : String
  email : String
  role : String
  tokenVersion : Nat
  mfaSecret : Option String
  isMfaEnabled : Bool
  /-- The hashes of the codes that are left. -/
  mfaBackupCodes : Option (List String)
  mfaFailedAttempts : Nat
  mfaLockedUntil : Option Int
  deriving DecidableEq

/-- `MFA_MAX_ATTEMPTS`. -/
def mfaMaxAttempts : Nat := 5

/-- `MFA_LOCKOUT_MS`. -/
def mfaLockoutMs : Int := 10 * 60 * 1000

/-- `trim`, the time-based codes of `otplib`, and `bcrypt.compare`. -/
structure Verifier where
  trim : String → String
  totp : (secret token : String) → (now : Int) → Bool
  compare : (token hash : String) → Bool

/-- A lockout is in force. -/
def User.LockedOut (user : User) (now : Int) : Prop :=
  ∃ lockedUntil ∈ user.mfaLockedUntil, now < lockedUntil

instance (user : User) (now : Int) : Decidable (user.LockedOut now) :=
  inferInstanceAs (Decidable (∃ lockedUntil ∈ user.mfaLockedUntil, _))

/-- A wrong token is counted, and locks the user out when it is one too many. -/
def User.failAttempt (user : User) (now : Int) : User :=
  if user.mfaFailedAttempts + 1 ≥ mfaMaxAttempts then
    { user with mfaLockedUntil := some (now + mfaLockoutMs), mfaFailedAttempts := 0 }
  else { user with mfaFailedAttempts := user.mfaFailedAttempts + 1 }

def User.succeed (user : User) : User :=
  { user with mfaFailedAttempts := 0, mfaLockedUntil := none }

/-- Remove the used backup code. -/
def User.spliceCode (user : User) (i : Nat) : User :=
  { user with mfaBackupCodes := user.mfaBackupCodes.map (·.eraseIdx i) }

def User.backupCodes (user : User) : List String := user.mfaBackupCodes.getD []

/-! ## A call -/

/-- What came of a token: an evaluation (while a stored lockout was in force, or not), a wrong
    token, a success with the backup code that was used, and a lockout. -/
inductive Entry where
  | evaluated (locked : Bool)
  | wrong
  | success (code : Option String)
  | lockout
  deriving DecidableEq

structure State where
  row : User
  now : Int
  log : List Entry

/-- The next step. A saved success remembers the backup code that was used. -/
inductive Pc where
  | find (token : String)
  | compareCodes (user : User) (token : String)
  | saveFailure (user : User)
  | saveSuccess (user : User) (code : Option String)
  | valid
  | mfaNotEnabled
  | mfaLockedOut
  | invalidToken
  deriving DecidableEq

def State.evaluate (s : State) : State :=
  { s with log := s.log ++ [.evaluated (decide (s.row.LockedOut s.now))] }

def State.wrong (s : State) : State := { s with log := s.log ++ [.wrong] }

def Verifier.verifyTotpToken (verifier : Verifier) (secret token : String) (now : Int) : Bool :=
  verifier.totp secret (verifier.trim token) now

/-- The token is evaluated as a time-based code. -/
def Verifier.tryTotp (verifier : Verifier) (s : State) (user : User) (secret token : String) :
    State × Pc :=
  if verifier.verifyTotpToken secret (verifier.trim token) s.now then
    (s.evaluate, .saveSuccess user.succeed none)
  else if user.backupCodes = [] then (s.evaluate.wrong, .saveFailure (user.failAttempt s.now))
  else (s.evaluate, .compareCodes user (verifier.trim token))

/-- The checks of `verifyMfa` on the user it has read, up to its first comparison of a hash. -/
def Verifier.verifyMfa (verifier : Verifier) (s : State) (user : User) (token : String) :
    State × Pc :=
  match user.isMfaEnabled, user.mfaSecret with
  | true, some secret =>
    if secret = "" then (s, .mfaNotEnabled)
    else if user.LockedOut s.now then (s, .mfaLockedOut)
    else verifier.tryTotp s user secret token
  | _, _ => (s, .mfaNotEnabled)

def Verifier.step (verifier : Verifier) (s : State) : Pc → Option (State × Pc)
  | .find token => some (verifier.verifyMfa s s.row token)
  | .compareCodes user token =>
    match user.backupCodes.findIdx? (verifier.compare token) with
    | some i => some (s.evaluate, .saveSuccess (user.spliceCode i).succeed user.backupCodes[i]?)
    | none => some (s.evaluate.wrong, .saveFailure (user.failAttempt s.now))
  | .saveFailure user =>
    -- the counter starts again when the user was locked out
    let log := if user.mfaFailedAttempts = 0 then s.log ++ [.lockout] else s.log
    some ({ s with row := user, log }, .invalidToken)
  | .saveSuccess user code =>
    some ({ s with row := user, log := s.log ++ [.success code] }, .valid)
  | .valid | .mfaNotEnabled | .mfaLockedOut | .invalidToken => none

/-! ## The system -/

structure System where
  state : State
  threads : List Pc

inductive Event where
  | verifyMfa (token : String)
  | tick (ms : Nat)
  | run (w : Nat)

def Verifier.next (verifier : Verifier) (sys : System) : Event → Option System
  | .verifyMfa token => some { sys with threads := sys.threads ++ [.find token] }
  | .tick ms => some { sys with state := { sys.state with now := sys.state.now + ms } }
  | .run w => do
    let pc ← sys.threads[w]?
    let (state, pc') ← verifier.step sys.state pc
    some ⟨state, sys.threads.set w pc'⟩

def start (user : User) (now : Int) : System := ⟨⟨user, now, []⟩, []⟩

abbrev MfaRun (verifier : Verifier) (user : User) (now : Int) (xs : List (Step System Event))
    (sys : System) : Prop :=
  Run verifier.next (start user now) xs sys

end AgriFi.Auth
