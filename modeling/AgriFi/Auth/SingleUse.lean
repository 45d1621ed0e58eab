import AgriFi.Auth.RefreshTokens
import AgriFi.Threads

/-
  Refresh tokens are used once, and a shutdown sticks. Two refreshes of one token may both look for
  its id before one of them marks it (`refreshed_twice`), a token of a wallet has no id to mark
  (`wallet_refreshed_twice`), and a save of a row that was read before a shutdown brings the old
  version back. When no two refreshes of one family are under way at once, tokens without an id come
  back never and refreshed ones not after their expiry, and no other call is between its read of the
  row and its end when a version is raised, a token yields one pair, a family ends when one of its
  tokens comes back, and a shutdown ends all tokens from before (`single_use`).
-/

namespace AgriFi.Auth

open AgriFi.Runs AgriFi.Threads

variable {verifier : Verifier} {lifetimes : Lifetimes} {sys sys' : TokenSystem}
  {s s' : TokenState} {pc pc' : TokenPc} {t u token : JwtPayload} {user : User} {w v : Nat}
  {draw : Draw}

/-! ## What is claimed -/

/-- Tokens of one family. -/
def Kin (t u : JwtPayload) : Prop := t = u ∨ t.familyId = u.familyId ∧ t.familyId ≠ none

instance (t u : JwtPayload) : Decidable (Kin t u) := inferInstanceAs (Decidable (_ ∨ _))

/-- What may come after the older entries: no token is accepted twice, after one of its family was
    presented twice, or after a shutdown of what was issued. -/
def TokenEntry.Allowed (older : List TokenEntry) : TokenEntry → Prop
  | .accepted u => .accepted u ∉ older ∧ (∀ t, Kin t u → older.count (.presented t) ≤ 1) ∧
    ∀ issued, .shutdown issued ∈ older → u ∉ issued
  | .presented _ | .shutdown _ => True

def SingleUse : List TokenEntry → Prop
  | [] => True
  | entry :: older => entry.Allowed older ∧ SingleUse older

/-! ## The condition -/

/-- The token of a refresh that is under way. -/
def TokenPc.refreshes : TokenPc → Option JwtPayload
  | .find token | .isFamilyRevoked token _ | .isRotated token _ | .revokeFamily token _
  | .saveReuse token _ | .markRotated token _ _ | .issue token _ => some token
  | .refreshed | .refused | .logoutFind | .logoutSave _ | .loggedOut | .mfa _ => none

/-- The user that a call of `verifyMfa` has read. -/
def Pc.held : Pc → Option User
  | .compareCodes user _ | .saveFailure user | .saveSuccess user _ => some user
  | .find _ | .valid | .mfaNotEnabled | .mfaLockedOut | .invalidToken => none

/-- The row that a call has read and goes on to save, or to issue tokens for. -/
def TokenPc.held : TokenPc → Option User
  | .isFamilyRevoked _ user | .isRotated _ user | .revokeFamily _ user | .saveReuse _ user
  | .markRotated _ user _ | .issue _ user | .logoutSave user => some user
  | .mfa pc => pc.held
  | .find _ | .refreshed | .refused | .logoutFind | .loggedOut => none

/-- A refresh of the token is under way. -/
def TokenSystem.Running (sys : TokenSystem) (token : JwtPayload) : Prop :=
  ∃ pc ∈ sys.threads, token ∈ pc.refreshes

def TokenPc.Careful (sys : TokenSystem) (w : Nat) : TokenPc → Prop
  | .isRotated token _ =>
    token.Expired sys.state.now → .accepted token ∉ sys.state.history
  | .saveReuse _ _ | .logoutSave _ => ∀ pc ∈ sys.threads.eraseIdx w, pc.held = none
  | _ => True

instance (sys : TokenSystem) (w : Nat) : (pc : TokenPc) → Decidable (pc.Careful sys w)
  | .isRotated _ _ => inferInstanceAs (Decidable (_ → _))
  | .saveReuse _ _ | .logoutSave _ => inferInstanceAs (Decidable (∀ pc ∈ _, _))
  | .find _ | .isFamilyRevoked _ _ | .revokeFamily _ _ | .markRotated _ _ _ | .issue _ _ | .refreshed
  | .refused | .logoutFind | .loggedOut | .mfa _ => isTrue trivial

def CarefulTokens (sys : TokenSystem) : TokenEvent → Prop
  | .refresh token => sys.state.Signed token →
    (∀ pc ∈ sys.threads, ∀ t ∈ pc.refreshes, ¬ Kin t token) ∧
      (token.jti = none → .presented token ∉ sys.state.history) ∧
      (token.Expired sys.state.now → .accepted token ∉ sys.state.history)
  | .run w _ => ∀ pc ∈ sys.threads[w]?, pc.Careful sys w
  | .signIn _ | .walletSignIn | .logout | .verifyMfa _ | .tick _ => True

instance (sys : TokenSystem) : (e : TokenEvent) → Decidable (CarefulTokens sys e)
  | .refresh _ => inferInstanceAs (Decidable (_ → _ ∧ _))
  | .run _ _ => inferInstanceAs (Decidable (∀ pc ∈ _, _))
  | .signIn _ | .walletSignIn | .logout | .verifyMfa _ | .tick _ => isTrue trivial

/-! ## Kinship and keys -/

theorem Kin.refl (t : JwtPayload) : Kin t t := .inl rfl

theorem Kin.symm (h : Kin t u) : Kin u t := by
  obtain rfl | ⟨hfamily, hsome⟩ := h
  · exact .refl t
  · exact .inr ⟨hfamily.symm, hfamily ▸ hsome⟩

theorem Kin.trans {x : JwtPayload} (h : Kin t u) (h' : Kin u x) : Kin t x := by
  obtain rfl | ⟨hfamily, hsome⟩ := h
  · exact h'
  · obtain rfl | ⟨hfamily', _⟩ := h'
    · exact .inr ⟨hfamily, hsome⟩
    · exact .inr ⟨hfamily.trans hfamily', hsome⟩

/-- The id is marked until the token expires. -/
def TokenState.Marked (s : TokenState) (token : JwtPayload) : Prop :=
  ∀ jti ∈ token.jti, ∃ until', (jti, until') ∈ s.rotated ∧ token.exp * 1000 ≤ until'

theorem mem_setEx {keys : Keys} {key : String} {until' : Int} {entry : String × Int} :
    entry ∈ keys.setEx key until' ↔ entry = (key, until') ∨ entry ∈ keys ∧ entry.1 ≠ key := by
  unfold Keys.setEx
  rw [List.mem_cons, List.mem_filter, decide_eq_true_eq]

/-- A marked id that is not found belongs to a token that has expired. -/
theorem expired_of_not_get {jti : String} (h : s.Marked token) (hjti : token.jti = some jti)
    (hget : ¬ s.rotated.get jti s.now) : token.Expired s.now := by
  obtain ⟨until', hmem, hle⟩ := h jti hjti
  have hgone : ¬ s.now < until' := by
    intro hlt
    exact hget (List.any_eq_true.mpr ⟨_, hmem, decide_eq_true ⟨rfl, hlt⟩⟩)
  unfold JwtPayload.Expired
  omega

/-! ## The invariant -/

/-- No refresh of the token can still be accepted. -/
def Ended (sys : TokenSystem) (u : JwtPayload) : Prop :=
  u.tokenVersion < sys.state.row.tokenVersion ∨ .accepted u ∈ sys.state.history ∨
    u.Expired sys.state.now ∧ ¬ sys.Running u

def Closed (sys : TokenSystem) (t : JwtPayload) : Prop :=
  ∀ u ∈ sys.state.issued, Kin t u → Ended sys u

/-- A refresh that was presented. -/
structure Asked (s : TokenState) (token : JwtPayload) : Prop where
  signed : s.Signed token
  presented : .presented token ∈ s.history
  plain : token.jti = none → .accepted token ∉ s.history

/-- It has read the row, whose version is still that of the token. -/
structure Held (s : TokenState) (token : JwtPayload) (user : User) : Prop extends Asked s token where
  copied : user.tokenVersion = s.row.tokenVersion
  current : token.tokenVersion = s.row.tokenVersion

def TokenPc.Sound (s : TokenState) : TokenPc → Prop
  | .find token => Asked s token
  | .isFamilyRevoked token user => Held s token user ∧ token.familyId ≠ none
  | .isRotated token user => Held s token user ∧ token.jti ≠ none
  | .revokeFamily token user | .saveReuse token user => Held s token user
  | .markRotated token user ttlSeconds => Held s token user ∧ .accepted token ∉ s.history ∧
    token.exp * 1000 ≤ s.now + ttlSeconds * 1000
  | .issue token user => Held s token user ∧ .accepted token ∉ s.history ∧ s.Marked token
  | .logoutSave user => user.tokenVersion = s.row.tokenVersion
  | .mfa pc => ∀ user ∈ pc.held, user.tokenVersion = s.row.tokenVersion
  | .refreshed | .refused | .logoutFind | .loggedOut => True

/-- The tokens of a family have one version, and are accepted one after the other. -/
structure Issued (s : TokenState) : Prop where
  jti : ∀ t ∈ s.issued, ∀ u ∈ s.issued, t.jti = u.jti → t.jti ≠ none → t = u
  version : ∀ t ∈ s.issued, t.tokenVersion ≤ s.row.tokenVersion
  family : ∀ t ∈ s.issued, ∀ u ∈ s.issued, Kin t u → t.tokenVersion = u.tokenVersion
  last : ∀ t ∈ s.issued, ∀ u ∈ s.issued, Kin t u → t ≠ u →
    .accepted t ∈ s.history ∨ .accepted u ∈ s.history

/-- What the history says of the tokens. -/
structure Recorded (s : TokenState) : Prop where
  signed : ∀ t, .presented t ∈ s.history → s.Signed t
  presented : ∀ t, .accepted t ∈ s.history → .presented t ∈ s.history
  marked : ∀ t, .accepted t ∈ s.history → s.Marked t
  shutdown : ∀ issued, .shutdown issued ∈ s.history →
    ∀ t ∈ issued, t.tokenVersion < s.row.tokenVersion
  single : SingleUse s.history

/-- A detected reuse of a token of this family is about to raise the version. -/
def TokenSystem.Closing (sys : TokenSystem) (t : JwtPayload) : Prop :=
  ∃ u user, .saveReuse u user ∈ sys.threads ∧ Kin u t

structure TokenInv (sys : TokenSystem) : Prop where
  issued : Issued sys.state
  recorded : Recorded sys.state
  alone : ∀ ⦃v w : Nat⦄ ⦃pc pc' : TokenPc⦄ ⦃t u : JwtPayload⦄, sys.threads[v]? = some pc →
    sys.threads[w]? = some pc' → t ∈ pc.refreshes → u ∈ pc'.refreshes → Kin t u → v = w
  sound : ∀ pc ∈ sys.threads, pc.Sound sys.state
  answered : ∀ t, .presented t ∈ sys.state.history →
    sys.Running t ∨ .accepted t ∈ sys.state.history ∨ Closed sys t
  twice : ∀ t, 2 ≤ sys.state.history.count (.presented t) →
    Closed sys t ∨ .accepted t ∈ sys.state.history ∧ sys.Running t
  families : ∀ entry ∈ sys.state.revoked, ∃ t ∈ sys.state.issued, t.familyId = some entry.1
  revoked : ∀ entry ∈ sys.state.revoked, ∀ t ∈ sys.state.issued, t.familyId = some entry.1 →
    Closed sys t ∨ sys.Closing t

/-! ## What ends stays ended -/

/-- Versions, the history and the time only grow, and a refresh that begins is not expired. -/
structure Grows (sys sys' : TokenSystem) : Prop where
  version : sys.state.row.tokenVersion ≤ sys'.state.row.tokenVersion
  history : ∀ entry ∈ sys.state.history, entry ∈ sys'.state.history
  now : sys.state.now ≤ sys'.state.now
  running : ∀ u, sys'.Running u → sys.Running u ∨ ¬ u.Expired sys'.state.now

theorem expired_mono {now now' : Int} (h : t.Expired now) (hle : now ≤ now') : t.Expired now' := by
  unfold JwtPayload.Expired at *
  omega

theorem Ended.mono (h : Ended sys u) (hgrows : Grows sys sys') : Ended sys' u := by
  obtain hversion | haccepted | ⟨hexpired, hidle⟩ := h
  · exact .inl (Nat.lt_of_lt_of_le hversion hgrows.version)
  · exact .inr (.inl (hgrows.history _ haccepted))
  · have hexpired' := expired_mono hexpired hgrows.now
    refine .inr (.inr ⟨hexpired', fun hrunning => ?_⟩)
    obtain hold | hvalid := hgrows.running u hrunning
    · exact hidle hold
    · exact hvalid hexpired'

theorem Closed.mono (h : Closed sys t) (hgrows : Grows sys sys')
    (hnew : ∀ u ∈ sys'.state.issued, Kin t u → u ∈ sys.state.issued) : Closed sys' t :=
  fun u hu hkin => (h u (hnew u hu hkin) hkin).mono hgrows

/-- A refresh that is about to be accepted has not ended. -/
theorem not_ended (hrunning : sys.Running u)
    (hcurrent : u.tokenVersion = sys.state.row.tokenVersion)
    (hfirst : .accepted u ∉ sys.state.history) : ¬ Ended sys u := by
  rintro (hversion | haccepted | ⟨-, hidle⟩)
  · exact Nat.ne_of_lt hversion hcurrent
  · exact hfirst haccepted
  · exact hidle hrunning

/-- A family of an older version. -/
theorem Issued.closed (h : Issued sys.state) (ht : t ∈ sys.state.issued)
    (hversion : t.tokenVersion ≠ sys.state.row.tokenVersion) : Closed sys t := by
  intro u hu hkin
  have hsame := h.family t ht u hu hkin
  have hle := h.version t ht
  exact .inl (by omega)

/-- An expired token that was not accepted is the last one of its family. -/
theorem Issued.closed_of_expired (h : Issued sys.state) (ht : t ∈ sys.state.issued)
    (hexpired : t.Expired sys.state.now) (hidle : ¬ sys.Running t)
    (hfirst : .accepted t ∉ sys.state.history) : Closed sys t := by
  intro u hu hkin
  by_cases hne : t = u
  · subst hne
    exact .inr (.inr ⟨hexpired, hidle⟩)
  · exact .inr (.inl ((h.last t ht u hu hkin hne).resolve_left hfirst))

/-! ## What is logged and signed -/

section Log

variable {entry new : TokenEntry}

theorem mem_log (h : entry ∈ s.history) : entry ∈ (s.log new).history := List.mem_cons_of_mem _ h

theorem mem_of_log (h : entry ∈ (s.log new).history) (hne : entry ≠ new) : entry ∈ s.history :=
  (List.mem_cons.mp h).resolve_left hne

theorem presented_of_twice (h : 2 ≤ s.history.count (.presented t)) : .presented t ∈ s.history :=
  List.count_pos_iff.mp (Nat.lt_of_lt_of_le Nat.two_pos h)

/-- Another entry is none of the token's. -/
theorem twice_of_log (h : 2 ≤ (s.log new).history.count (.presented t))
    (hne : new ≠ .presented t) : 2 ≤ s.history.count (.presented t) := by
  have hcount := List.count_cons_of_ne (l := s.history) hne
  rwa [← hcount]

theorem Issued.log (h : Issued s) (new : TokenEntry) : Issued (s.log new) where
  jti := h.jti
  version := h.version
  family := h.family
  last := fun t ht u hu hkin hne => (h.last t ht u hu hkin hne).imp mem_log mem_log

theorem Recorded.log (h : Recorded s) (hallowed : new.Allowed s.history)
    (hpresented : ∀ t, new = .presented t → s.Signed t)
    (haccepted : ∀ t, new = .accepted t → .presented t ∈ s.history ∧ s.Marked t)
    (hshutdown : ∀ issued, new = .shutdown issued → ∀ t ∈ issued,
      t.tokenVersion < s.row.tokenVersion) : Recorded (s.log new) where
  signed := by
    intro t ht
    obtain hnew | hold := List.mem_cons.mp ht
    · exact hpresented t hnew.symm
    · exact h.signed t hold
  presented := by
    intro t ht
    obtain hnew | hold := List.mem_cons.mp ht
    · exact mem_log (haccepted t hnew.symm).1
    · exact mem_log (h.presented t hold)
  marked := by
    intro t ht
    obtain hnew | hold := List.mem_cons.mp ht
    · exact (haccepted t hnew.symm).2
    · exact h.marked t hold
  shutdown := by
    intro issued hmem
    obtain hnew | hold := List.mem_cons.mp hmem
    · exact hshutdown issued hnew.symm
    · exact h.shutdown issued hold
  single := ⟨hallowed, h.single⟩

end Log

section Sign

variable {x : JwtPayload}

/-- A new token is of the version of its kin, and they were accepted before it. -/
theorem Issued.sign (h : Issued s) (hversion : x.tokenVersion = s.row.tokenVersion)
    (hjti : x.jti ≠ none → ∀ t ∈ s.issued, t.jti ≠ x.jti)
    (hfamily : ∀ t ∈ s.issued, Kin t x → t.tokenVersion = x.tokenVersion)
    (hlast : ∀ t ∈ s.issued, Kin t x → t ≠ x → .accepted t ∈ s.history) :
    Issued (s.sign [x]) := by
  constructor
  case jti =>
    refine forall_mem_append (fun t ht => forall_mem_append (h.jti t ht) fun hsame hsome => ?_)
      (forall_mem_append (fun u hu hsame hsome => ?_) fun _ _ => rfl)
    · exact absurd hsame (hjti (hsame ▸ hsome) t ht)
    · exact absurd hsame.symm (hjti hsome u hu)
  case version => exact forall_mem_append h.version (Nat.le_of_eq hversion)
  case family =>
    exact forall_mem_append (fun t ht => forall_mem_append (h.family t ht) (hfamily t ht))
      (forall_mem_append (fun u hu hkin => (hfamily u hu hkin.symm).symm) fun _ => rfl)
  case last =>
    refine forall_mem_append (fun t ht => forall_mem_append (h.last t ht) fun hkin hne => ?_)
      (forall_mem_append (fun u hu hkin hne => ?_) fun _ hne => absurd rfl hne)
    · exact .inl (hlast t ht hkin hne)
    · exact .inr (hlast u hu hkin.symm hne.symm)

theorem Recorded.sign (h : Recorded s) (xs : List JwtPayload) : Recorded (s.sign xs) where
  signed := fun t ht => ⟨List.mem_append_left _ (h.signed t ht).1, (h.signed t ht).2⟩
  presented := h.presented
  marked := h.marked
  shutdown := h.shutdown
  single := h.single

end Sign

section Account

variable {account : State} (hversion : s.row.tokenVersion ≤ account.row.tokenVersion)
include hversion

theorem Issued.withAccount (h : Issued s) : Issued { s with account := account } where
  jti := h.jti
  version := fun t ht => Nat.le_trans (h.version t ht) hversion
  family := h.family
  last := h.last

theorem Recorded.withAccount (h : Recorded s) : Recorded { s with account := account } where
  signed := h.signed
  presented := h.presented
  marked := h.marked
  shutdown := fun issued hmem t ht => Nat.lt_of_lt_of_le (h.shutdown issued hmem t ht) hversion
  single := h.single

end Account

/-! ## Steps of the threads -/

theorem Asked.mono (h : Asked s t) (hissued : ∀ u ∈ s.issued, u ∈ s'.issued)
    (hhistory : ∀ entry ∈ s.history, entry ∈ s'.history)
    (haccepted : .accepted t ∈ s'.history → .accepted t ∈ s.history) : Asked s' t where
  signed := ⟨hissued t h.signed.1, h.signed.2⟩
  presented := hhistory _ h.presented
  plain := fun hjti hold => h.plain hjti (haccepted hold)

theorem asked_of_sound (h : pc.Sound s) (ht : t ∈ pc.refreshes) : Asked s t := by
  cases pc with
  | find token =>
    obtain rfl := Option.some.inj ht
    exact h
  | revokeFamily token user | saveReuse token user =>
    obtain rfl := Option.some.inj ht
    exact Held.toAsked h
  | isFamilyRevoked token user | isRotated token user | markRotated token user ttlSeconds
  | issue token user =>
    obtain rfl := Option.some.inj ht
    exact Held.toAsked h.1
  | refreshed | refused | logoutFind | logoutSave | loggedOut | mfa => cases ht

section Mono

variable (hissued : ∀ u ∈ s.issued, u ∈ s'.issued)
  (hhistory : ∀ entry ∈ s.history, entry ∈ s'.history)
include hissued hhistory

/-- What a thread has read stays so under a step of another one that leaves the version. -/
theorem sound_mono (h : pc.Sound s) (hversion : s'.row.tokenVersion = s.row.tokenVersion)
    (hnow : s.now ≤ s'.now)
    (haccepted : ∀ t ∈ pc.refreshes, .accepted t ∈ s'.history → .accepted t ∈ s.history)
    (hmarked : ∀ t ∈ pc.refreshes, s.Marked t → s'.Marked t) : pc.Sound s' := by
  have hheld : ∀ {t : JwtPayload} {user : User}, t ∈ pc.refreshes → Held s t user →
      Held s' t user := fun ht hold =>
    { hold.toAsked.mono hissued hhistory (haccepted _ ht) with
      copied := hold.copied.trans hversion.symm
      current := hold.current.trans hversion.symm }
  cases pc with
  | find token => exact Asked.mono h hissued hhistory (haccepted token rfl)
  | revokeFamily token user | saveReuse token user => exact hheld rfl h
  | isFamilyRevoked token user | isRotated token user => exact ⟨hheld rfl h.1, h.2⟩
  | markRotated token user ttlSeconds =>
    obtain ⟨hold, hfirst, httl⟩ := h
    exact ⟨hheld rfl hold, fun hnew => hfirst (haccepted token rfl hnew), by omega⟩
  | issue token user =>
    obtain ⟨hold, hfirst, hmark⟩ := h
    exact ⟨hheld rfl hold, fun hnew => hfirst (haccepted token rfl hnew), hmarked token rfl hmark⟩
  | logoutSave user => exact h.trans hversion.symm
  | mfa pc => exact fun user huser => (h user huser).trans hversion.symm
  | refreshed | refused | logoutFind | loggedOut => trivial

/-- A thread that has not read the row is not concerned by its version. -/
theorem sound_of_not_held (h : pc.Sound s) (hheld : pc.held = none)
    (haccepted : ∀ t ∈ pc.refreshes, .accepted t ∈ s'.history → .accepted t ∈ s.history) :
    pc.Sound s' := by
  cases pc with
  | find token => exact Asked.mono h hissued hhistory (haccepted token rfl)
  | isFamilyRevoked | isRotated | revokeFamily | saveReuse | markRotated | issue | logoutSave =>
    cases hheld
  | mfa pc =>
    intro user huser
    rw [show pc.held = none from hheld] at huser
    cases huser
  | refreshed | refused | logoutFind | loggedOut => trivial

end Mono

theorem TokenSystem.running_of (hw : sys.threads[w]? = some pc) (ht : t ∈ pc.refreshes) :
    sys.Running t := ⟨pc, List.mem_of_getElem? hw, ht⟩

/-- A step after which the same tokens are issued, accepted and under way, but for refreshes whose
    family is closed. -/
theorem TokenInv.frame {threads : List TokenPc} (h : TokenInv sys)
    (hissued : s'.issued = sys.state.issued) (hhistory : s'.history = sys.state.history)
    (hversion : s'.row.tokenVersion = sys.state.row.tokenVersion)
    (hnow : sys.state.now ≤ s'.now)
    (hmarked : ∀ t, .accepted t ∈ sys.state.history → s'.Marked t)
    (hsub : ∀ pc ∈ threads, ∀ t ∈ pc.refreshes, sys.Running t)
    (hends : ∀ t, sys.Running t → (∃ pc ∈ threads, t ∈ pc.refreshes) ∨ Closed sys t)
    (halone : ∀ ⦃v w : Nat⦄ ⦃pc pc' : TokenPc⦄ ⦃t u : JwtPayload⦄, threads[v]? = some pc →
      threads[w]? = some pc' → t ∈ pc.refreshes → u ∈ pc'.refreshes → Kin t u → v = w)
    (hsound : ∀ pc ∈ threads, pc.Sound s')
    (hfamilies : ∀ entry ∈ s'.revoked, ∃ t ∈ sys.state.issued, t.familyId = some entry.1)
    (hrevoked : ∀ entry ∈ s'.revoked, ∀ t ∈ sys.state.issued, t.familyId = some entry.1 →
      Closed sys t ∨ ∃ u user, .saveReuse u user ∈ threads ∧ Kin u t) :
    TokenInv ⟨s', threads⟩ := by
  have hgrows : Grows sys ⟨s', threads⟩ := by
    refine ⟨Nat.le_of_eq hversion.symm, fun entry hentry => ?_, hnow, fun u hu => ?_⟩
    · rwa [hhistory]
    · obtain ⟨pc, hpc, hu⟩ := hu
      exact .inl (hsub pc hpc u hu)
  have hclosed : ∀ {t : JwtPayload}, Closed sys t → Closed ⟨s', threads⟩ t := fun hold =>
    hold.mono hgrows fun u hu _ => hissued ▸ hu
  have hsigned : ∀ {t : JwtPayload}, sys.state.Signed t → s'.Signed t := fun hold =>
    ⟨hissued ▸ hold.1, hold.2⟩
  obtain ⟨hjti, hle, hfamily, hlast⟩ := h.issued
  obtain ⟨hrsigned, hrpresented, -, hshutdown, hsingle⟩ := h.recorded
  constructor
  case issued =>
    refine ⟨?_, ?_, ?_, ?_⟩ <;> dsimp only
    · rwa [hissued]
    · rwa [hissued, hversion]
    · rwa [hissued]
    · rwa [hissued, hhistory]
  case recorded =>
    refine ⟨?_, ?_, ?_, ?_, ?_⟩ <;> dsimp only <;> rw [hhistory]
    · exact fun t ht => hsigned (hrsigned t ht)
    · exact hrpresented
    · exact hmarked
    · rwa [hversion]
    · exact hsingle
  case alone => exact halone
  case sound => exact hsound
  case answered =>
    intro t ht
    dsimp only at ht
    rw [hhistory] at ht
    obtain hrunning | haccepted | hold := h.answered t ht
    · obtain hrunning | hold := hends t hrunning
      · exact .inl hrunning
      · exact .inr (.inr (hclosed hold))
    · exact .inr (.inl (hgrows.history _ haccepted))
    · exact .inr (.inr (hclosed hold))
  case twice =>
    intro t ht
    dsimp only at ht
    rw [hhistory] at ht
    obtain hold | ⟨haccepted, hrunning⟩ := h.twice t ht
    · exact .inl (hclosed hold)
    · obtain hrunning | hold := hends t hrunning
      · exact .inr ⟨hgrows.history _ haccepted, hrunning⟩
      · exact .inl (hclosed hold)
  case families =>
    dsimp only
    rwa [hissued]
  case revoked =>
    intro entry hentry t ht hfamily
    dsimp only at ht
    rw [hissued] at ht
    exact (hrevoked entry hentry t ht hfamily).imp hclosed id

section Set

variable (hw : sys.threads[w]? = some pc)
include hw

/-- After a step of one thread, what is under way was under way in the same place. -/
theorem refreshes_of_set (hsub : ∀ t ∈ pc'.refreshes, t ∈ pc.refreshes) {pc'' : TokenPc}
    (hv : (sys.threads.set w pc')[v]? = some pc'') (ht : t ∈ pc''.refreshes) :
    ∃ old, sys.threads[v]? = some old ∧ t ∈ old.refreshes := by
  obtain ⟨rfl, rfl⟩ | ⟨-, hv⟩ := getElem?_set_cases hv
  · exact ⟨pc, hw, hsub t ht⟩
  · exact ⟨pc'', hv, ht⟩

/-- What was under way in another thread still is. -/
theorem running_set (hrunning : sys.Running t) :
    t ∈ pc.refreshes ∨ ∃ pc'' ∈ sys.threads.set w pc', t ∈ pc''.refreshes := by
  obtain ⟨old, hold, ht⟩ := hrunning
  obtain ⟨v, hv⟩ := List.getElem?_of_mem hold
  by_cases hne : w = v
  · subst hne
    obtain rfl : pc = old := Option.some.inj (hw.symm.trans hv)
    exact .inl ht
  · exact .inr ⟨old, List.mem_of_getElem? ((List.getElem?_set_ne hne).trans hv), ht⟩

/-- The step that raises the version after a detected reuse. -/
def TokenPc.closes : TokenPc → Bool
  | .saveReuse _ _ => true
  | _ => false

/-- The threads that are about to close a family stay. -/
theorem closing_set (hpc : pc.closes = false) (hclosing : sys.Closing t) :
    ∃ u user, .saveReuse u user ∈ sys.threads.set w pc' ∧ Kin u t := by
  obtain ⟨u, user, hmem, hkin⟩ := hclosing
  obtain ⟨v, hv⟩ := List.getElem?_of_mem hmem
  have hne : w ≠ v := by
    rintro rfl
    rw [Option.some.inj (hw.symm.trans hv)] at hpc
    cases hpc
  exact ⟨u, user, List.mem_of_getElem? ((List.getElem?_set_ne hne).trans hv), hkin⟩

theorem TokenInv.alone_set (h : TokenInv sys) (hsub : ∀ t ∈ pc'.refreshes, t ∈ pc.refreshes)
    ⦃v w' : Nat⦄ ⦃pc₁ pc₂ : TokenPc⦄ ⦃t u : JwtPayload⦄
    (hv : (sys.threads.set w pc')[v]? = some pc₁) (hw' : (sys.threads.set w pc')[w']? = some pc₂)
    (ht : t ∈ pc₁.refreshes) (hu : u ∈ pc₂.refreshes) (hkin : Kin t u) : v = w' := by
  obtain ⟨old₁, hold₁, ht⟩ := refreshes_of_set hw hsub hv ht
  obtain ⟨old₂, hold₂, hu⟩ := refreshes_of_set hw hsub hw' hu
  exact h.alone hold₁ hold₂ ht hu hkin

end Set

/-- A step of one thread that goes on with its refresh, or leaves it when its family is closed. -/
theorem TokenInv.set (h : TokenInv sys) (hw : sys.threads[w]? = some pc)
    (hissued : s'.issued = sys.state.issued) (hhistory : s'.history = sys.state.history)
    (hversion : s'.row.tokenVersion = sys.state.row.tokenVersion)
    (hnow : sys.state.now ≤ s'.now)
    (hmarked : ∀ t ∈ sys.state.issued, sys.state.Marked t → t ∈ pc.refreshes ∨ s'.Marked t)
    (hmine : ∀ t ∈ pc.refreshes, .accepted t ∈ sys.state.history → s'.Marked t)
    (hsub : ∀ t ∈ pc'.refreshes, t ∈ pc.refreshes)
    (hends : ∀ t ∈ pc.refreshes, t ∈ pc'.refreshes ∨ Closed sys t) (hsound : pc'.Sound s')
    (hfamilies : ∀ entry ∈ s'.revoked, ∃ t ∈ sys.state.issued, t.familyId = some entry.1)
    (hrevoked : ∀ entry ∈ s'.revoked, ∀ t ∈ sys.state.issued, t.familyId = some entry.1 →
      Closed sys t ∨ ∃ u user, .saveReuse u user ∈ sys.threads.set w pc' ∧ Kin u t) :
    TokenInv ⟨s', sys.threads.set w pc'⟩ := by
  have hself : (sys.threads.set w pc')[w]? = some pc' :=
    List.getElem?_set_self (List.getElem?_eq_some_iff.mp hw).1
  have hothers : ∀ ⦃v : Nat⦄ ⦃pc'' : TokenPc⦄, sys.threads[v]? = some pc'' → v ≠ w →
      pc''.Sound s' := by
    intro v pc'' hv hne
    have hsound := h.sound pc'' (List.mem_of_getElem? hv)
    refine sound_mono (fun u hu => hissued ▸ hu) (fun entry hentry => hhistory ▸ hentry)
      hsound hversion hnow (fun t _ haccepted => hhistory ▸ haccepted) fun t ht hold => ?_
    obtain hin | hnew := hmarked t (asked_of_sound hsound ht).signed.1 hold
    · exact absurd (h.alone hv hw ht hin (.refl t)) hne
    · exact hnew
  refine h.frame hissued hhistory hversion hnow (fun t haccepted => ?_) (fun pc'' hpc t ht => ?_)
    (fun t hrunning => ?_) (h.alone_set hw hsub) (forall_mem_set hothers hsound) hfamilies hrevoked
  · have hsigned := h.recorded.signed t (h.recorded.presented t haccepted)
    obtain hin | hnew := hmarked t hsigned.1 (h.recorded.marked t haccepted)
    · exact hmine t hin haccepted
    · exact hnew
  · obtain ⟨v, hv⟩ := List.getElem?_of_mem hpc
    obtain ⟨old, hold, ht⟩ := refreshes_of_set hw hsub hv ht
    exact TokenSystem.running_of hold ht
  · obtain ht | hrunning := running_set hw hrunning
    · exact (hends t ht).imp_left fun hin => ⟨pc', List.mem_of_getElem? hself, hin⟩
    · exact .inl hrunning

theorem TokenInv.revoked_set (h : TokenInv sys) (pc' : TokenPc) (hw : sys.threads[w]? = some pc)
    (hpc : pc.closes = false) :
    ∀ entry ∈ sys.state.revoked, ∀ t ∈ sys.state.issued, t.familyId = some entry.1 →
      Closed sys t ∨ ∃ u user, .saveReuse u user ∈ sys.threads.set w pc' ∧ Kin u t :=
  fun entry hentry t ht hfamily =>
    (h.revoked entry hentry t ht hfamily).imp_right (closing_set hw hpc)

/-- A step of one thread that changes nothing else. -/
theorem TokenInv.local (h : TokenInv sys) (hw : sys.threads[w]? = some pc)
    (hpc : pc.closes = false)
    (hsub : ∀ t ∈ pc'.refreshes, t ∈ pc.refreshes)
    (hends : ∀ t ∈ pc.refreshes, t ∈ pc'.refreshes ∨ Closed sys t)
    (hsound : pc'.Sound sys.state) : TokenInv ⟨sys.state, sys.threads.set w pc'⟩ :=
  h.set hw rfl rfl rfl (Int.le_refl _) (fun _ _ hold => .inr hold)
    (fun t _ haccepted => h.recorded.marked t haccepted) hsub hends hsound h.families
    (h.revoked_set pc' hw hpc)

/-! ## The steps of a refresh -/

theorem sound_checkJti (hasked : Held s token user) : (TokenPc.checkJti token user).Sound s := by
  unfold TokenPc.checkJti
  split
  · next hjti => exact ⟨hasked, Option.isSome_iff_ne_none.mp hjti⟩
  · next hjti =>
    have hnone : token.jti = none := Option.not_isSome_iff_eq_none.mp hjti
    exact ⟨hasked, hasked.plain hnone, fun jti hmem => absurd (hnone.symm.trans hmem) nofun⟩

theorem refreshes_checkJti : (TokenPc.checkJti token user).refreshes = some token := by
  unfold TokenPc.checkJti
  split <;> rfl

/-- A step that goes on with the refresh of the token. -/
theorem TokenInv.goOn (h : TokenInv sys) (hw : sys.threads[w]? = some pc)
    (hpc : pc.closes = false) (htoken : pc.refreshes = some token)
    (htoken' : pc'.refreshes = some token) (hsound : pc'.Sound sys.state) :
    TokenInv ⟨sys.state, sys.threads.set w pc'⟩ := by
  have hsame : pc'.refreshes = pc.refreshes := htoken'.trans htoken.symm
  exact h.local hw hpc (fun t ht => hsame ▸ ht) (fun t ht => .inl (hsame ▸ ht)) hsound

/-- A refresh of a closed family is refused. -/
theorem TokenInv.refuse (h : TokenInv sys) (hw : sys.threads[w]? = some pc)
    (hpc : pc.closes = false) (htoken : pc.refreshes = some token)
    (hclosed : Closed sys token) : TokenInv ⟨sys.state, sys.threads.set w .refused⟩ := by
  refine h.local hw hpc nofun (fun t ht => .inr ?_) trivial
  obtain rfl := Option.some.inj (htoken.symm.trans ht)
  exact hclosed

theorem TokenInv.find (h : TokenInv sys) (hw : sys.threads[w]? = some (.find token)) :
    TokenInv ⟨sys.state, sys.threads.set w (.findThen token sys.state.row)⟩ := by
  have hasked : Asked sys.state token := h.sound _ (List.mem_of_getElem? hw)
  unfold TokenPc.findThen
  split
  · next hversion => exact h.refuse hw rfl rfl (h.issued.closed hasked.signed.1 hversion)
  · next hversion =>
    have hheld : Held sys.state token sys.state.row :=
      ⟨hasked, rfl, Decidable.not_not.mp hversion⟩
    split
    · next hfamily =>
      exact h.goOn hw rfl rfl rfl ⟨hheld, Option.isSome_iff_ne_none.mp hfamily⟩
    · exact h.goOn hw rfl rfl refreshes_checkJti (sound_checkJti hheld)

/-- A closed family is found closed; when it is being closed, this is the thread that does it. -/
theorem TokenInv.isFamilyRevoked (h : TokenInv sys)
    (hw : sys.threads[w]? = some (.isFamilyRevoked token user)) :
    TokenInv ⟨sys.state, sys.threads.set w
      (if sys.state.revoked.get (token.familyId.getD "") sys.state.now then .refused
        else .checkJti token user)⟩ := by
  obtain ⟨hheld, hfamily⟩ := h.sound _ (List.mem_of_getElem? hw)
  split
  · next hget =>
    obtain ⟨familyId, hfamily⟩ := Option.ne_none_iff_exists'.mp hfamily
    rw [hfamily] at hget
    obtain ⟨entry, hentry, hkey⟩ := List.any_eq_true.mp hget
    have hkey : entry.1 = familyId := (of_decide_eq_true hkey).1
    obtain hclosed | ⟨u, user', hmem, hkin⟩ :=
      h.revoked entry hentry token hheld.signed.1 (hkey ▸ hfamily)
    · exact h.refuse hw rfl rfl hclosed
    · obtain ⟨v, hv⟩ := List.getElem?_of_mem hmem
      obtain rfl := h.alone hv hw rfl rfl hkin
      cases hw.symm.trans hv
  · exact h.goOn hw rfl rfl refreshes_checkJti (sound_checkJti hheld)

theorem TokenInv.isRotated (h : TokenInv sys)
    (hw : sys.threads[w]? = some (.isRotated token user))
    (hcareful : (TokenPc.isRotated token user).Careful sys w) :
    TokenInv ⟨sys.state, sys.threads.set w
      (if sys.state.rotated.get (token.jti.getD "") sys.state.now then
        if token.familyId.isSome then .revokeFamily token user else .saveReuse token user
      else .markRotated token user (max (token.exp - sys.state.now / 1000) 1))⟩ := by
  obtain ⟨hheld, hjti⟩ := h.sound _ (List.mem_of_getElem? hw)
  split
  · split
    · exact h.goOn hw rfl rfl rfl hheld
    · exact h.goOn hw rfl rfl rfl hheld
  · next hget =>
    refine h.goOn hw rfl rfl rfl ⟨hheld, fun haccepted => ?_, by omega⟩
    obtain ⟨jti, hjti⟩ := Option.ne_none_iff_exists'.mp hjti
    rw [hjti] at hget
    exact hcareful (expired_of_not_get (h.recorded.marked token haccepted) hjti hget) haccepted

theorem TokenInv.revokeFamily (h : TokenInv sys)
    (hw : sys.threads[w]? = some (.revokeFamily token user)) (ttlSeconds : Nat) :
    TokenInv ⟨sys.state.revokeFamily token ttlSeconds, sys.threads.set w (.saveReuse token user)⟩ := by
  have hheld : Held sys.state token user := h.sound _ (List.mem_of_getElem? hw)
  have hself : (sys.threads.set w (.saveReuse token user))[w]? = some (.saveReuse token user) :=
    List.getElem?_set_self (List.getElem?_eq_some_iff.mp hw).1
  have hsaving := List.mem_of_getElem? hself
  have hold := h.revoked_set (.saveReuse token user) hw rfl
  unfold TokenState.revokeFamily
  split
  · next familyId hfamily =>
    split
    · exact h.goOn hw rfl rfl rfl hheld
    · refine h.set hw rfl rfl rfl (Int.le_refl _) (fun _ _ hmark => .inr hmark)
        (fun t _ haccepted => h.recorded.marked t haccepted) (fun t ht => ht)
        (fun t ht => .inl ht) ⟨⟨hheld.signed, hheld.presented, hheld.plain⟩, hheld.copied,
          hheld.current⟩ (fun entry hentry => ?_) fun entry hentry t ht hkey => ?_
      · obtain rfl | ⟨hentry, -⟩ := mem_setEx.mp hentry
        · exact ⟨token, hheld.signed.1, hfamily⟩
        · exact h.families entry hentry
      · obtain rfl | ⟨hentry, -⟩ := mem_setEx.mp hentry
        · refine .inr ⟨token, user, hsaving, .inr ⟨hfamily.trans hkey.symm, ?_⟩⟩
          rw [hfamily]
          nofun
        · exact hold entry hentry t ht hkey
  · exact h.goOn hw rfl rfl rfl hheld

theorem TokenInv.markRotated {ttlSeconds : Int} (h : TokenInv sys)
    (hw : sys.threads[w]? = some (.markRotated token user ttlSeconds)) :
    TokenInv ⟨sys.state.markRotated token ttlSeconds, sys.threads.set w (.issue token user)⟩ := by
  obtain ⟨hheld, hfirst, httl⟩ := h.sound _ (List.mem_of_getElem? hw)
  have hrevoked := h.revoked_set (.issue token user) hw rfl
  unfold TokenState.markRotated
  split
  · next jti hjti =>
    refine h.set hw rfl rfl rfl (Int.le_refl _) (fun t ht hmark => ?_) (fun t ht haccepted => ?_)
      (fun t ht => ht) (fun t ht => .inl ht) ⟨⟨⟨hheld.signed, hheld.presented, hheld.plain⟩,
        hheld.copied, hheld.current⟩, hfirst, fun key hkey => ?_⟩ h.families hrevoked
    · by_cases hsame : t.jti = token.jti
      · have hsome : t.jti ≠ none := by
          rw [hsame, hjti]
          nofun
        exact .inl (congrArg some (h.issued.jti t ht token hheld.signed.1 hsame hsome).symm)
      · refine .inr fun key hkey => ?_
        obtain ⟨until', hmem, hle⟩ := hmark key hkey
        refine ⟨until', mem_setEx.mpr (.inr ⟨hmem, fun hjti' => hsame ?_⟩), hle⟩
        exact hkey.trans ((congrArg some hjti').trans hjti.symm)
    · obtain rfl := Option.some.inj ht
      exact absurd haccepted hfirst
    · obtain rfl : jti = key := Option.some.inj (hjti.symm.trans hkey)
      exact ⟨_, mem_setEx.mpr (.inl rfl), httl⟩
  · next hjti =>
    refine h.goOn hw rfl rfl rfl ⟨hheld, hfirst, fun key hkey => ?_⟩
    exact absurd (hjti.symm.trans hkey) nofun

/-- A logout, or a detected reuse, raises the version, and no other thread has read the row. -/
theorem TokenInv.shutDown (h : TokenInv sys) (hw : sys.threads[w]? = some pc)
    (huser : user.tokenVersion = sys.state.row.tokenVersion)
    (hothers : ∀ pc ∈ sys.threads.eraseIdx w, pc.held = none) (hpc' : pc'.refreshes = none)
    (hsound : ∀ s, pc'.Sound s) :
    TokenInv ⟨sys.state.shutDown user, sys.threads.set w pc'⟩ := by
  have hsub : ∀ t ∈ pc'.refreshes, t ∈ pc.refreshes := by
    rw [hpc']
    nofun
  have hraised : sys.state.row.tokenVersion < (sys.state.shutDown user).row.tokenVersion := by
    show _ < user.tokenVersion + 1
    omega
  have hclosed : ∀ t, Closed ⟨sys.state.shutDown user, sys.threads.set w pc'⟩ t :=
    fun t u hu _ => .inl (Nat.lt_of_le_of_lt (h.issued.version u hu) hraised)
  constructor
  case issued => exact (h.issued.withAccount (Nat.le_of_lt hraised)).log _
  case recorded =>
    refine (h.recorded.withAccount (Nat.le_of_lt hraised)).log trivial nofun nofun
      fun issued hnew t ht => ?_
    obtain rfl := TokenEntry.shutdown.inj hnew
    exact Nat.lt_of_le_of_lt (h.issued.version t ht) hraised
  case alone => exact h.alone_set hw hsub
  case sound =>
    refine forall_mem_set (fun v pc'' hv hne => ?_) (hsound _)
    have hheld := hothers pc'' (List.mem_eraseIdx_iff_getElem?.mpr ⟨v, hne, hv⟩)
    exact sound_of_not_held (s := sys.state) (fun _ hu => hu) (fun _ hold => mem_log hold)
      (h.sound pc'' (List.mem_of_getElem? hv)) hheld fun t _ haccepted => mem_of_log haccepted nofun
  case answered => exact fun t _ => .inr (.inr (hclosed t))
  case twice => exact fun t _ => .inl (hclosed t)
  case families => exact h.families
  case revoked => exact fun _ _ t _ _ => .inl (hclosed t)

/-! ## New tokens -/

/-- A token of the row's version, with a new id or none, and nobody's kin. -/
structure Signs (s : TokenState) (x : JwtPayload) : Prop where
  version : x.tokenVersion = s.row.tokenVersion
  jti : x.jti ≠ none → ∀ t ∈ s.issued, t.jti ≠ x.jti
  family : x.familyId ≠ none → ∀ t ∈ s.issued, t.familyId ≠ x.familyId

theorem Signs.eq_of_kin {x : JwtPayload} (h : Signs s x) (ht : t ∈ s.issued) (hkin : Kin t x) :
    t = x := by
  obtain rfl | ⟨hfamily, hsome⟩ := hkin
  · rfl
  · exact absurd hfamily (h.family (hfamily ▸ hsome) t ht)

theorem TokenInv.sign {x : JwtPayload} (h : TokenInv sys) (hx : Signs sys.state x) :
    TokenInv ⟨sys.state.sign [x], sys.threads⟩ := by
  have hissued : ∀ t ∈ sys.state.issued, t ∈ (sys.state.sign [x]).issued :=
    fun t ht => List.mem_append_left _ ht
  have hgrows : Grows sys ⟨sys.state.sign [x], sys.threads⟩ :=
    ⟨Nat.le_refl _, fun _ hentry => hentry, Int.le_refl _, fun _ hrunning => .inl hrunning⟩
  have hclosed : ∀ {t : JwtPayload}, t ∈ sys.state.issued → Closed sys t →
      Closed ⟨sys.state.sign [x], sys.threads⟩ t := by
    refine fun ht hold => hold.mono hgrows fun u hu hkin => ?_
    obtain hu | hu := List.mem_append.mp hu
    · exact hu
    · obtain rfl := List.mem_singleton.mp hu
      exact hx.eq_of_kin ht hkin ▸ ht
  constructor
  case issued =>
    refine h.issued.sign hx.version hx.jti (fun t ht hkin => ?_) fun t ht hkin hne => ?_
    · rw [hx.eq_of_kin ht hkin]
    · exact absurd (hx.eq_of_kin ht hkin) hne
  case recorded => exact h.recorded.sign [x]
  case alone => exact h.alone
  case sound =>
    exact fun pc hpc => sound_mono hissued (fun _ hentry => hentry) (h.sound pc hpc) rfl
      (Int.le_refl _) (fun _ _ haccepted => haccepted) fun _ _ hmark => hmark
  case answered =>
    intro t ht
    exact (h.answered t ht).imp_right (Or.imp_right (hclosed (h.recorded.signed t ht).1))
  case twice =>
    intro t ht
    have hsigned := h.recorded.signed t (presented_of_twice ht)
    exact (h.twice t ht).imp_left (hclosed hsigned.1)
  case families =>
    intro entry hentry
    obtain ⟨t, ht, hkey⟩ := h.families entry hentry
    exact ⟨t, hissued t ht, hkey⟩
  case revoked =>
    intro entry hentry t ht hkey
    obtain ht | ht := List.mem_append.mp ht
    · exact (h.revoked entry hentry t ht hkey).imp_left (hclosed ht)
    · obtain rfl := List.mem_singleton.mp ht
      obtain ⟨u, hu, hkey'⟩ := h.families entry hentry
      refine absurd (hkey'.trans hkey.symm) (hx.family ?_ u hu)
      rw [hkey]
      nofun

/-- The next token of a family, or the first of a new one. -/
structure Follows (s : TokenState) (u x : JwtPayload) : Prop where
  version : x.tokenVersion = s.row.tokenVersion
  jti : x.jti ≠ none ∧ ∀ t ∈ s.issued, t.jti ≠ x.jti
  family : x.familyId = u.familyId ∨ ∀ t ∈ s.issued, t.familyId ≠ x.familyId

theorem Follows.kin {x : JwtPayload} (h : Follows s u x) (ht : t ∈ s.issued) (hkin : Kin t x) :
    Kin t u ∧ t ≠ x := by
  have hne : t ≠ x := fun heq => h.jti.2 t ht (congrArg (·.jti) heq)
  obtain rfl | ⟨hfamily, hsome⟩ := hkin
  · exact absurd rfl hne
  · obtain hsame | hfresh := h.family
    · exact ⟨.inr ⟨hfamily.trans hsame, hsome⟩, hne⟩
    · exact absurd hfamily (hfresh t ht)

section Accept

variable (h : TokenInv sys) (hw : sys.threads[w]? = some (.issue u user))
include h hw

/-- While one token of a family is about to be accepted, the family is open, and nobody else is
    refreshing it. -/
theorem TokenInv.open_of_issue (hkin : Kin t u) : ¬ Closed sys t := by
  obtain ⟨hheld, hfirst, -⟩ := h.sound _ (List.mem_of_getElem? hw)
  intro hclosed
  exact not_ended (TokenSystem.running_of hw rfl) hheld.current hfirst
    (hclosed u hheld.signed.1 hkin)

theorem TokenInv.not_closing_of_issue (hkin : Kin t u) : ¬ sys.Closing t := by
  rintro ⟨x, user', hmem, hkin'⟩
  obtain ⟨v, hv⟩ := List.getElem?_of_mem hmem
  obtain rfl := h.alone hv hw rfl rfl (hkin'.trans hkin)
  cases hw.symm.trans hv

/-- It is the first use of the token, and no token of its family came back. -/
theorem TokenInv.allowed : (TokenEntry.accepted u).Allowed sys.state.history := by
  obtain ⟨hheld, hfirst, -⟩ := h.sound _ (List.mem_of_getElem? hw)
  refine ⟨hfirst, fun t hkin => Nat.le_of_not_lt fun htwice => ?_, fun issued hmem hu => ?_⟩
  · obtain hclosed | ⟨haccepted, pc, hpc, ht⟩ := h.twice t htwice
    · exact h.open_of_issue hw hkin hclosed
    · obtain ⟨v, hv⟩ := List.getElem?_of_mem hpc
      obtain rfl := h.alone hv hw ht rfl hkin
      obtain rfl : .issue u user = pc := Option.some.inj (hw.symm.trans hv)
      obtain rfl := Option.some.inj ht
      exact hfirst haccepted
  · exact Nat.ne_of_lt (h.recorded.shutdown issued hmem u hu) hheld.current

theorem TokenInv.accept {x : JwtPayload} (hx : Follows sys.state u x) :
    TokenInv ⟨(sys.state.sign [x]).log (.accepted u), sys.threads.set w .refreshed⟩ := by
  obtain ⟨hheld, hfirst, hmark⟩ := h.sound _ (List.mem_of_getElem? hw)
  have hissued : ∀ t ∈ sys.state.issued, t ∈ sys.state.issued ++ [x] :=
    fun t ht => List.mem_append_left _ ht
  have hsub : ∀ t ∈ TokenPc.refreshed.refreshes, t ∈ (TokenPc.issue u user).refreshes := nofun
  have hgrows : Grows sys
      ⟨(sys.state.sign [x]).log (.accepted u), sys.threads.set w .refreshed⟩ := by
    refine ⟨Nat.le_refl _, fun _ hold => mem_log hold, Int.le_refl _, fun t => ?_⟩
    rintro ⟨pc, hpc, ht⟩
    obtain ⟨v, hv⟩ := List.getElem?_of_mem hpc
    obtain ⟨old, hold, ht⟩ := refreshes_of_set hw hsub hv ht
    exact .inl (TokenSystem.running_of hold ht)
  have hclosed : ∀ {t : JwtPayload}, t ∈ sys.state.issued → Closed sys t →
      Closed ⟨(sys.state.sign [x]).log (.accepted u), sys.threads.set w .refreshed⟩ t := by
    refine fun ht hold => hold.mono hgrows fun y hy hkin => ?_
    obtain hy | hy := List.mem_append.mp hy
    · exact hy
    · obtain rfl := List.mem_singleton.mp hy
      exact absurd hold (h.open_of_issue hw (hx.kin ht hkin).1)
  constructor
  case issued =>
    refine (h.issued.log (.accepted u)).sign hx.version (fun _ => hx.jti.2) (fun t ht hkin => ?_)
      fun t ht hkin _ => ?_
    · have hsame := h.issued.family t ht u hheld.signed.1 (hx.kin ht hkin).1
      exact (hsame.trans hheld.current).trans hx.version.symm
    · by_cases htu : t = u
      · rw [htu]
        exact List.mem_cons_self ..
      · have hlast := h.issued.last t ht u hheld.signed.1 (hx.kin ht hkin).1 htu
        exact mem_log (hlast.resolve_right hfirst)
  case recorded =>
    refine (h.recorded.sign [x]).log (h.allowed hw) nofun (fun t hnew => ?_) nofun
    obtain rfl := TokenEntry.accepted.inj hnew
    exact ⟨hheld.presented, hmark⟩
  case alone => exact h.alone_set hw hsub
  case sound =>
    refine forall_mem_set (fun v pc hv hne => ?_) trivial
    refine sound_mono (s := sys.state) hissued (fun _ hold => mem_log hold)
      (h.sound pc (List.mem_of_getElem? hv)) rfl (Int.le_refl _)
      (fun t ht hmem => mem_of_log hmem fun hnew => hne ?_) fun _ _ hold => hold
    exact h.alone hv hw ht rfl (.inl (TokenEntry.accepted.inj hnew))
  case answered =>
    intro t ht
    have hpresented : .presented t ∈ sys.state.history := mem_of_log ht nofun
    obtain hrunning | hold | hold := h.answered t hpresented
    · obtain hin | hrunning := running_set hw hrunning
      · obtain rfl := Option.some.inj hin
        exact .inr (.inl (List.mem_cons_self ..))
      · exact .inl hrunning
    · exact .inr (.inl (mem_log hold))
    · exact .inr (.inr (hclosed (h.recorded.signed t hpresented).1 hold))
  case twice =>
    intro t ht
    have ht : 2 ≤ sys.state.history.count (.presented t) := twice_of_log ht nofun
    obtain hold | ⟨hold, hrunning⟩ := h.twice t ht
    · exact .inl (hclosed (h.recorded.signed t (presented_of_twice ht)).1 hold)
    · obtain hin | hrunning := running_set hw hrunning
      · obtain rfl := Option.some.inj hin
        exact absurd hold hfirst
      · exact .inr ⟨mem_log hold, hrunning⟩
  case families =>
    intro entry hentry
    obtain ⟨t, ht, hkey⟩ := h.families entry hentry
    exact ⟨t, hissued t ht, hkey⟩
  case revoked =>
    intro entry hentry t ht hkey
    obtain ht | ht := List.mem_append.mp ht
    · exact (h.revoked entry hentry t ht hkey).imp (hclosed ht) (closing_set hw rfl)
    · obtain rfl := List.mem_singleton.mp ht
      obtain hsame | hfresh := hx.family
      · obtain hold | hclosing := h.revoked entry hentry u hheld.signed.1 (hsame ▸ hkey)
        · exact absurd hold (h.open_of_issue hw (.refl u))
        · exact absurd hclosing (h.not_closing_of_issue hw (.refl u))
      · obtain ⟨y, hy, hkey'⟩ := h.families entry hentry
        exact absurd (hkey'.trans hkey.symm) (hfresh y hy)

end Accept

theorem TokenInv.issue (h : TokenInv sys) (hw : sys.threads[w]? = some (.issue token user))
    (hfresh : sys.state.Fresh draw) : TokenInv
      ⟨sys.state.issue lifetimes token user draw, sys.threads.set w .refreshed⟩ := by
  obtain ⟨hheld, -⟩ := h.sound _ (List.mem_of_getElem? hw)
  have hsigned : TokenInv ⟨sys.state.sign [user.accessToken lifetimes sys.state.now], sys.threads⟩ :=
    h.sign ⟨hheld.copied, fun hsome => absurd rfl hsome, fun hsome => absurd rfl hsome⟩
  have hnext := hsigned.accept hw (x := user.refreshToken lifetimes sys.state.now (some draw.jti)
    (some (token.familyId.getD draw.familyId)) lifetimes.refreshSeconds) ⟨hheld.copied, ⟨nofun, ?_⟩, ?_⟩
  · unfold TokenState.issue User.issueTokenPair
    unfold TokenState.sign at hnext ⊢
    rwa [List.append_assoc] at hnext
  · exact forall_mem_append (fun t ht => (hfresh t ht).1) nofun
  · cases hfamily : token.familyId with
    | some familyId => exact .inl rfl
    | none => exact .inr (forall_mem_append (fun t ht => (hfresh t ht).2) nofun)

/-! ## Second factors -/

theorem tokenVersion_failAttempt {now : Int} :
    (user.failAttempt now).tokenVersion = user.tokenVersion := by
  unfold User.failAttempt
  split <;> rfl

/-- A call of `verifyMfa` leaves the version of the row it has read. -/
theorem mfa_step {a a' : State} {mfa mfa' : Pc}
    (hheld : ∀ user ∈ mfa.held, user.tokenVersion = a.row.tokenVersion)
    (hstep : verifier.step a mfa = some (a', mfa')) :
    a'.row.tokenVersion = a.row.tokenVersion ∧ a'.now = a.now ∧
      ∀ user ∈ mfa'.held, user.tokenVersion = a.row.tokenVersion := by
  have hone : ∀ {pc : Pc} {user : User}, pc.held = some user →
      user.tokenVersion = a.row.tokenVersion →
        ∀ x ∈ pc.held, x.tokenVersion = a.row.tokenVersion := by
    intro pc user hpc hversion x hx
    obtain rfl := Option.some.inj (hpc.symm.trans hx)
    exact hversion
  cases mfa with
  | find token =>
    obtain ⟨rfl, rfl⟩ := Prod.mk.inj (Option.some.inj hstep)
    split
    · split
      · exact ⟨rfl, rfl, nofun⟩
      · split
        · exact ⟨rfl, rfl, nofun⟩
        · unfold Verifier.tryTotp
          split
          · exact ⟨rfl, rfl, hone rfl rfl⟩
          · split
            · exact ⟨rfl, rfl, hone rfl tokenVersion_failAttempt⟩
            · exact ⟨rfl, rfl, hone rfl rfl⟩
    · exact ⟨rfl, rfl, nofun⟩
  | compareCodes user token =>
    have hversion := hheld user rfl
    simp only [Verifier.step] at hstep
    split at hstep <;> obtain ⟨rfl, rfl⟩ := Prod.mk.inj (Option.some.inj hstep)
    · exact ⟨rfl, rfl, hone rfl hversion⟩
    · exact ⟨rfl, rfl, hone rfl (tokenVersion_failAttempt.trans hversion)⟩
  | saveFailure user =>
    obtain ⟨rfl, rfl⟩ := Prod.mk.inj (Option.some.inj hstep)
    exact ⟨hheld user rfl, rfl, nofun⟩
  | saveSuccess user code =>
    obtain ⟨rfl, rfl⟩ := Prod.mk.inj (Option.some.inj hstep)
    exact ⟨hheld user rfl, rfl, nofun⟩
  | valid | mfaNotEnabled | mfaLockedOut | invalidToken => cases hstep

theorem TokenInv.mfa {a' : State} {mfa mfa' : Pc} (h : TokenInv sys)
    (hw : sys.threads[w]? = some (.mfa mfa))
    (hstep : verifier.step sys.state.account mfa = some (a', mfa')) :
    TokenInv ⟨{ sys.state with account := a' }, sys.threads.set w (.mfa mfa')⟩ := by
  have hheld : ∀ user ∈ mfa.held, user.tokenVersion = sys.state.row.tokenVersion :=
    h.sound _ (List.mem_of_getElem? hw)
  obtain ⟨hversion, hnow, hheld'⟩ := mfa_step hheld hstep
  exact h.set hw rfl rfl hversion (Int.le_of_eq hnow.symm) (fun _ _ hmark => .inr hmark) nofun nofun
    nofun (fun user huser => (hheld' user huser).trans hversion.symm) h.families
    (h.revoked_set _ hw rfl)

/-! ## Runs -/

theorem TokenInv.run (h : TokenInv sys) (hw : sys.threads[w]? = some pc)
    (hfresh : sys.state.Fresh draw) (hcareful : pc.Careful sys w)
    (hstep : tokenStep verifier lifetimes sys.state draw pc = some (s', pc')) :
    TokenInv ⟨s', sys.threads.set w pc'⟩ := by
  have hmine := h.sound pc (List.mem_of_getElem? hw)
  cases pc with
  | find token =>
    obtain ⟨rfl, rfl⟩ := Prod.mk.inj (Option.some.inj hstep)
    exact h.find hw
  | isFamilyRevoked token user =>
    obtain ⟨rfl, rfl⟩ := Prod.mk.inj (Option.some.inj hstep)
    exact h.isFamilyRevoked hw
  | isRotated token user =>
    obtain ⟨rfl, rfl⟩ := Prod.mk.inj (Option.some.inj hstep)
    exact h.isRotated hw hcareful
  | revokeFamily token user =>
    obtain ⟨rfl, rfl⟩ := Prod.mk.inj (Option.some.inj hstep)
    exact h.revokeFamily hw lifetimes.familySeconds
  | saveReuse token user =>
    obtain ⟨rfl, rfl⟩ := Prod.mk.inj (Option.some.inj hstep)
    exact h.shutDown hw (Held.copied hmine) hcareful rfl fun _ => trivial
  | markRotated token user ttlSeconds =>
    obtain ⟨rfl, rfl⟩ := Prod.mk.inj (Option.some.inj hstep)
    exact h.markRotated hw
  | issue token user =>
    obtain ⟨rfl, rfl⟩ := Prod.mk.inj (Option.some.inj hstep)
    exact h.issue hw hfresh
  | logoutFind =>
    obtain ⟨rfl, rfl⟩ := Prod.mk.inj (Option.some.inj hstep)
    exact h.local hw rfl nofun nofun rfl
  | logoutSave user =>
    obtain ⟨rfl, rfl⟩ := Prod.mk.inj (Option.some.inj hstep)
    exact h.shutDown hw hmine hcareful rfl fun _ => trivial
  | mfa pc =>
    obtain ⟨⟨a', mfa'⟩, hmfa, hr⟩ := Option.map_eq_some_iff.mp hstep
    obtain ⟨rfl, rfl⟩ := Prod.mk.inj hr
    exact h.mfa hw hmfa
  | refreshed | refused | loggedOut => cases hstep

/-- What is under way stays so when a thread joins. -/
theorem running_append (h : sys.Running t) (s' : TokenState) (pc : TokenPc) :
    TokenSystem.Running ⟨s', sys.threads ++ [pc]⟩ t := by
  obtain ⟨pc', hmem, ht⟩ := h
  exact ⟨pc', List.mem_append_left _ hmem, ht⟩

theorem closing_append (h : sys.Closing t) (s' : TokenState) (pc : TokenPc) :
    TokenSystem.Closing ⟨s', sys.threads ++ [pc]⟩ t := by
  obtain ⟨u, user, hmem, hkin⟩ := h
  exact ⟨u, user, List.mem_append_left _ hmem, hkin⟩

theorem TokenInv.append (h : TokenInv sys) (hpc : pc.refreshes = none)
    (hsound : pc.Sound sys.state) : TokenInv ⟨sys.state, sys.threads ++ [pc]⟩ := by
  have hold : ∀ {v : Nat} {pc' : TokenPc} {t : JwtPayload}, (sys.threads ++ [pc])[v]? = some pc' →
      t ∈ pc'.refreshes → sys.threads[v]? = some pc' := by
    intro v pc' t hv ht
    obtain hv | rfl := getElem?_append_cases hv
    · exact hv
    · rw [hpc] at ht
      cases ht
  refine h.frame rfl rfl rfl (Int.le_refl _) h.recorded.marked (fun pc' hmem t ht => ?_)
    (fun t hrunning => ?_) (fun v w pc₁ pc₂ t u hv hw ht hu hkin => ?_)
    (forall_mem_append h.sound hsound) h.families fun entry hentry t ht hkey => ?_
  · obtain ⟨v, hv⟩ := List.getElem?_of_mem hmem
    exact TokenSystem.running_of (hold hv ht) ht
  · exact .inl (running_append hrunning sys.state pc)
  · exact h.alone (hold hv ht) (hold hw hu) ht hu hkin
  · exact (h.revoked entry hentry t ht hkey).imp_right fun hclosing =>
      closing_append hclosing sys.state pc

theorem TokenInv.tick (h : TokenInv sys) (ms : Nat) :
    TokenInv { sys with state.account.now := sys.state.now + ms } := by
  have hnow : sys.state.now ≤ sys.state.now + ms := by omega
  refine h.frame rfl rfl rfl hnow h.recorded.marked (fun pc hpc t ht => ⟨pc, hpc, ht⟩)
    (fun t hrunning => .inl hrunning) h.alone (fun pc hpc => ?_) h.families h.revoked
  exact sound_mono (s := sys.state) (fun _ hu => hu) (fun _ hentry => hentry) (h.sound pc hpc) rfl
    hnow (fun _ _ haccepted => haccepted) fun _ _ hmark => hmark

/-- A token is presented, while nobody is refreshing its family. -/
theorem TokenInv.refresh (h : TokenInv sys) (hsigned : sys.state.Signed token)
    (hfree : ∀ pc ∈ sys.threads, ∀ t ∈ pc.refreshes, ¬ Kin t token)
    (hplain : token.jti = none → .presented token ∉ sys.state.history)
    (hexpired : token.Expired sys.state.now → .accepted token ∉ sys.state.history) :
    TokenInv ⟨sys.state.log (.presented token), sys.threads ++
      [if token.Expired sys.state.now then .refused else .find token]⟩ := by
  generalize hpc : (if token.Expired sys.state.now then TokenPc.refused else .find token) = pc
  have hnew : ∀ t ∈ pc.refreshes, t = token ∧ ¬ token.Expired sys.state.now := by
    intro t ht
    rw [← hpc] at ht
    split at ht
    · cases ht
    · next hvalid => exact ⟨(Option.some.inj ht).symm, hvalid⟩
  have hplace : ∀ {v : Nat} {pc' : TokenPc} {t : JwtPayload},
      (sys.threads ++ [pc])[v]? = some pc' → t ∈ pc'.refreshes →
        sys.threads[v]? = some pc' ∨ v = sys.threads.length ∧ t = token := by
    intro v pc' t hv ht
    obtain hold | ⟨hlast, rfl⟩ := getElem?_append_place hv
    · exact .inl hold
    · exact .inr ⟨hlast, (hnew t ht).1⟩
  have hidle : ¬ sys.Running token := by
    rintro ⟨pc', hmem, ht⟩
    exact hfree pc' hmem token ht (.refl token)
  have hgrows : Grows sys ⟨sys.state.log (.presented token), sys.threads ++ [pc]⟩ := by
    refine ⟨Nat.le_refl _, fun _ hold => mem_log hold, Int.le_refl _, fun t => ?_⟩
    rintro ⟨pc', hmem, ht⟩
    obtain hmem | hmem := List.mem_append.mp hmem
    · exact .inl ⟨pc', hmem, ht⟩
    · obtain rfl := List.mem_singleton.mp hmem
      obtain ⟨rfl, hvalid⟩ := hnew t ht
      exact .inr hvalid
  have hclosed : ∀ {t : JwtPayload}, Closed sys t →
      Closed ⟨sys.state.log (.presented token), sys.threads ++ [pc]⟩ t :=
    fun hold => hold.mono hgrows fun _ hu _ => hu
  have hlast : token.Expired sys.state.now → Closed sys token := fun hexp =>
    h.issued.closed_of_expired hsigned.1 hexp hidle (hexpired hexp)
  have hactive : ¬ token.Expired sys.state.now →
      TokenSystem.Running ⟨sys.state.log (.presented token), sys.threads ++ [pc]⟩ token := by
    intro hvalid
    refine ⟨pc, List.mem_append_right _ (List.mem_singleton_self _), ?_⟩
    rw [← hpc, if_neg hvalid]
    rfl
  constructor
  case issued => exact h.issued.log _
  case recorded =>
    refine h.recorded.log trivial (fun t hnew => ?_) nofun nofun
    obtain rfl := TokenEntry.presented.inj hnew
    exact hsigned
  case alone =>
    intro v w pc₁ pc₂ t u hv hw ht hu hkin
    obtain hv' | ⟨hv', rfl⟩ := hplace hv ht
    · obtain hw' | ⟨-, rfl⟩ := hplace hw hu
      · exact h.alone hv' hw' ht hu hkin
      · exact absurd hkin (hfree pc₁ (List.mem_of_getElem? hv') t ht)
    · obtain hw' | ⟨hw', -⟩ := hplace hw hu
      · exact absurd hkin.symm (hfree pc₂ (List.mem_of_getElem? hw') u hu)
      · exact hv'.trans hw'.symm
  case sound =>
    refine forall_mem_append (fun pc' hmem => ?_) ?_
    · exact sound_mono (s := sys.state) (fun _ hu => hu) (fun _ hold => mem_log hold)
        (h.sound pc' hmem) rfl (Int.le_refl _) (fun _ _ hmem => mem_of_log hmem nofun)
        fun _ _ hmark => hmark
    · rw [← hpc]
      split
      · trivial
      · refine ⟨hsigned, List.mem_cons_self .., fun hjti hmem => hplain hjti ?_⟩
        exact h.recorded.presented token (mem_of_log hmem nofun)
  case answered =>
    intro t ht
    by_cases htoken : t = token
    · subst htoken
      by_cases hexp : t.Expired sys.state.now
      · exact .inr (.inr (hclosed (hlast hexp)))
      · exact .inl (hactive hexp)
    · have hold : .presented t ∈ sys.state.history :=
        mem_of_log ht fun heq => htoken (TokenEntry.presented.inj heq)
      exact (h.answered t hold).imp (fun hrunning => running_append hrunning _ pc)
        (Or.imp mem_log hclosed)
  case twice =>
    intro t ht
    by_cases htoken : t = token
    · subst htoken
      have hmem : .presented t ∈ sys.state.history := by
        have hcount : 2 ≤ sys.state.history.count (.presented t) + 1 := by
          rwa [← List.count_cons_self]
        exact List.count_pos_iff.mp (by omega)
      by_cases hexp : t.Expired sys.state.now
      · exact .inl (hclosed (hlast hexp))
      · obtain hold | hold | hold := h.answered t hmem
        · exact absurd hold hidle
        · exact .inr ⟨mem_log hold, hactive hexp⟩
        · exact .inl (hclosed hold)
    · have ht : 2 ≤ sys.state.history.count (.presented t) :=
        twice_of_log ht fun heq => htoken (TokenEntry.presented.inj heq).symm
      exact (h.twice t ht).imp hclosed (And.imp mem_log fun hrunning =>
        running_append hrunning _ pc)
  case families => exact h.families
  case revoked =>
    intro entry hentry t ht hkey
    exact (h.revoked entry hentry t ht hkey).imp hclosed fun hclosing =>
      closing_append hclosing _ pc

theorem TokenInv.next {e : TokenEvent} (h : TokenInv sys) (hcareful : CarefulTokens sys e)
    (hnext : tokenNext verifier lifetimes sys e = some sys') : TokenInv sys' := by
  have hplain : ∀ {sys : TokenSystem}, TokenInv sys → ∀ {x : JwtPayload},
      x.tokenVersion = sys.state.row.tokenVersion → x.jti = none → x.familyId = none →
        TokenInv ⟨sys.state.sign [x], sys.threads⟩ := fun h _ hversion hjti hfamily =>
    h.sign ⟨hversion, fun hsome => absurd hjti hsome, fun hsome => absurd hfamily hsome⟩
  have haccess := hplain h (x := sys.state.row.accessToken lifetimes sys.state.now) rfl rfl rfl
  cases e with
  | signIn draw =>
    simp only [tokenNext, Option.ite_none_right_eq_some, Option.some.injEq] at hnext
    obtain ⟨hfresh, rfl⟩ := hnext
    have hpair := haccess.sign (x := sys.state.row.refreshToken lifetimes sys.state.now
      (some draw.jti) (some draw.familyId) lifetimes.refreshSeconds)
      ⟨rfl, fun _ => forall_mem_append (fun t ht => (hfresh t ht).1) nofun,
        fun _ => forall_mem_append (fun t ht => (hfresh t ht).2) nofun⟩
    unfold TokenState.sign at hpair ⊢
    rwa [List.append_assoc] at hpair
  | walletSignIn =>
    cases hnext
    have hpair := hplain haccess (x := sys.state.row.refreshToken lifetimes sys.state.now none none
      (7 * 24 * 3600)) rfl rfl rfl
    unfold TokenState.sign at hpair ⊢
    rwa [List.append_assoc] at hpair
  | refresh token =>
    cases hnext
    unfold TokenSystem.refresh
    split
    · next hsigned =>
      obtain ⟨hfree, hplain, hexpired⟩ := hcareful hsigned
      exact h.refresh hsigned hfree hplain hexpired
    · exact h.append rfl trivial
  | logout =>
    cases hnext
    exact h.append rfl trivial
  | verifyMfa token =>
    cases hnext
    exact h.append rfl nofun
  | tick ms =>
    cases hnext
    exact h.tick ms
  | run w draw =>
    simp only [tokenNext, Option.bind_eq_bind, Option.bind_eq_some_iff,
      Option.ite_none_right_eq_some] at hnext
    obtain ⟨pc, hw, hfresh, ⟨s', pc'⟩, hstep, hsys⟩ := hnext
    obtain rfl := Option.some.inj hsys
    exact h.run hw hfresh (hcareful pc hw) hstep

theorem tokenInv_start (user : User) (now : Int) : TokenInv (tokenStart user now) where
  issued := ⟨fun _ ht => absurd ht List.not_mem_nil, fun _ ht => absurd ht List.not_mem_nil,
    fun _ ht => absurd ht List.not_mem_nil, fun _ ht => absurd ht List.not_mem_nil⟩
  recorded := ⟨fun _ ht => absurd ht List.not_mem_nil, fun _ ht => absurd ht List.not_mem_nil,
    fun _ ht => absurd ht List.not_mem_nil, fun _ ht => absurd ht List.not_mem_nil, trivial⟩
  alone := fun _ _ _ _ _ _ hv => absurd hv nofun
  sound := fun _ hpc => absurd hpc List.not_mem_nil
  answered := fun _ ht => absurd ht List.not_mem_nil
  twice := fun _ htwice => absurd (show 2 ≤ 0 from htwice) (by decide)
  families := fun _ hentry => absurd hentry List.not_mem_nil
  revoked := fun _ hentry => absurd hentry List.not_mem_nil

/-- In a run of careful steps a refresh token is used once, a family ends when one of its tokens
    comes back, and a shutdown ends what was issued before. -/
theorem single_use (verifier : Verifier) (lifetimes : Lifetimes) (user : User) (now : Int)
    (xs : List (Step TokenSystem TokenEvent)) (sys : TokenSystem)
    (hrun : TokenRun verifier lifetimes user now xs sys)
    (hcareful : ∀ x ∈ xs, CarefulTokens x.pre x.act) : SingleUse sys.state.history :=
  (hrun.invariant TokenInv (tokenInv_start user now) fun x hx hnext hpre =>
    hpre.next (hcareful x hx) hnext).recorded.single

def noFactors : Verifier := ⟨id, fun _ _ _ => false, fun _ _ => false⟩

def week : Lifetimes := ⟨900, 604800, 604800⟩

def kofi : User := {
  id := "user-2"
  email := "kofi@agri.fi"
  role := "trader"
  tokenVersion := 0
  mfaSecret := none
  isMfaEnabled := false
  mfaBackupCodes := none
  mfaFailedAttempts := 0
  mfaLockedUntil := none
}

/-- The token of a sign-in, and the one that it is refreshed to. -/
def firstToken : JwtPayload := kofi.refreshToken week 0 (some "jti-1") (some "fam-1") 604800

def secondToken : JwtPayload := kofi.refreshToken week 0 (some "jti-2") (some "fam-1") 604800

/-- A refresh, the same token once more, and the one that it was refreshed to. -/
def oneAfterTheOther : List TokenEvent :=
  [.signIn ⟨"jti-1", "fam-1"⟩, .refresh firstToken] ++
    List.replicate 5 (.run 0 ⟨"jti-2", "fam-2"⟩) ++ [.refresh firstToken] ++
    List.replicate 5 (.run 1 ⟨"jti-3", "fam-3"⟩) ++
    [.refresh secondToken, .run 2 ⟨"jti-3", "fam-3"⟩]

/-- Both refreshes look for the id before one of them marks it. -/
def atOnce : List TokenEvent :=
  [.signIn ⟨"jti-1", "fam-1"⟩, .refresh firstToken, .refresh firstToken] ++
    List.replicate 3 (.run 0 ⟨"jti-2", "fam-2"⟩) ++ List.replicate 3 (.run 1 ⟨"jti-2", "fam-2"⟩) ++
    List.replicate 2 (.run 0 ⟨"jti-2", "fam-2"⟩) ++ List.replicate 2 (.run 1 ⟨"jti-3", "fam-3"⟩)

def walletToken : JwtPayload := kofi.refreshToken week 0 none none (7 * 24 * 3600)

def withWallet : List TokenEvent :=
  [.walletSignIn, .refresh walletToken] ++ List.replicate 2 (.run 0 ⟨"jti-1", "fam-1"⟩) ++
    [.refresh walletToken] ++ List.replicate 2 (.run 1 ⟨"jti-2", "fam-2"⟩)

theorem single_use_oneAfterTheOther :
    SingleUse (replay (tokenNext noFactors week) (tokenStart kofi 0) oneAfterTheOther).2.state.history :=
  single_use noFactors week kofi 0 _ _
    (run_replay (tokenNext noFactors week) (tokenStart kofi 0) oneAfterTheOther) (by decide +kernel)

/-- One token is refreshed to two pairs. -/
theorem refreshed_twice : ¬ ∀ (verifier : Verifier) (lifetimes : Lifetimes) (user : User) (now : Int)
    (xs : List (Step TokenSystem TokenEvent)) (sys : TokenSystem),
      TokenRun verifier lifetimes user now xs sys → SingleUse sys.state.history := by
  intro h
  have hsingle := h noFactors week kofi 0 _ _
    (run_replay (tokenNext noFactors week) (tokenStart kofi 0) atOnce)
  have hhistory : (replay (tokenNext noFactors week) (tokenStart kofi 0) atOnce).2.state.history =
      [.accepted firstToken, .accepted firstToken, .presented firstToken,
        .presented firstToken] := by decide +kernel
  rw [hhistory] at hsingle
  exact hsingle.1.1 (List.mem_cons_self ..)

/-- So is the token of a wallet, one refresh after the other. -/
theorem wallet_refreshed_twice : ¬ SingleUse
    (replay (tokenNext noFactors week) (tokenStart kofi 0) withWallet).2.state.history := by
  intro hsingle
  have hhistory : (replay (tokenNext noFactors week) (tokenStart kofi 0) withWallet).2.state.history =
      [.accepted walletToken, .presented walletToken, .accepted walletToken,
        .presented walletToken] := by decide +kernel
  rw [hhistory] at hsingle
  exact hsingle.1.1 (List.mem_cons_of_mem _ (List.mem_cons_self ..))

end AgriFi.Auth
