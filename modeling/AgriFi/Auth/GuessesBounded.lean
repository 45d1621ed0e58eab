import AgriFi.Auth.VerifyMfa
import AgriFi.Threads

/-
  How far guessing the second factor gets. Calls that have read the user before another one has saved
  him do not see its failed attempt, nor the code it has used up (`guessed_in_parallel`). When no call
  reads the user while another one is between its read and its save, every backup code is accepted at
  most once, at most `MFA_MAX_ATTEMPTS` wrong tokens come between two successes or lockouts, and no
  token is evaluated during a lockout (`guesses_bounded`).
-/

namespace AgriFi.Auth

open AgriFi.Runs AgriFi.Threads

variable {verifier : Verifier} {s s' : State} {sys sys' : System} {pc pc' : Pc} {user : User}
  {codes : List String} {code : Option String} {token hash : String} {log : List Entry}
  {entry : Entry} {w : Nat} {now : Int}

/-! ## What is claimed -/

/-- The wrong tokens since the last success or lockout. -/
def wrongTokens (log : List Entry) : Nat :=
  log.foldl (fun n entry => match entry with
    | .wrong => n + 1
    | .success _ | .lockout => 0
    | .evaluated _ => n) 0

def Entry.usedCode : Entry → Option String
  | .success code => code
  | _ => none

/-- The backup codes that were accepted. -/
def usedCodes (log : List Entry) : List String := log.filterMap Entry.usedCode

structure GuessesBounded (codes : List String) (s : State) : Prop where
  once : ∀ code, (usedCodes s.log).count code ≤ codes.count code
  attempts : wrongTokens s.log ≤ mfaMaxAttempts
  unlocked : Entry.evaluated true ∉ s.log

/-! ## Overlapping calls -/

/-- The call has read the user and is still to save him. -/
def Pc.Inside : Pc → Prop
  | .compareCodes _ _ | .saveFailure _ | .saveSuccess _ _ => True
  | _ => False

instance : (pc : Pc) → Decidable pc.Inside
  | .compareCodes _ _ | .saveFailure _ | .saveSuccess _ _ => isTrue trivial
  | .find _ | .valid | .mfaNotEnabled | .mfaLockedOut | .invalidToken => isFalse id

/-- The user is read while no other call is between its read and its save. -/
def Alone (sys : System) : Event → Prop
  | .run w => ∀ token, sys.threads[w]? = some (.find token) → ∀ pc ∈ sys.threads, ¬ pc.Inside
  | _ => True

instance (sys : System) : (e : Event) → Decidable (Alone sys e)
  | .run w =>
    match h : sys.threads[w]? with
    | some (.find token) =>
      decidable_of_iff (∀ pc ∈ sys.threads, ¬ pc.Inside)
        ⟨fun hfree _ _ => hfree, fun halone => halone token h⟩
    | none | some (.compareCodes _ _) | some (.saveFailure _) | some (.saveSuccess _ _)
    | some .valid | some .mfaNotEnabled | some .mfaLockedOut | some .invalidToken =>
      isTrue fun _ hfind => absurd (h.symm.trans hfind) nofun
  | .verifyMfa _ | .tick _ => isTrue trivial

/-! ## The history -/

theorem wrongTokens_append : wrongTokens (log ++ [entry]) =
    match entry with
    | .wrong => wrongTokens log + 1
    | .success _ | .lockout => 0
    | .evaluated _ => wrongTokens log := by
  unfold wrongTokens
  rw [List.foldl_append]
  rfl

theorem usedCodes_append : usedCodes (log ++ [entry]) = usedCodes log ++ entry.usedCode.toList := by
  unfold usedCodes
  rw [List.filterMap_append]
  cases h : entry.usedCode <;> simp [h]

theorem not_mem_append (h : Entry.evaluated true ∉ log)
    (hentry : entry ≠ .evaluated true) : Entry.evaluated true ∉ log ++ [entry] := by
  rw [List.mem_append, List.mem_singleton]
  rintro (hold | hnew)
  · exact h hold
  · exact hentry hnew.symm

/-! ## The invariant -/

/-- No counted attempt is missing in the row, and the row is not at the limit. -/
def Quiet (s : State) : Prop :=
  wrongTokens s.log ≤ s.row.mfaFailedAttempts ∧ wrongTokens s.log < mfaMaxAttempts

/-- What the call that is between its read and its save has read or goes on to save. -/
def Pc.Sound (s : State) : Pc → Prop
  | .compareCodes user _ => user = s.row ∧ ¬ s.row.LockedOut s.now ∧ Quiet s
  | .saveFailure user => (∃ now, user = s.row.failAttempt now) ∧
    wrongTokens s.log ≤ s.row.mfaFailedAttempts + 1
  | .saveSuccess user code => ∀ hash,
    code.toList.count hash + user.backupCodes.count hash ≤ s.row.backupCodes.count hash
  | .find _ | .valid | .mfaNotEnabled | .mfaLockedOut | .invalidToken => True

structure Inv (codes : List String) (sys : System) : Prop where
  alone : AtMostOneInside Pc.Inside sys.threads
  sound : ∀ pc ∈ sys.threads, pc.Sound sys.state
  quiet : (∀ pc ∈ sys.threads, ¬ pc.Inside) → Quiet sys.state
  codes : ∀ hash, (usedCodes sys.state.log).count hash + sys.state.row.backupCodes.count hash ≤
    codes.count hash
  attempts : wrongTokens sys.state.log ≤ mfaMaxAttempts
  unlocked : Entry.evaluated true ∉ sys.state.log

theorem sound_of_not_inside (h : ¬ pc.Inside) : pc.Sound s := by
  cases pc with
  | compareCodes | saveFailure | saveSuccess => exact absurd trivial h
  | find | valid | mfaNotEnabled | mfaLockedOut | invalidToken => trivial

theorem backupCodes_failAttempt : (user.failAttempt now).backupCodes = user.backupCodes := by
  unfold User.failAttempt
  split <;> rfl

theorem backupCodes_spliceCode {i : Nat} :
    (user.spliceCode i).backupCodes = user.backupCodes.eraseIdx i := by
  unfold User.spliceCode User.backupCodes
  cases user.mfaBackupCodes <;> rfl

/-- The code that is spliced out is no longer there. -/
theorem count_spliceCode (i : Nat) (hash : String) :
    (user.backupCodes[i]?).toList.count hash + (user.spliceCode i).backupCodes.count hash ≤
      user.backupCodes.count hash := by
  rw [backupCodes_spliceCode]
  generalize user.backupCodes = codes
  induction codes generalizing i with
  | nil => simp
  | cons code codes ih =>
    cases i with
    | zero => simp [List.count_cons, Nat.add_comm]
    | succ i =>
      have hrest := ih i
      rw [List.getElem?_cons_succ, List.eraseIdx_cons_succ, List.count_cons, List.count_cons]
      omega

/-- A wrong token that is counted and the row that it is saved in. -/
theorem quiet_failAttempt (now : Int) (h : wrongTokens s.log ≤ s.row.mfaFailedAttempts + 1) :
    Quiet { s with
      row := s.row.failAttempt now
      log := if (s.row.failAttempt now).mfaFailedAttempts = 0 then s.log ++ [.lockout]
        else s.log } := by
  unfold Quiet User.failAttempt
  dsimp only
  by_cases hlimit : s.row.mfaFailedAttempts + 1 ≥ mfaMaxAttempts
  · simp only [if_pos hlimit, if_true, wrongTokens_append]
    exact ⟨Nat.le_refl 0, by decide⟩
  · simp only [if_neg hlimit, Nat.add_eq_zero_iff, Nat.one_ne_zero, and_false, if_false]
    exact ⟨h, by omega⟩

/-- What the calls that are not between their read and their save do not see. -/
theorem Inv.step (h : Inv codes sys) (hw : sys.threads[w]? = some pc)
    (halone : ∀ ⦃v pc⦄, sys.threads[v]? = some pc → v ≠ w → ¬ pc.Inside)
    (hin : pc'.Inside → pc'.Sound s')
    (hquiet : ¬ pc'.Inside → Quiet s')
    (hcodes : ∀ hash, (usedCodes s'.log).count hash + s'.row.backupCodes.count hash ≤
      codes.count hash)
    (hattempts : wrongTokens s'.log ≤ mfaMaxAttempts) (hunlocked : Entry.evaluated true ∉ s'.log) :
    Inv codes ⟨s', sys.threads.set w pc'⟩ := by
  refine ⟨h.alone.set hw fun _ => .inr fun v pc hv hne => halone hv hne, ?_, fun hfree => ?_, hcodes,
    hattempts, hunlocked⟩
  · refine forall_mem_set (fun v pc hv hne => sound_of_not_inside (halone hv hne)) ?_
    by_cases hinside : pc'.Inside
    · exact hin hinside
    · exact sound_of_not_inside hinside
  · refine hquiet (hfree pc' ?_)
    exact List.mem_of_getElem? (List.getElem?_set_self (List.getElem?_eq_some_iff.mp hw).1)

/-! ## Evaluations -/

theorem evaluate_of_not_locked (h : ¬ s.row.LockedOut s.now) :
    s.evaluate = { s with log := s.log ++ [.evaluated false] } := by
  unfold State.evaluate
  rw [decide_eq_false h]

theorem quiet_evaluate (hlocked : ¬ s.row.LockedOut s.now) (h : Quiet s) : Quiet s.evaluate := by
  rw [evaluate_of_not_locked hlocked]
  unfold Quiet
  rw [wrongTokens_append]
  exact h

/-- What an evaluation in no lockout leaves of the invariant, and a wrong token after it. -/
theorem Inv.evaluate (h : Inv codes sys) (hlocked : ¬ sys.state.row.LockedOut sys.state.now) :
    (∀ hash, (usedCodes sys.state.evaluate.log).count hash + sys.state.row.backupCodes.count hash ≤
      codes.count hash) ∧ wrongTokens sys.state.evaluate.log ≤ mfaMaxAttempts ∧
      Entry.evaluated true ∉ sys.state.evaluate.log := by
  rw [evaluate_of_not_locked hlocked]
  refine ⟨fun hash => ?_, ?_, not_mem_append h.unlocked nofun⟩
  · rw [usedCodes_append]
    simpa [Entry.usedCode] using h.codes hash
  · rw [wrongTokens_append]
    exact h.attempts

theorem Inv.wrong (h : Inv codes sys) (hlocked : ¬ sys.state.row.LockedOut sys.state.now)
    (hquiet : Quiet sys.state) :
    (∀ hash, (usedCodes sys.state.evaluate.wrong.log).count hash +
      sys.state.row.backupCodes.count hash ≤ codes.count hash) ∧
      wrongTokens sys.state.evaluate.wrong.log ≤ mfaMaxAttempts ∧
      Entry.evaluated true ∉ sys.state.evaluate.wrong.log ∧
      wrongTokens sys.state.evaluate.wrong.log ≤ sys.state.row.mfaFailedAttempts + 1 := by
  obtain ⟨hcodes, _, hunlocked⟩ := h.evaluate hlocked
  obtain ⟨hcounted, hlimit⟩ := quiet_evaluate hlocked hquiet
  have hwrong : wrongTokens sys.state.evaluate.wrong.log =
      wrongTokens sys.state.evaluate.log + 1 := wrongTokens_append
  refine ⟨fun hash => ?_, by omega, not_mem_append hunlocked nofun, ?_⟩
  · rw [State.wrong, usedCodes_append]
    simpa [Entry.usedCode] using hcodes hash
  · rw [hwrong]
    exact Nat.succ_le_succ hcounted

theorem Inv.find (h : Inv codes sys) (hw : sys.threads[w]? = some (.find token))
    (hfree : ∀ pc ∈ sys.threads, ¬ pc.Inside) :
    Inv codes ⟨(verifier.verifyMfa sys.state sys.state.row token).1,
      sys.threads.set w (verifier.verifyMfa sys.state sys.state.row token).2⟩ := by
  have hothers : ∀ ⦃v pc⦄, sys.threads[v]? = some pc → v ≠ w → ¬ pc.Inside :=
    fun _ pc hv _ => hfree pc (List.mem_of_getElem? hv)
  have hquiet := h.quiet hfree
  have hrefused : ∀ {pc : Pc}, ¬ pc.Inside → Inv codes ⟨sys.state, sys.threads.set w pc⟩ :=
    fun hpc => h.step hw hothers (fun hinside => absurd hinside hpc) (fun _ => hquiet) h.codes
      h.attempts h.unlocked
  unfold Verifier.verifyMfa
  split
  · split
    · exact hrefused id
    · split
      · exact hrefused id
      · next hlocked =>
        unfold Verifier.tryTotp
        obtain ⟨hcodes, hattempts, hunlocked⟩ := h.evaluate hlocked
        split
        · refine h.step hw hothers (fun _ hash => ?_) (fun hout => absurd trivial hout) hcodes
            hattempts hunlocked
          exact Nat.le_of_eq (Nat.zero_add _)
        · split
          · obtain ⟨hcodes, hattempts, hunlocked, hcounted⟩ := h.wrong hlocked hquiet
            exact h.step hw hothers (fun _ => ⟨⟨_, rfl⟩, hcounted⟩) (fun hout => absurd trivial hout)
              hcodes hattempts hunlocked
          · exact h.step hw hothers (fun _ => ⟨rfl, hlocked, quiet_evaluate hlocked hquiet⟩)
              (fun hout => absurd trivial hout) hcodes hattempts hunlocked
  · exact hrefused id

theorem Inv.run (h : Inv codes sys) (hw : sys.threads[w]? = some pc)
    (halone : ∀ token, pc = .find token → ∀ pc ∈ sys.threads, ¬ pc.Inside)
    (hstep : verifier.step sys.state pc = some (s', pc')) :
    Inv codes ⟨s', sys.threads.set w pc'⟩ := by
  have hmine := h.sound pc (List.mem_of_getElem? hw)
  cases pc with
  | find token =>
    obtain ⟨rfl, rfl⟩ := Prod.mk.inj (Option.some.inj hstep)
    exact h.find hw (halone token rfl)
  | compareCodes user token =>
    obtain ⟨rfl, hlocked, hquiet⟩ := hmine
    have hothers : ∀ ⦃v pc⦄, sys.threads[v]? = some pc → v ≠ w → ¬ pc.Inside :=
      fun _ _ hv hne => h.alone.others hw trivial hv hne
    simp only [Verifier.step] at hstep
    split at hstep <;> obtain ⟨rfl, rfl⟩ := Prod.mk.inj (Option.some.inj hstep)
    · next i _ =>
      obtain ⟨hcodes, hattempts, hunlocked⟩ := h.evaluate hlocked
      exact h.step hw hothers (fun _ hash => count_spliceCode i hash)
        (fun hout => absurd trivial hout) hcodes hattempts hunlocked
    · obtain ⟨hcodes, hattempts, hunlocked, hcounted⟩ := h.wrong hlocked hquiet
      exact h.step hw hothers (fun _ => ⟨⟨_, rfl⟩, hcounted⟩) (fun hout => absurd trivial hout)
        hcodes hattempts hunlocked
  | saveFailure user =>
    obtain ⟨⟨now, rfl⟩, hcounted⟩ := hmine
    have hothers : ∀ ⦃v pc⦄, sys.threads[v]? = some pc → v ≠ w → ¬ pc.Inside :=
      fun _ _ hv hne => h.alone.others hw trivial hv hne
    obtain ⟨rfl, rfl⟩ := Prod.mk.inj (Option.some.inj hstep)
    have hquiet := quiet_failAttempt now hcounted
    refine h.step hw hothers (fun hinside => absurd hinside id) (fun _ => hquiet) (fun hash => ?_)
      (Nat.le_of_lt hquiet.2) ?_
    · have hold := h.codes hash
      dsimp only
      rw [backupCodes_failAttempt]
      split
      · rw [usedCodes_append]
        simpa [Entry.usedCode] using hold
      · exact hold
    · dsimp only
      split
      · exact not_mem_append h.unlocked nofun
      · exact h.unlocked
  | saveSuccess user code =>
    have hothers : ∀ ⦃v pc⦄, sys.threads[v]? = some pc → v ≠ w → ¬ pc.Inside :=
      fun _ _ hv hne => h.alone.others hw trivial hv hne
    obtain ⟨rfl, rfl⟩ := Prod.mk.inj (Option.some.inj hstep)
    refine h.step hw hothers (fun hinside => absurd hinside id) (fun _ => ?_) (fun hash => ?_) ?_
      (not_mem_append h.unlocked nofun)
    · unfold Quiet
      rw [wrongTokens_append]
      exact ⟨Nat.zero_le _, (by decide : 0 < mfaMaxAttempts)⟩
    · have hold := h.codes hash
      have hleft := hmine hash
      rw [usedCodes_append, List.count_append]
      dsimp only [Entry.usedCode]
      omega
    · rw [wrongTokens_append]
      exact Nat.zero_le _
  | valid | mfaNotEnabled | mfaLockedOut | invalidToken => cases hstep

/-- Time only ends lockouts. -/
theorem not_lockedOut_tick {ms : Nat} (h : ¬ user.LockedOut now) : ¬ user.LockedOut (now + ms) := by
  rintro ⟨lockedUntil, hset, hlt⟩
  exact h ⟨lockedUntil, hset, by omega⟩

theorem sound_tick {ms : Nat} (h : pc.Sound s) :
    pc.Sound { s with now := s.now + ms } := by
  cases pc with
  | compareCodes user token =>
    obtain ⟨hread, hlocked, hquiet⟩ := h
    exact ⟨hread, not_lockedOut_tick hlocked, hquiet⟩
  | saveFailure | saveSuccess => exact h
  | find | valid | mfaNotEnabled | mfaLockedOut | invalidToken => trivial

theorem Inv.next {e : Event} (h : Inv codes sys) (halone : Alone sys e)
    (hnext : verifier.next sys e = some sys') : Inv codes sys' := by
  cases e with
  | verifyMfa token =>
    cases hnext
    refine ⟨h.alone.append id, forall_mem_append h.sound trivial, fun hfree => h.quiet ?_, h.codes,
      h.attempts, h.unlocked⟩
    exact fun pc hpc => hfree pc (List.mem_append_left _ hpc)
  | tick ms =>
    cases hnext
    exact ⟨h.alone, fun pc hpc => sound_tick (h.sound pc hpc), h.quiet, h.codes, h.attempts,
      h.unlocked⟩
  | run w =>
    simp only [Verifier.next, Option.bind_eq_bind, Option.bind_eq_some_iff] at hnext
    obtain ⟨pc, hw, ⟨s', pc'⟩, hstep, hsys⟩ := hnext
    obtain rfl := Option.some.inj hsys
    refine h.run hw (fun token hfind => ?_) hstep
    exact halone token (hfind ▸ hw)

theorem inv_start (user : User) (now : Int) : Inv user.backupCodes (start user now) where
  alone := fun _ _ _ _ hv => absurd hv nofun
  sound := nofun
  quiet := fun _ => ⟨Nat.zero_le _, (by decide : 0 < mfaMaxAttempts)⟩
  codes := fun _ => Nat.le_of_eq (Nat.zero_add _)
  attempts := Nat.zero_le _
  unlocked := nofun

/-- When no call reads the user between another one's read and save, guessing stays bounded. -/
theorem guesses_bounded (verifier : Verifier) (user : User) (now : Int)
    (xs : List (Step System Event)) (sys : System) (hrun : MfaRun verifier user now xs sys)
    (halone : ∀ x ∈ xs, Alone x.pre x.act) : GuessesBounded user.backupCodes sys.state := by
  have h := hrun.invariant (Inv user.backupCodes) (inv_start user now)
    fun x hx hnext hpre => hpre.next (halone x hx) hnext
  refine ⟨fun code => ?_, h.attempts, h.unlocked⟩
  have hcodes := h.codes code
  omega

/-- Backup codes are their own hashes, and no token is a time-based code. -/
def codesOnly : Verifier := ⟨id, fun _ _ _ => false, fun token hash => token == hash⟩

def amara : User := {
  id := "user-1"
  email := "amara@agri.fi"
  role := "investor"
  tokenVersion := 1
  mfaSecret := some "JBSWY3DPEHPK3PXP"
  isMfaEnabled := true
  mfaBackupCodes := some ["4F7A-91C2", "B03D-5E68"]
  mfaFailedAttempts := 0
  mfaLockedUntil := none
}

/-- One call after the other uses a code, and tries it again. -/
def oneByOne : List Event :=
  [.verifyMfa "4F7A-91C2", .run 0, .run 0, .run 0, .verifyMfa "4F7A-91C2", .run 1, .run 1, .run 1]

/-- Both calls read the user before one of them has saved him. -/
def inParallel : List Event :=
  [.verifyMfa "4F7A-91C2", .verifyMfa "4F7A-91C2", .run 0, .run 1, .run 0, .run 1, .run 0, .run 1]

theorem guesses_bounded_oneByOne :
    GuessesBounded amara.backupCodes (replay codesOnly.next (start amara 0) oneByOne).2.state :=
  guesses_bounded codesOnly amara 0 _ _ (run_replay codesOnly.next (start amara 0) oneByOne)
    (by decide +kernel)

/-- The code is accepted twice. -/
theorem guessed_in_parallel : ¬ ∀ (verifier : Verifier) (user : User) (now : Int)
    (xs : List (Step System Event)) (sys : System), MfaRun verifier user now xs sys →
      GuessesBounded user.backupCodes sys.state := by
  intro h
  have honce := (h codesOnly amara 0 _ _
    (run_replay codesOnly.next (start amara 0) inParallel)).once "4F7A-91C2"
  exact absurd honce (by decide +kernel)

end AgriFi.Auth
