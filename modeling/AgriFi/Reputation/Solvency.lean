import AgriFi.Reputation.Contract

/-
  Solvency of the stakes. A stake is what its user deposited since the last `unstake`, less what
  was slashed since (`Booked`), and the tokens slashed stay in the contract. `slash` bounds its
  amount from above only, so a negative one raises the stake with no deposit
  (`negative_slash_insolvent`). `stake_solvency_run`: the stakes are covered along a run exactly
  when what was slashed from a user since his last `unstake` never drops below zero.
-/

namespace AgriFi.Reputation

open AgriFi.Soroban AgriFi.Runs

variable {Addr : Type} [LinearOrder Addr]

/-! ## Moves -/

def setEntries (w : World Addr) (user : Addr) (stake score : Int) : World Addr :=
  { w with
    storage.stake := w.storage.stake.set user stake
    storage.score := w.storage.score.set user score }

def removeEntries (w : World Addr) (user : Addr) : World Addr :=
  { w with
    storage.stake := w.storage.stake.remove user
    storage.score := w.storage.score.remove user }

def setRewarded (w : World Addr) (user : Addr) (score earned : Int) : World Addr :=
  { w with
    storage.score := w.storage.score.set user score
    storage.rewards := w.storage.rewards.set user earned }

inductive Moves (w : World Addr) : Call Addr → World Addr → Prop
  | view : Moves w .view w
  | stake {user : Addr} {amount : Int} :
      user ≠ w.contract → minStake ≤ amount →
      Moves w (.stake user amount)
        (setEntries (w.received user amount) user (w.storage.stake.getD user 0 + amount)
          (w.storage.score.getD user firstScore))
  | unstake {user : Addr} {staked : Int} :
      user ≠ w.contract → w.storage.stake.get? user = some staked → staked ≠ 0 →
      Moves w (.unstake user) ((removeEntries w user).sent user staked)
  | reward {caller user : Addr} {tokenAmount score : Int} :
      caller = w.storage.admin → w.storage.score.get? user = some score →
      Moves w (.reward caller user tokenAmount)
        (setRewarded w user (min (score + rewardScoreDelta) maxScore)
          (w.storage.rewards.getD user 0 + tokenAmount))
  | slash {caller user : Addr} {slashAmount staked score : Int} :
      caller = w.storage.admin → w.storage.stake.get? user = some staked → slashAmount ≤ staked →
      w.storage.score.get? user = some score →
      Moves w (.slash caller user slashAmount)
        (setEntries w user (staked - slashAmount) (max (score - slashScoreDelta) 0))

variable {led : Ledger Addr} {w w' w₀ : World Addr} {call : Call Addr} {xs : List (CallStep Addr)}

theorem moves_stake {user : Addr} {amount : Int} (h : stake led w user amount = .ok w') :
    Moves w (.stake user amount) w' := by
  unfold stake at h
  simp only [Vault.requireAuth_bind_eq_ok, failIf_bind_eq_ok, not_lt] at h
  obtain ⟨_, hc, hmin, h⟩ := h
  obtain ⟨u, hu, h⟩ := bind_eq_ok.mp h
  obtain rfl := Vault.receive_eq_ok hu
  simp only [okOr_bind_eq_ok, checkedAdd_eq_some] at h
  obtain ⟨_, ⟨_, rfl⟩, h⟩ := h
  have hend : w' = setEntries (w.received user amount) user (w.storage.stake.getD user 0 + amount)
      (w.storage.score.getD user firstScore) := by
    unfold setEntries
    split at h
    · next hn =>
      have hs : w.storage.score.get? user = none := Option.isNone_iff_eq_none.mp hn
      have hd : w.storage.score.getD user firstScore = firstScore := by rw [HostMap.getD, hs]; rfl
      rw [hd, ← Except.ok.inj h]
      rfl
    · next hn =>
      have hsome : w.storage.score.get? user ≠ none := mt Option.isNone_iff_eq_none.mpr hn
      obtain ⟨score, hs⟩ := Option.ne_none_iff_exists'.mp hsome
      have hd : w.storage.score.getD user firstScore = score := by rw [HostMap.getD, hs]; rfl
      rw [hd, Vault.received_storage, HostMap.set_of_get? hs, ← Except.ok.inj h]
      rfl
  rw [hend]
  exact .stake hc hmin

theorem moves_unstake {user : Addr} {staked : Int} (h : unstake led w user = .ok (w', staked)) :
    Moves w (.unstake user) w' := by
  unfold unstake at h
  simp only [Vault.requireAuth_bind_eq_ok, failIf_bind_eq_ok, okOr_bind_eq_ok] at h
  obtain ⟨_, hc, _, hs, hne, h⟩ := h
  obtain ⟨u, hu, h⟩ := bind_eq_ok.mp h
  obtain ⟨_, _, rfl⟩ := Vault.send_eq_ok.mp hu
  obtain ⟨rfl, rfl⟩ := Prod.mk.inj (Except.ok.inj h)
  exact .unstake hc hs hne

theorem requireAdmin_bind_eq_ok {caller : Addr} {f : Unit → Result Error (World Addr)} :
    (requireAdmin led w caller >>= f) = .ok w' ↔
      (led.authorized caller = true ∧ caller ≠ w.contract) ∧
        caller = w.storage.admin ∧ f () = .ok w' := by
  unfold requireAdmin
  rw [bind_assoc, Vault.requireAuth_bind_eq_ok, failIf_bind_eq_ok, not_not, and_assoc]

theorem moves_of_dispatch (h : dispatch led w call = .ok w') : Moves w call w' := by
  cases call with
  | initializeContract => simp [dispatch, initializeContract, failIf] at h
  | stake => exact moves_stake h
  | unstake =>
    obtain ⟨⟨u, staked⟩, hu, h⟩ := bind_eq_ok.mp h
    obtain rfl := Except.ok.inj h
    exact moves_unstake hu
  | reward =>
    simp only [dispatch, reward, getScoreInternal, requireAdmin_bind_eq_ok, okOr_bind_eq_ok,
      checkedAdd_eq_some, narrow64_eq_some, pure_eq_ok, Except.ok.injEq] at h
    obtain ⟨_, ha, _, hs, _, ⟨_, rfl⟩, _, ⟨_, rfl⟩, rfl⟩ := h
    exact .reward ha hs
  | slash =>
    simp only [dispatch, slash, getScoreInternal, requireAdmin_bind_eq_ok, failIf_bind_eq_ok,
      okOr_bind_eq_ok, checkedSub_eq_some, narrow64_eq_some, pure_eq_ok, Except.ok.injEq,
      gt_iff_lt, not_lt] at h
    obtain ⟨_, ha, _, hs, hle, _, ⟨_, rfl⟩, _, hsc, _, ⟨_, rfl⟩, rfl⟩ := h
    exact .slash ha hs hle hsc
  | view =>
    obtain rfl := Except.ok.inj h
    exact .view

theorem moves_of_step {inv : Invocation Addr} (h : callStep w inv = some w') :
    Moves (w.enter inv.ledger) inv.call w' :=
  moves_of_dispatch (Vault.step_eq_some.mp h).2

/-! ## History -/

/-- What each user deposited, and what was slashed from him, since his last `unstake`. -/
structure Tally (Addr : Type) [LinearOrder Addr] where
  deposited : HostMap Addr Int
  slashed : HostMap Addr Int

def Tally.none : Tally Addr := ⟨.empty, .empty⟩

def Tally.after (t : Tally Addr) : Call Addr → Tally Addr
  | .stake user amount =>
    { t with deposited := t.deposited.set user (t.deposited.getD user 0 + amount) }
  | .unstake user => ⟨t.deposited.remove user, t.slashed.remove user⟩
  | .slash _ user slashAmount =>
    { t with slashed := t.slashed.set user (t.slashed.getD user 0 + slashAmount) }
  | _ => t

/-- The tally after a step. -/
def tallyStep (t : Tally Addr) (x : CallStep Addr) : Tally Addr := t.after x.act.call

/-! ## What every run keeps -/

/-- The entries are consistent: no stake is negative, a user with a stake is one with a score, and
    scores are in range. -/
structure Consistent (r : Registry Addr) : Prop where
  stake_nonneg : ∀ user staked, r.stake.get? user = some staked → 0 ≤ staked
  scored : ∀ user, (r.score.get? user).isSome = (r.stake.get? user).isSome
  score_range : ∀ user score, r.score.get? user = some score → 0 ≤ score ∧ score ≤ maxScore

/-- A stake is what was deposited less what was slashed. -/
structure Booked (t : Tally Addr) (w : World Addr) : Prop where
  consistent : Consistent w.storage
  stake_eq : ∀ user,
    w.storage.stake.getD user 0 = t.deposited.getD user 0 - t.slashed.getD user 0

theorem Consistent.getD_nonneg {r : Registry Addr} (h : Consistent r) : r.stake.Nonneg := by
  intro user
  unfold HostMap.getD
  cases hs : r.stake.get? user with
  | none => exact le_rfl
  | some staked => exact h.stake_nonneg user staked hs

theorem Consistent.setEntries (h : Consistent w.storage) (user : Addr) {stake score : Int}
    (hstake : 0 ≤ stake) (hscore : 0 ≤ score ∧ score ≤ maxScore) :
    Consistent (setEntries w user stake score).storage where
  stake_nonneg u s hs := by
    rw [Reputation.setEntries, HostMap.get?_set] at hs
    split at hs
    · exact Option.some.inj hs ▸ hstake
    · exact h.stake_nonneg u s hs
  scored u := by
    rw [Reputation.setEntries, HostMap.get?_set, HostMap.get?_set]
    split
    · rfl
    · exact h.scored u
  score_range u s hs := by
    rw [Reputation.setEntries, HostMap.get?_set] at hs
    split at hs
    · exact Option.some.inj hs ▸ hscore
    · exact h.score_range u s hs

theorem Consistent.removeEntries (h : Consistent w.storage) (user : Addr) :
    Consistent (removeEntries w user).storage where
  stake_nonneg u s hs := by
    rw [Reputation.removeEntries, HostMap.get?_remove] at hs
    split at hs
    · simp at hs
    · exact h.stake_nonneg u s hs
  scored u := by
    rw [Reputation.removeEntries, HostMap.get?_remove, HostMap.get?_remove]
    split
    · rfl
    · exact h.scored u
  score_range u s hs := by
    rw [Reputation.removeEntries, HostMap.get?_remove] at hs
    split at hs
    · simp at hs
    · exact h.score_range u s hs

theorem Consistent.setRewarded (h : Consistent w.storage) {user : Addr} {score earned : Int}
    (hs : (w.storage.score.get? user).isSome = true) (hscore : 0 ≤ score ∧ score ≤ maxScore) :
    Consistent (setRewarded w user score earned).storage where
  stake_nonneg := h.stake_nonneg
  scored u := by
    rw [Reputation.setRewarded, HostMap.get?_set]
    split
    · next hu => exact hu ▸ hs.symm.trans (h.scored user)
    · exact h.scored u
  score_range u s hs' := by
    rw [Reputation.setRewarded, HostMap.get?_set] at hs'
    split at hs'
    · exact Option.some.inj hs' ▸ hscore
    · exact h.score_range u s hs'

theorem Consistent.score_getD (h : Consistent w.storage) (user : Addr) :
    0 ≤ w.storage.score.getD user firstScore ∧ w.storage.score.getD user firstScore ≤ maxScore := by
  unfold HostMap.getD
  cases hs : w.storage.score.get? user with
  | none => decide
  | some score => exact h.score_range user score hs

theorem Consistent.step (h : Consistent w.storage) (hm : Moves w call w') :
    Consistent w'.storage := by
  cases hm with
  | view => exact h
  | @stake user amount _ hmin =>
    have hnonneg := h.getD_nonneg user
    unfold minStake at hmin
    exact Consistent.setEntries (w := w.received user amount) h user (by omega) (h.score_getD user)
  | unstake => exact h.removeEntries _
  | @reward _ user _ score _ hs =>
    have hrange := h.score_range user score hs
    unfold maxScore at hrange
    refine h.setRewarded (by rw [hs]; rfl) ?_
    unfold rewardScoreDelta maxScore
    omega
  | @slash _ user slashAmount staked score _ _ hle hs =>
    have hrange := h.score_range user score hs
    unfold maxScore at hrange
    refine h.setEntries user (by omega) ?_
    unfold slashScoreDelta maxScore
    omega

theorem Booked.step {t : Tally Addr} (h : Booked t w) (hm : Moves w call w') :
    Booked (t.after call) w' := by
  refine ⟨h.consistent.step hm, ?_⟩
  intro u
  have heq := h.stake_eq u
  cases hm with
  | view => exact heq
  | reward => exact heq
  | @stake user amount =>
    simp only [setEntries, Tally.after, HostMap.getD_set, Vault.received_storage]
    split
    · next hu => subst hu; omega
    · exact heq
  | unstake =>
    simp only [removeEntries, Tally.after, HostMap.getD_remove, Vault.sent_storage]
    split
    · rfl
    · exact heq
  | @slash _ user slashAmount staked score _ hs =>
    have hstaked : w.storage.stake.getD user 0 = staked := by rw [HostMap.getD, hs]; rfl
    simp only [setEntries, Tally.after, HostMap.getD_set]
    split
    · next hu => subst hu; omega
    · exact heq

theorem Initialized.booked (h : Initialized w) : Booked .none w ∧ w.storage.stake = .empty := by
  obtain ⟨led, admin, stakeToken, r, now, he, hw⟩ := h
  unfold initializeContract at he
  simp only [failIf_bind_eq_ok, pure_eq_ok, Except.ok.injEq] at he
  obtain ⟨_, _, rfl⟩ := he
  rw [hw]
  exact ⟨⟨⟨by simp [Vault.fresh], fun _ => rfl, by simp [Vault.fresh]⟩, fun _ => rfl⟩, rfl⟩

/-! ## Solvency -/

/-- The stakes are consistent, covered by the balance and by what was deposited, and every user
    who signs gets his stake back. -/
structure Solvent (deposited : HostMap Addr Int) (w : World Addr) : Prop where
  consistent : Consistent w.storage
  total_le : w.storage.stake.total ≤ w.balance
  le_deposited : ∀ user, w.storage.stake.getD user 0 ≤ deposited.getD user 0
  payable : ∀ (led : Ledger Addr) (user : Addr), led.authorized user = true → user ≠ w.contract →
    w.storage.stake.getD user 0 ≠ 0 →
      ∃ w', unstake led w user = .ok (w', w.storage.stake.getD user 0)

/-- The balance holds the stakes and the tokens slashed from users who have not left. -/
structure Backed (t : Tally Addr) (w : World Addr) : Prop extends Booked t w where
  slashed_nonneg : t.slashed.Nonneg
  balance_ge : w.storage.stake.total + t.slashed.total ≤ w.balance

theorem unstake_eq_ok {user : Addr} {staked : Int} (hauth : led.authorized user = true)
    (hc : user ≠ w.contract) (hs : w.storage.stake.get? user = some staked) (hpos : 0 < staked)
    (hle : staked ≤ w.balance) :
    unstake led w user = .ok ((removeEntries w user).sent user staked, staked) := by
  unfold unstake
  have hsend : ((removeEntries w user).send user staked : Result Error _) =
      .ok ((removeEntries w user).sent user staked) :=
    Vault.send_eq_ok.mpr ⟨hpos.le, hle, rfl⟩
  simp only [Vault.requireAuth_bind_eq_ok, failIf_bind_eq_ok, okOr_bind_eq_ok]
  refine ⟨hauth, hc, staked, hs, hpos.ne', bind_eq_ok.mpr ⟨_, hsend, rfl⟩⟩

theorem Backed.solvent {t : Tally Addr} (h : Backed t w) : Solvent t.deposited w := by
  have hnonneg := h.consistent.getD_nonneg
  have htotal : w.storage.stake.total ≤ w.balance := by
    have hslashed := h.slashed_nonneg.total_nonneg
    have hge := h.balance_ge
    omega
  refine ⟨h.consistent, htotal, ?_, ?_⟩
  · intro user
    have heq := h.stake_eq user
    have hslashed := h.slashed_nonneg user
    omega
  · intro led user hauth hc hne
    have hle := hnonneg.getD_le_total user
    have hpos := hnonneg user
    cases hs : w.storage.stake.get? user with
    | none => simp [HostMap.getD, hs] at hne
    | some staked =>
      have hd : w.storage.stake.getD user 0 = staked := by rw [HostMap.getD, hs]; rfl
      rw [hd] at hne hle hpos ⊢
      exact ⟨_, unstake_eq_ok hauth hc hs (by omega) (hle.trans htotal)⟩

theorem Backed.step {t : Tally Addr} (h : Backed t w) (hm : Moves w call w')
    (hnonneg : (t.after call).slashed.Nonneg) : Backed (t.after call) w' := by
  refine ⟨h.toBooked.step hm, hnonneg, ?_⟩
  have hge := h.balance_ge
  cases hm with
  | view => exact hge
  | reward => exact hge
  | @stake user amount hc =>
    have hset := HostMap.total_set w.storage.stake user (w.storage.stake.getD user 0 + amount)
    have hbal : (setEntries (w.received user amount) user (w.storage.stake.getD user 0 + amount)
        (w.storage.score.getD user firstScore)).balance = w.balance + amount :=
      Vault.received_balance_of_ne hc amount
    rw [hbal]
    simp only [setEntries, Tally.after, Vault.received_storage]
    omega
  | @unstake user staked hc hs =>
    have hstaked : w.storage.stake.getD user 0 = staked := by rw [HostMap.getD, hs]; rfl
    have hstake := HostMap.total_remove w.storage.stake user
    have hslashed := HostMap.total_remove t.slashed user
    have hpos := h.slashed_nonneg user
    rw [Vault.sent_balance_of_ne (v := removeEntries w user) hc]
    simp only [removeEntries, Tally.after, Vault.sent_storage]
    omega
  | @slash _ user slashAmount staked score _ hs =>
    have hstaked : w.storage.stake.getD user 0 = staked := by rw [HostMap.getD, hs]; rfl
    have hstake := HostMap.total_set w.storage.stake user (staked - slashAmount)
    have hslashed := HostMap.total_set t.slashed user (t.slashed.getD user 0 + slashAmount)
    simp only [setEntries, Tally.after]
    omega

/-- User 10 is slashed by a negative amount; his stake is now worth the deposits of both users. -/
def negativeSlashCalls : List (Nat × Call Nat) :=
  [(1, .stake 10 minStake), (2, .stake 11 minStake), (3, .slash 0 10 (-minStake))]

theorem negative_slash_insolvent :
    ¬ ∀ (w₀ w : World Nat) (xs : List (CallStep Nat)), Initialized w₀ → CallRun w₀ xs w →
      w.storage.stake.total ≤ w.balance := by
  intro h
  have hle := h _ _ _ sampleWorld_initialized (sampleRun_run negativeSlashCalls)
  exact absurd hle (by decide +kernel)

/-- Along every run the entries are consistent. After every step the stakes are solvent, if and
    only if after every step what was slashed from each user since his last `unstake` is not
    negative in total. -/
theorem stake_solvency_run (hinit : Initialized w₀) (hr : CallRun w₀ xs w) :
    (∀ x ∈ xs, Consistent x.post.storage) ∧
    (Along tallyStep (fun t x => Solvent (tallyStep t x).deposited x.post) .none xs ↔
      Along tallyStep (fun t x => (tallyStep t x).slashed.Nonneg) .none xs) := by
  obtain ⟨hbooked, hempty⟩ := hinit.booked
  refine ⟨?_, ?_, ?_⟩
  · intro x hx
    exact (hr.steps_invariant (fun u => Consistent u.storage) hbooked.consistent
      (fun y _ hs hu => Consistent.step (w := y.pre.enter _) hu (moves_of_step hs)) x hx).2.2
  · intro h
    refine hr.along Booked hbooked h ?_
    intro t x hs hsolvent hb
    have hpost : Booked (tallyStep t x) x.post :=
      Booked.step (w := x.pre.enter x.act.ledger) ⟨hb.consistent, hb.stake_eq⟩ (moves_of_step hs)
    refine ⟨?_, hpost⟩
    intro user
    have hle := hsolvent.le_deposited user
    have heq := hpost.stake_eq user
    omega
  · intro h
    have hstart : Backed .none w₀ := by
      refine ⟨hbooked, fun _ => le_rfl, ?_⟩
      obtain ⟨_, _, _, r, _, _, hw⟩ := hinit
      rw [hempty, hw]
      exact le_rfl
    refine hr.along Backed hstart h ?_
    intro t x hs hnonneg hb
    have hpost : Backed (tallyStep t x) x.post :=
      Backed.step (w := x.pre.enter x.act.ledger)
        ⟨⟨hb.consistent, hb.stake_eq⟩, hb.slashed_nonneg, hb.balance_ge⟩ (moves_of_step hs) hnonneg
    exact ⟨hpost.solvent, hpost⟩

/-- A slash that is partly taken back, a rewarded user, and one who leaves. -/
def correctedSlashCalls : List (Nat × Call Nat) :=
  [(1, .stake 10 minStake), (2, .stake 11 minStake), (3, .slash 0 10 700), (4, .slash 0 10 (-300)),
    (5, .reward 0 11 50), (6, .unstake 10), (7, .slash 0 11 minStake)]

theorem stake_solvency_run_sample :
    Along tallyStep (fun t x => Solvent (tallyStep t x).deposited x.post) .none
      (sampleRun correctedSlashCalls).1 :=
  (stake_solvency_run sampleWorld_initialized (sampleRun_run correctedSlashCalls)).2.mpr
    (by decide +kernel)

end AgriFi.Reputation
