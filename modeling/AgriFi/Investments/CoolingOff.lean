import AgriFi.Investments.FundJob

/-
  `requestCoolingOffCancel` of one investment beside everything that moves its money:
  `confirmInvestment` and `fundEscrow` (`src/investments/investments.service.ts`) and the
  `investment.fund` jobs. The cancel is an atomic conditional update, but each of the others looks
  at the status once and writes it by id after its requests to Stellar: a cancel that falls in
  between succeeds, and the payment and the tokens still move (`cancelled_and_funded`).
  `cancel_stands`: in a run in which every cancel that takes effect finds nobody past that look, and
  nobody gone without having written the outcome of a payment, a cancelled investment has had no
  payment sent, gets no tokens, and stays CANCELLED.
-/

namespace AgriFi.Investments.CoolingOff

open AgriFi.Runs AgriFi.Threads
open AgriFi.DealDelivered (Outcome)
open AgriFi.Investments.FundJob (Shared stepJob)

/-! ## The calls -/

/-- What the calls read and nobody writes: of the investment, of its deal, and
    `INVESTMENT_COOLING_OFF_HOURS`. -/
structure Config where
  investorId : Nat
  createdAt : Nat
  coolingOffHours : Nat
  escrowPublicKey : Option String
  escrowSecretKey : Option String
  tokenSymbol : String

/-- `fundEscrow` of the Stellar service also transfers the tokens. -/
def Config.transfersTokens (cfg : Config) : Bool :=
  isSet cfg.escrowSecretKey ∧ cfg.tokenSymbol ≠ ""

/-- The command that a call sends next. `paid` says that the confirmation is the one inside
    `fundEscrow`, after its payment. -/
inductive Call where
  | readToConfirm (investorId : Nat) (paid : Bool)
  /-- The transaction of `confirmInvestment`: its first update, and all that follows up to the
      commit. -/
  | updateStatus (paid : Bool)
  | commit (paid : Bool)
  | readToFund (signedXdr : Option Nat)
  | enqueue (signedXdr : Nat)
  /-- `fundEscrow` of the Stellar service. -/
  | payment
  | decryptSecret
  | transfer
  | readToCancel (investorId : Nat)
  | cancel
  | finished
  /-- Gone after the payment, with the outcome not written to the row. -/
  | abandoned
  deriving DecidableEq, Repr

/-- The row, the ledger, the signed payments in the outbox's messages, and the time. -/
structure State where
  shared : Shared
  messages : List Nat
  now : Nat

def State.setStatus (s : State) (status : InvestmentStatus) : State :=
  { s with shared := { s.shared with status } }

def State.transferred (s : State) : State :=
  { s with shared := { s.shared with transfers := s.shared.transfers + 1 } }

/-- An error of `confirmInvestment`, or a refusal. -/
def ended (paid : Bool) : Call := if paid then .abandoned else .finished

/-- The update of `requestCoolingOffCancel`, `WHERE id = … AND status = 'pending'`. -/
def State.cancel (s : State) : State :=
  if s.shared.status = .pending then s.setStatus .cancelled else s

def Config.coolingOffExpired (cfg : Config) (now : Nat) : Bool :=
  cfg.createdAt + cfg.coolingOffHours * 3600000 < now

def stepCommit (s : State) (paid : Bool) : Outcome → State × Call
  | .ok | .lost => (s.setStatus .confirmed, .finished)
  | .fail => (s, ended paid)

def stepReadToFund (cfg : Config) (s : State) (signedXdr : Option Nat) (o : Outcome) : Call :=
  if o = .ok ∧ s.shared.status = .pending ∧ isSet cfg.escrowPublicKey then
    match signedXdr with
    | some signedXdr => .enqueue signedXdr
    | none => .payment
  else .finished

def stepEnqueue (s : State) (signedXdr : Nat) : Outcome → State
  | .ok | .lost => { s with messages := s.messages ++ [signedXdr] }
  | .fail => s

def stepPayment (cfg : Config) (s : State) (o : Outcome) : State × Call :=
  let sent := { s with shared := { s.shared with submissions := s.shared.submissions + 1 } }
  if o = .ok then
    (sent, if cfg.transfersTokens then .decryptSecret else .readToConfirm cfg.investorId true)
  else (sent, .abandoned)

def stepTransfer (cfg : Config) (s : State) : Outcome → State × Call
  | .ok => (s.transferred, .readToConfirm cfg.investorId true)
  | .fail => (s, .abandoned)
  | .lost => (s.transferred, .abandoned)

def stepCancel (s : State) : Outcome → State
  | .ok | .lost => s.cancel
  | .fail => s

/-- The next command of a call. -/
def stepCall (cfg : Config) (s : State) (o : Outcome) : Call → Option (State × Call)
  | .readToConfirm investorId paid =>
    let found := o = .ok ∧ investorId = cfg.investorId ∧ s.shared.status = .pending
    some (s, if found then .updateStatus paid else ended paid)
  | .updateStatus paid => some (s, if o = .ok then .commit paid else ended paid)
  | .commit paid => some (stepCommit s paid o)
  | .readToFund signedXdr => some (s, stepReadToFund cfg s signedXdr o)
  | .enqueue signedXdr => some (stepEnqueue s signedXdr o, .finished)
  | .payment => some (stepPayment cfg s o)
  | .decryptSecret => some (s, if o = .ok then .transfer else .abandoned)
  | .transfer => some (stepTransfer cfg s o)
  | .readToCancel investorId =>
    let found := o = .ok ∧ investorId = cfg.investorId ∧ s.shared.status = .pending
    some (s, if found ∧ cfg.coolingOffExpired s.now = false then .cancel else .finished)
  | .cancel => some (stepCancel s o, .finished)
  | .finished | .abandoned => none

/-- The call has sent its payment and has not written the outcome yet. -/
def Call.sent : Call → Bool
  | .readToConfirm _ paid | .updateStatus paid | .commit paid => paid
  | .decryptSecret | .transfer | .abandoned => true
  | .readToFund _ | .enqueue _ | .payment | .readToCancel _ | .cancel | .finished => false

def Call.quit (c : Call) : Call := if c.sent then .abandoned else .finished

/-! ## The system -/

inductive Thread where
  | job (connected : Bool) (signedXdr : Nat) (pc : FundJob.Pc)
  | call (c : Call)
  deriving DecidableEq, Repr

def Thread.quit : Thread → Thread
  | .job connected signedXdr pc => .job connected signedXdr pc.quit
  | .call c => .call c.quit

def stepThread (cfg : Config) (w : Nat) (s : State) (o : Outcome) : Thread → Option (State × Thread)
  | .job connected signedXdr pc => do
    let (shared, pc') ← stepJob connected signedXdr w s.shared o pc
    some ({ s with shared }, .job connected signedXdr pc')
  | .call c => do
    let (s', c') ← stepCall cfg s o c
    some (s', .call c')

/-- The thread's transaction has written the investment's row. -/
def Thread.holdsRow : Thread → Bool
  | .call (.commit _) => true
  | _ => false

/-- The thread's next command writes the row, and waits for its lock. -/
def Thread.writesRow : Thread → Bool
  | .call (.updateStatus _) | .call .cancel => true
  | .job _ _ (.updateConfirmed _) | .job _ _ .updateFailed => true
  | _ => false

structure System where
  cfg : Config
  state : State
  threads : List Thread

inductive Action where
  | confirmInvestment (investorId : Nat) (stellarTxId : List Char)
  | fundEscrow (signedXdr : Option Nat)
  | requestCoolingOffCancel (investorId : Nat)
  /-- A message of the outbox is delivered, the first time or once more. -/
  | deliver (n : Nat) (connected : Bool)
  | run (w : Nat) (o : Outcome)
  | quit (w : Nat)
  | expire
  | wait (ms : Nat)

def System.join (s : System) (t : Thread) : System := { s with threads := s.threads ++ [t] }

def confirming (investorId : Nat) (stellarTxId : List Char) : Call :=
  if isStellarTxHash stellarTxId then .readToConfirm investorId false else .finished

def next (s : System) : Action → Option System
  | .confirmInvestment investorId stellarTxId =>
    some (s.join (.call (confirming investorId stellarTxId)))
  | .fundEscrow signedXdr => some (s.join (.call (.readToFund signedXdr)))
  | .requestCoolingOffCancel investorId => some (s.join (.call (.readToCancel investorId)))
  | .deliver n connected => do
    let signedXdr ← s.state.messages[n]?
    some (s.join (.job connected signedXdr (FundJob.acquireLease connected)))
  | .run w o => do
    let t ← s.threads[w]?
    if t.writesRow ∧ s.threads.any Thread.holdsRow then none
    else
      let (state, t') ← stepThread s.cfg w s.state o t
      some { s with state, threads := s.threads.set w t' }
  | .quit w => do
    let t ← s.threads[w]?
    some { s with threads := s.threads.set w t.quit }
  | .expire =>
    let shared := { s.state.shared with key := s.state.shared.key.expire }
    some { s with state := { s.state with shared } }
  | .wait ms => some { s with state := { s.state with now := s.state.now + ms } }

/-- A pending investment for which nothing was called yet. -/
def start (cfg : Config) : System :=
  ⟨cfg, ⟨⟨.pending, ⟨none, none, false⟩, 0, [], 0⟩, [], cfg.createdAt⟩, []⟩

abbrev CancelRun (cfg : Config) (xs : List (Step System Action)) (s : System) : Prop :=
  Run next (start cfg) xs s

/-! ## What a thread has done -/

variable {cfg : Config} {s s' : State} {t t' : Thread} {o : Outcome} {w : Nat}

/-- The thread has sent a payment and the row does not show it yet. -/
def Thread.sent : Thread → Bool
  | .job _ _ pc => pc.sent
  | .call c => c.sent

/-- The thread has sent a payment. -/
def Thread.asked : Thread → Bool
  | .job _ _ (.markDone _) => true
  | t => t.sent

/-- The thread is past its look at the status, or gone without having written an outcome. -/
def Thread.moving : Thread → Bool
  | .job _ _ pc => pc.entered || pc.sent
  | .call (.updateStatus _) | .call (.commit _) | .call .payment => true
  | .call c => c.sent

/-- What one command of a thread does to the row and the ledger. -/
structure Effect (t t' : Thread) (s s' : Shared) : Prop where
  submissions : s.submissions ≤ s'.submissions
  status : s'.status = .pending → s.status = .pending
  sent : s'.status = .pending → t.sent = true ∨ s.submissions < s'.submissions → t'.sent = true
  asked : t'.asked = true → t.asked = true ∨ s.submissions < s'.submissions
  transfers : s.transfers < s'.transfers → t.asked = true
  quiet : t.moving = false → s'.submissions = s.submissions ∧ s'.transfers ≤ s.transfers ∧
    (s'.status = s.status ∨ s.status = .pending) ∧
    (t'.moving = true → s.status = .pending ∧ s'.status = .pending)

/-- A thread that goes on with a payment sent. -/
theorem Effect.goesOn {s s' : Shared} (hmoving : t.moving = true)
    (hasked : t.asked = true ∨ s.submissions < s'.submissions)
    (hsub : s.submissions ≤ s'.submissions) (hstatus : s'.status = .pending → s.status = .pending)
    (htok : s'.transfers ≤ s.transfers ∨ t.asked = true) (ht' : t'.sent = true) :
    Effect t t' s s' := by
  constructor
  case submissions => exact hsub
  case status => exact hstatus
  case sent => exact fun _ _ => ht'
  case asked => exact fun _ => hasked
  case transfers =>
    intro hlt
    rcases htok with hle | h
    · omega
    · exact h
  case quiet =>
    intro hq
    rw [hmoving] at hq
    cases hq

/-- A thread that writes an outcome to the row. -/
theorem Effect.records {s s' : Shared} (hmoving : t.moving = true)
    (hsub : s'.submissions = s.submissions)
    (hrecorded : s'.status = .confirmed ∨ s'.status = .failed)
    (htok : s'.transfers = s.transfers) (hasked : t'.asked = true → t.asked = true) :
    Effect t t' s s' := by
  have hstatus : s'.status ≠ .pending := by
    intro hp
    rcases hrecorded with h | h <;> cases hp.symm.trans h
  constructor
  case submissions => omega
  case status => exact fun h => absurd h hstatus
  case sent => exact fun h => absurd h hstatus
  case asked => exact fun h => .inl (hasked h)
  case transfers => omega
  case quiet =>
    intro hq
    rw [hmoving] at hq
    cases hq

/-- A thread that sends nothing and writes at most the CANCELLED of a pending row. -/
theorem Effect.passes {s s' : Shared} (hsub : s'.submissions = s.submissions)
    (htok : s'.transfers = s.transfers)
    (hstatus : s'.status = s.status ∨ s.status = .pending ∧ s'.status = .cancelled)
    (hsent : t.sent = true → t'.sent = true) (hasked : t'.asked = true → t.asked = true)
    (hmoving : t'.moving = true → t.moving = true ∨ s.status = .pending ∧ s'.status = .pending) :
    Effect t t' s s' := by
  constructor
  case submissions => omega
  case status =>
    intro hp
    rcases hstatus with h | ⟨h, _⟩
    · exact h.symm.trans hp
    · exact h
  case sent =>
    intro _ h
    rcases h with h | h
    · exact hsent h
    · omega
  case asked => exact fun h => .inl (hasked h)
  case transfers => omega
  case quiet =>
    intro hq
    refine ⟨hsub, le_of_eq htok, hstatus.imp_right And.left, ?_⟩
    intro ht'
    rcases hmoving ht' with h | h
    · rw [hq] at h
      cases h
    · exact h

/-! ## One command -/

theorem retry_sent (attempt : Nat) : (FundJob.retry attempt).sent = true := by
  unfold FundJob.retry
  split
  · exact decide_eq_true (Nat.succ_pos attempt)
  · rfl

theorem acquiring_idle (connected : Bool) (signedXdr : Nat) (pc : Idempotency.Pc) :
    Thread.moving (.job connected signedXdr (FundJob.acquiring pc)) = false := by
  unfold FundJob.acquiring
  split <;> rfl

theorem releasing_idle (connected : Bool) (signedXdr : Nat) (pc : Idempotency.Pc) :
    Thread.moving (.job connected signedXdr (FundJob.releasing pc)) = false := by
  unfold FundJob.releasing
  split <;> rfl

theorem asked_of_sent (h : t.sent = true) : t.asked = true := by
  unfold Thread.asked
  split
  · rfl
  · exact h

theorem moving_of_sent (h : t.sent = true) : t.moving = true := by
  cases t with
  | job connected signedXdr pc =>
    have hpc : pc.sent = true := h
    simp [Thread.moving, hpc]
  | call c =>
    cases c with
    | updateStatus | commit | payment => rfl
    | _ => exact h

theorem moving_of_asked (h : t.asked = true) : t.moving = true := by
  unfold Thread.asked at h
  split at h
  · rfl
  · exact moving_of_sent h

/-- A thread that has sent nothing and goes on with nothing sent, at a look at the status. -/
theorem Effect.looks {s : Shared} {key : Idempotency.Store} (ht : t.sent = false)
    (ht' : t'.asked = false) (hp : t'.moving = true → s.status = .pending) :
    Effect t t' s { s with key } := by
  refine .passes rfl rfl (.inl rfl) ?_ ?_ fun hmoving => .inr ⟨hp hmoving, hp hmoving⟩
  · intro hsent
    rw [ht] at hsent
    cases hsent
  · intro hasked
    rw [ht'] at hasked
    cases hasked

/-- A thread that has sent nothing and is not on the way any more. -/
theorem Effect.stops {s : Shared} {key : Idempotency.Store} (ht : t.sent = false)
    (ht' : t'.moving = false) : Effect t t' s { s with key } := by
  have hasked : t'.asked = false := by
    by_contra h
    rw [moving_of_asked (by simpa using h)] at ht'
    cases ht'
  apply Effect.looks ht hasked
  intro hmoving
  rw [ht'] at hmoving
  cases hmoving

theorem effect_job {s s' : Shared} {connected : Bool} {signedXdr : Nat} {pc pc' : FundJob.Pc}
    (h : stepJob connected signedXdr w s o pc = some (s', pc')) :
    Effect (.job connected signedXdr pc) (.job connected signedXdr pc') s s' := by
  have hretry : ∀ attempt, Thread.sent (.job connected signedXdr (FundJob.retry attempt)) = true :=
    retry_sent
  cases pc with
  | acquiring lease =>
    obtain ⟨⟨key, lease'⟩, _, heq⟩ := Option.bind_eq_some_iff.mp h
    obtain ⟨rfl, rfl⟩ := Prod.mk.inj (Option.some.inj heq)
    exact .stops rfl (acquiring_idle connected signedXdr lease')
  | releasing lease =>
    obtain ⟨⟨key, lease'⟩, _, heq⟩ := Option.bind_eq_some_iff.mp h
    obtain ⟨rfl, rfl⟩ := Prod.mk.inj (Option.some.inj heq)
    exact .stops rfl (releasing_idle connected signedXdr lease')
  | readToProcess =>
    obtain ⟨rfl, rfl⟩ := Prod.mk.inj (Option.some.inj h)
    split
    · next hp => exact .looks rfl rfl fun _ => hp.2
    · exact .stops rfl rfl
  | submit attempt =>
    have hlt : s.submissions < s.submissions + 1 := Nat.lt_succ_self _
    simp only [stepJob, FundJob.stepSubmit] at h
    split at h
    · obtain ⟨rfl, rfl⟩ := Prod.mk.inj (Option.some.inj h)
      exact .goesOn rfl (.inr hlt) (Nat.le_succ _) id (.inl (le_refl _)) (hretry attempt)
    · cases o <;> obtain ⟨rfl, rfl⟩ := Prod.mk.inj (Option.some.inj h)
      · exact .goesOn rfl (.inr hlt) (Nat.le_succ _) id (.inl (le_refl _)) rfl
      · exact .goesOn rfl (.inr hlt) (Nat.le_succ _) id (.inl (le_refl _)) (hretry attempt)
      · exact .goesOn rfl (.inr hlt) (Nat.le_succ _) id (.inl (le_refl _)) (hretry attempt)
  | decryptSecret attempt =>
    obtain ⟨rfl, rfl⟩ := Prod.mk.inj (Option.some.inj h)
    apply Effect.goesOn rfl (.inl rfl) (le_refl _) id (.inr rfl)
    split
    · rfl
    · exact hretry attempt
  | transfer attempt =>
    cases o <;> obtain ⟨rfl, rfl⟩ := Prod.mk.inj (Option.some.inj h)
    · exact .goesOn rfl (.inl rfl) (le_refl _) id (.inr rfl) rfl
    · exact .goesOn rfl (.inl rfl) (le_refl _) id (.inr rfl) (hretry attempt)
    · exact .goesOn rfl (.inl rfl) (le_refl _) id (.inr rfl) (hretry attempt)
  | updateConfirmed attempt =>
    cases o <;> obtain ⟨rfl, rfl⟩ := Prod.mk.inj (Option.some.inj h)
    · exact .records rfl rfl (.inl rfl) rfl fun _ => rfl
    · exact .goesOn rfl (.inl rfl) (le_refl _) id (.inr rfl) (hretry attempt)
    · have hne : InvestmentStatus.confirmed ≠ .pending := by decide
      refine .goesOn rfl (.inl rfl) (le_refl _) ?_ (.inr rfl) (hretry attempt)
      exact fun hp => absurd hp hne
  | markDone attempt =>
    cases connected with
    | true =>
      cases o <;> obtain ⟨rfl, rfl⟩ := Prod.mk.inj (Option.some.inj h)
      · exact .stops rfl rfl
      · exact .goesOn rfl (.inl rfl) (le_refl _) id (.inr rfl) (hretry attempt)
      · exact .goesOn rfl (.inl rfl) (le_refl _) id (.inr rfl) (hretry attempt)
    | false =>
      obtain ⟨rfl, rfl⟩ := Prod.mk.inj (Option.some.inj h)
      exact .stops rfl rfl
  | updateFailed =>
    cases o <;> obtain ⟨rfl, rfl⟩ := Prod.mk.inj (Option.some.inj h)
    · exact .records rfl rfl (.inr rfl) rfl fun _ => rfl
    · exact .goesOn rfl (.inl rfl) (le_refl _) id (.inr rfl) rfl
    · exact .records rfl rfl (.inr rfl) rfl fun _ => rfl
  | finished => cases h
  | abandoned => cases h

theorem effect_ended {s : Shared} {c : Call} (paid : Bool)
    (hsent : c.sent = paid) : Effect (.call c) (.call (ended paid)) s s := by
  cases paid with
  | true =>
    have hsent : Thread.sent (.call c) = true := hsent
    exact .passes rfl rfl (.inl rfl) (fun _ => rfl) (fun _ => asked_of_sent hsent)
      fun _ => .inl (moving_of_sent hsent)
  | false => exact .stops hsent rfl

theorem effect_call {c c' : Call} (h : stepCall cfg s o c = some (s', c')) :
    Effect (.call c) (.call c') s.shared s'.shared := by
  cases c with
  | readToConfirm investorId paid =>
    obtain ⟨rfl, rfl⟩ := Prod.mk.inj (Option.some.inj h)
    split
    · next hfound =>
      exact .passes rfl rfl (.inl rfl) id id fun _ => .inr ⟨hfound.2.2, hfound.2.2⟩
    · exact effect_ended paid rfl
  | updateStatus paid =>
    obtain ⟨rfl, rfl⟩ := Prod.mk.inj (Option.some.inj h)
    split
    · exact .passes rfl rfl (.inl rfl) id id fun _ => .inl rfl
    · exact effect_ended paid rfl
  | commit paid =>
    cases o <;> obtain ⟨rfl, rfl⟩ := Prod.mk.inj (Option.some.inj h)
    · exact .records rfl rfl (.inl rfl) rfl nofun
    · exact effect_ended paid rfl
    · exact .records rfl rfl (.inl rfl) rfl nofun
  | readToFund signedXdr =>
    obtain ⟨rfl, rfl⟩ := Prod.mk.inj (Option.some.inj h)
    unfold stepReadToFund
    split
    · next hfound =>
      split
      · exact .stops rfl rfl
      · exact .looks rfl rfl fun _ => hfound.2.1
    · exact .stops rfl rfl
  | enqueue signedXdr =>
    obtain ⟨rfl, rfl⟩ := Prod.mk.inj (Option.some.inj h)
    cases o <;> exact .stops rfl rfl
  | payment =>
    have hlt : s.shared.submissions < s.shared.submissions + 1 := Nat.lt_succ_self _
    simp only [stepCall, stepPayment] at h
    split at h
    · obtain ⟨rfl, rfl⟩ := Prod.mk.inj (Option.some.inj h)
      refine .goesOn rfl (.inr hlt) (Nat.le_succ _) id (.inl (le_refl _)) ?_
      split <;> rfl
    · obtain ⟨rfl, rfl⟩ := Prod.mk.inj (Option.some.inj h)
      exact .goesOn rfl (.inr hlt) (Nat.le_succ _) id (.inl (le_refl _)) rfl
  | decryptSecret =>
    obtain ⟨rfl, rfl⟩ := Prod.mk.inj (Option.some.inj h)
    apply Effect.goesOn rfl (.inl rfl) (le_refl _) id (.inr rfl)
    split <;> rfl
  | transfer =>
    cases o <;> obtain ⟨rfl, rfl⟩ := Prod.mk.inj (Option.some.inj h)
    · exact .goesOn rfl (.inl rfl) (le_refl _) id (.inr rfl) rfl
    · exact .goesOn rfl (.inl rfl) (le_refl _) id (.inr rfl) rfl
    · exact .goesOn rfl (.inl rfl) (le_refl _) id (.inr rfl) rfl
  | readToCancel investorId =>
    obtain ⟨rfl, rfl⟩ := Prod.mk.inj (Option.some.inj h)
    split <;> exact .stops rfl rfl
  | cancel =>
    obtain ⟨rfl, rfl⟩ := Prod.mk.inj (Option.some.inj h)
    have hcancel : Effect (.call .cancel) (.call .finished) s.shared s.cancel.shared := by
      unfold State.cancel
      split
      · next hp => exact .passes rfl rfl (.inr ⟨hp, rfl⟩) nofun nofun nofun
      · exact .stops rfl rfl
    cases o with
    | ok => exact hcancel
    | fail => exact .stops rfl rfl
    | lost => exact hcancel
  | finished => cases h
  | abandoned => cases h

theorem effect_thread (h : stepThread cfg w s o t = some (s', t')) :
    Effect t t' s.shared s'.shared := by
  cases t with
  | job connected signedXdr pc =>
    obtain ⟨⟨shared, pc'⟩, hstep, heq⟩ := Option.bind_eq_some_iff.mp h
    obtain ⟨rfl, rfl⟩ := Prod.mk.inj (Option.some.inj heq)
    exact effect_job hstep
  | call c =>
    obtain ⟨⟨s'', c'⟩, hstep, heq⟩ := Option.bind_eq_some_iff.mp h
    obtain ⟨rfl, rfl⟩ := Prod.mk.inj (Option.some.inj heq)
    exact effect_call hstep

/-! ## The threads together -/

variable {a : Action} {x x' : System}

theorem effect_quit (t : Thread) (s : Shared) : Effect t t.quit s s := by
  have hquit : t.quit.asked = t.sent ∧ t.quit.sent = t.sent ∧ t.quit.moving = t.sent := by
    cases t with
    | job connected signedXdr pc =>
      show Thread.asked (.job _ _ (if pc.sent then .abandoned else .finished)) = pc.sent ∧
        Thread.sent (.job _ _ (if pc.sent then .abandoned else .finished)) = pc.sent ∧
        Thread.moving (.job _ _ (if pc.sent then .abandoned else .finished)) = pc.sent
      cases pc.sent <;> exact ⟨rfl, rfl, rfl⟩
    | call c =>
      show Thread.asked (.call (if c.sent then .abandoned else .finished)) = c.sent ∧
        Thread.sent (.call (if c.sent then .abandoned else .finished)) = c.sent ∧
        Thread.moving (.call (if c.sent then .abandoned else .finished)) = c.sent
      cases c.sent <;> exact ⟨rfl, rfl, rfl⟩
  obtain ⟨hasked, hsent, hmoving⟩ := hquit
  refine .passes rfl rfl (.inl rfl) ?_ ?_ ?_
  · exact fun h => hsent.trans h
  · exact fun h => asked_of_sent (hasked.symm.trans h)
  · exact fun h => .inl (moving_of_sent (hmoving.symm.trans h))

/-- One action: a thread joins, a thread does one command or is gone, or only the lease's key or
    the time changes. -/
theorem next_cases (h : next x a = some x') :
    (∃ t, x'.threads = x.threads ++ [t] ∧ t.moving = false ∧ x'.state = x.state) ∨
    (∃ w t t', x.threads[w]? = some t ∧ x'.threads = x.threads.set w t' ∧
      Effect t t' x.state.shared x'.state.shared) ∨
    (x'.threads = x.threads ∧ ∃ key, x'.state.shared = { x.state.shared with key }) := by
  cases a with
  | confirmInvestment investorId stellarTxId =>
    obtain rfl := Option.some.inj h
    refine .inl ⟨_, rfl, ?_, rfl⟩
    unfold confirming
    split <;> rfl
  | fundEscrow signedXdr =>
    obtain rfl := Option.some.inj h
    exact .inl ⟨_, rfl, rfl, rfl⟩
  | requestCoolingOffCancel investorId =>
    obtain rfl := Option.some.inj h
    exact .inl ⟨_, rfl, rfl, rfl⟩
  | deliver n connected =>
    obtain ⟨signedXdr, _, h⟩ := Option.bind_eq_some_iff.mp h
    obtain rfl := Option.some.inj h
    refine .inl ⟨_, rfl, ?_, rfl⟩
    cases connected <;> rfl
  | run w o =>
    obtain ⟨t, ht, h⟩ := Option.bind_eq_some_iff.mp h
    split at h
    · cases h
    · obtain ⟨⟨state, t'⟩, hstep, h⟩ := Option.bind_eq_some_iff.mp h
      obtain rfl := Option.some.inj h
      exact .inr (.inl ⟨w, t, t', ht, rfl, effect_thread hstep⟩)
  | quit w =>
    obtain ⟨t, ht, h⟩ := Option.bind_eq_some_iff.mp h
    obtain rfl := Option.some.inj h
    exact .inr (.inl ⟨w, t, t.quit, ht, rfl, effect_quit t _⟩)
  | expire =>
    obtain rfl := Option.some.inj h
    exact .inr (.inr ⟨rfl, _, rfl⟩)
  | wait ms =>
    obtain rfl := Option.some.inj h
    exact .inr (.inr ⟨rfl, x.state.shared.key, rfl⟩)

/-- A payment of a pending investment is the work of a thread that is still on it, or was
    abandoned on it; tokens follow a payment. -/
structure Sound (x : System) : Prop where
  pending : x.state.shared.status = .pending → 0 < x.state.shared.submissions →
    ∃ t ∈ x.threads, t.sent = true
  asked : ∀ t ∈ x.threads, t.asked = true → 0 < x.state.shared.submissions
  transfers : 0 < x.state.shared.transfers → 0 < x.state.shared.submissions

/-- Cancelled with nothing sent, and nobody on the way. -/
structure Closed (x : System) : Prop where
  cancelled : x.state.shared.status = .cancelled
  submissions : x.state.shared.submissions = 0
  transfers : x.state.shared.transfers = 0
  quiet : ∀ t ∈ x.threads, t.moving = false

theorem Sound.set {shared : Shared} {threads : List Thread} (hx : Sound x)
    (ht : x.threads[w]? = some t) (h : Effect t t' x.state.shared shared)
    (hthreads : threads = x.threads.set w t') :
    (shared.status = .pending → 0 < shared.submissions → ∃ t ∈ threads, t.sent = true) ∧
      (∀ t ∈ threads, t.asked = true → 0 < shared.submissions) ∧
      (0 < shared.transfers → 0 < shared.submissions) := by
  subst hthreads
  have hmem := List.mem_of_getElem? ht
  have hle := h.submissions
  refine ⟨?_, ?_, ?_⟩
  · intro hp hpos
    by_cases hsent : t.sent = true ∨ x.state.shared.submissions < shared.submissions
    · exact ⟨t', List.mem_set (List.getElem?_eq_some_iff.mp ht).1 t', h.sent hp hsent⟩
    · obtain ⟨u, hu, husent⟩ := hx.pending (h.status hp) (by omega)
      obtain ⟨v, hv⟩ := List.mem_iff_getElem?.mp hu
      have hne : v ≠ w := by
        rintro rfl
        obtain rfl : t = u := Option.some.inj (ht.symm.trans hv)
        exact hsent (.inl husent)
      refine ⟨u, List.mem_iff_getElem?.mpr ⟨v, ?_⟩, husent⟩
      rw [List.getElem?_set_ne (Ne.symm hne)]
      exact hv
  · have hothers : ∀ u ∈ x.threads, u.asked = true → 0 < shared.submissions := by
      intro u hu hasked
      have hpos := hx.asked u hu hasked
      omega
    refine forall_mem_set (others_of_forall hothers) ?_
    intro hasked
    rcases h.asked hasked with hasked | hlt
    · exact hothers t hmem hasked
    · omega
  · intro hpos
    by_cases htok : x.state.shared.transfers < shared.transfers
    · have hsub := hx.asked t hmem (h.transfers htok)
      omega
    · have hsub := hx.transfers (by omega)
      omega

theorem Sound.move (hx : Sound x) (h : next x a = some x') : Sound x' := by
  obtain ⟨t, hthreads, hmoving, hstate⟩ | ⟨w, t, t', ht, hthreads, heffect⟩ |
    ⟨hthreads, key, hkey⟩ := next_cases h
  · constructor
    case pending =>
      rw [hstate, hthreads]
      intro hp hpos
      obtain ⟨u, hu, husent⟩ := hx.pending hp hpos
      exact ⟨u, List.mem_append_left _ hu, husent⟩
    case asked =>
      rw [hstate, hthreads]
      refine forall_mem_append hx.asked ?_
      intro hasked
      rw [moving_of_asked hasked] at hmoving
      cases hmoving
    case transfers =>
      rw [hstate]
      exact hx.transfers
  · obtain ⟨hpending, hasked, htransfers⟩ := hx.set ht heffect hthreads
    exact ⟨hpending, hasked, htransfers⟩
  · constructor
    case pending => rw [hthreads, hkey]; exact hx.pending
    case asked => rw [hthreads, hkey]; exact hx.asked
    case transfers => rw [hkey]; exact hx.transfers

theorem Closed.move (hx : Closed x) (h : next x a = some x') : Closed x' := by
  obtain ⟨t, hthreads, hmoving, hstate⟩ | ⟨w, t, t', ht, hthreads, heffect⟩ |
    ⟨hthreads, key, hkey⟩ := next_cases h
  · constructor
    case cancelled => rw [hstate]; exact hx.cancelled
    case submissions => rw [hstate]; exact hx.submissions
    case transfers => rw [hstate]; exact hx.transfers
    case quiet =>
      rw [hthreads]
      exact forall_mem_append hx.quiet hmoving
  · have hpending : x.state.shared.status ≠ .pending := by
      rw [hx.cancelled]
      nofun
    obtain ⟨hsub, htok, hstatus, hmoves⟩ := heffect.quiet (hx.quiet t (List.mem_of_getElem? ht))
    constructor
    case cancelled =>
      rcases hstatus with hsame | hp
      · exact hsame.trans hx.cancelled
      · exact absurd hp hpending
    case submissions => exact hsub.trans hx.submissions
    case transfers => exact Nat.le_zero.mp (htok.trans (le_of_eq hx.transfers))
    case quiet =>
      rw [hthreads]
      refine forall_mem_set (others_of_forall hx.quiet) ?_
      by_contra hne
      exact hpending (hmoves (by simpa using hne)).1
  · constructor
    case cancelled => rw [hkey]; exact hx.cancelled
    case submissions => rw [hkey]; exact hx.submissions
    case transfers => rw [hkey]; exact hx.transfers
    case quiet => rw [hthreads]; exact hx.quiet

theorem sound_start (cfg : Config) : Sound (start cfg) := by
  constructor
  case pending => exact fun _ h => absurd h (Nat.lt_irrefl 0)
  case asked => simp [start]
  case transfers => exact id

/-! ## Cancelled for good -/

/-- The step is a cancel that takes effect. -/
def Cancels (step : Step System Action) : Prop :=
  step.pre.state.shared.status = .pending ∧ step.post.state.shared.status = .cancelled

instance (step : Step System Action) : Decidable (Cancels step) :=
  inferInstanceAs (Decidable (_ ∧ _))

/-- Nobody is past the look at the status, or gone with the outcome of a payment not written. -/
def Clear (x : System) : Prop := ∀ t ∈ x.threads, t.moving = false

instance (x : System) : Decidable (Clear x) := inferInstanceAs (Decidable (∀ t ∈ x.threads, _))

/-- No payment was sent before a cancel that took effect, and afterwards there is no payment, there
    are no tokens, and the investment stays CANCELLED. -/
def CancelStands (xs : List (Step System Action)) : Prop :=
  ∀ ys step zs, xs = ys ++ step :: zs → Cancels step →
    step.pre.state.shared.submissions = 0 ∧ ∀ later ∈ zs,
      later.post.state.shared.status = .cancelled ∧
        later.post.state.shared.submissions = 0 ∧ later.post.state.shared.transfers = 0

theorem Sound.closes {step : Step System Action} (hs : Sound step.pre) (hcancel : Cancels step)
    (hclear : Clear step.pre) (h : next step.pre step.act = some step.post) :
    step.pre.state.shared.submissions = 0 ∧ Closed step.post := by
  obtain ⟨hp, hc⟩ := hcancel
  have hsub : step.pre.state.shared.submissions = 0 := by
    by_contra hne
    obtain ⟨t, ht, hsent⟩ := hs.pending hp (Nat.pos_of_ne_zero hne)
    have hmoving := hclear t ht
    rw [moving_of_sent hsent] at hmoving
    cases hmoving
  have htok : step.pre.state.shared.transfers = 0 := by
    by_contra hne
    have hpos := hs.transfers (Nat.pos_of_ne_zero hne)
    omega
  refine ⟨hsub, ?_⟩
  obtain ⟨t, hthreads, hmoving, hstate⟩ | ⟨w, t, t', ht, hthreads, heffect⟩ | ⟨_, key, hkey⟩ :=
    next_cases h
  · rw [hstate, hp] at hc
    cases hc
  · obtain ⟨hsub', htok', _, hmoves⟩ := heffect.quiet (hclear t (List.mem_of_getElem? ht))
    constructor
    case cancelled => exact hc
    case submissions => exact hsub'.trans hsub
    case transfers => exact Nat.le_zero.mp (htok'.trans (le_of_eq htok))
    case quiet =>
      rw [hthreads]
      refine forall_mem_set (others_of_forall hclear) ?_
      by_contra hne
      have hp' := (hmoves (by simpa using hne)).2
      rw [hc] at hp'
      cases hp'
  · rw [hkey] at hc
    exact absurd (hp.symm.trans hc) nofun

theorem Closed.run {xs : List (Step System Action)} (hx : Closed x) (h : Run next x xs x') :
    ∀ step ∈ xs, Closed step.post := by
  intro step hstep
  exact (h.steps_invariant Closed hx (fun _ _ hn hc => hc.move hn) step hstep).2.2

/-- A cancel that takes effect when nobody is past the look at the status is final. -/
theorem cancel_stands {cfg : Config} {xs : List (Step System Action)} (h : CancelRun cfg xs x)
    (hclear : ∀ step ∈ xs, Cancels step → Clear step.pre) : CancelStands xs := by
  rintro ys step zs rfl hcancel
  obtain ⟨hys, hn, hzs⟩ := run_split.mp h
  have hs : Sound step.pre := hys.invariant Sound (sound_start cfg) fun _ _ hn hs => hs.move hn
  have hmem : step ∈ ys ++ step :: zs := List.mem_append_right _ (List.mem_cons_self ..)
  obtain ⟨hsub, hclosed⟩ := hs.closes hcancel (hclear step hmem hcancel) hn
  refine ⟨hsub, ?_⟩
  intro later hlater
  have hc := hclosed.run hzs later hlater
  exact ⟨hc.cancelled, hc.submissions, hc.transfers⟩

/-- An investment of investor 1 with a day to cancel it. -/
def sampleConfig : Config := ⟨1, 0, 24, some "GESCROW", some "secret", "COFFEE"⟩

/-- The investor signs a payment and cancels; the message is delivered afterwards, twice. -/
def cancelledInTime : List Action :=
  [.fundEscrow (some 7), .run 0 .ok, .run 0 .ok, .requestCoolingOffCancel 1, .run 1 .ok,
    .run 1 .ok, .deliver 0 true, .run 2 .ok, .run 2 .ok, .run 2 .ok, .deliver 0 false, .run 3 .ok]

theorem cancel_stands_sample :
    (∃ step ∈ (replay next (start sampleConfig) cancelledInTime).1, Cancels step) ∧
      CancelStands (replay next (start sampleConfig) cancelledInTime).1 := by
  have hrun : CancelRun sampleConfig _ _ := run_replay next (start sampleConfig) cancelledInTime
  exact ⟨by decide +kernel, cancel_stands hrun (by decide +kernel)⟩

/-- The message is delivered and the job looks at the status; then the cancel succeeds; then the
    job pays, transfers the tokens and confirms. -/
def cancelledTooLate : List Action :=
  [.fundEscrow (some 7), .run 0 .ok, .run 0 .ok, .deliver 0 true, .run 1 .ok, .run 1 .ok,
    .run 1 .ok, .requestCoolingOffCancel 1, .run 2 .ok, .run 2 .ok, .run 1 .ok, .run 1 .ok,
    .run 1 .ok, .run 1 .ok]

theorem cancelled_and_funded : ∃ xs x, CancelRun sampleConfig xs x ∧ ¬ CancelStands xs ∧
    x.state.shared.status = .confirmed ∧ x.state.shared.payments = [7] ∧
    x.state.shared.transfers = 1 := by
  have hrun : CancelRun sampleConfig _ _ := run_replay next (start sampleConfig) cancelledTooLate
  refine ⟨_, _, hrun, ?_, by decide +kernel, by decide +kernel, by decide +kernel⟩
  intro hstands
  have hlast := hstands ((replay next (start sampleConfig) cancelledTooLate).1.take 9) _
    ((replay next (start sampleConfig) cancelledTooLate).1.drop 10) rfl (by decide +kernel)
  have hconfirmed := hlast.2 _ (List.mem_of_getElem? (i := 3) rfl)
  exact absurd hconfirmed.1 (by decide +kernel)

end AgriFi.Investments.CoolingOff
