import AgriFi.Idempotency.Lease
import AgriFi.Investments.Service
import AgriFi.Threads

/-
  The `investment.fund` job of one investment (`processInvestmentFund` of
  `src/queue/queue.processor.ts`), with each external operation of its loop as a step of its own:
  the submission of the payment that the investor has signed, the decryption of the escrow's secret,
  the transfer of the tokens, the update of the row, and the lease. One loop surrounds them all, so
  the payment that one attempt has made is submitted again by the next, and Stellar refuses it:
  whatever fails after the payment leaves the investment FAILED with the money taken
  (`failed_with_payment`). `fund_job_atomic`: in a run in which nothing fails from the accepted
  payment on, and only one delivery at a time is past its look at the status, an investment that is
  FAILED has paid nothing, and one that is CONFIRMED has paid once and has its tokens once.
-/

namespace AgriFi.Investments.FundJob

open AgriFi.Runs AgriFi.Threads
open AgriFi.DealDelivered (Outcome)

/-! ## Shared state -/

/-- The investment's row, the key of its lease, and what the ledger knows of it: the number of
    payments that were sent to Stellar, the signed transactions among them that took effect, and
    the transfers of the tokens. -/
structure Shared where
  status : InvestmentStatus
  key : Idempotency.Store
  submissions : Nat
  payments : List Nat
  transfers : Nat
  deriving DecidableEq, Repr

/-! ## The job -/

/-- The operation that a delivery makes next. `attempt` counts the failures of its loop so far. -/
inductive Pc where
  | acquiring (pc : Idempotency.Pc)
  | readToProcess
  | submit (attempt : Nat)
  | decryptSecret (attempt : Nat)
  | transfer (attempt : Nat)
  | updateConfirmed (attempt : Nat)
  | markDone (attempt : Nat)
  | updateFailed
  | releasing (pc : Idempotency.Pc)
  | finished
  /-- Gone after Stellar was asked, with the outcome not written to the row. -/
  | abandoned
  deriving DecidableEq, Repr

/-- `acquireLease`; without a connection every lease is granted. -/
def acquireLease (connected : Bool) : Pc :=
  if connected then .acquiring .acquireGet else .readToProcess

/-- Where `acquireLease` leaves the job: with the lease, or at an `ack` or an error. -/
def acquiring : Idempotency.Pc → Pc
  | .holding => .readToProcess
  | .idle | .notAcquired _ => .finished
  | pc => .acquiring pc

/-- The `catch` of the loop, and what follows its last attempt. -/
def retry (attempt : Nat) : Pc :=
  if attempt + 1 < maxRetries then .submit (attempt + 1) else .updateFailed

def releaseLease (connected : Bool) : Pc := if connected then .releasing .releaseGet else .finished

def releasing : Idempotency.Pc → Pc
  | .releaseDel => .releasing .releaseDel
  | _ => .finished

/-- `submitTransaction`. Stellar refuses a transaction that it has already applied. -/
def stepSubmit (signedXdr : Nat) (s : Shared) (attempt : Nat) (o : Outcome) : Shared × Pc :=
  let sent := { s with submissions := s.submissions + 1 }
  if signedXdr ∈ s.payments then (sent, retry attempt)
  else
    match o with
    | .ok => ({ sent with payments := sent.payments ++ [signedXdr] }, .decryptSecret attempt)
    | .fail => (sent, retry attempt)
    | .lost => ({ sent with payments := sent.payments ++ [signedXdr] }, retry attempt)

def stepTransfer (s : Shared) (attempt : Nat) : Outcome → Shared × Pc
  | .ok => ({ s with transfers := s.transfers + 1 }, .updateConfirmed attempt)
  | .fail => (s, retry attempt)
  | .lost => ({ s with transfers := s.transfers + 1 }, retry attempt)

def stepUpdateConfirmed (s : Shared) (attempt : Nat) : Outcome → Shared × Pc
  | .ok => ({ s with status := .confirmed }, .markDone attempt)
  | .fail => (s, retry attempt)
  | .lost => ({ s with status := .confirmed }, retry attempt)

def stepMarkDone (connected : Bool) (s : Shared) (attempt : Nat) (o : Outcome) : Shared × Pc :=
  if connected then
    let (key, _) := Idempotency.stepMarkDone s.key o
    ({ s with key }, if o = .ok then .finished else retry attempt)
  else (s, .finished)

/-- The update after the last attempt; its error leaves the job. -/
def stepUpdateFailed (connected : Bool) (s : Shared) : Outcome → Shared × Pc
  | .ok => ({ s with status := .failed }, releaseLease connected)
  | .fail => (s, .abandoned)
  | .lost => ({ s with status := .failed }, .finished)

/-- The next operation of delivery `w`. -/
def stepJob (connected : Bool) (signedXdr w : Nat) (s : Shared) (o : Outcome) :
    Pc → Option (Shared × Pc)
  | .acquiring pc => do
    let (key, pc') ← Idempotency.stepWorker w s.key o pc
    some ({ s with key }, acquiring pc')
  | .readToProcess =>
    some (s, if o = .ok ∧ s.status = .pending then .submit 0 else .finished)
  | .submit attempt => some (stepSubmit signedXdr s attempt o)
  | .decryptSecret attempt => some (s, if o = .ok then .transfer attempt else retry attempt)
  | .transfer attempt => some (stepTransfer s attempt o)
  | .updateConfirmed attempt => some (stepUpdateConfirmed s attempt o)
  | .markDone attempt => some (stepMarkDone connected s attempt o)
  | .updateFailed => some (stepUpdateFailed connected s o)
  | .releasing pc => do
    let (key, pc') ← Idempotency.stepWorker w s.key o pc
    some ({ s with key }, releasing pc')
  | .finished | .abandoned => none

/-- The job has sent its payment to Stellar and has not written the outcome yet. -/
def Pc.sent : Pc → Bool
  | .submit attempt => 0 < attempt
  | .decryptSecret _ | .transfer _ | .updateConfirmed _ | .updateFailed | .abandoned => true
  | .acquiring _ | .readToProcess | .markDone _ | .releasing _ | .finished => false

/-- What is left of a job whose process dies. -/
def Pc.quit (pc : Pc) : Pc := if pc.sent then .abandoned else .finished

/-! ## Deliveries -/

/-- One delivery of the message, to a replica that has its Redis connection or not. -/
structure Job where
  connected : Bool
  pc : Pc
  deriving DecidableEq, Repr

structure System where
  shared : Shared
  jobs : List Job

inductive Action where
  /-- The message is delivered, the first time or once more. -/
  | deliver (connected : Bool)
  | run (w : Nat) (o : Outcome)
  /-- The process of the delivery dies. -/
  | quit (w : Nat)
  /-- The time to live of the lease's key runs out. -/
  | expire

/-- The transaction that the investor has signed, in the message. -/
def signedXdr : Nat := 0

def next (s : System) : Action → Option System
  | .deliver connected => some { s with jobs := s.jobs ++ [⟨connected, acquireLease connected⟩] }
  | .run w o => do
    let job ← s.jobs[w]?
    let (shared, pc) ← stepJob job.connected signedXdr w s.shared o job.pc
    some ⟨shared, s.jobs.set w { job with pc }⟩
  | .quit w => do
    let job ← s.jobs[w]?
    some { s with jobs := s.jobs.set w { job with pc := job.pc.quit } }
  | .expire => some { s with shared := { s.shared with key := s.shared.key.expire } }

/-- A pending investment whose message is in the queue. -/
def start : System := ⟨⟨.pending, ⟨none, none, false⟩, 0, [], 0⟩, []⟩

abbrev JobRun (xs : List (Step System Action)) (s : System) : Prop := Run next start xs s

/-! ## Where a delivery stands -/

variable {s s' : Shared} {pc pc' : Pc} {o : Outcome} {connected : Bool} {w : Nat}

/-- The payment and the tokens go together with the status. -/
structure Atomic (s : Shared) : Prop where
  paidOnce : s.payments.length ≤ 1
  transferredOnce : s.transfers ≤ 1
  failed : s.status = .failed → s.payments = [] ∧ s.transfers = 0
  confirmed : s.status = .confirmed → s.payments.length = 1 ∧ s.transfers = 1

/-- Past the look at the status. -/
def Pc.entered : Pc → Bool
  | .submit _ | .decryptSecret _ | .transfer _ | .updateConfirmed _ | .markDone _
  | .updateFailed => true
  | .acquiring _ | .readToProcess | .releasing _ | .finished | .abandoned => false

/-- The payment is made and the row does not say so yet. -/
def Pc.unrecorded : Pc → Bool
  | .decryptSecret _ | .transfer _ | .updateConfirmed _ => true
  | _ => false

/-- What a delivery at `pc` that nothing has disturbed knows of the row and of the ledger. -/
def Stage (s : Shared) : Pc → Prop
  | .submit _ | .updateFailed => s.status = .pending ∧ s.payments = [] ∧ s.transfers = 0
  | .decryptSecret _ | .transfer _ =>
    s.status = .pending ∧ s.payments = [signedXdr] ∧ s.transfers = 0
  | .updateConfirmed _ => s.status = .pending ∧ s.payments = [signedXdr] ∧ s.transfers = 1
  | .markDone _ => s.status = .confirmed ∧ s.payments = [signedXdr] ∧ s.transfers = 1
  | .acquiring _ | .readToProcess | .releasing _ | .finished | .abandoned => True

/-- Nothing is taken, or all is done. -/
def Settled (s : Shared) : Prop :=
  (s.status = .pending ∨ s.status = .failed) ∧ s.payments = [] ∧ s.transfers = 0 ∨
    s.status = .confirmed ∧ s.payments = [signedXdr] ∧ s.transfers = 1

/-- From the accepted payment on, the operation does not fail. -/
def Pc.Clean (o : Outcome) : Pc → Prop
  | .submit _ => o ≠ .lost
  | .decryptSecret _ | .transfer _ | .updateConfirmed _ | .markDone _ => o = .ok
  | _ => True

instance : ∀ pc : Pc, Decidable (pc.Clean o)
  | .submit _ => inferInstanceAs (Decidable (_ ≠ _))
  | .decryptSecret _ | .transfer _ | .updateConfirmed _ | .markDone _ =>
    inferInstanceAs (Decidable (_ = _))
  | .acquiring _ | .readToProcess | .updateFailed | .releasing _ | .finished
  | .abandoned => isTrue trivial

theorem stage_of_outside (h : pc.entered = false) : Stage s pc := by
  cases pc with
  | acquiring | readToProcess | releasing | finished | abandoned => exact trivial
  | _ => cases h

theorem stage_retry (attempt : Nat) (h : Stage s (.submit attempt)) : Stage s (retry attempt) := by
  unfold retry
  split <;> exact h

theorem retry_entered (attempt : Nat) : (retry attempt).entered = true := by
  unfold retry
  split <;> rfl

theorem acquiring_entered (pc : Idempotency.Pc) : (acquiring pc).entered = false := by
  unfold acquiring
  split <;> rfl

theorem releasing_entered (pc : Idempotency.Pc) : (releasing pc).entered = false := by
  unfold releasing
  split <;> rfl

theorem acquireLease_entered (connected : Bool) : (acquireLease connected).entered = false := by
  cases connected <;> rfl

theorem releaseLease_entered (connected : Bool) : (releaseLease connected).entered = false := by
  cases connected <;> rfl

theorem quit_entered (pc : Pc) : pc.quit.entered = false := by
  unfold Pc.quit
  split <;> rfl

/-- What is left at the end of a delivery whose payment is not made, or recorded. -/
theorem settled_of_stage (hin : pc.entered = true) (hrec : pc.unrecorded = false)
    (h : Stage s pc) : Settled s := by
  cases pc with
  | submit => exact .inl ⟨.inl h.1, h.2⟩
  | updateFailed => exact .inl ⟨.inl h.1, h.2⟩
  | markDone => exact .inr h
  | decryptSecret => cases hrec
  | transfer => cases hrec
  | updateConfirmed => cases hrec
  | _ => cases hin

theorem atomic_of_settled (h : Settled s) : Atomic s := by
  rcases h with ⟨hstatus, hpay, htok⟩ | ⟨hstatus, hpay, htok⟩
  · constructor
    case paidOnce => simp [hpay]
    case transferredOnce => omega
    case failed => exact fun _ => ⟨hpay, htok⟩
    case confirmed =>
      intro hconf
      rw [hconf] at hstatus
      rcases hstatus with h | h <;> cases h
  · constructor
    case paidOnce => simp [hpay]
    case transferredOnce => omega
    case failed =>
      intro hfail
      rw [hfail] at hstatus
      cases hstatus
    case confirmed => exact fun _ => ⟨by simp [hpay], htok⟩

theorem atomic_of_pending (h : s.status = .pending) (hpay : s.payments.length ≤ 1)
    (htok : s.transfers ≤ 1) : Atomic s := by
  constructor
  case paidOnce => exact hpay
  case transferredOnce => exact htok
  case failed =>
    intro hfail
    rw [hfail] at h
    cases h
  case confirmed =>
    intro hconf
    rw [hconf] at h
    cases h

theorem atomic_of_stage (hin : pc.entered = true) (h : Stage s pc) : Atomic s := by
  cases hrec : pc.unrecorded with
  | false => exact atomic_of_settled (settled_of_stage hin hrec h)
  | true =>
    cases pc with
    | decryptSecret =>
      obtain ⟨hstatus, hpay, htok⟩ := h
      exact atomic_of_pending hstatus (by simp [hpay]) (by omega)
    | transfer =>
      obtain ⟨hstatus, hpay, htok⟩ := h
      exact atomic_of_pending hstatus (by simp [hpay]) (by omega)
    | updateConfirmed =>
      obtain ⟨hstatus, hpay, htok⟩ := h
      exact atomic_of_pending hstatus (by simp [hpay]) (by omega)
    | _ => cases hrec

/-! ## One operation -/

/-- Before the look at the status and after the end, only the key changes. -/
theorem step_outside (hout : pc.entered = false)
    (h : stepJob connected signedXdr w s o pc = some (s', pc')) :
    (∃ key, s' = { s with key }) ∧
      (pc'.entered = false ∨ pc = .readToProcess ∧ s.status = .pending ∧ pc' = .submit 0) := by
  cases pc with
  | acquiring lease =>
    obtain ⟨⟨key, lease'⟩, _, heq⟩ := Option.bind_eq_some_iff.mp h
    obtain ⟨rfl, rfl⟩ := Prod.mk.inj (Option.some.inj heq)
    exact ⟨⟨key, rfl⟩, .inl (acquiring_entered lease')⟩
  | releasing lease =>
    obtain ⟨⟨key, lease'⟩, _, heq⟩ := Option.bind_eq_some_iff.mp h
    obtain ⟨rfl, rfl⟩ := Prod.mk.inj (Option.some.inj heq)
    exact ⟨⟨key, rfl⟩, .inl (releasing_entered lease')⟩
  | readToProcess =>
    obtain ⟨rfl, rfl⟩ := Prod.mk.inj (Option.some.inj h)
    refine ⟨⟨s.key, rfl⟩, ?_⟩
    split
    · next hp => exact .inr ⟨rfl, hp.2, rfl⟩
    · exact .inl rfl
  | finished => cases h
  | abandoned => cases h
  | _ => cases hout

/-- A delivery that is past the look goes on from stage to stage. -/
theorem step_entered (hin : pc.entered = true) (hclean : pc.Clean o) (hstage : Stage s pc)
    (h : stepJob connected signedXdr w s o pc = some (s', pc')) :
    Stage s' pc' ∧ (pc'.entered = false → Settled s') := by
  cases pc with
  | submit attempt =>
    obtain ⟨hstatus, hpay, htok⟩ := hstage
    have hnew : signedXdr ∉ s.payments := by simp [hpay]
    simp only [stepJob, stepSubmit, if_neg hnew] at h
    cases o with
    | ok =>
      obtain ⟨rfl, rfl⟩ := Prod.mk.inj (Option.some.inj h)
      refine ⟨⟨hstatus, ?_, htok⟩, nofun⟩
      show s.payments ++ [signedXdr] = [signedXdr]
      rw [hpay]
      rfl
    | fail =>
      obtain ⟨rfl, rfl⟩ := Prod.mk.inj (Option.some.inj h)
      refine ⟨stage_retry attempt ⟨hstatus, hpay, htok⟩, ?_⟩
      simp [retry_entered]
    | lost => exact absurd rfl hclean
  | decryptSecret attempt =>
    obtain rfl : o = .ok := hclean
    obtain ⟨rfl, rfl⟩ := Prod.mk.inj (Option.some.inj h)
    exact ⟨hstage, nofun⟩
  | transfer attempt =>
    obtain rfl : o = .ok := hclean
    obtain ⟨hstatus, hpay, htok⟩ := hstage
    obtain ⟨rfl, rfl⟩ := Prod.mk.inj (Option.some.inj h)
    refine ⟨⟨hstatus, hpay, ?_⟩, nofun⟩
    show s.transfers + 1 = 1
    omega
  | updateConfirmed attempt =>
    obtain rfl : o = .ok := hclean
    obtain ⟨_, hpay, htok⟩ := hstage
    obtain ⟨rfl, rfl⟩ := Prod.mk.inj (Option.some.inj h)
    exact ⟨⟨rfl, hpay, htok⟩, nofun⟩
  | markDone attempt =>
    obtain rfl : o = .ok := hclean
    cases connected with
    | true =>
      obtain ⟨rfl, rfl⟩ := Prod.mk.inj (Option.some.inj h)
      exact ⟨trivial, fun _ => .inr hstage⟩
    | false =>
      obtain ⟨rfl, rfl⟩ := Prod.mk.inj (Option.some.inj h)
      exact ⟨trivial, fun _ => .inr hstage⟩
  | updateFailed =>
    obtain ⟨hstatus, hrest⟩ := hstage
    cases o with
    | ok =>
      obtain ⟨rfl, rfl⟩ := Prod.mk.inj (Option.some.inj h)
      exact ⟨stage_of_outside (releaseLease_entered connected), fun _ => .inl ⟨.inr rfl, hrest⟩⟩
    | fail =>
      obtain ⟨rfl, rfl⟩ := Prod.mk.inj (Option.some.inj h)
      exact ⟨trivial, fun _ => .inl ⟨.inl hstatus, hrest⟩⟩
    | lost =>
      obtain ⟨rfl, rfl⟩ := Prod.mk.inj (Option.some.inj h)
      exact ⟨trivial, fun _ => .inl ⟨.inr rfl, hrest⟩⟩
  | _ => cases hin

/-! ## The deliveries together -/

def Job.Entered (job : Job) : Prop := job.pc.entered = true

/-- One delivery at most is past the look, the row and the ledger are where it stands, and they are
    settled when there is none. -/
structure Sound (s : System) : Prop where
  alone : AtMostOneInside Job.Entered s.jobs
  stage : ∀ job ∈ s.jobs, Stage s.shared job.pc
  settled : (∀ job ∈ s.jobs, job.pc.entered = false) → Settled s.shared

/-- Nothing fails or dies from the accepted payment to the end of the attempt, and a delivery finds
    the investment PENDING only when no other one is past that look. -/
def Guarded (s : System) : Action → Prop
  | .run w o => ∀ job ∈ s.jobs[w]?, job.pc.Clean o ∧
    (job.pc = .readToProcess → s.shared.status = .pending →
      ∀ other ∈ s.jobs, other.pc.entered = false)
  | .quit w => ∀ job ∈ s.jobs[w]?, job.pc.unrecorded = false
  | .deliver _ | .expire => True

instance (s : System) : ∀ a : Action, Decidable (Guarded s a)
  | .run w _ => inferInstanceAs (Decidable (∀ job ∈ s.jobs[w]?, _ ∧ (_ → _ → _)))
  | .quit w => inferInstanceAs (Decidable (∀ job ∈ s.jobs[w]?, _))
  | .deliver _ | .expire => isTrue trivial

variable {t t' : System} {job : Job}

/-- A delivery moves to `pc`, and leaves the row and the ledger in `s'`. -/
theorem Sound.set (hs : Sound t) (hjob : t.jobs[w]? = some job)
    (hin : pc.entered = true → job.pc.entered = true ∨ ∀ other ∈ t.jobs, other.pc.entered = false)
    (hstage : Stage s' pc)
    (hothers : ∀ ⦃v other⦄, t.jobs[v]? = some other → v ≠ w → Stage s' other.pc)
    (hsettled : pc.entered = false →
      (∀ ⦃v other⦄, t.jobs[v]? = some other → v ≠ w → other.pc.entered = false) → Settled s') :
    Sound ⟨s', t.jobs.set w { job with pc }⟩ := by
  constructor
  case alone =>
    apply hs.alone.set hjob
    intro hpc
    rcases hin hpc with h | h
    · exact .inl h
    · refine .inr ?_
      intro v other hother _ hent
      have hout := h other (List.mem_of_getElem? hother)
      rw [Job.Entered, hout] at hent
      cases hent
  case stage => exact forall_mem_set (P := fun j : Job => Stage s' j.pc) hothers hstage
  case settled =>
    intro hall
    have hlt : w < t.jobs.length := (List.getElem?_eq_some_iff.mp hjob).1
    have hpc : pc.entered = false := hall _ (List.mem_of_getElem? (List.getElem?_set_self hlt))
    apply hsettled hpc
    intro v other hother hne
    apply hall
    rw [List.mem_iff_getElem?]
    exact ⟨v, by rw [List.getElem?_set_ne (Ne.symm hne)]; exact hother⟩

/-- Every delivery but `w` is outside, since `w` is inside or all are. -/
theorem Sound.others (hs : Sound t) (hjob : t.jobs[w]? = some job) (hin : job.pc.entered = true)
    {v : Nat} {other : Job} (hother : t.jobs[v]? = some other) (hne : v ≠ w) :
    other.pc.entered = false := by
  have hout := hs.alone.others hjob hin hother hne
  rwa [Job.Entered, Bool.not_eq_true] at hout

theorem Sound.run {pc' : Pc} (hs : Sound t) (hjob : t.jobs[w]? = some job)
    (hclean : job.pc.Clean o) (hfirst : job.pc = .readToProcess → t.shared.status = .pending →
      ∀ other ∈ t.jobs, other.pc.entered = false)
    (h : stepJob job.connected signedXdr w t.shared o job.pc = some (s', pc')) :
    Sound ⟨s', t.jobs.set w { job with pc := pc' }⟩ := by
  have hstage := hs.stage job (List.mem_of_getElem? hjob)
  cases hin : job.pc.entered with
  | true =>
    obtain ⟨hstage', hsettled'⟩ := step_entered hin hclean hstage h
    apply hs.set hjob (fun _ => .inl hin) hstage'
    · intro v other hother hne
      exact stage_of_outside (hs.others hjob hin hother hne)
    · intro hout _
      exact hsettled' hout
  | false =>
    obtain ⟨⟨key, rfl⟩, hpc⟩ := step_outside hin h
    have hothers : ∀ ⦃v other⦄, t.jobs[v]? = some other → v ≠ w →
        Stage { t.shared with key } other.pc :=
      fun v other hother _ => hs.stage other (List.mem_of_getElem? hother)
    rcases hpc with hout | ⟨hread, hp, rfl⟩
    · apply hs.set hjob ?_ (stage_of_outside hout) hothers
      · intro _ hall
        exact hs.settled (forall_mem_of_others hjob hin hall)
      · intro hent
        rw [hout] at hent
        cases hent
    · have hall := hfirst hread hp
      have hpending : Stage { t.shared with key } (.submit 0) := by
        rcases hs.settled hall with ⟨_, hrest⟩ | ⟨hconf, _⟩
        · exact ⟨hp, hrest⟩
        · rw [hp] at hconf
          cases hconf
      exact hs.set hjob (fun _ => .inr hall) hpending hothers nofun

theorem Sound.next {a : Action} (hs : Sound t) (hg : Guarded t a) (h : next t a = some t') :
    Sound t' := by
  cases a with
  | deliver connected =>
    obtain rfl := Option.some.inj h
    have hout := acquireLease_entered connected
    constructor
    case alone =>
      apply hs.alone.append
      simp [Job.Entered, hout]
    case stage =>
      exact forall_mem_append (P := fun j : Job => Stage t.shared j.pc) hs.stage
        (stage_of_outside hout)
    case settled =>
      intro hall
      exact hs.settled fun other hother => hall other (List.mem_append_left _ hother)
  | run w o =>
    obtain ⟨job, hjob, h⟩ := Option.bind_eq_some_iff.mp h
    obtain ⟨⟨s', pc'⟩, hstep, h⟩ := Option.bind_eq_some_iff.mp h
    obtain rfl := Option.some.inj h
    obtain ⟨hclean, hfirst⟩ := hg job hjob
    exact hs.run hjob hclean hfirst hstep
  | quit w =>
    obtain ⟨job, hjob, h⟩ := Option.bind_eq_some_iff.mp h
    obtain rfl := Option.some.inj h
    have hout := quit_entered job.pc
    apply hs.set hjob ?_ (stage_of_outside hout)
      (fun v other hother _ => hs.stage other (List.mem_of_getElem? hother))
    · intro _ hall
      cases hin : job.pc.entered with
      | true => exact settled_of_stage hin (hg job hjob) (hs.stage job (List.mem_of_getElem? hjob))
      | false => exact hs.settled (forall_mem_of_others hjob hin hall)
    · intro hent
      rw [hout] at hent
      cases hent
  | expire =>
    obtain rfl := Option.some.inj h
    exact ⟨hs.alone, hs.stage, hs.settled⟩

theorem sound_start : Sound start := by
  constructor
  case alone => exact atMostOneInside_nil
  case stage => simp [start]
  case settled => exact fun _ => .inl ⟨.inl rfl, rfl, rfl⟩

theorem Sound.atomic (hs : Sound t) : Atomic t.shared := by
  by_cases hall : ∀ job ∈ t.jobs, job.pc.entered = false
  · exact atomic_of_settled (hs.settled hall)
  · obtain ⟨job, hjob, hin⟩ : ∃ job ∈ t.jobs, job.pc.entered = true := by simpa using hall
    exact atomic_of_stage hin (hs.stage job hjob)

/-- The investor pays once at most, gets the tokens once at most, and the investment is FAILED only
    when neither happened and CONFIRMED only when both did. -/
theorem fund_job_atomic {xs : List (Step System Action)} (h : JobRun xs t)
    (hg : ∀ x ∈ xs, Guarded x.pre x.act) : Atomic t.shared :=
  (h.invariant Sound sound_start fun x hx hn hs => hs.next (hg x hx) hn).atomic

/-- The first delivery takes its lease and looks at the status. -/
def looked : List Action :=
  [.deliver true, .run 0 .ok, .run 0 .ok, .run 0 .ok]

/-- A delivery whose first submission fails, and whose second attempt goes through; the message is
    delivered once more afterwards. -/
def confirmedOnce : List Action :=
  looked ++ [.run 0 .fail, .run 0 .ok, .run 0 .ok, .run 0 .ok, .run 0 .ok, .run 0 .ok,
    .deliver true, .run 1 .ok]

theorem fund_job_atomic_sample :
    (replay next start confirmedOnce).2.shared.status = .confirmed ∧
      Atomic (replay next start confirmedOnce).2.shared := by
  have hrun : JobRun _ _ := run_replay next start confirmedOnce
  exact ⟨by decide +kernel, fund_job_atomic hrun (by decide +kernel)⟩

/-- The payment goes through, the decryption of the escrow's secret fails, and Stellar refuses the
    same payment in the two attempts that remain. -/
def unlucky : List Action :=
  looked ++ [.run 0 .ok, .run 0 .fail, .run 0 .ok, .run 0 .ok, .run 0 .ok]

theorem failed_with_payment : ∃ xs s, JobRun xs s ∧
    s.shared.status = .failed ∧ s.shared.payments = [signedXdr] ∧ ¬ Atomic s.shared := by
  have hrun : JobRun _ _ := run_replay next start unlucky
  have hfailed : (replay next start unlucky).2.shared.status = .failed := by decide +kernel
  have hpaid : (replay next start unlucky).2.shared.payments = [signedXdr] := by decide +kernel
  refine ⟨_, _, hrun, hfailed, hpaid, ?_⟩
  intro hatomic
  obtain ⟨hnone, _⟩ := hatomic.failed hfailed
  rw [hpaid] at hnone
  cases hnone

end AgriFi.Investments.FundJob
