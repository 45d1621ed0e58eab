import AgriFi.Runs
import Mathlib.Data.List.Basic

/-
  `src/aml/regulatory-reporting.service.ts`: `submit`, `retry`, `markAcknowledged` and
  `dueForRetry`, with `retryPendingSubmissions` of `aml-monitoring-cron.service.ts`, over the
  submissions of one report. A thread is a call of one of them; each query and each request to the
  authority is a step, and any of them may throw.
-/

namespace AgriFi.RegulatoryReporting

open AgriFi.Runs

inductive SarStatus where
  | draft
  | reviewed
  | submitted
  | acknowledged
  deriving DecidableEq

inductive SubmissionStatus where
  | pending
  | accepted
  | rejected
  | failed
  deriving DecidableEq

inductive Channel where
  | api
  | manualSecurePortal
  deriving DecidableEq

structure AmlSarReport where
  status : SarStatus
  filedAt : Option Int
  deriving DecidableEq

structure AmlRegulatorySubmission where
  channel : Channel
  status : SubmissionStatus
  attempt : Nat
  authorityReference : Option String
  submittedAt : Option Int
  deriving DecidableEq

def AmlRegulatorySubmission.created (channel : Channel) : AmlRegulatorySubmission :=
  ⟨channel, .pending, 1, none, none⟩

/-- `pending` or `failed`, which `dueForRetry` looks for. -/
def AmlRegulatorySubmission.isOutstanding (submission : AmlRegulatorySubmission) : Bool :=
  submission.status = .pending || submission.status = .failed

/-! ## The tables -/

/-- The report and its submissions in the order of `createdAt`; the place of a submission is its
    id. The history: which submissions the authority took, for which of them the report was not
    told so, whether the report was ever filed, and what each retry pass left outstanding. -/
structure State where
  report : AmlSarReport
  submissions : List AmlRegulatorySubmission
  taken : List Nat
  untold : List Nat
  filed : Bool
  leftover : List (List Nat)
  deriving DecidableEq

def SarStatus.isFiled (status : SarStatus) : Bool := status = .submitted || status = .acknowledged

namespace State

def outstanding (s : State) : List Nat :=
  (List.range s.submissions.length).filter fun id => s.submissions[id]?.any (·.isOutstanding)

def insert (s : State) (submission : AmlRegulatorySubmission) : State :=
  { s with submissions := s.submissions ++ [submission] }

def save (s : State) (id : Nat) (submission : AmlRegulatorySubmission) : State :=
  { s with submissions := s.submissions.set id submission }

/-- The update of `retry`; the attempt is counted from the row that was read. -/
def markFailed (s : State) (id attempt : Nat) : State :=
  { s with submissions := s.submissions.modify id fun row =>
      { row with status := .failed, attempt := attempt + 1 } }

def setReport (s : State) (status : SarStatus) (filedAt : Option Int) : State :=
  { s with report := ⟨status, filedAt⟩, filed := s.filed || status.isFiled }

/-- The authority takes the submission. -/
def take (s : State) (id : Nat) : State := { s with taken := s.taken ++ [id] }

/-- The acceptance of the submission is lost. -/
def lose (s : State) (id : Nat) : State := { s with untold := s.untold ++ [id] }

end State

/-! ## Threads -/

/-- What the authority does with a request: a 2xx with its reference, a 4xx, or no such answer
    within the time, whether it took the submission or not. -/
inductive Answer where
  | accepted (reference : Option String)
  | rejected
  | timedOut (taken : Bool)
  deriving DecidableEq

/-- What a step finds: the time, whether the transport is enabled with an endpoint and a key,
    whether the query throws, the answer of the authority. -/
structure Input where
  now : Int
  configured : Bool
  throws : Bool
  answer : Answer
  deriving DecidableEq

/-- The query or request that a thread sends next. The filing of a retry knows which submission it
    retries. -/
inductive Pc where
  | submit (manualFiling : Bool) (retried : Option Nat)
  | create (channel : Channel) (retried : Option Nat)
  | post (id : Nat) (submission : AmlRegulatorySubmission) (retried : Option Nat)
  | saveAccepted (id : Nat) (submission : AmlRegulatorySubmission) (reference : Option String)
    (retried : Option Nat)
  | file (id : Nat) (submission : AmlRegulatorySubmission) (retried : Option Nat)
  | audit (id : Nat) (submission : AmlRegulatorySubmission) (retried : Option Nat)
  | saveRefused (id : Nat) (submission : AmlRegulatorySubmission) (status : SubmissionStatus)
    (retried : Option Nat)
  | retry (id : Nat)
  | findReport (id : Nat) (previous : AmlRegulatorySubmission)
  | markFailed (id : Nat) (previous : AmlRegulatorySubmission) (status : SarStatus)
  | reopen (id : Nat)
  | markAcknowledged (id : Nat) (reference : Option String)
  | saveAcknowledged (id : Nat) (submission : AmlRegulatorySubmission)
    (reference : Option String)
  | acknowledge (submittedAt : Option Int)
  | done
  deriving DecidableEq

/-- The channel of a filing. -/
def channelOf (configured manualFiling : Bool) : Channel :=
  if manualFiling || !configured then .manualSecurePortal else .api

/-- A step of a thread that does not throw. -/
def proceed (s : State) (now : Int) (configured : Bool) (answer : Answer) : Pc → State × Pc
  | .submit manualFiling retried =>
    if s.report.status = .reviewed then (s, .create (channelOf configured manualFiling) retried)
    else (s, .done)
  | .create .manualSecurePortal _ => (s.insert (.created .manualSecurePortal), .done)
  | .create .api retried =>
    (s.insert (.created .api), .post s.submissions.length (.created .api) retried)
  | .post id submission retried =>
    match answer with
    | .accepted reference => (s.take id, .saveAccepted id submission reference retried)
    | .rejected => (s, .saveRefused id submission .rejected retried)
    | .timedOut true => ((s.take id).lose id, .saveRefused id submission .failed retried)
    | .timedOut false => (s, .saveRefused id submission .failed retried)
  | .saveAccepted id submission reference retried =>
    let accepted := { submission with
      status := .accepted, authorityReference := reference, submittedAt := some now }
    (s.save id accepted, .file id accepted retried)
  | .file id submission retried => (s.setReport .submitted (some now), .audit id submission retried)
  | .audit _ _ _ => (s, .done)
  | .saveRefused id submission status _ => (s.save id { submission with status }, .done)
  | .retry id =>
    match s.submissions[id]? with
    | none => (s, .done)
    | some previous =>
      if previous.status = .accepted then (s, .done) else (s, .findReport id previous)
  | .findReport id previous => (s, .markFailed id previous s.report.status)
  | .markFailed id previous status =>
    (s.markFailed id previous.attempt,
      if status = .submitted then .reopen id else .submit false (some id))
  | .reopen id => (s.setReport .reviewed none, .submit false (some id))
  | .markAcknowledged id reference =>
    match s.submissions[id]? with
    | none => (s, .done)
    | some submission => (s, .saveAcknowledged id submission reference)
  | .saveAcknowledged id submission reference =>
    let saved := { submission with
      status := .accepted
      authorityReference := reference.or submission.authorityReference
      submittedAt := some (submission.submittedAt.getD now) }
    (s.save id saved, .acknowledge saved.submittedAt)
  | .acknowledge submittedAt => (s.setReport .acknowledged (submittedAt.or (some now)), .done)
  | .done => (s, .done)

/-- A step of a thread that throws; only the request and what follows it are in a `try`. -/
def throw (s : State) : Pc → State × Pc
  | .post id submission retried => (s, .saveRefused id submission .failed retried)
  | .saveAccepted id submission _ retried =>
    (s.lose id, .saveRefused id submission .failed retried)
  | .file id submission retried => (s.lose id, .saveRefused id submission .failed retried)
  | .audit id submission retried => (s, .saveRefused id submission .failed retried)
  | _ => (s, .done)

def stepPc (s : State) (input : Input) (pc : Pc) : State × Pc :=
  if input.throws then throw s pc else proceed s input.now input.configured input.answer pc

/-- A call. A retry pass knows which submissions it has yet to come to. -/
structure Thread where
  pc : Pc
  queue : Option (List Nat)
  deriving DecidableEq

structure System where
  state : State
  threads : List Thread
  deriving DecidableEq

inductive Action where
  | submit (manualFiling : Bool)
  | retry (id : Nat)
  | markAcknowledged (id : Nat) (reference : Option String)
  /-- Of the twenty submissions that the pass finds due, `room` are left to this report. -/
  | retryPendingSubmissions (room : Nat)
  | run (w : Nat) (input : Input)
  deriving DecidableEq

def start (status : SarStatus) : System where
  state := {
    report := ⟨status, none⟩
    submissions := []
    taken := []
    untold := []
    filed := status.isFiled
    leftover := [] }
  threads := []

namespace System

def call (s : System) (pc : Pc) (queue : Option (List Nat)) : System :=
  { s with threads := s.threads ++ [⟨pc, queue⟩] }

/-- What `dueForRetry` finds, of which the pass takes those that went through the API. -/
def due (s : System) (room : Nat) : List Nat :=
  (s.state.outstanding.take (min room 20)).filter fun id =>
    s.state.submissions[id]?.any (·.channel = .api)

/-- A retry pass goes on to its next submission, or ends. -/
def advance (s : System) (w : Nat) : Option (List Nat) → Option System
  | some (id :: queue) => some { s with threads := s.threads.set w ⟨.retry id, some queue⟩ }
  | some [] => some {
      state := { s.state with leftover := s.state.leftover ++ [s.state.outstanding] }
      threads := s.threads.set w ⟨.done, none⟩ }
  | none => none

end System

def next (s : System) : Action → Option System
  | .submit manualFiling => some (s.call (.submit manualFiling none) none)
  | .retry id => some (s.call (.retry id) none)
  | .markAcknowledged id reference => some (s.call (.markAcknowledged id reference) none)
  | .retryPendingSubmissions room => some (s.call .done (some (s.due room)))
  | .run w input => do
    let thread ← s.threads[w]?
    if thread.pc = .done then s.advance w thread.queue
    else
      let (state, pc) := stepPc s.state input thread.pc
      some { state, threads := s.threads.set w ⟨pc, thread.queue⟩ }

abbrev FilingRun (status : SarStatus) (xs : List (Step System Action)) (s : System) : Prop :=
  Run next (start status) xs s

end AgriFi.RegulatoryReporting
