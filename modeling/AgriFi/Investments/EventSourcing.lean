import AgriFi.Investments.Service

/-
  The events of one investment beside its row: `InvestmentEventStore`
  (`src/investments/investment-event-store.service.ts`) and the operations that write the status
  (`src/investments/investments.service.ts`, `src/queue/queue.processor.ts`), one after the other.
  Each writes the row and then appends its event. `confirmInvestment` writes CONFIRMED and appends
  the event that replays to ACTIVE, and the `investment.fund` job appends none, so replaying the
  events of a confirmed investment gives another status (`replay_differs`), and
  `reconcileStateFromEvents` writes that. `history_agrees_iff`: row and events agree after every
  operation of a history exactly when neither of the two takes effect in it, and no operation that
  changes the status loses its event.
-/

namespace AgriFi.Investments.EventSourcing

open AgriFi.Runs

/-! ## Events -/

inductive InvestmentEventType where
  | created
  | activated
  | releaseStarted
  | completed
  | cancelledByUser
  | refunded
  | failedEscrow
  deriving DecidableEq, Repr

structure StateProjection where
  status : InvestmentStatus
  eventCount : Nat
  deriving DecidableEq, Repr

/-- The arm of the `switch` for one event. -/
def InvestmentEventType.status : InvestmentEventType → InvestmentStatus
  | .created => .pending
  | .activated => .active
  | .releaseStarted => .releasing
  | .completed => .completed
  | .cancelledByUser => .cancelled
  | .refunded => .refunded
  | .failedEscrow => .failed

/-- The loop of `rebuildStateFromEvents`. -/
def statusOf (events : List InvestmentEventType) : InvestmentStatus :=
  events.foldl (fun _ event => event.status) .pending

/-- Without events it throws. -/
def rebuildStateFromEvents (events : List InvestmentEventType) : Option StateProjection :=
  if events = [] then none else some ⟨statusOf events, events.length⟩

/-! ## Operations -/

/-- The row's columns, its events in the order of `occurredAt`, the hours of the cooling-off window
    and the time. -/
structure State where
  investorId : Nat
  createdAt : Nat
  status : InvestmentStatus
  events : List InvestmentEventType
  coolingOffHours : Nat
  now : Nat
  deriving DecidableEq, Repr

/-- A status is written, and then the event is appended, unless that fails. -/
def record (s : State) (status : InvestmentStatus) (eventType : InvestmentEventType)
    (appended : Bool) : State :=
  { s with status, events := if appended then s.events ++ [eventType] else s.events }

/-- What `confirmInvestment` asks of the row. -/
def State.isConfirmable (s : State) (investorId : Nat) (stellarTxId : List Char) : Bool :=
  isStellarTxHash stellarTxId ∧ s.investorId = investorId ∧ s.status = .pending

/-- What `requestCoolingOffCancel` asks of the row. -/
def State.isCancellable (s : State) (investorId : Nat) : Bool :=
  s.investorId = investorId ∧ s.status = .pending ∧
    ¬ s.createdAt + s.coolingOffHours * 3600000 < s.now

/-- The new row is saved; its event follows unless the transaction cannot be built or the append
    fails. -/
def createInvestment (investorId coolingOffHours now : Nat) (appended : Bool) : State :=
  ⟨investorId, now, .pending, if appended then [.created] else [], coolingOffHours, now⟩

def confirmInvestment (s : State) (investorId : Nat) (stellarTxId : List Char) (appended : Bool) :
    State :=
  if s.isConfirmable investorId stellarTxId then record s .confirmed .activated appended else s

/-- The queued job, by the status that it ends with. -/
def processInvestmentFund (s : State) (funded : Bool) : State :=
  if s.status = .pending then { s with status := if funded then .confirmed else .failed } else s

def markInvestmentFailed (s : State) (appended : Bool) : State :=
  record s .failed .failedEscrow appended

def startRelease (s : State) (appended : Bool) : State :=
  record s .releasing .releaseStarted appended

def completeInvestment (s : State) (appended : Bool) : State :=
  record s .completed .completed appended

def cancelInvestment (s : State) (appended : Bool) : State :=
  record s .cancelled .cancelledByUser appended

def requestCoolingOffCancel (s : State) (investorId : Nat) (appended : Bool) : State :=
  if s.isCancellable investorId then record s .cancelled .cancelledByUser appended else s

def refundInvestment (s : State) (appended : Bool) : State := record s .refunded .refunded appended

def reconcileStateFromEvents (s : State) : Option State :=
  (rebuildStateFromEvents s.events).map fun projection => { s with status := projection.status }

/-! ## Histories -/

/-- An operation; `appended` says whether its event gets into the store. -/
inductive Action where
  | confirmInvestment (investorId : Nat) (stellarTxId : List Char) (appended : Bool)
  | processInvestmentFund (funded : Bool)
  | markInvestmentFailed (appended : Bool)
  | startRelease (appended : Bool)
  | completeInvestment (appended : Bool)
  | cancelInvestment (appended : Bool)
  | requestCoolingOffCancel (investorId : Nat) (appended : Bool)
  | refundInvestment (appended : Bool)
  | reconcileStateFromEvents
  | wait (ms : Nat)

def next (s : State) : Action → Option State
  | .confirmInvestment investorId stellarTxId appended =>
    some (confirmInvestment s investorId stellarTxId appended)
  | .processInvestmentFund funded => some (processInvestmentFund s funded)
  | .markInvestmentFailed appended => some (markInvestmentFailed s appended)
  | .startRelease appended => some (startRelease s appended)
  | .completeInvestment appended => some (completeInvestment s appended)
  | .cancelInvestment appended => some (cancelInvestment s appended)
  | .requestCoolingOffCancel investorId appended =>
    some (requestCoolingOffCancel s investorId appended)
  | .refundInvestment appended => some (refundInvestment s appended)
  | .reconcileStateFromEvents => reconcileStateFromEvents s
  | .wait ms => some { s with now := s.now + ms }

abbrev History (s : State) (xs : List (Step State Action)) (t : State) : Prop := Run next s xs t

/-! ## Agreement -/

variable {s s' t : State} {a : Action}

/-- The events replay to the row's status, and reconciling changes nothing. -/
def Agrees (s : State) : Prop :=
  (rebuildStateFromEvents s.events).map StateProjection.status = some s.status ∧
    reconcileStateFromEvents s = some s

instance (s : State) : Decidable (Agrees s) := inferInstanceAs (Decidable (_ ∧ _))

/-- The operation is refused, or it keeps row and events together: it appends the event of the
    status that it writes, or writes the status that the row has. -/
def Recorded (s : State) : Action → Prop
  | .confirmInvestment investorId stellarTxId _ => s.isConfirmable investorId stellarTxId = false
  | .processInvestmentFund _ => s.status ≠ .pending
  | .markInvestmentFailed appended => appended = true ∨ s.status = .failed
  | .startRelease appended => appended = true ∨ s.status = .releasing
  | .completeInvestment appended => appended = true ∨ s.status = .completed
  | .cancelInvestment appended => appended = true ∨ s.status = .cancelled
  | .requestCoolingOffCancel investorId appended =>
    appended = true ∨ s.isCancellable investorId = false
  | .refundInvestment appended => appended = true ∨ s.status = .refunded
  | .reconcileStateFromEvents | .wait _ => True

instance (s : State) : ∀ a : Action, Decidable (Recorded s a)
  | .confirmInvestment _ _ _ => inferInstanceAs (Decidable (_ = _))
  | .processInvestmentFund _ => inferInstanceAs (Decidable (_ ≠ _))
  | .markInvestmentFailed _ | .startRelease _ | .completeInvestment _ | .cancelInvestment _
  | .requestCoolingOffCancel _ _ | .refundInvestment _ => inferInstanceAs (Decidable (_ ∨ _))
  | .reconcileStateFromEvents | .wait _ => isTrue trivial

theorem statusOf_append (events : List InvestmentEventType) (event : InvestmentEventType) :
    statusOf (events ++ [event]) = event.status := by
  unfold statusOf
  rw [List.foldl_append]
  rfl

theorem agrees_iff : Agrees s ↔ s.events ≠ [] ∧ statusOf s.events = s.status := by
  unfold Agrees reconcileStateFromEvents rebuildStateFromEvents
  by_cases hnil : s.events = []
  · simp [hnil]
  · simp only [hnil, if_false, Option.map_some, Option.some.injEq, ne_eq, not_false_eq_true,
      true_and]
    constructor
    · exact And.left
    · intro h
      refine ⟨h, ?_⟩
      rw [h]

/-- An operation that writes a status and appends an event keeps the agreement exactly when the
    event replays to the status, or is lost and the status is the one there was. -/
theorem agrees_record (hs : Agrees s) (status : InvestmentStatus) (eventType : InvestmentEventType)
    (appended : Bool) : Agrees (record s status eventType appended) ↔
      if appended then eventType.status = status else s.status = status := by
  obtain ⟨hnil, hstatus⟩ := agrees_iff.mp hs
  rw [agrees_iff]
  cases appended with
  | true =>
    show s.events ++ [eventType] ≠ [] ∧ statusOf (s.events ++ [eventType]) = status ↔ _
    simp [statusOf_append]
  | false =>
    show s.events ≠ [] ∧ statusOf s.events = status ↔ _
    simp [hnil, hstatus]

/-- The same for an operation whose event is the one of its status. -/
theorem agrees_matched (hs : Agrees s) (eventType : InvestmentEventType) (appended : Bool) :
    Agrees (record s eventType.status eventType appended) ↔
      appended = true ∨ s.status = eventType.status := by
  rw [agrees_record hs]
  cases appended <;> simp

theorem agrees_next_iff (hs : Agrees s) (h : next s a = some s') :
    Agrees s' ↔ Recorded s a := by
  cases a with
  | confirmInvestment investorId stellarTxId appended =>
    obtain rfl := Option.some.inj h
    show Agrees (confirmInvestment s investorId stellarTxId appended) ↔
      s.isConfirmable investorId stellarTxId = false
    unfold confirmInvestment
    split
    · next hc =>
      have hpending : s.status = .pending := by
        have hall := of_decide_eq_true hc
        exact hall.2.2
      rw [agrees_record hs, hpending, hc]
      cases appended <;> simp [InvestmentEventType.status]
    · next hc => simp [hs, hc]
  | processInvestmentFund funded =>
    obtain rfl := Option.some.inj h
    show Agrees (processInvestmentFund s funded) ↔ s.status ≠ .pending
    unfold processInvestmentFund
    obtain ⟨_, hstatus⟩ := agrees_iff.mp hs
    split
    · next hp =>
      rw [agrees_iff]
      have hreplay : statusOf s.events = .pending := hstatus.trans hp
      cases funded <;> simp [hp, hreplay]
    · next hp => simp [hs, hp]
  | markInvestmentFailed appended =>
    obtain rfl := Option.some.inj h
    exact agrees_matched hs .failedEscrow appended
  | startRelease appended =>
    obtain rfl := Option.some.inj h
    exact agrees_matched hs .releaseStarted appended
  | completeInvestment appended =>
    obtain rfl := Option.some.inj h
    exact agrees_matched hs .completed appended
  | cancelInvestment appended =>
    obtain rfl := Option.some.inj h
    exact agrees_matched hs .cancelledByUser appended
  | requestCoolingOffCancel investorId appended =>
    obtain rfl := Option.some.inj h
    show Agrees (requestCoolingOffCancel s investorId appended) ↔
      appended = true ∨ s.isCancellable investorId = false
    unfold requestCoolingOffCancel
    split
    · next hc =>
      have hpending : s.status = .pending := (of_decide_eq_true hc).2.1
      rw [agrees_record hs, hpending, hc]
      cases appended <;> simp [InvestmentEventType.status]
    · next hc => simp [hs, hc]
  | refundInvestment appended =>
    obtain rfl := Option.some.inj h
    exact agrees_matched hs .refunded appended
  | reconcileStateFromEvents =>
    obtain rfl : s = s' := Option.some.inj (hs.2.symm.trans h)
    exact iff_of_true hs trivial
  | wait ms =>
    obtain rfl := Option.some.inj h
    obtain ⟨hnil, hstatus⟩ := agrees_iff.mp hs
    exact iff_of_true (agrees_iff.mpr ⟨hnil, hstatus⟩) trivial

theorem agrees_run_iff {xs : List (Step State Action)} (h : History s xs t) (hs : Agrees s) :
    (∀ x ∈ xs, Agrees x.post) ↔ ∀ x ∈ xs, Recorded x.pre x.act := by
  induction h with
  | nil => simp
  | cons hx _ ih =>
    rw [List.forall_mem_cons, List.forall_mem_cons]
    have hfirst := agrees_next_iff hs hx
    constructor
    · rintro ⟨hagrees, hrest⟩
      exact ⟨hfirst.mp hagrees, (ih hagrees).mp hrest⟩
    · rintro ⟨hrec, hrest⟩
      have hagrees := hfirst.mpr hrec
      exact ⟨hagrees, (ih hagrees).mpr hrest⟩

theorem agrees_created_iff (investorId coolingOffHours now : Nat) (appended : Bool) :
    Agrees (createInvestment investorId coolingOffHours now appended) ↔ appended = true := by
  cases appended with
  | true => exact iff_of_true (agrees_iff.mpr ⟨List.cons_ne_nil _ _, rfl⟩) rfl
  | false =>
    refine iff_of_false ?_ nofun
    rw [agrees_iff]
    exact fun h => h.1 rfl

/-- From the creation on, row and events agree after every operation exactly when each one that
    takes effect records what it writes. -/
theorem history_agrees_iff {investorId coolingOffHours now : Nat} {appended : Bool}
    {xs : List (Step State Action)}
    (h : History (createInvestment investorId coolingOffHours now appended) xs t) :
    (Agrees (createInvestment investorId coolingOffHours now appended) ∧
        ∀ x ∈ xs, Agrees x.post) ↔
      appended = true ∧ ∀ x ∈ xs, Recorded x.pre x.act := by
  have hcreated := agrees_created_iff investorId coolingOffHours now appended
  constructor
  · rintro ⟨hs, hall⟩
    exact ⟨hcreated.mp hs, (agrees_run_iff h hs).mp hall⟩
  · rintro ⟨happ, hall⟩
    have hs := hcreated.mpr happ
    exact ⟨hs, (agrees_run_iff h hs).mpr hall⟩

def sampleHash : List Char := List.replicate 64 'a'

/-- A release that completes; a confirmation by somebody else is refused in between. -/
def released : List Action :=
  [.confirmInvestment 2 sampleHash true, .startRelease true, .completeInvestment true]

theorem history_agrees_iff_sample :
    (replay next (createInvestment 1 24 0 true) released).2.status = .completed ∧
      ∀ x ∈ (replay next (createInvestment 1 24 0 true) released).1, Agrees x.post := by
  have hrun : History (createInvestment 1 24 0 true) _ _ := run_replay next _ released
  exact ⟨by decide +kernel, ((history_agrees_iff hrun).mpr ⟨rfl, by decide +kernel⟩).2⟩

/-- A confirmed investment replays to ACTIVE, one that the job has confirmed to PENDING. -/
theorem replay_differs :
    (∃ xs s, History (createInvestment 1 24 0 true) xs s ∧ s.status = .confirmed ∧
      rebuildStateFromEvents s.events = some ⟨.active, 2⟩ ∧ ¬ Agrees s) ∧
    ∃ xs s, History (createInvestment 1 24 0 true) xs s ∧ s.status = .confirmed ∧
      rebuildStateFromEvents s.events = some ⟨.pending, 1⟩ ∧ ¬ Agrees s := by
  have hcall : History (createInvestment 1 24 0 true) _ _ :=
    run_replay next _ [.confirmInvestment 1 sampleHash true]
  have hjob : History (createInvestment 1 24 0 true) _ _ :=
    run_replay next _ [.processInvestmentFund true]
  constructor
  · exact ⟨_, _, hcall, by decide +kernel, by decide +kernel, by decide +kernel⟩
  · exact ⟨_, _, hjob, by decide +kernel, by decide +kernel, by decide +kernel⟩

end AgriFi.Investments.EventSourcing
