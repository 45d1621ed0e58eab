import AgriFi.Sep24.Service
import AgriFi.Threads

/-
  What the callbacks of a SEP-24 transaction leave of it. A withdrawal without a destination is
  completed unverified, and a callback that has read the transaction before another one completed it
  writes over the completion (`unverified_and_reopened`). `terminal_kept`: a terminal status and what
  is recorded with it stay while it is saved when no other callback has read the transaction and is
  still to save it, and in every run a withdrawal with a destination is completed as verified.
-/

namespace AgriFi.Sep24

open AgriFi.Investments AgriFi.Runs AgriFi.Threads
open AgriFi.DealDelivered (Outcome)

variable {setup : Setup} {s s' : State} {sys sys' : System} {pc pc' : Pc} {threads : List Pc}
  {o : Outcome} {w : Nat} {tx row : Sep24Transaction} {payload : Sep24CallbackPayload}
  {status : Sep24TxStatus} {user : User}

/-! ## What is claimed -/

/-- The status, the amounts and the ids of the transaction elsewhere. -/
def Sep24Transaction.recorded (tx : Sep24Transaction) :
    Sep24TxStatus × Option String × Option String × Option String × Option String :=
  (tx.status, tx.amountIn, tx.amountOut, tx.externalTxId, tx.stellarTransactionId)

def TerminalKept (s : State) : Prop :=
  s.saved.Pairwise fun earlier later =>
    earlier.status.Terminal → later.recorded = earlier.recorded

instance : Decidable (TerminalKept s) := inferInstanceAs (Decidable (List.Pairwise _ s.saved))

/-- The destination was the user's wallet or an allowed institution when it was checked. -/
def Setup.Verified (setup : Setup) (s : State) (tx : Sep24Transaction) : Prop :=
  tx.destinationVerified = true ∧
    ∃ user ∈ s.found, some user.id = tx.userId ∧ setup.Owns tx user

/-- A withdrawal is saved as completed. -/
def Sep24Transaction.Withdrawn (tx : Sep24Transaction) : Prop :=
  tx.kind = .withdraw ∧ tx.status = .completed

def Setup.WithdrawalsVerified (setup : Setup) (s : State) : Prop :=
  ∀ tx ∈ s.saved, tx.Withdrawn → isSet tx.dest = true → setup.Verified s tx

/-! ## Overlapping callbacks -/

/-- The callback has read the transaction, and is still to save it. -/
def Pc.HasRead : Pc → Prop
  | .findUser _ _ _ | .save _ => True
  | _ => False

instance : (pc : Pc) → Decidable pc.HasRead
  | .findUser _ _ _ | .save _ => isTrue trivial
  | .findTransaction _ _ | .returned | .threw _ => isFalse id

/-- A terminal status is saved while no other callback has read the transaction and is still to
    save it. -/
def Pc.Alone (others : List Pc) (o : Outcome) : Pc → Prop
  | .save tx => o ≠ .fail → tx.status.Terminal → ∀ pc ∈ others, ¬ pc.HasRead
  | _ => True

instance (others : List Pc) : (pc : Pc) → Decidable (pc.Alone others o)
  | .save _ => inferInstanceAs (Decidable (_ → _ → ∀ pc ∈ others, _))
  | .findTransaction .. | .findUser .. | .returned | .threw _ => isTrue trivial

def Alone (sys : System) : Event → Prop
  | .run w o => ∀ pc ∈ sys.threads[w]?, pc.Alone (sys.threads.eraseIdx w) o
  | _ => True

instance : (e : Event) → Decidable (Alone sys e)
  | .run _ _ => inferInstanceAs (Decidable (∀ pc ∈ sys.threads[_]?, _))
  | .handleStatusCallback _ | .setUsers _ => isTrue trivial

/-! ## Withdrawals -/

/-- What a callback goes on to save is verified. -/
def Pc.Sound (setup : Setup) (s : State) : Pc → Prop
  | .findUser _ tx userId => tx.userId = some userId
  | .save tx => tx.Withdrawn → isSet tx.dest = true → setup.Verified s tx
  | _ => True

structure Verifying (setup : Setup) (sys : System) : Prop where
  saved : setup.WithdrawalsVerified sys.state
  sound : ∀ pc ∈ sys.threads, pc.Sound setup sys.state

theorem Setup.Verified.mono (h : setup.Verified s tx) (hfound : ∀ user ∈ s.found, user ∈ s'.found) :
    setup.Verified s' tx := by
  obtain ⟨hverified, user, huser, hid, howns⟩ := h
  exact ⟨hverified, user, hfound user huser, hid, howns⟩

theorem Pc.Sound.mono (h : pc.Sound setup s) (hfound : ∀ user ∈ s.found, user ∈ s'.found) :
    pc.Sound setup s' := by
  cases pc with
  | save tx => exact fun hwithdrawn hdest => (h hwithdrawn hdest).mono hfound
  | findUser => exact h
  | findTransaction | returned | threw => trivial

theorem sound_onOk (h : pc.Sound setup s) : (onOk o pc).Sound setup s := by
  unfold onOk
  split
  · exact h
  · trivial

theorem sound_verifyDestinationOwnership :
    (verifyDestinationOwnership payload tx).Sound setup s := by
  unfold verifyDestinationOwnership
  split
  case isTrue hskip =>
    intro _ hdest
    have hdest : isSet tx.dest = true := hdest
    exact absurd (hskip.symm.trans hdest) nofun
  case isFalse =>
    split
    · trivial
    · next userId huser =>
      split
      · trivial
      · exact huser

theorem sound_stepFindTransaction : (stepFindTransaction row payload status).Sound setup s := by
  unfold stepFindTransaction
  split
  · trivial
  · split
    · trivial
    · split
      case isTrue => exact sound_verifyDestinationOwnership
      case isFalse hother => exact fun hwithdrawn => absurd hwithdrawn hother

theorem sound_stepFindUser {userId : String} {found : Option User} (hid : tx.userId = some userId)
    (hfound : ∀ user ∈ found, user ∈ s.found ∧ user.id = userId) :
    (setup.stepFindUser payload tx found).Sound setup s := by
  unfold Setup.stepFindUser
  split
  case h_1 => trivial
  case h_2 user =>
    obtain ⟨huser, hsame⟩ := hfound user rfl
    split
    case isTrue howns => exact fun _ _ => ⟨rfl, user, huser, hsame ▸ hid.symm, howns⟩
    case isFalse => trivial

theorem Verifying.run (h : Verifying setup sys) (hw : sys.threads[w]? = some pc)
    (hstep : setup.step sys.state o pc = some (s', pc')) :
    Verifying setup ⟨s', sys.threads.set w pc'⟩ := by
  have hmine := h.sound pc (List.mem_of_getElem? hw)
  have hothers : ∀ {s' pc'}, (∀ user ∈ sys.state.found, user ∈ s'.found) →
      pc'.Sound setup s' → ∀ pc ∈ sys.threads.set w pc', pc.Sound setup s' :=
    fun hfound hsound => forall_mem_set
      (fun _ pc hv _ => (h.sound pc (List.mem_of_getElem? hv)).mono hfound) hsound
  cases pc with
  | findTransaction payload status =>
    obtain ⟨rfl, rfl⟩ := Prod.mk.inj (Option.some.inj hstep)
    exact ⟨h.saved, hothers (fun _ huser => huser) (sound_onOk sound_stepFindTransaction)⟩
  | findUser payload tx userId =>
    obtain ⟨rfl, rfl⟩ := Prod.mk.inj (Option.some.inj hstep)
    have hgrows : ∀ user ∈ sys.state.found, user ∈ (if o = .ok then
        sys.state.found ++ (sys.state.users.find? (·.id = userId)).toList
        else sys.state.found) := by
      intro user huser
      split
      · exact List.mem_append_left _ huser
      · exact huser
    refine ⟨fun tx htx hwithdrawn hdest => (h.saved tx htx hwithdrawn hdest).mono hgrows,
      hothers hgrows ?_⟩
    unfold onOk
    split
    case isFalse => trivial
    case isTrue =>
      refine sound_stepFindUser hmine fun user huser => ⟨?_, ?_⟩
      · exact List.mem_append_right _ (Option.mem_toList.mpr huser)
      · have hid := List.find?_some (p := fun user : User => decide (user.id = userId)) huser
        exact of_decide_eq_true hid
  | save tx =>
    obtain ⟨rfl, rfl⟩ := Prod.mk.inj (Option.some.inj hstep)
    have hsaved : Verifying setup ⟨sys.state.save tx, sys.threads.set w (onOk o .returned)⟩ :=
      ⟨forall_mem_append h.saved hmine, hothers (fun _ huser => huser) (sound_onOk trivial)⟩
    cases o with
    | fail => exact ⟨h.saved, hothers (fun _ huser => huser) (sound_onOk trivial)⟩
    | ok | lost => exact hsaved
  | returned | threw => cases hstep

theorem sound_handleStatusCallback : (handleStatusCallback payload).Sound setup s := by
  unfold handleStatusCallback
  split
  · trivial
  · split <;> trivial

theorem Verifying.next {e : Event} (h : Verifying setup sys)
    (hnext : setup.next sys e = some sys') : Verifying setup sys' := by
  cases e with
  | handleStatusCallback payload =>
    obtain rfl := Option.some.inj hnext
    exact ⟨h.saved, forall_mem_append h.sound sound_handleStatusCallback⟩
  | setUsers users =>
    obtain rfl := Option.some.inj hnext
    exact ⟨h.saved, fun pc hpc => (h.sound pc hpc).mono fun _ huser => huser⟩
  | run w o =>
    obtain ⟨pc, hw, hnext⟩ := Option.bind_eq_some_iff.mp hnext
    obtain ⟨⟨s', pc'⟩, hstep, hnext⟩ := Option.bind_eq_some_iff.mp hnext
    obtain rfl := Option.some.inj hnext
    exact h.run hw hstep

/-! ## Terminal statuses -/

/-- When a terminal status was saved the transaction is terminal, and no callback goes on to save
    it. -/
structure Closing (sys : System) : Prop where
  kept : TerminalKept sys.state
  terminal : ∀ tx ∈ sys.state.saved, tx.status.Terminal → sys.state.row.status.Terminal
  closed : sys.state.row.status.Terminal → ∀ pc ∈ sys.threads, ¬ pc.HasRead

theorem hasRead_onOk (h : ¬ pc.HasRead) : ¬ (onOk o pc).HasRead := by
  unfold onOk
  split
  · exact h
  · exact id

theorem Closing.save (h : Closing sys) (hw : sys.threads[w]? = some (.save tx))
    (halone : tx.status.Terminal → ∀ pc ∈ sys.threads.eraseIdx w, ¬ pc.HasRead)
    (hread : ¬ pc'.HasRead) : Closing ⟨sys.state.save tx, sys.threads.set w pc'⟩ := by
  have hopen : ∀ tx ∈ sys.state.saved, ¬ tx.status.Terminal := fun tx htx hterminal =>
    h.closed (h.terminal tx htx hterminal) _ (List.mem_of_getElem? hw) trivial
  constructor
  case kept =>
    refine List.pairwise_append.mpr ⟨h.kept, List.pairwise_singleton .., ?_⟩
    exact fun earlier hearlier _ _ hterminal => absurd hterminal (hopen earlier hearlier)
  case terminal =>
    refine forall_mem_append (fun tx htx hterminal => ?_) id
    exact absurd hterminal (hopen tx htx)
  case closed =>
    intro hterminal
    refine forall_mem_set (fun v pc hv hne => ?_) hread
    exact halone hterminal pc (List.mem_eraseIdx_iff_getElem?.mpr ⟨v, hne, hv⟩)

/-- A call goes on without a save, and has perhaps found a user. -/
theorem Closing.moves (h : Closing sys) (found : List User)
    (hread : sys.state.row.status.Terminal → ¬ pc'.HasRead) :
    Closing ⟨{ sys.state with found }, sys.threads.set w pc'⟩ :=
  ⟨h.kept, h.terminal, fun hterminal => forall_mem_set
    (fun _ pc hv _ => h.closed hterminal pc (List.mem_of_getElem? hv)) (hread hterminal)⟩

theorem not_hasRead_stepFindTransaction (h : row.status.Terminal) :
    ¬ (stepFindTransaction row payload status).HasRead := by
  unfold stepFindTransaction
  split
  · exact id
  · exact id

theorem Closing.run (h : Closing sys) (hw : sys.threads[w]? = some pc)
    (halone : pc.Alone (sys.threads.eraseIdx w) o)
    (hstep : setup.step sys.state o pc = some (s', pc')) :
    Closing ⟨s', sys.threads.set w pc'⟩ := by
  have hmine : sys.state.row.status.Terminal → ¬ pc.HasRead := fun hterminal =>
    h.closed hterminal pc (List.mem_of_getElem? hw)
  cases pc with
  | findTransaction payload status =>
    obtain ⟨rfl, rfl⟩ := Prod.mk.inj (Option.some.inj hstep)
    exact h.moves _ fun hterminal => hasRead_onOk (not_hasRead_stepFindTransaction hterminal)
  | findUser payload tx userId =>
    obtain ⟨rfl, rfl⟩ := Prod.mk.inj (Option.some.inj hstep)
    exact h.moves _ fun hterminal => absurd trivial (hmine hterminal)
  | save tx =>
    obtain ⟨rfl, rfl⟩ := Prod.mk.inj (Option.some.inj hstep)
    cases o with
    | fail => exact h.moves _ fun _ => hasRead_onOk id
    | ok | lost => exact h.save hw (halone nofun) (hasRead_onOk id)
  | returned | threw => cases hstep

theorem not_hasRead_handleStatusCallback : ¬ (handleStatusCallback payload).HasRead := by
  unfold handleStatusCallback
  split
  · exact id
  · split <;> exact id

theorem Closing.next {e : Event} (h : Closing sys) (halone : Alone sys e)
    (hnext : setup.next sys e = some sys') : Closing sys' := by
  cases e with
  | handleStatusCallback payload =>
    obtain rfl := Option.some.inj hnext
    exact ⟨h.kept, h.terminal, fun hterminal =>
      forall_mem_append (h.closed hterminal) not_hasRead_handleStatusCallback⟩
  | setUsers users =>
    obtain rfl := Option.some.inj hnext
    exact ⟨h.kept, h.terminal, h.closed⟩
  | run w o =>
    obtain ⟨pc, hw, hnext⟩ := Option.bind_eq_some_iff.mp hnext
    obtain ⟨⟨s', pc'⟩, hstep, hnext⟩ := Option.bind_eq_some_iff.mp hnext
    obtain rfl := Option.some.inj hnext
    exact h.run hw (halone pc hw) hstep

theorem terminal_kept (setup : Setup) (id : String) (kind : Sep24TxKind)
    (req : Sep24InteractiveRequest) (userId : Option String) (xs : List (Step System Event))
    (sys : System) (hrun : CallbackRun setup (.initiated id kind req userId) xs sys) :
    setup.WithdrawalsVerified sys.state ∧
      ((∀ x ∈ xs, Alone x.pre x.act) → TerminalKept sys.state) := by
  have hstart : ∀ tx ∈ (start (.initiated id kind req userId)).state.saved,
      tx.status = .pendingAnchor := by
    intro tx htx
    rw [List.mem_singleton.mp htx]
    rfl
  constructor
  · refine (hrun.invariant (Verifying setup) ⟨fun tx htx hwithdrawn => ?_, ?_⟩
      fun x _ hnext hinv => hinv.next hnext).saved
    · exact absurd (hwithdrawn.2.symm.trans (hstart tx htx)) nofun
    · exact fun pc hpc => absurd hpc List.not_mem_nil
  · intro halone
    refine (hrun.invariant Closing ⟨List.pairwise_singleton .., fun tx htx hterminal => ?_, ?_⟩
      fun x hx hnext hinv => hinv.next (halone x hx) hnext).kept
    · rw [hstart tx htx] at hterminal
      exact absurd hterminal (by decide)
    · exact fun _ pc hpc => absurd hpc List.not_mem_nil

/-! ## A withdrawal to a bank -/

def anchor : Setup where
  allowedInstitutionAddrs := "GBANK,GEXCHANGE"
  trim text := text

def users : List User := [⟨"user-1", some "GUSER"⟩]

def toBank : Sep24InteractiveRequest := ⟨some "100", some "GBANK"⟩

def pending : Sep24CallbackPayload :=
  ⟨"tx-1", "pending_stellar", none, some "100", none, none, none⟩

def completion : Sep24CallbackPayload :=
  ⟨"tx-1", "completed", some "Withdrawal completed", none, some "99", some "bank-ref-001",
    some "stellar-tx-hash"⟩

/-- The withdrawal goes on and is completed, and the completion is delivered again. -/
def callbacks : List Event :=
  [.setUsers users, .handleStatusCallback pending, .run 0 .ok, .run 0 .ok,
    .handleStatusCallback completion, .run 1 .ok, .run 1 .ok, .run 1 .ok,
    .handleStatusCallback completion, .run 2 .ok]

/-- The transaction is initiated by the user. -/
def initiated (req : Sep24InteractiveRequest) : System :=
  start (.initiated "tx-1" .withdraw req (some "user-1"))

theorem terminal_kept_bank :
    (replay anchor.next (initiated toBank) callbacks).2.state.row.status = .completed ∧
      (replay anchor.next (initiated toBank) callbacks).2.state.row.destinationVerified = true ∧
      anchor.WithdrawalsVerified (replay anchor.next (initiated toBank) callbacks).2.state ∧
      TerminalKept (replay anchor.next (initiated toBank) callbacks).2.state := by
  have hrun := run_replay anchor.next (initiated toBank) callbacks
  obtain ⟨hverified, hkept⟩ := terminal_kept anchor "tx-1" .withdraw toBank (some "user-1") _ _ hrun
  exact ⟨by decide +kernel, by decide +kernel, hverified, hkept (by decide +kernel)⟩

/-- A request without a destination. -/
def toNowhere : Sep24InteractiveRequest := ⟨some "100", none⟩

def completed : List Event := [.handleStatusCallback completion, .run 0 .ok, .run 0 .ok]

/-- A callback reads the transaction, which is then completed, and saves it. -/
def overlapping : List Event :=
  [.setUsers users, .handleStatusCallback pending, .run 0 .ok, .handleStatusCallback completion,
    .run 1 .ok, .run 1 .ok, .run 1 .ok, .run 0 .ok]

theorem unverified_and_reopened :
    (¬ ∀ (setup : Setup) (id : String) (kind : Sep24TxKind) (req : Sep24InteractiveRequest)
        (userId : Option String) (xs : List (Step System Event)) (sys : System),
      CallbackRun setup (.initiated id kind req userId) xs sys →
        ∀ tx ∈ sys.state.saved, tx.Withdrawn → setup.Verified sys.state tx) ∧
    ¬ ∀ (setup : Setup) (id : String) (kind : Sep24TxKind) (req : Sep24InteractiveRequest)
        (userId : Option String) (xs : List (Step System Event)) (sys : System),
      CallbackRun setup (.initiated id kind req userId) xs sys → TerminalKept sys.state := by
  constructor
  · intro h
    have hrun := run_replay anchor.next (initiated toNowhere) completed
    have hverified := h anchor "tx-1" .withdraw toNowhere (some "user-1") _ _ hrun
      (replay anchor.next (initiated toNowhere) completed).2.state.row (by decide +kernel)
      ⟨by decide +kernel, by decide +kernel⟩
    have hflag := hverified.1
    revert hflag
    decide +kernel
  · intro h
    have hrun := run_replay anchor.next (initiated toBank) overlapping
    have hkept := h anchor "tx-1" .withdraw toBank (some "user-1") _ _ hrun
    revert hkept
    decide +kernel

end AgriFi.Sep24
