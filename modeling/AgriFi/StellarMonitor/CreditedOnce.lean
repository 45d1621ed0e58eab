import AgriFi.StellarMonitor.Service
import Mathlib.Data.List.Nodup

/-
  What becomes of the payments to the platform's account. The cursor moves before a payment is
  handled and nothing brings it back, so a query that fails loses the payment (`payment_lost`); a
  memo whose parts are no uuids, and a stream that is opened at `now` again, lose one too. Payments
  are told apart by the hash of their transaction, and neither the asset nor the amount is compared
  with the investment. `payments_accounted`: while one transaction makes one payment, no query of a
  handling fails, and what is credited is the amount in USDC, each payment that the cursor has
  passed is credited once or recorded.
-/

namespace AgriFi.StellarMonitor

open AgriFi.Rows AgriFi.Runs AgriFi.Threads
open AgriFi.DealDelivered (Outcome)

variable {setup : Setup} {usdcIssuer : String} {s s' : State} {sys sys' : System} {o : Outcome}
  {n k m left w : Nat} {payment operation : Operation} {pc pc' : Pc} {t t' : Thread}
  {cursor : String}

/-! ## What is claimed -/

/-- The payment at place `n` has brought something about. -/
def State.Settled (s : State) (n : Nat) : Prop :=
  (∃ id, (n, id) ∈ s.credits) ∨ n ∈ s.recorded

def Thread.Handles (n : Nat) : Thread → Prop
  | .handler m _ | .handling m _ _ => m = n
  | .requested _ | .loop _ _ | .finished => False

/-- An amount in USDC. -/
def UsdcOf (usdcIssuer : String) (payment : Operation) (amount : Nat) : Prop :=
  payment.assetCode = some "USDC" ∧ payment.assetIssuer = some usdcIssuer ∧ payment.amount = amount

instance (payment : Operation) (amount : Nat) : Decidable (UsdcOf usdcIssuer payment amount) :=
  inferInstanceAs (Decidable (_ ∧ _))

/-- The memo names the investment and its deal. -/
def Setup.Names (setup : Setup) (payment : Operation) (id tradeDealId : String) : Prop :=
  ∃ d i, setup.parseMemo payment.memo = some (d, i) ∧ setup.uuid i = some id ∧
    setup.uuid d = some tradeDealId

structure Accounted (setup : Setup) (usdcIssuer : String) (sys : System) : Prop where
  justified : ∀ n id, (n, id) ∈ sys.state.credits →
    ∃ payment investment, sys.state.operations[n]? = some payment ∧ setup.Incoming payment ∧
      investment ∈ sys.state.investments ∧ investment.id = id ∧
      UsdcOf usdcIssuer payment investment.amountUsd ∧
      setup.Names payment id investment.tradeDealId
  once : ∀ n id id', (n, id) ∈ sys.state.credits → (n, id') ∈ sys.state.credits → id = id'
  accounted : ∀ n m payment passed, sys.state.began ≤ n → n ≤ m →
    sys.state.operations[n]? = some payment → setup.Incoming payment →
    sys.state.operations[m]? = some passed → sys.state.lastProcessedPagingToken = passed.id →
    (∀ t ∈ sys.threads, ¬ t.Handles n) → sys.state.Settled n

/-! ## When it holds -/

/-- A query of the handling of a payment that loses nothing. -/
def Setup.CarefulQuery (setup : Setup) (usdcIssuer : String) (o : Outcome) (payment : Operation) :
    Pc → Prop
  | .findConfirmed | .findUnrecognised => o = .ok
  | .findInvestment _ dealId investmentId =>
    o = .ok ∧ (setup.uuid investmentId).isSome ∧ (setup.uuid dealId).isSome
  | .credit investment => o ≠ .fail ∧ UsdcOf usdcIssuer payment investment.amountUsd
  | .record _ _ => o ≠ .fail
  | .fetchMemo | .returned | .threw => True

instance : (pc : Pc) → Decidable (setup.CarefulQuery usdcIssuer o payment pc)
  | .findConfirmed | .findUnrecognised => inferInstanceAs (Decidable (o = .ok))
  | .findInvestment _ _ _ => inferInstanceAs (Decidable (_ ∧ _ ∧ _))
  | .credit _ => inferInstanceAs (Decidable (_ ∧ _))
  | .record _ _ => inferInstanceAs (Decidable (o ≠ .fail))
  | .fetchMemo | .returned | .threw => isTrue trivial

def Setup.CarefulThread (setup : Setup) (usdcIssuer : String) (s : State) (o : Outcome) :
    Thread → Prop
  | .handler n pc | .handling n pc _ =>
    ∀ payment ∈ s.operations[n]?, setup.CarefulQuery usdcIssuer o payment pc
  | .requested _ | .loop _ _ | .finished => True

instance : (t : Thread) → Decidable (setup.CarefulThread usdcIssuer s o t)
  | .handler _ _ | .handling _ _ _ => inferInstanceAs (Decidable (∀ payment ∈ s.operations[_]?, _))
  | .requested _ | .loop _ _ | .finished => isTrue trivial

/-- One transaction makes one payment, the stream is not opened at `now` when there is something
    new, and the queries lose nothing. -/
def Setup.Careful (setup : Setup) (usdcIssuer : String) (sys : System) : Action → Prop
  | .arrive operation => setup.Incoming operation →
    ∀ other ∈ sys.state.operations, setup.Incoming other →
      other.transactionHash ≠ operation.transactionHash
  | .connect => sys.state.lastProcessedPagingToken = "now" →
    sys.state.operations.length = sys.state.began
  | .run w o => ∀ t ∈ sys.threads[w]?, setup.CarefulThread usdcIssuer sys.state o t
  | .invest _ _ _ | .setStatus _ _ | .disconnect | .deliver | .pollPaymentsFallback => True

instance : (a : Action) → Decidable (setup.Careful usdcIssuer sys a)
  | .arrive _ => inferInstanceAs (Decidable (_ → ∀ other ∈ sys.state.operations, _ → _ ≠ _))
  | .connect => inferInstanceAs (Decidable (_ → _))
  | .run _ _ => inferInstanceAs (Decidable (∀ t ∈ sys.threads[_]?, _))
  | .invest _ _ _ | .setStatus _ _ | .disconnect | .deliver | .pollPaymentsFallback =>
    isTrue trivial

/-! ## What steps keep -/

/-- An investment of the table, with what never changes of it. -/
def State.Listed (s : State) (id tradeDealId : String) (amountUsd : Nat) : Prop :=
  ∃ i ∈ s.investments, i.id = id ∧ i.tradeDealId = tradeDealId ∧ i.amountUsd = amountUsd

structure State.Extends (s s' : State) : Prop where
  began : s'.began = s.began
  operations : s.operations <+: s'.operations
  listed : ∀ id tradeDealId amountUsd,
    s.Listed id tradeDealId amountUsd → s'.Listed id tradeDealId amountUsd
  settled : ∀ n, s.Settled n → s'.Settled n

theorem State.Extends.refl (s : State) : s.Extends s :=
  ⟨rfl, List.prefix_rfl, fun _ _ _ h => h, fun _ h => h⟩

theorem State.Extends.getElem? (h : s.Extends s') (hn : s.operations[n]? = some payment) :
    s'.operations[n]? = some payment := by
  obtain ⟨more, hmore⟩ := h.operations
  rw [← hmore, List.getElem?_append_left (List.getElem?_eq_some_iff.mp hn).1]
  exact hn

theorem State.Extends.getElem?_of_lt (h : s.Extends s') (hlt : n < s.operations.length)
    (hn : s'.operations[n]? = some payment) : s.operations[n]? = some payment := by
  obtain ⟨more, hmore⟩ := h.operations
  rwa [← hmore, List.getElem?_append_left hlt] at hn

theorem State.Extends.length_le (h : s.Extends s') :
    s.operations.length ≤ s'.operations.length := h.operations.length_le

theorem extends_credit (investment : Investment) (txHash : String) :
    s.Extends (s.credit n investment txHash) := by
  constructor
  case began => rfl
  case operations => exact List.prefix_rfl
  case listed =>
    rintro id tradeDealId amountUsd ⟨i, hi, rfl, rfl, rfl⟩
    by_cases hid : i.id = investment.id
    · exact ⟨_, mem_update.mpr (.inl ⟨i, hi, decide_eq_true hid, rfl⟩), rfl, rfl, rfl⟩
    · exact ⟨i, mem_update.mpr (.inr ⟨hi, decide_eq_false hid⟩), rfl, rfl, rfl⟩
  case settled =>
    rintro n (⟨id, hid⟩ | hn)
    · exact .inl ⟨id, List.mem_append_left _ hid⟩
    · exact .inr hn

theorem extends_record (memo : Option String) (reason : String) :
    s.Extends (s.record n payment memo reason) := by
  unfold State.record
  split
  case isTrue => exact .refl s
  case isFalse =>
    refine ⟨rfl, List.prefix_rfl, fun _ _ _ h => h, ?_⟩
    rintro n (hn | hn)
    · exact .inl hn
    · exact .inr (List.mem_append_left _ hn)

/-! ## The tables -/

/-- What a query of a handling has found. -/
def Setup.QueryFits (setup : Setup) (s : State) (payment : Operation) : Pc → Prop
  | .findInvestment _ dealId investmentId =>
    setup.parseMemo payment.memo = some (dealId, investmentId)
  | .credit investment => setup.Names payment investment.id investment.tradeDealId ∧
    s.Listed investment.id investment.tradeDealId investment.amountUsd
  | .findConfirmed | .findUnrecognised | .fetchMemo | .record _ _ | .returned | .threw => True

/-- A hash is written for its one payment only, and a credit is justified. -/
structure Sound (setup : Setup) (usdcIssuer : String) (s : State) : Prop where
  hashes : ∀ n m payment other, s.began ≤ n → s.operations[n]? = some payment →
    s.operations[m]? = some other → setup.Incoming payment → setup.Incoming other →
    payment.transactionHash = other.transactionHash → m = n
  confirmed : ∀ investment ∈ s.investments, ∀ txHash ∈ investment.stellarTxId,
    ∃ n payment, s.operations[n]? = some payment ∧ setup.Incoming payment ∧
      payment.transactionHash = txHash ∧ s.Settled n
  unrecognised : ∀ record ∈ s.unrecognised, ∃ n payment, s.operations[n]? = some payment ∧
    setup.Incoming payment ∧ payment.transactionHash = record.txHash ∧ s.Settled n
  justified : ∀ n id, (n, id) ∈ s.credits → ∃ payment tradeDealId amountUsd,
    s.operations[n]? = some payment ∧ setup.Incoming payment ∧
      s.Listed id tradeDealId amountUsd ∧ UsdcOf usdcIssuer payment amountUsd ∧
      setup.Names payment id tradeDealId

/-- The payment that the thread handles. -/
structure Current (setup : Setup) (s : State) (n : Nat) (payment : Operation) : Prop where
  began : s.began ≤ n
  found : s.operations[n]? = some payment
  incoming : setup.Incoming payment

theorem Current.mono (h : Current setup s n payment) (hext : s.Extends s') :
    Current setup s' n payment :=
  ⟨hext.began ▸ h.began, hext.getElem? h.found, h.incoming⟩

theorem Setup.QueryFits.mono (h : setup.QueryFits s payment pc) (hext : s.Extends s') :
    setup.QueryFits s' payment pc := by
  cases pc with
  | credit investment => exact ⟨h.1, hext.listed _ _ _ h.2⟩
  | _ => exact h

theorem Sound.settled_of_confirmed (h : Sound setup usdcIssuer s)
    (hcurrent : Current setup s n payment)
    (hfound : (s.findConfirmed payment.transactionHash).isSome) : s.Settled n := by
  obtain ⟨investment, hinvestment⟩ := Option.isSome_iff_exists.mp hfound
  have htxHash : investment.stellarTxId = some payment.transactionHash := by
    simpa using List.find?_some hinvestment
  obtain ⟨m, other, hm, hin, hhash, hsettled⟩ :=
    h.confirmed investment (List.mem_of_find?_eq_some hinvestment) _ htxHash
  obtain rfl := h.hashes n m payment other hcurrent.began hcurrent.found hm hcurrent.incoming hin
    hhash.symm
  exact hsettled

theorem Sound.settled_of_unrecognised (h : Sound setup usdcIssuer s)
    (hcurrent : Current setup s n payment)
    (hfound : (s.findUnrecognised payment.transactionHash).isSome) : s.Settled n := by
  obtain ⟨record, hrecord⟩ := Option.isSome_iff_exists.mp hfound
  have htxHash : record.txHash = payment.transactionHash := by
    simpa using List.find?_some hrecord
  obtain ⟨m, other, hm, hin, hhash, hsettled⟩ :=
    h.unrecognised record (List.mem_of_find?_eq_some hrecord)
  obtain rfl := h.hashes n m payment other hcurrent.began hcurrent.found hm hcurrent.incoming hin
    (htxHash.symm.trans hhash.symm)
  exact hsettled

/-- The tables are sound after a write that only adds what is sound. -/
theorem Sound.extend (h : Sound setup usdcIssuer s) (hext : s.Extends s')
    (hoperations : s'.operations = s.operations)
    (hconfirmed : ∀ investment ∈ s'.investments, ∀ txHash ∈ investment.stellarTxId,
      (∃ old ∈ s.investments, old.stellarTxId = some txHash) ∨
      ∃ n payment, Current setup s n payment ∧ payment.transactionHash = txHash ∧ s'.Settled n)
    (hunrecognised : ∀ record ∈ s'.unrecognised, record ∈ s.unrecognised ∨
      ∃ n payment, Current setup s n payment ∧ payment.transactionHash = record.txHash ∧
        s'.Settled n)
    (hjustified : ∀ n id, (n, id) ∈ s'.credits → (n, id) ∈ s.credits ∨
      ∃ payment tradeDealId amountUsd, Current setup s n payment ∧
        s.Listed id tradeDealId amountUsd ∧ UsdcOf usdcIssuer payment amountUsd ∧
        setup.Names payment id tradeDealId) :
    Sound setup usdcIssuer s' := by
  constructor
  case hashes =>
    rw [hoperations, hext.began]
    exact h.hashes
  case confirmed =>
    intro investment hinvestment txHash htxHash
    rcases hconfirmed investment hinvestment txHash htxHash with
      ⟨old, hold, hsame⟩ | ⟨n, payment, hcurrent, hhash, hsettled⟩
    · obtain ⟨n, payment, hn, hin, hhash, hsettled⟩ := h.confirmed old hold txHash hsame
      exact ⟨n, payment, hext.getElem? hn, hin, hhash, hext.settled n hsettled⟩
    · exact ⟨n, payment, hext.getElem? hcurrent.found, hcurrent.incoming, hhash, hsettled⟩
  case unrecognised =>
    intro record hrecord
    rcases hunrecognised record hrecord with hold | ⟨n, payment, hcurrent, hhash, hsettled⟩
    · obtain ⟨n, payment, hn, hin, hhash, hsettled⟩ := h.unrecognised record hold
      exact ⟨n, payment, hext.getElem? hn, hin, hhash, hext.settled n hsettled⟩
    · exact ⟨n, payment, hext.getElem? hcurrent.found, hcurrent.incoming, hhash, hsettled⟩
  case justified =>
    intro n id hid
    rcases hjustified n id hid with
      hold | ⟨payment, tradeDealId, amountUsd, hcurrent, hlisted, husdc, hnames⟩
    · obtain ⟨payment, tradeDealId, amountUsd, hn, hin, hlisted, hrest⟩ := h.justified n id hold
      exact ⟨payment, tradeDealId, amountUsd, hext.getElem? hn, hin, hext.listed _ _ _ hlisted,
        hrest⟩
    · exact ⟨payment, tradeDealId, amountUsd, hext.getElem? hcurrent.found, hcurrent.incoming,
        hext.listed _ _ _ hlisted, husdc, hnames⟩

theorem settled_credit (investment : Investment) (txHash : String) :
    (s.credit n investment txHash).Settled n :=
  .inl ⟨investment.id, List.mem_append_right _ (List.mem_singleton.mpr rfl)⟩

theorem Sound.credit {investment : Investment} (h : Sound setup usdcIssuer s)
    (hcurrent : Current setup s n payment) (hfits : setup.QueryFits s payment (.credit investment))
    (husdc : UsdcOf usdcIssuer payment investment.amountUsd) :
    Sound setup usdcIssuer (s.credit n investment payment.transactionHash) := by
  refine h.extend (extends_credit ..) rfl (fun i hi txHash htxHash => ?_)
    (fun record hrecord => .inl hrecord) fun m id hid => ?_
  · rcases mem_update.mp hi with ⟨old, -, -, rfl⟩ | ⟨hold, -⟩
    · exact .inr ⟨n, payment, hcurrent, Option.some.inj htxHash, settled_credit ..⟩
    · exact .inl ⟨i, hold, htxHash⟩
  · rcases List.mem_append.mp hid with hold | hnew
    · exact .inl hold
    · obtain ⟨rfl, rfl⟩ := Prod.mk.inj (List.mem_singleton.mp hnew)
      exact .inr ⟨payment, _, _, hcurrent, hfits.2, husdc, hfits.1⟩

theorem Sound.record (h : Sound setup usdcIssuer s) (memo : Option String) (reason : String)
    (hcurrent : Current setup s n payment) :
    Sound setup usdcIssuer (s.record n payment memo reason) ∧
      (s.record n payment memo reason).Settled n := by
  have hext : s.Extends (s.record n payment memo reason) := extends_record ..
  unfold State.record at hext ⊢
  split at hext
  case isTrue hfound =>
    rw [if_pos hfound]
    exact ⟨h, h.settled_of_unrecognised hcurrent hfound⟩
  case isFalse hfound =>
    rw [if_neg hfound]
    have hsettled : State.Settled { s with
        unrecognised := s.unrecognised ++ [⟨payment.transactionHash, payment.sender,
          payment.amount, payment.assetCode, payment.assetIssuer, memo, reason⟩]
        recorded := s.recorded ++ [n] } n :=
      .inr (List.mem_append_right _ (List.mem_singleton.mpr rfl))
    refine ⟨h.extend hext rfl (fun i hi txHash htxHash => .inl ⟨i, hi, htxHash⟩)
      (fun record hrecord => ?_) (fun n id hid => .inl hid), hsettled⟩
    rcases List.mem_append.mp hrecord with hold | hnew
    · exact .inl hold
    · rw [List.mem_singleton.mp hnew]
      exact .inr ⟨n, payment, hcurrent, rfl, hsettled⟩

/-! ## A query -/

/-- A handling moved from the tables `s` to `s'`, and to the query `pc'`. -/
structure Advanced (setup : Setup) (usdcIssuer : String) (s s' : State) (n : Nat)
    (payment : Operation) (pc' : Pc) : Prop where
  sound : Sound setup usdcIssuer s'
  grown : s.Extends s'
  cursor : s'.lastProcessedPagingToken = s.lastProcessedPagingToken
  stream : s'.stream = s.stream
  fits : setup.QueryFits s' payment pc'
  ended : pc' = .returned ∨ pc' = .threw → s'.Settled n

theorem Advanced.reads (h : Sound setup usdcIssuer s) (hfits : setup.QueryFits s payment pc')
    (hended : pc' = .returned ∨ pc' = .threw → s.Settled n) :
    Advanced setup usdcIssuer s s n payment pc' :=
  ⟨h, .refl s, rfl, rfl, hfits, hended⟩

theorem advanced_fetchMemo (h : Sound setup usdcIssuer s) :
    Advanced setup usdcIssuer s s n payment (setup.stepFetchMemo payment o) := by
  unfold Setup.stepFetchMemo
  dsimp only
  split
  · exact .reads h trivial nofun
  · next dealId investmentId hparsed =>
    refine .reads h ?_ nofun
    cases o with
    | ok => exact hparsed
    | fail | lost => exact absurd hparsed (Option.some_ne_none _).symm

theorem listed_of_findInvestment {i : Investment} {id tradeDealId : String}
    (h : s.findInvestment id tradeDealId = some i) :
    i.id = id ∧ i.tradeDealId = tradeDealId ∧ s.Listed i.id i.tradeDealId i.amountUsd := by
  have hfound := List.find?_some h
  rw [Bool.and_eq_true, decide_eq_true_eq, decide_eq_true_eq] at hfound
  exact ⟨hfound.1, hfound.2, i, List.mem_of_find?_eq_some h, rfl, rfl, rfl⟩

theorem advanced_findInvestment {memo : Option String} {dealId investmentId : String}
    (h : Sound setup usdcIssuer s)
    (hfits : setup.QueryFits s payment (.findInvestment memo dealId investmentId))
    (hcareful : setup.CarefulQuery usdcIssuer o payment (.findInvestment memo dealId investmentId)) :
    Advanced setup usdcIssuer s s n payment
      (setup.stepFindInvestment s o memo dealId investmentId) := by
  obtain ⟨rfl, hid, hdeal⟩ := hcareful
  obtain ⟨id, hid⟩ := Option.isSome_iff_exists.mp hid
  obtain ⟨tradeDealId, hdeal⟩ := Option.isSome_iff_exists.mp hdeal
  unfold Setup.stepFindInvestment
  rw [hid, hdeal]
  show Advanced setup usdcIssuer s s n payment (matched memo dealId investmentId _)
  cases hfound : s.findInvestment id tradeDealId with
  | none => exact .reads h trivial nofun
  | some investment =>
    obtain ⟨rfl, rfl, hlisted⟩ := listed_of_findInvestment hfound
    unfold matched
    dsimp only
    split
    · exact .reads h ⟨⟨dealId, investmentId, hfits, hid, hdeal⟩, hlisted⟩ nofun
    · exact .reads h trivial nofun

theorem written_of_ne_fail (h : o ≠ .fail) : s.written s' o = s' := by
  cases o with
  | fail => exact absurd rfl h
  | ok | lost => rfl

theorem onOk_ok : onOk pc .ok = pc := if_pos rfl

theorem advanced_of_stepHandle (h : Sound setup usdcIssuer s)
    (hcurrent : Current setup s n payment) (hfits : setup.QueryFits s payment pc)
    (hcareful : setup.CarefulQuery usdcIssuer o payment pc)
    (hstep : setup.stepHandle s o n payment pc = some (s', pc')) :
    Advanced setup usdcIssuer s s' n payment pc' := by
  cases pc with
  | findConfirmed =>
    obtain ⟨rfl, rfl⟩ := Prod.mk.inj (Option.some.inj hstep)
    obtain rfl : o = .ok := hcareful
    rw [onOk_ok]
    split
    case isTrue hfound =>
      exact .reads h trivial fun _ => h.settled_of_confirmed hcurrent hfound
    case isFalse => exact .reads h trivial nofun
  | findUnrecognised =>
    obtain ⟨rfl, rfl⟩ := Prod.mk.inj (Option.some.inj hstep)
    obtain rfl : o = .ok := hcareful
    rw [onOk_ok]
    split
    case isTrue hfound =>
      exact .reads h trivial fun _ => h.settled_of_unrecognised hcurrent hfound
    case isFalse => exact .reads h trivial nofun
  | fetchMemo =>
    obtain ⟨rfl, rfl⟩ := Prod.mk.inj (Option.some.inj hstep)
    exact advanced_fetchMemo h
  | findInvestment memo dealId investmentId =>
    obtain ⟨rfl, rfl⟩ := Prod.mk.inj (Option.some.inj hstep)
    exact advanced_findInvestment h hfits hcareful
  | credit investment =>
    obtain ⟨rfl, rfl⟩ := Prod.mk.inj (Option.some.inj hstep)
    rw [written_of_ne_fail hcareful.1]
    refine ⟨h.credit hcurrent hfits hcareful.2, extends_credit .., rfl, rfl, ?_,
      fun _ => settled_credit ..⟩
    cases o <;> trivial
  | record memo reason =>
    obtain ⟨rfl, rfl⟩ := Prod.mk.inj (Option.some.inj hstep)
    rw [written_of_ne_fail hcareful]
    obtain ⟨hsound, hsettled⟩ := h.record memo reason hcurrent
    refine ⟨hsound, extends_record .., ?_, ?_, trivial, fun _ => hsettled⟩
    · unfold State.record
      split <;> rfl
    · unfold State.record
      split <;> rfl
  | returned | threw => cases hstep

/-! ## The invariant -/

/-- The payment at place `n` is settled, or a thread handles it. -/
def System.Met (sys : System) (n : Nat) : Prop :=
  sys.state.Settled n ∨ ∃ t ∈ sys.threads, t.Handles n

/-- Every payment before place `k` was met. -/
structure Reached (setup : Setup) (sys : System) (k : Nat) : Prop where
  began : sys.state.began ≤ k
  length : k ≤ sys.state.operations.length
  met : ∀ n payment, n < k → Current setup sys.state n payment → sys.Met n

/-- A cursor that was stored. -/
def CursorAt (setup : Setup) (sys : System) (cursor : String) : Prop :=
  cursor = "now" ∨ ∃ m payment, sys.state.operations[m]? = some payment ∧ payment.id = cursor ∧
    Reached setup sys (m + 1)

def Thread.Fits (setup : Setup) (sys : System) : Thread → Prop
  | .handler n pc => ∃ payment, Current setup sys.state n payment ∧
    setup.QueryFits sys.state payment pc
  | .requested cursor => CursorAt setup sys cursor
  | .loop k left => left = 0 ∨
    (Reached setup sys k ∧ k + left ≤ sys.state.operations.length)
  | .handling n pc left => (∃ payment, Current setup sys.state n payment ∧
    setup.QueryFits sys.state payment pc) ∧ Reached setup sys n ∧
    n + 1 + left ≤ sys.state.operations.length
  | .finished => True

structure Inv (setup : Setup) (usdcIssuer : String) (sys : System) : Prop where
  distinct : (sys.state.operations.map (·.id)).Nodup
  tokens : "now" ∉ sys.state.operations.map (·.id)
  sound : Sound setup usdcIssuer sys.state
  cursor : CursorAt setup sys sys.state.lastProcessedPagingToken
  stream : ∀ p ∈ sys.state.stream, Reached setup sys p
  fits : ∀ t ∈ sys.threads, t.Fits setup sys

/-- What was met stays met. -/
structure System.Grows (sys sys' : System) : Prop where
  state : sys.state.Extends sys'.state
  met : ∀ n, sys.Met n → sys'.Met n

theorem Reached.mono (h : Reached setup sys k) (hgrows : sys.Grows sys') :
    Reached setup sys' k := by
  refine ⟨hgrows.state.began ▸ h.began, h.length.trans hgrows.state.length_le, ?_⟩
  intro n payment hn hcurrent
  have hlt : n < sys.state.operations.length := Nat.lt_of_lt_of_le hn h.length
  refine hgrows.met n (h.met n payment hn ⟨?_, ?_, hcurrent.incoming⟩)
  · exact hgrows.state.began ▸ hcurrent.began
  · exact hgrows.state.getElem?_of_lt hlt hcurrent.found

theorem CursorAt.mono (h : CursorAt setup sys cursor) (hgrows : sys.Grows sys') :
    CursorAt setup sys' cursor := by
  rcases h with hnow | ⟨m, payment, hm, hid, hreached⟩
  · exact .inl hnow
  · exact .inr ⟨m, payment, hgrows.state.getElem? hm, hid, hreached.mono hgrows⟩

theorem Thread.Fits.mono (h : t.Fits setup sys) (hgrows : sys.Grows sys') :
    t.Fits setup sys' := by
  have hlength := hgrows.state.length_le
  cases t with
  | handler n pc =>
    obtain ⟨payment, hcurrent, hfits⟩ := h
    exact ⟨payment, hcurrent.mono hgrows.state, hfits.mono hgrows.state⟩
  | requested cursor => exact CursorAt.mono h hgrows
  | loop k left => exact h.imp id fun h => ⟨h.1.mono hgrows, h.2.trans hlength⟩
  | handling n pc left =>
    obtain ⟨⟨payment, hcurrent, hfits⟩, hreached, hle⟩ := h
    exact ⟨⟨payment, hcurrent.mono hgrows.state, hfits.mono hgrows.state⟩,
      hreached.mono hgrows, hle.trans hlength⟩
  | finished => trivial

/-- One place further, over an operation that is met if it is a payment. -/
theorem Reached.succ (h : Reached setup sys k) (hfound : sys.state.operations[k]? = some operation)
    (hmet : setup.Incoming operation → sys.Met k) : Reached setup sys (k + 1) := by
  have hlt : k < sys.state.operations.length := (List.getElem?_eq_some_iff.mp hfound).1
  refine ⟨h.began.trans (Nat.le_succ k), hlt, fun n payment hn hcurrent => ?_⟩
  rcases Nat.lt_succ_iff_lt_or_eq.mp hn with hbefore | rfl
  · exact h.met n payment hbefore hcurrent
  · obtain rfl := Option.some.inj (hfound.symm.trans hcurrent.found)
    exact hmet hcurrent.incoming

/-- The place of the operation after a cursor. -/
theorem place_eq (hdistinct : (s.operations.map (·.id)).Nodup)
    (htokens : "now" ∉ s.operations.map (·.id)) (hm : s.operations[m]? = some payment) :
    s.place payment.id = m + 1 := by
  have hne : payment.id ≠ "now" := by
    intro hnow
    exact htokens (List.mem_map.mpr ⟨payment, List.mem_of_getElem? hm, hnow⟩)
  obtain ⟨hlt, hget⟩ := List.getElem?_eq_some_iff.mp hm
  have hidx : s.operations.findIdx (·.id = payment.id) = m := by
    refine (List.findIdx_eq hlt).mpr ⟨by simp [hget], fun j hj => ?_⟩
    refine decide_eq_false fun hsame => ?_
    have hids : (s.operations.map (·.id))[j]? = (s.operations.map (·.id))[m]? := by
      rw [List.getElem?_map, List.getElem?_map, hm, List.getElem?_eq_getElem (hj.trans hlt)]
      exact congrArg some hsame
    exact absurd ((List.getElem?_inj (by simp; omega) hdistinct).mp hids) (Nat.ne_of_lt hj)
  unfold State.place
  rw [if_neg hne, hidx]

/-! ## Steps of a thread -/

/-- A thread moved, with tables that only grew. -/
theorem Inv.thread (h : Inv setup usdcIssuer sys) (hw : sys.threads[w]? = some t)
    (hsound : Sound setup usdcIssuer s') (hext : sys.state.Extends s')
    (hoperations : s'.operations = sys.state.operations) (hstream : s'.stream = sys.state.stream)
    (hkept : ∀ n, t.Handles n → t'.Handles n ∨ s'.Settled n)
    (hcursor : System.Grows sys ⟨s', sys.threads.set w t'⟩ →
      CursorAt setup ⟨s', sys.threads.set w t'⟩ s'.lastProcessedPagingToken)
    (hfits : System.Grows sys ⟨s', sys.threads.set w t'⟩ →
      t'.Fits setup ⟨s', sys.threads.set w t'⟩) :
    Inv setup usdcIssuer ⟨s', sys.threads.set w t'⟩ := by
  have hlt : w < sys.threads.length := (List.getElem?_eq_some_iff.mp hw).1
  have hgrows : System.Grows sys ⟨s', sys.threads.set w t'⟩ := by
    refine ⟨hext, fun n hmet => ?_⟩
    rcases hmet with hsettled | ⟨x, hx, hhandles⟩
    · exact .inl (hext.settled n hsettled)
    · obtain ⟨v, hv⟩ := List.mem_iff_getElem?.mp hx
      by_cases hvw : v = w
      · subst hvw
        obtain rfl := Option.some.inj (hw.symm.trans hv)
        rcases hkept n hhandles with hstill | hsettled
        · exact .inr ⟨t', List.mem_set hlt t', hstill⟩
        · exact .inl hsettled
      · refine .inr ⟨x, List.mem_of_getElem? (i := v) ?_, hhandles⟩
        rw [List.getElem?_set_ne (Ne.symm hvw)]
        exact hv
  constructor
  case distinct =>
    rw [hoperations]
    exact h.distinct
  case tokens =>
    rw [hoperations]
    exact h.tokens
  case sound => exact hsound
  case cursor => exact hcursor hgrows
  case stream =>
    rw [hstream]
    exact fun p hp => (h.stream p hp).mono hgrows
  case fits =>
    exact forall_mem_set (fun v x hx _ => (h.fits x (List.mem_of_getElem? hx)).mono hgrows)
      (hfits hgrows)

/-- A thread that handled nothing moved, and the tables are the same. -/
theorem Inv.moves (h : Inv setup usdcIssuer sys) (hw : sys.threads[w]? = some t)
    (hidle : ∀ n, ¬ t.Handles n)
    (hfits : System.Grows sys ⟨sys.state, sys.threads.set w t'⟩ →
      t'.Fits setup ⟨sys.state, sys.threads.set w t'⟩) :
    Inv setup usdcIssuer ⟨sys.state, sys.threads.set w t'⟩ :=
  h.thread hw h.sound (.refl _) rfl rfl (fun n hn => absurd hn (hidle n))
    (fun hgrows => h.cursor.mono hgrows) hfits

theorem handles_handled (hpc : pc ≠ .returned ∧ pc ≠ .threw) : handled n pc = .handler n pc := by
  cases pc with
  | returned => exact absurd rfl hpc.1
  | threw => exact absurd rfl hpc.2
  | _ => rfl

theorem handles_pollHandled (hpc : pc ≠ .returned ∧ pc ≠ .threw) :
    pollHandled n left pc = .handling n pc left := by
  cases pc with
  | returned => exact absurd rfl hpc.1
  | threw => exact absurd rfl hpc.2
  | _ => rfl

theorem operations_of_stepHandle (hstep : setup.stepHandle s o n payment pc = some (s', pc')) :
    s'.operations = s.operations := by
  have hwritten : ∀ s'', s''.operations = s.operations →
      (s.written s'' o).operations = s.operations := by
    intro s'' h
    cases o with
    | fail => rfl
    | ok | lost => exact h
  cases pc with
  | credit investment =>
    obtain ⟨rfl, rfl⟩ := Prod.mk.inj (Option.some.inj hstep)
    exact hwritten _ rfl
  | record memo reason =>
    obtain ⟨rfl, rfl⟩ := Prod.mk.inj (Option.some.inj hstep)
    refine hwritten _ ?_
    unfold State.record
    split <;> rfl
  | returned | threw => cases hstep
  | _ =>
    obtain ⟨rfl, rfl⟩ := Prod.mk.inj (Option.some.inj hstep)
    rfl

/-- The thread of the stream goes on with its payment. -/
theorem Inv.handler (h : Inv setup usdcIssuer sys) (hw : sys.threads[w]? = some (.handler n pc))
    (hfound : sys.state.operations[n]? = some payment)
    (hcareful : setup.CarefulQuery usdcIssuer o payment pc)
    (hstep : setup.stepHandle sys.state o n payment pc = some (s', pc')) :
    Inv setup usdcIssuer ⟨s', sys.threads.set w (handled n pc')⟩ := by
  obtain ⟨payment', hcurrent, hquery⟩ := h.fits _ (List.mem_of_getElem? hw)
  obtain rfl := Option.some.inj (hfound.symm.trans hcurrent.found)
  have hadvanced := advanced_of_stepHandle h.sound hcurrent hquery hcareful hstep
  refine h.thread hw hadvanced.sound hadvanced.grown (operations_of_stepHandle hstep)
    hadvanced.stream (fun m hm => ?_) (fun hgrows => ?_) fun hgrows => ?_
  · obtain rfl : n = m := hm
    by_cases hended : pc' = .returned ∨ pc' = .threw
    · exact .inr (hadvanced.ended hended)
    · rw [handles_handled (not_or.mp hended)]
      exact .inl rfl
  · rw [hadvanced.cursor]
    exact h.cursor.mono hgrows
  · by_cases hended : pc' = .returned ∨ pc' = .threw
    · rcases hended with rfl | rfl <;> trivial
    · rw [handles_handled (not_or.mp hended)]
      exact ⟨payment, hcurrent.mono hadvanced.grown, hadvanced.fits⟩

/-- The poll goes on with its payment. -/
theorem Inv.handling (h : Inv setup usdcIssuer sys)
    (hw : sys.threads[w]? = some (.handling n pc left))
    (hfound : sys.state.operations[n]? = some payment)
    (hcareful : setup.CarefulQuery usdcIssuer o payment pc)
    (hstep : setup.stepHandle sys.state o n payment pc = some (s', pc')) :
    Inv setup usdcIssuer ⟨s', sys.threads.set w (pollHandled n left pc')⟩ := by
  obtain ⟨⟨payment', hcurrent, hquery⟩, hreached, hle⟩ := h.fits _ (List.mem_of_getElem? hw)
  obtain rfl := Option.some.inj (hfound.symm.trans hcurrent.found)
  have hadvanced := advanced_of_stepHandle h.sound hcurrent hquery hcareful hstep
  have hoperations := operations_of_stepHandle hstep
  refine h.thread hw hadvanced.sound hadvanced.grown hoperations
    hadvanced.stream (fun m hm => ?_) (fun hgrows => ?_) fun hgrows => ?_
  · obtain rfl : n = m := hm
    by_cases hended : pc' = .returned ∨ pc' = .threw
    · exact .inr (hadvanced.ended hended)
    · rw [handles_pollHandled (not_or.mp hended)]
      exact .inl rfl
  · rw [hadvanced.cursor]
    exact h.cursor.mono hgrows
  · by_cases hended : pc' = .returned ∨ pc' = .threw
    · have hsettled := hadvanced.ended hended
      rcases hended with rfl | rfl
      · refine .inr ⟨(hreached.mono hgrows).succ (hadvanced.grown.getElem? hfound)
          fun _ => .inl hsettled, ?_⟩
        show n + 1 + left ≤ s'.operations.length
        rw [hoperations]
        exact hle
      · trivial
    · rw [handles_pollHandled (not_or.mp hended)] at hgrows ⊢
      refine ⟨⟨payment, hcurrent.mono hadvanced.grown, hadvanced.fits⟩, hreached.mono hgrows, ?_⟩
      show n + 1 + left ≤ s'.operations.length
      rw [hoperations]
      exact hle

theorem fits_stepRequested (hcursor : CursorAt setup sys cursor)
    (hdistinct : (sys.state.operations.map (·.id)).Nodup)
    (htokens : "now" ∉ sys.state.operations.map (·.id)) :
    (stepRequested sys.state o cursor).Fits setup sys := by
  unfold stepRequested
  split
  case isFalse => trivial
  case isTrue =>
    rcases hcursor with rfl | ⟨m, payment, hm, rfl, hreached⟩
    · refine .inl ?_
      unfold State.place
      rw [if_pos rfl, Nat.sub_self, Nat.min_zero]
    · rw [place_eq hdistinct htokens hm]
      have hlength := hreached.length
      exact .inr ⟨hreached, by omega⟩

/-- A turn of the loop of a poll. -/
theorem Inv.loop (h : Inv setup usdcIssuer sys)
    (hw : sys.threads[w]? = some (.loop k (left + 1)))
    (hfound : sys.state.operations[k]? = some payment) :
    Inv setup usdcIssuer ⟨(setup.stepLoop sys.state k left payment).1,
      sys.threads.set w (setup.stepLoop sys.state k left payment).2⟩ := by
  obtain ⟨hreached, hle⟩ : Reached setup sys k ∧ k + (left + 1) ≤ sys.state.operations.length :=
    (h.fits _ (List.mem_of_getElem? hw)).resolve_left (Nat.succ_ne_zero left)
  have hidle : ∀ n, ¬ Thread.Handles n (.loop k (left + 1)) := fun n hn => hn
  unfold Setup.stepLoop
  split
  case isTrue hin =>
    have hlt : w < sys.threads.length := (List.getElem?_eq_some_iff.mp hw).1
    have hcurrent : Current setup sys.state k payment := ⟨hreached.began, hfound, hin⟩
    show Inv setup usdcIssuer ⟨sys.state.setCursor payment.id,
      sys.threads.set w (.handling k .findConfirmed left)⟩
    refine h.thread hw ?_ ?_ rfl rfl (fun n hn => absurd hn (hidle n)) (fun hgrows => ?_)
      fun hgrows => ?_
    · exact ⟨h.sound.hashes, h.sound.confirmed, h.sound.unrecognised, h.sound.justified⟩
    · exact ⟨rfl, List.prefix_rfl, fun _ _ _ h => h, fun _ h => h⟩
    · refine .inr ⟨k, payment, hfound, rfl, (hreached.mono hgrows).succ hfound fun _ => ?_⟩
      exact .inr ⟨_, List.mem_set hlt _, rfl⟩
    · refine ⟨⟨payment, ⟨hcurrent.began, hfound, hin⟩, trivial⟩, hreached.mono hgrows, ?_⟩
      show k + 1 + left ≤ sys.state.operations.length
      omega
  case isFalse hout =>
    have hfits : ∀ {sys'}, System.Grows sys sys' → Thread.Fits setup sys' (.loop (k + 1) left) := by
      intro sys' hgrows
      have hlength := hgrows.state.length_le
      refine .inr ⟨(hreached.mono hgrows).succ (hgrows.state.getElem? hfound)
        fun hin => absurd hin hout, by omega⟩
    split
    case isFalse => exact h.moves hw hidle hfits
    case isTrue =>
      show Inv setup usdcIssuer ⟨sys.state.setCursor payment.id,
        sys.threads.set w (.loop (k + 1) left)⟩
      refine h.thread hw ?_ ?_ rfl rfl (fun n hn => absurd hn (hidle n)) (fun hgrows => ?_) hfits
      · exact ⟨h.sound.hashes, h.sound.confirmed, h.sound.unrecognised, h.sound.justified⟩
      · exact ⟨rfl, List.prefix_rfl, fun _ _ _ h => h, fun _ h => h⟩
      · refine .inr ⟨k, payment, hfound, rfl, (hreached.mono hgrows).succ hfound ?_⟩
        exact fun hin => absurd hin hout

theorem Inv.run (h : Inv setup usdcIssuer sys) (hw : sys.threads[w]? = some t)
    (hcareful : setup.CarefulThread usdcIssuer sys.state o t)
    (hstep : setup.stepThread sys.state o t = some (s', t')) :
    Inv setup usdcIssuer ⟨s', sys.threads.set w t'⟩ := by
  cases t with
  | handler n pc =>
    obtain ⟨payment, hfound, hstep⟩ := Option.bind_eq_some_iff.mp hstep
    obtain ⟨⟨s₁, pc'⟩, hhandle, hstep⟩ := Option.bind_eq_some_iff.mp hstep
    obtain ⟨rfl, rfl⟩ := Prod.mk.inj (Option.some.inj hstep)
    exact h.handler hw hfound (hcareful payment hfound) hhandle
  | requested cursor =>
    obtain ⟨rfl, rfl⟩ := Prod.mk.inj (Option.some.inj hstep)
    have hcursor : CursorAt setup sys cursor := h.fits _ (List.mem_of_getElem? hw)
    exact h.moves hw (fun n hn => hn) fun hgrows =>
      fits_stepRequested (hcursor.mono hgrows) h.distinct h.tokens
  | loop k left =>
    cases left with
    | zero =>
      obtain ⟨rfl, rfl⟩ := Prod.mk.inj (Option.some.inj hstep)
      exact h.moves hw (fun n hn => hn) fun _ => trivial
    | succ left =>
      obtain ⟨payment, hfound, hstep⟩ := Option.bind_eq_some_iff.mp hstep
      obtain ⟨rfl, rfl⟩ := Prod.mk.inj (Option.some.inj hstep)
      exact h.loop hw hfound
  | handling n pc left =>
    obtain ⟨payment, hfound, hstep⟩ := Option.bind_eq_some_iff.mp hstep
    obtain ⟨⟨s₁, pc'⟩, hhandle, hstep⟩ := Option.bind_eq_some_iff.mp hstep
    obtain ⟨rfl, rfl⟩ := Prod.mk.inj (Option.some.inj hstep)
    exact h.handling hw hfound (hcareful payment hfound) hhandle
  | finished => cases hstep

/-! ## Other steps -/

/-- Tables that only grew, and the same threads. -/
theorem Inv.env (h : Inv setup usdcIssuer sys) (hext : sys.state.Extends s')
    (hdistinct : (s'.operations.map (·.id)).Nodup) (htokens : "now" ∉ s'.operations.map (·.id))
    (hsound : Sound setup usdcIssuer s')
    (hcursor : s'.lastProcessedPagingToken = sys.state.lastProcessedPagingToken)
    (hstream : System.Grows sys ⟨s', sys.threads⟩ → ∀ p ∈ s'.stream,
      Reached setup ⟨s', sys.threads⟩ p) :
    Inv setup usdcIssuer ⟨s', sys.threads⟩ := by
  have hgrows : System.Grows sys ⟨s', sys.threads⟩ :=
    ⟨hext, fun n hmet => hmet.imp (hext.settled n) id⟩
  refine ⟨hdistinct, htokens, hsound, ?_, hstream hgrows, fun t ht => (h.fits t ht).mono hgrows⟩
  show CursorAt setup _ s'.lastProcessedPagingToken
  rw [hcursor]
  exact h.cursor.mono hgrows

/-- The investments change, and hashes only vanish. -/
theorem Inv.investments {investments : List Investment} (h : Inv setup usdcIssuer sys)
    (hlisted : ∀ i ∈ sys.state.investments, ∃ j ∈ investments,
      j.id = i.id ∧ j.tradeDealId = i.tradeDealId ∧ j.amountUsd = i.amountUsd)
    (hhashes : ∀ j ∈ investments, ∀ txHash ∈ j.stellarTxId,
      ∃ i ∈ sys.state.investments, i.stellarTxId = some txHash) :
    Inv setup usdcIssuer ⟨{ sys.state with investments }, sys.threads⟩ := by
  have hext : sys.state.Extends { sys.state with investments } := by
    refine ⟨rfl, List.prefix_rfl, ?_, fun _ h => h⟩
    rintro id tradeDealId amountUsd ⟨i, hi, rfl, rfl, rfl⟩
    obtain ⟨j, hj, hsame⟩ := hlisted i hi
    exact ⟨j, hj, hsame⟩
  refine h.env hext h.distinct h.tokens ?_ rfl fun hgrows p hp => (h.stream p hp).mono hgrows
  exact h.sound.extend hext rfl (fun j hj txHash htxHash => .inl (hhashes j hj txHash htxHash))
    (fun record hrecord => .inl hrecord) fun n id hid => .inl hid

theorem Inv.arrive (h : Inv setup usdcIssuer sys)
    (hnew : operation.id ≠ "now" ∧ operation.id ∉ sys.state.operations.map (·.id))
    (hcareful : setup.Careful usdcIssuer sys (.arrive operation)) :
    Inv setup usdcIssuer
      ⟨{ sys.state with operations := sys.state.operations ++ [operation] }, sys.threads⟩ := by
  have hext : sys.state.Extends
      { sys.state with operations := sys.state.operations ++ [operation] } :=
    ⟨rfl, List.prefix_append _ _, fun _ _ _ h => h, fun _ h => h⟩
  have hdistinct : ((sys.state.operations ++ [operation]).map (·.id)).Nodup := by
    rw [List.map_append, List.map_singleton]
    exact List.nodup_append_comm.mpr (List.nodup_cons.mpr ⟨hnew.2, h.distinct⟩)
  have htokens : "now" ∉ (sys.state.operations ++ [operation]).map (·.id) := by
    rw [List.map_append, List.map_singleton]
    intro hnow
    rcases List.mem_append.mp hnow with hold | hlast
    · exact h.tokens hold
    · exact hnew.1 (List.mem_singleton.mp hlast).symm
  refine h.env hext hdistinct htokens ?_ rfl fun hgrows p hp => (h.stream p hp).mono hgrows
  constructor
  case hashes =>
    intro n m payment other hn hfound hother hin hin' hhash
    rcases getElem?_append_cases hfound with hold | rfl
    · rcases getElem?_append_cases hother with hold' | rfl
      · exact h.sound.hashes n m payment other hn hold hold' hin hin' hhash
      · exact absurd hhash (hcareful hin' payment (List.mem_of_getElem? hold) hin)
    · rcases getElem?_append_cases hother with hold' | rfl
      · exact absurd hhash.symm (hcareful hin other (List.mem_of_getElem? hold') hin')
      · -- both are the new operation, which has one place
        have hn' := place_eq (s := { sys.state with operations := _ }) hdistinct htokens hfound
        have hm' := place_eq (s := { sys.state with operations := _ }) hdistinct htokens hother
        exact Nat.succ.inj (hm'.symm.trans hn')
  case confirmed =>
    intro i hi txHash htxHash
    obtain ⟨n, payment, hn, hrest⟩ := h.sound.confirmed i hi txHash htxHash
    exact ⟨n, payment, hext.getElem? hn, hrest⟩
  case unrecognised =>
    intro record hrecord
    obtain ⟨n, payment, hn, hrest⟩ := h.sound.unrecognised record hrecord
    exact ⟨n, payment, hext.getElem? hn, hrest⟩
  case justified =>
    intro n id hid
    obtain ⟨payment, tradeDealId, amountUsd, hn, hrest⟩ := h.sound.justified n id hid
    exact ⟨payment, tradeDealId, amountUsd, hext.getElem? hn, hrest⟩

/-- The stream is at a place that was reached. -/
theorem Inv.setStream {stream : Option Nat} (h : Inv setup usdcIssuer sys)
    (hstream : ∀ p ∈ stream, Reached setup sys p) :
    Inv setup usdcIssuer ⟨{ sys.state with stream }, sys.threads⟩ := by
  refine h.env ⟨rfl, List.prefix_rfl, fun _ _ _ h => h, fun _ h => h⟩ h.distinct h.tokens ?_ rfl
    fun hgrows p hp => (hstream p hp).mono hgrows
  exact ⟨h.sound.hashes, h.sound.confirmed, h.sound.unrecognised, h.sound.justified⟩

theorem Inv.connect (h : Inv setup usdcIssuer sys)
    (hcareful : setup.Careful usdcIssuer sys .connect) :
    Inv setup usdcIssuer ⟨{ sys.state with
      stream := some (sys.state.place sys.state.lastProcessedPagingToken) }, sys.threads⟩ := by
  refine h.setStream fun p hp => ?_
  obtain rfl := Option.some.inj hp
  rcases h.cursor with hnow | ⟨m, payment, hm, hid, hreached⟩
  · have hlength : sys.state.operations.length = sys.state.began := hcareful hnow
    have hplace : sys.state.place sys.state.lastProcessedPagingToken = sys.state.began := by
      unfold State.place
      rw [if_pos hnow, hlength]
    rw [hplace]
    exact ⟨Nat.le_refl _, Nat.le_of_eq hlength.symm,
      fun n payment hn hcurrent => absurd hn (Nat.not_lt.mpr hcurrent.began)⟩
  · rw [← hid, place_eq h.distinct h.tokens hm]
    exact hreached

theorem Inv.join (h : Inv setup usdcIssuer sys) (hfits : t.Fits setup (sys.join t)) :
    Inv setup usdcIssuer (sys.join t) := by
  have hgrows : sys.Grows (sys.join t) := by
    refine ⟨.refl _, fun n hmet => hmet.imp id ?_⟩
    rintro ⟨x, hx, hhandles⟩
    exact ⟨x, List.mem_append_left _ hx, hhandles⟩
  refine ⟨h.distinct, h.tokens, h.sound, h.cursor.mono hgrows,
    fun p hp => (h.stream p hp).mono hgrows, ?_⟩
  exact forall_mem_append (fun x hx => (h.fits x hx).mono hgrows) hfits

/-- The cursor and the stream pass an operation that is met if it is a payment. -/
theorem Inv.pass (h : Inv setup usdcIssuer sys) (hreached : Reached setup sys n)
    (hfound : sys.state.operations[n]? = some payment) (hcurrent : Current setup sys.state n payment)
    (ht : t = .handler n .findConfirmed) :
    Inv setup usdcIssuer (System.join
      ⟨{ sys.state with stream := some (n + 1) }.setCursor payment.id, sys.threads⟩ t) := by
  subst ht
  have hext : sys.state.Extends ({ sys.state with stream := some (n + 1) }.setCursor payment.id) :=
    ⟨rfl, List.prefix_rfl, fun _ _ _ h => h, fun _ h => h⟩
  have hgrows : sys.Grows (System.join
      ⟨{ sys.state with stream := some (n + 1) }.setCursor payment.id, sys.threads⟩
      (.handler n .findConfirmed)) := by
    refine ⟨hext, fun m hmet => hmet.imp id ?_⟩
    rintro ⟨x, hx, hhandles⟩
    exact ⟨x, List.mem_append_left _ hx, hhandles⟩
  have hpassed := (hreached.mono hgrows).succ hfound fun _ =>
    .inr ⟨_, List.mem_append_right _ (List.mem_singleton.mpr rfl), rfl⟩
  constructor
  case distinct => exact h.distinct
  case tokens => exact h.tokens
  case sound =>
    exact ⟨h.sound.hashes, h.sound.confirmed, h.sound.unrecognised, h.sound.justified⟩
  case cursor => exact .inr ⟨n, payment, hfound, rfl, hpassed⟩
  case stream =>
    intro p hp
    obtain rfl := Option.some.inj hp
    exact hpassed
  case fits =>
    exact forall_mem_append (fun x hx => (h.fits x hx).mono hgrows)
      ⟨payment, hcurrent.mono hext, trivial⟩

theorem Inv.onMessage (h : Inv setup usdcIssuer sys) (hreached : Reached setup sys n)
    (hfound : sys.state.operations[n]? = some payment) :
    Inv setup usdcIssuer (setup.onMessage sys n payment) := by
  unfold Setup.onMessage
  split
  case isTrue hin => exact h.pass hreached hfound ⟨hreached.began, hfound, hin⟩ rfl
  case isFalse hout =>
    refine h.setStream fun p hp => ?_
    obtain rfl := Option.some.inj hp
    exact hreached.succ hfound fun hin => absurd hin hout

theorem Inv.next {a : Action} (h : Inv setup usdcIssuer sys)
    (hcareful : setup.Careful usdcIssuer sys a) (hnext : setup.next sys a = some sys') :
    Inv setup usdcIssuer sys' := by
  cases a with
  | arrive operation =>
    obtain ⟨hnew, hnext⟩ := Option.ite_none_right_eq_some.mp hnext
    obtain rfl := Option.some.inj hnext
    exact h.arrive hnew hcareful
  | invest id tradeDealId amountUsd =>
    obtain ⟨-, hnext⟩ := Option.ite_none_right_eq_some.mp hnext
    obtain rfl := Option.some.inj hnext
    refine h.investments (fun i hi => ⟨i, List.mem_append_left _ hi, rfl, rfl, rfl⟩) ?_
    intro j hj txHash htxHash
    rcases List.mem_append.mp hj with hold | hnew
    · exact ⟨j, hold, htxHash⟩
    · rw [List.mem_singleton.mp hnew] at htxHash
      cases htxHash
  | setStatus id status =>
    obtain rfl := Option.some.inj hnext
    refine h.investments (fun i hi => ?_) fun j hj txHash htxHash => ?_
    · by_cases hid : i.id = id
      · exact ⟨_, mem_update.mpr (.inl ⟨i, hi, decide_eq_true hid, rfl⟩), rfl, rfl, rfl⟩
      · exact ⟨i, mem_update.mpr (.inr ⟨hi, decide_eq_false hid⟩), rfl, rfl, rfl⟩
    · rcases mem_update.mp hj with ⟨i, hi, -, rfl⟩ | ⟨hold, -⟩
      · exact ⟨i, hi, htxHash⟩
      · exact ⟨j, hold, htxHash⟩
  | connect =>
    obtain ⟨-, hnext⟩ := Option.ite_none_right_eq_some.mp hnext
    obtain rfl := Option.some.inj hnext
    exact h.connect hcareful
  | disconnect =>
    obtain rfl := Option.some.inj hnext
    exact h.setStream nofun
  | deliver =>
    obtain ⟨p, hp, hnext⟩ := Option.bind_eq_some_iff.mp hnext
    obtain ⟨payment, hfound, hnext⟩ := Option.bind_eq_some_iff.mp hnext
    obtain rfl := Option.some.inj hnext
    exact h.onMessage (h.stream p hp) hfound
  | pollPaymentsFallback =>
    obtain rfl := Option.some.inj hnext
    exact h.join (h.cursor.mono ⟨.refl _, fun n hmet => hmet.imp id
      fun ⟨x, hx, hhandles⟩ => ⟨x, List.mem_append_left _ hx, hhandles⟩⟩)
  | run w o =>
    obtain ⟨t, hw, hnext⟩ := Option.bind_eq_some_iff.mp hnext
    obtain ⟨⟨s', t'⟩, hstep, hnext⟩ := Option.bind_eq_some_iff.mp hnext
    obtain rfl := Option.some.inj hnext
    exact h.run hw (hcareful t hw) hstep

theorem inv_start (history : History) : Inv setup usdcIssuer (start history) := by
  refine ⟨history.distinct, history.tokens, ⟨?_, ?_, ?_, ?_⟩, .inl rfl, nofun, ?_⟩
  · intro n m payment other hn hfound
    exact absurd hn (Nat.not_le.mpr (List.getElem?_eq_some_iff.mp hfound).1)
  · exact fun i hi => absurd hi List.not_mem_nil
  · exact fun record hrecord => absurd hrecord List.not_mem_nil
  · exact fun n id hid => absurd hid List.not_mem_nil
  · exact fun t ht => absurd ht List.not_mem_nil

theorem Inv.accounted (h : Inv setup usdcIssuer sys) : Accounted setup usdcIssuer sys := by
  constructor
  case justified =>
    intro n id hid
    obtain ⟨payment, _, _, hn, hin, ⟨i, hi, rfl, rfl, rfl⟩, husdc, hnames⟩ :=
      h.sound.justified n id hid
    exact ⟨payment, i, hn, hin, hi, rfl, husdc, hnames⟩
  case once =>
    -- the memo names one investment
    intro n id id' hid hid'
    obtain ⟨payment, _, _, hn, -, -, -, d, i, hparsed, huuid, -⟩ := h.sound.justified n id hid
    obtain ⟨payment', _, _, hn', -, -, -, d', i', hparsed', huuid', -⟩ :=
      h.sound.justified n id' hid'
    obtain rfl := Option.some.inj (hn.symm.trans hn')
    obtain ⟨-, rfl⟩ := Prod.mk.inj (Option.some.inj (hparsed.symm.trans hparsed'))
    exact Option.some.inj (huuid.symm.trans huuid')
  case accounted =>
    intro n m payment passed hn hnm hfound hin hpassed hcursor hnone
    rcases h.cursor with hnow | ⟨k, last, hk, hid, hreached⟩
    · refine absurd (List.mem_map.mpr ⟨passed, List.mem_of_getElem? hpassed, ?_⟩) h.tokens
      exact hcursor.symm.trans hnow
    · have hplace := place_eq h.distinct h.tokens hk
      rw [hid, hcursor, place_eq h.distinct h.tokens hpassed] at hplace
      rcases hreached.met n payment (by omega) ⟨hn, hfound, hin⟩ with hsettled | ⟨t, ht, hhandles⟩
      · exact hsettled
      · exact absurd hhandles (hnone t ht)

/-- Credited once or recorded, while the steps of the run are careful. -/
theorem payments_accounted (setup : Setup) (usdcIssuer : String) (history : History)
    (xs : List (Step System Action)) (sys : System) (hrun : PaymentRun setup history xs sys)
    (hcareful : ∀ x ∈ xs, setup.Careful usdcIssuer x.pre x.act) :
    Accounted setup usdcIssuer sys :=
  (hrun.invariant (Inv setup usdcIssuer) (inv_start history)
    fun x hx hnext hinv => hinv.next (hcareful x hx) hnext).accounted

/-! ## A payment for an investment, and a query that fails -/

/-- An account, and the uuids of one deal and one investment, each without its last hyphen. -/
def platform : Setup where
  platformAccountId := "GPLATFORM"
  trim := id
  uuid text :=
    if text = "d1b2c3d4-e5f6-7890-abcdef1234567890" then
      some "d1b2c3d4-e5f6-7890-abcd-ef1234567890"
    else if text = "a1b2c3d4-e5f6-7890-abcdef1234567890" then
      some "a1b2c3d4-e5f6-7890-abcd-ef1234567890"
    else none

def earlier : Operation :=
  ⟨"100", "payment", "hash-0", "GSENDER", "GPLATFORM", 70000000, none, none, none⟩

def past : History := ⟨[earlier], by decide, by decide⟩

def deposit : Operation where
  id := "101"
  type := "payment"
  transactionHash := "hash-1"
  sender := "GINVESTOR"
  recipient := "GPLATFORM"
  amount := 5000000000
  assetCode := some "USDC"
  assetIssuer := some "GISSUER"
  memo := some "DEAL-d1b2c3d4-e5f6-7890-abcdef1234567890-INV-a1b2c3d4-e5f6-7890-abcdef1234567890"

/-- A payment in XLM without a memo. -/
def gift : Operation :=
  ⟨"102", "payment", "hash-2", "GSENDER", "GPLATFORM", 70000000, none, none, none⟩

def invest : Action :=
  .invest "a1b2c3d4-e5f6-7890-abcd-ef1234567890" "d1b2c3d4-e5f6-7890-abcd-ef1234567890" 5000000000

/-- The stream delivers both payments, and a poll meets the second one at the same time. -/
def streamAndPoll : List Action :=
  [invest, .connect, .arrive deposit, .deliver, .pollPaymentsFallback] ++
    List.replicate 5 (.run 0 .ok) ++ [.arrive gift, .run 1 .ok, .run 1 .ok, .deliver] ++
    List.replicate 3 (.run 1 .ok) ++ List.replicate 4 (.run 2 .ok) ++
    [.run 1 .ok, .run 1 .ok, .disconnect]

theorem payments_accounted_overlapping :
    (replay platform.next (start past) streamAndPoll).2.state.credits =
        [(1, "a1b2c3d4-e5f6-7890-abcd-ef1234567890")] ∧
      (replay platform.next (start past) streamAndPoll).2.state.recorded = [2] ∧
      Accounted platform "GISSUER" (replay platform.next (start past) streamAndPoll).2 := by
  have hrun := run_replay platform.next (start past) streamAndPoll
  exact ⟨by decide +kernel, by decide +kernel,
    payments_accounted _ _ _ _ _ hrun (by decide +kernel)⟩

/-- The first query for the payment fails. -/
def databaseDown : List Action :=
  [invest, .connect, .arrive deposit, .deliver, .run 0 .fail]

theorem payment_lost :
    ¬ ∀ (setup : Setup) (usdcIssuer : String) (history : History)
        (xs : List (Step System Action)) (sys : System), PaymentRun setup history xs sys →
      Accounted setup usdcIssuer sys := by
  intro h
  have hrun := run_replay platform.next (start past) databaseDown
  have haccounted := (h platform "GISSUER" past _ _ hrun).accounted 1 1 deposit deposit
    (by decide +kernel) (by decide +kernel) (by decide +kernel) (by decide +kernel)
    (by decide +kernel) (by decide +kernel)
  have hsettled := haccounted fun t ht => by
    have hthreads : (replay platform.next (start past) databaseDown).2.threads = [.finished] := by
      decide +kernel
    rw [hthreads, List.mem_singleton] at ht
    rw [ht]
    exact id
  rcases hsettled with ⟨id, hid⟩ | hrecorded
  · have hcredits : (replay platform.next (start past) databaseDown).2.state.credits = [] := by
      decide +kernel
    rw [hcredits] at hid
    exact absurd hid List.not_mem_nil
  · revert hrecorded
    decide +kernel

end AgriFi.StellarMonitor
