import AgriFi.Insurance.Service
import AgriFi.Threads

/-
  That a claim is paid at most once. A webhook acquires the payout by a conditional update, but an
  approval or a rejection saves the row as it found it before, whatever happened since: a stale
  approval makes a paid claim payable again (`paid_twice`). `paid_once`: in every run in which no
  approval or rejection saves a claim whose payout was acquired, an acquired claim has the approved
  amount that the webhook read, and the amounts survive being read as numbers, there is at most one
  release, of the approved amount, and a paid claim stays paid.
-/

namespace AgriFi.Insurance

open AgriFi.Binary64 AgriFi.Runs AgriFi.Threads

/-! ## What is claimed -/

structure PaidOnce (policy : InsurancePolicy) (xs : List (Step System Action)) (s : System) :
    Prop where
  once : s.state.released.length ≤ 1
  exact : ∀ amount ∈ s.state.released, ∃ approved ∈ s.state.claim.approvedAmount,
    amount = cents approved
  bounded : ∀ approved ∈ s.state.claim.approvedAmount, approved ≤ s.state.claim.amount
  covered : s.state.claim.amount ≤ policy.coverageAmount
  kept : ∀ x ∈ xs, x.pre.state.released ≠ [] → x.post.state.claim.status ≠ .rejected
  final : ∀ x ∈ xs, x.pre.state.claim.status = .paid → x.post.state.claim.status = .paid

/-! ## When it holds -/

/-- A payout webhook has acquired the claim. -/
def InsuranceClaim.Acquired (claim : InsuranceClaim) : Prop :=
  claim.status = .payoutProcessing ∨ claim.status = .paid

instance (claim : InsuranceClaim) : Decidable claim.Acquired :=
  inferInstanceAs (Decidable (_ ∨ _))

/-- What the next step of a webhook needs of the row. -/
def Pc.Settled (claim : InsuranceClaim) : Pc → Prop
  | .saveRejected _ | .saveApproved _ | .savePending _ => ¬claim.Acquired
  | .acquire found _ =>
    claim.status = .payoutPending → claim.approvedAmount = found.approvedAmount
  | _ => True

instance (claim : InsuranceClaim) (pc : Pc) : Decidable (pc.Settled claim) := by
  unfold Pc.Settled
  split <;> infer_instance

def System.Settled (s : System) : Action → Prop
  | .receive _ => True
  | .run w _ => ∀ pc ∈ s.threads[w]?, pc.Settled s.state.claim

instance (s : System) (a : Action) : Decidable (s.Settled a) := by
  unfold System.Settled
  split <;> infer_instance

/-- The amount is the same after it was read as a number. -/
def Survives (amount : Int) : Prop := toFixed (cents amount) = amount

instance (amount : Int) : Decidable (Survives amount) := inferInstanceAs (Decidable (_ = _))

theorem toFixed_mono {x y : Rat} (h : x ≤ y) : toFixed x ≤ toFixed y := by
  refine Int.floor_le_floor ?_
  linarith

/-- So it is with every amount up to ten trillion dollars. -/
theorem survives_of_le {amount : Int} (h : |amount| ≤ 2 ^ 50) : Survives amount := by
  have hnear := cents_near amount
  have hbound : |(amount : Rat)| ≤ 2 ^ 50 := by exact_mod_cast h
  refine mathRound_eq ?_
  have hfactor : cents amount * 100 - amount = (cents amount - amount / 100) * 100 := by ring
  rw [hfactor, abs_mul, abs_of_pos (by norm_num : (0 : Rat) < 100)]
  linarith

theorem toFixed_le {amount : Int} {x : Rat} (hsurvives : Survives amount) (h : x ≤ cents amount) :
    toFixed x ≤ amount := by
  have hle := toFixed_mono h
  rwa [hsurvives] at hle

/-! ## The invariant -/

/-- The claimed amount, and an approved amount that it covers. -/
structure Bounded (amount : Int) (claim : InsuranceClaim) : Prop where
  claimed : claim.amount = amount
  approved : ∀ approved ∈ claim.approvedAmount, approved ≤ amount

/-- What is known of the claim that a webhook holds. -/
def Pc.Holds (amount : Int) : Pc → Prop
  | .saveRejected claim | .saveApproved claim | .initiatePayout claim | .savePending claim =>
    Bounded amount claim
  | .acquire claim payoutAmount => Bounded amount claim ∧ payoutAmount = number claim.approvedAmount
  | .release claim _ => Bounded amount claim
  | .savePaid claim => Bounded amount claim ∧ claim.status = .paid
  | _ => True

/-- A webhook between acquiring the claim and its last save. -/
def Pc.Inside : Pc → Prop
  | .release _ _ | .savePaid _ => True
  | _ => False

/-- What the row says while a webhook is inside. -/
def Pc.Entered (s : State) : Pc → Prop
  | .release claim payoutAmount => s.claim.status = .payoutProcessing ∧ s.released = [] ∧
    claim.approvedAmount = s.claim.approvedAmount ∧ payoutAmount = number s.claim.approvedAmount
  | .savePaid claim => s.claim.status = .payoutProcessing ∧
    claim.approvedAmount = s.claim.approvedAmount
  | _ => True

structure Inv (amount : Int) (s : System) : Prop where
  row : Bounded amount s.state.claim
  holds : ∀ pc ∈ s.threads, pc.Holds amount
  alone : AtMostOneInside Pc.Inside s.threads
  entered : ∀ pc ∈ s.threads, pc.Entered s.state
  before : ¬s.state.claim.Acquired → s.state.released = []
  once : s.state.released.length ≤ 1
  exact : ∀ paid ∈ s.state.released, 0 < paid ∧ paid = number s.state.claim.approvedAmount

section Steps

variable {amount : Int} {s s' : System} {state : State} {claim found : InsuranceClaim} {pc pc' : Pc}
  {dto : InsuranceProviderWebhookDto} {input : Input} {w : Nat} {payoutAmount : Rat}

theorem entered_of_outside (h : ¬pc.Inside) : pc.Entered state := by
  cases pc with
  | release claim payoutAmount => exact absurd trivial h
  | savePaid claim => exact absurd trivial h
  | _ => trivial

theorem acquired_of_entered (h : pc.Entered state) (hin : pc.Inside) : state.claim.Acquired := by
  cases pc with
  | release claim payoutAmount => exact .inl h.1
  | savePaid claim => exact .inl h.1
  | _ => exact absurd hin id

theorem handleProviderWebhook_holds (hsurvives : Survives amount) (h : Bounded amount claim)
    (hok : handleProviderWebhook claim dto = .ok pc) : pc.Holds amount ∧ ¬pc.Inside := by
  unfold handleProviderWebhook at hok
  split at hok
  · cases hok
  split at hok
  case h_1 =>
    split at hok
    · cases hok
    · cases hok
      exact ⟨⟨h.claimed, h.approved⟩, id⟩
  case h_2 =>
    dsimp only at hok
    split at hok
    · cases hok
      exact ⟨trivial, id⟩
    split at hok
    · cases hok
    split at hok
    · cases hok
    next hle =>
    cases hok
    refine ⟨⟨h.claimed, fun approved happroved => ?_⟩, id⟩
    obtain rfl := Option.some.inj happroved
    rw [h.claimed, not_lt] at hle
    rw [h.claimed]
    exact toFixed_le hsurvives hle
  case h_3 =>
    unfold completePayout at hok
    dsimp only at hok
    split at hok
    · cases hok
      exact ⟨trivial, id⟩
    split at hok
    · cases hok
    split at hok
    · cases hok
    split at hok
    · cases hok
    next hsame =>
    cases hok
    exact ⟨⟨h, not_not.mp hsame⟩, id⟩

theorem initiatePayout_holds (h : Bounded amount claim)
    (hok : initiatePayout claim input = .ok pc) : pc.Holds amount ∧ ¬pc.Inside := by
  unfold initiatePayout at hok
  split at hok
  · cases hok
  split at hok
  · cases hok
  split at hok
  · cases hok
    exact ⟨trivial, id⟩
  split at hok
  · cases hok
  · cases hok
    exact ⟨⟨h.claimed, h.approved⟩, id⟩

theorem orDone_holds {r : Except String Pc} (h : ∀ pc, r = .ok pc → pc.Holds amount ∧ ¬pc.Inside) :
    (orDone r).Holds amount ∧ ¬(orDone r).Inside := by
  cases r with
  | error message => exact ⟨trivial, id⟩
  | ok pc => exact h pc rfl

/-- A webhook that leaves the row as it is, and does not acquire it. -/
theorem Inv.stay (h : Inv amount s) (hw : s.threads[w]? = some pc) (hholds : pc'.Holds amount)
    (hout : ¬pc'.Inside) : Inv amount ⟨s.state, s.threads.set w pc'⟩ := by
  constructor
  case row => exact h.row
  case holds => exact forall_mem_set (others_of_forall h.holds) hholds
  case alone => exact h.alone.set hw fun hin => absurd hin hout
  case entered => exact forall_mem_set (others_of_forall h.entered) (entered_of_outside hout)
  case before => exact h.before
  case once => exact h.once
  case exact => exact h.exact

/-- While nobody has acquired the claim, a webhook may save it. -/
theorem Inv.save (h : Inv amount s) (hw : s.threads[w]? = some pc) (hfree : ¬s.state.claim.Acquired)
    (hclaim : Bounded amount claim) (hholds : pc'.Holds amount)
    (hout : ¬pc'.Inside) : Inv amount ⟨s.state.save claim, s.threads.set w pc'⟩ := by
  have hnone : s.state.released = [] := h.before hfree
  have houtside : ∀ pc ∈ s.threads, ¬pc.Inside := by
    intro pc hpc hin
    exact hfree (acquired_of_entered (h.entered pc hpc) hin)
  constructor
  case row => exact hclaim
  case holds => exact forall_mem_set (others_of_forall h.holds) hholds
  case alone => exact h.alone.set hw fun hin => absurd hin hout
  case entered =>
    refine forall_mem_set (fun v pc hv _ => ?_) (entered_of_outside hout)
    exact entered_of_outside (houtside pc (List.mem_of_getElem? hv))
  case before => exact fun _ => hnone
  case once => exact h.once
  case exact =>
    intro paid hpaid
    have hmem : paid ∈ s.state.released := hpaid
    rw [hnone] at hmem
    cases hmem

theorem Inv.acquire (h : Inv amount s) (hw : s.threads[w]? = some (.acquire found payoutAmount))
    (hpending : s.state.claim.status = .payoutPending)
    (hsame : s.state.claim.approvedAmount = found.approvedAmount)
    (hin : pc' = .release found payoutAmount ∨ pc' = .done) :
    Inv amount ⟨s.state.save { s.state.claim with status := .payoutProcessing },
      s.threads.set w pc'⟩ := by
  have hfree : ¬s.state.claim.Acquired := by
    unfold InsuranceClaim.Acquired
    rw [hpending]
    decide
  have hnone : s.state.released = [] := h.before hfree
  have houtside : ∀ pc ∈ s.threads, ¬pc.Inside := by
    intro pc hpc hin
    exact hfree (acquired_of_entered (h.entered pc hpc) hin)
  obtain ⟨hfound, hamount⟩ := h.holds _ (List.mem_of_getElem? hw)
  constructor
  case row => exact ⟨h.row.claimed, h.row.approved⟩
  case holds =>
    refine forall_mem_set (others_of_forall h.holds) ?_
    rcases hin with rfl | rfl
    · exact hfound
    · trivial
  case alone =>
    refine h.alone.set hw fun _ => .inr fun v pc hv _ => ?_
    exact houtside pc (List.mem_of_getElem? hv)
  case entered =>
    refine forall_mem_set (fun v pc hv _ => ?_) ?_
    · exact entered_of_outside (houtside pc (List.mem_of_getElem? hv))
    · rcases hin with rfl | rfl
      · refine ⟨rfl, hnone, hsame.symm, ?_⟩
        rw [hamount, ← hsame]
        rfl
      · trivial
  case before => exact fun _ => hnone
  case once => exact h.once
  case exact =>
    intro paid hpaid
    have hmem : paid ∈ s.state.released := hpaid
    rw [hnone] at hmem
    cases hmem

theorem Inv.release (h : Inv amount s) (hw : s.threads[w]? = some (.release found payoutAmount))
    (hpos : 0 < payoutAmount)
    (hin : pc' = .savePaid { found with payoutTxHash := some input.hash, status := .paid } ∨
      pc' = .done) :
    Inv amount ⟨{ s.state with released := s.state.released ++ [payoutAmount] },
      s.threads.set w pc'⟩ := by
  obtain ⟨hstatus, hnone, happroved, hamount⟩ := h.entered _ (List.mem_of_getElem? hw)
  have hfound : Bounded amount found := h.holds _ (List.mem_of_getElem? hw)
  have hothers : ∀ v pc, s.threads[v]? = some pc → v ≠ w → ¬pc.Inside :=
    fun v pc hv hne => h.alone.others hw trivial hv hne
  constructor
  case row => exact h.row
  case holds =>
    refine forall_mem_set (others_of_forall h.holds) ?_
    rcases hin with rfl | rfl
    · exact ⟨⟨hfound.claimed, hfound.approved⟩, rfl⟩
    · trivial
  case alone => exact h.alone.set hw fun _ => .inl trivial
  case entered =>
    refine forall_mem_set (fun v pc hv hne => entered_of_outside (hothers v pc hv hne)) ?_
    rcases hin with rfl | rfl
    · exact ⟨hstatus, happroved⟩
    · trivial
  case before => exact fun hfree => absurd (.inl hstatus) hfree
  case once =>
    show (s.state.released ++ [payoutAmount]).length ≤ 1
    rw [hnone]
    exact Nat.le_refl 1
  case exact =>
    intro paid hpaid
    have hmem : paid ∈ s.state.released ++ [payoutAmount] := hpaid
    rw [hnone, List.nil_append, List.mem_singleton] at hmem
    rw [hmem]
    exact ⟨hpos, hamount⟩

theorem Inv.savePaid (h : Inv amount s) (hw : s.threads[w]? = some (.savePaid found)) :
    Inv amount ⟨s.state.save found, s.threads.set w .done⟩ := by
  obtain ⟨hstatus, happroved⟩ := h.entered _ (List.mem_of_getElem? hw)
  obtain ⟨hfound, hpaid⟩ := h.holds _ (List.mem_of_getElem? hw)
  have hothers : ∀ v pc, s.threads[v]? = some pc → v ≠ w → ¬pc.Inside :=
    fun v pc hv hne => h.alone.others hw trivial hv hne
  constructor
  case row => exact hfound
  case holds => exact forall_mem_set (others_of_forall h.holds) trivial
  case alone => exact h.alone.set hw fun hin => absurd hin id
  case entered =>
    exact forall_mem_set (fun v pc hv hne => entered_of_outside (hothers v pc hv hne)) trivial
  case before => exact fun hfree => absurd (.inr hpaid) hfree
  case once => exact h.once
  case exact =>
    intro paid hmem
    show 0 < paid ∧ paid = number found.approvedAmount
    rw [happroved]
    exact h.exact paid hmem

/-- A claim that is acquired stays as it is or is paid. -/
def Forward (claim claim' : InsuranceClaim) : Prop :=
  claim.Acquired → claim'.status = claim.status ∨
    claim.status = .payoutProcessing ∧ claim'.status = .paid

theorem proceed_keeps (hsurvives : Survives amount) (h : Inv amount s)
    (hw : s.threads[w]? = some pc) (hsettled : pc.Settled s.state.claim)
    (hpc : pc' = (proceed s.state input pc).2 ∨ pc' = .done) :
    Inv amount ⟨(proceed s.state input pc).1, s.threads.set w pc'⟩ ∧
      Forward s.state.claim (proceed s.state input pc).1.claim := by
  have hholds := h.holds pc (List.mem_of_getElem? hw)
  have hdone : ∀ {x : Pc}, x.Holds amount ∧ ¬x.Inside → pc' = x ∨ pc' = .done →
      pc'.Holds amount ∧ ¬pc'.Inside := by
    rintro x hx (rfl | rfl)
    · exact hx
    · exact ⟨trivial, id⟩
  have hstay : pc'.Holds amount ∧ ¬pc'.Inside →
      Inv amount ⟨s.state, s.threads.set w pc'⟩ ∧ Forward s.state.claim s.state.claim :=
    fun hx => ⟨h.stay hw hx.1 hx.2, fun _ => .inl rfl⟩
  cases pc with
  | find dto =>
    refine hstay (hdone (orDone_holds fun x hok => ?_) hpc)
    exact handleProviderWebhook_holds hsurvives h.row hok
  | saveRejected claim =>
    obtain ⟨hx, hout⟩ := hdone (x := .done) ⟨trivial, id⟩ hpc
    exact ⟨h.save hw hsettled hholds hx hout, fun hacquired => absurd hacquired hsettled⟩
  | saveApproved claim =>
    obtain ⟨hx, hout⟩ := hdone (x := .initiatePayout claim) ⟨hholds, id⟩ hpc
    exact ⟨h.save hw hsettled hholds hx hout, fun hacquired => absurd hacquired hsettled⟩
  | initiatePayout claim =>
    refine hstay (hdone (orDone_holds fun x hok => ?_) hpc)
    exact initiatePayout_holds hholds hok
  | savePending claim =>
    obtain ⟨hx, hout⟩ := hdone (x := .done) ⟨trivial, id⟩ hpc
    exact ⟨h.save hw hsettled hholds hx hout, fun hacquired => absurd hacquired hsettled⟩
  | acquire claim payoutAmount =>
    simp only [proceed] at hpc ⊢
    by_cases hready : input.hasWallet = true ∧ s.state.claim.status = .payoutPending
    · rw [if_pos hready] at hpc ⊢
      refine ⟨h.acquire hw hready.2 (hsettled hready.2) hpc, fun hacquired => ?_⟩
      rcases hacquired with hstatus | hstatus
      · rw [hready.2] at hstatus
        cases hstatus
      · rw [hready.2] at hstatus
        cases hstatus
    · rw [if_neg hready] at hpc ⊢
      exact hstay (hdone (x := .done) ⟨trivial, id⟩ hpc)
  | release claim payoutAmount =>
    simp only [proceed] at hpc ⊢
    by_cases hpos : 0 < payoutAmount
    · rw [if_pos hpos] at hpc ⊢
      exact ⟨h.release hw hpos hpc, fun _ => .inl rfl⟩
    · rw [if_neg hpos] at hpc ⊢
      exact hstay (hdone (x := .done) ⟨trivial, id⟩ hpc)
  | savePaid claim =>
    obtain rfl : pc' = .done := hpc.elim id id
    obtain ⟨hprocessing, -⟩ := h.entered _ (List.mem_of_getElem? hw)
    exact ⟨h.savePaid hw, fun _ => .inr ⟨hprocessing, hholds.2⟩⟩
  | done =>
    exact hstay (hdone (x := .done) ⟨trivial, id⟩ hpc)

theorem next_keeps {a : Action} (hsurvives : Survives amount) (h : Inv amount s)
    (hsettled : s.Settled a) (hstep : next s a = some s') :
    Inv amount s' ∧ Forward s.state.claim s'.state.claim := by
  cases a with
  | receive dto =>
    obtain rfl := Option.some.inj hstep
    refine ⟨?_, fun _ => .inl rfl⟩
    constructor
    case row => exact h.row
    case holds => exact forall_mem_append h.holds trivial
    case alone => exact h.alone.append id
    case entered => exact forall_mem_append h.entered trivial
    case before => exact h.before
    case once => exact h.once
    case exact => exact h.exact
  | run w input =>
    obtain ⟨pc, hw, hmove⟩ := Option.bind_eq_some_iff.mp hstep
    have hok : pc.Settled s.state.claim := hsettled pc hw
    obtain rfl := Option.some.inj hmove
    cases input.outcome with
    | ok => exact proceed_keeps hsurvives h hw hok (.inl rfl)
    | fail => exact ⟨h.stay hw trivial id, fun _ => .inl rfl⟩
    | lost => exact proceed_keeps hsurvives h hw hok (.inr rfl)

end Steps

/-! ## Runs -/

section Runs

variable {policy : InsurancePolicy} {dto : CreateInsuranceClaimDto} {delivery : Delivery}
  {claim : InsuranceClaim} {xs : List (Step System Action)} {s : System}

theorem sendClaimToProvider_kept (claim : InsuranceClaim) (delivery : Delivery) :
    (sendClaimToProvider claim delivery).amount = claim.amount ∧
    (sendClaimToProvider claim delivery).approvedAmount = claim.approvedAmount ∧
      (¬claim.Acquired → ¬(sendClaimToProvider claim delivery).Acquired) := by
  unfold sendClaimToProvider
  dsimp only
  split
  · exact ⟨rfl, rfl, fun _ => by simp [InsuranceClaim.Acquired]⟩
  split
  · exact ⟨rfl, rfl, fun _ => by simp [InsuranceClaim.Acquired]⟩
  · exact ⟨rfl, rfl, id⟩

theorem submitted_bounded (hcoverage : Survives policy.coverageAmount)
    (hclaim : submitted policy dto delivery = .ok claim) :
    claim.amount ≤ policy.coverageAmount ∧ claim.approvedAmount = none ∧ ¬claim.Acquired := by
  unfold submitted submitClaim at hclaim
  split at hclaim
  · cases hclaim
  split at hclaim
  · cases hclaim
  split at hclaim
  · cases hclaim
  next hle =>
  obtain rfl := Except.ok.inj hclaim
  obtain ⟨hamount, happroved, hacquired⟩ := sendClaimToProvider_kept {
    eventType := dto.eventType
    amount := toFixed dto.amount
    approvedAmount := none
    providerClaimId := none
    providerPayoutId := none
    payoutTxHash := none
    status := .submitted } delivery
  refine ⟨hamount.trans_le (toFixed_le hcoverage (not_lt.mp hle)), happroved, hacquired ?_⟩
  simp [InsuranceClaim.Acquired]

theorem inv_start (happroved : claim.approvedAmount = none) : Inv claim.amount (start claim) := by
  constructor
  case row =>
    refine ⟨rfl, fun approved hmem => ?_⟩
    have hsome : claim.approvedAmount = some approved := hmem
    rw [happroved] at hsome
    cases hsome
  case alone => exact atMostOneInside_nil
  case before => exact fun _ => rfl
  case once => exact Nat.zero_le 1
  all_goals
    intro x hx
    cases hx

theorem number_pos {amount : Option Int} (h : 0 < number amount) :
    ∃ approved ∈ amount, number amount = cents approved := by
  cases amount with
  | none =>
    have hzero : number none = 0 := cents_zero
    rw [hzero] at h
    exact absurd h (lt_irrefl 0)
  | some approved => exact ⟨approved, rfl, rfl⟩

/-- When no approval or rejection saves an acquired claim, an acquired claim has the approved amount
    that was read, and the amounts survive, the claim is paid at most once. -/
theorem paid_once (hclaim : submitted policy dto delivery = .ok claim)
    (hrun : WebhookRun claim xs s) (hcoverage : Survives policy.coverageAmount)
    (hamount : Survives claim.amount) (hsettled : ∀ x ∈ xs, x.pre.Settled x.act) :
    PaidOnce policy xs s := by
  obtain ⟨hcovered, happroved, -⟩ := submitted_bounded hcoverage hclaim
  have hstep : ∀ x ∈ xs, next x.pre x.act = some x.post → Inv claim.amount x.pre →
      Inv claim.amount x.post :=
    fun x hx hnext hpre => (next_keeps hamount hpre (hsettled x hx) hnext).1
  have hinv : Inv claim.amount s := hrun.invariant _ (inv_start happroved) hstep
  have hforward : ∀ x ∈ xs, Inv claim.amount x.pre ∧
      Forward x.pre.state.claim x.post.state.claim := by
    intro x hx
    obtain ⟨hnext, hpre, -⟩ := hrun.steps_invariant _ (inv_start happroved) hstep x hx
    exact ⟨hpre, (next_keeps hamount hpre (hsettled x hx) hnext).2⟩
  constructor
  case once => exact hinv.once
  case exact =>
    intro paid hpaid
    obtain ⟨hpos, rfl⟩ := hinv.exact paid hpaid
    exact number_pos hpos
  case bounded =>
    rw [hinv.row.claimed]
    exact hinv.row.approved
  case covered =>
    rw [hinv.row.claimed]
    exact hcovered
  case kept =>
    intro x hx hreleased hrejected
    obtain ⟨hpre, hmoves⟩ := hforward x hx
    have hacquired : x.pre.state.claim.Acquired := by
      by_contra hfree
      exact hreleased (hpre.before hfree)
    rcases hmoves hacquired with hsame | ⟨-, hpaid⟩
    · rw [hrejected] at hsame
      unfold InsuranceClaim.Acquired at hacquired
      rw [← hsame] at hacquired
      simp at hacquired
    · rw [hrejected] at hpaid
      cases hpaid
  case final =>
    intro x hx hpaid
    rcases (hforward x hx).2 (.inr hpaid) with hsame | ⟨-, hpost⟩
    · exact hsame.trans hpaid
    · exact hpost

end Runs

/-! ## A stale approval -/

/-- A claim of five hundred dollars under a policy of a thousand. -/
def harvestPolicy : InsurancePolicy := ⟨.cropFailure, 100000, .active⟩

def harvestLoss : CreateInsuranceClaimDto := ⟨.cropFailure, 500⟩

def harvestDelivery : Delivery := ⟨some "claim-1", true, true⟩

def harvestClaim : InsuranceClaim :=
  ⟨.cropFailure, 50000, none, some "claim-1", none, none, .submitted⟩

def approval : InsuranceProviderWebhookDto := ⟨"claim-1", .approved, some 300, none, none⟩

def payout : InsuranceProviderWebhookDto := ⟨"claim-1", .paid, none, some "payout-1", none⟩

def succeeds : Input := ⟨.ok, true, true, some "payout-1", "hash-1"⟩

/-- A step of the webhook that succeeds. -/
def run (w : Nat) : Action := .run w succeeds

/-- An approval, and then the payout. -/
def approvedAndPaid : List Action :=
  [.receive approval, run 0, run 0, run 0, run 0, .receive payout, run 1, run 1, run 1, run 1]

theorem paid_once_harvest :
    PaidOnce harvestPolicy (replay next (start harvestClaim) approvedAndPaid).1
        (replay next (start harvestClaim) approvedAndPaid).2 ∧
      (replay next (start harvestClaim) approvedAndPaid).2.state.released = [300] := by
  have hrun := run_replay next (start harvestClaim) approvedAndPaid
  have hclaim : submitted harvestPolicy harvestLoss harvestDelivery = .ok harvestClaim := by
    decide +kernel
  exact ⟨paid_once hclaim hrun (by decide +kernel) (by decide +kernel) (by decide +kernel),
    by decide +kernel⟩

/-- A second delivery of the approval has read the claim before the first one saved it, and saves it
    after the payout; the payout is delivered twice as well. -/
def approvedTwice : List Action :=
  [.receive approval, .receive approval, run 1] ++ [run 0, run 0, run 0, run 0] ++
    [.receive payout, run 2, run 2, run 2, run 2] ++ [run 1, run 1, run 1] ++
    [.receive payout, run 3, run 3, run 3]

theorem paid_twice :
    ¬ ∀ (policy : InsurancePolicy) (dto : CreateInsuranceClaimDto) (delivery : Delivery)
        (claim : InsuranceClaim) (xs : List (Step System Action)) (s : System),
      submitted policy dto delivery = .ok claim → WebhookRun claim xs s → PaidOnce policy xs s := by
  intro h
  have hclaim : submitted harvestPolicy harvestLoss harvestDelivery = .ok harvestClaim := by
    decide +kernel
  have honce := (h _ _ _ _ _ _ hclaim (run_replay next (start harvestClaim) approvedTwice)).once
  revert honce
  decide +kernel

end AgriFi.Insurance
