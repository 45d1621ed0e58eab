import AgriFi.FarmCampaign.Moves
import AgriFi.FarmCampaign.Payouts

/-
  The life cycle of a campaign. `StageStep` lists every way a call can change the status or end
  the raise, and `stageStep_of_moves` shows there is no other. `unpause` writes `Open` whatever
  the status was, so an approved campaign can be taken back (`lifecycle_reopens`); the last
  status that was not `Paused` is a history variable, and when every `unpause` finds it at
  `Open` a run never goes backwards (`forward_run`). A failed campaign stays failed and pays its
  farmer nothing more, except where `resolve_dispute` executes a Release verdict it still holds
  (`failure_pays_farmer`, `failed_run_final`).
-/

namespace AgriFi.FarmCampaign

open AgriFi.Soroban AgriFi.Runs

variable {Addr : Type} [LinearOrder Addr]

/-! ## Status steps -/

/-- `resolve_dispute` on milestone `i` has the outcome `release` left to execute. -/
def Campaign.Executes (c : Campaign Addr) (i : Nat) (release : Bool) : Prop :=
  ∃ d, c.disputeRecord i = some d ∧ ¬ d.Executed ∧ d.decision = release

instance (c : Campaign Addr) (i : Nat) (release : Bool) : Decidable (c.Executes i release) :=
  match h : c.disputeRecord i with
  | none => isFalse fun ⟨_, hd, _⟩ => by simp [h] at hd
  | some d =>
    decidable_of_iff (¬ d.Executed ∧ d.decision = release)
      ⟨fun hx => ⟨d, h, hx⟩, fun ⟨_, hd, hx⟩ => Option.some.inj (h.symm.trans hd) ▸ hx⟩

/-- The status and the `raise_ended` flag a call can leave behind. -/
inductive StageStep (c : Campaign Addr) : Call Addr → CampaignStatus → Bool → Prop
  | stay {call : Call Addr} : StageStep c call c.state.status c.state.raiseEnded
  | fund {investor : Addr} {amount : Int} :
      c.state.status = .open → c.state.raiseEnded = false →
      StageStep c (.invest investor amount) .funded false
  | close {admin : Addr} {reason : String} :
      c.state.raiseEnded = false → StageStep c (.earlyClose admin reason) c.state.status true
  | approve {admin : Addr} :
      c.state.status = .funded → StageStep c (.approve admin) .active c.state.raiseEnded
  | deliver {admin : Addr} {i : Nat} :
      c.state.status = .active →
      StageStep c (.releaseMilestone admin i) .delivered c.state.raiseEnded
  | complete {admin : Addr} {revenue : Int} :
      c.state.status = .delivered →
      StageStep c (.distributeRevenue admin revenue) .completed c.state.raiseEnded
  | pause {admin : Addr} : c.state.raiseEnded = false → StageStep c (.pause admin) .paused false
  | unpause {admin : Addr} : c.state.raiseEnded = false → StageStep c (.unpause admin) .open false
  | markFailed {admin : Addr} :
      c.state.raiseEnded = false → StageStep c (.markFailed admin) .failed true
  | verdictRelease {caller : Addr} {i : Nat} :
      c.Executes i true → StageStep c (.resolveDispute caller i) .delivered c.state.raiseEnded
  | verdictRefund {caller : Addr} {i : Nat} :
      c.Executes i false → StageStep c (.resolveDispute caller i) .failed true

/-- What `apply_proportional_refund` does to the status fields. -/
theorem stage_of_split {c c' : Campaign Addr} {target total : Int}
    (h : applyProportionalRefund c target = .ok (c', total)) :
    c'.state.status = c.state.status ∧ c'.state.raiseEnded = true := by
  obtain ⟨_, _, rfl⟩ := applyProportionalRefund_frame h
  exact ⟨rfl, rfl⟩

variable {env : Env Addr} {w w' : World Addr} {call : Call Addr}

theorem stageStep_of_moves (h : Moves env w call w') :
    StageStep w.campaign call w'.campaign.state.status w'.campaign.state.raiseEnded := by
  cases h with
  | invest hi he hs ha hd hr =>
    simp only [collected_campaign, Campaign.invested]
    split
    · next hfund =>
      rw [he]
      exact .fund hfund.1 he
    · exact .stay
  | earlyClose he hs hp =>
    obtain ⟨h1, h2⟩ := stage_of_split hp
    dsimp only
    rw [h1, h2]
    exact .close he
  | approve hs => exact .approve hs
  | releaseMilestone hs =>
    simp only [paid_campaign, Campaign.trancheReleased]
    split
    · exact .deliver hs
    · exact .stay
  | distributeRevenue hs hd hr hf hp hfee =>
    rw [(distribution_onlyTransfers hp hfee).campaign_eq]
    exact .complete hs
  | pause he => exact he ▸ .pause he
  | unpause he => exact he ▸ .unpause he
  | markFailed he hp =>
    obtain ⟨h1, h2⟩ := stage_of_split hp
    dsimp only
    rw [h1, h2]
    exact .markFailed he
  | resolveRelease hd hx hdec hr =>
    simp only [paid_campaign, Campaign.trancheReleased]
    split
    · exact .verdictRelease ⟨_, hd, hx, hr⟩
    · exact .stay
  | resolveRefund hd hx hdec hr hp =>
    obtain ⟨h1, h2⟩ := stage_of_split hp
    dsimp only
    rw [h1, h2]
    exact .verdictRefund ⟨_, hd, hx, hr⟩
  | _ => exact .stay

variable {w₀ : World Addr} {xs : List (CallStep Addr)}

theorem stageStep_of_callStep {inv : Invocation Addr} (h : callStep w inv = some w') :
    StageStep w.campaign inv.call w'.campaign.state.status w'.campaign.state.raiseEnded := by
  obtain ⟨_, hm⟩ := moves_of_step h
  exact stageStep_of_moves (w := w.enter inv.env) hm

theorem Fresh.status_open (h : Fresh w) : w.campaign.state.status = .open := by
  rw [h.campaign_eq]
  rfl

/-- A failed campaign's raise has ended. -/
theorem Reachable.ended_of_failed (h : Reachable w) (hf : w.campaign.state.status = .failed) :
    w.campaign.state.raiseEnded = true := by
  obtain ⟨w₀, hinit, hr⟩ := h
  refine hr.invariant
    (fun w => w.campaign.state.status = .failed → w.campaign.state.raiseEnded = true) ?_ ?_ hf
  · intro hf
    rw [hinit.fresh.status_open] at hf
    simp at hf
  · intro u a u' hs hu
    have hstage := stageStep_of_callStep hs
    generalize a.call = call at hstage
    generalize u'.campaign.state.status = st at hstage ⊢
    generalize u'.campaign.state.raiseEnded = ended at hstage ⊢
    cases hstage with
    | stay => exact hu
    | close => exact fun _ => rfl
    | markFailed => exact fun _ => rfl
    | verdictRefund => exact fun _ => rfl
    | _ => simp

/-! ## Never backwards -/

def Call.isApprove : Call Addr → Bool
  | .approve _ => true
  | _ => false

def Call.isInvest : Call Addr → Bool
  | .invest _ _ => true
  | _ => false

def Call.isUnpause : Call Addr → Bool
  | .unpause _ => true
  | _ => false

/-- The last status that was not `Paused`, as a history variable. -/
def nextUnpaused (last : CampaignStatus) (x : CallStep Addr) : CampaignStatus :=
  if x.post.campaign.state.status = .paused then last else x.post.campaign.state.status

/-- The step invests nothing, and the campaign is neither `Open` nor `Funded` after it. -/
def StepsForward (x : CallStep Addr) : Prop :=
  x.act.call.isInvest = false ∧ x.post.campaign.state.status ≠ .open ∧
    x.post.campaign.state.status ≠ .funded

instance (x : CallStep Addr) : Decidable (StepsForward x) := inferInstanceAs (Decidable (_ ∧ _))

/-- After an `approve` nothing is invested, and the status is never `Open` or `Funded` again. -/
def StaysApproved (xs : List (CallStep Addr)) : Prop :=
  xs.Pairwise fun x y => x.act.call.isApprove = true → StepsForward y

/-- Unpausing a paused campaign gives it back the status it had before the pause. -/
def UnpauseRestores (xs : List (CallStep Addr)) : Prop :=
  Along nextUnpaused (fun last x => x.act.call.isUnpause = true →
    x.pre.campaign.state.status = .paused → x.post.campaign.state.status = last) .open xs

def RunsForward (xs : List (CallStep Addr)) : Prop := StaysApproved xs ∧ UnpauseRestores xs

instance (xs : List (CallStep Addr)) : Decidable (RunsForward xs) := by
  unfold RunsForward StaysApproved UnpauseRestores
  infer_instance

/-- An approved campaign is paused and unpaused, and takes an investment again. -/
def reopeningCalls : List (Nat × Call Nat) :=
  [(1, .invest 10 10000), (2, .approve 0), (3, .pause 0), (4, .unpause 0), (5, .invest 11 10)]

theorem lifecycle_reopens :
    ¬ ∀ (w₀ w : World Nat) (xs : List (CallStep Nat)), Initialized w₀ → CallRun w₀ xs w →
      RunsForward xs := by
  intro h
  have hforward := h _ _ _ sampleWorld_initialized (sampleRun_run reopeningCalls)
  exact absurd hforward (by decide +kernel)

/-- Approved, and not `Paused`. -/
def CampaignStatus.Progressed (st : CampaignStatus) : Prop :=
  st = .active ∨ st = .delivered ∨ st = .completed ∨ st = .failed

instance (st : CampaignStatus) : Decidable st.Progressed :=
  inferInstanceAs (Decidable (_ ∨ _))

/-- An `unpause` finds a campaign not approved yet, and one that was paused at `Open`. -/
def UnpausesOnlyOpen (last : CampaignStatus) (x : CallStep Addr) : Prop :=
  x.act.call.isUnpause = true →
    ¬ last.Progressed ∧ (x.pre.campaign.state.status = .paused → last = .open)

instance (last : CampaignStatus) (x : CallStep Addr) : Decidable (UnpausesOnlyOpen last x) :=
  inferInstanceAs (Decidable (_ → _))

/-- What holds at an approved campaign, `last` being its last status that was not `Paused`. -/
def Approved (last : CampaignStatus) (w : World Addr) : Prop :=
  last.Progressed ∧ (w.campaign.state.status = last ∨ w.campaign.state.status = .paused)

theorem Approved.not_raising {last : CampaignStatus} (h : Approved last w) :
    w.campaign.state.status ≠ .open ∧ w.campaign.state.status ≠ .funded := by
  obtain ⟨hp, hs⟩ := h
  unfold CampaignStatus.Progressed at hp
  rcases hs with hs | hs
  · rw [hs]
    rcases hp with rfl | rfl | rfl | rfl <;> simp
  · rw [hs]
    simp

omit [LinearOrder Addr] in
theorem isUnpause_eq {call : Call Addr} (h : call.isUnpause = true) :
    ∃ admin, call = .unpause admin := by
  cases call with
  | unpause admin => exact ⟨admin, rfl⟩
  | _ => simp [Call.isUnpause] at h

omit [LinearOrder Addr] in
theorem isApprove_eq {call : Call Addr} (h : call.isApprove = true) :
    ∃ admin, call = .approve admin := by
  cases call with
  | approve admin => exact ⟨admin, rfl⟩
  | _ => simp [Call.isApprove] at h

theorem approved_step {last : CampaignStatus} {x : CallStep Addr}
    (hx : callStep x.pre x.act = some x.post) (hopen : UnpausesOnlyOpen last x)
    (h : Approved last x.pre) : Approved (nextUnpaused last x) x.post := by
  obtain ⟨hno, hnf⟩ := h.not_raising
  obtain ⟨hp, hs⟩ := h
  have hstage := stageStep_of_callStep hx
  unfold UnpausesOnlyOpen at hopen
  unfold Approved nextUnpaused
  generalize x.act.call = call at hstage hopen
  generalize x.post.campaign.state.status = st at hstage ⊢
  generalize x.post.campaign.state.raiseEnded = ended at hstage
  have hsame : (if x.pre.campaign.state.status = .paused then last
      else x.pre.campaign.state.status) = last := by
    rcases hs with hs | hs <;> simp [hs]
  cases hstage with
  | stay => rw [hsame]; exact ⟨hp, hs⟩
  | close => rw [hsame]; exact ⟨hp, hs⟩
  | fund hopen' => exact absurd hopen' hno
  | approve hfund => exact absurd hfund hnf
  | pause => exact ⟨hp, .inr rfl⟩
  | unpause => exact absurd hp (hopen rfl).1
  | deliver => simp [CampaignStatus.Progressed]
  | complete => simp [CampaignStatus.Progressed]
  | markFailed => simp [CampaignStatus.Progressed]
  | verdictRelease => simp [CampaignStatus.Progressed]
  | verdictRefund => simp [CampaignStatus.Progressed]

theorem approved_invests_nothing {last : CampaignStatus} (hm : Moves env w call w')
    (h : Approved last w) : call.isInvest = false := by
  obtain ⟨hno, hnf⟩ := h.not_raising
  cases call with
  | invest =>
    cases hm with
    | idle hi => exact absurd hi id
    | refundEnded hc => simp [Call.refundee] at hc
    | refundStake hc => simp [Call.refundee] at hc
    | invest _ _ hs => exact absurd hs (not_or.mpr ⟨hno, hnf⟩)
  | _ => rfl

/-- After approval a run whose unpauses find `Open` neither invests nor goes back. -/
theorem approved_run {last : CampaignStatus} (hr : CallRun w xs w') (h : Approved last w)
    (hc : Along nextUnpaused UnpausesOnlyOpen last xs) : ∀ y ∈ xs, StepsForward y := by
  have halong : Along nextUnpaused (fun _ y => StepsForward y) last xs := by
    refine hr.along Approved h hc ?_
    intro last x hx hopen hI
    have hnext := approved_step hx hopen hI
    obtain ⟨_, hm⟩ := moves_of_step hx
    exact ⟨⟨approved_invests_nothing (w := x.pre.enter _) hm hI, hnext.not_raising⟩, hnext⟩
  exact halong.forall_mem fun _ _ hy => hy

theorem status_of_approve {admin : Addr} {inv : Invocation Addr} (hi : inv.call = .approve admin)
    (h : callStep w inv = some w') : w'.campaign.state.status = .active := by
  obtain ⟨_, hm⟩ := moves_of_step h
  rw [hi] at hm
  cases hm with
  | idle hidle => exact absurd hidle id
  | refundEnded hc => simp [Call.refundee] at hc
  | refundStake hc => simp [Call.refundee] at hc
  | approve => rfl

theorem status_of_unpause {admin : Addr} {inv : Invocation Addr} (hi : inv.call = .unpause admin)
    (h : callStep w inv = some w') : w'.campaign.state.status = .open := by
  obtain ⟨_, hm⟩ := moves_of_step h
  rw [hi] at hm
  cases hm with
  | idle hidle => exact absurd hidle id
  | refundEnded hc => simp [Call.refundee] at hc
  | refundStake hc => simp [Call.refundee] at hc
  | unpause => rfl

theorem staysApproved_run {last : CampaignStatus} (hr : CallRun w xs w')
    (hc : Along nextUnpaused UnpausesOnlyOpen last xs) : StaysApproved xs := by
  induction hr generalizing last with
  | nil => exact .nil
  | @cons s s' t a xs hx htail ih =>
    refine List.pairwise_cons.mpr ⟨?_, ih hc.2⟩
    intro y hy happ
    obtain ⟨admin, ha⟩ := isApprove_eq happ
    have hactive := status_of_approve ha hx
    refine approved_run htail ?_ hc.2 y hy
    unfold Approved nextUnpaused
    simp [hactive, CampaignStatus.Progressed]

/-- A run never goes backwards when every `unpause` finds a campaign not approved yet and, if it
    is paused, paused at `Open`. -/
theorem forward_run (hr : CallRun w₀ xs w) (hc : Along nextUnpaused UnpausesOnlyOpen .open xs) :
    RunsForward xs := by
  refine ⟨staysApproved_run hr hc, ?_⟩
  refine hr.along (fun _ _ => True) trivial hc fun last x hx hopen _ => ⟨fun hu hp => ?_, trivial⟩
  obtain ⟨admin, ha⟩ := isUnpause_eq hu
  rw [status_of_unpause ha hx, (hopen hu).2 hp]

theorem forward_run_sample :
    RunsForward (sampleRun [(1, .invest 10 6000), (2, .pause 0), (3, .unpause 0),
      (4, .invest 11 4000), (5, .approve 0), (6, .pause 0), (7, .markFailed 0)]).1 :=
  forward_run (sampleRun_run _) (by decide +kernel)

/-! ## Failure is final -/

/-- Once the campaign has failed it is never `Delivered` or `Completed`, and no call transfers
    anything to the farmer. -/
def FailureFinal (xs : List (CallStep Addr)) : Prop :=
  xs.Pairwise fun x y => x.post.campaign.state.status = .failed →
    y.post.campaign.state.status ≠ .delivered ∧ y.post.campaign.state.status ≠ .completed ∧
      ∀ t ∈ y.post.transfers, t.dst ≠ y.pre.campaign.config.farmer

instance (xs : List (CallStep Addr)) : Decidable (FailureFinal xs) := by
  unfold FailureFinal
  infer_instance

/-- Two milestones have Release verdicts when the campaign is marked failed; both are still
    executed, and the campaign ends up `Delivered`. -/
def heldVerdictCalls : List (Nat × Call Nat) :=
  [(1, .invest 10 10000), (2, .approve 0), (3, .raiseDispute 10 0), (4, .raiseDispute 10 1),
    (5, .castDisputeVote 2 0 true), (6, .castDisputeVote 2 1 true),
    (7, .partialReleaseMilestone 1 5000), (8, .markFailed 0), (9, .resolveDispute 2 0),
    (10, .resolveDispute 2 1)]

theorem failure_pays_farmer :
    ¬ ∀ (w₀ w : World Nat) (xs : List (CallStep Nat)), Initialized w₀ → CallRun w₀ xs w →
      FailureFinal xs := by
  intro h
  have hfinal := h _ _ _ sampleWorld_initialized (sampleRun_run heldVerdictCalls)
  exact absurd hfinal (by decide +kernel)

/-- The call executes no Release verdict, and is no refund to the farmer himself. -/
def Call.SparesFarmer (c : Campaign Addr) : Call Addr → Prop
  | .resolveDispute _ i => ¬ c.Executes i true
  | .refund investor => investor ≠ c.config.farmer
  | .refundByAdmin _ investor => investor ≠ c.config.farmer
  | _ => True

instance (c : Campaign Addr) (call : Call Addr) : Decidable (call.SparesFarmer c) := by
  unfold Call.SparesFarmer
  split <;> infer_instance

theorem Call.SparesFarmer.refundee_ne {c : Campaign Addr} {investor : Addr}
    (h : call.SparesFarmer c) (hc : call.refundee = some investor) :
    investor ≠ c.config.farmer := by
  cases call with
  | refund => obtain rfl := Option.some.inj hc; exact h
  | refundByAdmin => obtain rfl := Option.some.inj hc; exact h
  | _ => simp [Call.refundee] at hc

/-- A call on a failed campaign that spares the farmer sends him nothing. -/
theorem farmer_unpaid_of_moves (hm : Moves env w call w') (ht : w.transfers = [])
    (hf : w.campaign.state.status = .failed) (hc : call.SparesFarmer w.campaign) :
    ∀ t ∈ w'.transfers, t.dst ≠ w.campaign.config.farmer := by
  have hpaid : ∀ investor amount (c : Campaign Addr), call.refundee = some investor →
      ∀ t ∈ (World.paid { w with campaign := c } investor amount).transfers,
        t.dst ≠ w.campaign.config.farmer := by
    intro investor amount c hr t hmem
    simp only [paid_transfers, ht, List.nil_append, List.mem_singleton] at hmem
    rw [hmem]
    exact hc.refundee_ne hr
  cases hm with
  | invest hi he hs => simp [hf] at hs
  | partialRelease hs => simp [hf] at hs
  | releaseMilestone hs => simp [hf] at hs
  | distributeRevenue hs => simp [hf] at hs
  | refundEnded hr => exact hpaid _ _ _ hr
  | refundStake hr => exact hpaid _ _ _ hr
  | resolveRelease hd hx hdec hr => exact absurd ⟨_, hd, hx, hr⟩ hc
  | _ => simp [ht]

theorem failed_step {inv : Invocation Addr} (h : callStep w inv = some w')
    (hf : w.campaign.state.status = .failed) (he : w.campaign.state.raiseEnded = true)
    (hc : inv.call.SparesFarmer w.campaign) :
    w'.campaign.state.status = .failed ∧ w'.campaign.state.raiseEnded = true := by
  have hstage := stageStep_of_callStep h
  generalize inv.call = call at hstage hc
  generalize w'.campaign.state.status = st at hstage ⊢
  generalize w'.campaign.state.raiseEnded = ended at hstage ⊢
  cases hstage with
  | stay => exact ⟨hf, he⟩
  | fund hs => simp [hf] at hs
  | close hn => simp [he] at hn
  | approve hs => simp [hf] at hs
  | deliver hs => simp [hf] at hs
  | complete hs => simp [hf] at hs
  | pause hn => simp [he] at hn
  | unpause hn => simp [he] at hn
  | markFailed => exact ⟨rfl, rfl⟩
  | verdictRelease hx => exact absurd hx hc
  | verdictRefund => exact ⟨rfl, rfl⟩

/-- From a failed campaign on, a run that spares the farmer stays failed and sends him nothing. -/
theorem failed_tail (hr : CallRun w xs w') (hf : w.campaign.state.status = .failed)
    (he : w.campaign.state.raiseEnded = true)
    (hc : ∀ x ∈ xs, x.pre.campaign.state.status = .failed →
      x.act.call.SparesFarmer x.pre.campaign) :
    ∀ y ∈ xs, y.post.campaign.state.status = .failed ∧
      ∀ t ∈ y.post.transfers, t.dst ≠ y.pre.campaign.config.farmer := by
  intro y hy
  obtain ⟨hs, ⟨hpre, _⟩, hpost, _⟩ := hr.steps_invariant
    (fun w => w.campaign.state.status = .failed ∧ w.campaign.state.raiseEnded = true) ⟨hf, he⟩
    (fun x hx hs hi => failed_step hs hi.1 hi.2 (hc x hx hi.1)) y hy
  obtain ⟨_, hm⟩ := moves_of_step hs
  exact ⟨hpost, farmer_unpaid_of_moves (w := y.pre.enter _) hm rfl hpre (hc y hy hpre)⟩

/-- Failure is final in every run that, once failed, executes no Release verdict and makes no
    refund to the farmer himself. -/
theorem failed_run_final (hw : Reachable w₀) (hr : CallRun w₀ xs w)
    (hc : ∀ x ∈ xs, x.pre.campaign.state.status = .failed →
      x.act.call.SparesFarmer x.pre.campaign) :
    FailureFinal xs := by
  induction hr with
  | nil => exact .nil
  | cons hx htail ih =>
    have hw' := hw.step hx
    have hc' := fun x hm => hc x (List.mem_cons_of_mem _ hm)
    refine List.pairwise_cons.mpr ⟨?_, ih hw' hc'⟩
    intro y hy hf
    obtain ⟨hfailed, hunpaid⟩ := failed_tail htail hf (hw'.ended_of_failed hf) hc' y hy
    rw [hfailed]
    exact ⟨by simp, by simp, hunpaid⟩

theorem failed_run_final_sample :
    FailureFinal (sampleRun [(1, .invest 10 6000), (2, .invest 11 4000), (3, .approve 0),
      (4, .raiseDispute 10 0), (5, .castDisputeVote 2 0 true), (6, .partialReleaseMilestone 1 5000),
      (7, .markFailed 0), (8, .refund 10), (9, .refundByAdmin 0 11)]).1 :=
  failed_run_final sampleWorld_initialized.reachable (sampleRun_run _) (by decide +kernel)

end AgriFi.FarmCampaign
