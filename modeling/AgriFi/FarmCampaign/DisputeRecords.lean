import AgriFi.FarmCampaign.Lifecycle

/-
  The dispute records. A milestone's slot is its record, its freeze flag and its released mark;
  `SlotStep` lists what one call can do to a slot and `slotStep_of_moves` shows there is nothing
  else. A record in storage is well formed and guarded: either the milestone is frozen, or the
  record is resolved and the milestone cannot be disputed again (`Campaign.Closed`), so no
  `raise_dispute` overwrites it. From this a recorded verdict and its vote counts stay as they
  are for the rest of every run (`reachable_records`).
-/

namespace AgriFi.FarmCampaign

open AgriFi.Soroban AgriFi.Runs

variable {Addr : Type} [LinearOrder Addr]

/-! ## Slots -/

/-- What the contract stores for one milestone. -/
structure Slot (Addr : Type) where
  record : Option (Dispute Addr)
  frozen : Bool
  released : Bool

def Campaign.slot (c : Campaign Addr) (i : Nat) : Slot Addr :=
  ⟨c.disputeRecord i, c.disputeFlag i, c.milestoneReleased i⟩

section Slot

variable {c : Campaign Addr} {i : Nat} {s : Slot Addr}

theorem record_of_slot (h : c.slot i = s) : c.disputeRecord i = s.record :=
  congrArg Slot.record h

theorem frozen_of_slot (h : c.slot i = s) : c.disputeFlag i = s.frozen :=
  congrArg Slot.frozen h

theorem released_of_slot (h : c.slot i = s) : c.milestoneReleased i = s.released :=
  congrArg Slot.released h

theorem slot_record {d : Dispute Addr} (hd : c.disputeRecord i = some d) (h : c.slot i = s) :
    s.record = some d :=
  (record_of_slot h).symm.trans hd

end Slot

/-- The record with a verdict in phase `Verdict`, and the record once its outcome is executed. -/
def Dispute.decided (d : Dispute Addr) : Dispute Addr :=
  { d with phase := .verdict, verdict := some d.decision }

def Dispute.resolved (d : Dispute Addr) : Dispute Addr :=
  { d with phase := .resolved, verdict := some d.decision }

/-- The call raises a dispute on milestone `i`. -/
def Call.raises (i : Nat) : Call Addr → Bool
  | .raiseDispute _ j => j = i
  | _ => false

/-- The call votes on the dispute of milestone `i`. -/
def Call.votesOn (i : Nat) : Call Addr → Bool
  | .castDisputeVote _ j _ => j = i
  | _ => false

/-- What one call does to the slot of milestone `i`. -/
inductive SlotStep (env : Env Addr) (c c' : Campaign Addr) (i : Nat) : Call Addr → Prop
  | same {call : Call Addr} :
      call.raises i = false → call.votesOn i = false → c'.slot i = c.slot i →
      SlotStep env c c' i call
  | raise {caller : Addr} {d : Dispute Addr} :
      c.state.status = .active → c.milestoneReleased i = false → c.disputeFlag i = false →
      d.phase = .open → d.releaseVotes = 0 → d.refundVotes = 0 → d.voters = [] →
      d.verdict = none → c'.slot i = ⟨some d, true, false⟩ →
      SlotStep env c c' i (.raiseDispute caller i)
  | evidence {caller : Addr} {uri : String} {d : Dispute Addr} {evidence : List (Evidence Addr)} :
      c.disputeRecord i = some d → d.phase ≠ .verdict → d.phase ≠ .resolved →
      c'.slot i = { c.slot i with record := some { d with evidence } } →
      SlotStep env c c' i (.submitDisputeEvidence caller i uri)
  | vote {voter : Addr} {release : Bool} {d d' : Dispute Addr} :
      voter ∈ arbitratorPool c → c.disputeRecord i = some d → d.verdict = none →
      env.timestamp ≤ d.votingDeadline → voter ∉ d.voters →
      countVote (voteQuorum c) d voter release = .ok d' →
      c'.slot i = { c.slot i with record := some d' } →
      SlotStep env c c' i (.castDisputeVote voter i release)
  | finalize {caller : Addr} {d : Dispute Addr} :
      c.disputeRecord i = some d → d.verdict = none →
      c'.slot i = { c.slot i with record := some d.decided } →
      SlotStep env c c' i (.finalizeDispute caller i)
  | release {admin : Addr} :
      c'.slot i = { c.slot i with released := true } →
      SlotStep env c c' i (.releaseMilestone admin i)
  | resolveRelease {caller : Addr} {d : Dispute Addr} :
      c.disputeRecord i = some d → ¬ d.Executed → d.decision = true →
      c'.slot i = ⟨some d.resolved, false, true⟩ → SlotStep env c c' i (.resolveDispute caller i)
  | resolveRefund {caller : Addr} {d : Dispute Addr} :
      c.disputeRecord i = some d → ¬ d.Executed → d.decision = false →
      c'.state.status = .failed → c'.state.raiseEnded = true →
      c'.slot i = ⟨some d.resolved, false, c.milestoneReleased i⟩ →
      SlotStep env c c' i (.resolveDispute caller i)

theorem slot_setRecord (c : Campaign Addr) (j i : Nat) (d : Dispute Addr) :
    (c.setRecord j d).slot i = if i = j then { c.slot i with record := some d } else c.slot i := by
  unfold Campaign.setRecord Campaign.slot
  by_cases h : i = j
  · subst h
    simp
  · simp [h]

theorem slot_of_split {c c' : Campaign Addr} {target total : Int}
    (h : applyProportionalRefund c target = .ok (c', total)) (i : Nat) : c'.slot i = c.slot i := by
  obtain ⟨_, _, rfl⟩ := applyProportionalRefund_frame h
  rfl

variable {env : Env Addr} {w w' : World Addr} {call : Call Addr}

omit [LinearOrder Addr] in
theorem writes_nothing_of_refundee {investor : Addr} (h : call.refundee = some investor) (i : Nat) :
    call.raises i = false ∧ call.votesOn i = false := by
  cases call with
  | refund => exact ⟨rfl, rfl⟩
  | refundByAdmin => exact ⟨rfl, rfl⟩
  | _ => simp [Call.refundee] at h

theorem writes_nothing_of_idles (h : call.Idles w.campaign) (i : Nat) :
    call.raises i = false ∧ call.votesOn i = false := by
  cases call with
  | raiseDispute => exact absurd h id
  | castDisputeVote => exact absurd h id
  | _ => exact ⟨rfl, rfl⟩

theorem slotStep_of_moves (h : Moves env w call w') (i : Nat) :
    SlotStep env w.campaign w'.campaign i call := by
  cases h with
  | idle hi =>
    obtain ⟨hr, hv⟩ := writes_nothing_of_idles hi i
    exact .same hr hv rfl
  | refundEnded hc =>
    obtain ⟨hr, hv⟩ := writes_nothing_of_refundee hc i
    exact .same hr hv rfl
  | refundStake hc =>
    obtain ⟨hr, hv⟩ := writes_nothing_of_refundee hc i
    exact .same hr hv rfl
  | earlyClose he hs hp => exact .same rfl rfl (slot_of_split hp i)
  | markFailed he hp => exact .same rfl rfl (slot_of_split hp i)
  | distributeRevenue hs hd hr hf hp hfee =>
    refine .same rfl rfl ?_
    rw [(distribution_onlyTransfers hp hfee).campaign_eq]
    rfl
  | @releaseMilestone admin j tranche hs hj hm hf ht hb =>
    by_cases hij : i = j
    · subst hij
      refine .release ?_
      simp [Campaign.trancheReleased, Campaign.slot]
    · refine .same rfl rfl ?_
      simp [Campaign.trancheReleased, Campaign.slot, hij]
  | @raiseDispute caller j d hs hj hm hf hp hrel href hvo hve =>
    by_cases hij : i = j
    · subst hij
      refine .raise hs hm hf hp hrel href hvo hve ?_
      dsimp only
      rw [slot_setRecord, if_pos rfl]
      simp [Campaign.slot, hm]
    · refine .same (decide_eq_false fun h => hij h.symm) rfl ?_
      dsimp only
      rw [slot_setRecord, if_neg hij]
      simp [Campaign.slot, hij]
  | @submitEvidence caller j uri d evidence hd hv hr =>
    by_cases hij : i = j
    · subst hij
      exact .evidence hd hv hr (by dsimp only; rw [slot_setRecord, if_pos rfl])
    · exact .same rfl rfl (by dsimp only; rw [slot_setRecord, if_neg hij])
  | @castVote voter j release d d' hp hd hn ht hv hc =>
    by_cases hij : i = j
    · subst hij
      exact .vote hp hd hn ht hv hc (by dsimp only; rw [slot_setRecord, if_pos rfl])
    · exact .same rfl (decide_eq_false fun h => hij h.symm)
        (by dsimp only; rw [slot_setRecord, if_neg hij])
  | @finalize caller j d hd hn ht =>
    by_cases hij : i = j
    · subst hij
      exact .finalize hd hn (by dsimp only; rw [slot_setRecord, if_pos rfl]; rfl)
    · exact .same rfl rfl (by dsimp only; rw [slot_setRecord, if_neg hij])
  | @resolveRelease caller j d tranche hd hx hdec hr ht hb =>
    by_cases hij : i = j
    · subst hij
      refine .resolveRelease hd hx hr ?_
      simp [Campaign.slot, Campaign.trancheReleased, Campaign.disputeResolved, Campaign.setRecord,
        Dispute.resolved]
    · refine .same rfl rfl ?_
      simp [Campaign.slot, Campaign.trancheReleased, Campaign.disputeResolved, Campaign.setRecord,
        hij]
  | @resolveRefund caller j d c' total hd hx hdec hr hp =>
    have hslot := slot_of_split hp i
    obtain ⟨hstatus, hended⟩ := stage_of_split hp
    by_cases hij : i = j
    · subst hij
      refine .resolveRefund hd hx hr hstatus hended (hslot.trans ?_)
      simp [Campaign.slot, Campaign.disputeResolved, Campaign.setRecord, Dispute.resolved]
    · refine .same rfl rfl (hslot.trans ?_)
      simp [Campaign.slot, Campaign.disputeResolved, Campaign.setRecord, hij]
  | _ => exact .same rfl rfl rfl

theorem slotStep_of_callStep {inv : Invocation Addr} (h : callStep w inv = some w') (i : Nat) :
    SlotStep inv.env w.campaign w'.campaign i inv.call := by
  obtain ⟨_, hm⟩ := moves_of_step h
  exact slotStep_of_moves (w := w.enter inv.env) hm i

/-! ## Well-formed records -/

/-- A record whose voters, votes, phase and verdict agree. -/
structure Dispute.WellFormed (d : Dispute Addr) : Prop where
  voters_nodup : d.voters.Nodup
  votes_eq : d.releaseVotes + d.refundVotes = d.voters.length
  open_iff : d.phase = .open ↔ d.voters = [] ∧ d.verdict = none
  verdict_iff : d.verdict.isSome = true ↔ d.phase = .verdict ∨ d.phase = .resolved

theorem addVote_eq {votedFor : Bool} {votes n : Nat} (h : addVote votedFor votes = .ok n) :
    n = if votedFor = true then votes + 1 else votes := by
  unfold addVote at h
  split at h
  · next hv =>
    simp only [okOr_eq_ok, checkedAddU_eq_some] at h
    rw [if_pos hv, h.2]
  · next hv => rw [if_neg hv, Except.ok.inj h]

omit [LinearOrder Addr] in
/-- A counted vote adds the voter and one vote; a side that reaches the quorum gets the verdict. -/
theorem countVote_eq_ok {quorum : Nat} {d d' : Dispute Addr} {voter : Addr} {release : Bool}
    (h : countVote quorum d voter release = .ok d') :
    d'.voters = d.voters ++ [voter] ∧
    d'.releaseVotes + d'.refundVotes = d.releaseVotes + d.refundVotes + 1 ∧
    ((d'.phase = .arbitration ∧ d'.verdict = d.verdict) ∨
      (d'.phase = .verdict ∧ d'.verdict = some true ∧ quorum ≤ d'.releaseVotes) ∨
      (d'.phase = .verdict ∧ d'.verdict = some false ∧ quorum ≤ d'.refundVotes)) := by
  unfold countVote at h
  obtain ⟨releaseVotes, hrel, h⟩ := bind_eq_ok.mp h
  obtain ⟨refundVotes, href, h⟩ := bind_eq_ok.mp h
  have hsum : releaseVotes + refundVotes = d.releaseVotes + d.refundVotes + 1 := by
    have h1 := addVote_eq hrel
    have h2 := addVote_eq href
    cases release with
    | true =>
      simp only [if_pos, Bool.not_true, Bool.false_eq_true, if_false] at h1 h2
      omega
    | false =>
      simp only [Bool.false_eq_true, if_false, Bool.not_false, if_pos] at h1 h2
      omega
  obtain rfl := Except.ok.inj h
  split
  · next hq => exact ⟨rfl, hsum, .inr (.inl ⟨rfl, rfl, hq⟩)⟩
  · split
    · next hq => exact ⟨rfl, hsum, .inr (.inr ⟨rfl, rfl, hq⟩)⟩
    · exact ⟨rfl, hsum, .inl ⟨rfl, rfl⟩⟩

omit [LinearOrder Addr] in
theorem Dispute.WellFormed.vote {quorum : Nat} {d d' : Dispute Addr} {voter : Addr}
    {release : Bool} (hd : d.WellFormed) (hn : d.verdict = none) (hv : voter ∉ d.voters)
    (h : countVote quorum d voter release = .ok d') : d'.WellFormed := by
  obtain ⟨hvoters, hvotes, hphase⟩ := countVote_eq_ok h
  have hnodup : d'.voters.Nodup := by
    rw [hvoters, List.nodup_append]
    refine ⟨hd.voters_nodup, by simp, ?_⟩
    intro a ha b hb
    obtain rfl := List.mem_singleton.mp hb
    exact fun hab => hv (hab ▸ ha)
  have hcount : d'.releaseVotes + d'.refundVotes = d'.voters.length := by
    rw [hvotes, hd.votes_eq, hvoters, List.length_append]
    rfl
  have hne : d'.voters ≠ [] := by simp [hvoters]
  rcases hphase with ⟨hp, hverdict⟩ | ⟨hp, hverdict, _⟩ | ⟨hp, hverdict, _⟩
  · exact ⟨hnodup, hcount, by simp [hp, hne], by simp [hp, hverdict, hn]⟩
  · exact ⟨hnodup, hcount, by simp [hp, hne], by simp [hp, hverdict]⟩
  · exact ⟨hnodup, hcount, by simp [hp, hne], by simp [hp, hverdict]⟩

omit [LinearOrder Addr] in
theorem Dispute.WellFormed.decided {d : Dispute Addr} (hd : d.WellFormed) : d.decided.WellFormed :=
  ⟨hd.voters_nodup, hd.votes_eq, by simp [Dispute.decided], by simp [Dispute.decided]⟩

omit [LinearOrder Addr] in
theorem Dispute.WellFormed.resolved {d : Dispute Addr} (hd : d.WellFormed) :
    d.resolved.WellFormed :=
  ⟨hd.voters_nodup, hd.votes_eq, by simp [Dispute.resolved], by simp [Dispute.resolved]⟩

omit [LinearOrder Addr] in
theorem Dispute.WellFormed.not_resolved {d : Dispute Addr} (hd : d.WellFormed)
    (hn : d.verdict = none) : d.phase ≠ .resolved := by
  intro hp
  have hsome := hd.verdict_iff.mpr (.inr hp)
  simp [hn] at hsome

/-! ## Guarded records -/

/-- No dispute can be raised on milestone `i` any more. -/
def Campaign.Closed (c : Campaign Addr) (i : Nat) : Prop :=
  c.milestoneReleased i = true ∨
    (c.state.raiseEnded = true ∧
      (c.state.status = .failed ∨ c.state.status = .delivered ∨ c.state.status = .completed))

/-- What holds of the record of milestone `i`. -/
structure Campaign.RecordSound (c : Campaign Addr) (i : Nat) (d : Dispute Addr) : Prop where
  wellFormed : d.WellFormed
  guarded : c.disputeFlag i = true ∨ (d.phase = .resolved ∧ c.Closed i)

/-- A milestone closed by the state of the campaign stays closed. -/
theorem closed_stage {c : Campaign Addr} {st : CampaignStatus} {ended : Bool}
    (h : StageStep c call st ended) (he : c.state.raiseEnded = true)
    (hs : c.state.status = .failed ∨ c.state.status = .delivered ∨ c.state.status = .completed) :
    ended = true ∧ (st = .failed ∨ st = .delivered ∨ st = .completed) := by
  cases h with
  | stay => exact ⟨he, hs⟩
  | fund hopen => simp [hopen] at hs
  | close hn => simp [he] at hn
  | approve hf => simp [hf] at hs
  | deliver => exact ⟨he, by simp⟩
  | complete => exact ⟨he, by simp⟩
  | pause hn => simp [he] at hn
  | unpause hn => simp [he] at hn
  | markFailed => exact ⟨rfl, by simp⟩
  | verdictRelease => exact ⟨he, by simp⟩
  | verdictRefund => exact ⟨rfl, by simp⟩

theorem released_of_slotStep {c c' : Campaign Addr} {i : Nat} (h : SlotStep env c c' i call)
    (hr : c.milestoneReleased i = true) : c'.milestoneReleased i = true := by
  cases h with
  | same _ _ hs => exact (released_of_slot hs).trans hr
  | raise _ hn => simp [hr] at hn
  | evidence _ _ _ hs => exact (released_of_slot hs).trans hr
  | vote _ _ _ _ _ _ hs => exact (released_of_slot hs).trans hr
  | finalize _ _ hs => exact (released_of_slot hs).trans hr
  | release hs => exact released_of_slot hs
  | resolveRelease _ _ _ hs => exact released_of_slot hs
  | resolveRefund _ _ _ _ _ hs => exact (released_of_slot hs).trans hr

theorem closed_of_moves (h : Moves env w call w') {i : Nat} (hc : w.campaign.Closed i) :
    w'.campaign.Closed i := by
  rcases hc with hr | ⟨he, hs⟩
  · exact .inl (released_of_slotStep (slotStep_of_moves h i) hr)
  · exact .inr (closed_stage (stageStep_of_moves h) he hs)

/-- A record that is not resolved is guarded by the freeze flag. -/
theorem Campaign.RecordSound.frozen {c : Campaign Addr} {i : Nat} {d : Dispute Addr}
    (h : c.RecordSound i d) (hp : d.phase ≠ .resolved) : c.disputeFlag i = true :=
  h.guarded.resolve_right fun hr => hp hr.1

theorem Campaign.RecordSound.not_raise {c : Campaign Addr} {i : Nat} {d : Dispute Addr}
    (h : c.RecordSound i d) (hf : c.disputeFlag i = false) : c.Closed i := by
  rcases h.guarded with ht | ⟨_, hc⟩
  · simp [hf] at ht
  · exact hc

theorem Campaign.Closed.not_active {c : Campaign Addr} {i : Nat} (h : c.Closed i)
    (hr : c.milestoneReleased i = false) : c.state.status ≠ .active := by
  rcases h with ht | ⟨_, hs⟩
  · simp [hr] at ht
  · rcases hs with hs | hs | hs <;> simp [hs]

/-- No record is overwritten: `raise_dispute` succeeds only where there is none. -/
theorem no_record_of_raise {c : Campaign Addr} {i : Nat}
    (h : ∀ d, c.disputeRecord i = some d → c.RecordSound i d) (hs : c.state.status = .active)
    (hr : c.milestoneReleased i = false) (hf : c.disputeFlag i = false) :
    c.disputeRecord i = none := by
  cases hd : c.disputeRecord i with
  | none => rfl
  | some d => exact absurd hs (((h d hd).not_raise hf).not_active hr)

/-- A call that leaves a record and its freeze flag alone keeps it sound. -/
theorem Campaign.RecordSound.kept (h : Moves env w call w') {i : Nat} {d : Dispute Addr}
    (hd : w.campaign.RecordSound i d)
    (hf : w'.campaign.disputeFlag i = w.campaign.disputeFlag i) : w'.campaign.RecordSound i d where
  wellFormed := hd.wellFormed
  guarded := by
    rcases hd.guarded with hfrozen | ⟨hp, hc⟩
    · exact .inl (hf.trans hfrozen)
    · exact .inr ⟨hp, closed_of_moves h hc⟩

theorem recordSound_step (h : Moves env w call w') {i : Nat}
    (hi : ∀ d, w.campaign.disputeRecord i = some d → w.campaign.RecordSound i d) :
    ∀ d, w'.campaign.disputeRecord i = some d → w'.campaign.RecordSound i d := by
  intro d' hd'
  cases slotStep_of_moves h i with
  | same _ _ hs =>
    have hd := slot_record hd' hs
    exact (hi d' hd).kept h (frozen_of_slot hs)
  | raise _ _ _ hp hrv hfv hvo hve hs =>
    obtain rfl := Option.some.inj (slot_record hd' hs)
    exact ⟨⟨by simp [hvo], by simp [hrv, hfv, hvo], by simp [hp, hvo, hve], by simp [hp, hve]⟩,
      .inl (frozen_of_slot hs)⟩
  | evidence hd hv hr hs =>
    obtain rfl := Option.some.inj (slot_record hd' hs)
    have hold := hi _ hd
    exact ⟨⟨hold.wellFormed.voters_nodup, hold.wellFormed.votes_eq, hold.wellFormed.open_iff,
      hold.wellFormed.verdict_iff⟩, .inl ((frozen_of_slot hs).trans (hold.frozen hr))⟩
  | vote hp hd hn ht hv hc hs =>
    obtain rfl := Option.some.inj (slot_record hd' hs)
    have hold := hi _ hd
    exact ⟨hold.wellFormed.vote hn hv hc,
      .inl ((frozen_of_slot hs).trans (hold.frozen (hold.wellFormed.not_resolved hn)))⟩
  | finalize hd hn hs =>
    obtain rfl := Option.some.inj (slot_record hd' hs)
    have hold := hi _ hd
    exact ⟨hold.wellFormed.decided,
      .inl ((frozen_of_slot hs).trans (hold.frozen (hold.wellFormed.not_resolved hn)))⟩
  | release hs =>
    have hd := slot_record hd' hs
    exact (hi d' hd).kept h (frozen_of_slot hs)
  | resolveRelease hd hx hr hs =>
    obtain rfl := Option.some.inj (slot_record hd' hs)
    exact ⟨(hi _ hd).wellFormed.resolved, .inr ⟨rfl, .inl (released_of_slot hs)⟩⟩
  | resolveRefund hd hx hr hst he hs =>
    obtain rfl := Option.some.inj (slot_record hd' hs)
    exact ⟨(hi _ hd).wellFormed.resolved, .inr ⟨rfl, .inr ⟨he, .inl hst⟩⟩⟩

theorem Reachable.recordSound (hw : Reachable w) (i : Nat) :
    ∀ d, w.campaign.disputeRecord i = some d → w.campaign.RecordSound i d := by
  obtain ⟨w₀, hinit, hr⟩ := hw
  refine hr.invariant
    (fun w => ∀ d, w.campaign.disputeRecord i = some d → w.campaign.RecordSound i d) ?_ ?_
  · intro d hd
    rw [hinit.fresh.campaign_eq] at hd
    simp [Campaign.initial] at hd
  · intro u a u' hs hu
    obtain ⟨_, hm⟩ := moves_of_step hs
    exact recordSound_step (w := u.enter a.env) hm hu

/-! ## Verdicts last -/

/-- `d'` has the verdict `v` and the vote counts of `d`. -/
def Dispute.SameVerdict (d d' : Dispute Addr) (v : Bool) : Prop :=
  d'.verdict = some v ∧ d'.releaseVotes = d.releaseVotes ∧ d'.refundVotes = d.refundVotes

omit [LinearOrder Addr] in
theorem decision_of_verdict {d : Dispute Addr} {v : Bool} (h : d.verdict = some v) :
    d.decision = v := by
  unfold Dispute.decision
  rw [h]
  rfl

theorem verdict_lasts_step (h : Moves env w call w') {i : Nat}
    (hsound : ∀ d, w.campaign.disputeRecord i = some d → w.campaign.RecordSound i d)
    {d : Dispute Addr} {v : Bool} (hd : w.campaign.disputeRecord i = some d)
    (hv : d.verdict = some v) :
    ∃ d', w'.campaign.disputeRecord i = some d' ∧ d.SameVerdict d' v := by
  cases slotStep_of_moves h i with
  | same _ _ hs => exact ⟨d, (record_of_slot hs).trans hd, hv, rfl, rfl⟩
  | raise hs hr hf =>
    rw [no_record_of_raise hsound hs hr hf] at hd
    simp at hd
  | evidence hd₀ _ _ hs =>
    obtain rfl := Option.some.inj (hd₀.symm.trans hd)
    exact ⟨_, record_of_slot hs, hv, rfl, rfl⟩
  | vote _ hd₀ hn =>
    obtain rfl := Option.some.inj (hd₀.symm.trans hd)
    simp [hv] at hn
  | finalize hd₀ hn =>
    obtain rfl := Option.some.inj (hd₀.symm.trans hd)
    simp [hv] at hn
  | release hs => exact ⟨d, (record_of_slot hs).trans hd, hv, rfl, rfl⟩
  | resolveRelease hd₀ _ _ hs =>
    obtain rfl := Option.some.inj (hd₀.symm.trans hd)
    exact ⟨_, record_of_slot hs, congrArg some (decision_of_verdict hv), rfl, rfl⟩
  | resolveRefund hd₀ _ _ _ _ hs =>
    obtain rfl := Option.some.inj (hd₀.symm.trans hd)
    exact ⟨_, record_of_slot hs, congrArg some (decision_of_verdict hv), rfl, rfl⟩

theorem verdict_lasts (hw : Reachable w) {i : Nat} {d : Dispute Addr} {v : Bool}
    (hd : w.campaign.disputeRecord i = some d) (hv : d.verdict = some v)
    (hr : Reaches callStep w w') :
    ∃ d', w'.campaign.disputeRecord i = some d' ∧ d.SameVerdict d' v := by
  have hinv : Reachable w' ∧ ∃ d', w'.campaign.disputeRecord i = some d' ∧ d.SameVerdict d' v := by
    refine hr.invariant (fun u => Reachable u ∧
      ∃ d', u.campaign.disputeRecord i = some d' ∧ d.SameVerdict d' v) ⟨hw, d, hd, hv, rfl, rfl⟩ ?_
    rintro u a u' hs ⟨hu, d₁, hd₁, hv₁, hr₁, hf₁⟩
    obtain ⟨_, hm⟩ := moves_of_step hs
    obtain ⟨d₂, hd₂, hv₂, hr₂, hf₂⟩ :=
      verdict_lasts_step (w := u.enter a.env) hm (hu.recordSound i) hd₁ hv₁
    exact ⟨hu.step hs, d₂, hd₂, hv₂, hr₂.trans hr₁, hf₂.trans hf₁⟩
  exact hinv.2

/-- Every record of a reachable campaign is well formed, and once it has a verdict it keeps the
    verdict and its vote counts in every state reached from there. -/
theorem reachable_records (hw : Reachable w) (i : Nat) (d : Dispute Addr)
    (hd : w.campaign.disputeRecord i = some d) :
    d.WellFormed ∧ ∀ v, d.verdict = some v → ∀ w', Reaches callStep w w' →
      ∃ d', w'.campaign.disputeRecord i = some d' ∧ d.SameVerdict d' v :=
  ⟨(hw.recordSound i d hd).wellFormed, fun _ hv _ hr => verdict_lasts hw hd hv hr⟩

theorem reachable_records_sample :
    ∃ d, (sampleRun [(1, .invest 10 10000), (2, .approve 0), (3, .raiseDispute 10 0),
      (4, .castDisputeVote 2 0 true)]).2.campaign.disputeRecord 0 = some d ∧ d.WellFormed := by
  obtain ⟨d, hd⟩ := Option.isSome_iff_exists.mp (by decide +kernel :
    ((sampleRun [(1, .invest 10 10000), (2, .approve 0), (3, .raiseDispute 10 0),
      (4, .castDisputeVote 2 0 true)]).2.campaign.disputeRecord 0).isSome = true)
  exact ⟨d, hd, (reachable_records (sampleRun_reachable _) 0 d hd).1⟩

end AgriFi.FarmCampaign
