import AgriFi.FarmCampaign.DisputeRecords

/-
  Quorum soundness. The quorum of a vote is computed from the pool at the time of the vote, so
  it means a majority of the pool a dispute was raised under only if the pool cannot change in
  between. The roster setters need status `Open`, and `unpause` brings a disputed campaign back
  to it (`quorum_shrinks`). While no `unpause` comes between a dispute and its verdict the pool
  stays the one it was raised under, every counted voter is in it and the verdict has its strict
  majority (`quorum_run`).
-/

namespace AgriFi.FarmCampaign

open AgriFi.Soroban AgriFi.Runs

variable {Addr : Type} [LinearOrder Addr]

/-! ## What a vote has to show -/

/-- The side of `v` has a strict majority of `pool`, and every counted voter is in `pool`. -/
def Dispute.MajorityOf (d : Dispute Addr) (pool : List Addr) (v : Bool) : Prop :=
  pool.length < 2 * (if v = true then d.releaseVotes else d.refundVotes) ∧
    ∀ voter ∈ d.voters, voter ∈ pool

instance (d : Dispute Addr) (pool : List Addr) (v : Bool) : Decidable (d.MajorityOf pool v) :=
  inferInstanceAs (Decidable (_ ∧ _))

/-- The pool in force when the dispute on milestone `i` was raised, as a history variable. -/
def raisedPool (i : Nat) (pool : List Addr) (x : CallStep Addr) : List Addr :=
  if x.act.call.raises i = true then arbitratorPool x.pre.campaign else pool

/-- A vote on milestone `i` that records a verdict has a majority of `pool` behind it. -/
def VerdictByMajority (i : Nat) (pool : List Addr) (x : CallStep Addr) : Prop :=
  x.act.call.votesOn i = true →
    ∀ d ∈ x.post.campaign.disputeRecord i, ∀ v ∈ d.verdict, d.MajorityOf pool v

/-- A call made while the dispute on milestone `i` awaits its verdict leaves `pool` in force. -/
def PoolKept (i : Nat) (pool : List Addr) (x : CallStep Addr) : Prop :=
  ∀ d ∈ x.pre.campaign.disputeRecord i, d.verdict = none → arbitratorPool x.post.campaign = pool

def QuorumSound (i : Nat) (xs : List (CallStep Addr)) : Prop :=
  Along (raisedPool i) (fun pool x => VerdictByMajority i pool x ∧ PoolKept i pool x) [] xs

instance (i : Nat) (xs : List (CallStep Addr)) : Decidable (QuorumSound i xs) := by
  unfold QuorumSound VerdictByMajority PoolKept
  infer_instance

/-- A pool of three is cut to one while a dispute is open, and the one decides it. -/
def shrunkPoolCalls : List (Nat × Call Nat) :=
  [(1, .setArbitratorPool 0 [20, 21, 22]), (2, .invest 10 10000), (3, .approve 0),
    (4, .raiseDispute 10 0), (5, .pause 0), (6, .unpause 0), (7, .setArbitratorPool 0 [20]),
    (8, .castDisputeVote 20 0 false)]

theorem quorum_shrinks :
    ¬ ∀ (w₀ w : World Nat) (xs : List (CallStep Nat)), Initialized w₀ → CallRun w₀ xs w →
      ∀ i, QuorumSound i xs := by
  intro h
  have hsound := h _ _ _ sampleWorld_initialized (sampleRun_run shrunkPoolCalls) 0
  exact absurd hsound (by decide +kernel)

/-! ## While the campaign is not unpaused -/

variable {env : Env Addr} {w w' w₀ : World Addr} {call : Call Addr} {xs : List (CallStep Addr)}

/-- No `unpause` is called while the dispute on milestone `i` awaits its verdict. -/
def Call.KeepsRosterLocked (c : Campaign Addr) (i : Nat) (call : Call Addr) : Prop :=
  call.isUnpause = true → ∀ d ∈ c.disputeRecord i, d.verdict.isSome = true

instance (c : Campaign Addr) (i : Nat) (call : Call Addr) :
    Decidable (call.KeepsRosterLocked c i) :=
  inferInstanceAs (Decidable (_ → _))

/-- The roster setters are refused. -/
def Campaign.RosterLocked (c : Campaign Addr) : Prop :=
  c.state.status ≠ .open ∨ c.state.raiseEnded = true

theorem rosterLocked_stage {c : Campaign Addr} {st : CampaignStatus} {ended : Bool}
    (h : StageStep c call st ended) (hu : call.isUnpause = false) (hl : c.RosterLocked) :
    st ≠ .open ∨ ended = true := by
  cases h with
  | stay => exact hl
  | close => exact .inr rfl
  | unpause => simp [Call.isUnpause] at hu
  | _ => exact .inl (by simp)

theorem Campaign.RosterLocked.not_open {c : Campaign Addr} (hl : c.RosterLocked)
    (he : c.state.raiseEnded = false) (hs : c.state.status = .open) : False := by
  rcases hl with hl | hl
  · exact hl hs
  · simp [he] at hl

/-- The pool changes only through a roster setter, which needs the roster unlocked. -/
theorem pool_of_moves (h : Moves env w call w') (hl : w.campaign.RosterLocked) :
    arbitratorPool w'.campaign = arbitratorPool w.campaign := by
  cases h with
  | setArbitratorPool he hs => exact (hl.not_open he hs).elim
  | updateArbitrator he hs => exact (hl.not_open he hs).elim
  | earlyClose he hs hp => obtain ⟨_, _, rfl⟩ := applyProportionalRefund_frame hp; rfl
  | markFailed he hp => obtain ⟨_, _, rfl⟩ := applyProportionalRefund_frame hp; rfl
  | resolveRefund _ _ _ _ hp => obtain ⟨_, _, rfl⟩ := applyProportionalRefund_frame hp; rfl
  | distributeRevenue hs hd hr hf hp hfee =>
    rw [(distribution_onlyTransfers hp hfee).campaign_eq]
    rfl
  | _ => rfl

/-- The dispute on milestone `i`, while it awaits its verdict, was raised under `pool`: the
    roster is locked on it and it is where the voters come from. -/
def Pending (i : Nat) (pool : List Addr) (w : World Addr) : Prop :=
  ∀ d, w.campaign.disputeRecord i = some d → d.verdict = none →
    w.campaign.RosterLocked ∧ arbitratorPool w.campaign = pool ∧ ∀ voter ∈ d.voters, voter ∈ pool

theorem quorum_majority (c : Campaign Addr) {votes : Nat} (h : voteQuorum c ≤ votes) :
    (arbitratorPool c).length < 2 * votes := by
  unfold voteQuorum at h
  dsimp only at h
  split at h <;> omega

/-- A vote that fixes a verdict has the quorum of the pool in force. -/
theorem majority_of_vote {c : Campaign Addr} {d d' : Dispute Addr} {voter : Addr} {release : Bool}
    (hp : voter ∈ arbitratorPool c) (hn : d.verdict = none)
    (hsub : ∀ a ∈ d.voters, a ∈ arbitratorPool c)
    (h : countVote (voteQuorum c) d voter release = .ok d') :
    (∀ a ∈ d'.voters, a ∈ arbitratorPool c) ∧
      ∀ v ∈ d'.verdict, d'.MajorityOf (arbitratorPool c) v := by
  obtain ⟨hvoters, _, hphase⟩ := countVote_eq_ok h
  have hsub' : ∀ a ∈ d'.voters, a ∈ arbitratorPool c := by
    intro a ha
    rw [hvoters, List.mem_append, List.mem_singleton] at ha
    rcases ha with ha | rfl
    · exact hsub a ha
    · exact hp
  refine ⟨hsub', fun v hv => ⟨?_, hsub'⟩⟩
  rcases hphase with ⟨_, hverdict⟩ | ⟨_, hverdict, hq⟩ | ⟨_, hverdict, hq⟩
  · simp [hverdict, hn] at hv
  · obtain rfl := Option.some.inj (hverdict.symm.trans hv)
    exact quorum_majority c hq
  · obtain rfl := Option.some.inj (hverdict.symm.trans hv)
    exact quorum_majority c hq

/-- Where a record that awaits its verdict comes from: it was just raised, or it was waiting
    before and its new voters are in the pool. -/
theorem pending_origin {c c' : Campaign Addr} {i : Nat} (h : SlotStep env c c' i call)
    {d' : Dispute Addr} (hd' : c'.disputeRecord i = some d') (hn' : d'.verdict = none) :
    (call.raises i = true ∧ c.state.status = .active ∧ d'.voters = []) ∨
    (call.raises i = false ∧ ∃ d, c.disputeRecord i = some d ∧ d.verdict = none ∧
      ∀ a ∈ d'.voters, a ∈ d.voters ∨ a ∈ arbitratorPool c) := by
  cases h with
  | same hr _ hs => exact .inr ⟨hr, d', slot_record hd' hs, hn', fun a ha => .inl ha⟩
  | raise hs _ _ _ _ _ hvo _ hslot =>
    obtain rfl := Option.some.inj (slot_record hd' hslot)
    exact .inl ⟨by simp [Call.raises], hs, hvo⟩
  | evidence hd _ _ hs =>
    obtain rfl := Option.some.inj (slot_record hd' hs)
    exact .inr ⟨rfl, _, hd, hn', fun a ha => .inl ha⟩
  | vote hp hd hn _ _ hc hs =>
    obtain rfl := Option.some.inj (slot_record hd' hs)
    refine .inr ⟨rfl, _, hd, hn, ?_⟩
    intro a ha
    rw [(countVote_eq_ok hc).1, List.mem_append, List.mem_singleton] at ha
    rcases ha with ha | rfl
    · exact .inl ha
    · exact .inr hp
  | finalize _ _ hs =>
    obtain rfl := Option.some.inj (slot_record hd' hs)
    simp [Dispute.decided] at hn'
  | release hs => exact .inr ⟨rfl, d', slot_record hd' hs, hn', fun a ha => .inl ha⟩
  | resolveRelease _ _ _ hs =>
    obtain rfl := Option.some.inj (slot_record hd' hs)
    simp [Dispute.resolved] at hn'
  | resolveRefund _ _ _ _ _ hs =>
    obtain rfl := Option.some.inj (slot_record hd' hs)
    simp [Dispute.resolved] at hn'

theorem vote_origin {c c' : Campaign Addr} {i : Nat} (h : SlotStep env c c' i call)
    (hv : call.votesOn i = true) {d' : Dispute Addr} (hd' : c'.disputeRecord i = some d') :
    ∃ d voter release, voter ∈ arbitratorPool c ∧ c.disputeRecord i = some d ∧ d.verdict = none ∧
      countVote (voteQuorum c) d voter release = .ok d' := by
  cases h with
  | vote hp hd hn _ _ hc hs =>
    obtain rfl := Option.some.inj (slot_record hd' hs)
    exact ⟨_, _, _, hp, hd, hn, hc⟩
  | same _ hno => simp [hv] at hno
  | _ => simp [Call.votesOn] at hv

omit [LinearOrder Addr] in
theorem not_unpause_of_raises {i : Nat} (h : call.raises i = true) : call.isUnpause = false := by
  cases call with
  | raiseDispute => rfl
  | _ => simp [Call.raises] at h

section Step

variable {i : Nat} {pool : List Addr} {x : CallStep Addr}
  (hx : callStep x.pre x.act = some x.post) (h : Pending i pool x.pre)
  (hc : x.act.call.KeepsRosterLocked x.pre.campaign i)

include hx

/-- A locked roster stays locked and keeps its pool, unless the call is an `unpause`. -/
theorem locked_step (hl : x.pre.campaign.RosterLocked) (hu : x.act.call.isUnpause = false) :
    x.post.campaign.RosterLocked ∧
      arbitratorPool x.post.campaign = arbitratorPool x.pre.campaign := by
  obtain ⟨_, hm⟩ := moves_of_step hx
  exact ⟨rosterLocked_stage (stageStep_of_callStep hx) hu hl,
    pool_of_moves (w := x.pre.enter _) hm hl⟩

include h

theorem verdict_step : VerdictByMajority i pool x := by
  intro hv d' hd' v hverdict
  obtain ⟨d, voter, release, hp, hd, hn, hcount⟩ :=
    vote_origin (slotStep_of_callStep hx i) hv hd'
  obtain ⟨_, hpool, hin⟩ := h d hd hn
  have hmaj := (majority_of_vote hp hn (fun a ha => hpool ▸ hin a ha) hcount).2 v hverdict
  rwa [hpool] at hmaj

include hc

/-- While the dispute waits, the next state has the roster locked and the same pool. -/
theorem pending_kept {d : Dispute Addr} (hd : x.pre.campaign.disputeRecord i = some d)
    (hn : d.verdict = none) :
    x.post.campaign.RosterLocked ∧ arbitratorPool x.post.campaign = pool := by
  obtain ⟨hl, hpool, _⟩ := h d hd hn
  have hu : x.act.call.isUnpause = false := by
    by_contra hu
    have := hc (Bool.not_eq_false _ ▸ hu) d hd
    simp [hn] at this
  obtain ⟨hl', hpool'⟩ := locked_step hx hl hu
  exact ⟨hl', hpool'.trans hpool⟩

theorem pending_step : Pending i (raisedPool i pool x) x.post := by
  intro d' hd' hn'
  rcases pending_origin (slotStep_of_callStep hx i) hd' hn' with
    ⟨hr, hs, hvo⟩ | ⟨hr, d, hd, hn, hsub⟩
  · have hl : x.pre.campaign.RosterLocked := .inl (by rw [hs]; simp)
    obtain ⟨hl', hpool'⟩ := locked_step hx hl (not_unpause_of_raises hr)
    rw [raisedPool, if_pos hr]
    exact ⟨hl', hpool', by simp [hvo]⟩
  · obtain ⟨hl', hpool'⟩ := pending_kept hx h hc hd hn
    obtain ⟨_, hpool, hin⟩ := h d hd hn
    rw [raisedPool, if_neg (by simp [hr])]
    refine ⟨hl', hpool', ?_⟩
    intro a ha
    rcases hsub a ha with ha | ha
    · exact hin a ha
    · exact hpool ▸ ha

end Step

/-- In a run that never unpauses the campaign while the dispute on milestone `i` awaits its
    verdict, votes decide it by a majority of the pool it was raised under. -/
theorem quorum_run (hinit : Initialized w₀) (hr : CallRun w₀ xs w) (i : Nat)
    (hc : ∀ x ∈ xs, x.act.call.KeepsRosterLocked x.pre.campaign i) : QuorumSound i xs := by
  have hstart : Pending i [] w₀ := by
    intro d hd
    rw [hinit.fresh.campaign_eq] at hd
    simp [Campaign.initial] at hd
  refine hr.along (Pending i) hstart (along_of_forall _ _ hc) ?_
  intro pool x hx hk h
  exact ⟨⟨verdict_step hx h, fun d hd hn => (pending_kept hx h hk hd hn).2⟩, pending_step hx h hk⟩

theorem quorum_run_sample :
    QuorumSound 0 (sampleRun [(1, .setArbitratorPool 0 [20, 21, 22]), (2, .invest 10 10000),
      (3, .approve 0), (4, .raiseDispute 10 0), (5, .castDisputeVote 20 0 false),
      (6, .castDisputeVote 22 0 false)]).1 :=
  quorum_run sampleWorld_initialized (sampleRun_run _) 0 (by decide +kernel)

end AgriFi.FarmCampaign
