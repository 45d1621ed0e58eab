import Mathlib.Data.List.Nodup
import AgriFi.Threads
import AgriFi.TradeDeals.Closers

/-
  One closer, from its read to its last write. A snapshot lists the confirmed investments, a
  clawback has one line for each of them that has a wallet, and `Stage` says what a closer that
  nothing has disturbed knows at each of its commands: before the clawback nothing of its list is
  taken back, after it everything is, once. `step_closer`: a command goes from stage to stage, and
  leaves what other closers know (`Stage.frame`).
-/

namespace AgriFi.TradeDeals

open AgriFi.Runs AgriFi.Threads
open AgriFi.DealDelivered (Outcome)
open AgriFi.Investments

def isClosed : TradeDealStatus → Bool
  | .canceled | .expired => true
  | _ => false

/-- The status of investment `k`, if it is there. -/
def State.statusOf (s : State) (k : Nat) : Option InvestmentStatus :=
  s.db.investments[k]?.map Investment.status

/-- How often investment `k` was clawed back or refunded by the campaign. -/
def State.returns (s : State) (k : Nat) : Nat :=
  s.clawedBack.countP (fun share => share.investment = some k) + s.campaignRefunds.count k

/-- Every investment is for some tokens. -/
def Positive (s : State) : Prop := ∀ i ∈ s.db.investments, 0 < i.tokenAmount

/-- The snapshot of a closer that is past its read and still running. -/
def Command.snapshot : Command → Option Snapshot
  | .read | .finished => none
  | .decryptSecret snapshot | .clawbackTokens snapshot | .markCampaignFailed snapshot
  | .refundInvestor snapshot _ _ | .updateRefunded snapshot | .saveDeal snapshot
  | .commit snapshot => some snapshot

def Command.ids (command : Command) : List Nat := (command.snapshot.map Snapshot.ids).getD []

/-! ## Reading and writing investments -/

variable {s s' : State} {snapshot : Snapshot} {ids : List Nat}

theorem holding_isSome (s : State) (k : Nat) :
    (s.holding k).isSome = true ↔ s.statusOf k = some .confirmed := by
  unfold State.holding State.statusOf
  cases s.db.investments[k]? with
  | none => simp
  | some i => by_cases hc : i.status = .confirmed <;> simp [hc]

theorem holding_id {k : Nat} {h : Holding} (hk : s.holding k = some h) : h.id = k := by
  obtain ⟨i, _, hi⟩ := Option.bind_eq_some_iff.mp hk
  split at hi
  · rw [← Option.some.inj hi]
  · cases hi

theorem holding_positive (hs : Positive s) {k : Nat} {h : Holding} (hk : s.holding k = some h) :
    0 < h.tokenAmount := by
  obtain ⟨i, hget, hi⟩ := Option.bind_eq_some_iff.mp hk
  split at hi
  · rw [← Option.some.inj hi]
    exact hs i (List.mem_of_getElem? hget)
  · cases hi

/-- A snapshot lists the confirmed investments, in their order. -/
theorem ids_snapshot (s : State) :
    s.snapshot.ids = (List.range s.db.investments.length).filter fun k => (s.holding k).isSome := by
  show List.map Holding.id (List.filterMap s.holding _) = _
  rw [List.map_filterMap, ← List.filterMap_eq_filter]
  apply List.filterMap_congr
  intro k _
  cases hk : s.holding k with
  | none => simp [Option.guard, hk]
  | some h => simp [Option.guard, hk, holding_id hk]

theorem nodup_ids_snapshot (s : State) : s.snapshot.ids.Nodup := by
  rw [ids_snapshot]
  exact List.nodup_range.filter _

theorem mem_ids_snapshot {k : Nat} : k ∈ s.snapshot.ids ↔ s.statusOf k = some .confirmed := by
  rw [ids_snapshot, List.mem_filter, List.mem_range, holding_isSome]
  refine and_iff_right_of_imp ?_
  intro hk
  obtain ⟨i, hi, _⟩ := Option.map_eq_some_iff.mp hk
  exact (List.getElem?_eq_some_iff.mp hi).1

theorem positive_snapshot (hs : Positive s) :
    ∀ h ∈ s.snapshot.confirmedInvestments, 0 < h.tokenAmount := by
  intro h hh
  obtain ⟨k, _, hk⟩ := List.mem_filterMap.mp hh
  exact holding_positive hs hk

theorem ids_eq_nil_iff : snapshot.ids = [] ↔ snapshot.confirmedInvestments = [] :=
  List.map_eq_nil_iff

theorem statusOf_refund (s : State) (ids : List Nat) (k : Nat) :
    (s.refund ids).statusOf k =
      if k ∈ ids then (s.statusOf k).map fun _ => .refunded else s.statusOf k := by
  show ((s.db.investments.mapIdx _)[k]?).map Investment.status = _
  rw [List.getElem?_mapIdx]
  unfold State.statusOf
  cases s.db.investments[k]? with
  | none => simp
  | some i => by_cases hk : k ∈ ids <;> simp [hk]

theorem statusOf_insert (s : State) (investorId : Nat) (dto : CreateInvestmentDto) (k : Nat)
    {status : InvestmentStatus} (hne : status ≠ .pending)
    (h : State.statusOf { s with db := s.db.insert investorId dto } k = some status) :
    s.statusOf k = some status := by
  unfold State.statusOf at h
  obtain ⟨i, hi, hstatus⟩ := Option.map_eq_some_iff.mp h
  rcases getElem?_append_cases hi with hi | rfl
  · unfold State.statusOf
    rw [hi]
    exact congrArg some hstatus
  · exact absurd hstatus.symm hne

theorem statusOf_confirm (s : State) (id total k : Nat) :
    State.statusOf { s with db := s.db.confirm id total } k =
      if id = k then (s.statusOf k).map fun _ => .confirmed else s.statusOf k := by
  show ((s.db.investments.modify id _)[k]?).map Investment.status = _
  rw [List.getElem?_modify]
  unfold State.statusOf
  cases s.db.investments[k]? with
  | none => simp
  | some i => by_cases hk : id = k <;> simp [hk]

/-! ## What a clawback takes -/

/-- A snapshot whose investments all have a line in the clawback. -/
structure Listed (snapshot : Snapshot) : Prop where
  nodup : snapshot.ids.Nodup
  wallets : ∀ h ∈ snapshot.confirmedInvestments, isSet h.walletAddress = true
  positive : ∀ h ∈ snapshot.confirmedInvestments, 0 < h.tokenAmount

theorem mem_ids_of_share {share : Share} {k : Nat} (h : share ∈ snapshot.shares)
    (hk : share.investment = some k) : k ∈ snapshot.ids := by
  obtain ⟨holding, hmem, hshare⟩ := List.mem_filterMap.mp h
  unfold Holding.share at hshare
  split at hshare
  · rw [← Option.some.inj hshare] at hk
    obtain rfl : holding.id = k := Option.some.inj hk
    exact List.mem_map_of_mem hmem
  · cases hshare

theorem investment_unsold {share : Share} (h : share ∈ snapshot.unsold) :
    share.investment = none := by
  unfold Snapshot.unsold at h
  split at h
  · rw [List.mem_singleton.mp h]
  · cases h

/-- The lines of one investment in a clawback. -/
def linesOf (k : Nat) (shares : List Share) : Nat :=
  (shares.filter fun share => 0 < share.tokenAmount).countP fun share => share.investment = some k

theorem linesOf_append (k : Nat) (xs ys : List Share) :
    linesOf k (xs ++ ys) = linesOf k xs + linesOf k ys := by
  unfold linesOf
  rw [List.filter_append, List.countP_append]

theorem linesOf_eq_zero {k : Nat} {shares : List Share}
    (h : ∀ share ∈ shares, share.investment ≠ some k) : linesOf k shares = 0 := by
  unfold linesOf
  rw [List.countP_eq_zero]
  intro share hshare
  simpa using h share (List.mem_of_mem_filter hshare)

theorem linesOf_investorShares (snapshot : Snapshot) (closer : Closer) (k : Nat) :
    linesOf k (closer.investorShares snapshot) = linesOf k snapshot.shares := by
  have hunsold : linesOf k snapshot.unsold = 0 := by
    apply linesOf_eq_zero
    intro share hshare
    rw [investment_unsold hshare]
    nofun
  have happend : linesOf k (snapshot.shares ++ snapshot.unsold) = linesOf k snapshot.shares := by
    rw [linesOf_append, hunsold]
    rfl
  cases closer with
  | cancelDeal traderId => exact happend
  | expireDeal => exact happend
  | closeUnderfundedDeal => rfl

theorem linesOf_of_not_mem {k : Nat} (h : k ∉ snapshot.ids) : linesOf k snapshot.shares = 0 := by
  apply linesOf_eq_zero
  intro share hshare hk
  exact h (mem_ids_of_share hshare hk)

/-- Each investment of a listed snapshot has one line. -/
theorem linesOf_of_mem (hl : Listed snapshot) {k : Nat} (h : k ∈ snapshot.ids) :
    linesOf k snapshot.shares = 1 := by
  have hlines : ∀ holdings : List Holding, (∀ h ∈ holdings, isSet h.walletAddress = true) →
      (∀ h ∈ holdings, 0 < h.tokenAmount) →
      linesOf k (holdings.filterMap Holding.share) = (holdings.map Holding.id).count k := by
    intro holdings hwallets hpositive
    induction holdings with
    | nil => rfl
    | cons holding holdings ih =>
      have hrest := ih (fun h hh => hwallets h (List.mem_cons_of_mem _ hh))
        (fun h hh => hpositive h (List.mem_cons_of_mem _ hh))
      have hshare : holding.share =
          some ⟨some holding.id, holding.walletAddress.getD "", holding.tokenAmount⟩ :=
        if_pos (hwallets holding (List.mem_cons_self ..))
      have htokens := hpositive holding (List.mem_cons_self ..)
      rw [List.filterMap_cons_some hshare, ← List.singleton_append, linesOf_append, hrest,
        List.map_cons, List.count_cons]
      by_cases hk : holding.id = k <;> simp [linesOf, htokens, hk, Nat.add_comm]
  unfold Snapshot.shares
  rw [hlines _ hl.wallets hl.positive]
  exact List.count_eq_one_of_mem hl.nodup h

theorem returns_clawback (s : State) (closer : Closer) (snapshot : Snapshot) (k : Nat) :
    (s.clawback (closer.investorShares snapshot)).returns k =
      s.returns k + linesOf k snapshot.shares := by
  have hlines := linesOf_investorShares snapshot closer k
  unfold linesOf at hlines
  show List.countP _ (s.clawedBack ++ _) + s.campaignRefunds.count k = _
  rw [List.countP_append, hlines]
  unfold State.returns linesOf
  omega

theorem returns_campaignRefund (s : State) (id k : Nat) :
    (s.campaignRefund id).returns k = s.returns k + if id = k then 1 else 0 := by
  show s.clawedBack.countP _ + List.count k (s.campaignRefunds ++ [id]) = _
  rw [List.count_append, List.count_singleton]
  unfold State.returns
  by_cases hk : id = k <;> simp [hk, Nat.add_assoc]

/-! ## One command of a closer -/

def NoneConfirmed (s : State) : Prop := ∀ k, s.statusOf k ≠ some .confirmed

def RefundedOnce (s : State) : Prop := ∀ k, s.statusOf k = some .refunded → s.returns k = 1

/-- What a command leaves of the deal, the investments and what was taken back, when it takes back
    at most the investments `ids`. -/
structure Effect (ids : List Nat) (s s' : State) : Prop where
  deal : s'.db.deal.status = s.db.deal.status ∨
    s.db.deal.status ≠ .funded ∧ isClosed s'.db.deal.status = true ∧ NoneConfirmed s'
  confirmed : ∀ k, s'.statusOf k = some .confirmed → s.statusOf k = some .confirmed
  returns : ∀ k, k ∉ ids → s'.returns k = s.returns k
  refunded : RefundedOnce s → RefundedOnce s'
  positive : Positive s → Positive s'

theorem Effect.refl (ids : List Nat) (s : State) : Effect ids s s :=
  ⟨.inl rfl, fun _ => id, fun _ _ => rfl, id, id⟩

theorem Effect.trans {s'' : State} (h : Effect ids s s') (h' : Effect ids s' s'') :
    Effect ids s s'' := by
  constructor
  case deal =>
    rcases h'.deal with hsame' | ⟨hne, hclosed, hnone⟩
    · rcases h.deal with hsame | ⟨hne, hclosed, hnone⟩
      · exact .inl (hsame'.trans hsame)
      · refine .inr ⟨hne, ?_, fun k hk => hnone k (h'.confirmed k hk)⟩
        rw [hsame']
        exact hclosed
    · refine .inr ⟨?_, hclosed, hnone⟩
      intro hfunded
      rcases h.deal with hsame | ⟨hne', _⟩
      · exact hne (hsame.trans hfunded)
      · exact hne' hfunded
  case confirmed => exact fun k hk => h.confirmed k (h'.confirmed k hk)
  case returns => exact fun k hk => (h'.returns k hk).trans (h.returns k hk)
  case refunded => exact fun hr => h'.refunded (h.refunded hr)
  case positive => exact fun hp => h'.positive (h.positive hp)

theorem Effect.took {o : Outcome} (h : Effect ids s s') : Effect ids s (took s s' o) := by
  cases o with
  | ok => exact h
  | fail => exact .refl ids s
  | lost => exact h

/-- The deal is not funded, and all that is confirmed is in the snapshot. -/
structure Covers (s : State) (snapshot : Snapshot) : Prop where
  notFunded : s.db.deal.status ≠ .funded
  confirmed : ∀ k, s.statusOf k = some .confirmed → k ∈ snapshot.ids

def Untaken (s : State) (ids : List Nat) : Prop := ∀ k ∈ ids, s.returns k = 0

def Taken (s : State) (ids : List Nat) : Prop := ∀ k ∈ ids, s.returns k = 1

/-- What a closer that nothing has disturbed knows when it sends the command. -/
def Stage (s : State) : Closer → Command → Prop
  | _, .read | _, .finished => True
  | _, .decryptSecret snapshot | _, .clawbackTokens snapshot =>
    Covers s snapshot ∧ Untaken s snapshot.ids ∧ Listed snapshot
  | _, .markCampaignFailed snapshot =>
    Covers s snapshot ∧ Untaken s snapshot.ids ∧ snapshot.ids.Nodup
  | _, .refundInvestor snapshot investment left =>
    Covers s snapshot ∧ snapshot.ids.Nodup ∧
      ∃ done, snapshot.confirmedInvestments = done ++ investment :: left ∧
        Taken s (done.map Holding.id) ∧ Untaken s ((investment :: left).map Holding.id)
  | _, .updateRefunded snapshot | _, .commit snapshot | .cancelDeal _, .saveDeal snapshot =>
    Covers s snapshot ∧ Taken s snapshot.ids
  | .expireDeal, .saveDeal snapshot | .closeUnderfundedDeal, .saveDeal snapshot =>
    Covers s snapshot ∧ NoneConfirmed s

variable {closer : Closer} {command command' : Command} {o : Outcome} {terms : Terms}

theorem Covers.effect (h : Covers s snapshot) (he : Effect ids s s') : Covers s' snapshot := by
  constructor
  case notFunded =>
    rcases he.deal with hsame | ⟨_, hclosed, _⟩
    · rw [hsame]
      exact h.notFunded
    · intro hfunded
      rw [hfunded] at hclosed
      cases hclosed
  case confirmed => exact fun k hk => h.confirmed k (he.confirmed k hk)

theorem Covers.noneConfirmed (h : Covers s snapshot) (hnil : snapshot.ids = []) :
    NoneConfirmed s := by
  intro k hk
  have hmem := h.confirmed k hk
  rw [hnil] at hmem
  cases hmem

theorem Effect.sameReturns (he : Effect ids s s') {ids' : List Nat} {n : Nat}
    (hdisjoint : ∀ k ∈ ids', k ∉ ids) (h : ∀ k ∈ ids', s.returns k = n) :
    ∀ k ∈ ids', s'.returns k = n :=
  fun k hk => (he.returns k (hdisjoint k hk)).trans (h k hk)

/-- Another thread's command takes back nothing of what this closer lists. -/
theorem Stage.frame (h : Stage s closer command) (he : Effect ids s s')
    (hdisjoint : ∀ k ∈ command.ids, k ∉ ids) : Stage s' closer command := by
  cases command with
  | read => trivial
  | finished => trivial
  | decryptSecret snapshot =>
    exact ⟨h.1.effect he, he.sameReturns hdisjoint h.2.1, h.2.2⟩
  | clawbackTokens snapshot =>
    exact ⟨h.1.effect he, he.sameReturns hdisjoint h.2.1, h.2.2⟩
  | markCampaignFailed snapshot =>
    exact ⟨h.1.effect he, he.sameReturns hdisjoint h.2.1, h.2.2⟩
  | refundInvestor snapshot investment left =>
    obtain ⟨hcovers, hnodup, done, hsplit, htaken, huntaken⟩ := h
    have hids : snapshot.ids = done.map Holding.id ++ (investment :: left).map Holding.id := by
      rw [← List.map_append, ← hsplit]
      rfl
    have hdisjoint : ∀ k ∈ snapshot.ids, k ∉ ids := hdisjoint
    rw [hids] at hdisjoint
    refine ⟨hcovers.effect he, hnodup, done, hsplit, ?_, ?_⟩
    · exact he.sameReturns (fun k hk => hdisjoint k (List.mem_append_left _ hk)) htaken
    · exact he.sameReturns (fun k hk => hdisjoint k (List.mem_append_right _ hk)) huntaken
  | updateRefunded snapshot => exact ⟨h.1.effect he, he.sameReturns hdisjoint h.2⟩
  | commit snapshot => exact ⟨h.1.effect he, he.sameReturns hdisjoint h.2⟩
  | saveDeal snapshot =>
    have hnone : NoneConfirmed s → NoneConfirmed s' :=
      fun hnone k hk => hnone k (he.confirmed k hk)
    cases closer with
    | cancelDeal traderId => exact ⟨h.1.effect he, he.sameReturns hdisjoint h.2⟩
    | expireDeal => exact ⟨h.1.effect he, hnone h.2⟩
    | closeUnderfundedDeal => exact ⟨h.1.effect he, hnone h.2⟩

theorem stage_writing (hcovers : Covers s snapshot) (htaken : Taken s snapshot.ids) :
    Stage s closer (writing snapshot) := by
  unfold writing
  split
  · next hnil =>
    have hnone := hcovers.noneConfirmed (ids_eq_nil_iff.mpr hnil)
    cases closer with
    | cancelDeal traderId => exact ⟨hcovers, htaken⟩
    | expireDeal => exact ⟨hcovers, hnone⟩
    | closeUnderfundedDeal => exact ⟨hcovers, hnone⟩
  · exact ⟨hcovers, htaken⟩

theorem stage_refunding (hcovers : Covers s snapshot) (hnodup : snapshot.ids.Nodup)
    (done : List Holding) {left : List Holding}
    (hsplit : snapshot.confirmedInvestments = done ++ left)
    (htaken : Taken s (done.map Holding.id)) (huntaken : Untaken s (left.map Holding.id)) :
    Stage s closer (refunding snapshot left) := by
  unfold refunding
  split
  · apply stage_writing hcovers
    unfold Snapshot.ids
    rw [hsplit, List.append_nil]
    exact htaken
  · split
    · exact ⟨hcovers, hnodup, done, hsplit, htaken, huntaken⟩
    · trivial

theorem stage_goesOn (h : Stage s closer command) : Stage s closer (goesOn command o) := by
  cases o with
  | ok => exact h
  | fail => trivial
  | lost => trivial

/-! ### The effects -/

theorem effect_clawback (closer : Closer) (hlisted : Listed snapshot)
    (huntaken : Untaken s snapshot.ids) :
    Effect snapshot.ids s (s.clawback (closer.investorShares snapshot)) ∧
      Taken (s.clawback (closer.investorShares snapshot)) snapshot.ids := by
  have htaken : Taken (s.clawback (closer.investorShares snapshot)) snapshot.ids := by
    intro k hk
    rw [returns_clawback, huntaken k hk, linesOf_of_mem hlisted hk]
  have hother : ∀ k, k ∉ snapshot.ids →
      (s.clawback (closer.investorShares snapshot)).returns k = s.returns k := by
    intro k hk
    rw [returns_clawback, linesOf_of_not_mem hk]
    rfl
  refine ⟨⟨.inl rfl, fun _ => id, hother, ?_, id⟩, htaken⟩
  intro hr k hk
  by_cases hmem : k ∈ snapshot.ids
  · exact htaken k hmem
  · exact (hother k hmem).trans (hr k hk)

theorem effect_campaignRefund {k : Nat} (hmem : k ∈ snapshot.ids) (huntaken : s.returns k = 0) :
    Effect snapshot.ids s (s.campaignRefund k) := by
  have hother : ∀ j, j ≠ k → (s.campaignRefund k).returns j = s.returns j := by
    intro j hj
    rw [returns_campaignRefund, if_neg (Ne.symm hj)]
    rfl
  refine ⟨.inl rfl, fun _ => id, ?_, ?_, id⟩
  · intro j hj
    apply hother
    rintro rfl
    exact hj hmem
  · intro hr j hj
    by_cases heq : j = k
    · rw [heq, returns_campaignRefund, if_pos rfl, huntaken]
    · exact (hother j heq).trans (hr j hj)

theorem effect_refund (htaken : Taken s ids) : Effect ids s (s.refund ids) := by
  refine ⟨.inl rfl, ?_, fun _ _ => rfl, ?_, ?_⟩
  · intro k hk
    rw [statusOf_refund] at hk
    split at hk
    · obtain ⟨_, _, hstatus⟩ := Option.map_eq_some_iff.mp hk
      cases hstatus
    · exact hk
  · intro hr k hk
    rw [statusOf_refund] at hk
    split at hk
    · next hmem => exact htaken k hmem
    · exact hr k hk
  · intro hp i hi
    obtain ⟨k, hk⟩ := List.mem_iff_getElem?.mp hi
    have hk : (s.db.investments.mapIdx _)[k]? = some i := hk
    rw [List.getElem?_mapIdx] at hk
    obtain ⟨j, hj, rfl⟩ := Option.map_eq_some_iff.mp hk
    have hpos := hp j (List.mem_of_getElem? hj)
    split <;> exact hpos

theorem noneConfirmed_refund (hcovers : Covers s snapshot) :
    NoneConfirmed (s.refund snapshot.ids) := by
  intro k hk
  rw [statusOf_refund] at hk
  split at hk
  · obtain ⟨_, _, hstatus⟩ := Option.map_eq_some_iff.mp hk
    cases hstatus
  · next hmem => exact hmem (hcovers.confirmed k hk)

theorem effect_save (ids : List Nat) (hfunded : s.db.deal.status ≠ .funded)
    (hnone : NoneConfirmed s) (deal : TradeDeal) (closer : Closer) :
    Effect ids s (s.save deal closer.status) := by
  refine ⟨.inr ⟨hfunded, ?_, hnone⟩, fun _ => id, fun _ _ => rfl, id, id⟩
  cases closer <;> rfl

/-! ### The read -/

/-- The closer gets to its clawback or to the campaign's refunds, and every investment that it lists
    has a line there. -/
def Closer.takesBack (terms : Terms) (snapshot : Snapshot) (closer : Closer) : Bool :=
  closer = .closeUnderfundedDeal ∧ usesCampaign terms ∨
    snapshot.deal.status = .opened ∧ hasAsset terms snapshot.deal ∧
      ∀ h ∈ snapshot.confirmedInvestments, isSet h.walletAddress

theorem listed_of_nil (h : snapshot.ids = []) : Listed snapshot := by
  have hnil := ids_eq_nil_iff.mp h
  constructor
  case nodup => rw [h]; exact List.nodup_nil
  case wallets => rw [hnil]; nofun
  case positive => rw [hnil]; nofun

theorem investorShares_ne_nil (hl : Listed snapshot) (hne : snapshot.ids ≠ []) (closer : Closer) :
    closer.investorShares snapshot ≠ [] := by
  obtain ⟨k, hk⟩ := List.exists_mem_of_ne_nil _ hne
  intro hnil
  have hlines := linesOf_investorShares snapshot closer k
  rw [hnil, linesOf_of_mem hl hk] at hlines
  cases hlines

theorem stage_clawingBack (hcovers : Covers s snapshot) (huntaken : Untaken s snapshot.ids)
    (hlisted : Listed snapshot)
    (hasset : snapshot.ids = [] ∨ hasAsset terms snapshot.deal = true) :
    Stage s closer (clawingBack terms closer snapshot) := by
  unfold clawingBack
  split
  · exact ⟨hcovers, huntaken, hlisted⟩
  · next hnot =>
    apply stage_writing hcovers
    by_cases hnil : snapshot.ids = []
    · rw [hnil]
      nofun
    · refine absurd ⟨?_, investorShares_ne_nil hlisted hnil closer⟩ hnot
      exact hasset.resolve_left hnil

theorem stage_of_none (h : command.snapshot = none) : Stage s closer command := by
  cases command with
  | read => trivial
  | finished => trivial
  | _ => cases h

theorem stage_checked (hpos : Positive s)
    (h : s.snapshot.ids = [] ∨
      closer.takesBack terms s.snapshot = true ∧ Untaken s s.snapshot.ids) :
    Stage s closer (closer.checked terms s.snapshot) := by
  have hcovers : ∀ {status : TradeDealStatus}, s.snapshot.deal.status = status →
      status ≠ .funded → Covers s s.snapshot := by
    rintro status rfl hne
    exact ⟨hne, fun k hk => mem_ids_snapshot.mpr hk⟩
  have huntaken : Untaken s s.snapshot.ids := by
    rcases h with hnil | ⟨_, huntaken⟩
    · rw [hnil]
      nofun
    · exact huntaken
  have hback : (closer = .closeUnderfundedDeal → usesCampaign terms = false) →
      s.snapshot.deal.status = .opened →
      Stage s closer (clawingBack terms closer s.snapshot) := by
    intro hcampaign hopen
    rcases h with hnil | ⟨htakes, _⟩
    · exact stage_clawingBack (hcovers hopen nofun) huntaken (listed_of_nil hnil) (.inl hnil)
    · rcases of_decide_eq_true htakes with ⟨hunderfunded, huses⟩ | ⟨_, hasset, hwallets⟩
      · rw [hcampaign hunderfunded] at huses
        cases huses
      · refine stage_clawingBack (hcovers hopen nofun) huntaken ?_ (.inr hasset)
        exact ⟨nodup_ids_snapshot s, hwallets, positive_snapshot hpos⟩
  cases closer with
  | cancelDeal traderId =>
    unfold Closer.checked
    dsimp only
    split
    · trivial
    · next hcancellable =>
      split
      · next hopen => exact hback nofun hopen
      · next hnotOpen =>
        have hdraft : s.snapshot.deal.status = .draft := by
          by_contra hne
          exact hcancellable (.inr ⟨hne, hnotOpen⟩)
        have hnil : s.snapshot.ids = [] := by
          rcases h with hnil | ⟨htakes, _⟩
          · exact hnil
          · rcases of_decide_eq_true htakes with ⟨hother, _⟩ | ⟨hopen, _⟩
            · cases hother
            · exact absurd hopen hnotOpen
        apply stage_writing (hcovers hdraft nofun)
        rw [hnil]
        nofun
  | expireDeal =>
    unfold Closer.checked
    dsimp only
    split
    · trivial
    · next hopen => exact hback nofun (not_not.mp fun hne => hopen (.inl hne))
  | closeUnderfundedDeal =>
    unfold Closer.checked
    dsimp only
    split
    · trivial
    · next hchecks =>
      have hopen : s.snapshot.deal.status = .opened := not_not.mp fun hne => hchecks (.inl hne)
      split
      · exact ⟨hcovers hopen nofun, huntaken, nodup_ids_snapshot s⟩
      · next hcampaign => exact hback (fun _ => by simpa using hcampaign) hopen

/-! ### The snapshot along a closer -/

theorem ids_writing (snapshot : Snapshot) : (writing snapshot).ids = snapshot.ids := by
  unfold writing
  split <;> rfl

theorem ids_goesOn (h : command.ids = ids ∨ command.ids = []) :
    (goesOn command o).ids = ids ∨ (goesOn command o).ids = [] := by
  cases o with
  | ok => exact h
  | fail => exact .inr rfl
  | lost => exact .inr rfl

theorem ids_refunding (snapshot : Snapshot) (left : List Holding) :
    (refunding snapshot left).ids = snapshot.ids ∨ (refunding snapshot left).ids = [] := by
  unfold refunding
  split
  · exact .inl (ids_writing snapshot)
  · split
    · exact .inl rfl
    · exact .inr rfl

theorem snapshot_checked (terms : Terms) (snapshot : Snapshot) (closer : Closer) :
    (closer.checked terms snapshot).snapshot = some snapshot ∨
      (closer.checked terms snapshot).snapshot = none := by
  have hwriting : (writing snapshot).snapshot = some snapshot := by
    unfold writing
    split <;> rfl
  have hback : ∀ closer', (clawingBack terms closer' snapshot).snapshot = some snapshot := by
    intro closer'
    unfold clawingBack
    split
    · rfl
    · exact hwriting
  unfold Closer.checked
  dsimp only
  split
  · split
    · exact .inr rfl
    · split
      · exact .inl (hback _)
      · exact .inl hwriting
  · split
    · exact .inr rfl
    · exact .inl (hback _)
  · split
    · exact .inr rfl
    · split
      · exact .inl rfl
      · exact .inl (hback _)

/-- A command after the read. -/
theorem step_closer (hread : command ≠ .read) (hstage : Stage s closer command)
    (h : stepCloser terms closer s o command = some (s', command')) :
    Effect command.ids s s' ∧ Stage s' closer command' ∧
      (command'.ids = command.ids ∨ command'.ids = []) := by
  cases command with
  | read => exact absurd rfl hread
  | decryptSecret snapshot =>
    obtain ⟨rfl, rfl⟩ := Prod.mk.inj (Option.some.inj h)
    exact ⟨.refl _ _, stage_goesOn hstage, ids_goesOn (.inl rfl)⟩
  | clawbackTokens snapshot =>
    obtain ⟨rfl, rfl⟩ := Prod.mk.inj (Option.some.inj h)
    obtain ⟨hcovers, huntaken, hlisted⟩ := hstage
    obtain ⟨heffect, htaken⟩ := effect_clawback closer hlisted huntaken
    refine ⟨heffect.took, ?_, ids_goesOn (.inl (ids_writing snapshot))⟩
    cases o with
    | ok => exact stage_writing (hcovers.effect heffect) htaken
    | fail => trivial
    | lost => trivial
  | markCampaignFailed snapshot =>
    obtain ⟨rfl, rfl⟩ := Prod.mk.inj (Option.some.inj h)
    obtain ⟨hcovers, huntaken, hnodup⟩ := hstage
    refine ⟨.refl _ _, stage_goesOn ?_, ids_goesOn (ids_refunding _ _)⟩
    exact stage_refunding hcovers hnodup [] rfl nofun huntaken
  | refundInvestor snapshot investment left =>
    obtain ⟨rfl, rfl⟩ := Prod.mk.inj (Option.some.inj h)
    obtain ⟨hcovers, hnodup, done, hsplit, htaken, huntaken⟩ := hstage
    have hids : snapshot.ids = done.map Holding.id ++ investment.id :: left.map Holding.id := by
      unfold Snapshot.ids
      rw [hsplit, List.map_append, List.map_cons]
    have hmem : investment.id ∈ snapshot.ids := by
      rw [hids]
      exact List.mem_append_right _ (List.mem_cons_self ..)
    have hnow : s.returns investment.id = 0 := huntaken _ (List.mem_cons_self ..)
    have heffect := effect_campaignRefund hmem hnow
    refine ⟨heffect.took, ?_, ids_goesOn (ids_refunding _ _)⟩
    cases o with
    | ok =>
      rw [hids] at hnodup
      have hnodup' := List.nodup_append.mp hnodup
      refine stage_refunding (hcovers.effect heffect) (hids ▸ hnodup) (done ++ [investment])
        ?_ ?_ ?_
      · rw [hsplit, List.append_assoc]
        rfl
      · intro k hk
        rw [List.map_append, List.mem_append] at hk
        rw [returns_campaignRefund]
        rcases hk with hk | hk
        · have hne : investment.id ≠ k :=
            Ne.symm (hnodup'.2.2 k hk investment.id (List.mem_cons_self ..))
          rw [htaken k hk, if_neg hne]
        · obtain rfl := List.mem_singleton.mp hk
          rw [hnow, if_pos rfl]
      · intro k hk
        have hne : investment.id ≠ k := by
          rintro rfl
          exact (List.nodup_cons.mp hnodup'.2.1).1 hk
        rw [returns_campaignRefund, huntaken k (List.mem_cons_of_mem _ hk), if_neg hne]
    | fail => trivial
    | lost => trivial
  | updateRefunded snapshot =>
    obtain ⟨hcovers, htaken⟩ := hstage
    have heffect := effect_refund htaken
    have hnone := noneConfirmed_refund hcovers
    cases closer with
    | cancelDeal traderId =>
      obtain ⟨rfl, rfl⟩ := Prod.mk.inj (Option.some.inj h)
      exact ⟨.refl _ _, stage_goesOn ⟨hcovers, htaken⟩, ids_goesOn (.inl rfl)⟩
    | expireDeal | closeUnderfundedDeal =>
      obtain ⟨rfl, rfl⟩ := Prod.mk.inj (Option.some.inj h)
      refine ⟨heffect.took, ?_, ids_goesOn (.inl rfl)⟩
      cases o with
      | ok => exact ⟨hcovers.effect heffect, hnone⟩
      | fail => trivial
      | lost => trivial
  | saveDeal snapshot =>
    cases closer with
    | cancelDeal traderId =>
      obtain ⟨rfl, rfl⟩ := Prod.mk.inj (Option.some.inj h)
      exact ⟨.refl _ _, stage_goesOn hstage, ids_goesOn (.inl rfl)⟩
    | expireDeal | closeUnderfundedDeal =>
      obtain ⟨rfl, rfl⟩ := Prod.mk.inj (Option.some.inj h)
      obtain ⟨hcovers, hnone⟩ := hstage
      exact ⟨(effect_save _ hcovers.notFunded hnone _ _).took, trivial, .inr rfl⟩
  | commit snapshot =>
    obtain ⟨rfl, rfl⟩ := Prod.mk.inj (Option.some.inj h)
    obtain ⟨hcovers, htaken⟩ := hstage
    have hsaved := effect_save snapshot.ids
      (hcovers.effect (effect_refund htaken)).notFunded (noneConfirmed_refund hcovers)
      snapshot.deal closer
    exact ⟨((effect_refund htaken).trans hsaved).took, trivial, .inr rfl⟩
  | finished => cases h

end AgriFi.TradeDeals
