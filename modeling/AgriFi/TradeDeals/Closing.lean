import AgriFi.TradeDeals.Snapshots

/-
  What is left when a deal is closed. A confirmation that commits after a closer's read is not in
  the snapshot: its investment stays CONFIRMED in the closed deal, and the save overwrites `funded`
  (`closed_with_live_money`). An error after the clawback leaves the investments CONFIRMED, and the
  retry claws back once more. `closed_keeps_no_live_money`: when no confirmation commits beside a
  closer or after it, and each closer that finds confirmed investments is alone, finds nothing taken
  back yet and has what it needs to take it back, then a closed deal has no CONFIRMED investment, a
  funded one stays funded, and each REFUNDED investment was taken back once.
-/

namespace AgriFi.TradeDeals

open AgriFi.Runs AgriFi.Threads
open AgriFi.DealDelivered (Outcome)
open AgriFi.Investments

/-! ## The threads -/

/-- The commands of `createInvestment`, for some tokens, and of `confirmInvestment`. -/
def Admitted : Pc → Prop
  | .lockDeal _ dto | .findConfirmed _ _ dto | .insert _ dto => 0 < dto.tokenAmount
  | .readToConfirm _ _ | .updateStatus _ | .findTotal _ | .updateTotal _ _ | .commit _ _
  | .finished => True
  | _ => False

def isCommit : Pc → Bool
  | .commit _ _ => true
  | _ => false

variable {s s' : State} {pc pc' : Pc} {db : Database} {command command' : Command} {o : Outcome}
  {terms : Terms}

theorem admitted_onOk (h : Admitted pc) : Admitted (onOk pc o) := by
  cases o with
  | ok => exact h
  | fail => trivial
  | lost => trivial

/-- The transactions of the calls: nothing is written, an investment is inserted, or one is
    confirmed. -/
theorem stepDb_cases {hours : Nat} (hpc : Admitted pc)
    (h : stepDb hours s.db o pc = some (db, pc')) :
    Admitted pc' ∧ (db = s.db ∨
      (∃ investorId dto, 0 < dto.tokenAmount ∧ db = s.db.insert investorId dto) ∨
      ∃ id total, pc = .commit id total ∧ pc' = .finished ∧ o ≠ .fail ∧
        db = s.db.confirm id total) := by
  cases pc with
  | lockDeal investorId dto =>
    obtain ⟨rfl, rfl⟩ := Prod.mk.inj (Option.some.inj h)
    refine ⟨admitted_onOk ?_, .inl rfl⟩
    unfold lockedDeal
    split
    · exact hpc
    · trivial
  | findConfirmed tradeDeal investorId dto =>
    obtain ⟨rfl, rfl⟩ := Prod.mk.inj (Option.some.inj h)
    refine ⟨admitted_onOk ?_, .inl rfl⟩
    unfold counted
    split
    · exact hpc
    · trivial
  | insert investorId dto =>
    obtain ⟨rfl, rfl⟩ := Prod.mk.inj (Option.some.inj h)
    cases o with
    | ok => exact ⟨trivial, .inr (.inl ⟨investorId, dto, hpc, rfl⟩)⟩
    | fail => exact ⟨trivial, .inl rfl⟩
    | lost => exact ⟨trivial, .inr (.inl ⟨investorId, dto, hpc, rfl⟩)⟩
  | readToConfirm investorId id =>
    obtain ⟨rfl, rfl⟩ := Prod.mk.inj (Option.some.inj h)
    refine ⟨admitted_onOk ?_, .inl rfl⟩
    split <;> trivial
  | updateStatus id =>
    obtain ⟨rfl, rfl⟩ := Prod.mk.inj (Option.some.inj h)
    exact ⟨admitted_onOk trivial, .inl rfl⟩
  | findTotal id =>
    obtain ⟨rfl, rfl⟩ := Prod.mk.inj (Option.some.inj h)
    exact ⟨admitted_onOk trivial, .inl rfl⟩
  | updateTotal id total =>
    obtain ⟨rfl, rfl⟩ := Prod.mk.inj (Option.some.inj h)
    exact ⟨admitted_onOk trivial, .inl rfl⟩
  | commit id total =>
    obtain ⟨rfl, rfl⟩ := Prod.mk.inj (Option.some.inj h)
    cases o with
    | ok => exact ⟨trivial, .inr (.inr ⟨id, total, rfl, rfl, nofun, rfl⟩)⟩
    | fail => exact ⟨trivial, .inl rfl⟩
    | lost => exact ⟨trivial, .inr (.inr ⟨id, total, rfl, rfl, nofun, rfl⟩)⟩
  | finished => cases h
  | _ => exact hpc.elim

theorem effect_insert (investorId : Nat) {dto : CreateInvestmentDto} (hdto : 0 < dto.tokenAmount) :
    Effect [] s { s with db := s.db.insert investorId dto } := by
  refine ⟨.inl rfl, ?_, fun _ _ => rfl, ?_, ?_⟩
  · exact fun k hk => statusOf_insert s investorId dto k nofun hk
  · exact fun hr k hk => hr k (statusOf_insert s investorId dto k nofun hk)
  · exact fun hp => forall_mem_append hp hdto

namespace Thread

/-- What the thread lists in its snapshot. -/
def ids : Thread → List Nat
  | .call _ => []
  | .closer _ command => command.ids

/-- A closer past its read that is still running. -/
def closing : Thread → Bool
  | .call _ => false
  | .closer _ command => command.snapshot.isSome

def Ok (s : State) : Thread → Prop
  | .call pc => Admitted pc
  | .closer op command => Stage s op command

end Thread

variable {t t' : Thread} {a : Action} {x x' : System} {w : Nat} {ids : List Nat}

theorem ids_of_not_closing (h : t.closing = false) : t.ids = [] := by
  cases t with
  | call pc => rfl
  | closer closer command =>
    have hnone : command.snapshot = none := by simpa [Thread.closing] using h
    show (command.snapshot.map Snapshot.ids).getD [] = []
    rw [hnone]
    rfl

theorem ok_frame (h : t.Ok s) (he : Effect ids s s') (hdisjoint : ∀ k ∈ t.ids, k ∉ ids) :
    t.Ok s' := by
  cases t with
  | call pc => exact h
  | closer closer command => exact h.frame he hdisjoint

/-- A call, or a closer that lists nothing and is not running, whatever the state. -/
theorem ok_of_not_closing (h : t.Ok s) (hclosing : t.closing = false) : t.Ok s' := by
  cases t with
  | call pc => exact h
  | closer closer command =>
    exact stage_of_none (by simpa [Thread.closing] using hclosing)

/-! ## The condition -/

/-- No confirmation commits beside a running closer or into a closed deal, and a closer that goes on
    with confirmed investments is alone, finds none of them taken back, and takes each back. -/
def OrderlyThread (x : System) (o : Outcome) : Thread → Prop
  | .call pc => isCommit pc = true → o ≠ .fail →
    isClosed x.state.db.deal.status = false ∧ ∀ u ∈ x.threads, u.closing = false
  | .closer closer command => command = .read → o = .ok →
    (closer.checked x.terms x.state.snapshot).snapshot ≠ none →
      x.state.snapshot.ids = [] ∨
        closer.takesBack x.terms x.state.snapshot = true ∧
          Untaken x.state x.state.snapshot.ids ∧ ∀ u ∈ x.threads, u.closing = false

def Orderly (x : System) : Action → Prop
  | .run w o => ∀ t ∈ x.threads[w]?, OrderlyThread x o t
  | _ => True

instance (s : State) (ids : List Nat) : Decidable (Untaken s ids) :=
  inferInstanceAs (Decidable (∀ k ∈ ids, _))

instance (x : System) (o : Outcome) : ∀ t : Thread, Decidable (OrderlyThread x o t)
  | .call _ => inferInstanceAs (Decidable (_ → _))
  | .closer _ _ => inferInstanceAs (Decidable (_ → _))

instance (x : System) : ∀ a : Action, Decidable (Orderly x a)
  | .run w _ => inferInstanceAs (Decidable (∀ t ∈ x.threads[w]?, _))
  | .createInvestment _ _ | .confirmInvestment _ _ _ | .close _ | .linkWallet _ _ | .quit _ =>
    isTrue trivial

/-- The step of one thread that commits no confirmation. -/
structure Steps (x : System) (t t' : Thread) (s' : State) : Prop where
  effect : Effect t.ids x.state s'
  ok : t'.Ok s'
  ids : t'.ids ≠ [] → t'.ids = t.ids ∨ ∀ u ∈ x.threads, u.closing = false

theorem Steps.idle {terms : Terms} {threads : List Thread} (ht' : t'.Ok s) (hids : t'.ids = []) :
    Steps ⟨terms, s, threads⟩ t t' s := by
  constructor
  case effect => exact .refl _ _
  case ok => exact ht'
  case ids => exact fun hne => absurd hids hne

theorem steps_read {closer : Closer} (hpos : Positive x.state)
    (ho : OrderlyThread x o (.closer closer .read))
    (h : stepCloser x.terms closer x.state o .read = some (s', command')) :
    Steps x (.closer closer .read) (.closer closer command') s' := by
  obtain ⟨rfl, rfl⟩ := Prod.mk.inj (Option.some.inj h)
  cases o with
  | fail => exact .idle trivial rfl
  | lost => exact .idle trivial rfl
  | ok =>
    rcases snapshot_checked x.terms x.state.snapshot closer with hsnapshot | hnone
    · have haccepted : (closer.checked x.terms x.state.snapshot).snapshot ≠ none := by
        rw [hsnapshot]
        nofun
      have hids : (closer.checked x.terms x.state.snapshot).ids = x.state.snapshot.ids := by
        unfold Command.ids
        rw [hsnapshot]
        rfl
      constructor
      case effect => exact .refl _ _
      case ok =>
        exact stage_checked hpos ((ho rfl rfl haccepted).imp_right fun h => ⟨h.1, h.2.1⟩)
      case ids =>
        intro hne
        rcases ho rfl rfl haccepted with hnil | ⟨_, _, halone⟩
        · exact absurd (hids.trans hnil) hne
        · exact .inr halone
    · refine .idle (stage_of_none hnone) ?_
      show (Option.map Snapshot.ids (closer.checked x.terms x.state.snapshot).snapshot).getD [] = []
      rw [hnone]
      rfl

/-- One command of a thread. -/
theorem step_thread (hpos : Positive x.state) (hok : t.Ok x.state) (ho : OrderlyThread x o t)
    (h : stepThread x.terms x.state o t = some (s', t')) :
    Steps x t t' s' ∨ ∃ id total, t = .call (.commit id total) ∧ t' = .call .finished ∧
      s' = { x.state with db := x.state.db.confirm id total } ∧
      isClosed x.state.db.deal.status = false ∧ ∀ u ∈ x.threads, u.closing = false := by
  cases t with
  | call pc =>
    obtain ⟨⟨db, pc'⟩, hstep, heq⟩ := Option.bind_eq_some_iff.mp h
    obtain ⟨rfl, rfl⟩ := Prod.mk.inj (Option.some.inj heq)
    obtain ⟨hpc', rfl | ⟨investorId, dto, hdto, rfl⟩ | ⟨id, total, rfl, rfl, hfail, rfl⟩⟩ :=
      stepDb_cases hok hstep
    · exact .inl (.idle hpc' rfl)
    · refine .inl ⟨effect_insert investorId hdto, hpc', ?_⟩
      exact fun hne => absurd rfl hne
    · obtain ⟨hopen, hquiet⟩ := ho rfl hfail
      exact .inr ⟨id, total, rfl, rfl, rfl, hopen, hquiet⟩
  | closer closer command =>
    obtain ⟨⟨s'', command'⟩, hstep, heq⟩ := Option.bind_eq_some_iff.mp h
    obtain ⟨rfl, rfl⟩ := Prod.mk.inj (Option.some.inj heq)
    by_cases hread : command = .read
    · subst hread
      exact .inl (steps_read hpos ho hstep)
    · obtain ⟨heffect, hstage, hids⟩ := step_closer hread hok hstep
      refine .inl ⟨heffect, hstage, ?_⟩
      exact fun hne => .inl (hids.resolve_right hne)

/-! ## Every run -/

/-- A deal that is closed has nothing confirmed, what is refunded was taken back once, and at most
    one closer lists anything; each closer knows what `Stage` says. -/
structure Sound (x : System) : Prop where
  positive : Positive x.state
  refunded : RefundedOnce x.state
  closed : isClosed x.state.db.deal.status = true → NoneConfirmed x.state
  alone : AtMostOneInside (fun t : Thread => t.ids ≠ []) x.threads
  ok : ∀ t ∈ x.threads, t.Ok x.state

/-- What a step does to the deal's status. -/
structure Moves (x x' : System) : Prop where
  sound : Sound x'
  closed : isClosed x.state.db.deal.status = true → isClosed x'.state.db.deal.status = true
  funded : x.state.db.deal.status = .funded → x'.state.db.deal.status = .funded

theorem Sound.effect (hx : Sound x) (he : Effect ids x.state s') :
    Positive s' ∧ RefundedOnce s' ∧ (isClosed s'.db.deal.status = true → NoneConfirmed s') ∧
      (isClosed x.state.db.deal.status = true → isClosed s'.db.deal.status = true) ∧
      (x.state.db.deal.status = .funded → s'.db.deal.status = .funded) := by
  refine ⟨he.positive hx.positive, he.refunded hx.refunded, ?_, ?_, ?_⟩
  · intro hclosed
    rcases he.deal with hsame | ⟨_, _, hnone⟩
    · intro k hk
      exact hx.closed (hsame ▸ hclosed) k (he.confirmed k hk)
    · exact hnone
  · intro hclosed
    rcases he.deal with hsame | ⟨_, hclosed', _⟩
    · exact hsame ▸ hclosed
    · exact hclosed'
  · intro hfunded
    rcases he.deal with hsame | ⟨hne, _⟩
    · exact hsame.trans hfunded
    · exact absurd hfunded hne

theorem Sound.steps {terms : Terms} (hx : Sound x) (ht : x.threads[w]? = some t)
    (h : Steps x t t' s') : Moves x ⟨terms, s', x.threads.set w t'⟩ := by
  obtain ⟨hpos, hrefunded, hclosed, hstays, hfunded⟩ := hx.effect h.effect
  refine ⟨⟨hpos, hrefunded, hclosed, ?_, ?_⟩, hstays, hfunded⟩
  · apply hx.alone.set ht
    intro hne
    rcases h.ids hne with hsame | hquiet
    · exact .inl (hsame ▸ hne)
    · exact .inr fun v u hu _ hids => hids (ids_of_not_closing (hquiet u (List.mem_of_getElem? hu)))
  · refine forall_mem_set ?_ h.ok
    intro v u hu hne
    apply ok_frame (hx.ok u (List.mem_of_getElem? hu)) h.effect
    intro k hk hmem
    have hids : t.ids ≠ [] := List.ne_nil_of_mem hmem
    exact hx.alone.others ht hids hu hne (List.ne_nil_of_mem hk)

theorem Sound.join (hx : Sound x) (ht : t.Ok x.state) (hids : t.ids = []) :
    Moves x (x.join t) := by
  refine ⟨⟨hx.positive, hx.refunded, hx.closed, ?_, ?_⟩, id, id⟩
  · exact hx.alone.append (by simpa using hids)
  · exact forall_mem_append hx.ok ht

/-- A confirmation that commits with no closer running, and the deal not closed. -/
theorem Sound.confirm {id total : Nat} (hx : Sound x)
    (ht : x.threads[w]? = some (.call (.commit id total)))
    (hopen : isClosed x.state.db.deal.status = false)
    (hquiet : ∀ u ∈ x.threads, u.closing = false) :
    Moves x ⟨x.terms, { x.state with db := x.state.db.confirm id total },
      x.threads.set w (.call .finished)⟩ := by
  have hstatus : isClosed (x.state.db.confirm id total).deal.status = false := by
    unfold Database.confirm
    dsimp only
    split
    · rfl
    · exact hopen
  refine ⟨⟨?_, ?_, ?_, ?_, ?_⟩, ?_, ?_⟩
  · intro i hi
    obtain ⟨k, hk⟩ := List.mem_iff_getElem?.mp hi
    have hk : (x.state.db.investments.modify id _)[k]? = some i := hk
    rw [List.getElem?_modify] at hk
    obtain ⟨j, hj, rfl⟩ := Option.map_eq_some_iff.mp hk
    have hpos := hx.positive j (List.mem_of_getElem? hj)
    split <;> exact hpos
  · intro k hk
    rw [statusOf_confirm] at hk
    split at hk
    · obtain ⟨_, _, hstatus⟩ := Option.map_eq_some_iff.mp hk
      cases hstatus
    · exact hx.refunded k hk
  · intro hclosed
    exact absurd (hstatus.symm.trans hclosed) nofun
  · exact hx.alone.set ht fun hne => absurd rfl hne
  · refine forall_mem_set ?_ trivial
    intro v u hu _
    have hmem := List.mem_of_getElem? hu
    exact ok_of_not_closing (hx.ok u hmem) (hquiet u hmem)
  · intro hclosed
    exact absurd (hopen.symm.trans hclosed) nofun
  · intro hfunded
    show (if _ then TradeDealStatus.funded else x.state.db.deal.status) = _
    split
    · rfl
    · exact hfunded

theorem Sound.move (hx : Sound x) (ho : Orderly x a) (h : next x a = some x') : Moves x x' := by
  cases a with
  | createInvestment investorId dto =>
    have h : (if dto.tokenAmount = 0 then none
        else some (x.join (.call (.lockDeal investorId dto)))) = some x' := h
    split at h
    · cases h
    · next hpos =>
      obtain rfl := Option.some.inj h
      exact hx.join (Nat.pos_of_ne_zero hpos) rfl
  | confirmInvestment investorId id stellarTxId =>
    obtain rfl := Option.some.inj h
    apply hx.join _ rfl
    unfold confirming
    split <;> trivial
  | close closer =>
    obtain rfl := Option.some.inj h
    exact hx.join trivial rfl
  | linkWallet investorId walletAddress =>
    obtain rfl := Option.some.inj h
    have heffect : Effect [] x.state
        { x.state with wallets := Function.update x.state.wallets investorId walletAddress } :=
      ⟨.inl rfl, fun _ => id, fun _ _ => rfl, id, id⟩
    obtain ⟨hpos, hrefunded, hclosed, hstays, hfunded⟩ := hx.effect heffect
    refine ⟨⟨hpos, hrefunded, hclosed, hx.alone, ?_⟩, hstays, hfunded⟩
    exact fun t ht => ok_frame (hx.ok t ht) heffect fun _ _ => List.not_mem_nil
  | run w o =>
    obtain ⟨t, ht, h⟩ := Option.bind_eq_some_iff.mp h
    split at h
    · cases h
    · obtain ⟨⟨state, t'⟩, hstep, h⟩ := Option.bind_eq_some_iff.mp h
      obtain rfl := Option.some.inj h
      have hok := hx.ok t (List.mem_of_getElem? ht)
      rcases step_thread hx.positive hok (ho t ht) hstep with
        hsteps | ⟨id, total, rfl, rfl, rfl, hopen, hquiet⟩
      · exact hx.steps ht hsteps
      · exact hx.confirm ht hopen hquiet
  | quit w =>
    obtain ⟨t, ht, h⟩ := Option.bind_eq_some_iff.mp h
    obtain rfl := Option.some.inj h
    apply hx.steps ht
    cases t <;> exact .idle trivial rfl

theorem sound_start (deal : TradeDeal) (terms : Terms) (wallets : Nat → Option String) :
    Sound (start deal terms wallets) := by
  have hnone : ∀ k, (start deal terms wallets).state.statusOf k = none := fun _ => rfl
  constructor
  case positive => exact fun i hi => absurd hi List.not_mem_nil
  case refunded =>
    intro k hk
    rw [hnone k] at hk
    cases hk
  case closed =>
    intro _ k hk
    rw [hnone k] at hk
    cases hk
  case alone => exact atMostOneInside_nil
  case ok => exact fun t ht => absurd ht List.not_mem_nil

/-- A deal that was closed on the way has no confirmed investment, a funded deal was never closed,
    and each refunded investment was clawed back, or refunded by its campaign, once. -/
structure NoLiveMoney (xs : List (Step System Action)) (x : System) : Prop where
  closed : (∃ step ∈ xs, isClosed step.post.state.db.deal.status = true) → x.state.db.confirmed = []
  funded : ∀ step ∈ xs, step.pre.state.db.deal.status = .funded →
    isClosed step.post.state.db.deal.status = false
  refunded : ∀ k, x.state.statusOf k = some .refunded → x.state.returns k = 1

theorem confirmed_eq_nil (h : NoneConfirmed s) : s.db.confirmed = [] := by
  apply List.filter_eq_nil_iff.mpr
  intro i hi
  obtain ⟨k, hk⟩ := List.mem_iff_getElem?.mp hi
  intro hconfirmed
  refine h k ?_
  unfold State.statusOf
  rw [hk]
  exact congrArg some (of_decide_eq_true hconfirmed)

/-- In a run in which confirmations and closers keep out of each other's way, a closed deal keeps no
    live money. -/
theorem closed_keeps_no_live_money {deal : TradeDeal} {wallets : Nat → Option String}
    {xs : List (Step System Action)} (h : ClosingRun deal terms wallets xs x)
    (ho : ∀ step ∈ xs, Orderly step.pre step.act) : NoLiveMoney xs x := by
  have hmove : ∀ step ∈ xs, next step.pre step.act = some step.post → Sound step.pre →
      Moves step.pre step.post := fun step hstep hn hs => hs.move (ho step hstep) hn
  have hsteps := h.steps_invariant Sound (sound_start deal terms wallets)
    fun step hstep hn hs => (hmove step hstep hn hs).sound
  have hx : Sound x := h.invariant Sound (sound_start deal terms wallets)
    fun step hstep hn hs => (hmove step hstep hn hs).sound
  constructor
  case closed =>
    rintro ⟨step, hstep, hclosed⟩
    obtain ⟨ys, zs, rfl⟩ := List.append_of_mem hstep
    obtain ⟨_, _, hzs⟩ := run_split.mp h
    have hend : isClosed x.state.db.deal.status = true := by
      apply hzs.invariant (fun x => isClosed x.state.db.deal.status = true) hclosed
      intro later hlater hn hpre
      have hmem : later ∈ ys ++ step :: zs :=
        List.mem_append_right _ (List.mem_cons_of_mem _ hlater)
      exact (hmove later hmem hn (hsteps later hmem).2.1).closed hpre
    exact confirmed_eq_nil (hx.closed hend)
  case funded =>
    intro step hstep hfunded
    obtain ⟨hn, hpre, _⟩ := hsteps step hstep
    rw [(hmove step hstep hn hpre).funded hfunded]
    rfl
  case refunded => exact hx.refunded

/-- Trader 1's open deal: 30 tokens for 3000 USD. -/
def offeredDeal : TradeDeal :=
  ⟨.opened, 3000 * usd, 30, 0, some "GESCROW", some "GISSUER", none, none⟩

def offeredTerms : Terms := ⟨1, some "secret", some "issued", none, none, false⟩

def offered : System := start offeredDeal offeredTerms fun _ => some "GWALLET"

/-- Thread 0 creates an investment, and thread 1 reads it to confirm it. -/
def invested (tokenAmount : Nat) : List Action :=
  [.createInvestment 2 ⟨tokenAmount, tokenAmount * 100 * usd⟩, .run 0 .ok, .run 0 .ok, .run 0 .ok,
    .confirmInvestment 2 0 (List.replicate 64 'a'), .run 1 .ok]

/-- The transaction of the confirmation. -/
def confirmed : List Action := List.replicate 4 (.run 1 .ok)

/-- The deal expires in the second attempt; the clawback of the first one fails. -/
def expiredLater : List Action :=
  invested 10 ++ confirmed ++ [.close .expireDeal, .run 2 .ok, .run 2 .ok, .run 2 .fail,
    .close .expireDeal, .run 3 .ok, .run 3 .ok, .run 3 .ok, .run 3 .ok, .run 3 .ok]

theorem closed_keeps_no_live_money_sample :
    (replay next offered expiredLater).2.state.db.deal.status = .expired ∧
      (replay next offered expiredLater).2.state.statusOf 0 = some .refunded ∧
      NoLiveMoney (replay next offered expiredLater).1 (replay next offered expiredLater).2 := by
  have hrun : ClosingRun offeredDeal offeredTerms _ _ _ := run_replay next offered expiredLater
  exact ⟨by decide +kernel, by decide +kernel,
    closed_keeps_no_live_money hrun (by decide +kernel)⟩

/-- The trader cancels; while the unsold tokens are clawed back, the whole deal is confirmed. -/
def canceledBeside : List Action :=
  invested 30 ++ [.close (.cancelDeal 1), .run 2 .ok, .run 2 .ok] ++ confirmed ++
    [.run 2 .ok, .run 2 .ok, .run 2 .ok]

/-- The deal expires in the second attempt; in the first one the update after the clawback fails. -/
def clawedBackTwice : List Action :=
  invested 10 ++ confirmed ++ [.close .expireDeal, .run 2 .ok, .run 2 .ok, .run 2 .ok,
    .run 2 .fail, .close .expireDeal, .run 3 .ok, .run 3 .ok, .run 3 .ok, .run 3 .ok, .run 3 .ok]

theorem closed_with_live_money :
    (∃ xs x, ClosingRun offeredDeal offeredTerms (fun _ => some "GWALLET") xs x ∧
      x.state.statusOf 0 = some .confirmed ∧
      (∃ step ∈ xs, step.pre.state.db.deal.status = .funded ∧
        step.post.state.db.deal.status = .canceled) ∧ ¬ NoLiveMoney xs x) ∧
    ∃ xs x, ClosingRun offeredDeal offeredTerms (fun _ => some "GWALLET") xs x ∧
      x.state.statusOf 0 = some .refunded ∧ x.state.returns 0 = 2 ∧ ¬ NoLiveMoney xs x := by
  have hbeside : ClosingRun offeredDeal offeredTerms _ _ _ :=
    run_replay next offered canceledBeside
  have htwice : ClosingRun offeredDeal offeredTerms _ _ _ :=
    run_replay next offered clawedBackTwice
  have hfunded : ∃ step ∈ (replay next offered canceledBeside).1,
      step.pre.state.db.deal.status = .funded ∧ step.post.state.db.deal.status = .canceled := by
    decide +kernel
  have hrefunded : (replay next offered clawedBackTwice).2.state.statusOf 0 = some .refunded := by
    decide +kernel
  have hreturns : (replay next offered clawedBackTwice).2.state.returns 0 = 2 := by
    decide +kernel
  constructor
  · refine ⟨_, _, hbeside, by decide +kernel, hfunded, ?_⟩
    intro hnone
    obtain ⟨step, hstep, hpre, hpost⟩ := hfunded
    have hopen := hnone.funded step hstep hpre
    rw [hpost] at hopen
    cases hopen
  · refine ⟨_, _, htwice, hrefunded, hreturns, ?_⟩
    intro hnone
    have honce := hnone.refunded 0 hrefunded
    omega

end AgriFi.TradeDeals
