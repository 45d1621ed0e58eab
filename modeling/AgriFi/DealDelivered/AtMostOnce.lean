import AgriFi.Threads
import AgriFi.DealDelivered.Workers
import Mathlib.Data.List.Nodup
import Mathlib.Data.List.Range

/-
  At most one payment to each recipient of a delivered deal. Every error path of the service
  gives both leases back, also when batches are on the ledger already, so the next delivery starts
  the release over (`redelivery_pays_again`). `release_at_most_once`: a run in which no failure
  hits a worker between its first accepted batch and its commit, and no consumer lease runs out
  under a worker or over an uncommitted payment, pays nobody twice. There the consumer's lease
  admits one worker at a time, and what is on the ledger follows from where that worker stands
  (`Stage`).
-/

namespace AgriFi.DealDelivered

open AgriFi.Runs AgriFi.Stellar AgriFi.Threads

variable {cfg : Config}

/-! ## The release as a list of recipients -/

theorem batchCount_pos (cfg : Config) : 0 < cfg.batchCount := by
  unfold Config.batchCount
  omega

/-- Whom the first `k` batches pay. -/
def Config.paidUpTo (cfg : Config) (k : Nat) : List Recipient := (List.range k).flatMap cfg.batch

@[simp] theorem paidUpTo_zero (cfg : Config) : cfg.paidUpTo 0 = [] := rfl

theorem paidUpTo_succ (cfg : Config) (k : Nat) :
    cfg.paidUpTo (k + 1) = cfg.paidUpTo k ++ cfg.batch k := by
  unfold Config.paidUpTo
  rw [List.range_succ, List.flatMap_append, List.flatMap_singleton]

theorem paidUpTo_eq {k : Nat} (hk : k ≤ cfg.batchCount) :
    cfg.paidUpTo k = ((List.range cfg.investments).take (k * batchSize)).map .investor ++
      if k = cfg.batchCount then [.platform] else [] := by
  have hpos := batchCount_pos cfg
  induction k with
  | zero => simp [hpos.ne]
  | succ k ih =>
    have hne : k ≠ cfg.batchCount := by omega
    rw [paidUpTo_succ, ih (by omega), if_neg hne, List.append_nil, Config.batch, Nat.succ_mul,
      List.take_add, List.map_append, List.append_assoc]
    by_cases hlast : k + 1 = cfg.batchCount
    · rw [if_pos (by omega), if_pos hlast]
    · rw [if_neg (by omega), if_neg hlast]

/-- One release pays nobody twice. -/
theorem paidUpTo_nodup {k : Nat} (hk : k ≤ cfg.batchCount) : (cfg.paidUpTo k).Nodup := by
  have hinvestors : (((List.range cfg.investments).take (k * batchSize)).map
      Recipient.investor).Nodup :=
    ((List.nodup_range).sublist (List.take_sublist _ _)).map fun _ _ h => Recipient.investor.inj h
  rw [paidUpTo_eq hk]
  split
  · refine List.nodup_append.mpr ⟨hinvestors, List.nodup_singleton _, ?_⟩
    intro r hr r' hr' heq
    obtain ⟨i, _, rfl⟩ := List.mem_map.mp hr
    simp [List.mem_singleton.mp hr'] at heq
  · simpa using hinvestors

/-! ### The transactions of the release -/

section Transactions

variable {Addr : Type} {q : ReleaseRequest Addr} {plan : ReleasePlan}

/-- The wallet that `releaseEscrow` pays for a recipient. -/
def walletOf (q : ReleaseRequest Addr) : Recipient → Option Addr
  | .investor globalIdx => q.investorShares[globalIdx]?.map InvestorShare.walletAddress
  | .platform => some q.platformWallet

theorem batch_wallets (h : cfg.investments = q.investorShares.length) (b : Nat) :
    (cfg.batch b).map (walletOf q) =
      (q.batch b).map (fun share => some share.walletAddress) ++
        if b = q.batchCount - 1 then [some q.platformWallet] else [] := by
  have hcount : cfg.batchCount = q.batchCount := by
    rw [Config.batchCount, ReleaseRequest.batchCount, h]
  have hwallets : (List.range cfg.investments).map (fun i => walletOf q (.investor i)) =
      q.investorShares.map fun share => some share.walletAddress := by
    rw [h]
    apply List.ext_getElem (by simp)
    intro i hi hi'
    rw [List.length_map] at hi'
    simp [walletOf, hi']
  rw [Config.batch, ReleaseRequest.batch, List.map_append, List.map_map, List.map_take,
    List.map_drop, List.map_take, List.map_drop, hcount, ← hwallets]
  congr 1
  split <;> rfl

theorem shareOperation_recipients (i : Nat) (share : InvestorShare Addr) (stroops : Rat) :
    ((shareOperation q i share stroops).map Operation.recipient).Sublist [share.walletAddress] := by
  unfold shareOperation
  dsimp only
  split
  · split <;> exact List.Sublist.refl _
  · exact List.nil_sublist _

theorem addShares_recipients (i : Nat) (l : List (InvestorShare Addr)) (d : Rat) :
    ((addShares q plan i l d).1.map Operation.recipient).Sublist
      (l.map InvestorShare.walletAddress) := by
  induction l generalizing i d with
  | nil => exact List.Sublist.refl _
  | cons share l ih =>
    unfold addShares
    rw [List.map_append, List.map_cons, ← List.singleton_append]
    exact (shareOperation_recipients i share _).append (ih _ _)

/-- A transaction of the release has at most one operation for each recipient of its batch, and
    none for anybody else, whatever was distributed before. -/
theorem buildTx_recipients (h : cfg.investments = q.investorShares.length) (b fee : Nat) (d : Rat) :
    ((buildTx q plan b fee d).1.operations.map fun op => some op.recipient).Sublist
      ((cfg.batch b).map (walletOf q)) := by
  have hshares : (((addShares q plan (b * batchSize) (q.batch b) d).1.map Operation.recipient).map
      some).Sublist (((q.batch b).map InvestorShare.walletAddress).map some) :=
    (addShares_recipients _ _ d).map some
  rw [List.map_map, List.map_map] at hshares
  rw [batch_wallets h]
  unfold buildTx
  rw [List.map_append]
  refine hshares.append ?_
  split <;> exact List.Sublist.refl _

end Transactions

/-! ## Where a worker stands -/

variable {s s' : Shared} {pc pc' : Pc} {o : Outcome} {attempt : Nat} {chain : List Recipient}

/-- The worker holds the consumer's lease, as far as it knows. -/
def Pc.inside : Pc → Bool
  | .acquireGet .consumer | .acquireSet .consumer | .finished _ => false
  | _ => true

/-- The worker has read the deal as delivered and has not committed. -/
def Pc.paying : Pc → Bool
  | .acquireGet .service | .acquireSet .service | .releasing _ | .dbWrite => true
  | _ => false

/-- What is on the ledger when a worker of a deal that is not completed is at `pc`. -/
def Stage (cfg : Config) (chain : List Recipient) : Pc → Prop
  | .acquireGet .consumer | .acquireSet .consumer | .finished _ => True
  | .releasing b => chain = cfg.paidUpTo b ∧ b < cfg.batchCount
  | .dbWrite => chain = cfg.paidUpTo cfg.batchCount
  | _ => chain = []

/-- The operation does not fail between the first accepted batch and the commit. -/
def Pc.Clean (o : Outcome) : Pc → Prop
  | .releasing b => o = .ok ∨ o = .fail ∧ b = 0
  | .dbWrite => o ≠ .fail
  | _ => True

instance : ∀ pc : Pc, Decidable (pc.Clean o)
  | .releasing _ => inferInstanceAs (Decidable (_ ∨ _))
  | .dbWrite => inferInstanceAs (Decidable (_ ≠ _))
  | .acquireGet _ | .acquireSet _ | .readDeal | .markDone _ | .notify | .releaseGet _
  | .releaseDel _ | .finished _ => isTrue trivial

theorem outside_cases (h : pc.inside = false) :
    pc = .acquireGet .consumer ∨ pc = .acquireSet .consumer ∨ ∃ ending, pc = .finished ending := by
  unfold Pc.inside at h
  split at h
  · exact .inl rfl
  · exact .inr (.inl rfl)
  · exact .inr (.inr ⟨_, rfl⟩)
  · cases h

theorem not_paying_of_outside (h : pc.inside = false) : pc.paying = false := by
  obtain rfl | rfl | ⟨_, rfl⟩ := outside_cases h <;> rfl

theorem stage_of_outside (h : pc.inside = false) : Stage cfg chain pc := by
  obtain rfl | rfl | ⟨_, rfl⟩ := outside_cases h <;> exact trivial

/-- Inside, but not in the paying part, a worker has paid nothing. -/
theorem stage_iff_nil (hin : pc.inside = true) (hp : pc.paying = false) :
    Stage cfg chain pc ↔ chain = [] := by
  unfold Stage
  split
  · cases hin
  · cases hin
  · cases hin
  · cases hp
  · cases hp
  · exact Iff.rfl

theorem stage_of_nil (hp : pc.paying = false) : Stage cfg [] pc := by
  cases hin : pc.inside with
  | false => exact stage_of_outside hin
  | true => exact (stage_iff_nil hin hp).mpr rfl

/-! ## One operation -/

theorem acquireGet_cases {l : Lease} (hredis : cfg.redis = true)
    (h : stepAcquireGet cfg s l o = (s', pc')) :
    s' = s ∧ (pc' = .acquireSet l ∨ pc' = notAcquired l ∨ pc' = acquireThrows l) := by
  unfold stepAcquireGet at h
  grind

theorem acquireSet_cases {l : Lease} (h : stepAcquireSet s l o = (s', pc')) :
    (s' = s ∧ (pc' = notAcquired l ∨ pc' = acquireThrows l)) ∨
    (s.key l = none ∧ s' = s.setKey (some .processing) l ∧
      (pc' = acquired l ∨ pc' = acquireThrows l)) := by
  unfold stepAcquireSet at h
  grind

theorem readDeal_cases (h : stepReadDeal cfg s o = (s', pc')) :
    s' = s ∧ (s.status = .delivered ∧ pc' = .acquireGet .service ∨ pc' = .markDone .consumer ∨
      pc' = .releaseGet .consumer) := by
  unfold stepReadDeal at h
  grind

theorem markDone_cases {l : Lease} (hredis : cfg.redis = true)
    (h : stepMarkDone cfg s l o = (s', pc')) :
    (s' = s ∨ s' = s.setKey (some .done) l) ∧ (pc' = marked l ∨ pc' = .releaseGet l) := by
  unfold stepMarkDone at h
  grind

theorem notify_cases (h : stepNotify s o = (s', pc')) :
    s' = s ∧ (pc' = .markDone .consumer ∨ pc' = .releaseGet .consumer) := by
  unfold stepNotify at h
  grind

theorem releaseGet_cases {l : Lease} (hredis : cfg.redis = true)
    (h : stepReleaseGet cfg s attempt l o = (s', pc')) :
    s' = s ∧ (pc' = .releaseDel l ∨ pc' = released attempt l ∨ pc' = releaseThrows l) := by
  unfold stepReleaseGet at h
  grind

theorem releaseDel_cases {l : Lease} (h : stepReleaseDel s attempt l o = (s', pc')) :
    (s' = s ∨ s' = s.setKey none l) ∧ (pc' = released attempt l ∨ pc' = releaseThrows l) := by
  unfold stepReleaseDel at h
  grind

/-- Outside the paying part an operation leaves the ledger and the deal alone, and only the read
    of a deal that is still delivered leads into it. -/
theorem step_quiet (hredis : cfg.redis = true) (hp : pc.paying = false)
    (h : stepWorker cfg attempt s o pc = some (s', pc')) :
    s'.chain = s.chain ∧ s'.status = s.status ∧
      (pc'.paying = false ∨ s.status = .delivered ∧ pc' = .acquireGet .service) := by
  cases pc with
  | acquireGet l => cases l with
    | consumer =>
      obtain ⟨rfl, rfl | rfl | rfl⟩ := acquireGet_cases hredis (Option.some.inj h) <;>
      exact ⟨rfl, rfl, .inl rfl⟩
    | service => cases hp
  | acquireSet l => cases l with
    | consumer =>
      obtain ⟨rfl, rfl | rfl⟩ | ⟨_, rfl, rfl | rfl⟩ := acquireSet_cases (Option.some.inj h) <;>
      exact ⟨rfl, rfl, .inl rfl⟩
    | service => cases hp
  | readDeal =>
    obtain ⟨rfl, ⟨hd, rfl⟩ | rfl | rfl⟩ := readDeal_cases (Option.some.inj h)
    · exact ⟨rfl, rfl, .inr ⟨hd, rfl⟩⟩
    · exact ⟨rfl, rfl, .inl rfl⟩
    · exact ⟨rfl, rfl, .inl rfl⟩
  | releasing => cases hp
  | dbWrite => cases hp
  | markDone l =>
    obtain ⟨rfl | rfl, rfl | rfl⟩ := markDone_cases hredis (Option.some.inj h) <;>
    cases l <;> exact ⟨rfl, rfl, .inl rfl⟩
  | notify =>
    obtain ⟨rfl, rfl | rfl⟩ := notify_cases (Option.some.inj h) <;>
    exact ⟨rfl, rfl, .inl rfl⟩
  | releaseGet l =>
    obtain ⟨rfl, rfl | rfl | rfl⟩ := releaseGet_cases hredis (Option.some.inj h) <;>
    cases l <;> exact ⟨rfl, rfl, .inl rfl⟩
  | releaseDel l =>
    obtain ⟨rfl | rfl, rfl | rfl⟩ := releaseDel_cases (Option.some.inj h) <;>
    cases l <;> exact ⟨rfl, rfl, .inl rfl⟩
  | finished => cases h

/-- The consumer's lease is given back only by a worker that is leaving. -/
theorem step_held (hredis : cfg.redis = true) (hin : pc.inside = true)
    (hheld : s.consumerKey ≠ none) (h : stepWorker cfg attempt s o pc = some (s', pc'))
    (hin' : pc'.inside = true) : s'.consumerKey ≠ none := by
  cases pc with
  | acquireGet l =>
    obtain ⟨rfl, _⟩ := acquireGet_cases hredis (Option.some.inj h)
    exact hheld
  | acquireSet l => cases l with
    | consumer => cases hin
    | service =>
      obtain ⟨rfl, _⟩ | ⟨_, rfl, _⟩ := acquireSet_cases (Option.some.inj h) <;> exact hheld
  | readDeal =>
    obtain ⟨rfl, _⟩ := readDeal_cases (Option.some.inj h)
    exact hheld
  | releasing b =>
    cases o <;> obtain ⟨rfl, rfl⟩ := Prod.mk.inj (Option.some.inj h) <;> exact hheld
  | dbWrite =>
    cases o <;> obtain ⟨rfl, rfl⟩ := Prod.mk.inj (Option.some.inj h) <;> exact hheld
  | markDone l =>
    obtain ⟨rfl | rfl, _⟩ := markDone_cases hredis (Option.some.inj h)
    · exact hheld
    · cases l with
      | consumer => exact Option.some_ne_none _
      | service => exact hheld
  | notify =>
    obtain ⟨rfl, _⟩ := notify_cases (Option.some.inj h)
    exact hheld
  | releaseGet l =>
    obtain ⟨rfl, _⟩ := releaseGet_cases hredis (Option.some.inj h)
    exact hheld
  | releaseDel l =>
    obtain ⟨rfl | rfl, rfl | rfl⟩ := releaseDel_cases (Option.some.inj h) <;>
    cases l <;> first | exact hheld | cases hin'
  | finished => cases h

/-- Whom a release in progress has paid. -/
def Paid (cfg : Config) (chain : List Recipient) : Prop :=
  ∃ k ≤ cfg.batchCount, chain = cfg.paidUpTo k

/-- In the paying part a batch is accepted after those before it, a failure leaves the ledger
    empty, and the commit ends the part. -/
theorem step_paying (hredis : cfg.redis = true) (hp : pc.paying = true)
    (hd : s.status = .delivered) (hstage : Stage cfg s.chain pc) (hclean : pc.Clean o)
    (h : stepWorker cfg attempt s o pc = some (s', pc')) :
    Paid cfg s'.chain ∧ s'.consumerKey = s.consumerKey ∧
      (s'.status = .delivered ∧ Stage cfg s'.chain pc' ∨
        s'.status = .completed ∧ pc'.paying = false) := by
  have hempty : Paid cfg [] := ⟨0, Nat.zero_le _, rfl⟩
  cases pc with
  | acquireGet l => cases l with
    | consumer => cases hp
    | service =>
      have hnil : s.chain = [] := hstage
      obtain ⟨rfl, hpc⟩ := acquireGet_cases hredis (Option.some.inj h)
      refine ⟨hnil ▸ hempty, rfl, .inl ⟨hd, ?_⟩⟩
      rcases hpc with rfl | rfl | rfl <;> exact hnil
  | acquireSet l => cases l with
    | consumer => cases hp
    | service =>
      have hnil : s.chain = [] := hstage
      obtain ⟨rfl, hpc⟩ | ⟨_, rfl, hpc⟩ := acquireSet_cases (Option.some.inj h)
      · refine ⟨hnil ▸ hempty, rfl, .inl ⟨hd, ?_⟩⟩
        rcases hpc with rfl | rfl <;> exact hnil
      · refine ⟨hnil ▸ hempty, rfl, .inl ⟨hd, ?_⟩⟩
        rcases hpc with rfl | rfl
        · exact ⟨hnil, batchCount_pos cfg⟩
        · exact hnil
  | releasing b =>
    obtain ⟨hchain, hlt⟩ := hstage
    rcases hclean with rfl | ⟨rfl, rfl⟩
    · have hpaid : s.chain ++ cfg.batch b = cfg.paidUpTo (b + 1) := by rw [hchain, paidUpTo_succ]
      obtain ⟨rfl, rfl⟩ := Prod.mk.inj (Option.some.inj h)
      refine ⟨⟨b + 1, hlt, hpaid⟩, rfl, .inl ⟨hd, ?_⟩⟩
      dsimp only
      split
      · next hnext => exact ⟨hpaid, hnext⟩
      · next hlast =>
        have hall : b + 1 = cfg.batchCount := by omega
        exact hpaid.trans (congrArg cfg.paidUpTo hall)
    · obtain ⟨rfl, rfl⟩ := Prod.mk.inj (Option.some.inj h)
      have hnil : s.chain = [] := hchain
      exact ⟨hnil ▸ hempty, rfl, .inl ⟨hd, hnil⟩⟩
  | dbWrite =>
    have hpaid : Paid cfg s.chain := ⟨cfg.batchCount, le_refl _, hstage⟩
    cases o with
    | ok =>
      obtain ⟨rfl, rfl⟩ := Prod.mk.inj (Option.some.inj h)
      exact ⟨hpaid, rfl, .inr ⟨rfl, rfl⟩⟩
    | fail => exact absurd rfl hclean
    | lost =>
      obtain ⟨rfl, rfl⟩ := Prod.mk.inj (Option.some.inj h)
      exact ⟨hpaid, rfl, .inr ⟨rfl, rfl⟩⟩
  | _ => cases hp

/-- A worker outside goes in only by taking the free lease. -/
theorem step_outside (hredis : cfg.redis = true) (hout : pc.inside = false)
    (h : stepWorker cfg attempt s o pc = some (s', pc')) :
    s' = s ∧ pc'.inside = false ∨
      s.consumerKey = none ∧ s' = s.setKey (some .processing) .consumer ∧ pc'.paying = false := by
  obtain rfl | rfl | ⟨_, rfl⟩ := outside_cases hout
  · obtain ⟨rfl, rfl | rfl | rfl⟩ := acquireGet_cases hredis (Option.some.inj h) <;>
    exact .inl ⟨rfl, rfl⟩
  · obtain ⟨rfl, rfl | rfl⟩ | ⟨hk, rfl, rfl | rfl⟩ := acquireSet_cases (Option.some.inj h)
    · exact .inl ⟨rfl, rfl⟩
    · exact .inl ⟨rfl, rfl⟩
    · exact .inr ⟨hk, rfl, rfl⟩
    · exact .inr ⟨hk, rfl, rfl⟩
  · cases h

/-! ## The workers together -/

/-- At most one worker holds the consumer's lease. -/
def Alone (workers : List Worker) : Prop :=
  ∀ ⦃w v : Nat⦄ ⦃x y : Worker⦄, workers[w]? = some x → workers[v]? = some y →
    x.pc.inside = true → y.pc.inside = true → w = v

/-- The deal is not completed yet: the lease admits one worker, and the ledger is where that worker
    stands. -/
structure Open (cfg : Config) (s : System) : Prop where
  delivered : s.shared.status = .delivered
  alone : Alone s.workers
  held : ∀ x ∈ s.workers, x.pc.inside = true → s.shared.consumerKey ≠ none
  stage : ∀ x ∈ s.workers, Stage cfg s.shared.chain x.pc
  free : s.shared.consumerKey = none → s.shared.chain = []

/-- The deal is completed and nobody pays any more. -/
structure Closed (s : System) : Prop where
  completed : s.shared.status = .completed
  quiet : ∀ x ∈ s.workers, x.pc.paying = false

/-- The ledger holds a prefix of one release. -/
structure Once (cfg : Config) (s : System) : Prop where
  paid : Paid cfg s.shared.chain
  phase : Open cfg s ∨ Closed s

/-- No failure hits a worker between its first accepted batch and its commit, and the consumer's
    lease does not run out under a worker or over a payment of a deal that is not completed. -/
def Guarded (s : System) : Action → Prop
  | .run w o => ∀ worker ∈ s.workers[w]?, worker.pc.Clean o
  | .expire .consumer =>
    s.shared.status = .completed ∨
      s.shared.chain = [] ∧ ∀ worker ∈ s.workers, worker.pc.inside = false
  | _ => True

instance (s : System) : ∀ a : Action, Decidable (Guarded s a)
  | .run w _ => inferInstanceAs (Decidable (∀ worker ∈ s.workers[w]?, _))
  | .expire .consumer => inferInstanceAs (Decidable (_ ∨ _))
  | .expire .service | .deliver _ | .crash _ => isTrue trivial

theorem Alone.atMostOneInside {workers : List Worker} (ha : Alone workers) :
    AtMostOneInside (fun x : Worker => x.pc.inside = true) workers :=
  ha

theorem Alone.others {workers : List Worker} {w v : Nat} {x y : Worker} (ha : Alone workers)
    (hx : workers[w]? = some x) (hin : x.pc.inside = true) (hy : workers[v]? = some y)
    (hne : v ≠ w) : y.pc.inside = false := by
  have hnot := ha.atMostOneInside.others hx hin hy hne
  simpa using hnot

/-- Replacing a worker keeps the others apart when he was inside himself or stays out. -/
theorem Alone.set {workers : List Worker} {w : Nat} {x x' : Worker} (ha : Alone workers)
    (hx : workers[w]? = some x)
    (hin : x'.pc.inside = true → x.pc.inside = true ∨ ∀ y ∈ workers, y.pc.inside = false) :
    Alone (workers.set w x') := by
  apply ha.atMostOneInside.set hx
  intro hin'
  rcases hin hin' with hin | hall
  · exact .inl hin
  · right
    intro v y hy _ hiny
    simp [hall y (List.mem_of_getElem? hy)] at hiny

/-! ### One worker's step -/

variable {w : Nat} {worker : Worker} {workers : List Worker}

theorem Closed.run (hc : Closed ⟨s, workers⟩) (hredis : cfg.redis = true)
    (hw : workers[w]? = some worker)
    (h : stepWorker cfg worker.attempt s o worker.pc = some (s', pc')) :
    s'.chain = s.chain ∧ Closed ⟨s', workers.set w { worker with pc := pc' }⟩ := by
  have hcompleted : s.status = .completed := hc.completed
  obtain ⟨hchain, hstatus, hquiet⟩ :=
    step_quiet hredis (hc.quiet worker (List.mem_of_getElem? hw)) h
  have hp' : pc'.paying = false := by
    rcases hquiet with hp' | ⟨hd, _⟩
    · exact hp'
    · rw [hcompleted] at hd
      cases hd
  exact ⟨hchain, hstatus.trans hcompleted, forall_mem_set (others_of_forall hc.quiet) hp'⟩

/-- A worker that is out of the way leaves everything else as it is. -/
theorem Open.set_outside {x : Worker} (ho : Open cfg ⟨s, workers⟩) (hw : workers[w]? = some worker)
    (hout : x.pc.inside = false) : Open cfg ⟨s, workers.set w x⟩ where
  delivered := ho.delivered
  alone := ho.alone.set hw fun hin => by simp [hout] at hin
  held := forall_mem_set (others_of_forall ho.held) fun hin => by simp [hout] at hin
  stage := forall_mem_set (others_of_forall ho.stage) (stage_of_outside hout)
  free := ho.free

theorem Open.run_outside (ho : Open cfg ⟨s, workers⟩) (hredis : cfg.redis = true)
    (hw : workers[w]? = some worker) (hout : worker.pc.inside = false)
    (h : stepWorker cfg worker.attempt s o worker.pc = some (s', pc')) :
    s'.chain = s.chain ∧ Open cfg ⟨s', workers.set w { worker with pc := pc' }⟩ := by
  rcases step_outside hredis hout h with ⟨rfl, hout'⟩ | ⟨hkey, rfl, hp'⟩
  · exact ⟨rfl, ho.set_outside hw hout'⟩
  · have hnil : s.chain = [] := ho.free hkey
    have hall : ∀ x ∈ workers, x.pc.inside = false := by
      intro x hx
      by_contra hin
      exact ho.held x hx (by simpa using hin) hkey
    have hstage : Stage cfg s.chain pc' := by
      rw [hnil]
      exact stage_of_nil hp'
    exact ⟨rfl, {
      delivered := ho.delivered
      alone := ho.alone.set hw fun _ => .inr hall
      held := fun _ _ _ => Option.some_ne_none _
      stage := forall_mem_set (others_of_forall ho.stage) hstage
      free := fun _ => hnil }⟩

theorem Open.run_inside (ho : Open cfg ⟨s, workers⟩) (hpaid : Paid cfg s.chain)
    (hredis : cfg.redis = true) (hw : workers[w]? = some worker)
    (hin : worker.pc.inside = true) (hclean : worker.pc.Clean o)
    (h : stepWorker cfg worker.attempt s o worker.pc = some (s', pc')) :
    Once cfg ⟨s', workers.set w { worker with pc := pc' }⟩ := by
  have hmem : worker ∈ workers := List.mem_of_getElem? hw
  have hheld : s.consumerKey ≠ none := ho.held worker hmem hin
  have hothers : ∀ ⦃v x⦄, workers[v]? = some x → v ≠ w → x.pc.inside = false :=
    fun _ _ hv hne => ho.alone.others hw hin hv hne
  -- what is left to show of an open deal is about this worker only
  have hopen (hd : s'.status = .delivered) (hstage : Stage cfg s'.chain pc')
      (hfree : s'.consumerKey = none → s'.chain = []) :
      Open cfg ⟨s', workers.set w { worker with pc := pc' }⟩ :=
    { delivered := hd
      alone := ho.alone.set hw fun _ => .inl hin
      held := forall_mem_set (fun _ _ hv hne hin' => by simp [hothers hv hne] at hin')
        (step_held hredis hin hheld h)
      stage := forall_mem_set (fun _ _ hv hne => stage_of_outside (hothers hv hne)) hstage
      free := hfree }
  by_cases hp : worker.pc.paying = true
  · obtain ⟨hpaid', hkey, ⟨hd, hstage⟩ | ⟨hcompleted, hp'⟩⟩ :=
      step_paying hredis hp ho.delivered (ho.stage worker hmem) hclean h
    · exact ⟨hpaid', .inl (hopen hd hstage fun hn => absurd (hkey ▸ hn) hheld)⟩
    · refine ⟨hpaid', .inr ⟨hcompleted, forall_mem_set ?_ hp'⟩⟩
      intro _ _ hv hne
      exact not_paying_of_outside (hothers hv hne)
  · have hp : worker.pc.paying = false := by simpa using hp
    obtain ⟨hchain, hstatus, hpc'⟩ := step_quiet hredis hp h
    have hnil : s'.chain = [] := hchain.trans ((stage_iff_nil hin hp).mp (ho.stage worker hmem))
    refine ⟨hchain ▸ hpaid, .inl (hopen (hstatus.trans ho.delivered) ?_ fun _ => hnil)⟩
    rw [hnil]
    rcases hpc' with hp' | ⟨_, rfl⟩
    · exact stage_of_nil hp'
    · rfl

/-! ### The other actions -/

theorem Open.append (ho : Open cfg ⟨s, workers⟩) :
    Open cfg ⟨s, workers ++ [⟨attempt, .acquireGet .consumer⟩]⟩ where
  delivered := ho.delivered
  alone := ho.alone.atMostOneInside.append fun hin => by cases hin
  held := forall_mem_append ho.held fun hin => by cases hin
  stage := forall_mem_append ho.stage trivial
  free := ho.free

theorem Once.deliver (ho : Once cfg ⟨s, workers⟩) :
    Once cfg ⟨s, workers ++ [⟨attempt, .acquireGet .consumer⟩]⟩ := by
  exact ⟨ho.paid, ho.phase.imp Open.append fun h => ⟨h.completed, forall_mem_append h.quiet rfl⟩⟩

theorem Once.crash (ho : Once cfg ⟨s, workers⟩) (hw : workers[w]? = some worker) :
    Once cfg ⟨s, workers.set w { worker with pc := .finished .unsettled }⟩ where
  paid := ho.paid
  phase := ho.phase.imp (fun h => h.set_outside hw rfl) fun h =>
    ⟨h.completed, forall_mem_set (others_of_forall h.quiet) rfl⟩

theorem Open.expire_service (ho : Open cfg ⟨s, workers⟩) :
    Open cfg ⟨s.setKey none .service, workers⟩ :=
  ⟨ho.delivered, ho.alone, ho.held, ho.stage, ho.free⟩

theorem Open.expire_consumer (ho : Open cfg ⟨s, workers⟩) (hnil : s.chain = [])
    (hall : ∀ x ∈ workers, x.pc.inside = false) :
    Open cfg ⟨s.setKey none .consumer, workers⟩ where
  delivered := ho.delivered
  alone := ho.alone
  held x hx hin := by simp [hall x hx] at hin
  stage := ho.stage
  free _ := hnil

theorem Once.expire {l : Lease} (ho : Once cfg ⟨s, workers⟩)
    (hg : Guarded ⟨s, workers⟩ (.expire l)) :
    Once cfg ⟨s.setKey none l, workers⟩ := by
  cases l with
  | service => exact ⟨ho.paid, ho.phase.imp .expire_service fun h => ⟨h.completed, h.quiet⟩⟩
  | consumer =>
    refine ⟨ho.paid, ?_⟩
    rcases ho.phase with hopen | hclosed
    · rcases hg with hcompleted | ⟨hnil, hall⟩
      · exact absurd (hopen.delivered.symm.trans hcompleted) (by decide)
      · exact .inl (hopen.expire_consumer hnil hall)
    · exact .inr ⟨hclosed.completed, hclosed.quiet⟩

theorem Once.run (ho : Once cfg ⟨s, workers⟩) (hredis : cfg.redis = true)
    (hw : workers[w]? = some worker) (hclean : worker.pc.Clean o)
    (h : stepWorker cfg worker.attempt s o worker.pc = some (s', pc')) :
    Once cfg ⟨s', workers.set w { worker with pc := pc' }⟩ := by
  rcases ho.phase with hopen | hclosed
  · cases hin : worker.pc.inside with
    | false =>
      obtain ⟨hchain, hopen'⟩ := hopen.run_outside hredis hw hin h
      exact ⟨hchain ▸ ho.paid, .inl hopen'⟩
    | true => exact hopen.run_inside ho.paid hredis hw hin hclean h
  · obtain ⟨hchain, hclosed'⟩ := hclosed.run hredis hw h
    exact ⟨hchain ▸ ho.paid, .inr hclosed'⟩

/-! ## Runs -/

theorem once_start (cfg : Config) : Once cfg start where
  paid := ⟨0, Nat.zero_le _, rfl⟩
  phase := .inl ⟨rfl, fun _ _ _ _ hx => by simp [start] at hx, fun _ hx => by simp [start] at hx,
    fun _ hx => by simp [start] at hx, fun _ => rfl⟩

theorem once_next {s s' : System} {a : Action} (hredis : cfg.redis = true) (hg : Guarded s a)
    (h : next cfg s a = some s') (ho : Once cfg s) : Once cfg s' := by
  cases a with
  | deliver attempt =>
    obtain rfl := Option.some.inj h
    exact ho.deliver
  | run w o =>
    simp only [next, Option.bind_eq_bind, Option.bind_eq_some_iff] at h
    obtain ⟨worker, hw, ⟨shared, pc⟩, hstep, hpost⟩ := h
    obtain rfl := Option.some.inj hpost
    exact ho.run hredis hw (hg worker hw) hstep
  | crash w =>
    simp only [next, Option.bind_eq_bind, Option.bind_eq_some_iff] at h
    obtain ⟨worker, hw, hpost⟩ := h
    obtain rfl := Option.some.inj hpost
    exact ho.crash hw
  | expire l =>
    obtain rfl := Option.some.inj h
    exact ho.expire hg

/-! ### Payments to an investor -/

section Investors

variable {α : Type} [DecidableEq α]

/-- The payments to `investor`, when the investment at index `i` is one of `investorOf i`. -/
def paymentsTo (investorOf : Nat → α) (investor : α) (chain : List Recipient) : Nat :=
  chain.countP fun
    | .investor globalIdx => investorOf globalIdx = investor
    | .platform => false

/-- Every investment and the platform are paid at most once, so no investor is paid more often
    than he has confirmed investments in the deal. -/
structure AtMostOnce (cfg : Config) (investorOf : Nat → α) (chain : List Recipient) : Prop where
  count_le : ∀ r, chain.count r ≤ 1
  payments_le : ∀ investor, paymentsTo investorOf investor chain ≤
    (List.range cfg.investments).countP fun i => investorOf i = investor

theorem Paid.atMostOnce (h : Paid cfg chain) (investorOf : Nat → α) :
    AtMostOnce cfg investorOf chain := by
  obtain ⟨k, hk, rfl⟩ := h
  constructor
  case count_le =>
    intro r
    exact List.nodup_iff_count_le_one.mp (paidUpTo_nodup hk) r
  case payments_le =>
    intro investor
    have hplatform : paymentsTo investorOf investor
        (if k = cfg.batchCount then [.platform] else []) = 0 := by
      split <;> rfl
    unfold paymentsTo at hplatform ⊢
    rw [paidUpTo_eq hk, List.countP_append, hplatform, List.countP_map, Nat.add_zero]
    exact (List.take_sublist _ _).countP_le

end Investors

/-- `n` operations of a worker that all succeed. -/
def oks (w n : Nat) : List Action := List.replicate n (.run w .ok)

/-- Two batches: the first is accepted, the second refused; the worker gives both leases back,
    and the next delivery submits the first again. -/
def redelivered : List Action :=
  .deliver 1 :: oks 0 6 ++ .run 0 .fail :: oks 0 4 ++ .deliver 2 :: oks 1 6

/-- Two deliveries at once, a refused first batch and a redelivery, which outlives the service's
    lease, and whose commit is reported as failed. -/
def undisturbed : List Action :=
  .deliver 1 :: .deliver 1 :: .run 0 .ok :: oks 1 1 ++ .run 0 .ok :: .run 1 .ok :: oks 0 3 ++
    .run 0 .fail :: oks 0 4 ++ .deliver 2 :: oks 2 6 ++ .expire .service :: .run 2 .ok ::
    .run 2 .lost :: oks 2 3 ++ .deliver 3 :: oks 3 3 ++ [.expire .consumer, .crash 3]

end AgriFi.DealDelivered
