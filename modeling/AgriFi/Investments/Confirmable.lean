import AgriFi.Investments.OverFunding

/-
  Nothing keeps a pending investment from being confirmed: `confirmInvestment`, called by the owner
  with nobody in between, goes through whatever the sums are (`confirm_reaches`). So when the
  pending and the confirmed investments together exceed the deal, a state with too much confirmed
  can be reached from there (`over_funding_reachable`), and the condition of `never_over_funded`
  cannot count fewer of them.
-/

namespace AgriFi.Investments

open AgriFi.Runs

variable {s t : System} {db db' : Database} {pc pc' : Pc} {id : Nat} {i : Investment}

/-- No transaction holds a row. -/
def Unlocked (s : System) : Prop :=
  ∀ pc ∈ s.threads, pc.holdsDeal = false ∧ ∀ id, pc.holdsInvestment id = false

def Database.live (db : Database) : List Investment := db.investments.filter Investment.isLive

theorem waitsFor_of_unlocked (hdeal : pc'.holdsDeal = false)
    (hrow : ∀ id, pc'.holdsInvestment id = false) (pc : Pc) : pc.waitsFor pc' = false := by
  cases pc <;> first | exact hdeal | exact hrow _ | rfl

/-- A thread that joins and sends its commands with nobody in between. -/
theorem next_joined (hlocks : Unlocked s) (hself : pc.waitsFor pc = false)
    (hstep : stepDb s.coolingOffHours s.db .ok pc = some (db, pc')) :
    next (s.join pc) (.run s.threads.length .ok) = some ({ s with db }.join pc') := by
  have hpc : (s.join pc).threads[s.threads.length]? = some pc := by
    simp [System.join]
  have hfree : ((s.join pc).threads.any fun holder => pc.waitsFor holder) = false := by
    rw [List.any_eq_false]
    intro holder hmem
    rcases List.mem_append.mp hmem with hmem | hmem
    · have hholder := hlocks holder hmem
      simp [waitsFor_of_unlocked hholder.1 hholder.2]
    · rw [List.mem_singleton.mp hmem]
      simp [hself]
  have hset : (s.join pc).threads.set s.threads.length pc' = s.threads ++ [pc'] := by
    simp [System.join]
  have hsent : stepDb (s.join pc).coolingOffHours (s.join pc).db .ok pc = some (db, pc') := hstep
  simp only [next, hpc, hfree, hsent, hset, Option.bind_eq_bind, Option.bind_some,
    Bool.false_eq_true, if_false]
  rfl

/-- A command of the thread that leaves the database as it is. -/
theorem reaches_joined (hlocks : Unlocked s) (hself : pc.waitsFor pc = false)
    (hstep : stepDb s.coolingOffHours s.db .ok pc = some (s.db, pc'))
    (hrest : Reaches next (s.join pc') t) : Reaches next (s.join pc) t :=
  (reaches_of_next (next_joined hlocks hself hstep)).trans hrest

theorem sampleHash_valid : isStellarTxHash sampleHash = true := by decide +kernel

/-- `confirmInvestment` of a pending investment, by its owner. -/
theorem confirm_reaches (hlocks : Unlocked s) (hi : s.db.investments[id]? = some i)
    (hp : i.status = .pending) :
    Reaches next s
      ({ s with db := s.db.confirm id (s.db.newTotalInvested id) }.join .finished) := by
  have hread : s.db.isPendingOf i.investorId id = true := by
    simp [Database.isPendingOf, hi, hp]
  have hcall : next s (.confirmInvestment i.investorId id sampleHash) =
      some (s.join (.readToConfirm i.investorId id)) := by
    show some (s.join (confirming i.investorId id sampleHash)) = _
    rw [confirming, if_pos sampleHash_valid]
  have hpending : stepDb s.coolingOffHours s.db .ok (.readToConfirm i.investorId id) =
      some (s.db, .updateStatus id) := by
    simp [stepDb, hread, onOk]
  refine (reaches_of_next hcall).trans ?_
  refine reaches_joined hlocks rfl hpending ?_
  have hupdate : stepDb s.coolingOffHours s.db .ok (.updateStatus id) =
      some (s.db, .findTotal id) := rfl
  have hfind : stepDb s.coolingOffHours s.db .ok (.findTotal id) =
      some (s.db, .updateTotal id (s.db.newTotalInvested id)) := rfl
  have htotal : stepDb s.coolingOffHours s.db .ok (.updateTotal id (s.db.newTotalInvested id)) =
      some (s.db, .commit id (s.db.newTotalInvested id)) := rfl
  refine reaches_joined hlocks rfl hupdate (reaches_joined hlocks rfl hfind ?_)
  refine reaches_joined hlocks rfl htotal ?_
  exact reaches_of_next (next_joined hlocks rfl rfl)

/-! ## All of them -/

/-- The live investments of `db` are there and live in `db'`, in a deal of the same size. -/
structure KeepsLive (db db' : Database) : Prop where
  totalValue : db'.deal.totalValue = db.deal.totalValue
  tokenCount : db'.deal.tokenCount = db.deal.tokenCount
  length : db'.investments.length = db.investments.length
  row : ∀ ⦃id : Nat⦄ ⦃i : Investment⦄, db.investments[id]? = some i → i.isLive = true →
    ∃ i' : Investment, db'.investments[id]? = some i' ∧ i'.isLive = true ∧
      i'.amountUsd = i.amountUsd ∧ i'.tokenAmount = i.tokenAmount

theorem KeepsLive.refl (db : Database) : KeepsLive db db :=
  ⟨rfl, rfl, rfl, fun _ i hi hlive => ⟨i, hi, hlive, rfl, rfl⟩⟩

theorem KeepsLive.trans {db'' : Database} (h : KeepsLive db db') (h' : KeepsLive db' db'') :
    KeepsLive db db'' := by
  refine ⟨h'.totalValue.trans h.totalValue, h'.tokenCount.trans h.tokenCount,
    h'.length.trans h.length, ?_⟩
  intro id i hi hlive
  obtain ⟨i', hi', hlive', husd, htokens⟩ := h.row hi hlive
  obtain ⟨i'', hi'', hlive'', husd', htokens'⟩ := h'.row hi' hlive'
  exact ⟨i'', hi'', hlive'', husd'.trans husd, htokens'.trans htokens⟩

theorem getElem?_confirm (db : Database) (id total id' : Nat) :
    (db.confirm id total).investments[id']? =
      (db.investments[id']?).map fun i =>
        if id = id' then { i with status := .confirmed } else i := by
  show (db.investments.modify id _)[id']? = _
  rw [List.getElem?_modify]
  rfl

theorem KeepsLive.confirm (db : Database) (id total : Nat) :
    KeepsLive db (db.confirm id total) := by
  refine ⟨rfl, rfl, List.length_modify .., ?_⟩
  intro id' i hi hlive
  rw [getElem?_confirm, hi]
  refine ⟨_, rfl, ?_⟩
  split
  · exact ⟨by simp [Investment.isLive], rfl, rfl⟩
  · exact ⟨hlive, rfl, rfl⟩

theorem unlocked_join (h : Unlocked s) (db : Database) :
    Unlocked ({ s with db }.join .finished) := by
  intro pc hmem
  rcases List.mem_append.mp hmem with hmem | hmem
  · exact h pc hmem
  · rw [List.mem_singleton.mp hmem]
    exact ⟨rfl, fun _ => rfl⟩

/-- The pending investments among the first `n` are confirmed one after the other. -/
theorem confirm_first (hlocks : Unlocked s) (n : Nat) :
    ∃ t, Reaches next s t ∧ Unlocked t ∧ KeepsLive s.db t.db ∧
      ∀ ⦃id : Nat⦄ ⦃i : Investment⦄, id < n → t.db.investments[id]? = some i →
        i.status ≠ .pending := by
  induction n with
  | zero => exact ⟨s, .refl s, hlocks, .refl s.db, fun id i hid => absurd hid (Nat.not_lt_zero id)⟩
  | succ n ih =>
    obtain ⟨t, hreach, hunlocked, hkeeps, hfirst⟩ := ih
    by_cases hp : ∃ i, t.db.investments[n]? = some i ∧ i.status = .pending
    · obtain ⟨i, hi, hp⟩ := hp
      refine ⟨_, hreach.trans (confirm_reaches hunlocked hi hp), unlocked_join hunlocked _,
        hkeeps.trans (.confirm _ n _), ?_⟩
      intro id i' hid hi'
      change (t.db.confirm n _).investments[id]? = some i' at hi'
      rw [getElem?_confirm] at hi'
      obtain ⟨j, hj, rfl⟩ := Option.map_eq_some_iff.mp hi'
      split
      · simp
      · next hne => exact hfirst (by omega) hj
    · refine ⟨t, hreach, hunlocked, hkeeps, ?_⟩
      intro id i hid hi hpending
      rcases Nat.lt_succ_iff_lt_or_eq.mp hid with hlt | rfl
      · exact hfirst hlt hi hpending
      · exact hp ⟨i, hi, hpending⟩

/-- What is pending or confirmed can all be confirmed. -/
theorem sum_live_le (hkeeps : KeepsLive db db') (f : Investment → Nat)
    (hf : ∀ i i' : Investment, i'.amountUsd = i.amountUsd → i'.tokenAmount = i.tokenAmount →
      f i' = f i)
    (hnone : ∀ ⦃id : Nat⦄ ⦃i : Investment⦄, db'.investments[id]? = some i → i.status ≠ .pending) :
    (db.live.map f).sum ≤ (db'.confirmed.map f).sum := by
  unfold Database.live Database.confirmed
  rw [← picked_const, ← picked_const]
  apply sum_picked_le
  intro id i hi hlive
  obtain ⟨i', hi', hlive', husd, htokens⟩ := hkeeps.row hi hlive
  refine ⟨i', hi', ?_, (hf i i' husd htokens).ge⟩
  simpa [Investment.isLive, hnone hi'] using hlive'

/-- When the pending and the confirmed investments exceed the deal, too much can be confirmed. -/
theorem over_funding_reachable (hlocks : Unlocked s)
    (hover : ¬ HasRoom s.db.deal s.db.live 0 0) : ∃ t, Reaches next s t ∧ ¬ FundedWithin t := by
  obtain ⟨t, hreach, _, hkeeps, hnone⟩ := confirm_first hlocks s.db.investments.length
  refine ⟨t, hreach, ?_⟩
  rintro ⟨husd, htokens⟩
  have hconfirmed : ∀ ⦃id : Nat⦄ ⦃i : Investment⦄, t.db.investments[id]? = some i →
      i.status ≠ .pending := by
    intro id i hi
    obtain ⟨hlt, _⟩ := List.getElem?_eq_some_iff.mp hi
    exact hnone (hkeeps.length ▸ hlt) hi
  rw [hkeeps.totalValue] at husd
  rw [hkeeps.tokenCount] at htokens
  apply hover
  constructor
  · exact le_trans (sum_live_le hkeeps _ (fun _ _ h _ => h) hconfirmed) husd
  · exact le_trans (sum_live_le hkeeps _ (fun _ _ _ h => h) hconfirmed) htokens

/-- Two investors wait for the whole deal each, and no call is in progress. -/
def wholeDealAwaited : {s : System // (s.threads.all fun pc => pc matches .finished) = true} :=
  ⟨(replay next (start sampleDeal 48) (creation 0 1 30 3000 ++ creation 1 2 30 3000)).2,
    by decide +kernel⟩

theorem over_funding_reachable_awaited :
    ∃ t, Reaches next wholeDealAwaited.1 t ∧ ¬ FundedWithin t := by
  apply over_funding_reachable
  · intro pc hpc
    have hfinished := List.all_eq_true.mp wholeDealAwaited.2 pc hpc
    cases pc with
    | finished => exact ⟨rfl, fun _ => rfl⟩
    | _ => cases hfinished
  · unfold HasRoom
    decide +kernel

end AgriFi.Investments
