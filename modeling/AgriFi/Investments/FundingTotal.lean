import AgriFi.Threads
import AgriFi.Investments.OverFunding

/-
  Whether a deal's `totalInvested` is the sum of its confirmed investments. Only the transaction of
  `confirmInvestment` writes the total, from a sum that it reads before it has the deal's row: the
  job's confirmation leaves the total as it is (`job_leaves_total`), and of two confirmations side
  by side the later one can write the sum of the earlier. `total_kept`: in a run in which no job
  changes what is confirmed, and no confirmation sums up while another one is between its sum and
  its commit, the total is the sum in every state, and the commit that reaches the deal's value
  funds the deal, once.
-/

namespace AgriFi.Investments.FundingTotal

open AgriFi.Runs AgriFi.Threads
open AgriFi.DealDelivered (Outcome)

/-! ## Sums over the confirmed rows -/

variable {db db' : Database} {pc pc' : Pc} {o : Outcome} {coolingOffHours : Nat}

/-- What a row adds to the sum of the confirmed investments. -/
def confirmedUsd (i : Investment) : Nat := if i.status = .confirmed then i.amountUsd else 0

theorem totalUsd_confirmed (db : Database) :
    totalUsd db.confirmed = (db.investments.map confirmedUsd).sum := by
  unfold Database.confirmed totalUsd
  induction db.investments with
  | nil => rfl
  | cons i rows ih =>
    rw [List.map_cons, List.sum_cons, List.filter_cons, ← ih]
    by_cases hi : i.status = .confirmed
    · simp [hi, confirmedUsd]
    · simp [hi, confirmedUsd]

/-- Rows that count the same, place by place, have the same sum. -/
theorem sum_value_congr {rows rows' : List Investment}
    (h : ∀ k : Nat, rows'[k]?.map confirmedUsd = rows[k]?.map confirmedUsd) :
    (rows'.map confirmedUsd).sum = (rows.map confirmedUsd).sum := by
  have hmap : rows'.map confirmedUsd = rows.map confirmedUsd := by
    apply List.ext_getElem?
    intro k
    rw [List.getElem?_map, List.getElem?_map]
    exact h k
  rw [hmap]

theorem getElem?_setStatus (db : Database) (id k : Nat) (status : InvestmentStatus) :
    (db.setStatus id status).investments[k]? =
      db.investments[k]?.map fun i => if id = k then { i with status } else i :=
  List.getElem?_modify _ _ _ _

/-- A row's status changes, and it counts as before. -/
theorem value_setStatus {id : Nat} {status : InvestmentStatus}
    (h : ∀ i ∈ db.investments[id]?, (i.status = .confirmed ↔ status = .confirmed)) (k : Nat) :
    (db.setStatus id status).investments[k]?.map confirmedUsd =
      db.investments[k]?.map confirmedUsd := by
  rw [getElem?_setStatus]
  cases hk : db.investments[k]? with
  | none => rfl
  | some i =>
    by_cases hid : id = k
    · subst hid
      have hiff := h i hk
      simp only [Option.map_some, if_true, confirmedUsd, hiff]
    · simp [hid]

/-- The same rows beside a confirmation of another row, or of this one. -/
theorem value_setStatus_confirmed {id id' : Nat} {status : InvestmentStatus}
    (h : ∀ i ∈ db.investments[id]?, (i.status = .confirmed ↔ status = .confirmed)) (k : Nat) :
    ((db.setStatus id status).setStatus id' .confirmed).investments[k]?.map confirmedUsd =
      (db.setStatus id' .confirmed).investments[k]?.map confirmedUsd := by
  rw [getElem?_setStatus, getElem?_setStatus, getElem?_setStatus]
  cases hk : db.investments[k]? with
  | none => rfl
  | some i =>
    by_cases hid' : id' = k
    · by_cases hid : id = k <;> simp [hid, hid']
    · by_cases hid : id = k
      · subst hid
        have hiff := h i hk
        simp only [Option.map_some, if_true, hid', if_false, confirmedUsd, hiff]
      · simp [hid, hid']

/-- What a command leaves of the deal and of the sums, of those that a confirmation may write
    included. -/
structure Leaves (db db' : Database) : Prop where
  deal : db'.deal = db.deal
  total : totalUsd db'.confirmed = totalUsd db.confirmed
  newTotal : ∀ id < db.investments.length, db'.newTotalInvested id = db.newTotalInvested id
  rows : db.investments.length ≤ db'.investments.length

theorem Leaves.refl (db : Database) : Leaves db db := ⟨rfl, rfl, fun _ _ => rfl, le_refl _⟩

theorem Leaves.written (h : o ≠ .fail → Leaves db db') : Leaves db (written db db' o) := by
  cases o with
  | ok => exact h nofun
  | fail => exact .refl db
  | lost => exact h nofun

theorem leaves_setStatus {id : Nat} {status : InvestmentStatus}
    (h : ∀ i ∈ db.investments[id]?, (i.status = .confirmed ↔ status = .confirmed)) :
    Leaves db (db.setStatus id status) := by
  constructor
  case deal => rfl
  case total =>
    rw [totalUsd_confirmed, totalUsd_confirmed]
    exact sum_value_congr (value_setStatus h)
  case newTotal =>
    intro id' _
    unfold Database.newTotalInvested
    rw [totalUsd_confirmed, totalUsd_confirmed]
    exact sum_value_congr (value_setStatus_confirmed h)
  case rows => exact le_of_eq (List.length_modify _ _ _).symm

theorem leaves_cancel (db : Database) (id : Nat) : Leaves db (db.cancel id) := by
  unfold Database.cancel
  split
  · next hp =>
    apply leaves_setStatus
    intro i hi
    unfold Database.isPending at hp
    have hi : db.investments[id]? = some i := hi
    simp only [hi, Option.any_some, decide_eq_true_eq] at hp
    simp [hp]
  · exact .refl db

theorem modify_append {rows : List Investment} {id : Nat} (hid : id < rows.length) (i : Investment)
    (f : Investment → Investment) : (rows ++ [i]).modify id f = rows.modify id f ++ [i] := by
  induction rows generalizing id with
  | nil => simp at hid
  | cons row rows ih =>
    cases id with
    | zero => rfl
    | succ id =>
      rw [List.cons_append, List.modify_succ_cons, List.modify_succ_cons, List.cons_append,
        ih (Nat.lt_of_succ_lt_succ hid)]

theorem leaves_insert (db : Database) (investorId : Nat) (dto : CreateInvestmentDto) :
    Leaves db (db.insert investorId dto) := by
  constructor
  case deal => rfl
  case total =>
    rw [totalUsd_confirmed, totalUsd_confirmed]
    simp [Database.insert, confirmedUsd]
  case newTotal =>
    intro id hid
    unfold Database.newTotalInvested
    rw [totalUsd_confirmed, totalUsd_confirmed]
    simp [Database.insert, Database.setStatus, modify_append hid, confirmedUsd]
  case rows => simp [Database.insert]

/-! ## One command -/

/-- The investment that the thread's transaction confirms. -/
def targetOf : Pc → Option Nat
  | .updateStatus id | .findTotal id | .updateTotal id _ | .commit id _ => some id
  | _ => none

/-- The investment and the sum of a transaction that has summed up. -/
def totalOf : Pc → Option (Nat × Nat)
  | .updateTotal id total | .commit id total => some (id, total)
  | _ => none

theorem targetOf_of_totalOf {id total : Nat} (h : totalOf pc = some (id, total)) :
    targetOf pc = some id := by
  unfold totalOf at h
  split at h
  · cases h; rfl
  · cases h; rfl
  · cases h

theorem totalOf_of_idle (h : targetOf pc = none) : totalOf pc = none := by
  by_contra hne
  obtain ⟨⟨id, total⟩, htotal⟩ := Option.ne_none_iff_exists'.mp hne
  rw [targetOf_of_totalOf htotal] at h
  cases h

/-- No job changes what is confirmed, and no transaction sums up beside another one that has. -/
def Undisturbed (s : System) (o : Outcome) : Pc → Prop
  | .findTotal _ => ∀ holder ∈ s.threads, totalOf holder = none
  | .updateConfirmed id _ => o ≠ .fail → ∀ i ∈ s.db.investments[id]?, i.status = .confirmed
  | .updateFailed id => o ≠ .fail → ∀ i ∈ s.db.investments[id]?, i.status ≠ .confirmed
  | _ => True

instance (s : System) (o : Outcome) : ∀ pc : Pc, Decidable (Undisturbed s o pc)
  | .findTotal _ => inferInstanceAs (Decidable (∀ holder ∈ s.threads, _))
  | .updateConfirmed id _ => inferInstanceAs (Decidable (_ → ∀ i ∈ s.db.investments[id]?, _))
  | .updateFailed id => inferInstanceAs (Decidable (_ → ∀ i ∈ s.db.investments[id]?, _))
  | .lockDeal _ _ | .findConfirmed _ _ _ | .insert _ _ | .readToConfirm _ _ | .updateStatus _
  | .updateTotal _ _ | .commit _ _ | .readToFund _ _ | .enqueue _ | .fundStellar _ _
  | .readToCancel _ _ | .cancel _ | .readToProcess _ | .submit _ _ | .markDone _ _
  | .finished => isTrue trivial

/-- Where a thread goes on from `pc`: to a sum that it has or has just read, and to an investment
    that it has or has just found pending. -/
structure Leads (db : Database) (pc pc' : Pc) : Prop where
  total : ∀ ⦃id total⦄, totalOf pc' = some (id, total) →
    totalOf pc = some (id, total) ∨ pc = .findTotal id ∧ total = db.newTotalInvested id
  target : ∀ ⦃id⦄, targetOf pc' = some id → targetOf pc = some id ∨ db.isPending id = true

theorem Leads.of_idle (h : targetOf pc' = none) : Leads db pc pc' := by
  constructor
  case total =>
    intro id total htotal
    rw [targetOf_of_totalOf htotal] at h
    cases h
  case target =>
    intro id hid
    rw [h] at hid
    cases hid

theorem Leads.onOk (h : Leads db pc pc') : Leads db pc (onOk pc' o) := by
  cases o with
  | ok => exact h
  | fail => exact .of_idle rfl
  | lost => exact .of_idle rfl

theorem targetOf_retry (id attempt : Nat) : targetOf (retry id attempt) = none := by
  unfold retry
  split <;> rfl

/-- One database command: a confirmation that commits, or one that leaves the sums. -/
theorem stepDb_leaves {s : System} (hu : Undisturbed s o pc)
    (h : stepDb coolingOffHours s.db o pc = some (db', pc')) :
    (∃ id total, pc = .commit id total ∧ db' = written s.db (s.db.confirm id total) o ∧
      pc' = .finished) ∨
    Leaves s.db db' ∧ Leads s.db pc pc' := by
  cases pc with
  | fundStellar => cases h
  | submit => cases h
  | finished => cases h
  | commit id total =>
    obtain ⟨rfl, rfl⟩ := Prod.mk.inj (Option.some.inj h)
    exact .inl ⟨id, total, rfl, rfl, rfl⟩
  | lockDeal investorId dto =>
    obtain ⟨rfl, rfl⟩ := Prod.mk.inj (Option.some.inj h)
    refine .inr ⟨.refl _, Leads.onOk (.of_idle ?_)⟩
    unfold lockedDeal
    split <;> rfl
  | findConfirmed tradeDeal investorId dto =>
    obtain ⟨rfl, rfl⟩ := Prod.mk.inj (Option.some.inj h)
    refine .inr ⟨.refl _, Leads.onOk (.of_idle ?_)⟩
    unfold counted
    split <;> rfl
  | insert investorId dto =>
    obtain ⟨rfl, rfl⟩ := Prod.mk.inj (Option.some.inj h)
    exact .inr ⟨.written fun _ => leaves_insert _ investorId dto, .of_idle rfl⟩
  | readToConfirm investorId id =>
    obtain ⟨rfl, rfl⟩ := Prod.mk.inj (Option.some.inj h)
    refine .inr ⟨.refl _, Leads.onOk ?_⟩
    split
    · next hp =>
      refine ⟨nofun, ?_⟩
      rintro id' ⟨⟩
      exact .inr (isPending_of_isPendingOf hp)
    · exact .of_idle rfl
  | updateStatus id =>
    obtain ⟨rfl, rfl⟩ := Prod.mk.inj (Option.some.inj h)
    exact .inr ⟨.refl _, Leads.onOk ⟨nofun, fun _ hid => .inl hid⟩⟩
  | findTotal id =>
    obtain ⟨rfl, rfl⟩ := Prod.mk.inj (Option.some.inj h)
    refine .inr ⟨.refl _, Leads.onOk ⟨?_, fun _ hid => .inl hid⟩⟩
    rintro id' total ⟨⟩
    exact .inr ⟨rfl, rfl⟩
  | updateTotal id total =>
    obtain ⟨rfl, rfl⟩ := Prod.mk.inj (Option.some.inj h)
    exact .inr ⟨.refl _, Leads.onOk ⟨fun _ _ ht => .inl ht, fun _ hid => .inl hid⟩⟩
  | readToFund id signed =>
    obtain ⟨rfl, rfl⟩ := Prod.mk.inj (Option.some.inj h)
    refine .inr ⟨.refl _, Leads.onOk (.of_idle ?_)⟩
    unfold funding
    split
    · rfl
    · split
      · rfl
      · split <;> rfl
  | enqueue id =>
    obtain ⟨rfl, rfl⟩ := Prod.mk.inj (Option.some.inj h)
    have hrows : Leaves s.db (s.db.enqueue id) := ⟨rfl, rfl, fun _ _ => rfl, le_refl _⟩
    exact .inr ⟨.written fun _ => hrows, .of_idle rfl⟩
  | readToCancel investorId id =>
    obtain ⟨rfl, rfl⟩ := Prod.mk.inj (Option.some.inj h)
    refine .inr ⟨.refl _, Leads.onOk (.of_idle ?_)⟩
    split <;> rfl
  | cancel id =>
    obtain ⟨rfl, rfl⟩ := Prod.mk.inj (Option.some.inj h)
    exact .inr ⟨.written fun _ => leaves_cancel _ id, .of_idle rfl⟩
  | readToProcess id =>
    obtain ⟨rfl, rfl⟩ := Prod.mk.inj (Option.some.inj h)
    refine .inr ⟨.refl _, Leads.onOk (.of_idle ?_)⟩
    split <;> rfl
  | updateConfirmed id attempt =>
    obtain ⟨rfl, rfl⟩ := Prod.mk.inj (Option.some.inj h)
    refine .inr ⟨.written fun ho => ?_, .of_idle ?_⟩
    · apply leaves_setStatus
      intro i hi
      exact iff_of_true (hu ho i hi) rfl
    · split
      · rfl
      · exact targetOf_retry id attempt
  | markDone id attempt =>
    obtain ⟨rfl, rfl⟩ := Prod.mk.inj (Option.some.inj h)
    refine .inr ⟨.refl _, .of_idle ?_⟩
    split
    · rfl
    · exact targetOf_retry id attempt
  | updateFailed id =>
    obtain ⟨rfl, rfl⟩ := Prod.mk.inj (Option.some.inj h)
    refine .inr ⟨.written fun ho => ?_, .of_idle rfl⟩
    apply leaves_setStatus
    intro i hi
    exact iff_of_false (hu ho i hi) nofun

/-! ## The system -/

variable {s s' : System} {a : Action} {w : Nat}

/-- The condition on a step. -/
def Calm (s : System) : Action → Prop
  | .run w o => ∀ pc ∈ s.threads[w]?, Undisturbed s o pc
  | _ => True

instance (s : System) : ∀ a : Action, Decidable (Calm s a)
  | .run w _ => inferInstanceAs (Decidable (∀ pc ∈ s.threads[w]?, _))
  | .createInvestment _ _ | .confirmInvestment _ _ _ | .fundEscrow _ _
  | .requestCoolingOffCancel _ _ | .deliver _ | .stellar _ _ | .quit _ | .wait _ => isTrue trivial

/-- A step that commits no confirmation. -/
inductive Passes (s : System) : System → Prop
  | join {pc : Pc} (hpc : targetOf pc = none) : Passes s (s.join pc)
  | run {w : Nat} {pc pc' : Pc} {db : Database} (hpc : s.threads[w]? = some pc)
      (halone : totalOf pc' ≠ none →
        totalOf pc ≠ none ∨ ∀ holder ∈ s.threads, totalOf holder = none)
      (hleaves : Leaves s.db db) (hleads : Leads s.db pc pc') :
      Passes s { s with db, threads := s.threads.set w pc' }
  | wait (now : Nat) : Passes s { s with db := { s.db with now } }

/-- The state in which the confirmation of thread `w` ends. -/
def committed (s : System) (w id total : Nat) (o : Outcome) : System :=
  { s with db := written s.db (s.db.confirm id total) o, threads := s.threads.set w .finished }

theorem targetOf_confirming (investorId id : Nat) (stellarTxId : List Char) :
    targetOf (confirming investorId id stellarTxId) = none := by
  unfold confirming
  split <;> rfl

theorem targetOf_stepStellar {answer : Option (List Char)} (h : stepStellar answer pc = some pc') :
    targetOf pc' = none := by
  cases pc with
  | fundStellar investorId id =>
    obtain rfl := Option.some.inj h
    cases answer with
    | none => rfl
    | some hash => exact targetOf_confirming investorId id hash
  | submit id attempt =>
    obtain rfl := Option.some.inj h
    cases answer with
    | none => exact targetOf_retry id attempt
    | some hash => rfl
  | _ => cases h

theorem next_cases (hc : Calm s a) (h : next s a = some s') :
    (∃ w o id total, s.threads[w]? = some (.commit id total) ∧ s' = committed s w id total o) ∨
    Passes s s' := by
  cases a with
  | createInvestment investorId dto =>
    obtain rfl := Option.some.inj h
    exact .inr (.join rfl)
  | confirmInvestment investorId id stellarTxId =>
    obtain rfl := Option.some.inj h
    exact .inr (.join (targetOf_confirming investorId id stellarTxId))
  | fundEscrow id signed =>
    obtain rfl := Option.some.inj h
    exact .inr (.join rfl)
  | requestCoolingOffCancel investorId id =>
    obtain rfl := Option.some.inj h
    exact .inr (.join rfl)
  | deliver n =>
    obtain ⟨id, _, h⟩ := Option.bind_eq_some_iff.mp h
    obtain rfl := Option.some.inj h
    exact .inr (.join rfl)
  | run w o =>
    obtain ⟨pc, hpc, h⟩ := Option.bind_eq_some_iff.mp h
    have hu := hc pc hpc
    split at h
    · cases h
    · obtain ⟨⟨db, pc'⟩, hstep, h⟩ := Option.bind_eq_some_iff.mp h
      obtain rfl := Option.some.inj h
      rcases stepDb_leaves hu hstep with ⟨id, total, rfl, rfl, rfl⟩ | ⟨hleaves, hleads⟩
      · exact .inl ⟨w, o, id, total, hpc, rfl⟩
      · refine .inr (.run hpc ?_ hleaves hleads)
        intro hne
        obtain ⟨⟨id, total⟩, htotal⟩ := Option.ne_none_iff_exists'.mp hne
        rcases hleads.total htotal with hsame | ⟨rfl, _⟩
        · exact .inl (by simp [hsame])
        · exact .inr hu
  | stellar w answer =>
    obtain ⟨pc, hpc, h⟩ := Option.bind_eq_some_iff.mp h
    obtain ⟨pc', hstep, h⟩ := Option.bind_eq_some_iff.mp h
    obtain rfl := Option.some.inj h
    have hidle := targetOf_stepStellar hstep
    exact .inr (.run hpc (fun hne => absurd (totalOf_of_idle hidle) hne) (.refl _) (.of_idle hidle))
  | quit w =>
    obtain ⟨pc, hpc, h⟩ := Option.bind_eq_some_iff.mp h
    obtain rfl := Option.some.inj h
    exact .inr (.run hpc (fun hne => absurd rfl hne) (.refl _) (.of_idle rfl))
  | wait ms =>
    obtain rfl := Option.some.inj h
    exact .inr (.wait _)

/-! ## The total along a run -/

/-- The total is the sum of the confirmed investments, and a deal that is open has not reached its
    value. -/
structure TotalKept (s : System) : Prop where
  total : s.db.deal.totalInvested = totalUsd s.db.confirmed
  belowValue : s.db.deal.status = .opened → totalUsd s.db.confirmed < s.db.deal.totalValue

/-- A transaction's sum is the one that its commit makes true. -/
structure Kept (s : System) : Prop where
  kept : TotalKept s
  alone : AtMostOneInside (fun pc => totalOf pc ≠ none) s.threads
  sums : ∀ pc ∈ s.threads, ∀ ⦃id total⦄, totalOf pc = some (id, total) →
    total = s.db.newTotalInvested id
  rows : ∀ pc ∈ s.threads, ∀ ⦃id⦄, targetOf pc = some id → id < s.db.investments.length

theorem TotalKept.leaves (h : TotalKept s) (hl : Leaves s.db s'.db) : TotalKept s' := by
  constructor
  case total => rw [hl.deal, hl.total]; exact h.total
  case belowValue => rw [hl.deal, hl.total]; exact h.belowValue

theorem lt_length_of_isPending {id : Nat} (h : db.isPending id = true) :
    id < db.investments.length := by
  unfold Database.isPending at h
  by_contra hge
  rw [List.getElem?_eq_none (by omega)] at h
  cases h

theorem Kept.passes (h : Kept s) (hp : Passes s s') : Kept s' := by
  cases hp with
  | join hidle =>
    have hnone := totalOf_of_idle hidle
    constructor
    case kept => exact ⟨h.kept.total, h.kept.belowValue⟩
    case alone => exact h.alone.append (by simp [hnone])
    case sums =>
      refine forall_mem_append h.sums ?_
      intro id total htotal
      rw [hnone] at htotal
      cases htotal
    case rows =>
      refine forall_mem_append h.rows ?_
      intro id hid
      rw [hidle] at hid
      cases hid
  | @run w pc pc' db hpc halone hleaves hleads =>
    have hmem := List.mem_of_getElem? hpc
    constructor
    case kept => exact h.kept.leaves hleaves
    case alone =>
      apply h.alone.set hpc
      intro hne
      rcases halone hne with hsame | hall
      · exact .inl hsame
      · exact .inr fun v holder hv _ => not_not_intro (hall holder (List.mem_of_getElem? hv))
    case sums =>
      have hothers : ∀ holder ∈ s.threads, ∀ ⦃id total⦄, totalOf holder = some (id, total) →
          total = db.newTotalInvested id := by
        intro holder hholder id total htotal
        have hrow := h.rows holder hholder (targetOf_of_totalOf htotal)
        exact (h.sums holder hholder htotal).trans (hleaves.newTotal id hrow).symm
      refine forall_mem_set (others_of_forall hothers) ?_
      intro id total htotal
      rcases hleads.total htotal with hsame | ⟨hfind, rfl⟩
      · exact hothers _ hmem hsame
      · have hrow := h.rows _ hmem (by rw [hfind]; rfl)
        exact (hleaves.newTotal id hrow).symm
    case rows =>
      have hothers : ∀ holder ∈ s.threads, ∀ ⦃id⦄, targetOf holder = some id →
          id < db.investments.length :=
        fun holder hholder id hid => lt_of_lt_of_le (h.rows holder hholder hid) hleaves.rows
      refine forall_mem_set (others_of_forall hothers) ?_
      intro id hid
      rcases hleads.target hid with hsame | hpending
      · exact hothers _ hmem hsame
      · exact lt_of_lt_of_le (lt_length_of_isPending hpending) hleaves.rows
  | wait now => exact ⟨⟨h.kept.total, h.kept.belowValue⟩, h.alone, h.sums, h.rows⟩

/-- A commit makes its sum true. -/
theorem totalKept_confirm (s : System) (id : Nat) :
    (s.db.confirm id (s.db.newTotalInvested id)).deal.totalInvested =
        totalUsd (s.db.confirm id (s.db.newTotalInvested id)).confirmed ∧
      ((s.db.confirm id (s.db.newTotalInvested id)).deal.status = .opened →
        totalUsd (s.db.confirm id (s.db.newTotalInvested id)).confirmed <
          s.db.deal.totalValue) := by
  have hsum : totalUsd (s.db.confirm id (s.db.newTotalInvested id)).confirmed =
      s.db.newTotalInvested id := rfl
  refine ⟨hsum.symm, ?_⟩
  rw [hsum]
  intro hopen
  change (if _ then _ else _) = TradeDealStatus.opened at hopen
  split at hopen
  · cases hopen
  · next hnot =>
    by_contra hge
    exact hnot ⟨not_lt.mp hge, hopen⟩

theorem Kept.committed {id total : Nat} (h : Kept s)
    (hpc : s.threads[w]? = some (.commit id total)) (o : Outcome) :
    Kept (committed s w id total o) := by
  have hin : totalOf (.commit id total) ≠ none := nofun
  obtain rfl := h.sums _ (List.mem_of_getElem? hpc) rfl
  have hconfirm := totalKept_confirm s id
  constructor
  case kept =>
    cases o with
    | fail => exact ⟨h.kept.total, h.kept.belowValue⟩
    | ok => exact ⟨hconfirm.1, hconfirm.2⟩
    | lost => exact ⟨hconfirm.1, hconfirm.2⟩
  case alone => exact h.alone.set hpc fun hne => absurd rfl hne
  case sums =>
    have hothers : ∀ ⦃v holder⦄, s.threads[v]? = some holder → v ≠ w →
        ∀ ⦃id' total⦄, totalOf holder = some (id', total) →
          total = (FundingTotal.committed s w id (s.db.newTotalInvested id)
            o).db.newTotalInvested id' := by
      intro v holder hv hne id' total htotal
      exact absurd (by simp [htotal]) (h.alone.others hpc hin hv hne)
    exact forall_mem_set hothers nofun
  case rows =>
    have hlength :
        (FundingTotal.committed s w id (s.db.newTotalInvested id) o).db.investments.length =
          s.db.investments.length := by
      cases o with
      | fail => rfl
      | ok => exact List.length_modify _ _ _
      | lost => exact List.length_modify _ _ _
    rw [hlength]
    exact forall_mem_set (others_of_forall h.rows) nofun

theorem Kept.move (h : Kept s) (hc : Calm s a) (hn : next s a = some s') : Kept s' := by
  rcases next_cases hc hn with ⟨w, o, id, total, hpc, rfl⟩ | hp
  · exact h.committed hpc o
  · exact h.passes hp

/-! ## Funded once -/

/-- The step funds the deal. -/
def BecomesFunded (x : Step System Action) : Prop :=
  x.pre.db.deal.status ≠ .funded ∧ x.post.db.deal.status = .funded

instance (x : Step System Action) : Decidable (BecomesFunded x) :=
  inferInstanceAs (Decidable (_ ∧ _))

/-- A deal that starts open is funded by the time its confirmed investments reach its value, and by
    one step only. -/
structure FundedOnce (deal : TradeDeal) (xs : List (Step System Action)) (s : System) : Prop where
  funded : deal.status = .opened → deal.totalValue ≤ totalUsd s.db.confirmed →
    ∃ x ∈ xs, BecomesFunded x
  once : ∀ ys x zs, xs = ys ++ x :: zs → BecomesFunded x → ∀ z ∈ zs, ¬ BecomesFunded z

/-- A step leaves the deal's value, and its status or funds an open deal. -/
structure DealMoves (db db' : Database) : Prop where
  totalValue : db'.deal.totalValue = db.deal.totalValue
  status : db'.deal.status = db.deal.status ∨
    db.deal.status = .opened ∧ db'.deal.status = .funded

theorem dealMoves_confirm (db : Database) (id total : Nat) :
    DealMoves db (db.confirm id total) := by
  refine ⟨rfl, ?_⟩
  show (if _ then _ else _) = _ ∨ _ ∧ (if _ then _ else _) = _
  split
  · next h => exact .inr ⟨h.2, rfl⟩
  · exact .inl rfl

theorem next_dealMoves (hc : Calm s a) (h : next s a = some s') : DealMoves s.db s'.db := by
  have hsame : ∀ {db' : Database}, db'.deal = s.db.deal → DealMoves s.db db' := by
    intro db' heq
    exact ⟨by rw [heq], .inl (by rw [heq])⟩
  rcases next_cases hc h with ⟨w, o, id, total, _, rfl⟩ | hp
  · cases o with
    | fail => exact hsame rfl
    | ok => exact dealMoves_confirm s.db id total
    | lost => exact dealMoves_confirm s.db id total
  · cases hp with
    | join => exact hsame rfl
    | run _ _ hleaves _ => exact hsame hleaves.deal
    | wait => exact hsame rfl

/-- A deal that is not open is not funded any more. -/
theorem not_becomesFunded {t : System} {xs : List (Step System Action)} (h : Run next s xs t)
    (hc : ∀ x ∈ xs, Calm x.pre x.act) (hs : s.db.deal.status ≠ .opened) :
    ∀ x ∈ xs, ¬ BecomesFunded x := by
  intro x hx hb
  obtain ⟨hn, hpre, _⟩ := h.steps_invariant (fun s => s.db.deal.status ≠ .opened) hs
    (fun y hy hn hpre hopen => by
      rcases (next_dealMoves (hc y hy) hn).status with hsame | ⟨hopened, _⟩
      · exact hpre (hsame.symm.trans hopen)
      · exact hpre hopened) x hx
  rcases (next_dealMoves (hc x hx) hn).status with hsame | ⟨hopened, _⟩
  · exact hb.1 (hsame.symm.trans hb.2)
  · exact hpre hopened

/-- An open deal whose status has changed was funded on the way. -/
theorem becomesFunded_of_left {t : System} {xs : List (Step System Action)} (h : Run next s xs t)
    (hc : ∀ x ∈ xs, Calm x.pre x.act) (hs : s.db.deal.status = .opened)
    (ht : t.db.deal.status ≠ .opened) : ∃ x ∈ xs, BecomesFunded x := by
  induction h with
  | nil => exact absurd hs ht
  | @cons s s' t a xs hx hrest ih =>
    rcases (next_dealMoves (hc _ (List.mem_cons_self ..)) hx).status with hsame | ⟨_, hfunded⟩
    · obtain ⟨x, hmem, hb⟩ :=
        ih (fun x hx => hc x (List.mem_cons_of_mem _ hx)) (hsame.trans hs) ht
      exact ⟨x, List.mem_cons_of_mem _ hmem, hb⟩
    · refine ⟨_, List.mem_cons_self .., ?_, hfunded⟩
      show s.db.deal.status ≠ .funded
      rw [hs]
      nofun

theorem totalValue_run {t : System} {xs : List (Step System Action)} (h : Run next s xs t)
    (hc : ∀ x ∈ xs, Calm x.pre x.act) : t.db.deal.totalValue = s.db.deal.totalValue :=
  h.invariant (fun t => t.db.deal.totalValue = s.db.deal.totalValue) rfl
    fun x hx hn hpre => (next_dealMoves (hc x hx) hn).totalValue.trans hpre

/-! ## Every run -/

/-- A deal as it is created and published: nothing invested, and a value to reach. -/
def Fresh (deal : TradeDeal) : Prop := deal.totalInvested = 0 ∧ 0 < deal.totalValue

instance (deal : TradeDeal) : Decidable (Fresh deal) := inferInstanceAs (Decidable (_ ∧ _))

theorem kept_start {deal : TradeDeal} (hfresh : Fresh deal) (coolingOffHours : Nat) :
    Kept (start deal coolingOffHours) := by
  constructor
  case kept => exact ⟨hfresh.1, fun _ => hfresh.2⟩
  case alone => exact atMostOneInside_nil
  case sums => simp [start]
  case rows => simp [start]

/-- In a run in which no job changes what is confirmed, and no confirmation sums up between the sum
    and the commit of another, the total is kept and the deal is funded once. -/
theorem total_kept {deal : TradeDeal} {xs : List (Step System Action)} (hfresh : Fresh deal)
    (h : FundingRun deal coolingOffHours xs s) (hc : ∀ x ∈ xs, Calm x.pre x.act) :
    TotalKept s ∧ FundedOnce deal xs s := by
  have hkept : Kept s := h.invariant Kept (kept_start hfresh coolingOffHours)
    fun x hx hn hpre => hpre.move (hc x hx) hn
  refine ⟨hkept.kept, ?_, ?_⟩
  · intro hopen hreached
    have hvalue : s.db.deal.totalValue = deal.totalValue := totalValue_run h hc
    apply becomesFunded_of_left h hc hopen
    intro hstill
    have hlt := hkept.kept.belowValue hstill
    omega
  · rintro ys x zs rfl hb
    obtain ⟨_, _, hzs⟩ := run_split.mp h
    have hrest : ∀ z ∈ zs, Calm z.pre z.act :=
      fun z hz => hc z (List.mem_append_right _ (List.mem_cons_of_mem _ hz))
    apply not_becomesFunded hzs hrest
    rw [hb.2]
    nofun

/-- Two investors fill the deal and confirm one after the other, though the second one has read
    before the first commits; a job that comes too late does nothing. -/
def oneByOne : List Action :=
  creation 0 1 10 1000 ++ creation 1 2 20 2000 ++
    [.fundEscrow 0 true, .run 2 .ok, .run 2 .ok] ++
    confirmationRead 3 1 0 ++ confirmationRead 4 2 1 ++ confirmationCommit 3 ++
    confirmationCommit 4 ++ [.deliver 0, .run 5 .ok]

theorem total_kept_sample :
    (replay next (start sampleDeal 48) oneByOne).2.db.deal.status = .funded ∧
      TotalKept (replay next (start sampleDeal 48) oneByOne).2 ∧
      FundedOnce sampleDeal (replay next (start sampleDeal 48) oneByOne).1
        (replay next (start sampleDeal 48) oneByOne).2 := by
  have hrun : FundingRun sampleDeal 48 _ _ := run_replay next (start sampleDeal 48) oneByOne
  exact ⟨by decide +kernel, total_kept (by decide +kernel) hrun (by decide +kernel)⟩

/-- The job confirms an investment of the whole deal. -/
def confirmedByJob : List Action :=
  creation 0 1 30 3000 ++ [.fundEscrow 0 true, .run 1 .ok, .run 1 .ok, .deliver 0, .run 2 .ok,
    .stellar 2 (some sampleHash), .run 2 .ok, .run 2 .ok]

/-- Two confirmations sum up beside each other, and the second commit writes its own investment
    only. -/
def lostUpdate : List Action :=
  creation 0 1 10 1000 ++ creation 1 2 20 2000 ++ confirmationRead 2 1 0 ++
    confirmationRead 3 2 1 ++ [.run 2 .ok, .run 3 .ok, .run 2 .ok, .run 3 .ok] ++
    [.run 2 .ok, .run 2 .ok, .run 3 .ok, .run 3 .ok]

/-- After the job the total is 0 and the deal open with all of its value confirmed; after the two
    confirmations the total is 2000 of 3000, and the deal stays open. -/
theorem job_leaves_total :
    (∃ xs s, FundingRun sampleDeal 48 xs s ∧ totalUsd s.db.confirmed = 3000 * usd ∧
      s.db.deal.totalInvested = 0 ∧ s.db.deal.status = .opened) ∧
    ∃ xs s, FundingRun sampleDeal 48 xs s ∧ totalUsd s.db.confirmed = 3000 * usd ∧
      s.db.deal.totalInvested = 2000 * usd ∧ s.db.deal.status = .opened := by
  have hjob : FundingRun sampleDeal 48 _ _ := run_replay next (start sampleDeal 48) confirmedByJob
  have hlost : FundingRun sampleDeal 48 _ _ := run_replay next (start sampleDeal 48) lostUpdate
  constructor
  · exact ⟨_, _, hjob, by decide +kernel, by decide +kernel, by decide +kernel⟩
  · exact ⟨_, _, hlost, by decide +kernel, by decide +kernel, by decide +kernel⟩

end AgriFi.Investments.FundingTotal
