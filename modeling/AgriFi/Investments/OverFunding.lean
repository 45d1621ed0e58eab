import AgriFi.Threads
import AgriFi.Investments.Service
import Mathlib.Algebra.Order.Floor.Ring
import Mathlib.Data.Rat.Floor
import Mathlib.Tactic.Linarith

/-
  How much of a deal its confirmed investments add up to. `createInvestment` counts the confirmed
  investments only, and nothing looks at the sums again when a pending one is confirmed: two
  investments of the whole deal are both accepted and then both confirmed (`funded_twice`). An
  investment may still be confirmed when it is pending, or when a call or a job is past its look at
  the status (`System.mayConfirm`). `never_over_funded`: in a run in which every check that accepts
  an investment would also accept it beside all of these, the confirmed ones never exceed the deal.
-/

namespace AgriFi.Investments

open AgriFi.Runs AgriFi.Threads
open AgriFi.Soroban (bind_eq_ok failIf_bind_eq_ok failIf_eq_ok)
open AgriFi.DealDelivered (Outcome)

/-! ## Rows picked by their place -/

section Picked

variable {α : Type}

/-- The rows that `p` picks, by their place and what they hold. -/
def picked : (Nat → α → Bool) → List α → List α
  | _, [] => []
  | p, x :: rows =>
    let rest := picked (fun k => p (k + 1)) rows
    if p 0 x then x :: rest else rest

theorem picked_const (p : α → Bool) (rows : List α) : picked (fun _ => p) rows = rows.filter p := by
  induction rows with
  | nil => rfl
  | cons x rows ih =>
    show (if p x then x :: picked (fun _ => p) rows else picked (fun _ => p) rows) = _
    rw [ih, List.filter_cons]

theorem sum_picked_append (p : Nat → α → Bool) (rows : List α) (x : α) (f : α → Nat) :
    ((picked p (rows ++ [x])).map f).sum ≤ ((picked p rows).map f).sum + f x := by
  induction rows generalizing p with
  | nil =>
    show ((if p 0 x then [x] else []).map f).sum ≤ 0 + f x
    split <;> simp
  | cons y rows ih =>
    have hrest := ih fun k => p (k + 1)
    simp only [List.cons_append, picked]
    split
    · simp only [List.map_cons, List.sum_cons]
      omega
    · exact hrest

/-- The sum over the picked rows does not grow when every row picked afterwards was picked before,
    with at least its value. -/
theorem sum_picked_le {p p' : Nat → α → Bool} {rows rows' : List α} {f : α → Nat}
    (h : ∀ ⦃k y⦄, rows'[k]? = some y → p' k y = true →
      ∃ x, rows[k]? = some x ∧ p k x = true ∧ f y ≤ f x) :
    ((picked p' rows').map f).sum ≤ ((picked p rows).map f).sum := by
  induction rows' generalizing p p' rows with
  | nil => exact Nat.zero_le _
  | cons y rows' ih =>
    cases rows with
    | nil =>
      have hnone : ∀ ⦃k z⦄, (y :: rows')[k]? = some z → p' k z = false := by
        intro k z hz
        by_contra hp
        obtain ⟨x, hx, _⟩ := h hz (by simpa using hp)
        simp at hx
      have hrest :
          ((picked (fun k => p' (k + 1)) rows').map f).sum ≤ ((picked p []).map f).sum := by
        apply ih
        intro k z hz hp
        rw [hnone (k := k + 1) hz] at hp
        cases hp
      have hhead := hnone (k := 0) rfl
      simpa [picked, hhead] using hrest
    | cons x rows =>
      have hrest : ((picked (fun k => p' (k + 1)) rows').map f).sum ≤
          ((picked (fun k => p (k + 1)) rows).map f).sum := by
        apply ih
        intro k z hz hp
        exact h (k := k + 1) hz hp
      simp only [picked]
      by_cases hy : p' 0 y = true
      · obtain ⟨x', hx', hp, hle⟩ := h (k := 0) rfl hy
        obtain rfl : x = x' := Option.some.inj hx'
        simp only [hy, hp, if_true, List.map_cons, List.sum_cons]
        omega
      · simp only [hy, if_false, Bool.false_eq_true]
        split
        · simp only [List.map_cons, List.sum_cons]
          omega
        · exact hrest

end Picked

/-! ## The reserve -/

/-- The investment that the thread will confirm without another look at its status. -/
def Pc.confirms : Pc → Option Nat
  | .updateStatus id | .findTotal id | .updateTotal id _ | .commit id _ => some id
  | .submit id _ | .updateConfirmed id _ => some id
  | .markDone id attempt => if attempt + 1 < maxRetries then some id else none
  | _ => none

def Investment.isLive (i : Investment) : Bool := i.status = .pending ∨ i.status = .confirmed

/-- The investment is confirmed, or can still become so. -/
def System.mayConfirm (s : System) (id : Nat) (i : Investment) : Bool :=
  i.isLive ∨ ∃ pc ∈ s.threads, pc.confirms = some id

def System.reserved (s : System) : List Investment := picked s.mayConfirm s.db.investments

/-- The confirmed investments stay within the deal's value and its tokens. -/
def FundedWithin (s : System) : Prop :=
  totalUsd s.db.confirmed ≤ s.db.deal.totalValue ∧
    totalTokens s.db.confirmed ≤ s.db.deal.tokenCount

instance (s : System) : Decidable (FundedWithin s) := inferInstanceAs (Decidable (_ ∧ _))

/-- If `createInvestment` accepts its investment now, then also beside all that may be confirmed. -/
def Pc.CountsReserved (s : System) : Pc → Prop
  | .findConfirmed tradeDeal _ dto =>
    (checkInvestment tradeDeal s.db.confirmed dto).isOk = true →
      (checkInvestment tradeDeal s.reserved dto).isOk = true
  | _ => True

instance (s : System) : ∀ pc : Pc, Decidable (pc.CountsReserved s)
  | .findConfirmed _ _ _ => inferInstanceAs (Decidable (_ → _))
  | .lockDeal _ _ | .insert _ _ | .readToConfirm _ _ | .updateStatus _ | .findTotal _
  | .updateTotal _ _ | .commit _ _ | .readToFund _ _ | .enqueue _ | .fundStellar _ _
  | .readToCancel _ _ | .cancel _ | .readToProcess _ | .submit _ _ | .updateConfirmed _ _
  | .markDone _ _ | .updateFailed _ | .finished => isTrue trivial

def CountsReserved (s : System) : Action → Prop
  | .run w _ => ∀ pc ∈ s.threads[w]?, pc.CountsReserved s
  | _ => True

instance (s : System) : ∀ a : Action, Decidable (CountsReserved s a)
  | .run w _ => inferInstanceAs (Decidable (∀ pc ∈ s.threads[w]?, _))
  | .createInvestment _ _ | .confirmInvestment _ _ _ | .fundEscrow _ _
  | .requestCoolingOffCancel _ _ | .deliver _ | .stellar _ _ | .quit _ | .wait _ => isTrue trivial

/-! ## Checks -/

/-- `tokens` more and `units` more still fit the deal beside these investments. -/
def HasRoom (tradeDeal : TradeDeal) (investments : List Investment) (tokens units : Nat) : Prop :=
  totalUsd investments + units ≤ tradeDeal.totalValue ∧
    totalTokens investments + tokens ≤ tradeDeal.tokenCount

/-- Rounding to the column does not carry an amount beyond a whole number of units. -/
theorem toFixed7_le {x : Rat} {n : Nat} (h : x ≤ n) : (Stellar.toFixed7 x).toNat ≤ n := by
  rw [Int.toNat_le]
  unfold Stellar.toFixed7
  split
  · have hlt : ⌊x + 1 / 2⌋ < (n : Int) + 1 := by
      rw [Int.floor_lt]
      push_cast
      linarith
    omega
  · next hneg =>
    have hpos : 0 ≤ ⌊-x + 1 / 2⌋ := Int.floor_nonneg.mpr (by linarith)
    omega

theorem hasRoom_of_check {tradeDeal : TradeDeal} {rows : List Investment}
    {dto : CreateInvestmentDto} (h : (checkInvestment tradeDeal rows dto).isOk = true) :
    HasRoom tradeDeal rows dto.tokenAmount (Stellar.toFixed7 dto.amountUsd).toNat := by
  cases hc : checkInvestment tradeDeal rows dto with
  | error e =>
    rw [hc] at h
    cases h
  | ok _ =>
    obtain ⟨htokens, hc⟩ := failIf_bind_eq_ok.mp hc
    obtain ⟨_, hlot, hc⟩ := bind_eq_ok.mp hc
    obtain ⟨hmin, _⟩ := failIf_bind_eq_ok.mp hlot
    have husd := not_lt.mp (failIf_eq_ok.mp hc)
    constructor
    · have hnonneg : 0 ≤ dto.amountUsd := le_trans (Nat.cast_nonneg _) (not_lt.mp hmin)
      have hrows : totalUsd rows ≤ tradeDeal.totalValue := by
        have hcast : (totalUsd rows : Rat) ≤ tradeDeal.totalValue := by linarith
        exact_mod_cast hcast
      have hleft : dto.amountUsd ≤ ((tradeDeal.totalValue - totalUsd rows : Nat) : Rat) := by
        rw [Nat.cast_sub hrows]
        linarith
      have hround := toFixed7_le hleft
      omega
    · omega

/-! ## One command -/

variable {db db' : Database} {pc pc' : Pc} {o : Outcome} {coolingOffHours : Nat}

/-- What a command of a thread at `pc` leaves as it was. Of the investments it can open at most the
    one that the thread confirms. -/
structure Keeps (pc : Pc) (db db' : Database) : Prop where
  totalValue : db'.deal.totalValue = db.deal.totalValue
  tokenCount : db'.deal.tokenCount = db.deal.tokenCount
  row : ∀ ⦃id i'⦄, db'.investments[id]? = some i' → ∃ i, db.investments[id]? = some i ∧
    i'.amountUsd = i.amountUsd ∧ i'.tokenAmount = i.tokenAmount ∧
      (i'.isLive = true → i.isLive = true ∨ pc.confirms = some id)

theorem Keeps.refl (pc : Pc) (db : Database) : Keeps pc db db := by
  refine ⟨rfl, rfl, ?_⟩
  intro id i hi
  exact ⟨i, hi, rfl, rfl, .inl⟩

theorem Keeps.setStatus {id : Nat} {status : InvestmentStatus}
    (h : status = .confirmed → pc.confirms = some id) (hp : status ≠ .pending) :
    Keeps pc db (db.setStatus id status) := by
  refine ⟨rfl, rfl, ?_⟩
  intro id' i' hi'
  change (db.investments.modify id _)[id']? = some i' at hi'
  rw [List.getElem?_modify] at hi'
  obtain ⟨i, hi, rfl⟩ := Option.map_eq_some_iff.mp hi'
  by_cases hid : id = id'
  · subst hid
    refine ⟨i, hi, by simp, by simp, ?_⟩
    intro hlive
    have hconf : status = .confirmed := by
      simpa [Investment.isLive, hp] using hlive
    exact .inr (h hconf)
  · simp only [hid, if_false]
    exact ⟨i, hi, rfl, rfl, .inl⟩

theorem Keeps.written (h : Keeps pc db db') : Keeps pc db (written db db' o) := by
  cases o with
  | ok => exact h
  | fail => exact .refl pc db
  | lost => exact h

theorem Keeps.cancel (pc : Pc) (db : Database) (id : Nat) : Keeps pc db (db.cancel id) := by
  unfold Database.cancel
  split
  · exact .setStatus (by simp) (by simp)
  · exact .refl pc db

theorem Keeps.confirm {id total : Nat} (h : pc.confirms = some id) :
    Keeps pc db (db.confirm id total) := by
  have hrow : Keeps pc db (db.setStatus id .confirmed) := .setStatus (fun _ => h) (by simp)
  exact ⟨rfl, rfl, hrow.row⟩

/-- Where a thread can go on from `pc`. -/
structure Goes (db : Database) (pc pc' : Pc) : Prop where
  confirms : ∀ ⦃id⦄, pc'.confirms = some id → pc.confirms = some id ∨ db.isPending id = true
  holdsDeal : pc'.holdsDeal = true →
    pc.holdsDeal = true ∨ ∀ holder : Pc, pc.waitsFor holder = holder.holdsDeal
  findConfirmed : ∀ ⦃tradeDeal investorId dto⦄, pc' = .findConfirmed tradeDeal investorId dto →
    tradeDeal = db.deal
  insert : ∀ ⦃investorId dto⦄, pc' = .insert investorId dto →
    ∃ tradeDeal, pc = .findConfirmed tradeDeal investorId dto ∧
      (checkInvestment tradeDeal db.confirmed dto).isOk = true

/-- A thread that does not hold the deal afterwards. -/
theorem Goes.of_free (hfree : pc'.holdsDeal = false)
    (h : ∀ ⦃id⦄, pc'.confirms = some id → pc.confirms = some id ∨ db.isPending id = true) :
    Goes db pc pc' := by
  refine ⟨h, ?_, ?_, ?_⟩
  · intro hholds
    simp [hfree] at hholds
  · rintro tradeDeal investorId dto rfl
    cases hfree
  · rintro investorId dto rfl
    cases hfree

/-- A thread that holds nothing and confirms nothing without another look. -/
theorem Goes.of_idle (hfree : pc'.holdsDeal = false) (h : pc'.confirms = none) :
    Goes db pc pc' := by
  apply Goes.of_free hfree
  intro id hid
  simp [h] at hid

theorem Goes.finished (db : Database) (pc : Pc) : Goes db pc .finished := .of_idle rfl rfl

theorem Goes.onOk (h : Goes db pc pc') : Goes db pc (onOk pc' o) := by
  cases o with
  | ok => exact h
  | fail => exact .finished db pc
  | lost => exact .finished db pc

theorem goes_lockedDeal (investorId : Nat) (dto : CreateInvestmentDto) :
    Goes db (.lockDeal investorId dto) (lockedDeal db.deal investorId dto) := by
  unfold lockedDeal
  split
  · constructor
    case confirms =>
      intro id hid
      cases hid
    case holdsDeal =>
      intro _
      exact .inr fun _ => rfl
    case findConfirmed =>
      intro tradeDeal investorId' dto' heq
      cases heq
      rfl
    case insert =>
      intro investorId' dto' heq
      cases heq
  · exact .finished db _

theorem goes_counted (tradeDeal : TradeDeal) (investorId : Nat) (dto : CreateInvestmentDto) :
    Goes db (.findConfirmed tradeDeal investorId dto)
      (counted tradeDeal db.confirmed investorId dto) := by
  unfold counted
  split
  · next hok =>
    constructor
    case confirms =>
      intro id hid
      cases hid
    case holdsDeal =>
      intro _
      exact .inl rfl
    case findConfirmed =>
      intro tradeDeal' investorId' dto' heq
      cases heq
    case insert =>
      intro investorId' dto' heq
      cases heq
      exact ⟨tradeDeal, rfl, hok⟩
  · exact .finished db _

theorem goes_commit (id total : Nat) : Goes db (.updateTotal id total) (.commit id total) := by
  constructor
  case confirms =>
    intro id' hid
    exact .inl hid
  case holdsDeal =>
    intro _
    exact .inr fun _ => rfl
  case findConfirmed =>
    intro tradeDeal investorId dto heq
    cases heq
  case insert =>
    intro investorId dto heq
    cases heq

theorem retry_free (id attempt : Nat) : (retry id attempt).holdsDeal = false ∧
    ∀ ⦃id'⦄, (retry id attempt).confirms = some id' → id' = id ∧ attempt + 1 < maxRetries := by
  unfold retry
  split
  · next hlt =>
    refine ⟨rfl, ?_⟩
    rintro id' ⟨⟩
    exact ⟨rfl, hlt⟩
  · refine ⟨rfl, ?_⟩
    intro id' hid
    cases hid

theorem goes_retry {id attempt : Nat}
    (h : attempt + 1 < maxRetries → pc.confirms = some id) : Goes db pc (retry id attempt) := by
  obtain ⟨hfree, hconfirms⟩ := retry_free id attempt
  apply Goes.of_free hfree
  intro id' hid
  obtain ⟨rfl, hlt⟩ := hconfirms hid
  exact .inl (h hlt)

theorem goes_funding (id : Nat) (signed : Bool) : Goes db pc (funding db id signed) := by
  unfold funding
  split
  · exact .finished db pc
  · split
    · exact .finished db pc
    · split <;> exact .of_idle rfl rfl

theorem isPending_of_isPendingOf {investorId id : Nat} (h : db.isPendingOf investorId id = true) :
    db.isPending id = true := by
  unfold Database.isPending
  unfold Database.isPendingOf at h
  cases hi : db.investments[id]? with
  | none => simp [hi] at h
  | some i =>
    simp only [hi, Option.any_some, decide_eq_true_eq] at h ⊢
    exact h.2

/-- One database command: an insertion, or nothing that opens an investment. -/
theorem stepDb_cases (h : stepDb coolingOffHours db o pc = some (db', pc')) :
    (∃ investorId dto, pc = .insert investorId dto ∧
      db' = written db (db.insert investorId dto) o ∧ pc' = .finished) ∨
    Keeps pc db db' ∧ Goes db pc pc' := by
  cases pc with
  | fundStellar => cases h
  | submit => cases h
  | finished => cases h
  | insert investorId dto =>
    obtain ⟨rfl, rfl⟩ := Prod.mk.inj (Option.some.inj h)
    exact .inl ⟨investorId, dto, rfl, rfl, rfl⟩
  | lockDeal investorId dto =>
    obtain ⟨rfl, rfl⟩ := Prod.mk.inj (Option.some.inj h)
    exact .inr ⟨.refl _ db, (goes_lockedDeal investorId dto).onOk⟩
  | findConfirmed tradeDeal investorId dto =>
    obtain ⟨rfl, rfl⟩ := Prod.mk.inj (Option.some.inj h)
    exact .inr ⟨.refl _ db, (goes_counted tradeDeal investorId dto).onOk⟩
  | readToConfirm investorId id =>
    obtain ⟨rfl, rfl⟩ := Prod.mk.inj (Option.some.inj h)
    refine .inr ⟨.refl _ db, Goes.onOk ?_⟩
    split
    · next hp =>
      apply Goes.of_free rfl
      rintro id' ⟨⟩
      exact .inr (isPending_of_isPendingOf hp)
    · exact .finished db _
  | updateStatus id =>
    obtain ⟨rfl, rfl⟩ := Prod.mk.inj (Option.some.inj h)
    exact .inr ⟨.refl _ db, Goes.onOk (.of_free rfl fun _ hid => .inl hid)⟩
  | findTotal id =>
    obtain ⟨rfl, rfl⟩ := Prod.mk.inj (Option.some.inj h)
    exact .inr ⟨.refl _ db, Goes.onOk (.of_free rfl fun _ hid => .inl hid)⟩
  | updateTotal id total =>
    obtain ⟨rfl, rfl⟩ := Prod.mk.inj (Option.some.inj h)
    exact .inr ⟨.refl _ db, (goes_commit id total).onOk⟩
  | commit id total =>
    obtain ⟨rfl, rfl⟩ := Prod.mk.inj (Option.some.inj h)
    exact .inr ⟨(Keeps.confirm rfl).written, .finished db _⟩
  | readToFund id signed =>
    obtain ⟨rfl, rfl⟩ := Prod.mk.inj (Option.some.inj h)
    exact .inr ⟨.refl _ db, (goes_funding id signed).onOk⟩
  | enqueue id =>
    obtain ⟨rfl, rfl⟩ := Prod.mk.inj (Option.some.inj h)
    have hrows : Keeps (.enqueue id) db (db.enqueue id) := ⟨rfl, rfl, (Keeps.refl _ db).row⟩
    exact .inr ⟨hrows.written, .finished db _⟩
  | readToCancel investorId id =>
    obtain ⟨rfl, rfl⟩ := Prod.mk.inj (Option.some.inj h)
    refine .inr ⟨.refl _ db, Goes.onOk ?_⟩
    split <;> exact .of_idle rfl rfl
  | cancel id =>
    obtain ⟨rfl, rfl⟩ := Prod.mk.inj (Option.some.inj h)
    exact .inr ⟨(Keeps.cancel _ db id).written, .finished db _⟩
  | readToProcess id =>
    obtain ⟨rfl, rfl⟩ := Prod.mk.inj (Option.some.inj h)
    refine .inr ⟨.refl _ db, Goes.onOk ?_⟩
    split
    · next hp =>
      apply Goes.of_free rfl
      rintro id' ⟨⟩
      exact .inr hp
    · exact .finished db _
  | updateConfirmed id attempt =>
    obtain ⟨rfl, rfl⟩ := Prod.mk.inj (Option.some.inj h)
    refine .inr ⟨(Keeps.setStatus (fun _ => rfl) (by simp)).written, ?_⟩
    split
    · apply Goes.of_free rfl
      intro id' hid
      simp only [Pc.confirms] at hid
      split at hid
      · exact .inl hid
      · cases hid
    · exact goes_retry fun _ => rfl
  | markDone id attempt =>
    obtain ⟨rfl, rfl⟩ := Prod.mk.inj (Option.some.inj h)
    refine .inr ⟨.refl _ db, ?_⟩
    split
    · exact .finished db _
    · exact goes_retry fun hlt => if_pos hlt
  | updateFailed id =>
    obtain ⟨rfl, rfl⟩ := Prod.mk.inj (Option.some.inj h)
    exact .inr ⟨(Keeps.setStatus (by simp) (by simp)).written, .finished db _⟩

/-! ## One step -/

variable {s s' : System} {a : Action} {w : Nat}

/-- A step that inserts no investment: a thread joins, goes on with its next command, or the clock
    runs. -/
inductive Moves (s : System) : Action → System → Prop
  | join {a : Action} {pc : Pc} (hfree : pc.holdsDeal = false) (hidle : pc.confirms = none) :
      Moves s a (s.join pc)
  | run {w : Nat} {o : Outcome} {pc pc' : Pc} {db : Database} (hpc : s.threads[w]? = some pc)
      (hlocks : ∀ holder ∈ s.threads, pc.waitsFor holder = false) (hkeeps : Keeps pc s.db db)
      (hgoes : Goes s.db pc pc') :
      Moves s (.run w o) { s with db, threads := s.threads.set w pc' }
  | go {a : Action} {w : Nat} {pc pc' : Pc} (hpc : s.threads[w]? = some pc)
      (hfree : pc'.holdsDeal = false)
      (hconfirms : ∀ ⦃id⦄, pc'.confirms = some id → pc.confirms = some id) :
      Moves s a { s with threads := s.threads.set w pc' }
  | wait {a : Action} (now : Nat) : Moves s a { s with db := { s.db with now } }

/-- The state that an insertion of thread `w` leads to. -/
def System.inserted (s : System) (w investorId : Nat) (dto : CreateInvestmentDto) (o : Outcome) :
    System :=
  { s with db := written s.db (s.db.insert investorId dto) o, threads := s.threads.set w .finished }

theorem confirming_idle (investorId id : Nat) (stellarTxId : List Char) :
    (confirming investorId id stellarTxId).holdsDeal = false ∧
      (confirming investorId id stellarTxId).confirms = none := by
  unfold confirming
  split
  · exact ⟨rfl, rfl⟩
  · exact ⟨rfl, rfl⟩

theorem stepStellar_free {answer : Option (List Char)} (h : stepStellar answer pc = some pc') :
    pc'.holdsDeal = false ∧ ∀ ⦃id⦄, pc'.confirms = some id → pc.confirms = some id := by
  cases pc with
  | fundStellar investorId id =>
    obtain rfl := Option.some.inj h
    cases answer with
    | none => exact ⟨rfl, fun id hid => by cases hid⟩
    | some hash =>
      have hidle := confirming_idle investorId id hash
      exact ⟨hidle.1, fun id hid => by simp [hidle.2] at hid⟩
  | submit id attempt =>
    obtain rfl := Option.some.inj h
    cases answer with
    | none =>
      obtain ⟨hfree, hconfirms⟩ := retry_free id attempt
      refine ⟨hfree, ?_⟩
      intro id' hid
      rw [(hconfirms hid).1]
      rfl
    | some hash => exact ⟨rfl, fun id hid => hid⟩
  | _ => cases h

theorem next_cases (h : next s a = some s') :
    (∃ w o investorId dto, a = .run w o ∧ s.threads[w]? = some (.insert investorId dto) ∧
      s' = s.inserted w investorId dto o) ∨
    Moves s a s' := by
  cases a with
  | createInvestment investorId dto =>
    obtain rfl := Option.some.inj h
    exact .inr (.join rfl rfl)
  | confirmInvestment investorId id stellarTxId =>
    obtain rfl := Option.some.inj h
    have hidle := confirming_idle investorId id stellarTxId
    exact .inr (.join hidle.1 hidle.2)
  | fundEscrow id signed =>
    obtain rfl := Option.some.inj h
    exact .inr (.join rfl rfl)
  | requestCoolingOffCancel investorId id =>
    obtain rfl := Option.some.inj h
    exact .inr (.join rfl rfl)
  | deliver n =>
    obtain ⟨id, _, h⟩ := Option.bind_eq_some_iff.mp h
    obtain rfl := Option.some.inj h
    exact .inr (.join rfl rfl)
  | run w o =>
    obtain ⟨pc, hpc, h⟩ := Option.bind_eq_some_iff.mp h
    split at h
    · cases h
    · next hlocks =>
      obtain ⟨⟨db, pc'⟩, hstep, h⟩ := Option.bind_eq_some_iff.mp h
      obtain rfl := Option.some.inj h
      rcases stepDb_cases hstep with ⟨investorId, dto, rfl, rfl, rfl⟩ | ⟨hkeeps, hgoes⟩
      · exact .inl ⟨w, o, investorId, dto, rfl, hpc, rfl⟩
      · refine .inr (.run hpc ?_ hkeeps hgoes)
        intro holder hmem
        by_contra hwaits
        exact hlocks (List.any_eq_true.mpr ⟨holder, hmem, by simpa using hwaits⟩)
  | stellar w answer =>
    obtain ⟨pc, hpc, h⟩ := Option.bind_eq_some_iff.mp h
    obtain ⟨pc', hstep, h⟩ := Option.bind_eq_some_iff.mp h
    obtain rfl := Option.some.inj h
    obtain ⟨hfree, hconfirms⟩ := stepStellar_free hstep
    exact .inr (.go hpc hfree hconfirms)
  | quit w =>
    obtain ⟨pc, hpc, h⟩ := Option.bind_eq_some_iff.mp h
    obtain rfl := Option.some.inj h
    exact .inr (.go hpc rfl fun id hid => by cases hid)
  | wait ms =>
    obtain rfl := Option.some.inj h
    exact .inr (.wait _)

/-! ## The reserve along a step -/

/-- The deal is the same, and what may be confirmed adds up to no more. -/
structure Shrinks (s s' : System) : Prop where
  totalValue : s'.db.deal.totalValue = s.db.deal.totalValue
  tokenCount : s'.db.deal.tokenCount = s.db.deal.tokenCount
  usd : totalUsd s'.reserved ≤ totalUsd s.reserved
  tokens : totalTokens s'.reserved ≤ totalTokens s.reserved

/-- Every investment that may be confirmed afterwards could be confirmed before. -/
theorem shrinks_of_rows (hvalue : s'.db.deal.totalValue = s.db.deal.totalValue)
    (hcount : s'.db.deal.tokenCount = s.db.deal.tokenCount)
    (hrow : ∀ ⦃id i'⦄, s'.db.investments[id]? = some i' → s'.mayConfirm id i' = true →
      ∃ i, s.db.investments[id]? = some i ∧ s.mayConfirm id i = true ∧
        i'.amountUsd = i.amountUsd ∧ i'.tokenAmount = i.tokenAmount) : Shrinks s s' := by
  refine ⟨hvalue, hcount, ?_, ?_⟩
  · apply sum_picked_le
    intro id i' hi' hmay
    obtain ⟨i, hi, hmay, husd, _⟩ := hrow hi' hmay
    exact ⟨i, hi, hmay, husd.le⟩
  · apply sum_picked_le
    intro id i' hi' hmay
    obtain ⟨i, hi, hmay, _, htokens⟩ := hrow hi' hmay
    exact ⟨i, hi, hmay, htokens.le⟩

theorem mayConfirm_iff {id : Nat} {i : Investment} : s.mayConfirm id i = true ↔
    i.isLive = true ∨ ∃ pc ∈ s.threads, pc.confirms = some id := by
  unfold System.mayConfirm
  rw [decide_eq_true_eq]

theorem mayConfirm_of_thread {id : Nat} (i : Investment) (hpc : s.threads[w]? = some pc)
    (h : pc.confirms = some id) : s.mayConfirm id i = true :=
  mayConfirm_iff.mpr (.inr ⟨pc, List.mem_of_getElem? hpc, h⟩)

/-- A thread that still confirms the investment once `w` has gone on to `pc'` did so before, or is
    `w`. -/
theorem mayConfirm_of_mem_set {id : Nat} {i : Investment} {holder : Pc}
    (hmem : holder ∈ s.threads.set w pc') (hid : holder.confirms = some id)
    (hgo : pc'.confirms = some id → s.mayConfirm id i = true) : s.mayConfirm id i = true := by
  rcases List.mem_or_eq_of_mem_set hmem with hmem | rfl
  · exact mayConfirm_iff.mpr (.inr ⟨holder, hmem, hid⟩)
  · exact hgo hid

theorem isLive_of_isPending {id : Nat} {i : Investment} (hi : s.db.investments[id]? = some i)
    (h : s.db.isPending id = true) : i.isLive = true := by
  unfold Database.isPending at h
  simp only [hi, Option.any_some, decide_eq_true_eq] at h
  simp [Investment.isLive, h]

theorem Moves.shrinks (h : Moves s a s') : Shrinks s s' := by
  cases h with
  | join hfree hidle =>
    refine shrinks_of_rows rfl rfl ?_
    intro id i hi hmay
    refine ⟨i, hi, ?_, rfl, rfl⟩
    rcases mayConfirm_iff.mp hmay with hlive | ⟨pc, hmem, hid⟩
    · exact mayConfirm_iff.mpr (.inl hlive)
    · rcases List.mem_append.mp hmem with hmem | hmem
      · exact mayConfirm_iff.mpr (.inr ⟨pc, hmem, hid⟩)
      · rw [List.mem_singleton.mp hmem, hidle] at hid
        cases hid
  | run hpc hlocks hkeeps hgoes =>
    apply shrinks_of_rows hkeeps.totalValue hkeeps.tokenCount
    intro id i' hi' hmay
    obtain ⟨i, hi, husd, htokens, hopens⟩ := hkeeps.row hi'
    refine ⟨i, hi, ?_, husd, htokens⟩
    rcases mayConfirm_iff.mp hmay with hlive | ⟨pc, hmem, hid⟩
    · rcases hopens hlive with hlive | hid
      · exact mayConfirm_iff.mpr (.inl hlive)
      · exact mayConfirm_of_thread i hpc hid
    · apply mayConfirm_of_mem_set hmem hid
      intro hid
      rcases hgoes.confirms hid with hid | hp
      · exact mayConfirm_of_thread i hpc hid
      · exact mayConfirm_iff.mpr (.inl (isLive_of_isPending hi hp))
  | go hpc hfree hconfirms =>
    refine shrinks_of_rows rfl rfl ?_
    intro id i hi hmay
    refine ⟨i, hi, ?_, rfl, rfl⟩
    rcases mayConfirm_iff.mp hmay with hlive | ⟨pc, hmem, hid⟩
    · exact mayConfirm_iff.mpr (.inl hlive)
    · exact mayConfirm_of_mem_set hmem hid fun hid => mayConfirm_of_thread i hpc (hconfirms hid)
  | wait now => exact shrinks_of_rows rfl rfl fun id i hi hmay => ⟨i, hi, hmay, rfl, rfl⟩

/-- What an insertion adds to a sum over the reserve. -/
theorem sum_reserved_inserted (f : Investment → Nat) (investorId : Nat) (dto : CreateInvestmentDto)
    (o : Outcome) :
    ((s.inserted w investorId dto o).reserved.map f).sum ≤ (s.reserved.map f).sum +
      f ⟨investorId, dto.tokenAmount, (Stellar.toFixed7 dto.amountUsd).toNat, .pending,
        s.db.now⟩ := by
  let s' := s.inserted w investorId dto o
  have hold : ((picked s'.mayConfirm s.db.investments).map f).sum ≤ (s.reserved.map f).sum := by
    apply sum_picked_le
    intro id i hi hmay
    refine ⟨i, hi, ?_, le_rfl⟩
    rcases mayConfirm_iff.mp hmay with hlive | ⟨pc, hmem, hid⟩
    · exact mayConfirm_iff.mpr (.inl hlive)
    · exact mayConfirm_of_mem_set hmem hid fun hid => by cases hid
  cases o with
  | fail => exact le_trans hold (Nat.le_add_right _ _)
  | ok => exact le_trans (sum_picked_append _ _ _ f) (Nat.add_le_add_right hold _)
  | lost => exact le_trans (sum_picked_append _ _ _ f) (Nat.add_le_add_right hold _)

/-! ## The invariant -/

/-- What holds of a thread between the check and the insertion. -/
def Pc.Ok (s : System) : Pc → Prop
  | .findConfirmed tradeDeal _ _ =>
    tradeDeal.totalValue = s.db.deal.totalValue ∧ tradeDeal.tokenCount = s.db.deal.tokenCount
  | .insert _ dto =>
    HasRoom s.db.deal s.reserved dto.tokenAmount (Stellar.toFixed7 dto.amountUsd).toNat
  | _ => True

theorem Pc.Ok.of_free (s : System) (h : pc.holdsDeal = false) : pc.Ok s := by
  cases pc with
  | findConfirmed => cases h
  | insert => cases h
  | _ => trivial

structure Funded (s : System) : Prop where
  /-- The lock of the deal's row. -/
  alone : AtMostOneInside (fun pc : Pc => pc.holdsDeal = true) s.threads
  threads : ∀ pc ∈ s.threads, pc.Ok s
  room : HasRoom s.db.deal s.reserved 0 0

theorem HasRoom.shrinks {tokens units : Nat} (h : HasRoom s.db.deal s.reserved tokens units)
    (hs : Shrinks s s') : HasRoom s'.db.deal s'.reserved tokens units := by
  obtain ⟨husd, htokens⟩ := h
  obtain ⟨hvalue, hcount, husd', htokens'⟩ := hs
  exact ⟨by omega, by omega⟩

theorem Pc.Ok.shrinks (h : pc.Ok s) (hs : Shrinks s s') : pc.Ok s' := by
  cases pc with
  | findConfirmed tradeDeal investorId dto =>
    exact ⟨h.1.trans hs.totalValue.symm, h.2.trans hs.tokenCount.symm⟩
  | insert investorId dto => exact HasRoom.shrinks h hs
  | _ => trivial

theorem hasRoom_inserted {investorId : Nat} {dto : CreateInvestmentDto} (o : Outcome)
    (h : HasRoom s.db.deal s.reserved dto.tokenAmount (Stellar.toFixed7 dto.amountUsd).toNat) :
    HasRoom (s.inserted w investorId dto o).db.deal (s.inserted w investorId dto o).reserved 0
      0 := by
  have hdeal : (s.inserted w investorId dto o).db.deal = s.db.deal := by
    cases o <;> rfl
  obtain ⟨husd, htokens⟩ := h
  constructor
  · have hsum := sum_reserved_inserted (s := s) (w := w) Investment.amountUsd investorId dto o
    rw [hdeal]
    exact le_trans hsum husd
  · have hsum := sum_reserved_inserted (s := s) (w := w) Investment.tokenAmount investorId dto o
    rw [hdeal]
    exact le_trans hsum htokens

/-- Nobody else stands between the check and the insertion when the investment is inserted. -/
theorem Funded.inserted {investorId : Nat} {dto : CreateInvestmentDto} (h : Funded s)
    (hpc : s.threads[w]? = some (.insert investorId dto)) (o : Outcome) :
    Funded (s.inserted w investorId dto o) := by
  have hfree : ∀ ⦃v pc⦄, s.threads[v]? = some pc → v ≠ w → pc.holdsDeal = false := by
    intro v pc hv hne
    have hnot := h.alone.others hpc rfl hv hne
    simpa using hnot
  constructor
  case alone =>
    exact h.alone.set hpc fun hholds => by cases hholds
  case threads =>
    apply forall_mem_set
    · intro v pc hv hne
      exact .of_free _ (hfree hv hne)
    · trivial
  case room =>
    exact hasRoom_inserted o (h.threads _ (List.mem_of_getElem? hpc))

/-- The check that lets a thread insert was made beside all that may be confirmed. -/
theorem Goes.ok {w : Nat} {o : Outcome} (hgoes : Goes s.db pc pc') (h : pc.Ok s)
    (hpc : s.threads[w]? = some pc) (hfit : CountsReserved s (.run w o)) : pc'.Ok s := by
  cases pc' with
  | findConfirmed tradeDeal investorId dto =>
    obtain rfl := hgoes.findConfirmed rfl
    exact ⟨rfl, rfl⟩
  | insert investorId dto =>
    obtain ⟨tradeDeal, rfl, hok⟩ := hgoes.insert rfl
    obtain ⟨hvalue, hcount⟩ := h
    have hcounted := hfit _ hpc hok
    obtain ⟨husd, htokens⟩ := hasRoom_of_check hcounted
    rw [hvalue] at husd
    rw [hcount] at htokens
    exact ⟨husd, htokens⟩
  | _ => trivial

theorem Funded.moves (h : Funded s) (hm : Moves s a s') (hfit : CountsReserved s a) :
    Funded s' := by
  have hs := hm.shrinks
  have hroom := HasRoom.shrinks h.room hs
  have hthreads : ∀ pc ∈ s.threads, pc.Ok s' := fun pc hmem => (h.threads pc hmem).shrinks hs
  cases hm with
  | join hfree hidle =>
    have hout := h.alone.append (x := _) (by simpa using hfree)
    exact ⟨hout, forall_mem_append hthreads (.of_free _ hfree), hroom⟩
  | run hpc hlocks hkeeps hgoes =>
    have hok := h.threads _ (List.mem_of_getElem? hpc)
    refine ⟨h.alone.set hpc ?_, ?_, hroom⟩
    · intro hholds
      rcases hgoes.holdsDeal hholds with hheld | hwaits
      · exact .inl hheld
      · right
        intro v holder hv _ hholder
        have hfree := hlocks holder (List.mem_of_getElem? hv)
        rw [hwaits holder, hholder] at hfree
        cases hfree
    · exact forall_mem_set (others_of_forall hthreads) ((hgoes.ok hok hpc hfit).shrinks hs)
  | go hpc hfree hconfirms =>
    refine ⟨h.alone.set hpc ?_, ?_, hroom⟩
    · intro hholds
      simp [hfree] at hholds
    · exact forall_mem_set (others_of_forall hthreads) (.of_free _ hfree)
  | wait now => exact ⟨h.alone, hthreads, hroom⟩

theorem Funded.next (h : Funded s) (hn : next s a = some s') (hfit : CountsReserved s a) :
    Funded s' := by
  rcases next_cases hn with ⟨w, o, investorId, dto, rfl, hpc, rfl⟩ | hm
  · exact h.inserted hpc o
  · exact h.moves hm hfit

/-- The confirmed investments are among those that may be confirmed. -/
theorem sum_confirmed_le (s : System) (f : Investment → Nat) :
    (s.db.confirmed.map f).sum ≤ (s.reserved.map f).sum := by
  unfold Database.confirmed System.reserved
  rw [← picked_const]
  apply sum_picked_le
  intro id i hi hconfirmed
  refine ⟨i, hi, mayConfirm_iff.mpr (.inl ?_), le_rfl⟩
  simp only [decide_eq_true_eq] at hconfirmed
  simp [Investment.isLive, hconfirmed]

theorem Funded.fundedWithin (h : Funded s) : FundedWithin s := by
  obtain ⟨husd, htokens⟩ := h.room
  exact ⟨le_trans (sum_confirmed_le s _) husd, le_trans (sum_confirmed_le s _) htokens⟩

theorem funded_start (deal : TradeDeal) (coolingOffHours : Nat) :
    Funded (start deal coolingOffHours) := by
  refine ⟨atMostOneInside_nil, ?_, ?_⟩
  · intro pc hpc
    cases hpc
  · exact ⟨Nat.zero_le _, Nat.zero_le _⟩

/-! ## Every run -/

/-- In a run in which `createInvestment` accepts nothing that it would refuse beside all that may
    still be confirmed, the confirmed investments stay within the deal. -/
theorem never_over_funded {deal : TradeDeal} {coolingOffHours : Nat}
    {xs : List (Step System Action)} (h : FundingRun deal coolingOffHours xs s)
    (hfit : ∀ x ∈ xs, CountsReserved x.pre x.act) : FundedWithin s := by
  have hinv : Funded s := by
    apply h.invariant Funded (funded_start deal coolingOffHours)
    intro x hx hn hpre
    exact hpre.next hn (hfit x hx)
  exact hinv.fundedWithin

/-- An open deal of 3000 US dollars and 30 tokens. -/
def sampleDeal : TradeDeal :=
  ⟨.opened, 3000 * usd, 30, 0, some "escrow", some "issuer", none, none⟩

def sampleHash : List Char := List.replicate 64 'a'

/-- `createInvestment` by thread `w`, from its call to the insertion. -/
def creation (w investorId tokens dollars : Nat) : List Action :=
  [.createInvestment investorId ⟨tokens, dollars * usd⟩, .run w .ok, .run w .ok, .run w .ok]

/-- `confirmInvestment` by thread `w`, up to its read, and its transaction. -/
def confirmationRead (w investorId id : Nat) : List Action :=
  [.confirmInvestment investorId id sampleHash, .run w .ok]

def confirmationCommit (w : Nat) : List Action :=
  [.run w .ok, .run w .ok, .run w .ok, .run w .ok]

/-- Three investments fill the deal. One is confirmed at once, one although it is cancelled after
    the read, and one by the job. -/
def threeThirds : List Action :=
  creation 0 1 10 1000 ++ creation 1 2 10 1000 ++ creation 2 3 10 1000 ++
    confirmationRead 3 1 0 ++ confirmationCommit 3 ++
    confirmationRead 4 2 1 ++ [.requestCoolingOffCancel 2 1, .run 5 .ok, .run 5 .ok] ++
    confirmationCommit 4 ++
    [.fundEscrow 2 true, .run 6 .ok, .run 6 .ok, .deliver 0, .run 7 .ok, .stellar 7 none,
      .stellar 7 (some sampleHash), .run 7 .ok, .run 7 .ok]

theorem never_over_funded_sample :
    FundedWithin (replay next (start sampleDeal 48) threeThirds).2 ∧
      totalUsd (replay next (start sampleDeal 48) threeThirds).2.db.confirmed = 3000 * usd := by
  have hrun : FundingRun sampleDeal 48 _ _ := run_replay next (start sampleDeal 48) threeThirds
  exact ⟨never_over_funded hrun (by decide +kernel), by decide +kernel⟩

/-- Two investors take the whole deal each, and both are confirmed. -/
def wholeDealTwice : List Action :=
  creation 0 1 30 3000 ++ creation 1 2 30 3000 ++ confirmationRead 2 1 0 ++ confirmationCommit 2 ++
    confirmationRead 3 2 1 ++ confirmationCommit 3

/-- Both limits are exceeded: 6000 US dollars and 60 tokens are confirmed. -/
theorem funded_twice :
    ∃ (deal : TradeDeal) (coolingOffHours : Nat) (xs : List (Step System Action)) (s : System),
      FundingRun deal coolingOffHours xs s ∧ s.db.deal.totalValue < totalUsd s.db.confirmed ∧
        s.db.deal.tokenCount < totalTokens s.db.confirmed := by
  have hrun : FundingRun sampleDeal 48 _ _ := run_replay next (start sampleDeal 48) wholeDealTwice
  exact ⟨sampleDeal, 48, _, _, hrun, by decide +kernel, by decide +kernel⟩

end AgriFi.Investments
