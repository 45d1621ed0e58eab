import AgriFi.Stellar.EscrowRelease
import Mathlib.Algebra.Order.Floor.Ring
import Mathlib.Algebra.Order.BigOperators.Group.List
import Mathlib.Tactic.Linarith
import Mathlib.Tactic.FieldSimp
import Mathlib.Tactic.Ring

/-
  What the fee retries of `releaseEscrow` do to its payments. Every attempt at a batch adds the
  batch's shares to `distributedToInvestors` again, so a batch that was refused counts more than
  once against the last investor (`releaseBatches_eq_ok`), and a last batch that was refused
  leaves him less than nothing. `release_retry_independent` gives the exact condition under which
  the payments are those of the run without retries and add up to the escrow.
-/

namespace AgriFi.Stellar

open AgriFi.Soroban

variable {Addr σ τ : Type}

/-! ## Submission -/

/-- The accepted transaction is built from the state that the refused attempts left behind. -/
theorem submit_eq_some {build : Nat → σ → τ × σ} {next : σ → σ}
    (hnext : ∀ fee s, (build fee s).2 = next s) {maxFee attempts rejections fee : Nat} {s : σ}
    {res : τ × σ} (h : submitWithFeeBumpRetry build maxFee attempts rejections fee s = some res) :
    ∃ fee', res = build fee' (next^[rejections] s) := by
  induction attempts generalizing rejections fee s with
  | zero => simp [submitWithFeeBumpRetry] at h
  | succ attempts ih =>
    cases rejections with
    | zero => exact ⟨fee, (Option.some.inj h).symm⟩
    | succ rejections =>
      unfold submitWithFeeBumpRetry at h
      split at h
      · rw [hnext] at h
        rw [Function.iterate_succ_apply]
        exact ih h
      · simp at h

/-! ## One batch -/

section Batch

variable {q : ReleaseRequest Addr} {plan : ReleasePlan}

/-- What `l` gets when every share is rounded down. -/
def floorSum (plan : ReleasePlan) (l : List (InvestorShare Addr)) : Int :=
  (l.map (shareStroops plan)).sum

/-- The operations that pay every share of `l` rounded down, `l` starting at `globalIdx`. -/
def floorOperations (q : ReleaseRequest Addr) (plan : ReleasePlan) :
    Nat → List (InvestorShare Addr) → List (Operation Addr)
  | _, [] => []
  | globalIdx, share :: l =>
    shareOperation q globalIdx share (shareStroops plan share) ++
      floorOperations q plan (globalIdx + 1) l

@[simp] theorem floorSum_nil : floorSum plan ([] : List (InvestorShare Addr)) = 0 := rfl

@[simp] theorem floorSum_cons (s : InvestorShare Addr) (l : List (InvestorShare Addr)) :
    floorSum plan (s :: l) = shareStroops plan s + floorSum plan l := rfl

theorem floorSum_append (l l' : List (InvestorShare Addr)) :
    floorSum plan (l ++ l') = floorSum plan l + floorSum plan l' := by
  unfold floorSum
  rw [List.map_append, List.sum_append]

theorem floorOperations_append (i : Nat) (l l' : List (InvestorShare Addr)) :
    floorOperations q plan i (l ++ l') =
      floorOperations q plan i l ++ floorOperations q plan (i + l.length) l' := by
  induction l generalizing i with
  | nil => rfl
  | cons s l ih =>
    rw [List.cons_append, floorOperations, ih, floorOperations, List.append_assoc,
      List.length_cons, Nat.add_right_comm, Nat.add_assoc]

/-- Before the last investor the loop pays floors and adds them up. -/
theorem addShares_of_lt {i : Nat} {l : List (InvestorShare Addr)} (d : Rat)
    (h : i + l.length < q.investorShares.length) :
    addShares q plan i l d = (floorOperations q plan i l, d + floorSum plan l) := by
  induction l generalizing i d with
  | nil => simp [addShares, floorOperations]
  | cons s l ih =>
    rw [List.length_cons] at h
    have hi : i ≠ q.investorShares.length - 1 := by omega
    unfold addShares
    dsimp only
    rw [if_neg hi, ih _ (by omega), floorSum_cons]
    simp [floorOperations, add_assoc]

/-- The last investor gets what is left, after which the whole pool counts as distributed. -/
theorem addShares_last {i : Nat} {l : List (InvestorShare Addr)} (s : InvestorShare Addr) (d : Rat)
    (h : i + l.length + 1 = q.investorShares.length) :
    addShares q plan i (l ++ [s]) d =
      (floorOperations q plan i l ++ shareOperation q (q.investorShares.length - 1) s
        (plan.investorPoolStroops - (d + floorSum plan l)), plan.investorPoolStroops) := by
  induction l generalizing i d with
  | nil =>
    have hi : i = q.investorShares.length - 1 := by simp at h; omega
    simp [addShares, floorOperations, hi]
  | cons s' l ih =>
    rw [List.length_cons] at h
    have hi : i ≠ q.investorShares.length - 1 := by omega
    rw [List.cons_append]
    unfold addShares
    dsimp only
    rw [if_neg hi, ih _ (by omega), floorSum_cons]
    simp [floorOperations, add_assoc]

/-! ### The slices -/

theorem batchCount_pos (q : ReleaseRequest Addr) : 0 < q.batchCount := by
  unfold ReleaseRequest.batchCount
  omega

theorem lt_length_of_lt {b : Nat} (h : b + 1 < q.batchCount) :
    (b + 1) * batchSize < q.investorShares.length := by
  unfold ReleaseRequest.batchCount batchSize at *
  omega

theorem length_le (q : ReleaseRequest Addr) :
    q.investorShares.length ≤ q.batchCount * batchSize := by
  unfold ReleaseRequest.batchCount batchSize
  omega

theorem last_lt_length (hn : q.investorShares ≠ []) :
    (q.batchCount - 1) * batchSize < q.investorShares.length := by
  have hpos := List.length_pos_iff.mpr hn
  unfold ReleaseRequest.batchCount batchSize
  omega

theorem length_batch {b : Nat} (h : b + 1 < q.batchCount) : (q.batch b).length = batchSize := by
  have hlt := lt_length_of_lt h
  unfold ReleaseRequest.batch
  rw [List.length_take, List.length_drop]
  unfold batchSize at *
  omega

theorem drop_eq_batch_append (b : Nat) :
    q.investorShares.drop (b * batchSize) =
      q.batch b ++ q.investorShares.drop ((b + 1) * batchSize) := by
  rw [Nat.succ_mul, ← List.drop_drop]
  exact (List.take_append_drop _ _).symm

/-- The investors of the last batch but the last. -/
def ReleaseRequest.lastFront (q : ReleaseRequest Addr) : List (InvestorShare Addr) :=
  (q.investorShares.drop ((q.batchCount - 1) * batchSize)).dropLast

theorem lastBatch_eq (hn : q.investorShares ≠ []) :
    q.batch (q.batchCount - 1) = q.lastFront ++ [q.investorShares.getLast hn] := by
  have hlt := last_lt_length hn
  have hle := length_le q
  have hpos := batchCount_pos q
  have hne : q.investorShares.drop ((q.batchCount - 1) * batchSize) ≠ [] := by
    rw [Ne, List.drop_eq_nil_iff]
    omega
  have hall : q.batch (q.batchCount - 1) =
      q.investorShares.drop ((q.batchCount - 1) * batchSize) := by
    refine List.take_of_length_le ?_
    rw [List.length_drop]
    unfold batchSize at *
    omega
  rw [hall, ← List.getLast_drop hne]
  exact (List.dropLast_append_getLast hne).symm

/-! ### The transactions -/

theorem buildTx_of_lt {b : Nat} (h : b + 1 < q.batchCount) (fee : Nat) (d : Rat) :
    buildTx q plan b fee d =
      (⟨fee, floorOperations q plan (b * batchSize) (q.batch b)⟩,
        d + floorSum plan (q.batch b)) := by
  have hlt := lt_length_of_lt h
  have hlen := length_batch h
  unfold buildTx
  rw [addShares_of_lt d (by rw [hlen, ← Nat.succ_mul]; exact hlt), if_neg (by omega)]
  simp

theorem buildTx_last (hn : q.investorShares ≠ []) (fee : Nat) (d : Rat) :
    buildTx q plan (q.batchCount - 1) fee d =
      (⟨fee, floorOperations q plan ((q.batchCount - 1) * batchSize) q.lastFront ++
        shareOperation q (q.investorShares.length - 1) (q.investorShares.getLast hn)
          (plan.investorPoolStroops - (d + floorSum plan q.lastFront)) ++
        [.payment q.platformWallet plan.platformStroops]⟩, plan.investorPoolStroops) := by
  have hlt := last_lt_length hn
  have hlen : (q.batchCount - 1) * batchSize + q.lastFront.length + 1 =
      q.investorShares.length := by
    unfold ReleaseRequest.lastFront
    rw [List.length_dropLast, List.length_drop]
    omega
  unfold buildTx
  rw [lastBatch_eq hn, addShares_last _ d hlen, if_pos rfl]

end Batch

/-! ## All batches -/

section Batches

variable {q : ReleaseRequest Addr} {plan : ReleasePlan} {rejections : Nat → Nat}
  {txs : List (Transaction Addr)}

/-- What the refused attempts at the `k` batches from `b` on added to `distributedToInvestors`. -/
def repeated (q : ReleaseRequest Addr) (plan : ReleasePlan) (rejections : Nat → Nat) (b k : Nat) :
    Int :=
  ((List.range' b k).map fun j => rejections j * floorSum plan (q.batch j)).sum

/-- What the last investor's amount is computed as, `d` counting as distributed before batch `b`,
    which `k` batches follow. -/
def lastStroops (q : ReleaseRequest Addr) (plan : ReleasePlan) (rejections : Nat → Nat)
    (b k : Nat) (d : Rat) : Rat :=
  if rejections (q.batchCount - 1) = 0 then
    plan.investorPoolStroops - (d + floorSum plan (q.investorShares.drop (b * batchSize)).dropLast +
      repeated q plan rejections b k)
  else -floorSum plan q.lastFront

/-- The operations of all accepted transactions, in order. -/
def allOperations (txs : List (Transaction Addr)) : List (Operation Addr) :=
  txs.flatMap Transaction.operations

theorem iterate_const_of_ne {c d : Rat} {n : Nat} (h : n ≠ 0) : (fun _ : Rat => c)^[n] d = c := by
  obtain ⟨m, rfl⟩ := Nat.exists_eq_succ_of_ne_zero h
  rw [Function.iterate_succ_apply']

theorem dropLast_drop_eq {b : Nat} (hb : b + 1 < q.batchCount) :
    (q.investorShares.drop (b * batchSize)).dropLast =
      q.batch b ++ (q.investorShares.drop ((b + 1) * batchSize)).dropLast := by
  have hne : q.investorShares.drop ((b + 1) * batchSize) ≠ [] := by
    rw [Ne, List.drop_eq_nil_iff]
    exact (lt_length_of_lt hb).not_ge
  rw [drop_eq_batch_append, List.dropLast_append_of_ne_nil hne]

/-- Once accepted, a batch that is not the last has paid its floors, and it counts once for every
    attempt. -/
theorem releaseBatches_succ {b k : Nat} {d : Rat} (hb : b + 1 < q.batchCount)
    (h : releaseBatches q plan rejections (k + 1) b d = .ok txs) :
    ∃ rest,
      releaseBatches q plan rejections k (b + 1)
        (d + rejections b • (floorSum plan (q.batch b) : Rat) + floorSum plan (q.batch b)) =
          .ok rest ∧
      allOperations txs =
        floorOperations q plan (b * batchSize) (q.batch b) ++ allOperations rest := by
  rw [releaseBatches] at h
  split at h
  · simp at h
  · next tx d' hsubmit =>
    have hnext : ∀ fee d, (buildTx q plan b fee d).2 =
        (fun d : Rat => d + floorSum plan (q.batch b)) d := fun fee d => by rw [buildTx_of_lt hb]
    obtain ⟨fee, hres⟩ := submit_eq_some hnext hsubmit
    rw [buildTx_of_lt hb, add_right_iterate] at hres
    obtain ⟨rfl, rfl⟩ := Prod.mk.inj hres
    obtain ⟨rest, hrest, h⟩ := bind_eq_ok.mp h
    obtain rfl := Except.ok.inj h
    exact ⟨rest, hrest, List.flatMap_cons⟩

theorem lastStroops_succ {b : Nat} (k : Nat) (d : Rat) (hb : b + 1 < q.batchCount) :
    lastStroops q plan rejections (b + 1) k
        (d + rejections b • (floorSum plan (q.batch b) : Rat) + floorSum plan (q.batch b)) =
      lastStroops q plan rejections b (k + 1) d := by
  unfold lastStroops
  split
  · rw [dropLast_drop_eq hb, floorSum_append, repeated, repeated, List.range'_succ,
      List.map_cons, List.sum_cons, nsmul_eq_mul]
    push_cast
    ring
  · rfl

theorem releaseBatches_last (hn : q.investorShares ≠ []) {d : Rat}
    (h : releaseBatches q plan rejections 1 (q.batchCount - 1) d = .ok txs) :
    allOperations txs =
      floorOperations q plan ((q.batchCount - 1) * batchSize) q.lastFront ++
        shareOperation q (q.investorShares.length - 1) (q.investorShares.getLast hn)
          (lastStroops q plan rejections (q.batchCount - 1) 0 d) ++
        [.payment q.platformWallet plan.platformStroops] := by
  unfold releaseBatches at h
  split at h
  · simp at h
  · next tx d' hsubmit =>
    have hnext : ∀ fee d, (buildTx q plan (q.batchCount - 1) fee d).2 =
        (fun _ => plan.investorPoolStroops) d := fun fee d => by rw [buildTx_last hn]
    obtain ⟨fee, hres⟩ := submit_eq_some hnext hsubmit
    rw [buildTx_last hn] at hres
    obtain ⟨rfl, rfl⟩ := Prod.mk.inj hres
    obtain rfl := Except.ok.inj h
    rw [allOperations, List.flatMap_singleton, lastStroops]
    dsimp only
    -- a refused last batch finds the whole pool distributed
    split
    · next hz => simp [hz, repeated, ReleaseRequest.lastFront]
    · next hne =>
      rw [iterate_const_of_ne hne]
      simp [ReleaseRequest.lastFront]

/-- The loop over the batches pays every investor but the last his share rounded down, whatever
    the retries, and they show in the last one's amount. -/
theorem releaseBatches_eq_ok (hn : q.investorShares ≠ []) {b k : Nat} {d : Rat}
    (hb : b + k + 1 = q.batchCount)
    (h : releaseBatches q plan rejections (k + 1) b d = .ok txs) :
    allOperations txs =
      floorOperations q plan (b * batchSize) (q.investorShares.drop (b * batchSize)).dropLast ++
        shareOperation q (q.investorShares.length - 1) (q.investorShares.getLast hn)
          (lastStroops q plan rejections b k d) ++
        [.payment q.platformWallet plan.platformStroops] := by
  induction k generalizing b d txs with
  | zero =>
    obtain rfl : b = q.batchCount - 1 := by omega
    exact releaseBatches_last hn h
  | succ k ih =>
    have hlt : b + 1 < q.batchCount := by omega
    obtain ⟨rest, hrest, htxs⟩ := releaseBatches_succ hlt h
    rw [htxs, ih (by omega) hrest, lastStroops_succ k d hlt, dropLast_drop_eq hlt,
      floorOperations_append, length_batch hlt, ← Nat.succ_mul]
    simp

/-- Without a refusal every batch is accepted. -/
theorem releaseBatches_ok (k b : Nat) (d : Rat) :
    ∃ txs, releaseBatches q plan (fun _ => 0) k b d = .ok txs := by
  induction k generalizing b d with
  | zero => exact ⟨[], rfl⟩
  | succ k ih =>
    obtain ⟨txs, htxs⟩ := ih (b + 1) (buildTx q plan b baseFee d).2
    refine ⟨(buildTx q plan b baseFee d).1 :: txs, ?_⟩
    unfold releaseBatches
    simp only [maxAttempts, submitWithFeeBumpRetry, htxs, ok_bind, pure_eq_ok]

end Batches

/-! ## Amounts -/

section Amounts

variable {q : ReleaseRequest Addr} {plan : ReleasePlan}

/-- What the operations pay in total. -/
def paid (ops : List (Operation Addr)) : Int := (ops.map Operation.amount).sum

theorem paid_append (ops ops' : List (Operation Addr)) :
    paid (ops ++ ops') = paid ops + paid ops' := by
  unfold paid
  rw [List.map_append, List.sum_append]

/-- A whole number of stroops is written as it is. -/
theorem toFixed7_intCast (n : Int) : toFixed7 (n : Rat) = n := by
  have hfloor : ∀ m : Int, ⌊(m : Rat) + 1 / 2⌋ = m := fun m => by
    rw [Int.floor_eq_iff]
    constructor <;> linarith
  unfold toFixed7
  split
  · exact hfloor n
  · rw [← Int.cast_neg, hfloor, neg_neg]

theorem paid_shareOperation (i : Nat) (s : InvestorShare Addr) (n : Int) :
    paid (shareOperation q i s n) = max n 0 := by
  unfold shareOperation paid
  rw [toFixed7_intCast]
  dsimp only
  split
  · next hpos =>
    split <;> simp [Operation.amount, hpos.le]
  · next hpos => simp [not_lt.mp hpos]

theorem amount_nonneg_of_mem_shareOperation {i : Nat} {s : InvestorShare Addr} {stroops : Rat}
    {op : Operation Addr} (h : op ∈ shareOperation q i s stroops) : 0 ≤ op.amount := by
  unfold shareOperation at h
  dsimp only at h
  split at h
  · next hpos =>
    split at h <;>
    · obtain rfl := List.mem_singleton.mp h
      exact hpos.le
  · simp at h

theorem amount_nonneg_of_mem_floorOperations {i : Nat} {l : List (InvestorShare Addr)}
    {op : Operation Addr} (h : op ∈ floorOperations q plan i l) : 0 ≤ op.amount := by
  induction l generalizing i with
  | nil => simp [floorOperations] at h
  | cons s l ih =>
    rcases List.mem_append.mp h with h | h
    · exact amount_nonneg_of_mem_shareOperation h
    · exact ih h

theorem paid_floorOperations {i : Nat} {l : List (InvestorShare Addr)}
    (h : ∀ s ∈ l, 0 ≤ shareStroops plan s) :
    paid (floorOperations q plan i l) = floorSum plan l := by
  induction l generalizing i with
  | nil => rfl
  | cons s l ih =>
    rw [floorOperations, paid_append, paid_shareOperation, ih fun t ht =>
      h t (List.mem_cons_of_mem _ ht), floorSum_cons, max_eq_left (h s (List.mem_cons_self ..))]

end Amounts

/-! ## The plan -/

namespace ReleaseRequest

variable {q : ReleaseRequest Addr}

def totalStroops (q : ReleaseRequest Addr) : Rat := q.totalValue * 10000000

def platformStroops (q : ReleaseRequest Addr) : Int :=
  ⌊q.totalStroops * (2 / 100)⌋

def investorPool (q : ReleaseRequest Addr) : Rat :=
  q.totalStroops - q.platformStroops

def totalTokens (q : ReleaseRequest Addr) : Rat :=
  (q.investorShares.map InvestorShare.tokenAmount).sum

def plan (q : ReleaseRequest Addr) : ReleasePlan :=
  ⟨q.totalStroops, q.platformStroops, q.investorPool, q.totalTokens⟩

/-- What `calculateReleasePlan` checks. -/
structure Valid (q : ReleaseRequest Addr) : Prop where
  total_pos : 0 < q.totalStroops
  tokens_pos : 0 < q.totalTokens

theorem calculateReleasePlan_eq_ok {plan : ReleasePlan} :
    calculateReleasePlan q.totalValue q.investorShares = .ok plan ↔ q.Valid ∧ plan = q.plan := by
  unfold calculateReleasePlan
  simp only [failIf_bind_eq_ok, pure_eq_ok, Except.ok.injEq, not_le]
  constructor
  · rintro ⟨htotal, htokens, rfl⟩
    exact ⟨⟨htotal, htokens⟩, rfl⟩
  · rintro ⟨⟨htotal, htokens⟩, rfl⟩
    exact ⟨htotal, htokens, rfl⟩

theorem Valid.investorPool_pos (h : q.Valid) : 0 < q.investorPool := by
  have hfloor : (q.platformStroops : Rat) ≤ q.totalStroops * (2 / 100) := Int.floor_le _
  have htotal := h.total_pos
  unfold investorPool
  linarith

theorem Valid.platformStroops_nonneg (h : q.Valid) : 0 ≤ q.platformStroops :=
  Int.floor_nonneg.mpr (mul_nonneg h.total_pos.le (by norm_num))

theorem Valid.shares_ne_nil (h : q.Valid) : q.investorShares ≠ [] := by
  intro hnil
  have htokens := h.tokens_pos
  simp [totalTokens, hnil] at htokens

theorem Valid.shareStroops_nonneg (h : q.Valid) {s : InvestorShare Addr} (hs : 0 < s.tokenAmount) :
    0 ≤ shareStroops q.plan s :=
  Int.floor_nonneg.mpr (mul_nonneg (div_nonneg hs.le h.tokens_pos.le) h.investorPool_pos.le)

theorem Valid.shareStroops_eq_zero_iff (h : q.Valid) {s : InvestorShare Addr}
    (hs : 0 < s.tokenAmount) :
    shareStroops q.plan s = 0 ↔ s.tokenAmount * q.investorPool < q.totalTokens := by
  have hT := h.tokens_pos
  have hnonneg : 0 ≤ s.tokenAmount / q.totalTokens * q.investorPool :=
    mul_nonneg (div_nonneg hs.le hT.le) h.investorPool_pos.le
  unfold shareStroops
  change ⌊s.tokenAmount / q.totalTokens * q.investorPool⌋ = 0 ↔ _
  rw [Int.floor_eq_zero_iff, Set.mem_Ico, div_mul_eq_mul_div, div_lt_one hT]
  rw [div_mul_eq_mul_div] at hnonneg
  exact and_iff_right hnonneg

/-- The floors are at most the exact parts of the pool. -/
theorem Valid.floorSum_mul_le (h : q.Valid) (l : List (InvestorShare Addr)) :
    (floorSum q.plan l : Rat) * q.totalTokens ≤
      (l.map InvestorShare.tokenAmount).sum * q.investorPool := by
  have hT := h.tokens_pos
  induction l with
  | nil => simp
  | cons s l ih =>
    have hfloor : (shareStroops q.plan s : Rat) ≤
        s.tokenAmount / q.totalTokens * q.investorPool := Int.floor_le _
    have hhead : (shareStroops q.plan s : Rat) * q.totalTokens ≤
        s.tokenAmount * q.investorPool := by
      rw [div_mul_eq_mul_div, le_div_iff₀ hT] at hfloor
      exact hfloor
    rw [floorSum_cons, List.map_cons, List.sum_cons]
    push_cast
    linarith

/-- All floors but the last leave something of the pool. -/
theorem Valid.floorSum_dropLast_lt (h : q.Valid)
    (hpos : ∀ s ∈ q.investorShares, 0 < s.tokenAmount) :
    (floorSum q.plan q.investorShares.dropLast : Rat) < q.investorPool := by
  have hne := h.shares_ne_nil
  have hT := h.tokens_pos
  have hlast := hpos _ (List.getLast_mem hne)
  have hsum : q.totalTokens = (q.investorShares.dropLast.map InvestorShare.tokenAmount).sum +
      (q.investorShares.getLast hne).tokenAmount := by
    unfold totalTokens
    conv_lhs => rw [← List.dropLast_append_getLast hne]
    rw [List.map_append, List.sum_append, List.map_singleton, List.sum_singleton]
  have hle := h.floorSum_mul_le q.investorShares.dropLast
  have hlt : (q.investorShares.dropLast.map InvestorShare.tokenAmount).sum * q.investorPool <
      q.totalTokens * q.investorPool :=
    mul_lt_mul_of_pos_right (by linarith) h.investorPool_pos
  rw [mul_comm q.totalTokens] at hlt
  exact lt_of_mul_lt_mul_right (hle.trans_lt hlt) hT.le

end ReleaseRequest

/-! ## Retries -/

section Retries

variable {q : ReleaseRequest Addr} {rejections : Nat → Nat} {txs : List (Transaction Addr)}

/-- The retries leave no trace: the escrow is a whole number of stroops, the last batch is
    accepted at once, and of a batch that was refused no share is worth a stroop. -/
structure Undisturbed (q : ReleaseRequest Addr) (rejections : Nat → Nat) : Prop where
  whole : ∃ n : Int, q.totalStroops = n
  last : rejections (q.batchCount - 1) = 0
  others : ∀ b, b + 1 < q.batchCount → rejections b ≠ 0 →
    ∀ s ∈ q.batch b, s.tokenAmount * q.investorPool < q.totalTokens

theorem releaseEscrow_eq_ok (h : releaseEscrow q rejections = .ok txs) :
    q.Valid ∧ releaseBatches q q.plan rejections (q.batchCount - 1 + 1) 0 0 = .ok txs := by
  obtain ⟨plan, hplan, h⟩ := bind_eq_ok.mp h
  obtain ⟨hvalid, rfl⟩ := ReleaseRequest.calculateReleasePlan_eq_ok.mp hplan
  exact ⟨hvalid, by rwa [Nat.sub_add_cancel (batchCount_pos q)]⟩

theorem releaseEscrow_ok (hvalid : q.Valid) : ∃ txs, releaseEscrow q (fun _ => 0) = .ok txs := by
  have hbatches : ∃ txs, releaseBatches q q.plan (fun _ => 0) q.batchCount 0 0 = .ok txs :=
    releaseBatches_ok q.batchCount 0 0
  obtain ⟨txs, htxs⟩ := hbatches
  exact ⟨txs, bind_eq_ok.mpr ⟨_, ReleaseRequest.calculateReleasePlan_eq_ok.mpr ⟨hvalid, rfl⟩, htxs⟩⟩

/-- What the last investor's amount is computed as, when the pool is a whole number. -/
def lastWhole (q : ReleaseRequest Addr) (rejections : Nat → Nat) (pool : Int) : Int :=
  if rejections (q.batchCount - 1) = 0 then
    pool - (floorSum q.plan q.investorShares.dropLast +
      repeated q q.plan rejections 0 (q.batchCount - 1))
  else -floorSum q.plan q.lastFront

theorem allOperations_eq (hvalid : q.Valid) {pool : Int} (hpool : q.investorPool = pool)
    (h : releaseEscrow q rejections = .ok txs) :
    allOperations txs = floorOperations q q.plan 0 q.investorShares.dropLast ++
      shareOperation q (q.investorShares.length - 1) (q.investorShares.getLast hvalid.shares_ne_nil)
        (lastWhole q rejections pool) ++ [.payment q.platformWallet q.platformStroops] := by
  have hbatches := (releaseEscrow_eq_ok h).2
  have hpos := batchCount_pos q
  have hlast : lastStroops q q.plan rejections 0 (q.batchCount - 1) 0 =
      lastWhole q rejections pool := by
    have hplan : q.plan.investorPoolStroops = pool := hpool
    unfold lastStroops lastWhole
    split
    · rw [hplan]
      simp
    · push_cast
      rfl
  have hops := releaseBatches_eq_ok hvalid.shares_ne_nil (by omega) hbatches
  rw [hlast, Nat.zero_mul, List.drop_zero] at hops
  exact hops

theorem batch_subset (b : Nat) : ∀ s ∈ q.batch b, s ∈ q.investorShares := fun _ hs =>
  List.mem_of_mem_drop (List.mem_of_mem_take hs)

theorem floorSum_nonneg (hvalid : q.Valid) {l : List (InvestorShare Addr)}
    (hpos : ∀ s ∈ l, 0 < s.tokenAmount) : 0 ≤ floorSum q.plan l :=
  List.sum_nonneg fun x hx => by
    obtain ⟨s, hs, rfl⟩ := List.mem_map.mp hx
    exact hvalid.shareStroops_nonneg (hpos s hs)

theorem floorSum_eq_zero_iff (hvalid : q.Valid) {l : List (InvestorShare Addr)}
    (hpos : ∀ s ∈ l, 0 < s.tokenAmount) :
    floorSum q.plan l = 0 ↔ ∀ s ∈ l, s.tokenAmount * q.investorPool < q.totalTokens := by
  constructor
  · intro hzero s hs
    have hnonneg : ∀ x ∈ l.map (shareStroops q.plan), 0 ≤ x := fun x hx => by
      obtain ⟨t, ht, rfl⟩ := List.mem_map.mp hx
      exact hvalid.shareStroops_nonneg (hpos t ht)
    have hs0 := List.all_zero_of_le_zero_le_of_sum_eq_zero hnonneg hzero (List.mem_map_of_mem hs)
    exact (hvalid.shareStroops_eq_zero_iff (hpos s hs)).mp hs0
  · intro hlt
    apply List.sum_eq_zero
    intro x hx
    obtain ⟨s, hs, rfl⟩ := List.mem_map.mp hx
    exact (hvalid.shareStroops_eq_zero_iff (hpos s hs)).mpr (hlt s hs)

section Repeated

variable (hvalid : q.Valid) (hpos : ∀ s ∈ q.investorShares, 0 < s.tokenAmount)
include hvalid hpos

theorem repeated_terms_nonneg (b k : Nat) :
    ∀ x ∈ (List.range' b k).map fun j => (rejections j : Int) * floorSum q.plan (q.batch j),
      0 ≤ x := by
  intro x hx
  obtain ⟨j, _, rfl⟩ := List.mem_map.mp hx
  exact mul_nonneg (Int.natCast_nonneg _)
    (floorSum_nonneg hvalid fun s hs => hpos s (batch_subset j s hs))

theorem repeated_nonneg (b k : Nat) : 0 ≤ repeated q q.plan rejections b k :=
  List.sum_nonneg (repeated_terms_nonneg hvalid hpos b k)

/-- Nothing was counted twice exactly when every refused batch pays nobody. -/
theorem repeated_eq_zero_iff :
    repeated q q.plan rejections 0 (q.batchCount - 1) = 0 ↔
      ∀ b, b + 1 < q.batchCount → rejections b ≠ 0 →
        ∀ s ∈ q.batch b, s.tokenAmount * q.investorPool < q.totalTokens := by
  have hbatch : ∀ b, floorSum q.plan (q.batch b) = 0 ↔
      ∀ s ∈ q.batch b, s.tokenAmount * q.investorPool < q.totalTokens := fun b =>
    floorSum_eq_zero_iff hvalid fun s hs => hpos s (batch_subset b s hs)
  constructor
  · intro hzero b hb hne
    have hmem : b ∈ List.range' 0 (q.batchCount - 1) := List.mem_range'_1.mpr (by omega)
    have hterm := List.all_zero_of_le_zero_le_of_sum_eq_zero
      (repeated_terms_nonneg hvalid hpos 0 (q.batchCount - 1)) hzero (List.mem_map_of_mem hmem)
    rcases mul_eq_zero.mp hterm with hr | hsum
    · exact absurd (Int.natCast_eq_zero.mp hr) hne
    · exact (hbatch b).mp hsum
  · intro hall
    apply List.sum_eq_zero
    intro x hx
    obtain ⟨b, hb, rfl⟩ := List.mem_map.mp hx
    rw [List.mem_range'_1] at hb
    by_cases hr : rejections b = 0
    · simp [hr]
    · rw [(hbatch b).mpr (hall b (by omega) hr), mul_zero]

end Repeated

/-- The accepted transactions pay the investors' floors, whatever is positive of the last one's
    amount, and the platform. -/
theorem paid_release (hvalid : q.Valid) (hpos : ∀ s ∈ q.investorShares, 0 < s.tokenAmount)
    {pool : Int} (hpool : q.investorPool = pool) (h : releaseEscrow q rejections = .ok txs) :
    paid (allOperations txs) = floorSum q.plan q.investorShares.dropLast +
      max (lastWhole q rejections pool) 0 + q.platformStroops := by
  have hfloors : ∀ s ∈ q.investorShares.dropLast, 0 ≤ shareStroops q.plan s := fun s hs =>
    hvalid.shareStroops_nonneg (hpos s (List.dropLast_subset _ hs))
  rw [allOperations_eq hvalid hpool h, paid_append, paid_append, paid_floorOperations hfloors,
    paid_shareOperation]
  simp [paid, Operation.amount]

theorem lastWhole_of_undisturbed (hvalid : q.Valid)
    (hpos : ∀ s ∈ q.investorShares, 0 < s.tokenAmount) (hu : Undisturbed q rejections)
    (pool : Int) :
    lastWhole q rejections pool = pool - floorSum q.plan q.investorShares.dropLast := by
  have hzero := (repeated_eq_zero_iff hvalid hpos).mpr hu.others
  rw [lastWhole, if_pos hu.last, hzero, add_zero]

theorem undisturbed_of_none (q : ReleaseRequest Addr) (h : ∃ n : Int, q.totalStroops = n) :
    Undisturbed q fun _ => 0 :=
  ⟨h, rfl, fun _ _ hne => absurd rfl hne⟩

/-- A whole escrow leaves a whole pool. -/
theorem investorPool_whole {n : Int} (h : q.totalStroops = n) :
    q.investorPool = (n - q.platformStroops : Int) := by
  rw [ReleaseRequest.investorPool, h]
  push_cast
  rfl

/-- Retries that leave no trace leave the operations as they are. -/
theorem allOperations_of_undisturbed (hpos : ∀ s ∈ q.investorShares, 0 < s.tokenAmount)
    (h : releaseEscrow q rejections = .ok txs) (hu : Undisturbed q rejections) :
    ∃ txs₀, releaseEscrow q (fun _ => 0) = .ok txs₀ ∧ allOperations txs = allOperations txs₀ := by
  have hvalid := (releaseEscrow_eq_ok h).1
  obtain ⟨n, hn⟩ := hu.whole
  have hpool := investorPool_whole hn
  obtain ⟨txs₀, htxs₀⟩ := releaseEscrow_ok hvalid
  refine ⟨txs₀, htxs₀, ?_⟩
  rw [allOperations_eq hvalid hpool h, allOperations_eq hvalid hpool htxs₀,
    lastWhole_of_undisturbed hvalid hpos hu,
    lastWhole_of_undisturbed hvalid hpos (undisturbed_of_none q ⟨n, hn⟩)]

theorem nonneg_of_whole {pool : Int} (hvalid : q.Valid) (hpool : q.investorPool = pool)
    (h : releaseEscrow q rejections = .ok txs) : ∀ op ∈ allOperations txs, 0 ≤ op.amount := by
  intro op hop
  rw [allOperations_eq hvalid hpool h] at hop
  rcases List.mem_append.mp hop with hop | hop
  · rcases List.mem_append.mp hop with hop | hop
    · exact amount_nonneg_of_mem_floorOperations hop
    · exact amount_nonneg_of_mem_shareOperation hop
  · obtain rfl := List.mem_singleton.mp hop
    exact hvalid.platformStroops_nonneg

/-- The floors of all but the last investor leave something of a whole pool. -/
theorem floorSum_dropLast_lt_whole {pool : Int} (hvalid : q.Valid)
    (hpos : ∀ s ∈ q.investorShares, 0 < s.tokenAmount) (hpool : q.investorPool = pool) :
    floorSum q.plan q.investorShares.dropLast < pool := by
  have hlt := hvalid.floorSum_dropLast_lt hpos
  rw [hpool] at hlt
  exact_mod_cast hlt

theorem total_of_undisturbed (hpos : ∀ s ∈ q.investorShares, 0 < s.tokenAmount)
    (h : releaseEscrow q rejections = .ok txs) (hu : Undisturbed q rejections) :
    (paid (allOperations txs) : Rat) = q.totalStroops := by
  have hvalid := (releaseEscrow_eq_ok h).1
  obtain ⟨n, hn⟩ := hu.whole
  have hpool := investorPool_whole hn
  have hlt := floorSum_dropLast_lt_whole hvalid hpos hpool
  rw [paid_release hvalid hpos hpool h, lastWhole_of_undisturbed hvalid hpos hu,
    max_eq_left (by omega), hn]
  push_cast
  ring

/-- Payments that add up to the escrow give the last investor what the floors leave. -/
theorem undisturbed_of_total (hpos : ∀ s ∈ q.investorShares, 0 < s.tokenAmount)
    (h : releaseEscrow q rejections = .ok txs)
    (htotal : (paid (allOperations txs) : Rat) = q.totalStroops) : Undisturbed q rejections := by
  have hvalid := (releaseEscrow_eq_ok h).1
  have hpool := investorPool_whole htotal.symm
  have hpaid := paid_release hvalid hpos hpool h
  have hlt := floorSum_dropLast_lt_whole hvalid hpos hpool
  have hrepeated : 0 ≤ repeated q q.plan rejections 0 (q.batchCount - 1) :=
    repeated_nonneg hvalid hpos 0 _
  have hfront : 0 ≤ floorSum q.plan q.lastFront :=
    floorSum_nonneg hvalid fun s hs => hpos s (List.mem_of_mem_drop (List.dropLast_subset _ hs))
  unfold lastWhole at hpaid
  split at hpaid
  · next hlast =>
    have hzero : repeated q q.plan rejections 0 (q.batchCount - 1) = 0 := by omega
    exact ⟨⟨_, htotal.symm⟩, hlast, (repeated_eq_zero_iff hvalid hpos).mp hzero⟩
  · omega

variable [DecidableEq Addr]

/-- What the operations pay to `wallet`. -/
def received (wallet : Addr) (txs : List (Transaction Addr)) : Int :=
  paid ((allOperations txs).filter fun op => op.recipient = wallet)

/-- The payments of the run without fee retries: everyone gets the same, no amount is negative,
    and they add up to the escrow. -/
structure Conserving (q : ReleaseRequest Addr) (txs : List (Transaction Addr)) : Prop where
  same : ∃ txs₀, releaseEscrow q (fun _ => 0) = .ok txs₀ ∧
    ∀ wallet, received wallet txs = received wallet txs₀
  nonneg : ∀ op ∈ allOperations txs, 0 ≤ op.amount
  total_eq : (paid (allOperations txs) : Rat) = q.totalStroops

/-- Two equal investors share one batch, which is refused once: the second one gets nothing. -/
def twoInvestors : ReleaseRequest Nat :=
  ⟨[⟨10, 1⟩, ⟨11, 1⟩], 0, 1, fun _ => true, 10000⟩

theorem retry_drops_last_share :
    ¬ ∀ (q : ReleaseRequest Nat) (rejections : Nat → Nat) (txs : List (Transaction Nat)),
      (∀ s ∈ q.investorShares, 0 < s.tokenAmount) → releaseEscrow q rejections = .ok txs →
      (paid (allOperations txs) : Rat) = q.totalStroops := by
  intro h
  have htotal := h twoInvestors (fun _ => 1)
    [⟨200, [.payment 10 4900000, .payment 0 200000]⟩] (by decide +kernel) (by decide +kernel)
  exact absurd htotal (by decide +kernel)

/-- The accepted transactions of a release pay what the run without fee retries pays, in amounts
    that are not negative and add up to the escrow, if and only if the retries leave no trace. In
    that case even the operations are the same. -/
theorem release_retry_independent (hpos : ∀ s ∈ q.investorShares, 0 < s.tokenAmount)
    (h : releaseEscrow q rejections = .ok txs) :
    (Conserving q txs ↔ Undisturbed q rejections) ∧
    (Undisturbed q rejections →
      ∃ txs₀, releaseEscrow q (fun _ => 0) = .ok txs₀ ∧
        allOperations txs = allOperations txs₀) := by
  refine ⟨⟨fun hc => undisturbed_of_total hpos h hc.total_eq, fun hu => ?_⟩,
    allOperations_of_undisturbed hpos h⟩
  obtain ⟨n, hn⟩ := hu.whole
  obtain ⟨txs₀, htxs₀, hops⟩ := allOperations_of_undisturbed hpos h hu
  exact {
    same := ⟨txs₀, htxs₀, fun wallet => by rw [received, received, hops]⟩
    nonneg := nonneg_of_whole (releaseEscrow_eq_ok h).1 (investorPool_whole hn) h
    total_eq := total_of_undisturbed hpos h hu }

/-- Two batches: 98 small investors, of whom half hold a trustline, and a large one. -/
def twoBatches : ReleaseRequest Nat :=
  ⟨List.replicate 98 ⟨10, 1⟩ ++ [⟨11, 3⟩], 0, 1 / 10000, fun i => i < 50, 10000⟩

theorem release_retry_independent_sample :
    ∃ txs, releaseEscrow twoBatches (fun _ => 0) = .ok txs ∧ Conserving twoBatches txs := by
  obtain ⟨txs, htxs⟩ := releaseEscrow_ok (q := twoBatches) ⟨by decide +kernel, by decide +kernel⟩
  exact ⟨txs, htxs, (release_retry_independent (by decide +kernel) htxs).1.mpr
    (undisturbed_of_none _ ⟨1000, by decide +kernel⟩)⟩

end Retries

end AgriFi.Stellar
