import AgriFi.EscrowService.Payouts
import AgriFi.Stellar.RetryIndependence

/-
  What the rows of a committed release add up to. Each split is exact (`sum_allocateCents`), but
  the 98% pool is split twice, over the farmers and over the investors, so that with the platform's
  row the ledger shows the deal's value and the pool again (`payouts_never_conserved`). Called on
  its own, `distributePayment` opens a transaction that nobody commits.
-/

namespace AgriFi.EscrowService

open AgriFi.Soroban AgriFi.Stellar

/-! ## Whole cents -/

theorem toCents_fromCents (c : Int) : toCents (fromCents c) = c := by
  unfold toCents mathRound fromCents epsilon
  rw [Int.floor_eq_iff]
  constructor <;> norm_num <;> linarith

theorem fromCents_add (a b : Int) : fromCents (a + b) = fromCents a + fromCents b := by
  unfold fromCents
  push_cast
  ring

theorem sum_fromCents (l : List Int) : (l.map fromCents).sum = fromCents l.sum := by
  induction l with
  | nil => simp [fromCents]
  | cons a l ih => rw [List.map_cons, List.sum_cons, ih, List.sum_cons, fromCents_add]

theorem fromCents_nonneg {c : Int} (h : 0 ≤ c) : 0 ≤ fromCents c := by
  unfold fromCents
  positivity

theorem fromCents_pos {c : Int} (h : 0 < c) : 0 < fromCents c := by
  unfold fromCents
  positivity

/-! ### The platform's part -/

/-- The platform's cents of a total of `c` cents. -/
def platformCents (c : Int) : Int := mathRound (c * (2 / 100))

def poolCents (c : Int) : Int := c - platformCents c

theorem splitTotalValue_fromCents (c : Int) :
    splitTotalValue (fromCents c) = (fromCents (platformCents c), fromCents (poolCents c)) := by
  unfold splitTotalValue poolCents platformCents
  rw [toCents_fromCents]

theorem platformCents_nonneg {c : Int} (h : 0 ≤ c) : 0 ≤ platformCents c := by
  unfold platformCents mathRound
  have hc : (0 : Rat) ≤ c := by exact_mod_cast h
  rw [Int.floor_nonneg]
  linarith

/-- Two per cent, rounded to a cent. -/
theorem platformCents_bounds (c : Int) :
    (c : Rat) * (2 / 100) - 1 / 2 < platformCents c ∧
      (platformCents c : Rat) ≤ c * (2 / 100) + 1 / 2 := by
  unfold platformCents mathRound
  have hle : (⌊(c : Rat) * (2 / 100) + 1 / 2⌋ : Rat) ≤ c * (2 / 100) + 1 / 2 := Int.floor_le _
  have hlt : (c : Rat) * (2 / 100) + 1 / 2 < ⌊(c : Rat) * (2 / 100) + 1 / 2⌋ + 1 :=
    Int.lt_floor_add_one _
  exact ⟨by linarith, hle⟩

/-- Half a cent is rounded up. -/
example : platformCents 25 = 1 := by decide +kernel

theorem poolCents_pos {c : Int} (h : 0 < c) : 0 < poolCents c := by
  have hc : (1 : Rat) ≤ c := by exact_mod_cast h
  have hbound := (platformCents_bounds c).2
  have hpool : (0 : Rat) < poolCents c := by
    unfold poolCents
    push_cast
    linarith
  exact_mod_cast hpool

theorem poolCents_nonneg {c : Int} (h : 0 ≤ c) : 0 ≤ poolCents c := by
  rcases h.eq_or_lt with rfl | hpos
  · decide +kernel
  · exact (poolCents_pos hpos).le

/-! ## One split -/

theorem allocateCents_eq (totalCents allocatedCents : Int) (totalWeight : Rat) (ws : List Rat) :
    allocateCents totalCents totalWeight allocatedCents ws =
      remainderToLast (totalCents - allocatedCents)
        (ws.map fun w => ⌊totalCents * w / totalWeight⌋) := by
  induction ws generalizing allocatedCents with
  | nil => rfl
  | cons w ws ih =>
    cases ws with
    | nil => rfl
    | cons v ws =>
      rw [allocateCents, ih]
      simp [remainderToLast, sub_sub]

theorem length_allocateCents (totalCents : Int) (totalWeight : Rat) (ws : List Rat) :
    (allocateCents totalCents totalWeight 0 ws).length = ws.length := by
  rw [allocateCents_eq, length_remainderToLast, List.length_map]

/-- A split hands out its total to the cent. -/
theorem sum_allocateCents (totalCents : Int) (totalWeight : Rat) {ws : List Rat} (h : ws ≠ []) :
    (allocateCents totalCents totalWeight 0 ws).sum = totalCents := by
  rw [allocateCents_eq, sum_remainderToLast _ (by simpa using h), sub_zero]

section Nonneg

variable {totalCents : Int} {totalWeight : Rat} {ws : List Rat}

theorem sum_floor_mul_le (hw : 0 < totalWeight) (ws : List Rat) :
    ((ws.map fun w => ⌊totalCents * w / totalWeight⌋).sum : Rat) * totalWeight ≤
      totalCents * ws.sum := by
  induction ws with
  | nil => simp
  | cons w ws ih =>
    have hfloor : (⌊totalCents * w / totalWeight⌋ : Rat) ≤ totalCents * w / totalWeight :=
      Int.floor_le _
    rw [le_div_iff₀ hw] at hfloor
    rw [List.map_cons, List.sum_cons, List.sum_cons, Int.cast_add]
    linarith

/-- No part of a split is negative. -/
theorem allocateCents_nonneg (ht : 0 ≤ totalCents) (hpos : 0 < ws.sum) (hw : ∀ w ∈ ws, 0 ≤ w) :
    ∀ a ∈ allocateCents totalCents ws.sum 0 ws, 0 ≤ a := by
  have htq : (0 : Rat) ≤ totalCents := by exact_mod_cast ht
  have hsum : (ws.map fun w => ⌊totalCents * w / ws.sum⌋).sum ≤ totalCents := by
    have hle : ((ws.map fun w => ⌊totalCents * w / ws.sum⌋).sum : Rat) ≤ totalCents :=
      le_of_mul_le_mul_right (sum_floor_mul_le hpos ws) hpos
    exact_mod_cast hle
  rw [allocateCents_eq, sub_zero]
  refine remainderToLast_nonneg ?_ hsum
  intro a ha
  obtain ⟨w, hmem, rfl⟩ := List.mem_map.mp ha
  exact Int.floor_nonneg.mpr (div_nonneg (mul_nonneg htq (hw w hmem)) hpos.le)

end Nonneg

/-! ## The farmers' rows -/

variable {Addr Id : Type}

/-- Dropping the entries that are not positive from entries that are not negative keeps the sum. -/
theorem sum_filter_pos {α : Type} (f : α → Rat) {l : List α} (h : ∀ a ∈ l, 0 ≤ f a) :
    ((l.filter fun a => f a > 0).map f).sum = (l.map f).sum := by
  induction l with
  | nil => rfl
  | cons a l ih =>
    have ih := ih fun b hb => h b (List.mem_cons_of_mem _ hb)
    rcases (h a (List.mem_cons_self ..)).eq_or_lt with hzero | hpos
    · rw [List.filter_cons_of_neg (by simp [← hzero]), ih, List.map_cons, List.sum_cons, ← hzero,
        zero_add]
    · rw [List.filter_cons_of_pos (by simpa using hpos), List.map_cons, List.sum_cons, ih,
        List.map_cons, List.sum_cons]

/-- The payouts are positive and add up to the pool. -/
theorem computeFarmerPayoutSplits_eq_ok {pool : Int} {p : PayoutParticipant Addr Id}
    {ps : List (PayoutParticipant Addr Id)} {payouts : List (FarmerPayout Addr Id)}
    (hpool : 0 ≤ pool)
    (h : computeFarmerPayoutSplits (fromCents pool) (p :: ps) = .ok payouts) :
    (payouts.map FarmerPayout.amountUsd).sum = fromCents pool ∧
      ∀ payout ∈ payouts, 0 < payout.amountUsd := by
  unfold computeFarmerPayoutSplits at h
  rw [if_neg (by simp)] at h
  simp only [failIf_bind_eq_ok, pure_eq_ok, Except.ok.injEq, not_le, toCents_fromCents] at h
  obtain ⟨hpos, rfl⟩ := h
  have hweights : ∀ w ∈ (p :: ps).map PayoutParticipant.weight, 0 ≤ w := by
    intro w hw
    obtain ⟨participant, _, rfl⟩ := List.mem_map.mp hw
    exact le_max_right ..
  have hcents := allocateCents_nonneg hpool hpos hweights
  have hlength := length_allocateCents pool ((p :: ps).map PayoutParticipant.weight).sum
    ((p :: ps).map PayoutParticipant.weight)
  rw [List.length_map] at hlength
  constructor
  · rw [sum_filter_pos]
    · rw [List.map_map]
      show (List.map (fromCents ∘ Prod.snd) _).sum = _
      rw [← List.map_map, List.map_snd_zip hlength.le, sum_fromCents,
        sum_allocateCents _ _ (by simp)]
    · intro row hrow
      obtain ⟨pair, hpair, rfl⟩ := List.mem_map.mp hrow
      exact fromCents_nonneg (hcents _ (List.of_mem_zip hpair).2)
  · intro payout hpayout
    simpa using (List.mem_filter.mp hpayout).2

variable {q : PayoutRequest Addr Id} {db db' : Database Addr Id} {stellarTxId : Option Nat}
  {rows : List (PaymentDistribution Addr Id)} {deal : Deal Addr Id}

theorem save_eq_ok : db.save rows = .ok db' ↔
    (∀ row ∈ rows, row.walletAddress.isSome) ∧
      db' = { db with transaction := db.transaction.map (· ++ rows) } := by
  unfold Database.save
  simp only [failIf_bind_eq_ok, pure_eq_ok, Except.ok.injEq]
  rw [eq_comm (a := db')]
  simp [Option.isSome_iff_ne_none, Option.isNone_iff_eq_none]

/-- What a payout to the farmers returns is what it has added to the open transaction. -/
theorem writeFarmerRows_eq_ok (h : writeFarmerRows q stellarTxId db = .ok (rows, db')) :
    ∃ deal payouts, q.deal = some deal ∧
      computeFarmerPayoutSplits (splitTotalValue deal.totalValue).2
        (payoutParticipants deal q.coFarmers) = .ok payouts ∧
      rows = payouts.map (FarmerPayout.row stellarTxId) ∧
      db' = { db with transaction := db.transaction.map (· ++ rows) } := by
  unfold writeFarmerRows at h
  obtain ⟨_, h⟩ := failIf_bind_eq_ok.mp h
  obtain ⟨deal, hdeal, h⟩ := bind_eq_ok.mp h
  obtain ⟨_, h⟩ := failIf_bind_eq_ok.mp h
  obtain ⟨_, h⟩ := failIf_bind_eq_ok.mp h
  obtain ⟨payouts, hpayouts, h⟩ := bind_eq_ok.mp h
  refine ⟨deal, payouts, okOr_eq_ok.mp hdeal, hpayouts, ?_⟩
  split at h
  · next hempty =>
    obtain ⟨rfl, rfl⟩ := Prod.mk.inj (Except.ok.inj h)
    have hnil : payouts = [] := List.isEmpty_iff.mp hempty
    simp [hnil]
  · obtain ⟨_, h⟩ := failIf_bind_eq_ok.mp h
    obtain ⟨db₁, hsave, h⟩ := bind_eq_ok.mp h
    obtain ⟨rfl, rfl⟩ := Prod.mk.inj (Except.ok.inj h)
    exact ⟨rfl, (save_eq_ok.mp hsave).2⟩

def totalUsd (rows : List (PaymentDistribution Addr Id)) : Rat :=
  (rows.map PaymentDistribution.amountUsd).sum

theorem totalUsd_append (rows rows' : List (PaymentDistribution Addr Id)) :
    totalUsd (rows ++ rows') = totalUsd rows + totalUsd rows' := by
  unfold totalUsd
  rw [List.map_append, List.sum_append]

/-- The farmers' rows of a deal worth `c` cents split its pool. -/
theorem farmerRows_total {c : Int} (hc : 0 ≤ poolCents c) (hdeal : q.deal = some deal)
    (htotal : deal.totalValue = fromCents c)
    (h : writeFarmerRows q stellarTxId db = .ok (rows, db')) :
    totalUsd rows = fromCents (poolCents c) ∧
      ∀ row ∈ rows, 0 < row.amountUsd ∧ row.recipientType = .farmer ∧
        row.stellarTxId = stellarTxId := by
  obtain ⟨deal', payouts, hdeal', hpayouts, rfl, _⟩ := writeFarmerRows_eq_ok h
  obtain rfl := Option.some.inj (hdeal.symm.trans hdeal')
  rw [htotal, splitTotalValue_fromCents] at hpayouts
  obtain ⟨hsum, hpos⟩ := computeFarmerPayoutSplits_eq_ok hc hpayouts
  constructor
  · rw [totalUsd, List.map_map]
    exact hsum
  · intro row hrow
    obtain ⟨payout, hmem, rfl⟩ := List.mem_map.mp hrow
    exact ⟨hpos payout hmem, rfl, rfl⟩

/-- Only a deal that is worth nothing has no farmers' rows. -/
theorem farmerRows_eq_nil_iff {c : Nat} (hdeal : q.deal = some deal)
    (htotal : deal.totalValue = fromCents c)
    (h : writeFarmerRows q stellarTxId db = .ok (rows, db')) : rows = [] ↔ c = 0 := by
  have hpool : 0 ≤ poolCents c := poolCents_nonneg (Int.natCast_nonneg c)
  obtain ⟨hsum, hrows⟩ := farmerRows_total hpool hdeal htotal h
  constructor
  · rintro rfl
    by_contra hzero
    have hpos : 0 < (c : Int) := by omega
    exact (fromCents_pos (poolCents_pos hpos)).ne hsum
  · rintro rfl
    cases rows with
    | nil => rfl
    | cons row rows =>
      have hrow : 0 < row.amountUsd := (hrows row (List.mem_cons_self ..)).1
      have hrest : 0 ≤ totalUsd rows := List.sum_nonneg fun x hx => by
        obtain ⟨r, hr, rfl⟩ := List.mem_map.mp hx
        exact (hrows r (List.mem_cons_of_mem _ hr)).1.le
      have hzero : row.amountUsd + totalUsd rows = 0 := hsum.trans (by decide +kernel)
      linarith

/-! ## The release's rows -/

theorem allocateProportionalAmounts_eq_ok {pool : Int} {weights amounts : List Rat}
    (h : allocateProportionalAmounts (fromCents pool) weights = .ok amounts) (hne : weights ≠ []) :
    0 < weights.sum ∧ amounts = (allocateCents pool weights.sum 0 weights).map fromCents := by
  unfold allocateProportionalAmounts at h
  rw [if_neg hne] at h
  simp only [failIf_bind_eq_ok, pure_eq_ok, Except.ok.injEq, not_le, toCents_fromCents] at h
  exact ⟨h.1, h.2.symm⟩

theorem totalUsd_investorRows {investments : List (Investment Addr Id)} {amounts : List Rat}
    (h : amounts.length = investments.length) :
    totalUsd (List.zipWith (Investment.row stellarTxId) investments amounts) = amounts.sum := by
  unfold totalUsd
  induction investments generalizing amounts with
  | nil => rw [List.length_eq_zero_iff.mp h]; rfl
  | cons inv investments ih =>
    cases amounts with
    | nil => cases h
    | cons amount amounts =>
      have ih := ih (Nat.succ.inj h)
      rw [List.zipWith_cons_cons, List.map_cons, List.sum_cons, ih, List.sum_cons]
      rfl

theorem mem_investorRows {investments : List (Investment Addr Id)} {amounts : List Rat}
    {row : PaymentDistribution Addr Id}
    (h : row ∈ List.zipWith (Investment.row stellarTxId) investments amounts) :
    row.amountUsd ∈ amounts ∧ row.recipientType = .investor := by
  rw [← List.map_uncurry_zip_eq_zipWith] at h
  obtain ⟨pair, hpair, rfl⟩ := List.mem_map.mp h
  exact ⟨(List.of_mem_zip hpair).2, rfl⟩

/-- What the investors get: the pool, split once more. -/
def investorAmounts (q : PayoutRequest Addr Id) (c : Int) : List Rat :=
  (allocateCents (poolCents c) (q.investments.map Investment.tokenAmount).sum 0
    (q.investments.map Investment.tokenAmount)).map fromCents

/-- The rows that phase 3 writes after the farmers'. -/
def otherRows (q : PayoutRequest Addr Id) (stellarTxId : Option Nat) (c : Int) :
    List (PaymentDistribution Addr Id) :=
  List.zipWith (Investment.row stellarTxId) q.investments (investorAmounts q c) ++
    [⟨.platform, none, some q.platformWallet, fromCents (platformCents c), stellarTxId⟩]

theorem writeDistributions_rows {c : Int} (htotal : deal.totalValue = fromCents c)
    (hne : q.investments ≠ [])
    (h : writeDistributions q deal stellarTxId db.startTransaction = .ok db') :
    0 < (q.investments.map Investment.tokenAmount).sum ∧
      ∃ farmerRows db₁, writeFarmerRows q stellarTxId db.startTransaction = .ok (farmerRows, db₁) ∧
        db'.committed = db.committed ++ (farmerRows ++ otherRows q stellarTxId c) := by
  unfold writeDistributions at h
  rw [htotal, splitTotalValue_fromCents] at h
  dsimp only at h
  obtain ⟨amounts, hamounts, h⟩ := bind_eq_ok.mp h
  have hweights : q.investments.map Investment.tokenAmount ≠ [] := by simpa using hne
  obtain ⟨hpos, rfl⟩ := allocateProportionalAmounts_eq_ok hamounts hweights
  unfold distributePayment at h
  cases hfarmers : writeFarmerRows q stellarTxId db.startTransaction with
  | error e => simp [hfarmers] at h
  | ok result =>
    obtain ⟨farmerRows, db₁⟩ := result
    simp only [hfarmers, Bool.false_eq_true, if_false, failIf_bind_eq_ok] at h
    obtain ⟨_, h⟩ := h
    obtain ⟨db₂, hsave, h⟩ := bind_eq_ok.mp h
    simp only [failIf_bind_eq_ok, pure_eq_ok, Except.ok.injEq] at h
    obtain ⟨_, _, rfl⟩ := h
    obtain ⟨_, rfl⟩ := save_eq_ok.mp hsave
    obtain ⟨_, _, _, _, _, rfl⟩ := writeFarmerRows_eq_ok hfarmers
    exact ⟨hpos, farmerRows, _, rfl, rfl⟩

/-- The rows of a committed phase 3: the farmers' split the pool, and the investors' split it
    again. -/
structure Recorded (c : Int) (rows : List (PaymentDistribution Addr Id)) : Prop where
  total_eq : totalUsd rows = fromCents c + fromCents (poolCents c)
  nonneg : ∀ row ∈ rows, 0 ≤ row.amountUsd

theorem totalUsd_otherRows (q : PayoutRequest Addr Id) (stellarTxId : Option Nat) (c : Int)
    (hne : q.investments ≠ []) : totalUsd (otherRows q stellarTxId c) = fromCents c := by
  have hweights : q.investments.map Investment.tokenAmount ≠ [] := by simpa using hne
  have hlength : (investorAmounts q c).length = q.investments.length := by
    rw [investorAmounts, List.length_map, length_allocateCents, List.length_map]
  have hsum : (investorAmounts q c).sum = fromCents (poolCents c) := by
    rw [investorAmounts, sum_fromCents, sum_allocateCents _ _ hweights]
  have hplatform : totalUsd [(⟨.platform, none, some q.platformWallet,
      fromCents (platformCents c), stellarTxId⟩ : PaymentDistribution Addr Id)] =
      fromCents (platformCents c) := by
    simp [totalUsd]
  rw [otherRows, totalUsd_append, totalUsd_investorRows hlength, hsum, hplatform, ← fromCents_add,
    poolCents, sub_add_cancel]

theorem otherRows_nonneg {c : Int} (hc : 0 ≤ c)
    (hpos : 0 < (q.investments.map Investment.tokenAmount).sum)
    (htokens : ∀ inv ∈ q.investments, 0 ≤ inv.tokenAmount) :
    ∀ row ∈ otherRows q stellarTxId c, 0 ≤ row.amountUsd := by
  have hcents := allocateCents_nonneg (poolCents_nonneg hc) hpos fun w hw => by
    obtain ⟨inv, hinv, rfl⟩ := List.mem_map.mp hw
    exact htokens inv hinv
  intro row hrow
  rcases List.mem_append.mp hrow with hrow | hrow
  · obtain ⟨cents, hmem, hamount⟩ := List.mem_map.mp (mem_investorRows hrow).1
    rw [← hamount]
    exact fromCents_nonneg (hcents cents hmem)
  · obtain rfl := List.mem_singleton.mp hrow
    exact fromCents_nonneg (platformCents_nonneg hc)

theorem writeDistributions_eq_ok {c : Int} (hc : 0 ≤ c) (hdeal : q.deal = some deal)
    (htotal : deal.totalValue = fromCents c) (hne : q.investments ≠ [])
    (htokens : ∀ inv ∈ q.investments, 0 ≤ inv.tokenAmount)
    (h : writeDistributions q deal stellarTxId db.startTransaction = .ok db') :
    ∃ rows, db'.committed = db.committed ++ rows ∧ Recorded c rows := by
  obtain ⟨hpos, farmerRows, db₁, hfarmers, hcommitted⟩ := writeDistributions_rows htotal hne h
  obtain ⟨hfarmerTotal, hfarmerRows⟩ :=
    farmerRows_total (poolCents_nonneg hc) hdeal htotal hfarmers
  refine ⟨_, hcommitted, ?_, ?_⟩
  · rw [totalUsd_append, hfarmerTotal, totalUsd_otherRows q stellarTxId c hne, add_comm]
  · intro row hrow
    rcases List.mem_append.mp hrow with hrow | hrow
    · exact (hfarmerRows row hrow).1.le
    · exact otherRows_nonneg hc hpos htokens row hrow

theorem processDealDelivered_committed {rejections : Nat → Nat} {txs : List (Transaction Addr)}
    (h : processDealDelivered q rejections db = (.ok (some txs), db')) :
    ∃ deal, q.deal = some deal ∧ q.investments ≠ [] ∧
      releaseEscrow (q.release deal) rejections = .ok txs ∧
      writeDistributions q deal (some 0) db.startTransaction = .ok db' := by
  unfold processDealDelivered at h
  split at h
  · simp at h
  · next deal hdeal =>
    split at h
    · simp at h
    split at h
    · simp at h
    next hne =>
    split at h
    · simp at h
    split at h
    · simp at h
    split at h
    · simp at h
    · next txs' htxs =>
      split at h
      · simp at h
      · next db₁ hdb =>
        obtain ⟨htxs', rfl⟩ := Prod.mk.inj h
        obtain rfl := Option.some.inj (Except.ok.inj htxs')
        exact ⟨deal, hdeal, by simpa using hne, htxs, hdb⟩

/-! ## What the transactions pay -/

/-- One of the operations of the transaction that the row names pays the row's amount to its
    wallet. -/
def PaidIn (txs : List (Transaction Addr)) (row : PaymentDistribution Addr Id) : Prop :=
  ∃ b tx op, row.stellarTxId = some b ∧ txs[b]? = some tx ∧ op ∈ tx.operations ∧
    row.walletAddress = some op.recipient ∧ row.amountUsd * 10000000 = op.amount

theorem recipient_of_mem_shareOperation {r : ReleaseRequest Addr} {i : Nat}
    {share : InvestorShare Addr} {stroops : Rat} {op : Operation Addr}
    (h : op ∈ shareOperation r i share stroops) : op.recipient = share.walletAddress := by
  unfold shareOperation at h
  dsimp only at h
  split at h
  · split at h <;>
    · obtain rfl := List.mem_singleton.mp h
      rfl
  · simp at h

theorem recipient_of_mem_floorOperations {r : ReleaseRequest Addr} {plan : ReleasePlan} {i : Nat}
    {l : List (InvestorShare Addr)} {op : Operation Addr} (h : op ∈ floorOperations r plan i l) :
    ∃ share ∈ l, op.recipient = share.walletAddress := by
  induction l generalizing i with
  | nil => simp [floorOperations] at h
  | cons share l ih =>
    rcases List.mem_append.mp h with h | h
    · exact ⟨share, List.mem_cons_self .., recipient_of_mem_shareOperation h⟩
    · obtain ⟨s, hs, hop⟩ := ih h
      exact ⟨s, List.mem_cons_of_mem _ hs, hop⟩

/-- A release pays investors and the platform, and nobody else. -/
theorem recipient_of_release {r : ReleaseRequest Addr} {rejections : Nat → Nat}
    {txs : List (Transaction Addr)} {pool : Int} (hpool : r.investorPool = pool)
    (h : releaseEscrow r rejections = .ok txs) :
    ∀ op ∈ allOperations txs, op.recipient = r.platformWallet ∨
      ∃ share ∈ r.investorShares, op.recipient = share.walletAddress := by
  intro op hop
  rw [allOperations_eq (releaseEscrow_eq_ok h).1 hpool h] at hop
  rcases List.mem_append.mp hop with hop | hop
  · rcases List.mem_append.mp hop with hop | hop
    · obtain ⟨share, hshare, hrecipient⟩ := recipient_of_mem_floorOperations hop
      exact .inr ⟨share, List.dropLast_subset _ hshare, hrecipient⟩
    · exact .inr ⟨_, List.getLast_mem _, recipient_of_mem_shareOperation hop⟩
  · obtain rfl := List.mem_singleton.mp hop
    exact .inl rfl

/-- The wallet is neither the platform's nor an investor's. -/
def Outside (q : PayoutRequest Addr Id) (wallet : Option Addr) : Prop :=
  wallet ≠ some q.platformWallet ∧ ∀ inv ∈ q.investments, inv.walletAddress ≠ wallet

theorem not_paid_of_outside {rejections : Nat → Nat} {txs : List (Transaction Addr)} {c : Int}
    {row : PaymentDistribution Addr Id} (htotal : deal.totalValue = fromCents c)
    (h : releaseEscrow (q.release deal) rejections = .ok txs) (hout : Outside q row.walletAddress) :
    ¬ PaidIn txs row := by
  rintro ⟨b, tx, op, _, htx, hop, hwallet, _⟩
  have hwhole : (q.release deal).totalStroops = (100000 * c : Int) := by
    show deal.totalValue * 10000000 = _
    rw [htotal, fromCents]
    push_cast
    ring
  have hmem : op ∈ allOperations txs :=
    List.mem_flatMap.mpr ⟨tx, List.mem_of_getElem? htx, hop⟩
  rcases recipient_of_release (investorPool_whole hwhole) h op hmem with hop | ⟨share, hshare, hop⟩
  · exact hout.1 (hwallet.trans (congrArg some hop))
  · obtain ⟨inv, hinv, hshare⟩ := List.mem_filterMap.mp hshare
    obtain ⟨wallet, hw, rfl⟩ := Option.map_eq_some_iff.mp hshare
    exact hout.2 inv hinv (hw.trans (hwallet.trans (congrArg some hop)).symm)

/-! ## The ledger -/

/-- The rows of a release add up to the deal's value, are not negative, and each was paid. -/
structure LedgerConserved (totalValue : Rat) (txs : List (Transaction Addr))
    (rows : List (PaymentDistribution Addr Id)) : Prop where
  total_eq : totalUsd rows = totalValue
  nonneg : ∀ row ∈ rows, 0 ≤ row.amountUsd
  paid : ∀ row ∈ rows, PaidIn txs row

/-- Nothing is committed by a payout to the farmers that nobody else's transaction contains. -/
theorem distributePayment_alone (h : distributePayment q true stellarTxId db = (.ok rows, db')) :
    db'.committed = db.committed ∧
      ∃ db₁, writeFarmerRows q stellarTxId db.startTransaction = .ok (rows, db₁) := by
  unfold distributePayment at h
  cases hrows : writeFarmerRows q stellarTxId db.startTransaction with
  | error e => simp [hrows] at h
  | ok result =>
    obtain ⟨rows', db₁⟩ := result
    simp only [if_true, hrows, Prod.mk.injEq, Except.ok.injEq] at h
    obtain ⟨rfl, rfl⟩ := h
    obtain ⟨_, _, _, _, _, rfl⟩ := writeFarmerRows_eq_ok hrows
    exact ⟨rfl, _, rfl⟩

/-- A lead farmer without co-farmers, one investor, 100 USD. -/
def soleInvestor : PayoutRequest Nat Nat where
  deal := some ⟨true, 100, 1, some 1⟩
  investments := [⟨2, some 2, 1⟩]
  coFarmers := []
  platformWallet := 0
  hasUsdcTrustline := fun _ => true
  maxFee := 10000
  fails := fun _ => false

theorem ledger_shows_pool_twice :
    (¬ ∀ (q : PayoutRequest Nat Nat) (deal : Deal Nat Nat) (rejections : Nat → Nat)
      (db db' : Database Nat Nat) (txs : List (Transaction Nat))
      (rows : List (PaymentDistribution Nat Nat)), q.deal = some deal →
      (∀ inv ∈ q.investments, 0 < inv.tokenAmount) →
      processDealDelivered q rejections db = (.ok (some txs), db') →
      db'.committed = db.committed ++ rows → LedgerConserved deal.totalValue txs rows) ∧
    (¬ ∀ (q : PayoutRequest Nat Nat) (stellarTxId : Option Nat) (db db' : Database Nat Nat)
      (rows : List (PaymentDistribution Nat Nat)),
      distributePayment q true stellarTxId db = (.ok rows, db') →
      db'.committed = db.committed ++ rows) := by
  constructor
  · intro h
    have hconserved := h soleInvestor ⟨true, 100, 1, some 1⟩ (fun _ => 0) ⟨[], none⟩
      ⟨[⟨.farmer, some 1, some 1, 98, some 0⟩, ⟨.investor, some 2, some 2, 98, some 0⟩,
        ⟨.platform, none, some 0, 2, some 0⟩], none⟩
      [⟨100, [.payment 2 980000000, .payment 0 20000000]⟩] _ rfl (by decide +kernel)
      (by decide +kernel) rfl
    exact absurd hconserved.total_eq (by decide +kernel)
  · intro h
    have hdurable := h soleInvestor none ⟨[], none⟩
      ⟨[], some [⟨.farmer, some 1, some 1, 98, none⟩]⟩ [⟨.farmer, some 1, some 1, 98, none⟩]
      (by decide +kernel)
    exact absurd hdurable (by decide +kernel)

/-- Whenever the release of a deal commits, its rows are not negative, but they add up to the
    deal's value and the pool again, and the transaction that a farmer's row names pays him nothing
    unless he is the platform or an investor. Called on its own, `distributePayment` commits what
    it returns exactly when that is nothing. -/
theorem payouts_never_conserved {c : Nat} (hdeal : q.deal = some deal)
    (htotal : deal.totalValue = fromCents c)
    (htokens : ∀ inv ∈ q.investments, 0 < inv.tokenAmount) :
    (∀ rejections db db' txs, processDealDelivered q rejections db = (.ok (some txs), db') →
      ∃ rows, db'.committed = db.committed ++ rows ∧ Recorded c rows ∧
        (∀ row ∈ rows, Outside q row.walletAddress → ¬ PaidIn txs row) ∧
        ¬ LedgerConserved deal.totalValue txs rows) ∧
    (∀ stellarTxId db db' rows, distributePayment q true stellarTxId db = (.ok rows, db') →
      (db'.committed = db.committed ++ rows ↔ c = 0)) := by
  constructor
  · intro rejections db db' txs h
    obtain ⟨deal', hdeal', hne, hrelease, hwrite⟩ := processDealDelivered_committed h
    obtain rfl := Option.some.inj (hdeal.symm.trans hdeal')
    have hpositive : 0 < c := by
      have hstroops : 0 < deal.totalValue * 10000000 := (releaseEscrow_eq_ok hrelease).1.total_pos
      rw [htotal, fromCents] at hstroops
      by_contra hzero
      obtain rfl : c = 0 := by omega
      simp at hstroops
    obtain ⟨rows, hrows, hrecorded⟩ := writeDistributions_eq_ok (Int.natCast_nonneg c) hdeal htotal
      hne (fun inv hinv => (htokens inv hinv).le) hwrite
    refine ⟨rows, hrows, hrecorded, fun row _ => not_paid_of_outside htotal hrelease, ?_⟩
    intro hconserved
    have htwice := hrecorded.total_eq.symm.trans hconserved.total_eq
    have hpool : 0 < fromCents (poolCents c) :=
      fromCents_pos (poolCents_pos (by exact_mod_cast hpositive))
    rw [htotal] at htwice
    linarith
  · intro stellarTxId db db' rows h
    obtain ⟨hcommitted, db₁, hrows⟩ := distributePayment_alone h
    rw [hcommitted, List.self_eq_append_right]
    exact farmerRows_eq_nil_iff hdeal htotal hrows

/-- A lead farmer with a co-farmer, and two investors, one without a trustline, for 33.33 USD. -/
def cooperative : PayoutRequest Nat Nat where
  deal := some ⟨true, 3333 / 100, 1, some 1⟩
  investments := [⟨4, some 4, 1⟩, ⟨5, some 5, 2⟩]
  coFarmers := [⟨2, some 2, 51 / 2⟩]
  platformWallet := 0
  hasUsdcTrustline := fun i => i = 0
  maxFee := 10000
  fails := fun _ => false

theorem payouts_never_conserved_sample :
    (∃ txs rows, processDealDelivered cooperative (fun _ => 0) ⟨[], none⟩ =
      (.ok (some txs), ⟨rows, none⟩) ∧ Recorded 3333 rows ∧
        ¬ LedgerConserved (3333 / 100) txs rows) ∧
    (∃ rows db, distributePayment cooperative true none ⟨[], none⟩ = (.ok rows, db) ∧
      ¬ db.committed = rows) := by
  have hnever := payouts_never_conserved (q := cooperative) (c := 3333) rfl (by decide +kernel)
    (by decide +kernel)
  constructor
  · have hcommit : processDealDelivered cooperative (fun _ => 0) ⟨[], none⟩ =
        (.ok (some [⟨100, [.payment 4 108878000, .createClaimableBalance 5 217756000,
          .payment 0 6666000]⟩]),
        ⟨[⟨.farmer, some 1, some 1, 2433 / 100, some 0⟩,
          ⟨.farmer, some 2, some 2, 833 / 100, some 0⟩,
          ⟨.investor, some 4, some 4, 1088 / 100, some 0⟩,
          ⟨.investor, some 5, some 5, 2178 / 100, some 0⟩,
          ⟨.platform, none, some 0, 67 / 100, some 0⟩], none⟩) := by decide +kernel
    obtain ⟨rows, hrows, hrecorded, _, hnot⟩ := hnever.1 _ _ _ _ hcommit
    obtain rfl : _ = rows := hrows
    exact ⟨_, _, hcommit, hrecorded, hnot⟩
  · have hreturn : distributePayment cooperative true none ⟨[], none⟩ =
        (.ok [⟨.farmer, some 1, some 1, 2433 / 100, none⟩,
          ⟨.farmer, some 2, some 2, 833 / 100, none⟩],
        ⟨[], some [⟨.farmer, some 1, some 1, 2433 / 100, none⟩,
          ⟨.farmer, some 2, some 2, 833 / 100, none⟩]⟩) := by decide +kernel
    have hdurable := hnever.2 _ _ _ _ hreturn
    exact ⟨_, _, hreturn, fun hcommitted => absurd (hdurable.mp hcommitted) (by decide)⟩

end AgriFi.EscrowService
