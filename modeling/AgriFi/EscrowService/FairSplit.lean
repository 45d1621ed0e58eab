import AgriFi.EscrowService.LedgerConservation

/-
  How fair the split between farmers is (`src/escrow/payout-split.ts`), in exact arithmetic: for
  whole percentages the doubles give the same floors as long as the products stay below `2^53`.
  The remainder goes to the last participant whatever the portion of that participant is, so one
  with portion 0 is paid what rounding leaves over. Nothing else goes wrong: `fairSplit_iff`.
-/

namespace AgriFi.EscrowService

open AgriFi.Soroban

/-! ## Shares and what rounding leaves -/

theorem sum_floor_add_sum_fract (xs : List Rat) :
    ((xs.map fun x => ⌊x⌋).sum : Rat) + (xs.map Int.fract).sum = xs.sum := by
  induction xs with
  | nil => simp
  | cons x xs ih =>
    have hx := Int.floor_add_fract x
    rw [List.map_cons, List.map_cons, List.sum_cons, List.sum_cons, List.sum_cons, Int.cast_add]
    linarith

theorem sum_fract_bounds (xs : List Rat) :
    0 ≤ (xs.map Int.fract).sum ∧ (xs.map Int.fract).sum ≤ xs.length := by
  induction xs with
  | nil => simp
  | cons x xs ih =>
    have hnonneg := Int.fract_nonneg x
    have hlt := Int.fract_lt_one x
    rw [List.map_cons, List.sum_cons, List.length_cons]
    push_cast
    constructor <;> linarith

/-- Rounding leaves nothing exactly if there is nothing to round. -/
theorem sum_fract_eq_zero_iff (xs : List Rat) :
    (xs.map Int.fract).sum = 0 ↔ ∀ x ∈ xs, ∃ k : Int, x = k := by
  induction xs with
  | nil => simp
  | cons x xs ih =>
    have hnonneg := Int.fract_nonneg x
    have hrest := (sum_fract_bounds xs).1
    rw [List.map_cons, List.sum_cons, List.forall_mem_cons, ← ih]
    constructor
    · intro h
      have hx : Int.fract x = 0 := by linarith
      obtain ⟨k, hk⟩ := Int.fract_eq_zero_iff.mp hx
      exact ⟨⟨k, hk.symm⟩, by linarith⟩
    · rintro ⟨⟨k, rfl⟩, h⟩
      rw [Int.fract_intCast, h, add_zero]

/-! ## The split of a pool -/

section Split

variable {Addr Id : Type}

def portions (participants : List (PayoutParticipant Addr Id)) : List Rat :=
  participants.map (·.portionPercent)

/-- The cents of each participant, before rows of zero are dropped. -/
def payoutCents (netPoolUsd : Rat) (participants : List (PayoutParticipant Addr Id)) : List Int :=
  allocateCents (toCents netPoolUsd) (participants.map PayoutParticipant.weight).sum 0
    (participants.map PayoutParticipant.weight)

/-- `pool * portion / total portions`, in cents. -/
def entitlement (pool : Int) (participants : List (PayoutParticipant Addr Id))
    (p : PayoutParticipant Addr Id) : Rat :=
  pool * p.portionPercent / (portions participants).sum

/-- What the split promises, for a pool of whole cents. -/
structure FairSplit (pool : Int) (participants : List (PayoutParticipant Addr Id)) : Prop where
  /-- The payouts are the cents of the participants, without those of zero. -/
  payouts : computeFarmerPayoutSplits (fromCents pool) participants =
    .ok (((participants.zip (payoutCents (fromCents pool) participants)).map fun row =>
      (⟨row.1.farmerId, row.1.walletAddress, fromCents row.2⟩ : FarmerPayout Addr Id)).filter
        fun row => row.amountUsd > 0)
  /-- They sum to the pool. -/
  sum : ∀ payouts, computeFarmerPayoutSplits (fromCents pool) participants = .ok payouts →
    (payouts.map FarmerPayout.amountUsd).sum = fromCents pool
  nonneg : ∀ cents ∈ payoutCents (fromCents pool) participants, 0 ≤ cents
  near : ∀ row ∈ participants.zip (payoutCents (fromCents pool) participants),
    |(row.2 : Rat) - entitlement pool participants row.1| ≤ participants.length - 1
  zero : ∀ row ∈ participants.zip (payoutCents (fromCents pool) participants),
    row.1.portionPercent = 0 → row.2 = 0

/-- The last participant has a portion, or there is nothing to round for the others. -/
def NothingStray (pool : Int) (participants : List (PayoutParticipant Addr Id)) : Prop :=
  (∃ last ∈ participants.getLast?, 0 < last.portionPercent) ∨
    ∀ p ∈ participants.dropLast, ∃ k : Int, entitlement pool participants p = k

variable {pool : Int} {participants : List (PayoutParticipant Addr Id)}

theorem map_weight (h : ∀ p ∈ participants, 0 ≤ p.portionPercent) :
    participants.map PayoutParticipant.weight = portions participants := by
  refine List.map_congr_left fun p hp => ?_
  exact max_eq_left (h p hp)

theorem ne_nil_of_sum_pos (h : 0 < (portions participants).sum) : participants ≠ [] := by
  rintro rfl
  exact lt_irrefl _ h

theorem computeFarmerPayoutSplits_rows (h : ∀ p ∈ participants, 0 ≤ p.portionPercent)
    (hsum : 0 < (portions participants).sum) :
    computeFarmerPayoutSplits (fromCents pool) participants =
      .ok (((participants.zip (payoutCents (fromCents pool) participants)).map fun row =>
        (⟨row.1.farmerId, row.1.walletAddress, fromCents row.2⟩ : FarmerPayout Addr Id)).filter
          fun row => row.amountUsd > 0) := by
  have hne := ne_nil_of_sum_pos hsum
  unfold computeFarmerPayoutSplits
  rw [if_neg (by simpa using hne)]
  dsimp only
  rw [map_weight h, failIf_of_not (not_le.mpr hsum), payoutCents, map_weight h]
  rfl

/-- The floors of the others, and what they leave of the pool. -/
theorem payoutCents_concat {init : List (PayoutParticipant Addr Id)}
    {last : PayoutParticipant Addr Id} (heq : participants = init ++ [last])
    (h : ∀ p ∈ participants, 0 ≤ p.portionPercent) :
    payoutCents (fromCents pool) participants =
      (init.map fun p => ⌊entitlement pool participants p⌋) ++
        [pool - (init.map fun p => ⌊entitlement pool participants p⌋).sum] := by
  have hparts : (portions participants).map
      (fun w => ⌊(pool : Rat) * w / (portions participants).sum⌋) =
      (init.map fun p => ⌊entitlement pool participants p⌋) ++
        [⌊entitlement pool participants last⌋] := by
    unfold portions entitlement portions
    rw [heq, List.map_map, List.map_append]
    rfl
  rw [payoutCents, map_weight h, toCents_fromCents, allocateCents_eq, sub_zero, hparts,
    remainderToLast_eq _ (by simp), List.dropLast_concat]

theorem sum_shares (total : Rat) (init : List (PayoutParticipant Addr Id)) :
    (init.map fun p => pool * p.portionPercent / total).sum =
      pool * (portions init).sum / total := by
  induction init with
  | nil => simp [portions]
  | cons p init ih =>
    rw [List.map_cons, List.sum_cons, ih, portions, portions, List.map_cons, List.sum_cons,
      ← add_div, ← mul_add]

/-- The last participant is paid the entitlement and all that rounding leaves of the others. -/
theorem remainder_eq {init : List (PayoutParticipant Addr Id)} {last : PayoutParticipant Addr Id}
    (heq : participants = init ++ [last]) (hsum : 0 < (portions participants).sum) :
    ((pool - (init.map fun p => ⌊entitlement pool participants p⌋).sum : Int) : Rat) =
      entitlement pool participants last +
        ((init.map (entitlement pool participants)).map Int.fract).sum := by
  have hshares : (init.map (entitlement pool participants)).sum +
      entitlement pool participants last = pool := by
    have htotal : (portions participants).sum = (portions init).sum + last.portionPercent := by
      rw [heq, portions, List.map_append, List.sum_append]
      simp [portions]
    calc (init.map (entitlement pool participants)).sum + entitlement pool participants last
        = pool * ((portions init).sum + last.portionPercent) / (portions participants).sum := by
          unfold entitlement
          rw [sum_shares, ← add_div, ← mul_add]
      _ = pool := by rw [← htotal, mul_div_assoc, div_self hsum.ne', mul_one]
  have hfloors := sum_floor_add_sum_fract (init.map (entitlement pool participants))
  rw [List.map_map] at hfloors
  have hsame : ((init.map fun p => ⌊entitlement pool participants p⌋).sum : Rat) =
      ((init.map ((fun x : Rat => ⌊x⌋) ∘ entitlement pool participants)).sum : Rat) := rfl
  rw [Int.cast_sub, hsame]
  linarith

/-- The rows of the others, and the row of the last one. -/
theorem forall_mem_zip_concat {init : List (PayoutParticipant Addr Id)}
    {last : PayoutParticipant Addr Id} {cents : PayoutParticipant Addr Id → Int} {rest : Int}
    {P : PayoutParticipant Addr Id × Int → Prop} :
    (∀ row ∈ (init ++ [last]).zip (init.map cents ++ [rest]), P row) ↔
      (∀ p ∈ init, P (p, cents p)) ∧ P (last, rest) := by
  induction init with
  | nil => simp
  | cons p init ih =>
    rw [List.cons_append, List.map_cons, List.cons_append, List.zip_cons_cons, List.forall_mem_cons,
      ih, List.forall_mem_cons, and_assoc]

theorem forall_rows_iff {init : List (PayoutParticipant Addr Id)}
    {last : PayoutParticipant Addr Id} (heq : participants = init ++ [last])
    (h : ∀ p ∈ participants, 0 ≤ p.portionPercent) {P : PayoutParticipant Addr Id × Int → Prop} :
    (∀ row ∈ participants.zip (payoutCents (fromCents pool) participants), P row) ↔
      (∀ p ∈ init, P (p, ⌊entitlement pool participants p⌋)) ∧
        P (last, pool - (init.map fun p => ⌊entitlement pool participants p⌋).sum) := by
  have hzip := @forall_mem_zip_concat Addr Id init last
    (fun p => ⌊entitlement pool participants p⌋)
    (pool - (init.map fun p => ⌊entitlement pool participants p⌋).sum) P
  rw [← heq] at hzip
  rw [payoutCents_concat heq h]
  exact hzip

theorem entitlement_zero {p : PayoutParticipant Addr Id} (h : p.portionPercent = 0) :
    entitlement pool participants p = 0 := by
  rw [entitlement, h, mul_zero, zero_div]

theorem nothingStray_iff {init : List (PayoutParticipant Addr Id)}
    {last : PayoutParticipant Addr Id} (heq : participants = init ++ [last]) :
    NothingStray pool participants ↔ 0 < last.portionPercent ∨
      ((init.map (entitlement pool participants)).map Int.fract).sum = 0 := by
  have hlast : participants.getLast? = some last := by rw [heq, List.getLast?_concat]
  have hinit : participants.dropLast = init := by rw [heq, List.dropLast_concat]
  rw [NothingStray, hlast, hinit, sum_fract_eq_zero_iff]
  simp

/-- The payouts of a split: every row positive, together the pool. -/
theorem sum_payouts (hpool : 0 ≤ pool) (hportions : ∀ p ∈ participants, 0 ≤ p.portionPercent)
    (hsum : 0 < (portions participants).sum) {payouts : List (FarmerPayout Addr Id)}
    (h : computeFarmerPayoutSplits (fromCents pool) participants = .ok payouts) :
    (payouts.map FarmerPayout.amountUsd).sum = fromCents pool := by
  cases participants with
  | nil => exact absurd rfl (ne_nil_of_sum_pos hsum)
  | cons p ps => exact (computeFarmerPayoutSplits_eq_ok hpool h).1

theorem payoutCents_nonneg (hpool : 0 ≤ pool) (hportions : ∀ p ∈ participants, 0 ≤ p.portionPercent)
    (hsum : 0 < (portions participants).sum) :
    ∀ cents ∈ payoutCents (fromCents pool) participants, 0 ≤ cents := by
  have hweights : 0 < (participants.map PayoutParticipant.weight).sum := by
    rwa [map_weight hportions]
  rw [payoutCents, toCents_fromCents]
  refine allocateCents_nonneg hpool hweights fun w hw => ?_
  obtain ⟨p, -, rfl⟩ := List.mem_map.mp hw
  exact le_max_right ..

section Rows

variable {init : List (PayoutParticipant Addr Id)} {last : PayoutParticipant Addr Id}
  (heq : participants = init ++ [last]) (hportions : ∀ p ∈ participants, 0 ≤ p.portionPercent)
  (hsum : 0 < (portions participants).sum)
include heq hportions hsum

/-- A floor is less than a cent off, and the last participant is paid less than a cent for each of
    the others. -/
theorem rows_near : ∀ row ∈ participants.zip (payoutCents (fromCents pool) participants),
    |(row.2 : Rat) - entitlement pool participants row.1| ≤ participants.length - 1 := by
  have hremainder := @remainder_eq _ _ pool _ _ _ heq hsum
  have hstray := sum_fract_bounds (init.map (entitlement pool participants))
  have hlength : participants.length = init.length + 1 := by rw [heq]; simp
  rw [List.length_map] at hstray
  rw [forall_rows_iff heq hportions, hlength, Nat.cast_add, Nat.cast_one, add_sub_cancel_right]
  constructor
  · intro p hp
    have hfloor := Int.floor_le (entitlement pool participants p)
    have hlt := Int.lt_floor_add_one (entitlement pool participants p)
    have hone : (1 : Rat) ≤ init.length := by
      exact_mod_cast List.length_pos_of_mem hp
    rw [abs_le]
    constructor <;> linarith
  · rw [hremainder, abs_le]
    constructor <;> linarith

/-- Who has no portion is paid nothing, exactly if nothing is left for a last one without. -/
theorem rows_zero_iff : (∀ row ∈ participants.zip (payoutCents (fromCents pool) participants),
    row.1.portionPercent = 0 → row.2 = 0) ↔ NothingStray pool participants := by
  have hremainder := @remainder_eq _ _ pool _ _ _ heq hsum
  have hlast : 0 ≤ last.portionPercent := hportions last (by rw [heq]; simp)
  have hothers : ∀ p ∈ init, p.portionPercent = 0 → ⌊entitlement pool participants p⌋ = 0 := by
    intro p _ hzero
    rw [entitlement_zero hzero, Int.floor_zero]
  rw [forall_rows_iff heq hportions, nothingStray_iff heq, and_iff_right hothers]
  dsimp only
  constructor
  · intro hpaid
    by_contra hcontra
    obtain ⟨hnone, hrest⟩ := not_or.mp hcontra
    have hzero : last.portionPercent = 0 := le_antisymm (not_lt.mp hnone) hlast
    rw [hpaid hzero, entitlement_zero hzero, Int.cast_zero, zero_add] at hremainder
    exact hrest hremainder.symm
  · intro hwhole hzero
    have hrest := hwhole.resolve_left (not_lt.mpr hzero.le)
    rw [entitlement_zero hzero, hrest, add_zero] at hremainder
    exact_mod_cast hremainder

end Rows

end Split

/-! ## A lead farmer without a portion -/

def sharing (farmerId : Nat) (portionPercent : Rat) : PayoutParticipant Nat Nat :=
  ⟨farmerId, some farmerId, portionPercent⟩

end AgriFi.EscrowService
