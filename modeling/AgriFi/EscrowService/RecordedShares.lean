import AgriFi.EscrowService.LedgerConservation

/-
  The amounts a release records against the amounts it pays. Both split 98% of the deal's value,
  the database in cents, with the platform's part rounded to a cent first, and `releaseEscrow` in
  stroops. `recorded_amounts_close`: an investor's two amounts differ by less than a cent for each
  investor; all but the last are recorded as the cents of what they are paid, up to one cent, and
  as exactly these when the platform's 2% are whole cents.
-/

namespace AgriFi.EscrowService

open AgriFi.Soroban AgriFi.Stellar

/-- An amount of stroops, in cents. -/
def centsPaid (stroops : Int) : Rat := stroops / 100000

/-! ## One share -/

section Share

variable {poolC pool : Rat} {total w : Rat}

/-- A part of a difference of at most one half. -/
theorem abs_mul_le_half {d f : Rat} (hd : |d| ≤ 1 / 2) (h0 : 0 ≤ f) (h1 : f ≤ 1) :
    |d * f| ≤ 1 / 2 := by
  rw [abs_mul, abs_of_nonneg h0]
  calc |d| * f ≤ |d| * 1 := mul_le_mul_of_nonneg_left h1 (abs_nonneg d)
    _ ≤ 1 / 2 := by rwa [mul_one]

/-- One share in cents of a pool of `poolC` cents and in stroops of a pool of `pool` stroops. -/
theorem share_diff (poolC pool total w : Rat) :
    (poolC - pool / 100000) * (w / total) - 1 ≤
        ⌊poolC * w / total⌋ - centsPaid ⌊w / total * pool⌋ ∧
      ⌊poolC * w / total⌋ - centsPaid ⌊w / total * pool⌋ ≤
        (poolC - pool / 100000) * (w / total) + 1 := by
  have hcents : poolC * w / total = poolC * (w / total) := mul_div_assoc ..
  have hle := Int.floor_le (poolC * w / total)
  have hlt := Int.lt_floor_add_one (poolC * w / total)
  have hle' := Int.floor_le (w / total * pool)
  have hlt' := Int.lt_floor_add_one (w / total * pool)
  unfold centsPaid
  rw [hcents] at hle hlt ⊢
  constructor <;> linarith

/-- The cents of a share that was paid are the share's cents. -/
theorem floor_centsPaid (x : Rat) : ⌊centsPaid ⌊x⌋⌋ = ⌊x / 100000⌋ := by
  have hpaid : ⌊((⌊x⌋ : Int) : Rat) / (100000 : Nat)⌋ = ⌊x⌋ / ((100000 : Nat) : Int) :=
    Rat.floor_intCast_div_natCast _ _
  have hexact : ⌊x / (100000 : Nat)⌋ = ⌊x⌋ / ((100000 : Nat) : Int) := Int.floor_div_natCast _ _
  have hcast : ((100000 : Nat) : Rat) = 100000 := by norm_num
  rw [hcast] at hpaid hexact
  exact hpaid.trans hexact.symm

theorem share_floor_diff (hpool : |poolC - pool / 100000| ≤ 1 / 2) (h0 : 0 ≤ w / total)
    (h1 : w / total ≤ 1) :
    |⌊poolC * w / total⌋ - ⌊centsPaid ⌊w / total * pool⌋⌋| ≤ 1 := by
  have hcents : poolC * w / total = poolC * (w / total) := mul_div_assoc ..
  rw [floor_centsPaid, hcents]
  have hdiff : |poolC * (w / total) - w / total * pool / 100000| ≤ 1 / 2 := by
    have hfactor : poolC * (w / total) - w / total * pool / 100000 =
        (poolC - pool / 100000) * (w / total) := by ring
    rw [hfactor]
    exact abs_mul_le_half hpool h0 h1
  obtain ⟨hlow, hhigh⟩ := abs_le.mp hdiff
  have hle := Int.floor_le (poolC * (w / total))
  have hlt := Int.lt_floor_add_one (poolC * (w / total))
  have hle' := Int.floor_le (w / total * pool / 100000)
  have hlt' := Int.lt_floor_add_one (w / total * pool / 100000)
  rw [abs_le]
  constructor
  · have hcast : (⌊w / total * pool / 100000⌋ : Rat) < ⌊poolC * (w / total)⌋ + 2 := by linarith
    have hint : ⌊w / total * pool / 100000⌋ < ⌊poolC * (w / total)⌋ + 2 := by exact_mod_cast hcast
    omega
  · have hcast : (⌊poolC * (w / total)⌋ : Rat) < ⌊w / total * pool / 100000⌋ + 2 := by linarith
    have hint : ⌊poolC * (w / total)⌋ < ⌊w / total * pool / 100000⌋ + 2 := by exact_mod_cast hcast
    omega

/-- A pool of whole cents gives both splits the same cents. -/
theorem share_floor_eq (hpool : poolC = pool / 100000) :
    ⌊poolC * w / total⌋ = ⌊centsPaid ⌊w / total * pool⌋⌋ := by
  rw [floor_centsPaid, hpool]
  congr 1
  ring

/-- The differences of several shares. -/
theorem sum_share_diff (poolC pool total : Rat) (ws : List Rat) :
    (poolC - pool / 100000) * (ws.sum / total) - ws.length ≤
        (ws.map fun w => ⌊poolC * w / total⌋).sum -
          centsPaid (ws.map fun w => ⌊w / total * pool⌋).sum ∧
      (ws.map fun w => ⌊poolC * w / total⌋).sum -
          centsPaid (ws.map fun w => ⌊w / total * pool⌋).sum ≤
        (poolC - pool / 100000) * (ws.sum / total) + ws.length := by
  induction ws with
  | nil => simp [centsPaid]
  | cons w ws ih =>
    have hshare := share_diff poolC pool total w
    unfold centsPaid at ih hshare ⊢
    rw [List.map_cons, List.map_cons, List.sum_cons, List.sum_cons, List.sum_cons, List.length_cons,
      add_div, Int.cast_add, Int.cast_add, Nat.cast_add, Nat.cast_one]
    constructor
    · linarith [ih.1, hshare.1]
    · linarith [ih.2, hshare.2]

end Share

/-! ## The last share -/

section Last

variable {pool : Int} {parts : List Int} {i : Nat} {a : Int}

theorem getElem?_remainderToLast (hi : i + 1 < parts.length)
    (h : (remainderToLast pool parts)[i]? = some a) : parts[i]? = some a := by
  have hne : parts ≠ [] := by
    rintro rfl
    simp at hi
  rw [remainderToLast_eq pool hne, List.getElem?_append_left (by simp; omega),
    List.getElem?_dropLast, if_pos (by omega)] at h
  exact h

theorem getElem?_remainderToLast_last (hi : i + 1 = parts.length)
    (h : (remainderToLast pool parts)[i]? = some a) : a = pool - parts.dropLast.sum := by
  have hne : parts ≠ [] := by
    rintro rfl
    simp at hi
  have hlength : i = parts.dropLast.length := by simp; omega
  rw [remainderToLast_eq pool hne, hlength, List.getElem?_concat_length] at h
  exact (Option.some.inj h).symm

end Last

/-! ## The two splits of a release -/

variable {Addr : Type} {q : ReleaseRequest Addr} {rejections : Nat → Nat}
  {txs : List (Transaction Addr)} {c : Nat}

def tokens (q : ReleaseRequest Addr) : List Rat := q.investorShares.map InvestorShare.tokenAmount

/-- The stroops of the investors of a release that no retry disturbs. -/
def paidStroops (q : ReleaseRequest Addr) (pool : Int) : List Int :=
  remainderToLast pool (q.investorShares.map (shareStroops q.plan))

/-- The operations that pay `stroops` to the investors, from `globalIdx` on. -/
def shareOperations (q : ReleaseRequest Addr) :
    Nat → List (InvestorShare Addr) → List Int → List (Operation Addr)
  | globalIdx, share :: shares, n :: stroops =>
    shareOperation q globalIdx share n ++ shareOperations q (globalIdx + 1) shares stroops
  | _, _, _ => []

theorem shareOperations_concat (i : Nat) (l : List (InvestorShare Addr)) (s : InvestorShare Addr)
    (n : Int) :
    shareOperations q i (l ++ [s]) (l.map (shareStroops q.plan) ++ [n]) =
      floorOperations q q.plan i l ++ shareOperation q (i + l.length) s n := by
  induction l generalizing i with
  | nil => simp [shareOperations, floorOperations]
  | cons s' l ih =>
    rw [List.cons_append, List.map_cons, List.cons_append, shareOperations, ih, floorOperations,
      List.append_assoc, List.length_cons, Nat.add_right_comm, Nat.add_assoc]

/-- An undisturbed release pays the shares and the platform. -/
theorem allOperations_shares (hpos : ∀ s ∈ q.investorShares, 0 < s.tokenAmount) {pool : Int}
    (hpool : q.investorPool = pool) (hu : Undisturbed q rejections)
    (h : releaseEscrow q rejections = .ok txs) :
    allOperations txs = shareOperations q 0 q.investorShares (paidStroops q pool) ++
      [.payment q.platformWallet q.platformStroops] := by
  have hvalid := (releaseEscrow_eq_ok h).1
  have hne := hvalid.shares_ne_nil
  have hsplit : shareOperations q 0 q.investorShares (paidStroops q pool) =
      floorOperations q q.plan 0 q.investorShares.dropLast ++
        shareOperation q (q.investorShares.length - 1) (q.investorShares.getLast hne)
          (pool - floorSum q.plan q.investorShares.dropLast : Int) := by
    have hconcat := shareOperations_concat (q := q) 0 q.investorShares.dropLast
      (q.investorShares.getLast hne) (pool - floorSum q.plan q.investorShares.dropLast)
    rw [List.dropLast_append_getLast, List.length_dropLast, Nat.zero_add] at hconcat
    rw [paidStroops, remainderToLast_eq pool (by simpa using hne), ← List.map_dropLast]
    exact hconcat
  rw [allOperations_eq hvalid hpool h, lastWhole_of_undisturbed hvalid hpos hu, hsplit]

/-! ### A total of whole cents -/

theorem totalStroops_cents (htotal : q.totalValue = fromCents c) :
    q.totalStroops = (100000 * c : Int) := by
  rw [ReleaseRequest.totalStroops, htotal, fromCents]
  push_cast
  ring

theorem platformStroops_cents (htotal : q.totalValue = fromCents c) :
    q.platformStroops = 2000 * c := by
  have hexact : q.totalStroops * (2 / 100) = (2000 * c : Int) := by
    rw [totalStroops_cents htotal]
    push_cast
    ring
  rw [ReleaseRequest.platformStroops, hexact, Int.floor_intCast]

theorem investorPool_cents (htotal : q.totalValue = fromCents c) :
    q.investorPool = (98000 * c : Int) := by
  rw [investorPool_whole (totalStroops_cents htotal), platformStroops_cents htotal]
  congr 1
  ring

/-- The pool in cents is the pool in stroops, up to half a cent. -/
theorem poolCents_near (c : Nat) : |(poolCents c : Rat) - (98000 * c : Int) / 100000| ≤ 1 / 2 := by
  obtain ⟨hlow, hhigh⟩ := platformCents_bounds c
  unfold poolCents
  push_cast at hlow hhigh ⊢
  rw [abs_le]
  constructor <;> linarith

/-- 50 divides the total: the platform's part is whole cents. -/
theorem poolCents_eq (h : 50 ∣ c) : (poolCents c : Rat) = (98000 * c : Int) / 100000 := by
  obtain ⟨k, rfl⟩ := h
  have hplatform : platformCents (50 * k : Nat) = k := by
    unfold platformCents mathRound
    rw [Int.floor_eq_iff]
    push_cast
    constructor <;> linarith
  unfold poolCents
  rw [hplatform]
  push_cast
  ring

/-! ### The recorded amounts -/

/-- The recorded cents of the investors. -/
def recordedCents (q : ReleaseRequest Addr) (c : Nat) : List Int :=
  allocateCents (poolCents c) (tokens q).sum 0 (tokens q)

theorem recordedCents_eq (q : ReleaseRequest Addr) (c : Nat) :
    recordedCents q c = remainderToLast (poolCents c)
      ((tokens q).map fun w => ⌊poolCents c * w / (tokens q).sum⌋) := by
  rw [recordedCents, allocateCents_eq, sub_zero]

theorem paidStroops_eq (htotal : q.totalValue = fromCents c) :
    paidStroops q (98000 * c) = remainderToLast (98000 * c)
      ((tokens q).map fun w => ⌊w / (tokens q).sum * (98000 * c : Int)⌋) := by
  have hshare : (shareStroops q.plan : InvestorShare Addr → Int) =
      (fun w => ⌊w / (tokens q).sum * (98000 * c : Int)⌋) ∘ InvestorShare.tokenAmount := by
    funext s
    rw [← investorPool_cents htotal]
    rfl
  rw [paidStroops, hshare, ← List.map_map]
  rfl

/-- What is recorded for `n` investors of a deal worth `c` cents, in USD, against the stroops they
    are paid. -/
structure CloseToPaid (c n : Nat) (amounts : List Rat) (stroops : List Int) : Prop where
  length_amounts : amounts.length = n
  length_stroops : stroops.length = n
  near : ∀ ⦃i : Nat⦄ ⦃a : Rat⦄ ⦃s : Int⦄, amounts[i]? = some a → stroops[i]? = some s →
    |a * 100 - centsPaid s| < n
  floored : ∀ ⦃i : Nat⦄ ⦃a : Rat⦄ ⦃s : Int⦄, i + 1 < n → amounts[i]? = some a →
    stroops[i]? = some s → |a * 100 - ⌊centsPaid s⌋| ≤ 1
  floored_exactly : 50 ∣ c → ∀ ⦃i : Nat⦄ ⦃a : Rat⦄ ⦃s : Int⦄, i + 1 < n → amounts[i]? = some a →
    stroops[i]? = some s → a * 100 = ⌊centsPaid s⌋

section Close

variable {ws : List Rat} {i : Nat} {r s : Int}

/-- The `i`-th entries of the two splits of all but the last. -/
theorem getElem?_shares (hi : i + 1 < ws.length)
    (hr : (remainderToLast (poolCents c) (ws.map fun w => ⌊poolCents c * w / ws.sum⌋))[i]? = some r)
    (hs : (remainderToLast (98000 * c)
      (ws.map fun w => ⌊w / ws.sum * (98000 * c : Int)⌋))[i]? = some s) :
    ∃ w ∈ ws, r = ⌊poolCents c * w / ws.sum⌋ ∧ s = ⌊w / ws.sum * (98000 * c : Int)⌋ := by
  have hr' := getElem?_remainderToLast (by simpa using hi) hr
  have hs' := getElem?_remainderToLast (by simpa using hi) hs
  rw [List.getElem?_map, Option.map_eq_some_iff] at hr' hs'
  obtain ⟨w, hw, rfl⟩ := hr'
  obtain ⟨v, hv, rfl⟩ := hs'
  obtain rfl := Option.some.inj (hw.symm.trans hv)
  exact ⟨w, List.mem_of_getElem? hw, rfl, rfl⟩

theorem div_sum_le_one (hw : ∀ w ∈ ws, 0 < w) {w : Rat} (h : w ∈ ws) :
    0 ≤ w / ws.sum ∧ w / ws.sum ≤ 1 := by
  have hle : w ≤ ws.sum := List.single_le_sum (fun v hv => (hw v hv).le) w h
  have hsum : 0 < ws.sum := (hw w h).trans_le hle
  exact ⟨div_nonneg (hw w h).le hsum.le, (div_le_one hsum).mpr hle⟩

theorem near_of_lt (hw : ∀ w ∈ ws, 0 < w) (hi : i + 1 < ws.length)
    (hr : (remainderToLast (poolCents c) (ws.map fun w => ⌊poolCents c * w / ws.sum⌋))[i]? = some r)
    (hs : (remainderToLast (98000 * c)
      (ws.map fun w => ⌊w / ws.sum * (98000 * c : Int)⌋))[i]? = some s) :
    |(r : Rat) - centsPaid s| < ws.length := by
  obtain ⟨w, hmem, rfl, rfl⟩ := getElem?_shares hi hr hs
  obtain ⟨h0, h1⟩ := div_sum_le_one hw hmem
  obtain ⟨hlow, hhigh⟩ := share_diff (poolCents c) (98000 * c : Int) ws.sum w
  obtain ⟨hpartLow, hpartHigh⟩ := abs_le.mp (abs_mul_le_half (poolCents_near c) h0 h1)
  have hn : (2 : Rat) ≤ ws.length := by exact_mod_cast (by omega : 2 ≤ ws.length)
  rw [abs_lt]
  constructor <;> linarith

theorem near_last (hw : ∀ w ∈ ws, 0 < w) (hi : i + 1 = ws.length)
    (hr : (remainderToLast (poolCents c) (ws.map fun w => ⌊poolCents c * w / ws.sum⌋))[i]? = some r)
    (hs : (remainderToLast (98000 * c)
      (ws.map fun w => ⌊w / ws.sum * (98000 * c : Int)⌋))[i]? = some s) :
    |(r : Rat) - centsPaid s| < ws.length := by
  obtain rfl := getElem?_remainderToLast_last (by simpa using hi) hr
  obtain rfl := getElem?_remainderToLast_last (by simpa using hi) hs
  have hne : ws ≠ [] := by
    rintro rfl
    simp at hi
  obtain ⟨hlow, hhigh⟩ := sum_share_diff (poolCents c) (98000 * c : Int) ws.sum ws.dropLast
  have hfront : ws.sum = ws.dropLast.sum + ws.getLast hne := by
    conv_lhs => rw [← List.dropLast_append_getLast hne]
    rw [List.sum_append, List.sum_singleton]
  have hlast : 0 < ws.getLast hne := hw _ (List.getLast_mem hne)
  have hnonneg : 0 ≤ ws.dropLast.sum :=
    List.sum_nonneg fun w h => (hw w (List.dropLast_subset _ h)).le
  have hsum : 0 < ws.sum := by linarith
  have h0 : 0 ≤ ws.dropLast.sum / ws.sum := div_nonneg hnonneg hsum.le
  have h1 : ws.dropLast.sum / ws.sum ≤ 1 := (div_le_one hsum).mpr (by linarith)
  have hn : (ws.length : Rat) = ws.dropLast.length + 1 := by
    rw [List.length_dropLast]
    exact_mod_cast (by omega : ws.length = ws.length - 1 + 1)
  -- of the difference of the pools the last share has what the others leave of it
  have hrest := abs_mul_le_half (poolCents_near c) (sub_nonneg.mpr h1) (sub_le_self 1 h0)
  rw [mul_sub, mul_one] at hrest
  obtain ⟨hrestLow, hrestHigh⟩ := abs_le.mp hrest
  rw [← List.map_dropLast, ← List.map_dropLast, hn, abs_lt]
  unfold centsPaid at hlow hhigh ⊢
  rw [Int.cast_sub, Int.cast_sub, sub_div]
  constructor <;> linarith

end Close

theorem fromCents_mul (r : Int) : fromCents r * 100 = r := by
  unfold fromCents
  ring

theorem closeToPaid (htotal : q.totalValue = fromCents c)
    (hpos : ∀ s ∈ q.investorShares, 0 < s.tokenAmount) :
    CloseToPaid c q.investorShares.length ((recordedCents q c).map fromCents)
      (paidStroops q (98000 * c)) := by
  have hw : ∀ w ∈ tokens q, 0 < w := by
    intro w hw
    obtain ⟨s, hs, rfl⟩ := List.mem_map.mp hw
    exact hpos s hs
  have hlength : q.investorShares.length = (tokens q).length := (List.length_map _).symm
  have hindex : ∀ {i : Nat} {a : Rat}, ((recordedCents q c).map fromCents)[i]? = some a →
      ∃ r, (remainderToLast (poolCents c)
        ((tokens q).map fun w => ⌊poolCents c * w / (tokens q).sum⌋))[i]? = some r ∧
        a * 100 = r := by
    intro i a ha
    rw [List.getElem?_map, Option.map_eq_some_iff, recordedCents_eq] at ha
    obtain ⟨r, hr, rfl⟩ := ha
    exact ⟨r, hr, fromCents_mul r⟩
  rw [hlength]
  constructor
  case length_amounts => rw [List.length_map, recordedCents, length_allocateCents]
  case length_stroops => rw [paidStroops, length_remainderToLast, List.length_map, hlength]
  case near =>
    intro i a s ha hs
    obtain ⟨r, hr, har⟩ := hindex ha
    rw [paidStroops_eq htotal] at hs
    rw [har]
    have hi : i < (tokens q).length := by
      have hi := (List.getElem?_eq_some_iff.mp hs).1
      rwa [length_remainderToLast, List.length_map] at hi
    rcases Nat.lt_or_ge (i + 1) (tokens q).length with hlt | hge
    · exact near_of_lt hw hlt hr hs
    · exact near_last hw (by omega) hr hs
  case floored =>
    intro i a s hi ha hs
    obtain ⟨r, hr, har⟩ := hindex ha
    rw [paidStroops_eq htotal] at hs
    obtain ⟨w, hmem, rfl, rfl⟩ := getElem?_shares hi hr hs
    obtain ⟨h0, h1⟩ := div_sum_le_one hw hmem
    rw [har]
    exact_mod_cast share_floor_diff (poolCents_near c) h0 h1
  case floored_exactly =>
    intro hdvd i a s hi ha hs
    obtain ⟨r, hr, har⟩ := hindex ha
    rw [paidStroops_eq htotal] at hs
    obtain ⟨w, _, rfl, rfl⟩ := getElem?_shares hi hr hs
    rw [har, share_floor_eq (poolCents_eq hdvd)]

/-- A quarter of a dollar for two investors. -/
def quarter : ReleaseRequest Nat := ⟨[⟨10, 49⟩, ⟨11, 1⟩], 0, 1 / 4, fun _ => true, 10000⟩

/-- The first investor of `quarter` is paid 24.01 cents and recorded with 23. -/
theorem recorded_cents_differ :
    ¬ ∀ (q : ReleaseRequest Nat) (txs : List (Transaction Nat)) (amounts : List Rat),
      (∀ s ∈ q.investorShares, 0 < s.tokenAmount) →
      (q.investorShares.map InvestorShare.walletAddress).Nodup →
      releaseEscrow q (fun _ => 0) = .ok txs →
      allocateProportionalAmounts (splitTotalValue q.totalValue).2 (tokens q) = .ok amounts →
      ∀ i share a, i + 1 < q.investorShares.length → q.investorShares[i]? = some share →
        amounts[i]? = some a → a * 100 = ⌊centsPaid (received share.walletAddress txs)⌋ := by
  intro h
  have hfloor := h quarter [⟨100, [.payment 10 2401000, .payment 11 49000, .payment 0 50000]⟩]
    [23 / 100, 1 / 100] (by decide +kernel) (by decide +kernel) (by decide +kernel)
    (by decide +kernel) 0 ⟨10, 49⟩ (23 / 100) (by decide) rfl rfl
  exact absurd hfloor (by decide +kernel)

/-- In a release that no retry disturbs, what is recorded for each investor is close to what he is
    paid, and the platform's recorded amount is its paid amount rounded to cents. -/
theorem recorded_amounts_close (htotal : q.totalValue = fromCents c)
    (hpos : ∀ s ∈ q.investorShares, 0 < s.tokenAmount) (hu : Undisturbed q rejections)
    (h : releaseEscrow q rejections = .ok txs) :
    ∃ amounts stroops,
      allocateProportionalAmounts (splitTotalValue q.totalValue).2 (tokens q) = .ok amounts ∧
      allOperations txs = shareOperations q 0 q.investorShares stroops ++
        [.payment q.platformWallet q.platformStroops] ∧
      CloseToPaid c q.investorShares.length amounts stroops ∧
      (splitTotalValue q.totalValue).1 = fromCents (mathRound (centsPaid q.platformStroops)) := by
  have hvalid := (releaseEscrow_eq_ok h).1
  have hne : tokens q ≠ [] := by simpa [tokens] using hvalid.shares_ne_nil
  have hsum : ¬ (tokens q).sum ≤ 0 := not_le.mpr hvalid.tokens_pos
  refine ⟨(recordedCents q c).map fromCents, paidStroops q (98000 * c), ?_,
    allOperations_shares hpos (investorPool_cents htotal) hu h, closeToPaid htotal hpos, ?_⟩
  · rw [htotal, splitTotalValue_fromCents]
    unfold allocateProportionalAmounts
    rw [if_neg hne, failIf_bind_eq_ok, toCents_fromCents]
    exact ⟨hsum, rfl⟩
  · have hcents : ((c : Int) : Rat) * (2 / 100) = centsPaid (2000 * c) := by
      unfold centsPaid
      push_cast
      ring
    rw [htotal, splitTotalValue_fromCents, platformStroops_cents htotal, platformCents, hcents]

theorem recorded_amounts_close_sample :
    ∃ txs amounts stroops, releaseEscrow quarter (fun _ => 0) = .ok txs ∧
      allocateProportionalAmounts (splitTotalValue (1 / 4)).2 [49, 1] = .ok amounts ∧
      CloseToPaid 25 2 amounts stroops := by
  obtain ⟨txs, htxs⟩ := releaseEscrow_ok (q := quarter) ⟨by decide +kernel, by decide +kernel⟩
  obtain ⟨amounts, stroops, hamounts, _, hclose, _⟩ :=
    recorded_amounts_close (c := 25) (by decide +kernel) (by decide +kernel)
      (undisturbed_of_none quarter ⟨2500000, by decide +kernel⟩) htxs
  exact ⟨txs, amounts, stroops, htxs, hamounts, hclose⟩

end AgriFi.EscrowService
