import Mathlib.Algebra.Order.Field.Rat
import Mathlib.Algebra.Order.Ring.Cast
import Mathlib.Tactic.FieldSimp
import AgriFi.FarmCampaign.Contract
import AgriFi.FarmCampaign.ProportionalRefund

/-
  `apply_proportional_refund` always goes through on a ledger that sums to the raise. The first
  loop overflows nowhere (`allocate_ok`). What it leaves over is at most one unit for each investor
  with headroom, one whose share is less than his investment (`residue_bounds`), and the second
  loop finds every one of them, so it hands all of it out (`spreadResidual_ok`).
-/

namespace AgriFi.FarmCampaign

open AgriFi.Soroban

variable {Addr : Type} [LinearOrder Addr] {tr target : Int} {l : List (Addr × Int)}

theorem fits_of_le {a b : Int} (hb : FitsI128 b) (ha : 0 ≤ a) (hle : a ≤ b) : FitsI128 a :=
  ⟨by have := hb.1; omega, hle.trans_lt hb.2⟩

/-! ## No overflow on the way -/

theorem refundableTotal_ok (hcut : FitsI128 (tr - target)) :
    refundableTotal tr target = .ok (refundableSum tr target) := by
  unfold refundableTotal refundableSum
  split
  · rfl
  · split
    · rfl
    · rw [okOr_eq_ok, checkedSub_eq_some]
      exact ⟨hcut, rfl⟩

theorem refundableAmount_ok {invested : Int} (ht : 0 ≤ target) (hv : 0 ≤ invested)
    (hfits : FitsI128 invested) (hcut : FitsI128 (tr - target))
    (hproduct : FitsI128 (invested * (tr - target))) :
    refundableAmount tr target invested = .ok (share tr target invested) := by
  have hbounds := share_bounds tr ht hv
  have hshare := fits_of_le hfits hbounds.1 hbounds.2
  unfold refundableAmount
  unfold share at hshare ⊢
  split
  · rfl
  · next hpos =>
    rw [if_neg hpos] at hshare
    split
    · rfl
    · next hle =>
      rw [if_neg hle] at hshare
      simp only [okOr_bind_eq_ok, okOr_eq_ok, checkedSub_eq_some, checkedMul_eq_some,
        checkedDiv_eq_some]
      exact ⟨_, ⟨hcut, rfl⟩, _, ⟨hproduct, rfl⟩, by omega, hshare, rfl⟩

/-- The shares of a list of investments. -/
def shareSum (tr target : Int) (l : List (Addr × Int)) : Int :=
  (l.map fun e => share tr target e.2).sum

/-- One round of the first loop, when nothing in it overflows. -/
theorem allocate_cons_ok {investor : Addr} {invested : Int} {maps : Split Addr} {allocated : Int}
    (ht : 0 ≤ target) (hv : 0 ≤ invested) (hfits : FitsI128 invested)
    (hcut : FitsI128 (tr - target)) (hproduct : FitsI128 (invested * (tr - target)))
    (hadd : FitsI128 (allocated + share tr target invested)) :
    allocate tr target ((investor, invested) :: l) maps allocated = allocate tr target l
      (maps.assign investor (share tr target invested) (invested - share tr target invested))
      (allocated + share tr target invested) := by
  have hb := share_bounds tr ht hv
  have hkept : checkedSub invested (share tr target invested) = some _ :=
    checkedSub_eq_some.mpr ⟨fits_of_le hfits (by omega) (by omega), rfl⟩
  rw [allocate]
  unfold Split.assign
  split
  · next hz =>
    have hzero : invested = 0 := by omega
    rw [share_nonpos hz, add_zero, sub_zero, hzero]
    rfl
  · rw [refundableAmount_ok ht hv hfits hcut hproduct, ok_bind]
    split
    · have hsum : checkedAdd allocated (share tr target invested) = some _ :=
        checkedAdd_eq_some.mpr ⟨hadd, rfl⟩
      rw [hsum, hkept]
      rfl
    · have hnone : share tr target invested = 0 := by omega
      rw [hkept, hnone, add_zero]
      rfl

theorem allocate_ok (ht : 0 ≤ target) (hraised : FitsI128 tr) (hcut : FitsI128 (tr - target))
    (hnn : ∀ e ∈ l, 0 ≤ e.2) (hproduct : ∀ e ∈ l, FitsI128 (e.2 * (tr - target)))
    {maps : Split Addr} {allocated : Int} (h0 : 0 ≤ allocated)
    (hsum : allocated + (l.map Prod.snd).sum ≤ tr) :
    ∃ maps', allocate tr target l maps allocated =
      .ok (maps', allocated + shareSum tr target l) := by
  induction l generalizing maps allocated with
  | nil => exact ⟨maps, by simp [allocate, shareSum]⟩
  | cons e l ih =>
    obtain ⟨investor, invested⟩ := e
    rw [List.forall_mem_cons] at hnn hproduct
    have hrest : 0 ≤ (l.map Prod.snd).sum := List.sum_nonneg (List.forall_mem_map.mpr hnn.2)
    rw [List.map_cons, List.sum_cons] at hsum
    have hv : 0 ≤ invested := hnn.1
    have hb := share_bounds tr ht hv
    have hfits : FitsI128 invested := fits_of_le hraised hv (by omega)
    have hadd : FitsI128 (allocated + share tr target invested) :=
      fits_of_le hraised (by omega) (by omega)
    rw [allocate_cons_ok ht hv hfits hcut hproduct.1 hadd]
    have hshares : allocated + shareSum tr target ((investor, invested) :: l) =
        allocated + share tr target invested + shareSum tr target l := by
      rw [shareSum, List.map_cons, List.sum_cons, add_assoc]
      rfl
    rw [hshares]
    exact ih hnn.2 hproduct.2 (by omega) (by omega)

/-! ## The residue -/

/-- How many investors of the list can take one unit more. -/
def headroom (maps : Split Addr) (l : List (Addr × Int)) : Nat :=
  l.countP fun e => maps.refundable.getD e.1 0 < e.2

theorem headroom_giveUnit {maps : Split Addr} {investor : Addr} {invested : Int}
    (hcur : maps.refundable.getD investor 0 < invested) (hne : ∀ e ∈ l, e.1 ≠ investor) :
    headroom (maps.giveUnit investor invested) l = headroom maps l := by
  refine List.countP_congr fun e he => ?_
  rw [(giveUnit_getD hcur e.1).1, if_neg (hne e he).symm]

/-- One round of the second loop, at an investor who can still take a unit. -/
theorem spreadResidual_cons_ok {investor : Addr} {invested residual : Int} {maps : Split Addr}
    (hfits : FitsI128 invested) (hres : FitsI128 residual) (hleft : 0 < residual)
    (hcur0 : 0 ≤ maps.refundable.getD investor 0)
    (hcur : maps.refundable.getD investor 0 < invested) :
    spreadResidual ((investor, invested) :: l) maps residual =
      spreadResidual l (maps.giveUnit investor invested) (residual - 1) := by
  have hnext : checkedAdd (maps.refundable.getD investor 0) 1 = some _ :=
    checkedAdd_eq_some.mpr ⟨fits_of_le hfits (by omega) (by omega), rfl⟩
  have hkept : checkedSub invested (maps.refundable.getD investor 0 + 1) = some _ :=
    checkedSub_eq_some.mpr ⟨fits_of_le hfits (by omega) (by omega), rfl⟩
  have hless : checkedSub residual 1 = some _ :=
    checkedSub_eq_some.mpr ⟨fits_of_le hres (by omega) (by omega), rfl⟩
  rw [spreadResidual, if_neg (by omega), if_neg (by omega)]
  dsimp only
  rw [if_pos hcur, hnext]
  dsimp only [okOr, ok_bind]
  rw [hkept, hless]
  rfl

theorem spreadResidual_ok (hs : l.Pairwise fun a b => a.1 < b.1) (hfits : ∀ e ∈ l, FitsI128 e.2)
    {maps : Split Addr} (hnn : maps.Nonneg) {residual : Int} (h0 : 0 ≤ residual)
    (hres : FitsI128 residual) (hroom : residual ≤ headroom maps l) :
    ∃ maps', spreadResidual l maps residual = .ok (maps', 0) := by
  induction l generalizing maps residual with
  | nil =>
    have hzero : residual = 0 := le_antisymm hroom h0
    exact ⟨maps, by rw [hzero]; rfl⟩
  | cons e l ih =>
    obtain ⟨investor, invested⟩ := e
    rw [List.forall_mem_cons] at hfits
    have hsl := (List.pairwise_cons.mp hs).2
    have hcur0 := hnn.1 investor
    by_cases hzero : residual = 0
    · exact ⟨maps, by rw [hzero, spreadResidual, if_pos rfl]; rfl⟩
    rw [headroom, List.countP_cons] at hroom
    by_cases hcur : maps.refundable.getD investor 0 < invested
    · rw [spreadResidual_cons_ok hfits.1 hres (by omega) hcur0 hcur]
      refine ih hsl hfits.2 (hnn.giveUnit hcur) (by omega)
        (fits_of_le hres (by omega) (by omega)) ?_
      rw [headroom_giveUnit hcur (ne_of_sorted_cons hs)]
      simp only [hcur, decide_true, if_true, Nat.cast_add, Nat.cast_one] at hroom
      unfold headroom
      omega
    · -- this investor takes nothing, and is not counted either
      have hskip : spreadResidual ((investor, invested) :: l) maps residual =
          spreadResidual l maps residual := by
        rw [spreadResidual, if_neg hzero]
        split
        · rfl
        · exact if_neg hcur
      rw [hskip]
      simp only [hcur, decide_false, Bool.false_eq_true, if_false, add_zero] at hroom
      exact ih hsl hfits.2 hnn h0 hres hroom

omit [LinearOrder Addr] in
/-- What the shares leave over of the refundable total is at most one unit for each investor whose
    share is less than his investment. -/
theorem residue_bounds (ht : 0 ≤ target) (hnn : ∀ e ∈ l, 0 ≤ e.2)
    (hsum : (l.map Prod.snd).sum = tr) :
    shareSum tr target l ≤ refundableSum tr target ∧ refundableSum tr target ≤
      shareSum tr target l + (l.countP fun e => share tr target e.2 < e.2 : Nat) := by
  have htr : 0 ≤ tr := hsum ▸ List.sum_nonneg (List.forall_mem_map.mpr hnn)
  by_cases hsurplus : 0 < tr ∧ target ≤ tr
  · have hshare : ∀ e ∈ l, share tr target e.2 = prorata e.2 (tr - target) tr := by
      intro e he
      unfold share
      split
      · next hz =>
        have hzero : e.2 = 0 := by have := hnn e he; omega
        simp [hzero, prorata]
      · rw [if_neg (by omega)]
    have hshares : shareSum tr target l =
        ((l.map Prod.snd).map fun a => prorata a (tr - target) tr).sum := by
      rw [List.map_map, shareSum, List.map_congr_left hshare]
      rfl
    have hshort : (l.countP fun e => share tr target e.2 < e.2) =
        shortParts (tr - target) tr (l.map Prod.snd) := by
      rw [shortParts, List.countP_map]
      exact List.countP_congr fun e he => by rw [hshare e he]; rfl
    rw [hshares, hshort, refundableSum, if_neg (by omega), if_neg (by omega)]
    have hbounds := @sub_sum_prorata_bounds (tr - target) (by omega) (l.map Prod.snd)
      (hsum ▸ hsurplus.1) (by omega) (List.forall_mem_map.mpr hnn)
    rwa [hsum] at hbounds
  · -- nobody keeps anything, so nothing is left over
    have hshare : ∀ e ∈ l, share tr target e.2 = e.2 := by
      intro e he
      have hle : e.2 ≤ tr := by
        rw [← hsum]
        exact List.single_le_sum (List.forall_mem_map.mpr hnn) _ (List.mem_map_of_mem he)
      have hv := hnn e he
      unfold share
      split
      · omega
      · rw [if_pos (by omega)]
    have hshares : shareSum tr target l = tr := by
      rw [shareSum, List.map_congr_left hshare]
      exact hsum
    have htotal : refundableSum tr target = tr := by
      unfold refundableSum
      split
      · omega
      · rw [if_pos (by omega)]
    omega

/-! ## The whole call -/

/-- What `apply_proportional_refund` is given: a ledger that sums to the raise, amounts that are
    `i128`, and products of the share computation that fit. -/
structure Refundable (c : Campaign Addr) (target : Int) : Prop where
  nonneg : c.investments.Nonneg
  total_eq : c.investments.total = c.state.totalRaised
  target_nonneg : 0 ≤ target
  raised_fits : FitsI128 c.state.totalRaised
  target_fits : FitsI128 target
  product_fits : ∀ i, FitsI128 (c.investments.getD i 0 * (c.state.totalRaised - target))

theorem fits_sub_of_nonneg {a b : Int} (ha : FitsI128 a) (ha0 : 0 ≤ a) (hb : FitsI128 b)
    (hb0 : 0 ≤ b) : FitsI128 (a - b) := by
  have h1 := ha.2
  have h2 := hb.2
  exact ⟨by omega, by omega⟩

section Refundable

variable {c : Campaign Addr} (h : Refundable c target)

include h

theorem Refundable.raised_nonneg : 0 ≤ c.state.totalRaised := h.total_eq ▸ h.nonneg.total_nonneg

theorem Refundable.cut_fits : FitsI128 (c.state.totalRaised - target) :=
  fits_sub_of_nonneg h.raised_fits h.raised_nonneg h.target_fits h.target_nonneg

theorem Refundable.entries_nonneg : ∀ e ∈ c.investments.entries, 0 ≤ e.2 :=
  HostMap.nonneg_iff.mp h.nonneg

theorem Refundable.entries_sum : (c.investments.entries.map Prod.snd).sum = c.state.totalRaised :=
  h.total_eq

theorem Refundable.entries_fit : ∀ e ∈ c.investments.entries, FitsI128 e.2 := by
  intro e he
  refine fits_of_le h.raised_fits (h.entries_nonneg e he) ?_
  rw [← h.entries_sum]
  exact List.single_le_sum (List.forall_mem_map.mpr h.entries_nonneg) _ (List.mem_map_of_mem he)

theorem Refundable.shares_nonneg :
    0 ≤ shareSum c.state.totalRaised target c.investments.entries :=
  List.sum_nonneg (List.forall_mem_map.mpr fun e he =>
    (share_bounds _ h.target_nonneg (h.entries_nonneg e he)).1)

theorem Refundable.allocate_ok : ∃ maps,
    allocate c.state.totalRaised target c.investments.entries ⟨.empty, .empty⟩ 0 =
      .ok (maps, shareSum c.state.totalRaised target c.investments.entries) := by
  have hproduct : ∀ e ∈ c.investments.entries, FitsI128 (e.2 * (c.state.totalRaised - target)) := by
    intro e he
    rw [← HostMap.getD_of_mem he 0]
    exact h.product_fits e.1
  have hsum : 0 + (c.investments.entries.map Prod.snd).sum ≤ c.state.totalRaised := by
    rw [zero_add, h.entries_sum]
  obtain ⟨maps, ha⟩ := FarmCampaign.allocate_ok h.target_nonneg h.raised_fits h.cut_fits
    h.entries_nonneg hproduct le_rfl hsum
  rw [zero_add] at ha
  exact ⟨maps, ha⟩

/-- The second loop hands out everything that the first has left over. -/
theorem Refundable.spreadLeftover_ok {maps : Split Addr}
    (ha : allocate c.state.totalRaised target c.investments.entries ⟨.empty, .empty⟩ 0 =
      .ok (maps, shareSum c.state.totalRaised target c.investments.entries)) :
    ∃ maps', spreadLeftover c.investments.entries maps
      (refundableSum c.state.totalRaised target -
        shareSum c.state.totalRaised target c.investments.entries) = .ok (maps', 0) := by
  have htotal := refundableSum_bounds h.target_nonneg h.raised_nonneg
  have hshares := h.shares_nonneg
  have hresidue := residue_bounds h.target_nonneg h.entries_nonneg h.entries_sum
  have hparts := (allocate_entries h.target_nonneg h.nonneg ha).1
  have hroom : headroom maps c.investments.entries = c.investments.entries.countP fun e =>
      share c.state.totalRaised target e.2 < e.2 :=
    List.countP_congr fun e he => by rw [(hparts e.1).1, HostMap.getD_of_mem he]
  unfold spreadLeftover
  split
  · refine spreadResidual_ok c.investments.sorted h.entries_fit
      (allocate_nonneg h.target_nonneg h.nonneg ha) (by omega)
      (fits_of_le h.raised_fits (by omega) (by omega)) ?_
    rw [hroom]
    omega
  · have hzero : refundableSum c.state.totalRaised target -
        shareSum c.state.totalRaised target c.investments.entries = 0 := by omega
    exact ⟨maps, by rw [hzero]; rfl⟩

theorem applyProportionalRefund_ok :
    ∃ c' total, applyProportionalRefund c target = .ok (c', total) := by
  have htotal := refundableSum_bounds h.target_nonneg h.raised_nonneg
  have hshares := h.shares_nonneg
  have hresidue := residue_bounds h.target_nonneg h.entries_nonneg h.entries_sum
  obtain ⟨maps, ha⟩ := h.allocate_ok
  obtain ⟨maps', hspread⟩ := h.spreadLeftover_ok ha
  have hleft : checkedSub (refundableSum c.state.totalRaised target)
      (shareSum c.state.totalRaised target c.investments.entries) = some _ :=
    checkedSub_eq_some.mpr ⟨fits_of_le h.raised_fits (by omega) (by omega), rfl⟩
  have hkept : checkedSub c.state.totalRaised (refundableSum c.state.totalRaised target) = some _ :=
    checkedSub_eq_some.mpr ⟨fits_of_le h.raised_fits (by omega) (by omega), rfl⟩
  refine ⟨c.split maps'.retained maps'.refundable (refundableSum c.state.totalRaised target),
    refundableSum c.state.totalRaised target, ?_⟩
  unfold applyProportionalRefund
  rw [refundableTotal_ok h.cut_fits, ok_bind, ha, ok_bind]
  dsimp only
  rw [hleft]
  dsimp only [okOr, ok_bind]
  rw [hspread, hkept]
  rfl

end Refundable

/-! ## The exact share -/

/-- The part of an investment that `refundable` out of `raised` stands for, before rounding. -/
def exactShare (raised refundable invested : Int) : Rat := invested * refundable / raised

/-- The share is the exact share rounded down. -/
theorem share_floor {invested : Int} (hv : 0 ≤ invested) (hle : invested ≤ tr) :
    (share tr target invested : Rat) ≤ exactShare tr (refundableSum tr target) invested ∧
      exactShare tr (refundableSum tr target) invested < share tr target invested + 1 := by
  unfold exactShare
  by_cases hpos : 0 < tr
  · have hq : (0 : Rat) < tr := by exact_mod_cast hpos
    rw [le_div_iff₀ hq, div_lt_iff₀ hq]
    norm_cast
    unfold share refundableSum
    rw [if_neg (by omega : ¬ tr ≤ 0)]
    split
    · next hz =>
      have hzero : invested = 0 := by omega
      rw [hzero]
      omega
    · split
      · constructor
        · exact le_rfl
        · rw [add_mul]
          omega
      · exact ⟨prorata_mul_le hv (by omega) hpos, lt_prorata_add_one_mul hv (by omega) hpos⟩
  · have hzero : invested = 0 := by omega
    rw [share_nonpos hzero.le, hzero]
    norm_num

/-- `apply_proportional_refund` goes through on every ledger it is meant for, splits every
    investment, and gives each investor less than one unit off his exact share or one unit above
    it. -/
theorem refund_reconciles (c : Campaign Addr) (target : Int) (h : Refundable c target) :
    ∃ c' total, applyProportionalRefund c target = .ok (c', total) ∧
      refundableTotal c.state.totalRaised target = .ok total ∧
      (∀ i, c'.refundableInvestments.getD i 0 + c'.investments.getD i 0 = c.investments.getD i 0 ∧
        0 ≤ c'.refundableInvestments.getD i 0 ∧ 0 ≤ c'.investments.getD i 0) ∧
      c'.refundableInvestments.total = total ∧
      c'.state.totalRaised = c'.investments.total ∧
      ∀ i, |(c'.refundableInvestments.getD i 0 : Rat) -
          exactShare c.state.totalRaised total (c.investments.getD i 0)| < 1 ∨
        (c'.refundableInvestments.getD i 0 : Rat) =
          exactShare c.state.totalRaised total (c.investments.getD i 0) + 1 := by
  obtain ⟨c', total, hcall⟩ := applyProportionalRefund_ok h
  obtain ⟨retained, refundable, rfl, hsplit⟩ :=
    applyProportionalRefund_split h.target_nonneg h.nonneg hcall
  refine ⟨_, total, hcall, ?_, fun i => ⟨hsplit.cut i, hsplit.refundable_nonneg i,
    hsplit.retained_nonneg i⟩, hsplit.refundable_total, ?_, fun i => ?_⟩
  · rw [hsplit.total_eq]
    exact refundableTotal_ok h.cut_fits
  · show c.state.totalRaised - total = retained.total
    rw [hsplit.retained_total, h.total_eq]
  · obtain ⟨hfloor, hnext⟩ := share_floor (h.nonneg i)
      (h.total_eq ▸ h.nonneg.getD_le_total i)
    have hlow : (share c.state.totalRaised target (c.investments.getD i 0) : Rat) ≤
        refundable.getD i 0 := by exact_mod_cast hsplit.share_le i
    have hhigh : (refundable.getD i 0 : Rat) ≤
        share c.state.totalRaised target (c.investments.getD i 0) + 1 := by
      exact_mod_cast hsplit.le_share i
    rw [← hsplit.total_eq] at hfloor hnext
    show |(refundable.getD i 0 : Rat) - _| < 1 ∨ (refundable.getD i 0 : Rat) = _
    rw [abs_lt]
    rcases lt_or_eq_of_le (sub_le_iff_le_add'.mpr (hhigh.trans (add_le_add_left hfloor 1))) with
      hlt | heq
    · exact .inl ⟨by linarith, by linarith⟩
    · exact .inr (by linarith)

/-- Stakes of 2, 1 and 1 that a split to 2 makes half refundable. -/
def halvedCampaign : Campaign Nat :=
  { Campaign.initial sampleConfig with
    state.totalRaised := 4
    investments := ((HostMap.empty.set 1 2).set 2 1).set 3 1 }

theorem halvedCampaign_refundable : Refundable halvedCampaign 2 where
  nonneg := by decide
  total_eq := by decide
  target_nonneg := by decide
  raised_fits := by decide
  target_fits := by decide
  product_fits i := by
    have hnn : halvedCampaign.investments.Nonneg := by decide
    have hle : halvedCampaign.investments.getD i 0 ≤ 4 := hnn.getD_le_total i
    have h0 := hnn i
    show FitsI128 (halvedCampaign.investments.getD i 0 * 2)
    exact ⟨by omega, by omega⟩

theorem refund_reconciles_halved : Refundable halvedCampaign 2 ∧
    ∃ c' total, applyProportionalRefund halvedCampaign 2 = .ok (c', total) ∧
      c'.refundableInvestments.total = total :=
  ⟨halvedCampaign_refundable,
    let ⟨c', total, hcall, _, _, hsum, _⟩ :=
      refund_reconciles halvedCampaign 2 halvedCampaign_refundable
    ⟨c', total, hcall, hsum⟩⟩

/-- The first investor's share is exactly 1, and the unit that the other two leave over goes to
    him. -/
theorem whole_share_exceeded : ¬ ∀ (c : Campaign Nat) (target : Int), Refundable c target →
    ∀ c' total, applyProportionalRefund c target = .ok (c', total) →
      ∀ i, |(c'.refundableInvestments.getD i 0 : Rat) -
        exactShare c.state.totalRaised total (c.investments.getD i 0)| < 1 := by
  intro h
  cases hr : applyProportionalRefund halvedCampaign 2 with
  | error e =>
    obtain ⟨c', total, hcall⟩ := applyProportionalRefund_ok halvedCampaign_refundable
    rw [hr] at hcall
    cases hcall
  | ok r =>
    have hlt := h halvedCampaign 2 halvedCampaign_refundable r.1 r.2 hr 1
    have hvalues : ((applyProportionalRefund halvedCampaign 2).toOption.map fun r =>
        (r.1.refundableInvestments.getD 1 0, r.2)) = some (2, 2) := by decide +kernel
    rw [hr] at hvalues
    obtain ⟨hamount, htotal⟩ := Prod.mk.inj (Option.some.inj hvalues)
    rw [hamount, htotal] at hlt
    exact absurd hlt (by decide +kernel)

end AgriFi.FarmCampaign
