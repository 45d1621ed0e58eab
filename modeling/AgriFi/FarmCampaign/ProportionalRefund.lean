import AgriFi.Prorata
import AgriFi.FarmCampaign.Refund

/-
  What `apply_proportional_refund` leaves behind. `share` and `refundableSum` are the values
  of `refundable_amount` and `refundable_total` when neither overflows. The first loop gives
  every investor exactly his share (`Allocated`), the second adds at most one unit to each
  (`Spread`), and neither creates nor loses an amount, so a call that succeeds splits every
  investment and `total_raised` exactly (`applyProportionalRefund_split`).
-/

namespace AgriFi.FarmCampaign

open AgriFi.Soroban

variable {Addr : Type} [LinearOrder Addr]

/-! ## One investor's share -/

def refundableSum (totalRaised target : Int) : Int :=
  if totalRaised ≤ 0 then 0 else if totalRaised < target then totalRaised else totalRaised - target

def share (totalRaised target invested : Int) : Int :=
  if totalRaised ≤ 0 ∨ invested ≤ 0 then 0
  else if totalRaised < target then invested
  else prorata invested (totalRaised - target) totalRaised

theorem refundableTotal_eq {tr target t : Int} (h : refundableTotal tr target = .ok t) :
    t = refundableSum tr target := by
  unfold refundableTotal at h
  unfold refundableSum
  split at h
  · next h0 => rw [if_pos h0]; exact (Except.ok.inj h).symm
  · next h0 =>
    rw [if_neg h0]
    split at h
    · next hlt => rw [if_pos hlt]; exact (Except.ok.inj h).symm
    · next hlt =>
      rw [if_neg hlt]
      simp only [okOr_eq_ok, checkedSub_eq_some] at h
      exact h.2.symm

theorem refundableAmount_eq {tr target v a : Int} (h : refundableAmount tr target v = .ok a) :
    a = share tr target v := by
  unfold refundableAmount at h
  unfold share
  split at h
  · next hz => rw [if_pos hz]; exact (Except.ok.inj h).symm
  · next hz =>
    rw [if_neg hz]
    split at h
    · next hlt => rw [if_pos hlt]; exact (Except.ok.inj h).symm
    · next hlt =>
      rw [if_neg hlt]
      simp only [okOr_bind_eq_ok, okOr_eq_ok, checkedSub_eq_some, checkedMul_eq_some,
        checkedDiv_eq_some] at h
      obtain ⟨_, ⟨_, rfl⟩, _, ⟨_, rfl⟩, _, _, rfl⟩ := h
      rfl

theorem share_nonpos {tr target v : Int} (h : v ≤ 0) : share tr target v = 0 := by
  simp [share, h]

theorem share_bounds (tr : Int) {target v : Int} (ht : 0 ≤ target) (hv : 0 ≤ v) :
    0 ≤ share tr target v ∧ share tr target v ≤ v := by
  unfold share
  split
  · exact ⟨le_rfl, hv⟩
  · next hz =>
    split
    · exact ⟨hv, le_rfl⟩
    · next hlt =>
      have htr : 0 < tr := by omega
      have hcut : 0 ≤ tr - target := by omega
      exact ⟨prorata_nonneg hv hcut htr.le, prorata_le hv hcut htr (by omega)⟩

theorem share_le_max (tr : Int) {target : Int} (ht : 0 ≤ target) (v : Int) :
    0 ≤ share tr target v ∧ 0 ≤ max v 0 - share tr target v := by
  by_cases hv : v ≤ 0
  · rw [share_nonpos hv, max_eq_right hv]
    omega
  · have hb := share_bounds tr ht (le_of_not_ge hv)
    rw [max_eq_left (le_of_not_ge hv)]
    omega

theorem refundableSum_bounds {tr target : Int} (ht : 0 ≤ target) (htr : 0 ≤ tr) :
    0 ≤ refundableSum tr target ∧ refundableSum tr target ≤ tr := by
  unfold refundableSum
  split
  · omega
  · split <;> omega

/-- What a split to `target` keeps of the raise: all of `target`, or nothing. -/
def keptSum (totalRaised target : Int) : Int := if totalRaised < target then 0 else target

theorem sub_refundableSum {tr target : Int} (ht : 0 ≤ target) (htr : 0 ≤ tr) :
    tr - refundableSum tr target = keptSum tr target := by
  unfold refundableSum keptSum
  split
  · split <;> omega
  · split <;> omega

/-! ## The two loops -/

/-- The amounts an investment list holds, negative entries counting as nothing. -/
def investedSum (l : List (Addr × Int)) : Int := (l.map fun e => max e.2 0).sum

theorem ne_of_sorted_cons {e : Addr × Int} {l : List (Addr × Int)}
    (h : (e :: l).Pairwise fun a b => a.1 < b.1) : ∀ x ∈ l, x.1 ≠ e.1 :=
  fun x hx => ((List.pairwise_cons.mp h).1 x hx).ne'

/-- The maps with the parts of `investor` written that are positive. -/
def Split.assign (maps : Split Addr) (investor : Addr) (refunded kept : Int) : Split Addr :=
  ⟨if refunded > 0 then maps.refundable.set investor refunded else maps.refundable,
    if kept > 0 then maps.retained.set investor kept else maps.retained⟩

/-- The maps hold nothing for `investor`. -/
def Split.Blank (maps : Split Addr) (investor : Addr) : Prop :=
  maps.refundable.getD investor 0 = 0 ∧ maps.retained.getD investor 0 = 0

section Assign

variable {maps : Split Addr} {investor : Addr} {refunded kept : Int}
  (hb : maps.Blank investor) (hr : 0 ≤ refunded) (hk : 0 ≤ kept)

include hb hr hk

theorem assign_getD (k : Addr) :
    (maps.assign investor refunded kept).refundable.getD k 0 =
        (if investor = k then refunded else maps.refundable.getD k 0) ∧
      (maps.assign investor refunded kept).retained.getD k 0 =
        (if investor = k then kept else maps.retained.getD k 0) :=
  ⟨HostMap.getD_setIfPos hb.1 hr k, HostMap.getD_setIfPos hb.2 hk k⟩

theorem assign_total :
    (maps.assign investor refunded kept).refundable.total = maps.refundable.total + refunded ∧
      (maps.assign investor refunded kept).retained.total = maps.retained.total + kept :=
  ⟨HostMap.total_setIfPos hb.1 hr, HostMap.total_setIfPos hb.2 hk⟩

theorem assign_blank {k : Addr} (h : maps.Blank k) (hne : investor ≠ k) :
    (maps.assign investor refunded kept).Blank k := by
  obtain ⟨h1, h2⟩ := assign_getD hb hr hk k
  rw [if_neg hne] at h1 h2
  exact ⟨h1.trans h.1, h2.trans h.2⟩

end Assign

/-- One round of the first loop assigns the share and what is left of the investment. -/
theorem allocate_cons {tr target invested : Int} {investor : Addr} {rest : List (Addr × Int)}
    {maps : Split Addr} {allocated : Int} {r : Split Addr × Int} (ht : 0 ≤ target)
    (h : allocate tr target ((investor, invested) :: rest) maps allocated = .ok r) :
    allocate tr target rest
      (maps.assign investor (share tr target invested) (max invested 0 - share tr target invested))
      (allocated + share tr target invested) = .ok r := by
  unfold allocate at h
  split at h
  · next hz =>
    rw [share_nonpos hz, max_eq_right hz, add_zero]
    exact h
  · next hpos =>
    obtain ⟨amount, ha, h⟩ := bind_eq_ok.mp h
    obtain rfl := refundableAmount_eq ha
    have hb0 := (share_bounds tr ht (le_of_not_ge hpos)).1
    rw [max_eq_left (le_of_not_ge hpos)]
    unfold Split.assign
    by_cases hs : share tr target invested > 0
    · simp only [if_pos hs, pure_bind, okOr_bind_eq_ok, checkedAdd_eq_some,
        checkedSub_eq_some] at h ⊢
      obtain ⟨_, ⟨_, rfl⟩, _, ⟨_, rfl⟩, h⟩ := h
      exact h
    · have hz : share tr target invested = 0 := by omega
      simp only [if_neg hs, pure_bind, okOr_bind_eq_ok, checkedSub_eq_some] at h ⊢
      obtain ⟨_, ⟨_, rfl⟩, h⟩ := h
      rw [hz] at h ⊢
      rw [add_zero]
      exact h

/-- What the first loop over `l` makes of `maps`: the investors of `l` have their parts, nobody
    else's amounts are touched, and what was allocated is what the refundable total grew by. -/
structure Allocated (tr target : Int) (l : List (Addr × Int)) (maps maps' : Split Addr)
    (allocated allocated' : Int) : Prop where
  refundable : ∀ e ∈ l, maps'.refundable.getD e.1 0 = share tr target e.2
  retained : ∀ e ∈ l, maps'.retained.getD e.1 0 = max e.2 0 - share tr target e.2
  others : ∀ k, (∀ e ∈ l, e.1 ≠ k) → maps'.refundable.getD k 0 = maps.refundable.getD k 0 ∧
    maps'.retained.getD k 0 = maps.retained.getD k 0
  allocated_total : maps'.refundable.total - allocated' = maps.refundable.total - allocated
  total : maps'.refundable.total + maps'.retained.total =
    maps.refundable.total + maps.retained.total + investedSum l

theorem allocate_spec {tr target : Int} (ht : 0 ≤ target) {l : List (Addr × Int)}
    (hs : l.Pairwise fun a b => a.1 < b.1) {maps maps' : Split Addr} {allocated allocated' : Int}
    (hblank : ∀ e ∈ l, maps.Blank e.1)
    (h : allocate tr target l maps allocated = .ok (maps', allocated')) :
    Allocated tr target l maps maps' allocated allocated' := by
  induction l generalizing maps allocated with
  | nil =>
    simp only [allocate, pure_eq_ok, Except.ok.injEq, Prod.mk.injEq] at h
    obtain ⟨rfl, rfl⟩ := h
    exact ⟨by simp, by simp, fun _ _ => ⟨rfl, rfl⟩, rfl, by simp [investedSum]⟩
  | cons e l ih =>
    obtain ⟨investor, invested⟩ := e
    have hne := ne_of_sorted_cons hs
    have hb := hblank _ (List.mem_cons_self ..)
    obtain ⟨hr, hk⟩ := share_le_max tr ht invested
    have hget := assign_getD hb hr hk
    have htotal := assign_total hb hr hk
    have hrest := ih (List.pairwise_cons.mp hs).2 (fun e he =>
      assign_blank hb hr hk (hblank e (List.mem_cons_of_mem _ he)) (hne e he).symm)
      (allocate_cons ht h)
    have hself := hrest.others investor hne
    exact {
      refundable := fun e he => by
        rcases List.mem_cons.mp he with rfl | he
        · rw [hself.1, (hget _).1, if_pos rfl]
        · exact hrest.refundable e he
      retained := fun e he => by
        rcases List.mem_cons.mp he with rfl | he
        · rw [hself.2, (hget _).2, if_pos rfl]
        · exact hrest.retained e he
      others := fun k hother => by
        have hik : investor ≠ k := hother _ (List.mem_cons_self ..)
        obtain ⟨h1, h2⟩ := hrest.others k fun e he => hother e (List.mem_cons_of_mem _ he)
        rw [h1, h2, (hget k).1, (hget k).2, if_neg hik, if_neg hik]
        exact ⟨rfl, rfl⟩
      allocated_total := by
        have := hrest.allocated_total
        rw [htotal.1] at this
        omega
      total := by
        have := hrest.total
        have hsum : investedSum ((investor, invested) :: l) = max invested 0 + investedSum l := rfl
        rw [htotal.1, htotal.2] at this
        omega }

/-- The maps with one unit of `investor`, who invested `invested`, made refundable. -/
def Split.giveUnit (maps : Split Addr) (investor : Addr) (invested : Int) : Split Addr :=
  let next := maps.refundable.getD investor 0 + 1
  ⟨maps.refundable.set investor next,
    if invested - next > 0 then maps.retained.set investor (invested - next)
    else maps.retained.remove investor⟩

/-- No amount is negative. -/
def Split.Nonneg (maps : Split Addr) : Prop := maps.refundable.Nonneg ∧ maps.retained.Nonneg

section GiveUnit

variable {maps : Split Addr} {investor : Addr} {invested : Int}
  (hcut : maps.refundable.getD investor 0 + maps.retained.getD investor 0 = invested)
  (hcur : maps.refundable.getD investor 0 < invested)

omit hcut in
include hcur in
theorem giveUnit_getD (k : Addr) :
    (maps.giveUnit investor invested).refundable.getD k 0 = (if investor = k then
        maps.refundable.getD investor 0 + 1 else maps.refundable.getD k 0) ∧
      (maps.giveUnit investor invested).retained.getD k 0 = (if investor = k then
        invested - (maps.refundable.getD investor 0 + 1) else maps.retained.getD k 0) :=
  ⟨HostMap.getD_set .., HostMap.getD_setOrRemove _ _ (by omega) k⟩

include hcut hcur

theorem giveUnit_cut (k : Addr) :
    (maps.giveUnit investor invested).refundable.getD k 0 +
        (maps.giveUnit investor invested).retained.getD k 0 =
      maps.refundable.getD k 0 + maps.retained.getD k 0 := by
  obtain ⟨h1, h2⟩ := giveUnit_getD hcur k
  rw [h1, h2]
  split
  · next hik => subst hik; omega
  · rfl

theorem giveUnit_total :
    (maps.giveUnit investor invested).refundable.total = maps.refundable.total + 1 ∧
      (maps.giveUnit investor invested).retained.total = maps.retained.total - 1 := by
  unfold Split.giveUnit
  dsimp only
  rw [HostMap.total_set, HostMap.total_setOrRemove _ _ (by omega)]
  omega

omit hcut in
theorem Split.Nonneg.giveUnit (h : maps.Nonneg) : (maps.giveUnit investor invested).Nonneg := by
  have hold := h.1 investor
  constructor
  · intro k
    rw [(giveUnit_getD hcur k).1]
    split
    · omega
    · exact h.1 k
  · intro k
    rw [(giveUnit_getD hcur k).2]
    split
    · omega
    · exact h.2 k

end GiveUnit

/-- One round of the second loop, at an investor who can still take a unit. -/
theorem spreadResidual_cons {invested residual : Int} {investor : Addr}
    {rest : List (Addr × Int)} {maps : Split Addr} {r : Split Addr × Int}
    (hres : residual ≠ 0) (hpos : 0 < invested)
    (hcur : maps.refundable.getD investor 0 < invested)
    (h : spreadResidual ((investor, invested) :: rest) maps residual = .ok r) :
    spreadResidual rest (maps.giveUnit investor invested) (residual - 1) = .ok r := by
  unfold spreadResidual at h
  rw [if_neg hres, if_neg (by omega)] at h
  simp only [if_pos hcur, okOr_bind_eq_ok, checkedAdd_eq_some, checkedSub_eq_some] at h
  obtain ⟨_, ⟨_, rfl⟩, _, ⟨_, rfl⟩, _, ⟨_, rfl⟩, h⟩ := h
  exact h

/-- What the second loop over `l` makes of `maps`: at most one unit of each investor of `l` goes
    over to his refundable part, and the residue shrinks by the units that did. -/
structure Spread (l : List (Addr × Int)) (maps maps' : Split Addr) (residual residual' : Int) :
    Prop where
  others : ∀ k, (∀ e ∈ l, e.1 ≠ k) → maps'.refundable.getD k 0 = maps.refundable.getD k 0
  cut : ∀ k, maps'.refundable.getD k 0 + maps'.retained.getD k 0 =
    maps.refundable.getD k 0 + maps.retained.getD k 0
  grows : ∀ k, maps.refundable.getD k 0 ≤ maps'.refundable.getD k 0 ∧
    maps'.refundable.getD k 0 ≤ maps.refundable.getD k 0 + 1
  nonneg : maps'.Nonneg
  residual_total : maps'.refundable.total + residual' = maps.refundable.total + residual
  total : maps'.refundable.total + maps'.retained.total =
    maps.refundable.total + maps.retained.total

theorem Spread.refl (l : List (Addr × Int)) {maps : Split Addr} (h : maps.Nonneg)
    (residual : Int) : Spread l maps maps residual residual :=
  ⟨fun _ _ => rfl, fun _ => rfl, fun _ => ⟨le_rfl, by omega⟩, h, rfl, rfl⟩

/-- An investor who takes nothing can stand in front of the list. -/
theorem Spread.skip {e : Addr × Int} {l : List (Addr × Int)} {maps maps' : Split Addr}
    {residual residual' : Int} (h : Spread l maps maps' residual residual') :
    Spread (e :: l) maps maps' residual residual' :=
  { h with others := fun k hk => h.others k fun e he => hk e (List.mem_cons_of_mem _ he) }

/-- A unit given to an investor who does not come again. -/
theorem Spread.give {investor : Addr} {invested : Int} {l : List (Addr × Int)}
    {maps maps' : Split Addr} {residual residual' : Int} (hne : ∀ e ∈ l, e.1 ≠ investor)
    (hcut : maps.refundable.getD investor 0 + maps.retained.getD investor 0 = invested)
    (hcur : maps.refundable.getD investor 0 < invested)
    (h : Spread l (maps.giveUnit investor invested) maps' (residual - 1) residual') :
    Spread ((investor, invested) :: l) maps maps' residual residual' := by
  have hget := fun k => (giveUnit_getD hcur k).1
  obtain ⟨ht1, ht2⟩ := giveUnit_total hcut hcur
  exact {
    others := fun k hk => by
      have hik : investor ≠ k := hk _ (List.mem_cons_self ..)
      rw [h.others k fun e he => hk e (List.mem_cons_of_mem _ he), hget, if_neg hik]
    cut := fun k => (h.cut k).trans (giveUnit_cut hcut hcur k)
    grows := fun k => by
      by_cases hik : investor = k
      · subst hik
        rw [h.others investor hne, hget, if_pos rfl]
        omega
      · have hgrows := h.grows k
        rwa [hget, if_neg hik] at hgrows
    nonneg := h.nonneg
    residual_total := by
      have := h.residual_total
      omega
    total := by
      have := h.total
      omega }

theorem spreadResidual_spec {l : List (Addr × Int)} (hs : l.Pairwise fun a b => a.1 < b.1)
    {maps maps' : Split Addr} {residual residual' : Int}
    (hcut : ∀ e ∈ l, maps.refundable.getD e.1 0 + maps.retained.getD e.1 0 = max e.2 0)
    (hnn : maps.Nonneg) (h : spreadResidual l maps residual = .ok (maps', residual')) :
    Spread l maps maps' residual residual' := by
  induction l generalizing maps residual with
  | nil =>
    simp only [spreadResidual, pure_eq_ok, Except.ok.injEq, Prod.mk.injEq] at h
    obtain ⟨rfl, rfl⟩ := h
    exact .refl _ hnn _
  | cons e l ih =>
    obtain ⟨investor, invested⟩ := e
    have hne := ne_of_sorted_cons hs
    have hsl := (List.pairwise_cons.mp hs).2
    have hrest : ∀ e ∈ l, maps.refundable.getD e.1 0 + maps.retained.getD e.1 0 = max e.2 0 :=
      fun e he => hcut e (List.mem_cons_of_mem _ he)
    by_cases hres : residual = 0
    · simp only [spreadResidual, if_pos hres, pure_eq_ok, Except.ok.injEq, Prod.mk.injEq] at h
      obtain ⟨rfl, rfl⟩ := h
      exact .refl _ hnn _
    by_cases hgive : 0 < invested ∧ maps.refundable.getD investor 0 < invested
    · obtain ⟨hpos, hcur⟩ := hgive
      have hsum : maps.refundable.getD investor 0 + maps.retained.getD investor 0 = invested := by
        rw [hcut _ (List.mem_cons_self ..), max_eq_left hpos.le]
      refine .give hne hsum hcur (ih hsl (fun e he => ?_) (hnn.giveUnit hcur)
        (spreadResidual_cons hres hpos hcur h))
      rw [giveUnit_cut hsum hcur]
      exact hrest e he
    · -- this investor takes nothing and the maps go to the tail as they are
      have h' : spreadResidual l maps residual = .ok (maps', residual') := by
        rw [spreadResidual, if_neg hres] at h
        split at h
        · exact h
        · next hpos =>
          have hcur : ¬ maps.refundable.getD investor 0 < invested := fun hc =>
            hgive ⟨by omega, hc⟩
          rwa [if_neg hcur] at h
      exact (ih hsl hrest hnn h').skip

/-! ## The whole split -/

/-- The storage with `total` moved from the investments to the refundable amounts. -/
def Campaign.split (c : Campaign Addr) (retained refundable : HostMap Addr Int) (total : Int) :
    Campaign Addr :=
  { c with
    state.totalRaised := c.state.totalRaised - total
    state.raiseEnded := true
    investments := retained
    refundableInvestments := refundable }

/-- A successful call writes nothing but the two maps, the raised total and the ended flag. -/
theorem applyProportionalRefund_frame {c c' : Campaign Addr} {target total : Int}
    (h : applyProportionalRefund c target = .ok (c', total)) :
    ∃ retained refundable, c' = c.split retained refundable total := by
  unfold applyProportionalRefund at h
  obtain ⟨_, _, h⟩ := bind_eq_ok.mp h
  obtain ⟨⟨_, _⟩, _, h⟩ := bind_eq_ok.mp h
  simp only [okOr_bind_eq_ok] at h
  obtain ⟨_, _, h⟩ := h
  obtain ⟨⟨maps, _⟩, _, h⟩ := bind_eq_ok.mp h
  simp only [failIf_bind_eq_ok, okOr_bind_eq_ok, checkedSub_eq_some, pure_eq_ok, Except.ok.injEq,
    Prod.mk.injEq] at h
  obtain ⟨_, _, ⟨_, rfl⟩, rfl, rfl⟩ := h
  exact ⟨maps.retained, maps.refundable, rfl⟩

/-- The two maps of a successful `apply_proportional_refund`: each investment is cut into a
    retained and a refundable part, the refundable parts sum to the returned total, and each is
    the investor's share or one unit more. -/
structure ProportionalSplit (totalRaised target : Int)
    (investments retained refundable : HostMap Addr Int) (total : Int) : Prop where
  target_nonneg : 0 ≤ target
  total_eq : total = refundableSum totalRaised target
  refundable_nonneg : refundable.Nonneg
  retained_nonneg : retained.Nonneg
  cut : ∀ i, refundable.getD i 0 + retained.getD i 0 = investments.getD i 0
  share_le : ∀ i, share totalRaised target (investments.getD i 0) ≤ refundable.getD i 0
  le_share : ∀ i, refundable.getD i 0 ≤ share totalRaised target (investments.getD i 0) + 1
  refundable_total : refundable.total = total
  retained_total : retained.total = investments.total - total

theorem investedSum_entries {m : HostMap Addr Int} (h : m.Nonneg) :
    investedSum m.entries = m.total := by
  unfold investedSum HostMap.total HostMap.sumBy
  congr 1
  refine List.map_congr_left fun e he => max_eq_left ?_
  have := h e.1
  rwa [HostMap.getD_of_mem he] at this

/-- The maps after the first loop. -/
theorem allocate_entries {tr target : Int} (ht : 0 ≤ target) {m : HostMap Addr Int}
    (hm : m.Nonneg) {maps : Split Addr} {allocated : Int}
    (h : allocate tr target m.entries ⟨.empty, .empty⟩ 0 = .ok (maps, allocated)) :
    (∀ i, maps.refundable.getD i 0 = share tr target (m.getD i 0) ∧
      maps.retained.getD i 0 = m.getD i 0 - share tr target (m.getD i 0)) ∧
    maps.refundable.total = allocated ∧
    maps.refundable.total + maps.retained.total = m.total := by
  have hspec := allocate_spec ht m.sorted (fun _ _ => ⟨rfl, rfl⟩) h
  have hallocated := hspec.allocated_total
  have htotal := hspec.total
  simp only [HostMap.total_empty] at hallocated htotal
  rw [investedSum_entries hm] at htotal
  refine ⟨?_, by omega, by omega⟩
  intro i
  cases hi : m.get? i with
  | none =>
    have hz : m.getD i 0 = 0 := by rw [HostMap.getD, hi]; rfl
    obtain ⟨j1, j2⟩ := hspec.others i fun e he hei => by
      have := HostMap.mem_entries_iff.mp (hei ▸ he : (i, e.2) ∈ m.entries)
      simp [hi] at this
    rw [j1, j2, hz, share_nonpos le_rfl]
    exact ⟨rfl, rfl⟩
  | some v =>
    have hv : m.getD i 0 = v := by rw [HostMap.getD, hi]; rfl
    have hmem := HostMap.mem_entries_iff.mpr hi
    have hretained := hspec.retained _ hmem
    have hnn := hm i
    rw [hv] at hnn ⊢
    rw [max_eq_left hnn] at hretained
    exact ⟨hspec.refundable _ hmem, hretained⟩

theorem allocate_nonneg {tr target : Int} (ht : 0 ≤ target) {m : HostMap Addr Int} (hm : m.Nonneg)
    {maps : Split Addr} {allocated : Int}
    (h : allocate tr target m.entries ⟨.empty, .empty⟩ 0 = .ok (maps, allocated)) :
    maps.Nonneg := by
  obtain ⟨hparts, _, _⟩ := allocate_entries ht hm h
  constructor
  · intro i
    rw [(hparts i).1]
    exact (share_bounds _ ht (hm i)).1
  · intro i
    rw [(hparts i).2]
    have := (share_bounds tr ht (hm i)).2
    omega

/-- The maps after both loops, when the residue was spread completely. -/
theorem maps_spec {tr target total : Int} (ht : 0 ≤ target) {m : HostMap Addr Int}
    (hm : m.Nonneg) {maps maps' : Split Addr} {allocated residual : Int}
    (ha : allocate tr target m.entries ⟨.empty, .empty⟩ 0 = .ok (maps, allocated))
    (hr : spreadLeftover m.entries maps (total - allocated) = .ok (maps', residual)) :
    (∀ i, maps'.refundable.getD i 0 + maps'.retained.getD i 0 = m.getD i 0) ∧
    (∀ i, share tr target (m.getD i 0) ≤ maps'.refundable.getD i 0 ∧
      maps'.refundable.getD i 0 ≤ share tr target (m.getD i 0) + 1) ∧
    maps'.Nonneg ∧
    maps'.refundable.total + residual = total ∧
    maps'.refundable.total + maps'.retained.total = m.total := by
  obtain ⟨i1, i2, i3⟩ := allocate_entries ht hm ha
  have hnn := allocate_nonneg ht hm ha
  have hsum : ∀ i, maps.refundable.getD i 0 + maps.retained.getD i 0 = m.getD i 0 := fun i => by
    rw [(i1 i).1, (i1 i).2]; omega
  unfold spreadLeftover at hr
  split at hr
  · have hsplit : ∀ e ∈ m.entries,
        maps.refundable.getD e.1 0 + maps.retained.getD e.1 0 = max e.2 0 := fun e he => by
      have hei := hm e.1
      rw [HostMap.getD_of_mem he] at hei
      rw [hsum, HostMap.getD_of_mem he, max_eq_left hei]
    have hspread := spreadResidual_spec m.sorted hsplit hnn hr
    have hresidual := hspread.residual_total
    refine ⟨fun i => by rw [hspread.cut, hsum], fun i => ?_, hspread.nonneg, by omega,
      hspread.total.trans i3⟩
    rw [← (i1 i).1]
    exact hspread.grows i
  · simp only [pure_eq_ok, Except.ok.injEq, Prod.mk.injEq] at hr
    obtain ⟨rfl, rfl⟩ := hr
    refine ⟨hsum, ?_, hnn, by omega, i3⟩
    intro i
    rw [(i1 i).1]
    omega

theorem applyProportionalRefund_split {c c' : Campaign Addr} {target total : Int}
    (ht : 0 ≤ target) (hm : c.investments.Nonneg)
    (h : applyProportionalRefund c target = .ok (c', total)) :
    ∃ retained refundable, c' = c.split retained refundable total ∧
      ProportionalSplit c.state.totalRaised target c.investments retained refundable total := by
  unfold applyProportionalRefund at h
  obtain ⟨t, hsum, h⟩ := bind_eq_ok.mp h
  obtain ⟨⟨maps, allocated⟩, ha, h⟩ := bind_eq_ok.mp h
  simp only [okOr_bind_eq_ok, checkedSub_eq_some] at h
  obtain ⟨_, ⟨_, rfl⟩, h⟩ := h
  obtain ⟨⟨maps', residual⟩, hr, h⟩ := bind_eq_ok.mp h
  simp only [failIf_bind_eq_ok, okOr_bind_eq_ok, checkedSub_eq_some, pure_eq_ok, Except.ok.injEq,
    Prod.mk.injEq, ne_eq, not_not] at h
  obtain ⟨rfl, _, ⟨_, rfl⟩, rfl, rfl⟩ := h
  obtain ⟨m1, m2, m3, m4, m5⟩ := maps_spec ht hm ha hr
  have htotal : maps'.refundable.total = t := by omega
  refine ⟨maps'.retained, maps'.refundable, rfl, ?_⟩
  exact {
    target_nonneg := ht
    total_eq := refundableTotal_eq hsum
    refundable_nonneg := m3.1
    retained_nonneg := m3.2
    cut := m1
    share_le := fun i => (m2 i).1
    le_share := fun i => (m2 i).2
    refundable_total := htotal
    retained_total := by omega }

end AgriFi.FarmCampaign
