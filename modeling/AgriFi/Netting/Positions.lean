import AgriFi.Netting.Multilateral
import Mathlib.Algebra.Order.BigOperators.Group.List

/-
  What the doubles of `calculateMultilateralNetting` are worth in whole cents, up to the parties'
  net balances: the loops over the obligations keep one position a party, with the sums of its
  amounts (`tallied`), and its balance is right to the cent (`net_spec`) as long as the roundings of
  one sum stay below half a cent. For `n` obligations of `N` cents in all that is so when
  `(2 * n + 3) * N < 2 ^ 52`.
-/

namespace AgriFi.Netting

open AgriFi.Binary64

variable {Party : Type} [DecidableEq Party]

/-! ## The exact amounts -/

/-- What a party has to pay, obligation by obligation. -/
def payables (p : Party) (obligations : List (NettingObligation Party)) : List Int :=
  (obligations.filter (·.payerId = p)).map NettingObligation.amountUsd

def receivables (p : Party) (obligations : List (NettingObligation Party)) : List Int :=
  (obligations.filter (·.payeeId = p)).map NettingObligation.amountUsd

/-- What a party has to get, less what it has to pay. -/
def netCents (obligations : List (NettingObligation Party)) (p : Party) : Int :=
  (receivables p obligations).sum - (payables p obligations).sum

def totalCents (obligations : List (NettingObligation Party)) : Int :=
  (obligations.map NettingObligation.amountUsd).sum

/-- The parties, each once. -/
def parties (obligations : List (NettingObligation Party)) : List Party :=
  (obligations.flatMap fun ob => [ob.payerId, ob.payeeId]).dedup

def nonNeutral (obligations : List (NettingObligation Party)) : List Party :=
  (parties obligations).filter fun p => netCents obligations p ≠ 0

section Exact

variable {obligations : List (NettingObligation Party)} {ob : NettingObligation Party} {p : Party}

theorem payables_concat : payables p (obligations ++ [ob]) =
    payables p obligations ++ if ob.payerId = p then [ob.amountUsd] else [] := by
  unfold payables
  rw [List.filter_append, List.map_append]
  by_cases h : ob.payerId = p
  · rw [if_pos h, List.filter_cons_of_pos (by simpa using h)]; rfl
  · rw [if_neg h, List.filter_cons_of_neg (by simpa using h)]; rfl

theorem receivables_concat : receivables p (obligations ++ [ob]) =
    receivables p obligations ++ if ob.payeeId = p then [ob.amountUsd] else [] := by
  unfold receivables
  rw [List.filter_append, List.map_append]
  by_cases h : ob.payeeId = p
  · rw [if_pos h, List.filter_cons_of_pos (by simpa using h)]; rfl
  · rw [if_neg h, List.filter_cons_of_neg (by simpa using h)]; rfl

omit [DecidableEq Party] in
theorem totalCents_cons : totalCents (ob :: obligations) = ob.amountUsd + totalCents obligations :=
  rfl

omit [DecidableEq Party] in
/-- Of the amounts some are picked: no more of them, and no more in all. -/
theorem picked_le (hpos : ∀ ob ∈ obligations, 0 < ob.amountUsd)
    (pick : NettingObligation Party → Bool) :
    (((obligations.filter pick).map NettingObligation.amountUsd).map abs).sum ≤
      totalCents obligations ∧
    0 ≤ ((obligations.filter pick).map NettingObligation.amountUsd).sum ∧
    ((obligations.filter pick).map NettingObligation.amountUsd).sum ≤ totalCents obligations := by
  induction obligations with
  | nil => exact ⟨le_refl 0, le_refl 0, le_refl 0⟩
  | cons ob obligations ih =>
    have hob := hpos ob (List.mem_cons_self ..)
    have hrest := ih fun o ho => hpos o (List.mem_cons_of_mem _ ho)
    rw [List.filter_cons, totalCents_cons]
    split
    · rw [List.map_cons, List.map_cons, List.sum_cons, List.sum_cons, abs_of_pos hob]
      omega
    · omega

/-- Over a list that names every party once, one obligation counts once. -/
theorem sum_ite_eq {ids : List Party} (hnodup : ids.Nodup) (hp : p ∈ ids) (k : Int) :
    (ids.map fun q => if p = q then k else 0).sum = k := by
  induction ids with
  | nil => cases hp
  | cons q ids ih =>
    rw [List.nodup_cons] at hnodup
    rw [List.map_cons, List.sum_cons]
    rcases List.mem_cons.mp hp with rfl | hp'
    · have hzero : (ids.map fun q => if p = q then k else 0).sum = 0 := by
        refine List.sum_eq_zero fun x hx => ?_
        obtain ⟨q, hq, rfl⟩ := List.mem_map.mp hx
        refine if_neg ?_
        rintro rfl
        exact hnodup.1 hq
      rw [if_pos rfl, hzero, add_zero]
    · have hne : p ≠ q := by
        rintro rfl
        exact hnodup.1 hp'
      rw [if_neg hne, ih hnodup.2 hp', zero_add]

/-- Summed over all the parties, every amount is got once and paid once. -/
theorem sum_weighted {ids : List Party} (hnodup : ids.Nodup)
    (hids : ∀ ob ∈ obligations, ob.payerId ∈ ids ∧ ob.payeeId ∈ ids) (x y : Int) :
    (ids.map fun q => x * (receivables q obligations).sum + y * (payables q obligations).sum).sum =
      (x + y) * totalCents obligations := by
  induction obligations with
  | nil =>
    refine (List.sum_eq_zero fun z hz => ?_).trans (by rw [totalCents]; simp)
    obtain ⟨q, _, rfl⟩ := List.mem_map.mp hz
    show x * 0 + y * 0 = 0
    omega
  | cons ob obligations ih =>
    obtain ⟨hpayer, hpayee⟩ := hids ob (List.mem_cons_self ..)
    have hrest := ih fun o ho => hids o (List.mem_cons_of_mem _ ho)
    have hsplit : (ids.map fun q => x * (receivables q (ob :: obligations)).sum +
        y * (payables q (ob :: obligations)).sum) = ids.map fun q =>
          (x * (receivables q obligations).sum + y * (payables q obligations).sum) +
            ((if ob.payeeId = q then x * ob.amountUsd else 0) +
              if ob.payerId = q then y * ob.amountUsd else 0) := by
      refine List.map_congr_left fun q _ => ?_
      unfold receivables payables
      rw [List.filter_cons, List.filter_cons]
      by_cases h1 : ob.payeeId = q <;> by_cases h2 : ob.payerId = q <;> simp [h1, h2] <;> ring
    rw [hsplit, List.sum_map_add, hrest, List.sum_map_add, sum_ite_eq hnodup hpayee,
      sum_ite_eq hnodup hpayer, totalCents_cons]
    ring

/-- The net balances of all the parties cancel. -/
theorem sum_netCents {ids : List Party} (hnodup : ids.Nodup)
    (hids : ∀ ob ∈ obligations, ob.payerId ∈ ids ∧ ob.payeeId ∈ ids) :
    (ids.map (netCents obligations)).sum = 0 := by
  have h := sum_weighted hnodup hids 1 (-1)
  have hnet : netCents obligations = fun q =>
      1 * (receivables q obligations).sum + -1 * (payables q obligations).sum := by
    funext q
    unfold netCents
    omega
  rw [hnet, h]
  omega

end Exact

/-! ## The positions -/

section Positions

variable {obligations : List (NettingObligation Party)} {ob : NettingObligation Party} {p : Party}
  {name : String} {f : NetPartyPosition Party → NetPartyPosition Party}
  {positions : List (NetPartyPosition Party)}

/-- What holds of the positions after one of them was changed. -/
theorem forall_upsert {P Q : NetPartyPosition Party → Prop} (h : ∀ pos ∈ positions, P pos)
    (hother : ∀ pos, P pos → pos.partyId ≠ p → Q pos)
    (hold : ∀ pos, P pos → pos.partyId = p → Q (f pos))
    (hnew : p ∉ positions.map NetPartyPosition.partyId → Q (f (.opened p name))) :
    ∀ pos ∈ upsert p name f positions, Q pos := by
  have hkept : ∀ pos ∈ positions, Q (if pos.partyId = p then f pos else pos) := by
    intro pos hpos
    split
    · next hp => exact hold pos (h pos hpos) hp
    · next hp => exact hother pos (h pos hpos) hp
  intro pos hpos
  unfold upsert at hpos
  obtain ⟨pos, hpos', rfl⟩ := List.mem_map.mp hpos
  split at hpos'
  · exact hkept pos hpos'
  · next hp =>
    rcases List.mem_append.mp hpos' with hpos' | hpos'
    · exact hkept pos hpos'
    · obtain rfl := List.mem_singleton.mp hpos'
      rw [if_pos (by rfl)]
      exact hnew hp

variable (p name positions) in
theorem upsert_partyIds (hf : ∀ pos, (f pos).partyId = pos.partyId) :
    (upsert p name f positions).map NetPartyPosition.partyId =
      if p ∈ positions.map NetPartyPosition.partyId then positions.map NetPartyPosition.partyId
      else positions.map NetPartyPosition.partyId ++ [p] := by
  have hkeep : (NetPartyPosition.partyId ∘ fun pos : NetPartyPosition Party =>
      if pos.partyId = p then f pos else pos) = NetPartyPosition.partyId := by
    funext pos
    show (if pos.partyId = p then f pos else pos).partyId = pos.partyId
    split
    · exact hf pos
    · rfl
  unfold upsert
  rw [List.map_map, hkeep]
  split
  · rfl
  · rw [List.map_append]; rfl

/-- The sums of one position are those of its party's obligations, as the loop has formed them. -/
def Counted (paid got : List (NettingObligation Party)) (pos : NetPartyPosition Party) : Prop :=
  pos.grossPayableUsd = sum ((payables pos.partyId paid).map cents) ∧
    pos.grossReceivableUsd = sum ((receivables pos.partyId got).map cents)

structure Tallied (obligations : List (NettingObligation Party))
    (positions : List (NetPartyPosition Party)) : Prop where
  nodup : (positions.map NetPartyPosition.partyId).Nodup
  mem : ∀ p, p ∈ positions.map NetPartyPosition.partyId ↔ p ∈ parties obligations
  counted : ∀ pos ∈ positions, Counted obligations obligations pos
  length_le : positions.length ≤ 2 * obligations.length

theorem mem_parties : p ∈ parties obligations ↔
    ∃ ob ∈ obligations, p = ob.payerId ∨ p = ob.payeeId := by
  unfold parties
  rw [List.mem_dedup, List.mem_flatMap]
  simp

theorem payables_eq_nil (h : p ∉ parties obligations) : payables p obligations = [] := by
  unfold payables
  rw [List.map_eq_nil_iff, List.filter_eq_nil_iff]
  intro ob hob hp
  exact h (mem_parties.mpr ⟨ob, hob, .inl (of_decide_eq_true hp).symm⟩)

theorem receivables_eq_nil (h : p ∉ parties obligations) : receivables p obligations = [] := by
  unfold receivables
  rw [List.map_eq_nil_iff, List.filter_eq_nil_iff]
  intro ob hob hp
  exact h (mem_parties.mpr ⟨ob, hob, .inr (of_decide_eq_true hp).symm⟩)

theorem counted_payer (h : Tallied obligations positions) :
    ∀ pos ∈ upsert ob.payerId ob.payerName (.addPayable ob.amount) positions,
      Counted (obligations ++ [ob]) obligations pos := by
  refine forall_upsert h.counted ?_ ?_ ?_
  · intro pos hpos hne
    refine ⟨?_, hpos.2⟩
    rw [payables_concat, if_neg (Ne.symm hne), List.append_nil]
    exact hpos.1
  · intro pos hpos heq
    refine ⟨?_, hpos.2⟩
    show add pos.grossPayableUsd ob.amount =
      sum ((payables pos.partyId (obligations ++ [ob])).map cents)
    rw [payables_concat, if_pos heq.symm, List.map_append, List.map_singleton, sum_concat, hpos.1]
    rfl
  · intro hnew
    rw [h.mem] at hnew
    constructor
    · show add 0 ob.amount = sum ((payables ob.payerId (obligations ++ [ob])).map cents)
      rw [payables_concat, payables_eq_nil hnew, if_pos rfl]
      rfl
    · show 0 = sum ((receivables ob.payerId obligations).map cents)
      rw [receivables_eq_nil hnew]
      rfl

theorem counted_payee {paid : List (NettingObligation Party)}
    (h : ∀ pos ∈ positions, Counted paid obligations pos)
    (hnew : ob.payeeId ∉ positions.map NetPartyPosition.partyId →
      payables ob.payeeId paid = [] ∧ receivables ob.payeeId obligations = []) :
    ∀ pos ∈ upsert ob.payeeId ob.payeeName (.addReceivable ob.amount) positions,
      Counted paid (obligations ++ [ob]) pos := by
  refine forall_upsert h ?_ ?_ ?_
  · intro pos hpos hne
    refine ⟨hpos.1, ?_⟩
    rw [receivables_concat, if_neg (Ne.symm hne), List.append_nil]
    exact hpos.2
  · intro pos hpos heq
    refine ⟨hpos.1, ?_⟩
    show add pos.grossReceivableUsd ob.amount =
      sum ((receivables pos.partyId (obligations ++ [ob])).map cents)
    rw [receivables_concat, if_pos heq.symm, List.map_append, List.map_singleton, sum_concat,
      hpos.2]
    rfl
  · intro hids
    obtain ⟨hpaid, hgot⟩ := hnew hids
    constructor
    · show 0 = sum ((payables ob.payeeId paid).map cents)
      rw [hpaid]
      rfl
    · show add 0 ob.amount = sum ((receivables ob.payeeId (obligations ++ [ob])).map cents)
      rw [receivables_concat, hgot, if_pos rfl]
      rfl

variable (p name) in
/-- One change keeps the parties apart and adds at most one. -/
theorem upsert_spec (hf : ∀ pos, (f pos).partyId = pos.partyId)
    (h : (positions.map NetPartyPosition.partyId).Nodup) :
    ((upsert p name f positions).map NetPartyPosition.partyId).Nodup ∧
    (∀ q, q ∈ (upsert p name f positions).map NetPartyPosition.partyId ↔
      q ∈ positions.map NetPartyPosition.partyId ∨ q = p) ∧
    (upsert p name f positions).length ≤ positions.length + 1 := by
  have hids := upsert_partyIds p name positions hf
  have hlen : (upsert p name f positions).length ≤ positions.length + 1 := by
    unfold upsert
    rw [List.length_map]
    split
    · omega
    · rw [List.length_append]
      exact le_refl _
  split at hids
  · next hp =>
    rw [hids]
    refine ⟨h, fun q => ⟨.inl, ?_⟩, hlen⟩
    rintro (hq | rfl)
    · exact hq
    · exact hp
  · next hp =>
    rw [hids]
    refine ⟨?_, fun q => ?_, hlen⟩
    · rw [← List.concat_eq_append]
      exact h.concat hp
    · rw [List.mem_append, List.mem_singleton]

/-- One more obligation: first its payer's position, then its payee's. -/
theorem Tallied.accumulate (h : Tallied obligations positions) :
    Tallied (obligations ++ [ob]) (accumulate positions ob) := by
  obtain ⟨hnodup, hmem, hlen⟩ := upsert_spec ob.payerId ob.payerName
    (f := .addPayable ob.amount) (fun _ => rfl) h.nodup
  obtain ⟨hnodup', hmem', hlen'⟩ := upsert_spec ob.payeeId ob.payeeName
    (f := .addReceivable ob.amount) (fun _ => rfl) hnodup
  constructor
  case nodup => exact hnodup'
  case mem =>
    intro q
    refine (hmem' q).trans ?_
    rw [hmem, h.mem, mem_parties, mem_parties]
    constructor
    · rintro ((⟨o, ho, hq⟩ | rfl) | rfl)
      · exact ⟨o, List.mem_append_left _ ho, hq⟩
      · exact ⟨ob, by simp, .inl rfl⟩
      · exact ⟨ob, by simp, .inr rfl⟩
    · rintro ⟨o, ho, hq⟩
      rcases List.mem_append.mp ho with ho | ho
      · exact .inl (.inl ⟨o, ho, hq⟩)
      · obtain rfl := List.mem_singleton.mp ho
        rcases hq with rfl | rfl
        · exact .inl (.inr rfl)
        · exact .inr rfl
  case counted =>
    refine counted_payee (counted_payer h) ?_
    intro hnew
    rw [hmem, h.mem, not_or] at hnew
    refine ⟨?_, receivables_eq_nil hnew.1⟩
    rw [payables_concat, payables_eq_nil hnew.1, if_neg (Ne.symm hnew.2), List.append_nil]
  case length_le =>
    have := h.length_le
    rw [List.length_append, List.length_singleton]
    unfold Netting.accumulate
    omega

theorem tallied (obligations : List (NettingObligation Party)) :
    Tallied obligations (obligations.foldl accumulate []) := by
  induction obligations using List.reverseRecOn with
  | nil =>
    constructor
    case nodup => exact List.nodup_nil
    case mem => intro p; simp [parties]
    case counted => intro pos hpos; cases hpos
    case length_le => exact Nat.zero_le _
  | append_singleton obligations ob ih =>
    rw [List.foldl_concat]
    exact ih.accumulate

end Positions

/-! ## The net balances -/

/-- What `createObligation` lets in. -/
def Proper (obligations : List (NettingObligation Party)) : Prop :=
  ∀ ob ∈ obligations, 0 < ob.amountUsd ∧ ob.payerId ≠ ob.payeeId

/-- The roundings of a sum of all the amounts, or of all the transfers, stay below half a cent. -/
def WithinDoubles (obligations : List (NettingObligation Party)) : Prop :=
  (2 * obligations.length + 3) * totalCents obligations < 2 ^ 52

instance (obligations : List (NettingObligation Party)) : Decidable (Proper obligations) :=
  inferInstanceAs (Decidable (∀ ob ∈ obligations, _))

instance (obligations : List (NettingObligation Party)) : Decidable (WithinDoubles obligations) :=
  inferInstanceAs (Decidable (_ < _))

section Net

variable {obligations : List (NettingObligation Party)} {p : Party}
  {pos : NetPartyPosition Party}

omit [DecidableEq Party] in
theorem length_le_totalCents (h : Proper obligations) :
    (obligations.length : Int) ≤ totalCents obligations := by
  induction obligations with
  | nil => exact le_refl 0
  | cons ob obligations ih =>
    have hob := (h ob (List.mem_cons_self ..)).1
    have := ih fun o ho => h o (List.mem_cons_of_mem _ ho)
    rw [List.length_cons, totalCents_cons]
    push_cast
    omega

omit [DecidableEq Party] in
/-- The bounds that the sums need. -/
theorem WithinDoubles.bounds (hw : WithinDoubles obligations) (h : Proper obligations) :
    5 * totalCents obligations ≤ 2 ^ 52 ∧ (2 * obligations.length + 1) ^ 2 ≤ 2 ^ 53 := by
  have hle := length_le_totalCents h
  unfold WithinDoubles at hw
  rcases Nat.eq_zero_or_pos obligations.length with hzero | hpos
  · have hnil := List.eq_nil_of_length_eq_zero hzero
    subst hnil
    exact ⟨(by decide : (5 : Int) * 0 ≤ 2 ^ 52), (by decide : (2 * 0 + 1) ^ 2 ≤ 2 ^ 53)⟩
  · have hone : (1 : Int) ≤ obligations.length := by exact_mod_cast hpos
    generalize totalCents obligations = N at *
    constructor
    · have := mul_le_mul_of_nonneg_right hone (by omega : 0 ≤ N)
      linarith
    · have hsq : (obligations.length : Int) * obligations.length ≤ obligations.length * N :=
        mul_le_mul_of_nonneg_left hle (by omega)
      have : (2 * (obligations.length : Int) + 1) ^ 2 ≤ 2 ^ 53 := by
        have hexp : (2 * (obligations.length : Int) + 1) ^ 2 =
            4 * (obligations.length * obligations.length) + 4 * obligations.length + 1 := by ring
        rw [hexp]
        linarith
      exact_mod_cast this

variable (obligations) in
omit [DecidableEq Party] in
theorem length_picked_le (pick : NettingObligation Party → Bool) :
    ((obligations.filter pick).map NettingObligation.amountUsd).length ≤ obligations.length := by
  rw [List.length_map]
  exact List.length_filter_le ..

omit [DecidableEq Party] in
/-- A gross sum of some of the amounts is right to the cent. -/
theorem roundCents_picked (h : Proper obligations) (hw : WithinDoubles obligations)
    (pick : NettingObligation Party → Bool) :
    roundCents (sum (((obligations.filter pick).map NettingObligation.amountUsd).map cents)) =
      cents ((obligations.filter pick).map NettingObligation.amountUsd).sum := by
  obtain ⟨_, hsq⟩ := hw.bounds h
  have hlen := length_picked_le obligations pick
  obtain ⟨habs, _, _⟩ := picked_le (fun ob hob => (h ob hob).1) pick
  have hn := length_le_totalCents h
  unfold WithinDoubles at hw
  generalize (obligations.filter pick).map NettingObligation.amountUsd = ks at *
  refine roundCents_of_toCents (toCents_sum ?_ ?_)
  · refine le_trans (Nat.pow_le_pow_left ?_ 2) hsq
    omega
  · have habs0 : 0 ≤ (ks.map abs).sum := (abs_nonneg _).trans (abs_sum_le ks)
    rcases Nat.eq_zero_or_pos obligations.length with hzero | hpos
    · have hnil := List.eq_nil_of_length_eq_zero hzero
      subst hnil
      have hks := List.eq_nil_of_length_eq_zero (by omega : ks.length = 0)
      subst hks
      decide
    · have hfactor : (ks.length : Int) + 4 ≤ 2 * obligations.length + 3 := by omega
      calc ((ks.length : Int) + 4) * (ks.map abs).sum
          ≤ (2 * obligations.length + 3) * (ks.map abs).sum :=
            mul_le_mul_of_nonneg_right hfactor habs0
        _ ≤ (2 * obligations.length + 3) * totalCents obligations :=
            mul_le_mul_of_nonneg_left habs (by omega)
        _ < 2 ^ 52 := hw

/-- `0.005` parts nothing from a cent. -/
theorem halfCent_lt_cents {k : Int} (hk : |k| ≤ 2 ^ 50) : halfCent < cents k ↔ 0 < k := by
  have hhalf : 0 < halfCent ∧ halfCent < cents 1 := by decide +kernel
  constructor
  · intro h
    by_contra hle
    rcases (not_lt.mp hle).eq_or_lt with rfl | hlt
    · rw [cents_zero] at h
      exact absurd h (not_lt.mpr hhalf.1.le)
    · have := cents_lt_cents hk (by norm_num) hlt
      rw [cents_zero] at this
      linarith
  · intro h
    rcases (Int.add_one_le_of_lt h).eq_or_lt with heq | hlt
    · rw [zero_add] at heq
      rw [← heq]
      exact hhalf.2
    · rw [zero_add] at hlt
      exact hhalf.2.trans (cents_lt_cents (by norm_num) hk hlt)

theorem cents_lt_halfCent {k : Int} (hk : |k| ≤ 2 ^ 50) : cents k < -halfCent ↔ k < 0 := by
  have := halfCent_lt_cents (k := -k) (by rwa [abs_neg])
  rw [cents_neg, lt_neg] at this
  rw [this]
  omega

theorem netCents_bound (h : Proper obligations) (p : Party) :
    |netCents obligations p| ≤ totalCents obligations := by
  obtain ⟨_, h1, h2⟩ := picked_le (fun ob hob => (h ob hob).1) (·.payerId = p)
  obtain ⟨_, h3, h4⟩ := picked_le (fun ob hob => (h ob hob).1) (·.payeeId = p)
  unfold netCents payables receivables
  rw [abs_le]
  constructor <;> omega

/-- A position's balance is its party's, to the cent. -/
theorem net_spec (h : Proper obligations) (hw : WithinDoubles obligations)
    (hpos : Counted obligations obligations pos) :
    pos.net.netBalanceUsd = cents (netCents obligations pos.partyId) ∧
    (pos.net.status = .netCreditor ↔ 0 < netCents obligations pos.partyId) ∧
    (pos.net.status = .netDebtor ↔ netCents obligations pos.partyId < 0) := by
  obtain ⟨hN, _⟩ := hw.bounds h
  obtain ⟨_, h1, h2⟩ := picked_le (fun ob hob => (h ob hob).1) (·.payerId = pos.partyId)
  obtain ⟨_, h3, h4⟩ := picked_le (fun ob hob => (h ob hob).1) (·.payeeId = pos.partyId)
  have hbal : pos.net.netBalanceUsd = cents (netCents obligations pos.partyId) := by
    show roundCents (sub (roundCents pos.grossReceivableUsd) (roundCents pos.grossPayableUsd)) = _
    rw [hpos.1, hpos.2]
    unfold receivables payables
    rw [roundCents_picked h hw, roundCents_picked h hw, roundCents_sub h3 h1 (by omega) (by omega)]
    rfl
  have hk : |netCents obligations pos.partyId| ≤ 2 ^ 50 := by
    have := netCents_bound h pos.partyId
    omega
  have hstatus : pos.net.status =
      if halfCent < cents (netCents obligations pos.partyId) then .netCreditor
      else if cents (netCents obligations pos.partyId) < -halfCent then .netDebtor
      else .neutral := by
    rw [← hbal]
    rfl
  rw [hstatus]
  simp only [halfCent_lt_cents hk, cents_lt_halfCent hk]
  refine ⟨hbal, ?_, ?_⟩
  · split
    · next hc => simpa using hc
    · next hc =>
      split
      · simpa using hc
      · simpa using hc
  · split
    · next hc => simp; omega
    · next hc =>
      split
      · next hd => simpa using hd
      · next hd => simpa using hd

end Net

end AgriFi.Netting
