import AgriFi.Netting.Positions
import AgriFi.Greedy

/-
  What the transfers of `calculateMultilateralNetting` settle. The loop comes to its end on any
  doubles (`matchAll_ends`). On the amounts of `Netting.Positions` it makes the payments of
  `Greedy.settle` on the parties' net balances, one for one (`matchAll_settle`), and so settles
  everybody to the cent.
-/

namespace AgriFi.Netting

open AgriFi.Binary64
open AgriFi.Greedy (Account Payment settle paidTo paidBy held total without)

variable {Party : Type} [DecidableEq Party]

/-! ## The loop -/

section Loop

variable {s s' : Matching Party}

omit [DecidableEq Party]

/-- A pass finishes a creditor or a debtor, whatever the doubles are. -/
theorem matchOnce_shorter (h : matchOnce s = some s') : s'.passes < s.passes := by
  unfold matchOnce at h
  split at h
  · next creditor cs debtor ds hcs hds =>
    have hzero : roundCents (toDouble 0) ≤ halfCent := by decide +kernel
    cases h
    unfold Matching.passes
    dsimp only
    rw [hcs, hds, List.length_cons, List.length_cons]
    rcases le_total creditor.remainingCredit debtor.remainingDebt with hle | hle
    · rw [min_eq_left hle]
      unfold sub
      rw [sub_self, if_pos hzero]
      split
      · omega
      · rw [List.length_cons]
        omega
    · rw [min_eq_right hle]
      unfold sub
      rw [sub_self, if_pos hzero]
      split
      · omega
      · rw [List.length_cons]
        omega
  · cases h

/-- The loop ends within as many passes as there are creditors and debtors. -/
theorem matchAll_ends {fuel : Nat} (h : s.passes ≤ fuel) : matchOnce (matchAll s fuel) = none := by
  induction fuel generalizing s with
  | zero =>
    cases hs : matchOnce s with
    | none => exact hs
    | some s' =>
      have := matchOnce_shorter hs
      omega
  | succ fuel ih =>
    unfold matchAll
    split
    · next hs => exact hs
    · next s' hs =>
      have := matchOnce_shorter hs
      exact ih (by omega)

/-- The creditors that the loop has left are the accounts, in cents. -/
def Owed (creditors : List (Creditor Party)) (accounts : List (Account Party)) : Prop :=
  List.Forall₂ (fun c a => c.partyId = a.party ∧ c.remainingCredit = cents a.amount)
    creditors accounts

def Owes (debtors : List (Debtor Party)) (accounts : List (Account Party)) : Prop :=
  List.Forall₂ (fun d a => d.partyId = a.party ∧ d.remainingDebt = cents a.amount)
    debtors accounts

/-- A transfer makes a payment, in cents. -/
def Makes (t : NettedTransfer Party) (payment : Payment Party) : Prop :=
  t.fromPartyId = payment.payer ∧ t.toPartyId = payment.payee ∧
    t.amountUsd = cents payment.amount

/-- The accounts are of some cents that doubles can tell apart. -/
def Countable (accounts : List (Account Party)) : Prop :=
  ∀ a ∈ accounts, 0 < a.amount ∧ 5 * a.amount ≤ 2 ^ 52

theorem Countable.without {account : Account Party} {rest : List (Account Party)} {paid : Int}
    (hpaid : 0 ≤ paid) (h : Countable (account :: rest)) :
    Countable (without paid account rest) := by
  intro a ha
  refine ⟨Greedy.without_pos (fun b hb => (h b hb).1) a ha, ?_⟩
  unfold Greedy.without at ha
  split at ha
  · exact (h a (List.mem_cons_of_mem _ ha)).2
  · rcases List.mem_cons.mp ha with rfl | ha
    · have := (h account (List.mem_cons_self ..)).2
      show 5 * (account.amount - paid) ≤ 2 ^ 52
      omega
    · exact (h a (List.mem_cons_of_mem _ ha)).2

/-- What a pass leaves of one side's amount. -/
theorem remaining_eq {m n : Int} (hm : 0 < m) (hn : 0 < n) (hm' : 5 * m ≤ 2 ^ 52) :
    roundCents (sub (cents m) (cents (min m n))) = cents (m - min m n) ∧
      (cents (m - min m n) ≤ halfCent ↔ m ≤ n) := by
  have hmin : 0 ≤ min m n := le_min hm.le hn.le
  refine ⟨roundCents_sub hm.le hmin hm' (by omega), ?_⟩
  rw [← not_lt, halfCent_lt_cents (by rw [abs_le]; constructor <;> omega)]
  omega

/-- One pass of the loop makes one payment. -/
theorem matchOnce_settle {creditor debtor : Account Party} {cs ds : List (Account Party)}
    (hc : Countable (creditor :: cs)) (hd : Countable (debtor :: ds))
    (howed : Owed s.creditors (creditor :: cs)) (howes : Owes s.debtors (debtor :: ds)) :
    ∃ s' t, matchOnce s = some s' ∧ s'.netTransfers = s.netTransfers ++ [t] ∧
      Makes t ⟨debtor.party, creditor.party, min creditor.amount debtor.amount⟩ ∧
      s'.netTotalVolumeUsd = add s.netTotalVolumeUsd t.amountUsd ∧
      Owed s'.creditors (without debtor.amount creditor cs) ∧
      Owes s'.debtors (without creditor.amount debtor ds) := by
  obtain ⟨creditors, debtors, transfers, volume⟩ := s
  cases howed with
  | @cons c _ cs' _ hhead htail =>
    cases howes with
    | @cons d _ ds' _ hhead' htail' =>
      obtain ⟨hcpos, hcbound⟩ := hc creditor (List.mem_cons_self ..)
      obtain ⟨hdpos, hdbound⟩ := hd debtor (List.mem_cons_self ..)
      have hmin := cents_min (m := creditor.amount) (n := debtor.amount)
        (by rw [abs_of_pos hcpos]; omega) (by rw [abs_of_pos hdpos]; omega)
      have hsettled : min c.remainingCredit d.remainingDebt =
          cents (min creditor.amount debtor.amount) := by rw [hhead.2, hhead'.2, hmin]
      have hrounded : roundCents (cents (min creditor.amount debtor.amount)) =
          cents (min creditor.amount debtor.amount) :=
        roundCents_cents (by rw [abs_of_pos (lt_min hcpos hdpos)]; omega)
      have hpos : 0 < cents (min creditor.amount debtor.amount) :=
        cents_pos (by omega) (lt_min hcpos hdpos)
      obtain ⟨hcleft, hcdone⟩ := remaining_eq hcpos hdpos hcbound
      obtain ⟨hdleft, hddone⟩ := remaining_eq hdpos hcpos hdbound
      rw [min_comm debtor.amount] at hdleft hddone
      unfold matchOnce
      dsimp only
      rw [hsettled, hrounded, hhead.2, hhead'.2, hcleft, hdleft, if_pos hpos, if_pos hpos]
      refine ⟨_, _, rfl, rfl, ⟨hhead'.1, hhead.1, rfl⟩, rfl, ?_, ?_⟩
      · unfold Owed Greedy.without
        dsimp only
        by_cases hle : creditor.amount ≤ debtor.amount
        · rw [if_pos (hcdone.mpr hle), if_pos hle]
          exact htail
        · rw [if_neg (mt hcdone.mp hle), if_neg hle]
          refine .cons ⟨hhead.1, ?_⟩ htail
          rw [min_eq_right (by omega)]
      · unfold Owes Greedy.without
        dsimp only
        by_cases hle : debtor.amount ≤ creditor.amount
        · rw [if_pos (hddone.mpr hle), if_pos hle]
          exact htail'
        · rw [if_neg (mt hddone.mp hle), if_neg hle]
          refine .cons ⟨hhead'.1, ?_⟩ htail'
          rw [min_eq_left (by omega)]

theorem matchAll_done {fuel : Nat} (h : matchOnce s = none) : matchAll s fuel = s := by
  cases fuel with
  | zero => rfl
  | succ fuel => unfold matchAll; rw [h]

theorem matchOnce_done (h : s.creditors = [] ∨ s.debtors = []) : matchOnce s = none := by
  unfold matchOnce
  split
  · next hcs hds =>
    rcases h with h | h
    · rw [h] at hcs; cases hcs
    · rw [h] at hds; cases hds
  · rfl

/-- The whole loop makes the payments of the greedy matching. -/
theorem matchAll_settle {cs ds : List (Account Party)} {fuel : Nat}
    (hc : Countable cs) (hd : Countable ds) (howed : Owed s.creditors cs)
    (howes : Owes s.debtors ds) (hfuel : s.passes ≤ fuel) :
    ∃ transfers, (matchAll s fuel).netTransfers = s.netTransfers ++ transfers ∧
      List.Forall₂ Makes transfers (settle cs ds) ∧
      (matchAll s fuel).netTotalVolumeUsd =
        (transfers.map NettedTransfer.amountUsd).foldl add s.netTotalVolumeUsd := by
  induction fuel generalizing s cs ds with
  | zero =>
    unfold Matching.passes at hfuel
    have hcs : s.creditors = [] := List.eq_nil_of_length_eq_zero (by omega)
    unfold Owed at howed
    rw [hcs, List.forall₂_nil_left_iff] at howed
    rw [howed, Greedy.settle_nil_left]
    exact ⟨[], (List.append_nil _).symm, .nil, rfl⟩
  | succ fuel ih =>
    cases cs with
    | nil =>
      rw [matchAll_done (matchOnce_done (.inl (List.forall₂_nil_right_iff.mp howed))),
        Greedy.settle_nil_left]
      exact ⟨[], (List.append_nil _).symm, .nil, rfl⟩
    | cons creditor cs =>
      cases ds with
      | nil =>
        rw [matchAll_done (matchOnce_done (.inr (List.forall₂_nil_right_iff.mp howes))),
          Greedy.settle_nil_right]
        exact ⟨[], (List.append_nil _).symm, .nil, rfl⟩
      | cons debtor ds =>
        obtain ⟨s', t, hs, htransfers, hmakes, hvolume, howed', howes'⟩ :=
          matchOnce_settle hc hd howed howes
        have hshorter := matchOnce_shorter hs
        obtain ⟨rest, hrest, hmade, hsum⟩ :=
          ih (hc.without (hd debtor (List.mem_cons_self ..)).1.le)
            (hd.without (hc creditor (List.mem_cons_self ..)).1.le) howed' howes' (by omega)
        have hnext : matchAll s (fuel + 1) = matchAll s' fuel := by
          conv_lhs => unfold matchAll
          rw [hs]
        rw [hnext, hrest, hsum, htransfers, hvolume, Greedy.settle_cons]
        exact ⟨t :: rest, by rw [List.append_assoc]; rfl, .cons hmakes hmade, rfl⟩

end Loop

/-! ## Both sides of the loop -/

section Sides

variable {obligations : List (NettingObligation Party)} {p : Party}

theorem positionsOf_partyIds : (positionsOf obligations).map NetPartyPosition.partyId =
    (obligations.foldl accumulate []).map NetPartyPosition.partyId := by
  unfold positionsOf
  rw [List.map_map]
  rfl

/-- There is one position for each party. -/
theorem positionsOf_perm :
    ((positionsOf obligations).map NetPartyPosition.partyId).Perm (parties obligations) := by
  rw [positionsOf_partyIds]
  have h := tallied obligations
  exact (List.perm_ext_iff_of_nodup h.nodup (List.nodup_dedup _)).mpr h.mem

theorem nodup_parties : (parties obligations).Nodup := List.nodup_dedup _

/-- Each balance is right to the cent, and its sign is the position's status. -/
theorem positionsOf_net (h : Proper obligations) (hw : WithinDoubles obligations)
    {pos : NetPartyPosition Party} (hpos : pos ∈ positionsOf obligations) :
    pos.netBalanceUsd = cents (netCents obligations pos.partyId) ∧
    (pos.status = .netCreditor ↔ 0 < netCents obligations pos.partyId) ∧
    (pos.status = .netDebtor ↔ netCents obligations pos.partyId < 0) := by
  unfold positionsOf at hpos
  obtain ⟨opened, hopened, rfl⟩ := List.mem_map.mp hpos
  exact net_spec h hw ((tallied obligations).counted opened hopened)

/-- The accounts of some of the parties. -/
def accountsOf (balance : Party → Int) (ids : List Party) : List (Account Party) :=
  ids.map fun q => ⟨q, balance q⟩

omit [DecidableEq Party] in
theorem total_accountsOf (balance : Party → Int) (ids : List Party) :
    total (accountsOf balance ids) = (ids.map balance).sum := by
  unfold accountsOf total
  rw [List.map_map]
  rfl

/-- The creditors of the loop, with what they have to get. -/
theorem creditors_owed (h : Proper obligations) (hw : WithinDoubles obligations) :
    ∃ ids, ids.Perm ((parties obligations).filter fun q => 0 < netCents obligations q) ∧
      Owed (startOf (positionsOf obligations)).creditors
        (accountsOf (netCents obligations) ids) := by
  have hsorted : (startOf (positionsOf obligations)).creditors.Perm
      (creditorsOf (positionsOf obligations)) := List.perm_insertionSort ..
  refine ⟨(startOf (positionsOf obligations)).creditors.map Creditor.partyId, ?_, ?_⟩
  · refine (hsorted.map _).trans ?_
    refine List.Perm.trans ?_ (positionsOf_perm.filter _)
    unfold creditorsOf
    rw [List.map_map, List.filter_map]
    refine List.Perm.of_eq ?_
    show ((positionsOf obligations).filter _).map NetPartyPosition.partyId = _
    congr 1
    refine List.filter_congr fun pos hpos => ?_
    exact decide_eq_decide.mpr (positionsOf_net h hw hpos).2.1
  · unfold Owed accountsOf
    rw [List.map_map, List.forall₂_map_right_iff, List.forall₂_same]
    intro c hc
    refine ⟨rfl, ?_⟩
    obtain ⟨pos, hpos, rfl⟩ := List.mem_map.mp (hsorted.mem_iff.mp hc)
    exact (positionsOf_net h hw (List.mem_of_mem_filter hpos)).1

theorem debtors_owe (h : Proper obligations) (hw : WithinDoubles obligations) :
    ∃ ids, ids.Perm ((parties obligations).filter fun q => netCents obligations q < 0) ∧
      Owes (startOf (positionsOf obligations)).debtors
        (accountsOf (fun q => -netCents obligations q) ids) := by
  have hsorted : (startOf (positionsOf obligations)).debtors.Perm
      (debtorsOf (positionsOf obligations)) := List.perm_insertionSort ..
  refine ⟨(startOf (positionsOf obligations)).debtors.map Debtor.partyId, ?_, ?_⟩
  · refine (hsorted.map _).trans ?_
    refine List.Perm.trans ?_ (positionsOf_perm.filter _)
    unfold debtorsOf
    rw [List.map_map, List.filter_map]
    refine List.Perm.of_eq ?_
    show ((positionsOf obligations).filter _).map NetPartyPosition.partyId = _
    congr 1
    refine List.filter_congr fun pos hpos => ?_
    exact decide_eq_decide.mpr (positionsOf_net h hw hpos).2.2
  · unfold Owes accountsOf
    rw [List.map_map, List.forall₂_map_right_iff, List.forall₂_same]
    intro d hd
    refine ⟨rfl, ?_⟩
    obtain ⟨pos, hpos, rfl⟩ := List.mem_map.mp (hsorted.mem_iff.mp hd)
    obtain ⟨hpos, hstatus⟩ := List.mem_filter.mp hpos
    obtain ⟨hbal, _, hdebtor⟩ := positionsOf_net h hw hpos
    have hneg := hdebtor.mp (of_decide_eq_true hstatus)
    have hbound := netCents_bound h pos.partyId
    have hN := (hw.bounds h).1
    have hcents : cents (netCents obligations pos.partyId) < 0 := by
      have := cents_lt_cents (n := 0) (by omega) (by norm_num) hneg
      rwa [cents_zero] at this
    show |pos.netBalanceUsd| = cents (-netCents obligations pos.partyId)
    rw [hbal, cents_neg, abs_of_neg hcents]

omit [DecidableEq Party] in
/-- A list of numbers by their signs. -/
theorem signs (balance : Party → Int) (ids : List Party) :
    ((ids.filter fun q => 0 < balance q).map balance).sum -
        ((ids.filter fun q => balance q < 0).map fun q => -balance q).sum = (ids.map balance).sum ∧
    ((ids.filter fun q => 0 < balance q).map balance).sum +
        ((ids.filter fun q => balance q < 0).map fun q => -balance q).sum =
      (ids.map fun q => |balance q|).sum ∧
    (ids.filter fun q => 0 < balance q).length + (ids.filter fun q => balance q < 0).length =
      (ids.filter fun q => balance q ≠ 0).length := by
  induction ids with
  | nil => exact ⟨rfl, rfl, rfl⟩
  | cons q ids ih =>
    obtain ⟨h1, h2, h3⟩ := ih
    rcases lt_trichotomy (balance q) 0 with hq | hq | hq
    · rw [List.filter_cons_of_neg (by simp; omega), List.filter_cons_of_pos (by simpa using hq),
        List.filter_cons_of_pos (by simp; omega)]
      simp only [List.map_cons, List.sum_cons, List.length_cons, abs_of_neg hq]
      omega
    · rw [List.filter_cons_of_neg (by simp; omega), List.filter_cons_of_neg (by simp; omega),
        List.filter_cons_of_neg (by simp; omega)]
      simp only [List.map_cons, List.sum_cons, hq, abs_zero]
      omega
    · rw [List.filter_cons_of_pos (by simpa using hq), List.filter_cons_of_neg (by simp; omega),
        List.filter_cons_of_pos (by simp; omega)]
      simp only [List.map_cons, List.sum_cons, List.length_cons, abs_of_pos hq]
      omega

end Sides

/-! ## The transfers in cents -/

/-- What comes in for a party by the transfers, in cents. -/
def incoming (p : Party) (transfers : List (NettedTransfer Party)) : Int :=
  ((transfers.filter (·.toPartyId = p)).map fun t => toCents t.amountUsd).sum

def outgoing (p : Party) (transfers : List (NettedTransfer Party)) : Int :=
  ((transfers.filter (·.fromPartyId = p)).map fun t => toCents t.amountUsd).sum

section Transfers

variable {transfers : List (NettedTransfer Party)} {payments : List (Payment Party)} {p : Party}

theorem incoming_eq (h : List.Forall₂ Makes transfers payments)
    (hbound : ∀ t ∈ payments, |t.amount| ≤ 2 ^ 50) : incoming p transfers = paidTo p payments := by
  induction h with
  | nil => rfl
  | @cons t payment transfers payments hhead _ ih =>
    have hrest := ih fun q hq => hbound q (List.mem_cons_of_mem _ hq)
    unfold incoming paidTo at hrest ⊢
    rw [List.filter_cons, List.filter_cons, hhead.2.1]
    split
    · rw [List.map_cons, List.map_cons, List.sum_cons, List.sum_cons, hrest, hhead.2.2,
        toCents_cents (hbound payment (List.mem_cons_self ..))]
    · exact hrest

theorem outgoing_eq (h : List.Forall₂ Makes transfers payments)
    (hbound : ∀ t ∈ payments, |t.amount| ≤ 2 ^ 50) : outgoing p transfers = paidBy p payments := by
  induction h with
  | nil => rfl
  | @cons t payment transfers payments hhead _ ih =>
    have hrest := ih fun q hq => hbound q (List.mem_cons_of_mem _ hq)
    unfold outgoing paidBy at hrest ⊢
    rw [List.filter_cons, List.filter_cons, hhead.1]
    split
    · rw [List.map_cons, List.map_cons, List.sum_cons, List.sum_cons, hrest, hhead.2.2,
        toCents_cents (hbound payment (List.mem_cons_self ..))]
    · exact hrest

omit [DecidableEq Party] in
theorem amounts_eq (h : List.Forall₂ Makes transfers payments) :
    transfers.map NettedTransfer.amountUsd = (payments.map Payment.amount).map cents := by
  induction h with
  | nil => rfl
  | cons hhead _ ih => rw [List.map_cons, List.map_cons, List.map_cons, hhead.2.2, ih]

end Transfers

/-! ## The result -/

/-- The transfers of a result settle the obligations to the cent. -/
structure SettlesExactly (obligations : List (NettingObligation Party))
    (result : MultilateralNettingResult Party) : Prop where
  wholeCents : ∀ t ∈ result.netTransfers,
    t.amountUsd = cents (toCents t.amountUsd) ∧ 0 < toCents t.amountUsd
  parties : ∀ t ∈ result.netTransfers, t.fromPartyId ≠ t.toPartyId ∧
    netCents obligations t.fromPartyId < 0 ∧ 0 < netCents obligations t.toPartyId
  conserved : ∀ p, incoming p result.netTransfers - outgoing p result.netTransfers =
    netCents obligations p
  count : result.netTransfers.length ≤ (nonNeutral obligations).length - 1
  volume : 2 * toCents result.netTotalVolumeUsd =
    ((Netting.parties obligations).map fun p => |netCents obligations p|).sum
  volume_le : toCents result.netTotalVolumeUsd ≤ toCents result.grossTotalVolumeUsd
  balanced : result.isBalanced = true

section Result

variable {obligations : List (NettingObligation Party)}

/-- What the loop pays, and of whom. -/
structure Paid (obligations : List (NettingObligation Party)) (payments : List (Payment Party)) :
    Prop where
  made : List.Forall₂ Makes (matchingOf obligations).netTransfers payments
  volume : (matchingOf obligations).netTotalVolumeUsd =
    sum ((payments.map Payment.amount).map cents)
  mem : ∀ t ∈ payments, 0 < t.amount ∧ netCents obligations t.payer < 0 ∧
    0 < netCents obligations t.payee
  conserved : ∀ p, paidTo p payments - paidBy p payments = netCents obligations p
  count : payments.length ≤ (nonNeutral obligations).length - 1
  total : 2 * (payments.map Payment.amount).sum =
    ((parties obligations).map fun p => |netCents obligations p|).sum

theorem payments_made (h : Proper obligations) (hw : WithinDoubles obligations) :
    ∃ payments, Paid obligations payments := by
  obtain ⟨cids, hcids, howed⟩ := creditors_owed h hw
  obtain ⟨dids, hdids, howes⟩ := debtors_owe h hw
  obtain ⟨hsum, habs, hcount⟩ := signs (netCents obligations) (parties obligations)
  have hN := (hw.bounds h).1
  have hmemc : ∀ q ∈ cids, 0 < netCents obligations q := fun q hq =>
    of_decide_eq_true (List.mem_filter.mp (hcids.mem_iff.mp hq)).2
  have hmemd : ∀ q ∈ dids, netCents obligations q < 0 := fun q hq =>
    of_decide_eq_true (List.mem_filter.mp (hdids.mem_iff.mp hq)).2
  have hc : Countable (accountsOf (netCents obligations) cids) := by
    intro a ha
    obtain ⟨q, hq, rfl⟩ := List.mem_map.mp ha
    have := abs_le.mp (netCents_bound h q)
    exact ⟨hmemc q hq, by show 5 * netCents obligations q ≤ _; omega⟩
  have hd : Countable (accountsOf (fun q => -netCents obligations q) dids) := by
    intro a ha
    obtain ⟨q, hq, rfl⟩ := List.mem_map.mp ha
    have := abs_le.mp (netCents_bound h q)
    have := hmemd q hq
    exact ⟨by show 0 < -netCents obligations q; omega,
      by show 5 * -netCents obligations q ≤ _; omega⟩
  have hzero : ((parties obligations).map (netCents obligations)).sum = 0 :=
    sum_netCents nodup_parties fun ob hob =>
      ⟨mem_parties.mpr ⟨ob, hob, .inl rfl⟩, mem_parties.mpr ⟨ob, hob, .inr rfl⟩⟩
  have hcsum := (hcids.map (netCents obligations)).sum_eq
  have hdsum := (hdids.map fun q => -netCents obligations q).sum_eq
  have htotal : total (accountsOf (netCents obligations) cids) =
      total (accountsOf (fun q => -netCents obligations q) dids) := by
    rw [total_accountsOf, total_accountsOf, hcsum, hdsum]
    omega
  obtain ⟨transfers, htransfers, hmade, hvolume⟩ :=
    matchAll_settle hc hd howed howes (le_refl _)
  have hposc : ∀ a ∈ accountsOf (netCents obligations) cids, 0 < a.amount := fun a ha => (hc a ha).1
  have hposd : ∀ a ∈ accountsOf (fun q => -netCents obligations q) dids, 0 < a.amount :=
    fun a ha => (hd a ha).1
  refine ⟨settle (accountsOf (netCents obligations) cids)
    (accountsOf (fun q => -netCents obligations q) dids), ?_⟩
  constructor
  case made =>
    unfold matchingOf
    rw [htransfers]
    exact hmade
  case volume =>
    unfold matchingOf
    rw [hvolume, ← amounts_eq hmade]
    rfl
  case mem =>
    intro t ht
    obtain ⟨hpos, hpayer, hpayee⟩ := Greedy.mem_settle hposc hposd ht
    unfold accountsOf at hpayer hpayee
    rw [List.map_map] at hpayer hpayee
    obtain ⟨q, hq, hpayer⟩ := List.mem_map.mp hpayer
    obtain ⟨r, hr, hpayee⟩ := List.mem_map.mp hpayee
    rw [← hpayer, ← hpayee]
    exact ⟨hpos, hmemd q hq, hmemc r hr⟩
  case conserved =>
    intro p
    have hnodupc : cids.Nodup := hcids.nodup_iff.mpr (nodup_parties.filter _)
    have hnodupd : dids.Nodup := hdids.nodup_iff.mpr (nodup_parties.filter _)
    rw [Greedy.paidTo_settle hposc hposd htotal, Greedy.paidBy_settle hposc hposd htotal]
    unfold accountsOf
    rw [Greedy.held_map hnodupc, Greedy.held_map hnodupd]
    have hpc : p ∈ cids ↔ p ∈ parties obligations ∧ 0 < netCents obligations p := by
      rw [hcids.mem_iff, List.mem_filter, decide_eq_true_iff]
    have hpd : p ∈ dids ↔ p ∈ parties obligations ∧ netCents obligations p < 0 := by
      rw [hdids.mem_iff, List.mem_filter, decide_eq_true_iff]
    by_cases hp : p ∈ parties obligations
    · simp only [hpc, hpd, hp, true_and]
      split <;> split <;> omega
    · simp only [hpc, hpd, hp, false_and, if_false]
      unfold netCents
      rw [receivables_eq_nil hp, payables_eq_nil hp]
      rfl
  case count =>
    have := Greedy.length_settle hposc hposd htotal
    unfold accountsOf at this ⊢
    rw [List.length_map, List.length_map, hcids.length_eq, hdids.length_eq, hcount] at this
    exact this
  case total =>
    rw [Greedy.total_settle hposc hposd htotal, total_accountsOf, hcsum]
    omega

theorem sum_abs_netCents_le (h : Proper obligations) :
    ((parties obligations).map fun p => |netCents obligations p|).sum ≤
      2 * totalCents obligations := by
  have hgross : ((parties obligations).map fun q => 1 * (receivables q obligations).sum +
      1 * (payables q obligations).sum).sum = (1 + 1) * totalCents obligations :=
    sum_weighted nodup_parties (fun ob hob =>
      ⟨mem_parties.mpr ⟨ob, hob, .inl rfl⟩, mem_parties.mpr ⟨ob, hob, .inr rfl⟩⟩) 1 1
  refine le_trans (List.sum_le_sum fun p _ => ?_) hgross.le
  obtain ⟨_, h1, _⟩ := picked_le (fun ob hob => (h ob hob).1) (·.payerId = p)
  obtain ⟨_, h2, _⟩ := picked_le (fun ob hob => (h ob hob).1) (·.payeeId = p)
  unfold netCents receivables payables
  rw [abs_le]
  constructor <;> omega

/-- Nobody is paid more than all the amounts, and nothing is paid beyond them. -/
theorem Paid.le_total {payments : List (Payment Party)} (hpaid : Paid obligations payments)
    (h : Proper obligations) :
    0 ≤ (payments.map Payment.amount).sum ∧
      (payments.map Payment.amount).sum ≤ totalCents obligations ∧
      ∀ t ∈ payments, t.amount ≤ totalCents obligations := by
  have hgross := sum_abs_netCents_le h
  have hnonneg : ∀ x ∈ payments.map Payment.amount, 0 ≤ x := by
    intro x hx
    obtain ⟨t, ht, rfl⟩ := List.mem_map.mp hx
    exact (hpaid.mem t ht).1.le
  have htotal := hpaid.total
  refine ⟨List.sum_nonneg hnonneg, by omega, fun t ht => ?_⟩
  have := List.single_le_sum hnonneg _ (List.mem_map_of_mem ht)
  omega

theorem sum_abs_eq {ks : List Int} (h : ∀ k ∈ ks, 0 ≤ k) : (ks.map abs).sum = ks.sum := by
  congr 1
  conv_rhs => rw [← List.map_id ks]
  exact List.map_congr_left fun k hk => abs_of_nonneg (h k hk)

theorem length_parties_le : (parties obligations).length ≤ 2 * obligations.length := by
  rw [← positionsOf_perm.length_eq, positionsOf_partyIds, List.length_map]
  exact (tallied obligations).length_le

/-- The sum of the payments is right to the cent. -/
theorem Paid.netTotalVolumeUsd {payments : List (Payment Party)} (hpaid : Paid obligations payments)
    (h : Proper obligations) (hw : WithinDoubles obligations) :
    (calculateMultilateralNetting obligations).netTotalVolumeUsd =
      cents (payments.map Payment.amount).sum := by
  obtain ⟨_, hle, _⟩ := hpaid.le_total h
  obtain ⟨_, hsq⟩ := hw.bounds h
  have hlen : payments.length ≤ 2 * obligations.length - 1 := by
    have h1 := hpaid.count
    have h2 : (parties obligations).length ≤ 2 * obligations.length := length_parties_le
    have h3 : (nonNeutral obligations).length ≤ (parties obligations).length :=
      List.length_filter_le ..
    omega
  have habs : ((payments.map Payment.amount).map abs).sum = (payments.map Payment.amount).sum := by
    refine sum_abs_eq fun k hk => ?_
    obtain ⟨t, ht, rfl⟩ := List.mem_map.mp hk
    exact (hpaid.mem t ht).1.le
  show roundCents (matchingOf obligations).netTotalVolumeUsd = _
  rw [hpaid.volume]
  refine roundCents_of_toCents (toCents_sum ?_ ?_)
  · rw [List.length_map]
    refine le_trans (Nat.pow_le_pow_left ?_ 2) hsq
    omega
  · rw [habs, List.length_map]
    rcases Nat.eq_zero_or_pos payments.length with hzero | hpos
    · rw [List.eq_nil_of_length_eq_zero hzero]
      exact (by decide : ((0 : Int) + 4) * 0 < 2 ^ 52)
    · unfold WithinDoubles at hw
      have hfactor : (payments.length : Int) + 4 ≤ 2 * obligations.length + 3 := by omega
      have hN : 0 ≤ totalCents obligations := by
        have := length_le_totalCents h
        omega
      calc ((payments.length : Int) + 4) * (payments.map Payment.amount).sum
          ≤ (payments.length + 4) * totalCents obligations :=
            mul_le_mul_of_nonneg_left hle (by omega)
        _ ≤ (2 * obligations.length + 3) * totalCents obligations :=
            mul_le_mul_of_nonneg_right hfactor hN
        _ < 2 ^ 52 := hw

theorem grossTotalVolumeUsd_eq (h : Proper obligations) (hw : WithinDoubles obligations) :
    (calculateMultilateralNetting obligations).grossTotalVolumeUsd =
      cents (totalCents obligations) := by
  have hall := roundCents_picked h hw fun _ => true
  rw [List.filter_true, List.map_map] at hall
  exact hall

/-- The balances add up to nothing, up to their roundings. -/
theorem isBalanced_eq (h : Proper obligations) (hw : WithinDoubles obligations) :
    (calculateMultilateralNetting obligations).isBalanced = true := by
  obtain ⟨_, hsq⟩ := hw.bounds h
  have hids : ((positionsOf obligations).map NetPartyPosition.partyId).Perm
      (parties obligations) := positionsOf_perm
  have hnets : (positionsOf obligations).map NetPartyPosition.netBalanceUsd =
      (((positionsOf obligations).map NetPartyPosition.partyId).map
        (netCents obligations)).map cents := by
    rw [List.map_map, List.map_map]
    exact List.map_congr_left fun pos hpos => (positionsOf_net h hw hpos).1
  have hzero : (((positionsOf obligations).map NetPartyPosition.partyId).map
      (netCents obligations)).sum = 0 := by
    rw [(hids.map _).sum_eq]
    exact sum_netCents nodup_parties fun ob hob =>
      ⟨mem_parties.mpr ⟨ob, hob, .inl rfl⟩, mem_parties.mpr ⟨ob, hob, .inr rfl⟩⟩
  have habs : ((((positionsOf obligations).map NetPartyPosition.partyId).map
      (netCents obligations)).map abs).sum ≤ 2 * totalCents obligations := by
    rw [List.map_map, (hids.map _).sum_eq]
    exact sum_abs_netCents_le h
  have hlen : (((positionsOf obligations).map NetPartyPosition.partyId).map
      (netCents obligations)).length ≤ 2 * obligations.length := by
    rw [List.length_map, hids.length_eq]
    exact length_parties_le
  have hN : 0 ≤ totalCents obligations := by
    have := length_le_totalCents h
    omega
  unfold WithinDoubles at hw
  show decide (|sum ((positionsOf obligations).map NetPartyPosition.netBalanceUsd)| <
    toDouble (5 / 100)) = true
  rw [decide_eq_true_iff, hnets]
  generalize ((positionsOf obligations).map NetPartyPosition.partyId).map
    (netCents obligations) = ks at *
  have hbound : (ks.length + 1) ^ 2 ≤ 2 ^ 53 :=
    le_trans (Nat.pow_le_pow_left (by omega) 2) hsq
  have hdist := sum_cents_dist hbound
  rw [hzero, Int.cast_zero, zero_div, sub_zero] at hdist
  have hfactor : ((ks.length : Int) + 2) * (ks.map abs).sum ≤ 2 ^ 53 := by
    calc ((ks.length : Int) + 2) * (ks.map abs).sum
        ≤ (ks.length + 2) * (2 * totalCents obligations) :=
          mul_le_mul_of_nonneg_left habs (by omega)
      _ ≤ (2 * obligations.length + 3) * (2 * totalCents obligations) :=
          mul_le_mul_of_nonneg_right (by omega) (by omega)
      _ ≤ 2 ^ 53 := by linarith
  have hfactor' : ((ks.length : Rat) + 2) * ((ks.map abs).sum : Int) ≤ 2 ^ 53 := by
    exact_mod_cast hfactor
  have htwentieth : (1 : Rat) / 100 < toDouble (5 / 100) := by decide +kernel
  linarith

/-- The netted transfers settle every party to the cent, and the loop that makes them ends. -/
theorem multilateral_netting_settles (h : Proper obligations) (hw : WithinDoubles obligations) :
    matchOnce (matchingOf obligations) = none ∧
      SettlesExactly obligations (calculateMultilateralNetting obligations) := by
  obtain ⟨payments, hpaid⟩ := payments_made h hw
  obtain ⟨hnonneg, hle, hbound⟩ := hpaid.le_total h
  have hN := (hw.bounds h).1
  have hsmall : ∀ t ∈ payments, |t.amount| ≤ 2 ^ 50 := by
    intro t ht
    have := hbound t ht
    rw [abs_of_pos (hpaid.mem t ht).1]
    omega
  have hvolume : toCents (calculateMultilateralNetting obligations).netTotalVolumeUsd =
      (payments.map Payment.amount).sum := by
    rw [hpaid.netTotalVolumeUsd h hw, toCents_cents (by rw [abs_of_nonneg hnonneg]; omega)]
  have hgross : toCents (calculateMultilateralNetting obligations).grossTotalVolumeUsd =
      totalCents obligations := by
    rw [grossTotalVolumeUsd_eq h hw, toCents_cents (by rw [abs_le]; omega)]
  have htransfer : ∀ t ∈ (matchingOf obligations).netTransfers,
      ∃ payment ∈ payments, Makes t payment := by
    intro t ht
    obtain ⟨i, hi, rfl⟩ := List.mem_iff_getElem.mp ht
    have hi' : i < payments.length := by rw [← hpaid.made.length_eq]; exact hi
    exact ⟨payments[i], List.getElem_mem hi', hpaid.made.get hi hi'⟩
  refine ⟨matchAll_ends (le_refl _), ?_⟩
  constructor
  case wholeCents =>
    intro t ht
    obtain ⟨payment, hmem, hmakes⟩ := htransfer t ht
    rw [hmakes.2.2, toCents_cents (hsmall payment hmem)]
    exact ⟨rfl, (hpaid.mem payment hmem).1⟩
  case parties =>
    intro t ht
    obtain ⟨payment, hmem, hmakes⟩ := htransfer t ht
    obtain ⟨_, hpayer, hpayee⟩ := hpaid.mem payment hmem
    rw [hmakes.1, hmakes.2.1]
    refine ⟨?_, hpayer, hpayee⟩
    intro heq
    rw [heq] at hpayer
    omega
  case conserved =>
    intro p
    rw [← hpaid.conserved p]
    show incoming p (matchingOf obligations).netTransfers -
      outgoing p (matchingOf obligations).netTransfers = _
    rw [incoming_eq hpaid.made hsmall, outgoing_eq hpaid.made hsmall]
  case count =>
    show (matchingOf obligations).netTransfers.length ≤ _
    rw [hpaid.made.length_eq]
    exact hpaid.count
  case volume =>
    rw [hvolume]
    exact hpaid.total
  case volume_le =>
    rw [hvolume, hgross]
    exact hle
  case balanced => exact isBalanced_eq h hw

end Result

/-- An obligation of two numbered parties. -/
def owing (payerId payeeId : Nat) (amountUsd : Int) : NettingObligation Nat where
  id := 0
  payerId
  payerName := "payer"
  payeeId
  payeeName := "payee"
  amountUsd
  status := .pending
  cycleId := none
  dueDate := 0
  settlementTxHash := none

/-- Four parties that owe each other in a circle, and back. -/
def circle : List (NettingObligation Nat) :=
  [owing 1 2 5000000, owing 2 3 4000000, owing 3 4 3500000, owing 4 1 3000000, owing 2 1 1000000,
    owing 3 2 500000]

theorem multilateral_netting_settles_circle : (Proper circle ∧ WithinDoubles circle) ∧
    matchOnce (matchingOf circle) = none ∧
      SettlesExactly circle (calculateMultilateralNetting circle) := by
  have hproper : Proper circle ∧ WithinDoubles circle := by decide +kernel
  exact ⟨hproper, multilateral_netting_settles hproper.1 hproper.2⟩

/-- At 44 trillion dollars a double is off by more than a third of a cent, and the sum of one amount
    comes back as a cent more. -/
theorem multilateral_netting_loses_a_cent :
    ¬ ∀ obligations : List (NettingObligation Nat), Proper obligations →
      totalCents obligations < 2 ^ 53 →
        SettlesExactly obligations (calculateMultilateralNetting obligations) := by
  intro h
  have hconserved := (h [owing 1 2 4400000000000002] (by decide) (by decide)).conserved 2
  have hmore : incoming 2 (calculateMultilateralNetting [owing 1 2 4400000000000002]).netTransfers -
      outgoing 2 (calculateMultilateralNetting [owing 1 2 4400000000000002]).netTransfers =
        4400000000000003 := by decide +kernel
  have hnet : netCents [owing 1 2 4400000000000002] 2 = 4400000000000002 := by decide +kernel
  rw [hmore, hnet] at hconserved
  omega

end AgriFi.Netting
