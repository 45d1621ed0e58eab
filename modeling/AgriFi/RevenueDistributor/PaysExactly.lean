import AgriFi.Prorata
import AgriFi.RevenueDistributor.Contract

/-
  What a distribution pays. `Books` says that the supply counter is the sum of the holder
  balances, all positive; every call keeps it (`run_books`). The payout loop then is a pro rata
  division that hands the last holder what is left: none of its operations overflows, and only a
  contract that holds too little ends it (`payHolders_outcome`).
-/

namespace AgriFi.RevenueDistributor

open AgriFi.Soroban AgriFi.Runs

variable {Addr : Type}

/-! ## The division -/

/-- What the holders from some place on get when `pool` is left for them. -/
def holderAmounts (totalAmount totalSupply pool : Int) (holders : List (Addr × Int)) :
    List (Addr × Int) :=
  (holders.map Prod.fst).zip
    (remainderToLast pool (holders.map fun e => prorata totalAmount e.2 totalSupply))

/-- What the first of the remaining holders gets out of `pool`. -/
def nextAmount (totalAmount totalSupply pool balance : Int) (rest : List (Addr × Int)) : Int :=
  if rest = [] then pool else prorata totalAmount balance totalSupply

theorem holderAmounts_cons (totalAmount totalSupply pool : Int) (e : Addr × Int)
    (rest : List (Addr × Int)) :
    holderAmounts totalAmount totalSupply pool (e :: rest) =
      (e.1, nextAmount totalAmount totalSupply pool e.2 rest) ::
        holderAmounts totalAmount totalSupply
          (pool - nextAmount totalAmount totalSupply pool e.2 rest) rest := by
  cases rest with
  | nil => rfl
  | cons e' rest => rfl

theorem holderAmounts_concat (totalAmount totalSupply pool : Int) (init : List (Addr × Int))
    (last : Addr × Int) :
    holderAmounts totalAmount totalSupply pool (init ++ [last]) =
      (init.map fun e => (e.1, prorata totalAmount e.2 totalSupply)) ++
        [(last.1, pool - (init.map fun e => prorata totalAmount e.2 totalSupply).sum)] := by
  induction init generalizing pool with
  | nil => simp [holderAmounts, remainderToLast]
  | cons e init ih =>
    rw [List.cons_append, holderAmounts_cons, ih, nextAmount, if_neg (by simp), List.map_cons,
      List.map_cons, List.sum_cons, List.cons_append, sub_sub]

theorem keys_holderAmounts (totalAmount totalSupply pool : Int) (holders : List (Addr × Int)) :
    (holderAmounts totalAmount totalSupply pool holders).map Prod.fst = holders.map Prod.fst :=
  List.map_fst_zip (by simp [length_remainderToLast])

/-- What a distribution needs of the numbers: they are `i128`s, and so are its products. -/
structure Payable (totalAmount totalSupply : Int) (holders : List (Addr × Int)) : Prop where
  amount_nonneg : 0 ≤ totalAmount
  amount_fits : FitsI128 totalAmount
  supply_pos : 0 < totalSupply
  balances_nonneg : ∀ e ∈ holders, 0 ≤ e.2
  products_fit : ∀ e ∈ holders, FitsI128 (e.2 * totalAmount)

section Parts

variable {totalAmount totalSupply distributed : Int} {count i : Nat} {rest : List (Addr × Int)}

theorem Payable.tail {e : Addr × Int} (h : Payable totalAmount totalSupply (e :: rest)) :
    Payable totalAmount totalSupply rest :=
  { h with
    balances_nonneg := fun e' he => h.balances_nonneg e' (List.mem_cons_of_mem _ he)
    products_fit := fun e' he => h.products_fit e' (List.mem_cons_of_mem _ he) }

/-- The parts of the holders from some place on fit in what is left for them. -/
def PartsFit (totalAmount totalSupply distributed : Int) (holders : List (Addr × Int)) : Prop :=
  distributed + (holders.map fun e => prorata totalAmount e.2 totalSupply).sum ≤ totalAmount

theorem Payable.parts_nonneg (h : Payable totalAmount totalSupply rest) :
    0 ≤ (rest.map fun e => prorata totalAmount e.2 totalSupply).sum := by
  refine List.sum_nonneg fun x hx => ?_
  obtain ⟨e, he, rfl⟩ := List.mem_map.mp hx
  exact prorata_nonneg h.amount_nonneg (h.balances_nonneg e he) h.supply_pos.le

/-- What the next holder gets keeps the sums in range and leaves enough for the others. -/
theorem nextAmount_bounds {e : Addr × Int} (hp : Payable totalAmount totalSupply (e :: rest))
    (hd : PartsFit totalAmount totalSupply distributed (e :: rest)) :
    let amount := nextAmount totalAmount totalSupply (totalAmount - distributed) e.2 rest
    0 ≤ amount ∧ distributed + amount ≤ totalAmount ∧
      PartsFit totalAmount totalSupply (distributed + amount) rest := by
  have hb : 0 ≤ e.2 := hp.balances_nonneg _ (List.mem_cons_self ..)
  have hshare := prorata_nonneg hp.amount_nonneg hb hp.supply_pos.le
  have hrest := hp.tail.parts_nonneg
  unfold PartsFit at hd ⊢
  rw [List.map_cons, List.sum_cons] at hd
  unfold nextAmount
  split
  · next hlast =>
    simp only [hlast, List.map_nil, List.sum_nil] at hd ⊢
    omega
  · omega

/-- No operation on the way to the next amount overflows. -/
theorem holderAmount_eq {e : Addr × Int} (hi : i + (rest.length + 1) = count)
    (hp : Payable totalAmount totalSupply (e :: rest)) (h0 : 0 ≤ distributed)
    (hd : PartsFit totalAmount totalSupply distributed (e :: rest)) :
    holderAmount totalAmount totalSupply count i e.2 distributed =
      .ok (nextAmount totalAmount totalSupply (totalAmount - distributed) e.2 rest) := by
  obtain ⟨hnn, hle, _⟩ := nextAmount_bounds hp hd
  have hfits := hp.amount_fits
  have hrange : FitsI128
      (nextAmount totalAmount totalSupply (totalAmount - distributed) e.2 rest) := by
    unfold FitsI128 at hfits ⊢
    omega
  unfold holderAmount
  unfold nextAmount at hrange ⊢
  by_cases hlast : rest = []
  · rw [if_pos hlast] at hrange ⊢
    rw [if_pos (by simp [hlast] at hi; omega), okOr_eq_ok, checkedSub_eq_some]
    exact ⟨hrange, rfl⟩
  · have hpos := List.length_pos_iff.mpr hlast
    rw [if_neg hlast, prorata_comm] at hrange ⊢
    rw [if_neg (by omega)]
    simp only [okOr_bind_eq_ok, okOr_eq_ok, checkedMul_eq_some, checkedDiv_eq_some]
    exact ⟨_, ⟨hp.products_fit e (List.mem_cons_self ..), rfl⟩, hp.supply_pos.ne', hrange, rfl⟩

end Parts

variable [LinearOrder Addr]

/-! ## The supply counter -/

structure Distributor.Books (s : Distributor Addr) : Prop where
  supply_eq : s.totalSupply = s.holderBalances.total
  positive : ∀ e ∈ s.holderBalances.entries, 0 < e.2

theorem Distributor.Books.supply_pos {s : Distributor Addr} (h : s.Books)
    (hne : s.holderBalances.entries ≠ []) : 0 < s.totalSupply := by
  rw [h.supply_eq]
  refine List.sum_pos _ (fun v hv => ?_) (by simpa using hne)
  obtain ⟨e, he, rfl⟩ := List.mem_map.mp hv
  exact h.positive e he

theorem books_register {s : Distributor Addr} {holder : Addr} {balance : Int} (h : s.Books)
    (hb : 0 < balance) :
    Distributor.Books { s with
      holderBalances := s.holderBalances.set holder balance
      totalSupply := s.totalSupply - s.holderBalances.getD holder 0 + balance } where
  supply_eq := by rw [HostMap.total_set, h.supply_eq]
  positive := by
    intro e he
    rcases HostMap.mem_insertEntry he with rfl | he
    · exact hb
    · exact h.positive e he

/-- The supply counter of a world that is initialised is right. -/
def World.Books (w : World Addr) : Prop := ∀ s, w.storage = some s → s.Books

theorem load_eq_ok {w : World Addr} {s : Distributor Addr} :
    load w = .ok s ↔ w.storage = some s := okOr_eq_ok

variable {authorized : Addr → Bool} {w w' : World Addr} {caller holder asset : Addr}

theorem registerHolder_books {balance : Int}
    (h : registerHolder authorized w caller holder balance = .ok w') (hb : w.Books) :
    w'.Books := by
  unfold registerHolder at h
  obtain ⟨_, _, h⟩ := bind_eq_ok.mp h
  obtain ⟨s, hs, h⟩ := bind_eq_ok.mp h
  simp only [failIf_bind_eq_ok, okOr_bind_eq_ok, checkedSub_eq_some, checkedAdd_eq_some, pure_eq_ok,
    Except.ok.injEq, not_le] at h
  obtain ⟨_, hpos, _, ⟨_, rfl⟩, _, ⟨_, rfl⟩, rfl⟩ := h
  intro s' hs'
  obtain rfl := Option.some.inj hs'
  exact books_register (hb s (load_eq_ok.mp hs)) hpos

/-! ## What is paid -/

/-- The world after the positive amounts of a list were paid, in order. -/
def World.paidEach (w : World Addr) (asset : Addr) (amounts : List (Addr × Int)) : World Addr :=
  amounts.foldl (fun w p => if p.2 > 0 then w.paid asset p.1 p.2 else w) w

/-- The payouts with the positive amounts of a list added. -/
def recordEach (payouts : HostMap Addr Int) (amounts : List (Addr × Int)) : HostMap Addr Int :=
  amounts.foldl (fun m p => if p.2 > 0 then m.set p.1 p.2 else m) payouts

theorem pay_eq_ok {amount : Int} :
    w.pay asset holder amount = .ok w' ↔ amount ≤ w.held asset ∧ w' = w.paid asset holder amount := by
  unfold World.pay
  simp only [failIf_bind_eq_ok, pure_eq_ok, Except.ok.injEq, not_lt]
  exact and_congr_right fun _ => eq_comm

theorem paid_held_le (w : World Addr) (asset dst : Addr) {amount : Int} (h : 0 ≤ amount) :
    w.held asset - amount ≤ (w.paid asset dst amount).held asset := by
  unfold World.paid
  dsimp only
  split
  · omega
  · rw [Function.update_self]

@[simp] theorem paid_storage (w : World Addr) (asset dst : Addr) (amount : Int) :
    (w.paid asset dst amount).storage = w.storage := rfl

theorem paidEach_payments (w : World Addr) (asset : Addr) (amounts : List (Addr × Int)) :
    (w.paidEach asset amounts).payments =
      w.payments ++ (amounts.filter fun p => p.2 > 0).map fun p => ⟨asset, p.1, p.2⟩ := by
  unfold World.paidEach
  induction amounts generalizing w with
  | nil => simp
  | cons p amounts ih =>
    rw [List.foldl_cons, ih]
    by_cases hp : p.2 > 0 <;> simp [hp, World.paid]

/-- Entries with keys beyond those of the map are added at its end. -/
theorem entries_recordEach {payouts : HostMap Addr Int} {amounts : List (Addr × Int)}
    (h : (payouts.entries ++ amounts).Pairwise fun a b => a.1 < b.1) :
    (recordEach payouts amounts).entries =
      payouts.entries ++ amounts.filter fun p => p.2 > 0 := by
  unfold recordEach
  induction amounts generalizing payouts with
  | nil => simp
  | cons p amounts ih =>
    rw [List.foldl_cons]
    by_cases hp : p.2 > 0
    · have hlast : (payouts.set p.1 p.2).entries = payouts.entries ++ [p] :=
        HostMap.insertEntry_of_lt fun e he =>
          (List.pairwise_append.mp h).2.2 e he p (List.mem_cons_self ..)
      rw [if_pos hp, ih (by rwa [hlast, List.append_assoc]), hlast, List.append_assoc,
        List.filter_cons_of_pos (by simpa using hp)]
      rfl
    · rw [if_neg hp, List.filter_cons_of_neg (by simpa using hp)]
      exact ih (h.sublist ((List.Sublist.refl _).append (List.sublist_cons_self ..)))

/-! ## The payout loop -/

section Loop

variable {totalAmount totalSupply distributed : Int} {count i : Nat}
  {rest : List (Addr × Int)} {payouts : HostMap Addr Int}

/-- The loop pays and records the amounts of the pro rata division, unless the contract holds
    less of the asset than is left to pay. -/
theorem payHolders_outcome (w : World Addr) (asset : Addr) (payouts : HostMap Addr Int)
    (hi : i + rest.length = count)
    (hp : Payable totalAmount totalSupply rest) (h0 : 0 ≤ distributed)
    (hd : PartsFit totalAmount totalSupply distributed rest) :
    let amounts := holderAmounts totalAmount totalSupply (totalAmount - distributed) rest
    let outcome := payHolders totalAmount totalSupply count asset i rest w payouts distributed
    outcome = .ok (w.paidEach asset amounts, recordEach payouts amounts) ∨
      outcome = .error (.trap .token) ∧ w.held asset < totalAmount - distributed := by
  induction rest generalizing i w payouts distributed with
  | nil => exact .inl rfl
  | cons e rest ih =>
    obtain ⟨hnn, hle, hd'⟩ := nextAmount_bounds hp hd
    have hamount := holderAmount_eq (by simpa using hi) hp h0 hd
    have hnext : i + 1 + rest.length = count := by rw [← hi, List.length_cons]; omega
    dsimp only
    rw [holderAmounts_cons, payHolders, hamount, ok_bind]
    generalize nextAmount totalAmount totalSupply (totalAmount - distributed) e.2 rest = amount
      at hnn hle hd' ⊢
    have hpool : totalAmount - distributed - amount = totalAmount - (distributed + amount) := by
      omega
    rw [hpool]
    unfold World.paidEach recordEach
    rw [List.foldl_cons, List.foldl_cons]
    by_cases hpos : amount > 0
    · have hadd : checkedAdd distributed amount = some (distributed + amount) := by
        have hfits := hp.amount_fits
        unfold FitsI128 at hfits
        rw [checkedAdd_eq_some]
        exact ⟨⟨by omega, by omega⟩, rfl⟩
      simp only [if_pos hpos, hadd, okOr, ok_bind]
      by_cases hheld : amount ≤ w.held asset
      · rw [pay_eq_ok.mpr ⟨hheld, rfl⟩, ok_bind]
        have hleft := paid_held_le w asset e.1 hnn
        refine (ih _ _ hnext hp.tail (by omega) hd').imp id fun h => ⟨h.1, ?_⟩
        have := h.2
        omega
      · refine .inr ⟨?_, by omega⟩
        unfold World.pay failIf
        rw [if_pos (by omega)]
        rfl
    · have hzero : amount = 0 := by omega
      subst hzero
      simp only [if_neg hpos, add_zero] at hd' ⊢
      exact ih _ _ hnext hp.tail h0 hd'

end Loop

/-! ## The amounts of a whole distribution -/

theorem sorted_holderAmounts (totalAmount totalSupply pool : Int) (m : HostMap Addr Int) :
    (holderAmounts totalAmount totalSupply pool m.entries).Pairwise fun a b => a.1 < b.1 := by
  have hkeys := keys_holderAmounts totalAmount totalSupply pool m.entries
  have hsorted := List.pairwise_map.mpr m.sorted
  rw [← hkeys] at hsorted
  exact List.pairwise_map.mp hsorted

theorem entries_recordEach_empty {amounts : List (Addr × Int)}
    (hs : amounts.Pairwise fun a b => a.1 < b.1) :
    (recordEach .empty amounts).entries = amounts.filter fun p => p.2 > 0 :=
  entries_recordEach (show (HostMap.empty.entries ++ amounts).Pairwise _ from hs)

/-- A recorded amount, also if it is zero and nothing was recorded. -/
theorem getD_recordEach {amounts : List (Addr × Int)}
    (hs : amounts.Pairwise fun a b => a.1 < b.1) {e : Addr × Int} (he : e ∈ amounts)
    (h0 : 0 ≤ e.2) : (recordEach .empty amounts).getD e.1 0 = e.2 := by
  have hentries := entries_recordEach_empty hs
  by_cases hpos : e.2 > 0
  · refine HostMap.getD_of_mem ?_ 0
    rw [hentries]
    exact List.mem_filter.mpr ⟨he, by simpa using hpos⟩
  · have hnone : (recordEach .empty amounts).get? e.1 = none := by
      refine HostMap.lookupEntry_eq_none fun e' he' heq => hpos ?_
      rw [hentries] at he'
      obtain ⟨he', hpos'⟩ := List.mem_filter.mp he'
      have hsame : e'.2 = e.2 := by
        have h1 := HostMap.lookupEntry_of_mem hs he'
        have h2 := HostMap.lookupEntry_of_mem hs he
        rw [heq, h2] at h1
        exact (Option.some.inj h1).symm
      rw [← hsame]
      simpa using hpos'
    unfold HostMap.getD
    rw [hnone]
    simp only [Option.getD_none]
    omega

theorem total_recordEach {amounts : List (Addr × Int)}
    (hs : amounts.Pairwise fun a b => a.1 < b.1) (h0 : ∀ e ∈ amounts, 0 ≤ e.2) :
    (recordEach .empty amounts).total = (amounts.map Prod.snd).sum := by
  have hentries := entries_recordEach_empty hs
  unfold HostMap.total HostMap.sumBy
  rw [hentries]
  exact HostMap.sum_positive h0

/-! ## Whole runs -/

/-- What the holders of `s` are to get out of `totalAmount`. -/
structure Distributor.PaysExactly (s : Distributor Addr) (totalAmount : Int)
    (payouts : HostMap Addr Int) : Prop where
  sum_eq : payouts.total = totalAmount
  floor_le : ∀ e ∈ s.holderBalances.entries,
    e.2 * totalAmount / s.totalSupply ≤ payouts.getD e.1 0
  others_eq : ∀ init last, s.holderBalances.entries = init ++ [last] →
    ∀ e ∈ init, payouts.getD e.1 0 = e.2 * totalAmount / s.totalSupply
  last_lt : ∀ init last, s.holderBalances.entries = init ++ [last] →
    payouts.getD last.1 0 * s.totalSupply <
      last.2 * totalAmount + s.holderBalances.entries.length * s.totalSupply

theorem Distributor.Books.partsFit {s : Distributor Addr} (h : s.Books) {totalAmount : Int}
    (ha : 0 ≤ totalAmount) (hs : 0 < s.totalSupply) :
    PartsFit totalAmount s.totalSupply 0 s.holderBalances.entries := by
  have hnonneg : ∀ v ∈ s.holderBalances.entries.map Prod.snd, 0 ≤ v := by
    intro v hv
    obtain ⟨e, he, rfl⟩ := List.mem_map.mp hv
    exact (h.positive e he).le
  have hparts := sum_prorata_le ha hs hnonneg h.supply_eq.ge
  unfold PartsFit
  rw [List.map_map] at hparts
  rw [zero_add]
  exact hparts

section Recorded

variable {s : Distributor Addr} {totalAmount : Int} {init : List (Addr × Int)} {last : Addr × Int}

/-- What a distribution of `totalAmount` records. -/
def Distributor.recorded (s : Distributor Addr) (totalAmount : Int) : HostMap Addr Int :=
  recordEach .empty (holderAmounts totalAmount s.totalSupply totalAmount s.holderBalances.entries)

theorem Distributor.Books.share_nonneg (h : s.Books) (ha : 0 ≤ totalAmount)
    (hl : s.holderBalances.entries = init ++ [last]) :
    ∀ e ∈ init, 0 ≤ prorata totalAmount e.2 s.totalSupply := fun e he =>
  prorata_nonneg ha (h.positive e (by rw [hl]; exact List.mem_append_left _ he)).le
    (h.supply_pos (by simp [hl])).le

theorem Distributor.Books.init_sum (h : s.Books) (hl : s.holderBalances.entries = init ++ [last]) :
    (init.map Prod.snd).sum + last.2 = s.totalSupply := by
  rw [h.supply_eq]
  unfold HostMap.total HostMap.sumBy
  rw [hl]
  simp

/-- The last holder is left at least the part of its balance. -/
theorem Distributor.Books.last_ge (h : s.Books) (ha : 0 ≤ totalAmount)
    (hl : s.holderBalances.entries = init ++ [last]) :
    prorata totalAmount last.2 s.totalSupply ≤
      totalAmount - (init.map fun e => prorata totalAmount e.2 s.totalSupply).sum := by
  have hfit := h.partsFit ha (h.supply_pos (by simp [hl]))
  unfold PartsFit at hfit
  rw [hl, List.map_append, List.sum_append, List.map_singleton, List.sum_singleton] at hfit
  omega

/-- Every holder's amount is recorded. -/
theorem Distributor.Books.getD_recorded (h : s.Books) (ha : 0 ≤ totalAmount)
    (hl : s.holderBalances.entries = init ++ [last]) :
    (∀ e ∈ init, (s.recorded totalAmount).getD e.1 0 = prorata totalAmount e.2 s.totalSupply) ∧
      (s.recorded totalAmount).getD last.1 0 =
        totalAmount - (init.map fun e => prorata totalAmount e.2 s.totalSupply).sum := by
  have hsorted := sorted_holderAmounts totalAmount s.totalSupply totalAmount s.holderBalances
  have hlast : 0 ≤ prorata totalAmount last.2 s.totalSupply :=
    prorata_nonneg ha (h.positive last (by simp [hl])).le (h.supply_pos (by simp [hl])).le
  unfold Distributor.recorded
  rw [hl, holderAmounts_concat] at hsorted ⊢
  constructor
  · intro e he
    exact getD_recordEach hsorted (e := (e.1, prorata totalAmount e.2 s.totalSupply))
      (List.mem_append_left _ (List.mem_map.mpr ⟨e, he, rfl⟩)) (h.share_nonneg ha hl e he)
  · exact getD_recordEach hsorted (e := (last.1, _)) (List.mem_append_right _ (by simp))
      (hlast.trans (h.last_ge ha hl))

theorem Distributor.Books.total_recorded (h : s.Books) (ha : 0 ≤ totalAmount)
    (hl : s.holderBalances.entries = init ++ [last]) :
    (s.recorded totalAmount).total = totalAmount := by
  have hsorted := sorted_holderAmounts totalAmount s.totalSupply totalAmount s.holderBalances
  have hlast : 0 ≤ prorata totalAmount last.2 s.totalSupply :=
    prorata_nonneg ha (h.positive last (by simp [hl])).le (h.supply_pos (by simp [hl])).le
  unfold Distributor.recorded
  rw [hl, holderAmounts_concat] at hsorted ⊢
  rw [total_recordEach hsorted]
  · rw [List.map_append, List.map_map, List.sum_append]
    simp [Function.comp_def]
  · intro e he
    rcases List.mem_append.mp he with he | he
    · obtain ⟨e', he', rfl⟩ := List.mem_map.mp he
      exact h.share_nonneg ha hl e' he'
    · obtain rfl := List.mem_singleton.mp he
      exact hlast.trans (h.last_ge ha hl)

theorem Distributor.Books.paysExactly (h : s.Books) (ha : 0 ≤ totalAmount)
    (hne : s.holderBalances.entries ≠ []) :
    s.PaysExactly totalAmount (s.recorded totalAmount) := by
  have hs := h.supply_pos hne
  have hcut : ∃ init last, s.holderBalances.entries = init ++ [last] :=
    ⟨_, _, (List.dropLast_append_getLast hne).symm⟩
  have hediv : ∀ e ∈ s.holderBalances.entries,
      prorata totalAmount e.2 s.totalSupply = e.2 * totalAmount / s.totalSupply := fun e he => by
    rw [prorata_comm, prorata_eq_ediv (h.positive e he).le ha]
  constructor
  case sum_eq =>
    obtain ⟨init, last, hl⟩ := hcut
    exact h.total_recorded ha hl
  case floor_le =>
    intro e he
    obtain ⟨init, last, hl⟩ := hcut
    obtain ⟨hothers, hlast⟩ := h.getD_recorded ha hl
    rw [← hediv e he]
    rw [hl] at he
    rcases List.mem_append.mp he with he | he
    · exact (hothers e he).ge
    · obtain rfl := List.mem_singleton.mp he
      rw [hlast]
      exact h.last_ge ha hl
  case others_eq =>
    intro init last hl e he
    rw [(h.getD_recorded ha hl).1 e he]
    exact hediv e (by rw [hl]; exact List.mem_append_left _ he)
  case last_lt =>
    intro init last hl
    have hnonneg : ∀ v ∈ init.map Prod.snd, 0 ≤ v := by
      intro v hv
      obtain ⟨e, he, rfl⟩ := List.mem_map.mp hv
      exact (h.positive e (by rw [hl]; exact List.mem_append_left _ he)).le
    have hrest := rest_mul_lt ha hs hnonneg (h.init_sum hl)
    rw [(h.getD_recorded ha hl).2, hl, mul_comm last.2]
    simpa [List.map_map, Function.comp_def] using hrest

end Recorded

/-! ## Whole runs -/

variable {s : Distributor Addr} {totalAmount : Int}

/-- The checks of `distribute` before the loop. -/
structure Admitted (authorized : Addr → Bool) (w : World Addr) (caller : Addr)
    (s : Distributor Addr) : Prop where
  signed : authorized caller = true
  not_self : caller ≠ w.contract
  admin : caller = s.admin
  holders : s.holderBalances.entries ≠ []

/-- A call that is not admitted ends at a check. -/
theorem distribute_not_admitted (asset : Addr) (hb : s.Books) (hw : w.storage = some s)
    (ha : 0 < totalAmount) (h : ¬ Admitted authorized w caller s) :
    ∃ f, distribute authorized w caller asset totalAmount = .error f ∧
      f ≠ .err .arithmeticOverflow := by
  unfold distribute requireAuth load failIf okOr
  rw [hw]
  by_cases hsigned : authorized caller = false ∨ caller = w.contract
  · exact ⟨.trap .auth, by simp only [if_pos hsigned, error_bind], by simp⟩
  · by_cases hadmin : caller ≠ s.admin
    · exact ⟨.err .unauthorized, by
        simp only [if_neg hsigned, if_pos hadmin, error_bind, ok_bind], by simp⟩
    · have hempty : s.holderBalances.entries = [] := by
        by_contra hne
        rw [not_or, Bool.not_eq_false] at hsigned
        exact h ⟨hsigned.1, hsigned.2, not_not.mp hadmin, hne⟩
      have hsupply : s.totalSupply ≤ 0 := by
        rw [hb.supply_eq]
        unfold HostMap.total HostMap.sumBy
        rw [hempty]
        rfl
      exact ⟨.err .zeroSupply, by
        simp only [if_neg hsigned, if_neg hadmin, if_neg (not_le.mpr ha), if_pos hsupply,
          error_bind, ok_bind], by simp⟩

/-- A call that is admitted pays what `recorded` says, unless the contract holds too little. -/
theorem distribute_admitted (asset : Addr) (hb : s.Books) (hw : w.storage = some s)
    (ha : 0 < totalAmount) (hfits : FitsI128 totalAmount)
    (hproducts : ∀ e ∈ s.holderBalances.entries, FitsI128 (e.2 * totalAmount))
    (h : Admitted authorized w caller s) :
    (distribute authorized w caller asset totalAmount = .error (.trap .token) ∧
        w.held asset < totalAmount) ∨
      distribute authorized w caller asset totalAmount = (do
        let count ← okOr (checkedAddU 32 s.distributionCount 1) (.trap .overflow)
        pure ({ w.paidEach asset (holderAmounts totalAmount s.totalSupply totalAmount
            s.holderBalances.entries) with
              storage := some { s with distributionCount := count } },
          s.recorded totalAmount)) := by
  have hs := hb.supply_pos h.holders
  have hp : Payable totalAmount s.totalSupply s.holderBalances.entries :=
    ⟨ha.le, hfits, hs, fun e he => (hb.positive e he).le, hproducts⟩
  have hloop := payHolders_outcome w asset .empty (zero_add _) hp
    le_rfl (hb.partsFit ha.le hs)
  have hauth : requireAuth authorized w caller = .ok () := by
    unfold requireAuth
    rw [failIf_eq_ok, not_or, Bool.not_eq_false]
    exact ⟨h.signed, h.not_self⟩
  unfold distribute
  rw [hauth, ok_bind, load_eq_ok.mpr hw, ok_bind, failIf_of_not (not_not.mpr h.admin), ok_bind,
    failIf_of_not (not_le.mpr ha), ok_bind, failIf_of_not (not_le.mpr hs), ok_bind]
  dsimp only
  rw [failIf_of_not h.holders, ok_bind]
  simp only [sub_zero] at hloop
  rcases hloop with hok | ⟨htoken, hheld⟩
  · refine .inr ?_
    rw [hok, ok_bind]
    rfl
  · refine .inl ⟨?_, hheld⟩
    rw [htoken, error_bind]

theorem recorded_payments (s : Distributor Addr) (w : World Addr) (asset : Addr)
    (totalAmount : Int) :
    (w.paidEach asset (holderAmounts totalAmount s.totalSupply totalAmount
        s.holderBalances.entries)).payments =
      w.payments ++ (s.recorded totalAmount).entries.map fun e => ⟨asset, e.1, e.2⟩ := by
  unfold Distributor.recorded
  rw [paidEach_payments, entries_recordEach_empty (sorted_holderAmounts ..)]

theorem initializeContract_books {admin usdcToken : Addr}
    (h : initializeContract w admin usdcToken = .ok w') : w'.Books := by
  unfold initializeContract at h
  simp only [failIf_bind_eq_ok, pure_eq_ok, Except.ok.injEq] at h
  obtain ⟨_, rfl⟩ := h
  intro s hs
  obtain rfl := Option.some.inj hs
  exact ⟨rfl, by simp [HostMap.empty]⟩

/-- A distribution leaves the balances and the supply as they are. -/
theorem distribute_books {r : World Addr × HostMap Addr Int}
    (h : distribute authorized w caller asset totalAmount = .ok r) (hb : w.Books) :
    r.1.Books := by
  unfold distribute at h
  obtain ⟨_, _, h⟩ := bind_eq_ok.mp h
  obtain ⟨s, hs, h⟩ := bind_eq_ok.mp h
  simp only [failIf_bind_eq_ok] at h
  obtain ⟨_, _, _, _, h⟩ := h
  obtain ⟨paid, _, h⟩ := bind_eq_ok.mp h
  obtain ⟨count, _, h⟩ := bind_eq_ok.mp h
  obtain rfl := Except.ok.inj h
  have hbooks := hb s (load_eq_ok.mp hs)
  intro s' hs'
  obtain rfl := Option.some.inj hs'
  exact ⟨hbooks.supply_eq, hbooks.positive⟩

theorem callStep_eq_some {inv : Invocation Addr} :
    callStep w inv = some w' ↔ dispatch { w with payments := [] } inv = .ok w' := by
  unfold callStep
  cases dispatch { w with payments := [] } inv <;> simp

theorem dispatch_books {inv : Invocation Addr} (h : dispatch w inv = .ok w') (hb : w.Books) :
    w'.Books := by
  unfold dispatch at h
  generalize inv.call = call at h
  cases call with
  | initializeContract admin usdcToken => exact initializeContract_books h
  | registerHolder caller holder balance => exact registerHolder_books h hb
  | distribute caller asset totalAmount =>
    obtain ⟨r, hr, h⟩ := bind_eq_ok.mp h
    obtain rfl := Except.ok.inj h
    exact distribute_books hr hb
  | fund asset amount =>
    obtain rfl := Except.ok.inj h
    exact hb

/-- The books of a reached world are right. -/
theorem run_books {contract : Addr} {xs : List (Step (World Addr) (Invocation Addr))}
    (hr : Run callStep (deployed contract) xs w) : w.Books :=
  hr.invariant World.Books (fun s hs => absurd hs (by simp [deployed])) fun x _ hstep hb =>
    dispatch_books (w := { x.pre with payments := [] }) (callStep_eq_some.mp hstep) hb

/-- Distributions of a reached contract are exact: the supply counter is the sum of the balances;
    no checked operation of a distribution fails; it succeeds when an admin calls it and the
    contract holds the amount; and what it pays are the parts of the balances rounded down, with
    the rest for the last holder. -/
theorem distribute_pays_exactly {contract : Addr}
    {xs : List (Step (World Addr) (Invocation Addr))}
    (hr : Run callStep (deployed contract) xs w) (hw : w.storage = some s) :
    s.totalSupply = s.holderBalances.total ∧
    ∀ authorized caller asset totalAmount, 0 < totalAmount → FitsI128 totalAmount →
      (∀ e ∈ s.holderBalances.entries, FitsI128 (e.2 * totalAmount)) →
      distribute authorized w caller asset totalAmount ≠ .error (.err .arithmeticOverflow) ∧
      (authorized caller = true → caller ≠ w.contract → caller = s.admin →
        s.holderBalances.entries ≠ [] → totalAmount ≤ w.held asset →
        s.distributionCount + 1 < 2 ^ 32 →
        ∃ r, distribute authorized w caller asset totalAmount = .ok r) ∧
      ∀ w' payouts, distribute authorized w caller asset totalAmount = .ok (w', payouts) →
        s.PaysExactly totalAmount payouts ∧
          w'.payments = w.payments ++ payouts.entries.map fun e => ⟨asset, e.1, e.2⟩ := by
  have hb := run_books hr s hw
  refine ⟨hb.supply_eq, fun authorized caller asset totalAmount ha hfits hproducts => ?_⟩
  by_cases h : Admitted authorized w caller s
  · have hpays := hb.paysExactly ha.le h.holders
    have hpaid := recorded_payments s w asset totalAmount
    rcases distribute_admitted asset hb hw ha hfits hproducts h with
      ⟨htoken, hheld⟩ | hok
    · rw [htoken]
      exact ⟨by simp, fun _ _ _ _ hle => absurd hheld (not_lt.mpr hle), by simp⟩
    · by_cases hcount : s.distributionCount + 1 < 2 ^ 32
      · have hadd : checkedAddU 32 s.distributionCount 1 = some (s.distributionCount + 1) :=
          if_pos hcount
        rw [hadd] at hok
        rw [hok]
        refine ⟨by simp [okOr], fun _ _ _ _ _ _ => ⟨_, rfl⟩, fun w' payouts heq => ?_⟩
        obtain ⟨rfl, rfl⟩ := Prod.mk.inj (Except.ok.inj heq)
        exact ⟨hpays, hpaid⟩
      · have hadd : checkedAddU 32 s.distributionCount 1 = none := if_neg hcount
        rw [hadd] at hok
        rw [hok]
        exact ⟨by simp [okOr], fun _ _ _ _ _ hlt => absurd hlt hcount, by simp [okOr]⟩
  · obtain ⟨f, hf, hne⟩ := distribute_not_admitted asset hb hw ha h
    rw [hf]
    refine ⟨fun heq => hne (Except.error.inj heq), fun h1 h2 h3 h4 => ?_, by simp⟩
    exact absurd ⟨h1, h2, h3, h4⟩ h

/-- Two holders, one of them registered again, and a distribution of 1000. -/
def sampleCalls : List (Invocation Nat) :=
  [.initializeContract 0 9, .registerHolder 0 1 100, .registerHolder 0 2 50,
    .registerHolder 0 1 250, .fund 9 1000].map fun call => ⟨fun _ => true, call⟩

def sampleWorld : World Nat := (replay callStep (deployed 99) sampleCalls).2

theorem distribute_pays_exactly_sample :
    ∃ s, sampleWorld.storage = some s ∧ s.totalSupply = s.holderBalances.total ∧
      ∃ r, distribute (fun _ => true) sampleWorld 0 9 1000 = .ok r ∧
        s.PaysExactly 1000 r.2 := by
  have hs : sampleWorld.storage = some (sampleWorld.storage.get (by decide +kernel)) :=
    (Option.some_get _).symm
  obtain ⟨hsupply, hdistribute⟩ :=
    distribute_pays_exactly (run_replay callStep (deployed 99) sampleCalls) hs
  obtain ⟨_, hok, hexact⟩ := hdistribute (fun _ => true) 0 9 1000 (by decide) (by decide)
    (by decide +kernel)
  obtain ⟨r, hr⟩ := hok rfl (by decide +kernel) (by decide +kernel) (by decide +kernel)
    (by decide +kernel) (by decide +kernel)
  exact ⟨_, hs, hsupply, r, hr, (hexact r.1 r.2 hr).1⟩

end AgriFi.RevenueDistributor
