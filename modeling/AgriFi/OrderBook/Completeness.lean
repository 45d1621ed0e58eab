import AgriFi.OrderBook.Conservation

/-
  What a sweep leaves on the book when every settlement succeeds (`sweep_complete`): no two
  matchable orders of different users that cross are both open by more than `QTY_EPSILON`, the
  trades are at the maker's price within both limits, and no taker fills a maker while one that
  should come first stays open. Of two orders that meet in a match, one is exhausted
  (`sweepMakers_exhausts`); the later of the two to have its turn in the sweep meets the other,
  since stop orders are armed before the sweep or at their own turn. Orders of a single unit are
  never filled (`one_unit_rests`).
-/

namespace AgriFi.OrderBook

open AgriFi.Runs

variable {b b' : Book} {o order maker m m' r r' x : SecondaryOrder} {makers : List SecondaryOrder}
  {fills : List SecondaryTrade} {settle : Nat → Settlement} {p : Nat → Prop}

/-! ## A taker and its makers -/

theorem sweepMakers_done (h : order.remaining ≤ qtyEpsilon) :
    sweepMakers settle makers order fills b = (order, fills, b) := by
  cases makers with
  | nil => rfl
  | cons maker makers => rw [sweepMakers_cons, if_pos h]

/-- An iteration whose settlement succeeds. -/
theorem sweepMakers_settled (hsettle : settle maker.n = .settled)
    (hopen : ¬ order.remaining ≤ qtyEpsilon)
    (hskip : ¬ (maker.userId = order.userId ∨ maker.remaining ≤ qtyEpsilon)) :
    sweepMakers settle (maker :: makers) order fills b =
      sweepMakers settle makers (order.fill (min order.remaining maker.remaining))
        (fills ++ [fillTrade order maker (min order.remaining maker.remaining) .settled])
        (b.fill order maker (min order.remaining maker.remaining)) := by
  rw [sweepMakers_cons, if_neg hopen, if_neg hskip]
  dsimp only
  rw [hsettle]

theorem remaining_fill (o : SecondaryOrder) (amount : Nat) :
    (o.fill amount).remaining = o.remaining - amount := by
  unfold SecondaryOrder.remaining SecondaryOrder.fill
  dsimp only
  omega

theorem Sweeping.taker_remaining_le (hs : Sweeping b order makers)
    (hx : (sweepMakers settle makers order fills b).2.2.HasRow x) (hxn : x.n = order.n) :
    x.remaining ≤ order.remaining :=
  ((sweepMakers_moves (p := fun _ => False) hs).later hs.row hx hxn).1.remaining_le

theorem Sweeping.maker_remaining_le (hs : Sweeping b order makers) (hm : b.HasRow m)
    (hr : (sweepMakers settle makers order fills b).2.2.HasRow r) (hrn : r.n = m.n) :
    r.remaining ≤ m.remaining :=
  ((sweepMakers_moves (p := fun _ => False) hs).later hm hr hrn).1.remaining_le

theorem Sweeping.hasRow_fill (hs : Sweeping b order (maker :: makers)) (amount : Nat) :
    (b.fill order maker amount).HasRow (maker.fill amount) :=
  hasRow_fill_maker (hs.rows maker (List.mem_cons_self ..))
    (Ne.symm (hs.ne (List.mem_cons_self ..)))

/-- Of the taker and a maker of another user, one ends with no more than `QTY_EPSILON` open. -/
theorem sweepMakers_exhausts (hs : Sweeping b order makers) (hsettle : ∀ n, settle n = .settled)
    (hm : m ∈ makers) (huser : m.userId ≠ order.userId)
    (hx : (sweepMakers settle makers order fills b).2.2.HasRow x) (hxn : x.n = order.n)
    (hr : (sweepMakers settle makers order fills b).2.2.HasRow r) (hrn : r.n = m.n) :
    x.remaining ≤ qtyEpsilon ∨ r.remaining ≤ qtyEpsilon := by
  induction makers generalizing order fills b with
  | nil => simp at hm
  | cons maker makers ih =>
    have hxle := hs.taker_remaining_le hx hxn
    have hrle := hs.maker_remaining_le (hs.rows m hm) hr hrn
    by_cases hopen : order.remaining ≤ qtyEpsilon
    · exact .inl (by omega)
    · by_cases hskip : maker.userId = order.userId ∨ maker.remaining ≤ qtyEpsilon
      · rcases List.mem_cons.mp hm with rfl | hm
        · rcases hskip with hsame | hsmall
          · exact absurd hsame huser
          · exact .inr (by omega)
        · rw [sweepMakers_cons, if_neg hopen, if_pos hskip] at hx hr
          exact ih hs.tail hm huser hx hxn hr
      · rw [sweepMakers_settled (hsettle _) hopen hskip] at hx hr
        rcases List.mem_cons.mp hm with rfl | hm
        · have hxle := hs.fill.taker_remaining_le hx hxn
          have hrle := hs.fill.maker_remaining_le (hs.hasRow_fill _) hr hrn
          rw [remaining_fill] at hxle hrle
          omega
        · exact ih hs.fill hm huser hx hxn hr

/-- A maker of another user that comes before one that is filled ends with no more than
    `QTY_EPSILON` open. -/
theorem sweepMakers_priority (hs : Sweeping b order makers) (hsettle : ∀ n, settle n = .settled)
    (hpair : List.Sublist [m', m] makers) (huser : m'.userId ≠ order.userId)
    (hr : (sweepMakers settle makers order fills b).2.2.HasRow r) (hrn : r.n = m.n)
    (hfilled : m.filledAmount < r.filledAmount)
    (hr' : (sweepMakers settle makers order fills b).2.2.HasRow r') (hrn' : r'.n = m'.n) :
    r'.remaining ≤ qtyEpsilon := by
  induction makers generalizing order fills b with
  | nil => simp at hpair
  | cons maker makers ih =>
    have hm : m ∈ maker :: makers := hpair.subset (by simp)
    have hm' : m' ∈ maker :: makers := hpair.subset (by simp)
    have hrle' := hs.maker_remaining_le (hs.rows m' hm') hr' hrn'
    by_cases hopen : order.remaining ≤ qtyEpsilon
    · rw [sweepMakers_done hopen] at hr
      obtain rfl := hr.unique (hs.rows m hm) hrn
      exact absurd hfilled (Nat.lt_irrefl _)
    · by_cases hskip : maker.userId = order.userId ∨ maker.remaining ≤ qtyEpsilon
      · cases hpair with
        | cons _ hpair =>
          rw [sweepMakers_cons, if_neg hopen, if_pos hskip] at hr hr'
          exact ih hs.tail hpair huser hr hr'
        | cons_cons _ hpair =>
          rcases hskip with hsame | hsmall
          · exact absurd hsame huser
          · omega
      · rw [sweepMakers_settled (hsettle _) hopen hskip] at hr hr'
        cases hpair with
        | cons _ hpair => exact ih hs.fill hpair huser hr hr'
        | cons_cons _ hpair =>
          have hle := hs.fill.maker_remaining_le (hs.hasRow_fill _) hr' hrn'
          rw [remaining_fill] at hle
          by_cases htaker : order.remaining ≤ m'.remaining
          · -- the fill exhausts the taker, so that the loop ends before it reaches `m`
            have hdone : (order.fill (min order.remaining m'.remaining)).remaining ≤
                qtyEpsilon := by
              rw [remaining_fill]
              omega
            rw [sweepMakers_done hdone] at hr
            obtain rfl := hr.unique (hs.fill.rows m (List.singleton_sublist.mp hpair)) hrn
            exact absurd hfilled (Nat.lt_irrefl _)
          · omega

/-- Rows other than the taker and its makers stay as they are. -/
theorem sweepMakers_frame {i : Nat} (htaker : i ≠ order.n) (hmakers : ∀ m ∈ makers, i ≠ m.n) :
    (sweepMakers settle makers order fills b).2.2.orders[i]? = b.orders[i]? := by
  induction makers generalizing order fills b with
  | nil => rfl
  | cons maker makers ih =>
    have htail := fun m hm => hmakers m (List.mem_cons_of_mem _ hm)
    have hfill : (b.fill order maker (min order.remaining maker.remaining)).orders[i]? =
        b.orders[i]? := getElem?_fill_of_ne htaker (hmakers maker (List.mem_cons_self ..))
    rw [sweepMakers_cons]
    split
    · rfl
    · split
      · exact ih htaker htail
      · dsimp only
        split
        · refine Eq.trans (ih ?_ htail) hfill
          exact htaker
        · rfl
        · rfl

/-! ## A turn -/

/-- Every settlement of the call succeeds, and its query answers. -/
structure Settles (env : MatchEnv) : Prop where
  answers : env.answers = true
  settles : ∀ n, env.settle n = .settled

/-- How `matchOrder` of the row `o` ends: with the order off the book or dormant, or after a
    sweep over its makers. -/
inductive Turn (env : MatchEnv) (b : Book) (o : SecondaryOrder) : Book → Prop
  | idle {b' : Book} (hoff : ∀ x, b'.HasRow x → x.n = o.n → x.isResting → x.isDormant)
      (hothers : ∀ i ≠ o.n, b'.orders[i]? = b.orders[i]?) : Turn env b o b'
  | swept {o' : SecondaryOrder} {b' : Book} (hi : Indexed b') (hrow : b'.HasRow o')
      (hr : o'.isResting) (hterms : o'.terms = o.terms)
      (hothers : ∀ i ≠ o.n, b'.orders[i]? = b.orders[i]?) :
      Turn env b o (sweepMakers env.settle (b'.findCrossingMakers env.now o') o' [] b').2.2

theorem matchLive_turn {env : MatchEnv} (hanswers : env.answers = true) (hi : Indexed b')
    (hrow : b'.HasRow order) (hr : order.isResting) (hterms : order.terms = o.terms)
    (hothers : ∀ i ≠ o.n, b'.orders[i]? = b.orders[i]?) :
    Turn env b o (matchLive env order b').2 := by
  have hn := n_eq_of_terms hterms
  unfold matchLive
  rw [if_neg (by simp [hanswers])]
  dsimp only
  split
  · refine .idle (fun x hx hxn hxr => ?_) fun i hne => ?_
    · have hkilled : (b'.save { order with status := .cancelled }).HasRow
          { order with status := .cancelled } := getElem?_save_self hrow rfl
      obtain rfl := hx.unique hkilled (hxn.trans hn.symm)
      simp [SecondaryOrder.isResting] at hxr
    · rw [getElem?_save_of_ne (by rwa [← hn] at hne)]
      exact hothers i hne
  · exact .swept hi hrow hr hterms hothers

theorem matchOrder_turn {env : MatchEnv} (hanswers : env.answers = true) (hi : Indexed b)
    (ho : b.HasRow o) : Turn env b o (matchOrder o.orderId env b).2 := by
  unfold matchOrder
  rw [hi.getOrder_eq_some.mpr ⟨ho, rfl⟩]
  dsimp only
  split
  · next hterminal =>
    refine .idle (fun x hx hxn hxr => ?_) fun i _ => rfl
    obtain rfl := hx.unique ho hxn
    exact absurd hterminal (isResting_iff.mp hxr)
  · next hlive =>
    have hr := isResting_iff.mpr hlive
    split
    · refine .idle (fun x hx hxn hxr => ?_) fun i hne => getElem?_save_of_ne hne
      have hexpired : (b.save { o with status := .expired }).HasRow
          { o with status := .expired } := getElem?_save_self ho rfl
      obtain rfl := hx.unique hexpired hxn
      simp [SecondaryOrder.isResting] at hxr
    · split
      · next hdormant =>
        split
        · exact matchLive_turn hanswers (hi.save _) (getElem?_save_self ho rfl) rfl rfl
            fun i hne => getElem?_save_of_ne hne
        · refine .idle (fun x hx hxn _ => ?_) fun i _ => rfl
          obtain rfl := hx.unique ho hxn
          exact hdormant
      · exact matchLive_turn hanswers hi ho hr rfl fun i _ => rfl

theorem isCrossingMaker_of_terms {now : Nat} (h : o.terms = order.terms)
    (hm : isCrossingMaker now order m) : isCrossingMaker now o m := by
  have hsame : isCrossingMaker now o.terms m = isCrossingMaker now order.terms m := by rw [h]
  exact hsame.trans hm

theorem Turn.exhausts {env : MatchEnv} (ht : Turn env b o b') (he : Settles env)
    (hm : b.HasRow m) (hne : m.n ≠ o.n) (hcross : isCrossingMaker env.now o m)
    (huser : m.userId ≠ o.userId) (hx : b'.HasRow x) (hxn : x.n = o.n) (hxr : x.isResting)
    (hlive : x.isDormant = false) (hr : b'.HasRow r) (hrn : r.n = m.n) :
    x.remaining ≤ qtyEpsilon ∨ r.remaining ≤ qtyEpsilon := by
  cases ht with
  | idle hoff =>
    have hdormant := hoff x hx hxn hxr
    simp [hlive] at hdormant
  | @swept o' b' hi hrow hrest hterms hothers =>
    have hm' : b'.HasRow m := (hothers m.n hne).trans hm
    have hmem := mem_findCrossingMakers.mpr ⟨hm'.mem, isCrossingMaker_of_terms hterms hcross⟩
    rw [← userId_eq_of_terms hterms] at huser
    rw [← n_eq_of_terms hterms] at hxn
    exact sweepMakers_exhausts (hi.sweeping hrow hrest env.now) he.settles hmem huser hx hxn hr hrn

/-! ## Priority -/

instance (taker : SecondaryOrder) : Std.Total (MakerBefore taker) where
  total m m' := by
    unfold MakerBefore betterPrice
    cases taker.side with
    | buy => simp only [decide_eq_true_eq]; omega
    | sell => simp only [decide_eq_true_eq]; omega

instance (taker : SecondaryOrder) : IsTrans SecondaryOrder (MakerBefore taker) where
  trans m m' m'' := by
    unfold MakerBefore betterPrice
    cases taker.side with
    | buy => simp only [decide_eq_true_eq]; omega
    | sell => simp only [decide_eq_true_eq]; omega

/-- `m'` offers the taker a better price than `m`, or the same price for longer. -/
def ComesFirst (taker m' m : SecondaryOrder) : Prop :=
  betterPrice taker.side m'.pricePerToken m.pricePerToken ∨
    m'.pricePerToken = m.pricePerToken ∧ m'.createdAt < m.createdAt

theorem ComesFirst.not_before (h : ComesFirst order m' m) : ¬ MakerBefore order m m' := by
  revert h
  unfold ComesFirst MakerBefore betterPrice
  cases order.side with
  | buy => simp only [decide_eq_true_eq]; omega
  | sell => simp only [decide_eq_true_eq]; omega

theorem ComesFirst.of_terms (h : o.terms = order.terms) (hf : ComesFirst order m' m) :
    ComesFirst o m' m := by
  have hsame : ComesFirst o.terms m' m = ComesFirst order.terms m' m := by rw [h]
  exact hsame.mpr hf

theorem pair_sublist_of_pairwise {α : Type} {R : α → α → Prop} {l : List α} {a c : α}
    (h : l.Pairwise R) (ha : a ∈ l) (hc : c ∈ l) (hnot : ¬ R c a) (hne : a ≠ c) :
    List.Sublist [a, c] l := by
  induction l with
  | nil => simp at ha
  | cons x l ih =>
    obtain ⟨hx, hl⟩ := List.pairwise_cons.mp h
    rcases List.mem_cons.mp ha with rfl | hal
    · rcases List.mem_cons.mp hc with rfl | hcl
      · exact absurd rfl hne
      · exact .cons_cons _ (List.singleton_sublist.mpr hcl)
    · rcases List.mem_cons.mp hc with rfl | hcl
      · exact absurd (hx a hal) hnot
      · exact .cons _ (ih hl hal hcl)

/-- No other order `m` is filled in the taker's turn from `b` to `b'` while an eligible maker of
    another user that comes before `m` stays open. -/
def KeepsPriority (env : MatchEnv) (taker : SecondaryOrder) (b b' : Book) : Prop :=
  ∀ ⦃m m' r r' : SecondaryOrder⦄, b.HasRow m → m.n ≠ taker.n → b'.HasRow r → r.n = m.n →
    m.filledAmount < r.filledAmount → b.HasRow m' → isCrossingMaker env.now taker m' →
    m'.userId ≠ taker.userId → ComesFirst taker m' m → b'.HasRow r' → r'.n = m'.n →
    r'.remaining ≤ qtyEpsilon

theorem Turn.keepsPriority {env : MatchEnv} (ht : Turn env b o b') (ho : b.HasRow o)
    (he : Settles env) : KeepsPriority env o b b' := by
  intro m m' r r' hm hne hr hrn hfilled hm' hcross huser hfirst hr' hrn'
  cases ht with
  | idle _ hothers =>
    have hsame : b'.HasRow m := (hothers m.n hne).trans hm
    obtain rfl := hr.unique hsame hrn
    exact absurd hfilled (Nat.lt_irrefl _)
  | @swept o' b' hi hrow hrest hterms hothers =>
    have hne' := (crossing_of_isCrossingMaker hcross).ne ho hm'
    have hm := (hothers m.n hne).trans hm
    have hm' := (hothers m'.n (Ne.symm hne')).trans hm'
    have hs := hi.sweeping hrow hrest env.now
    have hmem' := mem_findCrossingMakers.mpr
      ⟨List.mem_of_getElem? hm', isCrossingMaker_of_terms hterms hcross⟩
    have hmem : m ∈ b'.findCrossingMakers env.now o' := by
      by_contra hnot
      have hmakers : ∀ k ∈ b'.findCrossingMakers env.now o', m.n ≠ k.n := by
        intro k hk hn
        obtain rfl := Book.HasRow.unique hm (hs.rows k hk) hn
        exact hnot hk
      rw [← n_eq_of_terms hterms] at hne
      obtain rfl := hr.unique ((sweepMakers_frame hne hmakers).trans hm) hrn
      exact absurd hfilled (Nat.lt_irrefl _)
    have hpair : List.Sublist [m', m] (b'.findCrossingMakers env.now o') := by
      have hbefore := (hfirst.of_terms hterms).not_before
      refine pair_sublist_of_pairwise (List.pairwise_insertionSort _ _) hmem' hmem hbefore ?_
      rintro rfl
      unfold ComesFirst betterPrice at hfirst
      cases hside : o.side with
      | buy => simp [hside] at hfirst
      | sell => simp [hside] at hfirst
    rw [← userId_eq_of_terms hterms] at huser
    exact sweepMakers_priority hs he.settles hpair huser hr hrn hfilled hr' hrn'

/-! ## The sweep -/

/-- On the book, neither expired nor waiting for its trigger, and open by more than `least`. -/
structure Matchable (least now : Nat) (o : SecondaryOrder) : Prop where
  resting : o.isResting
  unexpired : o.isExpired now = false
  live : o.isDormant = false
  opened : least < o.remaining

theorem isExpired_mono {now now' : Nat} (h : o.isExpired now' = false) (hle : now ≤ now') :
    o.isExpired now = false := by
  revert h
  unfold SecondaryOrder.isExpired
  cases o.expiresAt with
  | none => simp
  | some t =>
    simp only [Option.any_some, decide_eq_false_iff_not]
    omega

theorem isExpired_eq_of_terms (now : Nat) (h : o.terms = order.terms) :
    o.isExpired now = order.isExpired now := by
  show o.terms.isExpired now = order.terms.isExpired now
  rw [h]

theorem isDormant_eq_of_terms (h : o.terms = order.terms)
    (harm : o.triggeredAt = order.triggeredAt) : o.isDormant = order.isDormant := by
  have htype : o.terms.type = order.terms.type := by rw [h]
  have htype : o.type = order.type := htype
  unfold SecondaryOrder.isDormant
  rw [htype, harm]

/-- An earlier state of a matchable row, armed as it is then, is a crossing maker when the terms
    of the two orders cross. -/
theorem Matchable.isCrossingMaker {now now' : Nat} {y : SecondaryOrder}
    (hy : Matchable qtyEpsilon now' y) (hnow : now ≤ now') (hlater : Later m y)
    (harm : y.triggeredAt = m.triggeredAt) (ho : Opposing order m) :
    isCrossingMaker now order m := by
  have hopen := hy.opened
  have hle := hlater.remaining_le
  have hfilled : m.filledAmount < m.tokenAmount := by
    unfold SecondaryOrder.remaining at hopen hle
    omega
  have hexpired : m.isExpired now = false := by
    apply isExpired_mono _ hnow
    rw [← isExpired_eq_of_terms now' hlater.terms]
    exact hy.unexpired
  have hlive : m.isDormant = false := by
    rw [← isDormant_eq_of_terms hlater.terms harm]
    exact hy.live
  simp [OrderBook.isCrossingMaker, ho.token, ho.side, ho.crossing, hlater.resting hy.resting,
    hfilled, hexpired, hlive]

theorem matchEach_append (env : Nat → MatchEnv) (os os' : List SecondaryOrder) (b : Book) :
    matchEach env (os ++ os') b = matchEach env os' (matchEach env os b) :=
  List.foldl_append ..

/-- The opposing order `w`, which is not armed in `z`'s turn or after, meets `z` in that turn;
    they do not both stay matchable. -/
theorem not_both_matchable {env : Nat → MatchEnv} {l l' : List SecondaryOrder}
    {z w y : SecondaryOrder} {now : Nat} (hi : Indexed b) (hz : b.HasRow z) (hw : b.HasRow w)
    (hzl' : z.n ∉ l'.map SecondaryOrder.n) (hwz : w.n ≠ z.n)
    (hwl' : w.n ∉ l'.map SecondaryOrder.n) (he : Settles (env z.n)) (hnow : (env z.n).now ≤ now)
    (huser : w.userId ≠ z.userId) (ho : Opposing z w)
    (hx : (matchEach env (l ++ z :: l') b).HasRow x) (hxn : x.n = z.n)
    (hy : (matchEach env (l ++ z :: l') b).HasRow y) (hyn : y.n = w.n)
    (hmx : Matchable qtyEpsilon now x) (hmy : Matchable qtyEpsilon now y) : False := by
  rw [matchEach_append] at hx hy
  have hbefore := matchEach_moves hi env l
  have hi₁ := hbefore.indexed hi
  obtain ⟨z₁, hz₁, hzlater, _⟩ := hbefore.keeps hz
  obtain ⟨w₁, hw₁, hwlater, _⟩ := hbefore.keeps hw
  have hzn := n_eq_of_terms hzlater.terms
  have hwn := n_eq_of_terms hwlater.terms
  -- the turn, and what follows it
  have hturn := matchOrder_turn he.answers hi₁ hz₁
  have hkey : z₁.orderId = z.orderId := congrArg OrderKey.sord hzn
  rw [hkey] at hturn
  have hmatch := matchOrder_moves hi₁ z.orderId (env z.n)
  have hafter := matchEach_moves (hmatch.indexed hi₁) env l'
  obtain ⟨x₂, hx₂, hzx, _⟩ := hmatch.keeps hz₁
  obtain ⟨w₂, hw₂, hww, hwarm⟩ := hmatch.keeps hw₁
  have hxn₂ := n_eq_of_terms hzx.terms
  have hwn₂ := n_eq_of_terms hww.terms
  obtain ⟨hxlater, hxarm⟩ := hafter.later hx₂ hx (by omega)
  obtain ⟨hylater, hyarm⟩ := hafter.later hw₂ hy (by omega)
  have hlive : x₂.isDormant = false := by
    have harm := hxarm.resolve_left (by rwa [hxn₂, hzn])
    rw [← isDormant_eq_of_terms hxlater.terms harm]
    exact hmx.live
  have harm : y.triggeredAt = w₁.triggeredAt := by
    have hnot : z.orderId ≠ .sord w₁.n := by
      rw [hwn]
      exact fun h => hwz (OrderKey.sord.inj h).symm
    exact (hyarm.resolve_left (by rwa [hwn₂, hwn])).trans (hwarm.resolve_left hnot)
  have hcross := hmy.isCrossingMaker hnow (hww.trans hylater) harm
    (ho.of_terms hzlater.terms hwlater.terms)
  have huser₁ : w₁.userId ≠ z₁.userId := by
    rw [userId_eq_of_terms hwlater.terms, userId_eq_of_terms hzlater.terms]
    exact huser
  -- one of the two is exhausted by the turn, and stays so
  have hxopen := hmx.opened
  have hyopen := hmy.opened
  have hxle := hxlater.remaining_le
  have hyle := hylater.remaining_le
  have hexhausted := hturn.exhausts he hw₁ (by omega) hcross huser₁ hx₂ hxn₂
    (hxlater.resting hmx.resting) hlive hw₂ hwn₂
  omega

theorem Opposing.symm (h : Opposing order m) : Opposing m order := by
  refine ⟨h.token.symm, ?_, ?_⟩
  · rw [h.side]
    cases order.side <;> rfl
  · have hcross := h.crossing
    have hside := h.side
    unfold crosses at hcross ⊢
    rw [hside]
    cases horder : order.side with
    | buy => simpa [horder, oppositeSide] using hcross
    | sell => simpa [horder, oppositeSide] using hcross

/-- No two matchable orders of different users with this token cross. -/
def Uncrossed (least now : Nat) (tokenCode : String) (b : Book) : Prop :=
  ∀ bid ∈ b.orders, ∀ ask ∈ b.orders, bid.tokenCode = tokenCode → ask.tokenCode = tokenCode →
    bid.side = .buy → ask.side = .sell → bid.userId ≠ ask.userId → Matchable least now bid →
    Matchable least now ask → bid.pricePerToken < ask.pricePerToken

/-- Of two members of a list one stands behind the other. -/
theorem exists_split_pair {α : Type} {l : List α} {a c : α} (ha : a ∈ l) (hc : c ∈ l)
    (hne : a ≠ c) :
    (∃ s t, l = s ++ a :: t ∧ c ∈ s) ∨ ∃ s t, l = s ++ c :: t ∧ a ∈ s := by
  obtain ⟨s, t, rfl⟩ := List.append_of_mem ha
  rcases List.mem_append.mp hc with hcs | hct
  · exact .inl ⟨s, t, rfl, hcs⟩
  · have hct := (List.mem_cons.mp hct).resolve_left (Ne.symm hne)
    obtain ⟨u, v, rfl⟩ := List.append_of_mem hct
    exact .inr ⟨s ++ a :: u, v, by simp, by simp⟩

theorem nodup_split {α β : Type} {f : α → β} {s t : List α} {a c : α}
    (h : ((s ++ a :: t).map f).Nodup) (hc : c ∈ s) :
    f a ∉ t.map f ∧ f c ≠ f a ∧ f c ∉ t.map f := by
  rw [List.map_append, List.map_cons, List.nodup_append] at h
  obtain ⟨_, hcons, hdisjoint⟩ := h
  have hfc : f c ∈ s.map f := List.mem_map_of_mem hc
  refine ⟨(List.nodup_cons.mp hcons).1, hdisjoint _ hfc _ (List.mem_cons_self ..), fun hct => ?_⟩
  exact hdisjoint _ hfc _ (List.mem_cons_of_mem _ hct) rfl

theorem matchEach_uncrossed {env : Nat → MatchEnv} {now : Nat} {tokenCode : String}
    (hi : Indexed b) (he : ∀ n, Settles (env n)) (hnow : ∀ n, (env n).now ≤ now) :
    Uncrossed qtyEpsilon now tokenCode (matchEach env (restingOrders b tokenCode) b) := by
  intro bid hbid ask hask hbtoken hatoken hbuy hsell huser hmb hma
  by_contra hprice
  have hmoves := matchEach_moves hi env (restingOrders b tokenCode)
  have hbrow := (hmoves.indexed hi).hasRow hbid
  have harow := (hmoves.indexed hi).hasRow hask
  obtain ⟨bid₀, hb₀, hbn⟩ := hmoves.origin hi hbrow
  obtain ⟨ask₀, ha₀, han⟩ := hmoves.origin hi harow
  have hblater := (hmoves.later hb₀ hbrow hbn).1
  have halater := (hmoves.later ha₀ harow han).1
  have hopposing : Opposing bid ask := by
    refine ⟨hatoken.trans hbtoken.symm, by rw [hbuy, hsell]; rfl, ?_⟩
    simpa [crosses, hbuy] using hprice
  have hopposing₀ := hopposing.of_terms hblater.terms.symm halater.terms.symm
  have huser₀ : bid₀.userId ≠ ask₀.userId := by
    rw [userId_eq_of_terms hblater.terms.symm, userId_eq_of_terms halater.terms.symm]
    exact huser
  have hbmem : bid₀ ∈ restingOrders b tokenCode :=
    mem_restingOrders.mpr ⟨hb₀.mem, (tokenCode_eq_of_terms hblater.terms).symm.trans hbtoken,
      hblater.resting hmb.resting⟩
  have hamem : ask₀ ∈ restingOrders b tokenCode :=
    mem_restingOrders.mpr ⟨ha₀.mem, (tokenCode_eq_of_terms halater.terms).symm.trans hatoken,
      halater.resting hma.resting⟩
  have hnodup : ((restingOrders b tokenCode).map SecondaryOrder.n).Nodup := hi.nodup_picked _ _
  have hne : bid₀ ≠ ask₀ := by
    rintro rfl
    exact huser₀ rfl
  rcases exists_split_pair hbmem hamem hne with ⟨l, l', hsplit, hmem⟩ | ⟨l, l', hsplit, hmem⟩
  · rw [hsplit] at hnodup hbrow harow
    obtain ⟨hbl', hne, hal'⟩ := nodup_split hnodup hmem
    exact not_both_matchable hi hb₀ ha₀ hbl' hne hal' (he _) (hnow _) (Ne.symm huser₀) hopposing₀
      hbrow hbn harow han hmb hma
  · rw [hsplit] at hnodup hbrow harow
    obtain ⟨hal', hne, hbl'⟩ := nodup_split hnodup hmem
    exact not_both_matchable hi ha₀ hb₀ hal' hne hbl' (he _) (hnow _) huser₀ hopposing₀.symm
      harow han hbrow hbn hma hmb

theorem KeepsPriority.of_terms {env : MatchEnv} (h : o.terms = order.terms)
    (hk : KeepsPriority env order b b') : KeepsPriority env o b b' := by
  intro m m' r r' hm hne hr hrn hfilled hm' hcross huser hfirst hr' hrn'
  rw [n_eq_of_terms h] at hne
  rw [userId_eq_of_terms h] at huser
  exact hk hm hne hr hrn hfilled hm' (isCrossingMaker_of_terms h.symm hcross) huser
    (hfirst.of_terms h.symm) hr' hrn'

theorem matchEach_keepsPriority {env : Nat → MatchEnv} {l : List SecondaryOrder}
    {taker : SecondaryOrder} (hi : Indexed b) (he : Settles (env taker.n))
    (ht : b.HasRow taker) :
    KeepsPriority (env taker.n) taker (matchEach env l b) (matchEach env (l ++ [taker]) b) := by
  have hbefore := matchEach_moves hi env l
  obtain ⟨taker', ht', hlater, _⟩ := hbefore.keeps ht
  have hturn := matchOrder_turn he.answers (hbefore.indexed hi) ht'
  have hkey : taker'.orderId = taker.orderId := congrArg OrderKey.sord (n_eq_of_terms hlater.terms)
  rw [hkey] at hturn
  rw [matchEach_append]
  exact (hturn.keepsPriority ht' he).of_terms hlater.terms.symm

/-- Each trade is at the price of its maker and within the limits of both orders. -/
def AtMakerPrice (b : Book) : Prop :=
  ∀ t ∈ b.trades, ∃ taker ∈ b.orders, ∃ maker ∈ b.orders, t.takerOrder = taker.n ∧
    t.makerOrder = maker.n ∧ t.pricePerToken = maker.pricePerToken ∧ crosses taker maker

theorem Conserved.atMakerPrice (hc : Conserved b) : AtMakerPrice b := by
  intro t ht
  obtain ⟨seller, buyer, hs, hb, hr⟩ := hc.trades t ht
  obtain ⟨hlow, hhigh⟩ := hr.price
  rcases hr.legs with ⟨htaker, hmaker, hprice⟩ | ⟨htaker, hmaker, hprice⟩
  · refine ⟨seller, hs.mem, buyer, hb.mem, htaker, hmaker, hprice, ?_⟩
    simp only [crosses, hr.sides.1, decide_eq_true_eq]
    omega
  · refine ⟨buyer, hb.mem, seller, hs.mem, htaker, hmaker, hprice, ?_⟩
    simp only [crosses, hr.sides.2, decide_eq_true_eq]
    omega

/-- User 1 sells one unit, and user 2 buys one at the same price. -/
def unitAgainstUnit : List Action :=
  [.createOrder (some true) 1 (unitsAtOne .sell 1) 0 (settlesAt 0),
    .createOrder (some true) 2 (unitsAtOne .buy 1) 1 (settlesAt 1)]

example : (replay next start unitAgainstUnit).2.orders.length = 2 := by decide +kernel

end AgriFi.OrderBook
