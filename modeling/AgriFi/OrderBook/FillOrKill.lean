import AgriFi.OrderBook.Conservation

/-
  Fill-or-kill orders. `createOrder` saves the row and then calls `matchOrder(order.id)`, which
  looks the uuid up among the `orderId`s, finds nothing and throws (`createOrder_of_accepted`): no
  order is matched or killed when it is placed. So a fill-or-kill order that is placed stays OPEN,
  and a request for one is atomic only if it is refused (`fillOrKill_iff`). The order rests as a
  maker, and later sweeps fill parts of it (`fok_partly_filled`).
-/

namespace AgriFi.OrderBook

open AgriFi.Runs
open AgriFi.Soroban (bind_eq_ok failIf failIf_bind_eq_ok ok_bind okOr okOr_bind_eq_ok)

/-- The order has all of its size settled or, killed, none of it. -/
def AllOrNothing (b : Book) (o : SecondaryOrder) : Prop :=
  o.status = .filled ∧ settledAmount b o.n = o.tokenAmount ∨
    o.status = .cancelled ∧ settledAmount b o.n = 0

instance (b : Book) (o : SecondaryOrder) : Decidable (AllOrNothing b o) :=
  inferInstanceAs (Decidable (_ ∨ _))

/-- The orders that the call from `b` to `b'` adds are all or nothing, and stay so. -/
def FillOrKilled (b b' : Book) : Prop :=
  ∀ xs b'' o, Run next b' xs b'' → b''.HasRow o → b.orders.length ≤ o.n →
    o.n < b'.orders.length → AllOrNothing b'' o

/-- `createOrder` throws before it saves. -/
def Refused (wallet : Option Bool) (dto : CreateSecondaryOrderDto) : Prop :=
  wallet ≠ some true ∨ dto.tokenAmount ≤ 0 ∨ dto.pricePerToken ≤ 0 ∨
    roundAmount dto.tokenAmount = 0 ∨ 20 < dto.tokenCode.length

variable {b : Book} {wallet : Option Bool} {userId now : Nat} {dto : CreateSecondaryOrderDto}

theorem checkTrigger_of_ne (h : dto.type.getD .limit ≠ .stopLoss) (lastPrice : Option Nat) :
    checkTrigger dto (dto.type.getD .limit) lastPrice = .ok () :=
  if_neg h

/-- Nothing but the wallet, the amounts and the columns' sizes holds up an order without trigger. -/
theorem acceptOrder_isOk_iff (h : dto.type.getD .limit ≠ .stopLoss) :
    (∃ order, acceptOrder wallet userId dto now b = .ok order) ↔ ¬ Refused wallet dto := by
  unfold acceptOrder Refused
  constructor
  · rintro ⟨order, hok⟩
    obtain ⟨hasWallet, hwallet, hok⟩ := okOr_bind_eq_ok.mp hok
    obtain ⟨hhas, hok⟩ := failIf_bind_eq_ok.mp hok
    obtain ⟨hamount, hok⟩ := failIf_bind_eq_ok.mp hok
    obtain ⟨hprice, hok⟩ := failIf_bind_eq_ok.mp hok
    obtain ⟨_, _, hok⟩ := bind_eq_ok.mp hok
    obtain ⟨hcolumns, _⟩ := failIf_bind_eq_ok.mp hok
    obtain ⟨hsize, hcode⟩ := not_or.mp hcolumns
    have htrue : wallet = some true := by
      rw [hwallet, Bool.eq_true_of_not_eq_false hhas]
    rintro (hw | ha | hp | hr | hc)
    · exact hw htrue
    · exact hamount ha
    · exact hprice hp
    · exact hsize hr
    · exact hcode hc
  · intro hnot
    obtain ⟨hwallet, hnot⟩ := not_or.mp hnot
    obtain ⟨hamount, hnot⟩ := not_or.mp hnot
    obtain ⟨hprice, hcolumns⟩ := not_or.mp hnot
    have htrue := not_not.mp hwallet
    simp only [htrue, okOr, failIf, ok_bind, Bool.true_eq_false, hamount, hprice, if_false,
      checkTrigger_of_ne h, hcolumns]
    exact ⟨_, rfl⟩

/-- A fill-or-kill order that is placed is on the book when `createOrder` throws. -/
theorem fok_rests {order : SecondaryOrder}
    (h : acceptOrder wallet userId dto now b = .ok order) (env : MatchEnv) :
    ∃ o, (createOrder wallet userId dto now env b).2.HasRow o ∧ o.n = b.orders.length ∧
      o.status = .opened := by
  have ha := accepted_of_acceptOrder h
  have hrow : (b.insert order).HasRow order := by
    unfold Book.HasRow Book.insert
    rw [ha.n, List.getElem?_concat_length]
  rw [createOrder_of_accepted h]
  exact ⟨order, hrow, ha.n, ha.status⟩

/-- A request for a fill-or-kill order is atomic only if no order comes of it. -/
theorem fillOrKill_iff (hfok : dto.type = some .fok) (env : MatchEnv) :
    FillOrKilled b (createOrder wallet userId dto now env b).2 ↔ Refused wallet dto := by
  have hstop : dto.type.getD .limit ≠ .stopLoss := by simp [hfok]
  constructor
  · intro hatomic
    by_contra hplaced
    have hexists : ∃ order, acceptOrder wallet userId dto now b = .ok order :=
      (acceptOrder_isOk_iff hstop).mpr hplaced
    obtain ⟨order, hok⟩ := hexists
    obtain ⟨o, hrow, hn, hopen⟩ := fok_rests hok env
    rcases hatomic [] _ o (.nil _) hrow (Nat.le_of_eq hn.symm) hrow.lt with ⟨hs, _⟩ | ⟨hs, _⟩
    · simp [hopen] at hs
    · simp [hopen] at hs
  · intro hrefused xs' b'' o hrun hrow hnew hlt
    have hnone : ¬ ∃ order, acceptOrder wallet userId dto now b = .ok order := by
      rw [acceptOrder_isOk_iff hstop]
      exact not_not_intro hrefused
    have hsame : (createOrder wallet userId dto now env b).2 = b := by
      unfold createOrder
      cases hc : acceptOrder wallet userId dto now b with
      | error e => rfl
      | ok order => exact absurd ⟨order, hc⟩ hnone
    rw [hsame] at hlt
    omega

/-! ## Ten asked, four offered -/

/-- User 2's order for ten units. -/
def buyTen : CreateSecondaryOrderDto := { unitsAtOne .buy 10 with type := some .fok }

/-- User 1's four units. -/
def fourOffered : Book := (replay next start
  [.createOrder (some true) 1 (unitsAtOne .sell 4) 0 (settlesAt 0)]).2

example : fourOffered.orders.length = 1 ∧ fourOffered.trades = [] := by decide +kernel

theorem fillOrKill_iff_sample :
    FillOrKilled fourOffered
      (createOrder (some true) 2 buyTen 1 (settlesAt 1) fourOffered).2 ↔
      Refused (some true) buyTen :=
  fillOrKill_iff rfl (settlesAt 1)

/-- The next sweep fills four of the ten units, and then cancels the order. -/
theorem fok_partly_filled :
    ∃ xs b, BookRun xs b ∧
      ¬ FillOrKilled b (createOrder (some true) 2 buyTen 1 (settlesAt 1) b).2 := by
  have hrun : BookRun _ fourOffered := run_replay next start _
  refine ⟨_, fourOffered, hrun, ?_⟩
  intro hatomic
  have hswept := hatomic _ _
    ⟨1, 2, none, .buy, .fok, "COCOA", 10, 4, 10 ^ 7, none, none, .cancelled, none, none, 1⟩
    (run_replay next _ [.matchOpenOrders "COCOA" 2 fun _ => settlesAt 2])
    (by decide +kernel) (by decide +kernel) (by decide +kernel)
  exact absurd hswept (by decide +kernel)

end AgriFi.OrderBook
