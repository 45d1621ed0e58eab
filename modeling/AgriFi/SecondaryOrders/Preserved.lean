import Mathlib.Data.List.Nodup
import Mathlib.Data.String.Basic
import AgriFi.SecondaryOrders.Migration

/-
  What the migration of the order book keeps. `up` carries every order over exactly when its owner
  and its deal's symbol fit the new table and no live order has the placeholder as its symbol; `down`
  after it restores the book exactly when there are besides no buy orders and no two sell orders of
  one investment (`migration_preserves`).
-/

namespace AgriFi.SecondaryOrders

open AgriFi.Rows

variable {db : Database} {now : Int} {order : SecondaryOrder} {orders table : List SecondaryOrder}
  {unified : List SecondaryOrder} {dealId : Uuid}

/-! ## What is claimed -/

/-- What an order says, in either schema. -/
structure Order where
  side : Side
  owner : Option Uuid
  dealId : Option Uuid
  price : Int
  quantity : Int
  remaining : Int
  expiry : Option Int
  status : String
  createdAt : Int
  updatedAt : Int
  deriving DecidableEq

def SellOrder.view (s : SellOrder) : Order where
  side := .sell
  owner := some s.sellerId
  dealId := some s.dealId
  price := s.askPrice
  quantity := s.quantity
  remaining := s.quantity - s.filledQuantity
  expiry := s.expiry
  status := s.status
  createdAt := s.createdAt
  updatedAt := s.updatedAt

def BuyOrder.view (b : BuyOrder) : Order where
  side := .buy
  owner := some b.buyerId
  dealId := some b.dealId
  price := b.bidPrice
  quantity := b.quantity
  remaining := b.quantity - b.filledQuantity
  expiry := b.expiry
  status := b.status
  createdAt := b.createdAt
  updatedAt := b.updatedAt

def SecondaryOrder.view (o : SecondaryOrder) : Order where
  side := o.side
  owner := o.userId
  dealId := o.dealId
  price := o.pricePerToken
  quantity := o.tokenAmount
  remaining := o.tokenAmount - o.filledAmount
  expiry := o.expiresAt
  status := o.status
  createdAt := o.createdAt
  updatedAt := o.updatedAt

/-- The status that an order is to have after the migration. -/
def Database.migratedStatus (db : Database) (dealId : Option Uuid) (status : String) : String :=
  if status ∈ liveStatuses ∧ dealId.bind db.tokenSymbol = none then "cancelled" else status

def Database.migrated (db : Database) (order : Order) : Order :=
  { order with status := db.migratedStatus order.dealId order.status }

/-- The legacy orders, each with the order id that it is to have. -/
def Database.book (db : Database) : List ((Side × Uuid) × Order) :=
  (db.sells.map fun s => ((.sell, s.id), s.view)) ++ db.buys.map fun b => ((.buy, b.id), b.view)

/-- The order is live, on the deal. -/
def Order.LiveOn (order : Order) (dealId : Uuid) : Prop :=
  order.dealId = some dealId ∧ order.status ∈ liveStatuses

instance (order : Order) : Decidable (order.LiveOn dealId) := inferInstanceAs (Decidable (_ ∧ _))

/-- There is one order for each legacy order, and the live orders of a deal with a symbol are the
    same. -/
structure Database.Preserved (db : Database) (unified : List SecondaryOrder) : Prop where
  orders : (unified.map fun o => (o.orderId, o.view)).Perm
    (db.book.map fun entry => (entry.1, db.migrated entry.2))
  live : ∀ dealId, (db.tokenSymbol dealId).isSome →
    ((unified.map SecondaryOrder.view).filter fun order => order.LiveOn dealId).Perm
      ((db.book.map Prod.snd).filter fun order => order.LiveOn dealId)

/-- A sell order up to its id. -/
def SellOrder.unnamed (s : SellOrder) : SellOrder := { s with id := 0 }

def BuyOrder.unnamed (b : BuyOrder) : BuyOrder := { b with id := 0 }

def Database.migratedSell (db : Database) (s : SellOrder) : SellOrder :=
  { s with status := db.migratedStatus (some s.dealId) s.status }

def Database.migratedBuy (db : Database) (b : BuyOrder) : BuyOrder :=
  { b with status := db.migratedStatus (some b.dealId) b.status }

/-- Every legacy order is there again, up to its id and the cancellations. -/
structure Database.Restored (db : Database) (legacy : List SellOrder × List BuyOrder) : Prop where
  sells : (legacy.1.map SellOrder.unnamed).Perm
    (db.sells.map fun s => (db.migratedSell s).unnamed)
  buys : (legacy.2.map BuyOrder.unnamed).Perm (db.buys.map fun b => (db.migratedBuy b).unnamed)

/-- The checks of the unified table admit the statuses and the quantities. -/
structure Database.Checked (db : Database) : Prop where
  sells : ∀ s ∈ db.sells, CheckStatus s.status ∧ CheckAmounts s.quantity s.filledQuantity
  buys : ∀ b ∈ db.buys, CheckStatus b.status ∧ CheckAmounts b.quantity b.filledQuantity

/-! ## When it holds -/

/-- The owners are users, the symbols fit the column, and no live order has the placeholder as its
    deal's symbol. -/
structure Database.Migratable (db : Database) : Prop where
  owners : ∀ entry ∈ db.book, ∀ userId ∈ entry.2.owner, userId ∈ db.users
  symbols : ∀ entry ∈ db.book, ∀ symbol ∈ entry.2.dealId.bind db.tokenSymbol,
    (varchar 20 symbol).isSome
  unset : ∀ entry ∈ db.book, entry.2.status ∈ liveStatuses →
    entry.2.dealId.bind db.tokenSymbol ≠ some "UNSET"

/-! ## The rows of `up` -/

/-- The rows that are inserted. -/
def Database.rows (db : Database) : List SecondaryOrder :=
  db.sells.map db.fromSell ++ db.buys.map db.fromBuy

/-- A row after the insertion and the cancellation. -/
def SecondaryOrder.settled (now : Int) (order : SecondaryOrder) : SecondaryOrder :=
  if order.stored.Unmatchable then order.stored.cancel now else order.stored

theorem orderId_settled : (order.settled now).orderId = order.orderId := by
  unfold SecondaryOrder.settled
  split <;> rfl

theorem rows_keys (db : Database) : (db.rows.map SecondaryOrder.orderId).Nodup := by
  rw [Database.rows, List.map_append, List.map_map, List.map_map]
  refine List.Nodup.append ?_ ?_ ?_
  · exact (List.nodup_map_iff (Prod.mk_right_injective Side.sell)).mpr db.sells_key |>
      fun h => by rwa [List.map_map] at h
  · exact (List.nodup_map_iff (Prod.mk_right_injective Side.buy)).mpr db.buys_key |>
      fun h => by rwa [List.map_map] at h
  · intro key hsell hbuy
    obtain ⟨s, _, rfl⟩ := List.mem_map.mp hsell
    obtain ⟨b, _, hkey⟩ := List.mem_map.mp hbuy
    exact absurd (congrArg Prod.fst hkey) nofun

theorem insert_of_nodup (h : ((table ++ orders).map SecondaryOrder.orderId).Nodup) :
    db.insert table orders =
      if ∀ order ∈ orders, db.Admits order then some (table ++ orders.map SecondaryOrder.stored)
      else none := by
  have hnew : orders.filter (fun order => order.orderId ∉ table.map SecondaryOrder.orderId) =
      orders := by
    refine List.filter_eq_self.mpr fun order horder => decide_eq_true fun hmem => ?_
    rw [List.map_append, List.nodup_append] at h
    exact h.2.2 _ hmem _ (List.mem_map_of_mem horder) rfl
  have hstored : ((table ++ orders.map SecondaryOrder.stored).map SecondaryOrder.orderId).Nodup := by
    rw [List.map_append] at h ⊢
    rw [List.map_map]
    exact h
  unfold Database.insert
  rw [hnew]
  dsimp only
  rw [insertIgnoring_of_nodup hstored]

theorem up_eq (db : Database) (now : Int) : db.up now =
    if ∀ order ∈ db.rows, db.Admits order then some (db.rows.map (SecondaryOrder.settled now))
    else none := by
  have hkeys := rows_keys db
  have hsells : (([] ++ db.sells.map db.fromSell).map SecondaryOrder.orderId).Nodup := by
    rw [Database.rows, List.map_append] at hkeys
    exact (List.nodup_append.mp hkeys).1
  have hbuys : (((db.sells.map db.fromSell).map SecondaryOrder.stored ++
      db.buys.map db.fromBuy).map SecondaryOrder.orderId).Nodup := by
    rw [Database.rows, List.map_append] at hkeys
    rw [List.map_append, List.map_map (f := SecondaryOrder.stored)]
    exact hkeys
  unfold Database.up
  rw [insert_of_nodup hsells]
  simp only [Database.rows, List.forall_mem_append]
  by_cases h1 : ∀ order ∈ db.sells.map db.fromSell, db.Admits order
  · rw [if_pos h1]
    simp only [List.nil_append, Option.bind_eq_bind, Option.bind_some]
    rw [insert_of_nodup hbuys]
    by_cases h2 : ∀ order ∈ db.buys.map db.fromBuy, db.Admits order
    · rw [if_pos h2, if_pos ⟨h1, h2⟩, ← List.map_append]
      simp only [Option.bind_some]
      rw [update, List.map_map]
      congr 1
      refine List.map_congr_left fun order _ => ?_
      simp only [Function.comp_apply, decide_eq_true_eq]
      rfl
    · rw [if_neg h2, if_neg fun h => h2 h.2]
      rfl
  · rw [if_neg h1, if_neg fun h => h1 h.1]
    rfl

/-! ## One order -/

theorem varchar_unset {text : String} (h : varchar 20 text = some "UNSET") : text = "UNSET" := by
  unfold varchar at h
  split at h
  · exact Option.some.inj h
  · next hlong =>
    split at h
    · have hlen := congrArg String.length (Option.some.inj h)
      rw [String.length_ofList, List.length_take, String.length_toList] at hlen
      have hunset : "UNSET".length = 5 := rfl
      omega
    · cases h

/-- A row that is carried over says what its legacy order is to say, unless it is live and its
    symbol is the placeholder. -/
theorem view_settled (hcode : (varchar 20 order.tokenCode).isSome)
    (hsymbol : order.tokenCode = (order.view.dealId.bind db.tokenSymbol).getD "UNSET")
    (hunset : order.view.status ∈ liveStatuses →
      order.view.dealId.bind db.tokenSymbol ≠ some "UNSET") :
    (order.settled now).view = db.migrated order.view := by
  obtain ⟨code, hcode⟩ := Option.isSome_iff_exists.mp hcode
  have hstored : order.stored.tokenCode = code := by
    rw [SecondaryOrder.stored, hcode]
    rfl
  have hplaceholder : code = "UNSET" ↔ order.tokenCode = "UNSET" := by
    constructor
    · rintro rfl
      exact varchar_unset hcode
    · intro h
      rw [h] at hcode
      exact (Option.some.inj hcode).symm
  have hstatus : order.stored.Unmatchable ↔
      order.view.status ∈ liveStatuses ∧ order.view.dealId.bind db.tokenSymbol = none := by
    rw [SecondaryOrder.Unmatchable, hstored, hplaceholder, hsymbol]
    constructor
    · rintro ⟨hcode, hlive⟩
      refine ⟨hlive, ?_⟩
      cases hfound : order.view.dealId.bind db.tokenSymbol with
      | none => rfl
      | some symbol =>
        rw [hfound] at hcode
        exact absurd (hfound.trans (congrArg some hcode)) (hunset hlive)
    · rintro ⟨hlive, hnone⟩
      exact ⟨by rw [hnone]; rfl, hlive⟩
  unfold SecondaryOrder.settled Database.migrated Database.migratedStatus
  by_cases hcancel : order.stored.Unmatchable
  · rw [if_pos hcancel, if_pos (hstatus.mp hcancel)]
    rfl
  · rw [if_neg hcancel, if_neg fun h => hcancel (hstatus.mpr h)]
    rfl

/-- A live row whose symbol is the placeholder is cancelled. -/
theorem status_settled_unset (hcode : order.tokenCode = "UNSET")
    (hlive : order.status ∈ liveStatuses) : (order.settled now).view.status = "cancelled" := by
  have hstored : order.stored.tokenCode = "UNSET" := by
    rw [SecondaryOrder.stored, hcode]
    rfl
  rw [SecondaryOrder.settled, if_pos ⟨hstored, hlive⟩]
  rfl

/-! ## The rows and the book -/

theorem min_filled {tokenAmount filledAmount : Int} (h : CheckAmounts tokenAmount filledAmount) :
    min filledAmount tokenAmount = filledAmount :=
  min_eq_left h.2.2

theorem checkAmounts_min {tokenAmount filledAmount : Int}
    (h : CheckAmounts tokenAmount filledAmount) :
    CheckAmounts tokenAmount (min filledAmount tokenAmount) := by
  rw [min_filled h]
  exact h

theorem view_fromSell {s : SellOrder} (h : CheckAmounts s.quantity s.filledQuantity) :
    (db.fromSell s).view = s.view := by
  simp only [SecondaryOrder.view, Database.fromSell, SellOrder.view, min_filled h]

theorem view_fromBuy {b : BuyOrder} (h : CheckAmounts b.quantity b.filledQuantity) :
    (db.fromBuy b).view = b.view := by
  simp only [SecondaryOrder.view, Database.fromBuy, BuyOrder.view, min_filled h]

theorem book_eq (h : db.Checked) : db.book = db.rows.map fun o => (o.orderId, o.view) := by
  rw [Database.book, Database.rows, List.map_append, List.map_map, List.map_map]
  congr 1
  · exact List.map_congr_left fun s hs => congrArg (Prod.mk _) (view_fromSell (h.sells s hs).2).symm
  · exact List.map_congr_left fun b hb => congrArg (Prod.mk _) (view_fromBuy (h.buys b hb).2).symm

theorem forall_rows {P : SecondaryOrder → Prop} : (∀ order ∈ db.rows, P order) ↔
    (∀ s ∈ db.sells, P (db.fromSell s)) ∧ ∀ b ∈ db.buys, P (db.fromBuy b) := by
  rw [Database.rows, List.forall_mem_append, List.forall_mem_map, List.forall_mem_map]

theorem tokenCode_rows : ∀ order ∈ db.rows,
    order.tokenCode = (order.view.dealId.bind db.tokenSymbol).getD "UNSET" :=
  forall_rows.mpr ⟨fun _ _ => rfl, fun _ _ => rfl⟩

theorem admits_rows (h : db.Checked) : ∀ order ∈ db.rows, (db.Admits order ↔
    (∀ userId ∈ order.view.owner, userId ∈ db.users) ∧ (varchar 20 order.tokenCode).isSome) := by
  have hfree : ∀ order ∈ db.rows, CheckStatus order.status ∧
      CheckAmounts order.tokenAmount order.filledAmount ∧ order.CheckStop := by
    refine forall_rows.mpr ⟨fun s hs => ?_, fun b hb => ?_⟩
    · obtain ⟨hstatus, hamounts⟩ := h.sells s hs
      exact ⟨hstatus, checkAmounts_min hamounts, nofun⟩
    · obtain ⟨hstatus, hamounts⟩ := h.buys b hb
      exact ⟨hstatus, checkAmounts_min hamounts, nofun⟩
  intro order horder
  obtain ⟨hstatus, hamounts, hstop⟩ := hfree order horder
  exact ⟨fun hadmits => ⟨hadmits.user, hadmits.tokenCode⟩,
    fun ⟨huser, hcode⟩ => ⟨huser, hcode, hstatus, hamounts, hstop⟩⟩

theorem isSome_varchar_getD {symbol : Option String} :
    (varchar 20 (symbol.getD "UNSET")).isSome ↔ ∀ text ∈ symbol, (varchar 20 text).isSome := by
  cases symbol with
  | none => exact ⟨nofun, fun _ => rfl⟩
  | some text => simp

/-- `up` goes through exactly when the owners are users and the symbols fit. -/
theorem admits_all_iff (h : db.Checked) : (∀ order ∈ db.rows, db.Admits order) ↔
    (∀ entry ∈ db.book, ∀ userId ∈ entry.2.owner, userId ∈ db.users) ∧
      ∀ entry ∈ db.book, ∀ symbol ∈ entry.2.dealId.bind db.tokenSymbol,
        (varchar 20 symbol).isSome := by
  rw [book_eq h, List.forall_mem_map, List.forall_mem_map, ← forall₂_and]
  refine forall₂_congr fun order horder => ?_
  rw [admits_rows h order horder, tokenCode_rows order horder, isSome_varchar_getD]

/-! ## What `up` preserves -/

/-- Every row is carried over as it is to be. -/
def Database.Kept (db : Database) (now : Int) : Prop :=
  ∀ order ∈ db.rows, (order.settled now).view = db.migrated order.view

theorem kept_of_migratable (h : db.Checked) (hm : db.Migratable) : db.Kept now := by
  obtain ⟨_, hsymbols, hunset⟩ := hm
  rw [book_eq h, List.forall_mem_map] at hsymbols hunset
  intro order horder
  have hcode := tokenCode_rows order horder
  refine view_settled ?_ hcode (hunset order horder)
  rw [hcode, isSome_varchar_getD]
  exact hsymbols order horder

theorem migrated_of_symbol {o : Order} (hsymbol : (db.tokenSymbol dealId).isSome)
    (hdeal : o.dealId = some dealId) : db.migrated o = o := by
  unfold Database.migrated Database.migratedStatus
  rw [if_neg]
  intro hnone
  rw [hdeal] at hnone
  exact absurd (hnone.2 : db.tokenSymbol dealId = none) (Option.isSome_iff_ne_none.mp hsymbol)

theorem filter_migrated (hsymbol : (db.tokenSymbol dealId).isSome) (book : List Order) :
    (book.map db.migrated).filter (fun order => order.LiveOn dealId) =
      book.filter fun order => order.LiveOn dealId := by
  induction book with
  | nil => rfl
  | cons o book ih =>
    by_cases hdeal : o.dealId = some dealId
    · rw [List.map_cons, migrated_of_symbol hsymbol hdeal, List.filter_cons, List.filter_cons, ih]
    · have hother : ¬ (db.migrated o).LiveOn dealId := fun h => hdeal h.1
      rw [List.map_cons, List.filter_cons_of_neg (by simpa using hother),
        List.filter_cons_of_neg (by simpa using fun h : o.LiveOn dealId => hdeal h.1), ih]

theorem preserved_of_kept (h : db.Checked) (hkept : db.Kept now) :
    db.Preserved (db.rows.map (SecondaryOrder.settled now)) := by
  have horders : (db.rows.map (SecondaryOrder.settled now)).map (fun o => (o.orderId, o.view)) =
      db.book.map fun entry => (entry.1, db.migrated entry.2) := by
    rw [book_eq h, List.map_map, List.map_map]
    refine List.map_congr_left fun order horder => ?_
    exact congrArg₂ Prod.mk orderId_settled (hkept order horder)
  constructor
  case orders => rw [horders]
  case live =>
    intro dealId hsymbol
    have hviews : (db.rows.map (SecondaryOrder.settled now)).map SecondaryOrder.view =
        (db.book.map Prod.snd).map db.migrated := by
      rw [book_eq h, List.map_map, List.map_map, List.map_map]
      exact List.map_congr_left hkept
    rw [hviews, filter_migrated hsymbol]

/-- An order that is preserved is not live with the placeholder as its symbol. -/
theorem unset_of_preserved (h : db.Checked)
    (hp : db.Preserved (db.rows.map (SecondaryOrder.settled now))) :
    ∀ entry ∈ db.book, entry.2.status ∈ liveStatuses →
      entry.2.dealId.bind db.tokenSymbol ≠ some "UNSET" := by
  have horders := hp.orders
  rw [book_eq h, List.map_map, List.map_map] at horders
  rw [book_eq h, List.forall_mem_map]
  intro order horder hlive hunset
  have hmem := horders.mem_iff.mpr (List.mem_map_of_mem horder)
  obtain ⟨order', horder', heq⟩ := List.mem_map.mp hmem
  obtain ⟨hkey, hview⟩ := Prod.mk.inj heq
  rw [orderId_settled] at hkey
  obtain rfl := List.inj_on_of_nodup_map (rows_keys db) horder' horder hkey
  have hcode : order'.tokenCode = "UNSET" := by
    rw [tokenCode_rows order' horder, hunset]
    rfl
  have hstatus := congrArg Order.status hview
  rw [status_settled_unset hcode hlive] at hstatus
  have hkeeps : (db.migrated order'.view).status = order'.view.status := by
    rw [Database.migrated, Database.migratedStatus, if_neg]
    rintro ⟨_, hnone⟩
    exact absurd (hunset.symm.trans hnone) nofun
  rw [← hstatus.trans hkeeps] at hlive
  exact absurd hlive (by decide)

theorem up_eq_some (h : db.up now = some unified) :
    (∀ order ∈ db.rows, db.Admits order) ∧
      unified = db.rows.map (SecondaryOrder.settled now) := by
  rw [up_eq] at h
  split at h
  · next hadmits => exact ⟨hadmits, (Option.some.inj h).symm⟩
  · cases h

theorem up_preserves_iff (h : db.Checked) (now : Int) :
    (∃ unified, db.up now = some unified ∧ db.Preserved unified) ↔ db.Migratable := by
  constructor
  · rintro ⟨unified, hup, hp⟩
    obtain ⟨hadmits, rfl⟩ := up_eq_some hup
    obtain ⟨howners, hsymbols⟩ := (admits_all_iff h).mp hadmits
    exact ⟨howners, hsymbols, unset_of_preserved h hp⟩
  · intro hm
    refine ⟨db.rows.map (SecondaryOrder.settled now), ?_,
      preserved_of_kept h (kept_of_migratable h hm)⟩
    rw [up_eq, if_pos ((admits_all_iff h).mpr ⟨hm.owners, hm.symbols⟩)]

/-! ## What `down` restores -/

theorem toSell_settled {s : SellOrder} (h : CheckAmounts s.quantity s.filledQuantity)
    (hkept : ((db.fromSell s).settled now).view = db.migrated (db.fromSell s).view) :
    ((db.fromSell s).settled now).toSell =
      some { db.migratedSell s with id := s.investmentId } := by
  have hstatus : ((db.fromSell s).settled now).status = db.migratedStatus (some s.dealId) s.status :=
    congrArg Order.status hkept
  have hrest : ((db.fromSell s).settled now).toSell =
      some { s with
        id := s.investmentId
        filledQuantity := min s.filledQuantity s.quantity
        status := ((db.fromSell s).settled now).status } := by
    unfold SecondaryOrder.settled
    split <;> rfl
  rw [hrest, hstatus, min_filled h]
  rfl

theorem toSell_settled_buy (b : BuyOrder) : ((db.fromBuy b).settled now).toSell = none := by
  unfold SecondaryOrder.settled
  split <;> rfl

theorem restorable_sells (h : db.Checked) (hkept : db.Kept now) :
    (db.rows.map (SecondaryOrder.settled now)).filterMap SecondaryOrder.toSell =
      db.sells.map fun s => { db.migratedSell s with id := s.investmentId } := by
  rw [List.filterMap_map, Database.rows, List.filterMap_append, List.filterMap_map,
    List.filterMap_map]
  have hbuys : db.buys.filterMap ((SecondaryOrder.toSell ∘ SecondaryOrder.settled now) ∘ db.fromBuy) =
      [] := List.filterMap_eq_nil_iff.mpr fun b _ => toSell_settled_buy b
  rw [hbuys, List.append_nil, ← List.filterMap_eq_map]
  refine List.filterMap_congr fun s hs => ?_
  exact toSell_settled (h.sells s hs).2 ((forall_rows.mp hkept).1 s hs)

theorem restored_iff (h : db.Checked) (hkept : db.Kept now) :
    db.Restored (down (db.rows.map (SecondaryOrder.settled now))) ↔
      db.buys = [] ∧ (db.sells.map SellOrder.investmentId).Nodup := by
  rw [down, restorable_sells h hkept]
  have hids : (db.sells.map fun s => ({ db.migratedSell s with id := s.investmentId } : SellOrder)).map
      SellOrder.id = db.sells.map SellOrder.investmentId := by
    rw [List.map_map]
    rfl
  constructor
  · rintro ⟨hsells, hbuys⟩
    refine ⟨List.map_eq_nil_iff.mp hbuys.nil_eq.symm, ?_⟩
    have hlen := hsells.length_eq
    rw [List.length_map, List.length_map] at hlen
    have hnodup := @nodup_of_length_insertIgnoring _ _ SellOrder.id [] _ _ List.Pairwise.nil
      (by rw [hlen, List.length_map]; exact (Nat.zero_add _).symm)
    rwa [List.nil_append, hids] at hnodup
  · rintro ⟨hbuys, hnodup⟩
    constructor
    case sells =>
      rw [insertIgnoring_of_nodup (by rwa [List.nil_append, hids]), List.nil_append, List.map_map]
      rfl
    case buys =>
      rw [hbuys]
      exact .nil

/-- `up` preserves the book exactly on the migratable tables, and `down` after it restores the book
    exactly when there are no buy orders and no two sell orders of one investment. -/
theorem migration_preserves (db : Database) (now : Int) (h : db.Checked) :
    ((∃ unified, db.up now = some unified ∧ db.Preserved unified) ↔ db.Migratable) ∧
      ((∃ unified, db.up now = some unified ∧ db.Preserved unified ∧
          db.Restored (down unified)) ↔
        db.Migratable ∧ db.buys = [] ∧ (db.sells.map SellOrder.investmentId).Nodup) := by
  refine ⟨up_preserves_iff h now, ?_⟩
  constructor
  · rintro ⟨unified, hup, hp, hrestored⟩
    have hm := (up_preserves_iff h now).mp ⟨unified, hup, hp⟩
    obtain ⟨_, rfl⟩ := up_eq_some hup
    exact ⟨hm, (restored_iff h (kept_of_migratable h hm)).mp hrestored⟩
  · rintro ⟨hm, hbook⟩
    obtain ⟨unified, hup, hp⟩ := (up_preserves_iff h now).mpr hm
    refine ⟨unified, hup, hp, ?_⟩
    obtain ⟨_, rfl⟩ := up_eq_some hup
    exact (restored_iff h (kept_of_migratable h hm)).mpr hbook

/-! ## A small book -/

def soldBy (id investmentId sellerId : Uuid) (status : String) : SellOrder where
  id := id
  investmentId := investmentId
  sellerId := sellerId
  dealId := 7
  askPrice := 105000000
  quantity := 40000000
  filledQuantity := 10000000
  expiry := none
  status := status
  createdAt := 1000
  updatedAt := 2000

/-- Two sellers of one deal's tokens, of two investments. -/
def twoSellers : Database where
  users := [1, 2]
  tradeDeals := [⟨7, "COFFEE-1"⟩]
  sells := [soldBy 11 101 1 "partially_filled", soldBy 12 102 2 "filled"]
  buys := []
  sells_key := by decide
  buys_key := by decide

theorem migration_preserves_twoSellers : twoSellers.Checked ∧
    ∃ unified, twoSellers.up 5000 = some unified ∧ twoSellers.Preserved unified ∧
      twoSellers.Restored (down unified) := by
  have hchecked : twoSellers.Checked := ⟨by decide, by decide⟩
  refine ⟨hchecked, (migration_preserves twoSellers 5000 hchecked).2.mpr ⟨?_, rfl, by decide⟩⟩
  exact ⟨by decide, by decide, by decide⟩

/-- One seller has two orders of one investment, and there is a buyer. -/
def sellerAndBuyer : Database where
  users := [1, 2]
  tradeDeals := [⟨7, "COFFEE-1"⟩]
  sells := [soldBy 11 101 1 "open", soldBy 12 101 1 "open"]
  buys := [⟨21, 7, 2, 100000000, 40000000, 0, none, "open", 1000, 2000⟩]
  sells_key := by decide
  buys_key := by decide

theorem orders_lost : ¬ ∀ (db : Database) (now : Int), db.Checked →
    ∃ unified, db.up now = some unified ∧ db.Preserved unified ∧ db.Restored (down unified) := by
  intro h
  obtain ⟨unified, hup, _, hrestored⟩ := h sellerAndBuyer 5000 ⟨by decide, by decide⟩
  obtain ⟨_, rfl⟩ := up_eq_some hup
  have hlen := hrestored.sells.length_eq
  revert hlen
  decide +kernel

end AgriFi.SecondaryOrders
