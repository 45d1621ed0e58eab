import AgriFi.JsValue
import AgriFi.Keyset
import Mathlib.Data.List.Sort
import Mathlib.Data.Rat.Floor

/-
  The transaction logs by cursor (`src/stellar/stellar.service.ts`, `getTransactionLogs`, with the
  cursors of `src/common/pagination.ts`). The order is by time and then by id, but a cursor holds
  the time only, and that in whole milliseconds: what shares the millisecond of the last log of a
  page is left out. `logs_complete_iff` says when following the cursors visits all logs.
-/

namespace AgriFi.Stellar

open AgriFi.JsValue AgriFi.Keyset

/-! ## Logs -/

/-- A row of `transaction_logs`, as far as the query looks at it. -/
structure TransactionLog (Id User : Type) where
  id : Id
  userId : Option User
  /-- `created_at`, a `TIMESTAMPTZ`: in microseconds. -/
  createdAt : Int
  deriving DecidableEq

/-- The table; ids are the primary key. -/
structure LogTable (Id User : Type) where
  rows : List (TransactionLog Id User)
  ids_nodup : (rows.map TransactionLog.id).Nodup

/-- What `encodeCursor` makes of a `Date`: the Base64 text of its time in ISO format, which has
    milliseconds. `decodeCursor` and `new Date` give that time back. -/
structure Cursor where
  millis : Int
  deriving DecidableEq

def encodeCursor (millis : Int) : Cursor := ⟨millis⟩

def decodeCursor (cursor : Cursor) : Int := cursor.millis

section Service

variable {Id User : Type}

/-- The `Date` that the driver gives for the column: whole milliseconds. -/
def TransactionLog.createdDate (log : TransactionLog Id User) : Int := log.createdAt / 1000

/-- `log.createdAt < :cursor`, compared in the database. -/
def isBefore (cursor : Cursor) (log : TransactionLog Id User) : Bool :=
  log.createdAt < decodeCursor cursor * 1000

variable [LinearOrder Id]

/-- `ORDER BY log.createdAt DESC, log.id DESC`. -/
def newestFirst (a b : TransactionLog Id User) : Bool :=
  b.createdAt < a.createdAt ∨ (b.createdAt = a.createdAt ∧ b.id ≤ a.id)

variable [DecidableEq User]

/-- The logs of a user, or all of them. -/
def LogTable.ofUser (table : LogTable Id User) (userId : Option User) :
    List (TransactionLog Id User) :=
  match userId with
  | none => table.rows
  | some user => table.rows.filter fun log => log.userId = some user

/-- The number of logs on a page. -/
def pageLimit (limitParam : Option Number) : Rat :=
  min (match limitParam with
    | some (.finite q) => if q > 0 then q else 20
    | _ => 20) 100

/-- `LIMIT n` for a number with a fraction, which the database rounds. -/
def limitRows (n : Rat) : Nat := ⌊n + 1 / 2⌋₊

/-- The rows the query is about, before the limit. -/
def LogTable.selected (table : LogTable Id User) (userId : Option User)
    (cursorParam : Option Cursor) : List (TransactionLog Id User) :=
  match cursorParam with
  | none => table.ofUser userId
  | some cursor => (table.ofUser userId).filter (isBefore cursor)

/-- What `getTransactionLogs` returns, with the fields of `meta`. -/
structure CursorPaginatedResult (Id User : Type) where
  data : List (TransactionLog Id User)
  limit : Rat
  nextCursor : Option Cursor
  hasMore : Bool

/-- The page made of the rows that the query returned; `slice` drops the fraction of its
    argument. -/
def toPage (limit : Rat) (items : List (TransactionLog Id User)) : CursorPaginatedResult Id User :=
  let hasMore : Bool := limit < (items.length : Rat)
  let data := if hasMore then items.take ⌊limit⌋₊ else items
  let nextCursor :=
    if hasMore then data.getLast?.map fun log => encodeCursor log.createdDate else none
  { data, limit, nextCursor, hasMore }

def getTransactionLogs (table : LogTable Id User) (userId : Option User)
    (limitParam : Option Number) (cursorParam : Option Cursor) : CursorPaginatedResult Id User :=
  let limit := pageLimit limitParam
  let ordered := (table.selected userId cursorParam).mergeSort newestFirst
  toPage limit (ordered.take (limitRows (limit + 1)))

/-- The logs a caller sees who follows the cursors from the first page on. -/
def visited (table : LogTable Id User) (userId : Option User) (limitParam : Option Number)
    (fuel : Nat) : Option (List (TransactionLog Id User)) :=
  follow (fun cursor =>
    let result := getTransactionLogs table userId limitParam cursor
    (result.data, result.nextCursor)) fuel none

/-- The logs there are to see, in order. -/
def LogTable.sorted (table : LogTable Id User) (userId : Option User) :
    List (TransactionLog Id User) :=
  (table.ofUser userId).mergeSort newestFirst

end Service

/-! ## The order -/

section Order

variable {Id User : Type} [LinearOrder Id]

theorem newestFirst_trans (a b c : TransactionLog Id User) (hab : newestFirst a b = true)
    (hbc : newestFirst b c = true) : newestFirst a c = true := by
  unfold newestFirst at *
  simp only [decide_eq_true_eq] at *
  rcases hab with hab | ⟨hab, hid⟩
  · rcases hbc with hbc | ⟨hbc, _⟩
    · exact .inl (hbc.trans hab)
    · exact .inl (by omega)
  · rcases hbc with hbc | ⟨hbc, hid'⟩
    · exact .inl (by omega)
    · exact .inr ⟨hbc.trans hab, hid'.trans hid⟩

theorem newestFirst_total (a b : TransactionLog Id User) :
    (newestFirst a b || newestFirst b a) = true := by
  unfold newestFirst
  simp only [Bool.or_eq_true, decide_eq_true_eq]
  rcases lt_trichotomy a.createdAt b.createdAt with h | h | h
  · exact .inr (.inl h)
  · rcases le_total a.id b.id with hid | hid
    · exact .inr (.inr ⟨h, hid⟩)
    · exact .inl (.inr ⟨h.symm, hid⟩)
  · exact .inl (.inl h)

theorem sorted_newestFirst (l : List (TransactionLog Id User)) :
    (l.mergeSort newestFirst).Pairwise fun a b => newestFirst a b = true :=
  List.pairwise_mergeSort newestFirst_trans newestFirst_total l

/-- Logs with different ids have one order. -/
theorem eq_of_newestFirst {l : List (TransactionLog Id User)}
    (hl : (l.map TransactionLog.id).Nodup) {a b : TransactionLog Id User} (ha : a ∈ l) (hb : b ∈ l)
    (hab : newestFirst a b = true) (hba : newestFirst b a = true) : a = b := by
  refine List.inj_on_of_nodup_map hl ha hb ?_
  unfold newestFirst at hab hba
  simp only [decide_eq_true_eq] at hab hba
  rcases hab with hab | ⟨_, hab⟩
  · rcases hba with hba | ⟨hba, _⟩ <;> omega
  · rcases hba with hba | ⟨_, hba⟩
    · omega
    · exact le_antisymm hba hab

/-- The database may filter before it sorts. -/
theorem mergeSort_filter {l : List (TransactionLog Id User)}
    (hl : (l.map TransactionLog.id).Nodup) (p : TransactionLog Id User → Bool) :
    (l.filter p).mergeSort newestFirst = (l.mergeSort newestFirst).filter p := by
  have hperm : ((l.filter p).mergeSort newestFirst).Perm ((l.mergeSort newestFirst).filter p) :=
    (List.mergeSort_perm _ _).trans ((List.mergeSort_perm l _).filter p).symm
  refine hperm.eq_of_pairwise (fun a b ha hb hab hba => ?_) (sorted_newestFirst _)
    ((sorted_newestFirst l).filter p)
  have ha' : a ∈ l := List.mem_of_mem_filter (List.mem_mergeSort.mp ha)
  have hb' : b ∈ l := List.mem_mergeSort.mp (List.mem_of_mem_filter hb)
  exact eq_of_newestFirst hl ha' hb' hab hba

end Order

/-! ## The pages -/

section Pages

variable {Id User : Type} [LinearOrder Id] [DecidableEq User] {table : LogTable Id User}
  {userId : Option User} {limitParam : Option Number}

theorem pageLimit_nonneg (limitParam : Option Number) : 0 ≤ pageLimit limitParam := by
  unfold pageLimit
  refine le_min ?_ (by norm_num)
  split
  · split
    · next h => exact h.le
    · norm_num
  · norm_num

omit [LinearOrder Id] [DecidableEq User] in
/-- A page is the first logs of what is selected, up to the whole part of the limit. -/
theorem toPage_eq_cut {limit : Rat} (hl : 0 ≤ limit) (ordered : List (TransactionLog Id User)) :
    let page := toPage limit (ordered.take (limitRows (limit + 1)))
    (page.data, page.nextCursor) =
      cut ⌊limit⌋₊ (fun log => encodeCursor log.createdDate) ordered := by
  have hrows : ⌊limit⌋₊ < limitRows (limit + 1) := by
    have hfloor := Nat.floor_le hl
    refine Nat.le_floor ?_
    push_cast
    linarith
  have hmore : limit < ((ordered.take (limitRows (limit + 1))).length : Rat) ↔
      ⌊limit⌋₊ < ordered.length := by
    rw [← Nat.floor_lt hl, List.length_take]
    omega
  unfold toPage cut
  by_cases h : ⌊limit⌋₊ < ordered.length
  · have htake : (ordered.take (limitRows (limit + 1))).take ⌊limit⌋₊ = ordered.take ⌊limit⌋₊ := by
      rw [List.take_take, min_eq_left hrows.le]
    simp only [hmore, h, decide_true, if_true, htake]
  · have htake : ordered.take (limitRows (limit + 1)) = ordered :=
      List.take_of_length_le (by omega)
    rw [htake] at hmore ⊢
    simp only [hmore, h, decide_false, if_false, Bool.false_eq_true]

omit [LinearOrder Id] in
theorem ofUser_nodup (table : LogTable Id User) (userId : Option User) :
    ((table.ofUser userId).map TransactionLog.id).Nodup := by
  unfold LogTable.ofUser
  cases userId with
  | none => exact table.ids_nodup
  | some user => exact (List.filter_sublist.map _).nodup table.ids_nodup

/-- The request with a cursor is about the sorted logs after it. -/
theorem mergeSort_selected (cursorParam : Option Cursor) :
    (table.selected userId cursorParam).mergeSort newestFirst =
      itemsFrom isBefore (table.sorted userId) cursorParam := by
  unfold LogTable.selected itemsFrom LogTable.sorted
  cases cursorParam with
  | none => rfl
  | some cursor => exact mergeSort_filter (ofUser_nodup table userId) _

theorem visited_eq (fuel : Nat) :
    visited table userId limitParam fuel =
      follow (fun cursor => cut ⌊pageLimit limitParam⌋₊ (fun log => encodeCursor log.createdDate)
        (itemsFrom isBefore (table.sorted userId) cursor)) fuel none := by
  unfold visited
  congr 1
  funext cursor
  unfold getTransactionLogs
  rw [mergeSort_selected]
  exact toPage_eq_cut (pageLimit_nonneg limitParam) _

/-- A cursor excludes its own log and all before it. -/
theorem resumes_sorted (table : LogTable Id User) (userId : Option User) :
    Resumes isBefore (fun log => encodeCursor log.createdDate) (table.sorted userId) where
  mono := by
    refine (sorted_newestFirst _).imp fun {a b} hab cursor hbefore => ?_
    unfold newestFirst at hab
    unfold isBefore at *
    simp only [decide_eq_true_eq] at *
    omega
  self a _ := by
    unfold isBefore decodeCursor encodeCursor TransactionLog.createdDate
    simp only [decide_eq_false_iff_not]
    omega

/-- No log at the end of a page shares its millisecond with the next one. -/
def SeparatedPages (limit : Nat) (logs : List (TransactionLog Id User)) : Prop :=
  ∀ k x y, logs[(k + 1) * limit - 1]? = some x → logs[(k + 1) * limit]? = some y →
    y.createdAt / 1000 ≠ x.createdAt / 1000

theorem continues_iff {limit : Nat} (hl : 0 < limit) :
    Continues isBefore (fun log => encodeCursor log.createdDate) limit (table.sorted userId) ↔
      SeparatedPages limit (table.sorted userId) := by
  refine forall_congr' fun k => forall_congr' fun x => forall_congr' fun y =>
    forall_congr' fun hx => forall_congr' fun hy => ?_
  have hle : y.createdAt ≤ x.createdAt := by
    have hsorted := List.pairwise_iff_getElem.mp (sorted_newestFirst (table.ofUser userId))
    obtain ⟨hi, hx⟩ := List.getElem?_eq_some_iff.mp hx
    obtain ⟨hj, hy⟩ := List.getElem?_eq_some_iff.mp hy
    have hpos : 0 < (k + 1) * limit := Nat.mul_pos (by omega) hl
    have hnewest := hsorted _ _ hi hj (by omega)
    unfold LogTable.sorted at hx hy
    rw [hx, hy] at hnewest
    unfold newestFirst at hnewest
    simp only [decide_eq_true_eq] at hnewest
    omega
  unfold isBefore decodeCursor encodeCursor TransactionLog.createdDate
  simp only [decide_eq_true_eq, ne_eq]
  omega

/-- With one log on a page at least, the pages have all logs if none ends within a millisecond. -/
theorem visited_all_iff (hone : 1 ≤ pageLimit limitParam) :
    (∃ fuel, visited table userId limitParam fuel = some (table.sorted userId)) ↔
      SeparatedPages ⌊pageLimit limitParam⌋₊ (table.sorted userId) := by
  have hpos : 0 < ⌊pageLimit limitParam⌋₊ := Nat.floor_pos.mpr hone
  simp only [visited_eq]
  rw [follow_iff (resumes_sorted table userId) hpos, continues_iff hpos]

/-- Following the cursors visits all logs of a user once, newest first, and ends, exactly if the
    limit is one log at least (or there are no logs) and no page ends within a millisecond. -/
theorem logs_complete_iff (table : LogTable Id User) (userId : Option User)
    (limitParam : Option Number) :
    (∃ fuel, visited table userId limitParam fuel = some (table.sorted userId)) ↔
      (table.sorted userId = [] ∨ 1 ≤ pageLimit limitParam) ∧
        SeparatedPages ⌊pageLimit limitParam⌋₊ (table.sorted userId) := by
  by_cases hone : 1 ≤ pageLimit limitParam
  · rw [visited_all_iff hone]
    simp [hone]
  · have hzero : ⌊pageLimit limitParam⌋₊ = 0 := Nat.floor_eq_zero.mpr (not_le.mp hone)
    simp only [visited_eq]
    rw [hzero, follow_zero_iff]
    constructor
    · intro hnil
      exact ⟨.inl hnil, by simp [SeparatedPages, hnil]⟩
    · rintro ⟨hnil | hle, _⟩
      · exact hnil
      · exact absurd hle hone

/-- Two logs of one moment, read one at a time: the second one is never returned. -/
def twinLogs : LogTable Nat Nat where
  rows := [⟨2, some 7, 1700000000123456⟩, ⟨1, some 7, 1700000000123456⟩]
  ids_nodup := by decide

theorem logs_incomplete :
    ¬ ∀ (table : LogTable Nat Nat) (userId : Option Nat) (limitParam : Option Number),
      ∃ fuel, visited table userId limitParam fuel = some (table.sorted userId) := by
  intro h
  have hlimit : pageLimit (some (.finite 1)) = 1 := by decide +kernel
  have hfloor : ⌊(1 : Rat)⌋₊ = 1 := Nat.floor_one
  have hsorted : twinLogs.sorted (some 7) = twinLogs.rows :=
    List.mergeSort_of_pairwise (by decide +kernel)
  have hseparated := (visited_all_iff (by rw [hlimit])).mp (h twinLogs (some 7) (some (.finite 1)))
  rw [hlimit, hfloor, hsorted] at hseparated
  exact hseparated 0 ⟨2, some 7, 1700000000123456⟩ ⟨1, some 7, 1700000000123456⟩ rfl rfl rfl

end Pages

end AgriFi.Stellar
