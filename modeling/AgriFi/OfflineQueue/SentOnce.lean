import AgriFi.OfflineQueue.Queue
import AgriFi.Threads
import Mathlib.Data.List.Nodup

/-
  Offline edits are kept and sent once. An edit that is put while a flush has its operation in the
  snapshot is deleted with it (`edit_lost`); so may two flushes send one version twice, and two first
  edits of a key leave two operations. When an edit puts its operation while the key holds no other
  one, with an id above those before it, flushes run one at a time, and an operation is deleted after
  its OK response and in the version that was sent, the queue has one operation for each key, every
  last edit is in it or was sent, nothing is sent again, and flushes keep the order of the first
  edits (`sent_once`).
-/

namespace AgriFi.OfflineQueue

open AgriFi.Runs AgriFi.Threads

variable {sys sys' : System} {s s' : State} {store : Store} {pc pc' : Pc} {w v : Nat}
  {answer : Answer} {request : Request} {existing : Option OfflineOperation}
  {operation o a b : OfflineOperation} {flush : Flush}

/-! ## What is claimed -/

/-- The record holds this accepted operation, whatever its number of retries. -/
def OfflineOperation.Holds (o a : OfflineOperation) : Prop :=
  { o with retryCount := a.retryCount } = a

/-- The last operation that was accepted for its key. -/
def Latest (s : State) (a : OfflineOperation) : Prop :=
  a ∈ s.accepted ∧ ∀ b ∈ s.accepted, b.resourceKey = a.resourceKey → b.version ≤ a.version

/-- What a flush has sent. -/
def Pc.sent : Pc → List OfflineOperation
  | .sending flush | .awaiting _ flush | .deleting _ flush | .marking _ flush | .flushed flush =>
    flush.sent
  | .get _ | .put _ _ | .enqueued _ _ | .rejected | .getAll => []

structure SentOnce (sys : System) : Prop where
  one : ∀ a ∈ sys.state.store, ∀ b ∈ sys.state.store, a.resourceKey = b.resourceKey → a = b
  kept : ∀ a, Latest sys.state a →
    (∃ o ∈ sys.state.store, o.Holds a) ∨ .ok a.version ∈ sys.state.log
  once : sys.state.log.Pairwise fun x y => ∀ version, x = .ok version → y ≠ .sent version
  ordered : ∀ pc ∈ sys.threads, (pc.sent.map (·.first)).Pairwise (· < ·)

/-! ## The condition -/

/-- The flush has read its snapshot and is still to end. -/
def Pc.Inside : Pc → Prop
  | .sending _ | .awaiting _ _ | .deleting _ _ | .marking _ _ => True
  | _ => False

instance : (pc : Pc) → Decidable pc.Inside
  | .sending _ | .awaiting _ _ | .deleting _ _ | .marking _ _ => isTrue trivial
  | .get _ | .put _ _ | .enqueued _ _ | .rejected | .getAll | .flushed _ => isFalse id

def Pc.Careful (sys : System) (answer : Answer) : Pc → Prop
  -- a new id is above the earlier ones, and the key holds nothing but what was found
  | .put request existing => answer.fails = false →
    (existing = none → ∀ a ∈ sys.state.accepted, a.id < answer.id) ∧
      ∀ o ∈ sys.state.store, o.resourceKey = request.resourceKey → existing.map (·.id) = some o.id
  | .getAll => ∀ pc ∈ sys.threads, ¬ pc.Inside
  -- what is deleted is what was sent
  | .deleting operation _ => answer.fails = false ∧
    ∀ o ∈ sys.state.store, o.id = operation.id → o.version = operation.version
  | _ => True

instance (sys : System) (answer : Answer) : (pc : Pc) → Decidable (pc.Careful sys answer)
  | .put _ _ => inferInstanceAs (Decidable (_ → (_ → _) ∧ _))
  | .getAll => inferInstanceAs (Decidable (∀ pc ∈ _, _))
  | .deleting _ _ => inferInstanceAs (Decidable (_ ∧ _))
  | .get _ | .enqueued _ _ | .rejected | .sending _ | .awaiting _ _ | .marking _ _ | .flushed _ =>
    isTrue trivial

/-- No page is closed between an OK response and the deletion. -/
def Pc.MayClose : Pc → Prop
  | .deleting _ _ => False
  | _ => True

instance : (pc : Pc) → Decidable pc.MayClose
  | .deleting _ _ => isFalse id
  | .get _ | .put _ _ | .enqueued _ _ | .rejected | .getAll | .sending _ | .awaiting _ _
  | .marking _ _ | .flushed _ => isTrue trivial

def Careful (sys : System) : Event → Prop
  | .run w answer => ∀ pc ∈ sys.threads[w]?, pc.Careful sys answer
  | .close w => ∀ pc ∈ sys.threads[w]?, pc.MayClose
  | .enqueueOfflineOperation _ | .flushOfflineOperations _ => True

instance (sys : System) : (e : Event) → Decidable (Careful sys e)
  | .run _ _ => inferInstanceAs (Decidable (∀ pc ∈ _, _))
  | .close _ => inferInstanceAs (Decidable (∀ pc ∈ _, _))
  | .enqueueOfflineOperation _ | .flushOfflineOperations _ => isTrue trivial

/-! ## The store -/

theorem mem_put : o ∈ store.put a ↔ o = a ∨ o ∈ store ∧ o.id ≠ a.id := by
  unfold Store.put
  simp only [List.mem_append, List.mem_cons, List.mem_filter, decide_eq_true_eq]
  constructor
  · rintro (⟨ho, hlt⟩ | rfl | ⟨ho, hlt⟩)
    · exact .inr ⟨ho, Nat.ne_of_lt hlt⟩
    · exact .inl rfl
    · exact .inr ⟨ho, Nat.ne_of_gt hlt⟩
  · rintro (rfl | ⟨ho, hne⟩)
    · exact .inr (.inl rfl)
    · obtain hlt | hgt := Nat.lt_or_gt_of_ne hne
      · exact .inl ⟨ho, hlt⟩
      · exact .inr (.inr ⟨ho, hgt⟩)

theorem mem_delete {id : Nat} : o ∈ store.delete id ↔ o ∈ store ∧ o.id ≠ id := by
  unfold Store.delete
  rw [List.mem_filter, decide_eq_true_eq]

theorem mem_markRetry {id : Nat} (ho : o ∈ store.markRetry id) :
    ∃ old ∈ store, o = old ∨ o = old.retried := by
  obtain ⟨old, hold, rfl⟩ := List.mem_map.mp ho
  refine ⟨old, hold, ?_⟩
  split
  · exact .inr rfl
  · exact .inl rfl

theorem exists_markRetry (ho : o ∈ store) (id : Nat) :
    ∃ new ∈ store.markRetry id, new = o ∨ new = o.retried := by
  refine ⟨_, List.mem_map_of_mem ho, ?_⟩
  split
  · exact .inr rfl
  · exact .inl rfl

def Store.Sorted (store : Store) : Prop := store.Pairwise (·.id < ·.id)

theorem Store.Sorted.eq (h : store.Sorted) (ha : a ∈ store) (hb : b ∈ store) (hid : a.id = b.id) :
    a = b := by
  have hids : (store.map (·.id)).Nodup := List.pairwise_map.mpr (h.imp Nat.ne_of_lt)
  exact List.inj_on_of_nodup_map hids ha hb hid

theorem Store.Sorted.put (h : store.Sorted) (a : OfflineOperation) : (store.put a).Sorted := by
  unfold Store.Sorted Store.put
  rw [List.pairwise_append, List.pairwise_cons]
  refine ⟨h.filter _, ⟨fun o ho => ?_, h.filter _⟩, fun o ho o' ho' => ?_⟩
  · exact of_decide_eq_true (List.mem_filter.mp ho).2
  · have hlt : o.id < a.id := of_decide_eq_true (List.mem_filter.mp ho).2
    obtain rfl | ho' := List.mem_cons.mp ho'
    · exact hlt
    · exact Nat.lt_trans hlt (of_decide_eq_true (List.mem_filter.mp ho').2)

theorem Store.Sorted.delete (h : store.Sorted) (id : Nat) : (store.delete id).Sorted := h.filter _

theorem id_markRetry (store : Store) (id : Nat) :
    (store.markRetry id).map (·.id) = store.map (·.id) := by
  unfold Store.markRetry
  rw [List.map_map]
  refine List.map_congr_left fun o _ => ?_
  dsimp only [Function.comp]
  split <;> rfl

theorem Store.Sorted.markRetry (h : store.Sorted) (id : Nat) : (store.markRetry id).Sorted := by
  have hids : (store.map (·.id)).Pairwise (· < ·) := List.pairwise_map.mpr h
  rw [← id_markRetry store id] at hids
  exact List.pairwise_map.mp hids

/-! ## The accepted operations -/

/-- Versions count the operations, and ids are drawn in order, each for one key. -/
structure Numbered (accepted : List OfflineOperation) : Prop where
  version : ∀ a ∈ accepted, accepted[a.version]? = some a
  first : ∀ a ∈ accepted, a.first < accepted.length
  key : ∀ a ∈ accepted, ∀ b ∈ accepted, a.id = b.id →
    a.resourceKey = b.resourceKey ∧ a.first = b.first
  order : ∀ a ∈ accepted, ∀ b ∈ accepted, a.id < b.id → a.first < b.first

/-- The record holds an operation that was accepted. -/
def Known (s : State) (o : OfflineOperation) : Prop := ∃ a ∈ s.accepted, o.Holds a

theorem OfflineOperation.Holds.eqs (h : o.Holds a) : o.id = a.id ∧ o.resourceKey = a.resourceKey ∧
    o.version = a.version ∧ o.first = a.first :=
  ⟨congrArg (·.id) h, congrArg (·.resourceKey) h, congrArg (·.version) h, congrArg (·.first) h⟩

theorem Numbered.version_lt {accepted : List OfflineOperation} (h : Numbered accepted)
    (ha : a ∈ accepted) : a.version < accepted.length :=
  (List.getElem?_eq_some_iff.mp (h.version a ha)).1

theorem Numbered.eq_of_version {accepted : List OfflineOperation} (h : Numbered accepted)
    (ha : a ∈ accepted) (hb : b ∈ accepted) (hversion : a.version = b.version) : a = b :=
  Option.some.inj ((h.version a ha).symm.trans (hversion ▸ h.version b hb))

section Known

variable (h : Numbered s.accepted) (ha : Known s a) (hb : Known s b)
include h ha hb

theorem Known.of_version (hversion : a.version = b.version) : a.id = b.id ∧ a.first = b.first := by
  obtain ⟨x, hx, hax⟩ := ha
  obtain ⟨y, hy, hby⟩ := hb
  obtain ⟨haid, -, haversion, hafirst⟩ := hax.eqs
  obtain ⟨hbid, -, hbversion, hbfirst⟩ := hby.eqs
  have hxy : x = y := h.eq_of_version hx hy (by omega)
  rw [haid, hbid, hafirst, hbfirst, hxy]
  exact ⟨rfl, rfl⟩

theorem Known.key (hid : a.id = b.id) : a.resourceKey = b.resourceKey ∧ a.first = b.first := by
  obtain ⟨x, hx, hax⟩ := ha
  obtain ⟨y, hy, hby⟩ := hb
  obtain ⟨haid, hakey, -, hafirst⟩ := hax.eqs
  obtain ⟨hbid, hbkey, -, hbfirst⟩ := hby.eqs
  rw [hakey, hbkey, hafirst, hbfirst]
  exact h.key x hx y hy (by omega)

theorem Known.order (hid : a.id < b.id) : a.first < b.first := by
  obtain ⟨x, hx, hax⟩ := ha
  obtain ⟨y, hy, hby⟩ := hb
  obtain ⟨haid, -, -, hafirst⟩ := hax.eqs
  obtain ⟨hbid, -, -, hbfirst⟩ := hby.eqs
  rw [hafirst, hbfirst]
  exact h.order x hx y hy (by omega)

end Known

theorem Known.mono (h : Known s o) (hsub : ∀ a ∈ s.accepted, a ∈ s'.accepted) : Known s' o := by
  obtain ⟨a, ha, hoa⟩ := h
  exact ⟨a, hsub a ha, hoa⟩

/-- The operation is new, with an id above the others, or replaces one of its key. -/
def Continues (accepted : List OfflineOperation) (a : OfflineOperation) : Prop :=
  (∀ b ∈ accepted, b.id < a.id) ∧ a.first = accepted.length ∨
    ∃ e ∈ accepted, e.id = a.id ∧ e.resourceKey = a.resourceKey ∧ e.first = a.first

theorem Numbered.append {accepted : List OfflineOperation} (h : Numbered accepted)
    (hversion : a.version = accepted.length) (hcontinues : Continues accepted a) :
    Numbered (accepted ++ [a]) := by
  have hfirst : a.first < accepted.length + 1 := by
    obtain ⟨-, hfirst⟩ | ⟨e, he, -, -, hfirst⟩ := hcontinues
    · omega
    · have := h.first e he
      omega
  have hkey : ∀ b ∈ accepted, b.id = a.id → b.resourceKey = a.resourceKey ∧ b.first = a.first := by
    intro b hb hid
    obtain ⟨habove, -⟩ | ⟨e, he, heid, hekey, hefirst⟩ := hcontinues
    · exact absurd (habove b hb) (by omega)
    · have hbe := h.key b hb e he (by omega)
      exact ⟨hbe.1.trans hekey, hbe.2.trans hefirst⟩
  have horder : ∀ b ∈ accepted, (b.id < a.id → b.first < a.first) ∧
      (a.id < b.id → a.first < b.first) := by
    intro b hb
    obtain ⟨habove, hlast⟩ | ⟨e, he, heid, -, hefirst⟩ := hcontinues
    · have hbelow := habove b hb
      have hbfirst := h.first b hb
      omega
    · have hup := h.order b hb e he
      have hdown := h.order e he b hb
      omega
  constructor
  case version =>
    refine forall_mem_append (fun b hb => ?_) ?_
    · exact (List.getElem?_append_left (h.version_lt hb)).trans (h.version b hb)
    · rw [hversion, List.getElem?_append_right (Nat.le_refl _), Nat.sub_self]
      rfl
  case first =>
    rw [List.length_append]
    exact forall_mem_append (fun b hb => Nat.lt_succ_of_lt (h.first b hb)) hfirst
  case key =>
    refine forall_mem_append (fun b hb => ?_) ?_
    · exact forall_mem_append (h.key b hb) (hkey b hb)
    · exact forall_mem_append (fun b hb hid => (hkey b hb hid.symm).imp .symm .symm)
        fun _ => ⟨rfl, rfl⟩
  case order =>
    refine forall_mem_append (fun b hb => ?_) ?_
    · exact forall_mem_append (h.order b hb) (horder b hb).1
    · exact forall_mem_append (fun b hb => (horder b hb).2) fun hlt => absurd hlt (Nat.lt_irrefl _)

/-! ## The invariant -/

/-- What is left of a snapshot was never sent with an OK response, and comes in order. -/
structure Flush.Sound (s : State) (flush : Flush) : Prop where
  known : ∀ o ∈ flush.rest, Known s o
  unsent : ∀ o ∈ flush.rest, .ok o.version ∉ s.log
  order : ((flush.sent ++ flush.rest).map (·.first)).Pairwise (· < ·)

def Pc.Sound (s : State) : Pc → Prop
  | .put request existing => ∀ e ∈ existing, Known s e ∧ e.resourceKey = request.resourceKey
  | .sending flush | .marking _ flush => flush.Sound s
  | .awaiting operation flush => flush.Sound s ∧ Known s operation ∧ operation ∈ flush.sent
  | .deleting operation flush =>
    flush.Sound s ∧ Known s operation ∧ .ok operation.version ∈ s.log
  | .flushed flush => (flush.sent.map (·.first)).Pairwise (· < ·)
  | .get _ | .enqueued _ _ | .rejected | .getAll => True

/-- The flush goes on to delete this version. -/
def Pc.Deletes (version : Nat) : Pc → Prop
  | .deleting operation _ => operation.version = version
  | _ => False

structure Books (s : State) : Prop where
  sorted : s.store.Sorted
  numbered : Numbered s.accepted
  known : ∀ o ∈ s.store, Known s o
  one : ∀ a ∈ s.store, ∀ b ∈ s.store, a.resourceKey = b.resourceKey → a.id = b.id
  kept : ∀ a, Latest s a → (∃ o ∈ s.store, o.Holds a) ∨ .ok a.version ∈ s.log
  once : s.log.Pairwise fun x y => ∀ version, x = .ok version → y ≠ .sent version
  answered : ∀ version, .ok version ∈ s.log → version < s.accepted.length

structure Inv (sys : System) : Prop where
  alone : AtMostOneInside Pc.Inside sys.threads
  books : Books sys.state
  sound : ∀ pc ∈ sys.threads, pc.Sound sys.state
  gone : ∀ o ∈ sys.state.store, .ok o.version ∈ sys.state.log →
    ∃ (v : Nat) (pc : Pc), sys.threads[v]? = some pc ∧ pc.Deletes o.version

theorem Pc.Deletes.inside {version : Nat} (h : pc.Deletes version) : pc.Inside := by
  cases pc with
  | deleting => trivial
  | _ => exact absurd h id

/-! ## Steps of the store -/

theorem Books.accept (h : Books s) (hversion : operation.version = s.accepted.length)
    (hcontinues : Continues s.accepted operation)
    (hone : ∀ o ∈ s.store, o.resourceKey = operation.resourceKey → o.id = operation.id) :
    Books (s.accept operation) := by
  have hsub : ∀ a ∈ s.accepted, a ∈ (s.accept operation).accepted :=
    fun a ha => List.mem_append_left _ ha
  have hnumbered : Numbered (s.accept operation).accepted := h.numbered.append hversion hcontinues
  have hself : operation ∈ (s.accept operation).accepted :=
    List.mem_append_right _ (List.mem_singleton_self _)
  have hoperation : Known (s.accept operation) operation := ⟨operation, hself, rfl⟩
  have hknown : ∀ o ∈ s.store, Known (s.accept operation) o := fun o ho => (h.known o ho).mono hsub
  constructor
  case sorted => exact h.sorted.put operation
  case numbered => exact hnumbered
  case known =>
    intro o ho
    obtain rfl | ⟨ho, -⟩ := mem_put.mp ho
    · exact hoperation
    · exact hknown o ho
  case one =>
    intro a ha b hb hkey
    obtain rfl | ⟨hastored, hane⟩ := mem_put.mp ha
    · obtain rfl | ⟨hbstored, hbne⟩ := mem_put.mp hb
      · rfl
      · exact absurd (hone b hbstored hkey.symm) hbne
    · obtain rfl | ⟨hbstored, -⟩ := mem_put.mp hb
      · exact absurd (hone a hastored hkey) hane
      · exact h.one a hastored b hbstored hkey
  case kept =>
    rintro a ⟨ha, hlast⟩
    obtain ha | rfl := List.mem_append.mp ha |>.imp_right List.mem_singleton.mp
    · have hkey : a.resourceKey ≠ operation.resourceKey := by
        intro hkey
        have hle := hlast operation hself hkey.symm
        have hlt := h.numbered.version_lt ha
        omega
      obtain ⟨o, ho, hoa⟩ | hok := h.kept a ⟨ha, fun b hb => hlast b (hsub b hb)⟩
      · refine .inl ⟨o, mem_put.mpr (.inr ⟨ho, fun hid => hkey ?_⟩), hoa⟩
        exact hoa.eqs.2.1.symm.trans (Known.key hnumbered (hknown o ho) hoperation hid).1
      · exact .inr hok
    · exact .inl ⟨a, mem_put.mpr (.inl rfl), rfl⟩
  case once => exact h.once
  case answered =>
    intro version hok
    have hlt := h.answered version hok
    show version < (s.accepted ++ [operation]).length
    rw [List.length_append]
    exact Nat.lt_add_right 1 hlt

/-- The version that was sent is deleted. -/
theorem Books.delete (h : Books s) (hok : .ok operation.version ∈ s.log)
    (hsame : ∀ o ∈ s.store, o.id = operation.id → o.version = operation.version) :
    Books { s with store := s.store.delete operation.id } := by
  constructor
  case sorted => exact h.sorted.delete operation.id
  case numbered => exact h.numbered
  case known => exact fun o ho => h.known o (mem_delete.mp ho).1
  case one => exact fun a ha b hb => h.one a (mem_delete.mp ha).1 b (mem_delete.mp hb).1
  case kept =>
    intro a hlatest
    obtain ⟨o, ho, hoa⟩ | hsent := h.kept a hlatest
    · by_cases hid : o.id = operation.id
      · rw [← hsame o ho hid, hoa.eqs.2.2.1] at hok
        exact .inr hok
      · exact .inl ⟨o, mem_delete.mpr ⟨ho, hid⟩, hoa⟩
    · exact .inr hsent
  case once => exact h.once
  case answered => exact h.answered

theorem Books.markRetry (h : Books s) (id : Nat) :
    Books { s with store := s.store.markRetry id } := by
  constructor
  case sorted => exact h.sorted.markRetry id
  case numbered => exact h.numbered
  case known =>
    intro o ho
    obtain ⟨old, hold, rfl | rfl⟩ := mem_markRetry ho
    · exact h.known o hold
    · exact h.known old hold
  case one =>
    intro a ha b hb
    obtain ⟨olda, holda, ha⟩ := mem_markRetry ha
    obtain ⟨oldb, holdb, hb⟩ := mem_markRetry hb
    have hold := h.one olda holda oldb holdb
    obtain rfl | rfl := ha <;> obtain rfl | rfl := hb <;> exact hold
  case kept =>
    intro a hlatest
    obtain ⟨o, ho, hoa⟩ | hsent := h.kept a hlatest
    · obtain ⟨new, hnew, rfl | rfl⟩ := exists_markRetry ho id
      · exact .inl ⟨new, hnew, hoa⟩
      · exact .inl ⟨_, hnew, hoa⟩
    · exact .inr hsent
  case once => exact h.once
  case answered => exact h.answered

/-- A request or its response is logged; no OK response came before a request. -/
theorem Books.log (h : Books s) {entry : Entry}
    (hsent : ∀ version, entry = .sent version → .ok version ∉ s.log)
    (hok : ∀ version, entry = .ok version → version < s.accepted.length) :
    Books { s with log := s.log ++ [entry] } := by
  constructor
  case sorted => exact h.sorted
  case numbered => exact h.numbered
  case known => exact h.known
  case one => exact h.one
  case kept =>
    intro a hlatest
    obtain hstored | hsent := h.kept a hlatest
    · exact .inl hstored
    · exact .inr (List.mem_append_left _ hsent)
  case once =>
    refine List.pairwise_append.mpr ⟨h.once, List.pairwise_singleton _ _, ?_⟩
    rintro x hx y hy version rfl rfl
    exact hsent version (List.mem_singleton.mp hy).symm hx
  case answered =>
    intro version hmem
    obtain hold | hnew := List.mem_append.mp hmem
    · exact h.answered version hold
    · exact hok version (List.mem_singleton.mp hnew).symm

/-! ## Steps of the threads -/

theorem Flush.Sound.mono (h : flush.Sound s) (hsub : ∀ a ∈ s.accepted, a ∈ s'.accepted)
    (hlog : ∀ version, .ok version ∈ s'.log → .ok version ∈ s.log) : flush.Sound s' where
  known := fun o ho => (h.known o ho).mono hsub
  unsent := fun o ho hok => h.unsent o ho (hlog o.version hok)
  order := h.order

theorem Flush.Sound.sent (h : flush.Sound s) : (flush.sent.map (·.first)).Pairwise (· < ·) := by
  have horder := h.order
  rw [List.map_append, List.pairwise_append] at horder
  exact horder.1

theorem sound_mono (h : pc.Sound s) (hsub : ∀ a ∈ s.accepted, a ∈ s'.accepted)
    (hlog : ∀ version, .ok version ∈ s'.log ↔ .ok version ∈ s.log) : pc.Sound s' := by
  have hold : ∀ version, .ok version ∈ s'.log → .ok version ∈ s.log :=
    fun version => (hlog version).mp
  cases pc with
  | put request existing => exact fun e he => ⟨(h e he).1.mono hsub, (h e he).2⟩
  | sending flush => exact Flush.Sound.mono h hsub hold
  | awaiting operation flush =>
    obtain ⟨hflush, hknown, hsent⟩ := h
    exact ⟨hflush.mono hsub hold, hknown.mono hsub, hsent⟩
  | deleting operation flush =>
    obtain ⟨hflush, hknown, hok⟩ := h
    exact ⟨hflush.mono hsub hold, hknown.mono hsub, (hlog operation.version).mpr hok⟩
  | marking operation flush => exact Flush.Sound.mono h hsub hold
  | get | enqueued | rejected | getAll | flushed => exact h

theorem sound_of_not_inside (h : pc.Sound s) (hout : ¬ pc.Inside)
    (hsub : ∀ a ∈ s.accepted, a ∈ s'.accepted) : pc.Sound s' := by
  cases pc with
  | put request existing => exact fun e he => ⟨(h e he).1.mono hsub, (h e he).2⟩
  | sending | awaiting | deleting | marking => exact absurd trivial hout
  | get | enqueued | rejected | getAll | flushed => exact h

/-- A thread that deletes nothing takes a step; the records of the store stay, or change with what
    nobody has sent. -/
theorem Inv.replace (h : Inv sys) (hw : sys.threads[w]? = some pc)
    (halone : pc'.Inside → pc.Inside ∨ ∀ pc ∈ sys.threads, ¬ pc.Inside) (hbooks : Books s')
    (hothers : ∀ ⦃v pc⦄, sys.threads[v]? = some pc → v ≠ w → pc.Sound s') (hsound : pc'.Sound s')
    (hgone : ∀ o ∈ s'.store, .ok o.version ∈ s'.log → pc'.Deletes o.version ∨
      ¬ pc.Deletes o.version ∧ ∃ old ∈ sys.state.store, old.version = o.version ∧
        .ok old.version ∈ sys.state.log) :
    Inv ⟨s', sys.threads.set w pc'⟩ where
  alone := by
    refine h.alone.set hw fun hinside => ?_
    obtain hinside | hfree := halone hinside
    · exact .inl hinside
    · exact .inr fun v pc hv _ => hfree pc (List.mem_of_getElem? hv)
  books := hbooks
  sound := forall_mem_set hothers hsound
  gone := by
    intro o ho hok
    obtain hdeletes | ⟨hnot, old, hold, hversion, hold'⟩ := hgone o ho hok
    · exact ⟨w, pc', List.getElem?_set_self (List.getElem?_eq_some_iff.mp hw).1, hdeletes⟩
    · obtain ⟨v, pc'', hv, hdeletes⟩ := h.gone old hold hold'
      rw [hversion] at hdeletes
      have hne : w ≠ v := by
        rintro rfl
        obtain rfl : pc = pc'' := Option.some.inj (hw.symm.trans hv)
        exact hnot hdeletes
      exact ⟨v, pc'', (List.getElem?_set_ne hne).trans hv, hdeletes⟩

/-- A thread that deletes nothing takes a step of its own. -/
theorem Inv.quiet (h : Inv sys) (hw : sys.threads[w]? = some pc)
    (hnot : ∀ version, ¬ pc.Deletes version)
    (halone : pc'.Inside → pc.Inside ∨ ∀ pc ∈ sys.threads, ¬ pc.Inside)
    (hsound : pc'.Sound sys.state) : Inv { sys with threads := sys.threads.set w pc' } :=
  h.replace hw halone h.books (fun _ _ hv _ => h.sound _ (List.mem_of_getElem? hv)) hsound
    fun o ho hok => .inr ⟨hnot o.version, o, ho, rfl, hok⟩

theorem Inv.put (h : Inv sys) (hw : sys.threads[w]? = some (.put request existing))
    (hfails : answer.fails = false) (hcareful : (Pc.put request existing).Careful sys answer) :
    Inv ⟨sys.state.accept (queued sys.state request existing answer), sys.threads.set w
      (.enqueued (queued sys.state request existing answer) existing.isSome)⟩ := by
  have hmine := h.sound _ (List.mem_of_getElem? hw)
  obtain ⟨habove, hkey⟩ := hcareful hfails
  have hsub : ∀ a ∈ sys.state.accepted,
      a ∈ (sys.state.accept (queued sys.state request existing answer)).accepted :=
    fun a ha => List.mem_append_left _ ha
  have hcontinues : Continues sys.state.accepted (queued sys.state request existing answer) := by
    cases existing with
    | none => exact .inl ⟨habove rfl, rfl⟩
    | some e =>
      obtain ⟨⟨a, ha, hea⟩, hrequest⟩ := hmine e rfl
      obtain ⟨hid, hkey, -, hfirst⟩ := hea.eqs
      exact .inr ⟨a, ha, hid.symm, hkey.symm.trans hrequest, hfirst.symm⟩
  have hone : ∀ o ∈ sys.state.store, o.resourceKey = request.resourceKey →
      o.id = (queued sys.state request existing answer).id := by
    intro o ho hsame
    have hfound := hkey o ho hsame
    show o.id = (existing.map (·.id)).getD answer.id
    rw [hfound]
    rfl
  refine h.replace hw (fun hinside => absurd hinside id) (h.books.accept rfl hcontinues hone)
    (fun v pc hv _ => sound_mono (h.sound pc (List.mem_of_getElem? hv)) hsub fun _ => Iff.rfl)
    trivial fun o ho hok => .inr ⟨id, ?_⟩
  obtain rfl | ⟨ho, -⟩ := mem_put.mp ho
  · exact absurd (h.books.answered _ hok) (Nat.lt_irrefl _)
  · exact ⟨o, ho, rfl, hok⟩

/-- A flush reads its snapshot, while no other one is running. -/
theorem Inv.getAll (h : Inv sys) (hfree : ∀ pc ∈ sys.threads, ¬ pc.Inside) :
    (Pc.sending ⟨[], sys.state.store⟩).Sound sys.state := by
  refine ⟨h.books.known, fun o ho hok => ?_, ?_⟩
  · obtain ⟨v, pc, hv, hdeletes⟩ := h.gone o ho hok
    exact hfree pc (List.mem_of_getElem? hv) hdeletes.inside
  · rw [List.nil_append, List.pairwise_map]
    exact h.books.sorted.imp_of_mem fun ha hb hlt =>
      Known.order h.books.numbered (h.books.known _ ha) (h.books.known _ hb) hlt

/-- The next operation of a snapshot is skipped or sent. -/
theorem Inv.sending (h : Inv sys) (hw : sys.threads[w]? = some (.sending flush)) :
    Inv ⟨(sendNext sys.state flush).1, sys.threads.set w (sendNext sys.state flush).2⟩ := by
  have hmine : flush.Sound sys.state := h.sound _ (List.mem_of_getElem? hw)
  obtain ⟨sent, rest⟩ := flush
  unfold sendNext
  cases rest with
  | nil => exact h.quiet hw (fun _ => id) (fun hinside => absurd hinside id) hmine.sent
  | cons operation rest =>
    have hrest : ∀ o ∈ rest, o ∈ operation :: rest := fun o ho => List.mem_cons_of_mem _ ho
    dsimp only
    split
    · refine h.quiet hw (fun _ => id) (fun _ => .inl trivial) ?_
      refine ⟨fun o ho => hmine.known o (hrest o ho), fun o ho => hmine.unsent o (hrest o ho), ?_⟩
      refine hmine.order.sublist (List.Sublist.map _ ?_)
      exact (List.sublist_cons_self operation rest).append_left sent
    · have hok : ∀ version, .ok version ∈ sys.state.log ++ [.sent operation.version] ↔
          .ok version ∈ sys.state.log := by simp
      have hunsent : .ok operation.version ∉ sys.state.log :=
        hmine.unsent operation (List.mem_cons_self ..)
      have hbooks : Books { sys.state with
          log := sys.state.log ++ [.sent operation.version] } := by
        refine h.books.log (fun version heq => ?_) nofun
        cases heq
        exact hunsent
      refine h.replace hw (fun _ => .inl trivial) hbooks (fun v pc hv _ =>
        sound_mono (h.sound pc (List.mem_of_getElem? hv)) (fun _ ha => ha) hok) ?_
        fun o ho hlog => .inr ⟨id, o, ho, rfl, (hok o.version).mp hlog⟩
      refine ⟨⟨fun o ho => hmine.known o (hrest o ho), fun o ho hlog => ?_, ?_⟩,
        hmine.known operation (List.mem_cons_self ..), ?_⟩
      · exact hmine.unsent o (hrest o ho) ((hok o.version).mp hlog)
      · have horder := hmine.order
        rwa [List.append_cons] at horder
      · exact List.mem_append_right _ (List.mem_singleton_self _)

/-- An OK response, to a version that is not in the rest of the snapshot. -/
theorem Inv.answered (h : Inv sys) (hw : sys.threads[w]? = some (.awaiting operation flush)) :
    Inv ⟨{ sys.state with log := sys.state.log ++ [.ok operation.version] },
      sys.threads.set w (.deleting operation flush)⟩ := by
  obtain ⟨hflush, hknown, hsent⟩ := h.sound _ (List.mem_of_getElem? hw)
  have hok : ∀ {version : Nat}, .ok version ∈ sys.state.log ++ [.ok operation.version] →
      .ok version ∈ sys.state.log ∨ version = operation.version := by simp
  have hlt : operation.version < sys.state.accepted.length := by
    obtain ⟨a, ha, hoa⟩ := hknown
    rw [hoa.eqs.2.2.1]
    exact h.books.numbered.version_lt ha
  have hbooks : Books { sys.state with log := sys.state.log ++ [.ok operation.version] } := by
    refine h.books.log nofun fun version heq => ?_
    cases heq
    exact hlt
  have hrest : ∀ o ∈ flush.rest, o.version ≠ operation.version := by
    intro o ho hversion
    have horder := hflush.order
    rw [List.map_append, List.pairwise_append] at horder
    have hfirst := horder.2.2 _ (List.mem_map_of_mem hsent) _ (List.mem_map_of_mem ho)
    have hsame := Known.of_version h.books.numbered (hflush.known o ho) hknown hversion
    omega
  refine h.replace hw (fun _ => .inl trivial) hbooks (fun v pc hv hne => ?_) ?_ fun o ho hlog => ?_
  · exact sound_of_not_inside (h.sound pc (List.mem_of_getElem? hv))
      (h.alone.others hw trivial hv hne) fun _ ha => ha
  · refine ⟨⟨hflush.known, fun o ho hlog => ?_, hflush.order⟩, hknown,
      List.mem_append_right _ (List.mem_singleton_self _)⟩
    obtain hold | hversion := hok hlog
    · exact hflush.unsent o ho hold
    · exact hrest o ho hversion
  · obtain hold | hversion := hok hlog
    · exact .inr ⟨id, o, ho, rfl, hold⟩
    · exact .inl hversion.symm

theorem Inv.delete (h : Inv sys) (hw : sys.threads[w]? = some (.deleting operation flush))
    (hsame : ∀ o ∈ sys.state.store, o.id = operation.id → o.version = operation.version) :
    Inv ⟨{ sys.state with store := sys.state.store.delete operation.id },
      sys.threads.set w (.sending flush)⟩ := by
  obtain ⟨hflush, hknown, hok⟩ := h.sound _ (List.mem_of_getElem? hw)
  refine h.replace hw (fun _ => .inl trivial) (h.books.delete hok hsame)
    (fun v pc hv _ => sound_mono (h.sound pc (List.mem_of_getElem? hv)) (fun _ ha => ha)
      fun _ => Iff.rfl) (hflush.mono (fun _ ha => ha) fun _ hlog => hlog) fun o ho hlog => .inr ?_
  obtain ⟨ho, hne⟩ := mem_delete.mp ho
  refine ⟨fun hversion => hne ?_, o, ho, rfl, hlog⟩
  exact (Known.of_version h.books.numbered (h.books.known o ho) hknown hversion.symm).1

theorem Inv.mark (h : Inv sys) (hw : sys.threads[w]? = some (.marking operation flush)) :
    Inv ⟨{ sys.state with store := sys.state.store.markRetry operation.id },
      sys.threads.set w (.sending flush)⟩ := by
  have hflush : flush.Sound sys.state := h.sound _ (List.mem_of_getElem? hw)
  refine h.replace hw (fun _ => .inl trivial) (h.books.markRetry operation.id)
    (fun v pc hv _ => sound_mono (h.sound pc (List.mem_of_getElem? hv)) (fun _ ha => ha)
      fun _ => Iff.rfl) (hflush.mono (fun _ ha => ha) fun _ hlog => hlog) fun o ho hlog => .inr ?_
  obtain ⟨old, hold, rfl | rfl⟩ := mem_markRetry ho
  · exact ⟨id, o, hold, rfl, hlog⟩
  · exact ⟨id, old, hold, rfl, hlog⟩

/-! ## Runs -/

theorem Inv.get (h : Inv sys) (hw : sys.threads[w]? = some (.get request)) (confirmed : Bool) :
    Inv { sys with threads := sys.threads.set w (getThen sys.state request confirmed) } := by
  unfold getThen
  split
  · exact h.quiet hw (fun _ => id) (fun hinside => absurd hinside id) nofun
  · next existing hfound =>
    split
    · refine h.quiet hw (fun _ => id) (fun hinside => absurd hinside id) fun e he => ?_
      obtain rfl := Option.some.inj he
      refine ⟨h.books.known existing (List.mem_of_find?_eq_some hfound), ?_⟩
      exact of_decide_eq_true (List.find?_some hfound :)
    · exact h.quiet hw (fun _ => id) (fun hinside => absurd hinside id) trivial

theorem Inv.run (h : Inv sys) (hw : sys.threads[w]? = some pc)
    (hcareful : pc.Careful sys answer) (hstep : step sys.state answer pc = some (s', pc')) :
    Inv ⟨s', sys.threads.set w pc'⟩ := by
  have hmine := h.sound pc (List.mem_of_getElem? hw)
  cases pc with
  | get request =>
    simp only [step] at hstep
    split at hstep <;> obtain ⟨rfl, rfl⟩ := Prod.mk.inj (Option.some.inj hstep)
    · exact h.quiet hw (fun _ => id) (fun hinside => absurd hinside id) trivial
    · exact h.get hw answer.confirmed
  | put request existing =>
    simp only [step] at hstep
    split at hstep <;> obtain ⟨rfl, rfl⟩ := Prod.mk.inj (Option.some.inj hstep)
    · exact h.quiet hw (fun _ => id) (fun hinside => absurd hinside id) trivial
    · next hworks => exact h.put hw (Bool.eq_false_iff.mpr hworks) hcareful
  | getAll =>
    obtain ⟨rfl, rfl⟩ := Prod.mk.inj (Option.some.inj hstep)
    split
    · exact h.quiet hw (fun _ => id) (fun hinside => absurd hinside id) trivial
    · exact h.quiet hw (fun _ => id) (fun _ => .inr hcareful) (h.getAll hcareful)
  | sending flush =>
    obtain ⟨rfl, rfl⟩ := Prod.mk.inj (Option.some.inj hstep)
    exact h.sending hw
  | awaiting operation flush =>
    simp only [step] at hstep
    split at hstep <;> obtain ⟨rfl, rfl⟩ := Prod.mk.inj (Option.some.inj hstep)
    · exact h.quiet hw (fun _ => id) (fun _ => .inl trivial) hmine.1
    · exact h.answered hw
  | deleting operation flush =>
    obtain ⟨hworks, hsame⟩ := hcareful
    simp only [step, hworks] at hstep
    obtain ⟨rfl, rfl⟩ := Prod.mk.inj (Option.some.inj hstep)
    exact h.delete hw hsame
  | marking operation flush =>
    simp only [step] at hstep
    split at hstep <;> obtain ⟨rfl, rfl⟩ := Prod.mk.inj (Option.some.inj hstep)
    · exact h.quiet hw (fun _ => id) (fun hinside => absurd hinside id) (Flush.Sound.sent hmine)
    · exact h.mark hw
  | enqueued | rejected | flushed => cases hstep

theorem Inv.close (h : Inv sys) (hw : sys.threads[w]? = some pc) (hmay : pc.MayClose) :
    Inv { sys with threads := sys.threads.set w pc.closed } := by
  have hmine := h.sound pc (List.mem_of_getElem? hw)
  cases pc with
  | deleting => exact absurd hmay id
  | sending flush =>
    exact h.quiet hw (fun _ => id) (fun hinside => absurd hinside id) (Flush.Sound.sent hmine)
  | awaiting operation flush =>
    exact h.quiet hw (fun _ => id) (fun hinside => absurd hinside id) (Flush.Sound.sent hmine.1)
  | marking operation flush =>
    exact h.quiet hw (fun _ => id) (fun hinside => absurd hinside id) (Flush.Sound.sent hmine)
  | get | put | getAll =>
    exact h.quiet hw (fun _ => id) (fun hinside => absurd hinside id) trivial
  | enqueued | rejected | flushed =>
    exact h.quiet hw (fun _ => id) (fun hinside => absurd hinside id) hmine

theorem Inv.append (h : Inv sys) (hout : ¬ pc.Inside) (hsound : pc.Sound sys.state) :
    Inv { sys with threads := sys.threads ++ [pc] } := by
  refine ⟨h.alone.append hout, h.books, forall_mem_append h.sound hsound, fun o ho hok => ?_⟩
  obtain ⟨v, pc', hv, hdeletes⟩ := h.gone o ho hok
  have hlt := (List.getElem?_eq_some_iff.mp hv).1
  exact ⟨v, pc', (List.getElem?_append_left hlt).trans hv, hdeletes⟩

theorem Inv.next {e : Event} (h : Inv sys) (hcareful : Careful sys e)
    (hnext : next sys e = some sys') : Inv sys' := by
  cases e with
  | enqueueOfflineOperation request =>
    cases hnext
    exact h.append id trivial
  | flushOfflineOperations onLine =>
    cases hnext
    cases onLine with
    | true => exact h.append id trivial
    | false => exact h.append id List.Pairwise.nil
  | run w answer =>
    simp only [OfflineQueue.next, Option.bind_eq_bind, Option.bind_eq_some_iff,
      Option.ite_none_left_eq_some] at hnext
    obtain ⟨pc, hw, -, ⟨s', pc'⟩, hstep, hsys⟩ := hnext
    obtain rfl := Option.some.inj hsys
    exact h.run hw (hcareful pc hw) hstep
  | close w =>
    simp only [OfflineQueue.next, Option.bind_eq_bind, Option.bind_eq_some_iff] at hnext
    obtain ⟨pc, hw, hsys⟩ := hnext
    obtain rfl := Option.some.inj hsys
    exact h.close hw (hcareful pc hw)

theorem inv_start : Inv start where
  alone := atMostOneInside_nil
  books := ⟨.nil, ⟨nofun, nofun, nofun, nofun⟩, nofun, nofun, fun _ hlatest => absurd hlatest.1 nofun,
    .nil, nofun⟩
  sound := nofun
  gone := nofun

theorem sent_of_sound (h : pc.Sound s) : (pc.sent.map (·.first)).Pairwise (· < ·) := by
  cases pc with
  | sending flush => exact Flush.Sound.sent h
  | awaiting operation flush => exact Flush.Sound.sent h.1
  | deleting operation flush => exact Flush.Sound.sent h.1
  | marking operation flush => exact Flush.Sound.sent h
  | flushed flush => exact h
  | get | put | enqueued | rejected | getAll => exact .nil

/-- In a run of careful steps no edit is lost, and none is sent twice. -/
theorem sent_once (xs : List (Step System Event)) (sys : System) (hrun : QueueRun xs sys)
    (hcareful : ∀ x ∈ xs, Careful x.pre x.act) : SentOnce sys := by
  have h := hrun.invariant Inv inv_start fun x hx hnext hpre => hpre.next (hcareful x hx) hnext
  refine ⟨fun a ha b hb hkey => ?_, h.books.kept, h.books.once,
    fun pc hpc => sent_of_sound (h.sound pc hpc)⟩
  exact h.books.sorted.eq ha hb (h.books.one a ha b hb hkey)

/-- A milestone of a shipment that is recorded offline. -/
def milestone (deal body : String) : Request :=
  ⟨deal, .shipmentMilestone, .post, "/shipments/milestones", body⟩

/-- A step that goes well. -/
def well (id : Nat) : Answer := ⟨false, true, id, 0⟩

/-- The call `w` queues an operation. -/
def queues (w id : Nat) (request : Request) : List Event :=
  [.enqueueOfflineOperation request, .run w (well id), .run w (well id)]

/-- Two deals, an edit of the first, and a flush: the request of the second one fails. -/
def inTurn : List Event :=
  queues 0 10 (milestone "deal-1" "farm") ++ queues 1 11 (milestone "deal-2" "farm") ++
    queues 2 12 (milestone "deal-1" "farm, with evidence") ++ [.flushOfflineOperations true] ++
    List.replicate 5 (.run 3 (well 12)) ++ [.run 3 ⟨true, true, 12, 0⟩] ++
    List.replicate 2 (.run 3 (well 12))

/-- The edit is put while its operation is under way. -/
def underWay : List Event :=
  queues 0 10 (milestone "deal-1" "farm") ++ [.flushOfflineOperations true, .run 1 (well 11),
    .run 1 (well 11)] ++ queues 2 11 (milestone "deal-1" "farm, with evidence") ++
    [.run 1 (well 11), .run 1 (well 11)]

theorem sent_once_inTurn : SentOnce (replay next start inTurn).2 :=
  sent_once _ _ (run_replay next start inTurn) (by decide +kernel)

/-- The edit was neither sent nor is it queued. -/
theorem edit_lost : ¬ ∀ (xs : List (Step System Event)) (sys : System), QueueRun xs sys →
    SentOnce sys := by
  intro h
  have hkept := (h _ _ (run_replay next start underWay)).kept
    ⟨milestone "deal-1" "farm, with evidence", 10, 0, 0, 0, 1, 0⟩ ⟨by decide +kernel, by decide +kernel⟩
  have hempty : (replay next start underWay).2.state.store = [] := by decide +kernel
  rw [hempty] at hkept
  obtain ⟨o, ho, -⟩ | hsent := hkept
  · cases ho
  · exact absurd hsent (by decide +kernel)

end AgriFi.OfflineQueue
