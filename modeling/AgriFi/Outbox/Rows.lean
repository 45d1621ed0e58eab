import AgriFi.Outbox.Processor
import Mathlib.Data.List.Nodup

/-
  What the outbox is to guarantee of its rows, and what each write leaves of it: the marking, the
  counting of a failure, an emission, a move and a new row.
-/

namespace AgriFi.Outbox

variable {Payload : Type}

/-! ## What is claimed -/

namespace State

def ids (s : State Payload) : List Nat := s.outbox.map OutboxEntity.id

def deadIds (s : State Payload) : List Nat := s.deadLetters.map DeadLetter.originalEventId

end State

structure Delivers (s : State Payload) : Prop where
  oneTable : ∀ id < s.written, (id ∈ s.ids ∧ id ∉ s.deadIds) ∨ (id ∉ s.ids ∧ id ∈ s.deadIds)
  emittedStays : ∀ e ∈ s.emitted, e.2 ∉ s.deadIds
  exclusive : ∀ e ∈ s.emitted, ∀ e' ∈ s.emitted, e.2 = e'.2 → e.1 ≠ e'.1 →
    e ∈ s.failed ∨ e' ∈ s.failed

/-! ## The tables -/

namespace State

/-- A row that a claim may return, but for the locks. -/
def IsPending (s : State Payload) (id : Nat) : Prop :=
  ∃ row ∈ s.outbox, row.id = id ∧ row.isPending = true

def Unsent (s : State Payload) (id : Nat) : Prop := ∀ e ∈ s.emitted, e.2 ≠ id

/-- Whoever has emitted the row has failed at it. -/
def FailedBefore (s : State Payload) (id : Nat) : Prop := ∀ e ∈ s.emitted, e.2 = id → e ∈ s.failed

/-- No claim returns the row again, and nobody has emitted it. -/
def GivenUp (s : State Payload) (id : Nat) : Prop :=
  id < s.written ∧ (∀ row ∈ s.outbox, row.id = id → row.isPending = false) ∧ s.Unsent id

def Done (s : State Payload) (id : Nat) : Prop :=
  ∀ row ∈ s.outbox, row.id = id → row.processed = true

end State

structure Tables (s : State Payload) : Prop where
  nodup : s.ids.Nodup
  below : ∀ id ∈ s.ids, id < s.written
  deadBelow : ∀ id ∈ s.deadIds, id < s.written
  covers : ∀ id < s.written, id ∈ s.ids ↔ id ∉ s.deadIds

/-- What holds of the tables and of what was emitted. -/
structure Books (s : State Payload) : Prop where
  tables : Tables s
  emittedBelow : ∀ e ∈ s.emitted, e.2 < s.written
  dead : ∀ id ∈ s.deadIds, s.Unsent id
  exhausted : ∀ row ∈ s.outbox, row.isExhausted = true → s.Unsent row.id
  exclusive : ∀ e ∈ s.emitted, ∀ e' ∈ s.emitted, e.2 = e'.2 → e.1 ≠ e'.1 →
    e ∈ s.failed ∨ e' ∈ s.failed

/-- What a step that touches some rows leaves of the others. -/
structure Frame (s s' : State Payload) (touched : List Nat) : Prop where
  pending : ∀ id ∉ touched, s.IsPending id → s.FailedBefore id →
    s'.IsPending id ∧ s'.FailedBefore id
  givenUp : ∀ id, s.GivenUp id → s'.GivenUp id
  failed : ∀ e ∈ s.failed, e ∈ s'.failed
  done : ∀ id < s.written, s.Done id → s'.Done id

theorem Frame.refl (s : State Payload) (touched : List Nat) : Frame s s touched where
  pending _ _ hp hf := ⟨hp, hf⟩
  givenUp _ h := h
  failed _ h := h
  done _ _ h := h

section Rows

variable {s s' : State Payload} {id : Nat} {row row' : OutboxEntity Payload}
  {f : OutboxEntity Payload → OutboxEntity Payload}

theorem Tables.eq_of_id (h : Tables s) (hrow : row ∈ s.outbox) (hrow' : row' ∈ s.outbox)
    (hid : row.id = row'.id) : row = row' :=
  List.inj_on_of_nodup_map h.nodup hrow hrow' hid

theorem Tables.delivers_oneTable (h : Tables s) : ∀ id < s.written,
    (id ∈ s.ids ∧ id ∉ s.deadIds) ∨ (id ∉ s.ids ∧ id ∈ s.deadIds) := by
  intro id hid
  have hiff := h.covers id hid
  by_cases hdead : id ∈ s.deadIds
  · exact .inr ⟨fun hin => hiff.mp hin hdead, hdead⟩
  · exact .inl ⟨hiff.mpr hdead, hdead⟩

theorem Books.delivers (h : Books s) : Delivers s where
  oneTable := h.tables.delivers_oneTable
  emittedStays e he hdead := h.dead e.2 hdead e he rfl
  exclusive := h.exclusive

theorem State.IsPending.not_givenUp (hp : s.IsPending id) : ¬ s.GivenUp id := by
  obtain ⟨row, hrow, hid, hpending⟩ := hp
  intro hgiven
  rw [hgiven.2.1 row hrow hid] at hpending
  cases hpending

theorem isExhausted_not_pending (h : row.isExhausted = true) : row.isPending = false := by
  simp only [OutboxEntity.isExhausted, OutboxEntity.isPending, Bool.and_eq_true, Bool.not_eq_true',
    decide_eq_true_eq, Bool.and_eq_false_iff, Bool.not_eq_false', decide_eq_false_iff_not] at *
  exact .inr (by omega)

/-! ## Writes -/

/-- An update that keeps what is processed processed and does not take failures back. -/
structure Marks (f : OutboxEntity Payload → OutboxEntity Payload) : Prop where
  id : ∀ row, (f row).id = row.id
  processed : ∀ row, row.processed = true → (f row).processed = true
  pending : ∀ row, row.isPending = false → (f row).isPending = false

theorem marks_markProcessed (now : Int) :
    Marks (.markProcessed now : OutboxEntity Payload → OutboxEntity Payload) where
  id _ := rfl
  processed _ _ := rfl
  pending _ _ := rfl

theorem marks_increment : Marks (.increment : OutboxEntity Payload → OutboxEntity Payload) where
  id _ := rfl
  processed _ h := h
  pending row h := by
    simp only [OutboxEntity.isPending, OutboxEntity.increment, Bool.and_eq_false_iff,
      Bool.not_eq_false', decide_eq_false_iff_not] at *
    rcases h with h | h
    · exact .inl h
    · exact .inr (decide_eq_false (by omega))

theorem marks_note (error : String) :
    Marks (.note error : OutboxEntity Payload → OutboxEntity Payload) where
  id _ := rfl
  processed _ h := h
  pending _ h := h

theorem mem_update : row ∈ (s.update id f).outbox ↔
    row ∈ s.outbox ∧ row.id ≠ id ∨ ∃ old ∈ s.outbox, old.id = id ∧ f old = row := by
  unfold State.update
  rw [List.mem_map]
  constructor
  · rintro ⟨old, hold, rfl⟩
    split
    · next hid => exact .inr ⟨old, hold, hid, rfl⟩
    · next hid => exact .inl ⟨hold, hid⟩
  · rintro (⟨hrow, hid⟩ | ⟨old, hold, hid, rfl⟩)
    · exact ⟨row, hrow, if_neg hid⟩
    · exact ⟨old, hold, if_pos hid⟩

variable (id) in
theorem update_ids (hf : Marks f) : (s.update id f).ids = s.ids := by
  unfold State.ids State.update
  rw [List.map_map]
  refine List.map_congr_left fun row _ => ?_
  show (if row.id = id then f row else row).id = row.id
  split
  · exact hf.id row
  · rfl

theorem Tables.update (h : Tables s) (hf : Marks f) : Tables (s.update id f) := by
  have hids := update_ids (s := s) id hf
  constructor
  case nodup => exact hids.symm ▸ h.nodup
  case below => exact hids.symm ▸ h.below
  case deadBelow => exact h.deadBelow
  case covers => exact hids.symm ▸ h.covers

theorem Books.update (h : Books s) (hf : Marks f)
    (hexhausted : ∀ row ∈ s.outbox, row.id = id → (f row).isExhausted = true → s.Unsent id) :
    Books (s.update id f) where
  tables := h.tables.update hf
  emittedBelow := h.emittedBelow
  dead := h.dead
  exhausted row hrow hex := by
    rcases mem_update.mp hrow with ⟨hrow, _⟩ | ⟨old, hold, hid, rfl⟩
    · exact h.exhausted row hrow hex
    · rw [hf.id old, hid]
      exact hexhausted old hold hid hex
  exclusive := h.exclusive

theorem update_frame (hf : Marks f) : Frame s (s.update id f) [id] := by
  constructor
  case pending =>
    intro id' hne hp hfailed
    obtain ⟨row, hrow, hid, hpending⟩ := hp
    have hne' : row.id ≠ id := fun h => hne (by simp [← hid, h])
    exact ⟨⟨row, mem_update.mpr (.inl ⟨hrow, hne'⟩), hid, hpending⟩, hfailed⟩
  case givenUp =>
    intro id' ⟨hbelow, hrows, hunsent⟩
    refine ⟨hbelow, fun row hrow hid => ?_, hunsent⟩
    rcases mem_update.mp hrow with ⟨hrow, _⟩ | ⟨old, hold, _, rfl⟩
    · exact hrows row hrow hid
    · exact hf.pending old (hrows old hold (hf.id old ▸ hid))
  case failed => exact fun _ he => he
  case done =>
    intro id' _ hdone row hrow hid
    rcases mem_update.mp hrow with ⟨hrow, _⟩ | ⟨old, hold, _, rfl⟩
    · exact hdone row hrow hid
    · exact hf.processed old (hdone old hold (hf.id old ▸ hid))

theorem Books.fail (h : Books s) (w id : Nat) : Books (s.fail w id) where
  tables := ⟨h.tables.nodup, h.tables.below, h.tables.deadBelow, h.tables.covers⟩
  emittedBelow := h.emittedBelow
  dead := h.dead
  exhausted := h.exhausted
  exclusive e he e' he' hid hne :=
    (h.exclusive e he e' he' hid hne).imp (List.mem_append_left _) (List.mem_append_left _)

theorem fail_frame (w id : Nat) (touched : List Nat) : Frame s (s.fail w id) touched where
  pending _ _ hp hf := ⟨hp, fun e he hid => List.mem_append_left _ (hf e he hid)⟩
  givenUp _ h := h
  failed _ he := List.mem_append_left _ he
  done _ _ h := h

theorem Frame.trans {s'' : State Payload} {touched : List Nat} (h : Frame s s' touched)
    (h' : Frame s' s'' touched) (hwritten : s.written ≤ s'.written) : Frame s s'' touched where
  pending id hid hp hf := by
    obtain ⟨hp', hf'⟩ := h.pending id hid hp hf
    exact h'.pending id hid hp' hf'
  givenUp id hg := h'.givenUp id (h.givenUp id hg)
  failed e he := h'.failed e (h.failed e he)
  done id hlt hd := h'.done id (by omega) (h.done id hlt hd)

/-- A replica emits a pending row, which nobody has emitted without failing at it. -/
theorem Books.emit (h : Books s) {w : Nat} (hp : s.IsPending id) (hf : s.FailedBefore id) :
    Books (s.emit w id) := by
  obtain ⟨row, hrow, hid, hpending⟩ := hp
  have hin : id ∈ s.ids := hid ▸ List.mem_map_of_mem hrow
  have hlt : id < s.written := h.tables.below id hin
  have hmem : ∀ e ∈ (s.emit w id).emitted, e ∈ s.emitted ∨ e = (w, id) := by
    intro e he
    exact (List.mem_append.mp he).imp_right List.mem_singleton.mp
  constructor
  case tables => exact ⟨h.tables.nodup, h.tables.below, h.tables.deadBelow, h.tables.covers⟩
  case emittedBelow =>
    intro e he
    rcases hmem e he with he | rfl
    · exact h.emittedBelow e he
    · exact hlt
  case dead =>
    intro id' hdead e he
    rcases hmem e he with he | rfl
    · exact h.dead id' hdead e he
    · rintro rfl
      exact (h.tables.covers _ hlt).mp hin hdead
  case exhausted =>
    intro row' hrow' hex e he
    rcases hmem e he with he | rfl
    · exact h.exhausted row' hrow' hex e he
    · intro heq
      have hsame : row = row' := h.tables.eq_of_id hrow hrow' (hid.trans heq)
      rw [hsame, isExhausted_not_pending hex] at hpending
      cases hpending
  case exclusive =>
    intro e he e' he' hids hne
    rcases hmem e he with he | rfl
    · rcases hmem e' he' with he' | rfl
      · exact h.exclusive e he e' he' hids hne
      · exact .inl (hf e he hids)
    · rcases hmem e' he' with he' | rfl
      · exact .inr (hf e' he' hids.symm)
      · exact absurd rfl hne

theorem emit_frame {w : Nat} (hp : s.IsPending id) : Frame s (s.emit w id) [id] := by
  have hmem : ∀ e ∈ (s.emit w id).emitted, e ∈ s.emitted ∨ e = (w, id) := by
    intro e he
    exact (List.mem_append.mp he).imp_right List.mem_singleton.mp
  constructor
  case pending =>
    intro id' hne hp' hf
    refine ⟨hp', fun e he hid => ?_⟩
    rcases hmem e he with he | rfl
    · exact hf e he hid
    · exact absurd hid fun h => hne (by simp [← h])
  case givenUp =>
    intro id' hg
    refine ⟨hg.1, hg.2.1, fun e he => ?_⟩
    rcases hmem e he with he | rfl
    · exact hg.2.2 e he
    · rintro rfl
      exact hp.not_givenUp hg
  case failed => exact fun _ he => he
  case done => exact fun _ _ h => h

section Move

variable {moved : List (OutboxEntity Payload)}

theorem mem_move : row ∈ (s.move moved).outbox ↔
    row ∈ s.outbox ∧ row.id ∉ moved.map OutboxEntity.id := by
  unfold State.move
  rw [List.mem_filter, decide_eq_true_iff]

theorem mem_move_ids : id ∈ (s.move moved).ids ↔ id ∈ s.ids ∧ id ∉ moved.map OutboxEntity.id := by
  unfold State.ids
  rw [List.mem_map, List.mem_map]
  constructor
  · rintro ⟨row, hrow, rfl⟩
    exact ⟨⟨row, (mem_move.mp hrow).1, rfl⟩, (mem_move.mp hrow).2⟩
  · rintro ⟨⟨row, hrow, rfl⟩, hid⟩
    exact ⟨row, mem_move.mpr ⟨hrow, hid⟩, rfl⟩

theorem move_deadIds : (s.move moved).deadIds = s.deadIds ++ moved.map OutboxEntity.id := by
  unfold State.deadIds State.move
  rw [List.map_append, List.map_map]
  rfl

theorem Tables.move (h : Tables s) (hmoved : ∀ id ∈ moved.map OutboxEntity.id, id < s.written) :
    Tables (s.move moved) := by
  constructor
  case nodup => exact h.nodup.sublist (List.filter_sublist.map _)
  case below => exact fun id hid => h.below id (mem_move_ids.mp hid).1
  case deadBelow =>
    intro id hid
    rw [move_deadIds, List.mem_append] at hid
    rcases hid with hid | hid
    · exact h.deadBelow id hid
    · exact hmoved id hid
  case covers =>
    intro id hlt
    rw [mem_move_ids, move_deadIds, List.mem_append, h.covers id hlt, not_or]

theorem Books.move (h : Books s) (hmoved : ∀ id ∈ moved.map OutboxEntity.id, s.GivenUp id) :
    Books (s.move moved) := by
  constructor
  case tables => exact h.tables.move fun id hid => (hmoved id hid).1
  case emittedBelow => exact h.emittedBelow
  case dead =>
    intro id hid
    rw [move_deadIds, List.mem_append] at hid
    rcases hid with hid | hid
    · exact h.dead id hid
    · exact (hmoved id hid).2.2
  case exhausted => exact fun row hrow => h.exhausted row (mem_move.mp hrow).1
  case exclusive => exact h.exclusive

theorem move_frame (hmoved : ∀ id ∈ moved.map OutboxEntity.id, s.GivenUp id)
    (touched : List Nat) : Frame s (s.move moved) touched := by
  constructor
  case pending =>
    intro id _ hp hf
    have hnot : id ∉ moved.map OutboxEntity.id := fun hid => hp.not_givenUp (hmoved id hid)
    obtain ⟨row, hrow, rfl, hpending⟩ := hp
    exact ⟨⟨row, mem_move.mpr ⟨hrow, hnot⟩, rfl, hpending⟩, hf⟩
  case givenUp => exact fun id hg => ⟨hg.1, fun row hrow => hg.2.1 row (mem_move.mp hrow).1, hg.2.2⟩
  case failed => exact fun _ he => he
  case done => exact fun id _ hd row hrow => hd row (mem_move.mp hrow).1

end Move

section WriteEvent

variable {eventType : String} {payload : Payload} {createdAt : Int}

theorem mem_writeEvent : row ∈ (s.writeEvent eventType payload createdAt).outbox ↔
    row ∈ s.outbox ∨ row = .written s.written eventType payload createdAt := by
  unfold State.writeEvent
  rw [List.mem_append, List.mem_singleton]

theorem writeEvent_ids : (s.writeEvent eventType payload createdAt).ids = s.ids ++ [s.written] := by
  unfold State.ids State.writeEvent
  rw [List.map_append]
  rfl

theorem Tables.writeEvent (h : Tables s) : Tables (s.writeEvent eventType payload createdAt) := by
  have hfresh : s.written ∉ s.ids := fun hin => absurd (h.below _ hin) (by omega)
  have hfresh' : s.written ∉ s.deadIds := fun hin => absurd (h.deadBelow _ hin) (by omega)
  constructor
  case nodup =>
    rw [writeEvent_ids, ← List.concat_eq_append]
    exact h.nodup.concat hfresh
  case below =>
    intro id hid
    show id < s.written + 1
    rw [writeEvent_ids, List.mem_append, List.mem_singleton] at hid
    rcases hid with hid | rfl
    · have := h.below id hid
      omega
    · omega
  case deadBelow => exact fun id hid => Nat.lt_succ_of_lt (h.deadBelow id hid)
  case covers =>
    intro id hlt
    show _ ↔ id ∉ s.deadIds
    rw [writeEvent_ids, List.mem_append, List.mem_singleton]
    by_cases hid : id = s.written
    · subst hid
      simp [hfresh']
    · rw [← h.covers id (by
        have : id < s.written + 1 := hlt
        omega)]
      simp [hid]

theorem Books.writeEvent (h : Books s) : Books (s.writeEvent eventType payload createdAt) := by
  constructor
  case tables => exact h.tables.writeEvent
  case emittedBelow => exact fun e he => Nat.lt_succ_of_lt (h.emittedBelow e he)
  case dead => exact h.dead
  case exhausted =>
    intro row hrow hex
    rcases mem_writeEvent.mp hrow with hrow | rfl
    · exact h.exhausted row hrow hex
    · cases hex
  case exclusive => exact h.exclusive

theorem writeEvent_frame (touched : List Nat) :
    Frame s (s.writeEvent eventType payload createdAt) touched := by
  constructor
  case pending =>
    rintro id _ ⟨row, hrow, hid, hpending⟩ hf
    exact ⟨⟨row, mem_writeEvent.mpr (.inl hrow), hid, hpending⟩, hf⟩
  case givenUp =>
    intro id hg
    refine ⟨Nat.lt_succ_of_lt hg.1, fun row hrow hid => ?_, hg.2.2⟩
    rcases mem_writeEvent.mp hrow with hrow | rfl
    · exact hg.2.1 row hrow hid
    · exact absurd hid fun heq => absurd hg.1 (by rw [← heq]; exact Nat.lt_irrefl _)
  case failed => exact fun _ he => he
  case done =>
    intro id hlt hd row hrow hid
    rcases mem_writeEvent.mp hrow with hrow | rfl
    · exact hd row hrow hid
    · exact absurd hid fun heq => absurd hlt (by rw [← heq]; exact Nat.lt_irrefl _)

end WriteEvent

end Rows

end AgriFi.Outbox
