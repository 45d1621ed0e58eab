import AgriFi.Outbox.Rows

/-
  The batch that a replica has in hand, and what each of its commands does to the rows of the batch
  and to those of the others.
-/

namespace AgriFi.Outbox

open AgriFi.DealDelivered (Outcome)

variable {Payload : Type}

/-- The failure of the event is not the tenth, or the event was not emitted or is processed. -/
def State.MayCount (s : State Payload) (id : Nat) : Prop :=
  id ∉ s.emitted.map Prod.snd ∨
    ∀ row ∈ s.outbox, row.id = id → row.increment.isExhausted = false

instance (s : State Payload) (id : Nat) : Decidable (s.MayCount id) :=
  inferInstanceAs (Decidable (_ ∨ _))

/-! ## Threads -/

namespace Pc

/-- The rows that a replica has in hand. -/
def held : Pc Payload → List Nat
  | .commitClaim events => events.map OutboxEntity.id
  | .emit event left | .markProcessed event left | .increment event left _ | .note event left _ =>
    event.id :: left.map OutboxEntity.id
  | _ => []

/-- The rows that a replica still means to emit. -/
def unsent : Pc Payload → List Nat
  | .commitClaim events => events.map OutboxEntity.id
  | .emit event left => event.id :: left.map OutboxEntity.id
  | .markProcessed _ left | .increment _ left _ | .note _ left _ => left.map OutboxEntity.id
  | _ => []

/-- The rows that a call of `moveToDeadLetter` has inserted. -/
def moved : Pc Payload → List Nat
  | .deleteMoved moved | .commitMove moved => moved.map OutboxEntity.id
  | _ => []

/-- The row that a replica has emitted and not yet marked. -/
def sent : Pc Payload → Option Nat
  | .markProcessed event _ => some event.id
  | _ => none

end Pc

structure PcOk (s : State Payload) (t : Pc Payload) : Prop where
  nodup : t.held.Nodup
  unsent : ∀ id ∈ t.unsent, s.IsPending id ∧ s.FailedBefore id
  moved : ∀ id ∈ t.moved, s.GivenUp id

/-- What an emission of replica `w`, which is at `sent`, has led to. -/
def Accounted (s : State Payload) (sent : Option Nat) (e : Nat × Nat) : Prop :=
  e ∈ s.failed ∨ s.Done e.2 ∨ sent = some e.2

structure Inv (s : System Payload) : Prop where
  books : Books s.state
  oks : ∀ t ∈ s.threads, PcOk s.state t
  apart : ∀ ⦃w v : Nat⦄ ⦃t u : Pc Payload⦄, s.threads[w]? = some t → s.threads[v]? = some u → w ≠ v →
    ∀ id ∈ t.held, id ∉ u.held
  accounted : ∀ e ∈ s.state.emitted, ∃ t, s.threads[e.1]? = some t ∧ Accounted s.state t.sent e

/-- What a step of replica `w`, or of a move, does to the state and to the thread. -/
structure Moves (w : Nat) (s s' : State Payload) (t t' : Pc Payload) : Prop where
  books : Books s'
  frame : Frame s s' t.held
  ok : PcOk s' t'
  held : ∀ id ∈ t'.held, id ∈ t.held
  emitted : ∀ e ∈ s'.emitted, e ∈ s.emitted ∨ e.1 = w
  accounted : ∀ e ∈ s'.emitted, e.1 = w → Accounted s' t'.sent e

section Steps

variable {s s' : State Payload} {t t' : Pc Payload} {w : Nat} {touched : List Nat}

theorem unsent_held : ∀ id ∈ t.unsent, id ∈ t.held := by
  cases t with
  | commitClaim events => exact fun _ h => h
  | emit event left => exact fun _ h => h
  | markProcessed event left | increment event left _ | note event left _ =>
    exact fun _ h => List.mem_cons_of_mem _ h
  | idle | insertMoved | deleteMoved _ | commitMove _ | finished => exact fun _ h => h

theorem PcOk.frame (h : PcOk s t) (hframe : Frame s s' touched)
    (hapart : ∀ id ∈ t.held, id ∉ touched) : PcOk s' t where
  nodup := h.nodup
  unsent id hid := by
    obtain ⟨hp, hf⟩ := h.unsent id hid
    exact hframe.pending id (hapart id (unsent_held id hid)) hp hf
  moved id hid := hframe.givenUp id (h.moved id hid)

theorem Accounted.frame {sent : Option Nat} {e : Nat × Nat} (h : Accounted s sent e)
    (hframe : Frame s s' touched) (hlt : e.2 < s.written) : Accounted s' sent e := by
  rcases h with h | h | h
  · exact .inl (hframe.failed e h)
  · exact .inr (.inl (hframe.done e.2 hlt h))
  · exact .inr (.inr h)

/-- The loop goes on, or the replica is idle. -/
theorem publishing_ok {left : List (OutboxEntity Payload)}
    (hnodup : (left.map OutboxEntity.id).Nodup)
    (hleft : ∀ id ∈ left.map OutboxEntity.id, s.IsPending id ∧ s.FailedBefore id) :
    PcOk s (publishing left) := by
  cases left with
  | nil => constructor <;> simp [publishing, Pc.held, Pc.unsent, Pc.moved]
  | cons event left =>
    refine ⟨hnodup, hleft, fun id hid => ?_⟩
    cases hid

theorem publishing_held {left : List (OutboxEntity Payload)} :
    (publishing left).held = left.map OutboxEntity.id := by
  cases left <;> rfl

theorem publishing_moved {left : List (OutboxEntity Payload)} : (publishing left).moved = [] := by
  cases left <;> rfl

/-- What a replica has left while it is at `event`. -/
structure LeftOk (s : State Payload) (event : OutboxEntity Payload)
    (left : List (OutboxEntity Payload)) : Prop where
  nodup : (event.id :: left.map OutboxEntity.id).Nodup
  pending : ∀ id ∈ left.map OutboxEntity.id, s.IsPending id ∧ s.FailedBefore id

section Left

variable {event : OutboxEntity Payload} {left : List (OutboxEntity Payload)} {error : String}

theorem LeftOk.frame (h : LeftOk s event left) (hframe : Frame s s' [event.id]) :
    LeftOk s' event left where
  nodup := h.nodup
  pending id hid := by
    obtain ⟨hp, hf⟩ := h.pending id hid
    refine hframe.pending id (fun hmem => ?_) hp hf
    rw [List.mem_singleton.mp hmem] at hid
    exact (List.nodup_cons.mp h.nodup).1 hid

theorem LeftOk.publishing (h : LeftOk s event left) : PcOk s (publishing left) :=
  publishing_ok (List.nodup_cons.mp h.nodup).2 h.pending

theorem LeftOk.markProcessed (h : LeftOk s event left) : PcOk s (.markProcessed event left) := by
  refine ⟨h.nodup, h.pending, fun id hid => ?_⟩
  cases hid

theorem LeftOk.increment (h : LeftOk s event left) : PcOk s (.increment event left error) := by
  refine ⟨h.nodup, h.pending, fun id hid => ?_⟩
  cases hid

theorem LeftOk.note (h : LeftOk s event left) : PcOk s (.note event left error) := by
  refine ⟨h.nodup, h.pending, fun id hid => ?_⟩
  cases hid

theorem idle_ok : PcOk s (.idle : Pc Payload) := by
  constructor <;> simp [Pc.held, Pc.unsent, Pc.moved]

theorem finished_ok : PcOk s (.finished : Pc Payload) := by
  constructor <;> simp [Pc.held, Pc.unsent, Pc.moved]

end Left

theorem Frame.mono {touched' : List Nat} (h : Frame s s' touched)
    (hsub : ∀ id ∈ touched, id ∈ touched') : Frame s s' touched' where
  pending id hid := h.pending id fun hmem => hid (hsub id hmem)
  givenUp := h.givenUp
  failed := h.failed
  done := h.done

/-- What thread `w` has emitted and is done with. -/
def Past (w : Nat) (s : State Payload) : Prop :=
  ∀ e ∈ s.emitted, e.1 = w → Accounted s none e

theorem Past.accounted (h : Past w s) {sent : Option Nat} :
    ∀ e ∈ s.emitted, e.1 = w → Accounted s sent e := by
  intro e he hw
  rcases h e he hw with hfailed | hdone | hnone
  · exact .inl hfailed
  · exact .inr (.inl hdone)
  · cases hnone

theorem Past.frame (hbooks : Books s) (hframe : Frame s s' touched)
    (hemitted : s'.emitted = s.emitted) (h : Past w s) : Past w s' := by
  intro e he hw
  rw [hemitted] at he
  exact (h e he hw).frame hframe (hbooks.emittedBelow e he)

/-- A step that emits nothing, of a thread that has nothing unmarked after it. -/
theorem Moves.of_past (hbooks : Books s') (hframe : Frame s s' t.held) (hok : PcOk s' t')
    (hheld : ∀ id ∈ t'.held, id ∈ t.held) (hemitted : s'.emitted = s.emitted)
    (hpast : Past w s') : Moves w s s' t t' where
  books := hbooks
  frame := hframe
  ok := hok
  held := hheld
  emitted _ he := .inl (hemitted ▸ he)
  accounted := hpast.accounted

/-- The thread stops. -/
theorem Moves.stop (hbooks : Books s) (hpast : Past w s) (hok : PcOk s t')
    (hheld : t'.held = []) : Moves w s s t t' :=
  .of_past hbooks (.refl s _) hok (by simp [hheld]) rfl hpast

section Event

variable {event : OutboxEntity Payload} {left : List (OutboxEntity Payload)} {error : String}
  {f : OutboxEntity Payload → OutboxEntity Payload}

/-- The event's row is updated, and the replica goes on or stops. -/
theorem update_moves (hbooks : Books s) (hpast : Past w s) (hheld : event.id ∈ t.held)
    (hf : Marks f) (hexhausted : ∀ row ∈ s.outbox, row.id = event.id →
      (f row).isExhausted = true → s.Unsent event.id)
    (hok : PcOk (s.update event.id f) t') (hheld' : ∀ id ∈ t'.held, id ∈ t.held) :
    Moves w s (s.update event.id f) t t' := by
  have hframe : Frame s (s.update event.id f) [event.id] := update_frame hf
  have hsub : ∀ id ∈ [event.id], id ∈ t.held := by
    intro id hid
    rwa [List.mem_singleton.mp hid]
  exact .of_past (hbooks.update hf hexhausted) (hframe.mono hsub) hok hheld' rfl
    (hpast.frame hbooks hframe rfl)

theorem emit_moves (hbooks : Books s) (hok : PcOk s (.emit event left)) (hpast : Past w s) :
    Moves w s (s.emit w event.id) (.emit event left) (.markProcessed event left) := by
  obtain ⟨hp, hf⟩ := hok.unsent event.id (List.mem_cons_self ..)
  have hframe : Frame s (s.emit w event.id) [event.id] := emit_frame hp
  have hleft : LeftOk s event left :=
    ⟨hok.nodup, fun id hid => hok.unsent id (List.mem_cons_of_mem _ hid)⟩
  have hsub : ∀ id ∈ [event.id], id ∈ (Pc.emit event left).held := by
    intro id hid
    exact List.mem_singleton.mp hid ▸ List.mem_cons_self ..
  constructor
  case books => exact hbooks.emit hp hf
  case frame => exact hframe.mono hsub
  case ok => exact (hleft.frame hframe).markProcessed
  case held => exact fun _ h => h
  case emitted =>
    intro e he
    refine (List.mem_append.mp he).imp_right fun hnew => ?_
    rw [List.mem_singleton.mp hnew]
  case accounted =>
    intro e he hw
    rcases List.mem_append.mp he with he | hnew
    · exact (hpast.accounted e he hw).frame hframe (hbooks.emittedBelow e he)
    · rw [List.mem_singleton.mp hnew]
      exact .inr (.inr rfl)

/-- A failure at the event. -/
theorem fail_moves (hbooks : Books s) (hleft : LeftOk s event left)
    (hacc : ∀ e ∈ s.emitted, e.1 = w → Accounted s (some event.id) e)
    (hheld : t.held = event.id :: left.map OutboxEntity.id) :
    Moves w s (s.fail w event.id) t (.increment event left error) := by
  have hframe : Frame s (s.fail w event.id) t.held := fail_frame w event.id _
  refine .of_past (hbooks.fail w event.id) hframe (hleft.frame (fail_frame ..)).increment ?_ rfl ?_
  · rw [hheld]
    exact fun _ h => h
  · intro e he hw
    rcases hacc e he hw with h | h | h
    · exact .inl (hframe.failed e h)
    · exact .inr (.inl h)
    · refine .inl (List.mem_append_right _ (List.mem_singleton.mpr ?_))
      exact Prod.ext hw (Option.some.inj h).symm

theorem markProcessed_done (now : Int) : (s.update event.id (.markProcessed now)).Done event.id := by
  intro row hrow hid
  rcases mem_update.mp hrow with ⟨_, hne⟩ | ⟨old, _, _, rfl⟩
  · exact absurd hid hne
  · rfl

theorem markProcessed_past (hbooks : Books s) (now : Int)
    (hacc : ∀ e ∈ s.emitted, e.1 = w → Accounted s (some event.id) e) :
    Past w (s.update event.id (.markProcessed now)) := by
  have hframe : Frame s (s.update event.id (.markProcessed now)) [event.id] :=
    update_frame (marks_markProcessed now)
  intro e he hw
  rcases (hacc e he hw).frame hframe (hbooks.emittedBelow e he) with h | h | h
  · exact .inl h
  · exact .inr (.inl h)
  · have hid : event.id = e.2 := Option.some.inj h
    refine .inr (.inl ?_)
    rw [← hid]
    exact markProcessed_done now

end Event

theorem exhausted_givenUp (hbooks : Books s) :
    ∀ id ∈ (s.outbox.filter OutboxEntity.isExhausted).map OutboxEntity.id, s.GivenUp id := by
  intro id hid
  obtain ⟨row, hrow, rfl⟩ := List.mem_map.mp hid
  obtain ⟨hrow, hex⟩ := List.mem_filter.mp hrow
  refine ⟨hbooks.tables.below _ (List.mem_map_of_mem hrow), fun other hother hsame => ?_,
    hbooks.exhausted row hrow hex⟩
  rw [hbooks.tables.eq_of_id hother hrow hsame]
  exact isExhausted_not_pending hex

/-- One command of a thread, where a failure may be counted. -/
theorem stepPc_moves {now : Int} {o : Outcome} {error : String} (hbooks : Books s)
    (hok : PcOk s t) (hacc : ∀ e ∈ s.emitted, e.1 = w → Accounted s t.sent e)
    (hmay : ∀ event left error, t = .increment event left error → o ≠ .fail →
      s.MayCount event.id)
    (hstep : stepPc w s now o error t = some (s', t')) : Moves w s s' t t' := by
  cases t with
  | idle | finished => cases hstep
  | commitClaim events =>
    have hgo : PcOk s (publishing events) := publishing_ok hok.nodup hok.unsent
    cases o with
    | ok =>
      cases hstep
      refine .of_past hbooks (.refl s _) hgo ?_ rfl hacc
      rw [publishing_held]
      exact fun _ h => h
    | fail | lost =>
      cases hstep
      exact .stop hbooks hacc idle_ok rfl
  | emit event left =>
    have hleft : LeftOk s event left :=
      ⟨hok.nodup, fun id hid => hok.unsent id (List.mem_cons_of_mem _ hid)⟩
    cases o with
    | ok =>
      cases hstep
      exact emit_moves hbooks hok hacc
    | fail | lost =>
      cases hstep
      exact fail_moves hbooks hleft (Past.accounted hacc) rfl
  | markProcessed event left =>
    have hleft : LeftOk s event left := ⟨hok.nodup, hok.unsent⟩
    have hframe : Frame s (s.update event.id (.markProcessed now)) [event.id] :=
      update_frame (marks_markProcessed now)
    have hbooks' : Books (s.update event.id (.markProcessed now)) := by
      refine hbooks.update (marks_markProcessed now) fun row _ _ hex => ?_
      cases hex
    have hpast := markProcessed_past hbooks now hacc
    have hsub : ∀ id ∈ [event.id], id ∈ (Pc.markProcessed event left).held := by
      intro id hid
      exact List.mem_singleton.mp hid ▸ List.mem_cons_self ..
    cases o with
    | ok =>
      cases hstep
      refine .of_past hbooks' (hframe.mono hsub) (hleft.frame hframe).publishing ?_ rfl hpast
      rw [publishing_held]
      exact fun _ h => List.mem_cons_of_mem _ h
    | fail =>
      cases hstep
      exact fail_moves hbooks hleft hacc rfl
    | lost =>
      cases hstep
      have hfail : Frame (s.update event.id (.markProcessed now))
          ((s.update event.id (.markProcessed now)).fail w event.id) [event.id] :=
        fail_frame w event.id _
      refine .of_past (hbooks'.fail w event.id)
        ((hframe.trans hfail (le_refl _)).mono hsub)
        ((hleft.frame hframe).frame hfail).increment (fun _ h => h) rfl ?_
      exact hpast.frame hbooks' hfail rfl
  | increment event left error =>
    have hleft : LeftOk s event left := ⟨hok.nodup, hok.unsent⟩
    have hframe : Frame s (s.update event.id .increment) [event.id] := update_frame marks_increment
    have hexhausted : o ≠ .fail → ∀ row ∈ s.outbox, row.id = event.id →
        row.increment.isExhausted = true → s.Unsent event.id := by
      intro ho row hrow hid hex
      rcases hmay event left error rfl ho with hunsent | hnone
      · intro e he heq
        exact hunsent (List.mem_map.mpr ⟨e, he, heq⟩)
      · rw [hnone row hrow hid] at hex
        cases hex
    cases o with
    | ok =>
      cases hstep
      exact update_moves hbooks hacc (List.mem_cons_self ..) marks_increment
        (hexhausted (by simp)) (hleft.frame hframe).note fun _ h => h
    | fail =>
      cases hstep
      exact .stop hbooks hacc idle_ok rfl
    | lost =>
      cases hstep
      exact update_moves hbooks hacc (List.mem_cons_self ..) marks_increment
        (hexhausted (by simp)) idle_ok (by simp [Pc.held])
  | note event left error =>
    have hleft : LeftOk s event left := ⟨hok.nodup, hok.unsent⟩
    have hframe : Frame s (s.update event.id (.note error)) [event.id] :=
      update_frame (marks_note error)
    have hexhausted : ∀ row ∈ s.outbox, row.id = event.id →
        (row.note error).isExhausted = true → s.Unsent event.id := by
      intro row hrow hid hex
      exact hid ▸ hbooks.exhausted row hrow hex
    cases o with
    | ok =>
      cases hstep
      refine update_moves hbooks hacc (List.mem_cons_self ..) (marks_note error) hexhausted
        (hleft.frame hframe).publishing ?_
      rw [publishing_held]
      exact fun _ h => List.mem_cons_of_mem _ h
    | fail =>
      cases hstep
      exact .stop hbooks hacc idle_ok rfl
    | lost =>
      cases hstep
      exact update_moves hbooks hacc (List.mem_cons_self ..) (marks_note error) hexhausted idle_ok
        (by simp [Pc.held])
  | insertMoved =>
    cases o with
    | ok =>
      cases hstep
      have hgiven := exhausted_givenUp hbooks
      split
      · refine .stop hbooks hacc ?_ rfl
        constructor <;> simp [Pc.held, Pc.unsent, Pc.moved]
      · refine .stop hbooks hacc ⟨List.nodup_nil, ?_, hgiven⟩ rfl
        simp [Pc.unsent]
    | fail | lost =>
      cases hstep
      exact .stop hbooks hacc finished_ok rfl
  | deleteMoved moved =>
    cases o with
    | ok =>
      cases hstep
      exact .stop hbooks hacc ⟨hok.nodup, hok.unsent, hok.moved⟩ rfl
    | fail | lost =>
      cases hstep
      exact .stop hbooks hacc finished_ok rfl
  | commitMove moved =>
    cases o with
    | ok | lost =>
      cases hstep
      have hframe := move_frame hok.moved (Pc.commitMove moved).held
      exact .of_past (hbooks.move hok.moved) hframe finished_ok (by simp [Pc.held]) rfl
        (Past.frame hbooks hframe rfl hacc)
    | fail =>
      cases hstep
      exact .stop hbooks hacc finished_ok rfl

end Steps

end AgriFi.Outbox
