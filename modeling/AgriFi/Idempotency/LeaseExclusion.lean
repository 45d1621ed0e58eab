import AgriFi.Threads
import AgriFi.Idempotency.Lease

/-
  Whose lease a worker ends, and how long a done marker stands. The key does not say who set it:
  a worker whose lease ran out deletes or marks the lease of whoever took the key after it, and
  the `client.del` of its `releaseLease` can hit a done marker set since its `client.get`
  (`stale_release`). `lease_exclusion`: in a run in which nobody takes the key while a worker that
  took it earlier has its `markDone` or `releaseLease` still to come, every command leaves the
  leases of the others alone, and no lease is granted as long as a done marker lives.
-/

namespace AgriFi.Idempotency

open AgriFi.Runs AgriFi.Threads
open AgriFi.DealDelivered (KeyStatus Outcome)

/-- The worker holds a lease, as far as it knows. -/
def Pc.engaged : Pc → Bool
  | .holding | .markDone | .releaseGet | .releaseDel => true
  | .idle | .acquireGet | .acquireSet | .acquireReread | .notAcquired _ => false

/-! ## The two properties of a step -/

/-- A worker's command leaves the lease of another worker in the store. -/
def KeepsOthersLease (x : Step System Action) : Prop :=
  ∀ ⦃w : Nat⦄ ⦃o : Outcome⦄ ⦃v : Nat⦄, x.act = .run w o →
    x.pre.store.holder = some v → v ≠ w →
      x.post.store.holder = some v ∧ x.post.store.value = x.pre.store.value

/-- No `acquireLease` reports a lease while a done marker lives. -/
def RespectsMarker (x : Step System Action) : Prop :=
  x.pre.store.marker = true → ∀ ⦃w : Nat⦄ ⦃y z : Worker⦄, x.pre.workers[w]? = some y →
    x.post.workers[w]? = some z → z.pc.engaged = true → y.pc.engaged = true

/-- The replica is connected, and nobody takes the key while a worker is still engaged. -/
def TakenAlone (s : System) : Action → Prop
  | .join connected => connected = true
  | .run w o => ∀ x ∈ s.workers[w]?, x.pc = .acquireSet → o ≠ .fail → s.store.value = none →
      ∀ y ∈ s.workers, y.pc.engaged = false
  | .call _ _ | .quit _ | .expire => True

instance (s : System) : ∀ a : Action, Decidable (TakenAlone s a)
  | .join _ => inferInstanceAs (Decidable (_ = _))
  | .run w _ => inferInstanceAs (Decidable (∀ x ∈ s.workers[w]?, _))
  | .call _ _ | .quit _ | .expire => isTrue trivial

/-! ## One command -/

variable {s s' : Store} {pc pc' : Pc} {o : Outcome} {w : Nat}

/-- What one command can do: nothing to the key, or one of the three writes. -/
theorem stepWorker_cases (h : stepWorker w s o pc = some (s', pc')) :
    (s' = s ∧ (pc'.engaged = true → pc.engaged = true) ∧
      (pc' = .releaseDel → s.value = some .processing)) ∨
    (pc = .acquireSet ∧ o ≠ .fail ∧ s.value = none ∧ s' = s.lease w ∧ pc' ≠ .releaseDel) ∨
    (pc = .markDone ∧ s' = s.done ∧ pc' ≠ .releaseDel) ∨
    (pc = .releaseDel ∧ s' = s.del ∧ pc' ≠ .releaseDel) := by
  cases pc with
  | idle => cases h
  | notAcquired => cases h
  | holding => cases h
  | acquireGet => cases o <;> simp only [stepWorker, stepAcquireGet] at h <;> grind [Pc.engaged]
  | acquireSet => cases o <;> simp only [stepWorker, stepAcquireSet] at h <;> grind [Pc.engaged]
  | acquireReread =>
    cases o <;> obtain ⟨rfl, rfl⟩ := Prod.mk.inj (Option.some.inj h) <;> simp [Pc.engaged]
  | markDone =>
    cases o <;> obtain ⟨rfl, rfl⟩ := Prod.mk.inj (Option.some.inj h) <;> simp [Pc.engaged]
  | releaseGet => cases o <;> simp only [stepWorker, stepReleaseGet] at h <;> grind [Pc.engaged]
  | releaseDel =>
    cases o <;> obtain ⟨rfl, rfl⟩ := Prod.mk.inj (Option.some.inj h) <;> simp [Pc.engaged]

/-- A call sends no command yet, and with a connection it grants nothing. -/
theorem stepCall_cases {c : Call} (h : stepCall true c pc = some pc') :
    (pc'.engaged = true → pc.engaged = true) ∧ pc' ≠ .releaseDel := by
  unfold stepCall at h
  grind [Pc.engaged]

/-! ## The invariant -/

abbrev Engaged (x : Worker) : Prop := x.pc.engaged = true

/-- One worker is engaged, and the lease in the store is its own; a marker that lives is in the
    store, and the worker about to delete the key does not see it. -/
structure Exclusive (s : System) : Prop where
  connected : ∀ x ∈ s.workers, x.connected = true
  alone : AtMostOneInside Engaged s.workers
  own : ∀ ⦃w x v⦄, s.workers[w]? = some x → Engaged x → s.store.holder = some v → v = w
  leased : ∀ ⦃v⦄, s.store.holder = some v → s.store.value = some .processing
  marker : s.store.marker = true → s.store.value = some .done
  deleting : ∀ x ∈ s.workers, x.pc = .releaseDel → s.store.value ≠ some .done

variable {workers : List Worker} {x : Worker}

/-- Nothing changes but one worker, who does not enter. -/
theorem Exclusive.set (he : Exclusive ⟨s, workers⟩) (hw : workers[w]? = some x)
    (hin : pc'.engaged = true → Engaged x)
    (hdel : pc' = .releaseDel → s.value = some .processing) :
    Exclusive ⟨s, workers.set w { x with pc := pc' }⟩ where
  connected := forall_mem_set (others_of_forall he.connected)
    (he.connected x (List.mem_of_getElem? hw))
  alone := he.alone.set hw fun h => .inl (hin h)
  own := by
    intro v y u hy hiny hu
    rcases getElem?_set_cases hy with ⟨rfl, rfl⟩ | ⟨_, hy'⟩
    · exact he.own hw (hin hiny) hu
    · exact he.own hy' hiny hu
  leased := he.leased
  marker := he.marker
  deleting := forall_mem_set (others_of_forall he.deleting) fun h => by
    show s.value ≠ _
    simp [hdel h]

theorem Exclusive.append (he : Exclusive ⟨s, workers⟩) :
    Exclusive ⟨s, workers ++ [⟨true, .idle⟩]⟩ where
  connected := forall_mem_append he.connected rfl
  alone := he.alone.append (by simp [Engaged, Pc.engaged])
  own := by
    intro v y u hy hiny hu
    rcases getElem?_append_cases hy with hy | rfl
    · exact he.own hy hiny hu
    · cases hiny
  leased := he.leased
  marker := he.marker
  deleting := forall_mem_append he.deleting fun h => by cases h

theorem Exclusive.expire (he : Exclusive ⟨s, workers⟩) : Exclusive ⟨s.expire, workers⟩ where
  connected := he.connected
  alone := he.alone
  own := by
    intro v y u _ _ hu
    cases hu
  leased := by
    intro v hv
    cases hv
  marker := by
    intro hm
    have hmarker : (if s.value = some .done then false else s.marker) = true := hm
    split at hmarker
    · cases hmarker
    · next hne => exact absurd (he.marker hmarker) hne
  deleting _ _ _ := by simp [Store.expire]

/-- The worker takes the free key. -/
theorem Exclusive.lease (he : Exclusive ⟨s, workers⟩) (hw : workers[w]? = some x)
    (hfree : s.value = none) (hall : ∀ y ∈ workers, y.pc.engaged = false) :
    Exclusive ⟨s.lease w, workers.set w { x with pc := pc' }⟩ where
  connected := forall_mem_set (others_of_forall he.connected)
    (he.connected x (List.mem_of_getElem? hw))
  alone := he.alone.set hw fun _ => .inr fun v z hz _ => by simp [hall z (List.mem_of_getElem? hz)]
  own := by
    intro v y u hy hiny hu
    have hu : w = u := Option.some.inj hu
    rcases getElem?_set_cases hy with ⟨rfl, _⟩ | ⟨_, hy'⟩
    · exact hu.symm
    · simp [Engaged, hall y (List.mem_of_getElem? hy')] at hiny
  leased _ _ := rfl
  marker := by
    intro hm
    have hvalue : s.value = some .done := he.marker hm
    rw [hfree] at hvalue
    cases hvalue
  deleting _ _ _ := by simp [Store.lease]

/-- The engaged worker writes the done marker or deletes the key: nobody else is engaged. -/
theorem Exclusive.write (he : Exclusive ⟨s, workers⟩) (hw : workers[w]? = some x)
    (hin : Engaged x) (hdel : pc' ≠ .releaseDel) (hholder : s'.holder = none)
    (hmarker : s'.marker = true → s'.value = some .done) :
    Exclusive ⟨s', workers.set w { x with pc := pc' }⟩ where
  connected := forall_mem_set (others_of_forall he.connected)
    (he.connected x (List.mem_of_getElem? hw))
  alone := he.alone.set hw fun _ => .inl hin
  own := by
    intro v y u _ _ hu
    have hu : s'.holder = some u := hu
    rw [hholder] at hu
    cases hu
  leased := by
    intro v hv
    have hv : s'.holder = some v := hv
    rw [hholder] at hv
    cases hv
  marker := hmarker
  deleting := by
    refine forall_mem_set (fun v y hy hne heq => ?_) fun heq => absurd heq hdel
    exact absurd (by simp [Engaged, heq, Pc.engaged]) (he.alone.others hw hin hy hne)

theorem Exclusive.run (he : Exclusive ⟨s, workers⟩) (hw : workers[w]? = some x)
    (hc : TakenAlone ⟨s, workers⟩ (.run w o)) (h : stepWorker w s o x.pc = some (s', pc')) :
    Exclusive ⟨s', workers.set w { x with pc := pc' }⟩ := by
  rcases stepWorker_cases h with ⟨rfl, hin, hdel⟩ | ⟨hpc, ho, hfree, rfl, _⟩ |
    ⟨hpc, rfl, hdel⟩ | ⟨hpc, rfl, hdel⟩
  · exact he.set hw hin hdel
  · exact he.lease hw hfree (hc x hw hpc ho hfree)
  · exact he.write hw (by simp [Engaged, hpc, Pc.engaged]) hdel rfl fun _ => rfl
  · refine he.write hw (by simp [Engaged, hpc, Pc.engaged]) hdel rfl fun hm => ?_
    have hvalue : s.value ≠ some .done := he.deleting x (List.mem_of_getElem? hw) hpc
    exact absurd (he.marker hm) hvalue

theorem Exclusive.next {t t' : System} {a : Action} (he : Exclusive t) (hc : TakenAlone t a)
    (h : next t a = some t') : Exclusive t' := by
  cases a with
  | join connected =>
    obtain rfl := Option.some.inj h
    obtain rfl : connected = true := hc
    exact he.append
  | call w c =>
    simp only [Idempotency.next, Option.bind_eq_bind, Option.bind_eq_some_iff] at h
    obtain ⟨x, hw, pc, hcall, hpost⟩ := h
    obtain rfl := Option.some.inj hpost
    rw [he.connected x (List.mem_of_getElem? hw)] at hcall
    obtain ⟨hin, hdel⟩ := stepCall_cases hcall
    exact he.set hw hin fun heq => absurd heq hdel
  | run w o =>
    simp only [Idempotency.next, Option.bind_eq_bind, Option.bind_eq_some_iff] at h
    obtain ⟨x, hw, ⟨store, pc⟩, hstep, hpost⟩ := h
    obtain rfl := Option.some.inj hpost
    exact he.run hw hc hstep
  | quit w =>
    simp only [Idempotency.next, Option.bind_eq_bind, Option.bind_eq_some_iff] at h
    obtain ⟨x, hw, hpost⟩ := h
    obtain rfl := Option.some.inj hpost
    exact he.set hw (fun h => by cases h) fun h => by cases h
  | expire =>
    obtain rfl := Option.some.inj h
    exact he.expire

theorem exclusive_start : Exclusive start where
  connected := by simp [start]
  alone := atMostOneInside_nil
  own := by simp [start]
  leased := by simp [start]
  marker := by simp [start]
  deleting := by simp [start]

/-! ## The two properties follow -/

theorem Exclusive.keepsOthersLease {x : Step System Action} (he : Exclusive x.pre)
    (h : Idempotency.next x.pre x.act = some x.post) : KeepsOthersLease x := by
  intro w o v hact hv hne
  simp only [hact, Idempotency.next, Option.bind_eq_bind, Option.bind_eq_some_iff] at h
  obtain ⟨y, hw, ⟨store, pc⟩, hstep, hpost⟩ := h
  rw [← Option.some.inj hpost]
  rcases stepWorker_cases hstep with ⟨rfl, _⟩ | ⟨_, _, hfree, _⟩ | ⟨hpc, _⟩ | ⟨hpc, _⟩
  · exact ⟨hv, rfl⟩
  · rw [he.leased hv] at hfree
    cases hfree
  · exact absurd (he.own hw (by simp [Engaged, hpc, Pc.engaged]) hv) hne
  · exact absurd (he.own hw (by simp [Engaged, hpc, Pc.engaged]) hv) hne

/-- Replacing one worker by one that does not enter leaves everybody's engagement as it was. -/
theorem engaged_of_set {ys : List Worker} {u : Nat} {y z : Worker} (hw : ys[w]? = some x)
    (hin : pc'.engaged = true → x.pc.engaged = true) (hy : ys[u]? = some y)
    (hz : (ys.set w { x with pc := pc' })[u]? = some z) (hengaged : z.pc.engaged = true) :
    y.pc.engaged = true := by
  rcases getElem?_set_cases hz with ⟨rfl, rfl⟩ | ⟨_, hz'⟩
  · obtain rfl := Option.some.inj (hw.symm.trans hy)
    exact hin hengaged
  · obtain rfl := Option.some.inj (hz'.symm.trans hy)
    exact hengaged

theorem Exclusive.respectsMarker {x : Step System Action} (he : Exclusive x.pre)
    (h : Idempotency.next x.pre x.act = some x.post) : RespectsMarker x := by
  obtain ⟨t, a, t'⟩ := x
  intro hmarker u y z hy hz hengaged
  dsimp only at he h hmarker hy hz
  cases a with
  | join connected =>
    obtain rfl := Option.some.inj h
    rcases getElem?_append_cases hz with hz' | rfl
    · obtain rfl := Option.some.inj (hz'.symm.trans hy)
      exact hengaged
    · cases hengaged
  | call w c =>
    simp only [Idempotency.next, Option.bind_eq_bind, Option.bind_eq_some_iff] at h
    obtain ⟨x, hw, pc, hcall, hpost⟩ := h
    obtain rfl := Option.some.inj hpost
    rw [he.connected x (List.mem_of_getElem? hw)] at hcall
    exact engaged_of_set hw (stepCall_cases hcall).1 hy hz hengaged
  | run w o =>
    simp only [Idempotency.next, Option.bind_eq_bind, Option.bind_eq_some_iff] at h
    obtain ⟨x, hw, ⟨store, pc⟩, hstep, hpost⟩ := h
    obtain rfl := Option.some.inj hpost
    refine engaged_of_set hw (fun hin => ?_) hy hz hengaged
    rcases stepWorker_cases hstep with ⟨_, hquiet, _⟩ | ⟨_, _, hfree, _⟩ | ⟨hpc, _⟩ | ⟨hpc, _⟩
    · exact hquiet hin
    · rw [he.marker hmarker] at hfree
      cases hfree
    · simp [hpc, Pc.engaged]
    · simp [hpc, Pc.engaged]
  | quit w =>
    simp only [Idempotency.next, Option.bind_eq_bind, Option.bind_eq_some_iff] at h
    obtain ⟨x, hw, hpost⟩ := h
    obtain rfl := Option.some.inj hpost
    exact engaged_of_set hw (fun hin => by cases hin) hy hz hengaged
  | expire =>
    obtain rfl := Option.some.inj h
    obtain rfl := Option.some.inj (hy.symm.trans hz)
    exact hengaged

/-! ## Runs -/

/-- `acquireLease` of worker `w` on a free key. -/
def acquire (w : Nat) : List Action := [.call w .acquireLease, .run w .ok, .run w .ok]

/-- The first worker's lease runs out and the second takes the key; then the first gives its lease
    back. -/
def releasedLate : List Action :=
  .join true :: .join true :: acquire 0 ++ .expire :: acquire 1 ++
    [.call 0 .releaseLease, .run 0 .ok, .run 0 .ok]

/-- The first worker's lease runs out between the two commands of its `releaseLease`; the second
    takes the key and marks it, the first deletes the marker, and the third takes the key. -/
def deletedMarker : List Action :=
  .join true :: .join true :: .join true :: acquire 0 ++ .call 0 .releaseLease :: .run 0 .ok ::
    .expire :: acquire 1 ++ .call 1 .markDone :: .run 1 .ok :: .run 0 .ok :: acquire 2

/-- Every replica is connected, and still a late `releaseLease` ends the lease of another worker,
    and a done marker that was set a moment ago does not keep the next worker out. -/
theorem stale_release :
    (¬ ∀ (xs : List (Step System Action)) (s : System), LeaseRun xs s →
      (∀ y ∈ s.workers, y.connected = true) → ∀ x ∈ xs, KeepsOthersLease x) ∧
    (¬ ∀ (xs : List (Step System Action)) (s : System), LeaseRun xs s →
      (∀ y ∈ s.workers, y.connected = true) → ∀ x ∈ xs, RespectsMarker x) := by
  constructor
  · intro h
    have hrun : LeaseRun _ _ := run_replay next start releasedLate
    have hkeeps : ∀ x ∈ (replay next start releasedLate).1, x.act = .run 0 .ok →
        x.pre.store.holder = some 1 → x.post.store.holder = some 1 :=
      fun x hx hact hholder => (h _ _ hrun (by decide +kernel) x hx hact hholder (by decide)).1
    exact absurd hkeeps (by decide +kernel)
  · intro h
    have hrun : LeaseRun _ _ := run_replay next start deletedMarker
    have hrespects : ∀ x ∈ (replay next start deletedMarker).1, x.pre.store.marker = true →
        ∀ y ∈ x.pre.workers[2]?, ∀ z ∈ x.post.workers[2]?, z.pc.engaged = true →
          y.pc.engaged = true :=
      fun x hx hmarker y hy z hz => h _ _ hrun (by decide +kernel) x hx hmarker hy hz
    exact absurd hrespects (by decide +kernel)

/-- In a run in which nobody takes the key while an earlier holder is still engaged, the leases of
    others and the done marker are left alone. -/
theorem lease_exclusion {xs : List (Step System Action)} {s : System} (h : LeaseRun xs s)
    (hc : ∀ x ∈ xs, TakenAlone x.pre x.act) :
    ∀ x ∈ xs, KeepsOthersLease x ∧ RespectsMarker x := by
  intro x hx
  obtain ⟨hn, he, _⟩ := h.steps_invariant Exclusive exclusive_start
    (fun y hy hny hey => hey.next (hc y hy) hny) x hx
  exact ⟨he.keepsOthersLease hn, he.respectsMarker hn⟩

/-- A refused second worker, a lease that runs out and is given back too late but before anyone
    takes the key, a `markDone` that is reported as failed, and a worker turned away by the marker
    until its time is over. -/
def onTime : List Action :=
  .join true :: .join true :: acquire 0 ++ .call 1 .acquireLease :: .run 1 .ok :: .expire ::
    .call 0 .releaseLease :: .run 0 .ok :: acquire 1 ++ .call 1 .markDone :: .run 1 .lost ::
    .call 1 .markDone :: .run 1 .ok :: .call 0 .acquireLease :: .run 0 .ok :: .expire :: acquire 0

theorem lease_exclusion_sample :
    (replay next start onTime).1.length = onTime.length ∧
      ∀ x ∈ (replay next start onTime).1, KeepsOthersLease x ∧ RespectsMarker x := by
  have hrun : LeaseRun _ _ := run_replay next start onTime
  have h := lease_exclusion hrun (by decide +kernel)
  exact ⟨by decide +kernel, h⟩

end AgriFi.Idempotency
