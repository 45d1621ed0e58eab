import AgriFi.AuditRetention.Archived

/-
  Audit records are not lost while retained. Every run of `runRetention` reads a page of rows and
  later deletes each of them by its id, whatever the row has become: a row that is updated between
  the two is archived as it was and lost as it is (`row_lost`). Two retrievals of one approved
  request disclose it twice, because each saves the request whole over what the other has made of it
  (`disclosed_twice`). When no row is updated while a run has it in hand, every `retention_until` is
  in whole milliseconds, and a request is saved only over what was read, every retained row is at
  every moment in its table or archived as it was last written, nothing is deleted before its time,
  and a request discloses at most once and after another administrator's approval (`never_lost`).
-/

namespace AgriFi.AuditRetention

open AgriFi.Runs AgriFi.Threads AgriFi.DealDelivered

variable {C B D : Type} {cfg : Config} {lib : Library C B D} {s s' : State C B D}
  {pc pc' : Pc C B D} {info : Info C D} {row : SourceRow C} {request : RetrievalRequest} {id : Nat}

/-! ## What is claimed -/

/-- A record of the row whose object is the row as it was last written. -/
def Archived (lib : Library C B D) (s : State C B D) (row : SourceRow C) : Prop :=
  ∃ id rec object, s.getRecord id = some rec ∧ rec.source = row.key ∧
    s.getObject rec.storageKey rec.versionId = some object ∧
    lib.sha256 object.body = rec.checksum ∧ object.body = lib.stringify row

/-- Someone else than the requester has approved the request. -/
def Approved (s : State C B D) (request requester : Nat) : Prop :=
  ∃ a ∈ s.approvals, a.request = request ∧ a.requester = requester ∧ a.approver ≠ requester

structure Retained (lib : Library C B D) (s : State C B D) : Prop where
  kept : ∀ row ∈ s.latest, s.now < row.retentionUntil → row ∈ s.sources ∨ Archived lib s row
  once : (s.disclosures.map (·.request)).Nodup
  approved : ∀ d ∈ s.disclosures, Approved s d.request d.requester

/-- What a step deletes has expired, unless it is a row that has been archived. -/
structure Timely (lib : Library C B D) (s s' : State C B D) : Prop where
  rows : ∀ row ∈ s.sources, (∃ other ∈ s'.sources, other.key = row.key) ∨
    row.retentionUntil ≤ s.now ∨ Archived lib s' row
  objects : ∀ storageKey versionId object, s.getObject storageKey versionId = some object →
    s'.getObject storageKey versionId = some object ∨ ¬ object.holdsUntil (s.now + 1) ∧
      ∀ id rec, s.getRecord id = some rec → rec.storageKey = storageKey →
        rec.versionId = versionId → rec.retentionUntil ≤ s.now
  records : ∀ id rec, s.getRecord id = some rec →
    s'.getRecord id = some rec ∨ rec.retentionUntil ≤ s.now

/-- A request is saved over what was read of it. -/
def Pc.Current (s : State C B D) : Pc C B D → Prop
  | .saveApproved id _ request | .saveFulfilled id request _ =>
    ∀ stored ∈ s.getRequest id, stored = request
  | _ => True

instance (s : State C B D) : (pc : Pc C B D) → Decidable (pc.Current s)
  | .saveApproved _ _ _ | .saveFulfilled _ _ _ => inferInstanceAs (Decidable (∀ stored ∈ _, _))
  | .query _ _ _ | .put _ _ | .head _ _ _ | .insert _ _ _ | .delete _ _ | .expire _ _ | .purge
  | .deleteObject _ _ _ | .deleteRecord _ _ | .findArchive _ _ | .insertRequest _ _
  | .findPending _ _ | .findApproved _ _ | .findRecord _ _ _ | .headObject _ _ _ _
  | .getObject _ _ _ _ | .logEvent _ _ _ _ | .ended => inferInstanceAs (Decidable True)

/-- The condition on a step. -/
def Undisturbed (sys : System C B D) : Event C D → Prop
  | .insertRow row => toDate row.retentionUntil = row.retentionUntil
  | .updateRow row => toDate row.retentionUntil = row.retentionUntil ∧
    ∀ pc ∈ sys.threads, ∀ other ∈ pc.inHand, other.key ≠ row.key
  | .step w _ _ => ∀ pc ∈ sys.threads[w]?, pc.Current sys.state
  | _ => True

instance (sys : System C B D) : (e : Event C D) → Decidable (Undisturbed sys e)
  | .insertRow _ => inferInstanceAs (Decidable (_ = _))
  | .updateRow _ => inferInstanceAs (Decidable (_ ∧ ∀ pc ∈ _, _))
  | .step _ _ _ => inferInstanceAs (Decidable (∀ pc ∈ _, _))
  | .tick _ | .runRetention | .requestRetrieval _ _ | .approveRetrieval _ _ | .retrieveApproved _ _
  | .crash _ => inferInstanceAs (Decidable True)

/-! ## Rows and archives -/

/-- A step leaves a settled row archived that has not expired before it. -/
theorem Settled.archived (h : Settled lib s row) (hf : Frame lib s s')
    (hnow : s.now < row.retentionUntil) : Archived lib s' row := by
  rcases h with hexpired | ⟨id, rec, hget, hdescribes⟩
  · exact absurd hnow (Nat.not_lt.mpr hexpired)
  · rcases hdescribes.secured with hexpired | ⟨object, hobject, hbody, hlock⟩
    · exact absurd hnow (Nat.not_lt.mpr hexpired)
    · have hget' : s'.getRecord id = some rec := by
        refine (hf.records id rec hget).resolve_right ?_
        rw [hdescribes.retentionUntil]
        exact Nat.not_le.mpr hnow
      have hobject' := (hf.objects _ _ _ hobject).resolve_right
        (not_not_intro (Lock.holdsUntil_mono hlock hnow))
      refine ⟨id, rec, object, hget', hdescribes.source, hobject', ?_, hbody⟩
      rw [hbody, hdescribes.checksum]

theorem Kept.timely (h : Kept lib s) (hf : Frame lib s s') : Timely lib s s' where
  rows := by
    intro row hrow
    rcases hf.sources row hrow with hin | hsettled
    · exact .inl ⟨row, hin, rfl⟩
    · rcases Nat.lt_or_ge s.now row.retentionUntil with hnow | hexpired
      · exact .inr (.inr (hsettled.archived hf hnow))
      · exact .inr (.inl hexpired)
  objects := by
    intro storageKey versionId object hobject
    rcases hf.objects _ _ _ hobject with hkept | hfree
    · exact .inl hkept
    · refine .inr ⟨hfree, ?_⟩
      rintro id rec hget rfl rfl
      obtain ⟨row, hdescribes⟩ := h.described id rec hget
      rw [hdescribes.retentionUntil]
      rcases hdescribes.secured with hexpired | ⟨other, hother, _, hlock⟩
      · exact hexpired
      · obtain rfl : object = other := Option.some.inj (hobject.symm.trans hother)
        by_contra hgt
        exact hfree (Lock.holdsUntil_mono hlock (by omega))
  records := hf.records

/-! ## Requests -/

/-- What requests and disclosures are to each other. -/
structure Requests (s : State C B D) : Prop where
  asked : ∀ id request, s.getRequest id = some request → request.status ≠ .pending →
    Approved s id request.requesterId
  fulfilled : ∀ d ∈ s.disclosures, d.request < s.requests.length ∧
    ∀ request, s.getRequest d.request = some request → request.status = .fulfilled
  once : (s.disclosures.map (·.request)).Nodup
  approved : ∀ d ∈ s.disclosures, Approved s d.request d.requester

/-- What a call relies on of the request that it has read. -/
def Pc.Granted (s : State C B D) : Pc C B D → Prop
  | .saveApproved id approverId request =>
    id < s.requests.length ∧ request.status = .pending ∧ request.requesterId ≠ approverId
  | .findRecord id _ request | .headObject id _ request _ | .getObject id _ request _
  | .logEvent id _ request _ | .saveFulfilled id request _ =>
    id < s.requests.length ∧ request.status = .approved ∧ Approved s id request.requesterId
  | _ => True

/-- Requests are only added, and approvals stand. -/
structure Grows (s s' : State C B D) : Prop where
  requests : s.requests.length ≤ s'.requests.length
  approvals : ∀ a ∈ s.approvals, a ∈ s'.approvals
  disclosures : s.disclosures.Sublist s'.disclosures

theorem Approved.grows {requester : Nat} (h : Approved s id requester) (hg : Grows s s') :
    Approved s' id requester := by
  obtain ⟨a, ha, hrest⟩ := h
  exact ⟨a, hg.approvals a ha, hrest⟩

theorem Pc.Granted.grows (h : pc.Granted s) (hg : Grows s s') : pc.Granted s' := by
  cases pc with
  | saveApproved id approverId request => exact ⟨h.1.trans_le hg.requests, h.2⟩
  | findRecord id adminId request => exact ⟨h.1.trans_le hg.requests, h.2.1, h.2.2.grows hg⟩
  | headObject id adminId request rec => exact ⟨h.1.trans_le hg.requests, h.2.1, h.2.2.grows hg⟩
  | getObject id adminId request rec => exact ⟨h.1.trans_le hg.requests, h.2.1, h.2.2.grows hg⟩
  | logEvent id adminId request body => exact ⟨h.1.trans_le hg.requests, h.2.1, h.2.2.grows hg⟩
  | saveFulfilled id request body => exact ⟨h.1.trans_le hg.requests, h.2.1, h.2.2.grows hg⟩
  | _ => trivial

/-- A change that leaves each request as it is, or deletes it. -/
structure Fewer (s s' : State C B D) : Prop where
  requests : ∀ id request, s'.getRequest id = some request → s.getRequest id = some request
  length : s'.requests.length = s.requests.length
  approvals : s'.approvals = s.approvals
  disclosures : s'.disclosures = s.disclosures

theorem Fewer.grows (h : Fewer s s') : Grows s s' where
  requests := Nat.le_of_eq h.length.symm
  approvals _ ha := h.approvals ▸ ha
  disclosures := h.disclosures ▸ List.Sublist.refl _

theorem Requests.fewer (h : Requests s) (hf : Fewer s s') : Requests s' where
  asked id request hget hstatus := (h.asked id request (hf.requests _ _ hget) hstatus).grows hf.grows
  fulfilled := by
    intro d hd
    rw [hf.disclosures] at hd
    obtain ⟨hlt, hstatus⟩ := h.fulfilled d hd
    exact ⟨hf.length ▸ hlt, fun request hget => hstatus request (hf.requests _ _ hget)⟩
  once := hf.disclosures ▸ h.once
  approved d hd := (h.approved d (hf.disclosures ▸ hd)).grows hf.grows

theorem fewer_of_eq (hrequests : s'.requests = s.requests) (happrovals : s'.approvals = s.approvals)
    (hdisclosures : s'.disclosures = s.disclosures) : Fewer s s' where
  requests _ _ h := by unfold State.getRequest at h ⊢; rwa [hrequests] at h
  length := by rw [hrequests]
  approvals := happrovals
  disclosures := hdisclosures

theorem fewer_refl : Fewer s s := fewer_of_eq rfl rfl rfl

theorem fewer_deleteRecord : Fewer s (s.deleteRecord id) where
  requests _ _ h := (Slots.get_map_filter.mp h).1
  length := List.length_map ..
  approvals := rfl
  disclosures := rfl

/-- What a step leaves of the requests. -/
structure Proceeds (s s' : State C B D) (pc' : Pc C B D) : Prop where
  grows : Grows s s'
  requests : Requests s'
  granted : pc'.Granted s'

theorem Requests.proceeds (h : Requests s) (hf : Fewer s s') (hpc : pc'.Granted s') :
    Proceeds s s' pc' :=
  ⟨hf.grows, h.fewer hf, hpc⟩

theorem Requests.same (h : Requests s) (hpc : pc'.Granted s) : Proceeds s s pc' :=
  h.proceeds fewer_refl hpc

theorem Proceeds.orEnd {changed : Option (State C B D)} {pc₁ : Pc C B D} (hr : Requests s)
    (h : ∀ s₁, changed = some s₁ → Proceeds s s₁ pc₁)
    (hdone : orEnd s pc₁ changed = (s', pc')) : Proceeds s s' pc' := by
  cases changed with
  | none =>
    cases hdone
    exact hr.same trivial
  | some s₁ =>
    cases hdone
    exact h _ rfl

theorem Proceeds.settle {outcome : Outcome} {s₂ : State C B D} {pc₂ : Pc C B D} (hr : Requests s)
    (hdone : Proceeds s s' pc') (h : settle s outcome (s', pc') = (s₂, pc₂)) :
    Proceeds s s₂ pc₂ := by
  cases outcome with
  | ok =>
    cases h
    exact hdone
  | fail =>
    cases h
    exact hr.same trivial
  | lost =>
    cases h
    have hsub := hdone.grows.disclosures
    refine ⟨⟨hdone.grows.requests, hdone.grows.approvals, List.Sublist.refl _⟩, ?_, trivial⟩
    exact
      { asked := hdone.requests.asked
        fulfilled := fun d hd => hdone.requests.fulfilled d (hsub.subset hd)
        once := hdone.requests.once.sublist (hsub.map _)
        approved := fun d hd => hdone.requests.approved d (hsub.subset hd) }

/-! ## Steps -/

theorem granted_nextTable (later : List Table) : (nextTable later : Pc C B D).Granted s := by
  cases later <;> trivial

theorem granted_nextRow (place : Place C) : (nextRow place : Pc C B D).Granted s := by
  unfold nextRow
  split
  · trivial
  · split <;> trivial

theorem granted_nextExpired (rest : List (Nat × ArchiveRecord D)) :
    (nextExpired rest : Pc C B D).Granted s := by
  cases rest <;> trivial

theorem fewer_insertRecord {rec : ArchiveRecord D} (h : s.insertRecord rec = some s') :
    Fewer s s' := by
  unfold State.insertRecord at h
  split at h
  · cases h
    exact fewer_refl
  · split at h
    · cases h
    · cases h
      exact fewer_of_eq rfl rfl rfl

theorem fewer_deleteObject {storageKey : StorageKey} {versionId : Nat}
    (h : s.deleteObject storageKey versionId = some s') : Fewer s s' := by
  unfold State.deleteObject at h
  split at h
  · cases h
    exact fewer_refl
  · split at h
    · cases h
    · cases h
      exact fewer_of_eq rfl rfl rfl

theorem Requests.stepRun [DecidableEq C] [DecidableEq D] (hr : Requests s)
    (h : stepRun cfg lib s pc info = some (s', pc')) : Proceeds s s' pc' := by
  unfold AuditRetention.stepRun at h
  split at h
  case h_1 =>
    split at h
    · cases h
      exact hr.same (granted_nextRow _)
    · cases h
  case h_2 =>
    cases h
    exact hr.proceeds (fewer_of_eq rfl rfl rfl) trivial
  case h_3 =>
    cases h
    exact hr.same trivial
  case h_4 =>
    split at h
    · cases h
      exact hr.same trivial
    · split at h
      · cases h
        exact hr.same trivial
      · cases h
        exact hr.same trivial
  case h_5 =>
    refine .orEnd hr (fun s₁ hinsert => ?_) (Option.some.inj h)
    exact hr.proceeds (fewer_insertRecord hinsert) trivial
  case h_6 =>
    cases h
    exact hr.proceeds (fewer_of_eq rfl rfl rfl) (granted_nextRow _)
  case h_7 =>
    cases h
    exact hr.proceeds (fewer_of_eq rfl rfl rfl) (granted_nextTable _)
  case h_8 =>
    split at h
    · cases h
      exact hr.same (granted_nextExpired _)
    · cases h
  case h_9 =>
    refine .orEnd hr (fun s₁ hdelete => ?_) (Option.some.inj h)
    exact hr.proceeds (fewer_deleteObject hdelete) trivial
  case h_10 =>
    cases h
    exact hr.proceeds fewer_deleteRecord (granted_nextExpired _)
  case h_11 => cases h

/-- A new request is pending. -/
theorem Requests.insertRequest (hr : Requests s) (hpending : request.status = .pending)
    (h : s.insertRequest request = some s') : Proceeds s s' .ended := by
  unfold State.insertRequest at h
  split at h
  · cases h
    have hgrows : Grows s { s with requests := s.requests ++ [some request] } :=
      ⟨by simp, fun _ ha => ha, List.Sublist.refl _⟩
    refine ⟨hgrows, { hr with asked := ?_, fulfilled := ?_ }, trivial⟩
    · intro id asked hget hstatus
      rcases Slots.get_append_cases hget with hold | ⟨_, rfl⟩
      · exact hr.asked id asked hold hstatus
      · exact absurd hpending hstatus
    · intro d hd
      obtain ⟨hlt, hstatus⟩ := hr.fulfilled d hd
      refine ⟨hlt.trans_le hgrows.requests, fun asked hget => hstatus asked ?_⟩
      rwa [State.getRequest, Slots.get_append_of_lt hlt] at hget
  · cases h

/-- A request that is saved over what was read of it. -/
theorem stored_of_saveRequest {saved : RetrievalRequest} {f : State C B D → State C B D}
    (hc : ∀ stored ∈ s.getRequest id, stored = request)
    (h : (s.saveRequest id saved).map f = some s') :
    s.getRequest id = some request ∧
      s' = f { s with requests := s.requests.set id (some saved) } := by
  unfold State.saveRequest at h
  split at h
  · next hsome =>
    obtain ⟨stored, hstored⟩ := Option.isSome_iff_exists.mp hsome
    rw [hc stored hstored] at hstored
    cases h
    exact ⟨hstored, rfl⟩
  · cases h

/-- The other requests stay as they are. -/
theorem asked_of_save {saved : RetrievalRequest} (hr : Requests s) (hg : Grows s s')
    (hrequests : s'.requests = s.requests.set id (some saved))
    (hsaved : Approved s' id saved.requesterId) (other : Nat) (asked : RetrievalRequest)
    (hget : s'.getRequest other = some asked) (hstatus : asked.status ≠ .pending) :
    Approved s' other asked.requesterId := by
  rw [State.getRequest, hrequests] at hget
  rcases Slots.get_set_cases hget with ⟨rfl, hsome⟩ | ⟨_, hold⟩
  · cases hsome
    exact hsaved
  · exact (hr.asked other asked hold hstatus).grows hg

theorem Requests.saveApproved {approverId : Nat} (hr : Requests s)
    (hg : (Pc.saveApproved id approverId request : Pc C B D).Granted s)
    (hc : ∀ stored ∈ s.getRequest id, stored = request)
    (h : (s.saveRequest id (approve request approverId)).map
      (·.approved id approverId request) = some s') : Proceeds s s' .ended := by
  obtain ⟨hstored, rfl⟩ := stored_of_saveRequest hc h
  have hgrows : Grows s (State.approved
      { s with requests := s.requests.set id (some (approve request approverId)) }
      id approverId request) :=
    ⟨by simp [State.approved], fun _ ha => List.mem_append_left _ ha, List.Sublist.refl _⟩
  refine ⟨hgrows, ⟨asked_of_save hr hgrows rfl ?_, ?_, hr.once, ?_⟩, trivial⟩
  · exact ⟨_, List.mem_append_right _ (List.mem_singleton_self _), rfl, rfl, Ne.symm hg.2.2⟩
  · intro d hd
    obtain ⟨hlt, hstatus⟩ := hr.fulfilled d hd
    refine ⟨hlt.trans_le hgrows.requests, fun asked hget => ?_⟩
    rcases Slots.get_set_cases hget with ⟨hid, _⟩ | ⟨_, hold⟩
    · have hfulfilled := hstatus request (hid ▸ hstored)
      rw [hg.2.1] at hfulfilled
      cases hfulfilled
    · exact hstatus asked hold
  · exact fun d hd => (hr.approved d hd).grows hgrows

/-- A request that is approved has disclosed nothing. -/
theorem Requests.saveFulfilled {body : B} (hr : Requests s)
    (hg : (Pc.saveFulfilled id request body : Pc C B D).Granted s)
    (hc : ∀ stored ∈ s.getRequest id, stored = request)
    (h : (s.saveRequest id { request with status := .fulfilled }).map
      (·.disclosed id request body) = some s') : Proceeds s s' .ended := by
  obtain ⟨hstored, rfl⟩ := stored_of_saveRequest hc h
  obtain ⟨hlt, happroved, happroval⟩ := hg
  have hgrows : Grows s (State.disclosed
      { s with requests := s.requests.set id (some { request with status := .fulfilled }) }
      id request body) :=
    ⟨by simp [State.disclosed], fun _ ha => ha, List.sublist_append_left _ _⟩
  refine ⟨hgrows, ⟨asked_of_save hr hgrows rfl (happroval.grows hgrows), ?_, ?_, ?_⟩, trivial⟩
  · intro d hd
    rcases List.mem_append.mp hd with hold | hnew
    · obtain ⟨hdlt, hstatus⟩ := hr.fulfilled d hold
      refine ⟨hdlt.trans_le hgrows.requests, fun asked hget => ?_⟩
      rcases Slots.get_set_cases hget with ⟨_, hsome⟩ | ⟨_, hold⟩
      · cases hsome
        rfl
      · exact hstatus asked hold
    · rw [List.mem_singleton.mp hnew]
      refine ⟨hlt.trans_le hgrows.requests, fun asked hget => ?_⟩
      rcases Slots.get_set_cases hget with ⟨_, hsome⟩ | ⟨hne, _⟩
      · cases hsome
        rfl
      · exact absurd rfl hne
  · show ((s.disclosures ++ [(⟨id, request.requesterId, body⟩ : Disclosure B)]).map
      (·.request)).Nodup
    rw [List.map_append, List.map_singleton, List.nodup_append]
    refine ⟨hr.once, List.nodup_singleton _, ?_⟩
    intro other hother same hsame heq
    obtain ⟨d, hd, rfl⟩ := List.mem_map.mp hother
    rw [List.mem_singleton.mp hsame] at heq
    have hfulfilled := (hr.fulfilled d hd).2 request (heq ▸ hstored)
    rw [happroved] at hfulfilled
    cases hfulfilled
  · intro d hd
    rcases List.mem_append.mp hd with hold | hnew
    · exact (hr.approved d hold).grows hgrows
    · rw [List.mem_singleton.mp hnew]
      exact happroval.grows hgrows

theorem Requests.stepCall [DecidableEq D] (hr : Requests s) (hg : pc.Granted s)
    (hc : pc.Current s) (h : stepCall lib s pc info = some (s', pc')) : Proceeds s s' pc' := by
  unfold AuditRetention.stepCall at h
  split at h
  case h_1 =>
    split at h
    · cases h
      exact hr.same trivial
    · split at h
      · cases h
        exact hr.same trivial
      · cases h
        exact hr.same trivial
  case h_2 archiveRecordId requesterId =>
    exact .orEnd hr (fun s₁ hinsert => hr.insertRequest rfl hinsert) (Option.some.inj h)
  case h_3 requestId approverId =>
    split at h
    · cases h
      exact hr.same trivial
    · next request hget =>
      split at h
      · cases h
        exact hr.same trivial
      · next hallowed =>
        cases h
        rw [not_or, not_not] at hallowed
        exact hr.same ⟨Slots.lt_length_of_get hget, hallowed⟩
  case h_4 requestId approverId request =>
    exact .orEnd hr (fun s₁ hsave => hr.saveApproved hg hc hsave) (Option.some.inj h)
  case h_5 requestId adminId =>
    split at h
    · cases h
      exact hr.same trivial
    · next request hget =>
      split at h
      · next happroved =>
        cases h
        refine hr.same ⟨Slots.lt_length_of_get hget, happroved, hr.asked _ _ hget ?_⟩
        rw [happroved]
        decide
      · cases h
        exact hr.same trivial
  case h_6 =>
    split at h
    · cases h
      exact hr.same trivial
    · split at h
      · cases h
        exact hr.same trivial
      · cases h
        exact hr.same hg
  case h_7 =>
    split at h
    · cases h
      exact hr.same hg
    · cases h
      exact hr.same trivial
  case h_8 =>
    split at h
    · cases h
      exact hr.same trivial
    · split at h
      · cases h
        exact hr.same hg
      · cases h
        exact hr.same trivial
  case h_9 requestId adminId request body drawn =>
    split at h
    · cases h
      have hfewer : Fewer s (s.insertRow (retrievalLog lib s drawn requestId adminId request)) :=
        fewer_of_eq rfl rfl rfl
      have hg' : (Pc.saveFulfilled requestId request body : Pc C B D).Granted s := hg
      exact hr.proceeds hfewer (hg'.grows hfewer.grows)
    · cases h
  case h_10 requestId request body =>
    exact .orEnd hr (fun s₁ hsave => hr.saveFulfilled hg hc hsave) (Option.some.inj h)
  case h_11 => cases h

theorem Requests.step [DecidableEq C] [DecidableEq D] {outcome : Outcome}
    {done : State C B D × Pc C B D} (hr : Requests s) (hg : pc.Granted s) (hc : pc.Current s)
    (hstep : step cfg lib s pc info = some done) (h : settle s outcome done = (s', pc')) :
    Proceeds s s' pc' := by
  obtain ⟨s₁, pc₁⟩ := done
  have hdone : Proceeds s s₁ pc₁ := by
    unfold AuditRetention.step at hstep
    cases hrun : AuditRetention.stepRun cfg lib s pc info with
    | some done =>
      rw [hrun] at hstep
      cases hstep
      exact hr.stepRun hrun
    | none =>
      rw [hrun] at hstep
      exact hr.stepCall hg hc hstep
  exact hdone.settle hr h

/-! ## Runs -/

section Runs

variable {sys sys' : System C B D} {w : Nat}

structure Inv (lib : Library C B D) (sys : System C B D) : Prop where
  kept : Kept lib sys.state
  requests : Requests sys.state
  sound : ∀ pc ∈ sys.threads, Sound lib sys.state pc
  granted : ∀ pc ∈ sys.threads, pc.Granted sys.state

theorem Inv.retained (h : Inv lib sys) : Retained lib sys.state where
  kept row hrow hnow := (h.kept.settled row hrow).imp_right fun hs => hs.archived frame_refl hnow
  once := h.requests.once
  approved := h.requests.approved

/-- One thread has moved. -/
theorem Inv.set (h : Inv lib sys) (hs : SoundStep lib sys.state s' pc')
    (hp : Proceeds sys.state s' pc') : Inv lib ⟨s', sys.threads.set w pc'⟩ where
  kept := h.kept.frame hs.frame hs.tidy
  requests := hp.requests
  sound := by
    intro pc hpc
    rcases List.mem_or_eq_of_mem_set hpc with hold | rfl
    · exact (h.sound pc hold).frame hs.frame hs.tidy
    · exact hs.sound
  granted := by
    intro pc hpc
    rcases List.mem_or_eq_of_mem_set hpc with hold | rfl
    · exact (h.granted pc hold).grows hp.grows
    · exact hp.granted

/-- No thread has moved. -/
theorem Inv.state (h : Inv lib sys) (hf : Frame lib sys.state s') (ht : Tidy s')
    (hfewer : Fewer sys.state s') : Inv lib ⟨s', sys.threads⟩ where
  kept := h.kept.frame hf ht
  requests := h.requests.fewer hfewer
  sound pc hpc := (h.sound pc hpc).frame hf ht
  granted pc hpc := (h.granted pc hpc).grows hfewer.grows

theorem Inv.call (h : Inv lib sys) (hs : Sound lib sys.state pc) (hg : pc.Granted sys.state) :
    Inv lib (sys.call pc) :=
  { h with
    sound := forall_mem_append h.sound hs
    granted := forall_mem_append h.granted hg }

theorem Inv.updateRow (h : Inv lib sys) (hin : ∃ other ∈ sys.state.sources, other.key = row.key)
    (hwhole : toDate row.retentionUntil = row.retentionUntil)
    (hhand : ∀ pc ∈ sys.threads, ∀ other ∈ pc.inHand, other.key ≠ row.key) :
    Inv lib ⟨sys.state.updateRow row, sys.threads⟩ := by
  have hfewer : Fewer sys.state (sys.state.updateRow row) := fewer_of_eq rfl rfl rfl
  exact
    { kept := h.kept.updateRow hin hwhole
      requests := h.requests.fewer hfewer
      sound := fun pc hpc => (h.sound pc hpc).updateRow (hhand pc hpc)
      granted := fun pc hpc => (h.granted pc hpc).grows hfewer.grows }

/-- An update leaves each row under its id. -/
theorem timely_updateRow : Timely lib s (s.updateRow row) where
  rows _ h := .inl ⟨_, List.mem_map_of_mem h, key_replace⟩
  objects _ _ _ h := .inl h
  records _ _ h := .inl h

theorem sound_runRetention : Sound lib s (runRetention cfg) := by
  unfold runRetention
  split
  · exact sound_nextTable _
  · exact sound_ended

theorem granted_runRetention : (runRetention cfg : Pc C B D).Granted s := by
  unfold runRetention
  split
  · exact granted_nextTable _
  · trivial

theorem Inv.next [DecidableEq C] [DecidableEq D] {e : Event C D} (h : Inv lib sys)
    (hu : Undisturbed sys e) (hnext : next cfg lib sys e = some sys') :
    Inv lib sys' ∧ Timely lib sys.state sys'.state := by
  have htimely : ∀ {s'}, Frame lib sys.state s' → Timely lib sys.state s' := h.kept.timely
  cases e with
  | tick now =>
    simp only [AuditRetention.next] at hnext
    split at hnext
    · next hle =>
      cases hnext
      have hframe : Frame lib sys.state { sys.state with now } :=
        frame_of_eq hle rfl rfl rfl rfl
      exact ⟨h.state hframe (h.kept.tidy.mono rfl fun _ h => h) (fewer_of_eq rfl rfl rfl),
        htimely hframe⟩
    · cases hnext
  | insertRow row =>
    simp only [AuditRetention.next] at hnext
    split at hnext
    · next hfresh =>
      cases hnext
      exact ⟨h.state frame_insertRow (h.kept.tidy.insertRow hfresh hu) (fewer_of_eq rfl rfl rfl),
        htimely frame_insertRow⟩
    · cases hnext
  | updateRow row =>
    simp only [AuditRetention.next] at hnext
    split at hnext
    · next hin =>
      cases hnext
      exact ⟨h.updateRow hin hu.1 hu.2, timely_updateRow⟩
    · cases hnext
  | runRetention =>
    cases hnext
    exact ⟨h.call sound_runRetention granted_runRetention, htimely frame_refl⟩
  | requestRetrieval archiveRecordId requesterId =>
    cases hnext
    exact ⟨h.call (sound_of_idle rfl rfl trivial) trivial, htimely frame_refl⟩
  | approveRetrieval requestId approverId =>
    cases hnext
    exact ⟨h.call (sound_of_idle rfl rfl trivial) trivial, htimely frame_refl⟩
  | retrieveApproved requestId adminId =>
    cases hnext
    exact ⟨h.call (sound_of_idle rfl rfl trivial) trivial, htimely frame_refl⟩
  | step w outcome info =>
    simp only [AuditRetention.next, Option.bind_eq_bind, Option.bind_eq_some_iff] at hnext
    obtain ⟨pc, hpc, done, hstep, hsys⟩ := hnext
    cases hsettle : settle sys.state outcome done with
    | mk s' pc' =>
      rw [hsettle] at hsys
      cases hsys
      have hmem := List.mem_of_getElem? hpc
      have hs := (h.sound pc hmem).step h.kept.tidy hstep hsettle
      have hp := h.requests.step (h.granted pc hmem) (hu pc hpc) hstep hsettle
      exact ⟨h.set hs hp, htimely hs.frame⟩
  | crash w =>
    simp only [AuditRetention.next] at hnext
    split at hnext
    · cases hnext
      exact ⟨h.set (.same h.kept.tidy sound_ended) (h.requests.same trivial), htimely frame_refl⟩
    · cases hnext

theorem inv_start : Inv lib (start : System C B D) where
  kept :=
    { tidy := ⟨List.nodup_nil, fun _ h => absurd h List.not_mem_nil,
        fun _ h => absurd h List.not_mem_nil⟩
      settled := fun _ h => absurd h List.not_mem_nil
      described := fun _ _ h => absurd (Slots.lt_length_of_get h) (Nat.not_lt_zero _) }
  requests :=
    { asked := fun _ _ h => absurd (Slots.lt_length_of_get h) (Nat.not_lt_zero _)
      fulfilled := fun _ h => absurd h List.not_mem_nil
      once := List.nodup_nil
      approved := fun _ h => absurd h List.not_mem_nil }
  sound _ h := absurd h List.not_mem_nil
  granted _ h := absurd h List.not_mem_nil

/-- In a run whose steps are all undisturbed no retained row is lost, nothing goes before its time,
    and each request discloses at most once and after its approval. -/
theorem never_lost [DecidableEq C] [DecidableEq D] (cfg : Config) (lib : Library C B D)
    (xs : List (Step (System C B D) (Event C D))) (sys : System C B D)
    (h : RetentionRun cfg lib xs sys) (hu : ∀ x ∈ xs, Undisturbed x.pre x.act) :
    (∀ x ∈ xs, Retained lib x.pre.state ∧ Retained lib x.post.state ∧
      Timely lib x.pre.state x.post.state) ∧ Retained lib sys.state := by
  have hstep : ∀ x ∈ xs, next cfg lib x.pre x.act = some x.post → Inv lib x.pre →
      Inv lib x.post := fun x hx hnext hinv => (hinv.next (hu x hx) hnext).1
  constructor
  · intro x hx
    obtain ⟨hnext, hpre, hpost⟩ := h.steps_invariant (Inv lib) inv_start hstep x hx
    exact ⟨hpre.retained, hpost.retained, (hpre.next (hu x hx) hnext).2⟩
  · exact (h.invariant (Inv lib) inv_start hstep).retained

/-! ## Examples -/

def library : Library String (SourceRow String) (SourceRow String) :=
  { stringify := fun row => row
    sha256 := fun body => body
    retrievalEntry := fun _ _ _ => "GET /api/v1/admin/audit-archive-retrievals/:id" }

def config : Config := ⟨true, 30⟩

def dealCreated : SourceRow String :=
  ⟨.auditLogs, 7, .financialTransaction, 2555 * day, some 0, "user 1 created a deal"⟩

/-- User 1 was deleted, and the foreign key is set to `NULL`. -/
def ofNobody : SourceRow String := { dealCreated with content := "nobody created a deal" }

def lock : Lock (SourceRow String) := ⟨some dealCreated, some .compliance, some (2555 * day)⟩

def go (w : Nat) : Event String (SourceRow String) := .step w .ok .nothing

/-- Run `w` comes to its page of `audit_logs`. -/
def readsPage (w : Nat) : List (Event String (SourceRow String)) :=
  [.runRetention, .step w .ok (.rows []), go w, .step w .ok (.rows [dealCreated])]

def archives (w : Nat) : List (Event String (SourceRow String)) :=
  [.step w .ok (.kept lock), go w, go w, go w]

/-- The calls 2 and 3 request the record and approve it. -/
def approvedRequest : List (Event String (SourceRow String)) :=
  [.requestRetrieval 0 11, go 2, go 2, .approveRetrieval 0 12, go 3, go 3]

def retrieves (w id : Nat) : List (Event String (SourceRow String)) :=
  [go w, .step w .ok (.restore .ready), go w, .step w .ok (.drawn id)]

/-- Two runs archive one row, and one request of it is retrieved. -/
def archivedAndRetrieved : List (Event String (SourceRow String)) :=
  [.insertRow dealCreated, .tick (31 * day)] ++ readsPage 0 ++ readsPage 1 ++ archives 0 ++
    archives 1 ++ [.crash 1] ++ approvedRequest ++ [.retrieveApproved 0 11, go 4] ++
    retrieves 4 8 ++ [go 4]

/-- The row is updated between the page and its deletion. -/
def updatedMeanwhile : List (Event String (SourceRow String)) :=
  [.insertRow dealCreated, .tick (31 * day)] ++ readsPage 0 ++ [.updateRow ofNobody] ++ archives 0

/-- Both retrievals read the request before either saves it. -/
def retrievedTwice : List (Event String (SourceRow String)) :=
  [.insertRow dealCreated, .tick (31 * day)] ++ readsPage 0 ++ archives 0 ++ [.runRetention] ++
    approvedRequest ++ [.retrieveApproved 0 11, go 4, .retrieveApproved 0 12, go 5] ++
    retrieves 4 8 ++ retrieves 5 9 ++ [go 4, go 5]

theorem never_lost_archivedAndRetrieved :
    (∀ x ∈ (replay (next config library) start archivedAndRetrieved).1,
      Retained library x.pre.state ∧ Retained library x.post.state ∧
        Timely library x.pre.state x.post.state) ∧
      Retained library (replay (next config library) start archivedAndRetrieved).2.state :=
  never_lost config library _ _ (run_replay (next config library) start archivedAndRetrieved)
    (by decide +kernel)

/-- The run archives the row as its page had it, and deletes it as it is. -/
theorem row_lost : ¬ ∀ (xs : List (Step (System String (SourceRow String) (SourceRow String))
    (Event String (SourceRow String)))) (sys : System String (SourceRow String) (SourceRow String)),
    RetentionRun config library xs sys → Retained library sys.state := by
  intro h
  have hkept := (h _ _ (run_replay (next config library) start updatedMeanwhile)).kept ofNobody
    (by decide +kernel) (by decide +kernel)
  obtain hin | ⟨id, rec, object, -, -, hobject, -, hbody⟩ := hkept
  · exact absurd hin (by decide +kernel)
  · have hmem := Slots.mem_reduceOption.mpr ⟨_, (getObject_eq_some.mp hobject).1⟩
    have hother : ∀ object ∈ (replay (next config library) start updatedMeanwhile).2.state.objects
        |>.reduceOption, object.body ≠ library.stringify ofNobody := by
      decide +kernel
    exact hother object hmem hbody

theorem disclosed_twice : ¬ ∀ (xs : List (Step (System String (SourceRow String) (SourceRow String))
    (Event String (SourceRow String)))) (sys : System String (SourceRow String) (SourceRow String)),
    RetentionRun config library xs sys → Retained library sys.state := by
  intro h
  have honce := (h _ _ (run_replay (next config library) start retrievedTwice)).once
  exact absurd honce (by decide +kernel)

end Runs

end AgriFi.AuditRetention
