import AgriFi.Threads
import AgriFi.Zkp.Service

/-
  What a revocation is worth. An anchoring or an expiry that has loaded the proof before it was
  revoked writes the earlier status over it, and so does an expiry of a revoked proof
  (`revoked_verifies`). `revocation_sticks`: when neither happens a revoked proof stays revoked and
  no verification that begins later is valid; a proof past its expiry verifies in no run.
-/

namespace AgriFi.Zkp

open AgriFi.Runs AgriFi.Threads
open AgriFi.DealDelivered (Outcome)

variable {Inputs : Type} {circuit : Circuit Inputs} {s s' : State Inputs}
  {sys sys' : System Inputs} {pc pc' saved failed : Pc Inputs} {proof : ZkpProof Inputs}
  {loaded : Loaded Inputs} {call : VerifyCall Inputs} {o : Outcome} {w : Nat} {id : String}

/-! ## What is claimed -/

/-- A proof whose revocation has returned is stored as revoked, and the verifications that began
    later did not find it valid. -/
structure RevocationSticks (sys : System Inputs) : Prop where
  stored : ∀ id ∈ sys.state.revoked,
    ∃ proof, sys.state.proofs id = some proof ∧ proof.status = .revoked
  verified : ∀ call, Pc.verified call true ∈ sys.threads → call.afterRevoked = false

/-- What verified was not past its expiry when the verification began. -/
def ExpiryRespected (sys : System Inputs) : Prop :=
  ∀ call, Pc.verified call true ∈ sys.threads →
    ∃ proof, sys.state.proofs call.proofId = some proof ∧ proof.isExpired call.startedAt = false

/-! ## Stale saves -/

/-- An expiry or an anchoring is saved only when no revocation of the proof was saved after it had
    loaded the proof, and an expiry only of a proof that was not revoked. -/
def Pc.Current (s : State Inputs) : Pc Inputs → Prop
  | .expireSave loaded _ =>
    loaded.proof.status ≠ .revoked ∧ loaded.seen = s.revocations.count loaded.proof.id
  | .anchorSave loaded => loaded.seen = s.revocations.count loaded.proof.id
  | _ => True

instance (s : State Inputs) : (pc : Pc Inputs) → Decidable (pc.Current s)
  | .expireSave _ _ => inferInstanceAs (Decidable (_ ∧ _))
  | .anchorSave _ => inferInstanceAs (Decidable (_ = _))
  | .generateSave _ | .verifyFind _ | .verifyLog _ _ | .revokeFind _ _ _ | .revokeSave _ _
  | .revokeLog _ | .expireFind _ | .anchorFind _ | .verified _ _ | .returned | .threw =>
    isTrue trivial

def Current (sys : System Inputs) : Event Inputs → Prop
  | .run w _ => ∀ pc ∈ sys.threads[w]?, pc.Current sys.state
  | _ => True

instance (sys : System Inputs) : (e : Event Inputs) → Decidable (Current sys e)
  | .run _ _ => inferInstanceAs (Decidable (∀ pc ∈ sys.threads[_]?, _))
  | .generateProof _ _ | .verifyProof _ _ | .revokeProof _ _ _ | .expireProof _
  | .anchorProofOnChain _ | .tick _ => isTrue trivial

/-! ## What a step does -/

/-- What a step writes: nothing, the row that its thread saves, or the note of a revocation that
    returns. A revocation is counted with its save. -/
inductive Writes (s : State Inputs) : Pc Inputs → State Inputs → Prop
  | nothing {pc : Pc Inputs} : Writes s pc s
  | generated {proof : ZkpProof Inputs} (hnew : s.proofs proof.id = none) :
    Writes s (.generateSave proof) (s.save proof)
  | expired {loaded : Loaded Inputs} {call : Option (VerifyCall Inputs)} :
    Writes s (.expireSave loaded call) (s.save loaded.proof.expire)
  | anchored {loaded : Loaded Inputs} : Writes s (.anchorSave loaded) (s.save loaded.proof.anchor)
  | revoked {loaded : Loaded Inputs} {reason : String} : Writes s (.revokeSave loaded reason)
    { s.save (loaded.proof.revoke reason) with revocations := loaded.proof.id :: s.revocations }
  | noted {proofId : String} :
    Writes s (.revokeLog proofId) { s with revoked := proofId :: s.revoked }

theorem writes_saveWith (h : Writes s pc (s.save proof)) :
    Writes s pc (s.saveWith proof o saved failed).1 := by
  cases o with
  | ok | lost => exact h
  | fail => exact .nothing

theorem step_writes (hstep : step circuit s o pc = some (s', pc')) : Writes s pc s' := by
  cases pc with
  | generateSave proof =>
    simp only [step] at hstep
    split at hstep <;> obtain rfl : _ = s' := congrArg Prod.fst (Option.some.inj hstep)
    · exact .nothing
    · next hnew => exact writes_saveWith (.generated (Option.not_isSome_iff_eq_none.mp hnew))
  | revokeSave loaded reason =>
    obtain rfl : _ = s' := congrArg Prod.fst (Option.some.inj hstep)
    cases o with
    | ok | lost => exact .revoked
    | fail => exact .nothing
  | expireSave =>
    obtain rfl : _ = s' := congrArg Prod.fst (Option.some.inj hstep)
    exact writes_saveWith .expired
  | anchorSave =>
    obtain rfl : _ = s' := congrArg Prod.fst (Option.some.inj hstep)
    exact writes_saveWith .anchored
  | revokeLog =>
    obtain rfl : _ = s' := congrArg Prod.fst (Option.some.inj hstep)
    exact .noted
  | verifyFind | verifyLog | revokeFind | expireFind | anchorFind =>
    obtain rfl : _ = s' := congrArg Prod.fst (Option.some.inj hstep)
    exact .nothing
  | verified | returned | threw => cases hstep

/-- How a call goes on: it ends, or with what it has found or saved. -/
inductive Goes (circuit : Circuit Inputs) (s s' : State Inputs) : Pc Inputs → Pc Inputs → Prop
  | returned {pc : Pc Inputs} : Goes circuit s s' pc .returned
  | threw {pc : Pc Inputs} : Goes circuit s s' pc .threw
  | verifies {call : VerifyCall Inputs} {proof : ZkpProof Inputs}
    (hproof : s.proofs call.proofId = some proof) :
    Goes circuit s s' (.verifyFind call) (verifyProof circuit s call proof)
  | verified {call : VerifyCall Inputs} {valid : Bool} :
    Goes circuit s s' (.verifyLog call valid) (.verified call valid)
  | revokes {id ownerId reason : String} {proof : ZkpProof Inputs}
    (hproof : s.proofs id = some proof) :
    Goes circuit s s' (.revokeFind id ownerId reason) (.revokeSave (s.load proof) reason)
  | revoked {loaded : Loaded Inputs} {reason : String}
    (hcounted : loaded.proof.id ∈ s'.revocations) :
    Goes circuit s s' (.revokeSave loaded reason) (.revokeLog loaded.proof.id)
  | expires {id : String} {proof : ZkpProof Inputs} (hproof : s.proofs id = some proof) :
    Goes circuit s s' (.expireFind id) (.expireSave (s.load proof) none)
  | expired {loaded : Loaded Inputs} {call : VerifyCall Inputs} :
    Goes circuit s s' (.expireSave loaded (some call)) (.verifyLog call false)
  | anchors {id : String} {proof : ZkpProof Inputs} (hproof : s.proofs id = some proof) :
    Goes circuit s s' (.anchorFind id) (.anchorSave (s.load proof))

theorem goes_findOne {found : ZkpProof Inputs → Pc Inputs}
    (h : ∀ proof, s.proofs id = some proof → Goes circuit s s' pc (found proof)) :
    Goes circuit s s' pc (s.findOne id o found) := by
  unfold State.findOne
  split
  · next proof hproof => exact h proof hproof
  · exact .threw

theorem step_goes (hstep : step circuit s o pc = some (s', pc')) : Goes circuit s s' pc pc' := by
  cases pc with
  | verifyFind =>
    obtain ⟨rfl, rfl⟩ := Prod.mk.inj (Option.some.inj hstep)
    exact goes_findOne fun proof hproof => .verifies hproof
  | verifyLog =>
    obtain ⟨rfl, rfl⟩ := Prod.mk.inj (Option.some.inj hstep)
    exact .verified
  | revokeFind =>
    obtain ⟨rfl, rfl⟩ := Prod.mk.inj (Option.some.inj hstep)
    refine goes_findOne fun proof hproof => ?_
    unfold revokeProof
    split
    · exact .threw
    · split
      · exact .threw
      · exact .revokes hproof
  | expireFind =>
    obtain ⟨rfl, rfl⟩ := Prod.mk.inj (Option.some.inj hstep)
    exact goes_findOne fun proof hproof => .expires hproof
  | anchorFind =>
    obtain ⟨rfl, rfl⟩ := Prod.mk.inj (Option.some.inj hstep)
    exact goes_findOne fun proof hproof => .anchors hproof
  | revokeLog =>
    obtain ⟨rfl, rfl⟩ := Prod.mk.inj (Option.some.inj hstep)
    exact .returned
  | generateSave proof =>
    simp only [step] at hstep
    split at hstep
    · obtain ⟨rfl, rfl⟩ := Prod.mk.inj (Option.some.inj hstep)
      exact .threw
    · cases o <;> obtain ⟨rfl, rfl⟩ := Prod.mk.inj (Option.some.inj hstep)
      case ok => exact .returned
      case fail | lost => exact .threw
  | revokeSave loaded reason =>
    cases o <;> obtain ⟨rfl, rfl⟩ := Prod.mk.inj (Option.some.inj hstep)
    case ok => exact .revoked (List.mem_cons_self ..)
    case fail | lost => exact .threw
  | anchorSave loaded =>
    cases o <;> obtain ⟨rfl, rfl⟩ := Prod.mk.inj (Option.some.inj hstep) <;> exact .returned
  | expireSave loaded call =>
    cases o <;> obtain ⟨rfl, rfl⟩ := Prod.mk.inj (Option.some.inj hstep)
    case ok =>
      cases call with
      | none => exact .returned
      | some call => exact .expired
    case fail | lost => exact .threw
  | verified | returned | threw => cases hstep

/-! ## What rows keep -/

theorem save_self : (s.save proof).proofs proof.id = some proof := Function.update_self ..

theorem save_of_ne (h : id ≠ proof.id) : (s.save proof).proofs id = s.proofs id :=
  Function.update_of_ne h ..

/-- Rows stay, with their expiry, time goes on, and revocations are not forgotten. -/
structure Later (s s' : State Inputs) : Prop where
  rows : ∀ id proof, s.proofs id = some proof →
    ∃ proof', s'.proofs id = some proof' ∧ proof'.expiresAt = proof.expiresAt
  now : s.now ≤ s'.now
  count : ∀ id, s.revocations.count id ≤ s'.revocations.count id

theorem Later.refl (s : State Inputs) : Later s s :=
  ⟨fun _ proof hproof => ⟨proof, hproof, rfl⟩, le_rfl, fun _ => le_rfl⟩

theorem Later.mem (h : Later s s') (hid : id ∈ s.revocations) : id ∈ s'.revocations :=
  List.count_pos_iff.mp (Nat.lt_of_lt_of_le (List.count_pos_iff.mpr hid) (h.count id))

/-- The stored proof expires at the same time. -/
def State.Stores (s : State Inputs) (proof : ZkpProof Inputs) : Prop :=
  ∃ row, s.proofs proof.id = some row ∧ row.expiresAt = proof.expiresAt

theorem State.Stores.later (hstores : s.Stores proof) (h : Later s s') : s'.Stores proof := by
  obtain ⟨row, hrow, hexpiry⟩ := hstores
  obtain ⟨row', hrow', hsame⟩ := h.rows _ _ hrow
  exact ⟨row', hrow', hsame.trans hexpiry⟩

theorem later_save (hrow : s.proofs proof.id = none ∨ s.Stores proof) : Later s (s.save proof) := by
  refine ⟨fun id row hfound => ?_, le_rfl, fun _ => le_rfl⟩
  by_cases hid : id = proof.id
  · subst hid
    refine ⟨proof, save_self, ?_⟩
    rcases hrow with hnone | ⟨row', hrow', hexpiry⟩
    · exact absurd (hnone.symm.trans hfound) nofun
    · obtain rfl := Option.some.inj (hrow'.symm.trans hfound)
      exact hexpiry.symm
  · exact ⟨row, (save_of_ne hid).trans hfound, rfl⟩

theorem Later.revoke (h : Later s s') (revocations : List String)
    (hgrows : ∀ id, s.revocations.count id ≤ revocations.count id) :
    Later s { s' with revocations } :=
  ⟨h.rows, h.now, hgrows⟩

/-! ## Expiry -/

/-- What a call knows of the proof's expiry. -/
def Pc.Timed (s : State Inputs) : Pc Inputs → Prop
  | .verifyFind call => call.startedAt ≤ s.now
  | .verifyLog call valid | .verified call valid => valid = true →
    ∃ proof, s.proofs call.proofId = some proof ∧ proof.isExpired call.startedAt = false
  | .revokeSave loaded _ | .expireSave loaded _ | .anchorSave loaded => s.Stores loaded.proof
  | .generateSave _ | .revokeFind _ _ _ | .revokeLog _ | .expireFind _ | .anchorFind _ | .returned
  | .threw => True

theorem Pc.Timed.later (htimed : pc.Timed s) (h : Later s s') : pc.Timed s' := by
  cases pc with
  | verifyFind => exact le_trans (b := s.now) htimed h.now
  | verifyLog call | verified call =>
    intro hvalid
    obtain ⟨proof, hproof, hfresh⟩ := htimed hvalid
    obtain ⟨proof', hproof', hexpiry⟩ := h.rows _ _ hproof
    refine ⟨proof', hproof', ?_⟩
    rw [ZkpProof.isExpired, hexpiry]
    exact hfresh
  | revokeSave | expireSave | anchorSave => exact State.Stores.later htimed h
  | generateSave | revokeFind | revokeLog | expireFind | anchorFind | returned | threw => trivial

structure Expiring (sys : System Inputs) : Prop where
  ids : ∀ id proof, sys.state.proofs id = some proof → proof.id = id
  timed : ∀ pc ∈ sys.threads, pc.Timed sys.state

theorem ids_save (h : ∀ id proof, s.proofs id = some proof → proof.id = id) :
    ∀ id row, (s.save proof).proofs id = some row → row.id = id := by
  intro id row hrow
  by_cases hid : id = proof.id
  · subst hid
    rw [save_self] at hrow
    rw [← Option.some.inj hrow]
  · rw [save_of_ne hid] at hrow
    exact h id row hrow

theorem Writes.later (h : Writes s pc s') (htimed : pc.Timed s) : Later s s' := by
  cases h with
  | nothing => exact .refl s
  | generated hnew => exact later_save (.inl hnew)
  | expired => exact later_save (.inr htimed)
  | anchored => exact later_save (.inr htimed)
  | @revoked loaded reason =>
    have hsave : Later s (s.save (loaded.proof.revoke reason)) := later_save (.inr htimed)
    exact hsave.revoke _ fun id => List.count_le_count_cons
  | noted => exact ⟨fun _ proof hproof => ⟨proof, hproof, rfl⟩, le_rfl, fun _ => le_rfl⟩

theorem timed_verifyProof (hids : ∀ id proof, s.proofs id = some proof → proof.id = id)
    (hstarted : call.startedAt ≤ s.now) (hproof : s.proofs call.proofId = some proof) :
    (verifyProof circuit s call proof).Timed s := by
  unfold verifyProof
  split
  · exact nofun
  · split
    · exact ⟨proof, (hids _ _ hproof).symm ▸ hproof, rfl⟩
    · next hfresh =>
      refine fun _ => ⟨proof, hproof, ?_⟩
      -- what has not expired now had not when the call began
      unfold ZkpProof.isExpired at hfresh ⊢
      split
      · rfl
      · next expiresAt hexpires =>
        rw [hexpires] at hfresh
        simp only [decide_eq_true_eq, not_lt] at hfresh
        simp only [decide_eq_false_iff_not, not_lt]
        omega

theorem Goes.timed (h : Goes circuit s s' pc pc')
    (hids : ∀ id proof, s.proofs id = some proof → proof.id = id) (htimed : pc.Timed s) :
    pc'.Timed s := by
  cases h with
  | verifies hproof => exact timed_verifyProof hids htimed hproof
  | verified => exact htimed
  | revokes hproof | expires hproof | anchors hproof =>
    exact ⟨_, (hids _ _ hproof).symm ▸ hproof, rfl⟩
  | expired => exact nofun
  | revoked | returned | threw => trivial

theorem Writes.ids (h : Writes s pc s')
    (hids : ∀ id proof, s.proofs id = some proof → proof.id = id) :
    ∀ id proof, s'.proofs id = some proof → proof.id = id := by
  cases h with
  | nothing | noted => exact hids
  | generated | expired | anchored | revoked => exact ids_save hids

theorem Expiring.enter (h : Expiring sys) (hpc : pc.Timed sys.state) : Expiring (sys.call pc) :=
  ⟨h.ids, forall_mem_append h.timed hpc⟩

theorem Expiring.next {e : Event Inputs} (h : Expiring sys) (hnext : next circuit sys e = some sys') :
    Expiring sys' := by
  cases e with
  | generateProof | revokeProof | expireProof | anchorProofOnChain =>
    obtain rfl := Option.some.inj hnext
    exact h.enter trivial
  | verifyProof =>
    obtain rfl := Option.some.inj hnext
    exact h.enter (le_refl sys.state.now)
  | tick ms =>
    obtain rfl := Option.some.inj hnext
    refine ⟨h.ids, fun pc hpc => (h.timed pc hpc).later ?_⟩
    exact ⟨fun _ proof hproof => ⟨proof, hproof, rfl⟩, Nat.le_add_right .., fun _ => le_rfl⟩
  | run w o =>
    obtain ⟨pc, hw, hnext⟩ := Option.bind_eq_some_iff.mp hnext
    obtain ⟨⟨s', pc'⟩, hstep, hnext⟩ := Option.bind_eq_some_iff.mp hnext
    obtain rfl := Option.some.inj hnext
    have hmine := h.timed pc (List.mem_of_getElem? hw)
    have hlater := (step_writes hstep).later hmine
    exact ⟨(step_writes hstep).ids h.ids, forall_mem_set
      (fun _ pc hv _ => (h.timed pc (List.mem_of_getElem? hv)).later hlater)
      (((step_goes hstep).timed h.ids hmine).later hlater)⟩

/-! ## Revocations -/

/-- The stored proof is revoked. -/
def State.Revoked (s : State Inputs) (id : String) : Prop :=
  ∃ proof, s.proofs id = some proof ∧ proof.status = .revoked

/-- An entity that no revocation of its proof has overtaken is revoked when its proof is. -/
structure Loaded.Sound (s : State Inputs) (loaded : Loaded Inputs) : Prop where
  seen : loaded.seen ≤ s.revocations.count loaded.proof.id
  status : loaded.seen = s.revocations.count loaded.proof.id →
    loaded.proof.id ∈ s.revocations → loaded.proof.status = .revoked

/-- What a call knows of the proof's revocations. -/
def Pc.Sound (s : State Inputs) : Pc Inputs → Prop
  | .verifyFind call => call.afterRevoked = true → call.proofId ∈ s.revocations
  | .verifyLog call valid | .verified call valid => valid = true → call.afterRevoked = false
  | .revokeLog proofId => proofId ∈ s.revocations
  | .revokeSave loaded _ | .expireSave loaded _ | .anchorSave loaded => loaded.Sound s
  | .generateSave _ | .revokeFind _ _ _ | .expireFind _ | .anchorFind _ | .returned | .threw => True

theorem Loaded.Sound.later (hsound : loaded.Sound s) (h : Later s s') : loaded.Sound s' := by
  have hcount := h.count loaded.proof.id
  have hseen := hsound.seen
  refine ⟨hseen.trans hcount, fun hsame hmem => ?_⟩
  have hpos := List.count_pos_iff.mpr hmem
  exact hsound.status (by omega) (List.count_pos_iff.mp (by omega))

theorem Pc.Sound.later (hsound : pc.Sound s) (h : Later s s') : pc.Sound s' := by
  cases pc with
  | verifyFind => exact fun hafter => h.mem (hsound hafter)
  | verifyLog | verified => exact hsound
  | revokeLog => exact h.mem hsound
  | revokeSave | expireSave | anchorSave => exact Loaded.Sound.later hsound h
  | generateSave | revokeFind | expireFind | anchorFind | returned | threw => trivial

structure Revoking (sys : System Inputs) : Prop where
  kept : ∀ id ∈ sys.state.revocations, sys.state.Revoked id
  returned : ∀ id ∈ sys.state.revoked, id ∈ sys.state.revocations
  sound : ∀ pc ∈ sys.threads, pc.Sound sys.state

theorem load_sound (hids : ∀ id proof, s.proofs id = some proof → proof.id = id)
    (hkept : ∀ id ∈ s.revocations, s.Revoked id) (hproof : s.proofs id = some proof) :
    (s.load proof).Sound s := by
  refine ⟨le_rfl, fun _ hmem => ?_⟩
  obtain ⟨row, hrow, hrevoked⟩ := hkept _ hmem
  obtain rfl := hids _ _ hproof
  obtain rfl := Option.some.inj (hrow.symm.trans hproof)
  exact hrevoked

theorem revoked_save (h : s.Revoked id) (hsave : id = proof.id → proof.status = .revoked) :
    (s.save proof).Revoked id := by
  by_cases hid : id = proof.id
  · subst hid
    exact ⟨proof, save_self, hsave rfl⟩
  · obtain ⟨row, hrow, hrevoked⟩ := h
    exact ⟨row, (save_of_ne hid).trans hrow, hrevoked⟩

theorem Writes.kept (h : Writes s pc s') (hkept : ∀ id ∈ s.revocations, s.Revoked id)
    (hcurrent : pc.Current s) (hsound : pc.Sound s) : ∀ id ∈ s'.revocations, s'.Revoked id := by
  intro id hid
  cases h with
  | nothing | noted => exact hkept id hid
  | generated hnew =>
    refine revoked_save (hkept id hid) fun hsame => ?_
    obtain ⟨row, hrow, _⟩ := hkept id hid
    exact absurd ((hsame ▸ hrow).symm.trans hnew) nofun
  | expired =>
    refine revoked_save (hkept id hid) fun hsame => ?_
    exact absurd (hsound.status hcurrent.2 (hsame ▸ hid)) hcurrent.1
  | anchored =>
    exact revoked_save (hkept id hid) fun hsame => hsound.status hcurrent (hsame ▸ hid)
  | @revoked loaded reason =>
    rcases List.mem_cons.mp hid with rfl | hid
    · exact ⟨loaded.proof.revoke reason, @save_self _ s (loaded.proof.revoke reason), rfl⟩
    · exact @revoked_save _ s (loaded.proof.revoke reason) id (hkept id hid) fun _ => rfl

theorem sound_verifyProof (hids : ∀ id proof, s.proofs id = some proof → proof.id = id)
    (hkept : ∀ id ∈ s.revocations, s.Revoked id)
    (hcall : call.afterRevoked = true → call.proofId ∈ s.revocations)
    (hproof : s.proofs call.proofId = some proof) : (verifyProof circuit s call proof).Sound s := by
  unfold verifyProof
  split
  · exact nofun
  · next hactive =>
    split
    · exact load_sound hids hkept hproof
    · intro _
      rw [← Bool.not_eq_true]
      intro hafter
      obtain ⟨row, hrow, hrevoked⟩ := hkept _ (hcall hafter)
      obtain rfl := Option.some.inj (hrow.symm.trans hproof)
      exact hactive hrevoked

theorem Goes.sound (h : Goes circuit s s' pc pc') (hlater : Later s s')
    (hids : ∀ id proof, s.proofs id = some proof → proof.id = id)
    (hkept : ∀ id ∈ s.revocations, s.Revoked id) (hsound : pc.Sound s) : pc'.Sound s' := by
  cases h with
  | verifies hproof => exact (sound_verifyProof hids hkept hsound hproof).later hlater
  | verified => exact hsound
  | revokes hproof | expires hproof | anchors hproof =>
    exact (load_sound hids hkept hproof).later hlater
  | revoked hcounted => exact hcounted
  | expired => exact nofun
  | returned | threw => trivial

theorem Writes.returned (h : Writes s pc s') (hreturned : ∀ id ∈ s.revoked, id ∈ s.revocations)
    (hsound : pc.Sound s) : ∀ id ∈ s'.revoked, id ∈ s'.revocations := by
  cases h with
  | nothing | generated | expired | anchored => exact hreturned
  | revoked => exact fun id hid => List.mem_cons_of_mem _ (hreturned id hid)
  | noted => exact List.forall_mem_cons.mpr ⟨hsound, hreturned⟩

theorem Revoking.enter (h : Revoking sys) (hpc : pc.Sound sys.state) : Revoking (sys.call pc) :=
  ⟨h.kept, h.returned, forall_mem_append h.sound hpc⟩

theorem Revoking.next {e : Event Inputs} (h : Revoking sys) (hexpiring : Expiring sys)
    (hcurrent : Current sys e) (hnext : next circuit sys e = some sys') : Revoking sys' := by
  cases e with
  | generateProof | revokeProof | expireProof | anchorProofOnChain =>
    obtain rfl := Option.some.inj hnext
    exact h.enter trivial
  | verifyProof proofId =>
    obtain rfl := Option.some.inj hnext
    exact h.enter fun hafter => h.returned proofId (of_decide_eq_true hafter)
  | tick ms =>
    obtain rfl := Option.some.inj hnext
    refine ⟨h.kept, h.returned, fun pc hpc => (h.sound pc hpc).later ?_⟩
    exact ⟨fun _ proof hproof => ⟨proof, hproof, rfl⟩, Nat.le_add_right .., fun _ => le_rfl⟩
  | run w o =>
    obtain ⟨pc, hw, hnext⟩ := Option.bind_eq_some_iff.mp hnext
    obtain ⟨⟨s', pc'⟩, hstep, hnext⟩ := Option.bind_eq_some_iff.mp hnext
    obtain rfl := Option.some.inj hnext
    have hmem := List.mem_of_getElem? hw
    have hwrites := step_writes hstep
    have hlater := hwrites.later (hexpiring.timed pc hmem)
    have hmine := h.sound pc hmem
    exact ⟨hwrites.kept h.kept (hcurrent pc hw) hmine, hwrites.returned h.returned hmine,
      forall_mem_set (fun _ pc hv _ => (h.sound pc (List.mem_of_getElem? hv)).later hlater)
        ((step_goes hstep).sound hlater hexpiring.ids h.kept hmine)⟩

theorem expiring_empty : Expiring (empty : System Inputs) :=
  ⟨nofun, fun _ hpc => absurd hpc List.not_mem_nil⟩

theorem revoking_empty : Revoking (empty : System Inputs) :=
  ⟨fun _ hid => absurd hid List.not_mem_nil, fun _ hid => absurd hid List.not_mem_nil,
    fun _ hpc => absurd hpc List.not_mem_nil⟩

theorem revocation_sticks (circuit : Circuit Inputs)
    (xs : List (Step (System Inputs) (Event Inputs))) (sys : System Inputs)
    (hrun : ProofRun circuit xs sys) :
    ExpiryRespected sys ∧ ((∀ x ∈ xs, Current x.pre x.act) → RevocationSticks sys) := by
  have hexpiring : Expiring sys :=
    hrun.invariant Expiring expiring_empty fun x _ hnext hinv => hinv.next hnext
  refine ⟨fun call hcall => hexpiring.timed _ hcall rfl, fun hcurrent => ?_⟩
  have hinv := hrun.invariant (fun sys => Expiring sys ∧ Revoking sys)
    ⟨expiring_empty, revoking_empty⟩ fun x hx hnext hinv =>
      ⟨hinv.1.next hnext, hinv.2.next hinv.1 (hcurrent x hx) hnext⟩
  exact ⟨fun id hid => hinv.2.kept id (hinv.2.returned id hid),
    fun call hcall => hinv.2.sound _ hcall rfl⟩

/-! ## A credit score that drops -/

/-- A circuit without public inputs that takes every payload for its own commitment. -/
def openCircuit : Circuit Unit := fun proofPayload _ _ credentialCommitment =>
  proofPayload = credentialCommitment

def creditScore : Generated Unit where
  ownerId := "farmer-1"
  credentialType := .creditScore
  proofPayload := "c0ffee"
  publicInputs := ()
  circuitId := "credit_score_range_v1"
  standard := .groth16
  credentialCommitment := "c0ffee"
  generationTimeMs := 12

/-- The proof is generated and anchored, verified, revoked, and verified again. -/
def revokedInTime : List (Event Unit) :=
  [.generateProof "proof-1" creditScore, .run 0 .ok, .anchorProofOnChain "proof-1", .run 1 .ok,
    .run 1 .ok, .verifyProof "proof-1" none, .run 2 .ok, .run 2 .ok,
    .revokeProof "proof-1" "farmer-1" "score dropped", .run 3 .ok, .run 3 .ok, .run 3 .ok,
    .verifyProof "proof-1" none, .run 4 .ok, .run 4 .ok]

theorem revocation_sticks_in_time :
    (replay (next openCircuit) empty revokedInTime).2.state.revoked = ["proof-1"] ∧
      RevocationSticks (replay (next openCircuit) empty revokedInTime).2 := by
  have hrun := run_replay (next openCircuit) empty revokedInTime
  exact ⟨by decide +kernel, (revocation_sticks openCircuit _ _ hrun).2 (by decide +kernel)⟩

/-- The anchoring loads the proof, which is then revoked, and saves it. -/
def overtaken : List (Event Unit) :=
  [.generateProof "proof-1" creditScore, .run 0 .ok, .anchorProofOnChain "proof-1", .run 1 .ok,
    .revokeProof "proof-1" "farmer-1" "score dropped", .run 2 .ok, .run 2 .ok, .run 2 .ok,
    .run 1 .ok, .verifyProof "proof-1" none, .run 3 .ok, .run 3 .ok]

theorem revoked_verifies : ¬ ∀ (circuit : Circuit Unit)
    (xs : List (Step (System Unit) (Event Unit))) (sys : System Unit),
    ProofRun circuit xs sys → RevocationSticks sys := by
  intro h
  have hsticks := h openCircuit _ _ (run_replay (next openCircuit) empty overtaken)
  have hvalid : (replay (next openCircuit) empty overtaken).2.threads[3]? =
      some (.verified ⟨"proof-1", none, 0, true⟩ true) := by decide +kernel
  exact absurd (hsticks.verified _ (List.mem_of_getElem? hvalid)) nofun

end AgriFi.Zkp
