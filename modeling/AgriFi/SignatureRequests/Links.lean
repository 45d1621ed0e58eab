import AgriFi.SignatureRequests.Service
import AgriFi.Threads

/-
  No signing link works. The uuid that a link carries as its request is a new one, while the database
  gives the request another, so the request of a link is never found (`Apart`): no link is accepted in
  any run, not even while its request is pending, and no request is ever signed (`links_never_work`).
-/

namespace AgriFi.SignatureRequests

open AgriFi.Runs AgriFi.Threads
open AgriFi.DealDelivered (Outcome)

variable {setup : Setup} {s s' : State} {sys sys' : System} {pc pc' : Pc} {o : Outcome} {w : Nat}
  {token : String} {payload : Payload} {request : SignatureRequest} {call : CreateCall}
  {purpose : Option Submission}

/-! ## What is claimed -/

/-- `verifySigningToken` returns, the rows staying as they are. -/
def Setup.Accepts (setup : Setup) (s : State) (token : String) : Prop :=
  ∃ payload id, s.verifySigningToken token none = .verifyFind token payload none ∧
    setup.stepVerifyFind s.now token payload none (s.findRequest payload.sid) =
      .accepted id payload.doc payload.cosigner

/-- The request of the link is neither signed, revoked nor expired. -/
def State.Open (s : State) (link : Link) : Prop :=
  ∃ request ∈ s.requests, request.id = link.requestId ∧ request.status = .pending ∧
    s.now < request.signingTokenExpiresAt

/-- The link is accepted as long as its request is open, and not afterwards. -/
def Setup.Works (setup : Setup) (s : State) (link : Link) : Prop :=
  setup.Accepts s link.token ↔ s.Open link

/-! ## Requests and tokens apart -/

/-- What a call holds: uuids that were drawn for what it uses them for, and no verified link. -/
def Pc.Apart (s : State) : Pc → Prop
  | .createFindDocument call | .createFindCoSigner call =>
    call.id ∈ s.requestIds ∧ call.sid ∈ s.tokenIds
  | .createSave request => request.id ∈ s.requestIds ∧ request.status = .pending
  | .verifyFind _ payload _ => payload.sid ∈ s.tokenIds
  | .markExpired _ | .signFindDocument _ _ _ | .signFetch _ _ _ | .signFindWallet _ _ _
  | .signRevoke _ | .signAnchor _ _ _ | .signUpdate _ _ _ _ | .signNotify _ | .accepted _ _ _
  | .signed _ => False
  | .createNotify _ | .revokeFind _ | .revokeUpdate _ | .revokeReload _ | .created _ | .revoked _
  | .threw _ => True

structure Apart (sys : System) : Prop where
  disjoint : sys.state.requestIds.Disjoint sys.state.tokenIds
  requests : ∀ request ∈ sys.state.requests,
    request.id ∈ sys.state.requestIds ∧ request.status ≠ .signed
  signed : ∀ entry ∈ sys.state.signed,
    entry.2.typ = "signing_link" → entry.2.sid ∈ sys.state.tokenIds
  threads : ∀ pc ∈ sys.threads, pc.Apart sys.state

/-- What stays of the state: no uuid that was drawn is forgotten. -/
structure Draws (s s' : State) : Prop where
  requestIds : s.requestIds ⊆ s'.requestIds
  tokenIds : s.tokenIds ⊆ s'.tokenIds

theorem Draws.of_eq (hids : s'.requestIds = s.requestIds) (htokens : s'.tokenIds = s.tokenIds) :
    Draws s s' :=
  ⟨fun _ hid => hids ▸ hid, fun _ hid => htokens ▸ hid⟩

theorem Pc.Apart.draws (h : pc.Apart s) (hs : Draws s s') : pc.Apart s' := by
  cases pc with
  | createFindDocument | createFindCoSigner => exact ⟨hs.requestIds h.1, hs.tokenIds h.2⟩
  | createSave => exact ⟨hs.requestIds h.1, h.2⟩
  | verifyFind => exact hs.tokenIds h
  | createNotify | revokeFind | revokeUpdate | revokeReload | created | revoked | threw => trivial
  | markExpired | signFindDocument | signFetch | signFindWallet | signRevoke | signAnchor
  | signUpdate | signNotify | accepted | signed => exact h.elim

/-- The request that a signed link names does not exist. -/
theorem Apart.findRequest (h : Apart sys) (hsid : payload.sid ∈ sys.state.tokenIds) :
    sys.state.findRequest payload.sid = none := by
  refine List.find?_eq_none.mpr fun request hrequest => ?_
  rw [decide_eq_true_eq]
  intro hid
  exact h.disjoint (hid ▸ (h.requests request hrequest).1) hsid

theorem Apart.verifyJwt (h : Apart sys) (hverify : sys.state.verifyJwt token = some payload)
    (htyp : payload.typ = "signing_link") : payload.sid ∈ sys.state.tokenIds := by
  obtain ⟨payload', hlookup, hlive⟩ := Option.bind_eq_some_iff.mp hverify
  split at hlive
  · obtain rfl := Option.some.inj hlive
    obtain ⟨before, after, hsigned, -⟩ := List.lookup_eq_some_iff.mp hlookup
    refine h.signed (token, payload') ?_ htyp
    rw [hsigned]
    exact List.mem_append_right _ (List.mem_cons_self ..)
  · cases hlive

theorem apart_onOk (h : pc.Apart s) : (onOk o pc).Apart s := by
  unfold onOk
  split
  · exact h
  · trivial

theorem apart_createFindDocument {found : Option Document}
    (h : (Pc.createFindCoSigner call).Apart s) : (createFindDocument call found).Apart s := by
  unfold createFindDocument
  split
  · trivial
  · split
    · trivial
    · exact h

theorem apart_logged (h : pc.Apart s) : (setup.logged pc).Apart s := by
  unfold Setup.logged
  split
  · exact h
  · trivial

theorem apart_stepRevokeFind {id : String} {found : Option SignatureRequest} :
    (stepRevokeFind id found).Apart s := by
  unfold stepRevokeFind
  split
  · trivial
  · split <;> trivial

/-- A write of the rows that draws nothing keeps the rest as it is. -/
theorem Apart.write (h : Apart sys)
    (hsame : s'.requestIds = sys.state.requestIds ∧ s'.tokenIds = sys.state.tokenIds ∧
      s'.signed = sys.state.signed)
    (hrequests : ∀ request ∈ s'.requests, request.id ∈ s'.requestIds ∧ request.status ≠ .signed)
    (hpc : pc'.Apart s') : Apart ⟨s', sys.threads.set w pc'⟩ := by
  obtain ⟨hids, htokens, hsigned⟩ := hsame
  have hdraws : Draws sys.state s' := .of_eq hids htokens
  refine ⟨?_, hrequests, ?_, ?_⟩
  · show s'.requestIds.Disjoint s'.tokenIds
    rw [hids, htokens]
    exact h.disjoint
  · show ∀ entry ∈ s'.signed, _ → _ ∈ s'.tokenIds
    rw [hsigned, htokens]
    exact h.signed
  · exact forall_mem_set (fun _ pc hv _ => (h.threads pc (List.mem_of_getElem? hv)).draws hdraws)
      hpc

/-- The call goes on without a write. -/
theorem Apart.moves (h : Apart sys) (hpc : pc'.Apart sys.state) :
    Apart ⟨sys.state, sys.threads.set w pc'⟩ :=
  h.write ⟨rfl, rfl, rfl⟩ h.requests hpc

theorem update_requests {id : String} {status : SignatureRequestStatus}
    (h : ∀ request ∈ s.requests, request.id ∈ s.requestIds ∧ request.status ≠ .signed)
    (hstatus : status ≠ .signed) : ∀ request ∈ (s.update id (.withStatus status)).requests,
      request.id ∈ s.requestIds ∧ request.status ≠ .signed := by
  refine List.forall_mem_map.mpr fun request hrequest => ?_
  split
  · exact ⟨(h request hrequest).1, hstatus⟩
  · exact h request hrequest

theorem Apart.run (h : Apart sys) (hw : sys.threads[w]? = some pc)
    (hstep : setup.step sys.state o pc = some (s', pc')) :
    Apart ⟨s', sys.threads.set w pc'⟩ := by
  have hmine := h.threads pc (List.mem_of_getElem? hw)
  cases pc with
  | createFindDocument call =>
    obtain ⟨rfl, rfl⟩ := Prod.mk.inj (Option.some.inj hstep)
    exact h.moves (apart_onOk (apart_createFindDocument hmine))
  | createFindCoSigner call =>
    simp only [Setup.step] at hstep
    split at hstep <;> obtain ⟨rfl, rfl⟩ := Prod.mk.inj (Option.some.inj hstep)
    · refine ⟨h.disjoint, h.requests, List.forall_mem_cons.mpr ⟨fun _ => hmine.2, h.signed⟩, ?_⟩
      exact forall_mem_set
        (fun _ pc hv _ => (h.threads pc (List.mem_of_getElem? hv)).draws (.of_eq rfl rfl))
        ⟨hmine.1, rfl⟩
    · exact h.moves (apart_onOk trivial)
  | createSave request =>
    have hsaved : ∀ row ∈ (sys.state.saveRequest request).requests,
        row.id ∈ sys.state.requestIds ∧ row.status ≠ .signed :=
      forall_mem_append h.requests ⟨hmine.1, by rw [hmine.2]; nofun⟩
    cases o <;> obtain ⟨rfl, rfl⟩ := Prod.mk.inj (Option.some.inj hstep)
    case fail => exact h.moves trivial
    case ok | lost => exact h.write ⟨rfl, rfl, rfl⟩ hsaved trivial
  | createNotify request =>
    obtain ⟨rfl, rfl⟩ := Prod.mk.inj (Option.some.inj hstep)
    exact h.moves (apart_onOk (apart_logged trivial))
  | verifyFind token payload purpose =>
    obtain ⟨rfl, rfl⟩ := Prod.mk.inj (Option.some.inj hstep)
    rw [h.findRequest hmine]
    exact h.moves (apart_onOk trivial)
  | revokeFind id =>
    obtain ⟨rfl, rfl⟩ := Prod.mk.inj (Option.some.inj hstep)
    exact h.moves (apart_onOk apart_stepRevokeFind)
  | revokeUpdate id =>
    cases o <;> obtain ⟨rfl, rfl⟩ := Prod.mk.inj (Option.some.inj hstep)
    case fail => exact h.moves trivial
    case ok | lost =>
      exact h.write ⟨rfl, rfl, rfl⟩ (update_requests h.requests nofun) trivial
  | revokeReload id =>
    obtain ⟨rfl, rfl⟩ := Prod.mk.inj (Option.some.inj hstep)
    refine h.moves (apart_onOk ?_)
    split <;> trivial
  | created | revoked | threw => cases hstep
  | markExpired | signFindDocument | signFetch | signFindWallet | signRevoke | signAnchor
  | signUpdate | signNotify | accepted | signed => exact hmine.elim

theorem Apart.enter (h : Apart sys) (hpc : pc.Apart sys.state) : Apart (sys.call pc) :=
  ⟨h.disjoint, h.requests, h.signed, forall_mem_append h.threads hpc⟩

theorem Apart.verify (h : Apart sys) :
    (sys.state.verifySigningToken token purpose).Apart sys.state := by
  unfold State.verifySigningToken
  split
  · trivial
  · next payload hverify =>
    split
    · trivial
    · next htyp => exact h.verifyJwt hverify (not_not.mp htyp)

theorem Apart.draw (h : Apart sys) (hfresh : call.Fresh sys.state) :
    Apart ⟨sys.state.draw call, sys.threads ++ [.createFindDocument call]⟩ := by
  have hdraws : Draws sys.state (sys.state.draw call) :=
    ⟨List.subset_cons_self .., fun _ huuid => List.mem_cons_of_mem _ (List.mem_cons_of_mem _ huuid)⟩
  obtain ⟨hnodup, hnew⟩ := hfresh
  simp only [List.nodup_cons, List.mem_cons, List.not_mem_nil, or_false, not_or] at hnodup
  simp only [List.forall_mem_cons] at hnew
  obtain ⟨⟨_, hid⟩, ⟨hsid, _⟩, ⟨hjti, _⟩, _⟩ := hnew
  constructor
  case disjoint =>
    simp only [State.draw, List.disjoint_cons_left, List.disjoint_cons_right, List.mem_cons, not_or]
    exact ⟨⟨Ne.symm hnodup.1.1, hsid⟩, ⟨Ne.symm hnodup.1.2, hjti⟩, hid, h.disjoint⟩
  case requests =>
    intro request hrequest
    obtain ⟨hmem, hstatus⟩ := h.requests request hrequest
    exact ⟨hdraws.requestIds hmem, hstatus⟩
  case signed => exact fun entry hentry htyp => hdraws.tokenIds (h.signed entry hentry htyp)
  case threads =>
    exact forall_mem_append (fun pc hpc => (h.threads pc hpc).draws hdraws)
      ⟨List.mem_cons_self .., List.mem_cons_self ..⟩

theorem Apart.next {e : Event} (h : Apart sys) (hnext : setup.next sys e = some sys') :
    Apart sys' := by
  cases e with
  | createSignatureRequest call =>
    simp only [Setup.next] at hnext
    split at hnext
    · next hfresh =>
      obtain rfl := Option.some.inj hnext
      exact h.draw hfresh
    · cases hnext
  | verifySigningToken | processSignature =>
    obtain rfl := Option.some.inj hnext
    exact h.enter h.verify
  | revokeSignatureRequest =>
    obtain rfl := Option.some.inj hnext
    exact h.enter trivial
  | signOther token payload =>
    simp only [Setup.next] at hnext
    split at hnext
    · cases hnext
    · next htyp =>
      obtain rfl := Option.some.inj hnext
      refine ⟨h.disjoint, h.requests, List.forall_mem_cons.mpr ⟨fun h => absurd h htyp, h.signed⟩,
        fun pc hpc => (h.threads pc hpc).draws (.of_eq rfl rfl)⟩
  | setDocuments | setUsers | tick =>
    obtain rfl := Option.some.inj hnext
    exact ⟨h.disjoint, h.requests, h.signed, fun pc hpc => (h.threads pc hpc).draws (.of_eq rfl rfl)⟩
  | run w o =>
    obtain ⟨pc, hw, hnext⟩ := Option.bind_eq_some_iff.mp hnext
    obtain ⟨⟨s', pc'⟩, hstep, hnext⟩ := Option.bind_eq_some_iff.mp hnext
    obtain rfl := Option.some.inj hnext
    exact h.run hw hstep

theorem apart_start (now : Int) : Apart (start now) :=
  ⟨List.disjoint_nil_left _, fun _ h => absurd h List.not_mem_nil,
    fun _ h => absurd h List.not_mem_nil, fun _ h => absurd h List.not_mem_nil⟩

theorem Apart.not_accepts (h : Apart sys) : ¬ setup.Accepts sys.state token := by
  rintro ⟨payload, id, hverify, haccepted⟩
  have hapart := @Apart.verify _ token none h
  rw [hverify] at hapart
  rw [h.findRequest hapart] at haccepted
  cases haccepted

/-! ## Every run -/

theorem Apart.works_iff (h : Apart sys) (link : Link) :
    setup.Works sys.state link ↔ ¬ sys.state.Open link :=
  ⟨fun hworks hopen => h.not_accepts (hworks.mpr hopen),
    fun hclosed => ⟨fun haccepts => absurd haccepts h.not_accepts, fun hopen => absurd hopen hclosed⟩⟩

/-- A request that is saved before it expires is open. -/
theorem open_of_save (h : Apart sys) (hw : sys.threads[w]? = some (.createSave request))
    (ho : o ≠ .fail) (hintime : sys.state.now < request.signingTokenExpiresAt)
    (hnext : setup.next sys (.run w o) = some sys') : sys'.state.Open request.link := by
  have hpending := (h.threads _ (List.mem_of_getElem? hw)).2
  obtain ⟨pc, hw', hnext⟩ := Option.bind_eq_some_iff.mp hnext
  obtain rfl := Option.some.inj (hw.symm.trans hw')
  obtain ⟨⟨s', pc'⟩, hstep, hnext⟩ := Option.bind_eq_some_iff.mp hnext
  obtain rfl := Option.some.inj hnext
  cases o with
  | fail => exact absurd rfl ho
  | ok | lost =>
    obtain ⟨rfl, rfl⟩ := Prod.mk.inj (Option.some.inj hstep)
    exact ⟨request, List.mem_append_right _ (List.mem_singleton_self _), rfl, hpending, hintime⟩

/-- In every state of every run a link works exactly when its request is no longer open, a request
    that is saved before its expiry has a link that does not work, and no request is signed. -/
theorem links_never_work (setup : Setup) (now : Int) (xs : List (Step System Event)) (sys : System)
    (hrun : SigningRun setup now xs sys) : ∀ x ∈ xs,
      (∀ link, setup.Works x.post.state link ↔ ¬ x.post.state.Open link) ∧
      (∀ w o request, x.act = .run w o → o ≠ .fail →
        x.pre.threads[w]? = some (.createSave request) →
        x.pre.state.now < request.signingTokenExpiresAt →
        ¬ setup.Works x.post.state request.link) ∧
      ∀ request ∈ x.post.state.requests, request.status ≠ .signed := by
  intro x hx
  obtain ⟨hnext, hpre, hpost⟩ := hrun.steps_invariant Apart (apart_start now)
    (fun _ _ hnext hinv => hinv.next hnext) x hx
  refine ⟨hpost.works_iff, fun w o request hact ho hw hintime hworks => ?_,
    fun request hrequest => (hpost.requests request hrequest).2⟩
  rw [hact] at hnext
  exact (hpost.works_iff _).mp hworks (open_of_save hpre hw ho hintime hnext)

/-! ## A farmer's document -/

def office : Setup where
  signingLinkTtlSeconds := defaultSigningTtlSeconds
  encode payload := "ey." ++ payload.sid
  sha256 text := "sha256:" ++ text
  fetchDocument _ := none
  openPgpVerifies _ _ := false
  sep10Verifies _ _ := false
  anchorIpfsCid hash := "tx:" ++ hash
  loggerInfo := true

def cosigning : CreateCall :=
  ⟨"doc-1", "cosigner-1", "requester-1", some 3600, "5d1c", "7f02", "req-1"⟩

/-- The request is created, and its link is verified at once. -/
def created : List Event :=
  [.setDocuments [⟨"doc-1", "Qm1"⟩], .setUsers [⟨"cosigner-1", none⟩, ⟨"requester-1", none⟩],
    .createSignatureRequest cosigning, .run 0 .ok, .run 0 .ok, .run 0 .ok, .run 0 .ok,
    .verifySigningToken "ey.5d1c", .run 1 .ok]

theorem links_never_work_office :
    (replay office.next (start 0) created).2.threads[0]? =
        some (.created ⟨"req-1", "ey.5d1c"⟩) ∧
      ∀ x ∈ (replay office.next (start 0) created).1,
        ∀ request ∈ x.post.state.requests, request.status ≠ .signed := by
  refine ⟨by decide +kernel, fun x hx => ?_⟩
  exact (links_never_work office 0 _ _ (run_replay office.next (start 0) created) x hx).2.2

theorem link_refused : ¬ ∀ (setup : Setup) (now : Int) (xs : List (Step System Event))
    (sys : System), SigningRun setup now xs sys →
      ∀ link, Pc.created link ∈ sys.threads → setup.Works sys.state link := by
  intro h
  have hcreated : (replay office.next (start 0) created).2.threads[0]? =
      some (.created ⟨"req-1", "ey.5d1c"⟩) := by decide +kernel
  have hworks := h office 0 _ _ (run_replay office.next (start 0) created) _
    (List.mem_of_getElem? hcreated)
  have hopen : (replay office.next (start 0) created).2.state.Open ⟨"req-1", "ey.5d1c"⟩ :=
    ⟨office.request 0 cosigning, by decide +kernel, by decide, by decide, by decide⟩
  have hapart := (run_replay office.next (start 0) created).invariant Apart (apart_start 0)
    fun _ _ hnext hinv => hinv.next hnext
  exact hapart.not_accepts (hworks.mpr hopen)

end AgriFi.SignatureRequests
