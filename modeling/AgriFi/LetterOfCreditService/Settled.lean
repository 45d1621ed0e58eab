import AgriFi.LetterOfCreditService.Service

/-
  Whether a settled letter stays settled. `settleLc` asks for the status `VERIFIED`, and nothing
  else asks at all: `verifyDocument` writes the status of a settled letter anew, after which it can
  be settled again (`settled_again`), and an approved amendment writes what it likes.
  `settled_for_good`: as long as, after a settlement, no document is verified and no approved
  amendment changes the status or the settled terms, it is the only one and nothing of it changes.
-/

namespace AgriFi.LetterOfCreditService

open AgriFi.JsValue AgriFi.Runs

/-! ## What is claimed -/

/-- What was settled: how much, to whom, against which documents. -/
def SETTLED_KEYS : List String :=
  ["amount", "currency", "beneficiaryId", "beneficiaryName", "requiredDocuments"]

/-- The step is a settlement. -/
def settles (env : Env) (x : Step State Action) : Bool :=
  match x.act with
  | .settleLc settlementTx now => (settleLc env.js settlementTx now x.pre.lc).succeeded
  | _ => false

/-- In a run that has come to the state `s`. -/
structure SettledForGood (env : Env) (xs : List (Step State Action)) (s : State) : Prop where
  once : (xs.filter (settles env)).length ≤ 1
  terminal : ∀ x ∈ xs, settles env x = true →
    s.lc "status" = .str "SETTLED" ∧ ∀ key ∈ SETTLED_KEYS, s.lc key = x.post.lc key

/-! ## When it holds -/

/-- The changes leave the status and what was settled as they are. -/
def Keeps (lc : LetterOfCredit) (changes : List (String × Value)) : Prop :=
  ∀ change ∈ changes, change.1 ∈ "status" :: SETTLED_KEYS → change.2 = lc change.1

instance (lc : LetterOfCredit) (changes : List (String × Value)) : Decidable (Keeps lc changes) :=
  inferInstanceAs (Decidable (∀ change ∈ changes, _))

/-- The changes of the amendment that a decision finds pending. -/
def proposed (env : Env) (s : State) (amendmentId : String) : List (String × Value) :=
  match pendingAmendment env.js s.lc amendmentId with
  | .ok (_, amendment) => (changesOf amendment).getD []
  | .error _ => []

/-- After a settlement: no document is verified, and no changed term is approved. -/
def Final (env : Env) (s : State) : Action → Prop
  | .verifyDocument _ _ _ => s.settlements = 0
  | .decideAmendment amendmentId _ true _ =>
    s.settlements = 0 ∨ Keeps s.lc (proposed env s amendmentId)
  | _ => True

instance (env : Env) (s : State) (a : Action) : Decidable (Final env s a) := by
  unfold Final
  split <;> infer_instance

/-! ## One call -/

section Calls

variable {env : Env} {s s' : State} {lc : LetterOfCredit} {key key' : String} {val : Value}

theorem write_self : lc.write key val key = val := if_pos rfl

theorem write_of_ne (h : key ≠ key') : lc.write key' val key = lc key := if_neg h

theorem applyChange_key {change : String × Value} (h : change.1 = key → change.2 = lc key) :
    applyChange lc change key = lc key := by
  unfold applyChange
  split
  · by_cases hkey : change.1 = key
    · rw [hkey, write_self, h hkey]
    · exact write_of_ne (Ne.symm hkey)
  · rfl

/-- A key that no change gives another value keeps its value. -/
theorem applyChanges_key {changes : List (String × Value)}
    (h : ∀ change ∈ changes, change.1 = key → change.2 = lc key) :
    applyChanges lc changes key = lc key := by
  unfold applyChanges
  induction changes generalizing lc with
  | nil => rfl
  | cons change changes ih =>
    have hone := applyChange_key (h change (List.mem_cons_self ..))
    rw [List.foldl_cons, ih, hone]
    intro change' hchange' hkey
    rw [hone]
    exact h change' (List.mem_cons_of_mem _ hchange') hkey

/-- A key that every call writes only for what it says. -/
structure Aside (key : String) : Prop where
  amendments : key ≠ "amendments"
  hash : key ≠ "blockchainAnchoringHash"
  updatedAt : key ≠ "updatedAt"

theorem aside_settled : ∀ key ∈ "status" :: SETTLED_KEYS, Aside key := by
  intro key hkey
  simp only [SETTLED_KEYS, List.mem_cons, List.not_mem_nil, or_false] at hkey
  rcases hkey with rfl | rfl | rfl | rfl | rfl | rfl <;> constructor <;> decide

theorem requestAmendment_key {id requestedBy now message reason : String} {proposedChanges : Value}
    (h : Aside key) :
    (requestAmendment id requestedBy now message proposedChanges reason lc).lc key = lc key := by
  unfold requestAmendment
  split
  · exact (write_of_ne h.updatedAt).trans (write_of_ne h.amendments)
  · rfl

theorem applyChanges_congr {lc' : LetterOfCredit} {changes : List (String × Value)}
    (h : lc key = lc' key) : applyChanges lc changes key = applyChanges lc' changes key := by
  unfold applyChanges
  induction changes generalizing lc lc' with
  | nil => exact h
  | cons change changes ih =>
    rw [List.foldl_cons, List.foldl_cons]
    refine ih ?_
    unfold applyChange
    split
    · by_cases hkey : key = change.1
      · rw [hkey, write_self, write_self]
      · rw [write_of_ne hkey, write_of_ne hkey, h]
    · exact h

/-- What a decision leaves under a key: what its changes say, if it is an approval. -/
theorem decideAmendment_key {amendmentId now : String} {approved : Bool} {reason : Option String}
    (h : Aside key) :
    (decideAmendment env.js env.sha256 amendmentId now approved reason s.lc).lc key =
      if approved then applyChanges s.lc (proposed env s amendmentId) key else s.lc key := by
  unfold decideAmendment proposed
  cases hpending : pendingAmendment env.js s.lc amendmentId with
  | error error => exact (ite_self _).symm
  | ok found =>
    obtain ⟨k, amendment⟩ := found
    have hrest : ∀ amendment', writeAmendment s.lc k amendment' key = s.lc key :=
      fun _ => write_of_ne h.amendments
    dsimp only
    split
    · cases hchanges : changesOf amendment with
      | none => exact hrest _
      | some changes =>
        refine (write_of_ne h.updatedAt).trans ((write_of_ne h.hash).trans ?_)
        exact applyChanges_congr (hrest _)
    · exact (write_of_ne h.updatedAt).trans (hrest _)

theorem settleLc_succeeded {settlementTx now : String} :
    (settleLc env.js settlementTx now lc).succeeded = true ↔ lc "status" = .str "VERIFIED" := by
  unfold settleLc
  rw [← Value.strictEq_str]
  split
  · next h => simp [Called.succeeded, h, Except.toBool]
  · next h => simp [Called.succeeded, threw, h, Except.toBool]

theorem settleLc_status {settlementTx now : String} (h : lc "status" = .str "VERIFIED") :
    (settleLc env.js settlementTx now lc).lc "status" = .str "SETTLED" := by
  unfold settleLc
  rw [if_pos (Value.strictEq_str.mpr h)]
  have hupdated : "status" ≠ "updatedAt" := by decide
  have hsettled : "status" ≠ "settledAt" := by decide
  dsimp only
  rw [write_of_ne hupdated, write_of_ne hsettled, write_self]

end Calls

/-! ## Runs -/

section Runs

variable {env : Env} {s s' : State} {a : Action} {x : Step State Action}
  {xs : List (Step State Action)}

/-- Some settlement has succeeded, and the status says so. -/
structure Settled (s : State) : Prop where
  settlements : 0 < s.settlements
  status : s.lc "status" = .str "SETTLED"

theorem next_settled (h : Settled s) (hstep : next env s a = some s') (hfinal : Final env s a) :
    Settled s' ∧ (∀ key ∈ SETTLED_KEYS, s'.lc key = s.lc key) ∧
      settles env ⟨s, a, s'⟩ = false := by
  have hkeep : ∀ lc : LetterOfCredit, (∀ key ∈ "status" :: SETTLED_KEYS, lc key = s.lc key) →
      lc "status" = .str "SETTLED" ∧ ∀ key ∈ SETTLED_KEYS, lc key = s.lc key := by
    intro lc hlc
    exact ⟨(hlc _ (List.mem_cons_self ..)).trans h.status,
      fun key hkey => hlc key (List.mem_cons_of_mem _ hkey)⟩
  cases a with
  | requestAmendment id requestedBy now message proposedChanges reason =>
    cases hstep
    obtain ⟨hstatus, hkeys⟩ := hkeep _ fun key hkey =>
      requestAmendment_key (aside_settled key hkey)
    exact ⟨⟨h.settlements, hstatus⟩, hkeys, rfl⟩
  | decideAmendment amendmentId now approved reason =>
    cases hstep
    obtain ⟨hstatus, hkeys⟩ := hkeep
        (decideAmendment env.js env.sha256 amendmentId now approved reason s.lc).lc (by
      intro key hkey
      rw [decideAmendment_key (aside_settled key hkey)]
      split
      · next happroved =>
        subst happroved
        have hkeeps := hfinal.resolve_left (Nat.ne_of_gt h.settlements)
        refine applyChanges_key fun change hchange heq => ?_
        have hval := hkeeps change hchange (heq ▸ hkey)
        rw [hval, heq]
      · rfl)
    exact ⟨⟨h.settlements, hstatus⟩, hkeys, rfl⟩
  | verifyDocument id now dto => exact absurd hfinal (Nat.ne_of_gt h.settlements)
  | settleLc settlementTx now =>
    cases hstep
    have hfails : (settleLc env.js settlementTx now s.lc).succeeded = false := by
      rw [Bool.eq_false_iff, Ne, settleLc_succeeded, h.status]
      decide
    have hlc : (settleLc env.js settlementTx now s.lc).lc = s.lc := by
      unfold settleLc
      rw [if_neg (by rw [Value.strictEq_str, h.status]; decide)]
      rfl
    refine ⟨⟨?_, ?_⟩, fun key _ => ?_, hfails⟩
    · show 0 < if _ then _ else _
      rw [hfails]
      exact h.settlements
    · exact (congrFun hlc _).trans h.status
    · exact congrFun hlc key

theorem run_settled (h : Settled s) (hrun : Run (next env) s xs s')
    (hfinal : ∀ x ∈ xs, Final env x.pre x.act) :
    Settled s' ∧ (∀ key ∈ SETTLED_KEYS, s'.lc key = s.lc key) ∧ xs.filter (settles env) = [] := by
  induction hrun with
  | nil s => exact ⟨h, fun _ _ => rfl, rfl⟩
  | cons hstep _ ih =>
    obtain ⟨hs, hkeys, hnot⟩ := next_settled h hstep (hfinal _ (List.mem_cons_self ..))
    obtain ⟨ht, hkeys', hnone⟩ := ih hs fun x hx => hfinal x (List.mem_cons_of_mem _ hx)
    refine ⟨ht, fun key hkey => (hkeys' key hkey).trans (hkeys key hkey), ?_⟩
    rw [List.filter_cons_of_neg (by simp [hnot])]
    exact hnone

/-- A settlement leaves the letter settled. -/
theorem settles_settled (hstep : next env x.pre x.act = some x.post)
    (h : settles env x = true) : Settled x.post := by
  unfold settles at h
  split at h
  · next settlementTx now hact =>
    rw [hact] at hstep
    have hpost := Option.some.inj hstep
    rw [← hpost]
    constructor
    case settlements =>
      show 0 < if _ then _ else _
      rw [h]
      exact Nat.succ_pos _
    case status => exact settleLc_status (settleLc_succeeded.mp h)
  · cases h

theorem settlements_le (hrun : Run (next env) s xs s')
    (hfinal : ∀ x ∈ xs, Final env x.pre x.act) : (xs.filter (settles env)).length ≤ 1 := by
  induction hrun with
  | nil => exact Nat.zero_le 1
  | cons hstep hrest ih =>
    have hfinal' := fun x hx => hfinal x (List.mem_cons_of_mem _ hx)
    rw [List.filter_cons]
    split
    · next hsettles =>
      rw [(run_settled (settles_settled hstep hsettles) hrest hfinal').2.2]
      exact le_refl 1
    · exact ih hfinal'

/-- As long as nothing touches a settled letter, it was settled once and stays as it was. -/
theorem settled_for_good {terms : String → Value} (hrun : LcRun env terms xs s)
    (hfinal : ∀ x ∈ xs, Final env x.pre x.act) : SettledForGood env xs s := by
  constructor
  case once => exact settlements_le hrun hfinal
  case terminal =>
    intro x hx hsettles
    obtain ⟨ys, zs, rfl⟩ := List.append_of_mem hx
    obtain ⟨_, hstep, hrest⟩ := run_split.mp hrun
    obtain ⟨hs, hkeys, _⟩ := run_settled (settles_settled hstep hsettles) hrest fun y hy =>
      hfinal y (List.mem_append_right _ (List.mem_cons_of_mem _ hy))
    exact ⟨hs.status, hkeys⟩

end Runs

/-! ## A letter that is settled twice -/

section Example

def anEnv : Env where
  js := ⟨fun _ => .nan, fun
    | .str "2026-06-15" => some 20619
    | .str "2026-06-30" => some 20634
    | .str "2026-07-21" => some 20655
    | _ => none, fun
    | .str s => s
    | _ => ""⟩
  texts := ⟨fun _ => "", fun _ => ""⟩
  sha256 text := text

def someTerms : String → Value
  | "amount" => .num (.finite 10000)
  | "tolerancePercentage" => .num (.finite 5)
  | "expiryDate" => .str "2026-07-21"
  | "shipmentDate" => .str "2026-06-30"
  | "requiredDocuments" => .arr [.str "BILL_OF_LADING"]
  | key => .str key

def aBillOfLading : VerifyDocumentDto where
  docType := "BILL_OF_LADING"
  documentNumber := "BOL-1"
  issueDate := "2026-06-15"
  documentHash := "hash"
  documentUrl := "ipfs"
  statedAmount := none

/-- The only document is verified, the letter settled, and then an amendment of the port. -/
def settledOnce : List Action :=
  [.verifyDocument "doc-1" "now" aBillOfLading, .settleLc "tx-1" "now",
    .requestAmendment "amend-1" "applicant" "now" "" (.obj [("portOfDischarge", .str "Antwerp")]) "",
    .decideAmendment "amend-1" "now" true none, .settleLc "tx-2" "now"]

theorem settled_for_good_settledOnce :
    let run := replay (next anEnv) (start someTerms) settledOnce
    run.1.length = settledOnce.length ∧ run.2.settlements = 1 ∧
      SettledForGood anEnv run.1 run.2 := by
  have hrun := run_replay (next anEnv) (start someTerms) settledOnce
  exact ⟨by decide +kernel, by decide +kernel, settled_for_good hrun (by decide +kernel)⟩

/-- The same document is presented once more after the settlement. -/
def settledTwice : List Action :=
  [.verifyDocument "doc-1" "now" aBillOfLading, .settleLc "tx-1" "now",
    .verifyDocument "doc-2" "now" aBillOfLading, .settleLc "tx-2" "now"]

theorem settled_again : ¬ (∀ (xs : List (Step State Action)) (s : State),
    LcRun anEnv someTerms xs s → SettledForGood anEnv xs s) := by
  intro h
  have honce := (h _ _ (run_replay (next anEnv) (start someTerms) settledTwice)).once
  revert honce
  decide +kernel

end Example

end AgriFi.LetterOfCreditService
