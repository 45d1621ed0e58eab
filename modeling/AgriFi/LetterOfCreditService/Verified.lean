import AgriFi.LetterOfCreditService.Settled
import AgriFi.Threads
import Mathlib.Data.List.Nodup

/-
  What `VERIFIED` says. A document is checked when it is presented, against the terms of that
  moment, and its result is kept; an approved amendment may write the terms, the required list, the
  documents on file or the status itself afterwards (`verified_too_late`). `verified_justified`: as
  long as each approved amendment only drops documents, leaves those on file compliant under the
  terms as it changes them, and keeps or gives the status `VERIFIED` only with every required
  document on file, the status is justified in every state.
-/

namespace AgriFi.LetterOfCreditService

open AgriFi.JsValue AgriFi.Runs

/-! ## What is claimed -/

/-- The document that was presented last of a type. -/
def State.latest (s : State) (docType : String) : Option VerifyDocumentDto :=
  s.presented.reverse.find? (·.docType = docType)

/-- The entry on file is about the document. -/
structure Records (dto : VerifyDocumentDto) (d : Value) : Prop where
  docType : d.get "docType" = some (.str dto.docType)
  documentNumber : d.get "documentNumber" = some (.str dto.documentNumber)
  issueDate : d.get "issueDate" = some (.str dto.issueDate)
  documentHash : d.get "documentHash" = some (.str dto.documentHash)
  documentUrl : d.get "documentUrl" = some (.str dto.documentUrl)

/-- The document passes all checks against the terms of the letter. -/
def Passes (env : Env) (lc : LetterOfCredit) (dto : VerifyDocumentDto) : Prop :=
  discrepanciesOf env.js env.texts dto lc = []

instance (env : Env) (lc : LetterOfCredit) (dto : VerifyDocumentDto) :
    Decidable (Passes env lc dto) :=
  inferInstanceAs (Decidable (_ = []))

def docsOf (lc : LetterOfCredit) : List Value := (lc "presentedDocuments").elements

/-- If the letter is verified, the latest document of each required type is on file and passes. -/
def Justified (env : Env) (s : State) : Prop :=
  s.lc "status" = .str "VERIFIED" → ∀ req ∈ (s.lc "requiredDocuments").elements,
    ∃ dto, req = .str dto.docType ∧ s.latest dto.docType = some dto ∧
      (∃ d ∈ docsOf s.lc, Records dto d) ∧ Passes env s.lc dto

/-! ## When it holds -/

/-- The latest documents that are on file as compliant among `docs`. -/
def State.onFile (s : State) (docs : List Value) : List VerifyDocumentDto :=
  s.presented.filter fun dto => s.latest dto.docType = some dto ∧
    ∃ d ∈ docs, fulfils (.str dto.docType) d = some true

/-- The terms that the changes give are met by what is on file. -/
structure Fits (env : Env) (s : State) (changes : List (String × Value)) : Prop where
  dropsOnly : (docsOf (applyChanges s.lc changes)).Sublist (docsOf s.lc)
  passes : ∀ dto ∈ s.onFile (docsOf (applyChanges s.lc changes)),
    Passes env (applyChanges s.lc changes) dto
  covered : applyChanges s.lc changes "status" = .str "VERIFIED" →
    ∀ req ∈ (applyChanges s.lc changes "requiredDocuments").elements,
      ∃ d ∈ docsOf (applyChanges s.lc changes), fulfils req d = some true

instance (env : Env) (s : State) (changes : List (String × Value)) :
    Decidable (Fits env s changes) :=
  decidable_of_iff (_ ∧ _ ∧ _)
    ⟨fun h => ⟨h.1, h.2.1, h.2.2⟩, fun h => ⟨h.dropsOnly, h.passes, h.covered⟩⟩

/-- The changes that are approved fit. -/
def Fitting (env : Env) (s : State) : Action → Prop
  | .decideAmendment amendmentId _ true _ => Fits env s (proposed env s amendmentId)
  | _ => True

instance (env : Env) (s : State) : (a : Action) → Decidable (Fitting env s a)
  | .decideAmendment amendmentId _ true _ =>
    inferInstanceAs (Decidable (Fits env s (proposed env s amendmentId)))
  | .decideAmendment _ _ false _ => isTrue trivial
  | .requestAmendment _ _ _ _ _ _ | .verifyDocument _ _ _ | .settleLc _ _ => isTrue trivial

/-! ## What is on file -/

section File

variable {env : Env} {s s' : State} {lc lc' : LetterOfCredit} {dto : VerifyDocumentDto} {d : Value}

/-- The checks read four terms. -/
theorem discrepanciesOf_congr (hexpiry : lc "expiryDate" = lc' "expiryDate")
    (hshipment : lc "shipmentDate" = lc' "shipmentDate") (hamount : lc "amount" = lc' "amount")
    (htolerance : lc "tolerancePercentage" = lc' "tolerancePercentage") :
    Passes env lc dto ↔ Passes env lc' dto := by
  unfold Passes discrepanciesOf
  rw [hexpiry, hshipment, hamount, htolerance]

theorem Records.get_ne_none (h : Records dto d) (key : String) : d.get key ≠ none := by
  have htype := h.docType
  cases d <;> simp_all [Value.get]

theorem Records.of_hasType {docType : Value} (h : Records dto d)
    (htype : hasType docType d = some true) : docType = .str dto.docType := by
  unfold hasType at htype
  rw [h.docType] at htype
  exact (Value.eq_of_strictEq (Option.some.inj htype)).symm

theorem fulfils_iff {req : Value} :
    fulfils req d = some true ↔ hasType req d = some true ∧ isCompliant d = some true := by
  unfold fulfils
  cases hasType req d with
  | none => simp
  | some b => cases b <;> simp

theorem presentedDoc_records (id now : String) (discrepancies : List String) :
    Records dto (presentedDoc id now dto discrepancies) := by
  constructor <;> rfl

theorem presentedDoc_isCompliant {id now : String} {discrepancies : List String}
    (h : isCompliant (presentedDoc id now dto discrepancies) = some true) : discrepancies = [] :=
  of_decide_eq_true (Option.some.inj h)

/-- An entry on file: its document is the latest of its type, and if it counts as compliant it
    passes under the terms as they are. -/
structure Backed (env : Env) (s : State) (d : Value) (dto : VerifyDocumentDto) : Prop where
  latest : s.latest dto.docType = some dto
  records : Records dto d
  passes : isCompliant d = some true → Passes env s.lc dto

def typesOf (docs : List Value) : List (Option Value) := docs.map (·.get "docType")

structure Inv (env : Env) (s : State) : Prop where
  backed : ∀ d ∈ docsOf s.lc, ∃ dto, Backed env s d dto
  nodup : (typesOf (docsOf s.lc)).Nodup
  covered : s.lc "status" = .str "VERIFIED" →
    ∀ req ∈ (s.lc "requiredDocuments").elements, ∃ d ∈ docsOf s.lc, fulfils req d = some true

theorem Inv.justified (h : Inv env s) : Justified env s := by
  intro hstatus req hreq
  obtain ⟨d, hd, hfulfils⟩ := h.covered hstatus req hreq
  obtain ⟨htype, hcompliant⟩ := fulfils_iff.mp hfulfils
  obtain ⟨dto, hbacked⟩ := h.backed d hd
  exact ⟨dto, hbacked.records.of_hasType htype, hbacked.latest, ⟨d, hd, hbacked.records⟩,
    hbacked.passes hcompliant⟩

theorem latest_mem {docType : String} (h : s.latest docType = some dto) :
    dto ∈ s.presented ∧ dto.docType = docType := by
  unfold State.latest at h
  exact ⟨List.mem_reverse.mp (List.mem_of_find?_eq_some h), by simpa using List.find?_some h⟩

/-- What the invariant reads of a letter, but for the status. -/
def READ_KEYS : List String :=
  ["expiryDate", "shipmentDate", "amount", "tolerancePercentage", "presentedDocuments",
    "requiredDocuments"]

theorem aside_read : ∀ key ∈ READ_KEYS, Aside key := by
  intro key hkey
  simp only [READ_KEYS, List.mem_cons, List.not_mem_nil, or_false] at hkey
  rcases hkey with rfl | rfl | rfl | rfl | rfl | rfl <;> constructor <;> decide

theorem passes_of_read (h : ∀ key ∈ READ_KEYS, lc' key = lc key) :
    Passes env lc' dto ↔ Passes env lc dto := by
  refine discrepanciesOf_congr ?_ ?_ ?_ ?_ <;> exact h _ (by decide)

/-- A call that puts no document on file and changes no term. -/
theorem Inv.of_same (h : Inv env s) (hpresented : s'.presented = s.presented)
    (hkeys : ∀ key ∈ READ_KEYS, s'.lc key = s.lc key)
    (hstatus : s'.lc "status" = .str "VERIFIED" → s.lc "status" = .str "VERIFIED") :
    Inv env s' := by
  have hdocs : docsOf s'.lc = docsOf s.lc := congrArg Value.elements (hkeys _ (by decide))
  constructor
  case backed =>
    intro d hd
    obtain ⟨dto, hlatest, hrecords, hpasses⟩ := h.backed d (hdocs ▸ hd)
    refine ⟨dto, ?_, hrecords, fun hc => (passes_of_read hkeys).mpr (hpasses hc)⟩
    unfold State.latest
    rw [hpresented]
    exact hlatest
  case nodup => exact hdocs ▸ h.nodup
  case covered =>
    intro hverified
    rw [hkeys _ (by decide), hdocs]
    exact h.covered (hstatus hverified)

/-! ## An amendment -/

/-- Changes that fit, once they are laid over the letter. -/
theorem Inv.amend {changes : List (String × Value)} (h : Inv env s) (hfits : Fits env s changes)
    (hpresented : s'.presented = s.presented)
    (hkeys : ∀ key, Aside key → s'.lc key = applyChanges s.lc changes key) : Inv env s' := by
  have hdocs : docsOf s'.lc = docsOf (applyChanges s.lc changes) :=
    congrArg Value.elements (hkeys _ (aside_read _ (by decide)))
  have hterms : ∀ dto, Passes env s'.lc dto ↔ Passes env (applyChanges s.lc changes) dto :=
    fun dto => passes_of_read fun key hkey => hkeys key (aside_read key hkey)
  have hlatest : ∀ docType, s'.latest docType = s.latest docType := by
    intro docType
    unfold State.latest
    rw [hpresented]
  constructor
  case backed =>
    intro d hd
    rw [hdocs] at hd
    obtain ⟨dto, hbacked⟩ := h.backed d (hfits.dropsOnly.subset hd)
    refine ⟨dto, (hlatest _).trans hbacked.latest, hbacked.records, fun hcompliant => ?_⟩
    rw [hterms]
    refine hfits.passes dto ?_
    have htype : hasType (.str dto.docType) d = some true := by
      unfold hasType
      rw [hbacked.records.docType]
      exact congrArg some (Value.strictEq_str.mpr rfl)
    rw [State.onFile, List.mem_filter, decide_eq_true_iff]
    exact ⟨(latest_mem hbacked.latest).1, hbacked.latest, d, hd,
      fulfils_iff.mpr ⟨htype, hcompliant⟩⟩
  case nodup =>
    rw [hdocs]
    exact h.nodup.sublist (hfits.dropsOnly.map _)
  case covered =>
    intro hstatus
    rw [hdocs, hkeys "requiredDocuments" (aside_read _ (by decide))]
    exact hfits.covered (hkeys "status" (aside_settled _ (by decide)) ▸ hstatus)

/-! ## A document -/

theorem findIndex_some {p : Value → Option Bool} {docs : List Value} {k : Nat}
    (h : findIndex p docs = some (some k)) : ∃ d, docs[k]? = some d ∧ p d = some true := by
  induction docs generalizing k with
  | nil => cases h
  | cons v vs ih =>
    simp only [findIndex, Option.bind_eq_bind, Option.bind_eq_some_iff] at h
    obtain ⟨b, hb, h⟩ := h
    cases b with
    | true =>
      cases h
      exact ⟨v, rfl, hb⟩
    | false =>
      simp only [Bool.false_eq_true, if_false, Option.bind_eq_some_iff] at h
      obtain ⟨found, hfound, h⟩ := h
      cases found with
      | none => cases h
      | some j =>
        obtain rfl : j + 1 = k := Option.some.inj (Option.some.inj h)
        exact ih hfound

theorem findIndex_none {p : Value → Option Bool} {docs : List Value}
    (h : findIndex p docs = some none) : ∀ d ∈ docs, p d = some false := by
  induction docs with
  | nil =>
    intro d hd
    cases hd
  | cons v vs ih =>
    simp only [findIndex, Option.bind_eq_bind, Option.bind_eq_some_iff] at h
    obtain ⟨b, hb, h⟩ := h
    cases b with
    | true => cases h
    | false =>
      simp only [Bool.false_eq_true, if_false, Option.bind_eq_some_iff] at h
      obtain ⟨found, hfound, h⟩ := h
      cases found with
      | none =>
        intro d hd
        rcases List.mem_cons.mp hd with rfl | hd
        · exact hb
        · exact ih hfound d hd
      | some j => cases h

/-- The new entry takes the place of the one of its type, or comes last. -/
theorem present_spec {doc : Value} {docs : List Value} (hnodup : (typesOf (docsOf lc)).Nodup)
    (hdoc : doc.get "docType" = some (.str dto.docType)) (h : present dto doc lc = some docs) :
    (typesOf docs).Nodup ∧ ∀ d ∈ docs, d = doc ∨
      d ∈ docsOf lc ∧ d.get "docType" ≠ some (.str dto.docType) := by
  unfold present at h
  split at h
  · next old hold =>
    have hdocs : docsOf lc = old := congrArg Value.elements hold
    rw [hdocs] at hnodup ⊢
    rw [Option.map_eq_some_iff] at h
    obtain ⟨found, hfound, h⟩ := h
    cases found with
    | some k =>
      obtain rfl : old.set k doc = docs := h
      obtain ⟨d, hd, htype⟩ := findIndex_some hfound
      have hsame : d.get "docType" = some (.str dto.docType) := by
        obtain ⟨v, hv, hstrict⟩ := Option.map_eq_some_iff.mp htype
        rw [hv, Value.strictEq_str.mp hstrict]
      have hget : (typesOf old)[k]? = some (doc.get "docType") := by
        rw [typesOf, List.getElem?_map, hd, hdoc, ← hsame]
        rfl
      have htypes : typesOf (old.set k doc) = typesOf old := by
        rw [typesOf, List.map_set]
        obtain ⟨hlt, hval⟩ := List.getElem?_eq_some_iff.mp hget
        rw [← hval]
        exact List.set_getElem_self hlt
      refine ⟨htypes ▸ hnodup, fun x hx => ?_⟩
      obtain ⟨j, hj⟩ := List.mem_iff_getElem?.mp hx
      rcases Threads.getElem?_set_cases hj with ⟨_, rfl⟩ | ⟨hne, hj⟩
      · exact .inl rfl
      · refine .inr ⟨List.mem_of_getElem? hj, fun hxtype => hne ?_⟩
        have hjget : (typesOf old)[j]? = (typesOf old)[k]? := by
          rw [hget, typesOf, List.getElem?_map, hj, hdoc, ← hxtype]
          rfl
        have hlt : j < (typesOf old).length := by
          rw [typesOf, List.length_map]
          exact (List.getElem?_eq_some_iff.mp hj).1
        exact (List.getElem?_inj hlt hnodup).mp hjget
    | none =>
      obtain rfl : old ++ [doc] = docs := h
      have hnone : ∀ d ∈ old, d.get "docType" ≠ some (.str dto.docType) := by
        intro d hd htype
        have := findIndex_none hfound d hd
        unfold hasType at this
        rw [htype] at this
        simp [Value.strictEq] at this
      constructor
      · rw [typesOf, List.map_append, List.map_singleton, ← List.concat_eq_append]
        refine hnodup.concat fun hmem => ?_
        obtain ⟨d, hd, heq⟩ := List.mem_map.mp hmem
        exact hnone d hd (heq.trans hdoc)
      · intro d hd
        rcases List.mem_append.mp hd with hd | hd
        · exact .inr ⟨hd, hnone d hd⟩
        · exact .inl (List.mem_singleton.mp hd)
  · cases h

theorem allM_true {p : Value → Option Bool} {vs : List Value} (h : vs.allM p = some true) :
    ∀ v ∈ vs, p v = some true := by
  induction vs with
  | nil =>
    intro v hv
    cases hv
  | cons w vs ih =>
    simp only [List.allM, Option.bind_eq_bind, Option.bind_eq_some_iff] at h
    obtain ⟨b, hb, h⟩ := h
    cases b with
    | false => cases h
    | true =>
      intro v hv
      rcases List.mem_cons.mp hv with rfl | hv
      · exact hb
      · exact ih h v hv

theorem anyM_true {p : Value → Option Bool} {vs : List Value} (h : vs.anyM p = some true) :
    ∃ v ∈ vs, p v = some true := by
  induction vs with
  | nil => cases h
  | cons w vs ih =>
    simp only [List.anyM, Option.bind_eq_bind, Option.bind_eq_some_iff] at h
    obtain ⟨b, hb, h⟩ := h
    cases b with
    | true => exact ⟨w, List.mem_cons_self .., hb⟩
    | false =>
      obtain ⟨v, hv, hp⟩ := ih h
      exact ⟨v, List.mem_cons_of_mem _ hv, hp⟩

theorem anyM_ne_none {p : Value → Option Bool} {vs : List Value} (h : ∀ v ∈ vs, p v ≠ none) :
    vs.anyM p ≠ none := by
  induction vs with
  | nil => simp [List.anyM]
  | cons w vs ih =>
    obtain ⟨b, hb⟩ := Option.ne_none_iff_exists'.mp (h w (List.mem_cons_self ..))
    have hrest := ih fun v hv => h v (List.mem_cons_of_mem _ hv)
    cases b <;> simp [List.anyM, hb, hrest]

theorem allM_ne_none {p : Value → Option Bool} {vs : List Value} (h : ∀ v ∈ vs, p v ≠ none) :
    vs.allM p ≠ none := by
  induction vs with
  | nil => simp [List.allM]
  | cons w vs ih =>
    obtain ⟨b, hb⟩ := Option.ne_none_iff_exists'.mp (h w (List.mem_cons_self ..))
    have hrest := ih fun v hv => h v (List.mem_cons_of_mem _ hv)
    cases b <;> simp [List.allM, hb, hrest]

theorem statusOf_verified {required : Value} {docs : List Value}
    (h : statusOf required docs = some "VERIFIED") :
    ∀ req ∈ required.elements, ∃ d ∈ docs, fulfils req d = some true := by
  unfold statusOf at h
  split at h
  · next reqs =>
    simp only [Option.bind_eq_bind, Option.bind_eq_some_iff] at h
    obtain ⟨all, hall, h⟩ := h
    cases all with
    | true => exact fun req hreq => anyM_true (allM_true hall req hreq)
    | false =>
      simp only [Bool.false_eq_true, if_false, Option.bind_eq_some_iff] at h
      obtain ⟨bad, _, h⟩ := h
      cases bad <;> simp at h
  · cases h

/-- Only a required list that is none makes the rating throw. -/
theorem statusOf_none {required : Value} {docs : List Value}
    (hdocs : ∀ d ∈ docs, ∀ key, d.get key ≠ none) (h : statusOf required docs = none) :
    required.elements = [] := by
  have hfulfils : ∀ req, ∀ d ∈ docs, fulfils req d ≠ none := by
    intro req d hd
    obtain ⟨v, hv⟩ := Option.ne_none_iff_exists'.mp (hdocs d hd "docType")
    obtain ⟨w, hw⟩ := Option.ne_none_iff_exists'.mp (hdocs d hd "isCompliant")
    unfold fulfils hasType isCompliant
    rw [hv, hw]
    cases hsame : v.strictEq req <;> simp [hsame]
  have hcompliant : ∀ d ∈ docs, (isCompliant d).map (!·) ≠ none := by
    intro d hd
    obtain ⟨w, hw⟩ := Option.ne_none_iff_exists'.mp (hdocs d hd "isCompliant")
    unfold isCompliant
    rw [hw]
    simp
  unfold statusOf at h
  split at h
  · next reqs =>
    exfalso
    obtain ⟨all, hall⟩ := Option.ne_none_iff_exists'.mp
      (allM_ne_none (p := fun req => docs.anyM (fulfils req)) fun req (_ : req ∈ reqs) =>
        anyM_ne_none (hfulfils req))
    obtain ⟨bad, hbad⟩ := Option.ne_none_iff_exists'.mp (anyM_ne_none hcompliant)
    cases all <;> cases bad <;> simp [hall, hbad] at h
  · next hnot =>
    cases required with
    | arr reqs => exact absurd rfl (hnot reqs)
    | undefined | null | bool _ | num _ | str _ | obj _ => rfl

theorem latest_append {docType : String} {presented : List VerifyDocumentDto}
    (h : s'.presented = presented ++ [dto]) (hs : s.presented = presented) :
    s'.latest docType = if dto.docType = docType then some dto else s.latest docType := by
  unfold State.latest
  rw [h, hs, List.reverse_append, List.reverse_singleton, List.singleton_append, List.find?_cons]
  by_cases hsame : dto.docType = docType <;> simp [hsame]

/-- The letter once the documents `docs` are on file. -/
structure Filed (lc lc' : LetterOfCredit) (docs : List Value) : Prop where
  onFile : lc' "presentedDocuments" = .arr docs
  keys : ∀ key, key ≠ "presentedDocuments" → key ≠ "status" → key ≠ "updatedAt" → lc' key = lc key
  status : lc' "status" = .str "VERIFIED" →
    statusOf (lc "requiredDocuments") docs = some "VERIFIED" ∨
    statusOf (lc "requiredDocuments") docs = none

theorem verifyDocument_filed {id now : String} {docs : List Value}
    (h : present dto (presentedDoc id now dto (discrepanciesOf env.js env.texts dto lc)) lc =
      some docs) : Filed lc (verifyDocument env.js env.texts id now dto lc).lc docs := by
  have hrequired : lc.write "presentedDocuments" (.arr docs) "requiredDocuments" =
      lc "requiredDocuments" := write_of_ne (by decide)
  unfold verifyDocument
  simp only [h, hrequired]
  cases hstatus : statusOf (lc "requiredDocuments") docs with
  | none =>
    dsimp only [threw]
    constructor
    case onFile => exact write_self
    case keys => exact fun key hkey _ _ => write_of_ne hkey
    case status => exact fun _ => .inr hstatus
  | some status =>
    constructor
    case onFile =>
      dsimp only
      rw [write_of_ne (by decide), write_of_ne (by decide), write_self]
    case keys =>
      intro key hkey hkey' hkey''
      dsimp only
      rw [write_of_ne hkey'', write_of_ne hkey', write_of_ne hkey]
    case status =>
      intro hverified
      dsimp only at hverified
      rw [write_of_ne (by decide), write_self] at hverified
      rw [hstatus, Value.str.inj hverified]
      exact .inl rfl

/-- A document is presented: it is checked against the terms as they are. -/
theorem Inv.file {docs : List Value} {doc : Value} (h : Inv env s)
    (hpresent : present dto doc s.lc = some docs) (hrecords : Records dto doc)
    (hcompliant : isCompliant doc = some true → Passes env s.lc dto)
    (hfiled : Filed s.lc lc docs) :
    Inv env { s with lc, presented := s.presented ++ [dto] } := by
  obtain ⟨hnodup, hmem⟩ := present_spec h.nodup hrecords.docType hpresent
  have hterms : ∀ dto, Passes env lc dto ↔ Passes env s.lc dto := by
    intro dto
    refine discrepanciesOf_congr ?_ ?_ ?_ ?_ <;>
      exact hfiled.keys _ (by decide) (by decide) (by decide)
  have hdocs : docsOf lc = docs := congrArg Value.elements hfiled.onFile
  have hbacked : ∀ d ∈ docs,
      ∃ dto', Backed env { s with lc, presented := s.presented ++ [dto] } d dto' := by
    intro d hd
    rcases hmem d hd with rfl | ⟨hd, htype⟩
    · refine ⟨dto, (latest_append rfl rfl).trans (if_pos rfl), hrecords, fun hc => ?_⟩
      exact (hterms dto).mpr (hcompliant hc)
    · obtain ⟨dto', hlatest, hrecords', hpasses⟩ := h.backed d hd
      have hne : dto.docType ≠ dto'.docType := by
        intro heq
        rw [heq] at htype
        exact htype hrecords'.docType
      exact ⟨dto', (latest_append rfl rfl).trans ((if_neg hne).trans hlatest), hrecords',
        fun hc => (hterms dto').mpr (hpasses hc)⟩
  constructor
  case backed => exact hdocs.symm ▸ hbacked
  case nodup => exact hdocs.symm ▸ hnodup
  case covered =>
    intro hverified
    show ∀ req ∈ (lc "requiredDocuments").elements, ∃ d ∈ docsOf lc, fulfils req d = some true
    rw [hdocs, hfiled.keys _ (by decide) (by decide) (by decide)]
    rcases hfiled.status hverified with hall | hnone
    · exact statusOf_verified hall
    · have hget : ∀ d ∈ docs, ∀ key, d.get key ≠ none := by
        intro d hd
        obtain ⟨_, hb⟩ := hbacked d hd
        exact hb.records.get_ne_none
      rw [statusOf_none hget hnone]
      intro req hreq
      cases hreq

end File

/-! ## Runs -/

section Runs

variable {env : Env} {s s' : State} {a : Action} {xs : List (Step State Action)}

theorem inv_start (terms : String → Value) : Inv env (start terms) := by
  constructor
  case backed =>
    intro d hd
    cases hd
  case nodup => exact List.nodup_nil
  case covered =>
    intro hstatus
    have hissued : Value.str "ISSUED" = .str "VERIFIED" := hstatus
    exact absurd hissued (by decide)

theorem settleLc_keys {settlementTx now key : String} (hkey : key ∈ READ_KEYS) :
    (settleLc env.js settlementTx now s.lc).lc key = s.lc key := by
  have hne : key ≠ "updatedAt" ∧ key ≠ "settledAt" ∧ key ≠ "status" := by
    simp only [READ_KEYS, List.mem_cons, List.not_mem_nil, or_false] at hkey
    rcases hkey with rfl | rfl | rfl | rfl | rfl | rfl <;> decide
  unfold settleLc
  split
  · dsimp only
    rw [write_of_ne hne.1, write_of_ne hne.2.1, write_of_ne hne.2.2]
  · rfl

theorem next_inv (h : Inv env s) (hstep : next env s a = some s') (hfits : Fitting env s a) :
    Inv env s' := by
  have hverified : "status" ∈ "status" :: SETTLED_KEYS := by decide
  cases a with
  | requestAmendment id requestedBy now message proposedChanges reason =>
    cases hstep
    refine h.of_same rfl (fun key hkey => requestAmendment_key (aside_read key hkey)) fun hs => ?_
    exact (requestAmendment_key (aside_settled _ hverified)).symm.trans hs
  | decideAmendment amendmentId now approved reason =>
    cases hstep
    cases approved with
    | true =>
      exact h.amend hfits rfl fun key hkey => (decideAmendment_key hkey).trans (if_pos rfl)
    | false =>
      have hkeys : ∀ key, Aside key →
          (decideAmendment env.js env.sha256 amendmentId now false reason s.lc).lc key =
            s.lc key := fun key hkey => (decideAmendment_key hkey).trans (if_neg (by decide))
      refine h.of_same rfl (fun key hkey => hkeys key (aside_read key hkey)) fun hs => ?_
      exact (hkeys _ (aside_settled _ hverified)).symm.trans hs
  | verifyDocument id now dto =>
    cases hstep
    cases hpresent : present dto
        (presentedDoc id now dto (discrepanciesOf env.js env.texts dto s.lc)) s.lc with
    | none =>
      simp only [verifyDocument, hpresent, threw]
      exact h
    | some docs =>
      exact h.file hpresent (presentedDoc_records ..) presentedDoc_isCompliant
        (verifyDocument_filed hpresent)
  | settleLc settlementTx now =>
    cases hstep
    refine h.of_same rfl (fun key hkey => settleLc_keys hkey) fun hs => ?_
    by_cases hstatus : s.lc "status" = .str "VERIFIED"
    · exact hstatus
    · have hlc : (settleLc env.js settlementTx now s.lc).lc = s.lc := by
        unfold settleLc
        rw [if_neg (by rwa [Value.strictEq_str])]
        rfl
      exact (congrFun hlc _).symm.trans hs

/-- As long as each approved amendment fits what is on file, `VERIFIED` is justified in every
    state. -/
theorem verified_justified {terms : String → Value} (hrun : LcRun env terms xs s)
    (hfits : ∀ x ∈ xs, Fitting env x.pre x.act) : Justified env s :=
  (hrun.invariant (Inv env) (inv_start terms) fun x hx hstep h =>
    next_inv h hstep (hfits x hx)).justified

end Runs

/-! ## A shipment date that is moved -/

section Example

/-- The expiry is brought forward, which the verified document still meets. -/
def expiryMoved : List Action :=
  [.verifyDocument "doc-1" "now" aBillOfLading,
    .requestAmendment "amend-1" "applicant" "now" "" (.obj [("expiryDate", .str "2026-06-30")]) "",
    .decideAmendment "amend-1" "now" true none]

theorem verified_justified_expiryMoved :
    let run := replay (next anEnv) (start someTerms) expiryMoved
    run.1.length = expiryMoved.length ∧ run.2.lc "status" = .str "VERIFIED" ∧
      run.2.lc "expiryDate" = .str "2026-06-30" ∧ Justified anEnv run.2 := by
  have hrun := run_replay (next anEnv) (start someTerms) expiryMoved
  exact ⟨by decide +kernel, by decide +kernel, by decide +kernel,
    verified_justified hrun (by decide +kernel)⟩

/-- After the only document is verified, the latest shipment date becomes one before it. -/
def shipmentMoved : List Action :=
  [.verifyDocument "doc-1" "now" { aBillOfLading with issueDate := "2026-06-30" },
    .requestAmendment "amend-1" "applicant" "now" "" (.obj [("shipmentDate", .str "2026-06-15")])
      "", .decideAmendment "amend-1" "now" true none]

theorem verified_too_late : ¬ (∀ (xs : List (Step State Action)) (s : State),
    LcRun anEnv someTerms xs s → Justified anEnv s) := by
  intro h
  have hrun := run_replay (next anEnv) (start someTerms) shipmentMoved
  have hjustified := h _ _ hrun (by decide +kernel) (.str "BILL_OF_LADING") (by decide +kernel)
  obtain ⟨dto, hreq, hlatest, _, hpasses⟩ := hjustified
  rw [← Value.str.inj hreq] at hlatest
  have hlast : (replay (next anEnv) (start someTerms) shipmentMoved).2.latest "BILL_OF_LADING" =
      some { aBillOfLading with issueDate := "2026-06-30" } := by decide +kernel
  obtain rfl := Option.some.inj (hlast.symm.trans hlatest)
  revert hpasses
  decide +kernel

end Example

end AgriFi.LetterOfCreditService
