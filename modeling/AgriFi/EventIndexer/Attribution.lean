import AgriFi.EventIndexer.SchemaRegistry
import Mathlib.Data.List.Basic
import Mathlib.Tactic.FinCases

/-
  Which events are attributed to the contract that emitted them. The hint helps the escrow only:
  it is the one contract whose key is its name in the schemas (`findSchema_hint`). For the others a
  bare topic goes through the table of legacy topics, which knows one contract for each topic, and
  a topic that names a schema, or a property of every object, is taken at its word.
  `attributed_iff` says for which topics of a contract the attribution is right.
-/

namespace AgriFi.EventIndexer.SchemaRegistry

/-! ## Attribution -/

/-- The event comes from the contract at the configured address. -/
def Emits (addresses : ContractAddresses) (key : ContractKey) (event : RawEvent) : Prop :=
  addresses.address key ≠ [] ∧ event.contractId = addresses.address key

/-- The topic of a schema that the contract has for an event's topic, bare or in full. -/
def IsSchemaFor (key : ContractKey) (topic schemaTopic : String) : Prop :=
  (∃ s, findSchema schemaTopic = some s ∧ s.contract = key.name) ∧
    (schemaTopic = topic ∨ schemaTopic = key.name ++ "." ++ topic)

/-- The payload names the emitter, and has the emitter's schema if there is one. -/
structure Attributed (key : ContractKey) (event : RawEvent)
    (payload : Option StandardizedEventPayload) : Prop where
  contract : ∀ p, payload = some p → p.contract = some key.name
  schema : ∀ schemaTopic, IsSchemaFor key (primaryTopic event) schemaTopic →
    ∃ p, payload = some p ∧ p.schemaTopic = schemaTopic

/-- The topics a contract may use: its own schemas' in full; of the bare ones those of the escrow,
    those whose legacy schema is the contract's (the very schema of that topic, if there is one),
    and those that no table knows. -/
def Resolvable (key : ContractKey) (topic : String) : Prop :=
  topic ∉ objectPrototype ∧
    match findSchema topic with
    | some s => s.contract = key.name
    | none =>
      match findSchema (key.name ++ "." ++ topic) with
      | some _ => key = .escrow ∨ legacyTopic topic = some (key.name ++ "." ++ topic)
      | none => ∀ schemaTopic, legacyTopic topic = some schemaTopic →
          ∃ s, findSchema schemaTopic = some s ∧ s.contract = key.name

/-! ## The tables -/

theorem findSchema_some {topic : String} {s : ContractEventSchema}
    (h : findSchema topic = some s) : s ∈ eventSchemasV1 ∧ s.topic = topic :=
  ⟨List.mem_of_find?_eq_some h, by simpa using List.find?_some h⟩

/-- A topic is the contract's name, one point and the event, without capital letters. -/
theorem topic_shape : ∀ s ∈ eventSchemasV1, s.topic.toList.count '.' = 1 ∧
    s.topic.toList.any Char.isUpper = false ∧
    s.topic.toList.takeWhile (· ≠ '.') = s.contract.toList := by
  intro s hs
  -- a literal is `String.ofList` of its characters, which are faster to decide about
  fin_cases hs <;> (simp only []; repeat rw [String.toList_ofList]) <;> decide

theorem prototype_shape : ∀ name ∈ objectPrototype,
    name.toList.count '.' = 0 ∧ findSchema name = none := by
  decide +kernel

/-- Every legacy topic leads to a schema. -/
theorem legacy_known : ∀ entry ∈ legacyEventTopicMap, (findSchema entry.2).isSome := by
  decide +kernel

example : (findSchema "farm_campaign.invested").isSome := by decide +kernel

theorem toList_pointed (name topic : String) :
    (name ++ "." ++ topic).toList = name.toList ++ '.' :: topic.toList := by
  rw [String.toList_append, String.toList_append, List.append_assoc]
  rfl

theorem lookupSchema_pointed (name topic : String) :
    lookupSchema (name ++ "." ++ topic) = (findSchema (name ++ "." ++ topic)).map .schema := by
  have hpoint : name ++ "." ++ topic ∉ objectPrototype := by
    intro h
    have hcount := (prototype_shape _ h).1
    rw [toList_pointed, List.count_append, List.count_cons_self] at hcount
    omega
  unfold lookupSchema
  cases findSchema (name ++ "." ++ topic) with
  | none => exact if_neg hpoint
  | some s => rfl

/-- A schema's topic in full is not a bare topic as well. -/
theorem findSchema_pointed {name topic : String} {s : ContractEventSchema}
    (h : findSchema topic = some s) : findSchema (name ++ "." ++ topic) = none := by
  by_contra hfound
  obtain ⟨s', hs'⟩ := Option.ne_none_iff_exists'.mp hfound
  obtain ⟨hmem, rfl⟩ := findSchema_some h
  obtain ⟨hmem', htopic'⟩ := findSchema_some hs'
  have hcount := (topic_shape s hmem).1
  have hcount' := (topic_shape s' hmem').1
  rw [htopic', toList_pointed, List.count_append, List.count_cons_self] at hcount'
  omega

/-- The schemas know the escrow's key only. -/
theorem findSchema_hint {key : ContractKey} (h : key ≠ .escrow) (topic : String) :
    findSchema (key.hint ++ "." ++ topic) = none := by
  by_contra hfound
  obtain ⟨s, hs⟩ := Option.ne_none_iff_exists'.mp hfound
  obtain ⟨hmem, htopic⟩ := findSchema_some hs
  have hlower := (topic_shape s hmem).2.1
  have hcapital : key.hint.toList.any Char.isUpper = true := by
    revert h
    cases key <;> decide
  rw [htopic, toList_pointed, List.any_append, hcapital] at hlower
  cases hlower

theorem contract_of_topic {key : ContractKey} {topic : String} {s : ContractEventSchema}
    (h : findSchema (key.name ++ "." ++ topic) = some s) : s.contract = key.name := by
  obtain ⟨hmem, htopic⟩ := findSchema_some h
  have hname := (topic_shape s hmem).2.2
  have hpoint : ∀ c ∈ key.name.toList, decide (c ≠ '.') = true := by
    cases key <;> exact List.all_eq_true.mp (by decide)
  rw [htopic, toList_pointed, List.takeWhile_append_of_pos hpoint] at hname
  rw [← String.toList_inj, ← hname]
  simp

/-! ## What is resolved -/

section Resolve

variable {topic : String} {hint : Option String} {key : ContractKey}

theorem resolve_inherited (h : topic ∈ objectPrototype) :
    resolve topic hint = some (topic, .inherited) := by
  unfold resolve lookupSchema
  rw [(prototype_shape topic h).2]
  dsimp only
  rw [if_pos h]

theorem resolve_schema {s : ContractEventSchema} (h : findSchema topic = some s) :
    resolve topic hint = some (topic, .schema s) := by
  unfold resolve lookupSchema
  rw [h]

theorem lookupSchema_none (hproto : topic ∉ objectPrototype) (h : findSchema topic = none) :
    lookupSchema topic = none := by
  unfold lookupSchema
  rw [h]
  exact if_neg hproto

theorem resolve_hinted (hproto : topic ∉ objectPrototype) (h : findSchema topic = none)
    {s : ContractEventSchema} {name : String} (hs : findSchema (name ++ "." ++ topic) = some s) :
    resolve topic (some name) = some (name ++ "." ++ topic, .schema s) := by
  unfold resolve
  rw [lookupSchema_none hproto h, Option.bind_some, lookupSchema_pointed, hs]
  rfl

theorem legacyTopic_known {schemaTopic : String} (h : legacyTopic topic = some schemaTopic) :
    ∃ s, findSchema schemaTopic = some s := by
  obtain ⟨entry, hentry, rfl⟩ := Option.map_eq_some_iff.mp h
  exact Option.isSome_iff_exists.mp (legacy_known entry (List.mem_of_find?_eq_some hentry))

theorem resolve_legacy (hproto : topic ∉ objectPrototype) (h : findSchema topic = none)
    {name : String} (hnone : findSchema (name ++ "." ++ topic) = none) :
    resolve topic (some name) =
      (legacyTopic topic).bind fun schemaTopic =>
        (lookupSchema schemaTopic).map fun found => (schemaTopic, found) := by
  unfold resolve
  rw [lookupSchema_none hproto h, Option.bind_some, lookupSchema_pointed, hnone]
  cases legacyTopic topic <;> rfl

theorem resolve_legacy_eq (hproto : topic ∉ objectPrototype) (h : findSchema topic = none)
    {name schemaTopic : String} (hnone : findSchema (name ++ "." ++ topic) = none)
    {s : ContractEventSchema} (hlegacy : legacyTopic topic = some schemaTopic)
    (hs : findSchema schemaTopic = some s) :
    resolve topic (some name) = some (schemaTopic, .schema s) := by
  rw [resolve_legacy hproto h hnone, hlegacy, Option.bind_some, lookupSchema, hs]
  rfl

/-- What is resolved names the contract, and is the contract's schema if there is one. -/
def ResolvedRight (key : ContractKey) (topic : String) (resolved : Option (String × Found)) :
    Prop :=
  (∀ x, resolved = some x → x.2.contract = some key.name) ∧
    ∀ schemaTopic, IsSchemaFor key topic schemaTopic →
      ∃ found, resolved = some (schemaTopic, found)

/-- A bare topic for which the contract has a schema. -/
theorem resolvedRight_own (hproto : topic ∉ objectPrototype) (h : findSchema topic = none)
    {s : ContractEventSchema} (hs : findSchema (key.name ++ "." ++ topic) = some s) :
    ResolvedRight key topic (resolve topic (some key.hint)) ↔
      key = .escrow ∨ legacyTopic topic = some (key.name ++ "." ++ topic) := by
  have hcontract := contract_of_topic hs
  have honly : ∀ schemaTopic, IsSchemaFor key topic schemaTopic →
      schemaTopic = key.name ++ "." ++ topic := by
    rintro schemaTopic ⟨⟨s', hs', -⟩, rfl | hpointed⟩
    · rw [h] at hs'
      cases hs'
    · exact hpointed
  by_cases hescrow : key = .escrow
  · subst hescrow
    refine iff_of_true ⟨fun x hx => ?_, fun schemaTopic hschema => ?_⟩ (.inl rfl)
    · rw [show ContractKey.escrow.hint = ContractKey.escrow.name from rfl,
        resolve_hinted hproto h hs] at hx
      cases hx
      exact congrArg some hcontract
    · rw [honly schemaTopic hschema]
      exact ⟨_, resolve_hinted hproto h hs⟩
  · have hhint := findSchema_hint hescrow topic
    constructor
    · rintro ⟨-, hschema⟩
      obtain ⟨found, hfound⟩ := hschema _ ⟨⟨s, hs, hcontract⟩, .inr rfl⟩
      rw [resolve_legacy hproto h hhint] at hfound
      obtain ⟨schemaTopic, hlegacy, hlookup⟩ := Option.bind_eq_some_iff.mp hfound
      obtain ⟨found', -, hpair⟩ := Option.map_eq_some_iff.mp hlookup
      exact .inr (by rw [hlegacy, (Prod.mk.inj hpair).1])
    · intro hcases
      have hresolve := resolve_legacy_eq hproto h hhint (hcases.resolve_left hescrow) hs
      refine ⟨fun x hx => ?_, fun schemaTopic hschema => ?_⟩
      · rw [hresolve] at hx
        cases hx
        exact congrArg some hcontract
      · rw [honly schemaTopic hschema]
        exact ⟨_, hresolve⟩

/-- A bare topic for which the contract has none. -/
theorem resolvedRight_foreign (hproto : topic ∉ objectPrototype) (h : findSchema topic = none)
    (hnone : findSchema (key.name ++ "." ++ topic) = none) :
    ResolvedRight key topic (resolve topic (some key.hint)) ↔
      ∀ schemaTopic, legacyTopic topic = some schemaTopic →
        ∃ s, findSchema schemaTopic = some s ∧ s.contract = key.name := by
  have hhint : findSchema (key.hint ++ "." ++ topic) = none := by
    by_cases hescrow : key = .escrow
    · subst hescrow
      exact hnone
    · exact findSchema_hint hescrow topic
  constructor
  · rintro ⟨hcontract, -⟩ schemaTopic hlegacy
    obtain ⟨s, hs⟩ := legacyTopic_known hlegacy
    have hnamed := hcontract _ (resolve_legacy_eq hproto h hhint hlegacy hs)
    exact ⟨s, hs, Option.some.inj hnamed⟩
  · intro hlegacy
    refine ⟨fun x hx => ?_, fun schemaTopic hschema => ?_⟩
    · rw [resolve_legacy hproto h hhint] at hx
      obtain ⟨schemaTopic, hsome, -⟩ := Option.bind_eq_some_iff.mp hx
      obtain ⟨s, hs, hcontract⟩ := hlegacy schemaTopic hsome
      rw [← resolve_legacy hproto h hhint, resolve_legacy_eq hproto h hhint hsome hs] at hx
      cases hx
      exact congrArg some hcontract
    · obtain ⟨⟨s, hs, -⟩, rfl | rfl⟩ := hschema
      · rw [h] at hs
        cases hs
      · rw [hnone] at hs
        cases hs

theorem resolvedRight_iff (key : ContractKey) (topic : String) :
    ResolvedRight key topic (resolve topic (some key.hint)) ↔ Resolvable key topic := by
  unfold Resolvable
  by_cases hproto : topic ∈ objectPrototype
  · refine iff_of_false (fun hright => ?_) fun h => h.1 hproto
    have hcontract := hright.1 _ (resolve_inherited hproto)
    cases hcontract
  · rw [and_iff_right hproto]
    cases h : findSchema topic with
    | some s =>
      dsimp only
      constructor
      · rintro ⟨hcontract, -⟩
        exact Option.some.inj (hcontract _ (resolve_schema h))
      · intro hcontract
        refine ⟨fun x hx => ?_, fun schemaTopic hschema => ?_⟩
        · rw [resolve_schema h] at hx
          cases hx
          exact congrArg some hcontract
        · obtain ⟨⟨s', hs', -⟩, rfl | rfl⟩ := hschema
          · exact ⟨_, resolve_schema h⟩
          · rw [findSchema_pointed h] at hs'
            cases hs'
    | none =>
      dsimp only
      cases hs : findSchema (key.name ++ "." ++ topic) with
      | some s => exact resolvedRight_own hproto h hs
      | none => exact resolvedRight_foreign hproto h hs

end Resolve

/-! ## The emitter -/

theorem toLower_base32 : ∀ c ∈ base32, ∀ d ∈ base32, c.toLower = d.toLower → c = d := by
  have hall : base32.all fun c => base32.all fun d => c.toLower = d.toLower → c = d := by
    decide +kernel
  intro c hc d hd
  exact of_decide_eq_true (List.all_eq_true.mp (List.all_eq_true.mp hall c hc) d hd)

/-- Contract addresses have no letters that differ in case only. -/
theorem eq_of_toLower {xs ys : List Char} (hxs : ∀ c ∈ xs, c ∈ base32) (hys : ∀ c ∈ ys, c ∈ base32)
    (h : xs.map Char.toLower = ys.map Char.toLower) : xs = ys := by
  induction xs generalizing ys with
  | nil => exact (List.map_eq_nil_iff.mp h.symm).symm
  | cons x xs ih =>
    cases ys with
    | nil => cases h
    | cons y ys =>
      obtain ⟨hhead, htail⟩ := List.cons.inj h
      rw [toLower_base32 x (hxs x List.mem_cons_self) y (hys y List.mem_cons_self) hhead,
        ih (fun c hc => hxs c (List.mem_cons_of_mem x hc))
          (fun c hc => hys c (List.mem_cons_of_mem y hc)) htail]

theorem contractName_emitter {addresses : ContractAddresses} {key : ContractKey}
    {event : RawEvent} (h : Emits addresses key event) :
    contractName addresses event.contractId = some key := by
  obtain ⟨hset, haddress⟩ := h
  rw [haddress]
  cases hfind : contractName addresses (addresses.address key) with
  | none =>
    have hmiss := List.find?_eq_none.mp hfind key (ContractKey.mem_all key)
    simp [hset] at hmiss
  | some key' =>
    have hmatch := List.find?_some hfind
    simp only [decide_eq_true_eq] at hmatch
    have hsame := eq_of_toLower (addresses.isBase32 key') (addresses.isBase32 key) hmatch.2
    rw [addresses.distinct key' key hmatch.1 hsame]

/-- The attribution of a contract's event is right exactly for the topics the tables resolve. -/
theorem attributed_iff (addresses : ContractAddresses) (key : ContractKey) (event : RawEvent)
    (now : Int) (h : Emits addresses key event) :
    Attributed key event (normalizedEvent addresses event now) ↔
      Resolvable key (primaryTopic event) := by
  rw [← resolvedRight_iff, normalizedEvent, contractName_emitter h, normalizeContractEvent,
    Option.map_some]
  constructor
  · rintro ⟨hcontract, hschema⟩
    refine ⟨fun x hx => ?_, fun schemaTopic hown => ?_⟩
    · exact hcontract _ (Option.map_eq_some_iff.mpr ⟨x, hx, rfl⟩)
    · obtain ⟨p, hp, htopic⟩ := hschema schemaTopic hown
      obtain ⟨x, hx, rfl⟩ := Option.map_eq_some_iff.mp hp
      exact ⟨x.2, by rw [hx, ← htopic]⟩
  · rintro ⟨hcontract, hschema⟩
    constructor
    case contract =>
      intro p hp
      obtain ⟨x, hx, rfl⟩ := Option.map_eq_some_iff.mp hp
      exact hcontract x hx
    case schema =>
      intro schemaTopic hown
      obtain ⟨found, hfound⟩ := hschema schemaTopic hown
      exact ⟨_, Option.map_eq_some_iff.mpr ⟨_, hfound, rfl⟩, rfl⟩

/-! ## Revenue of a campaign -/

/-- The addresses of the campaign and the distributor, the others are not set. -/
def twoAddresses : ContractAddresses where
  address
    | .farmCampaign => "CA".toList
    | .revenueDistributor => "CB".toList
    | _ => []
  isBase32 key := by
    have hall (text : List Char) (h : text.all fun c => decide (c ∈ base32)) :
        ∀ c ∈ text, c ∈ base32 := by simpa using h
    cases key <;> exact hall _ (by decide)
  distinct key key' := by
    cases key <;> cases key' <;> decide

def campaignEvent (topic : String) : RawEvent :=
  ⟨"0-1", "tx", 7, "CA".toList, some "contract", [topic], none⟩

theorem attributed_iff_invested :
    Attributed .farmCampaign (campaignEvent "invested")
        (normalizedEvent twoAddresses (campaignEvent "invested") 0) ↔
      Resolvable .farmCampaign "invested" :=
  attributed_iff twoAddresses .farmCampaign (campaignEvent "invested") 0 ⟨by decide, rfl⟩

/-- The campaign has a schema for `revenue_distributed`, but its event goes to the distributor. -/
theorem campaign_revenue_misattributed :
    Emits twoAddresses .farmCampaign (campaignEvent "revenue_distributed") ∧
      ¬ Attributed .farmCampaign (campaignEvent "revenue_distributed")
        (normalizedEvent twoAddresses (campaignEvent "revenue_distributed") 0) := by
  refine ⟨⟨by decide, rfl⟩, fun h => ?_⟩
  have hcontract : (normalizedEvent twoAddresses (campaignEvent "revenue_distributed") 0).map
      (·.contract) = some (some "revenue_distributor") := by
    decide +kernel
  obtain ⟨p, hp, hother⟩ := Option.map_eq_some_iff.mp hcontract
  rw [h.contract p hp] at hother
  revert hother
  decide

end AgriFi.EventIndexer.SchemaRegistry
