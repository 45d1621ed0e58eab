import AgriFi.JsValue

/-
  The event schemas of the contracts and the lookup of a raw event in them
  (`src/soroban/events/event-schema.registry.ts`, with the contract addresses of
  `src/soroban/soroban-event-indexer.service.ts`). The tables are plain objects: names that every
  object inherits are found in them as well. The hint that the indexer gives is the key of the
  contract's address, a name in another style than the schemas have.
-/

namespace AgriFi.EventIndexer.SchemaRegistry

open AgriFi.JsValue

/-! ## Schemas -/

/-- A schema as far as the lookup reads it. -/
structure ContractEventSchema where
  topic : String
  contract : String
  event : String
  deriving DecidableEq

/-- `EVENT_SCHEMAS_V1`; the key of a schema is its topic. -/
def eventSchemasV1 : List ContractEventSchema :=
  [⟨"escrow.initialized", "escrow", "initialized"⟩,
    ⟨"escrow.funded", "escrow", "funded"⟩,
    ⟨"escrow.approved", "escrow", "approved"⟩,
    ⟨"escrow.milestone_completed", "escrow", "milestone_completed"⟩,
    ⟨"escrow.released", "escrow", "released"⟩,
    ⟨"escrow.settled", "escrow", "settled"⟩,
    ⟨"escrow.compliance_halt", "escrow", "compliance_halt"⟩,
    ⟨"escrow.refunded", "escrow", "refunded"⟩,
    ⟨"escrow.frozen", "escrow", "frozen"⟩,
    ⟨"escrow.unfrozen", "escrow", "unfrozen"⟩,
    ⟨"escrow.batch_refunded", "escrow", "batch_refunded"⟩,
    ⟨"farm_campaign.initialized", "farm_campaign", "initialized"⟩,
    ⟨"farm_campaign.max_funding", "farm_campaign", "max_funding"⟩,
    ⟨"farm_campaign.invested", "farm_campaign", "invested"⟩,
    ⟨"farm_campaign.status_changed", "farm_campaign", "status_changed"⟩,
    ⟨"farm_campaign.milestone_completed", "farm_campaign", "milestone_completed"⟩,
    ⟨"farm_campaign.partial_released", "farm_campaign", "partial_released"⟩,
    ⟨"farm_campaign.revenue_distributed", "farm_campaign", "revenue_distributed"⟩,
    ⟨"farm_campaign.dispute_raised", "farm_campaign", "dispute_raised"⟩,
    ⟨"farm_campaign.dispute_evidence", "farm_campaign", "dispute_evidence"⟩,
    ⟨"farm_campaign.dispute_vote", "farm_campaign", "dispute_vote"⟩,
    ⟨"farm_campaign.dispute_verdict", "farm_campaign", "dispute_verdict"⟩,
    ⟨"farm_campaign.dispute_resolved", "farm_campaign", "dispute_resolved"⟩,
    ⟨"farm_campaign.arbitrator_updated", "farm_campaign", "arbitrator_updated"⟩,
    ⟨"farm_campaign.arbitrator_pool_set", "farm_campaign", "arbitrator_pool_set"⟩,
    ⟨"farm_campaign.refunded", "farm_campaign", "refunded"⟩,
    ⟨"farm_campaign_settlement.settlement_initiated", "farm_campaign_settlement", "settlement_initiated"⟩,
    ⟨"farm_campaign_settlement.settlement_completed", "farm_campaign_settlement", "settlement_completed"⟩,
    ⟨"marketplace_settlement.order_created", "marketplace_settlement", "order_created"⟩,
    ⟨"marketplace_settlement.trade_settled", "marketplace_settlement", "trade_settled"⟩,
    ⟨"marketplace_settlement.order_refunded", "marketplace_settlement", "order_refunded"⟩,
    ⟨"project_factory.campaign_created", "project_factory", "campaign_created"⟩,
    ⟨"project_factory.project_registered", "project_factory", "project_registered"⟩,
    ⟨"project_factory.template_updated", "project_factory", "template_updated"⟩,
    ⟨"revenue_distributor.initialized", "revenue_distributor", "initialized"⟩,
    ⟨"revenue_distributor.holder_registered", "revenue_distributor", "holder_registered"⟩,
    ⟨"revenue_distributor.revenue_distributed", "revenue_distributor", "revenue_distributed"⟩,
    ⟨"revenue_distributor.revenue_claimed", "revenue_distributor", "revenue_claimed"⟩]

/-- `LEGACY_EVENT_TOPIC_MAP`. -/
def legacyEventTopicMap : List (String × String) :=
  [("milestone_completed", "farm_campaign.milestone_completed"),
    ("milestone", "escrow.milestone_completed"),
    ("partial_release", "farm_campaign.partial_released"),
    ("funding_received", "farm_campaign.invested"),
    ("invested", "farm_campaign.invested"),
    ("campaign_status_changed", "farm_campaign.status_changed"),
    ("status_changed", "farm_campaign.status_changed"),
    ("settlement_completed", "farm_campaign_settlement.settlement_completed"),
    ("settled", "marketplace_settlement.trade_settled"),
    ("trade_settled", "marketplace_settlement.trade_settled"),
    ("order", "marketplace_settlement.order_created"),
    ("order_created", "marketplace_settlement.order_created"),
    ("revenue_distributed", "revenue_distributor.revenue_distributed"),
    ("reg_holder", "revenue_distributor.holder_registered"),
    ("campaign", "project_factory.campaign_created"),
    ("compliance_halt", "escrow.compliance_halt"),
    ("funded", "escrow.funded"),
    ("approve", "escrow.approved"),
    ("release", "escrow.released"),
    ("refund", "escrow.refunded"),
    ("frozen", "escrow.frozen"),
    ("unfrozen", "escrow.unfrozen"),
    ("batch_refund", "escrow.batch_refunded"),
    ("dispute_raised", "farm_campaign.dispute_raised"),
    ("dispute_evidence", "farm_campaign.dispute_evidence"),
    ("dispute_vote", "farm_campaign.dispute_vote"),
    ("dispute_verdict", "farm_campaign.dispute_verdict"),
    ("dispute_resolved", "farm_campaign.dispute_resolved"),
    ("arbitrator_pool_set", "farm_campaign.arbitrator_pool_set")]

/-- The names of `Object.prototype`. -/
def objectPrototype : List String :=
  ["constructor", "__defineGetter__", "__defineSetter__", "hasOwnProperty", "__lookupGetter__",
    "__lookupSetter__", "isPrototypeOf", "propertyIsEnumerable", "toString", "valueOf",
    "__proto__", "toLocaleString"]

/-- What stands under a name in the table of schemas: a schema, or something inherited, which has
    neither a contract nor an event. -/
inductive Found where
  | schema (s : ContractEventSchema)
  | inherited
  deriving DecidableEq

def Found.contract : Found → Option String
  | schema s => some s.contract
  | inherited => none

def Found.event : Found → Option String
  | schema s => some s.event
  | inherited => none

def findSchema (topic : String) : Option ContractEventSchema :=
  eventSchemasV1.find? (·.topic = topic)

/-- `EVENT_SCHEMAS_V1[topic]`. -/
def lookupSchema (topic : String) : Option Found :=
  match findSchema topic with
  | some s => some (.schema s)
  | none => if topic ∈ objectPrototype then some .inherited else none

/-- `LEGACY_EVENT_TOPIC_MAP[topic]`, for a topic that is no inherited name: those are found among
    the schemas already. -/
def legacyTopic (topic : String) : Option String :=
  (legacyEventTopicMap.find? (·.1 = topic)).map (·.2)

/-! ## Normalization -/

structure RawEvent where
  id : String
  transactionHash : String
  ledger : Int
  contractId : List Char
  type : Option String
  topic : List String
  value : Option (List (String × Value))

structure StandardizedEventPayload where
  schemaTopic : String
  contract : Option String
  event : Option String
  contractId : List Char
  transactionHash : String
  ledger : Int
  data : List (String × Value)
  rawEvent : RawEvent
  timestamp : Int

/-- The first topic, or the type if there is none or an empty one. -/
def primaryTopic (rawEvent : RawEvent) : String :=
  match rawEvent.topic with
  | first :: _ => if first = "" then rawEvent.type.getD "" else first
  | [] => rawEvent.type.getD ""

/-- The topic of the schema and what is found under it. -/
def resolve (primaryTopic : String) (contractNameHint : Option String) :
    Option (String × Found) :=
  match lookupSchema primaryTopic with
  | some found => some (primaryTopic, found)
  | none =>
    match contractNameHint.bind fun hint => (lookupSchema (hint ++ "." ++ primaryTopic)).map
        fun found => (hint ++ "." ++ primaryTopic, found) with
    | some resolved => some resolved
    | none =>
      match legacyTopic primaryTopic with
      | some topic => (lookupSchema topic).map fun found => (topic, found)
      | none => none

def normalizeContractEvent (rawEvent : RawEvent) (contractNameHint : Option String) (now : Int) :
    Option StandardizedEventPayload :=
  (resolve (primaryTopic rawEvent) contractNameHint).map fun (schemaTopic, found) =>
    { schemaTopic
      contract := found.contract
      event := found.event
      contractId := rawEvent.contractId
      transactionHash := rawEvent.transactionHash
      ledger := rawEvent.ledger
      data := rawEvent.value.getD []
      rawEvent
      timestamp := now }

/-! ## The indexer's contracts -/

/-- The keys of `contractAddresses`. -/
inductive ContractKey where
  | farmCampaign
  | projectFactory
  | revenueDistributor
  | marketplaceSettlement
  | escrow
  | farmCampaignSettlement
  deriving DecidableEq

namespace ContractKey

/-- The key itself, which is what the indexer gives as the hint. -/
def hint : ContractKey → String
  | farmCampaign => "farmCampaign"
  | projectFactory => "projectFactory"
  | revenueDistributor => "revenueDistributor"
  | marketplaceSettlement => "marketplaceSettlement"
  | escrow => "escrow"
  | farmCampaignSettlement => "farmCampaignSettlement"

/-- The contract's name in the schemas. -/
def name : ContractKey → String
  | farmCampaign => "farm_campaign"
  | projectFactory => "project_factory"
  | revenueDistributor => "revenue_distributor"
  | marketplaceSettlement => "marketplace_settlement"
  | escrow => "escrow"
  | farmCampaignSettlement => "farm_campaign_settlement"

/-- In the order of the entries. -/
def all : List ContractKey :=
  [farmCampaign, projectFactory, revenueDistributor, marketplaceSettlement, escrow,
    farmCampaignSettlement]

theorem mem_all (key : ContractKey) : key ∈ all := by
  cases key <;> decide

end ContractKey

/-- The characters of a contract address. -/
def base32 : List Char := "ABCDEFGHIJKLMNOPQRSTUVWXYZ234567".toList

/-- The configured addresses; an address that is not set is empty. -/
structure ContractAddresses where
  address : ContractKey → List Char
  isBase32 : ∀ key, ∀ c ∈ address key, c ∈ base32
  distinct : ∀ key key', address key ≠ [] → address key = address key' → key = key'

/-- The name that `processEvent` passes on: the first configured address that matches, letters
    compared in lower case. -/
def contractName (addresses : ContractAddresses) (contractId : List Char) : Option ContractKey :=
  ContractKey.all.find? fun key =>
    addresses.address key ≠ [] ∧
      (addresses.address key).map Char.toLower = contractId.map Char.toLower

/-- `normalizeContractEvent` as `processEvent` calls it. -/
def normalizedEvent (addresses : ContractAddresses) (event : RawEvent) (now : Int) :
    Option StandardizedEventPayload :=
  normalizeContractEvent event ((contractName addresses event.contractId).map (·.hint)) now

end AgriFi.EventIndexer.SchemaRegistry
