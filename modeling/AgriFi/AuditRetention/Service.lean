import AgriFi.DealDelivered.Workers
import AgriFi.Runs
import AgriFi.Slots

/-
  The audit retention job (`audit-retention.service.ts`). A `runRetention` archives the old rows of
  the three source tables page by page: it puts each row into the bucket, verifies what the bucket
  keeps, inserts an archive record unless the row has one, and deletes the row. It also deletes
  expired rows and purges expired archives. Administrators request, approve and retrieve archived
  rows. Any number of runs and calls go on at once, each step can fail or lose its answer, and the
  process can crash between two steps. Times are microseconds, ids of records and requests and the
  versions of objects are places in their lists, and what was written, approved and disclosed are
  history variables.
-/

namespace AgriFi.AuditRetention

open AgriFi.Runs AgriFi.DealDelivered

/-! ## Rows and archives -/

inductive Table where
  | systemAuditLogs
  | auditLogs
  | transactionAuditLog
  deriving DecidableEq

def sourceTables : List Table := [.systemAuditLogs, .auditLogs, .transactionAuditLog]

inductive AuditLogType where
  | financialTransaction
  | kycDocument
  | operational
  | debug
  deriving DecidableEq

def archiveBatchSize : Nat := 100

def day : Nat := 24 * 60 * 60 * 1000000

/-- A timestamp as a `Date`, in whole milliseconds. -/
def toDate (t : Nat) : Nat := t / 1000 * 1000

/-- The key `audit-logs/${log_type}/${id}.json`. -/
structure StorageKey where
  logType : AuditLogType
  id : Nat
  deriving DecidableEq

/-- `content` stands for the other columns of the table. -/
structure SourceRow (C : Type) where
  table : Table
  id : Nat
  logType : AuditLogType
  retentionUntil : Nat
  sourceCreatedAt : Option Nat
  content : C
  deriving DecidableEq

def SourceRow.key {C : Type} (row : SourceRow C) : Table × Nat := (row.table, row.id)

def SourceRow.storageKey {C : Type} (row : SourceRow C) : StorageKey := ⟨row.logType, row.id⟩

inductive LockMode where
  | governance
  | compliance
  deriving DecidableEq

/-- What the bucket keeps beside the body of an object. -/
structure Lock (D : Type) where
  sha256 : Option D
  mode : Option LockMode
  retainUntil : Option Nat
  deriving DecidableEq

structure StoredObject (B D : Type) extends Lock D where
  storageKey : StorageKey
  body : B
  deriving DecidableEq

/-- Nobody deletes the object before `t`. -/
def Lock.holdsUntil {D : Type} (lock : Lock D) (t : Nat) : Prop :=
  lock.mode = some .compliance ∧ ∃ u ∈ lock.retainUntil, t ≤ u

instance {D : Type} (lock : Lock D) (t : Nat) : Decidable (lock.holdsUntil t) :=
  inferInstanceAs (Decidable (_ ∧ _))

structure ArchiveRecord (D : Type) where
  sourceTable : Table
  sourceId : Nat
  logType : AuditLogType
  sourceCreatedAt : Option Nat
  retentionUntil : Nat
  storageKey : StorageKey
  versionId : Nat
  checksum : D
  deriving DecidableEq

def ArchiveRecord.source {D : Type} (rec : ArchiveRecord D) : Table × Nat :=
  (rec.sourceTable, rec.sourceId)

inductive RetrievalStatus where
  | pending
  | approved
  | fulfilled
  deriving DecidableEq

structure RetrievalRequest where
  archiveRecordId : Nat
  requesterId : Nat
  approverId : Option Nat
  status : RetrievalStatus
  deriving DecidableEq

structure Approval where
  request : Nat
  requester : Nat
  approver : Nat

structure Disclosure (B : Type) where
  request : Nat
  requester : Nat
  body : B

/-! ## The stores -/

/-- The serialization, the hash, and the other columns of the row that logs a retrieval. -/
structure Library (C B D : Type) where
  stringify : SourceRow C → B
  sha256 : B → D
  retrievalEntry : Nat → RetrievalRequest → Nat → C

structure Config where
  enabled : Bool
  hotRetentionDays : Nat

structure State (C B D : Type) where
  now : Nat
  sources : List (SourceRow C)
  /-- Each row as it was last written. -/
  latest : List (SourceRow C)
  objects : List (Option (StoredObject B D))
  records : List (Option (ArchiveRecord D))
  requests : List (Option RetrievalRequest)
  approvals : List Approval
  disclosures : List (Disclosure B)

variable {C B D : Type} [DecidableEq C] [DecidableEq D]

namespace State

def insertRow (s : State C B D) (row : SourceRow C) : State C B D :=
  { s with sources := s.sources ++ [row], latest := s.latest ++ [row] }

def replace (row other : SourceRow C) : SourceRow C :=
  if other.key = row.key then row else other

def updateRow (s : State C B D) (row : SourceRow C) : State C B D :=
  { s with sources := s.sources.map (replace row), latest := s.latest.map (replace row) }

/-- `DELETE … WHERE "id" = $1 AND "retention_until" > now()`. -/
def deleteRow (s : State C B D) (key : Table × Nat) : State C B D :=
  { s with sources := s.sources.filter fun row => ¬ (row.key = key ∧ s.now < row.retentionUntil) }

def deleteExpired (s : State C B D) (table : Table) : State C B D :=
  { s with sources := s.sources.filter fun row => ¬ (row.table = table ∧ row.retentionUntil ≤ s.now) }

def putObject (s : State C B D) (object : StoredObject B D) : State C B D :=
  { s with objects := s.objects ++ [some object] }

def getObject (s : State C B D) (storageKey : StorageKey) (versionId : Nat) :
    Option (StoredObject B D) := do
  let object ← Slots.get s.objects versionId
  if object.storageKey = storageKey then some object else none

/-- A locked version is not deleted. A version that is not there counts as deleted. -/
def deleteObject (s : State C B D) (storageKey : StorageKey) (versionId : Nat) :
    Option (State C B D) :=
  match s.getObject storageKey versionId with
  | none => some s
  | some object =>
    if object.holdsUntil (s.now + 1) then none
    else some { s with objects := s.objects.set versionId none }

def getRecord (s : State C B D) (id : Nat) : Option (ArchiveRecord D) := Slots.get s.records id

/-- A record of the same row is kept, and a record with the same storage key is an error. -/
def insertRecord (s : State C B D) (rec : ArchiveRecord D) : Option (State C B D) :=
  if ∃ other ∈ s.records.reduceOption, other.source = rec.source then some s
  else if ∃ other ∈ s.records.reduceOption, other.storageKey = rec.storageKey then none
  else some { s with records := s.records ++ [some rec] }

/-- The requests of the record go with it. -/
def deleteRecord (s : State C B D) (id : Nat) : State C B D :=
  { s with
    records := s.records.set id none
    requests := s.requests.map (Option.filter (·.archiveRecordId ≠ id)) }

def getRequest (s : State C B D) (id : Nat) : Option RetrievalRequest := Slots.get s.requests id

/-- The insertion needs the record. -/
def insertRequest (s : State C B D) (request : RetrievalRequest) : Option (State C B D) :=
  if (s.getRecord request.archiveRecordId).isSome then
    some { s with requests := s.requests ++ [some request] }
  else none

/-- A request that went with its record is not saved again. -/
def saveRequest (s : State C B D) (id : Nat) (request : RetrievalRequest) : Option (State C B D) :=
  if (s.getRequest id).isSome then some { s with requests := s.requests.set id (some request) }
  else none

end State

/-! ## The steps -/

/-- Where a run is in a page of a table. -/
structure Place (C : Type) where
  table : Table
  later : List Table
  page : Nat
  rest : List (SourceRow C)
  full : Bool

/-- The next step of a run or a call. -/
inductive Pc (C B D : Type) where
  | query (table : Table) (later : List Table) (page : Nat)
  | put (row : SourceRow C) (place : Place C)
  | head (row : SourceRow C) (versionId : Nat) (place : Place C)
  | insert (row : SourceRow C) (versionId : Nat) (place : Place C)
  | delete (row : SourceRow C) (place : Place C)
  | expire (table : Table) (later : List Table)
  | purge
  | deleteObject (id : Nat) (rec : ArchiveRecord D) (rest : List (Nat × ArchiveRecord D))
  | deleteRecord (id : Nat) (rest : List (Nat × ArchiveRecord D))
  | findArchive (archiveRecordId requesterId : Nat)
  | insertRequest (archiveRecordId requesterId : Nat)
  | findPending (requestId approverId : Nat)
  | saveApproved (requestId approverId : Nat) (request : RetrievalRequest)
  | findApproved (requestId adminId : Nat)
  | findRecord (requestId adminId : Nat) (request : RetrievalRequest)
  | headObject (requestId adminId : Nat) (request : RetrievalRequest) (rec : ArchiveRecord D)
  | getObject (requestId adminId : Nat) (request : RetrievalRequest) (rec : ArchiveRecord D)
  | logEvent (requestId adminId : Nat) (request : RetrievalRequest) (body : B)
  | saveFulfilled (requestId : Nat) (request : RetrievalRequest) (body : B)
  | ended

/-- Where an object of class Glacier is. -/
inductive Restore where
  | notNeeded
  | ongoing
  | ready
  | cold
  deriving DecidableEq

/-- What a step is told besides its stores: the order in which a query gives its rows, what the
    bucket keeps of an object, its class, and the id of a new row. -/
inductive Info (C D : Type) where
  | nothing
  | rows (order : List (SourceRow C))
  | kept (lock : Lock D)
  | unversioned
  | expired (order : List (Nat × ArchiveRecord D))
  | restore (restore : Restore)
  | drawn (id : Nat)

def oldEnough (cfg : Config) (now : Nat) (row : SourceRow C) : Prop :=
  ∃ createdAt ∈ row.sourceCreatedAt, createdAt + cfg.hotRetentionDays * day ≤ now

instance (cfg : Config) (now : Nat) (row : SourceRow C) : Decidable (oldEnough cfg now row) :=
  inferInstanceAs (Decidable (∃ createdAt ∈ _, _))

/-- The `WHERE` of a page. -/
def Archivable (cfg : Config) (s : State C B D) (table : Table) (row : SourceRow C) : Prop :=
  row.table = table ∧ s.now < row.retentionUntil ∧ row.logType ≠ .debug ∧
    oldEnough cfg s.now row ∧ ∀ rec ∈ s.records.reduceOption, rec.source ≠ row.key

instance (cfg : Config) (s : State C B D) (table : Table) (row : SourceRow C) :
    Decidable (Archivable cfg s table row) := inferInstanceAs (Decidable (_ ∧ _ ∧ _ ∧ _ ∧ _))

/-- The records with their ids. -/
def State.expiredRecords (s : State C B D) : List (Nat × ArchiveRecord D) :=
  (List.range s.records.length).filterMap fun id => do
    let rec ← s.getRecord id
    if rec.retentionUntil ≤ s.now then some (id, rec) else none

/-- `xs` are the rows `ys` in the order of a column. -/
def OrderedBy {ρ : Type} (column : ρ → Nat) (xs ys : List ρ) : Prop :=
  xs.Perm ys ∧ xs.Pairwise fun a b => column a ≤ column b

instance {ρ : Type} [DecidableEq ρ] (column : ρ → Nat) (xs ys : List ρ) :
    Decidable (OrderedBy column xs ys) := inferInstanceAs (Decidable (_ ∧ _))

def nextTable : List Table → Pc C B D
  | [] => .purge
  | table :: later => .query table later 0

def nextRow (place : Place C) : Pc C B D :=
  match place.rest with
  | row :: rest => .put row { place with rest }
  | [] =>
    if place.full ∧ place.page + 1 < 10 then .query place.table place.later (place.page + 1)
    else .expire place.table place.later

def nextExpired : List (Nat × ArchiveRecord D) → Pc C B D
  | [] => .ended
  | (id, rec) :: rest => .deleteObject id rec rest

def archiveOf (lib : Library C B D) (row : SourceRow C) (lock : Lock D) : StoredObject B D :=
  { lock with
    storageKey := row.storageKey
    body := lib.stringify row }

def recordOf (lib : Library C B D) (row : SourceRow C) (versionId : Nat) : ArchiveRecord D :=
  { sourceTable := row.table
    sourceId := row.id
    logType := row.logType
    sourceCreatedAt := row.sourceCreatedAt.map toDate
    retentionUntil := toDate row.retentionUntil
    storageKey := row.storageKey
    versionId := versionId
    checksum := lib.sha256 (lib.stringify row) }

/-- What `archiveSourceRow` checks of the stored version. -/
def Verified (lib : Library C B D) (row : SourceRow C) (object : StoredObject B D) : Prop :=
  object.sha256 = some (lib.sha256 (lib.stringify row)) ∧
    object.holdsUntil (toDate row.retentionUntil)

instance (lib : Library C B D) (row : SourceRow C) (object : StoredObject B D) :
    Decidable (Verified lib row object) := inferInstanceAs (Decidable (_ ∧ _))

/-- The row that `logEvent` inserts for a retrieval. -/
def retrievalLog (lib : Library C B D) (s : State C B D) (id requestId adminId : Nat)
    (request : RetrievalRequest) : SourceRow C :=
  { table := .systemAuditLogs
    id := id
    logType := .operational
    retentionUntil := toDate s.now + 365 * day
    sourceCreatedAt := some s.now
    content := lib.retrievalEntry requestId request adminId }

def State.Fresh (s : State C B D) (key : Table × Nat) : Prop := ∀ row ∈ s.latest, row.key ≠ key

instance (s : State C B D) (key : Table × Nat) : Decidable (s.Fresh key) :=
  inferInstanceAs (Decidable (∀ row ∈ _, _))

/-- An error ends the run or the call. -/
def orEnd (s : State C B D) (pc : Pc C B D) : Option (State C B D) → State C B D × Pc C B D
  | some s' => (s', pc)
  | none => (s, .ended)

/-- The steps of a run that none of its stores fails in. -/
def stepRun (cfg : Config) (lib : Library C B D) (s : State C B D) :
    Pc C B D → Info C D → Option (State C B D × Pc C B D)
  | .query table later page, .rows order =>
    if OrderedBy (·.sourceCreatedAt.getD 0) order (s.sources.filter (Archivable cfg s table)) then
      let rows := order.take archiveBatchSize
      some (s, nextRow ⟨table, later, page, rows, rows.length = archiveBatchSize⟩)
    else none
  | .put row place, .kept lock =>
    some (s.putObject (archiveOf lib row lock), .head row s.objects.length place)
  | .put _ _, .unversioned => some (s, .ended)
  | .head row versionId place, .nothing =>
    match s.getObject row.storageKey versionId with
    | none => some (s, .ended)
    | some object =>
      if Verified lib row object then some (s, .insert row versionId place) else some (s, .ended)
  | .insert row versionId place, .nothing =>
    some (orEnd s (.delete row place) (s.insertRecord (recordOf lib row versionId)))
  | .delete row place, .nothing => some (s.deleteRow row.key, nextRow place)
  | .expire table later, .nothing => some (s.deleteExpired table, nextTable later)
  | .purge, .expired order =>
    if OrderedBy (·.2.retentionUntil) order s.expiredRecords then
      some (s, nextExpired (order.take archiveBatchSize))
    else none
  | .deleteObject id rec rest, .nothing =>
    some (orEnd s (.deleteRecord id rest) (s.deleteObject rec.storageKey rec.versionId))
  | .deleteRecord id rest, .nothing => some (s.deleteRecord id, nextExpired rest)
  | _, _ => none

def approve (request : RetrievalRequest) (approverId : Nat) : RetrievalRequest :=
  { request with status := .approved, approverId := some approverId }

def State.approved (s : State C B D) (requestId approverId : Nat) (request : RetrievalRequest) :
    State C B D :=
  { s with approvals := s.approvals ++ [⟨requestId, request.requesterId, approverId⟩] }

def State.disclosed (s : State C B D) (requestId : Nat) (request : RetrievalRequest) (body : B) :
    State C B D :=
  { s with disclosures := s.disclosures ++ [⟨requestId, request.requesterId, body⟩] }

/-- The steps of `requestRetrieval`, `approveRetrieval` and `retrieveApproved`. -/
def stepCall (lib : Library C B D) (s : State C B D) :
    Pc C B D → Info C D → Option (State C B D × Pc C B D)
  | .findArchive archiveRecordId requesterId, .nothing =>
    match s.getRecord archiveRecordId with
    | none => some (s, .ended)
    | some rec =>
      if rec.retentionUntil ≤ toDate s.now then some (s, .ended)
      else some (s, .insertRequest archiveRecordId requesterId)
  | .insertRequest archiveRecordId requesterId, .nothing =>
    some (orEnd s .ended (s.insertRequest ⟨archiveRecordId, requesterId, none, .pending⟩))
  | .findPending requestId approverId, .nothing =>
    match s.getRequest requestId with
    | none => some (s, .ended)
    | some request =>
      if request.status ≠ .pending ∨ request.requesterId = approverId then some (s, .ended)
      else some (s, .saveApproved requestId approverId request)
  | .saveApproved requestId approverId request, .nothing =>
    some (orEnd s .ended
      ((s.saveRequest requestId (approve request approverId)).map
        (·.approved requestId approverId request)))
  | .findApproved requestId adminId, .nothing =>
    match s.getRequest requestId with
    | none => some (s, .ended)
    | some request =>
      if request.status = .approved then some (s, .findRecord requestId adminId request)
      else some (s, .ended)
  | .findRecord requestId adminId request, .nothing =>
    match s.getRecord request.archiveRecordId with
    | none => some (s, .ended)
    | some rec =>
      if rec.retentionUntil ≤ toDate s.now then some (s, .ended)
      else some (s, .headObject requestId adminId request rec)
  | .headObject requestId adminId request rec, .restore restore =>
    if (s.getObject rec.storageKey rec.versionId).isSome ∧ (restore = .notNeeded ∨ restore = .ready)
    then some (s, .getObject requestId adminId request rec)
    else some (s, .ended)
  | .getObject requestId adminId request rec, .nothing =>
    match s.getObject rec.storageKey rec.versionId with
    | none => some (s, .ended)
    | some object =>
      if lib.sha256 object.body = rec.checksum then
        some (s, .logEvent requestId adminId request object.body)
      else some (s, .ended)
  | .logEvent requestId adminId request body, .drawn id =>
    if s.Fresh (.systemAuditLogs, id) then
      some (s.insertRow (retrievalLog lib s id requestId adminId request),
        .saveFulfilled requestId request body)
    else none
  | .saveFulfilled requestId request body, .nothing =>
    some (orEnd s .ended
      ((s.saveRequest requestId { request with status := .fulfilled }).map
        (·.disclosed requestId request body)))
  | _, _ => none

/-- A step that fails changes nothing and ends its run or call. When only the answer is lost the
    change is made, but nothing is returned. -/
def settle (s : State C B D) (outcome : Outcome) (done : State C B D × Pc C B D) :
    State C B D × Pc C B D :=
  match outcome with
  | .ok => done
  | .fail => (s, .ended)
  | .lost => ({ done.1 with disclosures := s.disclosures }, .ended)

def step (cfg : Config) (lib : Library C B D) (s : State C B D) (pc : Pc C B D)
    (info : Info C D) : Option (State C B D × Pc C B D) :=
  stepRun cfg lib s pc info <|> stepCall lib s pc info

/-! ## The system -/

structure System (C B D : Type) where
  state : State C B D
  threads : List (Pc C B D)

inductive Event (C D : Type) where
  | tick (now : Nat)
  | insertRow (row : SourceRow C)
  | updateRow (row : SourceRow C)
  | runRetention
  | requestRetrieval (archiveRecordId requesterId : Nat)
  | approveRetrieval (requestId approverId : Nat)
  | retrieveApproved (requestId adminId : Nat)
  | step (w : Nat) (outcome : Outcome) (info : Info C D)
  | crash (w : Nat)

def runRetention (cfg : Config) : Pc C B D :=
  if cfg.enabled then nextTable sourceTables else .ended

def System.call (sys : System C B D) (pc : Pc C B D) : System C B D :=
  { sys with threads := sys.threads ++ [pc] }

/-- New rows have new ids, and only a row that is there is updated. -/
def next (cfg : Config) (lib : Library C B D) (sys : System C B D) :
    Event C D → Option (System C B D)
  | .tick now => if sys.state.now ≤ now then some ⟨{ sys.state with now }, sys.threads⟩ else none
  | .insertRow row =>
    if sys.state.Fresh row.key then some ⟨sys.state.insertRow row, sys.threads⟩ else none
  | .updateRow row =>
    if ∃ other ∈ sys.state.sources, other.key = row.key then
      some ⟨sys.state.updateRow row, sys.threads⟩
    else none
  | .runRetention => some (sys.call (runRetention cfg))
  | .requestRetrieval archiveRecordId requesterId =>
    some (sys.call (.findArchive archiveRecordId requesterId))
  | .approveRetrieval requestId approverId => some (sys.call (.findPending requestId approverId))
  | .retrieveApproved requestId adminId => some (sys.call (.findApproved requestId adminId))
  | .step w outcome info => do
    let pc ← sys.threads[w]?
    let done ← step cfg lib sys.state pc info
    let (state, pc') := settle sys.state outcome done
    some ⟨state, sys.threads.set w pc'⟩
  | .crash w => if w < sys.threads.length then some { sys with threads := sys.threads.set w .ended }
    else none

def start : System C B D := ⟨⟨0, [], [], [], [], [], [], []⟩, []⟩

abbrev RetentionRun (cfg : Config) (lib : Library C B D)
    (xs : List (Step (System C B D) (Event C D))) (sys : System C B D) : Prop :=
  Run (next cfg lib) start xs sys

end AgriFi.AuditRetention
