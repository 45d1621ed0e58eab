import AgriFi.DealDelivered.Workers
import AgriFi.EncryptionTransformer
import AgriFi.Runs

/-
  `scripts/reencrypt-pii.ts` on one table of columns that the transformer encrypts, run any number
  of times: it goes through the rows by their ids, a batch in a transaction at a time, and skips
  the rows that others have locked. A batch may fail at any of its queries, and the script may be
  interrupted. Ids are uuids as numbers, in their order. The plaintext of a value, as the
  application wrote it, is a history variable.
-/

namespace AgriFi.ReencryptPii

open AgriFi.EncryptionTransformer AgriFi.Runs
open AgriFi.DealDelivered (Outcome)

/-! ## Data -/

/-- A value of an encrypted column, with its plaintext. -/
structure Cell where
  plaintext : Option String
  raw : Option String
  deriving DecidableEq

structure Row where
  id : Nat
  cells : List Cell
  deriving DecidableEq

/-- What `resolveTransformerKeys` found. -/
structure Setup where
  crypto : Crypto
  oldKey : Key
  newKey : Key
  table : String

structure Mode where
  dryRun : Bool
  verifyOnly : Bool
  deriving DecidableEq

structure Report where
  entity : String
  total : Nat
  skipped : Nat
  reencrypted : Nat
  verified : Nat
  errors : Nat
  dryRunRows : Nat
  deriving DecidableEq

/-- The counters that a value may raise. -/
inductive Counter where
  | skipped
  | verified
  | errors
  | dryRunRows
  deriving DecidableEq

def Report.count (report : Report) : Counter → Report
  | .skipped => { report with skipped := report.skipped + 1 }
  | .verified => { report with verified := report.verified + 1 }
  | .errors => { report with errors := report.errors + 1 }
  | .dryRunRows => { report with dryRunRows := report.dryRunRows + 1 }

/-! ## A batch -/

/-- The value to write, if any, and the counter that is raised. -/
abbrev ColumnResult := Option String × Option Counter

def Setup.reencrypt (setup : Setup) (mode : Mode) (iv : Iv) (plaintext : String) : ColumnResult :=
  let newCiphertext := setup.crypto.transformerEncrypt plaintext setup.newKey iv
  if !setup.crypto.transformerVerify newCiphertext plaintext setup.newKey then (none, some .errors)
  else if mode.dryRun then (none, some .dryRunRows)
  else (some newCiphertext, none)

/-- The turn of the inner loop of `processTransformerBatch`. -/
def Setup.processColumn (setup : Setup) (mode : Mode) (iv : Iv) : Option String → ColumnResult
  | none => (none, none)
  | some raw =>
    if !isTransformerCiphertext raw then
      -- stored before encryption was enabled
      if mode.verifyOnly then (none, none)
      else if mode.dryRun then (none, some .dryRunRows)
      else (some (setup.crypto.transformerEncrypt raw setup.newKey iv), none)
    else
      match setup.crypto.transformerDecrypt raw setup.oldKey with
      | some plaintext =>
        if mode.verifyOnly then (none, some .verified) else setup.reencrypt mode iv plaintext
      | none =>
        match setup.crypto.transformerDecrypt raw setup.newKey with
        | none => (none, some .errors)
        | some _ => if mode.verifyOnly then (none, some .verified) else (none, some .skipped)

def Cell.write (cell : Cell) (value : Option String) : Cell := { cell with raw := value.or cell.raw }

/-- The results for a row, with the vectors that are drawn for it. -/
def Setup.results (setup : Setup) (mode : Mode) (ivs : Nat → Iv) (row : Row) : List ColumnResult :=
  row.cells.mapIdx fun n cell => setup.processColumn mode (ivs n) cell.raw

def anyChange (results : List ColumnResult) : Bool := results.any (·.1.isSome)

def counters (results : List ColumnResult) : List Counter := results.filterMap (·.2)

/-- A row after its UPDATE. -/
def Setup.updated (setup : Setup) (mode : Mode) (ivs : Nat → Iv) (row : Row) : Row :=
  { row with
    cells := row.cells.mapIdx fun n cell =>
      cell.write (setup.processColumn mode (ivs n) cell.raw).1 }

/-- The report after the batch, or when an UPDATE has failed; `failedUpdate` is its number. -/
def Setup.processTransformerBatch (setup : Setup) (mode : Mode) (ivs : Nat → Nat → Iv) :
    Option Nat → List Row → Report → Except Report Report
  | _, [], report => .ok report
  | failedUpdate, row :: rows, report =>
    let results := setup.results mode (ivs row.id) row
    let report := (counters results).foldl Report.count report
    if anyChange results && !mode.dryRun then
      match failedUpdate with
      | some 0 => .error report
      | some (n + 1) => setup.processTransformerBatch mode ivs (some n) rows
          { report with reencrypted := report.reencrypted + 1 }
      | none => setup.processTransformerBatch mode ivs none rows
          { report with reencrypted := report.reencrypted + 1 }
    else setup.processTransformerBatch mode ivs failedUpdate rows report

/-! ## The script -/

structure Job where
  mode : Mode
  batchSize : Nat
  cursor : Nat
  report : Report
  deriving DecidableEq

structure State where
  rows : List Row
  /-- The script that is running, or what the last one has returned. -/
  job : Option Job
  returned : Option (Mode × Report)

/-- `BATCH_SIZE` from the number that was given. -/
def batchSize (batch : Int) : Nat := (min 500 (max 1 batch)).toNat

/-- What a batch meets: the rows locked by others, the vectors drawn, and how its queries end. -/
structure BatchInput where
  locked : Nat → Bool
  ivs : Nat → Nat → Iv
  selects : Bool
  failedUpdate : Option Nat
  commit : Outcome
  rollsBack : Bool

/-- SELECT … FOR UPDATE SKIP LOCKED, in the order of the ids. -/
def Job.select (job : Job) (locked : Nat → Bool) (rows : List Row) : List Row :=
  (rows.filter fun row => decide (job.cursor < row.id) && !locked row.id).take job.batchSize

/-- The UPDATEs of a batch. -/
def Setup.write (setup : Setup) (mode : Mode) (ivs : Nat → Nat → Iv) (selected rows : List Row) :
    List Row :=
  rows.map fun row =>
    if row.id ∈ selected.map (·.id) then setup.updated mode (ivs row.id) row else row

/-- An error that the script does not catch. -/
def crashed (rows : List Row) : State := ⟨rows, none, none⟩

/-- The error path of a batch. -/
def failedBatch (rows : List Row) (job : Job) (input : BatchInput) (last : Row) (report : Report) :
    State :=
  if input.rollsBack then
    ⟨rows, some { job with cursor := last.id, report := report.count .errors }, none⟩
  else crashed rows

/-- A turn of the loop of `processTable`. -/
def Setup.batch (setup : Setup) (s : State) (job : Job) (input : BatchInput) : State :=
  -- after a SELECT that failed there is no last row, which is an error of its own
  if !input.selects then crashed s.rows
  else
    let selected := job.select input.locked s.rows
    match selected.getLast? with
    | none =>
      if input.commit = .ok then ⟨s.rows, none, some (job.mode, job.report)⟩ else crashed s.rows
    | some last =>
      match setup.processTransformerBatch job.mode input.ivs input.failedUpdate selected
          job.report with
      | .error report => failedBatch s.rows job input last report
      | .ok report =>
        let rows := setup.write job.mode input.ivs selected s.rows
        match input.commit with
        | .ok => ⟨rows, some { job with cursor := last.id, report }, none⟩
        | .fail => failedBatch s.rows job input last report
        | .lost => failedBatch rows job input last report

inductive Action where
  | processTable (mode : Mode) (batch : Int)
  | batch (input : BatchInput)
  | interrupt

def Setup.next (setup : Setup) (s : State) : Action → Option State
  | .processTable mode batch =>
    if s.job = none then
      some ⟨s.rows,
        some ⟨mode, batchSize batch, 0, ⟨setup.table, s.rows.length, 0, 0, 0, 0, 0⟩⟩, none⟩
    else none
  | .batch input => do
    let job ← s.job
    some (setup.batch s job input)
  | .interrupt => some (crashed s.rows)

/-! ## Tables -/

/-- Null, legacy plaintext, or what the transformer wrote under one of the keys. -/
inductive Cell.Holds (setup : Setup) : Cell → Prop
  | null : Holds setup ⟨none, none⟩
  | plaintext (text : String) : Holds setup ⟨some text, some text⟩
  | oldKey (iv : Iv) (text : String) :
      Holds setup ⟨some text, setup.crypto.toColumn setup.oldKey iv (some text)⟩
  | newKey (iv : Iv) (text : String) :
      Holds setup ⟨some text, setup.crypto.toColumn setup.newKey iv (some text)⟩

/-- Rows in the order of their ids, none of which is the nil uuid. -/
structure Table (setup : Setup) where
  rows : List Row
  sorted : (rows.map (·.id)).Pairwise (· < ·)
  generated : ∀ row ∈ rows, 0 < row.id
  holds : ∀ row ∈ rows, ∀ cell ∈ row.cells, cell.Holds setup

def start {setup : Setup} (table : Table setup) : State := ⟨table.rows, none, none⟩

abbrev ScriptRun (setup : Setup) (table : Table setup) (xs : List (Step State Action)) (s : State) :
    Prop :=
  Run setup.next (start table) xs s

end AgriFi.ReencryptPii
