import AgriFi.ReencryptPii.Script
import AgriFi.Rows
import Mathlib.Data.List.Nodup

/-
  What a rotation of the keys keeps and counts. A row that another transaction has locked is passed
  over for good and counted nowhere, so the script reports no error while values are left under the
  old key (`left_behind`); a value whose padding passes under the wrong key is encrypted again as
  what came out; a batch that fails counts one error for all its values. `nothing_lost`: while the
  rows that are passed over are rotated already, no value reads under a key it was not written with,
  and a batch that fails has one value to rotate at most, every plaintext stays and what is left is
  counted, over any number of runs of the script, complete or not.
-/

namespace AgriFi.ReencryptPii

open AgriFi.EncryptionTransformer AgriFi.Rows AgriFi.Runs
open AgriFi.DealDelivered (Outcome)

variable {setup : Setup} {table : Table setup} {s s' : State} {mode : Mode} {job : Job}
  {input : BatchInput} {row : Row} {cell : Cell} {rows : List Row} {report report' : Report}
  {iv : Iv} {raw text : String} {locked : Nat → Bool}

/-! ## What is claimed -/

def Mode.Live (mode : Mode) : Prop := mode.dryRun = false ∧ mode.verifyOnly = false

instance : Decidable mode.Live := inferInstanceAs (Decidable (_ ∧ _))

/-- Null, or read under the new key as its plaintext. -/
def Cell.Rotated (setup : Setup) (cell : Cell) : Prop :=
  cell.plaintext = none ∨
    cell.raw.bind (setup.crypto.transformerDecrypt · setup.newKey) = cell.plaintext

instance : Decidable (cell.Rotated setup) := inferInstanceAs (Decidable (_ ∨ _))

/-- The values of a row that are not rotated. -/
def Row.remaining (setup : Setup) (row : Row) : Nat :=
  row.cells.countP fun cell => decide (¬ cell.Rotated setup)

def remaining (setup : Setup) (rows : List Row) : Nat := (rows.map (Row.remaining setup)).sum

/-- What the application has in a row. -/
def Row.contents (row : Row) : Nat × List (Option String) := (row.id, row.cells.map (·.plaintext))

/-- The rows that are still to come. -/
def rowsAfter (cursor : Nat) (rows : List Row) : Nat := rows.countP fun row => cursor < row.id

structure NothingLost (setup : Setup) (table : Table setup) (xs : List (Step State Action))
    (s : State) : Prop where
  plaintexts : s.rows.map Row.contents = table.rows.map Row.contents
  holds : ∀ row ∈ s.rows, ∀ cell ∈ row.cells, cell.Holds setup
  counted : ∀ mode report, s.returned = some (mode, report) → mode.Live →
    remaining setup s.rows ≤ report.errors
  ends : ∀ x ∈ xs, ∀ input, x.act = .batch input → ∀ job ∈ x.pre.job, ∀ job' ∈ x.post.job,
    rowsAfter job'.cursor x.post.rows < rowsAfter job.cursor x.pre.rows

/-! ## When it holds -/

/-- What the two trials of a decryption give. -/
def Setup.trial (setup : Setup) (raw : String) : Option String :=
  (setup.crypto.transformerDecrypt raw setup.oldKey).or
    (setup.crypto.transformerDecrypt raw setup.newKey)

/-- The value reads as its plaintext, or not at all. -/
def Cell.Legible (setup : Setup) (cell : Cell) : Prop :=
  ∀ raw ∈ cell.raw, ∀ text ∈ setup.trial raw, cell.plaintext = some text

instance : Decidable (cell.Legible setup) :=
  inferInstanceAs (Decidable (∀ raw ∈ cell.raw, ∀ text ∈ setup.trial raw, _))

/-- A row with a value to write. -/
def Setup.changes (setup : Setup) (mode : Mode) (ivs : Nat → Nat → Iv) (row : Row) : Bool :=
  anyChange (setup.results mode (ivs row.id) row)

/-- An UPDATE or the commit fails, and the batch is rolled back. -/
def BatchInput.Fails (setup : Setup) (input : BatchInput) (mode : Mode) (selected : List Row) :
    Prop :=
  (∃ n ∈ input.failedUpdate, n < selected.countP (setup.changes mode input.ivs)) ∨
    input.commit = .fail

instance {selected : List Row} : Decidable (input.Fails setup mode selected) :=
  inferInstanceAs (Decidable ((∃ n ∈ input.failedUpdate, _) ∨ _))

/-- Locked, and before the cursor when the batch is done. -/
def Job.Passes (job : Job) (locked : Nat → Bool) (rows : List Row) (row : Row) : Prop :=
  job.cursor < row.id ∧ locked row.id = true ∧
    ∀ last ∈ (job.select locked rows).getLast?, row.id ≤ last.id

instance : Decidable (job.Passes locked rows row) :=
  inferInstanceAs (Decidable (_ ∧ _ ∧ ∀ last ∈ (job.select locked rows).getLast?, _))

structure Setup.CarefulBatch (setup : Setup) (s : State) (job : Job) (input : BatchInput) :
    Prop where
  legible : ∀ row ∈ job.select input.locked s.rows, ∀ cell ∈ row.cells, cell.Legible setup
  passed : ∀ row ∈ s.rows, job.Passes input.locked s.rows row → row.remaining setup = 0
  failure : input.Fails setup job.mode (job.select input.locked s.rows) →
    remaining setup (job.select input.locked s.rows) ≤ 1

instance : Decidable (setup.CarefulBatch s job input) :=
  decidable_of_iff
    ((∀ row ∈ job.select input.locked s.rows, ∀ cell ∈ row.cells, cell.Legible setup) ∧
      (∀ row ∈ s.rows, job.Passes input.locked s.rows row → row.remaining setup = 0) ∧
      (input.Fails setup job.mode (job.select input.locked s.rows) →
        remaining setup (job.select input.locked s.rows) ≤ 1))
    ⟨fun h => ⟨h.1, h.2.1, h.2.2⟩, fun h => ⟨h.legible, h.passed, h.failure⟩⟩

def Setup.Careful (setup : Setup) (s : State) : Action → Prop
  | .batch input => ∀ job ∈ s.job, job.mode.Live → setup.CarefulBatch s job input
  | .processTable _ _ | .interrupt => True

instance : (a : Action) → Decidable (setup.Careful s a)
  | .batch _ => inferInstanceAs (Decidable (∀ job ∈ s.job, job.mode.Live → _))
  | .processTable _ _ | .interrupt => isTrue trivial

/-! ## A value -/

theorem reencrypt_live (hlive : mode.Live) : setup.reencrypt mode iv text =
    (some (setup.crypto.transformerEncrypt text setup.newKey iv), none) := by
  unfold Setup.reencrypt
  dsimp only
  rw [transformerVerify_encrypt, hlive.1]
  rfl

/-- Null, or a legacy plaintext, or a text of the shape of a ciphertext. -/
theorem Cell.Holds.cases (h : cell.Holds setup) : cell = ⟨none, none⟩ ∨
    ∃ text raw, cell = ⟨some text, some raw⟩ ∧ (raw = text ∨ isTransformerCiphertext raw = true) := by
  cases h with
  | null => exact .inl rfl
  | plaintext text => exact .inr ⟨text, text, rfl, .inl rfl⟩
  | oldKey iv text | newKey iv text =>
    exact .inr ⟨text, _, rfl, .inr (isTransformerCiphertext_encrypt ..)⟩

/-- A live batch leaves a value rotated, or counts it. -/
theorem processed (iv : Iv) (hlive : mode.Live) (hholds : cell.Holds setup)
    (hlegible : cell.Legible setup) :
    (cell.write (setup.processColumn mode iv cell.raw).1).Holds setup ∧
      ((cell.write (setup.processColumn mode iv cell.raw).1).Rotated setup ∨
        (setup.processColumn mode iv cell.raw).2 = some .errors) := by
  have hwritten : ∀ text raw, Cell.Holds setup
      (Cell.write ⟨some text, raw⟩ (setup.crypto.transformerEncrypt text setup.newKey iv)) ∧
      Cell.Rotated setup
        (Cell.write ⟨some text, raw⟩ (setup.crypto.transformerEncrypt text setup.newKey iv)) :=
    fun text raw => ⟨.newKey iv text, .inr (transformerDecrypt_encrypt ..)⟩
  rcases hholds.cases with rfl | ⟨text, raw, rfl, hraw⟩
  · exact ⟨.null, .inl (.inl rfl)⟩
  · have hread : ∀ text', setup.trial raw = some text' → text = text' := by
      intro text' htrial
      exact Option.some.inj (hlegible raw rfl text' htrial)
    dsimp only [Setup.processColumn]
    cases hshape : isTransformerCiphertext raw with
    | false =>
      obtain rfl : raw = text := hraw.resolve_right (by simp [hshape])
      simp only [Bool.not_false, if_true, hlive.1, hlive.2, Bool.false_eq_true, if_false]
      exact ⟨(hwritten raw _).1, .inl (hwritten raw _).2⟩
    | true =>
      simp only [Bool.not_true, Bool.false_eq_true, if_false]
      unfold Setup.trial at hread
      cases hold : setup.crypto.transformerDecrypt raw setup.oldKey with
      | some plaintext =>
        rw [hold] at hread
        obtain rfl := hread plaintext rfl
        simp only [hlive.2, Bool.false_eq_true, if_false, reencrypt_live hlive]
        exact ⟨(hwritten text _).1, .inl (hwritten text _).2⟩
      | none =>
        rw [hold] at hread
        cases hnew : setup.crypto.transformerDecrypt raw setup.newKey with
        | none => exact ⟨hholds, .inr rfl⟩
        | some plaintext =>
          rw [hnew] at hread
          obtain rfl := hread plaintext rfl
          simp only [hlive.2, Bool.false_eq_true, if_false]
          exact ⟨hholds, .inl (.inr hnew)⟩

/-! ## A row -/

theorem contents_updated (setup : Setup) (mode : Mode) (ivs : Nat → Iv) (row : Row) :
    (setup.updated mode ivs row).contents = row.contents := by
  unfold Setup.updated Row.contents
  refine Prod.ext rfl (List.ext_getElem? fun n => ?_)
  simp only [List.getElem?_map, List.getElem?_mapIdx, Option.map_map]
  rfl

/-- The errors among the counters. -/
def errors (results : List ColumnResult) : Nat := (counters results).count .errors

theorem errors_foldl (counted : List Counter) (report : Report) :
    (counted.foldl Report.count report).errors = report.errors + counted.count .errors := by
  induction counted generalizing report with
  | nil => rfl
  | cons counter counted ih =>
    rw [List.foldl_cons, ih, List.count_cons]
    cases counter <;> simp [Report.count]
    omega

theorem processed_row (hlive : mode.Live) (ivs : Nat → Iv)
    (hholds : ∀ cell ∈ row.cells, cell.Holds setup)
    (hlegible : ∀ cell ∈ row.cells, cell.Legible setup) :
    (∀ cell ∈ (setup.updated mode ivs row).cells, cell.Holds setup) ∧
      (setup.updated mode ivs row).remaining setup ≤ errors (setup.results mode ivs row) := by
  obtain ⟨id, cells⟩ := row
  unfold Setup.updated Setup.results Row.remaining errors counters
  dsimp only at hholds hlegible ⊢
  induction cells generalizing ivs with
  | nil => exact ⟨fun cell hcell => absurd hcell List.not_mem_nil, Nat.le_refl 0⟩
  | cons cell cells ih =>
    obtain ⟨hrest, hle⟩ := ih (fun n => ivs (n + 1))
      (fun c hc => hholds c (List.mem_cons_of_mem _ hc))
      fun c hc => hlegible c (List.mem_cons_of_mem _ hc)
    obtain ⟨hhead, hcounted⟩ := processed (ivs 0) hlive (hholds cell (List.mem_cons_self ..))
      (hlegible cell (List.mem_cons_self ..))
    rw [List.mapIdx_cons, List.mapIdx_cons, List.countP_cons]
    refine ⟨List.forall_mem_cons.mpr ⟨hhead, hrest⟩, ?_⟩
    rcases hcounted with hrotated | herror
    · rw [if_neg (by simpa using hrotated), List.filterMap_cons]
      refine hle.trans ?_
      split
      · exact Nat.le_refl _
      · exact List.count_le_count_cons
    · rw [List.filterMap_cons_some herror, List.count_cons_self]
      refine Nat.add_le_add hle ?_
      split <;> decide

/-- A dry run and a verification write nothing. -/
theorem processColumn_idle (hlive : ¬ mode.Live) (raw : Option String) :
    (setup.processColumn mode iv raw).1 = none := by
  have hreencrypt : ∀ text, mode.verifyOnly = false →
      (setup.reencrypt mode iv text).1 = none := by
    intro text hverify
    have hdry : mode.dryRun = true := by
      by_contra hdry
      exact hlive ⟨Bool.eq_false_of_not_eq_true hdry, hverify⟩
    unfold Setup.reencrypt
    dsimp only
    rw [hdry]
    split <;> rfl
  unfold Setup.processColumn
  split
  · rfl
  · split
    · split
      · rfl
      · next hverify =>
        split
        · rfl
        · next hdry =>
          exact absurd ⟨Bool.eq_false_of_not_eq_true hdry, Bool.eq_false_of_not_eq_true hverify⟩
            hlive
    · split
      · split
        · rfl
        · next hverify => exact hreencrypt _ (Bool.eq_false_of_not_eq_true hverify)
      · split
        · rfl
        · split <;> rfl

theorem updated_idle (hlive : ¬ mode.Live) (ivs : Nat → Iv) (row : Row) :
    setup.updated mode ivs row = row := by
  have hcells : (setup.updated mode ivs row).cells = row.cells := by
    refine List.ext_getElem? fun n => ?_
    unfold Setup.updated
    rw [List.getElem?_mapIdx]
    cases row.cells[n]? with
    | none => rfl
    | some cell =>
      refine congrArg some ?_
      dsimp only
      rw [processColumn_idle hlive]
      rfl
  obtain ⟨id, cells⟩ := row
  exact congrArg (Row.mk id) hcells

/-! ## A batch -/

theorem processed_batch (report : Report) (failedUpdate : Option Nat) (hlive : mode.Live)
    (ivs : Nat → Nat → Iv)
    (hholds : ∀ row ∈ rows, ∀ cell ∈ row.cells, cell.Holds setup)
    (hlegible : ∀ row ∈ rows, ∀ cell ∈ row.cells, cell.Legible setup) :
    (∀ report', setup.processTransformerBatch mode ivs failedUpdate rows report = .ok report' →
      report.errors + (rows.map fun row => (setup.updated mode (ivs row.id) row).remaining
        setup).sum ≤ report'.errors) ∧
    (∀ report', setup.processTransformerBatch mode ivs failedUpdate rows report = .error report' →
      report.errors ≤ report'.errors ∧
        ∃ n ∈ failedUpdate, n < rows.countP (setup.changes mode ivs)) := by
  induction rows generalizing failedUpdate report with
  | nil => exact ⟨fun report' h => Except.ok.inj h ▸ Nat.le_refl _, nofun⟩
  | cons row rows ih =>
    have hcounted : report.errors + (setup.updated mode (ivs row.id) row).remaining setup ≤
        ((counters (setup.results mode (ivs row.id) row)).foldl Report.count report).errors := by
      rw [errors_foldl]
      exact Nat.add_le_add_left (processed_row hlive (ivs row.id)
        (hholds row (List.mem_cons_self ..)) (hlegible row (List.mem_cons_self ..))).2 _
    have hrest := fun failedUpdate report => @ih report failedUpdate
      (fun r hr => hholds r (List.mem_cons_of_mem _ hr))
      fun r hr => hlegible r (List.mem_cons_of_mem _ hr)
    rw [List.map_cons, List.sum_cons, List.countP_cons]
    unfold Setup.processTransformerBatch
    dsimp only
    rw [hlive.1, Bool.not_false, Bool.and_true]
    split
    case isTrue hchanges =>
      have hone : setup.changes mode ivs row = true := hchanges
      rw [if_pos hone]
      split
      · refine ⟨nofun, fun report' h => ?_⟩
        rw [← Except.error.inj h]
        exact ⟨by omega, 0, rfl, Nat.succ_pos _⟩
      · next n =>
        refine ⟨fun report' h => ?_, fun report' h => ?_⟩
        · have hle := (hrest _ _).1 report' h
          dsimp only at hle
          omega
        · obtain ⟨hle, m, hm, hlt⟩ := (hrest _ _).2 report' h
          obtain rfl := Option.some.inj hm
          dsimp only at hle
          exact ⟨by omega, n + 1, rfl, Nat.succ_lt_succ hlt⟩
      · refine ⟨fun report' h => ?_, fun report' h => ?_⟩
        · have hle := (hrest _ _).1 report' h
          dsimp only at hle
          omega
        · obtain ⟨-, m, hm, -⟩ := (hrest _ _).2 report' h
          cases hm
    case isFalse hchanges =>
      have hnone : ¬ setup.changes mode ivs row = true := hchanges
      rw [if_neg hnone]
      refine ⟨fun report' h => ?_, fun report' h => ?_⟩
      · have hle := (hrest _ _).1 report' h
        omega
      · obtain ⟨hle, hfails⟩ := (hrest _ _).2 report' h
        exact ⟨by omega, hfails⟩

/-! ## The rows before the cursor -/

/-- The values not rotated in the rows up to the cursor. -/
def remainingUpTo (setup : Setup) (cursor : Nat) (rows : List Row) : Nat :=
  (rows.map fun row => if row.id ≤ cursor then row.remaining setup else 0).sum

theorem sum_le_sum_add {f g h : Row → Nat} (hle : ∀ row ∈ rows, f row ≤ g row + h row) :
    (rows.map f).sum ≤ (rows.map g).sum + (rows.map h).sum := by
  induction rows with
  | nil => exact Nat.le_refl 0
  | cons row rows ih =>
    have hhead := hle row (List.mem_cons_self ..)
    have hrest := ih fun r hr => hle r (List.mem_cons_of_mem _ hr)
    simp only [List.map_cons, List.sum_cons]
    omega

theorem select_sublist : (job.select locked rows).Sublist rows :=
  (List.take_sublist _ _).trans List.filter_sublist

theorem cursor_lt_of_select (h : row ∈ job.select locked rows) : job.cursor < row.id := by
  have hfilter := List.mem_filter.mp (List.mem_of_mem_take h)
  rw [Bool.and_eq_true, decide_eq_true_eq] at hfilter
  exact hfilter.2.1

/-- A row between the cursors is selected, or locked. -/
theorem selected_or_passes (hsorted : (rows.map (·.id)).Pairwise (· < ·)) (hrow : row ∈ rows)
    (hafter : job.cursor < row.id)
    (hlast : ∀ last ∈ (job.select locked rows).getLast?, row.id ≤ last.id)
    (hsize : 0 < job.batchSize) :
    row ∈ job.select locked rows ∨ job.Passes locked rows row := by
  cases hlocked : locked row.id with
  | true => exact .inr ⟨hafter, hlocked, hlast⟩
  | false =>
    left
    have hfilter : row ∈ rows.filter fun row =>
        decide (job.cursor < row.id) && !locked row.id := by
      rw [List.mem_filter]
      exact ⟨hrow, by simp [hafter, hlocked]⟩
    unfold Job.select at hlast ⊢
    generalize hunlocked : (rows.filter fun row =>
      decide (job.cursor < row.id) && !locked row.id) = unlocked at hlast hfilter ⊢
    have hpairs : (unlocked.map (·.id)).Pairwise (· < ·) := by
      rw [← hunlocked]
      exact hsorted.sublist (List.filter_sublist.map _)
    rw [← List.take_append_drop job.batchSize unlocked] at hfilter hpairs
    rcases List.mem_append.mp hfilter with htaken | hdropped
    · exact htaken
    · -- a row that is dropped comes after all those that are taken
      have hne : unlocked.take job.batchSize ≠ [] := by
        intro hnil
        rcases List.take_eq_nil_iff.mp hnil with hzero | hempty
        · omega
        · rw [hempty, List.drop_nil] at hdropped
          exact absurd hdropped List.not_mem_nil
      have hlt := (List.pairwise_append.mp (List.map_append ▸ hpairs)).2.2 _
        (List.mem_map_of_mem (List.getLast_mem hne)) _ (List.mem_map_of_mem hdropped)
      exact absurd (hlast _ (List.getLast?_eq_getLast_of_ne_nil hne)) (Nat.not_le.mpr hlt)

/-- What a batch leaves up to its last row, when its rows become those that `f` gives. -/
theorem remainingUpTo_le (hsorted : (rows.map (·.id)).Pairwise (· < ·)) (hsize : 0 < job.batchSize)
    (hpassed : ∀ row ∈ rows, job.Passes locked rows row → row.remaining setup = 0)
    {last : Row} (hlast : (job.select locked rows).getLast? = some last) (f : Row → Row) :
    remainingUpTo setup last.id
        (rows.map fun row => if row.id ∈ (job.select locked rows).map (·.id) then f row else row) ≤
      remainingUpTo setup job.cursor rows +
        ((job.select locked rows).map fun row => (f row).remaining setup).sum := by
  have hnodup : (rows.map (·.id)).Nodup := hsorted.imp fun h => Nat.ne_of_lt h
  rw [← sum_ite_mem_sublist select_sublist hnodup fun row => (f row).remaining setup]
  unfold remainingUpTo
  rw [List.map_map]
  refine sum_le_sum_add fun row hrow => ?_
  show (if (if _ then f row else row).id ≤ last.id then
    (if _ then f row else row).remaining setup else 0) ≤ _
  by_cases hselected : row.id ∈ (job.select locked rows).map (·.id)
  · rw [if_pos hselected, if_pos hselected]
    split <;> omega
  · rw [if_neg hselected, if_neg hselected]
    by_cases hbefore : row.id ≤ job.cursor
    · rw [if_pos hbefore]
      split <;> omega
    · rw [if_neg hbefore]
      split
      case isFalse => exact Nat.le_refl 0
      case isTrue hle =>
        have hcases : row ∈ job.select locked rows ∨ job.Passes locked rows row :=
          selected_or_passes hsorted hrow (Nat.not_le.mp hbefore)
            (fun l hl => Option.some.inj (hlast.symm.trans hl) ▸ hle) hsize
        rcases hcases with hin | hpasses
        · exact absurd (List.mem_map_of_mem hin) hselected
        · exact Nat.le_of_eq (hpassed row hrow hpasses)

theorem remainingUpTo_self (hsorted : (rows.map (·.id)).Pairwise (· < ·))
    (hsize : 0 < job.batchSize)
    (hpassed : ∀ row ∈ rows, job.Passes locked rows row → row.remaining setup = 0)
    {last : Row} (hlast : (job.select locked rows).getLast? = some last) :
    remainingUpTo setup last.id rows ≤
      remainingUpTo setup job.cursor rows + remaining setup (job.select locked rows) := by
  have hle := remainingUpTo_le hsorted hsize hpassed hlast id
  simp only [id, ite_self, List.map_id'] at hle
  exact hle

/-- When all later rows are locked, nothing is left but what was counted. -/
theorem remaining_of_none (hsorted : (rows.map (·.id)).Pairwise (· < ·))
    (hsize : 0 < job.batchSize)
    (hpassed : ∀ row ∈ rows, job.Passes locked rows row → row.remaining setup = 0)
    (hnone : (job.select locked rows).getLast? = none) :
    remaining setup rows = remainingUpTo setup job.cursor rows := by
  unfold remaining remainingUpTo
  refine congrArg List.sum (List.map_congr_left fun row hrow => ?_)
  split
  case isTrue => rfl
  case isFalse hafter =>
    have hcases : row ∈ job.select locked rows ∨ job.Passes locked rows row :=
      selected_or_passes hsorted hrow (Nat.not_le.mp hafter)
        (fun last hlast => absurd (hnone.symm.trans hlast) (Option.some_ne_none last).symm) hsize
    rcases hcases with hin | hpasses
    · rw [List.getLast?_eq_none_iff.mp hnone] at hin
      exact absurd hin List.not_mem_nil
    · exact hpassed row hrow hpasses

/-! ## The invariant -/

/-- The rows are those of the table, with the same plaintexts. -/
structure Keeps (setup : Setup) (table : Table setup) (rows : List Row) : Prop where
  plaintexts : rows.map Row.contents = table.rows.map Row.contents
  holds : ∀ row ∈ rows, ∀ cell ∈ row.cells, cell.Holds setup

theorem Keeps.ids (h : Keeps setup table rows) : rows.map (·.id) = table.rows.map (·.id) := by
  have hfst := congrArg (List.map Prod.fst) h.plaintexts
  rwa [List.map_map, List.map_map] at hfst

theorem Keeps.sorted (h : Keeps setup table rows) : (rows.map (·.id)).Pairwise (· < ·) :=
  h.ids ▸ table.sorted

theorem Keeps.write (h : Keeps setup table rows) (ivs : Nat → Nat → Iv) {selected : List Row}
    (hsub : selected.Sublist rows)
    (hlegible : mode.Live → ∀ row ∈ selected, ∀ cell ∈ row.cells, cell.Legible setup) :
    Keeps setup table (setup.write mode ivs selected rows) := by
  constructor
  case plaintexts =>
    rw [← h.plaintexts, Setup.write, List.map_map]
    refine List.map_congr_left fun row _ => ?_
    show (if _ then _ else row).contents = row.contents
    split
    · exact contents_updated ..
    · rfl
  case holds =>
    intro row hrow
    obtain ⟨old, hold, rfl⟩ := List.mem_map.mp hrow
    split
    case isFalse => exact h.holds old hold
    case isTrue hin =>
      by_cases hlive : mode.Live
      · obtain ⟨chosen, hchosen, hid⟩ := List.mem_map.mp hin
        have hnodup : (rows.map (·.id)).Nodup := h.sorted.imp fun h => Nat.ne_of_lt h
        obtain rfl := List.inj_on_of_nodup_map hnodup (hsub.subset hchosen) hold hid
        exact (processed_row hlive _ (h.holds chosen hold) (hlegible hlive chosen hchosen)).1
      · rw [updated_idle hlive]
        exact h.holds old hold

structure Inv (setup : Setup) (table : Table setup) (s : State) : Prop where
  keeps : Keeps setup table s.rows
  sizes : ∀ job ∈ s.job, 0 < job.batchSize
  running : ∀ job ∈ s.job, job.mode.Live →
    remainingUpTo setup job.cursor s.rows ≤ job.report.errors
  counted : ∀ mode report, s.returned = some (mode, report) → mode.Live →
    remaining setup s.rows ≤ report.errors

theorem inv_crashed (h : Keeps setup table rows) : Inv setup table (crashed rows) :=
  ⟨h, nofun, nofun, nofun⟩

theorem inv_running (h : Keeps setup table rows) (hsize : 0 < job.batchSize)
    (hle : job.mode.Live → remainingUpTo setup job.cursor rows ≤ job.report.errors) :
    Inv setup table ⟨rows, some job, none⟩ := by
  refine ⟨h, fun job' hjob => ?_, fun job' hjob => ?_, nofun⟩
  · exact Option.some.inj hjob ▸ hsize
  · exact Option.some.inj hjob ▸ hle

theorem inv_failedBatch {last : Row} (h : Keeps setup table rows) (hsize : 0 < job.batchSize)
    (hle : job.mode.Live → remainingUpTo setup last.id rows ≤ report.errors + 1) :
    Inv setup table (failedBatch rows job input last report) := by
  unfold failedBatch
  split
  · exact inv_running h hsize hle
  · exact inv_crashed h

/-! ## Steps -/

theorem Inv.batch (h : Inv setup table s) (hjob : s.job = some job)
    (hcareful : setup.Careful s (.batch input)) :
    Inv setup table (setup.batch s job input) := by
  have hsize := h.sizes job hjob
  have hsorted := h.keeps.sorted
  have hsub : (job.select input.locked s.rows).Sublist s.rows := select_sublist
  have hcareful : job.mode.Live → setup.CarefulBatch s job input := hcareful job hjob
  unfold Setup.batch
  split
  case isTrue => exact inv_crashed h.keeps
  case isFalse =>
    dsimp only
    split
    case h_1 hnone =>
      split
      case isFalse => exact inv_crashed h.keeps
      case isTrue =>
        refine ⟨h.keeps, nofun, nofun, fun mode report hreturned hlive => ?_⟩
        obtain ⟨rfl, rfl⟩ := Prod.mk.inj (Option.some.inj hreturned)
        rw [remaining_of_none hsorted hsize (hcareful hlive).passed hnone]
        exact h.running job hjob hlive
    case h_2 last hlast =>
      have hbatch := fun hlive : job.mode.Live => processed_batch job.report
        input.failedUpdate hlive input.ivs
        (fun row hrow => h.keeps.holds row (hsub.subset hrow)) (hcareful hlive).legible
      have hfailed : job.mode.Live → ∀ report' : Report, job.report.errors ≤ report'.errors →
          input.Fails setup job.mode (job.select input.locked s.rows) →
          remainingUpTo setup last.id s.rows ≤ report'.errors + 1 := by
        intro hlive report' hmono hfails
        have hself := remainingUpTo_self hsorted hsize (hcareful hlive).passed hlast
        have hrunning := h.running job hjob hlive
        have hone := (hcareful hlive).failure hfails
        omega
      split
      case h_1 report herror =>
        refine inv_failedBatch h.keeps hsize fun hlive => ?_
        obtain ⟨hmono, hupdate⟩ := (hbatch hlive).2 report herror
        exact hfailed hlive report hmono (.inl hupdate)
      case h_2 report hok =>
        have hkeeps : Keeps setup table
            (setup.write job.mode input.ivs (job.select input.locked s.rows) s.rows) :=
          h.keeps.write input.ivs hsub fun hlive => (hcareful hlive).legible
        have hwritten : job.mode.Live → remainingUpTo setup last.id
            (setup.write job.mode input.ivs (job.select input.locked s.rows) s.rows) ≤
              report.errors := by
          intro hlive
          have hle := remainingUpTo_le hsorted hsize (hcareful hlive).passed hlast
            fun row => setup.updated job.mode (input.ivs row.id) row
          have hrunning := h.running job hjob hlive
          have hcounted := (hbatch hlive).1 report hok
          unfold Setup.write
          omega
        split
        · exact inv_running hkeeps hsize hwritten
        · next hfail =>
          refine inv_failedBatch h.keeps hsize fun hlive => ?_
          have hcounted := (hbatch hlive).1 report hok
          exact hfailed hlive report (by omega) (.inr hfail)
        · exact inv_failedBatch hkeeps hsize fun hlive => (hwritten hlive).trans (Nat.le_succ _)

theorem Inv.next {a : Action} (h : Inv setup table s) (hcareful : setup.Careful s a)
    (hnext : setup.next s a = some s') : Inv setup table s' := by
  cases a with
  | processTable mode batch =>
    obtain ⟨-, hnext⟩ := Option.ite_none_right_eq_some.mp hnext
    obtain rfl := Option.some.inj hnext
    refine inv_running h.keeps ?_ fun _ => ?_
    · show 0 < batchSize batch
      unfold batchSize
      omega
    · refine Nat.le_of_eq (List.sum_eq_zero fun n hn => ?_)
      obtain ⟨row, hrow, rfl⟩ := List.mem_map.mp hn
      have hid : row.id ∈ table.rows.map (·.id) := h.keeps.ids ▸ List.mem_map_of_mem hrow
      obtain ⟨old, hold, hsame⟩ := List.mem_map.mp hid
      exact if_neg (Nat.not_le.mpr (hsame ▸ table.generated old hold))
  | batch input =>
    obtain ⟨job, hjob, hnext⟩ := Option.bind_eq_some_iff.mp hnext
    obtain rfl := Option.some.inj hnext
    exact h.batch hjob hcareful
  | interrupt =>
    obtain rfl := Option.some.inj hnext
    exact inv_crashed h.keeps

/-- The cursor moves over the last row of the batch. -/
theorem rowsAfter_lt {last : Row} (hlast : last ∈ rows) {cursor : Nat} (hcursor : cursor < last.id) :
    rowsAfter last.id rows < rowsAfter cursor rows := by
  unfold rowsAfter
  induction rows with
  | nil => exact absurd hlast List.not_mem_nil
  | cons row rows ih =>
    have hmono : rows.countP (fun row => decide (last.id < row.id)) ≤
        rows.countP fun row => decide (cursor < row.id) := by
      refine List.countP_mono_left fun x _ hx => ?_
      exact decide_eq_true (hcursor.trans (of_decide_eq_true hx))
    rw [List.countP_cons, List.countP_cons]
    rcases List.mem_cons.mp hlast with rfl | hrest
    · rw [if_neg (by simp), if_pos (decide_eq_true hcursor)]
      omega
    · have hlt := ih hrest
      by_cases hafter : last.id < row.id
      · rw [if_pos (decide_eq_true hafter), if_pos (decide_eq_true (hcursor.trans hafter))]
        omega
      · rw [if_neg (by simpa using hafter)]
        omega

theorem rowsAfter_write {cursor : Nat} {selected : List Row} (ivs : Nat → Nat → Iv) :
    rowsAfter cursor (setup.write mode ivs selected rows) = rowsAfter cursor rows := by
  unfold rowsAfter Setup.write
  rw [List.countP_map]
  refine List.countP_congr fun row _ => ?_
  show decide (cursor < (if _ then _ else row).id) = true ↔ _
  split <;> rfl

/-- After a batch the script has ended, or there are fewer rows to come. -/
theorem rowsAfter_batch {job' : Job} (hjob' : (setup.batch s job input).job = some job') :
    rowsAfter job'.cursor (setup.batch s job input).rows < rowsAfter job.cursor s.rows := by
  have hfailed : ∀ {rows : List Row} {last : Row} {report : Report},
      (failedBatch rows job input last report).job = some job' →
      (failedBatch rows job input last report).rows = rows ∧ job'.cursor = last.id := by
    intro rows last report h
    unfold failedBatch at h ⊢
    split at h
    · next hrolled =>
      rw [if_pos hrolled, ← Option.some.inj h]
      exact ⟨rfl, rfl⟩
    · cases h
  unfold Setup.batch at hjob' ⊢
  split at hjob'
  case isTrue => cases hjob'
  case isFalse hselects =>
    rw [if_neg hselects]
    dsimp only at hjob' ⊢
    split at hjob'
    case h_1 =>
      split at hjob' <;> cases hjob'
    case h_2 last hlast =>
      have hmem := List.mem_of_getLast? hlast
      have hlt := rowsAfter_lt (select_sublist.subset hmem) (cursor_lt_of_select hmem)
      split at hjob'
      case h_1 report herror =>
        obtain ⟨hrows, hcursor⟩ := hfailed hjob'
        rwa [hrows, hcursor]
      case h_2 report hok =>
        split at hjob'
        · rw [← Option.some.inj hjob']
          dsimp only
          rwa [rowsAfter_write]
        · obtain ⟨hrows, hcursor⟩ := hfailed hjob'
          rwa [hrows, hcursor]
        · obtain ⟨hrows, hcursor⟩ := hfailed hjob'
          rwa [hrows, hcursor, rowsAfter_write]

/-- Nothing is lost by any number of runs of the script, while their batches are careful. -/
theorem nothing_lost (setup : Setup) (table : Table setup) (xs : List (Step State Action))
    (s : State) (hrun : ScriptRun setup table xs s) (hcareful : ∀ x ∈ xs, setup.Careful x.pre x.act) :
    NothingLost setup table xs s := by
  have hstart : Inv setup table (start table) := ⟨⟨rfl, table.holds⟩, nofun, nofun, nofun⟩
  have hinv : Inv setup table s := hrun.invariant (Inv setup table) hstart
    fun x hx hnext hpre => hpre.next (hcareful x hx) hnext
  refine ⟨hinv.keeps.plaintexts, hinv.keeps.holds, hinv.counted, ?_⟩
  rintro x hx input hact job hjob job' hjob'
  obtain ⟨hnext, -, -⟩ := hrun.steps_invariant (fun _ => True) trivial (fun _ _ _ _ => trivial) x hx
  rw [hact] at hnext
  obtain ⟨job₀, hjob₀, hnext⟩ := Option.bind_eq_some_iff.mp hnext
  obtain rfl := Option.some.inj (hjob₀.symm.trans hjob)
  have hpost := Option.some.inj hnext
  rw [← hpost] at hjob' ⊢
  exact rowsAfter_batch hjob'

/-! ## A rotation of two rows -/

/-- A stand-in for the cipher, which adds the first byte of the key to each byte. -/
def addKey (key : Key) : Equiv.Perm (List UInt8) where
  toFun bytes := bytes.map (· + key.1.headD 0)
  invFun bytes := bytes.map (· - key.1.headD 0)
  left_inv bytes := by
    dsimp only
    rw [List.map_map]
    exact (List.map_congr_left fun x _ => UInt8.add_sub_cancel x _).trans (List.map_id bytes)
  right_inv bytes := by
    dsimp only
    rw [List.map_map]
    exact (List.map_congr_left fun x _ => UInt8.sub_add_cancel x _).trans (List.map_id bytes)

def standIn : Crypto where
  cipher := ⟨16, by decide, by decide, fun key _ => addKey key, fun _ _ _ => List.length_map ..⟩
  blockSize := rfl
  malformed _ := "\uFFFD"

def keyOf (byte : UInt8) : Key := ⟨List.replicate 32 byte, rfl⟩

def zeroIv : Iv := ⟨List.replicate 16 0, rfl⟩

def users : Setup := ⟨standIn, keyOf 64, keyOf 128, "users"⟩

def encrypted (key : Key) (text : String) : Cell :=
  ⟨some text, standIn.toColumn key zeroIv (some text)⟩

/-- A value under the old key and a null, and a legacy plaintext. -/
def usersTable : Table users where
  rows := [⟨1, [encrypted (keyOf 64) "Ben", ⟨none, none⟩]⟩, ⟨2, [⟨some "Ada", some "Ada"⟩]⟩]
  sorted := by decide
  generated := by decide
  holds := by
    intro row hrow cell hcell
    rcases List.mem_pair.mp hrow with rfl | rfl
    · rcases List.mem_pair.mp hcell with rfl | rfl
      · exact .oldKey zeroIv "Ben"
      · exact .null
    · rw [List.mem_singleton.mp hcell]
      exact .plaintext "Ada"

def live : Mode := ⟨false, false⟩

def unlocked : BatchInput := ⟨fun _ => false, fun _ _ => zeroIv, true, none, .ok, true⟩

/-- A run that is interrupted after its first row, and a second one, whose commit fails. -/
def interruptedAndRerun : List Action :=
  [.processTable live 1, .batch unlocked, .interrupt, .processTable live 50,
    .batch { unlocked with commit := .fail }, .batch unlocked]

theorem nothing_lost_rerun :
    (replay users.next (start usersTable) interruptedAndRerun).2.returned =
        some (live, ⟨"users", 2, 1, 1, 0, 1, 0⟩) ∧
      remaining users (replay users.next (start usersTable) interruptedAndRerun).2.rows = 1 ∧
      NothingLost users usersTable (replay users.next (start usersTable) interruptedAndRerun).1
        (replay users.next (start usersTable) interruptedAndRerun).2 := by
  have hrun := run_replay users.next (start usersTable) interruptedAndRerun
  generalize hend : replay users.next (start usersTable) interruptedAndRerun = done at hrun ⊢
  have hdone : done.2.returned = some (live, ⟨"users", 2, 1, 1, 0, 1, 0⟩) ∧
      remaining users done.2.rows = 1 ∧ ∀ x ∈ done.1, users.Careful x.pre x.act := by
    rw [← hend]
    decide +kernel
  exact ⟨hdone.1, hdone.2.1, nothing_lost users usersTable _ _ hrun hdone.2.2⟩

/-- The first row is locked while the second one is encrypted. -/
def lockedOut : List Action :=
  [.processTable live 50, .batch { unlocked with locked := (· == 1) }, .batch unlocked]

theorem left_behind :
    ¬ ∀ (setup : Setup) (table : Table setup) (xs : List (Step State Action)) (s : State),
      ScriptRun setup table xs s → NothingLost setup table xs s := by
  intro h
  have hrun := run_replay users.next (start usersTable) lockedOut
  generalize hend : replay users.next (start usersTable) lockedOut = done at hrun
  have hdone : done.2.returned = some (live, ⟨"users", 2, 0, 1, 0, 0, 0⟩) ∧
      remaining users done.2.rows = 1 := by
    rw [← hend]
    decide +kernel
  have hcounted := (h users usersTable _ _ hrun).counted _ _ hdone.1 ⟨rfl, rfl⟩
  rw [hdone.2] at hcounted
  exact absurd hcounted (by decide)

end AgriFi.ReencryptPii
