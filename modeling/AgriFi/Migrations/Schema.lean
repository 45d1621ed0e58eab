import Mathlib.Data.List.Basic
import Mathlib.Data.List.Dedup

/-
  Schemas as `information_schema.columns` lists them, and their snapshots. A column is written with
  its type and `NOT NULL`; no type's name ends with another's, so that columns are written apart
  (`column_render_inj`), and a difference without lines means the same tables with the same columns
  (`same_of_diffSchemas`).
-/

namespace AgriFi.Migrations

/-- The names of `data_type`. -/
def DATA_TYPES : List String :=
  ["ARRAY", "USER-DEFINED", "bigint", "bit", "bit varying", "boolean", "box", "bytea", "character",
    "character varying", "cidr", "circle", "date", "double precision", "inet", "integer",
    "interval", "json", "jsonb", "line", "lseg", "macaddr", "macaddr8", "money", "name", "numeric",
    "oid", "path", "pg_lsn", "point", "polygon", "real", "smallint", "text",
    "time with time zone", "time without time zone", "timestamp with time zone",
    "timestamp without time zone", "tsquery", "tsvector", "uuid", "xml"]

structure Column where
  name : List Char
  dataType : { t : String // t ∈ DATA_TYPES }
  nullable : Bool
  deriving DecidableEq

/-- A table is listed by its columns, of which it has one. -/
structure Table where
  name : String
  columns : List Column
  columns_ne : columns ≠ []
  deriving DecidableEq

/-- The public tables, by name. -/
structure Schema where
  tables : List Table
  distinct : (tables.map Table.name).Nodup
  deriving DecidableEq

/-! ## Snapshots -/

/-- What follows the name of a column. -/
def ending (dataType : String) (nullable : Bool) : List Char :=
  ' ' :: (dataType.toList ++ if nullable then [] else " NOT NULL".toList)

def Column.render (c : Column) : List Char := c.name ++ ending c.dataType c.nullable

abbrev Snapshot := List (String × List (List Char))

def snapshotSchema (schema : Schema) : Snapshot :=
  schema.tables.map fun t => (t.name, t.columns.map Column.render)

/-- The columns under a name. -/
def Snapshot.get (s : Snapshot) (name : String) : Option (List (List Char)) :=
  (s.find? fun entry => entry.1 = name).map Prod.snd

/-- The lines about one table. -/
def tableLines (before after : Snapshot) (t : String) : List String :=
  match before.get t, after.get t with
  | none, _ => ["- **Added table** `" ++ t ++ "`"]
  | some _, none => ["- **Dropped table** `" ++ t ++ "`"]
  | some b, some a =>
    ((a.filter fun c => !b.contains c).map fun c =>
      "- `" ++ t ++ "`: added/changed column `" ++ String.ofList c ++ "`") ++
    (b.filter fun c => !a.contains c).map fun c =>
      "- `" ++ t ++ "`: removed/changed column `" ++ String.ofList c ++ "`"

/-- The lines of the difference; without a line it is `_No structural changes._`. -/
def diffSchemas (before after : Snapshot) : List String :=
  (((before.map Prod.fst ++ after.map Prod.fst).dedup).mergeSort (· ≤ ·)).flatMap
    (tableLines before after)

/-! ## The same schema -/

def Schema.columns (schema : Schema) (name : String) : Option (List Column) :=
  (schema.tables.find? fun t => t.name = name).map Table.columns

/-- The same tables, and in each the same columns with their types and nullability. -/
def Schema.Same (s t : Schema) : Prop :=
  ∀ name, match s.columns name, t.columns name with
    | none, none => True
    | some a, some b => ∀ c, c ∈ a ↔ c ∈ b
    | _, _ => False

/-! ## Columns are written apart -/

/-- No type is the end of another one after a blank, and none ends like `NOT NULL`. -/
theorem types_apart : (DATA_TYPES.all fun t =>
    (' ' :: t.toList).getLast? ≠ some 'L' && DATA_TYPES.all fun u =>
      !(' ' :: t.toList).isSuffixOf (' ' :: u.toList) || t = u) = true := by
  decide +kernel

theorem getLast?_of_suffix {x y : List Char} (h : x <:+ y) (hne : x ≠ []) :
    y.getLast? = x.getLast? := by
  obtain ⟨xs, rfl⟩ := h
  exact List.getLast?_append_of_ne_nil xs hne

theorem ending_suffix {t u : String} (ht : t ∈ DATA_TYPES) (hu : u ∈ DATA_TYPES) {n m : Bool}
    (h : ending t n <:+ ending u m) : t = u ∧ n = m := by
  have htypes := List.all_eq_true.mp types_apart
  simp only [Bool.and_eq_true, decide_eq_true_eq] at htypes
  have hlast := getLast?_of_suffix h (List.cons_ne_nil _ _)
  have hnull (v : String) : (ending v false).getLast? = some 'L' := by
    unfold ending
    rw [← List.cons_append, List.getLast?_append_of_ne_nil _ (by decide)]
    rfl
  have hbare (v : String) : ending v true = ' ' :: v.toList := by simp [ending]
  have hpart (hsuffix : (' ' :: t.toList) <:+ (' ' :: u.toList)) : t = u := by
    have hall := List.all_eq_true.mp (htypes t ht).2 u hu
    simpa [List.isSuffixOf_iff_suffix.mpr hsuffix] using hall
  cases n <;> cases m
  · refine ⟨hpart ?_, rfl⟩
    obtain ⟨xs, hxs⟩ := h
    have hall : xs ++ ' ' :: t.toList = ' ' :: u.toList :=
      List.append_cancel_right (by simpa [ending] using hxs)
    exact ⟨xs, hall⟩
  · rw [hnull, hbare] at hlast
    exact absurd hlast (htypes u hu).1
  · rw [hnull, hbare] at hlast
    exact absurd hlast.symm (htypes t ht).1
  · rw [hbare, hbare] at h
    exact ⟨hpart h, rfl⟩

theorem column_render_inj {c d : Column} (h : c.render = d.render) : c = d := by
  obtain ⟨name, ⟨t, ht⟩, n⟩ := c
  obtain ⟨name', ⟨u, hu⟩, m⟩ := d
  simp only [Column.render] at h
  have hleft : ending t n <:+ name' ++ ending u m := h ▸ List.suffix_append name _
  have hkind : t = u ∧ n = m := by
    rcases List.suffix_or_suffix_of_suffix hleft (List.suffix_append name' _) with hs | hs
    · exact ending_suffix ht hu hs
    · obtain ⟨rfl, rfl⟩ := ending_suffix hu ht hs
      exact ⟨rfl, rfl⟩
  obtain ⟨rfl, rfl⟩ := hkind
  rw [List.append_cancel_right h]

/-! ## No difference -/

section Difference

variable {s t : Schema}

theorem get_snapshotSchema (s : Schema) (name : String) :
    (snapshotSchema s).get name =
      (s.columns name).map fun columns => columns.map Column.render := by
  rw [Snapshot.get, snapshotSchema, List.find?_map, Schema.columns]
  simp only [Function.comp_def, Option.map_map]

theorem mem_map_render {columns : List Column} {c : Column} :
    c.render ∈ columns.map Column.render ↔ c ∈ columns :=
  List.mem_map_of_injective fun _ _ => column_render_inj

/-- A table that one of the schemas has gives no line. -/
theorem tableLines_eq_nil (h : diffSchemas (snapshotSchema s) (snapshotSchema t) = [])
    {name : String}
    (hname : name ∈ (snapshotSchema s).map Prod.fst ++ (snapshotSchema t).map Prod.fst) :
    tableLines (snapshotSchema s) (snapshotSchema t) name = [] := by
  refine List.flatMap_eq_nil_iff.mp h name ?_
  exact (List.mergeSort_perm _ _).mem_iff.mpr (List.mem_dedup.mpr hname)

theorem mem_names_of_columns {columns : List Column} {name : String}
    (h : s.columns name = some columns) : name ∈ (snapshotSchema s).map Prod.fst := by
  obtain ⟨table, hfind, -⟩ := Option.map_eq_some_iff.mp h
  have hmem := List.mem_of_find?_eq_some hfind
  have hname : table.name = name := by simpa using List.find?_some hfind
  rw [snapshotSchema, List.map_map]
  exact List.mem_map.mpr ⟨table, hmem, hname⟩

theorem same_of_diffSchemas (h : diffSchemas (snapshotSchema s) (snapshotSchema t) = []) :
    s.Same t := by
  intro name
  have hlines := @tableLines_eq_nil _ _ h name
  unfold tableLines at hlines
  rw [get_snapshotSchema, get_snapshotSchema] at hlines
  cases hs : s.columns name with
  | none =>
    cases ht : t.columns name with
    | none => trivial
    | some b =>
      rw [hs, ht] at hlines
      exact absurd (hlines (List.mem_append_right _ (mem_names_of_columns ht))) (by simp)
  | some a =>
    cases ht : t.columns name with
    | none =>
      rw [hs, ht] at hlines
      exact absurd (hlines (List.mem_append_left _ (mem_names_of_columns hs))) (by simp)
    | some b =>
      rw [hs, ht] at hlines
      have hnil := hlines (List.mem_append_left _ (mem_names_of_columns hs))
      simp only [Option.map_some, List.append_eq_nil_iff, List.map_eq_nil_iff,
        List.filter_eq_nil_iff, Bool.not_eq_true', Bool.not_eq_false, List.contains_iff_mem] at hnil
      intro c
      constructor
      · intro hc
        exact mem_map_render.mp (hnil.2 c.render (mem_map_render.mpr hc))
      · intro hc
        exact mem_map_render.mp (hnil.1 c.render (mem_map_render.mpr hc))

@[simp] theorem diffSchemas_self (s : Schema) :
    diffSchemas (snapshotSchema s) (snapshotSchema s) = [] := by
  refine List.flatMap_eq_nil_iff.mpr fun name hname => ?_
  have hmem := List.mem_dedup.mp ((List.mergeSort_perm _ _).mem_iff.mp hname)
  rw [List.mem_append, or_self] at hmem
  obtain ⟨entry, hentry, rfl⟩ := List.mem_map.mp hmem
  unfold tableLines
  cases hget : (snapshotSchema s).get entry.1 with
  | none =>
    rw [Snapshot.get, Option.map_eq_none_iff, List.find?_eq_none] at hget
    exact absurd (hget entry hentry) (by simp)
  | some columns => simp

end Difference

end AgriFi.Migrations

/-
  `migrate test`. The loop goes over the names that are pending at the start, but every round runs
  all that is pending and reverts the last migration only. Its answer is right about one pending
  migration; of two or more no round reverts another than the last, and whatever `down` does in
  the others is not found (`test_sound_iff`).
-/

namespace AgriFi.Migrations

/-- A change of the schema, or an error of the database. -/
abbrev Change := Schema → Except String Schema

structure Migration where
  name : String
  up : Change
  down : Change

/-- The database: its schema and the table `migrations`, the last row last. -/
structure Database where
  schema : Schema
  executed : List String

def pendingNames (migrations : List Migration) (db : Database) : List String :=
  (migrations.map Migration.name).filter (· ∉ db.executed)

/-- `runMigrations`: all that is pending, in order. -/
def runMigrations (migrations : List Migration) (db : Database) : Except String Database :=
  (migrations.filter (·.name ∉ db.executed)).foldlM (fun db m => do
    return { schema := ← m.up db.schema, executed := db.executed ++ [m.name] }) db

/-- `undoLastMigration`: the last row is reverted, if there is one. -/
def undoLastMigration (migrations : List Migration) (db : Database) : Except String Database :=
  match db.executed.getLast? with
  | none => pure db
  | some name =>
    match migrations.find? (·.name = name) with
    | none => throw ("No migration " ++ name ++ " was found in the source code.")
    | some m => do return { schema := ← m.down db.schema, executed := db.executed.dropLast }

/-- One round of the loop. -/
def testRound (migrations : List Migration) (db : Database) : Except String Database := do
  let before := snapshotSchema db.schema
  let ran ← runMigrations migrations db
  let undone ← undoLastMigration migrations ran
  let reverted := snapshotSchema undone.schema
  if diffSchemas before reverted ≠ [] then
    throw ("down() of " ++ ran.executed.getLast?.getD "undefined" ++
      " does not restore the original schema")
  runMigrations migrations undone

/-- `test`; `invalid` tells a schema with invalid indexes or constraints. -/
def test (production : Bool) (invalid : Schema → Bool) (migrations : List Migration)
    (db : Database) : Except String Database := do
  if production then throw "migration test must not run against production"
  let tested ← (pendingNames migrations db).foldlM (fun db _ => testRound migrations db) db
  if pendingNames migrations tested ≠ [] ∨ invalid tested.schema then throw "Validation failed"
  return tested

/-! ## What is claimed -/

/-- `down` after `up` gives the same schema back. -/
def Migration.ReversibleAt (m : Migration) (schema : Schema) : Prop :=
  ∃ upped reverted, m.up schema = .ok upped ∧ m.down upped = .ok reverted ∧ schema.Same reverted

/-- Each migration is reversible at the schema that those before it leave. -/
def AllReversible : List Migration → Schema → Prop
  | [], _ => True
  | m :: ms, schema =>
    m.ReversibleAt schema ∧ ∀ upped, m.up schema = .ok upped → AllReversible ms upped

/-- Migrations with the given names. -/
def named (names : List String) (ups downs : String → Change) : List Migration :=
  names.map fun name => ⟨name, ups name, downs name⟩

/-- Whatever the migrations do: what passes the test is reversible. -/
def TestSound (names executed : List String) : Prop :=
  ∀ ups downs production invalid schema tested,
    test production invalid (named names ups downs) ⟨schema, executed⟩ = .ok tested →
      AllReversible ((named names ups downs).filter (·.name ∉ executed)) schema

section Names

variable {names executed : List String} {ups downs : String → Change} {schema : Schema}

theorem names_named : (named names ups downs).map Migration.name = names := by
  rw [named, List.map_map]
  exact List.map_id names

theorem pendingNames_named : pendingNames (named names ups downs) ⟨schema, executed⟩ =
    names.filter (· ∉ executed) := by
  rw [pendingNames, names_named]

theorem filter_named : (named names ups downs).filter (·.name ∉ executed) =
    named (names.filter (· ∉ executed)) ups downs := by
  rw [named, List.filter_map, named]
  rfl

theorem find_named {name : String} (h : name ∈ names) :
    (named names ups downs).find? (·.name = name) = some ⟨name, ups name, downs name⟩ := by
  rw [named, List.find?_map]
  have hfind : names.find? ((fun m : Migration => decide (m.name = name)) ∘
      fun name => ⟨name, ups name, downs name⟩) = some name := by
    rw [List.find?_eq_some_iff_append]
    obtain ⟨as, bs, heq, hnot⟩ := List.eq_append_cons_of_mem h
    exact ⟨by simp, as, bs, heq, fun a ha => by simpa using fun hx : a = name => hnot (hx ▸ ha)⟩
  rw [hfind]
  rfl

end Names

/-! ## One pending migration -/

section One

variable {names executed : List String} {ups downs : String → Change} {schema : Schema}
  {name : String}

/-- A round with one pending migration tells whether it is reversible. -/
theorem reversible_of_testRound (hpending : names.filter (· ∉ executed) = [name]) {db : Database}
    (h : testRound (named names ups downs) ⟨schema, executed⟩ = .ok db) :
    Migration.ReversibleAt ⟨name, ups name, downs name⟩ schema := by
  have hname : name ∈ names := (List.mem_filter.mp (hpending ▸ List.mem_singleton_self name)).1
  unfold testRound runMigrations undoLastMigration at h
  simp only [filter_named, hpending] at h
  simp only [named, List.map_cons, List.map_nil, List.foldlM_cons, List.foldlM_nil, bind,
    Except.bind, pure, Except.pure] at h
  cases hup : ups name schema with
  | error e => simp [hup] at h
  | ok upped =>
    have hfind := @find_named _ ups downs _ hname
    rw [named] at hfind
    simp only [hup, List.getLast?_concat, hfind] at h
    cases hdown : downs name upped with
    | error e => simp [hdown] at h
    | ok reverted =>
      simp only [hdown] at h
      split at h
      · cases h
      · next hdiff => exact ⟨upped, reverted, hup, hdown, same_of_diffSchemas (not_not.mp hdiff)⟩

theorem sound_of_one (hpending : (names.filter (· ∉ executed)).length ≤ 1) :
    TestSound names executed := by
  intro ups downs production invalid schema tested h
  rw [filter_named]
  cases hp : names.filter (· ∉ executed) with
  | nil => trivial
  | cons name rest =>
    obtain rfl : rest = [] := by
      rw [hp, List.length_cons] at hpending
      exact List.length_eq_zero_iff.mp (by omega)
    refine ⟨?_, fun _ _ => trivial⟩
    unfold test at h
    rw [pendingNames_named, hp] at h
    cases production with
    | true => cases h
    | false =>
      cases hround : testRound (named names ups downs) ⟨schema, executed⟩ with
      | error e => simp [hround, bind, Except.bind] at h
      | ok db => exact reversible_of_testRound hp hround

end One

/-! ## Two pending migrations -/

/-- The migration does nothing. -/
def idle : Change := fun schema => .ok schema

/-- A schema with a table left behind. -/
def leftBehind : Schema where
  tables := [⟨"leftover", [⟨"id".toList, ⟨"uuid", by decide⟩, false⟩], by simp⟩]
  distinct := by simp

def emptySchema : Schema := ⟨[], by simp⟩

/-- The one migration leaves a table behind, the others do nothing. -/
def spoiling (first name : String) : Change :=
  if name = first then fun _ => .ok leftBehind else idle

section Two

variable {names executed : List String} {ups downs : String → Change} {schema : Schema}
  {first last : String} {front all : List String}

theorem runMigrations_idle : runMigrations (named names (fun _ => idle) downs) ⟨schema, executed⟩ =
    .ok ⟨schema, executed ++ names.filter (· ∉ executed)⟩ := by
  rw [runMigrations, filter_named]
  generalize names.filter (· ∉ executed) = pending
  induction pending generalizing executed with
  | nil => simp [named, pure, Except.pure]
  | cons name pending ih =>
    rw [named, List.map_cons, List.foldlM_cons]
    refine (@ih (executed ++ [name])).trans ?_
    rw [List.append_assoc]
    rfl

/-- A round that ends with the last migration, which does nothing, finds nothing. -/
theorem testRound_idle (hnodup : names.Nodup) (hall : executed ++ names.filter (· ∉ executed) = all)
    (hlast : all = front ++ [last]) (hmem : last ∈ names) (hfront : last ∉ front)
    (hnone : names.filter (· ∉ all) = []) (hdown : downs last = idle) :
    testRound (named names (fun _ => idle) downs) ⟨schema, executed⟩ = .ok ⟨schema, all⟩ := by
  have hundo : undoLastMigration (named names (fun _ => idle) downs) ⟨schema, all⟩ =
      .ok ⟨schema, front⟩ := by
    simp only [undoLastMigration, hlast, List.getLast?_concat, find_named hmem, hdown, idle,
      List.dropLast_concat]
    rfl
  have hagain : names.filter (· ∉ front) = [last] := by
    refine List.perm_singleton.mp ((List.perm_ext_iff_of_nodup (hnodup.filter _)
      (List.nodup_singleton last)).mpr fun name => ?_)
    rw [List.mem_filter, List.mem_singleton, decide_eq_true_eq]
    constructor
    · rintro ⟨hname, hnot⟩
      have hin := List.filter_eq_nil_iff.mp hnone name hname
      rw [decide_eq_true_eq, not_not, hlast, List.mem_append, List.mem_singleton] at hin
      exact hin.resolve_left hnot
    · rintro rfl
      exact ⟨hmem, hfront⟩
  simp only [testRound, runMigrations_idle, hall, bind, Except.bind, hundo, diffSchemas_self,
    hagain, ← hlast]
  rfl

theorem rounds_idle (hround : testRound (named names (fun _ => idle) downs) ⟨schema, all⟩ =
    .ok ⟨schema, all⟩) (pending : List String) :
    pending.foldlM (fun db _ => testRound (named names (fun _ => idle) downs) db)
      (⟨schema, all⟩ : Database) = .ok ⟨schema, all⟩ := by
  induction pending with
  | nil => rfl
  | cons name pending ih =>
    rw [List.foldlM_cons, hround]
    exact ih

/-- The test passes although the first of two pending migrations leaves a table behind. -/
theorem spoiling_passes (hnodup : names.Nodup) {second : String} {rest : List String}
    (hpending : names.filter (· ∉ executed) = first :: second :: rest) :
    test false (fun _ => false) (named names (fun _ => idle) (spoiling first))
      ⟨emptySchema, executed⟩ = .ok ⟨emptySchema, executed ++ names.filter (· ∉ executed)⟩ := by
  obtain ⟨middle, last, hlast⟩ : ∃ middle last, second :: rest = middle ++ [last] :=
    ⟨_, _, (List.dropLast_append_getLast (List.cons_ne_nil second rest)).symm⟩
  have hdistinct : (first :: (middle ++ [last])).Nodup := by
    rw [← hlast, ← hpending]
    exact hnodup.filter _
  have hmem : ∀ name ∈ first :: (middle ++ [last]), name ∈ names ∧ name ∉ executed := by
    intro name hname
    rw [← hlast, ← hpending] at hname
    simpa using List.mem_filter.mp hname
  set all := executed ++ names.filter (· ∉ executed) with hall
  have hsplit : all = (executed ++ first :: middle) ++ [last] := by
    rw [hall, hpending, hlast]
    simp
  have hnone : names.filter (· ∉ all) = [] := by
    refine List.filter_eq_nil_iff.mpr fun name hname => ?_
    by_cases hex : name ∈ executed <;> simp [hall, hname, hex]
  obtain ⟨hfirst, hrest⟩ := List.nodup_cons.mp hdistinct
  have hne : last ≠ first := by
    rintro rfl
    simp at hfirst
  have hfront : last ∉ executed ++ first :: middle := by
    have hmiddle : last ∉ middle := by
      have h := List.nodup_append.mp hrest
      exact fun hm => h.2.2 last hm last (List.mem_singleton_self last) rfl
    simp [(hmem last (by simp)).2, hne, hmiddle]
  have hdown : spoiling first last = idle := if_neg hne
  have hlastmem := (hmem last (by simp)).1
  have hround := @testRound_idle _ _ _ emptySchema _ _ _ hnodup hall.symm hsplit hlastmem hfront
    hnone hdown
  have hagain : testRound (named names (fun _ => idle) (spoiling first)) ⟨emptySchema, all⟩ =
      .ok ⟨emptySchema, all⟩ :=
    testRound_idle hnodup (by rw [hnone, List.append_nil]) hsplit hlastmem hfront hnone hdown
  unfold test
  rw [pendingNames_named, hpending, List.foldlM_cons, hround]
  simp only [bind, Except.bind, rounds_idle hagain, pendingNames_named, hnone]
  rfl

theorem not_reversible_spoiling (names : List String) :
    ¬AllReversible (named (first :: names) (fun _ => idle) (spoiling first)) emptySchema := by
  rintro ⟨⟨upped, reverted, -, hdowned, hsame⟩, -⟩
  have hleft : reverted = leftBehind := by
    simp only [spoiling, if_pos] at hdowned
    exact (Except.ok.inj hdowned).symm
  rw [hleft] at hsame
  exact hsame "leftover"

theorem not_sound_of_two (hnodup : names.Nodup) {second : String} {rest : List String}
    (hpending : names.filter (· ∉ executed) = first :: second :: rest) :
    ¬TestSound names executed := by
  intro hsound
  have hreversible := hsound (fun _ => idle) (spoiling first) false (fun _ => false) emptySchema _
    (spoiling_passes hnodup hpending)
  rw [filter_named, hpending] at hreversible
  exact not_reversible_spoiling _ hreversible

end Two

/-- The test is right about all migrations with these names if and only if at most one of them is
    pending. -/
theorem test_sound_iff {names executed : List String} (hnodup : names.Nodup) :
    TestSound names executed ↔ (names.filter (· ∉ executed)).length ≤ 1 := by
  refine ⟨fun h => ?_, sound_of_one⟩
  match hp : names.filter (· ∉ executed) with
  | [] => simp
  | [_] => simp
  | _ :: _ :: _ => exact absurd h (not_sound_of_two hnodup hp)

theorem test_sound_one_left :
    TestSound ["AddShipments", "AddInvoices"] ["AddShipments"] :=
  (@test_sound_iff ["AddShipments", "AddInvoices"] ["AddShipments"] (by decide)).mpr (by decide)

/-- `AddShipments` leaves a table behind, and the test of it and `AddInvoices` passes. -/
theorem leftover_not_found :
    test false (fun _ => false)
        (named ["AddShipments", "AddInvoices"] (fun _ => idle) (spoiling "AddShipments"))
        ⟨emptySchema, []⟩ = .ok ⟨emptySchema, ["AddShipments", "AddInvoices"]⟩ ∧
      ¬AllReversible
        (named ["AddShipments", "AddInvoices"] (fun _ => idle) (spoiling "AddShipments"))
        emptySchema :=
  ⟨@spoiling_passes ["AddShipments", "AddInvoices"] [] "AddShipments" (by decide) "AddInvoices" []
    (by decide), not_reversible_spoiling ["AddInvoices"]⟩

end AgriFi.Migrations
