import AgriFi.AuditRetention.Service
import AgriFi.Threads
import Mathlib.Data.List.Nodup

/-
  What the retention job keeps of a row. Every step makes a `Frame`: the bucket loses only objects
  that are no longer locked, the index only records that have expired, and a source table only rows
  that have expired or are archived. Under a frame a run keeps what it relies on (`Sound.frame`),
  and the stores keep every row that was written (`Kept.frame`). An update is no frame: it keeps
  both when no run has the row in hand (`Kept.updateRow`, `Sound.updateRow`).
-/

namespace AgriFi.AuditRetention

open AgriFi.DealDelivered

variable {C B D : Type} {cfg : Config} {lib : Library C B D}
  {s s' : State C B D} {pc pc' : Pc C B D} {row other : SourceRow C} {rec : ArchiveRecord D}
  {object : StoredObject B D} {storageKey : StorageKey} {versionId id : Nat} {place : Place C}
  {info : Info C D} {t u : Nat}

/-! ## The stores -/

theorem getObject_eq_some : s.getObject storageKey versionId = some object ↔
    Slots.get s.objects versionId = some object ∧ object.storageKey = storageKey := by
  unfold State.getObject
  cases Slots.get s.objects versionId with
  | none => simp
  | some stored =>
    simp only [Option.bind_eq_bind, Option.bind_some, Option.some.injEq]
    split
    · next hkey =>
      constructor
      · intro h
        cases h
        exact ⟨rfl, hkey⟩
      · exact fun h => congrArg some h.1
    · next hkey =>
      constructor
      · intro h; cases h
      · rintro ⟨rfl, hk⟩; exact absurd hk hkey

theorem Lock.holdsUntil_mono {lock : Lock D} (h : lock.holdsUntil t) (hle : u ≤ t) :
    lock.holdsUntil u := by
  obtain ⟨hmode, v, hv, htv⟩ := h
  exact ⟨hmode, v, hv, hle.trans htv⟩

/-! ## What a record says of a row -/

/-- The row has expired, or the bucket has it and keeps it until it expires. -/
def Secured (lib : Library C B D) (s : State C B D) (storageKey : StorageKey) (versionId : Nat)
    (row : SourceRow C) : Prop :=
  row.retentionUntil ≤ s.now ∨ ∃ object, s.getObject storageKey versionId = some object ∧
    object.body = lib.stringify row ∧ object.holdsUntil row.retentionUntil

structure Describes (lib : Library C B D) (s : State C B D) (rec : ArchiveRecord D)
    (row : SourceRow C) : Prop where
  source : rec.source = row.key
  retentionUntil : rec.retentionUntil = row.retentionUntil
  checksum : rec.checksum = lib.sha256 (lib.stringify row)
  secured : Secured lib s rec.storageKey rec.versionId row

/-- The row has expired, or a record describes it. -/
def Settled (lib : Library C B D) (s : State C B D) (row : SourceRow C) : Prop :=
  row.retentionUntil ≤ s.now ∨ ∃ id rec, s.getRecord id = some rec ∧ Describes lib s rec row

/-- A row that a run has in hand is as it was last written, and a record under its id is of it. -/
structure Held (lib : Library C B D) (s : State C B D) (row : SourceRow C) : Prop where
  latest : row ∈ s.latest
  described : ∀ id rec, s.getRecord id = some rec → rec.source = row.key → Describes lib s rec row

/-- What every step does, an update apart. -/
structure Frame (lib : Library C B D) (s s' : State C B D) : Prop where
  now : s.now ≤ s'.now
  latest : ∀ row ∈ s.latest, row ∈ s'.latest
  written : ∀ row ∈ s'.latest, row ∈ s.latest ∨ row ∈ s'.sources
  sources : ∀ row ∈ s.sources, row ∈ s'.sources ∨ Settled lib s row
  objects : ∀ storageKey versionId object, s.getObject storageKey versionId = some object →
    s'.getObject storageKey versionId = some object ∨ ¬ object.holdsUntil (s.now + 1)
  stored : ∀ storageKey versionId object, versionId < s.objects.length →
    s'.getObject storageKey versionId = some object →
    s.getObject storageKey versionId = some object
  objects_length : s.objects.length ≤ s'.objects.length
  records : ∀ id rec, s.getRecord id = some rec →
    s'.getRecord id = some rec ∨ rec.retentionUntil ≤ s.now
  recorded : ∀ id rec, s'.getRecord id = some rec → s.getRecord id = some rec ∨
    s.records.length ≤ id ∧ ∃ row ∈ s'.latest, Describes lib s' rec row
  records_length : s.records.length ≤ s'.records.length

theorem Secured.frame (h : Secured lib s storageKey versionId row) (hf : Frame lib s s') :
    Secured lib s' storageKey versionId row := by
  rcases h with hexpired | ⟨object, hget, hbody, hlock⟩
  · exact .inl (hexpired.trans hf.now)
  · rcases hf.objects _ _ _ hget with hget' | hfree
    · exact .inr ⟨object, hget', hbody, hlock⟩
    · have hle : row.retentionUntil ≤ s.now := by
        by_contra hgt
        exact hfree (Lock.holdsUntil_mono hlock (by omega))
      exact .inl (hle.trans hf.now)

theorem Describes.frame (h : Describes lib s rec row) (hf : Frame lib s s') :
    Describes lib s' rec row :=
  ⟨h.source, h.retentionUntil, h.checksum, h.secured.frame hf⟩

theorem Settled.frame (h : Settled lib s row) (hf : Frame lib s s') : Settled lib s' row := by
  rcases h with hexpired | ⟨id, rec, hget, hdescribes⟩
  · exact .inl (hexpired.trans hf.now)
  · rcases hf.records _ _ hget with hget' | hexpired
    · exact .inr ⟨id, rec, hget', hdescribes.frame hf⟩
    · rw [hdescribes.retentionUntil] at hexpired
      exact .inl (hexpired.trans hf.now)

/-! ## The rows that were written -/

structure Tidy (s : State C B D) : Prop where
  keys : (s.latest.map SourceRow.key).Nodup
  sources : ∀ row ∈ s.sources, row ∈ s.latest
  whole : ∀ row ∈ s.latest, toDate row.retentionUntil = row.retentionUntil

theorem Tidy.eq_of_key (h : Tidy s) (hrow : row ∈ s.latest) (hother : other ∈ s.latest)
    (hkey : row.key = other.key) : row = other :=
  List.inj_on_of_nodup_map h.keys hrow hother hkey

theorem Held.frame (h : Held lib s row) (hf : Frame lib s s') (ht : Tidy s') :
    Held lib s' row where
  latest := hf.latest row h.latest
  described := by
    intro id rec hget hsource
    rcases hf.recorded id rec hget with hold | ⟨_, other, hother, hdescribes⟩
    · exact (h.described id rec hold hsource).frame hf
    · have hkey : other.key = row.key := hdescribes.source.symm.trans hsource
      rwa [ht.eq_of_key hother (hf.latest row h.latest) hkey] at hdescribes

/-- Every row that was written is in its table or settled, and every record describes a row. -/
structure Kept (lib : Library C B D) (s : State C B D) : Prop where
  tidy : Tidy s
  settled : ∀ row ∈ s.latest, row ∈ s.sources ∨ Settled lib s row
  described : ∀ id rec, s.getRecord id = some rec → ∃ row, Describes lib s rec row

theorem Kept.frame (h : Kept lib s) (hf : Frame lib s s') (ht : Tidy s') : Kept lib s' where
  tidy := ht
  settled := by
    intro row hrow
    rcases hf.written row hrow with hold | hnew
    · rcases h.settled row hold with hin | hsettled
      · rcases hf.sources row hin with hin' | hsettled
        · exact .inl hin'
        · exact .inr (hsettled.frame hf)
      · exact .inr (hsettled.frame hf)
    · exact .inl hnew
  described := by
    intro id rec hget
    rcases hf.recorded id rec hget with hold | ⟨_, row, _, hdescribes⟩
    · obtain ⟨row, hdescribes⟩ := h.described id rec hold
      exact ⟨row, hdescribes.frame hf⟩
    · exact ⟨row, hdescribes⟩

/-! ## What a run relies on -/

/-- The rows of its page that a run has not dealt with. -/
def Pc.inHand : Pc C B D → List (SourceRow C)
  | .put row place | .head row _ place | .insert row _ place | .delete row place => row :: place.rest
  | _ => []

/-- The ids of the records that a purge has not dealt with. -/
def Pc.pending : Pc C B D → List Nat
  | .deleteObject id _ rest => id :: rest.map (·.1)
  | .deleteRecord id rest => id :: rest.map (·.1)
  | _ => []

def Expired (s : State C B D) (id : Nat) : Prop :=
  id < s.records.length ∧ ∀ rec, s.getRecord id = some rec → rec.retentionUntil ≤ s.now

/-- What the archiving of the current row has reached. -/
def Pc.Reached (lib : Library C B D) (s : State C B D) : Pc C B D → Prop
  | .head row versionId _ => versionId < s.objects.length ∧
    ∀ object, s.getObject row.storageKey versionId = some object → object.body = lib.stringify row
  | .insert row versionId _ => Secured lib s row.storageKey versionId row
  | .delete row _ => Settled lib s row
  | _ => True

structure Sound (lib : Library C B D) (s : State C B D) (pc : Pc C B D) : Prop where
  held : ∀ row ∈ pc.inHand, Held lib s row
  expired : ∀ id ∈ pc.pending, Expired s id
  reached : pc.Reached lib s

theorem Expired.frame (h : Expired s id) (hf : Frame lib s s') : Expired s' id := by
  refine ⟨h.1.trans_le hf.records_length, fun rec hget => ?_⟩
  rcases hf.recorded id rec hget with hold | ⟨hnew, _⟩
  · exact (h.2 rec hold).trans hf.now
  · exact absurd h.1 (Nat.not_lt.mpr hnew)

theorem Pc.Reached.frame (h : pc.Reached lib s) (hf : Frame lib s s') : pc.Reached lib s' := by
  cases pc with
  | head row versionId place =>
    refine ⟨h.1.trans_le hf.objects_length, fun object hget => ?_⟩
    exact h.2 object (hf.stored _ _ _ h.1 hget)
  | insert row versionId place => exact Secured.frame h hf
  | delete row place => exact Settled.frame h hf
  | _ => trivial

theorem Sound.frame (h : Sound lib s pc) (hf : Frame lib s s') (ht : Tidy s') :
    Sound lib s' pc where
  held row hrow := (h.held row hrow).frame hf ht
  expired id hid := (h.expired id hid).frame hf
  reached := h.reached.frame hf

/-- A call, or a run between two pages, relies on nothing. -/
theorem sound_of_idle (hhand : pc.inHand = []) (hpending : pc.pending = [])
    (hreached : pc.Reached lib s) : Sound lib s pc where
  held := by rw [hhand]; exact fun _ h => absurd h List.not_mem_nil
  expired := by rw [hpending]; exact fun _ h => absurd h List.not_mem_nil
  reached := hreached

theorem sound_ended : Sound lib s .ended := sound_of_idle rfl rfl trivial

theorem sound_nextTable (later : List Table) : Sound lib s (nextTable later) := by
  cases later with
  | nil => exact sound_of_idle rfl rfl trivial
  | cons table later => exact sound_of_idle rfl rfl trivial

theorem sound_nextRow (h : ∀ row ∈ place.rest, Held lib s row) : Sound lib s (nextRow place) := by
  unfold nextRow
  split
  · next row rest hrest =>
    rw [hrest] at h
    exact ⟨h, fun _ hid => absurd hid List.not_mem_nil, trivial⟩
  · split
    · exact sound_of_idle rfl rfl trivial
    · exact sound_of_idle rfl rfl trivial

theorem sound_nextExpired {rest : List (Nat × ArchiveRecord D)}
    (h : ∀ id ∈ rest.map (·.1), Expired s id) : Sound lib s (nextExpired rest) := by
  cases rest with
  | nil => exact sound_ended
  | cons x rest => exact ⟨fun _ hrow => absurd hrow List.not_mem_nil, h, trivial⟩

/-! ## Frames -/

/-- A change that keeps the bucket and the index, and loses no row that is not settled. -/
theorem frame_of_rows (hnow : s.now ≤ s'.now) (hlatest : ∀ row ∈ s.latest, row ∈ s'.latest)
    (hwritten : ∀ row ∈ s'.latest, row ∈ s.latest ∨ row ∈ s'.sources)
    (hsources : ∀ row ∈ s.sources, row ∈ s'.sources ∨ Settled lib s row)
    (hobjects : s'.objects = s.objects) (hrecords : s'.records = s.records) : Frame lib s s' where
  now := hnow
  latest := hlatest
  written := hwritten
  sources := hsources
  objects _ _ _ h := .inl (by unfold State.getObject at h ⊢; rwa [hobjects])
  stored _ _ _ _ h := by unfold State.getObject at h ⊢; rwa [hobjects] at h
  objects_length := by rw [hobjects]
  records _ _ h := .inl (by unfold State.getRecord at h ⊢; rwa [hrecords])
  recorded _ _ h := .inl (by unfold State.getRecord at h ⊢; rwa [hrecords] at h)
  records_length := by rw [hrecords]

/-- A change of what a frame does not speak of. -/
theorem frame_of_eq (hnow : s.now ≤ s'.now) (hlatest : s'.latest = s.latest)
    (hsources : s'.sources = s.sources) (hobjects : s'.objects = s.objects)
    (hrecords : s'.records = s.records) : Frame lib s s' :=
  frame_of_rows hnow (fun _ h => hlatest ▸ h) (fun _ h => .inl (hlatest ▸ h))
    (fun _ h => .inl (hsources ▸ h)) hobjects hrecords

theorem frame_refl : Frame lib s s := frame_of_eq (Nat.le_refl _) rfl rfl rfl rfl

theorem frame_insertRow : Frame lib s (s.insertRow row) := by
  refine frame_of_rows (Nat.le_refl _) (fun _ h => List.mem_append_left _ h) ?_
    (fun _ h => .inl (List.mem_append_left _ h)) rfl rfl
  intro other hother
  rcases List.mem_append.mp hother with hold | hnew
  · exact .inl hold
  · exact .inr (List.mem_append_right _ hnew)

theorem frame_deleteRow (ht : Tidy s) (hrow : row ∈ s.latest) (hsettled : Settled lib s row) :
    Frame lib s (s.deleteRow row.key) := by
  refine frame_of_rows (Nat.le_refl _) (fun _ h => h) (fun _ h => .inl h) ?_ rfl rfl
  intro other hother
  by_cases hkey : other.key = row.key
  · rw [ht.eq_of_key (ht.sources other hother) hrow hkey]
    exact .inr hsettled
  · exact .inl (List.mem_filter.mpr ⟨hother, decide_eq_true fun h => hkey h.1⟩)

theorem frame_deleteExpired {table : Table} : Frame lib s (s.deleteExpired table) := by
  refine frame_of_rows (Nat.le_refl _) (fun _ h => h) (fun _ h => .inl h) ?_ rfl rfl
  intro row hrow
  by_cases hexpired : row.retentionUntil ≤ s.now
  · exact .inr (.inl hexpired)
  · exact .inl (List.mem_filter.mpr ⟨hrow, decide_eq_true fun h => hexpired h.2⟩)

/-- A change of the bucket alone. -/
theorem frame_of_objects {objects : List (Option (StoredObject B D))}
    (hlength : s.objects.length ≤ objects.length)
    (hobjects : ∀ versionId object, Slots.get s.objects versionId = some object →
      Slots.get objects versionId = some object ∨ ¬ object.holdsUntil (s.now + 1))
    (hstored : ∀ versionId object, versionId < s.objects.length →
      Slots.get objects versionId = some object → Slots.get s.objects versionId = some object) :
    Frame lib s { s with objects := objects } :=
  { (frame_refl : Frame lib s s) with
    sources := fun _ h => .inl h
    objects := by
      intro storageKey versionId object hget
      obtain ⟨hslot, hkey⟩ := getObject_eq_some.mp hget
      rcases hobjects versionId object hslot with hslot' | hfree
      · exact .inl (getObject_eq_some.mpr ⟨hslot', hkey⟩)
      · exact .inr hfree
    stored := by
      intro storageKey versionId object hlt hget
      obtain ⟨hslot, hkey⟩ := getObject_eq_some.mp hget
      exact getObject_eq_some.mpr ⟨hstored versionId object hlt hslot, hkey⟩
    objects_length := hlength
    recorded := fun _ _ h => .inl h }

theorem frame_putObject : Frame lib s (s.putObject object) := by
  refine frame_of_objects (by simp) (fun _ _ h => .inl (Slots.get_append h)) ?_
  intro versionId object hlt hget
  rwa [Slots.get_append_of_lt hlt] at hget

theorem frame_deleteObject (h : s.deleteObject storageKey versionId = some s') :
    Frame lib s s' := by
  unfold State.deleteObject at h
  split at h
  · cases h
    exact frame_refl
  · next object hobject =>
    split at h
    · cases h
    · next hfree =>
      cases h
      refine frame_of_objects (by simp) ?_ (fun _ _ _ hget => (Slots.get_of_set_none hget).2)
      intro v stored hget
      rcases Slots.get_set_none (i := versionId) hget with hget' | rfl
      · exact .inl hget'
      · rw [(getObject_eq_some.mp hobject).1] at hget
        cases hget
        exact .inr hfree

/-- The new record is of a row that was written. -/
theorem frame_insertRecord (hrow : row ∈ s.latest)
    (hsecured : Secured lib s row.storageKey versionId row)
    (hwhole : toDate row.retentionUntil = row.retentionUntil)
    (h : s.insertRecord (recordOf lib row versionId) = some s') : Frame lib s s' := by
  unfold State.insertRecord at h
  split at h
  · cases h
    exact frame_refl
  · split at h
    · cases h
    · cases h
      exact
        { (frame_refl : Frame lib s s) with
          sources := fun _ h => .inl h
          records := fun _ _ hget => .inl (Slots.get_append hget)
          recorded := by
            intro id rec hget
            rcases Slots.get_append_cases hget with hold | ⟨rfl, rfl⟩
            · exact .inl hold
            · exact .inr ⟨Nat.le_refl _, row, hrow, rfl, hwhole, rfl, hsecured⟩
          records_length := by simp }

theorem frame_deleteRecord (h : Expired s id) : Frame lib s (s.deleteRecord id) :=
  { (frame_refl : Frame lib s s) with
    sources := fun _ h => .inl h
    records := by
      intro other rec hget
      rcases Slots.get_set_none (i := id) hget with hget' | rfl
      · exact .inl hget'
      · exact .inr (h.2 rec hget)
    recorded := fun _ _ hget => .inl (Slots.get_of_set_none hget).2
    records_length := by simp [State.deleteRecord] }

theorem Tidy.mono (h : Tidy s) (hlatest : s'.latest = s.latest)
    (hsources : ∀ row ∈ s'.sources, row ∈ s.sources) : Tidy s' where
  keys := hlatest ▸ h.keys
  sources row hrow := hlatest ▸ h.sources row (hsources row hrow)
  whole := hlatest ▸ h.whole

theorem Tidy.insertRow (h : Tidy s) (hfresh : s.Fresh row.key)
    (hwhole : toDate row.retentionUntil = row.retentionUntil) : Tidy (s.insertRow row) where
  keys := by
    show ((s.latest ++ [row]).map SourceRow.key).Nodup
    rw [List.map_append, List.map_singleton, List.nodup_append]
    refine ⟨h.keys, List.nodup_singleton _, ?_⟩
    intro key hkey other hother heq
    obtain ⟨old, hold, rfl⟩ := List.mem_map.mp hkey
    rw [List.mem_singleton.mp hother] at heq
    exact hfresh old hold heq
  sources := by
    intro other hother
    rcases List.mem_append.mp hother with hold | hnew
    · exact List.mem_append_left _ (h.sources other hold)
    · exact List.mem_append_right _ hnew
  whole := by
    intro other hother
    rcases List.mem_append.mp hother with hold | hnew
    · exact h.whole other hold
    · rwa [List.mem_singleton.mp hnew]

/-! ## Steps of a run -/

/-- A page has rows of the table that have no record. -/
theorem held_of_archivable {table : Table} (ht : Tidy s) (hrow : row ∈ s.sources)
    (h : Archivable cfg s table row) : Held lib s row := by
  refine ⟨ht.sources row hrow, fun id rec hget hsource => ?_⟩
  exact absurd hsource (h.2.2.2.2 rec (Slots.mem_reduceOption.mpr ⟨id, hget⟩))

theorem expired_of_mem_expiredRecords {x : Nat × ArchiveRecord D} (h : x ∈ s.expiredRecords) :
    Expired s x.1 := by
  obtain ⟨id, hid, hx⟩ := List.mem_filterMap.mp h
  simp only [Option.bind_eq_bind, Option.bind_eq_some_iff] at hx
  obtain ⟨rec, hget, hx⟩ := hx
  split at hx
  · next hexpired =>
    cases hx
    refine ⟨List.mem_range.mp hid, fun other hother => ?_⟩
    obtain rfl : rec = other := Option.some.inj (hget.symm.trans hother)
    exact hexpired
  · cases hx

/-- The record that the insertion leaves describes the row. -/
theorem settled_insertRecord (hheld : Held lib s row)
    (hsecured : Secured lib s row.storageKey versionId row)
    (hwhole : toDate row.retentionUntil = row.retentionUntil)
    (h : s.insertRecord (recordOf lib row versionId) = some s') : Settled lib s' row := by
  have hframe : Frame lib s s' := frame_insertRecord hheld.latest hsecured hwhole h
  unfold State.insertRecord at h
  split at h
  · next hother =>
    cases h
    obtain ⟨other, hother, hsource⟩ := hother
    obtain ⟨id, hget⟩ := Slots.mem_reduceOption.mp hother
    exact .inr ⟨id, other, hget, hheld.described id other hget hsource⟩
  · split at h
    · cases h
    · cases h
      refine .inr ⟨s.records.length, recordOf lib row versionId, Slots.get_append_length, ?_⟩
      exact ⟨rfl, hwhole, rfl, hsecured.frame hframe⟩

theorem Tidy.insertRecord (ht : Tidy s) (h : s.insertRecord rec = some s') : Tidy s' := by
  unfold State.insertRecord at h
  split at h
  · cases h
    exact ht
  · split at h
    · cases h
    · cases h
      exact ht.mono rfl fun _ h => h

theorem Tidy.deleteObject (ht : Tidy s) (h : s.deleteObject storageKey versionId = some s') :
    Tidy s' := by
  unfold State.deleteObject at h
  split at h
  · cases h
    exact ht
  · split at h
    · cases h
    · cases h
      exact ht.mono rfl fun _ h => h

/-- What a step leaves: a frame, and a thread that is sound. -/
structure SoundStep (lib : Library C B D) (s s' : State C B D) (pc' : Pc C B D) : Prop where
  frame : Frame lib s s'
  tidy : Tidy s'
  sound : Sound lib s' pc'

theorem SoundStep.same (ht : Tidy s) (h : Sound lib s pc') : SoundStep lib s s pc' :=
  ⟨frame_refl, ht, h⟩

theorem SoundStep.orEnd {changed : Option (State C B D)} {pc₁ : Pc C B D} (ht : Tidy s)
    (h : ∀ s₁, changed = some s₁ → SoundStep lib s s₁ pc₁)
    (hdone : orEnd s pc₁ changed = (s', pc')) : SoundStep lib s s' pc' := by
  cases changed with
  | none =>
    cases hdone
    exact .same ht sound_ended
  | some s₁ =>
    cases hdone
    exact h _ rfl

theorem soundStep_put {lock : Lock D} (ht : Tidy s) (hs : Sound lib s (.put row place)) :
    SoundStep lib s (s.putObject (archiveOf lib row lock)) (.head row s.objects.length place) := by
  have hframe : Frame lib s (s.putObject (archiveOf lib row lock)) := frame_putObject
  have ht' : Tidy (s.putObject (archiveOf lib row lock)) := ht.mono rfl fun _ h => h
  refine ⟨hframe, ht', fun r hr => (hs.held r hr).frame hframe ht', hs.expired, ?_, ?_⟩
  · simp [State.putObject]
  · intro object hget
    have hslot := (getObject_eq_some.mp hget).1
    rw [State.putObject, Slots.get_append_length] at hslot
    cases hslot
    rfl

theorem soundStep_insert (ht : Tidy s) (hs : Sound lib s (.insert row versionId place))
    (h : s.insertRecord (recordOf lib row versionId) = some s') :
    SoundStep lib s s' (.delete row place) := by
  have hheld := hs.held row (List.mem_cons_self ..)
  have hwhole := ht.whole row hheld.latest
  have hframe := frame_insertRecord hheld.latest hs.reached hwhole h
  have ht' := ht.insertRecord h
  refine ⟨hframe, ht', fun r hr => (hs.held r hr).frame hframe ht', ?_, ?_⟩
  · exact fun id hid => absurd hid List.not_mem_nil
  · exact settled_insertRecord hheld hs.reached hwhole h

theorem soundStep_delete (ht : Tidy s) (hs : Sound lib s (.delete row place)) :
    SoundStep lib s (s.deleteRow row.key) (nextRow place) := by
  have hheld := hs.held row (List.mem_cons_self ..)
  have hframe := frame_deleteRow ht hheld.latest hs.reached
  have ht' : Tidy (s.deleteRow row.key) := ht.mono rfl fun _ h => (List.mem_filter.mp h).1
  refine ⟨hframe, ht', sound_nextRow fun r hr => ?_⟩
  exact (hs.held r (List.mem_cons_of_mem _ hr)).frame hframe ht'

theorem soundStep_deleteObject {rest : List (Nat × ArchiveRecord D)} (ht : Tidy s)
    (hs : Sound lib s (.deleteObject id rec rest))
    (h : s.deleteObject storageKey versionId = some s') :
    SoundStep lib s s' (.deleteRecord id rest) := by
  have hframe : Frame lib s s' := frame_deleteObject h
  refine ⟨hframe, ht.deleteObject h, fun r hr => absurd hr List.not_mem_nil, ?_, trivial⟩
  exact fun id hid => (hs.expired id hid).frame hframe

theorem soundStep_deleteRecord {rest : List (Nat × ArchiveRecord D)} (ht : Tidy s)
    (hs : Sound lib s (.deleteRecord id rest)) :
    SoundStep lib s (s.deleteRecord id) (nextExpired rest) := by
  have hframe : Frame lib s (s.deleteRecord id) :=
    frame_deleteRecord (hs.expired id (List.mem_cons_self ..))
  refine ⟨hframe, ht.mono rfl fun _ h => h, sound_nextExpired fun other hother => ?_⟩
  exact (hs.expired other (List.mem_cons_of_mem _ hother)).frame hframe

/-- A call changes requests only, and nothing depends on where it is. -/
theorem soundStep_of_requests (ht : Tidy s) (hnow : s'.now = s.now) (hlatest : s'.latest = s.latest)
    (hsources : s'.sources = s.sources) (hobjects : s'.objects = s.objects)
    (hrecords : s'.records = s.records) : SoundStep lib s s' .ended :=
  ⟨frame_of_eq (Nat.le_of_eq hnow.symm) hlatest hsources hobjects hrecords,
    ht.mono hlatest fun _ h => hsources ▸ h, sound_ended⟩

theorem soundStep_saveRequest {request : RetrievalRequest} {f : State C B D → State C B D}
    (hf : ∀ s : State C B D, (f s).now = s.now ∧ (f s).latest = s.latest ∧
      (f s).sources = s.sources ∧ (f s).objects = s.objects ∧ (f s).records = s.records)
    (ht : Tidy s) (h : (s.saveRequest id request).map f = some s') : SoundStep lib s s' .ended := by
  unfold State.saveRequest at h
  split at h
  · cases h
    obtain ⟨hnow, hlatest, hsources, hobjects, hrecords⟩ :=
      hf { s with requests := s.requests.set id (some request) }
    exact soundStep_of_requests ht hnow hlatest hsources hobjects hrecords
  · cases h

theorem toDate_retrievalLog {requestId adminId : Nat} {request : RetrievalRequest} :
    toDate (retrievalLog lib s id requestId adminId request).retentionUntil =
      (retrievalLog lib s id requestId adminId request).retentionUntil := by
  simp only [retrievalLog, toDate, day]
  omega

/-- A step whose answer is lost has made its change, and its thread has ended. -/
theorem SoundStep.settle {outcome : Outcome} {s₂ : State C B D} {pc₂ : Pc C B D} (ht : Tidy s)
    (hdone : SoundStep lib s s' pc') (h : settle s outcome (s', pc') = (s₂, pc₂)) :
    SoundStep lib s s₂ pc₂ := by
  cases outcome with
  | ok =>
    cases h
    exact hdone
  | fail =>
    cases h
    exact .same ht sound_ended
  | lost =>
    cases h
    refine ⟨{ hdone.frame with recorded := ?_ }, hdone.tidy.mono rfl fun _ h => h, sound_ended⟩
    intro id rec hget
    rcases hdone.frame.recorded id rec hget with hold | ⟨hnew, row, hrow, hdescribes⟩
    · exact .inl hold
    · exact .inr ⟨hnew, row, hrow, hdescribes.source, hdescribes.retentionUntil,
        hdescribes.checksum, hdescribes.secured⟩

/-! ## Updates -/

theorem mem_map_replace {rows : List (SourceRow C)} (h : other ∈ rows) (hkey : other.key ≠ row.key) :
    other ∈ rows.map (State.replace row) :=
  List.mem_map.mpr ⟨other, h, if_neg hkey⟩

theorem of_mem_map_replace {rows : List (SourceRow C)} (h : other ∈ rows.map (State.replace row)) :
    other = row ∨ other ∈ rows ∧ other.key ≠ row.key := by
  obtain ⟨old, hold, rfl⟩ := List.mem_map.mp h
  unfold State.replace
  split
  · exact .inl rfl
  · next hkey => exact .inr ⟨hold, hkey⟩

theorem mem_replace_self {rows : List (SourceRow C)} (h : other ∈ rows) (hkey : other.key = row.key) :
    row ∈ rows.map (State.replace row) :=
  List.mem_map.mpr ⟨other, h, if_pos hkey⟩

theorem key_replace : (State.replace row other).key = other.key := by
  unfold State.replace
  split
  · next hkey => exact hkey.symm
  · rfl

theorem Tidy.updateRow (h : Tidy s) (hwhole : toDate row.retentionUntil = row.retentionUntil) :
    Tidy (s.updateRow row) where
  keys := by
    have hkeys : (s.latest.map (State.replace row)).map SourceRow.key =
        s.latest.map SourceRow.key := by
      rw [List.map_map]
      exact List.map_congr_left fun other _ => key_replace
    exact hkeys.symm ▸ h.keys
  sources := by
    intro other hother
    obtain ⟨old, hold, rfl⟩ := List.mem_map.mp hother
    exact List.mem_map_of_mem (h.sources old hold)
  whole := by
    intro other hother
    rcases of_mem_map_replace hother with rfl | ⟨hold, _⟩
    · exact hwhole
    · exact h.whole other hold

/-- The bucket and the index stay as they are. -/
theorem Describes.updateRow (h : Describes lib s rec other) :
    Describes lib (s.updateRow row) rec other :=
  ⟨h.source, h.retentionUntil, h.checksum, h.secured⟩

theorem Settled.updateRow (h : Settled lib s other) : Settled lib (s.updateRow row) other := by
  rcases h with hexpired | ⟨id, rec, hget, hdescribes⟩
  · exact .inl hexpired
  · exact .inr ⟨id, rec, hget, hdescribes.updateRow⟩

/-- The row that is updated is in its table. -/
theorem Kept.updateRow (h : Kept lib s) (hin : ∃ other ∈ s.sources, other.key = row.key)
    (hwhole : toDate row.retentionUntil = row.retentionUntil) : Kept lib (s.updateRow row) where
  tidy := h.tidy.updateRow hwhole
  settled := by
    intro other hother
    rcases of_mem_map_replace hother with rfl | ⟨hold, hkey⟩
    · obtain ⟨old, hold, hkey⟩ := hin
      exact .inl (mem_replace_self hold hkey)
    · rcases h.settled other hold with hin | hsettled
      · exact .inl (mem_map_replace hin hkey)
      · exact .inr hsettled.updateRow
  described := by
    intro id rec hget
    obtain ⟨other, hdescribes⟩ := h.described id rec hget
    exact ⟨other, hdescribes.updateRow⟩

/-- A run that does not have the row in hand relies on nothing of it. -/
theorem Sound.updateRow (h : Sound lib s pc) (hhand : ∀ other ∈ pc.inHand, other.key ≠ row.key) :
    Sound lib (s.updateRow row) pc where
  held := by
    intro other hother
    have hheld := h.held other hother
    refine ⟨mem_map_replace hheld.latest (hhand other hother), fun id rec hget hsource => ?_⟩
    exact (hheld.described id rec hget hsource).updateRow
  expired id hid := h.expired id hid
  reached := by
    have hreached := h.reached
    cases pc with
    | delete other place => exact Settled.updateRow hreached
    | _ => exact hreached

/-! ## The steps together -/

variable [DecidableEq D]

theorem Sound.stepRun [DecidableEq C] (hs : Sound lib s pc) (ht : Tidy s)
    (h : stepRun cfg lib s pc info = some (s', pc')) : SoundStep lib s s' pc' := by
  unfold AuditRetention.stepRun at h
  split at h
  case h_1 table later page order =>
    split at h
    · next hordered =>
      cases h
      refine .same ht (sound_nextRow fun row hrow => ?_)
      have hmem := hordered.1.mem_iff.mp (List.mem_of_mem_take hrow)
      obtain ⟨hrow, harchivable⟩ := List.mem_filter.mp hmem
      exact held_of_archivable ht hrow (of_decide_eq_true harchivable)
    · cases h
  case h_2 row place lock =>
    cases h
    exact soundStep_put ht hs
  case h_3 =>
    cases h
    exact .same ht sound_ended
  case h_4 row versionId place =>
    split at h
    · cases h
      exact .same ht sound_ended
    · next object hget =>
      split at h
      · next hverified =>
        cases h
        have hwhole := ht.whole row (hs.held row (List.mem_cons_self ..)).latest
        have hlock := hverified.2
        rw [hwhole] at hlock
        refine .same ht ⟨hs.held, hs.expired, .inr ⟨object, hget, ?_, hlock⟩⟩
        exact hs.reached.2 object hget
      · cases h
        exact .same ht sound_ended
  case h_5 row versionId place =>
    exact .orEnd ht (fun s₁ hinsert => soundStep_insert ht hs hinsert) (Option.some.inj h)
  case h_6 row place =>
    cases h
    exact soundStep_delete ht hs
  case h_7 table later =>
    cases h
    exact ⟨frame_deleteExpired, ht.mono rfl fun _ h => (List.mem_filter.mp h).1,
      sound_nextTable later⟩
  case h_8 order =>
    split at h
    · next hordered =>
      cases h
      refine .same ht (sound_nextExpired fun id hid => ?_)
      obtain ⟨x, hx, rfl⟩ := List.mem_map.mp hid
      exact expired_of_mem_expiredRecords (hordered.1.mem_iff.mp (List.mem_of_mem_take hx))
    · cases h
  case h_9 id rec rest =>
    exact .orEnd ht (fun s₁ hdelete => soundStep_deleteObject ht hs hdelete) (Option.some.inj h)
  case h_10 id rest =>
    cases h
    exact soundStep_deleteRecord ht hs
  case h_11 => cases h

theorem Tidy.stepCall (ht : Tidy s) (h : stepCall lib s pc info = some (s', pc')) :
    SoundStep lib s s' pc' := by
  have hidle : ∀ pc : Pc C B D, pc.inHand = [] → pc.pending = [] → pc.Reached lib s →
      SoundStep lib s s pc :=
    fun pc hhand hpending hreached => .same ht (sound_of_idle hhand hpending hreached)
  unfold AuditRetention.stepCall at h
  split at h
  -- a query or a read of the bucket, and a check of what it gives
  case h_1 | h_3 | h_5 | h_6 | h_8 =>
    split at h
    · cases h
      exact hidle _ rfl rfl trivial
    · split at h
      · cases h
        exact hidle _ rfl rfl trivial
      · cases h
        exact hidle _ rfl rfl trivial
  case h_2 archiveRecordId requesterId =>
    refine .orEnd ht (fun s₁ hinsert => ?_) (Option.some.inj h)
    unfold State.insertRequest at hinsert
    split at hinsert
    · cases hinsert
      exact soundStep_of_requests ht rfl rfl rfl rfl rfl
    · cases hinsert
  case h_4 requestId approverId request =>
    refine .orEnd ht (fun s₁ hsave => ?_) (Option.some.inj h)
    exact soundStep_saveRequest (f := (·.approved requestId approverId request))
      (fun _ => ⟨rfl, rfl, rfl, rfl, rfl⟩) ht hsave
  case h_7 =>
    split at h
    · cases h
      exact hidle _ rfl rfl trivial
    · cases h
      exact hidle _ rfl rfl trivial
  case h_9 requestId adminId request body drawn =>
    split at h
    · next hfresh =>
      cases h
      exact ⟨frame_insertRow, ht.insertRow hfresh toDate_retrievalLog,
        sound_of_idle rfl rfl trivial⟩
    · cases h
  case h_10 requestId request body =>
    refine .orEnd ht (fun s₁ hsave => ?_) (Option.some.inj h)
    exact soundStep_saveRequest (f := (·.disclosed requestId request body))
      (fun _ => ⟨rfl, rfl, rfl, rfl, rfl⟩) ht hsave
  case h_11 => cases h

theorem Sound.step [DecidableEq C] {outcome : Outcome} {done : State C B D × Pc C B D}
    (hs : Sound lib s pc) (ht : Tidy s) (hstep : step cfg lib s pc info = some done)
    (h : settle s outcome done = (s', pc')) : SoundStep lib s s' pc' := by
  obtain ⟨s₁, pc₁⟩ := done
  have hdone : SoundStep lib s s₁ pc₁ := by
    unfold AuditRetention.step at hstep
    cases hrun : AuditRetention.stepRun cfg lib s pc info with
    | some done =>
      rw [hrun] at hstep
      cases hstep
      exact hs.stepRun ht hrun
    | none =>
      rw [hrun] at hstep
      exact ht.stepCall hstep
  exact hdone.settle ht h

end AgriFi.AuditRetention
