import Mathlib.Data.List.Nodup
import AgriFi.EventIndexer.Service

/-
  Replaying a range of ledgers. Each window of 100 ledgers is asked for once, with a limit of 100
  events; an event whose transaction has another event of the contract is taken for processed; and
  each new event costs the cache its oldest entry once it has 1000. `replay_covers_iff`: a replay
  does what it is for exactly when no window is cut, the cache tells the events that were dispatched
  before from the others when their turn comes, and in the end it knows all of them.
-/

namespace AgriFi.EventIndexer

open AgriFi.Feeds

/-! ## What a replay is for -/

/-- The contract's events in a range of ledgers. -/
def rangeEvents (events : List Event) (contractId : Nat) (fromLedger toLedger : Int) : List Event :=
  events.filter fun e =>
    e.contractId = contractId ∧ fromLedger ≤ e.ledger ∧ e.ledger ≤ toLedger

/-- The events of the range that were not dispatched before are dispatched, once and in their
    order, and no others; the counts add up to the events of the range; and once more dispatches
    nothing. -/
structure CoversRange (events : List Event) (currentLedger : Int) (contractId : Nat)
    (fromLedger toLedger : Int) (throws : Event → Bool) (s : Indexer) (r : Replay) : Prop where
  dispatched : r.indexer.dispatched = s.dispatched ++
    (rangeEvents events contractId fromLedger toLedger).filter fun e => e ∉ s.dispatched
  counted : r.processed + r.duplicates =
    (rangeEvents events contractId fromLedger toLedger).length
  again : ∀ throws',
    (replayEvents events currentLedger contractId fromLedger toLedger throws'
      r.indexer).indexer.dispatched = r.indexer.dispatched

/-! ## The condition -/

/-- No window of 100 ledgers has more than 100 events. -/
def Uncut (events : List Event) (contractId : Nat) (fromLedger toLedger : Int) : Prop :=
  ∀ k : Nat, (rangeEvents events contractId (fromLedger + 100 * k)
    (min (fromLedger + 100 * k + 99) toLedger)).length ≤ batchSize

/-- One of the event's keys is in the cache. -/
def Knows (cache : List CacheKey) (e : Event) : Prop :=
  e.eventHash ∈ cache ∨ e.eventKey ∈ cache

instance (cache : List CacheKey) (e : Event) : Decidable (Knows cache e) :=
  inferInstanceAs (Decidable (_ ∨ _))

/-- The cache after an event, when an event is dispatched unless it is one of `done`. -/
def remember (done : List Event) (cache : List CacheKey) (e : Event) : List CacheKey :=
  if e.eventHash ∈ cache then cache
  else if e ∈ done then cache ++ [e.eventHash]
  else push cacheLimit cache e.eventKey ++ [e.eventHash]

/-- When its turn comes, the cache knows an event exactly when it is one of `done`; a handler that
    throws does for knowing. -/
def TellsApart (done : List Event) (throws : Event → Bool) : List CacheKey → List Event → Prop
  | _, [] => True
  | cache, e :: es =>
    ((Knows cache e ∨ throws e = true) ↔ e ∈ done) ∧
      TellsApart done throws (remember done cache e) es

instance (done : List Event) (throws : Event → Bool) :
    ∀ cache es, Decidable (TellsApart done throws cache es)
  | _, [] => isTrue trivial
  | cache, e :: es =>
    @instDecidableAnd _ _ (inferInstanceAs (Decidable (_ ↔ _)))
      (instDecidableTellsApart done throws (remember done cache e) es)

/-- The condition on the history, the range, and the indexer before the replay. -/
structure Replayable (events : List Event) (currentLedger : Int) (contractId : Nat)
    (fromLedger toLedger : Int) (throws : Event → Bool) (s : Indexer) : Prop where
  uncut : Uncut events contractId fromLedger toLedger
  given : toLedger ≠ 0 ∨ rangeEvents events contractId fromLedger currentLedger = []
  tellsApart : TellsApart s.dispatched throws s.processedEventsCache
    (rangeEvents events contractId fromLedger toLedger)
  kept : ∀ e ∈ rangeEvents events contractId fromLedger toLedger,
    Knows ((rangeEvents events contractId fromLedger toLedger).foldl (remember s.dispatched)
      s.processedEventsCache) e

/-! ## Windows -/

variable {events : List Event} {contractId : Nat} {fromLedger toLedger m : Int}

theorem mem_rangeEvents {e : Event} : e ∈ rangeEvents events contractId fromLedger toLedger ↔
    e ∈ events ∧ e.contractId = contractId ∧ fromLedger ≤ e.ledger ∧ e.ledger ≤ toLedger := by
  unfold rangeEvents
  rw [List.mem_filter, decide_eq_true_iff]

theorem rangeEvents_empty (h : toLedger < fromLedger) :
    rangeEvents events contractId fromLedger toLedger = [] := by
  apply List.eq_nil_iff_forall_not_mem.mpr
  intro e he
  obtain ⟨_, _, hfrom, hto⟩ := mem_rangeEvents.mp he
  omega

theorem uncut_empty (h : toLedger < fromLedger) :
    Uncut events contractId fromLedger toLedger := by
  intro k
  rw [rangeEvents_empty (by omega)]
  exact Nat.zero_le _

/-- A range is a window and the range after it. -/
theorem rangeEvents_split (hsorted : Sorted Event.ledger events) (hfrom : fromLedger ≤ m + 1)
    (hto : m ≤ toLedger) :
    rangeEvents events contractId fromLedger toLedger =
      rangeEvents events contractId fromLedger m ++
        rangeEvents events contractId (m + 1) toLedger := by
  have hsplit := Sorted.filter_append_filter
    (hsorted.filter fun e =>
      e.contractId = contractId ∧ fromLedger ≤ e.ledger ∧ e.ledger ≤ toLedger) m
  rw [List.filter_filter, List.filter_filter] at hsplit
  unfold rangeEvents
  rw [← hsplit]
  congr 1
  · apply List.filter_congr
    intro e _
    rw [← Bool.decide_and]
    refine decide_eq_decide.mpr ⟨?_, ?_⟩
    · rintro ⟨hm, hcontract, hfrom, _⟩
      exact ⟨hcontract, hfrom, hm⟩
    · rintro ⟨hcontract, hfrom, hm⟩
      exact ⟨hm, hcontract, hfrom, by omega⟩
  · apply List.filter_congr
    intro e _
    rw [← Bool.decide_and]
    refine decide_eq_decide.mpr ⟨?_, ?_⟩
    · rintro ⟨hm, hcontract, _, hto⟩
      exact ⟨hcontract, by omega, hto⟩
    · rintro ⟨hcontract, hm, hto⟩
      exact ⟨by omega, hcontract, by omega, hto⟩

/-- One request is the start of its window. -/
theorem getEvents_window (events : List Event) (contractId : Nat) (fromLedger toLedger : Int) :
    getEvents events (fun e => e.contractId = contractId) fromLedger toLedger batchSize =
      (rangeEvents events contractId fromLedger toLedger).take batchSize := by
  unfold getEvents rangeEvents
  congr 1
  apply List.filter_congr
  intro e _
  simp

theorem uncut_iff (h : fromLedger ≤ toLedger) :
    Uncut events contractId fromLedger toLedger ↔
      (rangeEvents events contractId fromLedger (min (fromLedger + 99) toLedger)).length ≤
          batchSize ∧
        Uncut events contractId (min (fromLedger + 99) toLedger + 1) toLedger := by
  have hempty : ∀ a b : Int, b < a → (rangeEvents events contractId a b).length ≤ batchSize := by
    intro a b hlt
    rw [rangeEvents_empty hlt]
    exact Nat.zero_le _
  have hstart : fromLedger + 99 ≤ toLedger → ∀ k : Nat,
      min (fromLedger + 99) toLedger + 1 + 100 * (k : Int) =
        fromLedger + 100 * ((k + 1 : Nat) : Int) := by
    intro hlast k
    omega
  constructor
  · intro huncut
    refine ⟨by simpa using huncut 0, ?_⟩
    intro k
    by_cases hlast : fromLedger + 99 ≤ toLedger
    · rw [hstart hlast k]
      exact huncut (k + 1)
    · apply hempty
      omega
  · rintro ⟨hwindow, huncut⟩ k
    cases k with
    | zero => simpa using hwindow
    | succ k =>
      by_cases hlast : fromLedger + 99 ≤ toLedger
      · have hnext := huncut k
        rw [hstart hlast k] at hnext
        exact hnext
      · apply hempty
        omega

/-- The windows together: the whole range when none is cut, and less of it otherwise. -/
theorem queryBatches_spec (hsorted : Sorted Event.ledger events) {fuel : Nat}
    (hfuel : toLedger + 1 - fromLedger ≤ fuel) :
    (Uncut events contractId fromLedger toLedger →
      queryBatches events contractId toLedger fuel fromLedger =
        rangeEvents events contractId fromLedger toLedger) ∧
    (¬ Uncut events contractId fromLedger toLedger →
      queryBatches events contractId toLedger fuel fromLedger ≠ [] ∧
        (queryBatches events contractId toLedger fuel fromLedger).length <
          (rangeEvents events contractId fromLedger toLedger).length) := by
  induction fuel generalizing fromLedger with
  | zero =>
    have hlt : toLedger < fromLedger := by omega
    rw [rangeEvents_empty hlt]
    exact ⟨fun _ => rfl, fun hcut => absurd (uncut_empty hlt) hcut⟩
  | succ fuel ih =>
    by_cases hle : fromLedger ≤ toLedger
    · have hend : fromLedger + (batchSize : Int) - 1 = fromLedger + 99 := by
        unfold batchSize
        omega
      have hbatches : queryBatches events contractId toLedger (fuel + 1) fromLedger =
          (rangeEvents events contractId fromLedger (min (fromLedger + 99) toLedger)).take
              batchSize ++
            queryBatches events contractId toLedger fuel (min (fromLedger + 99) toLedger + 1) := by
        rw [← getEvents_window, ← hend]
        exact if_pos hle
      have hsplit : rangeEvents events contractId fromLedger toLedger =
          rangeEvents events contractId fromLedger (min (fromLedger + 99) toLedger) ++
            rangeEvents events contractId (min (fromLedger + 99) toLedger + 1) toLedger :=
        rangeEvents_split hsorted (by omega) (by omega)
      obtain ⟨hwhole, hless⟩ := @ih (min (fromLedger + 99) toLedger + 1) (by omega)
      rw [uncut_iff hle, hbatches, hsplit]
      refine ⟨?_, ?_⟩
      · rintro ⟨hwindow, huncut⟩
        rw [hwhole huncut, List.take_of_length_le hwindow]
      · intro hcut
        by_cases huncut : Uncut events contractId (min (fromLedger + 99) toLedger + 1) toLedger
        · have hwindow : batchSize < (rangeEvents events contractId fromLedger
              (min (fromLedger + 99) toLedger)).length := by
            by_contra hfits
            exact hcut ⟨by omega, huncut⟩
          rw [hwhole huncut]
          constructor
          · intro hnil
            have hnone := congrArg List.length (List.append_eq_nil_iff.mp hnil).1
            rw [List.length_take, min_eq_left (Nat.le_of_lt hwindow)] at hnone
            cases hnone
          · rw [List.length_append, List.length_append, List.length_take]
            omega
        · obtain ⟨hne, hlength⟩ := hless huncut
          constructor
          · exact fun hnil => hne (List.append_eq_nil_iff.mp hnil).2
          · rw [List.length_append, List.length_append, List.length_take]
            omega
    · have hlt : toLedger < fromLedger := by omega
      have hnone : queryBatches events contractId toLedger (fuel + 1) fromLedger = [] := if_neg hle
      rw [rangeEvents_empty hlt, hnone]
      exact ⟨fun _ => rfl, fun hcut => absurd (uncut_empty hlt) hcut⟩

/-! ## The events in turn -/

variable {throws : Event → Bool} {done page : List Event} {cache : List CacheKey} {e : Event}
  {r r' : Replay}

theorem counts_foldl (throws : Event → Bool) (page : List Event) (r : Replay) :
    (page.foldl (Replay.step throws) r).processed + (page.foldl (Replay.step throws) r).duplicates =
      r.processed + r.duplicates + page.length := by
  induction page generalizing r with
  | nil => rfl
  | cons e page ih =>
    have hstep : (r.step throws e).processed + (r.step throws e).duplicates =
        r.processed + r.duplicates + 1 := by
      unfold Replay.step
      split
      · rfl
      · show r.processed + 1 + r.duplicates = _
        omega
    rw [List.foldl_cons, ih, hstep, List.length_cons]
    omega

/-- An event that the cache knows, or whose handler throws, is not dispatched. -/
theorem step_skips (h : Knows r.indexer.processedEventsCache e ∨ throws e = true) :
    (r.step throws e).indexer.dispatched = r.indexer.dispatched ∧
      (r.step throws e).indexer.processedEventsCache =
        if e.eventHash ∈ r.indexer.processedEventsCache then r.indexer.processedEventsCache
        else r.indexer.processedEventsCache ++ [e.eventHash] := by
  unfold Replay.step
  by_cases hhash : e.eventHash ∈ r.indexer.processedEventsCache
  · rw [if_pos hhash, if_pos hhash]
    exact ⟨rfl, rfl⟩
  · have hskip : e.eventKey ∈ r.indexer.processedEventsCache ∨ throws e = true := by
      rcases h with (hknown | hkey) | hthrows
      · exact absurd hknown hhash
      · exact .inl hkey
      · exact .inr hthrows
    have hprocess : r.indexer.processEvent throws e = r.indexer := if_pos hskip
    rw [if_neg hhash, if_neg hhash, hprocess]
    exact ⟨rfl, rfl⟩

/-- Any other event is dispatched. -/
theorem step_dispatches (h : ¬ (Knows r.indexer.processedEventsCache e ∨ throws e = true)) :
    (r.step throws e).indexer.dispatched = r.indexer.dispatched ++ [e] ∧
      (r.step throws e).indexer.processedEventsCache =
        push cacheLimit r.indexer.processedEventsCache e.eventKey ++ [e.eventHash] := by
  have hhash : e.eventHash ∉ r.indexer.processedEventsCache := fun hhash => h (.inl (.inl hhash))
  have hgo : ¬ (e.eventKey ∈ r.indexer.processedEventsCache ∨ throws e = true) := by
    rintro (hkey | hthrows)
    · exact h (.inl (.inr hkey))
    · exact h (.inr hthrows)
  have hprocess : r.indexer.processEvent throws e =
      { r.indexer with
        dispatched := r.indexer.dispatched ++ [e]
        processedEventsCache := push cacheLimit r.indexer.processedEventsCache e.eventKey } :=
    if_neg hgo
  unfold Replay.step
  rw [if_neg hhash, hprocess]
  exact ⟨rfl, rfl⟩

/-- What is dispatched is added, and is of the page. -/
theorem foldl_dispatched (throws : Event → Bool) (page : List Event) (r : Replay) :
    ∃ new, (page.foldl (Replay.step throws) r).indexer.dispatched = r.indexer.dispatched ++ new ∧
      new ⊆ page := by
  induction page generalizing r with
  | nil => exact ⟨[], (List.append_nil _).symm, List.nil_subset _⟩
  | cons e page ih =>
    obtain ⟨new, hnew, hsub⟩ := ih (r.step throws e)
    by_cases hskip : Knows r.indexer.processedEventsCache e ∨ throws e = true
    · refine ⟨new, ?_, fun d hd => List.mem_cons_of_mem _ (hsub hd)⟩
      rw [List.foldl_cons, hnew, (step_skips hskip).1]
    · refine ⟨e :: new, ?_, ?_⟩
      · rw [List.foldl_cons, hnew, (step_dispatches hskip).1, List.append_assoc]
        rfl
      · exact List.cons_subset_cons e hsub

theorem step_cache (h : (Knows r.indexer.processedEventsCache e ∨ throws e = true) ↔ e ∈ done) :
    (r.step throws e).indexer.processedEventsCache =
      remember done r.indexer.processedEventsCache e := by
  unfold remember
  by_cases hskip : Knows r.indexer.processedEventsCache e ∨ throws e = true
  · rw [(step_skips hskip).2]
    split
    · rfl
    · rw [if_pos (h.mp hskip)]
  · have hhash : e.eventHash ∉ r.indexer.processedEventsCache :=
      fun hhash => hskip (.inl (.inl hhash))
    rw [(step_dispatches hskip).2, if_neg hhash, if_neg fun hdone => hskip (h.mpr hdone)]

/-- Along a page that the cache tells apart, it holds what `remember` says. -/
theorem foldl_cache (h : TellsApart done throws r.indexer.processedEventsCache page) :
    (page.foldl (Replay.step throws) r).indexer.processedEventsCache =
      page.foldl (remember done) r.indexer.processedEventsCache := by
  induction page generalizing r with
  | nil => rfl
  | cons e page ih =>
    have hcache := step_cache h.1
    rw [List.foldl_cons, List.foldl_cons, ← hcache]
    apply ih
    rw [hcache]
    exact h.2

/-- A page without repetitions dispatches exactly what is not in `done` when the cache tells its
    events apart, and only then. -/
theorem foldl_dispatched_iff (hnodup : page.Nodup) :
    (page.foldl (Replay.step throws) r).indexer.dispatched =
        r.indexer.dispatched ++ page.filter (fun e => e ∉ done) ↔
      TellsApart done throws r.indexer.processedEventsCache page := by
  induction page generalizing r with
  | nil => exact ⟨fun _ => trivial, fun _ => (List.append_nil _).symm⟩
  | cons e page ih =>
    obtain ⟨hmem, hnodup⟩ := List.nodup_cons.mp hnodup
    obtain ⟨new, hnew, hsub⟩ := foldl_dispatched throws page (r.step throws e)
    have hrest := @ih (r.step throws e) hnodup
    rw [List.foldl_cons]
    by_cases hskip : Knows r.indexer.processedEventsCache e ∨ throws e = true
    · rw [(step_skips hskip).1] at hrest hnew
      by_cases hdone : e ∈ done
      · have hiff : (Knows r.indexer.processedEventsCache e ∨ throws e = true) ↔ e ∈ done :=
          ⟨fun _ => hdone, fun _ => hskip⟩
        rw [List.filter_cons_of_neg (by simpa using hdone), hrest, step_cache hiff]
        exact ⟨fun htells => ⟨hiff, htells⟩, fun htells => htells.2⟩
      · constructor
        · intro heq
          rw [hnew, List.filter_cons_of_pos (by simpa using hdone)] at heq
          have hnew := List.append_cancel_left heq
          have hin : e ∈ new := by
            rw [hnew]
            exact List.mem_cons_self ..
          exact absurd (hsub hin) hmem
        · exact fun htells => absurd (htells.1.mp hskip) hdone
    · rw [(step_dispatches hskip).1] at hrest hnew
      by_cases hdone : e ∈ done
      · constructor
        · intro heq
          rw [hnew, List.filter_cons_of_neg (by simpa using hdone), List.append_assoc] at heq
          have hnew := List.append_cancel_left heq
          have hin : e ∈ page.filter fun e => e ∉ done := by
            rw [← hnew]
            exact List.mem_cons_self ..
          exact absurd (List.mem_of_mem_filter hin) hmem
        · exact fun htells => absurd (htells.1.mpr hdone) hskip
      · have hiff : (Knows r.indexer.processedEventsCache e ∨ throws e = true) ↔ e ∈ done :=
          ⟨fun h => absurd h hskip, fun h => absurd h hdone⟩
        rw [step_cache hiff] at hrest
        rw [List.filter_cons_of_pos (by simpa using hdone), ← List.singleton_append,
          ← List.append_assoc, hrest]
        exact ⟨fun htells => ⟨hiff, htells⟩, fun htells => htells.2⟩

/-! ## Once more -/

/-- An event that is skipped leaves the cache with what it knows. -/
theorem knows_step (h : Knows r.indexer.processedEventsCache e) (d : Event) :
    Knows (r.step throws e).indexer.processedEventsCache d ↔
      Knows r.indexer.processedEventsCache d := by
  rw [(step_skips (.inl h)).2]
  split
  · exact Iff.rfl
  · next hhash =>
    have hkey : e.eventKey ∈ r.indexer.processedEventsCache := h.resolve_left hhash
    constructor
    · rintro (hd | hd)
      · rcases List.mem_append.mp hd with hd | hd
        · exact .inl hd
        · -- the same hash is the same key
          have hsame := List.mem_singleton.mp hd
          unfold Event.eventHash at hsame
          injection hsame with htx hcontract htype _
          refine .inr ?_
          unfold Event.eventKey at hkey ⊢
          rw [htx, hcontract, htype]
          exact hkey
      · rcases List.mem_append.mp hd with hd | hd
        · exact .inr hd
        · cases List.mem_singleton.mp hd
    · rintro (hd | hd)
      · exact .inl (List.mem_append_left _ hd)
      · exact .inr (List.mem_append_left _ hd)

theorem foldl_known (h : ∀ e ∈ page, Knows r.indexer.processedEventsCache e) :
    (page.foldl (Replay.step throws) r).indexer.dispatched = r.indexer.dispatched := by
  induction page generalizing r with
  | nil => rfl
  | cons e page ih =>
    have he := h e (List.mem_cons_self ..)
    rw [List.foldl_cons, ih, (step_skips (.inl he)).1]
    exact fun d hd => (knows_step he d).mpr (h d (List.mem_cons_of_mem _ hd))

/-- When no handler throws, a page that dispatches nothing is known. -/
theorem known_of_foldl
    (h : (page.foldl (Replay.step fun _ => false) r).indexer.dispatched = r.indexer.dispatched) :
    ∀ e ∈ page, Knows r.indexer.processedEventsCache e := by
  induction page generalizing r with
  | nil => exact fun e he => absurd he List.not_mem_nil
  | cons e page ih =>
    rw [List.foldl_cons] at h
    have he : Knows r.indexer.processedEventsCache e := by
      by_contra hunknown
      have hgo : ¬ (Knows r.indexer.processedEventsCache e ∨
          (fun _ : Event => false) e = true) := by
        rintro (hknown | hthrows)
        · exact hunknown hknown
        · cases hthrows
      obtain ⟨new, hnew, _⟩ := foldl_dispatched (fun _ => false) page (r.step (fun _ => false) e)
      rw [(step_dispatches hgo).1, h] at hnew
      have hlength := congrArg List.length hnew
      rw [List.length_append, List.length_append, List.length_singleton] at hlength
      omega
    have hsame : (r.step (fun _ => false) e).indexer.dispatched = r.indexer.dispatched :=
      (step_skips (.inl he)).1
    rw [← hsame] at h
    intro d hd
    rcases List.mem_cons.mp hd with rfl | hd
    · exact he
    · exact (knows_step he d).mp (ih h d hd)

/-! ## A replay -/

variable {currentLedger : Int} {s : Indexer}

/-- The events that a replay asks for. -/
def replayed (events : List Event) (currentLedger : Int) (contractId : Nat)
    (fromLedger toLedger : Int) : List Event :=
  queryEventsFromRange events contractId fromLedger
    (if toLedger = 0 then currentLedger else toLedger)

theorem queryEventsFromRange_spec (hsorted : Sorted Event.ledger events) (contractId : Nat)
    (fromLedger toLedger : Int) :
    (Uncut events contractId fromLedger toLedger →
      queryEventsFromRange events contractId fromLedger toLedger =
        rangeEvents events contractId fromLedger toLedger) ∧
    (¬ Uncut events contractId fromLedger toLedger →
      queryEventsFromRange events contractId fromLedger toLedger ≠ [] ∧
        (queryEventsFromRange events contractId fromLedger toLedger).length <
          (rangeEvents events contractId fromLedger toLedger).length) :=
  queryBatches_spec hsorted (by omega)

/-- A replay asks for as many events as there are in its range exactly when no window is cut and the
    end of the range is not taken for the current ledger, and then it asks for these. -/
theorem replayed_spec (h : History events) (currentLedger : Int) (contractId : Nat)
    (hle : fromLedger ≤ toLedger) :
    ((replayed events currentLedger contractId fromLedger toLedger).length =
        (rangeEvents events contractId fromLedger toLedger).length ↔
      Uncut events contractId fromLedger toLedger ∧
        (toLedger ≠ 0 ∨ rangeEvents events contractId fromLedger currentLedger = [])) ∧
    ((replayed events currentLedger contractId fromLedger toLedger).length =
        (rangeEvents events contractId fromLedger toLedger).length →
      replayed events currentLedger contractId fromLedger toLedger =
        rangeEvents events contractId fromLedger toLedger) := by
  unfold replayed
  by_cases hzero : toLedger = 0
  · subst hzero
    rw [if_pos rfl]
    -- there is no event up to ledger 0
    have hnone : ∀ last : Int, last ≤ 0 → rangeEvents events contractId fromLedger last = [] := by
      intro last hlast
      apply List.eq_nil_iff_forall_not_mem.mpr
      intro e he
      obtain ⟨hmem, _, _, hto⟩ := mem_rangeEvents.mp he
      have hpos := h.positive e hmem
      omega
    have huncut : Uncut events contractId fromLedger 0 := by
      intro k
      have hempty : rangeEvents events contractId (fromLedger + 100 * k)
          (min (fromLedger + 100 * k + 99) 0) = [] := by
        apply List.eq_nil_iff_forall_not_mem.mpr
        intro e he
        obtain ⟨hmem, _, _, hto⟩ := mem_rangeEvents.mp he
        have hpos := h.positive e hmem
        omega
      rw [hempty]
      exact Nat.zero_le _
    obtain ⟨hwhole, hless⟩ := queryEventsFromRange_spec h.sorted contractId fromLedger currentLedger
    rw [hnone 0 (le_refl 0), List.length_nil, List.length_eq_zero_iff]
    refine ⟨⟨?_, ?_⟩, id⟩
    · intro hnil
      refine ⟨huncut, .inr ?_⟩
      by_cases hcut : Uncut events contractId fromLedger currentLedger
      · rw [← hwhole hcut]
        exact hnil
      · exact absurd hnil (hless hcut).1
    · rintro ⟨_, hzero | hnil⟩
      · exact absurd rfl hzero
      · by_cases hcut : Uncut events contractId fromLedger currentLedger
        · rw [hwhole hcut]
          exact hnil
        · have hlength := (hless hcut).2
          rw [hnil] at hlength
          exact absurd hlength (Nat.not_lt_zero _)
  · rw [if_neg hzero]
    obtain ⟨hwhole, hless⟩ := queryEventsFromRange_spec h.sorted contractId fromLedger toLedger
    by_cases hcut : Uncut events contractId fromLedger toLedger
    · rw [hwhole hcut]
      exact ⟨⟨fun _ => ⟨hcut, .inl hzero⟩, fun _ => rfl⟩, fun _ => rfl⟩
    · have hlength := (hless hcut).2
      refine ⟨⟨fun heq => ?_, fun hcuts => absurd hcuts.1 hcut⟩, fun heq => ?_⟩ <;> omega

theorem counts_replay (events : List Event) (currentLedger : Int) (contractId : Nat)
    (fromLedger toLedger : Int) (throws : Event → Bool) (s : Indexer) :
    (replayEvents events currentLedger contractId fromLedger toLedger throws s).processed +
        (replayEvents events currentLedger contractId fromLedger toLedger throws s).duplicates =
      (replayed events currentLedger contractId fromLedger toLedger).length :=
  (counts_foldl throws _ ⟨s, 0, 0⟩).trans (Nat.zero_add _)

/-- A replay covers its range exactly when the state before it is `Replayable`. -/
theorem replay_covers_iff (h : History events) (hle : fromLedger ≤ toLedger) :
    CoversRange events currentLedger contractId fromLedger toLedger throws s
        (replayEvents events currentLedger contractId fromLedger toLedger throws s) ↔
      Replayable events currentLedger contractId fromLedger toLedger throws s := by
  obtain ⟨hcounted, hsame⟩ := replayed_spec h currentLedger contractId hle
  have hcounts := counts_replay events currentLedger contractId fromLedger toLedger throws s
  have hnodup : (rangeEvents events contractId fromLedger toLedger).Nodup :=
    (List.Nodup.of_map Event.id h.nodup).filter _
  have hiff := @foldl_dispatched_iff throws s.dispatched _ ⟨s, 0, 0⟩ hnodup
  constructor
  · intro hcovers
    have hlength : (replayed events currentLedger contractId fromLedger toLedger).length =
        (rangeEvents events contractId fromLedger toLedger).length :=
      hcounts.symm.trans hcovers.counted
    have heq := hsame hlength
    obtain ⟨huncut, hgiven⟩ := hcounted.mp hlength
    have hdispatched := hcovers.dispatched
    have hagain := hcovers.again fun _ => false
    unfold replayEvents at hdispatched hagain
    unfold replayed at heq
    simp only [heq] at hdispatched hagain
    have htells := hiff.mp hdispatched
    refine ⟨huncut, hgiven, htells, ?_⟩
    have hknown := known_of_foldl hagain
    rw [foldl_cache htells] at hknown
    exact hknown
  · intro hr
    have heq := hsame (hcounted.mpr ⟨hr.uncut, hr.given⟩)
    have hdispatched := hiff.mpr hr.tellsApart
    constructor
    case dispatched =>
      unfold replayEvents
      unfold replayed at heq
      simp only [heq]
      exact hdispatched
    case counted =>
      rw [hcounts, heq]
    case again =>
      intro throws'
      unfold replayEvents
      unfold replayed at heq
      simp only [heq]
      apply foldl_known
      rw [foldl_cache hr.tellsApart]
      exact hr.kept

/-! ## Room in the cache -/

/-- Two more entries fit, and nothing is forgotten. -/
theorem remember_room (hroom : cache.length + 2 ≤ cacheLimit) (done : List Event) (e : Event) :
    (remember done cache e).length ≤ cache.length + 2 ∧ Knows (remember done cache e) e ∧
      ∀ d, d.eventKey ≠ e.eventKey → (Knows (remember done cache e) d ↔ Knows cache d) := by
  have hpush : push cacheLimit cache e.eventKey = cache ++ [e.eventKey] := by
    unfold push
    rw [if_neg]
    rw [List.length_append, List.length_singleton]
    omega
  have hhash : ∀ d : Event, d.eventKey ≠ e.eventKey → d.eventHash ≠ e.eventHash := by
    intro d hne heq
    unfold Event.eventHash at heq
    injection heq with htx hcontract htype _
    refine hne ?_
    unfold Event.eventKey
    rw [htx, hcontract, htype]
  have hcross : ∀ a b : Event, a.eventHash ≠ b.eventKey := fun _ _ => nofun
  unfold remember
  rw [hpush]
  split
  · next hknown => exact ⟨by omega, .inl hknown, fun _ _ => Iff.rfl⟩
  · split
    · refine ⟨by simp, .inl (by simp), ?_⟩
      intro d hne
      simp [Knows, hhash d hne, (hcross e d).symm]
    · refine ⟨by simp, .inl (by simp), ?_⟩
      intro d hne
      simp [Knows, hhash d hne, hne, hcross d e, (hcross e d).symm]

/-- With room for two entries an event, a page of events with different keys is told apart when the
    cache does so at the start, and is kept. -/
theorem tellsApart_of_room (done : List Event)
    (hroom : cache.length + 2 * page.length ≤ cacheLimit)
    (hkeys : page.Pairwise fun d e => e.eventKey ≠ d.eventKey)
    (hdone : ∀ e ∈ page, (Knows cache e ↔ e ∈ done) ∧ throws e = false) :
    TellsApart done throws cache page ∧
      (∀ e ∈ page, Knows (page.foldl (remember done) cache) e) ∧
      ∀ e, (∀ d ∈ page, e.eventKey ≠ d.eventKey) →
        (Knows (page.foldl (remember done) cache) e ↔ Knows cache e) := by
  induction page generalizing cache with
  | nil => exact ⟨trivial, fun e he => absurd he List.not_mem_nil, fun _ _ => Iff.rfl⟩
  | cons e page ih =>
    obtain ⟨hother, hkeys⟩ := List.pairwise_cons.mp hkeys
    rw [List.length_cons] at hroom
    have hfits : cache.length + 2 ≤ cacheLimit := by omega
    obtain ⟨hlength, hknows, hframe⟩ := remember_room hfits done e
    obtain ⟨htells, hkept, hrest⟩ := @ih (remember done cache e) (by omega) hkeys (by
      intro d hd
      rw [hframe d (hother d hd)]
      exact hdone d (List.mem_cons_of_mem _ hd))
    obtain ⟨hhead, hquiet⟩ := hdone e (List.mem_cons_self ..)
    refine ⟨⟨?_, htells⟩, ?_, ?_⟩
    · rw [hquiet, ← hhead]
      simp
    · intro d hd
      rw [List.foldl_cons]
      rcases List.mem_cons.mp hd with rfl | hd
      · exact (hrest d fun d' hd' => (hother d' hd').symm).mpr hknows
      · exact hkept d hd
    · intro d hne
      rw [List.foldl_cons, hrest d fun d' hd' => hne d' (List.mem_cons_of_mem _ hd')]
      exact hframe d (hne e (List.mem_cons_self ..))

/-- For an indexer that has dispatched nothing, 500 events with different keys are few enough. -/
theorem replayable_of_few (h : 0 < toLedger) (throws : Event → Bool)
    (huncut : Uncut events contractId fromLedger toLedger)
    (hfew : (rangeEvents events contractId fromLedger toLedger).length ≤ 500)
    (hkeys : (rangeEvents events contractId fromLedger toLedger).Pairwise
      fun d e => e.eventKey ≠ d.eventKey)
    (hquiet : ∀ e ∈ rangeEvents events contractId fromLedger toLedger, throws e = false)
    (isRunning : Bool) (lastLedger currentLedger : Int) :
    Replayable events currentLedger contractId fromLedger toLedger throws
      ⟨isRunning, lastLedger, [], []⟩ := by
  have hroom : ([] : List CacheKey).length +
      2 * (rangeEvents events contractId fromLedger toLedger).length ≤ cacheLimit := by
    unfold cacheLimit
    rw [List.length_nil]
    omega
  obtain ⟨htells, hkept, _⟩ := tellsApart_of_room [] hroom hkeys fun e he =>
    ⟨by simp [Knows], hquiet e he⟩
  exact ⟨huncut, .inl (by omega), htells, hkept⟩

/-- An indexer that has dispatched nothing. -/
def freshIndexer : Indexer := ⟨true, 5, [], []⟩

/-- Nothing is counted where nothing was emitted. -/
example : (replayEvents [] 6 7 5 6 (fun _ => false) freshIndexer).processed = 0 := by
  decide +kernel

/-- Two transactions of contract 7 in two ledgers. -/
def twoTransactions : List Event := [contractEvent 0 10 5, contractEvent 1 11 6]

theorem replay_covers_iff_sample :
    (replayEvents twoTransactions 6 7 5 6 (fun _ => false) freshIndexer).processed = 2 ∧
      CoversRange twoTransactions 6 7 5 6 (fun _ => false) freshIndexer
        (replayEvents twoTransactions 6 7 5 6 (fun _ => false) freshIndexer) := by
  have hhistory : History twoTransactions := by
    constructor
    case sorted => exact List.pairwise_pair.mpr (by decide)
    case nodup => decide
    case positive => decide
  have huncut : Uncut twoTransactions 7 5 6 := by
    intro k
    exact (List.length_filter_le _ _).trans (by decide)
  have hreplayable : Replayable twoTransactions 6 7 5 6 (fun _ => false) freshIndexer :=
    replayable_of_few (by decide) _ huncut (by decide +kernel) (by decide +kernel)
      (by decide +kernel) true 5 6
  exact ⟨by decide +kernel, (replay_covers_iff hhistory (by decide)).mpr hreplayable⟩

/-- One transaction with two events. -/
def sameTransaction : List Event := [contractEvent 0 10 5, contractEvent 1 10 5]

/-- One ledger with more than 100 events. -/
def crowdedLedger : List Event := (List.range 101).map fun i => contractEvent i i 5

/-- The second event of the transaction is not dispatched, and the last one of the crowded ledger is
    not even counted. -/
theorem replay_leaves_out :
    ¬ CoversRange sameTransaction 5 7 5 5 (fun _ => false) freshIndexer
        (replayEvents sameTransaction 5 7 5 5 (fun _ => false) freshIndexer) ∧
      ¬ CoversRange crowdedLedger 5 7 5 5 (fun _ => false) freshIndexer
        (replayEvents crowdedLedger 5 7 5 5 (fun _ => false) freshIndexer) := by
  constructor
  · intro hcovers
    exact absurd hcovers.dispatched (by decide +kernel)
  · intro hcovers
    have hcounted := hcovers.counted
    rw [counts_replay] at hcounted
    exact absurd hcounted (by decide +kernel)

end AgriFi.EventIndexer
