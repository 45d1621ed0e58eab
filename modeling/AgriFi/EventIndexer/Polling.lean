import Mathlib.Data.List.Nodup
import Mathlib.Data.List.Perm.Subperm
import AgriFi.Runs
import AgriFi.EventIndexer.Service

/-
  Polling over a growing history of events. A transaction with two events of a contract has one key
  for both, and the second one is never dispatched (`second_event_lost`); a ledger that fills a page
  alone is never left; an event whose handler throws is left behind with its ledger.
  `delivers_exactly_once`: when the events have different keys, each ledger has less than a page of
  them, and handlers throw only for events of a page's last ledger, then no event is dispatched
  twice, and each one from the starting ledger on is dispatched by the time polling has caught up.
-/

namespace AgriFi.EventIndexer

open AgriFi.Runs AgriFi.Feeds

/-! ## The system -/

/-- The contracts that the indexer knows, the events of the ledgers that are closed, and the
    indexer. -/
structure System where
  known : List Nat
  events : List Event
  indexer : Indexer

inductive Action where
  /-- A ledger closes with these events. -/
  | close (ledger : List Event)
  | poll (answered : Bool) (throws : Event → Bool)

/-- The events of one more ledger: after all others, with ids of their own. -/
def IsNextLedger (events ledger : List Event) : Prop :=
  (∀ e ∈ ledger, 0 < e.ledger ∧ (∀ e' ∈ ledger, e'.ledger = e.ledger) ∧
    ∀ d ∈ events, d.ledger < e.ledger ∧ d.id ≠ e.id) ∧ (ledger.map Event.id).Nodup

instance (events ledger : List Event) : Decidable (IsNextLedger events ledger) :=
  inferInstanceAs (Decidable (_ ∧ _))

def System.poll (s : System) (answered : Bool) (throws : Event → Bool) : System :=
  { s with indexer := s.indexer.pollForEvents s.known s.events answered throws }

def next (s : System) : Action → Option System
  | .close ledger =>
    if IsNextLedger s.events ledger then some { s with events := s.events ++ ledger } else none
  | .poll answered throws => some (s.poll answered throws)

/-- An indexer that starts at a ledger. -/
def start (known : List Nat) (ledger : Int) : System := ⟨known, [], ⟨true, ledger, [], []⟩⟩

abbrev PollRun (known : List Nat) (ledger : Int) (xs : List (Step System Action)) (s : System) :
    Prop :=
  Run next (start known ledger) xs s

/-- Polls that are answered, with no handler throwing. -/
def System.pollTimes (s : System) : Nat → System
  | 0 => s
  | n + 1 => (s.poll true fun _ => false).pollTimes n

/-! ## What polling is for -/

variable {first : Int} {s s' : System} {a : Action} {e d : Event}

/-- The events that the indexer is to dispatch. -/
def System.Wanted (s : System) (first : Int) (e : Event) : Prop :=
  e ∈ s.events ∧ Indexer.buildEventFilters s.known e = true ∧ first ≤ e.ledger

instance (s : System) (first : Int) (e : Event) : Decidable (s.Wanted first e) :=
  inferInstanceAs (Decidable (_ ∧ _))

/-- A poll that is answered with less than a full page, in which no handler throws. -/
def CatchesUp (s : System) : Action → Prop
  | .close _ => False
  | .poll answered throws =>
    answered = true ∧ (s.indexer.queryEvents s.known s.events).length < pageLimit ∧
      ∀ e ∈ s.indexer.queryEvents s.known s.events, throws e = false

/-- No event is dispatched twice; a poll that catches up leaves nothing out; and polls catch up: as
    many as there are events, and one more, dispatch all of them. -/
structure DeliversOnce (first : Int) (xs : List (Step System Action)) (s : System) : Prop where
  once : (s.indexer.dispatched.map Event.id).Nodup
  caughtUp : ∀ step ∈ xs, CatchesUp step.pre step.act → ∀ e, step.post.Wanted first e →
    e ∈ step.post.indexer.dispatched
  eventually : ∀ n, s.events.length < n → ∀ e, s.Wanted first e →
    e ∈ (s.pollTimes n).indexer.dispatched

/-! ## The condition -/

/-- Different events have different keys. -/
def DistinctKeys (first : Int) (s : System) : Prop :=
  ∀ d ∈ s.events, ∀ e ∈ s.events, s.Wanted first d → s.Wanted first e →
    d.eventKey = e.eventKey → d = e

/-- The events of a ledger do not fill a page. -/
def Sparse (first : Int) (s : System) : Prop :=
  ∀ e ∈ s.events, s.Wanted first e →
    (s.events.filter fun d => s.Wanted first d ∧ d.ledger = e.ledger).length < pageLimit

/-- Of the events that a poll is to dispatch, handlers throw only for those of the last ledger of
    its page. -/
def ThrowsAtEnd (s : System) : Action → Prop
  | .close _ => True
  | .poll _ throws =>
    ∀ e ∈ s.indexer.queryEvents s.known s.events, e ∉ s.indexer.dispatched → throws e = true →
      ∀ d ∈ s.indexer.queryEvents s.known s.events, d.ledger ≤ e.ledger

instance (first : Int) (s : System) : Decidable (DistinctKeys first s) :=
  inferInstanceAs (Decidable (∀ d ∈ s.events, ∀ e ∈ s.events, _))

instance (first : Int) (s : System) : Decidable (Sparse first s) :=
  inferInstanceAs (Decidable (∀ e ∈ s.events, _))

instance (s : System) : ∀ a : Action, Decidable (ThrowsAtEnd s a)
  | .close _ => isTrue trivial
  | .poll _ _ => inferInstanceAs (Decidable (∀ e ∈ Indexer.queryEvents _ _ _, _))

/-! ## Pages -/

/-- What is there for a poll to read. -/
def System.rest (s : System) : List Event :=
  s.events.filter fun e =>
    Indexer.buildEventFilters s.known e ∧ s.indexer.lastLedger ≤ e.ledger

def System.page (s : System) : List Event := s.indexer.queryEvents s.known s.events

theorem mem_rest : e ∈ s.rest ↔ e ∈ s.events ∧
    Indexer.buildEventFilters s.known e = true ∧ s.indexer.lastLedger ≤ e.ledger := by
  simp [System.rest]

theorem page_eq (s : System) : s.page = s.rest.take pageLimit := by
  simp [System.page, System.rest, Indexer.queryEvents, getEvents]

theorem mem_rest_of_mem_page (h : e ∈ s.page) : e ∈ s.rest := by
  rw [page_eq] at h
  exact List.mem_of_mem_take h

theorem page_eq_rest (h : s.page.length < pageLimit) : s.page = s.rest := by
  rw [page_eq] at h ⊢
  exact take_eq_self h

theorem History.nodup_events (h : History s.events) : s.events.Nodup :=
  List.Nodup.of_map Event.id h.nodup

theorem History.sorted_rest (h : History s.events) : Sorted Event.ledger s.rest := h.sorted.filter _

theorem History.sorted_page (h : History s.events) : Sorted Event.ledger s.page := by
  rw [page_eq]
  exact h.sorted_rest.take _

theorem History.nodup_page (h : History s.events) : s.page.Nodup := by
  rw [page_eq]
  exact (h.nodup_events.filter _).sublist (List.take_sublist _ _)

theorem length_page (s : System) : s.page.length ≤ pageLimit := by
  rw [page_eq, List.length_take]
  omega

/-! ## The indexer along a run -/

/-- What the indexer has dispatched is in order, up to its last ledger and with nothing left out
    before that, and its cache has the last keys of it. -/
structure Tracks (first : Int) (s : System) : Prop where
  running : s.indexer.isRunning = true
  first_le : first ≤ s.indexer.lastLedger
  nonzero : s.indexer.lastLedger ≠ 0
  last : s.indexer.lastLedger = first ∨ ∃ e ∈ s.events, e.ledger = s.indexer.lastLedger
  nodup : s.indexer.dispatched.Nodup
  sorted : Sorted Event.ledger s.indexer.dispatched
  wanted : ∀ e ∈ s.indexer.dispatched, s.Wanted first e ∧ e.ledger ≤ s.indexer.lastLedger
  complete : ∀ e, s.Wanted first e → e.ledger < s.indexer.lastLedger → e ∈ s.indexer.dispatched
  cache : s.indexer.processedEventsCache =
    (s.indexer.dispatched.map Event.eventKey).rtake cacheLimit

theorem Tracks.wanted_rest (h : Tracks first s) (he : e ∈ s.rest) : s.Wanted first e := by
  obtain ⟨hmem, hfilter, hle⟩ := mem_rest.mp he
  have hfirst := h.first_le
  exact ⟨hmem, hfilter, by omega⟩

/-- A full page has events of more than one ledger. -/
theorem Tracks.page_spans (h : Tracks first s) (hsparse : Sparse first s)
    (hhistory : History s.events) (hfull : ¬ s.page.length < pageLimit) (ledger : Int) :
    ∃ d ∈ s.page, d.ledger ≠ ledger := by
  by_contra hnone
  have hall : ∀ d ∈ s.page, d.ledger = ledger := by
    intro d hd
    by_contra hne
    exact hnone ⟨d, hd, hne⟩
  have hne : s.page ≠ [] := by
    intro hnil
    rw [hnil] at hfull
    exact hfull (by decide)
  obtain ⟨e, he⟩ := List.exists_mem_of_ne_nil _ hne
  have hsub : s.page ⊆ s.events.filter fun d => s.Wanted first d ∧ d.ledger = e.ledger := by
    intro d hd
    have hrest := mem_rest_of_mem_page hd
    rw [List.mem_filter]
    refine ⟨(mem_rest.mp hrest).1, decide_eq_true ⟨h.wanted_rest hrest, ?_⟩⟩
    exact (hall d hd).trans (hall e he).symm
  have hlength := (List.subperm_of_subset hhistory.nodup_page hsub).length_le
  have hwanted := h.wanted_rest (mem_rest_of_mem_page he)
  have hbound := hsparse e hwanted.1 hwanted
  omega

/-- So a page has all that is there of the ledger that it starts at. -/
theorem Tracks.page_at_last (h : Tracks first s) (hsparse : Sparse first s)
    (hhistory : History s.events) (he : e ∈ s.rest)
    (hlast : e.ledger = s.indexer.lastLedger) : e ∈ s.page := by
  by_cases hfull : s.page.length < pageLimit
  · rw [page_eq_rest hfull]
    exact he
  · obtain ⟨d, hd, hne⟩ := h.page_spans hsparse hhistory hfull e.ledger
    have hge := (mem_rest.mp (mem_rest_of_mem_page hd)).2.2
    have hlt : e.ledger < d.ledger := by omega
    rw [page_eq] at hd ⊢
    exact hhistory.sorted_rest.mem_take he hd hlt

/-! ## One page -/

/-- A page beside what is dispatched: the keys tell its events apart, and what it has of the events
    that are dispatched came last. -/
structure Readable (x : Indexer) (page old recent : List Event) : Prop where
  split : x.dispatched = old ++ recent
  keys : ∀ d e, d ∈ x.dispatched ∨ d ∈ page → e ∈ page → d.eventKey = e.eventKey → d = e
  nodup : page.Nodup
  length : page.length ≤ cacheLimit
  read : ∀ e, e ∈ page → e ∈ x.dispatched → e ∈ recent
  recent_sub : recent ⊆ page
  recent_nodup : recent.Nodup

/-- What a page adds. -/
def fresh (x : Indexer) (throws : Event → Bool) (page : List Event) : List Event :=
  page.filter fun e => e ∉ x.dispatched ∧ throws e = false

variable {x y : Indexer} {page old recent q r : List Event}

/-- With the part `q` of the page read, the cache knows of the rest what was dispatched before. -/
theorem Readable.known (h : Readable x page old recent) (throws : Event → Bool)
    (hpage : page = q ++ e :: r)
    (hy : y.dispatched = x.dispatched ++ fresh x throws q)
    (hcache : y.processedEventsCache = (y.dispatched.map Event.eventKey).rtake cacheLimit) :
    e.eventKey ∈ y.processedEventsCache ↔ e ∈ x.dispatched := by
  have he : e ∈ page := by
    rw [hpage]
    exact List.mem_append_right _ (List.mem_cons_self ..)
  have hq : ∀ d ∈ fresh x throws q, d ∈ page := by
    intro d hd
    rw [hpage]
    exact List.mem_append_left _ (List.mem_of_mem_filter hd)
  rw [hcache]
  constructor
  · intro hmem
    obtain ⟨d, hd, hkey⟩ := List.mem_map.mp (mem_of_mem_rtake hmem)
    rw [hy, List.mem_append] at hd
    rcases hd with hd | hd
    · rw [← h.keys d e (.inl hd) he hkey]
      exact hd
    · obtain rfl := h.keys d e (.inr (hq d hd)) he hkey
      have hnodup := h.nodup
      rw [hpage, List.nodup_append] at hnodup
      exact absurd rfl (hnodup.2.2 d (List.mem_of_mem_filter hd) d (List.mem_cons_self ..))
  · intro hmem
    have hrecent := h.read e he hmem
    have hnodup : (recent ++ fresh x throws q).Nodup := by
      rw [List.nodup_append]
      refine ⟨h.recent_nodup, ?_, ?_⟩
      · have hnodup := h.nodup
        rw [hpage, List.nodup_append] at hnodup
        exact hnodup.1.filter _
      · rintro a ha b hb rfl
        have hnot := (of_decide_eq_true (List.mem_filter.mp hb).2).1
        rw [h.split] at hnot
        exact hnot (List.mem_append_right _ ha)
    have hsub : recent ++ fresh x throws q ⊆ page := by
      intro d hd
      rcases List.mem_append.mp hd with hd | hd
      · exact h.recent_sub hd
      · exact hq d hd
    have hlength := (List.subperm_of_subset hnodup hsub).length_le
    have hlimit := h.length
    rw [hy, h.split, List.append_assoc, List.map_append]
    refine mem_rtake_append _ ?_ (List.mem_map_of_mem (List.mem_append_left _ hrecent))
    rw [List.length_map]
    omega

theorem fresh_append (x : Indexer) (throws : Event → Bool) (q r : List Event) :
    fresh x throws (q ++ r) = fresh x throws q ++ fresh x throws r := List.filter_append ..

/-- A page adds what was not dispatched before, unless its handler throws. -/
theorem Readable.fold (h : Readable x page old recent) (throws : Event → Bool)
    (hpage : page = q ++ r)
    (hy : y.dispatched = x.dispatched ++ fresh x throws q)
    (hcache : y.processedEventsCache = (y.dispatched.map Event.eventKey).rtake cacheLimit) :
    (r.foldl (Indexer.processEvent throws) y).dispatched = x.dispatched ++ fresh x throws page ∧
      (r.foldl (Indexer.processEvent throws) y).processedEventsCache =
        ((x.dispatched ++ fresh x throws page).map Event.eventKey).rtake cacheLimit ∧
      (r.foldl (Indexer.processEvent throws) y).isRunning = y.isRunning := by
  induction r generalizing q y with
  | nil =>
    rw [List.append_nil] at hpage
    rw [hpage, ← hy]
    exact ⟨rfl, hcache, rfl⟩
  | cons e r ih =>
    have hknown := h.known throws hpage hy hcache
    have hpage' : page = (q ++ [e]) ++ r := by rw [hpage, List.append_assoc]; rfl
    have hstep : (y.processEvent throws e).dispatched = x.dispatched ++ fresh x throws (q ++ [e]) ∧
        (y.processEvent throws e).processedEventsCache =
          ((y.processEvent throws e).dispatched.map Event.eventKey).rtake cacheLimit ∧
        (y.processEvent throws e).isRunning = y.isRunning := by
      rw [fresh_append]
      unfold Indexer.processEvent
      split
      · next hskip =>
        have hnone : fresh x throws [e] = [] := by
          apply List.filter_eq_nil_iff.mpr
          intro d hd
          obtain rfl := List.mem_singleton.mp hd
          rcases hskip with hkey | hthrows
          · simp [hknown.mp hkey]
          · simp [hthrows]
        rw [hnone, List.append_nil]
        exact ⟨hy, hcache, rfl⟩
      · next hdispatch =>
        have hnot : e ∉ x.dispatched := fun hmem => hdispatch (.inl (hknown.mpr hmem))
        have hthrows : throws e = false := by
          by_contra hthrows
          exact hdispatch (.inr (by simpa using hthrows))
        have hone : fresh x throws [e] = [e] := by
          apply List.filter_eq_self.mpr
          intro d hd
          obtain rfl := List.mem_singleton.mp hd
          exact decide_eq_true ⟨hnot, hthrows⟩
        refine ⟨?_, ?_, rfl⟩
        · show y.dispatched ++ [e] = _
          rw [hone, hy, List.append_assoc]
        · show push cacheLimit y.processedEventsCache e.eventKey = _
          rw [hcache, push_rtake (by decide), List.map_append]
          rfl
    obtain ⟨hdispatched, hcache', hrunning⟩ := hstep
    rw [List.foldl_cons]
    obtain ⟨hend, hendCache, hendRunning⟩ := ih hpage' hdispatched hcache'
    exact ⟨hend, hendCache, hendRunning.trans hrunning⟩

/-! ## A poll -/

theorem maxLedger_spec (hne : page ≠ []) (last : Int) :
    (∃ e ∈ page, e.ledger = Indexer.maxLedger page last) ∧
      ∀ e ∈ page, e.ledger ≤ Indexer.maxLedger page last := by
  unfold Indexer.maxLedger
  cases hmax : (page.map Event.ledger).max? with
  | none =>
    rw [List.max?_eq_none_iff, List.map_eq_nil_iff] at hmax
    exact absurd hmax hne
  | some m =>
    obtain ⟨hmem, hle⟩ := List.max?_eq_some_iff.mp hmax
    exact ⟨List.mem_map.mp hmem, fun e he => hle _ (List.mem_map_of_mem he)⟩

theorem Tracks.readable (h : Tracks first s) (hkeys : DistinctKeys first s)
    (hsparse : Sparse first s) (hhistory : History s.events) :
    ∃ old recent, Readable s.indexer s.page old recent := by
  have hsplit := h.sorted.filter_append_filter (s.indexer.lastLedger - 1)
  refine ⟨_, _, hsplit.symm, ?_, hhistory.nodup_page, ?_, ?_, ?_, h.nodup.filter _⟩
  · intro d e hd he hkey
    have hwanted : ∀ {c}, c ∈ s.page → s.Wanted first c :=
      fun hc => h.wanted_rest (mem_rest_of_mem_page hc)
    have hwd : s.Wanted first d := hd.elim (fun hd => (h.wanted d hd).1) hwanted
    exact hkeys d hwd.1 e (hwanted he).1 hwd (hwanted he) hkey
  · exact (length_page s).trans (by decide)
  · intro e he hmem
    rw [List.mem_filter]
    refine ⟨hmem, decide_eq_true ?_⟩
    have hge := (mem_rest.mp (mem_rest_of_mem_page he)).2.2
    omega
  · intro e he
    obtain ⟨hmem, hlast⟩ := List.mem_filter.mp he
    have hlast := of_decide_eq_true hlast
    obtain ⟨⟨hevent, hfilter, _⟩, hle⟩ := h.wanted e hmem
    exact h.page_at_last hsparse hhistory (mem_rest.mpr ⟨hevent, hfilter, by omega⟩) (by omega)

/-- What an answered poll leaves. -/
theorem Tracks.poll_eq (h : Tracks first s) (hkeys : DistinctKeys first s)
    (hsparse : Sparse first s) (hhistory : History s.events) (throws : Event → Bool) :
    (s.poll true throws).indexer.dispatched = s.indexer.dispatched ++
        fresh s.indexer throws s.page ∧
      (s.poll true throws).indexer.processedEventsCache =
        ((s.poll true throws).indexer.dispatched.map Event.eventKey).rtake cacheLimit ∧
      (s.poll true throws).indexer.isRunning = true ∧
      (s.poll true throws).indexer.lastLedger =
        Indexer.maxLedger s.page s.indexer.lastLedger := by
  have hgo : ¬ (s.indexer.isRunning = false ∨ s.indexer.lastLedger = 0 ∨ true = false) := by
    rintro (hrunning | hzero | hanswer)
    · rw [h.running] at hrunning
      cases hrunning
    · exact h.nonzero hzero
    · cases hanswer
  have hpoll : (s.poll true throws).indexer =
      { s.page.foldl (Indexer.processEvent throws) s.indexer with
        lastLedger := Indexer.maxLedger s.page s.indexer.lastLedger } := if_neg hgo
  obtain ⟨old, recent, hread⟩ := h.readable hkeys hsparse hhistory
  have hnone : s.indexer.dispatched = s.indexer.dispatched ++ fresh s.indexer throws [] :=
    (List.append_nil _).symm
  obtain ⟨hdispatched, hcache, hrunning⟩ :=
    hread.fold throws (List.nil_append s.page).symm hnone h.cache
  rw [← hdispatched] at hcache
  rw [hpoll]
  exact ⟨hdispatched, hcache, hrunning.trans h.running, rfl⟩

theorem mem_fresh {throws : Event → Bool} :
    e ∈ fresh x throws page ↔ e ∈ page ∧ e ∉ x.dispatched ∧ throws e = false := by
  unfold fresh
  rw [List.mem_filter, decide_eq_true_iff]

theorem Tracks.poll (h : Tracks first s) (hkeys : DistinctKeys first s) (hsparse : Sparse first s)
    (hhistory : History s.events) {answered : Bool} {throws : Event → Bool}
    (hthrows : ThrowsAtEnd s (.poll answered throws)) : Tracks first (s.poll answered throws) := by
  cases answered with
  | false =>
    have hsame : s.poll false throws = s := by
      have hindexer : s.indexer.pollForEvents s.known s.events false throws = s.indexer :=
        if_pos (.inr (.inr rfl))
      show { s with indexer := _ } = s
      rw [hindexer]
    rw [hsame]
    exact h
  | true =>
    obtain ⟨hdispatched, hcache, hrunning, hlast⟩ := h.poll_eq hkeys hsparse hhistory throws
    have hstart : ∀ d ∈ s.page, s.indexer.lastLedger ≤ d.ledger :=
      fun d hd => (mem_rest.mp (mem_rest_of_mem_page hd)).2.2
    -- the new last ledger is the old one, or the greatest of a page that is not empty
    have hmax : s.page = [] ∧ (s.poll true throws).indexer.lastLedger = s.indexer.lastLedger ∨
        (∃ d ∈ s.page, d.ledger = (s.poll true throws).indexer.lastLedger) ∧
          ∀ d ∈ s.page, d.ledger ≤ (s.poll true throws).indexer.lastLedger := by
      rw [hlast]
      by_cases hnil : s.page = []
      · rw [hnil]
        exact .inl ⟨rfl, rfl⟩
      · exact .inr (maxLedger_spec hnil _)
    have hle : s.indexer.lastLedger ≤ (s.poll true throws).indexer.lastLedger := by
      rcases hmax with ⟨_, hsame⟩ | ⟨⟨d, hd, hdlast⟩, _⟩
      · omega
      · have hge := hstart d hd
        omega
    have hupto : ∀ d ∈ s.page, d.ledger ≤ (s.poll true throws).indexer.lastLedger := by
      rcases hmax with ⟨hnil, _⟩ | ⟨_, hupto⟩
      · rw [hnil]
        nofun
      · exact hupto
    constructor
    case running => exact hrunning
    case first_le =>
      have hfirst := h.first_le
      omega
    case nonzero =>
      rcases hmax with ⟨_, hsame⟩ | ⟨⟨d, hd, hdlast⟩, _⟩
      · rw [hsame]
        exact h.nonzero
      · have hpos := hhistory.positive d (mem_rest.mp (mem_rest_of_mem_page hd)).1
        omega
    case last =>
      rcases hmax with ⟨_, hsame⟩ | ⟨⟨d, hd, hdlast⟩, _⟩
      · rw [hsame]
        exact h.last
      · exact .inr ⟨d, (mem_rest.mp (mem_rest_of_mem_page hd)).1, hdlast⟩
    case nodup =>
      rw [hdispatched, List.nodup_append]
      refine ⟨h.nodup, hhistory.nodup_page.filter _, ?_⟩
      rintro a ha b hb rfl
      exact (mem_fresh.mp hb).2.1 ha
    case sorted =>
      rw [hdispatched]
      refine h.sorted.append (hhistory.sorted_page.filter _) ?_
      intro a ha b hb
      have ha := (h.wanted a ha).2
      have hb := hstart b (mem_fresh.mp hb).1
      omega
    case wanted =>
      intro e he
      rw [hdispatched, List.mem_append] at he
      rcases he with he | he
      · obtain ⟨hwanted, hbefore⟩ := h.wanted e he
        exact ⟨hwanted, by omega⟩
      · have hpage := (mem_fresh.mp he).1
        exact ⟨h.wanted_rest (mem_rest_of_mem_page hpage), hupto e hpage⟩
    case complete =>
      intro e hwanted hlt
      rw [hdispatched, List.mem_append]
      by_cases hbefore : e.ledger < s.indexer.lastLedger
      · exact .inl (h.complete e hwanted hbefore)
      · rcases hmax with ⟨_, hsame⟩ | ⟨⟨d, hd, hdlast⟩, _⟩
        · omega
        · have hpage : e ∈ s.page := by
            have hrest : e ∈ s.rest := mem_rest.mpr ⟨hwanted.1, hwanted.2.1, by omega⟩
            rw [page_eq] at hd ⊢
            exact hhistory.sorted_rest.mem_take hrest hd (by omega)
          by_cases hmem : e ∈ s.indexer.dispatched
          · exact .inl hmem
          · refine .inr (mem_fresh.mpr ⟨hpage, hmem, ?_⟩)
            by_contra hthrow
            have hend := hthrows e hpage hmem (by simpa using hthrow) d hd
            omega
    case cache => exact hcache

/-! ## A ledger closes -/

theorem History.close {ledger : List Event} (h : History s.events)
    (hnext : IsNextLedger s.events ledger) : History (s.events ++ ledger) := by
  obtain ⟨heach, hids⟩ := hnext
  constructor
  case sorted =>
    refine h.sorted.append ?_ fun a ha b hb => Int.le_of_lt ((heach b hb).2.2 a ha).1
    refine List.pairwise_iff_forall_sublist.mpr ?_
    intro a b hab
    have ha : a ∈ ledger := hab.subset (List.mem_cons_self ..)
    have hb : b ∈ ledger := hab.subset (List.mem_cons_of_mem _ (List.mem_cons_self ..))
    exact le_of_eq ((heach b hb).2.1 a ha)
  case nodup =>
    rw [List.map_append, List.nodup_append]
    refine ⟨h.nodup, hids, ?_⟩
    intro i hi j hj hij
    obtain ⟨d, hd, rfl⟩ := List.mem_map.mp hi
    obtain ⟨b, hb, rfl⟩ := List.mem_map.mp hj
    exact ((heach b hb).2.2 d hd).2 hij
  case positive =>
    intro e he
    rcases List.mem_append.mp he with he | he
    · exact h.positive e he
    · exact (heach e he).1

theorem Tracks.close {ledger : List Event} (h : Tracks first s)
    (hnext : IsNextLedger s.events ledger) :
    Tracks first { s with events := s.events ++ ledger } := by
  constructor
  case running => exact h.running
  case first_le => exact h.first_le
  case nonzero => exact h.nonzero
  case last =>
    rcases h.last with hfirst | ⟨d, hd, hlast⟩
    · exact .inl hfirst
    · exact .inr ⟨d, List.mem_append_left _ hd, hlast⟩
  case nodup => exact h.nodup
  case sorted => exact h.sorted
  case wanted =>
    intro e he
    obtain ⟨⟨hmem, hwanted⟩, hle⟩ := h.wanted e he
    exact ⟨⟨List.mem_append_left _ hmem, hwanted⟩, hle⟩
  case complete =>
    rintro e ⟨hmem, hfilter, hfirst⟩ hlt
    have hlt : e.ledger < s.indexer.lastLedger := hlt
    rcases List.mem_append.mp hmem with hmem | hmem
    · exact h.complete e ⟨hmem, hfilter, hfirst⟩ hlt
    · rcases h.last with hlast | ⟨d, hd, hlast⟩
      · omega
      · have hafter := ((hnext.1 e hmem).2.2 d hd).1
        omega
  case cache => exact h.cache

/-! ## Catching up -/

theorem Tracks.caughtUp (h : Tracks first s) (hkeys : DistinctKeys first s)
    (hsparse : Sparse first s) (hhistory : History s.events) {throws : Event → Bool}
    (hpage : s.page.length < pageLimit) (hthrows : ∀ e ∈ s.page, throws e = false)
    (he : s.Wanted first e) : e ∈ (s.poll true throws).indexer.dispatched := by
  rw [(h.poll_eq hkeys hsparse hhistory throws).1, List.mem_append]
  by_cases hmem : e ∈ s.indexer.dispatched
  · exact .inl hmem
  · have hge : s.indexer.lastLedger ≤ e.ledger := by
      by_contra hlt
      exact hmem (h.complete e he (by omega))
    have hrest : e ∈ s.page := by
      rw [page_eq_rest hpage]
      exact mem_rest.mpr ⟨he.1, he.2.1, hge⟩
    exact .inr (mem_fresh.mpr ⟨hrest, hmem, hthrows e hrest⟩)

theorem mem_pollTimes (h : Tracks first s) (hkeys : DistinctKeys first s)
    (hsparse : Sparse first s) (hhistory : History s.events) (n : Nat)
    (he : e ∈ s.indexer.dispatched) : e ∈ (s.pollTimes n).indexer.dispatched := by
  induction n generalizing s with
  | zero => exact he
  | succ n ih =>
    have hpoll := h.poll_eq hkeys hsparse hhistory fun _ => false
    refine ih (s := s.poll true fun _ => false) (h.poll hkeys hsparse hhistory ?_) hkeys hsparse
      hhistory ?_
    · intro d _ _ hthrows
      cases hthrows
    · rw [hpoll.1]
      exact List.mem_append_left _ he

/-- A full page moves the last ledger on: there is less left to read. -/
theorem Tracks.rest_shrinks (h : Tracks first s) (hkeys : DistinctKeys first s)
    (hsparse : Sparse first s) (hhistory : History s.events) (hfull : ¬ s.page.length < pageLimit)
    (throws : Event → Bool) : (s.poll true throws).rest.length < s.rest.length := by
  have hlast := (h.poll_eq hkeys hsparse hhistory throws).2.2.2
  have hne : s.page ≠ [] := by
    intro hnil
    rw [hnil] at hfull
    exact hfull (by decide)
  obtain ⟨⟨m, hm, hmlast⟩, hupto⟩ := maxLedger_spec hne s.indexer.lastLedger
  rw [← hlast] at hmlast hupto
  obtain ⟨d, hd, hbefore⟩ := h.page_spans hsparse hhistory hfull m.ledger
  have hge := (mem_rest.mp (mem_rest_of_mem_page hm)).2.2
  have hrest : (s.poll true throws).rest =
      s.rest.filter fun e => (s.poll true throws).indexer.lastLedger ≤ e.ledger := by
    unfold System.rest
    rw [List.filter_filter]
    apply List.filter_congr
    intro e _
    rw [← Bool.decide_and]
    refine decide_eq_decide.mpr ⟨?_, ?_⟩
    · rintro ⟨hfilter, hle⟩
      exact ⟨hle, hfilter, by omega⟩
    · rintro ⟨hle, hfilter, _⟩
      exact ⟨hfilter, hle⟩
  rw [hrest, List.length_filter_lt_length_iff_exists]
  refine ⟨d, mem_rest_of_mem_page hd, ?_⟩
  have hle := hupto d hd
  intro hafter
  have hafter := of_decide_eq_true hafter
  omega

/-- Polls that are answered dispatch all there is, one for each event and one more. -/
theorem Tracks.pollTimes (h : Tracks first s) (hkeys : DistinctKeys first s)
    (hsparse : Sparse first s) (hhistory : History s.events) {n : Nat} (hn : s.rest.length < n)
    (he : s.Wanted first e) : e ∈ (s.pollTimes n).indexer.dispatched := by
  induction n generalizing s with
  | zero => omega
  | succ n ih =>
    have hthrows : ThrowsAtEnd s (.poll true fun _ => false) := by
      intro d _ _ hthrows
      cases hthrows
    have hpolled := h.poll hkeys hsparse hhistory hthrows
    have hhistory' : History (s.poll true fun _ => false).events :=
      hhistory
    by_cases hfull : s.page.length < pageLimit
    · have hmem := h.caughtUp hkeys hsparse hhistory hfull (fun _ _ => rfl) he
      exact mem_pollTimes (s := s.poll true fun _ => false) hpolled hkeys hsparse hhistory' n hmem
    · have hless := h.rest_shrinks hkeys hsparse hhistory hfull fun _ => false
      exact ih hpolled hkeys hsparse hhistory' (by omega) he

/-! ## Every run -/

theorem next_cases (h : next s a = some s') :
    (∃ ledger, IsNextLedger s.events ledger ∧ s' = { s with events := s.events ++ ledger }) ∨
      ∃ answered throws, a = .poll answered throws ∧ s' = s.poll answered throws := by
  cases a with
  | close ledger =>
    have h : (if IsNextLedger s.events ledger then some { s with events := s.events ++ ledger }
        else none) = some s' := h
    split at h
    · next hnext => exact .inl ⟨ledger, hnext, (Option.some.inj h).symm⟩
    · cases h
  | poll answered throws => exact .inr ⟨answered, throws, rfl, (Option.some.inj h).symm⟩

theorem History.move (h : History s.events) (hn : next s a = some s') : History s'.events := by
  obtain ⟨ledger, hnext, rfl⟩ | ⟨answered, throws, _, rfl⟩ := next_cases hn
  · exact h.close hnext
  · exact h

theorem Tracks.move (h : Tracks first s) (hkeys : DistinctKeys first s) (hsparse : Sparse first s)
    (hhistory : History s.events) (hthrows : ThrowsAtEnd s a) (hn : next s a = some s') :
    Tracks first s' := by
  obtain ⟨ledger, hnext, rfl⟩ | ⟨answered, throws, rfl, rfl⟩ := next_cases hn
  · exact h.close hnext
  · exact h.poll hkeys hsparse hhistory hthrows

/-- The history only grows. -/
theorem events_grow {xs : List (Step System Action)} (h : Run next s xs s') :
    s.known = s'.known ∧ s.events <+: s'.events := by
  induction h with
  | nil s => exact ⟨rfl, List.prefix_refl _⟩
  | cons hn _ ih =>
    obtain ⟨ledger, _, rfl⟩ | ⟨answered, throws, _, rfl⟩ := next_cases hn
    · exact ⟨ih.1, (List.prefix_append ..).trans ih.2⟩
    · exact ih

theorem wanted_later (hknown : s.known = s'.known) (hevents : s.events <+: s'.events)
    (h : s.Wanted first e) : s'.Wanted first e := by
  obtain ⟨hmem, hfilter, hle⟩ := h
  rw [hknown] at hfilter
  exact ⟨hevents.subset hmem, hfilter, hle⟩

theorem DistinctKeys.earlier (h : DistinctKeys first s') (hknown : s.known = s'.known)
    (hevents : s.events <+: s'.events) : DistinctKeys first s := by
  intro d hd e he hwd hwe
  exact h d (hevents.subset hd) e (hevents.subset he) (wanted_later hknown hevents hwd)
    (wanted_later hknown hevents hwe)

theorem Sparse.earlier (h : Sparse first s') (hknown : s.known = s'.known)
    (hevents : s.events <+: s'.events) : Sparse first s := by
  intro e he hwanted
  have hbound := h e (hevents.subset he) (wanted_later hknown hevents hwanted)
  have hle : (s.events.filter fun d => s.Wanted first d ∧ d.ledger = e.ledger).length ≤
      (s'.events.filter fun d => s'.Wanted first d ∧ d.ledger = e.ledger).length := by
    have hsame : s.events.filter (fun d => s.Wanted first d ∧ d.ledger = e.ledger) =
        s.events.filter (fun d => s'.Wanted first d ∧ d.ledger = e.ledger) := by
      apply List.filter_congr
      intro d hd
      refine decide_eq_decide.mpr ⟨?_, ?_⟩
      · rintro ⟨hwd, hledger⟩
        exact ⟨wanted_later hknown hevents hwd, hledger⟩
      · rintro ⟨⟨_, hfilter, hle⟩, hledger⟩
        rw [← hknown] at hfilter
        exact ⟨⟨hd, hfilter, hle⟩, hledger⟩
    rw [hsame]
    exact (hevents.sublist.filter _).length_le
  omega

theorem tracks_start (known : List Nat) (hfirst : first ≠ 0) :
    Tracks first (start known first) ∧ History (start known first).events := by
  constructor
  · constructor
    case running => rfl
    case first_le => exact le_refl _
    case nonzero => exact hfirst
    case last => exact .inl rfl
    case nodup => exact List.nodup_nil
    case sorted => exact List.Pairwise.nil
    case wanted => exact fun e he => absurd he List.not_mem_nil
    case complete => exact fun e he _ => absurd he.1 List.not_mem_nil
    case cache => exact (List.rtake_nil cacheLimit).symm
  · exact ⟨List.Pairwise.nil, List.nodup_nil, fun e he => absurd he List.not_mem_nil⟩

theorem History.injective (h : History s.events) (he : e ∈ s.events) (hd : d ∈ s.events)
    (hid : e.id = d.id) : e = d := List.inj_on_of_nodup_map h.nodup he hd hid

/-- When keys tell the events apart, no ledger fills a page, and handlers throw at the end of a page
    only, each event is delivered exactly once. -/
theorem delivers_exactly_once {known : List Nat} {xs : List (Step System Action)}
    (h : PollRun known first xs s) (hfirst : first ≠ 0) (hkeys : DistinctKeys first s)
    (hsparse : Sparse first s) (hthrows : ∀ step ∈ xs, ThrowsAtEnd step.pre step.act) :
    DeliversOnce first xs s := by
  have hlater : ∀ step ∈ xs, DistinctKeys first step.pre ∧ Sparse first step.pre := by
    intro step hstep
    obtain ⟨ys, zs, rfl⟩ := List.append_of_mem hstep
    obtain ⟨_, hn, hzs⟩ := run_split.mp h
    obtain ⟨hknown, hevents⟩ := events_grow (.cons hn hzs)
    exact ⟨hkeys.earlier hknown hevents, hsparse.earlier hknown hevents⟩
  have hmove : ∀ step ∈ xs, next step.pre step.act = some step.post →
      Tracks first step.pre ∧ History step.pre.events →
        Tracks first step.post ∧ History step.post.events := by
    rintro step hstep hn ⟨htracks, hhistory⟩
    obtain ⟨hkeys', hsparse'⟩ := hlater step hstep
    exact ⟨htracks.move hkeys' hsparse' hhistory (hthrows step hstep) hn, hhistory.move hn⟩
  obtain ⟨htracks, hhistory⟩ := h.invariant (fun s => Tracks first s ∧ History s.events)
    (tracks_start known hfirst) hmove
  constructor
  case once =>
    apply List.Nodup.map_on _ htracks.nodup
    intro d hd e he hid
    exact hhistory.injective (htracks.wanted d hd).1.1 (htracks.wanted e he).1.1 hid
  case caughtUp =>
    intro step hstep hcatches e hwanted
    obtain ⟨hn, ⟨hpre, hhistory'⟩, _⟩ :=
      h.steps_invariant (fun s => Tracks first s ∧ History s.events)
        (tracks_start known hfirst) hmove step hstep
    obtain ⟨hkeys', hsparse'⟩ := hlater step hstep
    cases hact : step.act with
    | close ledger =>
      rw [hact] at hcatches
      exact hcatches.elim
    | poll answered throws =>
      rw [hact] at hcatches hn
      obtain ⟨rfl, hpage, hquiet⟩ := hcatches
      rw [← Option.some.inj hn] at hwanted ⊢
      exact hpre.caughtUp hkeys' hsparse' hhistory' hpage hquiet hwanted
  case eventually =>
    intro n hn e hwanted
    apply htracks.pollTimes hkeys hsparse hhistory _ hwanted
    have hle : s.rest.length ≤ s.events.length := List.length_filter_le _ _
    omega

/-- Three transactions in two ledgers; the handler of the last event throws in the first poll. -/
def polledTwice : List Action :=
  [.close [contractEvent 0 10 5, contractEvent 1 11 5], .poll true fun _ => false,
    .close [contractEvent 2 12 6], .poll true fun e => e.id = 2, .poll true fun _ => false]

theorem delivers_exactly_once_sample :
    (replay next (start [7] 5) polledTwice).2.indexer.dispatched.map Event.id = [0, 1, 2] ∧
      DeliversOnce 5 (replay next (start [7] 5) polledTwice).1
        (replay next (start [7] 5) polledTwice).2 := by
  have hrun : PollRun [7] 5 _ _ := run_replay next (start [7] 5) polledTwice
  exact ⟨by decide +kernel, delivers_exactly_once hrun (by decide) (by decide +kernel)
    (by decide +kernel) (by decide +kernel)⟩

/-- One transaction with two events. -/
def twoEvents : List Action := [.close [contractEvent 0 10 5, contractEvent 1 10 5]]

/-- The handler of the first event throws, and the second event is of a later ledger. -/
def thrownBefore : List Action :=
  [.close [contractEvent 0 10 5], .close [contractEvent 1 11 6], .poll true fun e => e.id = 0]

theorem second_event_lost :
    (∃ xs s, PollRun [7] 5 xs s ∧ ¬ DeliversOnce 5 xs s) ∧
      ∃ xs s, PollRun [7] 5 xs s ∧ DistinctKeys 5 s ∧ ¬ DeliversOnce 5 xs s := by
  have htwo : PollRun [7] 5 _ _ := run_replay next (start [7] 5) twoEvents
  have hthrown : PollRun [7] 5 _ _ := run_replay next (start [7] 5) thrownBefore
  have hlost : contractEvent 1 10 5 ∉
      ((replay next (start [7] 5) twoEvents).2.pollTimes 3).indexer.dispatched := by
    decide +kernel
  have hlost' : contractEvent 0 10 5 ∉
      ((replay next (start [7] 5) thrownBefore).2.pollTimes 3).indexer.dispatched := by
    decide +kernel
  constructor
  · refine ⟨_, _, htwo, fun hdelivers => hlost ?_⟩
    exact hdelivers.eventually 3 (by decide +kernel) _ (by decide +kernel)
  · refine ⟨_, _, hthrown, by decide +kernel, fun hdelivers => hlost' ?_⟩
    exact hdelivers.eventually 3 (by decide +kernel) _ (by decide +kernel)

end AgriFi.EventIndexer
