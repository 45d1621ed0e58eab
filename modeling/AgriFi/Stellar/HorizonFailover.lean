import AgriFi.Runs
import AgriFi.Threads
import Mathlib.Data.Finset.Card
import Mathlib.Data.List.Nodup
import Mathlib.Data.Nat.ModEq
import Mathlib.Logic.Function.Basic

/-
  `HorizonFailoverClient`. Calls share the index of the active node; the function given to a call
  runs between the start of an attempt and its outcome, beside any other call. A node is a place in
  the list of URLs. A call whose attempts no other call's failover falls between goes round the
  list once (`Goes`).
-/

namespace AgriFi.HorizonFailover

open AgriFi.Runs AgriFi.Threads

/-- What a call of the node throws: its message if it is an `Error`, `String(err)`, and
    `err.response.status`. -/
structure Thrown where
  message : Option String
  text : String
  status : Option Nat
  deriving DecidableEq

/-- The network-level failures. -/
def networkFailures : List String :=
  ["ECONNREFUSED", "ECONNRESET", "ETIMEDOUT", "ENOTFOUND", "socket hang up", "network timeout"]

/-- `message.includes(text)`. -/
def includes (message text : String) : Bool := decide (text.toList <:+: message.toList)

def isRetryable (err : Thrown) : Bool :=
  (match err.message with
    | some message => networkFailures.any (includes message)
    | none => false) ||
    err.status = some 429 || err.status = some 503

/-- `NodeHealthStatus` of a URL. -/
structure NodeHealthStatus where
  url : String
  healthy : Bool
  lastLatencyMs : Option Nat
  lastErrorAt : Option Nat
  lastError : Option String
  checkedAt : Nat

def NodeHealthStatus.succeeded (status : NodeHealthStatus) (latencyMs now : Nat) :
    NodeHealthStatus :=
  { status with
    healthy := true
    lastLatencyMs := some latencyMs
    checkedAt := now
    lastError := none }

def NodeHealthStatus.failed (status : NodeHealthStatus) (err : Thrown) (now : Nat) :
    NodeHealthStatus :=
  { status with
    healthy := false
    lastErrorAt := some now
    lastError := some (err.message.getD err.text)
    checkedAt := now }

inductive Phase where
  /-- An attempt is in progress against the server of a node. -/
  | waiting (node startTime : Nat)
  | returned
  | thrown (err : Thrown)
  deriving DecidableEq

/-- An invocation of `call`: the loop variable, and the nodes that it was attempted against. -/
structure Call where
  attempt : Nat
  phase : Phase
  attempts : List Nat
  deriving DecidableEq

structure State where
  currentIndex : Nat
  /-- The node that `this.server` was made for. -/
  server : Nat
  nodeHealth : String → Option NodeHealthStatus
  calls : List Call

inductive Action where
  | call (now : Nat)
  | succeed (i now : Nat)
  | fail (i : Nat) (err : Thrown) (now : Nat)

section Client

variable (urls : List String)

def urlOf (node : Nat) : String := urls.getD node ""

/-- The client that was just made, or one whose calls so far moved it to `start`. -/
def clientAt (start now : Nat) : State :=
  ⟨start, start, fun url => if url ∈ urls then some ⟨url, true, none, none, none, now⟩ else none, []⟩

/-- `status` of the active URL, updated if there is one. -/
def State.record (s : State) (f : NodeHealthStatus → NodeHealthStatus) : State :=
  match s.nodeHealth (urlOf urls s.currentIndex) with
  | some status =>
    { s with
      nodeHealth := Function.update s.nodeHealth (urlOf urls s.currentIndex) (some (f status)) }
  | none => s

def State.advance (s : State) : State :=
  let index := (s.currentIndex + 1) % urls.length
  { s with currentIndex := index, server := index }

/-- The loop after a failed attempt of `c`: the next one, or the end. -/
def State.goOn (s : State) (i : Nat) (c : Call) (err : Thrown) (now : Nat) : State :=
  let next :=
    if c.attempt + 1 < urls.length then
      ⟨c.attempt + 1, .waiting s.server now, c.attempts ++ [s.server]⟩
    else { c with phase := .thrown err }
  { s with calls := s.calls.set i next }

def next (s : State) : Action → Option State
  | .call now =>
    some { s with calls := s.calls ++ [⟨0, .waiting s.server now, [s.server]⟩] }
  | .succeed i now => do
    let c ← s.calls[i]?
    match c.phase with
    | .waiting _ startTime =>
      let s := s.record urls (·.succeeded (now - startTime) now)
      some { s with calls := s.calls.set i { c with phase := .returned } }
    | _ => none
  | .fail i err now => do
    let c ← s.calls[i]?
    match c.phase with
    | .waiting _ _ =>
      if isRetryable err then
        some (((s.record urls (·.failed err now)).advance urls).goOn urls i c err now)
      else some { s with calls := s.calls.set i { c with phase := .thrown err } }
    | _ => none

end Client

/-! ## Going round -/

/-- `m` nodes of `n`, one after another from `first`. -/
def rotation (n first m : Nat) : List Nat := (List.range m).map fun j => (first + j) % n

section Rotation

variable {n first m : Nat}

theorem rotation_succ : rotation n first (m + 1) = rotation n first m ++ [(first + m) % n] := by
  simp [rotation, List.range_succ]

theorem rotation_lt (hn : 0 < n) : ∀ a ∈ rotation n first m, a < n := by
  intro a ha
  obtain ⟨j, -, rfl⟩ := List.mem_map.mp ha
  exact Nat.mod_lt _ hn

theorem rotation_nodup (hm : m ≤ n) : (rotation n first m).Nodup := by
  refine List.Nodup.map_on (fun j hj k hk heq => ?_) List.nodup_range
  have hmod : j ≡ k [MOD n] := Nat.ModEq.add_left_cancel' first heq
  have hjn : j < n := Nat.lt_of_lt_of_le (List.mem_range.mp hj) hm
  have hkn : k < n := Nat.lt_of_lt_of_le (List.mem_range.mp hk) hm
  exact hmod.eq_of_lt_of_lt hjn hkn

/-- Once round, every node was there. -/
theorem mem_rotation {node : Nat} (hnode : node < n) : node ∈ rotation n first n := by
  have hsub : (rotation n first n).toFinset ⊆ Finset.range n := fun a ha =>
    Finset.mem_range.mpr (rotation_lt (Nat.zero_lt_of_lt hnode) a (List.mem_toFinset.mp ha))
  have hcard : (Finset.range n).card ≤ (rotation n first n).toFinset.card := by
    rw [List.toFinset_card_of_nodup (rotation_nodup (Nat.le_refl n))]
    simp [rotation]
  have heq := Finset.eq_of_subset_of_card_le hsub hcard
  exact List.mem_toFinset.mp (heq ▸ Finset.mem_range.mpr hnode)

end Rotation

/-! ## What a step does -/

section Steps

variable {urls : List String} {s s' : State} {a : Action}

/-- The active URL's status. -/
def State.Ready (urls : List String) (s : State) : Prop :=
  s.currentIndex < urls.length ∧ s.server = s.currentIndex ∧
    ∀ url ∈ urls, ∃ status, s.nodeHealth url = some status

theorem urlOf_mem {node : Nat} (h : node < urls.length) : urlOf urls node ∈ urls := by
  rw [urlOf, List.getD_eq_getElem?_getD, List.getElem?_eq_getElem h]
  exact List.getElem_mem h

/-- The health entries after an attempt against the active node. -/
theorem record_eq (h : s.Ready urls) (f : NodeHealthStatus → NodeHealthStatus) :
    ∃ status, s.nodeHealth (urlOf urls s.currentIndex) = some status ∧
      s.record urls f = { s with
        nodeHealth := Function.update s.nodeHealth (urlOf urls s.currentIndex)
          (some (f status)) } := by
  obtain ⟨hindex, -, hhealth⟩ := h
  obtain ⟨status, hstatus⟩ := hhealth _ (urlOf_mem hindex)
  exact ⟨status, hstatus, by simp [State.record, hstatus]⟩

theorem State.Ready.update {calls : List Call} (h : s.Ready urls) (url : String)
    (status : NodeHealthStatus) :
    State.Ready urls ⟨s.currentIndex, s.server,
      Function.update s.nodeHealth url (some status), calls⟩ := by
  refine ⟨h.1, h.2.1, fun u hu => ?_⟩
  by_cases heq : u = url
  · exact ⟨status, by simp [heq]⟩
  · obtain ⟨status', h'⟩ := h.2.2 u hu
    exact ⟨status', by simp [heq, h']⟩

/-- What each action does where the client is ready. -/
theorem next_cases (h : next urls s a = some s') (hready : s.Ready urls) :
    (∃ now, a = .call now ∧
      s' = { s with calls := s.calls ++ [⟨0, .waiting s.server now, [s.server]⟩] }) ∨
    ∃ j c node startTime, s.calls[j]? = some c ∧ c.phase = .waiting node startTime ∧
      ∃ status, s.nodeHealth (urlOf urls s.currentIndex) = some status ∧
      ((∃ now, a = .succeed j now ∧ s' = ⟨s.currentIndex, s.server,
          Function.update s.nodeHealth (urlOf urls s.currentIndex)
            (some (status.succeeded (now - startTime) now)),
          s.calls.set j { c with phase := .returned }⟩) ∨
        ∃ err now, a = .fail j err now ∧
          (isRetryable err = false ∧
              s' = { s with calls := s.calls.set j { c with phase := .thrown err } } ∨
            isRetryable err = true ∧ s' = (State.advance urls ⟨s.currentIndex, s.server,
              Function.update s.nodeHealth (urlOf urls s.currentIndex)
                (some (status.failed err now)), s.calls⟩).goOn urls j c err now)) := by
  cases a with
  | call now => exact .inl ⟨now, rfl, (Option.some.inj h).symm⟩
  | succeed j now =>
    obtain ⟨c, hc, h⟩ := Option.bind_eq_some_iff.mp h
    obtain ⟨attempt, phase, attempts⟩ := c
    cases phase <;> simp only [reduceCtorEq] at h
    next node startTime =>
      obtain ⟨status, hstatus, hrecord⟩ := record_eq hready (·.succeeded (now - startTime) now)
      rw [hrecord] at h
      exact .inr ⟨j, _, node, startTime, hc, rfl, status, hstatus, .inl ⟨now, rfl,
        (Option.some.inj h).symm⟩⟩
  | fail j err now =>
    obtain ⟨c, hc, h⟩ := Option.bind_eq_some_iff.mp h
    obtain ⟨attempt, phase, attempts⟩ := c
    cases phase <;> simp only [reduceCtorEq] at h
    next node startTime =>
      obtain ⟨status, hstatus, hrecord⟩ := record_eq hready (·.failed err now)
      rw [hrecord] at h
      refine .inr ⟨j, _, node, startTime, hc, rfl, status, hstatus, .inr ⟨err, now, rfl, ?_⟩⟩
      split at h
      · next hretry => exact .inr ⟨hretry, (Option.some.inj h).symm⟩
      · next hfatal => exact .inl ⟨by simpa using hfatal, (Option.some.inj h).symm⟩

theorem State.Ready.next (hready : s.Ready urls) (h : next urls s a = some s') : s'.Ready urls := by
  rcases next_cases h hready with ⟨now, -, rfl⟩ | ⟨j, c, node, startTime, -, -, status, -,
    ⟨now, -, rfl⟩ | ⟨err, now, -, ⟨-, rfl⟩ | ⟨-, rfl⟩⟩⟩
  · exact hready
  · exact State.Ready.update hready _ _
  · exact hready
  · have hupdate := @State.Ready.update _ _ s.calls hready (urlOf urls s.currentIndex)
      (status.failed err now)
    exact ⟨Nat.mod_lt _ (Nat.zero_lt_of_lt hready.1), rfl, hupdate.2.2⟩

theorem ready_clientAt {start now : Nat} (h : start < urls.length) :
    (clientAt urls start now).Ready urls :=
  ⟨h, rfl, fun _ hurl => ⟨_, if_pos hurl⟩⟩

end Steps

/-! ## A call that no other one disturbs -/

/-- The call went round from `first`, and is at the active node while it waits. -/
def Goes (n index : Nat) (c : Call) : Prop :=
  ∃ first m, c.attempts = rotation n first m ∧ m ≤ n ∧
    match c.phase with
    | .waiting node _ => node = index ∧ m = c.attempt + 1 ∧ index = (first + c.attempt) % n
    | .returned => True
    | .thrown err => isRetryable err = true → m = n

/-- No other call fails over while `i` waits. -/
def Undisturbed (i : Nat) (x : Step State Action) : Prop :=
  ∀ j err now, x.act = .fail j err now → isRetryable err = true → j ≠ i →
    ∀ (c : Call), x.pre.calls[i]? = some c → ∀ node startTime, c.phase ≠ .waiting node startTime

/-- What the attempts of a call have in common. -/
structure Tried (n : Nat) (c : Call) : Prop where
  nodup : c.attempts.Nodup
  nodes : ∀ a ∈ c.attempts, a < n
  /-- Unless it threw an error that is not retried, at once, it tried them all. -/
  all : ∀ err, c.phase = .thrown err → isRetryable err = true → ∀ node < n, node ∈ c.attempts

/-- The outcome of an attempt of `i` goes to the entry of the node of the attempt; an error that is
    not retried goes to none. -/
def Recorded (urls : List String) (i : Nat) (x : Step State Action) : Prop :=
  ∀ (c : Call) node startTime, x.pre.calls[i]? = some c → c.phase = .waiting node startTime →
    ∃ status, x.pre.nodeHealth (urlOf urls node) = some status ∧
      (∀ now, x.act = .succeed i now → x.post.nodeHealth =
        Function.update x.pre.nodeHealth (urlOf urls node)
          (some (status.succeeded (now - startTime) now))) ∧
      ∀ err now, x.act = .fail i err now → x.post.nodeHealth =
        if isRetryable err then
          Function.update x.pre.nodeHealth (urlOf urls node) (some (status.failed err now))
        else x.pre.nodeHealth

section Runs

variable {urls : List String} {s s' : State} {a : Action} {i : Nat}

theorem Goes.tried {n index : Nat} {c : Call} (hn : 0 < n) (h : Goes n index c) : Tried n c := by
  obtain ⟨first, m, hattempts, hm, hphase⟩ := h
  refine ⟨hattempts ▸ rotation_nodup hm, hattempts ▸ rotation_lt hn, fun err herr hretry => ?_⟩
  rw [herr] at hphase
  obtain rfl := hphase hretry
  exact fun node hnode => hattempts ▸ mem_rotation hnode

/-- A call that ended stays as it is. -/
theorem Goes.of_ended {n index index' : Nat} {c : Call} (h : Goes n index c)
    (hended : ∀ node startTime, c.phase ≠ .waiting node startTime) : Goes n index' c := by
  obtain ⟨first, m, hattempts, hm, hphase⟩ := h
  refine ⟨first, m, hattempts, hm, ?_⟩
  cases hc : c.phase with
  | waiting node startTime => exact absurd hc (hended node startTime)
  | returned => trivial
  | thrown err =>
    rw [hc] at hphase
    exact hphase

theorem Goes.end {n index : Nat} {c : Call} {p : Phase} (h : Goes n index c)
    (hp : p = .returned ∨ ∃ err, p = .thrown err ∧ isRetryable err = false) :
    Goes n index { c with phase := p } := by
  obtain ⟨first, m, hattempts, hm, -⟩ := h
  refine ⟨first, m, hattempts, hm, ?_⟩
  rcases hp with rfl | ⟨err, rfl, herr⟩
  · trivial
  · intro hretry
    rw [herr] at hretry
    cases hretry

/-- After a failover the call goes to the next node, or has been everywhere. -/
theorem Goes.failover {n index : Nat} {c : Call} {node startTime now : Nat} {err : Thrown}
    (h : Goes n index c) (hc : c.phase = .waiting node startTime) (hindex : index < n) :
    Goes n ((index + 1) % n) (if c.attempt + 1 < n then
      ⟨c.attempt + 1, .waiting ((index + 1) % n) now, c.attempts ++ [(index + 1) % n]⟩
      else { c with phase := .thrown err }) := by
  obtain ⟨first, m, hattempts, hm, hphase⟩ := h
  rw [hc] at hphase
  obtain ⟨rfl, rfl, hat⟩ := hphase
  have hnext : (node + 1) % n = (first + (c.attempt + 1)) % n := by
    rw [hat, Nat.mod_add_mod, Nat.add_assoc]
  split
  · next hlt =>
    refine ⟨first, c.attempt + 2, ?_, hlt, rfl, rfl, hnext⟩
    rw [hattempts, hnext, ← rotation_succ]
  · next hge => exact ⟨first, c.attempt + 1, hattempts, hm, fun _ => by omega⟩

theorem Goes.start {n index now : Nat} (hindex : index < n) :
    Goes n index ⟨0, .waiting index now, [index]⟩ :=
  ⟨index, 1, by simp [rotation, Nat.mod_eq_of_lt hindex], by omega, rfl, rfl,
    (Nat.mod_eq_of_lt hindex).symm⟩

/-- One step: the call `i` moves, or another one that does not disturb it. -/
theorem goes_next (hready : s.Ready urls) (h : next urls s a = some s')
    (hundisturbed : Undisturbed i ⟨s, a, s'⟩)
    (hgoes : ∀ (c : Call), s.calls[i]? = some c → Goes urls.length s.currentIndex c) :
    ∀ (c : Call), s'.calls[i]? = some c → Goes urls.length s'.currentIndex c := by
  rcases next_cases h hready with ⟨now, -, rfl⟩ | ⟨j, c, node, startTime, hc, hphase, status, -,
    ⟨now, -, rfl⟩ | ⟨err, now, hact, ⟨hfatal, rfl⟩ | ⟨hretry, rfl⟩⟩⟩
  · intro d hd
    rcases getElem?_append_cases hd with hd | rfl
    · exact hgoes d hd
    · rw [hready.2.1]
      exact Goes.start hready.1
  · intro d hd
    rcases getElem?_set_cases hd with ⟨rfl, rfl⟩ | ⟨-, hd⟩
    · exact (hgoes c hc).end (.inl rfl)
    · exact hgoes d hd
  · intro d hd
    rcases getElem?_set_cases hd with ⟨rfl, rfl⟩ | ⟨-, hd⟩
    · exact (hgoes c hc).end (.inr ⟨err, rfl, hfatal⟩)
    · exact hgoes d hd
  · intro d hd
    rcases getElem?_set_cases hd with ⟨rfl, rfl⟩ | ⟨hne, hd⟩
    · exact (hgoes c hc).failover hphase hready.1
    · exact (hgoes d hd).of_ended (hundisturbed j err now hact hretry (Ne.symm hne) d hd)

theorem recorded_of_goes (hready : s.Ready urls) (h : next urls s a = some s')
    (hgoes : ∀ (c : Call), s.calls[i]? = some c → Goes urls.length s.currentIndex c) :
    Recorded urls i ⟨s, a, s'⟩ := by
  intro c node startTime hc hphase
  obtain ⟨_, _, _, _, hwaits⟩ := hgoes c hc
  rw [hphase] at hwaits
  obtain ⟨rfl, -⟩ := hwaits
  obtain ⟨status, hstatus⟩ := hready.2.2 _ (urlOf_mem hready.1)
  refine ⟨status, hstatus, ?_, ?_⟩
  · rintro now rfl
    rcases next_cases h hready with ⟨_, hact, -⟩ | ⟨j, d, node', startTime', hd, hphase', status',
      hstatus', ⟨now', hact, rfl⟩ | ⟨err, now', hact, -⟩⟩
    · cases hact
    · cases hact
      obtain rfl := Option.some.inj (hc.symm.trans hd)
      obtain ⟨rfl, rfl⟩ := Phase.waiting.inj (hphase.symm.trans hphase')
      obtain rfl := Option.some.inj (hstatus.symm.trans hstatus')
      rfl
    · cases hact
  · rintro err now rfl
    rcases next_cases h hready with ⟨_, hact, -⟩ | ⟨j, d, node', startTime', hd, hphase', status',
      hstatus', ⟨now', hact, -⟩ | ⟨err', now', hact, ⟨hfatal, rfl⟩ | ⟨hretry, rfl⟩⟩⟩
    · cases hact
    · cases hact
    · cases hact
      simp [hfatal]
    · cases hact
      obtain rfl := Option.some.inj (hstatus.symm.trans hstatus')
      rw [if_pos hretry]
      rfl

/-- A call that no other one disturbs tries every node once, and its outcomes are recorded with the
    nodes they come from. -/
theorem call_tries_every_node {start t₀ : Nat} (hstart : start < urls.length)
    {xs : List (Step State Action)} (h : Run (next urls) (clientAt urls start t₀) xs s)
    (hundisturbed : ∀ x ∈ xs, Undisturbed i x) :
    (∀ (c : Call), s.calls[i]? = some c → Tried urls.length c) ∧ ∀ x ∈ xs, Recorded urls i x := by
  let I (s : State) : Prop := s.Ready urls ∧
    ∀ (c : Call), s.calls[i]? = some c → Goes urls.length s.currentIndex c
  have hinit : I (clientAt urls start t₀) := ⟨ready_clientAt hstart, by simp [clientAt]⟩
  have hstep : ∀ x ∈ xs, next urls x.pre x.act = some x.post → I x.pre → I x.post :=
    fun x hx hnext ⟨hready, hgoes⟩ =>
      ⟨hready.next hnext, goes_next hready hnext (hundisturbed x hx) hgoes⟩
  constructor
  · intro c hc
    exact ((h.invariant I hinit hstep).2 c hc).tried (Nat.zero_lt_of_lt hstart)
  · intro x hx
    obtain ⟨hnext, hpre, -⟩ := h.steps_invariant I hinit hstep x hx
    exact recorded_of_goes hpre.1 hnext hpre.2

/-- Two calls on two nodes: the first fails over while the second is in progress, and is not
    disturbed itself. -/
def twoCalls : {acts : List Action //
    (replay (next ["north", "south"]) (clientAt ["north", "south"] 0 0) acts).1.length = 5} :=
  ⟨[.call 1, .call 2, .fail 0 ⟨none, "busy", some 503⟩ 4, .succeed 1 5, .succeed 0 6],
    by decide +kernel⟩

theorem call_tries_every_node_two_calls :
    let r := replay (next ["north", "south"]) (clientAt ["north", "south"] 0 0) twoCalls.1
    (∀ (c : Call), r.2.calls[0]? = some c → Tried 2 c) ∧
      ∀ x ∈ r.1, Recorded ["north", "south"] 0 x := by
  refine call_tries_every_node (by decide) (run_replay _ _ _) fun x hx => ?_
  have hact := act_mem_of_replay x hx
  rintro j err now heq - hj
  rw [heq] at hact
  simp only [twoCalls, List.mem_cons, reduceCtorEq, false_or, Action.fail.injEq, List.not_mem_nil,
    or_false] at hact
  exact absurd hact.1 hj

/-- An error that is not retried is thrown before the second node is tried. -/
theorem fatal_error_stops_the_call :
    let r := replay (next ["north", "south"]) (clientAt ["north", "south"] 0 0)
      [.call 1, .fail 0 ⟨some "bad sequence", "bad sequence", some 400⟩ 2]
    ¬∀ (c : Call), r.2.calls[0]? = some c → ∀ err, c.phase = .thrown err →
      ∀ node < 2, node ∈ c.attempts := by
  intro r h
  have hget : r.2.calls[0]? =
      some ⟨0, .thrown ⟨some "bad sequence", "bad sequence", some 400⟩, [0]⟩ := by
    decide +kernel
  exact absurd (h _ hget _ rfl 1 (by decide)) (by decide)

end Runs

end AgriFi.HorizonFailover
