import AgriFi.Runs
import AgriFi.SocialTrading.StrategySharing
import Mathlib.Data.List.Nodup
import Mathlib.Data.List.Perm.Basic
import Mathlib.Tactic.Linarith

/-
  `frontend/src/lib/social-trading/discussions.ts`: the store of threads and comments and the
  operations on it. Lower case, `trim` and `localeCompare` are parameters.
-/

namespace AgriFi.Discussions

open AgriFi.StrategySharing (hyphenate)

def MAX_REPLY_DEPTH : Nat := 3

/-! ## Data -/

structure DiscussionThread where
  id : String
  scopeType : String
  scopeId : String
  title : String
  body : String
  authorId : String
  authorName : String
  createdAt : String
  updatedAt : String
  lastActivityAt : String
  tags : List String
  pinned : Bool
  flagged : Bool
  moderationReason : Option String
  upvotes : Int
  upvotedBy : List String
  commentCount : Nat

structure DiscussionComment where
  id : String
  threadId : String
  authorId : String
  authorName : String
  body : String
  createdAt : String
  /-- `none` for top-level comments. -/
  parentCommentId : Option String
  depth : Nat
  upvotes : Int
  upvotedBy : List String
  flagged : Bool
  moderationReason : Option String
  edited : Bool
  deriving DecidableEq

structure DiscussionStore where
  threads : List DiscussionThread
  comments : List DiscussionComment

structure ThreadDraft where
  scopeType : String
  scopeId : String
  title : String
  body : String
  authorId : String
  authorName : String
  tags : List String

structure CommentDraft where
  threadId : String
  authorId : String
  authorName : String
  body : String
  parentCommentId : Option String

inductive ModerationTarget where
  | thread (id : String)
  | comment (id : String)

def emptyStore : DiscussionStore := ⟨[], []⟩

structure Locale where
  toLowerCase : String → String
  trim : String → String
  compare : String → String → Int

section Store

variable (locale : Locale)

/-! ## Threads -/

def slug (value : String) : List Char :=
  let text := (hyphenate false (locale.toLowerCase value).toList).dropWhile (· = '-')
  (text.reverse.dropWhile (· = '-')).reverse.take 48

/-- The id of a new thread. -/
def threadId (draft : ThreadDraft) (id : Option String) : String :=
  let title := slug locale draft.title
  let stem := String.ofList (if title = [] then ['t'] else title)
  id.getD s!"thread:{stem}:{draft.scopeId}"

def createThread (draft : ThreadDraft) (at_ : String) (id : Option String) (pinned : Bool) :
    DiscussionThread where
  id := threadId locale draft id
  scopeType := draft.scopeType
  scopeId := draft.scopeId
  title := locale.trim draft.title
  body := locale.trim draft.body
  authorId := draft.authorId
  authorName := draft.authorName
  createdAt := at_
  updatedAt := at_
  lastActivityAt := at_
  tags := (draft.tags.map fun t => locale.toLowerCase (locale.trim t)).filter (· ≠ "")
  pinned := pinned
  flagged := false
  moderationReason := none
  upvotes := 0
  upvotedBy := []
  commentCount := 0

def upsertThread (s : DiscussionStore) (draft : ThreadDraft) (at_ : String) (id : Option String)
    (pinned : Bool) : DiscussionStore :=
  let thread := createThread locale draft at_ id pinned
  { s with threads := thread :: s.threads.filter (·.id ≠ thread.id) }

/-! ## Comments -/

def findComment (comments : List DiscussionComment) (id : String) : Option DiscussionComment :=
  comments.find? (·.id = id)

/-- The loop over the ancestors, while the reply would be too deep. -/
def climb (comments : List DiscussionComment) :
    Nat → Option DiscussionComment → Option DiscussionComment
  | 0, parent => parent
  | _ + 1, none => none
  | fuel + 1, some parent =>
    if MAX_REPLY_DEPTH < parent.depth + 1 then
      climb comments fuel ((parent.parentCommentId.filter (· ≠ "")).bind (findComment comments))
    else some parent

/-- The comment that a reply is put under. -/
def parentOf (s : DiscussionStore) (draft : CommentDraft) : Option DiscussionComment :=
  let parent := (draft.parentCommentId.filter (· ≠ "")).bind (findComment s.comments)
  climb s.comments (s.comments.length + 1) (parent.filter (·.threadId = draft.threadId))

/-- The id of a new comment. -/
def commentId (s : DiscussionStore) (draft : CommentDraft) (id : Option String) : String :=
  let count := toString (s.comments.length + 1)
  let name := (slug locale draft.body).take 12
  let stem := if name = [] then count else String.ofList name
  id.getD s!"comment:{draft.threadId}:{stem}:{count}"

def newComment (s : DiscussionStore) (draft : CommentDraft) (at_ : String) (id : Option String) :
    DiscussionComment where
  id := commentId locale s draft id
  threadId := draft.threadId
  authorId := draft.authorId
  authorName := draft.authorName
  body := locale.trim draft.body
  createdAt := at_
  parentCommentId := (parentOf s draft).map (·.id)
  depth := (parentOf s draft).elim 0 (·.depth + 1)
  upvotes := 0
  upvotedBy := []
  flagged := false
  moderationReason := none
  edited := false

def addComment (s : DiscussionStore) (draft : CommentDraft) (at_ : String) (id : Option String) :
    DiscussionStore :=
  if (s.threads.find? (·.id = draft.threadId)).isNone then s
  else
    { threads := s.threads.map fun t =>
        if t.id = draft.threadId then
          { t with commentCount := t.commentCount + 1, lastActivityAt := at_, updatedAt := at_ }
        else t
      comments := s.comments ++ [newComment locale s draft at_ id] }

def editComment (s : DiscussionStore) (id body at_ : String) : DiscussionStore where
  threads := s.threads.map fun t =>
    match findComment s.comments id with
    | some comment => if t.id = comment.threadId then { t with lastActivityAt := at_ } else t
    | none => t
  comments := s.comments.map fun c =>
    if c.id = id then { c with body := locale.trim body, edited := true } else c

/-! ## Votes, pins and moderation -/

/-- A second vote of a user takes back the first. -/
def toggleVote (upvotedBy : List String) (userId : String) : List String :=
  if userId ∈ upvotedBy then upvotedBy.filter (· ≠ userId) else upvotedBy ++ [userId]

def votesAfter (upvotes : Int) (upvotedBy : List String) (userId : String) : Int :=
  if userId ∈ upvotedBy then upvotes - 1 else upvotes + 1

def voteThread (s : DiscussionStore) (id userId : String) : DiscussionStore :=
  { s with
    threads := s.threads.map fun t =>
      if t.id = id then
        { t with
          upvotedBy := toggleVote t.upvotedBy userId
          upvotes := votesAfter t.upvotes t.upvotedBy userId }
      else t }

def voteComment (s : DiscussionStore) (id userId : String) : DiscussionStore :=
  { s with
    comments := s.comments.map fun c =>
      if c.id = id then
        { c with
          upvotedBy := toggleVote c.upvotedBy userId
          upvotes := votesAfter c.upvotes c.upvotedBy userId }
      else c }

def toggleThreadPin (s : DiscussionStore) (id : String) : DiscussionStore :=
  { s with threads := s.threads.map fun t => if t.id = id then { t with pinned := !t.pinned } else t }

def flagForModeration (s : DiscussionStore) (target : ModerationTarget) (reason at_ : String) :
    DiscussionStore :=
  match target with
  | .thread id =>
    { s with
      threads := s.threads.map fun t =>
        if t.id = id then
          { t with
            flagged := true
            moderationReason := some (locale.trim reason)
            updatedAt := at_ }
        else t }
  | .comment id =>
    { s with
      comments := s.comments.map fun c =>
        if c.id = id then
          { c with
            flagged := true
            moderationReason := some (locale.trim reason) }
        else c }

def resolveModeration (s : DiscussionStore) (target : ModerationTarget) : DiscussionStore :=
  match target with
  | .thread id =>
    { s with
      threads := s.threads.map fun t =>
        if t.id = id then { t with flagged := false, moderationReason := none } else t }
  | .comment id =>
    { s with
      comments := s.comments.map fun c =>
        if c.id = id then { c with flagged := false, moderationReason := none } else c }

inductive Action where
  | upsertThread (draft : ThreadDraft) (at_ : String) (id : Option String) (pinned : Bool)
  | addComment (draft : CommentDraft) (at_ : String) (id : Option String)
  | editComment (id body at_ : String)
  | voteThread (id userId : String)
  | voteComment (id userId : String)
  | toggleThreadPin (id : String)
  | flagForModeration (target : ModerationTarget) (reason at_ : String)
  | resolveModeration (target : ModerationTarget)

def next (s : DiscussionStore) : Action → Option DiscussionStore
  | .upsertThread draft at_ id pinned => some (upsertThread locale s draft at_ id pinned)
  | .addComment draft at_ id => some (addComment locale s draft at_ id)
  | .editComment id body at_ => some (editComment locale s id body at_)
  | .voteThread id userId => some (voteThread s id userId)
  | .voteComment id userId => some (voteComment s id userId)
  | .toggleThreadPin id => some (toggleThreadPin s id)
  | .flagForModeration target reason at_ => some (flagForModeration locale s target reason at_)
  | .resolveModeration target => some (resolveModeration s target)

/-! ## The reply tree -/

inductive CommentNode where
  | node (comment : DiscussionComment) (children : List CommentNode)

/-- The order of time, then of ids. -/
def isBefore (a b : DiscussionComment) : Bool :=
  let time := locale.compare a.createdAt b.createdAt
  time < 0 || time = 0 && locale.compare a.id b.id ≤ 0

/-- The comment of the node that the map has for an id, which is the last one. -/
def nodeOf (ordered : List DiscussionComment) (c : DiscussionComment) : DiscussionComment :=
  (ordered.reverse.find? (·.id = c.id)).getD c

/-- The comment goes under the node of this id. -/
def isUnder (ordered : List DiscussionComment) (id : String) (c : DiscussionComment) : Bool :=
  c.parentCommentId = some id && id ≠ "" && id ≠ c.id && ordered.any (·.id = id)

def childrenOf (ordered : List DiscussionComment) (c : DiscussionComment) :
    List DiscussionComment :=
  (ordered.filter (isUnder ordered c.id)).map (nodeOf ordered)

/-- The node of a comment; `fuel` bounds the length of a path of replies. -/
def build (ordered : List DiscussionComment) : Nat → DiscussionComment → CommentNode
  | 0, c => .node c []
  | fuel + 1, c => .node c ((childrenOf ordered c).map (build ordered fuel))

def isRoot (ordered : List DiscussionComment) (c : DiscussionComment) : Bool :=
  match c.parentCommentId with
  | none => true
  | some id => !isUnder ordered id c

def commentTree (comments : List DiscussionComment) : List CommentNode :=
  let ordered := comments.mergeSort (isBefore locale)
  ((ordered.filter (isRoot ordered)).map (nodeOf ordered)).map
    (build ordered (ordered.length + MAX_REPLY_DEPTH))

def treeDepth : List CommentNode → Nat → Nat
  | [], depth => depth
  | .node _ [] :: nodes, depth => treeDepth nodes depth
  | .node _ (child :: children) :: nodes, depth =>
    max (treeDepth (child :: children) (depth + 1)) (treeDepth nodes depth)

/-- The comments of a tree. -/
def flatten : List CommentNode → List DiscussionComment
  | [] => []
  | .node c children :: nodes => c :: (flatten children ++ flatten nodes)

def threadComments (s : DiscussionStore) (id : String) : List DiscussionComment :=
  s.comments.filter (·.threadId = id)

end Store

end AgriFi.Discussions

/-
  The store of discussions over whole runs. The invariant is kept by every operation whose new
  thread has no comments yet and whose new comment has a new id (`Inv.next`).
-/

namespace AgriFi.Discussions

open AgriFi.Runs

variable {locale : Locale} {s s' : DiscussionStore}

/-! ## The invariant -/

/-- The votes are counted, one for each user. -/
def VotesOk (upvotes : Int) (upvotedBy : List String) : Prop :=
  upvotedBy.Nodup ∧ upvotes = upvotedBy.length

/-- The depth of a comment is that of its place among `comments`. -/
def Placed (comments : List DiscussionComment) (c : DiscussionComment) : Prop :=
  c.depth ≤ MAX_REPLY_DEPTH ∧
    match c.parentCommentId with
    | none => c.depth = 0
    | some id => id ≠ "" ∧ ∃ q ∈ comments, q.id = id ∧ q.threadId = c.threadId ∧
        c.depth = q.depth + 1

def countOf (comments : List DiscussionComment) (id : String) : Nat :=
  (comments.filter (·.threadId = id)).length

structure Inv (s : DiscussionStore) : Prop where
  ids : (s.comments.map (·.id)).Nodup
  counts : ∀ t ∈ s.threads, t.commentCount = countOf s.comments t.id
  threadVotes : ∀ t ∈ s.threads, VotesOk t.upvotes t.upvotedBy
  commentVotes : ∀ c ∈ s.comments, VotesOk c.upvotes c.upvotedBy
  placed : ∀ c ∈ s.comments, Placed s.comments c

theorem inv_emptyStore : Inv emptyStore :=
  ⟨List.nodup_nil, by simp [emptyStore], by simp [emptyStore], by simp [emptyStore],
    by simp [emptyStore]⟩

theorem VotesOk.toggle {upvotes : Int} {upvotedBy : List String} (h : VotesOk upvotes upvotedBy)
    (userId : String) :
    VotesOk (votesAfter upvotes upvotedBy userId) (toggleVote upvotedBy userId) := by
  obtain ⟨hnodup, hcount⟩ := h
  unfold votesAfter toggleVote
  split
  · next hmem =>
    refine ⟨hnodup.filter _, ?_⟩
    have herase : upvotedBy.filter (fun id => decide (id ≠ userId)) = upvotedBy.erase userId := by
      rw [hnodup.erase_eq_filter]
      exact List.filter_congr fun id _ => by by_cases heq : id = userId <;> simp [heq]
    have hpos : 0 < upvotedBy.length := List.length_pos_of_mem hmem
    rw [herase, List.length_erase_of_mem hmem, hcount]
    omega
  · next hmem =>
    refine ⟨List.nodup_append.mpr ⟨hnodup, by simp, ?_⟩, ?_⟩
    · rintro a ha b hb rfl
      exact hmem (List.mem_singleton.mp hb ▸ ha)
    · rw [List.length_append, hcount]
      simp

/-! ## Operations that keep every record's place -/

/-- What an operation on single threads may do. -/
structure KeepsThread (f : DiscussionThread → DiscussionThread) : Prop where
  id : ∀ t, (f t).id = t.id
  count : ∀ t, (f t).commentCount = t.commentCount
  votes : ∀ t, VotesOk t.upvotes t.upvotedBy → VotesOk (f t).upvotes (f t).upvotedBy

structure KeepsComment (g : DiscussionComment → DiscussionComment) : Prop where
  id : ∀ c, (g c).id = c.id
  threadId : ∀ c, (g c).threadId = c.threadId
  parent : ∀ c, (g c).parentCommentId = c.parentCommentId
  depth : ∀ c, (g c).depth = c.depth
  votes : ∀ c, VotesOk c.upvotes c.upvotedBy → VotesOk (g c).upvotes (g c).upvotedBy

theorem keepsThread_id : KeepsThread fun t => t :=
  ⟨fun _ => rfl, fun _ => rfl, fun _ h => h⟩

theorem keepsComment_id : KeepsComment fun c => c :=
  ⟨fun _ => rfl, fun _ => rfl, fun _ => rfl, fun _ => rfl, fun _ h => h⟩

theorem countOf_map {g : DiscussionComment → DiscussionComment} (hg : KeepsComment g)
    (comments : List DiscussionComment) (id : String) :
    countOf (comments.map g) id = countOf comments id := by
  rw [countOf, List.filter_map, List.length_map, countOf]
  congr 2
  exact funext fun c => by simp [hg.threadId]

theorem Placed.map {g : DiscussionComment → DiscussionComment} (hg : KeepsComment g)
    {comments : List DiscussionComment} {c : DiscussionComment} (h : Placed comments c) :
    Placed (comments.map g) (g c) := by
  obtain ⟨hdepth, hparent⟩ := h
  refine ⟨by rw [hg.depth]; exact hdepth, ?_⟩
  rw [hg.parent, hg.depth, hg.threadId]
  cases hp : c.parentCommentId with
  | none => simpa [hp] using hparent
  | some id =>
    rw [hp] at hparent
    obtain ⟨hne, q, hq, hid, hthread, heq⟩ := hparent
    exact ⟨hne, g q, List.mem_map_of_mem hq, by rw [hg.id, hid], by rw [hg.threadId, hthread],
      by rw [hg.depth, heq]⟩

theorem Inv.map (h : Inv s) {f : DiscussionThread → DiscussionThread}
    {g : DiscussionComment → DiscussionComment} (hf : KeepsThread f) (hg : KeepsComment g) :
    Inv ⟨s.threads.map f, s.comments.map g⟩ where
  ids := by
    have hids : (s.comments.map g).map (·.id) = s.comments.map (·.id) := by
      rw [List.map_map]
      exact List.map_congr_left fun c _ => hg.id c
    rw [hids]
    exact h.ids
  counts := List.forall_mem_map.mpr fun t ht => by
    rw [hf.count, hf.id, countOf_map hg]
    exact h.counts t ht
  threadVotes := List.forall_mem_map.mpr fun t ht => hf.votes t (h.threadVotes t ht)
  commentVotes := List.forall_mem_map.mpr fun c hc => hg.votes c (h.commentVotes c hc)
  placed := List.forall_mem_map.mpr fun c hc => (h.placed c hc).map hg

theorem Inv.mapThreads (h : Inv s) {f : DiscussionThread → DiscussionThread}
    (hf : KeepsThread f) : Inv ⟨s.threads.map f, s.comments⟩ := by
  have hmap := h.map hf keepsComment_id
  rwa [List.map_id' s.comments] at hmap

theorem Inv.mapComments (h : Inv s) {g : DiscussionComment → DiscussionComment}
    (hg : KeepsComment g) : Inv ⟨s.threads, s.comments.map g⟩ := by
  have hmap := h.map keepsThread_id hg
  rwa [List.map_id' s.threads] at hmap

/-- An operation on one thread by its id. -/
theorem keepsThread_ite (id : String) {f : DiscussionThread → DiscussionThread}
    (hf : KeepsThread f) : KeepsThread fun t => if t.id = id then f t else t where
  id t := by
    by_cases h : t.id = id
    · simpa [h] using hf.id t
    · simp [h]
  count t := by
    by_cases h : t.id = id
    · simpa [h] using hf.count t
    · simp [h]
  votes t ht := by
    by_cases h : t.id = id
    · simpa [h] using hf.votes t ht
    · simpa [h] using ht

theorem keepsComment_ite (id : String) {g : DiscussionComment → DiscussionComment}
    (hg : KeepsComment g) : KeepsComment fun c => if c.id = id then g c else c where
  id c := by
    by_cases h : c.id = id
    · simpa [h] using hg.id c
    · simp [h]
  threadId c := by
    by_cases h : c.id = id
    · simpa [h] using hg.threadId c
    · simp [h]
  parent c := by
    by_cases h : c.id = id
    · simpa [h] using hg.parent c
    · simp [h]
  depth c := by
    by_cases h : c.id = id
    · simpa [h] using hg.depth c
    · simp [h]
  votes c hc := by
    by_cases h : c.id = id
    · simpa [h] using hg.votes c hc
    · simpa [h] using hc

/-! ## New threads and comments -/

theorem Inv.upsertThread (h : Inv s) {draft : ThreadDraft} {at_ : String} {id : Option String}
    {pinned : Bool} (hfresh : ∀ c ∈ s.comments, c.threadId ≠ threadId locale draft id) :
    Inv (upsertThread locale s draft at_ id pinned) where
  ids := h.ids
  counts t ht := by
    rcases List.mem_cons.mp ht with rfl | ht
    · have hnone : s.comments.filter (·.threadId = threadId locale draft id) = [] :=
        List.filter_eq_nil_iff.mpr fun c hc => by simpa using hfresh c hc
      exact (congrArg List.length hnone).symm
    · exact h.counts t (List.mem_filter.mp ht).1
  threadVotes t ht := by
    rcases List.mem_cons.mp ht with rfl | ht
    · exact ⟨List.nodup_nil, rfl⟩
    · exact h.threadVotes t (List.mem_filter.mp ht).1
  commentVotes := h.commentVotes
  placed := h.placed

theorem findComment_eq_some {comments : List DiscussionComment} {id : String}
    {c : DiscussionComment} (h : findComment comments id = some c) : c ∈ comments ∧ c.id = id :=
  ⟨List.mem_of_find?_eq_some h, by simpa using List.find?_some h⟩

theorem findComment_of_mem {comments : List DiscussionComment}
    (hids : (comments.map (·.id)).Nodup) {q : DiscussionComment} (hq : q ∈ comments) :
    findComment comments q.id = some q := by
  cases hfind : findComment comments q.id with
  | none =>
    have hnone := List.find?_eq_none.mp hfind q hq
    simp at hnone
  | some c =>
    obtain ⟨hc, hid⟩ := findComment_eq_some hfind
    rw [List.inj_on_of_nodup_map hids hc hq hid]

/-- One step up from the deepest level is enough. -/
theorem Inv.climb_cases (h : Inv s) {fuel : Nat} {p : DiscussionComment} (hp : p ∈ s.comments)
    (hpne : p.id ≠ "") :
    ∃ q ∈ s.comments, climb s.comments (fuel + 2) (some p) = some q ∧
      q.threadId = p.threadId ∧ q.depth + 1 ≤ MAX_REPLY_DEPTH ∧ q.id ≠ "" := by
  obtain ⟨hdepth, hparent⟩ := h.placed p hp
  by_cases hdeep : MAX_REPLY_DEPTH < p.depth + 1
  · cases hpp : p.parentCommentId with
    | none =>
      simp only [hpp] at hparent
      rw [hparent] at hdeep
      exact absurd hdeep (by decide)
    | some id =>
      simp only [hpp] at hparent
      obtain ⟨hne, q, hq, rfl, hthread, heq⟩ := hparent
      have hqdepth : q.depth + 1 ≤ MAX_REPLY_DEPTH := heq ▸ hdepth
      refine ⟨q, hq, ?_, hthread, hqdepth, hne⟩
      rw [climb, if_pos hdeep, hpp]
      have hsome : (some q.id).filter (· ≠ "") = some q.id := by simp [hne]
      rw [hsome, Option.bind_some, findComment_of_mem h.ids hq, climb, if_neg (by omega)]
  · exact ⟨p, hp, by rw [climb, if_neg hdeep], rfl, by omega, hpne⟩

/-- A reply goes under a comment of its thread, at most at the last level but one. -/
theorem Inv.parentOf_eq_some (h : Inv s) {draft : CommentDraft} {q : DiscussionComment}
    (hq : parentOf s draft = some q) :
    q ∈ s.comments ∧ q.threadId = draft.threadId ∧ q.depth + 1 ≤ MAX_REPLY_DEPTH ∧ q.id ≠ "" := by
  unfold parentOf at hq
  cases hparent : ((draft.parentCommentId.filter (· ≠ "")).bind (findComment s.comments)).filter
      (·.threadId = draft.threadId) with
  | none =>
    simp only [hparent] at hq
    rw [climb] at hq
    cases hq
  | some p =>
    simp only [hparent] at hq
    obtain ⟨hfound, hthread⟩ := Option.filter_eq_some_iff.mp hparent
    obtain ⟨id, hid, hfind⟩ := Option.bind_eq_some_iff.mp hfound
    obtain ⟨hp, rfl⟩ := findComment_eq_some hfind
    have hpne : p.id ≠ "" := by simpa using (Option.filter_eq_some_iff.mp hid).2
    obtain ⟨fuel, hfuel⟩ : ∃ fuel, s.comments.length + 1 = fuel + 2 :=
      ⟨s.comments.length - 1, by have := List.length_pos_of_mem hp; omega⟩
    rw [hfuel] at hq
    obtain ⟨q', hq', hclimb, hthread', hdepth, hne⟩ := @Inv.climb_cases _ h fuel _ hp hpne
    obtain rfl := Option.some.inj (hclimb.symm.trans hq)
    exact ⟨hq', hthread'.trans (by simpa using hthread), hdepth, hne⟩

theorem Placed.append {comments : List DiscussionComment} {c : DiscussionComment}
    (h : Placed comments c) (x : DiscussionComment) : Placed (comments ++ [x]) c := by
  refine ⟨h.1, ?_⟩
  have hparent := h.2
  cases hp : c.parentCommentId with
  | none => simpa [hp] using hparent
  | some id =>
    simp only [hp] at hparent ⊢
    obtain ⟨hne, q, hq, hrest⟩ := hparent
    exact ⟨hne, q, List.mem_append_left _ hq, hrest⟩

theorem Inv.addComment (h : Inv s) {draft : CommentDraft} {at_ : String} {id : Option String}
    (hfresh : ∀ c ∈ s.comments, c.id ≠ commentId locale s draft id) :
    Inv (addComment locale s draft at_ id) := by
  unfold Discussions.addComment
  split
  · exact h
  · refine ⟨?_, ?_, ?_, ?_, ?_⟩
    · rw [List.map_append, List.nodup_append]
      refine ⟨h.ids, by simp, ?_⟩
      rintro a ha b hb rfl
      obtain ⟨c, hc, rfl⟩ := List.mem_map.mp ha
      exact hfresh c hc (by simpa [newComment] using hb)
    · refine List.forall_mem_map.mpr fun t ht => ?_
      have hcount := h.counts t ht
      have hsplit : countOf (s.comments ++ [newComment locale s draft at_ id]) t.id =
          countOf s.comments t.id + if t.id = draft.threadId then 1 else 0 := by
        rw [countOf, List.filter_append, List.length_append, countOf]
        by_cases heq : t.id = draft.threadId
        · simp [newComment, heq]
        · simp [newComment, heq, Ne.symm heq]
      by_cases heq : t.id = draft.threadId
      · simp only [heq, if_true] at hsplit ⊢
        rw [hsplit, hcount, heq]
      · simp only [heq, if_false, Nat.add_zero] at hsplit ⊢
        rw [hsplit, hcount]
    · refine List.forall_mem_map.mpr fun t ht => ?_
      by_cases heq : t.id = draft.threadId
      · simpa [heq] using h.threadVotes t ht
      · simpa [heq] using h.threadVotes t ht
    · intro c hc
      rcases List.mem_append.mp hc with hc | hc
      · exact h.commentVotes c hc
      · obtain rfl := List.mem_singleton.mp hc
        exact ⟨List.nodup_nil, rfl⟩
    · intro c hc
      rcases List.mem_append.mp hc with hc | hc
      · exact (h.placed c hc).append _
      · obtain rfl := List.mem_singleton.mp hc
        cases hparent : parentOf s draft with
        | none => exact ⟨by simp [newComment, hparent], by simp [newComment, hparent]⟩
        | some q =>
          obtain ⟨hq, hthread, hdepth, hne⟩ := h.parentOf_eq_some hparent
          refine ⟨by simpa [newComment, hparent] using hdepth, ?_⟩
          simp only [newComment, hparent, Option.map_some, Option.elim_some]
          exact ⟨hne, q, List.mem_append_left _ hq, rfl, hthread, rfl⟩

/-! ## Steps -/

/-- A new thread has no comments yet, and a new comment has a new id. -/
def Fresh (locale : Locale) (x : Step DiscussionStore Action) : Prop :=
  match x.act with
  | .upsertThread draft _ id _ => ∀ c ∈ x.pre.comments, c.threadId ≠ threadId locale draft id
  | .addComment draft _ id => ∀ c ∈ x.pre.comments, c.id ≠ commentId locale x.pre draft id
  | _ => True

theorem Inv.next (h : Inv s) {a : Action} (hnext : next locale s a = some s')
    (hfresh : Fresh locale ⟨s, a, s'⟩) : Inv s' := by
  cases a with
  | upsertThread draft at_ id pinned =>
    obtain rfl := Option.some.inj hnext
    exact h.upsertThread hfresh
  | addComment draft at_ id =>
    obtain rfl := Option.some.inj hnext
    exact h.addComment hfresh
  | editComment id body at_ =>
    obtain rfl := Option.some.inj hnext
    refine h.map ?_ (keepsComment_ite id ⟨fun _ => rfl, fun _ => rfl, fun _ => rfl, fun _ => rfl,
      fun _ hc => hc⟩)
    cases findComment s.comments id with
    | none => exact keepsThread_id
    | some c => exact keepsThread_ite c.threadId ⟨fun _ => rfl, fun _ => rfl, fun _ ht => ht⟩
  | voteThread id userId =>
    obtain rfl := Option.some.inj hnext
    exact h.mapThreads (keepsThread_ite id ⟨fun _ => rfl, fun _ => rfl, fun _ ht =>
      ht.toggle userId⟩)
  | voteComment id userId =>
    obtain rfl := Option.some.inj hnext
    exact h.mapComments (keepsComment_ite id ⟨fun _ => rfl, fun _ => rfl, fun _ => rfl,
      fun _ => rfl, fun _ hc => hc.toggle userId⟩)
  | toggleThreadPin id =>
    obtain rfl := Option.some.inj hnext
    exact h.mapThreads (keepsThread_ite id ⟨fun _ => rfl, fun _ => rfl, fun _ ht => ht⟩)
  | flagForModeration target reason at_ =>
    obtain rfl := Option.some.inj hnext
    cases target with
    | thread id =>
      exact h.mapThreads (keepsThread_ite id ⟨fun _ => rfl, fun _ => rfl, fun _ ht => ht⟩)
    | comment id =>
      exact h.mapComments (keepsComment_ite id ⟨fun _ => rfl, fun _ => rfl, fun _ => rfl,
        fun _ => rfl, fun _ hc => hc⟩)
  | resolveModeration target =>
    obtain rfl := Option.some.inj hnext
    cases target with
    | thread id =>
      exact h.mapThreads (keepsThread_ite id ⟨fun _ => rfl, fun _ => rfl, fun _ ht => ht⟩)
    | comment id =>
      exact h.mapComments (keepsComment_ite id ⟨fun _ => rfl, fun _ => rfl, fun _ => rfl,
        fun _ => rfl, fun _ hc => hc⟩)

end AgriFi.Discussions
