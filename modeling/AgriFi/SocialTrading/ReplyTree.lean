import AgriFi.SocialTrading.Discussions
import Mathlib.Data.List.Nodup

/-
  The reply tree of well placed comments. A comment is a root exactly when its depth is zero, and
  the comments under those of one depth are those of the next (`layer_succ`); so the tree has each
  comment once, and is as deep as the deepest.
-/

namespace AgriFi.Discussions

open AgriFi.Runs

variable {ordered : List DiscussionComment}

/-- Comments with ids of their own, each at its place. -/
structure WellPlaced (comments : List DiscussionComment) : Prop where
  ids : (comments.map (·.id)).Nodup
  placed : ∀ c ∈ comments, Placed comments c

/-! ## Nodes -/

theorem WellPlaced.nodeOf (h : WellPlaced ordered) {c : DiscussionComment} (hc : c ∈ ordered) :
    nodeOf ordered c = c := by
  have hids : (ordered.reverse.map (·.id)).Nodup := by
    rw [List.map_reverse]
    exact List.nodup_reverse.mpr h.ids
  have hfind := findComment_of_mem hids (List.mem_reverse.mpr hc)
  unfold findComment at hfind
  rw [Discussions.nodeOf, hfind, Option.getD_some]

theorem WellPlaced.isUnder_iff (h : WellPlaced ordered) {c d : DiscussionComment}
    (hc : c ∈ ordered) (hd : d ∈ ordered) :
    isUnder ordered c.id d = true ↔ d.parentCommentId = some c.id := by
  constructor
  · intro hunder
    simp only [isUnder, Bool.and_eq_true, decide_eq_true_eq] at hunder
    exact hunder.1.1.1
  · intro hparent
    obtain ⟨-, hplaced⟩ := h.placed d hd
    rw [hparent] at hplaced
    obtain ⟨hne, q, hq, hid, -, hdepth⟩ := hplaced
    have hself : c.id ≠ d.id := by
      intro heq
      have hqd := List.inj_on_of_nodup_map h.ids hq hd (hid.trans heq)
      rw [hqd] at hdepth
      omega
    have hany : ordered.any (fun e => decide (e.id = c.id)) = true :=
      List.any_eq_true.mpr ⟨c, hc, by simp⟩
    simp [isUnder, hparent, hne, hself, hany]

theorem WellPlaced.depth_of_parent (h : WellPlaced ordered) {c d : DiscussionComment}
    (hc : c ∈ ordered) (hd : d ∈ ordered) (hparent : d.parentCommentId = some c.id) :
    d.depth = c.depth + 1 := by
  obtain ⟨-, hplaced⟩ := h.placed d hd
  rw [hparent] at hplaced
  obtain ⟨-, q, hq, hid, -, hdepth⟩ := hplaced
  rwa [List.inj_on_of_nodup_map h.ids hq hc hid] at hdepth

theorem WellPlaced.childrenOf_eq (h : WellPlaced ordered) {c : DiscussionComment}
    (hc : c ∈ ordered) :
    childrenOf ordered c = ordered.filter (·.parentCommentId = some c.id) := by
  have hfilter : ordered.filter (isUnder ordered c.id) =
      ordered.filter (·.parentCommentId = some c.id) :=
    List.filter_congr fun d hd => by
      rw [Bool.eq_iff_iff, h.isUnder_iff hc hd, decide_eq_true_eq]
  rw [childrenOf, hfilter]
  refine (List.map_congr_left fun d hd => ?_).trans (List.map_id _)
  exact h.nodeOf (List.mem_filter.mp hd).1

theorem WellPlaced.isRoot_iff (h : WellPlaced ordered) {c : DiscussionComment} (hc : c ∈ ordered) :
    isRoot ordered c = true ↔ c.depth = 0 := by
  obtain ⟨-, hplaced⟩ := h.placed c hc
  unfold isRoot
  cases hparent : c.parentCommentId with
  | none => simpa [hparent] using hplaced
  | some id =>
    simp only [hparent] at hplaced
    obtain ⟨-, q, hq, rfl, -, hdepth⟩ := hplaced
    simp [(h.isUnder_iff hq hc).mpr hparent, hdepth]

/-! ## Layers -/

def layer (ordered : List DiscussionComment) (n : Nat) : List DiscussionComment :=
  ordered.filter (·.depth = n)

theorem nodup_of_ids (h : (ordered.map (·.id)).Nodup) : ordered.Nodup := List.Nodup.of_map _ h

/-- The comments under those of one depth are those of the next. -/
theorem WellPlaced.layer_succ (h : WellPlaced ordered) (n : Nat) :
    ((layer ordered n).flatMap (childrenOf ordered)).Perm (layer ordered (n + 1)) := by
  have hnodup := nodup_of_ids h.ids
  refine (List.perm_ext_iff_of_nodup ?_ (hnodup.filter _)).mpr fun d => ?_
  · refine List.nodup_flatMap.mpr ⟨fun c hc => ?_, ?_⟩
    · rw [h.childrenOf_eq (List.mem_filter.mp hc).1]
      exact hnodup.filter _
    · refine (hnodup.filter _).imp_of_mem fun {a b} ha hb hne => ?_
      rw [Function.onFun, h.childrenOf_eq (List.mem_filter.mp ha).1,
        h.childrenOf_eq (List.mem_filter.mp hb).1]
      intro d hda hdb
      have hpa := (List.mem_filter.mp hda).2
      have hpb := (List.mem_filter.mp hdb).2
      simp only [decide_eq_true_eq] at hpa hpb
      exact hne (List.inj_on_of_nodup_map h.ids (List.mem_filter.mp ha).1 (List.mem_filter.mp hb).1
        (Option.some.inj (hpa.symm.trans hpb)))
  · rw [List.mem_flatMap, layer, List.mem_filter, decide_eq_true_eq]
    constructor
    · rintro ⟨c, hc, hd⟩
      obtain ⟨hcmem, hdepth⟩ := List.mem_filter.mp hc
      rw [h.childrenOf_eq hcmem, List.mem_filter, decide_eq_true_eq] at hd
      refine ⟨hd.1, ?_⟩
      rw [h.depth_of_parent hcmem hd.1 hd.2, of_decide_eq_true hdepth]
    · rintro ⟨hd, hdepth⟩
      obtain ⟨-, hplaced⟩ := h.placed d hd
      cases hparent : d.parentCommentId with
      | none =>
        simp only [hparent] at hplaced
        omega
      | some id =>
        simp only [hparent] at hplaced
        obtain ⟨-, q, hq, rfl, -, heq⟩ := hplaced
        refine ⟨q, List.mem_filter.mpr ⟨hq, decide_eq_true (by omega)⟩, ?_⟩
        rw [h.childrenOf_eq hq, List.mem_filter, decide_eq_true_eq]
        exact ⟨hd, hparent⟩

/-! ## The tree -/

theorem flatten_append (xs ys : List CommentNode) :
    flatten (xs ++ ys) = flatten xs ++ flatten ys := by
  induction xs with
  | nil => rw [flatten, List.nil_append, List.nil_append]
  | cons x xs ih =>
    obtain ⟨c, children⟩ := x
    simp only [List.cons_append, flatten, ih, List.append_assoc]

theorem flatten_map (cs : List DiscussionComment) (f : DiscussionComment → CommentNode) :
    flatten (cs.map f) = cs.flatMap fun c => flatten [f c] := by
  induction cs with
  | nil => rw [List.map_nil, flatten, List.flatMap_nil]
  | cons c cs ih =>
    rw [List.map_cons, List.flatMap_cons, ← ih, ← List.singleton_append, flatten_append]

theorem flatten_build_succ (fuel : Nat) (c : DiscussionComment) :
    flatten [build ordered (fuel + 1) c] =
      c :: (childrenOf ordered c).flatMap fun d => flatten [build ordered fuel d] := by
  rw [build, flatten, flatten_map, flatten, List.append_nil]

theorem filter_split (n : Nat) :
    (layer ordered n ++ ordered.filter (n + 1 ≤ ·.depth)).Perm (ordered.filter (n ≤ ·.depth)) := by
  have hlayer : layer ordered n = (ordered.filter (n ≤ ·.depth)).filter (·.depth = n) := by
    rw [layer, List.filter_filter]
    exact List.filter_congr fun c _ => by
      by_cases h : c.depth = n <;> simp [h]
  have hrest : ordered.filter (n + 1 ≤ ·.depth) =
      (ordered.filter (n ≤ ·.depth)).filter fun c => !decide (c.depth = n) := by
    rw [List.filter_filter]
    refine List.filter_congr fun c _ => ?_
    rw [Bool.eq_iff_iff]
    simp only [decide_eq_true_eq, Bool.and_eq_true, Bool.not_eq_true', decide_eq_false_iff_not]
    omega
  rw [hlayer, hrest]
  exact List.filter_append_perm _ _

/-- By induction on the levels below: the trees of the comments of a depth have the comments from
    that depth on. -/
theorem WellPlaced.flatten_layer (h : WellPlaced ordered) (levels : Nat) {n fuel : Nat}
    (hn : n + levels = MAX_REPLY_DEPTH) (hfuel : levels ≤ fuel) :
    ((layer ordered n).flatMap fun c => flatten [build ordered fuel c]).Perm
      (ordered.filter (n ≤ ·.depth)) := by
  induction levels generalizing n fuel with
  | zero =>
    have hlast : ordered.filter (n ≤ ·.depth) = layer ordered n :=
      List.filter_congr fun c hc => by
        have := (h.placed c hc).1
        rw [Bool.eq_iff_iff, decide_eq_true_eq, decide_eq_true_eq]
        omega
    have hsingle : ∀ c ∈ layer ordered n, flatten [build ordered fuel c] = [c] := by
      intro c hc
      obtain ⟨hcmem, hdepth⟩ := List.mem_filter.mp hc
      have hnone : childrenOf ordered c = [] := by
        rw [h.childrenOf_eq hcmem]
        refine List.filter_eq_nil_iff.mpr fun d hd hparent => ?_
        have hdeep := h.depth_of_parent hcmem hd (of_decide_eq_true hparent)
        have := (h.placed d hd).1
        have := of_decide_eq_true hdepth
        omega
      cases fuel with
      | zero => simp only [build, flatten, List.append_nil]
      | succ fuel => rw [flatten_build_succ, hnone, List.flatMap_nil]
    rw [hlast, List.flatMap_congr hsingle]
    simp
  | succ levels ih =>
    obtain ⟨fuel, rfl⟩ : ∃ k, fuel = k + 1 := ⟨fuel - 1, by omega⟩
    have hrec := @ih (n + 1) fuel (by omega) (by omega)
    have hbelow := (h.layer_succ n).flatMap_right fun d => flatten [build ordered fuel d]
    rw [List.flatMap_assoc] at hbelow
    simp only [flatten_build_succ]
    have hcons := List.map_append_flatMap_perm (layer ordered n) id fun c =>
      (childrenOf ordered c).flatMap fun d => flatten [build ordered fuel d]
    rw [List.map_id] at hcons
    exact hcons.symm.trans (((hbelow.trans hrec).append_left _).trans (filter_split n))

theorem WellPlaced.roots_eq (h : WellPlaced ordered) :
    (ordered.filter (isRoot ordered)).map (Discussions.nodeOf ordered) = layer ordered 0 := by
  have hfilter : ordered.filter (isRoot ordered) = layer ordered 0 :=
    List.filter_congr fun c hc => by
      rw [Bool.eq_iff_iff, h.isRoot_iff hc, decide_eq_true_eq]
  rw [hfilter]
  refine (List.map_congr_left fun c hc => ?_).trans (List.map_id _)
  exact h.nodeOf (List.mem_filter.mp hc).1

/-- The depth of a list of trees, from those of their children. -/
theorem treeDepth_le {m : Nat} : ∀ (nodes : List CommentNode) (depth : Nat), depth ≤ m →
    (∀ c children, CommentNode.node c children ∈ nodes → children ≠ [] →
      treeDepth children (depth + 1) ≤ m) → treeDepth nodes depth ≤ m
  | [], depth, hm, _ => by rwa [treeDepth]
  | .node c [] :: nodes, depth, hm, h => by
    rw [treeDepth]
    exact treeDepth_le nodes depth hm fun c children hmem =>
      h c children (List.mem_cons_of_mem _ hmem)
  | .node c (child :: children) :: nodes, depth, hm, h => by
    rw [treeDepth]
    exact max_le (h c _ (List.mem_cons_self ..) (List.cons_ne_nil _ _))
      (treeDepth_le nodes depth hm fun c children hmem =>
        h c children (List.mem_cons_of_mem _ hmem))

theorem WellPlaced.treeDepth_build (h : WellPlaced ordered) (fuel : Nat)
    {cs : List DiscussionComment} {depth : Nat} (hcs : ∀ c ∈ cs, c ∈ ordered ∧ c.depth = depth)
    (hdepth : depth ≤ MAX_REPLY_DEPTH) :
    treeDepth (cs.map (build ordered fuel)) depth ≤ MAX_REPLY_DEPTH := by
  induction fuel generalizing cs depth with
  | zero =>
    refine treeDepth_le _ _ hdepth fun c children hmem hne => ?_
    obtain ⟨d, -, heq⟩ := List.mem_map.mp hmem
    rw [build] at heq
    exact absurd (CommentNode.node.inj heq).2.symm hne
  | succ fuel ih =>
    refine treeDepth_le _ _ hdepth fun c children hmem hne => ?_
    obtain ⟨d, hd, heq⟩ := List.mem_map.mp hmem
    rw [build] at heq
    obtain ⟨-, rfl⟩ := CommentNode.node.inj heq
    obtain ⟨hdmem, hddepth⟩ := hcs d hd
    have hchild : ∀ e ∈ childrenOf ordered d, e ∈ ordered ∧ e.depth = depth + 1 := by
      intro e he
      rw [h.childrenOf_eq hdmem, List.mem_filter, decide_eq_true_eq] at he
      exact ⟨he.1, by rw [h.depth_of_parent hdmem he.1 he.2, hddepth]⟩
    refine ih hchild ?_
    obtain ⟨e, he⟩ := List.exists_mem_of_ne_nil (childrenOf ordered d)
      (fun hnil => hne (by rw [hnil]; rfl))
    obtain ⟨hemem, hedepth⟩ := hchild e he
    exact hedepth ▸ (h.placed e hemem).1

theorem WellPlaced.perm {comments : List DiscussionComment} (h : WellPlaced comments)
    (hperm : comments.Perm ordered) : WellPlaced ordered where
  ids := (hperm.map _).nodup_iff.mp h.ids
  placed c hc := by
    obtain ⟨hdepth, hplaced⟩ := h.placed c (hperm.mem_iff.mpr hc)
    refine ⟨hdepth, ?_⟩
    cases hparent : c.parentCommentId with
    | none => simpa [hparent] using hplaced
    | some id =>
      simp only [hparent] at hplaced ⊢
      obtain ⟨hne, q, hq, hrest⟩ := hplaced
      exact ⟨hne, q, hperm.mem_iff.mp hq, hrest⟩

/-- The tree has every comment once, and no reply deeper than the limit. -/
theorem WellPlaced.commentTree {comments : List DiscussionComment} (locale : Locale)
    (h : WellPlaced comments) :
    (flatten (commentTree locale comments)).Perm comments ∧
      treeDepth (commentTree locale comments) 0 ≤ MAX_REPLY_DEPTH := by
  have hperm := List.mergeSort_perm comments (isBefore locale)
  have hordered := h.perm hperm.symm
  unfold Discussions.commentTree
  dsimp only
  rw [hordered.roots_eq]
  constructor
  · rw [flatten_map]
    have hlayers := hordered.flatten_layer MAX_REPLY_DEPTH (Nat.zero_add _)
      (Nat.le_add_left MAX_REPLY_DEPTH (comments.mergeSort (isBefore locale)).length)
    refine hlayers.trans ?_
    have hall : (comments.mergeSort (isBefore locale)).filter (0 ≤ ·.depth) =
        comments.mergeSort (isBefore locale) := by
      simp
    rw [hall]
    exact hperm
  · refine hordered.treeDepth_build _ (fun c hc => ?_) (Nat.zero_le _)
    obtain ⟨hcmem, hdepth⟩ := List.mem_filter.mp hc
    exact ⟨hcmem, of_decide_eq_true hdepth⟩

/-! ## Integrity -/

variable {locale : Locale} {s : DiscussionStore}

/-- What the store keeps. -/
structure Integrity (locale : Locale) (s : DiscussionStore) : Prop where
  counts : ∀ t ∈ s.threads, t.commentCount = (threadComments s t.id).length
  threadVotes : ∀ t ∈ s.threads, t.upvotes = t.upvotedBy.dedup.length
  commentVotes : ∀ c ∈ s.comments, c.upvotes = c.upvotedBy.dedup.length
  depths : ∀ c ∈ s.comments, c.depth ≤ MAX_REPLY_DEPTH ∧
    match c.parentCommentId with
    | none => c.depth = 0
    | some id => ∃ q ∈ s.comments, q.id = id ∧ q.threadId = c.threadId ∧ c.depth = q.depth + 1
  trees : ∀ id, (flatten (commentTree locale (threadComments s id))).Perm (threadComments s id) ∧
    treeDepth (commentTree locale (threadComments s id)) 0 ≤ MAX_REPLY_DEPTH

theorem Inv.wellPlaced (h : Inv s) (id : String) : WellPlaced (threadComments s id) where
  ids := h.ids.sublist (List.filter_sublist.map _)
  placed c hc := by
    obtain ⟨hcmem, hthread⟩ := List.mem_filter.mp hc
    obtain ⟨hdepth, hplaced⟩ := h.placed c hcmem
    refine ⟨hdepth, ?_⟩
    cases hparent : c.parentCommentId with
    | none => simpa [hparent] using hplaced
    | some parent =>
      simp only [hparent] at hplaced ⊢
      obtain ⟨hne, q, hq, hid, hqthread, heq⟩ := hplaced
      have hqmem : q ∈ threadComments s id := List.mem_filter.mpr
        ⟨hq, decide_eq_true (hqthread.trans (of_decide_eq_true hthread))⟩
      exact ⟨hne, q, hqmem, hid, hqthread, heq⟩

theorem Inv.integrity (h : Inv s) (locale : Locale) : Integrity locale s where
  counts := h.counts
  threadVotes t ht := by rw [(h.threadVotes t ht).1.dedup]; exact (h.threadVotes t ht).2
  commentVotes c hc := by rw [(h.commentVotes c hc).1.dedup]; exact (h.commentVotes c hc).2
  depths c hc := by
    obtain ⟨hdepth, hplaced⟩ := h.placed c hc
    refine ⟨hdepth, ?_⟩
    cases hparent : c.parentCommentId with
    | none => simpa [hparent] using hplaced
    | some id =>
      simp only [hparent] at hplaced ⊢
      exact hplaced.2
  trees id := (h.wellPlaced id).commentTree locale

/-- Runs whose new threads have no comments yet, and whose new comments have new ids, keep the
    store. -/
theorem store_integrity {xs : List (Step DiscussionStore Action)}
    (h : Run (next locale) emptyStore xs s) (hfresh : ∀ x ∈ xs, Fresh locale x) :
    Integrity locale s :=
  (h.invariant Inv inv_emptyStore fun x hx hnext hinv =>
    hinv.next hnext (hfresh x hx)).integrity locale

/-! ## A thread that is made again -/

def plainLocale : Locale := ⟨id, id, fun a b => if a < b then -1 else if a = b then 0 else 1⟩

def sampleThread : Action :=
  .upsertThread ⟨"deal", "deal-1", "harvest", "when is it", "u1", "amina", []⟩ "2026-03-01"
    (some "t1") false

def sampleComment (parent : Option String) (id : String) : Action :=
  .addComment ⟨"t1", "u2", "brian", "soon", parent⟩ "2026-03-02" (some id)

theorem store_integrity_reply :
    Integrity plainLocale (replay (next plainLocale) emptyStore
      [sampleThread, sampleComment none "c1", sampleComment (some "c1") "c2",
        .voteComment "c1" "u1"]).2 := by
  refine store_integrity (run_replay _ _ _) ?_
  simp [replay, next, sampleThread, sampleComment, Fresh, upsertThread, addComment, createThread,
    newComment, emptyStore, threadId, commentId]

/-- The comment stays, and its thread counts none. -/
theorem upsert_again_loses_count :
    ¬Integrity plainLocale (replay (next plainLocale) emptyStore
      [sampleThread, sampleComment none "c1", sampleThread]).2 := by
  intro h
  have hcounts := h.counts
  simp [replay, next, sampleThread, sampleComment, upsertThread, addComment, createThread,
    newComment, emptyStore, threadId, commentId, threadComments] at hcounts

end AgriFi.Discussions
