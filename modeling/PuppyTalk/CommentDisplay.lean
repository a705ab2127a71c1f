import PuppyTalk.CommentPages

namespace PuppyTalk.CommentService

open Paging CommentsRepository

def walkRoots (d : Store) (postId : Uuid) (size : Nat) (sort : Option String) :
    List CommentResponse :=
  (List.range d.comments.length).flatMap fun p =>
    ((getComments d postId (p + 1) size sort none).toOption.map Prod.fst).getD []

def walkReplies (d : Store) (postId : Uuid) (size : Nat) (sort : Option String) (rootId : Uuid) :
    List CommentResponse :=
  returned (walk (fun r => some r.id) (repliesPage postId rootId size sort none) none
    (List.replicate (d.comments.length + 1) d))

def displayedCount (d : Store) (postId : Uuid) (size : Nat) (sort : Option String)
    (replySize : Nat) (replySort : Option String) : Nat :=
  ((walkRoots d postId size sort).flatMap fun root =>
    root :: walkReplies d postId replySize replySort root.id).countP fun r => !r.isDeleted

def adrift (cs : List Comment) (c : Comment) : Bool :=
  c.alive && c.parentId.any fun p =>
    (Table.row Comment.id cs p).any fun r => r.deletedAt.isSome && !r.isBlinded

variable {d : Store} {postId : Uuid}

theorem walkRoots_eq (hids : Table.Keyed Comment.id d.comments)
    (hpost : PostsRepository.postIsVisible d postId none = true) (hsize : 1 ≤ size)
    (sort : Option String) :
    walkRoots d postId size sort =
      (rootOrder (sortMode ["latest", "popular"] "popular" sort)
        (d.comments.filter (rootListed d postId none))).map (listedRoot d none) := by
  have hempty : slice (d.comments.length * size) size
      (rootOrder (sortMode ["latest", "popular"] "popular" sort)
        (d.comments.filter (rootListed d postId none))) = [] := by
    rw [slice_eq_nil_iff hsize, (rootOrder_perm _ _).length_eq]
    exact (List.length_filter_le _ _).trans (Nat.le_mul_of_pos_right _ hsize)
  simp only [walkRoots, getComments_eq hids hpost]
  exact List.map_flatMap.symm.trans (congrArg _ (slices_eq hsize _ hempty))

theorem walkReplies_perm (hids : Table.Keyed Comment.id d.comments)
    (hpost : PostsRepository.postIsVisible d postId none = true) (hr : Listed d postId none r)
    (hsize : 1 ≤ size) (sort : Option String) :
    (walkReplies d postId size sort r.id).Perm (replyRows none r.id d) := by
  have hask : ∀ cursor, (repliesPage postId r.id size sort none d cursor).isSome = true :=
    fun cursor => hr.post ▸ repliesPage_isSome hids (hr.post ▸ hpost) hr.mem hr.root hr.unblinded
      size sort cursor
  have hlen : (beyond (replyLt sort) CommentResponse.id none (replyRows none r.id d)).length / size <
      d.comments.length + 1 := by
    rw [beyond_none, replyRows, List.length_map]
    exact Nat.lt_succ_of_le ((Nat.div_le_self _ _).trans (List.length_filter_le _ _))
  obtain ⟨hret, -, -⟩ := walk_replicate (replies_reads postId r.id size sort none) hsize
    (replyRows_nodup hids none r.id) (hask none) (fun _ _ => hask _) hlen
  rw [walkReplies, hret, id, beyond_none]
  exact orderBy_perm _

theorem replyVisible_none (c : Comment) : replyVisible d none c = c.alive := by
  simp [replyVisible, Comment.alive, authorNotBlocked]

theorem countP_thread (hids : Table.Keyed Comment.id d.comments)
    (hpost : PostsRepository.postIsVisible d postId none = true) (hr : Listed d postId none r)
    (hsize : 1 ≤ size) (sort : Option String) :
    (listedRoot d none r :: walkReplies d postId size sort r.id).countP (fun x => !x.isDeleted) =
      r.deletedAt.isNone.toNat + d.comments.countP fun c => c.parentId == some r.id && c.alive := by
  have hall : (replyRows none r.id d).countP (fun x => !x.isDeleted) =
      (replyRows none r.id d).length := by
    rw [List.countP_eq_length]
    intro x hx
    obtain ⟨c, hc, rfl⟩ := List.mem_map.mp hx
    have hv := (Bool.and_eq_true _ _ ▸ (List.mem_filter.mp hc).2).2
    simp [shownTo, commentToResponse, (replyVisible_iff.mp hv).undeleted]
  have hroot : (listedRoot d none r).isDeleted = r.deletedAt.isSome := rfl
  rw [List.countP_cons, (walkReplies_perm hids hpost hr hsize sort).countP_eq, hall, replyRows,
    List.length_map, List.countP_eq_length_filter, hroot]
  simp only [replyVisible_none]
  cases r.deletedAt <;> simp [Nat.add_comm]

theorem sum_threads {roots cs : List Comment} (hids : (roots.map Comment.id).Nodup) :
    (roots.map fun r => r.deletedAt.isNone.toNat +
        cs.countP fun c => c.parentId == some r.id && c.alive).sum =
      roots.countP (·.deletedAt.isNone) +
        cs.countP fun c => c.alive && roots.any fun r => c.parentId == some r.id := by
  induction roots with
  | nil => simp
  | cons r roots ih =>
    obtain ⟨hr, hnodup⟩ := List.nodup_cons.mp hids
    have hsplit : (cs.countP fun c => c.parentId == some r.id && c.alive) +
        (cs.countP fun c => c.alive && roots.any fun r => c.parentId == some r.id) =
        (cs.countP fun c => c.alive && (r :: roots).any fun r => c.parentId == some r.id) +
          cs.countP fun _ => false := by
      apply Table.countP_add_congr
      intro c _
      rw [List.any_cons]
      cases hc : c.parentId == some r.id with
      | true =>
        have hnone : (roots.any fun r => c.parentId == some r.id) = false := by
          rw [List.any_eq_false]
          intro s hs he
          rw [beq_iff_eq.mp hc, beq_iff_eq, Option.some.injEq] at he
          exact hr (he ▸ List.mem_map_of_mem hs)
        rw [hnone]
        cases c.alive <;> rfl
      | false => cases c.alive <;> simp
    have hfalse : (cs.countP fun _ => false) = 0 := by simp
    have hroot : r.deletedAt.isNone.toNat = if r.deletedAt.isNone = true then 1 else 0 := by
      cases r.deletedAt <;> rfl
    rw [List.map_cons, List.sum_cons, ih hnodup, List.countP_cons, hroot]
    omega

theorem rootListed_root (hroot : c.parentId = none) :
    (c.deletedAt.isNone && rootListed d postId none c) = (c.postId == postId && c.alive) := by
  cases hdel : c.deletedAt <;> simp [rootListed, authorNotBlocked, Comment.alive, hroot, hdel]

theorem rootListed_parent (hr : r.parentId = none) (hc : c ∈ d.comments)
    (hp : c.parentId = some r.id) (hpost : r.postId = c.postId) (ha : c.alive = true) :
    rootListed d postId none r = (c.postId == postId && !r.isBlinded) := by
  have hreply : (d.comments.any fun reply =>
      reply.parentId == some r.id && replyVisible d none reply) = true := by
    rw [List.any_eq_true]
    exact ⟨c, hc, by simp [hp, replyVisible_none, ha]⟩
  simp [rootListed, authorNotBlocked, hr, hreply, hpost]

theorem any_listed {c : Comment} (hids : Table.Keyed Comment.id d.comments) (hr : r ∈ d.comments)
    (hp : c.parentId = some r.id) :
    ((d.comments.filter (rootListed d postId none)).any fun r => c.parentId == some r.id) =
      rootListed d postId none r := by
  rw [Bool.eq_iff_iff, List.any_eq_true]
  constructor
  · rintro ⟨s, hs, he⟩
    obtain ⟨hmem, hlisted⟩ := List.mem_filter.mp hs
    rw [hp, beq_iff_eq, Option.some.injEq] at he
    rwa [hids.eq hr hmem he]
  · intro h
    exact ⟨r, List.mem_filter.mpr ⟨hr, h⟩, by simp [hp]⟩

theorem displayedCount_eq (ht : CommentTree d.comments)
    (hpost : PostsRepository.postIsVisible d postId none = true) (hsize : 1 ≤ size)
    (sort : Option String) (hreply : 1 ≤ replySize) (replySort : Option String) :
    displayedCount d postId size sort replySize replySort =
      countVisibleForPost d.toDb postId +
        d.comments.countP fun c => c.postId == postId && adrift d.comments c := by
  have hperm := rootOrder_perm (sortMode ["latest", "popular"] "popular" sort)
    (d.comments.filter (rootListed d postId none))
  rw [displayedCount, walkRoots_eq ht.ids hpost hsize, List.flatMap_map, List.countP_flatMap,
    (hperm.map _).sum_eq]
  refine (congrArg List.sum (List.map_congr_left fun r hr =>
    countP_thread ht.ids hpost (mem_rootListed.mp hr) hreply replySort)).trans ?_
  rw [sum_threads (ht.ids.sublist (List.filter_sublist.map _)), List.countP_filter]
  apply Table.countP_add_congr
  intro c hc
  rcases ht.shown_eq hc with ⟨hroot, hshown⟩ | ⟨r, hr, hp, hpost', hroot, hshown⟩
  · rw [rootListed_root hroot, hshown, adrift, hroot]
    simp
  · rw [any_listed ht.ids hr hp, hshown, adrift, hp, Option.any_some, ht.ids.row_eq hr,
      Option.any_some]
    have hlisted : rootListed d postId none c = false := by simp [rootListed, hp]
    cases ha : c.alive with
    | false => simp [hlisted]
    | true =>
      rw [rootListed_parent hroot hc hp hpost' ha, hlisted]
      cases hdel : r.deletedAt <;> simp [Comment.alive, hdel]

theorem adrift_iff {cs : List Comment} (hids : Table.Keyed Comment.id cs) :
    adrift cs c = true ↔ c.alive = true ∧
      ∃ r ∈ cs, c.parentId = some r.id ∧ r.isBlinded = false ∧ r.deletedAt ≠ none := by
  rw [adrift, Bool.and_eq_true]
  apply and_congr_right
  intro _
  cases hp : c.parentId with
  | none => simp
  | some p =>
    rw [Option.any_some]
    constructor
    · intro h
      cases hrow : Table.row Comment.id cs p with
      | none =>
        rw [hrow] at h
        cases h
      | some r =>
        rw [hrow, Option.any_some, Bool.and_eq_true, Bool.not_eq_true', Option.isSome_iff_ne_none] at h
        exact ⟨r, Table.row_mem hrow, congrArg some (Table.row_key hrow).symm, h.2, h.1⟩
    · rintro ⟨r, hr, he, hblind, hdel⟩
      cases he
      rw [hids.row_eq hr, Option.any_some, Bool.and_eq_true, Bool.not_eq_true',
        Option.isSome_iff_ne_none]
      exact ⟨hdel, hblind⟩

/-- The count of a post is the number of comments on display exactly if no live reply has a parent
that is deleted and not blinded. -/
theorem displayed_iff (d : Store) (ht : CommentTree d.comments) (postId : Uuid)
    (hpost : PostsRepository.postIsVisible d postId none = true) (size : Nat) (hsize : 1 ≤ size)
    (sort : Option String) (replySize : Nat) (hreply : 1 ≤ replySize) (replySort : Option String) :
    countVisibleForPost d.toDb postId = displayedCount d postId size sort replySize replySort ↔
      ∀ c ∈ d.comments, c.postId = postId → c.deletedAt = none → c.isBlinded = false →
        ∀ r ∈ d.comments, c.parentId = some r.id → r.isBlinded = false → r.deletedAt = none := by
  rw [displayedCount_eq ht hpost hsize sort hreply replySort, left_eq_add, List.countP_eq_zero]
  apply forall₂_congr
  intro c _
  rw [Bool.and_eq_true, beq_iff_eq, adrift_iff ht.ids, Comment.alive, Bool.and_eq_true,
    Option.isNone_iff_eq_none, Bool.not_eq_true']
  constructor
  · intro h hpost hdel hblind r hr hp hrblind
    by_contra hrdel
    exact h ⟨hpost, ⟨hdel, hblind⟩, r, hr, hp, hrblind, hrdel⟩
  · rintro h ⟨hpost, ⟨hdel, hblind⟩, r, hr, hp, hrblind, hrdel⟩
    exact hrdel (h hpost hdel hblind r hr hp hrblind)

section Runs

theorem thread_tree : CommentTree thread.comments where
  ids := by decide
  parent c hc q hq := by
    rcases List.mem_cons.mp hc with rfl | hc
    · cases hq
    · cases List.mem_singleton.mp hc
      cases hq
      exact ⟨comment 20 none (some 5), List.mem_cons_self, rfl, rfl, rfl⟩

/-- The reply under the deleted root is on display and not counted. -/
theorem displayed_diverges : CommentTree thread.comments ∧
    PostsRepository.postIsVisible thread 10 none = true ∧
    countVisibleForPost thread.toDb 10 = 0 ∧ displayedCount thread 10 10 none 10 none = 1 :=
  ⟨thread_tree, rfl, rfl, rfl⟩

theorem displayed_iff_thread :
    countVisibleForPost thread.toDb 10 ≠ displayedCount thread 10 10 none 10 none := by
  rw [ne_eq, displayed_iff thread thread_tree 10 (by decide) 10 (by decide) none 10 (by decide) none]
  intro h
  have hdel := h (comment 21 (some 20) none) (by decide) rfl rfl rfl (comment 20 none (some 5))
    (by decide) rfl rfl
  cases hdel

end Runs

end PuppyTalk.CommentService
