import PuppyTalk.CommentQueries
import PuppyTalk.CommentTree

namespace PuppyTalk.CommentService

open Paging CommentsRepository

def visibleReplies (d : Store) (viewer : Option Uuid) (rootId : Uuid) : List Comment :=
  orderBy (· > ·) Comment.id
    (d.comments.filter fun c => c.parentId == some rootId && replyVisible d viewer c)

def shownTo (d : Store) (viewer : Option Uuid) (c : Comment) : CommentResponse :=
  commentToResponse c (likedIdsOf d viewer [c.id])

theorem commentToResponse_likedIds {ids : List Uuid} (h : c.id ∈ ids) :
    commentToResponse c (likedIdsOf d viewer ids) = shownTo d viewer c := by
  have hliked : (likedIdsOf d viewer ids).contains c.id =
      (likedIdsOf d viewer [c.id]).contains c.id := by
    cases viewer with
    | none => rfl
    | some u =>
      rw [Bool.eq_iff_iff]
      simp only [likedIdsOf, CommentLikesRepository.getLikedCommentIdsForUser,
        List.contains_iff_mem, List.mem_map, List.mem_filter, Bool.and_eq_true, beq_iff_eq,
        List.mem_singleton]
      constructor
      · rintro ⟨l, ⟨hl, hu, -⟩, he⟩
        exact ⟨l, ⟨hl, hu, he⟩, he⟩
      · rintro ⟨l, ⟨hl, hu, -⟩, he⟩
        exact ⟨l, ⟨hl, hu, he ▸ h⟩, he⟩
  simp only [shownTo, commentToResponse, hliked]

section Tree

theorem foldl_attachPreview (likedIds : List Uuid) (resps : List CommentResponse)
    (previews : List (Comment × Nat)) :
    previews.foldl (attachPreview likedIds) resps = resps.map fun r =>
      { r with
        replies := r.replies ++ (previews.filter fun p => p.1.parentId = some r.id).map
          fun p => commentToResponse p.1 likedIds
        replyCount := ((previews.filter fun p => p.1.parentId = some r.id).getLast?.map
          Prod.snd).getD r.replyCount } := by
  induction previews generalizing resps with
  | nil => simpa using (List.map_id'' (fun r => by cases r; rfl) resps).symm
  | cons p previews ih =>
    rw [List.foldl_cons, ih, attachPreview, List.map_map]
    apply List.map_congr_left
    intro r _
    by_cases hp : p.1.parentId = some r.id
    · simp [hp, List.getLast?_cons]
    · simp [hp]

theorem buildCommentTree_eq (roots : List Comment) (previews : List (Comment × Nat))
    (likedIds : List Uuid) :
    buildCommentTree roots previews likedIds = roots.map fun r =>
      let mine := previews.filter fun p => p.1.parentId = some r.id
      let replyCount := (mine.getLast?.map Prod.snd).getD 0
      { commentToResponse r likedIds with
        replies := orderBy (· > ·) CommentResponse.id
          (mine.map fun p => commentToResponse p.1 likedIds)
        replyCount := replyCount
        hasMoreReplies := decide (mine.length < replyCount) } := by
  rw [buildCommentTree, foldl_attachPreview, List.map_map, List.map_map]
  apply List.map_congr_left
  intro r _
  simp [commentToResponse]

end Tree

section Previews

variable {d : Store} {viewer : Option Uuid}

theorem mem_previews (hids : Table.Keyed Comment.id d.comments) (hr : rootId ∈ rootIds)
    (hc : c.parentId = some rootId) :
    (c, n) ∈ getReplyPreviewsForRoots d rootIds limit viewer ↔
      c ∈ (visibleReplies d viewer rootId).take limit ∧
        n = (visibleReplies d viewer rootId).length := by
  have hne : rootIds ≠ [] := List.ne_nil_of_mem hr
  have hmine : (d.comments.filter fun c => c.parentId.any rootIds.contains &&
      replyVisible d viewer c).filter (fun b => b.parentId = c.parentId) =
      d.comments.filter fun c => c.parentId == some rootId && replyVisible d viewer c := by
    rw [List.filter_filter]
    apply List.filter_congr
    intro b _
    by_cases hb : b.parentId = some rootId
    · simp [hb, hc, hr]
    · simp [hb, hc]
  have hnumbered : ∀ r ∈ ranked (· > ·) Comment.id Comment.parentId (d.comments.filter fun c =>
      c.parentId.any rootIds.contains && replyVisible d viewer c), r.1 ∈ d.comments :=
    fun r h => (List.mem_filter.mp (mem_of_mem_ranked h)).1
  rw [visibleReplies, length_orderBy, ← hmine, ← mem_ranked_le, getReplyPreviewsForRoots, if_neg hne]
  simp only [List.mem_flatMap, List.mem_map, List.mem_filter, Bool.and_eq_true, beq_iff_eq,
    decide_eq_true_iff, Prod.mk.injEq, Prod.exists]
  constructor
  · rintro ⟨c', hc', r, rn, t, ⟨hmem, hid, hle⟩, rfl, rfl⟩
    obtain rfl := hids.eq hc' (hnumbered _ hmem) hid
    exact ⟨rn, hle, hmem⟩
  · rintro ⟨rn, hle, hmem⟩
    exact ⟨c, hnumbered _ hmem, c, rn, n, ⟨hmem, rfl, hle⟩, rfl, rfl⟩

theorem visibleReplies_pairwise (hids : Table.Keyed Comment.id d.comments) (rootId : Uuid) :
    (visibleReplies d viewer rootId).Pairwise fun a b => a.id > b.id :=
  orderBy_pairwise (hids.sublist (List.filter_sublist.map _))

theorem mem_visibleReplies : c ∈ visibleReplies d viewer rootId ↔
    c ∈ d.comments ∧ c.parentId = some rootId ∧ replyVisible d viewer c = true := by
  rw [visibleReplies, mem_orderBy]
  simp

theorem visibleReplies_nodup (hids : Table.Keyed Comment.id d.comments) (rootId : Uuid) :
    (visibleReplies d viewer rootId).Nodup :=
  (visibleReplies_pairwise hids rootId).imp fun h he => by
    rw [he] at h
    exact lt_irrefl _ h

theorem previews_nodup (hids : Table.Keyed Comment.id d.comments) (rootIds : List Uuid)
    (limit : Nat) : ((getReplyPreviewsForRoots d rootIds limit viewer).map Prod.fst).Nodup := by
  have hcomments : d.comments.Nodup := .of_map _ hids
  rw [getReplyPreviewsForRoots]
  split
  · exact List.nodup_nil
  dsimp only
  rw [List.map_flatMap, List.nodup_flatMap]
  constructor
  · intro c hc
    have hsame : ∀ r ∈ (ranked (· > ·) Comment.id Comment.parentId (d.comments.filter fun c =>
        c.parentId.any rootIds.contains && replyVisible d viewer c)).filter
          (fun r => c.id == r.1.id && r.2.1 ≤ limit), c = r.1 := by
      intro r hr
      obtain ⟨hmem, hid⟩ := List.mem_filter.mp hr
      rw [Bool.and_eq_true, beq_iff_eq] at hid
      exact hids.eq hc (List.mem_filter.mp (mem_of_mem_ranked hmem)).1 hid.1
    rw [List.map_map, show (Prod.fst ∘ fun r : Comment × Nat × Nat => (c, r.2.2)) = fun _ => c
      from rfl, List.map_congr_left hsame]
    exact (nodup_ranked (hcomments.filter _)).sublist (List.filter_sublist.map _)
  · apply hcomments.imp
    intro c c' hne x hx hx'
    obtain ⟨p, hp, rfl⟩ := List.mem_map.mp hx
    obtain ⟨p', hp', he⟩ := List.mem_map.mp hx'
    obtain ⟨_, _, rfl⟩ := List.mem_map.mp hp
    obtain ⟨_, _, rfl⟩ := List.mem_map.mp hp'
    exact hne he.symm

theorem previews_perm (viewer : Option Uuid) (hids : Table.Keyed Comment.id d.comments)
    (hr : rootId ∈ rootIds) (limit : Nat) :
    (((getReplyPreviewsForRoots d rootIds limit viewer).filter
        fun p => p.1.parentId = some rootId).map Prod.fst).Perm
      ((visibleReplies d viewer rootId).take limit) := by
  rw [List.perm_ext_iff_of_nodup]
  · intro c
    simp only [List.mem_map, List.mem_filter, decide_eq_true_iff, Prod.exists, exists_and_right,
      exists_eq_right]
    constructor
    · rintro ⟨⟨n, hmem⟩, hp⟩
      exact ((mem_previews hids hr hp).mp hmem).1
    · intro hc
      have hp := (mem_visibleReplies.mp (List.mem_of_mem_take hc)).2.1
      exact ⟨⟨_, (mem_previews hids hr hp).mpr ⟨hc, rfl⟩⟩, hp⟩
  · exact (previews_nodup hids rootIds limit).sublist (List.filter_sublist.map _)
  · exact (visibleReplies_nodup hids rootId).sublist (List.take_sublist _ _)

def listedRoot (d : Store) (viewer : Option Uuid) (r : Comment) : CommentResponse :=
  let replies := visibleReplies d viewer r.id
  { shownTo d viewer r with
    replies := (replies.take replyPreviewLimit).map (shownTo d viewer)
    replyCount := replies.length
    hasMoreReplies := decide (replyPreviewLimit < replies.length) }

theorem previews_sorted (hids : Table.Keyed Comment.id d.comments) (hr : rootId ∈ rootIds)
    (limit : Nat) :
    orderBy (· > ·) CommentResponse.id
        (((getReplyPreviewsForRoots d rootIds limit viewer).filter
          fun p => p.1.parentId = some rootId).map fun p => shownTo d viewer p.1) =
      ((visibleReplies d viewer rootId).take limit).map (shownTo d viewer) := by
  apply orderBy_eq
  · rw [List.pairwise_map]
    exact (visibleReplies_pairwise hids rootId).sublist (List.take_sublist _ _)
  · have h := ((previews_perm viewer hids hr limit).map (shownTo d viewer)).symm
    rwa [List.map_map] at h

theorem previews_replyCount (hids : Table.Keyed Comment.id d.comments) (hr : rootId ∈ rootIds)
    (hlimit : 1 ≤ limit) :
    (((getReplyPreviewsForRoots d rootIds limit viewer).filter
        fun p => p.1.parentId = some rootId).getLast?.map Prod.snd).getD 0 =
      (visibleReplies d viewer rootId).length := by
  have hperm := previews_perm viewer hids hr limit
  cases hl : ((getReplyPreviewsForRoots d rootIds limit viewer).filter
      fun p => p.1.parentId = some rootId).getLast? with
  | none =>
    rw [List.getLast?_eq_none_iff.mp hl, List.map_nil] at hperm
    have hnil := List.take_eq_nil_iff.mp hperm.nil_eq.symm
    rw [hnil.resolve_left (by omega)]
    rfl
  | some p =>
    obtain ⟨hmem, hp⟩ := List.mem_filter.mp (List.mem_of_getLast? hl)
    exact ((mem_previews hids hr (of_decide_eq_true hp)).mp hmem).2

theorem buildCommentTree_previews (hids : Table.Keyed Comment.id d.comments)
    (roots : List Comment) :
    let previews := getReplyPreviewsForRoots d (roots.map (·.id)) replyPreviewLimit viewer
    buildCommentTree roots previews
        (likedIdsOf d viewer (roots.map (·.id) ++ previews.map (·.1.id))) =
      roots.map (listedRoot d viewer) := by
  intro previews
  rw [buildCommentTree_eq]
  apply List.map_congr_left
  intro r hr
  have hid : r.id ∈ roots.map (·.id) := List.mem_map_of_mem hr
  have hmine : ∀ p ∈ previews.filter (fun p => p.1.parentId = some r.id),
      commentToResponse p.1 (likedIdsOf d viewer (roots.map (·.id) ++ previews.map (·.1.id))) =
        shownTo d viewer p.1 := by
    intro p hp
    apply commentToResponse_likedIds
    exact List.mem_append_right _ (List.mem_map.mpr ⟨p, (List.mem_filter.mp hp).1, rfl⟩)
  have hlen := (previews_perm viewer hids hid replyPreviewLimit).length_eq
  rw [List.length_map, List.length_take] at hlen
  have hmore : decide ((previews.filter fun p => p.1.parentId = some r.id).length <
      (visibleReplies d viewer r.id).length) =
      decide (replyPreviewLimit < (visibleReplies d viewer r.id).length) := by
    rw [hlen, decide_eq_decide]
    omega
  dsimp only
  rw [commentToResponse_likedIds (List.mem_append_left _ hid), List.map_congr_left hmine,
    previews_sorted hids hid, previews_replyCount hids hid (by decide), hmore]
  rfl

theorem getComments_eq (hids : Table.Keyed Comment.id d.comments)
    (hpost : PostsRepository.postIsVisible d postId viewer = true) (page size : Nat)
    (sort : Option String) :
    getComments d postId page size sort viewer =
      let rows := d.comments.filter (rootListed d postId viewer)
      .ok ((slice (offsetOf page size) size
        (rootOrder (sortMode ["latest", "popular"] "popular" sort) rows)).map (listedRoot d viewer),
        rows.length) := by
  simp only [getComments, ensurePostVisible, hpost, if_true, pageRootComments]
  exact congrArg (fun resps => Except.ok (resps, _)) (buildCommentTree_previews hids _)

end Previews

section Replies

def replyLt (sort : Option String) (a b : Uuid) : Prop :=
  if sort = some "oldest" then a < b else b < a

instance (sort : Option String) : DecidableRel (replyLt sort) :=
  fun a b => inferInstanceAs (Decidable (if sort = some "oldest" then a < b else b < a))

theorem replyLt_oldest (a b : Uuid) : replyLt (some "oldest") a b ↔ a < b := by
  simp [replyLt]

theorem replyLt_newest (h : sort ≠ some "oldest") (a b : Uuid) : replyLt sort a b ↔ b < a := by
  simp [replyLt, h]

instance (sort : Option String) : IsStrictTotalOrder Uuid (replyLt sort) where
  trichotomous a b hab hba := by
    by_cases h : sort = some "oldest"
    · subst h
      rw [replyLt_oldest] at hab hba
      exact le_antisymm (not_lt.mp hba) (not_lt.mp hab)
    · rw [replyLt_newest h] at hab hba
      exact le_antisymm (not_lt.mp hab) (not_lt.mp hba)
  irrefl a := by
    by_cases h : sort = some "oldest"
    · subst h
      rw [replyLt_oldest]
      exact lt_irrefl a
    · rw [replyLt_newest h]
      exact lt_irrefl a
  trans a b c hab hbc := by
    by_cases h : sort = some "oldest"
    · subst h
      rw [replyLt_oldest] at *
      exact hab.trans hbc
    · rw [replyLt_newest h] at *
      exact hbc.trans hab

theorem sortMode_replies (sort : Option String) :
    sortMode ["latest", "oldest"] "latest" sort = "oldest" ↔ sort = some "oldest" := by
  cases sort with
  | none => simp [sortMode]
  | some s =>
    by_cases h : s = "latest" ∨ s = "oldest"
    · rcases h with rfl | rfl <;> simp [sortMode, Option.filter]
    · obtain ⟨hl, hs⟩ := not_or.mp h
      simp [sortMode, Option.filter, hl, hs]

theorem applyIdKeyset_eq (sort : Option String) (cursor : Option Uuid) (size : Nat)
    (rows : List Comment) :
    applyIdKeyset (sortMode ["latest", "oldest"] "latest" sort) cursor size rows =
      (orderBy (replyLt sort) Comment.id
        (beyond (replyLt sort) Comment.id cursor rows)).take (size + 1) := by
  rw [applyIdKeyset]
  simp only [sortMode_replies]
  by_cases h : sort = some "oldest"
  · subst h
    rw [if_pos rfl, orderBy_congr replyLt_oldest, beyond_congr replyLt_oldest]
    rfl
  · have hlt : ∀ a b, replyLt sort a b ↔ a > b := replyLt_newest h
    rw [if_neg h, orderBy_congr hlt, beyond_congr hlt]
    rfl

def replyRows (viewer : Option Uuid) (rootId : Uuid) (d : Store) : List CommentResponse :=
  (d.comments.filter fun c => c.parentId == some rootId && replyVisible d viewer c).map
    (shownTo d viewer)

def repliesPage (postId rootId : Uuid) (size : Nat) (sort : Option String) (viewer : Option Uuid)
    (d : Store) (cursor : Option Uuid) : Option (List CommentResponse × Bool) :=
  (getReplies d postId rootId size sort cursor viewer).toOption

theorem splitPage_replies (d : Store) (rootId : Uuid) (size : Nat) (sort : Option String)
    (cursor : Option Uuid) (viewer : Option Uuid) :
    let (replies, more) := splitPage (getRepliesPage d rootId size cursor
      (sortMode ["latest", "oldest"] "latest" sort) viewer) size
    (replies.map (commentToResponse · (likedIdsOf d viewer (replies.map (·.id)))), more) =
      ((orderBy (replyLt sort) CommentResponse.id (beyond (replyLt sort) CommentResponse.id cursor
          (replyRows viewer rootId d))).take size,
        decide (size < (beyond (replyLt sort) CommentResponse.id cursor
          (replyRows viewer rootId d)).length)) := by
  have hliked : ∀ (l : List Comment), ∀ c ∈ l,
      commentToResponse c (likedIdsOf d viewer (l.map (·.id))) = shownTo d viewer c :=
    fun l c hc => commentToResponse_likedIds (List.mem_map_of_mem hc)
  rw [getRepliesPage, applyIdKeyset_eq, splitPage_take]
  dsimp only
  rw [List.map_congr_left (hliked _), replyRows, beyond_map, orderBy_map, length_orderBy,
    List.length_map, List.map_take]
  rfl

theorem getReplies_cases (d : Store) (postId rootId : Uuid) (size : Nat) (sort : Option String)
    (cursor : Option Uuid) (viewer : Option Uuid) :
    repliesPage postId rootId size sort viewer d cursor =
      if PostsRepository.postIsVisible d postId viewer = true ∧
        (getVisibleRootMeta d rootId).any (fun r => r.postId == postId && r.parentId.isNone) = true
      then some
        ((orderBy (replyLt sort) CommentResponse.id (beyond (replyLt sort) CommentResponse.id cursor
          (replyRows viewer rootId d))).take size,
        decide (size < (beyond (replyLt sort) CommentResponse.id cursor
          (replyRows viewer rootId d)).length))
      else none := by
  have hsplit := splitPage_replies d rootId size sort cursor viewer
  rw [repliesPage, getReplies, ensurePostVisible]
  cases PostsRepository.postIsVisible d postId viewer with
  | false => rfl
  | true =>
    cases getVisibleRootMeta d rootId with
    | none => rfl
    | some root =>
      have hiff : (root.postId ≠ postId ∨ root.parentId.isSome = true) ↔
          ¬ (root.postId == postId && root.parentId.isNone) = true := by
        cases root.parentId <;> simp
      show Except.toOption (if root.postId ≠ postId ∨ root.parentId.isSome = true then _ else _) =
        if _ ∧ (root.postId == postId && root.parentId.isNone) = true then _ else _
      by_cases hroot : (root.postId == postId && root.parentId.isNone) = true
      · rw [if_neg (fun h => hiff.mp h hroot), if_pos ⟨rfl, hroot⟩]
        exact congrArg some hsplit
      · rw [if_pos (hiff.mpr hroot), if_neg fun h => hroot h.2]
        rfl

theorem replyRows_nodup (hids : Table.Keyed Comment.id d.comments) (viewer : Option Uuid)
    (rootId : Uuid) : ((replyRows viewer rootId d).map CommentResponse.id).Nodup := by
  rw [replyRows, List.map_map]
  exact hids.sublist (List.filter_sublist.map _)

theorem repliesPage_isSome (hids : Table.Keyed Comment.id d.comments)
    (hpost : PostsRepository.postIsVisible d r.postId viewer = true) (hr : r ∈ d.comments)
    (hroot : r.parentId = none) (hblind : r.isBlinded = false) (size : Nat)
    (sort : Option String) (cursor : Option Uuid) :
    (repliesPage r.postId r.id size sort viewer d cursor).isSome = true := by
  have hfind : getVisibleRootMeta d r.id = some
      { postId := r.postId, parentId := r.parentId, authorId := r.authorId,
        deletedAt := r.deletedAt } := by
    rw [getVisibleRootMeta, hids.find_eq_some (i := r.id) _ hr (by simp [hblind])]
    · rfl
    · intro s hs
      rw [Bool.and_eq_true, beq_iff_eq] at hs
      exact hs.1
  rw [getReplies_cases, hfind, if_pos ⟨hpost, by simp [hroot]⟩]
  rfl

theorem replies_reads (postId rootId : Uuid) (size : Nat) (sort : Option String)
    (viewer : Option Uuid) :
    Reads (replyLt sort) CommentResponse.id size (replyRows viewer rootId) id
      (fun r => some r.id) (repliesPage postId rootId size sort viewer) where
  items d cursor items more h := by
    rw [getReplies_cases] at h
    split at h
    · cases h
      rfl
    · cases h
  hasMore d cursor items more h := by
    rw [getReplies_cases] at h
    split at h
    · cases h
      rfl
    · cases h
  bound _ _ _ := rfl

end Replies

section Roots

def Blocks (d : Store) (viewer author : Option Uuid) : Prop :=
  ∃ b ∈ d.userBlocks, viewer = some b.blockerId ∧ author = some b.blockedId

theorem authorNotBlocked_iff : authorNotBlocked d.toDb author viewer = true ↔
    ¬ Blocks d viewer author := by
  cases viewer with
  | none => simp [authorNotBlocked, Blocks]
  | some u =>
    rw [authorNotBlocked, Bool.not_eq_true', ← Bool.not_eq_true, List.any_eq_true]
    apply not_congr
    apply exists_congr
    intro b
    rw [Bool.and_eq_true, beq_iff_eq, beq_iff_eq, Option.some.injEq, eq_comm]

structure VisibleTo (d : Store) (viewer : Option Uuid) (c : Comment) : Prop where
  undeleted : c.deletedAt = none
  unblinded : c.isBlinded = false
  unblocked : ¬ Blocks d viewer c.authorId

theorem replyVisible_iff : replyVisible d viewer c = true ↔ VisibleTo d viewer c := by
  rw [replyVisible, Bool.and_eq_true, Bool.and_eq_true, authorNotBlocked_iff,
    Option.isNone_iff_eq_none, Bool.not_eq_true']
  exact ⟨fun ⟨⟨h, h'⟩, h''⟩ => ⟨h, h', h''⟩, fun h => ⟨⟨h.undeleted, h.unblinded⟩, h.unblocked⟩⟩

structure Listed (d : Store) (postId : Uuid) (viewer : Option Uuid) (c : Comment) : Prop where
  mem : c ∈ d.comments
  post : c.postId = postId
  root : c.parentId = none
  unblinded : c.isBlinded = false
  unblocked : ¬ Blocks d viewer c.authorId
  shown : c.deletedAt = none ∨ ∃ r ∈ d.comments, r.parentId = some c.id ∧ VisibleTo d viewer r

theorem mem_rootListed :
    c ∈ d.comments.filter (rootListed d postId viewer) ↔ Listed d postId viewer c := by
  simp only [List.mem_filter, rootListed, Bool.and_eq_true, Bool.or_eq_true, authorNotBlocked_iff,
    beq_iff_eq, Bool.not_eq_true', Option.isNone_iff_eq_none, List.any_eq_true, replyVisible_iff]
  exact ⟨fun ⟨h, ⟨⟨⟨h₁, h₂⟩, h₃⟩, h₄⟩, h₅⟩ => ⟨h, h₁, h₂, h₃, h₅, h₄⟩,
    fun h => ⟨h.mem, ⟨⟨⟨h.post, h.root⟩, h.unblinded⟩, h.shown⟩, h.unblocked⟩⟩

/-- The order that the list documents: most liked first unless the latest are asked for, and
newest first among equals. -/
def rootBefore (sort : Option String) (a b : Comment) : Prop :=
  if sort = some "latest" then b.id < a.id
  else b.likeCount < a.likeCount ∨ b.likeCount = a.likeCount ∧ b.id < a.id

theorem sortMode_roots (sort : Option String) :
    sortMode ["latest", "popular"] "popular" sort = "popular" ↔ sort ≠ some "latest" := by
  cases sort with
  | none => simp [sortMode]
  | some s =>
    by_cases h : s = "latest" ∨ s = "popular"
    · rcases h with rfl | rfl <;> simp [sortMode, Option.filter]
    · obtain ⟨hl, hs⟩ := not_or.mp h
      simp [sortMode, Option.filter, hl, hs]

theorem rootOrder_perm (sort : String) (rows : List Comment) : (rootOrder sort rows).Perm rows := by
  rw [rootOrder]
  split
  · exact orderBy_perm rows
  · exact orderBy_perm rows

theorem rootOrder_pairwise (hids : (rows.map Comment.id).Nodup) (sort : Option String) :
    (rootOrder (sortMode ["latest", "popular"] "popular" sort) rows).Pairwise (rootBefore sort) := by
  rw [rootOrder]
  simp only [sortMode_roots]
  by_cases h : sort = some "latest"
  · rw [if_neg (not_not.mpr h)]
    apply (orderBy_pairwise hids).imp
    intro a b hab
    rw [rootBefore, if_pos h]
    exact hab
  · rw [if_pos h]
    have hkeys : (rows.map fun c => toLex (c.likeCount, c.id)).Nodup := by
      apply List.Nodup.of_map (fun k => (ofLex k).2)
      rwa [List.map_map]
    apply (orderBy_pairwise hkeys).imp
    intro a b hab
    rw [rootBefore, if_neg h]
    exact Prod.Lex.toLex_lt_toLex.mp hab

theorem postIsVisible_of_getComments
    (h : getComments d postId page size sort viewer = .ok r) :
    PostsRepository.postIsVisible d postId viewer = true := by
  cases hpost : PostsRepository.postIsVisible d postId viewer with
  | true => rfl
  | false =>
    simp only [getComments, ensurePostVisible, hpost] at h
    cases h

theorem orderBy_replyRows (hsort : sort ≠ some "oldest") (viewer : Option Uuid) (rootId : Uuid)
    (d : Store) :
    orderBy (replyLt sort) CommentResponse.id (replyRows viewer rootId d) =
      (visibleReplies d viewer rootId).map (shownTo d viewer) := by
  have hlt : ∀ a b, replyLt sort a b ↔ a > b := replyLt_newest hsort
  rw [orderBy_congr hlt, replyRows, orderBy_map]
  rfl

/-- The preview of a listed root and the pages after it are its visible replies, newest first. -/
theorem preview_continues (d : Store) (hids : Table.Keyed Comment.id d.comments) (postId : Uuid)
    (viewer : Option Uuid) (page size : Nat) (sort : Option String) (resps : List CommentResponse)
    (total : Nat) (h : getComments d postId page size sort viewer = .ok (resps, total))
    (root : CommentResponse) (hroot : root ∈ resps) :
    ∃ replies : List Comment,
      (∀ c, c ∈ replies ↔ c ∈ d.comments ∧ c.parentId = some root.id ∧ VisibleTo d viewer c) ∧
      replies.Pairwise (fun a b => b.id < a.id) ∧
      root.replies = (replies.take 3).map (shownTo d viewer) ∧
      root.replyCount = replies.length ∧
      (root.hasMoreReplies = true ↔ root.replies.length < replies.length) ∧
      ∀ last, root.replies.getLast? = some last →
        ∀ replySize ≥ 1, ∀ replySort ≠ some "oldest", ∀ requests > replies.length,
          let visits := walk (fun r => some r.id)
            (repliesPage postId root.id replySize replySort viewer) (some last.id)
            (List.replicate requests d)
          Ended visits ∧ returned visits = (replies.drop 3).map (shownTo d viewer) := by
  have hpost := postIsVisible_of_getComments h
  rw [getComments_eq hids hpost] at h
  cases h
  obtain ⟨r, hr, rfl⟩ := List.mem_map.mp hroot
  have hlisted : Listed d postId viewer r :=
    mem_rootListed.mp ((rootOrder_perm _ _).mem_iff.mp
      (List.mem_of_mem_drop (List.mem_of_mem_take hr)))
  refine ⟨visibleReplies d viewer r.id, fun c => ?_, visibleReplies_pairwise hids r.id, rfl, rfl, ?_,
    fun last hlast replySize hsize replySort hsort requests hreq => ?_⟩
  · rw [mem_visibleReplies, replyVisible_iff]
    rfl
  · simp only [listedRoot, decide_eq_true_iff, List.length_map, List.length_take]
    omega
  · have hreads := replies_reads postId r.id replySize replySort viewer
    have hkeys := replyRows_nodup hids viewer r.id
    have hask : ∀ n cursor, (repliesPage postId r.id n replySort viewer d cursor).isSome = true :=
      fun n cursor => hlisted.post ▸ repliesPage_isSome hids (hlisted.post ▸ hpost) hlisted.mem
        hlisted.root hlisted.unblinded n replySort cursor
    -- the preview is what a first page of three would be
    obtain ⟨⟨items, more⟩, hpage⟩ := Option.isSome_iff_exists.mp (hask replyPreviewLimit none)
    have hfirst := replies_reads postId r.id replyPreviewLimit replySort viewer
    have hitems : items = (listedRoot d viewer r).replies := by
      rw [hfirst.items _ _ _ _ hpage, id, beyond_none, orderBy_replyRows hsort, ← List.map_take]
      rfl
    have hrest := hfirst.beyond_last hpage hkeys (hitems ▸ hlast)
    rw [id, beyond_none, orderBy_replyRows hsort, ← List.map_drop] at hrest
    have hlen : (beyond (replyLt replySort) CommentResponse.id (some last.id)
        (replyRows viewer r.id d)).length / replySize < requests := by
      have hle := congrArg List.length hrest
      rw [length_orderBy, List.length_map, List.length_drop] at hle
      have hdiv := Nat.div_le_self (beyond (replyLt replySort) CommentResponse.id (some last.id)
        (replyRows viewer r.id d)).length replySize
      omega
    obtain ⟨hret, hend, -⟩ := walk_replicate hreads hsize hkeys (hask _ (some last.id))
      (fun a _ => hask _ _) hlen
    exact ⟨hend, hret.trans hrest⟩

end Roots

section Runs

def comment (id : Uuid) (parentId : Option Uuid) (deletedAt : Option Timestamp) : Comment where
  id := id
  postId := 10
  authorId := some 2
  parentId := parentId
  content := "멍멍"
  likeCount := 0
  reportCount := 0
  isBlinded := false
  createdAt := 0
  updatedAt := 0
  deletedAt := deletedAt

def thread : Store where
  posts := [{
    id := 10, userId := some 1, title := "산책", content := "같이 걸어요", categoryId := none,
    viewCount := 0, likeCount := 0, commentCount := 0, reportCount := 0, isBlinded := false,
    createdAt := 0, updatedAt := 0, deletedAt := none, version := 1 }]
  comments := [comment 20 none (some 5), comment 21 (some 20) none]

theorem preview_continues_thread :
    ∃ resps total, getComments thread 10 1 10 none none = .ok (resps, total) ∧
      ∀ root ∈ resps, root.replies.length ≤ root.replyCount := by
  have hids : Table.Keyed Comment.id thread.comments := by decide
  have h : getComments thread 10 1 10 none none = _ := getComments_eq hids (by decide) 1 10 none
  refine ⟨_, _, h, fun root hroot => ?_⟩
  obtain ⟨replies, -, -, hreplies, hcount, -⟩ :=
    preview_continues thread hids 10 none 1 10 none _ _ h root hroot
  rw [hreplies, hcount, List.length_map, List.length_take]
  exact Nat.min_le_right _ _

end Runs

end PuppyTalk.CommentService
