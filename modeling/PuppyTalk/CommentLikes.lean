import PuppyTalk.CommentPages

namespace PuppyTalk

namespace CommentsRepository

/-- `get_visible_comment_meta`: the conditions of a reply, for a root as well. -/
def getVisibleCommentMeta (db : Db) (commentId : Uuid) (currentUserId : Option Uuid) :
    Option CommentMeta :=
  (db.comments.find? fun c => c.id == commentId &&
      (c.deletedAt.isNone && !c.isBlinded && authorNotBlocked db c.authorId currentUserId)).map
    fun c => { postId := c.postId, parentId := c.parentId, authorId := c.authorId,
               deletedAt := c.deletedAt }

def getLikeCount (db : Db) (commentId : Uuid) : Int :=
  ((Table.row Comment.id db.comments commentId).map (·.likeCount)).getD 0

/-- A counter update through `_update_comment`, which neither asks whether the comment is alive nor
writes `updated_at`. -/
def updateLikeCount (db : Db) (commentId : Uuid) (f : Int → Int) : Int × Db :=
  let (row, db) := db.updateComments (·.id == commentId)
    (fun c => { c with likeCount := f c.likeCount }) (·.likeCount)
  (row.getD 0, db)

def incrementLikeCount (db : Db) (commentId : Uuid) : Int × Db :=
  updateLikeCount db commentId fun n => n + 1

def decrementLikeCount (db : Db) (commentId : Uuid) : Int × Db :=
  updateLikeCount db commentId fun n => max (n - 1) 0

end CommentsRepository

namespace CommentLikesRepository

def liked (db : Db) (commentId userId : Uuid) : Bool :=
  db.commentLikes.any fun l => l.commentId == commentId && l.userId == userId

/-- `create`: a like that exists already is left as it is. -/
def create (db : Db) (commentId userId : Uuid) (now : Timestamp) : Bool × Db :=
  if liked db commentId userId then (false, db)
  else (true, { db with commentLikes := db.commentLikes ++ [{
    commentId := commentId, userId := userId, createdAt := now }] })

def delete (db : Db) (commentId userId : Uuid) : Bool × Db :=
  (liked db commentId userId,
    { db with commentLikes :=
        Table.delete (fun l => l.commentId == commentId && l.userId == userId) db.commentLikes })

end CommentLikesRepository

namespace LikeService

def notifyAuthor (db : Db) (notificationId : Uuid) (author : Option Uuid) (kind : NotificationKind)
    (userId : Uuid) (postId commentId : Option Uuid) (now : Timestamp) : Db :=
  match author with
  | none => db
  | some author =>
    if author = userId then db
    else NotificationsRepository.insert db notificationId author kind (some userId) postId
      commentId now

/-- `like_comment`: the count, and whether the like is new. -/
def likeComment (db : Db) (commentId userId notificationId : Uuid) (now : Timestamp) :
    Except ApiException (Int × Bool) × Db :=
  db.begin fun db =>
    match CommentsRepository.getVisibleCommentMeta db commentId (some userId) with
    | none => .error .commentNotFound
    | some c =>
      match CommentLikesRepository.create db commentId userId now with
      | (false, db) => .ok ((CommentsRepository.getLikeCount db commentId, false), db)
      | (true, db) =>
        let (likeCount, db) := CommentsRepository.incrementLikeCount db commentId
        .ok ((likeCount, true), notifyAuthor db notificationId c.authorId .likeComment userId
          (some c.postId) (some commentId) now)

/-- `unlike_comment`: blinding and blocking do not keep a like from being taken back. -/
def unlikeComment (db : Db) (commentId userId : Uuid) : Except ApiException Int × Db :=
  db.begin fun db =>
    match CommentsRepository.getCommentMeta db commentId with
    | none => .error .commentNotFound
    | some c =>
      if c.deletedAt.isSome then .error .commentNotFound
      else
        match CommentLikesRepository.delete db commentId userId with
        | (true, db) => .ok (CommentsRepository.decrementLikeCount db commentId)
        | (false, db) => .ok (CommentsRepository.getLikeCount db commentId, db)

end LikeService

namespace CommentService

open Paging CommentsRepository

/-- What a reader of a post comes across: a root on a page of the list, a preview under it, or a
response on a page of its replies. -/
def Found (d : Store) (viewer : Option Uuid) (postId : Uuid) (resp : CommentResponse) : Prop :=
  ∃ page ≥ 1, ∃ size sort roots total,
    getComments d postId page size sort viewer = .ok (roots, total) ∧
    ∃ root ∈ roots, resp = root ∨ resp ∈ root.replies ∨
      ∃ size sort cursor replies more,
        getReplies d postId root.id size sort cursor viewer = .ok (replies, more) ∧ resp ∈ replies

def ShownWithContent (d : Store) (viewer : Option Uuid) (c : Comment) : Prop :=
  ∃ resp, Found d viewer c.postId resp ∧ resp.id = c.id ∧ resp.isDeleted = false ∧
    resp.content = c.content

variable {d : Store} {viewer : Option Uuid}

theorem getComments_visible (h : getComments d postId page size sort viewer = .ok r) :
    PostsRepository.postIsVisible d postId viewer = true := by
  cases hpost : PostsRepository.postIsVisible d postId viewer with
  | true => rfl
  | false =>
    simp only [getComments, ensurePostVisible, hpost, Bool.false_eq_true, if_false] at h
    cases h

theorem mem_getComments (hids : Table.Keyed Comment.id d.comments)
    (h : getComments d postId page size sort viewer = .ok (roots, total)) (hr : resp ∈ roots) :
    ∃ r, Listed d postId viewer r ∧ resp = listedRoot d viewer r := by
  rw [getComments_eq hids (getComments_visible h)] at h
  cases h
  obtain ⟨r, hslice, rfl⟩ := List.mem_map.mp hr
  have hrow := (rootOrder_perm _ _).mem_iff.mp (List.mem_of_mem_drop (List.mem_of_mem_take hslice))
  exact ⟨r, mem_rootListed.mp hrow, rfl⟩

theorem slice_first {l : List α} (h : l.length ≤ size) : slice (offsetOf 1 size) size l = l := by
  rw [offsetOf, Nat.sub_self, Nat.zero_mul, slice, List.drop_zero, List.take_of_length_le h]

theorem getComments_listed (hids : Table.Keyed Comment.id d.comments)
    (hpost : PostsRepository.postIsVisible d postId viewer = true)
    (hr : Listed d postId viewer r) :
    ∃ roots total, getComments d postId 1 d.comments.length none viewer = .ok (roots, total) ∧
      listedRoot d viewer r ∈ roots := by
  refine ⟨_, _, getComments_eq hids hpost 1 _ none, List.mem_map_of_mem ?_⟩
  have hperm := rootOrder_perm (sortMode ["latest", "popular"] "popular" none)
    (d.comments.filter (rootListed d postId viewer))
  rw [slice_first (hperm.length_eq.trans_le (List.length_filter_le _ _))]
  exact hperm.mem_iff.mpr (mem_rootListed.mpr hr)

theorem mem_getReplies
    (h : getReplies d postId rootId size sort cursor viewer = .ok (replies, more))
    (hr : resp ∈ replies) :
    ∃ c ∈ d.comments, c.parentId = some rootId ∧ VisibleTo d viewer c ∧
      resp = shownTo d viewer c := by
  have hpage : repliesPage postId rootId size sort viewer d cursor = some (replies, more) :=
    congrArg Except.toOption h
  rw [getReplies_cases] at hpage
  split at hpage
  · cases hpage
    have hrow := (mem_orderBy.mp (List.mem_of_mem_take hr))
    obtain ⟨c, hc, rfl⟩ := List.mem_map.mp (mem_beyond.mp hrow).1
    obtain ⟨hmem, hcond⟩ := List.mem_filter.mp hc
    rw [Bool.and_eq_true, beq_iff_eq, replyVisible_iff] at hcond
    exact ⟨c, hmem, hcond.1, hcond.2, rfl⟩
  · cases hpage

theorem getReplies_visible (hids : Table.Keyed Comment.id d.comments)
    (hpost : PostsRepository.postIsVisible d postId viewer = true)
    (hr : Listed d postId viewer r) (hc : c ∈ d.comments) (hp : c.parentId = some r.id)
    (hv : VisibleTo d viewer c) :
    ∃ replies more, getReplies d postId r.id d.comments.length none none viewer =
      .ok (replies, more) ∧ shownTo d viewer c ∈ replies := by
  have hsome := repliesPage_isSome hids (hr.post ▸ hpost) hr.mem hr.root hr.unblinded
    d.comments.length none none
  rw [hr.post] at hsome
  obtain ⟨⟨replies, more⟩, hpage⟩ := Option.isSome_iff_exists.mp hsome
  have hok : getReplies d postId r.id d.comments.length none none viewer = .ok (replies, more) := by
    rw [repliesPage] at hpage
    cases hget : getReplies d postId r.id d.comments.length none none viewer with
    | error e =>
      rw [hget] at hpage
      cases hpage
    | ok page =>
      rw [hget] at hpage
      cases hpage
      rfl
  refine ⟨replies, more, hok, ?_⟩
  have hitems := (replies_reads postId r.id d.comments.length none viewer).items d none _ _ hpage
  rw [id, beyond_none, List.take_of_length_le] at hitems
  · rw [hitems, mem_orderBy]
    refine List.mem_map_of_mem (List.mem_filter.mpr ⟨hc, ?_⟩)
    rw [Bool.and_eq_true, beq_iff_eq, replyVisible_iff]
    exact ⟨hp, hv⟩
  · rw [length_orderBy, replyRows, List.length_map]
    exact List.length_filter_le _ _

def OnList (d : Store) (viewer : Option Uuid) (c : Comment) : Prop :=
  c.parentId = none ∨ ∃ r, Listed d c.postId viewer r ∧ c.parentId = some r.id

theorem Found.visible (h : Found d viewer postId resp) :
    PostsRepository.postIsVisible d postId viewer = true := by
  obtain ⟨page, -, size, sort, roots, total, hget, -⟩ := h
  exact getComments_visible hget

theorem Found.cases (hids : Table.Keyed Comment.id d.comments) (h : Found d viewer postId resp) :
    (∃ r, Listed d postId viewer r ∧ resp = listedRoot d viewer r) ∨
      ∃ r c, Listed d postId viewer r ∧ c ∈ d.comments ∧ c.parentId = some r.id ∧
        VisibleTo d viewer c ∧ resp = shownTo d viewer c := by
  obtain ⟨page, -, size, sort, roots, total, hget, root, hroot, hresp⟩ := h
  obtain ⟨r, hr, rfl⟩ := mem_getComments hids hget hroot
  rcases hresp with rfl | hpreview | ⟨_, _, _, replies, more, hreplies, hmem⟩
  · exact .inl ⟨r, hr, rfl⟩
  · obtain ⟨c, hc, rfl⟩ := List.mem_map.mp hpreview
    obtain ⟨hmem, hp, hv⟩ := mem_visibleReplies.mp (List.mem_of_mem_take hc)
    exact .inr ⟨r, c, hr, hmem, hp, replyVisible_iff.mp hv, rfl⟩
  · obtain ⟨c, hc, hp, hv, rfl⟩ := mem_getReplies hreplies hmem
    exact .inr ⟨r, c, hr, hc, hp, hv, rfl⟩

theorem shownWithContent_iff (hids : Table.Keyed Comment.id d.comments) (hc : c ∈ d.comments) :
    ShownWithContent d viewer c ↔ PostsRepository.postIsVisible d c.postId viewer = true ∧
      VisibleTo d viewer c ∧ OnList d viewer c := by
  constructor
  · rintro ⟨resp, hfound, hid, hdel, -⟩
    apply And.intro hfound.visible
    rcases hfound.cases hids with ⟨r, hr, rfl⟩ | ⟨r, c', hr, hc', hp, hv, rfl⟩
    · obtain rfl : r = c := hids.eq hr.mem hc hid
      have hlive : r.deletedAt = none := by simpa [listedRoot, shownTo, commentToResponse] using hdel
      exact ⟨⟨hlive, hr.unblinded, hr.unblocked⟩, .inl hr.root⟩
    · obtain rfl : c' = c := hids.eq hc' hc hid
      exact ⟨hv, .inr ⟨r, hr, hp⟩⟩
  · rintro ⟨hpost, hv, hroot | ⟨r, hr, hp⟩⟩
    · have hlisted : Listed d c.postId viewer c :=
        ⟨hc, rfl, hroot, hv.unblinded, hv.unblocked, .inl hv.undeleted⟩
      obtain ⟨roots, total, hget, hmem⟩ := getComments_listed hids hpost hlisted
      refine ⟨_, ⟨1, le_rfl, _, _, _, _, hget, _, hmem, .inl rfl⟩, rfl, ?_, ?_⟩
      · simp [listedRoot, shownTo, commentToResponse, hv.undeleted]
      · simp [listedRoot, shownTo, commentToResponse, hv.undeleted]
    · obtain ⟨roots, total, hget, hmem⟩ := getComments_listed hids hpost hr
      obtain ⟨replies, more, hreplies, hshown⟩ := getReplies_visible hids hpost hr hc hp hv
      refine ⟨_, ⟨1, le_rfl, _, _, _, _, hget, _, hmem, .inr (.inr ⟨_, _, _, _, _, hreplies, hshown⟩)⟩,
        rfl, ?_, ?_⟩
      · simp [shownTo, commentToResponse, hv.undeleted]
      · simp [shownTo, commentToResponse, hv.undeleted]

/-- Under a visible reply a root of the post stays on the list unless it is blinded or its author
is blocked. -/
theorem onList_iff (hc : c ∈ d.comments) (hv : VisibleTo d viewer c) :
    OnList d viewer c ↔ c.parentId = none ∨
      ∃ r ∈ d.comments, c.parentId = some r.id ∧ r.postId = c.postId ∧ r.parentId = none ∧
        r.isBlinded = false ∧ ¬ Blocks d viewer r.authorId := by
  refine or_congr_right ⟨?_, ?_⟩
  · rintro ⟨r, hr, hp⟩
    exact ⟨r, hr.mem, hp, hr.post, hr.root, hr.unblinded, hr.unblocked⟩
  · rintro ⟨r, hr, hp, hpost, hroot, hblind, hblock⟩
    exact ⟨r, ⟨hr, hpost, hroot, hblind, hblock, .inr ⟨c, hc, hp, hv⟩⟩, hp⟩

theorem getVisibleCommentMeta_isSome (hids : Table.Keyed Comment.id d.comments)
    (hc : c ∈ d.comments) :
    (getVisibleCommentMeta d.toDb c.id viewer).isSome = true ↔ VisibleTo d viewer c := by
  rw [getVisibleCommentMeta, Option.isSome_map, List.find?_isSome, ← replyVisible_iff]
  constructor
  · rintro ⟨c', hc', hcond⟩
    rw [Bool.and_eq_true, beq_iff_eq] at hcond
    obtain rfl := hids.eq hc' hc hcond.1
    exact hcond.2
  · intro hv
    exact ⟨c, hc, by rw [Bool.and_eq_true, beq_iff_eq]; exact ⟨rfl, hv⟩⟩

end CommentService

theorem LikeService.likeComment_created (db : Db) (commentId userId notificationId : Uuid)
    (now : Timestamp) :
    (∃ n, (LikeService.likeComment db commentId userId notificationId now).1 = .ok (n, true)) ↔
      (CommentsRepository.getVisibleCommentMeta db commentId (some userId)).isSome = true ∧
        CommentLikesRepository.liked db commentId userId = false := by
  rw [LikeService.likeComment]
  cases hmeta : CommentsRepository.getVisibleCommentMeta db commentId (some userId) with
  | none => simp [Db.begin, hmeta]
  | some c =>
    cases hliked : CommentLikesRepository.liked db commentId userId with
    | true => simp [Db.begin, hmeta, CommentLikesRepository.create, hliked]
    | false =>
      refine iff_of_true ?_ ⟨rfl, rfl⟩
      simp only [Db.begin, hmeta, CommentLikesRepository.create, hliked, Bool.false_eq_true,
        if_false]
      exact ⟨_, rfl⟩

open CommentService in
/-- A new like is on a comment that its giver is shown exactly if the post is on display and, for a
reply, the root is neither blinded nor by a blocked author: the guard of a like asks for neither. -/
theorem LikeService.liked_shown_iff (d : Store) (hids : Table.Keyed Comment.id d.comments)
    (c : Comment) (hc : c ∈ d.comments) (userId notificationId : Uuid) (now : Timestamp) :
    ((∃ n, (LikeService.likeComment d.toDb c.id userId notificationId now).1 = .ok (n, true)) →
        ShownWithContent d (some userId) c) ↔
      (VisibleTo d (some userId) c → CommentLikesRepository.liked d.toDb c.id userId = false →
        PostsRepository.postIsVisible d c.postId (some userId) = true ∧
        (c.parentId = none ∨ ∃ r ∈ d.comments, c.parentId = some r.id ∧ r.postId = c.postId ∧
          r.parentId = none ∧ r.isBlinded = false ∧ ¬ Blocks d (some userId) r.authorId)) := by
  rw [LikeService.likeComment_created, getVisibleCommentMeta_isSome hids hc, and_imp,
    shownWithContent_iff hids hc]
  refine forall₂_congr fun hv _ => ?_
  rw [onList_iff hc hv]
  exact and_congr_right fun _ => and_iff_right hv

namespace LikeService

open CommentService

def blindedThread : Store :=
  { thread with comments := [{ comment 20 none none with isBlinded := true }, comment 21 (some 20) none] }

theorem reply_not_onList : ¬ OnList blindedThread (some 3) (comment 21 (some 20) none) := by
  rintro (h | ⟨r, hr, hp⟩)
  · cases h
  · have hid : r.id = 20 := (Option.some.inj hp).symm
    have hblind : ∀ r ∈ blindedThread.comments, r.id = 20 → r.isBlinded = true := by decide
    exact Bool.noConfusion ((hblind r hr.mem hid).symm.trans hr.unblinded)

/-- The reply can be liked, and no list shows it. -/
theorem liked_unseen :
    (LikeService.likeComment blindedThread.toDb 21 3 50 9).1 = .ok (1, true) ∧
      ¬ ShownWithContent blindedThread (some 3) (comment 21 (some 20) none) := by
  refine ⟨rfl, fun h => ?_⟩
  have hids : Table.Keyed Comment.id blindedThread.comments := by decide
  exact reply_not_onList ((shownWithContent_iff hids (by decide)).mp h).2.2

/-- A root that is only deleted does not hide its reply. -/
theorem liked_shown_iff_thread :
    ShownWithContent thread (some 3) (comment 21 (some 20) none) := by
  refine (liked_shown_iff thread (by decide) _ (by decide) 3 50 9).mpr (fun _ _ => ?_) ⟨1, rfl⟩
  refine ⟨by decide, .inr ⟨comment 20 none (some 5), by decide, rfl, rfl, rfl, rfl, ?_⟩⟩
  rintro ⟨b, hb, -⟩
  cases hb

end LikeService

end PuppyTalk
