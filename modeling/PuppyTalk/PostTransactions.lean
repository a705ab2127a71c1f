import PuppyTalk.Comments
import PuppyTalk.Statements

namespace PuppyTalk.Backend

def referencesIfSome [DecidableEq κ] (T : Txn.TableOf Store Row α κ) (parent : Uuid → α → Bool) :
    Option Uuid → TxM Unit
  | none => pure ()
  | some id => references T (parent id)

/-- `NotificationService.record`. -/
def recordNotification (id recipientUserId : Uuid) (kind : NotificationKind) (actorId : Uuid)
    (postId commentId : Option Uuid) (now : Timestamp) : TxM Unit :=
  insertRow .insertNotification Tables.notifications
    { id := id, userId := recipientUserId, kind := kind, actorId := some actorId, postId := postId,
      commentId := commentId, readAt := none, createdAt := now } do
    references Tables.users (·.id == recipientUserId)
    references Tables.users (·.id == actorId)
    referencesIfSome Tables.posts (fun id p => p.id == id) postId
    referencesIfSome Tables.comments (fun id c => c.id == id) commentId

def notifyAuthor (notificationId : Uuid) (authorId : Option Uuid) (kind : NotificationKind)
    (actorId : Uuid) (postId commentId : Option Uuid) (now : Timestamp) : TxM Unit :=
  match authorId with
  | none => pure ()
  | some author =>
    if author = actorId then pure ()
    else recordNotification notificationId author kind actorId postId commentId now

namespace PostsRepository

def updatePost (name : Statement) (postId : Uuid) (alive : Bool) (now : Timestamp)
    (values : Post → Post) (hid : ∀ p, (values p).id = p.id) (returning : Post → β) :
    TxM (Option β) :=
  updateOneReturning name Tables.posts (fun p => p.id == postId && (!alive || p.deletedAt.isNone))
    (fun p => { values p with updatedAt := now }) hid returning

def getVisiblePostAuthor (postId : Uuid) (currentUserId : Option Uuid) :
    TxM (Option (Option Uuid)) :=
  query .getVisiblePostAuthor fun d =>
    PuppyTalk.PostsRepository.getVisiblePostAuthor d.toDb postId currentUserId

def postIsVisible (postId : Uuid) (currentUserId : Option Uuid) : TxM Bool :=
  query .postIsVisible fun d =>
    d.posts.any fun p => p.id == postId &&
      PuppyTalk.PostsRepository.postVisible d.toDb currentUserId p

def softDelete (postId : Uuid) (now : Timestamp) : TxM Bool := do
  match ← updatePost .softDelete postId true now (fun p => { p with deletedAt := some now })
    (fun _ => rfl) (·.id) with
  | none => pure false
  | some _ =>
    let _ ← deleteRows .deletePostImages Tables.postImages (·.postId == postId)
    pure true

def incrementViewCount (postId : Uuid) (delta : Int) (now : Timestamp) : TxM Bool := do
  if delta ≤ 0 then pure true
  else
    let r ← updatePost .incrementViewCount postId true now
      (fun p => { p with viewCount := p.viewCount + delta }) (fun _ => rfl) (·.id)
    pure r.isSome

def incrementCommentCount (postId : Uuid) (now : Timestamp) : TxM Bool := do
  let r ← updatePost .incrementCommentCount postId false now
    (fun p => { p with commentCount := p.commentCount + 1 }) (fun _ => rfl) (·.id)
  pure r.isSome

def decrementCommentCount (postId : Uuid) (now : Timestamp) : TxM Bool := do
  let r ← updatePost .decrementCommentCount postId false now
    (fun p => { p with commentCount := max (p.commentCount - 1) 0 }) (fun _ => rfl) (·.id)
  pure r.isSome

end PostsRepository

namespace CommentsRepository

open PuppyTalk.CommentsRepository (CommentMeta)

def getCommentMeta (commentId : Uuid) : TxM (Option CommentMeta) :=
  query .getCommentMeta fun d => PuppyTalk.CommentsRepository.getCommentMeta d.toDb commentId

def getVisibleCommentMeta (commentId : Uuid) (currentUserId : Option Uuid) :
    TxM (Option CommentMeta) :=
  query .getVisibleCommentMeta fun d =>
    (d.comments.find? fun c => c.id == commentId && c.alive &&
      authorNotBlocked d.toDb c.authorId currentUserId).map fun c =>
      { postId := c.postId, parentId := c.parentId, authorId := c.authorId,
        deletedAt := c.deletedAt }

/-- `create_comment`; the id is the one `new_uuid7` draws. -/
def createComment (id postId userId : Uuid) (content : String) (parentId : Option Uuid)
    (now : Timestamp) : TxM Unit :=
  insertRow .insertComment Tables.comments
    { id := id, postId := postId, authorId := some userId, parentId := parentId,
      content := content, likeCount := 0, reportCount := 0, isBlinded := false,
      createdAt := now, updatedAt := now, deletedAt := none } do
    references Tables.posts (·.id == postId)
    references Tables.users (·.id == userId)
    referencesIfSome Tables.comments (fun id c => c.id == id) parentId

/-- `delete_comment`: the post's id comes back only for a comment that was on display. -/
def deleteComment (postId commentId : Uuid) (now : Timestamp) : TxM (Option Uuid) := do
  let r ← updateOneReturning .deleteComment Tables.comments
    (fun c => c.id == commentId && c.postId == postId && c.deletedAt.isNone)
    (fun c => { c with deletedAt := some now }) (fun _ => rfl)
    (fun c => if c.isBlinded then none else some c.postId)
  pure r.join

def softDeleteByPost (postId : Uuid) (now : Timestamp) : TxM Unit :=
  updateRows .softDeleteByPost Tables.comments (fun c => c.postId == postId && c.deletedAt.isNone)
    (fun c => { c with deletedAt := some now }) fun _ => rfl

end CommentsRepository

namespace PostService

def deletePost (postId : Uuid) (now : Timestamp) : TxM Unit :=
  transaction do
    let deleted ← PostsRepository.softDelete postId now
    if deleted then
      CommentsRepository.softDeleteByPost postId now
      let _ ← deleteRows .deleteByPostId Tables.postLikes (·.postId == postId)
      pure ()
    else raise .postNotFound

/-- The part of `get_post_detail` that counts a view in the database itself. -/
def incrementView (postId : Uuid) (now : Timestamp) : TxM Unit :=
  transaction do
    let _ ← (PostsRepository.incrementViewCount postId 1 now).tryExcept onStaleData
    pure ()

/-- The updates of `flush_view_counts_to_db`, one for each field of the drained buffer. -/
def incrementViewCounts (now : Timestamp) : List (Uuid × Int) → TxM Unit
  | [] => pure ()
  | (postId, delta) :: fields => do
    if 0 < delta then
      let _ ← PostsRepository.incrementViewCount postId delta now
      incrementViewCounts now fields
    else incrementViewCounts now fields

/-- The transaction of `flush_view_counts_to_db`. -/
def flushViewCounts (fields : List (Uuid × Int)) (now : Timestamp) : TxM Unit :=
  transaction (incrementViewCounts now fields)

end PostService

namespace CommentService

/-- The check of `create_comment` on the parent. -/
def checkParent (postId : Uuid) : Option Uuid → TxM Unit
  | none => pure ()
  | some parentId => do
    let parent ← CommentsRepository.getCommentMeta parentId
    if PuppyTalk.CommentService.parentAccepted postId parent then pure () else raise .commentNotFound

/-- `create_comment` with the ids its two inserts draw. -/
def createComment (postId userId : Uuid) (content : String) (parentId : Option Uuid)
    (commentId notificationId : Uuid) (now : Timestamp) : TxM Unit :=
  transaction do
    match ← PostsRepository.getVisiblePostAuthor postId (some userId) with
    | none => raise .postNotFound
    | some postAuthorId =>
      checkParent postId parentId
      CommentsRepository.createComment commentId postId userId content parentId now
      let _ ← (PostsRepository.incrementCommentCount postId now).tryExcept onStaleData
      notifyAuthor notificationId postAuthorId .commentOnPost userId (some postId) (some commentId)
        now

def deleteComment (postId commentId : Uuid) (now : Timestamp) : TxM Unit :=
  transaction do
    match ← CommentsRepository.deleteComment postId commentId now with
    | some deletedFrom =>
      let _ ← (PostsRepository.decrementCommentCount deletedFrom now).tryExcept onStaleData
      pure ()
    | none =>
      match ← CommentsRepository.getCommentMeta commentId with
      | none => raise .commentNotFound
      | some c =>
        if c.postId ≠ postId ∨ c.deletedAt = none then raise .commentNotFound else pure ()

end CommentService

structure LikeNotify where
  authorId : Option Uuid
  kind : NotificationKind
  postId : Option Uuid
  commentId : Option Uuid

/-- `_Target`: the tables of the links and of the counters, and the two checks. -/
structure LikeTarget where
  Link : Type
  Target : Type
  links : Txn.TableOf Store Row Link (Uuid × Uuid)
  counters : Txn.TableOf Store Row Target Uuid
  link : Uuid → Uuid → Timestamp → Link
  likeCount : Target → Int
  setLikeCount : Int → Target → Target
  touch : Timestamp → Target → Target
  key_set : ∀ n a, counters.key (setLikeCount n a) = counters.key a
  key_touch : ∀ now a, counters.key (touch now a) = counters.key a
  resolveForLike : Uuid → Uuid → TxM LikeNotify
  ensureUnlikeable : Uuid → TxM Unit
  parent : Uuid → TxM Unit

def resolvePostForLike (postId userId : Uuid) : TxM LikeNotify := do
  match ← PostsRepository.getVisiblePostAuthor postId (some userId) with
  | none => raise .postNotFound
  | some authorId =>
    pure { authorId := authorId, kind := .likePost, postId := some postId, commentId := none }

def ensurePostUnlikeable (postId : Uuid) : TxM Unit := do
  let visible ← PostsRepository.postIsVisible postId none
  if visible then pure () else raise .postNotFound

def resolveCommentForLike (commentId userId : Uuid) : TxM LikeNotify := do
  match ← CommentsRepository.getVisibleCommentMeta commentId (some userId) with
  | none => raise .commentNotFound
  | some c =>
    pure { authorId := c.authorId, kind := .likeComment, postId := some c.postId,
           commentId := some commentId }

def ensureCommentUnlikeable (commentId : Uuid) : TxM Unit := do
  match ← CommentsRepository.getCommentMeta commentId with
  | none => raise .commentNotFound
  | some c => if c.deletedAt.isSome then raise .commentNotFound else pure ()

/-- `_POST` and `_COMMENT`; only the counter of a post also writes `updated_at`. -/
def likeTarget : TargetType → LikeTarget
  | .post =>
    { Link := PostLike
      Target := Post
      links := Tables.postLikes
      counters := Tables.posts
      link := fun postId userId now => { postId := postId, userId := userId, createdAt := now }
      likeCount := (·.likeCount)
      setLikeCount := fun n p => { p with likeCount := n }
      touch := fun now p => { p with updatedAt := now }
      key_set := fun _ _ => rfl
      key_touch := fun _ _ => rfl
      resolveForLike := resolvePostForLike
      ensureUnlikeable := ensurePostUnlikeable
      parent := fun postId => references Tables.posts (·.id == postId) }
  | .comment =>
    { Link := CommentLike
      Target := Comment
      links := Tables.commentLikes
      counters := Tables.comments
      link := fun commentId userId now =>
        { commentId := commentId, userId := userId, createdAt := now }
      likeCount := (·.likeCount)
      setLikeCount := fun n c => { c with likeCount := n }
      touch := fun _ c => c
      key_set := fun _ _ => rfl
      key_touch := fun _ _ => rfl
      resolveForLike := resolveCommentForLike
      ensureUnlikeable := ensureCommentUnlikeable
      parent := fun commentId => references Tables.comments (·.id == commentId) }

namespace LikeTarget

variable (t : LikeTarget)

def create (targetId userId : Uuid) (now : Timestamp) : TxM Bool :=
  insertIgnore .insertLike t.links (t.link targetId userId now) do
    t.parent targetId
    references Tables.users (·.id == userId)

def delete (targetId userId : Uuid) : TxM Bool := do
  let deleted ← deleteRows .deleteLike t.links fun l => decide (t.links.key l = (targetId, userId))
  pure (decide (0 < deleted))

def updateLikeCount (name : Statement) (targetId : Uuid) (f : Int → Int) (now : Timestamp) :
    TxM Int := do
  let row ← updateOneReturning name t.counters (fun a => decide (t.counters.key a = targetId))
    (fun a => t.touch now (t.setLikeCount (f (t.likeCount a)) a))
    (fun a => (t.key_touch now _).trans (t.key_set _ a)) t.likeCount
  pure (row.getD 0)

def incrementLikeCount (targetId : Uuid) (now : Timestamp) : TxM Int :=
  t.updateLikeCount .incrementLikeCount targetId (fun n => n + 1) now

def decrementLikeCount (targetId : Uuid) (now : Timestamp) : TxM Int :=
  t.updateLikeCount .decrementLikeCount targetId (fun n => max (n - 1) 0) now

def getLikeCount (targetId : Uuid) : TxM Int :=
  query .getLikeCount fun d => ((t.counters.get d targetId).map t.likeCount).getD 0

end LikeTarget

namespace LikeService

/-- `_like`: the count, and whether the like is new. -/
def like (t : LikeTarget) (targetId userId notificationId : Uuid) (now : Timestamp) :
    TxM (Int × Bool) :=
  transaction do
    let notify ← t.resolveForLike targetId userId
    Txn.Prog.tryExcept onStaleData do
      let inserted ← t.create targetId userId now
      if inserted then
        let likeCount ← t.incrementLikeCount targetId now
        notifyAuthor notificationId notify.authorId notify.kind userId notify.postId
          notify.commentId now
        pure (likeCount, true)
      else
        let likeCount ← t.getLikeCount targetId
        pure (likeCount, false)

def unlike (t : LikeTarget) (targetId userId : Uuid) (now : Timestamp) : TxM Int :=
  transaction do
    t.ensureUnlikeable targetId
    Txn.Prog.tryExcept onStaleData do
      let deleted ← t.delete targetId userId
      if deleted then t.decrementLikeCount targetId now else t.getLikeCount targetId

end LikeService

end PuppyTalk.Backend
