import PuppyTalk.PostsRepository

namespace PuppyTalk

def Comment.alive (c : Comment) : Bool := c.deletedAt.isNone && !c.isBlinded

namespace CommentsRepository

structure CommentMeta where
  postId : Uuid
  parentId : Option Uuid
  authorId : Option Uuid
  deletedAt : Option Timestamp
  deriving DecidableEq, Repr

def getCommentMeta (db : Db) (commentId : Uuid) : Option CommentMeta :=
  (Table.row Comment.id db.comments commentId).map fun c =>
    { postId := c.postId, parentId := c.parentId, authorId := c.authorId, deletedAt := c.deletedAt }

/-- `create_comment`; the id is the one `new_uuid7` draws. -/
def createComment (db : Db) (id postId userId : Uuid) (content : String) (parentId : Option Uuid)
    (now : Timestamp) : Db :=
  { db with comments := db.comments ++ [{
      id := id, postId := postId, authorId := some userId, parentId := parentId,
      content := content, likeCount := 0, reportCount := 0, isBlinded := false,
      createdAt := now, updatedAt := now, deletedAt := none }] }

/-- `delete_comment`: the post's id comes back only for a comment that was on display. -/
def deleteComment (db : Db) (postId commentId : Uuid) (now : Timestamp) : Option Uuid × Db :=
  let (r, db) := db.updateComments
    (fun c => c.id == commentId && c.postId == postId && c.deletedAt.isNone)
    (fun c => { c with deletedAt := some now })
    (fun c => if c.isBlinded then none else some c.postId)
  (r.join, db)

def softDeleteByPost (db : Db) (postId : Uuid) (now : Timestamp) : Db :=
  let comments := Table.update (fun c => c.postId == postId && c.deletedAt.isNone)
    (fun c => { c with deletedAt := some now }) db.comments
  { db with comments := comments }

def incrementReportCount (db : Db) (commentId : Uuid) : Option Int × Db :=
  db.updateComments (fun c => c.id == commentId && c.deletedAt.isNone && c.authorId.isSome)
    (fun c => { c with reportCount := c.reportCount + 1 }) (·.reportCount)

def blindIfVisible (db : Db) (commentId : Uuid) (now : Timestamp) : Option Uuid × Db :=
  db.updateComments (fun c => c.id == commentId && c.deletedAt.isNone && !c.isBlinded)
    (fun c => { c with isBlinded := true, updatedAt := now }) (·.postId)

def unblindIfBlinded (db : Db) (commentId : Uuid) (now : Timestamp) : Option Uuid × Db :=
  db.updateComments (fun c => c.id == commentId && c.deletedAt.isNone && c.isBlinded)
    (fun c => { c with isBlinded := false, updatedAt := now }) (·.postId)

/-- `reset_reports` through `_update_comment` with `alive` and `touch`. -/
def resetReports (db : Db) (commentId : Uuid) (now : Timestamp) : Bool × Db :=
  let (r, db) := db.updateComments (fun c => c.id == commentId && c.deletedAt.isNone)
    (fun c => { c with reportCount := 0, updatedAt := now }) (·.id)
  (r.isSome, db)

/-- The condition of `count_visible_for_post` on one comment; the parent comes from an outer join,
and a missing parent is not unblinded. -/
def shown (comments : List Comment) (c : Comment) : Bool :=
  c.alive &&
    match c.parentId with
    | none => true
    | some parentId => (Table.row Comment.id comments parentId).any Comment.alive

def countVisibleForPost (db : Db) (postId : Uuid) : Nat :=
  db.comments.countP fun c => c.postId == postId && shown db.comments c

end CommentsRepository

namespace NotificationsRepository

def insert (db : Db) (id userId : Uuid) (kind : NotificationKind)
    (actorId postId commentId : Option Uuid) (now : Timestamp) : Db :=
  { db with notifications := db.notifications ++ [{
      id := id, userId := userId, kind := kind, actorId := actorId, postId := postId,
      commentId := commentId, readAt := none, createdAt := now }] }

end NotificationsRepository

namespace CommentService

/-- The check of `create_comment` on a given parent. -/
def parentAccepted (postId : Uuid) (parent : Option CommentsRepository.CommentMeta) : Bool :=
  match parent with
  | none => false
  | some parent => parent.deletedAt.isNone && parent.postId == postId && parent.parentId.isNone

/-- `create_comment` with the ids its two inserts draw. -/
def createComment (db : Db) (postId userId : Uuid) (content : String) (parentId : Option Uuid)
    (commentId notificationId : Uuid) (now : Timestamp) : Except ApiException Uuid × Db :=
  db.begin fun db =>
    match PostsRepository.getVisiblePostAuthor db postId (some userId) with
    | none => .error .postNotFound
    | some postAuthorId =>
      if parentId.all fun p => parentAccepted postId (CommentsRepository.getCommentMeta db p) then
        let db := CommentsRepository.createComment db commentId postId userId content parentId now
        let (_, db) := PostsRepository.incrementCommentCount db postId now
        match postAuthorId with
        | none => .ok (commentId, db)
        | some author =>
          if author = userId then .ok (commentId, db)
          else .ok (commentId, NotificationsRepository.insert db notificationId author
            .commentOnPost (some userId) (some postId) (some commentId) now)
      else .error .commentNotFound

def deleteComment (db : Db) (postId commentId : Uuid) (now : Timestamp) :
    Except ApiException Unit × Db :=
  db.begin fun db =>
    match CommentsRepository.deleteComment db postId commentId now with
    | (some deletedFrom, db) => .ok ((), (PostsRepository.decrementCommentCount db deletedFrom now).2)
    | (none, db) =>
      match CommentsRepository.getCommentMeta db commentId with
      | none => .error .commentNotFound
      | some c =>
        if c.postId ≠ postId ∨ c.deletedAt = none then .error .commentNotFound else .ok ((), db)

end CommentService

namespace CommentModeration

def resyncCount (db : Db) (postId : Uuid) (now : Timestamp) : Db :=
  (PostsRepository.setCommentCount db postId (CommentsRepository.countVisibleForPost db postId)
    now).2

def isAlive (db : Db) (commentId : Uuid) : Bool :=
  (CommentsRepository.getCommentMeta db commentId).any fun c => c.deletedAt.isNone

def afterTransition (commentId : Uuid) (now : Timestamp) : Option Uuid × Db → Bool × Db
  | (some postId, db) => (true, resyncCount db postId now)
  | (none, db) => (isAlive db commentId, db)

def setBlinded (db : Db) (commentId : Uuid) (now : Timestamp) : Bool × Db :=
  afterTransition commentId now (CommentsRepository.blindIfVisible db commentId now)

def unblind (db : Db) (commentId : Uuid) (now : Timestamp) : Bool × Db :=
  afterTransition commentId now (CommentsRepository.unblindIfBlinded db commentId now)

def resetReports (db : Db) (commentId : Uuid) (now : Timestamp) : Bool × Db :=
  CommentsRepository.resetReports (unblind db commentId now).2 commentId now

end CommentModeration

end PuppyTalk
