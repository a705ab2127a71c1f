import PuppyTalk.Comments
import PuppyTalk.Schemas
import PuppyTalk.Store

namespace PuppyTalk

open Paging

def PostsRepository.postIsVisible (d : Store) (postId : Uuid) (currentUserId : Option Uuid) : Bool :=
  d.posts.any fun p => p.id == postId && postVisible d.toDb currentUserId p

namespace CommentsRepository

/-- `_reply_visible_conditions`. -/
def replyVisible (d : Store) (currentUserId : Option Uuid) (c : Comment) : Bool :=
  c.deletedAt.isNone && !c.isBlinded && authorNotBlocked d.toDb c.authorId currentUserId

def rootListed (d : Store) (postId : Uuid) (currentUserId : Option Uuid) (c : Comment) : Bool :=
  let replyExists := d.comments.any fun reply =>
    reply.parentId == some c.id && replyVisible d currentUserId reply
  c.postId == postId && c.parentId.isNone && !c.isBlinded && (c.deletedAt.isNone || replyExists) &&
    authorNotBlocked d.toDb c.authorId currentUserId

def rootOrder (sort : String) (rows : List Comment) : List Comment :=
  if sort = "popular" then orderBy (· > ·) (fun c => toLex (c.likeCount, c.id)) rows
  else orderBy (· > ·) Comment.id rows

def pageRootComments (d : Store) (postId : Uuid) (offset size : Nat) (sort : String)
    (currentUserId : Option Uuid) : List Comment × Nat :=
  let rows := d.comments.filter (rootListed d postId currentUserId)
  (slice offset size (rootOrder sort rows), rows.length)

def getReplyPreviewsForRoots (d : Store) (rootIds : List Uuid) (limitPerRoot : Nat)
    (currentUserId : Option Uuid) : List (Comment × Nat) :=
  if rootIds = [] then [] else
  let rows := d.comments.filter fun c =>
    c.parentId.any rootIds.contains && replyVisible d currentUserId c
  let numbered := ranked (· > ·) Comment.id Comment.parentId rows
  d.comments.flatMap fun c =>
    (numbered.filter fun (r, rn, _) => c.id == r.id && rn ≤ limitPerRoot).map
      fun (_, _, replyTotal) => (c, replyTotal)

def applyIdKeyset (sort : String) (cursor : Option Uuid) (size : Nat) (rows : List Comment) :
    List Comment :=
  if sort = "oldest" then
    (orderBy (· < ·) Comment.id (rows.filter fun c => cursor.all (· < c.id))).take (size + 1)
  else
    (orderBy (· > ·) Comment.id (rows.filter fun c => cursor.all (c.id < ·))).take (size + 1)

def getRepliesPage (d : Store) (parentId : Uuid) (size : Nat) (cursor : Option Uuid)
    (sort : String) (currentUserId : Option Uuid) : List Comment :=
  applyIdKeyset sort cursor size <| d.comments.filter fun c =>
    c.parentId == some parentId && replyVisible d currentUserId c

/-- `get_visible_root_meta`: a deleted root may still be opened. -/
def getVisibleRootMeta (d : Store) (commentId : Uuid) : Option CommentMeta :=
  (d.comments.find? fun c => c.id == commentId && !c.isBlinded).map fun c =>
    { postId := c.postId, parentId := c.parentId, authorId := c.authorId, deletedAt := c.deletedAt }

end CommentsRepository

def CommentLikesRepository.getLikedCommentIdsForUser (d : Store) (userId : Uuid)
    (commentIds : List Uuid) : List Uuid :=
  (d.commentLikes.filter fun l => l.userId == userId && commentIds.contains l.commentId).map
    (·.commentId)

/-- `CommentResponse`, with the author by id. -/
structure CommentResponse where
  id : Uuid
  content : String
  author : Option Uuid
  createdAt : Timestamp
  updatedAt : Timestamp
  postId : Uuid
  parentId : Option Uuid
  likeCount : Int
  isLiked : Bool
  isEdited : Bool
  isDeleted : Bool
  replies : List CommentResponse
  replyCount : Nat
  hasMoreReplies : Bool

namespace CommentService

def deletedContentPlaceholder : String := "삭제된 댓글입니다."

def replyPreviewLimit : Nat := 3

def ensurePostVisible (d : Store) (postId : Uuid) (currentUserId : Option Uuid) :
    Except ApiException Unit :=
  if PostsRepository.postIsVisible d postId currentUserId then .ok () else .error .postNotFound

def commentToResponse (c : Comment) (likedIds : List Uuid) : CommentResponse where
  id := c.id
  content := if c.deletedAt.isNone then c.content else deletedContentPlaceholder
  author := c.authorId
  createdAt := c.createdAt
  updatedAt := c.updatedAt
  postId := c.postId
  parentId := c.parentId
  likeCount := c.likeCount
  isLiked := likedIds.contains c.id
  isEdited := decide (c.createdAt < c.updatedAt)
  isDeleted := c.deletedAt.isSome
  replies := []
  replyCount := 0
  hasMoreReplies := false

/-- One turn of the loop of `_build_comment_tree`; the roots have distinct ids. -/
def attachPreview (likedIds : List Uuid) (resps : List CommentResponse) (preview : Comment × Nat) :
    List CommentResponse :=
  resps.map fun parent =>
    if preview.1.parentId = some parent.id then
      { parent with
        replies := parent.replies ++ [commentToResponse preview.1 likedIds]
        replyCount := preview.2 }
    else parent

def buildCommentTree (roots : List Comment) (replyPreviews : List (Comment × Nat))
    (likedIds : List Uuid) : List CommentResponse :=
  let rootResps := roots.map (commentToResponse · likedIds)
  (replyPreviews.foldl (attachPreview likedIds) rootResps).map fun resp =>
    { resp with
      replies := orderBy (· > ·) CommentResponse.id resp.replies
      hasMoreReplies := decide (resp.replies.length < resp.replyCount) }

def likedIdsOf (d : Store) (currentUserId : Option Uuid) (commentIds : List Uuid) : List Uuid :=
  match currentUserId with
  | none => []
  | some userId => CommentLikesRepository.getLikedCommentIdsForUser d userId commentIds

/-- `sort if sort in allowed else default`. -/
def sortMode (allowed : List String) (default : String) (sort : Option String) : String :=
  (sort.filter allowed.contains).getD default

def getComments (d : Store) (postId : Uuid) (page size : Nat) (sort : Option String)
    (currentUserId : Option Uuid) : Except ApiException (List CommentResponse × Nat) := do
  let sort := sortMode ["latest", "popular"] "popular" sort
  ensurePostVisible d postId currentUserId
  let (roots, total) := CommentsRepository.pageRootComments d postId (offsetOf page size) size
    sort currentUserId
  let replyPreviews := CommentsRepository.getReplyPreviewsForRoots d (roots.map (·.id))
    replyPreviewLimit currentUserId
  let commentIds := roots.map (·.id) ++ replyPreviews.map (·.1.id)
  let likedIds := likedIdsOf d currentUserId commentIds
  pure (buildCommentTree roots replyPreviews likedIds, total)

def getReplies (d : Store) (postId commentId : Uuid) (size : Nat) (sort : Option String)
    (cursor : Option Uuid) (currentUserId : Option Uuid) :
    Except ApiException (List CommentResponse × Bool) := do
  let sort := sortMode ["latest", "oldest"] "latest" sort
  ensurePostVisible d postId currentUserId
  match CommentsRepository.getVisibleRootMeta d commentId with
  | none => .error .commentNotFound
  | some root =>
    if root.postId ≠ postId ∨ root.parentId.isSome then .error .commentNotFound
    else
      let fetched := CommentsRepository.getRepliesPage d commentId size cursor sort currentUserId
      let (replies, hasMore) := splitPage fetched size
      let likedIds := likedIdsOf d currentUserId (replies.map (·.id))
      pure (replies.map (commentToResponse · likedIds), hasMore)

end CommentService

/-- `GET /posts/{post_id}/comments`. -/
def CommentsRouter.getComments (d : Store) (postId : Uuid) (page size : Nat) (sort : Option String)
    (currentUserId : Option Uuid) : Except ApiException (PaginatedResponse CommentResponse) := do
  let (result, total) ← CommentService.getComments d postId page size sort currentUserId
  pure (.fromPage result page size total)

end PuppyTalk
