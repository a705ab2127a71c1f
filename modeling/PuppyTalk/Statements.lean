import PuppyTalk.KeyValue
import PuppyTalk.Store

namespace PuppyTalk.Backend

/-- The statements of the services. A name carries the data that a property speaks of. -/
inductive Statement where
  | foreignKey
  | cascade
  | getVisiblePostAuthor
  | postIsVisible
  | getVisibleCommentMeta
  | getCommentMeta
  | insertLike
  | deleteLike
  | incrementLikeCount
  | decrementLikeCount
  | getLikeCount
  | insertNotification
  | incrementViewCount
  | softDelete
  | deletePostImages
  | softDeleteByPost
  | deleteByPostId
  | insertComment
  | incrementCommentCount
  | deleteComment
  | decrementCommentCount
  | incrementReportCount
  | insertReport
  | deleteByTarget
  | setBlinded
  | unblind
  | resetReports
  | countVisibleForPost (postId : Uuid)
  | setCommentCount
  | assertImagesAttachable
  | selectPost
  | deletePostHashtags
  | insertHashtag
  | selectHashtags
  | insertPostHashtag
  | selectPostImages
  | deletePostImage
  | flushPost
  | insertPostImage
  | selectPurgeableUserIds
  | decrementLikeCounts (target : TargetType)
  | purgeUsersByIds
  | emailExists
  | nicknameExists
  | createUser
  | claimImageOwnership
  | getUser
  | updateUser
  | blockExists
  | insertBlock
  | deleteBlock
  /-- `get_status_and_block_between`, with the room that the socket has in its cache. -/
  | getStatusAndBlockBetween (cachedRoomId : Option Uuid)
  | upsertRoom
  | insertMessage
  deriving DecidableEq, Repr

/-- What leaves a service: an exception of the project, one with a message of its own, or the
`StaleDataError` of the ORM. -/
inductive Failure where
  | api (e : ApiException)
  | withMessage (e : ApiException) (message : String)
  | selfDm
  | staleData
  deriving DecidableEq, Repr

/-- The status code of the answer; what no handler knows is answered with 500. -/
def Failure.statusCode : Failure → Nat
  | api e => e.statusCode
  | withMessage e _ => e.statusCode
  | selfDm => 400
  | staleData => 500

structure Socket where
  userId : Uuid
  connection : Nat
  deriving DecidableEq, Repr

/-- The upload tokens in Redis, and the room cache of every socket in the order of insertion. -/
structure Outside where
  uploadTokens : KeyValue Uuid
  roomCache : Socket → List (Uuid × Uuid)

abbrev TxM := Txn.Prog Store Row Outside Failure Statement (Option Nat)

def raise (e : ApiException) : TxM α := .raise (.api e)

def query (name : Statement) (f : Store → α) : TxM α :=
  .select name (fun _ => true) fun d => .pure (f d)

section Tables

variable [DecidableEq κ] (name : Statement) (T : Txn.TableOf Store Row α κ)

def updateOneReturning (conds : α → Bool) (values : α → α) (hkey : ∀ a, T.key (values a) = T.key a)
    (returning : α → β) : TxM (Option β) :=
  .exec name (T.update (fun _ => conds) conds (fun _ => values) false fun _ => hkey)
    fun _ d locked => .pure (((T.rows d).find? fun a => decide (T.rowOf a ∈ locked)).map returning)

/-- An `UPDATE` of any number of rows. -/
def updateRows (conds : α → Bool) (values : α → α) (hkey : ∀ a, T.key (values a) = T.key a) :
    TxM Unit :=
  .exec name (T.update (fun _ => conds) conds (fun _ => values) false fun _ => hkey)
    fun _ _ _ => .pure ()

def deleteRows (conds : α → Bool) : TxM Nat :=
  .exec name (T.delete conds) fun _ _ locked => .pure locked.length

def references (parent : α → Bool) : TxM Unit :=
  .exec .foreignKey (T.lockRows parent .keyShare) fun _ _ locked =>
    if locked.isEmpty then raise .integrityError else .pure ()

/-- `insert_ignore`: whether the row is new. The foreign keys of a new row are checked. -/
def insertIgnore (a : α) (parents : TxM Unit) : TxM Bool :=
  .exec name (T.insert a [] fun _ _ => false) fun _ _ locked =>
    if locked.isEmpty then .pure false else parents >>= fun _ => .pure true

/-- `db.add(...)` and `db.flush()`. -/
def insertRow (a : α) (parents : TxM Unit) : TxM Unit :=
  .exec name (T.insert a [] fun _ _ => false) fun _ _ locked =>
    if locked.isEmpty then raise .integrityError else parents

end Tables

/-- `async with db.begin()`. -/
def transaction (block : TxM α) : TxM α := block >>= fun a => .commit none (.pure a)

def concurrentUpdateMessage : String := "데이터가 다른 요청에 의해 변경되어 완료할 수 없습니다."

/-- `except StaleDataError as e: raise ConcurrentUpdateException() from e`. -/
def onStaleData : Failure → Option Failure
  | .staleData => some (.api (.concurrentUpdate concurrentUpdateMessage))
  | _ => none

end PuppyTalk.Backend
