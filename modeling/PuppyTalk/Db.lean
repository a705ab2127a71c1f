import PuppyTalk.Common
import PuppyTalk.Table

namespace PuppyTalk

structure Post where
  id : Uuid
  userId : Option Uuid
  title : String
  content : String
  categoryId : Option Nat
  viewCount : Int
  likeCount : Int
  commentCount : Int
  reportCount : Int
  isBlinded : Bool
  createdAt : Timestamp
  updatedAt : Timestamp
  deletedAt : Option Timestamp
  version : Nat
  deriving DecidableEq, Repr

structure Comment where
  id : Uuid
  postId : Uuid
  authorId : Option Uuid
  parentId : Option Uuid
  content : String
  likeCount : Int
  reportCount : Int
  isBlinded : Bool
  createdAt : Timestamp
  updatedAt : Timestamp
  deletedAt : Option Timestamp
  deriving DecidableEq, Repr

structure Report where
  id : Uuid
  reporterId : Uuid
  targetType : TargetType
  targetId : Uuid
  reason : Option String
  createdAt : Timestamp
  deletedAt : Option Timestamp
  deriving DecidableEq, Repr

structure UserBlock where
  blockerId : Uuid
  blockedId : Uuid
  createdAt : Timestamp
  deriving DecidableEq, Repr

structure User where
  id : Uuid
  version : Nat
  email : String
  password : String
  nickname : String
  profileImageId : Option Uuid
  status : UserStatus
  createdAt : Timestamp
  updatedAt : Timestamp
  deletedAt : Option Timestamp
  deriving DecidableEq, Repr

structure DogProfile where
  id : Uuid
  ownerId : Uuid
  name : String
  breed : String
  gender : DogGender
  birthDate : Int
  profileImageId : Option Uuid
  isRepresentative : Bool
  createdAt : Timestamp
  updatedAt : Timestamp
  deriving DecidableEq, Repr

/-- The partial unique index `uq_dog_profiles_owner_representative`. -/
def OneRepresentative (dogs : List DogProfile) : Prop :=
  Table.Keyed DogProfile.ownerId (dogs.filter (·.isRepresentative))

structure Image where
  id : Uuid
  fileKey : String
  fileUrl : String
  contentType : Option String
  size : Option Nat
  uploaderId : Option Uuid
  createdAt : Timestamp
  deletedAt : Option Timestamp
  deriving DecidableEq, Repr

structure PostImage where
  id : Uuid
  postId : Uuid
  imageId : Uuid
  createdAt : Timestamp
  deriving DecidableEq, Repr

structure PostLike where
  postId : Uuid
  userId : Uuid
  createdAt : Timestamp
  deriving DecidableEq, Repr

structure CommentLike where
  commentId : Uuid
  userId : Uuid
  createdAt : Timestamp
  deriving DecidableEq, Repr

structure Notification where
  id : Uuid
  userId : Uuid
  kind : NotificationKind
  actorId : Option Uuid
  postId : Option Uuid
  commentId : Option Uuid
  readAt : Option Timestamp
  createdAt : Timestamp
  deriving DecidableEq, Repr

/-- The tables that the modelled services read and write. -/
structure Db where
  posts : List Post := []
  comments : List Comment := []
  reports : List Report := []
  userBlocks : List UserBlock := []
  postImages : List PostImage := []
  postLikes : List PostLike := []
  commentLikes : List CommentLike := []
  notifications : List Notification := []
  users : List User := []
  dogProfiles : List DogProfile := []
  images : List Image := []
  deriving DecidableEq, Repr

/-- `async with db.begin()`: an exception rolls the block back. -/
def Db.begin (db : Db) (block : Db → Except ApiException (α × Db)) : Except ApiException α × Db :=
  match block db with
  | .ok (a, db') => (.ok a, db')
  | .error e => (.error e, db)

theorem Db.begin_ok {db : Db} {block : Db → Except ApiException (α × Db)}
    (h : block db = .ok (a, db')) : db.begin block = (.ok a, db') := by
  simp only [Db.begin, h]

theorem Db.begin_error {db : Db} {block : Db → Except ApiException (α × Db)}
    (h : block db = .error e) : db.begin block = (.error e, db) := by
  simp only [Db.begin, h]

namespace Db

/-- `update_one_returning` on `posts`. -/
def updatePosts (db : Db) (conds : Post → Bool) (values : Post → Post) (returning : Post → β) :
    Option β × Db :=
  let (r, posts) := Table.updateReturning conds values returning db.posts
  (r, { db with posts := posts })

/-- `update_one_returning` on `comments`. -/
def updateComments (db : Db) (conds : Comment → Bool) (values : Comment → Comment)
    (returning : Comment → β) : Option β × Db :=
  let (r, comments) := Table.updateReturning conds values returning db.comments
  (r, { db with comments := comments })

end Db

/-- `author_not_blocked_clause`; a row without author is never blocked. -/
def authorNotBlocked (db : Db) (author : Option Uuid) (blockerId : Option Uuid) : Bool :=
  match blockerId with
  | none => true
  | some blocker =>
    !db.userBlocks.any fun b => b.blockerId == blocker && author == some b.blockedId

end PuppyTalk
