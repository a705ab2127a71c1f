import PuppyTalk.Db
import PuppyTalk.TableRules

namespace PuppyTalk

/-- `hashtags`. The name is unique and a row is never changed, so the name stands for the id. -/
structure Hashtag where
  name : String
  deriving DecidableEq, Repr

structure PostHashtag where
  postId : Uuid
  hashtag : String
  deriving DecidableEq, Repr

/-- `chat_rooms`, with the pair of users in its normal order. -/
structure ChatRoom where
  id : Uuid
  user1Id : Uuid
  user2Id : Uuid
  createdAt : Timestamp
  updatedAt : Timestamp
  deriving DecidableEq, Repr

structure ChatMessage where
  id : Uuid
  roomId : Uuid
  senderId : Uuid
  content : String
  isRead : Bool
  createdAt : Timestamp
  deriving DecidableEq, Repr

structure Store extends Db where
  hashtags : List Hashtag := []
  postHashtags : List PostHashtag := []
  chatRooms : List ChatRoom := []
  chatMessages : List ChatMessage := []
  deriving DecidableEq, Repr

def PostLike.key (l : PostLike) : Uuid × Uuid := (l.postId, l.userId)

def CommentLike.key (l : CommentLike) : Uuid × Uuid := (l.commentId, l.userId)

def UserBlock.key (b : UserBlock) : Uuid × Uuid := (b.blockerId, b.blockedId)

def PostHashtag.key (h : PostHashtag) : Uuid × String := (h.postId, h.hashtag)

def ChatRoom.key (r : ChatRoom) : Uuid × Uuid := (r.user1Id, r.user2Id)

/-- The rows that are locked, and the entries of the further unique indexes. -/
inductive Row where
  | user (id : Uuid)
  | email (email : String)
  | nickname (nickname : String)
  | userBlock (key : Uuid × Uuid)
  | dogProfile (id : Uuid)
  | image (id : Uuid)
  | post (id : Uuid)
  | postImage (imageId : Uuid)
  | postLike (key : Uuid × Uuid)
  | hashtag (name : String)
  | postHashtag (key : Uuid × String)
  | comment (id : Uuid)
  | commentLike (key : Uuid × Uuid)
  | report (id : Uuid)
  | notification (id : Uuid)
  | chatRoom (key : Uuid × Uuid)
  | chatMessage (id : Uuid)
  deriving DecidableEq, Repr

namespace Store

/-- The primary keys, and the unique constraints that the services rely on. -/
structure Valid (d : Store) : Prop where
  users : Table.Keyed User.id d.users
  userBlocks : Table.Keyed UserBlock.key d.userBlocks
  dogProfiles : Table.Keyed DogProfile.id d.dogProfiles
  images : Table.Keyed Image.id d.images
  posts : Table.Keyed Post.id d.posts
  postImages : Table.Keyed PostImage.imageId d.postImages
  postLikes : Table.Keyed PostLike.key d.postLikes
  hashtags : Table.Keyed Hashtag.name d.hashtags
  postHashtags : Table.Keyed PostHashtag.key d.postHashtags
  comments : Table.Keyed Comment.id d.comments
  commentLikes : Table.Keyed CommentLike.key d.commentLikes
  reports : Table.Keyed Report.id d.reports
  notifications : Table.Keyed Notification.id d.notifications
  chatRooms : Table.Keyed ChatRoom.key d.chatRooms
  chatMessages : Table.Keyed ChatMessage.id d.chatMessages

open Txn in
def Agree (m : LockMode) (r : Row) (d d' : Store) : Prop :=
  match r with
  | .user id => SameRow User.id m id d.users d'.users
  | .email _ => True
  | .nickname _ => True
  | .userBlock key => SameRow UserBlock.key m key d.userBlocks d'.userBlocks
  | .dogProfile id => SameRow DogProfile.id m id d.dogProfiles d'.dogProfiles
  | .image id => SameRow Image.id m id d.images d'.images
  | .post id => SameRow Post.id m id d.posts d'.posts
  | .postImage id => SameRow PostImage.imageId m id d.postImages d'.postImages
  | .postLike key => SameRow PostLike.key m key d.postLikes d'.postLikes
  | .hashtag name => SameRow Hashtag.name m name d.hashtags d'.hashtags
  | .postHashtag key => SameRow PostHashtag.key m key d.postHashtags d'.postHashtags
  | .comment id => SameRow Comment.id m id d.comments d'.comments
  | .commentLike key => SameRow CommentLike.key m key d.commentLikes d'.commentLikes
  | .report id => SameRow Report.id m id d.reports d'.reports
  | .notification id => SameRow Notification.id m id d.notifications d'.notifications
  | .chatRoom key => SameRow ChatRoom.key m key d.chatRooms d'.chatRooms
  | .chatMessage id => SameRow ChatMessage.id m id d.chatMessages d'.chatMessages

instance : Txn.Rows Store Row where
  Valid := Valid
  Agree := Agree
  refl m r d := by
    cases r <;> first | exact .of_eq rfl | trivial
  trans {m r d d' d''} h h' := by
    cases r <;> first | exact Txn.SameRow.trans h h' | trivial

def table [DecidableEq κ] (rows : Store → List α) (put : List α → Store → Store) (key : α → κ)
    (row : κ → Row) (row_inj : ∀ {i j}, row i = row j → i = j)
    (keyed : ∀ d, Valid d → Table.Keyed key (rows d))
    (valid_put : ∀ l d, Valid d → Table.Keyed key l → Valid (put l d))
    (rows_put : ∀ l d, rows (put l d) = l := by intros; rfl)
    (put_rows : ∀ d, put (rows d) d = d := by intros; rfl)
    (agree : ∀ m i d d', Agree m (row i) d d' ↔ Txn.SameRow key m i (rows d) (rows d') := by
      intros; rfl)
    (agree_other : ∀ m r l d, (∀ i, r ≠ row i) → Agree m r d (put l d) := by
      intro m r l d hr
      cases r <;> first | exact .of_eq rfl | trivial | exact absurd rfl (hr _)) :
    Txn.TableOf Store Row α κ where
  rows := rows
  put := put
  key := key
  row := row
  row_inj := row_inj
  rows_put := rows_put _ _
  put_rows := put_rows _
  keyed := keyed _
  valid_put := valid_put _ _
  agree_row {m i d l} h := (agree m i d _).mpr (by rw [rows_put]; exact h)
  agree_other := agree_other _ _ _ _
  same_row h := (agree _ _ _ _).mp h

end Store

namespace Tables

def users : Txn.TableOf Store Row User Uuid :=
  Store.table (fun d => d.users) (fun l d => { d with users := l }) User.id .user
    (fun h => Row.user.inj h) (fun _ h => h.users)
    (fun _ _ h hl => { h with users := hl })

def userBlocks : Txn.TableOf Store Row UserBlock (Uuid × Uuid) :=
  Store.table (fun d => d.userBlocks) (fun l d => { d with userBlocks := l }) UserBlock.key .userBlock
    (fun h => Row.userBlock.inj h) (fun _ h => h.userBlocks)
    (fun _ _ h hl => { h with userBlocks := hl })

def dogProfiles : Txn.TableOf Store Row DogProfile Uuid :=
  Store.table (fun d => d.dogProfiles) (fun l d => { d with dogProfiles := l }) DogProfile.id .dogProfile
    (fun h => Row.dogProfile.inj h) (fun _ h => h.dogProfiles)
    (fun _ _ h hl => { h with dogProfiles := hl })

def images : Txn.TableOf Store Row Image Uuid :=
  Store.table (fun d => d.images) (fun l d => { d with images := l }) Image.id .image
    (fun h => Row.image.inj h) (fun _ h => h.images)
    (fun _ _ h hl => { h with images := hl })

def posts : Txn.TableOf Store Row Post Uuid :=
  Store.table (fun d => d.posts) (fun l d => { d with posts := l }) Post.id .post
    (fun h => Row.post.inj h) (fun _ h => h.posts)
    (fun _ _ h hl => { h with posts := hl })

def postImages : Txn.TableOf Store Row PostImage Uuid :=
  Store.table (fun d => d.postImages) (fun l d => { d with postImages := l }) PostImage.imageId .postImage
    (fun h => Row.postImage.inj h) (fun _ h => h.postImages)
    (fun _ _ h hl => { h with postImages := hl })

def postLikes : Txn.TableOf Store Row PostLike (Uuid × Uuid) :=
  Store.table (fun d => d.postLikes) (fun l d => { d with postLikes := l }) PostLike.key .postLike
    (fun h => Row.postLike.inj h) (fun _ h => h.postLikes)
    (fun _ _ h hl => { h with postLikes := hl })

def hashtags : Txn.TableOf Store Row Hashtag String :=
  Store.table (fun d => d.hashtags) (fun l d => { d with hashtags := l }) Hashtag.name .hashtag
    (fun h => Row.hashtag.inj h) (fun _ h => h.hashtags)
    (fun _ _ h hl => { h with hashtags := hl })

def postHashtags : Txn.TableOf Store Row PostHashtag (Uuid × String) :=
  Store.table (fun d => d.postHashtags) (fun l d => { d with postHashtags := l }) PostHashtag.key .postHashtag
    (fun h => Row.postHashtag.inj h) (fun _ h => h.postHashtags)
    (fun _ _ h hl => { h with postHashtags := hl })

def comments : Txn.TableOf Store Row Comment Uuid :=
  Store.table (fun d => d.comments) (fun l d => { d with comments := l }) Comment.id .comment
    (fun h => Row.comment.inj h) (fun _ h => h.comments)
    (fun _ _ h hl => { h with comments := hl })

def commentLikes : Txn.TableOf Store Row CommentLike (Uuid × Uuid) :=
  Store.table (fun d => d.commentLikes) (fun l d => { d with commentLikes := l }) CommentLike.key .commentLike
    (fun h => Row.commentLike.inj h) (fun _ h => h.commentLikes)
    (fun _ _ h hl => { h with commentLikes := hl })

def reports : Txn.TableOf Store Row Report Uuid :=
  Store.table (fun d => d.reports) (fun l d => { d with reports := l }) Report.id .report
    (fun h => Row.report.inj h) (fun _ h => h.reports)
    (fun _ _ h hl => { h with reports := hl })

def notifications : Txn.TableOf Store Row Notification Uuid :=
  Store.table (fun d => d.notifications) (fun l d => { d with notifications := l }) Notification.id .notification
    (fun h => Row.notification.inj h) (fun _ h => h.notifications)
    (fun _ _ h hl => { h with notifications := hl })

def chatRooms : Txn.TableOf Store Row ChatRoom (Uuid × Uuid) :=
  Store.table (fun d => d.chatRooms) (fun l d => { d with chatRooms := l }) ChatRoom.key .chatRoom
    (fun h => Row.chatRoom.inj h) (fun _ h => h.chatRooms)
    (fun _ _ h hl => { h with chatRooms := hl })

def chatMessages : Txn.TableOf Store Row ChatMessage Uuid :=
  Store.table (fun d => d.chatMessages) (fun l d => { d with chatMessages := l }) ChatMessage.id .chatMessage
    (fun h => Row.chatMessage.inj h) (fun _ h => h.chatMessages)
    (fun _ _ h hl => { h with chatMessages := hl })

end Tables

end PuppyTalk
