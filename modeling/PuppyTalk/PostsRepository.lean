import Mathlib.Data.List.Dedup
import PuppyTalk.Db

namespace PuppyTalk.PostsRepository

/-- `_update_post`: every counter and moderation update also writes `updated_at`. -/
def updatePost (db : Db) (postId : Uuid) (alive : Bool) (now : Timestamp) (values : Post → Post)
    (returning : Post → β) : Option β × Db :=
  db.updatePosts (fun p => p.id == postId && (!alive || p.deletedAt.isNone))
    (fun p => { values p with updatedAt := now }) returning

/-- `_post_visible_conditions`. -/
def postVisible (db : Db) (currentUserId : Option Uuid) (p : Post) : Bool :=
  p.deletedAt.isNone && !p.isBlinded && authorNotBlocked db p.userId currentUserId

/-- `get_visible_post_author`; the inner option is a post whose author has left. -/
def getVisiblePostAuthor (db : Db) (postId : Uuid) (currentUserId : Option Uuid) :
    Option (Option Uuid) :=
  (db.posts.find? fun p => p.id == postId && postVisible db currentUserId p).map (·.userId)

def postImagesMax : Nat := 5

def imageLimitMessage : String := s!"이미지는 최대 {postImagesMax}장까지 첨부할 수 있습니다."

def staleVersionMessage : String :=
  "다른 사용자가 이미 글을 수정했습니다. 최신 데이터를 확인해주세요."

/-- Insert `post_images` rows under drawn ids; an image belongs to at most one row. -/
def insertPostImages (db : Db) (postId : Uuid) (imageIds : List Uuid) (rowIds : Nat → Uuid)
    (now : Timestamp) : Except ApiException Db :=
  if imageIds.Nodup ∧ ∀ i ∈ imageIds, ¬ db.postImages.any (·.imageId == i) then
    .ok { db with postImages := db.postImages ++ imageIds.zipIdx.map fun (imageId, n) =>
      { id := rowIds n, postId := postId, imageId := imageId, createdAt := now } }
  else .error .integrityError

/-- `create_post` without its hashtags. -/
def createPost (db : Db) (id userId : Uuid) (title content : String)
    (imageIds : Option (List Uuid)) (categoryId : Option Nat) (rowIds : Nat → Uuid)
    (now : Timestamp) : Except ApiException Db :=
  if imageIds.any fun ids => postImagesMax < ids.length then
    .error (.invalidRequest imageLimitMessage)
  else
    let db := { db with posts := db.posts ++ [{
      id := id, userId := some userId, title := title, content := content,
      categoryId := categoryId, viewCount := 0, likeCount := 0, commentCount := 0,
      reportCount := 0, isBlinded := false, createdAt := now, updatedAt := now, deletedAt := none,
      version := 1 }] }
    insertPostImages db id (imageIds.getD []) rowIds now

/-- `PostUpdateRequest` without its hashtags. -/
structure PostUpdateRequest where
  title : Option String
  content : Option String
  imageIds : Option (List Uuid)
  categoryId : Option Nat
  version : Option Nat
  deriving DecidableEq, Repr

/-- `update_post` without its hashtags; the flush of the changed row raises its version. -/
def updatePostFields (db : Db) (postId : Uuid) (data : PostUpdateRequest) (rowIds : Nat → Uuid)
    (now : Timestamp) : Except ApiException (Bool × Db) :=
  if data.imageIds.any fun ids => postImagesMax < ids.length then
    .error (.invalidRequest imageLimitMessage)
  else
    match db.posts.find? fun p => p.id == postId && p.deletedAt.isNone && !p.isBlinded with
    | none => .ok (false, db)
    | some post =>
      if data.version.any (· != post.version) then
        .error (.concurrentUpdate staleVersionMessage)
      else
        let values (p : Post) : Post := { p with
          title := data.title.getD p.title
          content := data.content.getD p.content
          categoryId := data.categoryId.or p.categoryId
          updatedAt := now
          version := p.version + 1 }
        let db := { db with posts := Table.update (·.id == postId) values db.posts }
        match data.imageIds with
        | none => .ok (true, db)
        | some imageIds =>
          let old := (db.postImages.filter (·.postId == postId)).map (·.imageId)
          let toAdd := imageIds.dedup.filter fun i => !old.contains i
          let removed (pi : PostImage) : Bool :=
            pi.postId == postId && !imageIds.contains pi.imageId
          let db := { db with postImages := Table.delete removed db.postImages }
          match insertPostImages db postId toAdd rowIds now with
          | .error e => .error e
          | .ok db => .ok (true, db)

def softDelete (db : Db) (postId : Uuid) (now : Timestamp) : Bool × Db :=
  match updatePost db postId true now (fun p => { p with deletedAt := some now }) (·.id) with
  | (none, db) => (false, db)
  | (some _, db) =>
    (true, { db with postImages := Table.delete (·.postId == postId) db.postImages })

def incrementViewCount (db : Db) (postId : Uuid) (delta : Int) (now : Timestamp) : Bool × Db :=
  if delta ≤ 0 then (true, db)
  else
    let (r, db) := updatePost db postId true now
      (fun p => { p with viewCount := p.viewCount + delta }) (·.id)
    (r.isSome, db)

def incrementReportCount (db : Db) (postId : Uuid) (now : Timestamp) : Option Int × Db :=
  db.updatePosts (fun p => p.id == postId && p.deletedAt.isNone && p.userId.isSome)
    (fun p => { p with reportCount := p.reportCount + 1, updatedAt := now }) (·.reportCount)

def setBlinded (db : Db) (postId : Uuid) (now : Timestamp) : Bool × Db :=
  let (r, db) := updatePost db postId true now (fun p => { p with isBlinded := true }) (·.id)
  (r.isSome, db)

def unblind (db : Db) (postId : Uuid) (now : Timestamp) : Bool × Db :=
  let (r, db) := updatePost db postId true now (fun p => { p with isBlinded := false }) (·.id)
  (r.isSome, db)

def resetReports (db : Db) (postId : Uuid) (now : Timestamp) : Bool × Db :=
  let (r, db) := updatePost db postId true now
    (fun p => { p with reportCount := 0, isBlinded := false }) (·.id)
  (r.isSome, db)

def incrementCommentCount (db : Db) (postId : Uuid) (now : Timestamp) : Bool × Db :=
  let (r, db) := updatePost db postId false now
    (fun p => { p with commentCount := p.commentCount + 1 }) (·.id)
  (r.isSome, db)

def setCommentCount (db : Db) (postId : Uuid) (value : Int) (now : Timestamp) : Bool × Db :=
  let (r, db) := updatePost db postId false now
    (fun p => { p with commentCount := max 0 value }) (·.id)
  (r.isSome, db)

def decrementCommentCount (db : Db) (postId : Uuid) (now : Timestamp) : Bool × Db :=
  let (r, db) := updatePost db postId false now
    (fun p => { p with commentCount := max (p.commentCount - 1) 0 }) (·.id)
  (r.isSome, db)

end PuppyTalk.PostsRepository
