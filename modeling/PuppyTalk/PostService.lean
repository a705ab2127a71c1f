import PuppyTalk.MediaRepository
import PuppyTalk.Comments

namespace PuppyTalk

namespace PostService

/-- `create_post`; the category is known to exist. -/
def createPost (db : Db) (id userId : Uuid) (title content : String)
    (imageIds : Option (List Uuid)) (categoryId : Option Nat) (rowIds : Nat → Uuid)
    (now : Timestamp) : Except ApiException Uuid × Db :=
  db.begin fun db =>
    match MediaRepository.assertImagesAttachable db (imageIds.getD []) with
    | .error e => .error e
    | .ok () =>
      match PostsRepository.createPost db id userId title content imageIds categoryId rowIds now with
      | .error e => .error e
      | .ok db => .ok (id, db)

def updatePost (db : Db) (postId : Uuid) (data : PostsRepository.PostUpdateRequest)
    (rowIds : Nat → Uuid) (now : Timestamp) : Except ApiException Unit × Db :=
  db.begin fun db =>
    match MediaRepository.assertImagesAttachable db (data.imageIds.getD []) with
    | .error e => .error e
    | .ok () =>
      match PostsRepository.updatePostFields db postId data rowIds now with
      | .error e => .error e
      | .ok (false, _) => .error .postNotFound
      | .ok (true, db) => .ok ((), db)

def deletePost (db : Db) (postId : Uuid) (now : Timestamp) : Except ApiException Unit × Db :=
  db.begin fun db =>
    match PostsRepository.softDelete db postId now with
    | (false, _) => .error .postNotFound
    | (true, db) =>
      let db := CommentsRepository.softDeleteByPost db postId now
      .ok ((), { db with postLikes := Table.delete (·.postId == postId) db.postLikes })

end PostService

end PuppyTalk
