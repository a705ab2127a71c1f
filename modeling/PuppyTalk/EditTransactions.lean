import PuppyTalk.MediaRepository
import PuppyTalk.PostTransactions
import PuppyTalk.Python

namespace PuppyTalk.Backend

/-- What the services take from the settings, and `str.lower`. -/
structure Config where
  reportBlindThreshold : Int
  lower : String → String

structure PostUpdateRequest where
  title : Option String
  content : Option String
  imageIds : Option (List Uuid)
  categoryId : Option Nat
  hashtags : Option (List String)
  version : Option Nat
  deriving DecidableEq, Repr

/-- A character outside of `_HASHTAG_ALLOWED_RE`. -/
def hashtagAllowed (c : Char) : Bool :=
  ('0' ≤ c && c ≤ '9') || ('a' ≤ c && c ≤ 'z') || ('가' ≤ c && c ≤ '힣') || c == '_'

def normalizeHashtag (lower : String → String) (v : String) : String :=
  let s := Python.strip v
  let s := if s.startsWith "#" then Python.strip (String.ofList (s.toList.drop 1)) else s
  let s := (lower s).toList.filter fun c => !Python.isSpace c
  String.ofList ((s.filter hashtagAllowed).take 50)

/-- `_normalize_hashtags`: the names that are not empty, each at its first place. -/
def normalizeHashtags (lower : String → String) (raw : List String) : List String :=
  raw.foldl (fun out v =>
    let s := normalizeHashtag lower v
    if s = "" ∨ s ∈ out then out else out ++ [s]) []

namespace PostsRepository

open PuppyTalk.PostsRepository (postImagesMax imageLimitMessage staleVersionMessage)

def insertHashtags : List String → TxM Unit
  | [] => pure ()
  | name :: names => do
    let _ ← insertIgnore .insertHashtag Tables.hashtags { name := name } (pure ())
    insertHashtags names

def insertPostHashtags (postId : Uuid) : List String → TxM Unit
  | [] => pure ()
  | name :: names => do
    let _ ← insertIgnore .insertPostHashtag Tables.postHashtags
      { postId := postId, hashtag := name } do
        references Tables.posts (·.id == postId)
        references Tables.hashtags (·.name == name)
    insertPostHashtags postId names

def syncPostHashtags (postId : Uuid) (hashtagNames : List String) : TxM Unit := do
  let _ ← deleteRows .deletePostHashtags Tables.postHashtags (·.postId == postId)
  if hashtagNames = [] then pure ()
  else
    insertHashtags hashtagNames
    let hashtagIds ← query .selectHashtags fun d =>
      hashtagNames.filter fun n => d.hashtags.any (·.name == n)
    insertPostHashtags postId hashtagIds

/-- The pending changes of an edit that only the flush at commit writes: the columns that differ
from what was read, and the links of new images. -/
structure Pending where
  post : Post
  title : Option String
  content : Option String
  categoryId : Option Nat
  updatedAt : Option Timestamp
  toAdd : List Uuid

def changed [DecidableEq α] (old : α) (new : Option α) : Option α := new.filter fun v => v ≠ old

def Pending.dirty (e : Pending) : Bool :=
  e.title.isSome || e.content.isSome || e.categoryId.isSome || e.updatedAt.isSome

/-- The part of `update_post` on `post_images`; the new links stay pending. -/
def syncPostImages (postId : Uuid) : Option (List Uuid) → TxM (List Uuid)
  | none => pure []
  | some imageIds => do
    let oldImageIds ← query .selectPostImages fun d =>
      (d.postImages.filter (·.postId == postId)).map (·.imageId)
    let toAdd := imageIds.dedup.filter fun i => !oldImageIds.contains i
    let toRemove := oldImageIds.filter fun i => !imageIds.contains i
    if toRemove = [] then pure toAdd
    else
      let _ ← deleteRows .deletePostImage Tables.postImages fun pi =>
        pi.postId == postId && toRemove.contains pi.imageId
      pure toAdd

def syncHashtagsIfSome (postId : Uuid) : Option (List String) → TxM Unit
  | none => pure ()
  | some names => syncPostHashtags postId names

/-- `update_post` of the repository, up to the changes that stay pending; `none` means that there is
no such post. -/
def updatePostFields (postId : Uuid) (data : PostUpdateRequest) (hashtagNames : Option (List String))
    (now : Timestamp) : TxM (Option Pending) :=
  if data.imageIds.any fun ids => postImagesMax < ids.length then
    raise (.invalidRequest imageLimitMessage)
  else do
    match ← query .selectPost fun d =>
      d.posts.find? fun p => p.id == postId && p.deletedAt.isNone && !p.isBlinded with
    | none => pure none
    | some post =>
      if data.version.any (· != post.version) then raise (.concurrentUpdate staleVersionMessage)
      else do
        syncHashtagsIfSome postId hashtagNames
        let toAdd ← syncPostImages postId data.imageIds
        pure (some {
          post := post
          title := changed post.title data.title
          content := changed post.content data.content
          categoryId := data.categoryId.filter fun c => some c ≠ post.categoryId
          updatedAt := changed post.updatedAt (some now)
          toAdd := toAdd })

def Pending.write (e : Pending) (p : Post) : Post :=
  { p with
    title := e.title.getD p.title
    content := e.content.getD p.content
    categoryId := e.categoryId.or p.categoryId
    updatedAt := e.updatedAt.getD p.updatedAt
    version := e.post.version + 1 }

def insertPostImages (postId : Uuid) (rowIds : Uuid → Uuid) (now : Timestamp) : List Uuid → TxM Unit
  | [] => pure ()
  | imageId :: imageIds => do
    insertRow .insertPostImage Tables.postImages
      { id := rowIds imageId, postId := postId, imageId := imageId, createdAt := now } do
        references Tables.posts (·.id == postId)
        references Tables.images (·.id == imageId)
    insertPostImages postId rowIds now imageIds

/-- The flush of the post row: `UPDATE ... WHERE version = ...`, and a `StaleDataError` if there is
no such row. The result is the version that the row has then. -/
def flushPost (e : Pending) : TxM Nat :=
  if e.dirty then
    .exec .flushPost
      (Tables.posts.update (fun _ p => p.id == e.post.id && p.version == e.post.version)
        (fun p => p.id == e.post.id && p.version == e.post.version) (fun _ => e.write) false
        fun _ _ => rfl)
      fun _ _ locked => if locked.isEmpty then .raise .staleData else .pure (e.post.version + 1)
  else pure e.post.version

end PostsRepository

namespace PostService

open PuppyTalk.MediaRepository (attachMessage)

def unknownCategoryMessage : String := "존재하지 않는 카테고리입니다."

/-- `assert_images_attachable` with its `FOR SHARE`. -/
def assertImagesAttachable (imageIds : List Uuid) : TxM Unit :=
  if imageIds = [] then pure ()
  else
    .exec .assertImagesAttachable
      (Tables.images.lockRows (fun i => imageIds.contains i.id && i.deletedAt.isNone) .share)
      fun _ _ locked =>
        if imageIds.all fun i => decide (Tables.images.row i ∈ locked) then .pure ()
        else raise (.invalidRequest attachMessage)

/-- `_validate_refs`; `categoryExists` is the answer of `_category_exists`. -/
def validateRefs (categoryId : Option Nat) (categoryExists : Bool) (imageIds : Option (List Uuid)) :
    TxM Unit :=
  if categoryId.isSome && !categoryExists then raise (.invalidRequest unknownCategoryMessage)
  else assertImagesAttachable (imageIds.getD [])

/-- `update_post`. The session writes its pending changes when the block is left, after the
`except` clause; the commit records the version. -/
def updatePost (cfg : Config) (postId : Uuid) (data : PostUpdateRequest) (categoryExists : Bool)
    (rowIds : Uuid → Uuid) (now : Timestamp) : TxM Unit := do
  validateRefs data.categoryId categoryExists data.imageIds
  let hashtags := data.hashtags.map (normalizeHashtags cfg.lower)
  match ← (PostsRepository.updatePostFields postId data hashtags now).tryExcept onStaleData with
  | none => raise .postNotFound
  | some e => do
    let version ← PostsRepository.flushPost e
    PostsRepository.insertPostImages postId rowIds now e.toAdd
    .commit (some version) (.pure ())

end PostService

end PuppyTalk.Backend
