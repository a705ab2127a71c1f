import PuppyTalk.Run
import PuppyTalk.KeyValue
import PuppyTalk.Accounts
import PuppyTalk.PostService

namespace PuppyTalk.ImageLifecycle

structure Settings where
  signupImageTokenTtlSeconds : Int
  reservedImageGraceSeconds : Int
  mediaCleanupBatchSize : Nat
  batchSize_pos : 0 < mediaCleanupBatchSize
  purgeOlderThanDays : Int
  lower : String → String

def Settings.default (lower : String → String) : Settings where
  signupImageTokenTtlSeconds := 3600
  reservedImageGraceSeconds := 60
  mediaCleanupBatchSize := 200
  batchSize_pos := by decide
  purgeOlderThanDays := 30
  lower := lower

inductive CleanupKind where
  | expiredSignup
  | abandoned
  | reclaimable
  deriving DecidableEq, Repr

/-- What a `storage_delete` did: a call may raise although the object is gone. -/
inductive StorageReply where
  | deleted
  | raised
  | raisedAfterDeletion
  deriving DecidableEq, Repr

inductive UploadEnd where
  | reserved
  | promoted
  | confirmed
  deriving DecidableEq, Repr

structure Upload where
  imageId : Uuid
  destKey : String
  fileUrl : String
  contentType : String
  size : Nat
  uploaderId : Option Uuid
  /-- The token that the signup path issues before it confirms. -/
  signupToken : Option String
  deriving DecidableEq, Repr

structure SignUpRequest where
  email : String
  hashedPassword : String
  nickname : String
  profileImageId : Option Uuid
  signupToken : Option String
  deriving DecidableEq, Repr

/-- The database, the objects under permanent keys, the upload tokens in Redis, the clock, and for
each kind of cleanup the cursor of a running pass. -/
structure State where
  db : Db
  objects : List String
  tokens : KeyValue Uuid
  now : Timestamp
  pass : CleanupKind → Option (Option Uuid)

def State.init : State where
  db := {}
  objects := []
  tokens := fun _ => none
  now := 0
  pass := fun _ => none

def uploadTokenKey (token : String) : String := "upload_token:" ++ token

/-- `_reserved_upload` with its caller's block, for a new image id and a new permanent key. -/
def upload (s : State) (u : Upload) (reached : UploadEnd) : Option State :=
  if s.db.images.any (fun i => i.id == u.imageId || i.fileKey == u.destKey) ||
      s.objects.contains u.destKey ||
      !u.uploaderId.all (fun id => s.db.users.any (·.id == id)) then none
  else
    let db := MediaRepository.createReservedImage s.db u.imageId u.destKey u.fileUrl
      (some u.contentType) (some u.size) u.uploaderId s.now
    let objects := u.destKey :: s.objects
    let tokens := match u.signupToken with
      | none => s.tokens
      | some token => s.tokens.set (uploadTokenKey token) u.imageId
    match reached with
    | .reserved => some { s with db := db }
    | .promoted => some { s with db := db, objects := objects, tokens := tokens }
    | .confirmed =>
      let (_, db) := MediaRepository.confirmReservedImage db u.imageId (some u.size)
        (some u.contentType)
      some { s with db := db, objects := objects, tokens := tokens }

/-- `verify_upload_token`: a token is dropped as soon as it was read. -/
def verifyUploadToken (tokens : KeyValue Uuid) (token : String) : Option Uuid × KeyValue Uuid :=
  match tokens.get (uploadTokenKey token) with
  | none => (none, tokens)
  | some imageId => (some imageId, tokens.del (uploadTokenKey token))

/-- The database part of `signup` once the token has been read. -/
def signupBlock (c : Settings) (db : Db) (userId : Uuid) (data : SignUpRequest)
    (imageId : Option Uuid) (now : Timestamp) : Except ApiException (Unit × Db) :=
  match UsersRepository.createUser c.lower db userId data.email data.hashedPassword data.nickname
      imageId now with
  | .error e => .error e
  | .ok db =>
    match imageId with
    | none => .ok ((), db)
    | some imageId =>
      match MediaRepository.claimImageOwnership db imageId userId with
      | (false, _) => .error .signupImageTokenInvalid
      | (true, db) => .ok ((), db)

def signup (c : Settings) (s : State) (userId : Uuid) (data : SignUpRequest) :
    Except ApiException Unit × State :=
  if data.profileImageId.isSome ∧ data.signupToken.all (· = "") then
    (.error .missingRequiredField, s)
  else if UsersRepository.emailExists c.lower s.db data.email then (.error .emailAlreadyExists, s)
  else if UsersRepository.nicknameExists s.db data.nickname then (.error .nicknameAlreadyExists, s)
  else
    match data.signupToken.filter (· ≠ "") with
    | none =>
      let (r, db) := s.db.begin fun db => signupBlock c db userId data none s.now
      (r, { s with db := db })
    | some token =>
      match verifyUploadToken s.tokens token with
      | (none, tokens) => (.error .signupImageTokenInvalid, { s with tokens := tokens })
      | (some imageId, tokens) =>
        if data.profileImageId.any (· ≠ imageId) then
          (.error .signupImageTokenInvalid, { s with tokens := tokens })
        else
          let (r, db) := s.db.begin fun db => signupBlock c db userId data (some imageId) s.now
          (r, { s with db := db, tokens := tokens })

def deleteImage (db : Db) (imageId userId : Uuid) (now : Timestamp) :
    Except ApiException Unit × Db :=
  db.begin fun db =>
    match MediaRepository.softDeleteImageIfOwned db imageId userId now with
    | (false, _) => .error .imageNotFound
    | (true, db) => .ok ((), db)

def fetch (c : Settings) (s : State) (kind : CleanupKind) (afterId : Option Uuid) : List Image :=
  match kind with
  | .expiredSignup => MediaRepository.getExpiredSignupImages c.signupImageTokenTtlSeconds s.db s.now
      afterId c.mediaCleanupBatchSize
  | .abandoned => MediaRepository.getAbandonedImages 24 s.db s.now afterId c.mediaCleanupBatchSize
  | .reclaimable => MediaRepository.getReclaimableImages c.reservedImageGraceSeconds s.db s.now
      afterId c.mediaCleanupBatchSize

def State.setPass (s : State) (kind : CleanupKind) (p : Option (Option Uuid)) : State :=
  { s with pass := Function.update s.pass kind p }

/-- One batch of `_keyset_cleanup`: fetch, delete each object, delete the rows of the successes. -/
def cleanupBatch (c : Settings) (s : State) (kind : CleanupKind)
    (storage : String → StorageReply) : Option State :=
  match s.pass kind with
  | none => none
  | some lastId =>
    let rows := fetch c s kind lastId
    let gone := (rows.filter fun i => storage i.fileKey ≠ .raised).map (·.fileKey)
    let deletable := (rows.filter fun i => storage i.fileKey = .deleted).map (·.id)
    let next := if rows.length < c.mediaCleanupBatchSize then none
      else rows.getLast?.map fun i => some i.id
    some ({ s with
      db := MediaRepository.deleteImagesByIds s.db deletable
      objects := s.objects.filter fun k => !gone.contains k }.setPass kind next)

inductive Label where
  | tick (d : Nat)
  | upload (u : Upload) (reached : UploadEnd)
  | tokenExpired (token : String)
  | signup (userId : Uuid) (data : SignUpRequest)
  | createPost (postId userId : Uuid) (title content : String) (imageIds : Option (List Uuid))
      (categoryId : Option Nat) (rowIds : Nat → Uuid)
  | updatePost (postId : Uuid) (data : PostsRepository.PostUpdateRequest) (rowIds : Nat → Uuid)
  | deletePost (postId : Uuid)
  | updateUserProfile (userId : Uuid) (data : UserService.UpdateUserRequest) (newDogIds : Nat → Uuid)
  | deleteImage (imageId userId : Uuid)
  | deleteUser (userId : Uuid)
  | purge (targetIds : List Uuid)
  | startPass (kind : CleanupKind)
  | abortPass (kind : CleanupKind)
  | cleanupBatch (kind : CleanupKind) (storage : String → StorageReply)

def step (c : Settings) (s : State) : Label → Option State
  | .tick d => some { s with now := s.now + d }
  | .upload u reached => upload s u reached
  | .tokenExpired token => some { s with tokens := s.tokens.del (uploadTokenKey token) }
  | .signup userId data =>
    if s.db.users.any (·.id == userId) then none else some (signup c s userId data).2
  | .createPost postId userId title content imageIds categoryId rowIds =>
    some { s with db := (PostService.createPost s.db postId userId title content imageIds categoryId
      rowIds s.now).2 }
  | .updatePost postId data rowIds =>
    some { s with db := (PostService.updatePost s.db postId data rowIds s.now).2 }
  | .deletePost postId => some { s with db := (PostService.deletePost s.db postId s.now).2 }
  | .updateUserProfile userId data newDogIds =>
    some { s with db := (UserService.updateUserProfile s.db userId data newDogIds s.now).2 }
  | .deleteImage imageId userId => some { s with db := (deleteImage s.db imageId userId s.now).2 }
  | .deleteUser userId => some { s with db := (UserService.deleteUser s.db userId s.now).2 }
  | .purge targetIds =>
    (UserService.purgeChunk s.db c.purgeOlderThanDays targetIds s.now).map fun db => { s with db := db }
  | .startPass kind => if s.pass kind = none then some (s.setPass kind (some none)) else none
  | .abortPass kind => some (s.setPass kind none)
  | .cleanupBatch kind storage => cleanupBatch c s kind storage

end PuppyTalk.ImageLifecycle
