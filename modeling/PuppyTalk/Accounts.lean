import PuppyTalk.MediaRepository
import PuppyTalk.UuidText

namespace PuppyTalk

namespace UsersRepository

def updateUsers (db : Db) (conds : User → Bool) (values : User → User) : Bool × Db :=
  let (r, users) := Table.updateReturning conds values (·.id) db.users
  (r.isSome, { db with users := users })

def getUserById (db : Db) (userId : Uuid) : Option User :=
  db.users.find? fun u => u.id == userId && u.deletedAt.isNone

def emailExists (lower : String → String) (db : Db) (email : String) : Bool :=
  db.users.any fun u => u.email == lower email && u.deletedAt.isNone

def getUserByEmail (lower : String → String) (db : Db) (email : String) : Option User :=
  db.users.find? fun u => u.email == lower email && u.deletedAt.isNone

def getPasswordHash (db : Db) (userId : Uuid) : Option String :=
  (getUserById db userId).map (·.password)

def updatePassword (db : Db) (userId : Uuid) (hashedPassword : String) : Bool × Db :=
  updateUsers db (fun u => u.id == userId && u.deletedAt.isNone)
    fun u => { u with password := hashedPassword }

def nicknameExists (db : Db) (nickname : String) : Bool :=
  db.users.any fun u => u.nickname == nickname && u.deletedAt.isNone

/-- `create_user` with the unique constraints and the foreign key of the table. -/
def createUser (lower : String → String) (db : Db) (id : Uuid) (email hashedPassword : String)
    (nickname : String) (profileImageId : Option Uuid) (now : Timestamp) :
    Except ApiException Db :=
  if db.users.any fun u => u.email == lower email then .error .emailAlreadyExists
  else if db.users.any fun u => u.nickname == nickname then .error .nicknameAlreadyExists
  else if profileImageId.all fun i => db.images.any (·.id == i) then
    .ok { db with users := db.users ++ [{
      id := id, version := 1, email := lower email, password := hashedPassword,
      nickname := nickname, profileImageId := profileImageId, status := .active,
      createdAt := now, updatedAt := now, deletedAt := none }] }
  else .error .integrityError

def deletedAtMaxLen : Nat := 255

def deletedAtSuffix (userId : Uuid) (now : Timestamp) : String :=
  s!"_deleted_{userId.text}_{now.tdiv 1000000}"

def maskForWithdrawal (value suffix : String) : String :=
  let prefixLen := deletedAtMaxLen - suffix.length
  let base := value.toList.take prefixLen
  String.ofList ((base ++ suffix.toList).take deletedAtMaxLen)

def deleteUser (db : Db) (userId : Uuid) (now : Timestamp) : Bool × Db :=
  match getUserById db userId with
  | none => (false, db)
  | some row =>
    let suffix := deletedAtSuffix userId now
    let email := maskForWithdrawal row.email suffix
    let nickname := maskForWithdrawal row.nickname suffix
    updateUsers db (fun u => u.id == userId && u.deletedAt.isNone) fun u => { u with
      email := email
      nickname := nickname
      status := .withdrawn
      profileImageId := none
      deletedAt := some now
      updatedAt := now }

def purgeable (olderThanDays : Int) (now : Timestamp) (u : User) : Bool :=
  decide (u.status = .withdrawn) && u.deletedAt.any (· < now - days olderThanDays)

/-- `purge_users_by_ids` with the foreign keys that point to `users`. -/
def purgeUsersByIds (db : Db) (userIds : List Uuid) : Db :=
  let setNull (u : Option Uuid) : Option Uuid := u.filter fun u => !userIds.contains u
  { db with
    users := Table.delete (fun u => userIds.contains u.id) db.users
    images := db.images.map fun i => { i with uploaderId := setNull i.uploaderId }
    posts := db.posts.map fun p => { p with userId := setNull p.userId }
    comments := db.comments.map fun c => { c with authorId := setNull c.authorId }
    dogProfiles := Table.delete (fun d => userIds.contains d.ownerId) db.dogProfiles
    postLikes := Table.delete (fun l => userIds.contains l.userId) db.postLikes
    commentLikes := Table.delete (fun l => userIds.contains l.userId) db.commentLikes
    reports := Table.delete (fun r => userIds.contains r.reporterId) db.reports
    userBlocks := Table.delete
      (fun b => userIds.contains b.blockerId || userIds.contains b.blockedId) db.userBlocks
    notifications := (Table.delete (fun n => userIds.contains n.userId) db.notifications).map
      fun n => { n with actorId := setNull n.actorId } }

end UsersRepository

namespace DogService

/-- `DogProfileUpsertItem`; the outer option of the image says whether the field was sent. -/
structure DogProfileUpsertItem where
  id : Option Uuid
  name : String
  breed : String
  gender : DogGender
  birthDate : Int
  profileImageId : Option (Option Uuid)
  isRepresentative : Bool
  deriving DecidableEq, Repr

def attachedImageIds (items : List DogProfileUpsertItem) : List Uuid :=
  items.filterMap fun item => item.profileImageId.join

def updateIds (items : List DogProfileUpsertItem) : List Uuid := items.filterMap (·.id)

def updateRow (now : Timestamp) (item : DogProfileUpsertItem) (d : DogProfile) : DogProfile :=
  { d with
    name := item.name
    breed := item.breed
    gender := item.gender
    birthDate := item.birthDate
    isRepresentative := false
    profileImageId := item.profileImageId.getD d.profileImageId
    updatedAt := now }

def bulkUpdateByOwner (dogs : List DogProfile) (ownerId : Uuid) (items : List DogProfileUpsertItem)
    (now : Timestamp) : List DogProfile :=
  items.foldl (fun dogs item => match item.id with
    | none => dogs
    | some dogId =>
      Table.update (fun d => d.ownerId == ownerId && d.id == dogId) (updateRow now item) dogs) dogs

/-- `create_many`; the ids are the ones its inserts draw. -/
def createMany (ownerId : Uuid) (items : List DogProfileUpsertItem) (newIds : Nat → Uuid)
    (now : Timestamp) : List DogProfile :=
  (items.filter (·.id.isNone)).zipIdx.map fun (item, n) =>
    { id := newIds n, ownerId := ownerId, name := item.name, breed := item.breed,
      gender := item.gender, birthDate := item.birthDate,
      profileImageId := item.profileImageId.join, isRepresentative := false, createdAt := now,
      updatedAt := now }

def representative (items : List DogProfileUpsertItem) (created : List DogProfile) : Option Uuid :=
  let pick (acc : Option Uuid × Nat) (item : DogProfileUpsertItem) : Option Uuid × Nat :=
    match item.id with
    | some dogId => (if item.isRepresentative then some dogId else acc.1, acc.2)
    | none => (if item.isRepresentative then created[acc.2]?.map (·.id) else acc.1, acc.2 + 1)
  (items.foldl pick (none, 0)).1

def setRepresentative (dogs : List DogProfile) (ownerId dogId : Uuid) (now : Timestamp) :
    List DogProfile :=
  Table.update (fun d => d.id == dogId && d.ownerId == ownerId)
    (fun d => { d with isRepresentative := true, updatedAt := now })
    (Table.update (·.ownerId == ownerId) (fun d => { d with isRepresentative := false }) dogs)

def upsertDogProfile (db : Db) (ownerId : Uuid) (items : List DogProfileUpsertItem)
    (newIds : Nat → Uuid) (now : Timestamp) : Except ApiException Db :=
  let existing := (db.dogProfiles.filter (·.ownerId == ownerId)).map (·.id)
  if (updateIds items).all existing.contains then
    match MediaRepository.assertImagesAttachable db (attachedImageIds items) with
    | .error e => .error e
    | .ok () =>
      let created := createMany ownerId items newIds now
      let requested := updateIds items ++ created.map (·.id)
      let dogs := bulkUpdateByOwner db.dogProfiles ownerId items now ++ created
      let dogs := Table.delete (fun d => d.ownerId == ownerId && existing.contains d.id &&
        !requested.contains d.id) dogs
      match representative items created with
      | none => .ok { db with dogProfiles := dogs }
      | some dogId => .ok { db with dogProfiles := setRepresentative dogs ownerId dogId now }
  else .error (.forbidden none)

end DogService

namespace UserService

/-- `UpdateUserRequest`; the outer option of the image says whether the field was sent. -/
structure UpdateUserRequest where
  nickname : Option String
  profileImageId : Option (Option Uuid)
  clearProfileImage : Bool
  dogs : Option (List DogService.DogProfileUpsertItem)
  deriving DecidableEq, Repr

def UpdateUserRequest.imageChange (data : UpdateUserRequest) : Option (Option Uuid) :=
  if data.clearProfileImage then some none else data.profileImageId

def UpdateUserRequest.updates (data : UpdateUserRequest) (now : Timestamp) (u : User) : User :=
  { u with
    nickname := data.nickname.getD u.nickname
    profileImageId := data.imageChange.getD u.profileImageId
    updatedAt := if data.nickname.isSome || data.imageChange.isSome then now else u.updatedAt }

def UpdateUserRequest.attached (data : UpdateUserRequest) : List Uuid :=
  data.imageChange.join.toList ++ (data.dogs.map DogService.attachedImageIds).getD []

def updateUserProfile (db : Db) (userId : Uuid) (data : UpdateUserRequest) (newDogIds : Nat → Uuid)
    (now : Timestamp) : Except ApiException Unit × Db :=
  db.begin fun db =>
    match UsersRepository.getUserById db userId with
    | none => .error (.unauthorized none)
    | some user =>
      if data.nickname.any fun n => n != user.nickname && UsersRepository.nicknameExists db n then
        .error .nicknameAlreadyExists
      else
        match MediaRepository.assertImagesAttachable db data.imageChange.join.toList with
        | .error e => .error e
        | .ok () =>
          -- a nickname kept by a withdrawn account still meets the unique constraint
          if data.nickname.any fun n => db.users.any fun u => u.nickname == n && u.id != userId then
            .error .integrityError
          else
            let db := (UsersRepository.updateUsers db
              (fun u => u.id == userId && u.deletedAt.isNone) (data.updates now)).2
            match data.dogs with
            | none => .ok ((), db)
            | some items =>
              match DogService.upsertDogProfile db userId items newDogIds now with
              | .error e => .error e
              | .ok db => .ok ((), db)

def deleteUser (db : Db) (userId : Uuid) (now : Timestamp) : Except ApiException Unit × Db :=
  db.begin fun db =>
    match UsersRepository.getUserById db userId with
    | none => .error .internalServerError
    | some _ =>
      match UsersRepository.deleteUser db userId now with
      | (false, _) => .error .internalServerError
      | (true, db) => .ok ((), db)

/-- `decrement_counter_by_link_owner` for both kinds of likes. -/
def decrementLikeCounts (db : Db) (userIds : List Uuid) : Db :=
  let postLikes (p : Post) : Int :=
    db.postLikes.countP fun l => l.postId == p.id && userIds.contains l.userId
  let commentLikes (c : Comment) : Int :=
    db.commentLikes.countP fun l => l.commentId == c.id && userIds.contains l.userId
  { db with
    posts := Table.update (fun p => postLikes p != 0)
      (fun p => { p with likeCount := max (p.likeCount - postLikes p) 0 }) db.posts
    comments := Table.update (fun c => commentLikes c != 0)
      (fun c => { c with likeCount := max (c.likeCount - commentLikes c) 0 }) db.comments }

def purgeChunkSize : Nat := 200

/-- One chunk of `purge_withdrawn_users`; the query has no order, so any choice of targets up to
the limit is one it can make. -/
def purgeChunk (db : Db) (olderThanDays : Int) (targetIds : List Uuid) (now : Timestamp) :
    Option Db :=
  if targetIds.length ≤ purgeChunkSize ∧ ∀ id ∈ targetIds, db.users.any fun u =>
      u.id == id && UsersRepository.purgeable olderThanDays now u then
    some (UsersRepository.purgeUsersByIds (decrementLikeCounts db targetIds) targetIds)
  else none

end UserService

namespace AdminService

/-- The transaction of `_set_user_status`. -/
def setUserStatus (db : Db) (userId : Uuid) (status : UserStatus) (now : Timestamp) :
    Except ApiException Unit × Db :=
  db.begin fun db =>
    match db.users.find? (·.id == userId) with
    | none => .error .userNotFound
    | some user =>
      if user.deletedAt.isSome ∨ user.status = .withdrawn then .error .userWithdrawn
      else
        .ok ((), (UsersRepository.updateUsers db (fun u => u.id == userId && u.deletedAt.isNone)
          fun u => { u with status := status, updatedAt := now }).2)

end AdminService

end PuppyTalk
