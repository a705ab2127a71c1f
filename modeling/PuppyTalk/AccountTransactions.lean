import PuppyTalk.ImageLifecycle
import PuppyTalk.EditTransactions

namespace PuppyTalk.Backend

namespace UsersRepository

open PuppyTalk.UsersRepository (purgeable)

/-- A possible answer of the unordered query of `select_purgeable_user_ids`. -/
def purgeableAnswer (olderThanDays : Int) (now : Timestamp) (targetIds : List Uuid) (d : Store) :
    Bool :=
  decide targetIds.Nodup &&
    targetIds.all (fun id => d.users.any fun u => u.id == id && purgeable olderThanDays now u) &&
    targetIds.length == min UserService.purgeChunkSize (d.users.countP (purgeable olderThanDays now))

/-- A foreign key with `ON DELETE SET NULL`. -/
def setNull (userIds : List Uuid) (u : Option Uuid) : Option Uuid :=
  u.filter fun u => !userIds.contains u

def purgeRooms (userIds : List Uuid) : TxM Unit :=
  .exec .cascade
    (Tables.chatRooms.delete fun r => userIds.contains r.user1Id || userIds.contains r.user2Id)
    fun snap _ locked =>
      let roomIds := (snap.chatRooms.filter fun r =>
        decide (Tables.chatRooms.rowOf r ∈ locked)).map (·.id)
      deleteRows .cascade Tables.chatMessages (fun m => roomIds.contains m.roomId) >>= fun _ =>
        .pure ()

def purgeOwned (userIds : List Uuid) : TxM Unit := do
  let _ ← deleteRows .cascade Tables.userBlocks fun b =>
    userIds.contains b.blockerId || userIds.contains b.blockedId
  let _ ← deleteRows .cascade Tables.dogProfiles fun d => userIds.contains d.ownerId
  pure ()

def forgetOwners (userIds : List Uuid) : TxM Unit := do
  updateRows .cascade Tables.images (fun i => i.uploaderId.any userIds.contains)
    (fun i => { i with uploaderId := setNull userIds i.uploaderId }) fun _ => rfl
  updateRows .cascade Tables.posts (fun p => p.userId.any userIds.contains)
    (fun p => { p with userId := setNull userIds p.userId }) fun _ => rfl
  updateRows .cascade Tables.comments (fun c => c.authorId.any userIds.contains)
    (fun c => { c with authorId := setNull userIds c.authorId }) fun _ => rfl

def purgeNotifications (userIds : List Uuid) : TxM Unit := do
  let _ ← deleteRows .cascade Tables.notifications fun n => userIds.contains n.userId
  updateRows .cascade Tables.notifications (fun n => n.actorId.any userIds.contains)
    (fun n => { n with actorId := setNull userIds n.actorId }) fun _ => rfl

/-- `purge_users_by_ids` with the foreign keys that point to `users`. -/
def purgeUsersByIds (userIds : List Uuid) : TxM Unit := do
  let _ ← deleteRows .purgeUsersByIds Tables.users fun u => userIds.contains u.id
  purgeOwned userIds
  forgetOwners userIds
  let _ ← deleteRows .cascade Tables.postLikes fun l => userIds.contains l.userId
  let _ ← deleteRows .cascade Tables.commentLikes fun l => userIds.contains l.userId
  let _ ← deleteRows .cascade Tables.reports fun r => userIds.contains r.reporterId
  purgeNotifications userIds
  purgeRooms userIds
  let _ ← deleteRows .cascade Tables.chatMessages fun m => userIds.contains m.senderId
  pure ()

/-- `create_user`: the row with its entries in the unique indexes, then its image. -/
def createUser (cfg : Config) (id : Uuid) (email hashedPassword nickname : String)
    (profileImageId : Option Uuid) (now : Timestamp) : TxM Unit :=
  let user : User :=
    { id := id, version := 1, email := cfg.lower email, password := hashedPassword,
      nickname := nickname, profileImageId := profileImageId, status := .active,
      createdAt := now, updatedAt := now, deletedAt := none }
  let taken (d : Store) : Row → Bool
    | .email email => d.users.any (·.email == email)
    | .nickname nickname => d.users.any (·.nickname == nickname)
    | _ => false
  .exec .createUser (Tables.users.insert user [.email user.email, .nickname nickname] taken)
    fun _ _ locked =>
      if Row.email user.email ∉ locked then raise .emailAlreadyExists
      else if Row.nickname nickname ∉ locked then raise .nicknameAlreadyExists
      else if Row.user id ∉ locked then raise .integrityError
      else referencesIfSome Tables.images (fun id i => i.id == id) profileImageId

/-- `update_user` of the status. -/
def updateStatus (userId : Uuid) (status : UserStatus) (now : Timestamp) : TxM Bool := do
  let r ← updateOneReturning .updateUser Tables.users (fun u => u.id == userId && u.deletedAt.isNone)
    (fun u => { u with status := status, updatedAt := now }) (fun _ => rfl) (·.id)
  pure r.isSome

open PuppyTalk.UsersRepository (deletedAtSuffix maskForWithdrawal) in
/-- `delete_user`. The email and the nickname are unique, so the row takes the strongest lock; the
new ones hold the user's id and meet no other. -/
def deleteUser (userId : Uuid) (now : Timestamp) : TxM Bool := do
  match ← query .getUser fun d => d.users.find? fun u => u.id == userId && u.deletedAt.isNone with
  | none => pure false
  | some row =>
    let suffix := deletedAtSuffix userId now
    let values (u : User) : User := { u with
      email := maskForWithdrawal row.email suffix
      nickname := maskForWithdrawal row.nickname suffix
      status := .withdrawn
      profileImageId := none
      deletedAt := some now
      updatedAt := now }
    .exec .updateUser
      (Tables.users.update (fun _ u => u.id == userId && u.deletedAt.isNone)
        (fun u => u.id == userId && u.deletedAt.isNone) (fun _ => values) true fun _ _ => rfl)
      fun _ _ locked => .pure !locked.isEmpty

end UsersRepository

def LikeTarget.likesBy (t : LikeTarget) (ownerIds : List Uuid) (d : Store) (targetId : Uuid) : Nat :=
  (t.links.rows d).countP fun l =>
    decide ((t.links.key l).1 = targetId) && ownerIds.contains (t.links.key l).2

/-- The `UPDATE` of `decrement_counter_by_link_owner`: the counts come from the snapshot. -/
def LikeTarget.decrementByOwner (t : LikeTarget) (ownerIds : List Uuid) : Txn.Stmt Store Row :=
  t.counters.update (fun d a => t.likesBy ownerIds d (t.counters.key a) != 0) (fun _ => true)
    (fun d a => t.setLikeCount (max (t.likeCount a - t.likesBy ownerIds d (t.counters.key a)) 0) a)
    false fun _ a => t.key_set _ a

def decrementCounterByLinkOwner (target : TargetType) (ownerIds : List Uuid) : TxM Unit :=
  .exec (.decrementLikeCounts target) ((likeTarget target).decrementByOwner ownerIds)
    fun _ _ _ => .pure ()

namespace UserService

/-- The answers that the queries of one `purge_withdrawn_users` get, chunk by chunk. -/
structure PurgeJob where
  olderThanDays : Int
  now : Nat → Timestamp
  targetIds : Nat → List Uuid

/-- One chunk of `purge_withdrawn_users`; the loop goes on if there was something to purge. -/
def purgeChunk (job : PurgeJob) (n : Nat) : TxM Bool :=
  .select .selectPurgeableUserIds
    (UsersRepository.purgeableAnswer job.olderThanDays (job.now n) (job.targetIds n)) fun _ =>
    if job.targetIds n = [] then .commit none (.pure false)
    else do
      decrementCounterByLinkOwner .post (job.targetIds n)
      decrementCounterByLinkOwner .comment (job.targetIds n)
      UsersRepository.purgeUsersByIds (job.targetIds n)
      .commit none (.pure true)

def deleteUser (userId : Uuid) (now : Timestamp) : TxM Unit :=
  transaction do
    match ← query .getUser fun d => d.users.find? fun u => u.id == userId && u.deletedAt.isNone with
    | none => raise .internalServerError
    | some _ =>
      let deleted ← UsersRepository.deleteUser userId now
      if deleted then pure () else raise .internalServerError

def selfBlockMessage : String := "자기 자신은 차단할 수 없습니다."

/-- `toggle_block_user`: whether the user is blocked now. -/
def toggleBlockUser (blockerId targetUserId : Uuid) (now : Timestamp) : TxM Bool :=
  if blockerId = targetUserId then raise (.invalidRequest selfBlockMessage)
  else transaction do
    let blocked ← query .blockExists fun d =>
      d.userBlocks.any fun b => b.blockerId == blockerId && b.blockedId == targetUserId
    if blocked then
      let _ ← deleteRows .deleteBlock Tables.userBlocks fun b =>
        b.blockerId == blockerId && b.blockedId == targetUserId
      pure false
    else
      insertRow .insertBlock Tables.userBlocks
        { blockerId := blockerId, blockedId := targetUserId, createdAt := now } do
          references Tables.users (·.id == blockerId)
          references Tables.users (·.id == targetUserId)
      pure true

end UserService

namespace AdminService

/-- The transaction of `_set_user_status`. -/
def setUserStatus (userId : Uuid) (status : UserStatus) (now : Timestamp) : TxM Unit :=
  transaction do
    match ← query .getUser fun d => d.users.find? (·.id == userId) with
    | none => raise .userNotFound
    | some user =>
      if user.deletedAt.isSome ∨ user.status = .withdrawn then raise .userWithdrawn
      else
        let _ ← UsersRepository.updateStatus userId status now
        pure ()

end AdminService

namespace AuthService

open PuppyTalk.ImageLifecycle (SignUpRequest uploadTokenKey)

/-- `verify_upload_token`: a `GET` and, for a token that is there, a `DEL`; an error of either is
answered like a missing token. -/
def verifyUploadToken (token : String) (getReply delReply : Reply) : TxM (Option Uuid) :=
  .call id fun x =>
    if getReply.failed then .pure none
    else
      match x.uploadTokens.get (uploadTokenKey token) with
      | none => .pure none
      | some imageId =>
        .call (fun x => if delReply.took then
            { x with uploadTokens := x.uploadTokens.del (uploadTokenKey token) } else x)
          fun _ => .pure (if delReply.failed then none else some imageId)

def tokenImage (data : SignUpRequest) (getReply delReply : Reply) : TxM (Option Uuid) :=
  match data.signupToken.filter (· ≠ "") with
  | none => pure none
  | some token => do
    match ← verifyUploadToken token getReply delReply with
    | none => raise .signupImageTokenInvalid
    | some imageId =>
      if data.profileImageId.any (· ≠ imageId) then raise .signupImageTokenInvalid
      else pure (some imageId)

def claimImageOwnership (imageId userId : Uuid) : TxM Bool := do
  let r ← updateOneReturning .claimImageOwnership Tables.images
    (fun i => i.id == imageId && i.uploaderId.isNone && i.deletedAt.isNone)
    (fun i => { i with uploaderId := some userId }) (fun _ => rfl) (·.id)
  pure r.isSome

def attachProfileImage (userId : Uuid) : Option Uuid → TxM Unit
  | none => pure ()
  | some imageId => do
    let attached ← claimImageOwnership imageId userId
    if attached then pure () else raise .signupImageTokenInvalid

def signup (cfg : Config) (userId : Uuid) (data : SignUpRequest) (getReply delReply : Reply)
    (now : Timestamp) : TxM Unit :=
  if data.profileImageId.isSome ∧ data.signupToken.all (· = "") then raise .missingRequiredField
  else transaction do
    let emailTaken ← query .emailExists fun d =>
      PuppyTalk.UsersRepository.emailExists cfg.lower d.toDb data.email
    if emailTaken then raise .emailAlreadyExists
    else do
      let nicknameTaken ← query .nicknameExists fun d =>
        PuppyTalk.UsersRepository.nicknameExists d.toDb data.nickname
      if nicknameTaken then raise .nicknameAlreadyExists
      else do
        let profileImageId ← tokenImage data getReply delReply
        UsersRepository.createUser cfg userId data.email data.hashedPassword data.nickname
          profileImageId now
        attachProfileImage userId profileImageId

end AuthService

end PuppyTalk.Backend
