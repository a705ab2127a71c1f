import PuppyTalk.ImageLifecycle
import PuppyTalk.RowLock

namespace PuppyTalk.MediaTx

open ImageLifecycle (CleanupKind Settings SignUpRequest StorageReply Upload uploadTokenKey)

/-- The rows that the transactions lock; `image_id` is unique in `post_images`. -/
inductive RowId where
  | image (id : Uuid)
  | user (id : Uuid)
  | dog (id : Uuid)
  | postImage (imageId : Uuid)
  deriving DecidableEq, Repr

def rowIds (db : Db) : List RowId :=
  db.images.map (.image ·.id) ++ db.users.map (.user ·.id) ++ db.dogProfiles.map (.dog ·.id) ++
    db.postImages.map (.postImage ·.imageId)

def imageKeys (db : Db) : List (Uuid × String) := db.images.map fun i => (i.id, i.fileKey)

def refersTo (db : Db) (imageId : Uuid) : RowId → Bool
  | .image _ => false
  | .user id => db.users.any fun u => u.id == id && u.profileImageId == some imageId
  | .dog id => db.dogProfiles.any fun d => d.id == id && d.profileImageId == some imageId
  | .postImage id => id == imageId && db.postImages.any (·.imageId == imageId)

inductive RefWrite where
  | setUserImage (userId : Uuid) (imageId : Option Uuid)
  | setDogImage (dogId : Uuid) (imageId : Option Uuid)
  | insertDog (row : DogProfile)
  | deleteDog (dogId : Uuid)
  | insertPostImage (row : PostImage)
  | deletePostImage (imageId : Uuid)
  deriving DecidableEq, Repr

namespace RefWrite

def row : RefWrite → RowId
  | setUserImage userId _ => .user userId
  | setDogImage dogId _ => .dog dogId
  | insertDog row => .dog row.id
  | deleteDog dogId => .dog dogId
  | insertPostImage row => .postImage row.imageId
  | deletePostImage imageId => .postImage imageId

def imageId : RefWrite → Option Uuid
  | setUserImage _ imageId => imageId
  | setDogImage _ imageId => imageId
  | insertDog row => row.profileImageId
  | deleteDog _ => none
  | insertPostImage row => some row.imageId
  | deletePostImage _ => none

def mode : RefWrite → LockMode
  | setUserImage _ _ => .noKeyUpdate
  | setDogImage _ _ => .noKeyUpdate
  | _ => .update

/-- An insert has no row to find; its lock is the one on the index entry. -/
def finds (db : Db) : RefWrite → Bool
  | setUserImage userId _ => db.users.any fun u => u.id == userId && u.deletedAt.isNone
  | setDogImage dogId _ => db.dogProfiles.any (·.id == dogId)
  | deleteDog dogId => db.dogProfiles.any (·.id == dogId)
  | deletePostImage imageId => db.postImages.any (·.imageId == imageId)
  | _ => true

def apply (db : Db) : RefWrite → Option Db
  | setUserImage userId imageId => some { db with
      users := Table.update (·.id == userId) (fun u => { u with profileImageId := imageId }) db.users }
  | setDogImage dogId imageId => some { db with
      dogProfiles := Table.update (·.id == dogId) (fun d => { d with profileImageId := imageId })
        db.dogProfiles }
  | insertDog row =>
    if db.dogProfiles.any (·.id == row.id) then none
    else some { db with dogProfiles := db.dogProfiles ++ [row] }
  | deleteDog dogId => some { db with dogProfiles := Table.delete (·.id == dogId) db.dogProfiles }
  | insertPostImage row =>
    if db.postImages.any (fun p => p.id == row.id || p.imageId == row.imageId) then none
    else some { db with postImages := db.postImages ++ [row] }
  | deletePostImage imageId => some { db with
      postImages := Table.delete (·.imageId == imageId) db.postImages }

def detach : RowId → Option RefWrite
  | .image _ => none
  | .user id => some (setUserImage id none)
  | .dog id => some (setDogImage id none)
  | .postImage imageId => some (deletePostImage imageId)

end RefWrite

inductive Write where
  | ref (w : RefWrite)
  | insertUser (row : User)
  | claim (imageId userId : Uuid)
  | markDeleted (imageId : Uuid) (now : Timestamp)
  | confirm (u : Upload)
  | deleteImages (ids : List Uuid)
  deriving DecidableEq, Repr

def Write.apply (db : Db) : Write → Option Db
  | .ref w => w.apply db
  | .insertUser row =>
    if db.users.any (fun u => u.id == row.id || u.email == row.email || u.nickname == row.nickname)
    then none else some { db with users := db.users ++ [row] }
  | .claim imageId userId => some (MediaRepository.claimImageOwnership db imageId userId).2
  | .markDeleted imageId now => some { db with
      images := Table.update (·.id == imageId) (fun i => { i with deletedAt := some now }) db.images }
  | .confirm u => some
      (MediaRepository.confirmReservedImage db u.imageId (some u.size) (some u.contentType)).2
  | .deleteImages ids => some (MediaRepository.deleteImagesByIds db ids)

inductive Phase where
  | idle
  /-- An attaching transaction between two statements, with the images it has validated. -/
  | attach (granted : List Uuid)
  | validate (granted wanted : List Uuid)
  | write (granted : List Uuid) (w : RefWrite)
  | markDeleted (imageId userId : Uuid) (now : Timestamp)
  | detach (imageId : Uuid)
  | getToken (userId : Uuid) (data : SignUpRequest) (token : String)
  | dropToken (userId : Uuid) (data : SignUpRequest) (token : String) (imageId : Uuid)
  | insertUser (row : User)
  | claim (imageId userId : Uuid)
  | lockReserved (u : Upload)
  | promote (u : Upload)
  | block (u : Upload)
  | confirm (u : Upload)
  | confirmed (u : Upload)
  /-- The rows whose objects are still to be deleted; when none is left the rows go. -/
  | sweep (rest : List Image) (deletable : List Uuid)
  | ready
  | done
  deriving DecidableEq, Repr

namespace Phase

def isStatement : Phase → Bool
  | validate _ _ | write _ _ | markDeleted _ _ _ | detach _ | insertUser _ | claim _ _
  | lockReserved _ | confirm _ | sweep [] _ => true
  | _ => false

def commits : Phase → Bool
  | attach _ | confirmed _ | ready => true
  | _ => false

def ended : Phase → Bool
  | idle | done => true
  | _ => false

/-- The lock that the statement takes on a row; a foreign key check takes `FOR KEY SHARE`. -/
def mode : Phase → RowId → LockMode
  | validate _ _, _ => .share
  | write _ _, .image _ => .keyShare
  | write _ w, _ => w.mode
  | markDeleted _ _ _, _ => .noKeyUpdate
  | detach _, .postImage _ => .update
  | detach _, _ => .noKeyUpdate
  | insertUser _, _ => .keyShare
  | claim _ _, _ => .noKeyUpdate
  | lockReserved _, _ => .update
  | confirm _, _ => .noKeyUpdate
  | _, _ => .update

def selects (db : Db) : Phase → RowId → Bool
  | validate _ wanted, .image id => wanted.contains id && MediaRepository.attachable db id
  | write _ w, .image id => w.imageId == some id && db.images.any (·.id == id)
  | write _ w, r => w.row == r && w.finds db
  | markDeleted imageId userId _, .image id => id == imageId && db.images.any fun i =>
      i.id == imageId && i.uploaderId == some userId && i.deletedAt.isNone
  | detach imageId, r => refersTo db imageId r
  | insertUser row, .image id => row.profileImageId == some id && db.images.any (·.id == id)
  | claim imageId _, .image id => id == imageId && db.images.any fun i =>
      i.id == imageId && i.uploaderId.isNone && i.deletedAt.isNone
  | lockReserved u, .image id => id == u.imageId &&
      (MediaRepository.lockReservedImage db u.imageId).isSome
  | confirm u, .image id => id == u.imageId &&
      db.images.any fun i => i.id == u.imageId && i.deletedAt.isSome
  | sweep _ deletable, .image id => deletable.contains id && db.images.any (·.id == id)
  | _, _ => false

def inserted : Phase → List RowId
  | write _ w => [w.row]
  | _ => []

def targets (db : Db) (ph : Phase) : List RowId :=
  (rowIds db ++ ph.inserted).filter (ph.selects db)

/-- Where the program goes once its statement has run, and what it wrote; `none` when it raises. -/
def next (locked : List RowId) : Phase → Option (Phase × List Write)
  | validate granted wanted =>
    if wanted.all fun id => locked.contains (.image id) then some (attach (granted ++ wanted), [])
    else none
  | write granted w =>
    if !locked.contains w.row then some (attach granted, [])
    else if w.imageId.all fun id => locked.contains (.image id) then
      some (attach granted, [.ref w])
    else none
  | markDeleted imageId _ now =>
    if locked.contains (.image imageId) then some (detach imageId, [.markDeleted imageId now])
    else none
  | detach _ => some (ready, (locked.filterMap RefWrite.detach).map .ref)
  | insertUser row =>
    match row.profileImageId with
    | none => some (ready, [.insertUser row])
    | some id =>
      if locked.contains (.image id) then some (claim id row.id, [.insertUser row]) else none
  | claim imageId userId =>
    if locked.contains (.image imageId) then some (ready, [.claim imageId userId]) else none
  | lockReserved u => if locked.contains (.image u.imageId) then some (promote u, []) else none
  | confirm u =>
    if locked.contains (.image u.imageId) then some (confirmed u, [.confirm u]) else none
  | sweep _ deletable =>
    some (ready, [.deleteImages (deletable.filter fun id => locked.contains (.image id))])
  | _ => none

end Phase

structure Tx where
  phase : Phase
  scan : Option (Scan RowId)
  writes : List Write
  deriving DecidableEq, Repr

def Tx.idle : Tx where
  phase := .idle
  scan := none
  writes := []

def Tx.ended : Tx where
  phase := .done
  scan := none
  writes := []

/-- The committed database, the objects under permanent keys, the upload tokens, the locks and the
transactions. The rest is history: the ids and keys given out, the uploads that reported success,
the reserved rows that a batch selected, and the images whose object or row a batch deleted. -/
structure State where
  db : Db
  objects : List String
  tokens : KeyValue Uuid
  now : Timestamp
  locks : LockTable Nat RowId
  txs : Nat → Tx
  issued : List (Uuid × String)
  confirmed : List Uuid
  selectedReserved : List (Nat × Uuid)
  removed : List (Nat × Uuid)

def State.init (db : Db) (objects : List String) (tokens : KeyValue Uuid) (now : Timestamp) :
    State where
  db := db
  objects := objects
  tokens := tokens
  now := now
  locks := []
  txs := fun _ => .idle
  issued := imageKeys db
  confirmed := []
  selectedReserved := []
  removed := []

namespace State

def setTx (s : State) (i : Nat) (tx : Tx) : State :=
  { s with txs := Function.update s.txs i tx }

def setPhase (s : State) (i : Nat) (ph : Phase) : State :=
  s.setTx i { phase := ph, scan := none, writes := (s.txs i).writes }

def enter (s : State) (i : Nat) (ph : Phase) : Option State :=
  if (s.txs i).phase = .idle then some (s.setTx i { phase := ph, scan := none, writes := [] })
  else none

def rollback (s : State) (i : Nat) : State :=
  { s with locks := s.locks.release i }.setTx i .ended

end State

/-- A locking statement begins on the committed rows; no program selects a row that it has itself
written. -/
def start (s : State) (i : Nat) : Option State :=
  let tx := s.txs i
  if tx.phase.isStatement ∧ tx.scan = none then
    let (sc, locks) := s.locks.start i tx.phase.mode (tx.phase.targets s.db)
    some ({ s with locks := locks }.setTx i { tx with scan := some sc })
  else none

def resume (s : State) (i : Nat) (r : RowId) : Option State :=
  let tx := s.txs i
  match tx.scan with
  | none => none
  | some sc =>
    (s.locks.resume i tx.phase.mode (tx.phase.selects s.db) sc r).map fun (sc, locks) =>
      { s with locks := locks }.setTx i { tx with scan := some sc }

def finish (s : State) (i : Nat) : Option State :=
  let tx := s.txs i
  match tx.scan with
  | none => none
  | some sc =>
    if sc.waiting = [] then
      match tx.phase.next sc.locked with
      | none => some (s.rollback i)
      | some (ph, ws) => some (s.setTx i { phase := ph, scan := none, writes := tx.writes ++ ws })
    else none

def Write.confirms : Write → Option Uuid
  | .confirm u => some u.imageId
  | _ => none

def Write.deletes : Write → List Uuid
  | .deleteImages ids => ids
  | _ => []

/-- The end of transaction `i` when its writes reach the database. -/
def State.committed (s : State) (i : Nat) (db : Db) : State :=
  let writes := (s.txs i).writes
  { s with
    db := db
    locks := s.locks.release i
    confirmed := writes.filterMap Write.confirms ++ s.confirmed
    removed := (writes.flatMap Write.deletes).map (fun id => (i, id)) ++ s.removed }.setTx i .ended

def commit (s : State) (i : Nat) : Option State :=
  if (s.txs i).phase.commits then
    ((s.txs i).writes.foldlM Write.apply s.db).map (s.committed i)
  else none

def assertImagesAttachable (s : State) (i : Nat) (ids : List Uuid) : Option State :=
  match (s.txs i).phase with
  | .attach granted => if ids = [] then some s else some (s.setPhase i (.validate granted ids))
  | _ => none

def writeReference (s : State) (i : Nat) (w : RefWrite) : Option State :=
  match (s.txs i).phase with
  | .attach granted =>
    if w.imageId.all granted.contains then some (s.setPhase i (.write granted w)) else none
  | _ => none

/-- The transaction of `_reserved_upload` that inserts the reserved row. -/
def State.reserve (s : State) (u : Upload) : State :=
  { s with
    db := MediaRepository.createReservedImage s.db u.imageId u.destKey u.fileUrl
      (some u.contentType) (some u.size) u.uploaderId s.now
    issued := (u.imageId, u.destKey) :: s.issued }

/-- `_reserved_upload` up to its second transaction. -/
def upload (s : State) (i : Nat) (u : Upload) : Option State :=
  if s.issued.any (fun p => p.1 == u.imageId || p.2 == u.destKey) ||
      !u.uploaderId.all (fun id => s.db.users.any (·.id == id)) then none
  else (s.reserve u).enter i (.lockReserved u)

/-- `promote_pending_object`. -/
def promote (s : State) (i : Nat) (r : Reply) : Option State :=
  match (s.txs i).phase with
  | .promote u =>
    let s := { s with objects := if r.took then u.destKey :: s.objects else s.objects }
    if r.failed then some (s.rollback i) else some (s.setPhase i (.block u))
  | _ => none

def runBlock (s : State) (i : Nat) : Option State :=
  match (s.txs i).phase with
  | .block u =>
    let tokens := match u.signupToken with
      | none => s.tokens
      | some token => s.tokens.set (uploadTokenKey token) u.imageId
    some ({ s with tokens := tokens }.setPhase i (.confirm u))
  | _ => none

def newUser (c : Settings) (userId : Uuid) (data : SignUpRequest) (imageId : Option Uuid)
    (now : Timestamp) : User where
  id := userId
  version := 1
  email := c.lower data.email
  password := data.hashedPassword
  nickname := data.nickname
  profileImageId := imageId
  status := .active
  createdAt := now
  updatedAt := now
  deletedAt := none

/-- `signup` up to its first Redis command or its insert. -/
def signup (c : Settings) (s : State) (i : Nat) (userId : Uuid) (data : SignUpRequest) :
    Option State :=
  if (data.profileImageId.isSome ∧ data.signupToken.all (· = "")) ∨
      UsersRepository.emailExists c.lower s.db data.email ∨
      UsersRepository.nicknameExists s.db data.nickname then none
  else
    match data.signupToken.filter (· ≠ "") with
    | none => s.enter i (.insertUser (newUser c userId data none s.now))
    | some token => s.enter i (.getToken userId data token)

def verifyUploadToken (c : Settings) (s : State) (i : Nat) : Option State :=
  match (s.txs i).phase with
  | .getToken userId data token =>
    match s.tokens.get (uploadTokenKey token) with
    | none => some (s.rollback i)
    | some imageId => some (s.setPhase i (.dropToken userId data token imageId))
  | .dropToken userId data token imageId =>
    let s := { s with tokens := s.tokens.del (uploadTokenKey token) }
    if data.profileImageId.any (· ≠ imageId) then some (s.rollback i)
    else some (s.setPhase i (.insertUser (newUser c userId data (some imageId) s.now)))
  | _ => none

def cleanupCondition (c : Settings) (db : Db) (now : Timestamp) : CleanupKind → Image → Bool
  | .expiredSignup => MediaRepository.expiredSignup c.signupImageTokenTtlSeconds now
  | .abandoned => MediaRepository.abandoned 24 now db
  | .reclaimable => MediaRepository.reclaimable c.reservedImageGraceSeconds now db

/-- `_cleanup_page`, which passes over locked rows before it counts to its limit. -/
def cleanupPage (c : Settings) (s : State) (i : Nat) (kind : CleanupKind) (afterId : Option Uuid) :
    List Image :=
  MediaRepository.cleanupPage
    (s.db.images.filter fun img => cleanupCondition c s.db s.now kind img &&
      s.locks.available i .update (.image img.id))
    afterId c.mediaCleanupBatchSize

def State.isReserved (s : State) (img : Image) : Bool :=
  img.deletedAt.isSome && !s.confirmed.contains img.id

def State.lockPage (s : State) (i : Nat) (page : List Image) : State :=
  { s with
    locks := s.locks.acquire i (fun _ => .update) (page.map (.image ·.id))
    selectedReserved := (page.filter s.isReserved).map (fun img => (i, img.id)) ++
      s.selectedReserved }

/-- The first statement of a batch of `_keyset_cleanup`, from any cursor. -/
def selectPage (c : Settings) (s : State) (i : Nat) (kind : CleanupKind) (afterId : Option Uuid) :
    Option State :=
  let page := cleanupPage c s i kind afterId
  (s.lockPage i page).enter i (.sweep page [])

def State.deleteObject (s : State) (i : Nat) (img : Image) (r : StorageReply) : State :=
  if r = .raised then s
  else { s with
    objects := s.objects.filter (· ≠ img.fileKey)
    removed := if s.objects.contains img.fileKey then (i, img.id) :: s.removed else s.removed }

/-- `storage_delete` of the next object of a batch. -/
def storageDelete (s : State) (i : Nat) (r : StorageReply) : Option State :=
  match (s.txs i).phase with
  | .sweep (img :: rest) deletable =>
    some ((s.deleteObject i img r).setPhase i
      (.sweep rest (if r = .deleted then img.id :: deletable else deletable)))
  | _ => none

inductive Label where
  | tick (d : Nat)
  | tokenExpired (token : String)
  | attach (i : Nat)
  | assertImagesAttachable (i : Nat) (ids : List Uuid)
  | writeReference (i : Nat) (w : RefWrite)
  | deleteImage (i : Nat) (imageId userId : Uuid)
  | signup (i : Nat) (userId : Uuid) (data : SignUpRequest)
  | verifyUploadToken (i : Nat)
  | upload (i : Nat) (u : Upload)
  | promote (i : Nat) (r : Reply)
  | runBlock (i : Nat)
  | selectPage (i : Nat) (kind : CleanupKind) (afterId : Option Uuid)
  | storageDelete (i : Nat) (r : StorageReply)
  | start (i : Nat)
  | resume (i : Nat) (r : RowId)
  | finish (i : Nat)
  | commit (i : Nat)
  | rollback (i : Nat)

/-- One statement, one command or one end of a transaction; a transaction may fail at any point. -/
def step (c : Settings) (s : State) : Label → Option State
  | .tick d => some { s with now := s.now + d }
  | .tokenExpired token => some { s with tokens := s.tokens.del (uploadTokenKey token) }
  | .attach i => s.enter i (.attach [])
  | .assertImagesAttachable i ids => assertImagesAttachable s i ids
  | .writeReference i w => writeReference s i w
  | .deleteImage i imageId userId => s.enter i (.markDeleted imageId userId s.now)
  | .signup i userId data => signup c s i userId data
  | .verifyUploadToken i => verifyUploadToken c s i
  | .upload i u => upload s i u
  | .promote i r => promote s i r
  | .runBlock i => runBlock s i
  | .selectPage i kind afterId => selectPage c s i kind afterId
  | .storageDelete i r => storageDelete s i r
  | .start i => start s i
  | .resume i r => resume s i r
  | .finish i => finish s i
  | .commit i => commit s i
  | .rollback i => if (s.txs i).phase.ended then none else some (s.rollback i)

end PuppyTalk.MediaTx
