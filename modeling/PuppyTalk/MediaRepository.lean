import Mathlib.Data.List.Sort
import PuppyTalk.Db

namespace PuppyTalk

def Db.references (db : Db) (imageId : Uuid) : Bool :=
  db.users.any (·.profileImageId == some imageId) ||
  db.dogProfiles.any (·.profileImageId == some imageId) ||
  db.postImages.any (·.imageId == imageId)

def seconds (n : Int) : Int := n * 1000000

def hours (n : Int) : Int := seconds (n * 3600)

def days (n : Int) : Int := hours (n * 24)

namespace MediaRepository

/-- `create_reserved_image`: the row is born with `deleted_at` set. -/
def createReservedImage (db : Db) (id : Uuid) (fileKey fileUrl : String)
    (contentType : Option String) (size : Option Nat) (uploaderId : Option Uuid) (now : Timestamp) :
    Db :=
  { db with images := db.images ++ [{
      id := id, fileKey := fileKey, fileUrl := fileUrl, contentType := contentType, size := size,
      uploaderId := uploaderId, createdAt := now, deletedAt := some now }] }

def lockReservedImage (db : Db) (imageId : Uuid) : Option Image :=
  db.images.find? fun i => i.id == imageId && i.deletedAt.isSome

def confirmReservedImage (db : Db) (imageId : Uuid) (size : Option Nat)
    (contentType : Option String) : Option Image × Db :=
  let (r, images) := Table.updateReturning (fun i => i.id == imageId && i.deletedAt.isSome)
    (fun i => { i with deletedAt := none, size := size, contentType := contentType }) id db.images
  (r, { db with images := images })

def attachMessage : String := "업로드되지 않은 이미지 ID를 참조할 수 없습니다."

def attachable (db : Db) (imageId : Uuid) : Bool :=
  db.images.any fun i => i.id == imageId && i.deletedAt.isNone

def assertImagesAttachable (db : Db) (imageIds : List Uuid) : Except ApiException Unit :=
  if imageIds.all (attachable db) then .ok () else .error (.invalidRequest attachMessage)

def claimImageOwnership (db : Db) (imageId userId : Uuid) : Bool × Db :=
  let (r, images) := Table.updateReturning
    (fun i => i.id == imageId && i.uploaderId.isNone && i.deletedAt.isNone)
    (fun i => { i with uploaderId := some userId }) (·.id) db.images
  (r.isSome, { db with images := images })

/-- `delete_images_by_ids` with the foreign keys that point to `images`. -/
def deleteImagesByIds (db : Db) (imageIds : List Uuid) : Db :=
  let detach (i : Option Uuid) : Option Uuid := i.filter fun i => !imageIds.contains i
  { db with
    images := Table.delete (fun i => imageIds.contains i.id) db.images
    users := db.users.map fun u => { u with profileImageId := detach u.profileImageId }
    dogProfiles := db.dogProfiles.map fun d => { d with profileImageId := detach d.profileImageId }
    postImages := Table.delete (fun pi => imageIds.contains pi.imageId) db.postImages }

/-- `_cleanup_page` when no row is locked. -/
def cleanupPage (rows : List Image) (afterId : Option Uuid) (limit : Nat) : List Image :=
  ((rows.filter fun i => afterId.all (· < i.id)).insertionSort fun i j => i.id ≤ j.id).take limit

def unreferenced (db : Db) (i : Image) : Bool := !db.references i.id

def expiredSignup (ttlSeconds : Int) (now : Timestamp) (i : Image) : Bool :=
  i.uploaderId.isNone && i.deletedAt.isNone && decide (i.createdAt < now - seconds ttlSeconds)

def getExpiredSignupImages (ttlSeconds : Int) (db : Db) (now : Timestamp) (afterId : Option Uuid)
    (limit : Nat) : List Image :=
  cleanupPage (db.images.filter (expiredSignup ttlSeconds now)) afterId limit

def abandoned (olderThanHours : Int) (now : Timestamp) (db : Db) (i : Image) : Bool :=
  decide (i.createdAt < now - hours olderThanHours) && i.deletedAt.isNone && unreferenced db i

def getAbandonedImages (olderThanHours : Int) (db : Db) (now : Timestamp) (afterId : Option Uuid)
    (limit : Nat) : List Image :=
  cleanupPage (db.images.filter (abandoned olderThanHours now db)) afterId limit

def reclaimable (graceSeconds : Int) (now : Timestamp) (db : Db) (i : Image) : Bool :=
  i.deletedAt.any (· < now - seconds graceSeconds) && unreferenced db i

def getReclaimableImages (graceSeconds : Int) (db : Db) (now : Timestamp) (afterId : Option Uuid)
    (limit : Nat) : List Image :=
  cleanupPage (db.images.filter (reclaimable graceSeconds now db)) afterId limit

/-- `soft_delete_image_if_owned`: mark the row, then cut every reference to it. -/
def softDeleteImageIfOwned (db : Db) (imageId userId : Uuid) (now : Timestamp) : Bool × Db :=
  let (r, images) := Table.updateReturning
    (fun i => i.id == imageId && i.uploaderId == some userId && i.deletedAt.isNone)
    (fun i => { i with deletedAt := some now }) (·.id) db.images
  match r with
  | none => (false, { db with images := images })
  | some _ =>
    (true, { db with
      images := images
      users := Table.update (·.profileImageId == some imageId)
        (fun u => { u with profileImageId := none }) db.users
      dogProfiles := Table.update (·.profileImageId == some imageId)
        (fun d => { d with profileImageId := none }) db.dogProfiles
      postImages := Table.delete (·.imageId == imageId) db.postImages })

end MediaRepository

end PuppyTalk
