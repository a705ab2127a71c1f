import PuppyTalk.AccountTransactions

namespace PuppyTalk.Backend

def normalizeDmUserIds (userA userB : Uuid) : Uuid × Uuid :=
  if userA < userB then (userA, userB) else (userB, userA)

def cachedRoom (cache : List (Uuid × Uuid)) (peerId : Uuid) : Option Uuid :=
  (cache.find? fun e => e.1 == peerId).map (·.2)

/-- `room_cache[peer_id] = room_id`; a new key goes to the end. -/
def cacheRoom (cache : List (Uuid × Uuid)) (peerId roomId : Uuid) : List (Uuid × Uuid) :=
  if cache.any (·.1 == peerId) then
    cache.map fun e => if e.1 == peerId then (peerId, roomId) else e
  else cache ++ [(peerId, roomId)]

def roomCacheMax : Nat := 64

def evictRooms (cache : List (Uuid × Uuid)) : List (Uuid × Uuid) :=
  cache.drop (cache.length - roomCacheMax)

def Outside.updateCache (x : Outside) (s : Socket) (f : List (Uuid × Uuid) → List (Uuid × Uuid)) :
    Outside :=
  { x with roomCache := Function.update x.roomCache s (f (x.roomCache s)) }

namespace ChatService

def peerMissingMessage : String := "상대방을 찾을 수 없습니다."

def blockedMessage : String := "메시지를 보낼 수 없는 상대입니다."

def getStatusAndBlockBetween (d : Store) (userId otherId : Uuid) : Option (UserStatus × Bool) :=
  (d.users.find? fun u => u.id == otherId && u.deletedAt.isNone).map fun u =>
    (u.status, d.userBlocks.any fun b =>
      (b.blockerId == userId && b.blockedId == otherId) ||
      (b.blockerId == otherId && b.blockedId == userId))

def assertCanDm (userId peerId : Uuid) (cachedRoomId : Option Uuid) : TxM Unit :=
  if peerId = userId then .raise .selfDm
  else do
    match ← query (.getStatusAndBlockBetween cachedRoomId) fun d =>
      getStatusAndBlockBetween d userId peerId with
    | none => .raise (.withMessage .userNotFound peerMissingMessage)
    | some (status, blocked) =>
      if status ≠ .active then .raise (.withMessage .userNotFound peerMissingMessage)
      else if blocked then raise (.forbidden (some blockedMessage))
      else pure ()

/-- `_upsert_room`: an insert that meets a room updates it instead, and starts over if that room is
gone by then; `retries` is how often it does. -/
def upsertRoom (roomId userId peerId : Uuid) (now : Timestamp) : Nat → TxM Uuid
  | 0 => .select .upsertRoom (fun _ => false) fun _ => .pure roomId
  | retries + 1 => do
    let pair := normalizeDmUserIds userId peerId
    let inserted ← insertIgnore .upsertRoom Tables.chatRooms
      { id := roomId, user1Id := pair.1, user2Id := pair.2, createdAt := now, updatedAt := now } do
        references Tables.users (·.id == pair.1)
        references Tables.users (·.id == pair.2)
    if inserted then pure roomId
    else
      match ← updateOneReturning .upsertRoom Tables.chatRooms (fun r => decide (r.key = pair))
        (fun r => { r with updatedAt := now }) (fun _ => rfl) (·.id) with
      | some id => pure id
      | none => upsertRoom roomId userId peerId now retries

def resolveDirectRoom (userId peerId roomId : Uuid) (retries : Nat) (now : Timestamp) : TxM Uuid :=
  transaction do
    assertCanDm userId peerId none
    upsertRoom roomId userId peerId now retries

structure ChatMessageSend where
  peerUserId : Uuid
  content : String
  deriving DecidableEq, Repr

def insertMessage (messageId roomId senderId : Uuid) (content : String) (now : Timestamp) :
    TxM Unit :=
  insertRow .insertMessage Tables.chatMessages
    { id := messageId, roomId := roomId, senderId := senderId, content := content,
      isRead := false, createdAt := now } do
      references Tables.chatRooms (·.id == roomId)
      references Tables.users (·.id == senderId)

/-- The room of `send_dm_from_ws`: the cached one, or an upsert. -/
def roomOf (cachedRoomId : Option Uuid) (roomId senderId peerId : Uuid) (retries : Nat)
    (now : Timestamp) : TxM Uuid :=
  match cachedRoomId with
  | some id => pure id
  | none => upsertRoom roomId senderId peerId now retries

/-- `send_dm_from_ws` up to the fanout, with the eviction of its caller. -/
def sendDmFromWs (s : Socket) (payload : ChatMessageSend) (roomId messageId : Uuid) (retries : Nat)
    (now : Timestamp) : TxM Unit :=
  .call id fun x => do
    let peerId := payload.peerUserId
    let cachedRoomId := cachedRoom (x.roomCache s) peerId
    let id ← transaction do
      assertCanDm s.userId peerId cachedRoomId
      let id ← roomOf cachedRoomId roomId s.userId peerId retries now
      insertMessage messageId id s.userId payload.content now
      pure id
    if cachedRoomId = none then
      .call (fun x => x.updateCache s fun cache => cacheRoom cache peerId id) fun _ =>
        .call (fun x => x.updateCache s evictRooms) fun _ => .pure ()
    else .call (fun x => x.updateCache s evictRooms) fun _ => .pure ()

def disconnect (s : Socket) : TxM Unit :=
  .call (fun x => x.updateCache s fun _ => []) fun _ => .pure ()

end ChatService

end PuppyTalk.Backend
