import PuppyTalk.AccessToken
import PuppyTalk.Backend

namespace PuppyTalk.AccountAccess

open Access (AccessToken AuthSnapshot verifyAccessToken blacklistKey invalidTokenMessage)
open Backend (Failure cachedRoom cacheRoom evictRooms normalizeDmUserIds)
open Backend.ChatService (ChatMessageSend getStatusAndBlockBetween peerMissingMessage blockedMessage)
open Session (userRefreshKey userStatusCacheKey userAuthCacheKey)

structure Config where
  credentials : Credentials
  refreshTtlSeconds : Int
  jwtSubToUuid : String → Option Uuid
  /-- Whether the stored `CurrentUser` of a user validates when it is read back. -/
  validates : Uuid → Bool

/-- Where an access token is presented: with a request, or in the handshake of a chat socket. -/
inductive Surface where
  | http
  | socket
  deriving DecidableEq, Repr

inductive Check where
  | access (surface : Surface)
  | refresh
  deriving DecidableEq, Repr

inductive CacheSlot where
  | auth
  | status
  deriving DecidableEq, Repr

/-- The next command, query or transaction of a request or a socket. A status that was read from the
database is kept with the time of the read, and a check that passed with the time when it did. -/
inductive Phase (R : Type) where
  | idle
  | loginStore (u : Uuid) (token : String) (readAt : R)
  | loginStatus (u : Uuid) (readAt : R)
  | blacklist (surface : Surface) (token : AccessToken)
  | authCache (surface : Surface) (u : Uuid)
  | findUser (surface : Surface) (u : Uuid)
  /-- Both writes run at once; the flags say which of them are still to come. -/
  | fill (surface : Surface) (u : Uuid) (status : UserStatus) (readAt : R) (auth statusLeft : Bool)
  | refreshStatus (u : Uuid)
  | refreshDb (u : Uuid)
  | refreshCache (u : Uuid) (status : UserStatus) (readAt : R)
  | passed (check : Check) (u : Uuid) (time : R)
  | statusUpdate (u : Uuid) (status : UserStatus) (revokeRefresh : Bool)
  | revokeRefresh (u : Uuid)
  | withdrawRevoke (u : Uuid)
  | withdrawFind (u : Uuid)
  | withdrawDelete (u : Uuid)
  | invalidate (u : Uuid)
  | receive (u : Uuid) (roomCache : List (Uuid × Uuid))
  | sendCheck (u : Uuid) (roomCache : List (Uuid × Uuid)) (payload : ChatMessageSend)
  | sendStore (u : Uuid) (roomCache : List (Uuid × Uuid)) (payload : ChatMessageSend) (checkedAt : R)
  | done (r : Except ApiException Unit)

/-- The stores, the clock and the requests; `auth` holds the parsed values of the auth cache, and
`ids` the ids of all accounts so far. -/
structure State (R : Type) where
  db : Store
  redis : TimedKeyValue R String
  auth : TimedKeyValue R AuthSnapshot
  now : R
  phase : Nat → Phase R
  ids : List Uuid

variable {R : Type} [Field R] [LinearOrder R]

def State.init (db : Store) : State R where
  db := db
  redis := fun _ => none
  auth := fun _ => none
  now := 0
  phase := fun _ => .idle
  ids := db.users.map (·.id)

def userStatusCacheTtlSeconds : Nat := 240

def State.setPhase (s : State R) (p : Nat) (ph : Phase R) : State R :=
  { s with phase := Function.update s.phase p ph }

inductive Effect where
  | none
  | cacheStatus (u : Uuid) (status : UserStatus)
  | cacheAuth (u : Uuid) (snapshot : AuthSnapshot)
  | storeRefresh (u : Uuid) (token : String)
  | deleteRefresh (u : Uuid)
  | invalidate (u : Uuid)
  | setStatus (u : Uuid) (status : UserStatus) (stamp : Timestamp)
  | withdraw (u : Uuid) (stamp : Timestamp)
  | message (rooms : List ChatRoom) (m : ChatMessage)

def Effect.reply (e : Effect) (r : Reply) : Effect := if r.took then e else .none

def State.setDb (s : State R) (db : Db) : State R := { s with db := { s.db with toDb := db } }

def State.apply (c : Config) (s : State R) : Effect → State R
  | .none => s
  | .cacheStatus u status =>
    let ttl : R := userStatusCacheTtlSeconds
    { s with redis := s.redis.setEx (userStatusCacheKey u) status.value s.now ttl }
  | .cacheAuth u snapshot =>
    let ttl : R := userStatusCacheTtlSeconds
    { s with auth := s.auth.setEx (userAuthCacheKey u) snapshot s.now ttl }
  | .storeRefresh u token =>
    { s with redis := s.redis.setEx (userRefreshKey u) token s.now (c.refreshTtlSeconds : R) }
  | .deleteRefresh u => { s with redis := s.redis.del (userRefreshKey u) }
  | .invalidate u =>
    { s with redis := s.redis.del (userStatusCacheKey u), auth := s.auth.del (userAuthCacheKey u) }
  | .setStatus u status stamp =>
    s.setDb (UsersRepository.updateUsers s.db.toDb (fun v => v.id == u && v.deletedAt.isNone)
      fun v => { v with status := status, updatedAt := stamp }).2
  | .withdraw u stamp => s.setDb (UsersRepository.deleteUser s.db.toDb u stamp).2
  | .message rooms m =>
    { s with db := { s.db with chatRooms := rooms, chatMessages := s.db.chatMessages ++ [m] } }

inductive GateReply where
  | allowed
  | rejected
  | close
  deriving DecidableEq, Repr

/-- `run` makes a request take its next step; a time stamp is the clock reading that goes into the
database. Without a configured Redis every command behaves as one that raises. -/
inductive Label (R : Type) where
  | tick (d : R)
  | environment (db : Store)
  | evict (key : String)
  | login (p : Nat) (data : Schema.LoginBody) (token : String)
  | resolve (p : Nat) (surface : Surface) (token : AccessToken)
  | refresh (p : Nat) (u : Uuid)
  | suspendUser (p : Nat) (u : Uuid)
  | activateUser (p : Nat) (u : Uuid)
  | deleteMe (p : Nat) (u : Uuid)
  | run (p : Nat) (r : Reply) (stamp : Timestamp)
  | fill (p : Nat) (slot : CacheSlot) (r : Reply)
  | connect (p : Nat) (registered : Bool)
  | frame (p : Nat) (gate : GateReply) (parsed : Option ChatMessageSend)
  | store (p : Nat) (roomId messageId : Uuid) (r : Reply) (stamp : Timestamp)
  | disconnect (p : Nat)
  | abort (p : Nat)

/-- `login` up to the commit of its transaction. -/
def login (c : Config) (s : State R) (data : Schema.LoginBody) (token : String) : Phase R :=
  match AuthService.loginBlock c.credentials s.db.toDb data with
  | .error e => .done (.error e)
  | .ok user =>
    if 0 < c.refreshTtlSeconds then .loginStore user.id token s.now else .done (.ok ())

def rejectToken : Phase R := .done (.error (.unauthorized (some invalidTokenMessage)))

/-- `resolve_access_token_user` up to its first command. -/
def resolveAccessTokenUser (s : State R) (surface : Surface) (token : AccessToken) : Phase R :=
  match verifyAccessToken token s.now with
  | none => rejectToken
  | some _ => .blacklist surface token

/-- `_ensure_jti_not_blacklisted`, and the subject of the token. -/
def ensureJtiNotBlacklisted (c : Config) (s : State R) (surface : Surface) (token : AccessToken)
    (r : Reply) : Phase R :=
  if r.failed = false ∧ (s.redis.read (blacklistKey token) s.now).isSome then rejectToken
  else
    match c.jwtSubToUuid token.sub with
    | none => rejectToken
    | some u => .authCache surface u

/-- `get_auth_cache` and what follows a hit. -/
def readAuthCache (s : State R) (surface : Surface) (u : Uuid) (r : Reply) : Phase R :=
  match if r.failed then none else s.auth.read (userAuthCacheKey u) s.now with
  | none => .findUser surface u
  | some snapshot =>
    if snapshot.status = UserStatus.active.value then
      match snapshot.user with
      | some user => .passed (.access surface) user s.now
      | none => .findUser surface u
    else .done (.error (.forbidden (some (UserStatus.inactiveMessageKo snapshot.status))))

def findUser (s : State R) (surface : Surface) (u : Uuid) : Phase R :=
  match UsersRepository.getUserById s.db.toDb u with
  | none => rejectToken
  | some user => .fill surface u user.status s.now true true

def filled (s : State R) (surface : Surface) (u : Uuid) (status : UserStatus) (readAt : R)
    (auth statusLeft : Bool) : Phase R :=
  if auth || statusLeft then .fill surface u status readAt auth statusLeft
  else if status = .active then .passed (.access surface) u s.now
  else .done (.error (.forbidden (some (UserStatus.inactiveMessageKo status.value))))

/-- The two writes after a miss: `set_auth_cache_best_effort` and
`set_user_status_cache_best_effort`. -/
def fill (c : Config) (s : State R) (r : Reply) : Phase R → CacheSlot → Option (Effect × Phase R)
  | .fill surface u status readAt true statusLeft, .auth =>
    let snapshot := { status := status.value, user := if c.validates u then some u else none }
    some ((Effect.cacheAuth u snapshot).reply r, filled s surface u status readAt false statusLeft)
  | .fill surface u status readAt auth true, .status =>
    some ((Effect.cacheStatus u status).reply r, filled s surface u status readAt auth false)
  | _, _ => none

/-- `_ensure_user_may_refresh` with the cached status. -/
def refreshStatus (s : State R) (u : Uuid) (r : Reply) : Phase R :=
  match if r.failed then none else s.redis.read (userStatusCacheKey u) s.now with
  | none => .refreshDb u
  | some status =>
    if status = UserStatus.active.value then .passed .refresh u s.now
    else .done (.error (.unauthorized (some (UserStatus.inactiveMessageKo status))))

def refreshDb (s : State R) (u : Uuid) : Phase R :=
  match UsersRepository.getUserById s.db.toDb u with
  | none => .done (.error (.unauthorized none))
  | some user => .refreshCache u user.status s.now

def refreshed (s : State R) (u : Uuid) (status : UserStatus) : Phase R :=
  if status = .active then .passed .refresh u s.now
  else .done (.error (.unauthorized (some (UserStatus.inactiveMessageKo status.value))))

/-- `_set_user_status` up to its update. -/
def setUserStatus (s : State R) (u : Uuid) (status : UserStatus) (revokeRefresh : Bool) : Phase R :=
  match s.db.users.find? (·.id == u) with
  | none => .done (.error .userNotFound)
  | some user =>
    if user.deletedAt.isSome ∨ user.status = .withdrawn then .done (.error .userWithdrawn)
    else .statusUpdate u status revokeRefresh

/-- What follows `revoke_refresh_for_user`, which the request does not survive when it raises. -/
def revoked (r : Reply) (next : Phase R) : Phase R :=
  if r.failed then .done (.error .internalServerError) else next

/-- `UserService.delete_user` up to its update. -/
def withdrawFind (s : State R) (u : Uuid) : Phase R :=
  match UsersRepository.getUserById s.db.toDb u with
  | none => .done (.error .internalServerError)
  | some _ => .withdrawDelete u

def withdrawn (s : State R) (u : Uuid) (stamp : Timestamp) : Phase R :=
  if (UsersRepository.deleteUser s.db.toDb u stamp).1 then .invalidate u
  else .done (.error .internalServerError)

def assertCanDm (db : Store) (userId peerId : Uuid) : Except Failure Unit :=
  if peerId = userId then .error .selfDm
  else
    match getStatusAndBlockBetween db userId peerId with
    | none => .error (.withMessage .userNotFound peerMissingMessage)
    | some (status, blocked) =>
      if status ≠ .active then .error (.withMessage .userNotFound peerMissingMessage)
      else if blocked then .error (.api (.forbidden (some blockedMessage)))
      else .ok ()

/-- `_upsert_room` with the constraints of the table. -/
def upsertRoom (db : Store) (roomId userId peerId : Uuid) (stamp : Timestamp) :
    Except Failure (Uuid × List ChatRoom) :=
  let pair := normalizeDmUserIds userId peerId
  match db.chatRooms.find? fun room => decide (room.key = pair) with
  | some room =>
    .ok (room.id, Table.update (fun room => decide (room.key = pair))
      (fun room => { room with updatedAt := stamp }) db.chatRooms)
  | none =>
    if db.users.any (·.id == pair.1) && db.users.any (·.id == pair.2) &&
        db.chatRooms.all (·.id != roomId) then
      let room : ChatRoom :=
        { id := roomId, user1Id := pair.1, user2Id := pair.2, createdAt := stamp,
          updatedAt := stamp }
      .ok (roomId, db.chatRooms ++ [room])
    else .error (.api .integrityError)

/-- The room of `send_dm_from_ws`: the cached one, or an upsert. -/
def roomOf (db : Store) (cachedRoomId : Option Uuid) (roomId senderId peerId : Uuid)
    (stamp : Timestamp) : Except Failure (Uuid × List ChatRoom) :=
  match cachedRoomId with
  | some id => .ok (id, db.chatRooms)
  | none => upsertRoom db roomId senderId peerId stamp

def insertMessage (db : Store) (rooms : List ChatRoom) (m : ChatMessage) : Except Failure Effect :=
  if rooms.any (·.id == m.roomId) && db.users.any (·.id == m.senderId) &&
      db.chatMessages.all (·.id != m.id) then .ok (.message rooms m)
  else .error (.api .integrityError)

/-- The transaction of `send_dm_from_ws` behind its check: the room of the message, and what is
written. -/
def storeMessage (db : Store) (senderId : Uuid) (cachedRoomId : Option Uuid)
    (payload : ChatMessageSend) (roomId messageId : Uuid) (stamp : Timestamp) :
    Except Failure (Uuid × Effect) :=
  match roomOf db cachedRoomId roomId senderId payload.peerUserId stamp with
  | .error e => .error e
  | .ok (id, rooms) =>
    let m : ChatMessage :=
      { id := messageId, roomId := id, senderId := senderId, content := payload.content,
        isRead := false, createdAt := stamp }
    (insertMessage db rooms m).map (id, ·)

def cacheAfter (roomCache : List (Uuid × Uuid)) (peerId roomId : Uuid) : List (Uuid × Uuid) :=
  evictRooms (if cachedRoom roomCache peerId = none then cacheRoom roomCache peerId roomId
    else roomCache)

/-- `chat_connection_manager.connect`, which refuses a user with too many sockets. -/
def connect (registered : Bool) : Phase R → Option (Phase R)
  | .passed (.access .socket) u _ => some (if registered then .receive u [] else .done (.ok ()))
  | _ => none

def frame (gate : GateReply) (parsed : Option ChatMessageSend) : Phase R → Option (Phase R)
  | .receive u roomCache =>
    match gate, parsed with
    | .close, _ => some (.done (.ok ()))
    | .rejected, _ => some (.receive u roomCache)
    | .allowed, none => some (.receive u roomCache)
    | .allowed, some payload => some (.sendCheck u roomCache payload)
  | _ => none

/-- `send_dm_from_ws` up to its check; the loop goes on behind an exception. -/
def sendCheck (s : State R) (u : Uuid) (roomCache : List (Uuid × Uuid)) (payload : ChatMessageSend) :
    Phase R :=
  match assertCanDm s.db u payload.peerUserId with
  | .error _ => .receive u roomCache
  | .ok () => .sendStore u roomCache payload s.now

def store (s : State R) (roomId messageId : Uuid) (r : Reply) (stamp : Timestamp) :
    Phase R → Option (Effect × Phase R)
  | .sendStore u roomCache payload _ =>
    let peerId := payload.peerUserId
    match storeMessage s.db u (cachedRoom roomCache peerId) payload roomId messageId stamp with
    | .error _ => some (.none, .receive u roomCache)
    | .ok (id, e) =>
      some (e.reply r, .receive u (if r.failed then roomCache else cacheAfter roomCache peerId id))
  | _ => none

def run (c : Config) (s : State R) (r : Reply) (stamp : Timestamp) :
    Phase R → Option (Effect × Phase R)
  | .loginStore u token readAt =>
    some ((Effect.storeRefresh u token).reply r, if r.failed then
      .done (.error .internalServerError) else .loginStatus u readAt)
  | .loginStatus u _ => some ((Effect.cacheStatus u .active).reply r, .done (.ok ()))
  | .blacklist surface token => some (.none, ensureJtiNotBlacklisted c s surface token r)
  | .authCache surface u => some (.none, readAuthCache s surface u r)
  | .findUser surface u => some (.none, findUser s surface u)
  | .refreshStatus u => some (.none, refreshStatus s u r)
  | .refreshDb u => some (.none, refreshDb s u)
  | .refreshCache u status _ => some ((Effect.cacheStatus u status).reply r, refreshed s u status)
  | .statusUpdate u status revokeRefresh =>
    some (.setStatus u status stamp, if revokeRefresh then .revokeRefresh u else .invalidate u)
  | .revokeRefresh u => some ((Effect.deleteRefresh u).reply r, revoked r (.invalidate u))
  | .withdrawRevoke u => some ((Effect.deleteRefresh u).reply r, revoked r (.withdrawFind u))
  | .withdrawFind u => some (.none, withdrawFind s u)
  | .withdrawDelete u => some (.withdraw u stamp, withdrawn s u stamp)
  | .invalidate u => some ((Effect.invalidate u).reply r, .done (.ok ()))
  | .sendCheck u roomCache payload => some (.none, sendCheck s u roomCache payload)
  | _ => none

def start (next : Phase R) : Phase R → Option (Effect × Phase R)
  | .idle => some (.none, next)
  | _ => none

def move (c : Config) (s : State R) : Label R → Option (Nat × Effect × Phase R)
  | .tick _ | .environment _ | .evict _ => none
  | .login p data token => (start (login c s data token) (s.phase p)).map (p, ·)
  | .resolve p surface token =>
    (start (resolveAccessTokenUser s surface token) (s.phase p)).map (p, ·)
  | .refresh p u => (start (.refreshStatus u) (s.phase p)).map (p, ·)
  | .suspendUser p u => (start (setUserStatus s u .suspended true) (s.phase p)).map (p, ·)
  | .activateUser p u => (start (setUserStatus s u .active false) (s.phase p)).map (p, ·)
  | .deleteMe p u => (start (.withdrawRevoke u) (s.phase p)).map (p, ·)
  | .run p r stamp => (run c s r stamp (s.phase p)).map (p, ·)
  | .fill p slot r => (fill c s r (s.phase p) slot).map (p, ·)
  | .connect p registered => (connect registered (s.phase p)).map (p, .none, ·)
  | .frame p gate parsed => (frame gate parsed (s.phase p)).map (p, .none, ·)
  | .store p roomId messageId r stamp =>
    (store s roomId messageId r stamp (s.phase p)).map (p, ·)
  | .disconnect p =>
    match s.phase p with
    | .receive .. => some (p, .none, .done (.ok ()))
    | _ => none
  | .abort p =>
    match s.phase p with
    | .idle | .done _ => none
    | _ => some (p, .none, .done (.error .internalServerError))

/-- Other requests create accounts under new ids and remove accounts, but leave the status of an
account to the requests of this model, as they leave to it the creation of messages. -/
def keepsAccounts (ids : List Uuid) (db db' : Store) : Bool :=
  db'.users.all (fun v => !ids.contains v.id || db.users.any fun u =>
    u.id == v.id && u.status == v.status && u.deletedAt == v.deletedAt) &&
  db'.chatMessages.all db.chatMessages.contains

def step (c : Config) (s : State R) : Label R → Option (State R)
  | .tick d => if 0 ≤ d then some { s with now := s.now + d } else none
  | .environment db =>
    if keepsAccounts s.ids s.db db then
      some { s with db := db, ids := s.ids ++ db.users.map (·.id) }
    else none
  | .evict key => some { s with redis := s.redis.del key, auth := s.auth.del key }
  | a => (move c s a).map fun (p, e, ph) => (s.apply c e).setPhase p ph

theorem step_cases {c : Config} {s t : State R} (h : step c s a = some t) :
    (∃ d, a = .tick d ∧ 0 ≤ d ∧ t = { s with now := s.now + d }) ∨
    (∃ db, a = .environment db ∧ keepsAccounts s.ids s.db db = true ∧
      t = { s with db := db, ids := s.ids ++ db.users.map (·.id) }) ∨
    (∃ key, a = .evict key ∧ t = { s with redis := s.redis.del key, auth := s.auth.del key }) ∨
    (∃ p e ph, move c s a = some (p, e, ph) ∧ t = (s.apply c e).setPhase p ph) := by
  unfold step at h
  split at h
  · rename_i d
    split at h
    · cases h
      exact .inl ⟨d, rfl, by assumption, rfl⟩
    · cases h
  · rename_i db
    split at h
    · cases h
      exact .inr (.inl ⟨db, rfl, by assumption, rfl⟩)
    · cases h
  · rename_i key
    cases h
    exact .inr (.inr (.inl ⟨key, rfl, rfl⟩))
  · obtain ⟨⟨p, e, ph⟩, hm, rfl⟩ := Option.map_eq_some_iff.mp h
    exact .inr (.inr (.inr ⟨p, e, ph, hm, rfl⟩))

omit [LinearOrder R] in
@[simp] theorem apply_now (c : Config) (s : State R) (e : Effect) : (s.apply c e).now = s.now := by
  cases e <;> rfl

omit [LinearOrder R] in
@[simp] theorem apply_ids (c : Config) (s : State R) (e : Effect) : (s.apply c e).ids = s.ids := by
  cases e <;> rfl

def liveRow (u : Uuid) (v : User) : Bool := v.id == u && v.deletedAt.isNone

omit [LinearOrder R] in
theorem apply_setStatus_users (c : Config) (s : State R) (u : Uuid) (status : UserStatus)
    (stamp : Timestamp) :
    (s.apply c (.setStatus u status stamp)).db.users = Table.update (liveRow u)
      (fun v => { v with status := status, updatedAt := stamp }) s.db.users := rfl

omit [LinearOrder R] in
theorem apply_withdraw_users (c : Config) (s : State R) (u : Uuid) (stamp : Timestamp) :
    ∃ f : User → User, (∀ v, (f v).id = v.id ∧ (f v).deletedAt = some stamp) ∧
      (s.apply c (.withdraw u stamp)).db.users = Table.update (liveRow u) f s.db.users := by
  simp only [State.apply, State.setDb, UsersRepository.deleteUser]
  split
  · rename_i hnone
    exact ⟨fun v => { v with deletedAt := some stamp }, fun v => ⟨rfl, rfl⟩,
      (Table.update_eq_self _ hnone).symm⟩
  · refine ⟨_, ?_, rfl⟩
    exact fun v => ⟨rfl, rfl⟩

omit [LinearOrder R] in
theorem apply_users (c : Config) (s : State R) (e : Effect) :
    (s.apply c e).db.users = s.db.users ∨ (∃ u status stamp, e = .setStatus u status stamp) ∨
      ∃ u stamp, e = .withdraw u stamp := by
  cases e with
  | setStatus u status stamp => exact .inr (.inl ⟨u, status, stamp, rfl⟩)
  | withdraw u stamp => exact .inr (.inr ⟨u, stamp, rfl⟩)
  | _ => exact .inl rfl

omit [LinearOrder R] in
theorem apply_users_id {c : Config} {s : State R} (h : v ∈ (s.apply c e).db.users) :
    ∃ w ∈ s.db.users, w.id = v.id := by
  have hupdate {u : Uuid} {f : User → User} (hv : v ∈ Table.update (liveRow u) f s.db.users)
      (hf : ∀ w, (f w).id = w.id) : ∃ w ∈ s.db.users, w.id = v.id := by
    obtain ⟨w, hw, rfl⟩ := Table.mem_update.mp hv
    exact ⟨w, hw, (Table.key_update hf w).symm⟩
  rcases apply_users c s e with hsame | ⟨u, status, stamp, rfl⟩ | ⟨u, stamp, rfl⟩
  · exact ⟨v, hsame ▸ h, rfl⟩
  · rw [apply_setStatus_users] at h
    exact hupdate h fun _ => rfl
  · obtain ⟨f, hf, hupd⟩ := apply_withdraw_users c s u stamp
    rw [hupd] at h
    exact hupdate h fun w => (hf w).1

theorem insertMessage_effect (h : insertMessage db rooms m = .ok e) : e = .message rooms m := by
  unfold insertMessage at h
  split at h
  · exact (Except.ok.inj h).symm
  · cases h

theorem storeMessage_effect
    (h : storeMessage db senderId cachedRoomId payload roomId messageId stamp = .ok (room, e)) :
    ∃ rooms m, e = .message rooms m ∧ m.senderId = senderId := by
  unfold storeMessage at h
  split at h
  · cases h
  · rename_i id rooms hroom
    dsimp only at h
    cases hm : insertMessage db rooms _ with
    | error f =>
      rw [hm] at h
      cases h
    | ok f =>
      rw [hm] at h
      cases h
      exact ⟨rooms, _, insertMessage_effect hm, rfl⟩

variable [IsStrictOrderedRing R]

theorem step_now {c : Config} {s t : State R} (h : step c s a = some t) : s.now ≤ t.now := by
  rcases step_cases h with ⟨d, -, hd, rfl⟩ | ⟨db, -, -, rfl⟩ | ⟨key, -, rfl⟩ | ⟨p, e, ph, -, rfl⟩
  · exact le_add_of_nonneg_right hd
  · exact le_rfl
  · exact le_rfl
  · exact (apply_now c s e).ge

theorem exec_now {c : Config} {s t : State R} (h : exec (step c) s as = some t) : s.now ≤ t.now :=
  exec_invariant' (I := fun t => s.now ≤ t.now) (fun hle hs => hle.trans (step_now hs)) le_rfl h

namespace Sample

/-! Two active accounts for runs on fixed inputs. -/

def config : Config where
  credentials := PasswordHistory.sampleConfig.credentials
  refreshTtlSeconds := 7 * 86400
  jwtSubToUuid := Access.sampleSubToUuid
  validates _ := true

abbrev start : State ℚ := State.init Backend.Sample.store

end Sample

end PuppyTalk.AccountAccess
