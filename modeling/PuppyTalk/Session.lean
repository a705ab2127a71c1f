import PuppyTalk.Run
import PuppyTalk.KeyValue
import PuppyTalk.Rotation
import PuppyTalk.Password

namespace PuppyTalk.Session

structure Config where
  credentials : Credentials
  refreshTtlSeconds : Int
  refreshTokenDigest : String → String
  /-- The `sub` of a token that `verify_refresh_token` accepts at a time. -/
  verifyRefreshToken : String → Timestamp → Option String
  jwtSubToUuid : String → Option Uuid

def userRefreshKey (u : Uuid) : String := "user_refresh:" ++ u.text

def userStatusCacheKey (u : Uuid) : String := "user:status:" ++ u.text

def userAuthCacheKey (u : Uuid) : String := "user:auth:" ++ u.text

def accessJtiBlacklistRedisKey (jti : String) : String := "blacklist:jti:" ++ jti

def reloginMessage : String := "인증을 갱신할 수 없습니다. 다시 로그인해 주세요."

/-- The next command or transaction of a request; tokens are named by their digests, and a password
change by the number of the password it has set. -/
inductive Phase where
  | idle
  | loginStore (u : Uuid) (token : String)
  | loginStatus (u : Uuid)
  | refreshStatus (u : Uuid) (incoming : String)
  | refreshDb (u : Uuid) (incoming : String)
  | refreshCache (u : Uuid) (incoming : String) (status : UserStatus)
  | refreshCreate (u : Uuid) (incoming : String)
  | refreshRotate (u : Uuid) (incoming new : String)
  | sequentialGet (u : Uuid) (incoming new : String)
  | sequentialSet (u : Uuid) (incoming new : String)
  | logoutBlacklist (u : Uuid) (jti : String)
  | logoutDelete (u : Uuid)
  | passwordRevoke (u : Uuid) (n : Nat)
  | passwordReturn (u : Uuid) (n : Nat)
  | withdrawRevoke (u : Uuid)
  | withdrawDelete (u : Uuid)
  | suspendRevoke (u : Uuid)
  | invalidate (u : Uuid)
  | done (r : Except ApiException Unit)

/-- The stores and the requests, and for the statements: the digests of all tokens created, what
happened to the refresh keys, how many passwords each user has set, the password that the login
behind a token verified, and the last change that has deleted the key or returned. -/
structure State where
  db : Db
  redis : KeyValue String
  now : Timestamp
  phase : Nat → Phase
  issued : List String
  log : List (Rotation.Event Uuid String)
  generation : Uuid → Nat
  origin : String → Nat
  revoked : Uuid → Nat
  returned : Uuid → Nat

def State.init (db : Db) : State where
  db := db
  redis := fun _ => none
  now := 0
  phase := fun _ => .idle
  issued := []
  log := []
  generation := fun _ => 0
  origin := fun _ => 0
  revoked := fun _ => 0
  returned := fun _ => 0

def State.setPhase (s : State) (p : Nat) (ph : Phase) : State :=
  { s with phase := Function.update s.phase p ph }

def State.finish (s : State) (p : Nat) (r : Except ApiException Unit) : State :=
  s.setPhase p (.done r)

/-- `create_refresh_token` for a new digest. -/
def State.issue (s : State) (d : String) : State := { s with issued := d :: s.issued }

def State.setOrigin (s : State) (d : String) (n : Nat) : State :=
  { s with origin := Function.update s.origin d n }

/-- `SET user_refresh:{id}`. -/
def State.store (s : State) (u : Uuid) (d : String) : State :=
  { s with redis := s.redis.set (userRefreshKey u) d, log := .stored u d :: s.log }

/-- `DEL user_refresh:{id}`. -/
def State.delete (s : State) (u : Uuid) : State :=
  { s with redis := s.redis.del (userRefreshKey u), log := .deleted u :: s.log }

def State.rotate (s : State) (u : Uuid) (old new : String) : State :=
  { s with redis := s.redis.set (userRefreshKey u) new, log := .rotated u old new :: s.log }

def State.accept (s : State) (u : Uuid) (d : String) : State :=
  { s with log := .accepted u d :: s.log }

def State.cache (s : State) (key value : String) : State :=
  { s with redis := s.redis.set key value }

def State.invalidate (s : State) (u : Uuid) : State :=
  { s with redis := (s.redis.del (userStatusCacheKey u)).del (userAuthCacheKey u) }

def State.setRevoked (s : State) (u : Uuid) (n : Nat) : State :=
  { s with revoked := Function.update s.revoked u (max (s.revoked u) n) }

def State.setReturned (s : State) (u : Uuid) (n : Nat) : State :=
  { s with returned := Function.update s.returned u (max (s.returned u) n) }

/-- Requests start with their first transaction, after the body was validated; `run` makes a
request take its next step and `create` draws the token that a refresh hands out. -/
inductive Label (c : Config) where
  | tick (d : Nat)
  | environment (db : Db)
  | refreshExpired (u : Uuid)
  | statusExpired (u : Uuid)
  | blacklistExpired (jti : String)
  | login (p : Nat) (data : Schema.LoginBody) (token : String)
  | refresh (p : Nat) (token : String)
  | create (p : Nat) (token : String)
  | logout (p : Nat) (u : Uuid) (jti : Option String) (ttl : Int)
  | updatePassword (p : Nat) (u : Uuid) (data : Schema.UpdatePasswordBody)
      (salt : c.credentials.bcrypt.Salt)
  | deleteMe (p : Nat) (u : Uuid)
  | suspendUser (p : Nat) (u : Uuid)
  | activateUser (p : Nat) (u : Uuid)
  | run (p : Nat) (r : Reply)

/-- `login` up to the commit of its transaction. -/
def login (c : Config) (s : State) (p : Nat) (data : Schema.LoginBody) (token : String) :
    Option State :=
  match AuthService.loginBlock c.credentials s.db data with
  | .error e => some (s.finish p (.error e))
  | .ok user =>
    let d := c.refreshTokenDigest token
    if d ∈ s.issued then none
    else
      let s := (s.issue d).setOrigin d (s.generation user.id)
      if 0 < c.refreshTtlSeconds then some (s.setPhase p (.loginStore user.id d))
      else some (s.finish p (.ok ()))

/-- `refresh_tokens` up to its first command. -/
def refresh (c : Config) (s : State) (p : Nat) (token : String) : State :=
  if token = "" then s.finish p (.error (.unauthorized none))
  else
    match c.verifyRefreshToken token s.now with
    | none => s.finish p (.error .internalServerError)
    | some sub =>
      if sub = "" then s.finish p (.error (.unauthorized none))
      else
        match c.jwtSubToUuid sub with
        | none => s.finish p (.error (.unauthorized (some reloginMessage)))
        | some u => s.setPhase p (.refreshStatus u (c.refreshTokenDigest token))

/-- `_ensure_user_may_refresh` with the cached status. -/
def refreshStatus (s : State) (p : Nat) (u : Uuid) (incoming : String) (cached : Option String) :
    State :=
  match cached with
  | none => s.setPhase p (.refreshDb u incoming)
  | some status =>
    if status = UserStatus.active.value then s.setPhase p (.refreshCreate u incoming)
    else s.finish p (.error (.unauthorized (some (UserStatus.inactiveMessageKo status))))

def refreshDb (s : State) (p : Nat) (u : Uuid) (incoming : String) : State :=
  match UsersRepository.getUserById s.db u with
  | none => s.finish p (.error (.unauthorized none))
  | some user => s.setPhase p (.refreshCache u incoming user.status)

def refreshCache (s : State) (p : Nat) (u : Uuid) (incoming : String) (status : UserStatus)
    (r : Reply) : State :=
  let s := if r.took then s.cache (userStatusCacheKey u) status.value else s
  if status = .active then s.setPhase p (.refreshCreate u incoming)
  else s.finish p (.error (.unauthorized (some (UserStatus.inactiveMessageKo status.value))))

def State.reject (s : State) (p : Nat) : State :=
  s.finish p (.error (.unauthorized (some reloginMessage)))

/-- `_try_refresh_rotation_redis`: the script when tokens have a lifetime, a comparison otherwise. -/
def refreshRotate (c : Config) (s : State) (p : Nat) (u : Uuid) (incoming new : String) (r : Reply) :
    State :=
  let hit := s.redis.get (userRefreshKey u) = some incoming
  if c.refreshTtlSeconds ≤ 0 then
    if r.failed = false ∧ hit then (s.accept u incoming).finish p (.ok ()) else s.reject p
  else if r.failed then
    if r.took ∧ hit then
      ((s.store u new).setOrigin new (s.origin incoming)).setPhase p (.sequentialGet u incoming new)
    else s.setPhase p (.sequentialGet u incoming new)
  else if hit then ((s.rotate u incoming new).setOrigin new (s.origin incoming)).finish p (.ok ())
  else s.reject p

/-- `_refresh_rotation_sequential`. -/
def sequentialGet (s : State) (p : Nat) (u : Uuid) (incoming new : String) (r : Reply) : State :=
  if r.failed = false ∧ s.redis.get (userRefreshKey u) = some incoming then
    s.setPhase p (.sequentialSet u incoming new)
  else s.reject p

def sequentialSet (s : State) (p : Nat) (u : Uuid) (incoming new : String) (r : Reply) : State :=
  let s := if r.took then (s.store u new).setOrigin new (s.origin incoming) else s
  if r.failed then s.reject p else (s.accept u incoming).finish p (.ok ())

/-- A `DEL` of the refresh key that the request does not survive when it raises. -/
def deleteThen (s : State) (p : Nat) (u : Uuid) (r : Reply) (next : Phase) : State :=
  let s := if r.took then s.delete u else s
  if r.failed then s.finish p (.error .internalServerError) else s.setPhase p next

def run (c : Config) (s : State) (p : Nat) (r : Reply) : Option State :=
  match s.phase p with
  | .idle | .done _ | .refreshCreate _ _ => none
  | .loginStore u d =>
    let s := if r.took then s.store u d else s
    some (if r.failed then s.finish p (.error .internalServerError)
      else s.setPhase p (.loginStatus u))
  | .loginStatus u =>
    let s := if r.took then s.cache (userStatusCacheKey u) UserStatus.active.value else s
    some (s.finish p (.ok ()))
  | .refreshStatus u incoming =>
    some (refreshStatus s p u incoming
      (if r.failed then none else s.redis.get (userStatusCacheKey u)))
  | .refreshDb u incoming => some (refreshDb s p u incoming)
  | .refreshCache u incoming status => some (refreshCache s p u incoming status r)
  | .refreshRotate u incoming new => some (refreshRotate c s p u incoming new r)
  | .sequentialGet u incoming new => some (sequentialGet s p u incoming new r)
  | .sequentialSet u incoming new => some (sequentialSet s p u incoming new r)
  | .logoutBlacklist u jti =>
    let s := if r.took then s.cache (accessJtiBlacklistRedisKey jti) "logout" else s
    some (if r.failed then s.finish p (.error .internalServerError)
      else s.setPhase p (.logoutDelete u))
  | .logoutDelete u => some (deleteThen s p u r (.done (.ok ())))
  | .passwordRevoke u n =>
    some (deleteThen (if r.took then s.setRevoked u n else s) p u r (.passwordReturn u n))
  | .passwordReturn u n => some ((s.setReturned u n).finish p (.ok ()))
  | .withdrawRevoke u => some (deleteThen s p u r (.withdrawDelete u))
  | .withdrawDelete u =>
    match UserService.deleteUser s.db u s.now with
    | (.error e, db) => some ({ s with db := db }.finish p (.error e))
    | (.ok (), db) => some ({ s with db := db }.setPhase p (.invalidate u))
  | .suspendRevoke u => some (deleteThen s p u r (.invalidate u))
  | .invalidate u => some ((if r.took then s.invalidate u else s).finish p (.ok ()))

/-- `_set_user_status` up to the commit of its transaction. -/
def setUserStatus (s : State) (p : Nat) (u : Uuid) (status : UserStatus) (next : Phase) : State :=
  match AdminService.setUserStatus s.db u status s.now with
  | (.error e, db) => { s with db := db }.finish p (.error e)
  | (.ok (), db) => { s with db := db }.setPhase p next

/-- `update_password` up to the commit of its transaction. -/
def updatePassword (c : Config) (s : State) (p : Nat) (u : Uuid) (data : Schema.UpdatePasswordBody)
    (salt : c.credentials.bcrypt.Salt) : State :=
  match UserService.updatePassword c.credentials s.db u data salt with
  | (.error e, db) => { s with db := db }.finish p (.error e)
  | (.ok (), db) =>
    let n := s.generation u + 1
    { s with db := db, generation := Function.update s.generation u n }.setPhase p
      (.passwordRevoke u n)

/-- Other requests leave the stored hashes of existing users alone. -/
def keepsPasswords (db db' : Db) : Bool :=
  db.users.all fun u => db'.users.all fun v => v.id != u.id || v.password == u.password

def State.start (s : State) (p : Nat) (next : Option State) : Option State :=
  match s.phase p with
  | .idle => next
  | _ => none

def step (c : Config) (s : State) : Label c → Option State
  | .tick d => some { s with now := s.now + d }
  | .environment db => if keepsPasswords s.db db then some { s with db := db } else none
  | .refreshExpired u => some (s.delete u)
  | .statusExpired u => some (s.invalidate u)
  | .blacklistExpired jti =>
    some { s with redis := s.redis.del (accessJtiBlacklistRedisKey jti) }
  | .login p data token => s.start p (login c s p data token)
  | .refresh p token => s.start p (some (refresh c s p token))
  | .create p token =>
    match s.phase p with
    | .refreshCreate u incoming =>
      let d := c.refreshTokenDigest token
      if d ∈ s.issued then none else some ((s.issue d).setPhase p (.refreshRotate u incoming d))
    | _ => none
  | .logout p u jti ttl => s.start p (some (match jti with
    | none => s.setPhase p (.logoutDelete u)
    | some jti =>
      if 0 < ttl ∧ Python.strip jti ≠ "" then s.setPhase p (.logoutBlacklist u (Python.strip jti))
      else s.setPhase p (.logoutDelete u)))
  | .updatePassword p u data salt => s.start p (some (updatePassword c s p u data salt))
  | .deleteMe p u => s.start p (some (s.setPhase p (.withdrawRevoke u)))
  | .suspendUser p u => s.start p (some (setUserStatus s p u .suspended (.suspendRevoke u)))
  | .activateUser p u => s.start p (some (setUserStatus s p u .active (.invalidate u)))
  | .run p r => run c s p r

def Label.NoFailure : Label c → Prop
  | .run _ r => r = .ok
  | _ => True

end PuppyTalk.Session
