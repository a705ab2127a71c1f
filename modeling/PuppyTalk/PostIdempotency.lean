import PuppyTalk.Run
import PuppyTalk.KeyValue
import PuppyTalk.Python
import PuppyTalk.Common

namespace PuppyTalk.PostIdempotency

def idempKeyMin : Nat := 8

def idempKeyMax : Nat := 128

def idempConflictMessage : String := "동일 멱등성 키로 게시글 생성이 진행 중입니다."

def normalizeIdempotencyKey (raw : Option String) : Except ApiException (Option String) :=
  match raw with
  | none => .ok none
  | some raw =>
    let s := Python.strip raw
    if s = "" then .ok none
    else if Python.len s < idempKeyMin ∨ idempKeyMax < Python.len s then
      .error (.invalidRequest
        s!"X-Idempotency-Key는 {idempKeyMin}~{idempKeyMax}자여야 합니다.")
    else .ok (some s)

/-- The requests of one user that carry one normalised key; `sha256Hex` is the digest of the
standard library and `userId` the user's id as text. -/
structure Scope where
  sha256Hex : String → String
  userId : String
  norm : String

def idempotencyFingerprint (sha256Hex : String → String) (userId norm : String) : String :=
  sha256Hex s!"{userId}:{norm}"

def resultRedisKey (fp : String) : String := "idemp:post:create:res:" ++ fp

def lockRedisKey (fp : String) : String := "idemp:post:create:lock:" ++ fp

def Scope.fingerprint (c : Scope) : String := idempotencyFingerprint c.sha256Hex c.userId c.norm

def Scope.resultKey (c : Scope) : String := resultRedisKey c.fingerprint

def Scope.lockKey (c : Scope) : String := lockRedisKey c.fingerprint

/-- `ApiResponse[PostIdData]`. -/
structure ApiResponse where
  code : String
  data : Option Uuid
  message : Option String
  requestId : String
  deriving DecidableEq, Repr

def apiResponse (requestId : String) (postId : Uuid) : ApiResponse :=
  { code := "OK", data := some postId, message := none, requestId := requestId }

def mergeRequestIdIntoCachedBody (body : ApiResponse) (requestId : String) : ApiResponse :=
  { body with requestId := requestId }

inductive RedisValue where
  | token (t : String)
  | body (r : ApiResponse)
  deriving DecidableEq, Repr

/-- `_IDEMP_ADAPTER.validate_json`; anything but a stored response fails the validation. -/
def validateJson : RedisValue → Option ApiResponse
  | .token _ => none
  | .body r => some r

inductive Reply where
  | created (body : ApiResponse)
  | raised (e : ApiException)
  deriving DecidableEq, Repr

/-- Where one `create_post` request stands between two of its commands. -/
inductive Phase where
  | idle
  | lookup (requestId : String)
  | acquire (requestId : String)
  | creating (requestId : String)
  | finishing (out : ApiResponse) (stored released : Bool)
  | failing (e : ApiException)
  | replied (r : Reply)
  deriving DecidableEq, Repr

/-- Redis, the posts created by committed transactions, and the requests, each named by the
lock token it draws. -/
structure State where
  redis : KeyValue RedisValue
  posts : List Uuid
  phase : String → Phase

def State.init : State where
  redis := fun _ => none
  posts := []
  phase := fun _ => .idle

def State.setPhase (s : State) (t : String) (p : Phase) : State :=
  { s with phase := Function.update s.phase t p }

inductive Label where
  | request (token requestId : String) (rawKey : Option String)
  | get (token : String)
  | setNx (token : String)
  | commit (token : String) (postId : Uuid)
  | abort (token : String) (e : ApiException)
  | store (token : String)
  | release (token : String)
  | reply (token : String)
  deriving DecidableEq, Repr

/-- `post_create_idempotency_before`, up to its first command. -/
def request (c : Scope) (s : State) (t requestId : String) (rawKey : Option String) :
    Option State :=
  match s.phase t, normalizeIdempotencyKey rawKey with
  | .idle, .ok (some norm) => if norm = c.norm then some (s.setPhase t (.lookup requestId)) else none
  | _, _ => none

def get (c : Scope) (s : State) (t : String) : Option State :=
  match s.phase t with
  | .lookup requestId =>
    match (s.redis.get c.resultKey).bind validateJson with
    | some body =>
      some (s.setPhase t (.replied (.created (mergeRequestIdIntoCachedBody body requestId))))
    | none => some (s.setPhase t (.acquire requestId))
  | _ => none

/-- `try_acquire_lock`: `SET NX` of the token, and 409 when the lock is taken. -/
def setNx (c : Scope) (s : State) (t : String) : Option State :=
  match s.phase t with
  | .acquire requestId =>
    match s.redis.setNx c.lockKey (.token t) with
    | (true, redis) => some ({ s with redis := redis }.setPhase t (.creating requestId))
    | (false, _) =>
      some (s.setPhase t (.replied (.raised (.concurrentUpdate idempConflictMessage))))
  | _ => none

/-- The transaction of `PostService.create_post` commits a post with a new id. -/
def commit (s : State) (t : String) (postId : Uuid) : Option State :=
  match s.phase t with
  | .creating requestId =>
    if postId ∈ s.posts then none
    else some ({ s with posts := postId :: s.posts }.setPhase t
      (.finishing (apiResponse requestId postId) false false))
  | _ => none

def abort (s : State) (t : String) (e : ApiException) : Option State :=
  match s.phase t with
  | .creating _ => some (s.setPhase t (.failing e))
  | _ => none

/-- `_store_success_result`. -/
def store (c : Scope) (s : State) (t : String) : Option State :=
  match s.phase t with
  | .finishing out false released =>
    some ({ s with redis := s.redis.set c.resultKey (.body out) }.setPhase t
      (.finishing out true released))
  | _ => none

/-- `_release_if_held`, run beside the store after a success and alone after a failure. -/
def release (c : Scope) (s : State) (t : String) : Option State :=
  match s.phase t with
  | .finishing out stored false =>
    some ({ s with redis := s.redis.delIfEq c.lockKey (.token t) }.setPhase t
      (.finishing out stored true))
  | .failing e =>
    some ({ s with redis := s.redis.delIfEq c.lockKey (.token t) }.setPhase t
      (.replied (.raised e)))
  | _ => none

/-- `gather` has returned: the router answers 201. -/
def reply (s : State) (t : String) : Option State :=
  match s.phase t with
  | .finishing out true true => some (s.setPhase t (.replied (.created out)))
  | _ => none

def step (c : Scope) (s : State) : Label → Option State
  | .request t requestId rawKey => request c s t requestId rawKey
  | .get t => get c s t
  | .setNx t => setNx c s t
  | .commit t postId => commit s t postId
  | .abort t e => abort s t e
  | .store t => store c s t
  | .release t => release c s t
  | .reply t => reply s t

end PuppyTalk.PostIdempotency
