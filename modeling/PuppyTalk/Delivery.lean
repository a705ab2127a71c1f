import PuppyTalk.Process
import PuppyTalk.PublicIds
import PuppyTalk.KeyValue

namespace PuppyTalk

def NotificationKind.value : NotificationKind → String
  | .commentOnPost => "COMMENT_ON_POST"
  | .likePost => "LIKE_POST"
  | .likeComment => "LIKE_COMMENT"

/-- `NotificationKind(value)`, which raises on any other text. -/
def NotificationKind.ofValue (value : String) : Option NotificationKind :=
  [commentOnPost, likePost, likeComment].find? fun kind => kind.value == value

namespace Delivery

open Process

structure NotificationEvent where
  recipientUserId : Uuid
  notificationId : Uuid
  kind : NotificationKind
  actorId : Option Uuid
  postId : Option Uuid
  commentId : Option Uuid
  recipient_lt : recipientUserId < 2 ^ 128
  notification_lt : notificationId < 2 ^ 128

structure SnsPayload where
  notificationId : String
  kind : String
  actorId : Option String
  postId : Option String
  commentId : Option String
  recipientUserId : String
  message : String
  deriving DecidableEq, Repr

/-- `_SNS_SUMMARY`, which has a text for every kind. -/
def snsSummary : NotificationKind → String
  | .commentOnPost => "회원님의 게시글에 댓글이 달렸습니다."
  | .likePost => "회원님의 게시글에 좋아요가 눌렸습니다."
  | .likeComment => "회원님의 댓글에 좋아요가 눌렸습니다."

def buildSnsPayload (recipientUserId notificationId : Uuid) (kind : NotificationKind)
    (actorId postId commentId : Option Uuid) : SnsPayload where
  notificationId := uuidToBase62 notificationId
  kind := kind.value
  actorId := actorId.map uuidToBase62
  postId := postId.map uuidToBase62
  commentId := commentId.map uuidToBase62
  recipientUserId := uuidToBase62 recipientUserId
  message := snsSummary kind

structure NotificationRow where
  kind : String
  actorId : Option Uuid
  postId : Option Uuid
  commentId : Option Uuid
  deriving DecidableEq, Repr

structure Job where
  notificationId : String
  userId : String
  idempotencyKey : String
  deriving DecidableEq, Repr

def snsIdempotencyKey (notificationId : Uuid) : String := "sns:" ++ uuidToBase62 notificationId

def deliveredKeyPrefix : String := "notif:delivered:"

def deliveredKey (idempotencyKey : String) : String := deliveredKeyPrefix ++ idempotencyKey

def snsJob (event : NotificationEvent) : Job where
  notificationId := uuidToBase62 event.notificationId
  userId := uuidToBase62 event.recipientUserId
  idempotencyKey := snsIdempotencyKey event.notificationId

structure Settings where
  snsTopicArn : String
  workerIdempotencyTtlSeconds : Nat := 86400
  arqRetryBaseSeconds : Nat := 60

inductive Cmd where
  | loadNotification (notificationId userId : Uuid)
  | get (key : String)
  | publishSns (topicArn : String) (message : SnsPayload)
  | set (key value : String) (ex : Nat)
  | enqueueJob (job : Job)

/-- The answers: what the database has or that it raised, `none` for a Redis command that raised,
and whether a publish or an enqueue returned. -/
def Cmd.Ans : Cmd → Type
  | .loadNotification _ _ => Except Unit (Option NotificationRow)
  | .get _ => Option (Option String)
  | .publishSns _ _ => Bool
  | .set _ _ _ => Option Unit
  | .enqueueJob _ => Bool

structure Choice where
  reply : Reply
  row : Except Unit (Option NotificationRow)
  published : Bool
  enqueued : Bool

def perform : (c : Cmd) → Choice → KeyValue String → c.Ans × KeyValue String
  | .loadNotification _ _, ch, kv => (ch.row, kv)
  | .get key, ch, kv => ch.reply.command (kv.get key) id kv
  | .publishSns _ _, ch, kv => (ch.published, kv)
  | .set key value _, ch, kv => ch.reply.command () (fun kv => kv.set key value) kv
  | .enqueueJob _, ch, kv => (ch.enqueued, kv)

/-- The store of the delivered marks, which expire after their time to live. -/
def machine : Machine where
  Store := KeyValue String
  Cmd := Cmd
  Ans := Cmd.Ans
  Choice := Choice
  Tick := String
  perform := perform
  tick key kv := kv.del key

def cmd (c : Cmd) : Prog machine c.Ans := .cmd (M := machine) c

/-- The reply to a `GET` is a text that is not empty. -/
def truthy (a : Option (Option String)) : Bool := a.any fun v => v.any fun t => t != ""

/-- What `deliver_once` does once no mark was found; what the publish raises is passed on, and what
Redis raises is only logged. -/
def publishAndMark (σ : Settings) (redis : Bool) (idempotencyKey : String) (message : SnsPayload) :
    Prog machine (Except Unit Bool) := do
  let returned : Bool ← cmd (.publishSns σ.snsTopicArn message)
  if returned then
    if redis then do
      let _ ← cmd (.set (deliveredKey idempotencyKey) "1" σ.workerIdempotencyTtlSeconds)
      pure (.ok true)
    else pure (.ok true)
  else pure (.error ())

/-- `deliver_once`; a lookup that raises counts as one that finds nothing. -/
def deliverOnce (σ : Settings) (redis : Bool) (idempotencyKey : String) (message : SnsPayload) :
    Prog machine (Except Unit Bool) :=
  if redis then do
    let mark ← cmd (.get (deliveredKey idempotencyKey))
    if truthy mark then pure (.ok false)
    else publishAndMark σ redis idempotencyKey message
  else publishAndMark σ redis idempotencyKey message

/-- What ends a worker job early: `NotificationDeliverySkip`, or any other exception. -/
inductive Failure where
  | skip (reason : String)
  | raised

inductive Outcome where
  | delivered (notificationId : String)
  | skipped (reason : String)
  | retry (defer : ℚ)
  | nothing

/-- What `deliver_notification_sns_async` makes of the outcome of `deliver_once`. -/
def deliveryStatus (nid : Uuid) : Except Unit Bool → Except Failure Outcome
  | .error _ => .error .raised
  | .ok false => .ok (.skipped "idempotent")
  | .ok true => .ok (.delivered (Uuid.text nid))

/-- `deliver_notification_sns_async` from the loaded row on. -/
def deliverRow (σ : Settings) (redis : Bool) (job : Job) (nid uid : Uuid) (row : NotificationRow) :
    Prog machine (Except Failure Outcome) :=
  match NotificationKind.ofValue row.kind with
  | none => pure (.error .raised)
  | some kind => do
    let delivered ← deliverOnce σ redis job.idempotencyKey
      (buildSnsPayload uid nid kind row.actorId row.postId row.commentId)
    pure (deliveryStatus nid delivered)

/-- `deliver_notification_sns_async`; `client` is what `_get_redis` gives, `none` if it raises. -/
def deliverNotificationSnsAsync (σ : Settings) (client : Option Bool) (job : Job) :
    Prog machine (Except Failure Outcome) :=
  if σ.snsTopicArn = "" then pure (.error (.skip "sns topic not configured"))
  else
    match parsePublicIdValue (.str job.notificationId), parsePublicIdValue (.str job.userId),
      client with
    | .ok nid, .ok uid, some redis => do
      match ← cmd (.loadNotification nid uid) with
      | .error _ => pure (.error .raised)
      | .ok none => pure (.error (.skip "notification not found"))
      | .ok (some row) => deliverRow σ redis job nid uid row
    | _, _, _ => pure (.error .raised)

/-- `_retry_delay`; `jitter` is the random factor. -/
def retryDelay (σ : Settings) (jobTry : Nat) (jitter : ℚ) : ℚ :=
  σ.arqRetryBaseSeconds * 2 ^ (jobTry - 1) * jitter

/-- The handlers of `deliver_notification_sns`. -/
def jobOutcome (σ : Settings) (jobTry : Nat) (jitter : ℚ) : Except Failure Outcome → Outcome
  | .ok outcome => outcome
  | .error (.skip reason) => .skipped reason
  | .error .raised => .retry (retryDelay σ jobTry jitter)

def deliverNotificationSns (σ : Settings) (client : Option Bool) (job : Job) (jobTry : Nat)
    (jitter : ℚ) : Prog machine Outcome := do
  let r ← deliverNotificationSnsAsync σ client job
  pure (jobOutcome σ jobTry jitter r)

/-- `_publish_sns_task`; what it raises is only logged. -/
def publishSnsTask (σ : Settings) (redis : Bool) (event : NotificationEvent) :
    Prog machine Outcome := do
  let _ ← deliverOnce σ redis (snsIdempotencyKey event.notificationId)
    (buildSnsPayload event.recipientUserId event.notificationId event.kind event.actorId
      event.postId event.commentId)
  pure .nothing

/-- `_dispatch_sns_publish`; `queue` says whether there is a job queue. -/
def dispatchSnsPublish (σ : Settings) (queue redis : Bool) (event : NotificationEvent) :
    Prog machine Outcome :=
  if σ.snsTopicArn = "" then pure .nothing
  else if queue then do
    let enqueued : Bool ← cmd (.enqueueJob (snsJob event))
    if enqueued then pure .nothing
    else publishSnsTask σ redis event
  else publishSnsTask σ redis event

/-- A delivery attempt: the dispatch of a request with its inline task, the inline task alone, or a
run of the worker job. -/
inductive Attempt where
  | dispatch (queue redis : Bool) (event : NotificationEvent)
  | inline (redis : Bool) (event : NotificationEvent)
  | worker (client : Option Bool) (event : NotificationEvent) (jobTry : Nat) (jitter : ℚ)

namespace Attempt

def program (σ : Settings) : Attempt → Prog machine Outcome
  | dispatch queue redis event => dispatchSnsPublish σ queue redis event
  | inline redis event => publishSnsTask σ redis event
  | worker client event jobTry jitter => deliverNotificationSns σ client (snsJob event) jobTry jitter

def notificationId : Attempt → Uuid
  | dispatch _ _ event => event.notificationId
  | inline _ event => event.notificationId
  | worker _ event _ _ => event.notificationId

def redis : Attempt → Bool
  | dispatch _ redis _ => redis
  | inline redis _ => redis
  | worker client _ _ _ => client = some true

def isWorker : Attempt → Bool
  | worker _ _ _ _ => true
  | _ => false

end Attempt

def markKey (n : Uuid) : String := deliveredKey (snsIdempotencyKey n)

def Marked (n : Uuid) (kv : KeyValue String) : Prop := truthy (some (kv.get (markKey n))) = true

/-! ### What the events of a log say -/

def publishes (n : Uuid) : Cmd → Bool
  | .publishSns _ m => m.notificationId == uuidToBase62 n
  | _ => false

def succeeds (n : Uuid) : (c : Cmd) → c.Ans → Bool
  | .publishSns _ m, returned => returned && m.notificationId == uuidToBase62 n
  | _, _ => false

def looksUp (n : Uuid) : Cmd → Bool
  | .get key => key == markKey n
  | _ => false

def findsMark (n : Uuid) : (c : Cmd) → c.Ans → Bool
  | .get key, a => truthy a && key == markKey n
  | _, _ => false

def findsNoRow : (c : Cmd) → c.Ans → Bool
  | .loadNotification _ _, .ok none => true
  | _, _ => false

/-! ### The stages of an attempt -/

/-- How far an attempt has come: it has not looked up its mark yet, found no notification, found
the mark, found no mark, was refused the publish, has published, or has published and marked. -/
inductive Stage where
  | started
  | missing
  | found
  | looked
  | refused
  | sent
  | finished
  deriving DecidableEq

def Stage.follow (st : Stage) : (c : Cmd) → c.Ans → Stage
  | .loadNotification _ _, .ok none => .missing
  | .loadNotification _ _, _ => st
  | .get _, a => if truthy a then .found else .looked
  | .publishSns _ _, true => .sent
  | .publishSns _ _, false => .refused
  | .set _ _ _, _ => .finished
  | .enqueueJob _, _ => st

def Fits (a : Attempt) : Stage → Cmd → Prop
  | .started, .loadNotification _ _ => True
  | .started, .enqueueJob _ => True
  | .started, .get key => a.redis = true ∧ key = markKey a.notificationId
  | .started, .publishSns _ m =>
    a.redis = false ∧ m.notificationId = uuidToBase62 a.notificationId
  | .looked, .publishSns _ m => m.notificationId = uuidToBase62 a.notificationId
  | .sent, .set key value _ => a.redis = true ∧ key = markKey a.notificationId ∧ value = "1"
  | _, _ => False

theorem Fits.get (h : Fits a st (.get key)) :
    st = .started ∧ a.redis = true ∧ key = markKey a.notificationId := by
  cases st with
  | started => exact ⟨rfl, h⟩
  | _ => cases h

theorem Fits.publish (h : Fits a st (.publishSns topic m)) :
    m.notificationId = uuidToBase62 a.notificationId ∧
      (st = .looked ∨ st = .started ∧ a.redis = false) := by
  cases st with
  | started => exact ⟨h.2, .inr ⟨rfl, h.1⟩⟩
  | looked => exact ⟨h, .inl rfl⟩
  | _ => cases h

theorem Fits.set (h : Fits a st (.set key value ex)) :
    st = .sent ∧ a.redis = true ∧ key = markKey a.notificationId ∧ value = "1" := by
  cases st with
  | sent => exact ⟨rfl, h⟩
  | _ => cases h

theorem Fits.load (h : Fits a st (.loadNotification nid uid)) : st = .started := by
  cases st with
  | started => rfl
  | _ => cases h

theorem Fits.enqueue (h : Fits a st (.enqueueJob job)) : st = .started := by
  cases st with
  | started => rfl
  | _ => cases h

structure Ends (σ : Settings) (a : Attempt) (st : Stage) (b : Outcome) : Prop where
  not_looked : st ≠ .looked
  not_sent : a.redis = true → st ≠ .sent
  retries : a.isWorker = true →
    ((∃ defer, b = .retry defer) ↔ σ.snsTopicArn ≠ "" ∧ (st = .started ∨ st = .refused))

def protocol (σ : Settings) (a : Attempt) : Protocol machine Outcome where
  Stage := Stage
  start := .started
  follow := Stage.follow
  allows := Fits a
  ends := Ends σ a

def Concludes (σ : Settings) (a : Attempt) (f : Except Unit Bool → Outcome) : Prop :=
  a.isWorker = true → σ.snsTopicArn ≠ "" ∧ (∃ defer, f (.error ()) = .retry defer) ∧
    ∀ b defer, f (.ok b) ≠ .retry defer

theorem Ends.of_ok {f : Except Unit Bool → Outcome} (hf : Concludes σ a f)
    (hst : st = .found ∨ st = .finished ∨ st = .sent ∧ a.redis = false) (b : Bool) :
    Ends σ a st (f (.ok b)) := by
  constructor
  · rintro rfl
    simp at hst
  · rintro hr rfl
    simp [hr] at hst
  · intro hw
    constructor
    · rintro ⟨defer, he⟩
      exact absurd he ((hf hw).2.2 b defer)
    · rintro ⟨-, rfl | rfl⟩ <;> simp at hst

theorem Ends.of_error {f : Except Unit Bool → Outcome} (hf : Concludes σ a f) :
    Ends σ a .refused (f (.error ())) :=
  ⟨nofun, fun _ => nofun, fun hw => ⟨fun _ => ⟨(hf hw).1, .inr rfl⟩, fun _ => (hf hw).2.1⟩⟩

theorem follows_publishAndMark {f : Except Unit Bool → Outcome} (hf : Concludes σ a f)
    (hst : Fits a st (.publishSns σ.snsTopicArn m)) :
    (publishAndMark σ a.redis (snsIdempotencyKey a.notificationId) m >>= fun x =>
      .done (f x)).Follows (protocol σ a) st := by
  refine ⟨hst, fun (returned : Bool) => ?_⟩
  cases returned with
  | false => exact Ends.of_error hf
  | true =>
    cases hr : a.redis with
    | false => exact Ends.of_ok hf (.inr (.inr ⟨rfl, hr⟩)) true
    | true => exact ⟨⟨hr, rfl, rfl⟩, fun _ => Ends.of_ok hf (.inr (.inl rfl)) true⟩

theorem follows_deliverOnce {f : Except Unit Bool → Outcome} (hf : Concludes σ a f)
    (hm : m.notificationId = uuidToBase62 a.notificationId) :
    (deliverOnce σ a.redis (snsIdempotencyKey a.notificationId) m >>= fun x =>
      .done (f x)).Follows (protocol σ a) .started := by
  cases hr : a.redis with
  | false =>
    have hst : Fits a .started (.publishSns σ.snsTopicArn m) := ⟨hr, hm⟩
    have h := follows_publishAndMark hf hst
    rwa [hr] at h
  | true =>
    refine ⟨⟨hr, rfl⟩, fun (mark : Option (Option String)) => ?_⟩
    change Prog.Follows (protocol σ a) (if truthy mark then Stage.found else .looked)
      ((if truthy mark then pure (.ok false)
        else publishAndMark σ true (snsIdempotencyKey a.notificationId) m) >>= fun x => .done (f x))
    cases truthy mark with
    | true => exact Ends.of_ok hf (.inl rfl) false
    | false =>
      have hst : Fits a .looked (.publishSns σ.snsTopicArn m) := hm
      have h := follows_publishAndMark hf hst
      rw [hr] at h
      exact h

theorem parse_uuidToBase62 (hu : u < 2 ^ 128) : parsePublicIdValue (.str (uuidToBase62 u)) = .ok u := by
  refine (parse_of_strip (strip_uuidToBase62 u) (fun h => uuidToBase62_ne u ?_)
    (.inr ⟨uuidOfText_uuidToBase62 hu, base62ToUuid_uuidToBase62 hu⟩)).1
  rw [h]
  rfl

theorem follows_publishSnsTask (hw : a.isWorker = false) (hn : a.notificationId = event.notificationId) :
    (publishSnsTask σ a.redis event).Follows (protocol σ a) .started := by
  have h := follows_deliverOnce (σ := σ) (a := a) (f := fun _ => .nothing)
    (m := buildSnsPayload event.recipientUserId event.notificationId event.kind event.actorId
      event.postId event.commentId) (fun h => by simp [hw] at h) (by rw [hn]; rfl)
  rw [hn] at h
  exact h

theorem Ends.of_not_worker (hw : a.isWorker = false) (b : Outcome) : Ends σ a .started b :=
  ⟨nofun, fun _ => nofun, fun h => by simp [hw] at h⟩

theorem Ends.of_raised (ht : σ.snsTopicArn ≠ "") (defer : ℚ) : Ends σ a .started (.retry defer) :=
  ⟨nofun, fun _ => nofun, fun _ => ⟨fun _ => ⟨ht, .inl rfl⟩, fun _ => ⟨defer, rfl⟩⟩⟩

theorem follows_deliverRow (ht : σ.snsTopicArn ≠ "") (redis : Bool) (event : NotificationEvent)
    (jobTry : Nat) (jitter : ℚ) (row : NotificationRow) :
    (deliverRow σ redis (snsJob event) event.notificationId event.recipientUserId row >>= fun r =>
      .done (jobOutcome σ jobTry jitter r)).Follows
        (protocol σ (.worker (some redis) event jobTry jitter)) .started := by
  unfold deliverRow
  cases NotificationKind.ofValue row.kind with
  | none => exact Ends.of_raised ht _
  | some kind =>
    have hredis : (Attempt.worker (some redis) event jobTry jitter).redis = redis := by
      cases redis <;> rfl
    have h := follows_deliverOnce (σ := σ) (a := .worker (some redis) event jobTry jitter)
      (f := fun x => jobOutcome σ jobTry jitter (deliveryStatus event.notificationId x))
      (m := buildSnsPayload event.recipientUserId event.notificationId kind row.actorId row.postId
        row.commentId) (fun _ => ⟨ht, ⟨_, rfl⟩, fun b _ => by cases b <;> nofun⟩) rfl
    rw [hredis] at h
    simp only [Prog.bind_assoc]
    exact h

theorem follows_worker (σ : Settings) (client : Option Bool) (event : NotificationEvent)
    (jobTry : Nat) (jitter : ℚ) :
    (deliverNotificationSns σ client (snsJob event) jobTry jitter).Follows
      (protocol σ (.worker client event jobTry jitter)) .started := by
  unfold deliverNotificationSns deliverNotificationSnsAsync
  by_cases ht : σ.snsTopicArn = ""
  · rw [if_pos ht]
    exact ⟨nofun, fun _ => nofun, fun _ => ⟨nofun, fun h => absurd ht h.1⟩⟩
  have hnid := parse_uuidToBase62 event.notification_lt
  have huid := parse_uuidToBase62 event.recipient_lt
  simp only [if_neg ht, snsJob, hnid, huid]
  cases client with
  | none => exact Ends.of_raised ht _
  | some redis =>
    refine ⟨trivial, fun row => ?_⟩
    match row with
    | .error _ => exact Ends.of_raised ht _
    | .ok none => exact ⟨nofun, fun _ => nofun, fun _ => ⟨nofun, nofun⟩⟩
    | .ok (some row) => exact follows_deliverRow ht redis event jobTry jitter row

theorem program_follows (σ : Settings) (a : Attempt) :
    (a.program σ).Follows (protocol σ a) .started := by
  cases a with
  | inline redis event => exact follows_publishSnsTask rfl rfl
  | dispatch queue redis event =>
    have htask : (publishSnsTask σ redis event).Follows
        (protocol σ (.dispatch queue redis event)) .started := follows_publishSnsTask rfl rfl
    simp only [Attempt.program, dispatchSnsPublish]
    split
    · exact Ends.of_not_worker (a := .dispatch queue redis event) rfl _
    split
    · refine ⟨trivial, fun (enqueued : Bool) => ?_⟩
      cases enqueued with
      | false => exact htask
      | true => exact Ends.of_not_worker (a := .dispatch queue redis event) rfl _
    · exact htask
  | worker client event jobTry jitter => exact follows_worker σ client event jobTry jitter

/-! ### The histories of attempts -/

structure Told (n : Uuid) (l : List (Act machine)) (st : Stage) : Prop where
  succeeded : (l.any fun x => succeeds n x.cmd x.ans) = (st == .sent || st == .finished)
  found : (l.any fun x => findsMark n x.cmd x.ans) = (st == .found)
  missing : (l.any fun x => findsNoRow x.cmd x.ans) = (st == .missing)
  published : (l.any fun x => publishes n x.cmd) = (st == .refused || st == .sent || st == .finished)
  lookup : ∀ x ∈ l, looksUp n x.cmd = true →
    st ≠ .started ∧ st ≠ .missing ∧ (findsMark n x.cmd x.ans = true ↔ st = .found)

theorem told_nil (n : Uuid) : Told n [] .started := ⟨rfl, rfl, rfl, rfl, nofun⟩

theorem Told.append (hl : Told n l st) (x : Act machine) {s f m p : Bool}
    (es : succeeds n x.cmd x.ans = s) (ef : findsMark n x.cmd x.ans = f)
    (em : findsNoRow x.cmd x.ans = m) (ep : publishes n x.cmd = p)
    (hs : (st == .sent || st == .finished || s) = (st' == .sent || st' == .finished))
    (hf : (st == .found || f) = (st' == .found)) (hm : (st == .missing || m) = (st' == .missing))
    (hp : (st == .refused || st == .sent || st == .finished || p) =
      (st' == .refused || st' == .sent || st' == .finished))
    (hold : st ≠ .started → st ≠ .missing →
      st' ≠ .started ∧ st' ≠ .missing ∧ (st = .found ↔ st' = .found))
    (hnew : looksUp n x.cmd = true → st' ≠ .started ∧ st' ≠ .missing ∧ (f = true ↔ st' = .found)) :
    Told n (l ++ [x]) st' := by
  constructor
  · simp only [List.any_append, List.any_cons, List.any_nil, hl.succeeded, Bool.or_false, es, hs]
  · simp only [List.any_append, List.any_cons, List.any_nil, hl.found, Bool.or_false, ef, hf]
  · simp only [List.any_append, List.any_cons, List.any_nil, hl.missing, Bool.or_false, em, hm]
  · simp only [List.any_append, List.any_cons, List.any_nil, hl.published, Bool.or_false, ep, hp]
  · intro y hy hk
    rcases List.mem_append.mp hy with hy | hy
    · obtain ⟨h₁, h₂, h₃⟩ := hl.lookup y hy hk
      obtain ⟨h₄, h₅, h₆⟩ := hold h₁ h₂
      exact ⟨h₄, h₅, h₃.trans h₆⟩
    · obtain rfl := List.mem_singleton.mp hy
      rw [ef]
      exact hnew hk

theorem Told.publish (hl : Told n l st) (hm : m.notificationId = uuidToBase62 n)
    (hst : st = .looked ∨ st = .started) (returned : Bool) :
    Told n (l ++ [⟨.publishSns topic m, returned⟩]) (if returned then .sent else .refused) := by
  have hs : succeeds n (.publishSns topic m) returned = returned := by
    simp only [succeeds, hm, beq_self_eq_true, Bool.and_true]
  have hp : publishes n (.publishSns topic m) = true := by
    simp only [publishes, hm, beq_self_eq_true]
  refine hl.append (f := false) (m := false) _ hs rfl rfl hp ?_ ?_ ?_ ?_ ?_ nofun <;>
    rcases hst with rfl | rfl <;> cases returned <;> decide

theorem Told.look (hl : Told n l .started) (a : Option (Option String)) :
    Told n (l ++ [⟨.get (markKey n), a⟩]) (if truthy a then .found else .looked) := by
  have hf : findsMark n (.get (markKey n)) a = truthy a := by
    simp only [findsMark, beq_self_eq_true, Bool.and_true]
  refine hl.append (s := false) (m := false) (p := false) _ rfl hf rfl rfl ?_ ?_ ?_ ?_ (fun h => absurd rfl h) fun _ => ?_ <;>
    cases truthy a <;> decide

theorem Told.step (hl : Told a.notificationId l st) (hfits : Fits a st c) (ans : c.Ans) :
    Told a.notificationId (l ++ [⟨c, ans⟩]) (st.follow c ans) := by
  cases c with
  | loadNotification nid uid =>
    obtain rfl := hfits.load
    match ans with
    | .error _ => exact hl.append _ rfl rfl rfl rfl rfl rfl rfl rfl (fun h => absurd rfl h) nofun
    | .ok none => exact hl.append _ rfl rfl rfl rfl rfl rfl rfl rfl (fun h => absurd rfl h) nofun
    | .ok (some row) =>
      exact hl.append _ rfl rfl rfl rfl rfl rfl rfl rfl (fun h => absurd rfl h) nofun
  | enqueueJob job =>
    obtain rfl := hfits.enqueue
    exact hl.append _ rfl rfl rfl rfl rfl rfl rfl rfl (fun h => absurd rfl h) nofun
  | get key =>
    obtain ⟨rfl, -, rfl⟩ := hfits.get
    exact hl.look ans
  | publishSns topic m =>
    obtain ⟨hm, hst⟩ := hfits.publish
    match ans with
    | true => exact hl.publish hm (hst.imp_right And.left) true
    | false => exact hl.publish hm (hst.imp_right And.left) false
  | set key value ex =>
    obtain ⟨rfl, -⟩ := hfits.set
    exact hl.append _ rfl rfl rfl rfl rfl rfl rfl rfl
      (fun _ _ => ⟨nofun, nofun, nofun, nofun⟩) nofun

/-! ### Runs -/

section Runs
variable {ι : Type} [DecidableEq ι] {σ : Settings} {attempts : ι → Attempt}

def init (σ : Settings) (attempts : ι → Attempt) : State ι machine Outcome where
  world := { store := fun _ => none, log := [] }
  procs i := (attempts i).program σ

def stageOf (i : ι) (w : World ι machine) : Stage :=
  (own i w.log).foldl (fun st a => st.follow a.cmd a.ans) .started

structure Place (σ : Settings) (a : Attempt) (i : ι) (s : State ι machine Outcome) : Prop where
  told : Told a.notificationId (own i s.world.log) (stageOf i s.world)
  follows : (s.procs i).Follows (protocol σ a) (stageOf i s.world)

theorem Place.step {s t : State ι machine Outcome} (h : Place σ a i s)
    (hs : step s x = some t) : Place σ a i t := by
  have hat : (protocol σ a).At (Told a.notificationId) i s := ⟨h.told, h.follows⟩
  obtain ⟨htold, hf⟩ := hat.step (fun _ _ _ ans hl hc => hl.step hc ans) hs
  exact ⟨htold, hf⟩

theorem Place.fits {s : State ι machine Outcome} (h : Place σ a i s) (hp : s.procs i = .call c k) :
    Fits a (stageOf i s.world) c := by
  have hf := h.follows
  rw [hp] at hf
  exact hf.1

theorem Place.ends {s : State ι machine Outcome} (h : Place σ a i s) (hp : s.procs i = .done b) :
    Ends σ a (stageOf i s.world) b := by
  have hf := h.follows
  rw [hp] at hf
  exact hf

theorem place_init (σ : Settings) (attempts : ι → Attempt) (i : ι) :
    Place σ (attempts i) i (init σ attempts) :=
  ⟨told_nil _, program_follows σ (attempts i)⟩

theorem stageOf_self (i : ι) (w : World ι machine) (c : Cmd) (ch : Choice) :
    stageOf i (w.after i c ch) = (stageOf i w).follow c (w.answer c ch) := by
  unfold stageOf
  simp only [World.after, own_append, if_true, List.foldl_append]
  rfl

theorem stageOf_other (hj : j ≠ i) (w : World ι machine) (c : Cmd) (ch : Choice) :
    stageOf i (w.after j c ch) = stageOf i w := by
  unfold stageOf
  simp only [World.after, own_append, if_neg hj, List.append_nil]

def Succeeded (n : Uuid) (log : List (Event ι machine)) : Prop :=
  ∃ e ∈ log, succeeds n e.cmd e.ans = true

theorem Place.succeeded {s : State ι machine Outcome} (h : Place σ a i s)
    (hst : stageOf i s.world = .sent) : Succeeded a.notificationId s.world.log := by
  have hany := h.told.succeeded
  rw [hst] at hany
  obtain ⟨x, hx, hs⟩ := List.any_eq_true.mp (hany.trans rfl)
  exact ⟨_, exists_of_mem_own hx, hs⟩

theorem markKey_injective (h : markKey n = markKey m) : n = m := by
  have h' : uuidToBase62 n = uuidToBase62 m := by
    simpa [markKey, deliveredKey, snsIdempotencyKey, String.ext_iff] using h
  rw [← base62Value_uuidToBase62 n, h', base62Value_uuidToBase62]

theorem perform_get (key : String) (ch : Choice) (kv : KeyValue String) :
    (perform (.get key) ch kv).2 = kv := by
  cases hr : ch.reply.took <;> simp [perform, Reply.command, hr]

theorem perform_store (h : Fits a st c) (ch : Choice) (kv : KeyValue String) :
    (perform c ch kv).2 = kv ∨
      st = .sent ∧ (perform c ch kv).2 = kv.set (markKey a.notificationId) "1" := by
  cases c with
  | set key value ex =>
    obtain ⟨rfl, -, rfl, rfl⟩ := h.set
    cases hr : ch.reply.took with
    | false => exact .inl (by simp [perform, Reply.command, hr])
    | true => exact .inr ⟨rfl, by simp [perform, Reply.command, hr]⟩
  | get key => exact .inl (perform_get key ch kv)
  | _ => exact .inl rfl

theorem marked_set (kv : KeyValue String) (n m : Uuid) :
    Marked n (kv.set (markKey m) "1") ↔ n = m ∨ Marked n kv := by
  unfold Marked
  by_cases hn : n = m
  · subst hn
    simp [truthy]
  · rw [KeyValue.get_set_of_ne _ _ fun h => hn (markKey_injective h)]
    simp [hn]

theorem Marked.perform {kv : KeyValue String} (hm : Marked n kv) (h : Fits a st c) (ch : Choice) :
    Marked n (perform c ch kv).2 := by
  rcases perform_store h ch kv with he | ⟨-, he⟩
  · rwa [he]
  · rw [he, marked_set]
    exact .inr hm

theorem marked_of_perform {kv : KeyValue String} (h : Fits a st c) (ch : Choice)
    (hm : Marked n (Delivery.perform c ch kv).2) :
    Marked n kv ∨ n = a.notificationId ∧ st = .sent := by
  rcases perform_store h ch kv with he | ⟨hst, he⟩
  · rw [he] at hm
    exact .inl hm
  · rw [he, marked_set] at hm
    exact hm.symm.imp_right fun hn => ⟨hn, hst⟩

theorem marked_del_of_ne (kv : KeyValue String) (hk : key ≠ markKey n) :
    Marked n (kv.del key) ↔ Marked n kv := by
  unfold Marked
  rw [KeyValue.get_del_of_ne _ (Ne.symm hk)]

theorem marked_of_del {kv : KeyValue String} (hm : Marked n (kv.del key)) : Marked n kv := by
  by_cases hk : key = markKey n
  · subst hk
    simp [Marked, truthy] at hm
  · exact (marked_del_of_ne kv hk).mp hm

structure Inv (σ : Settings) (attempts : ι → Attempt) (s : State ι machine Outcome) : Prop where
  place : ∀ i, Place σ (attempts i) i s
  marked : ∀ n, Marked n s.world.store → Succeeded n s.world.log

theorem inv_init (σ : Settings) (attempts : ι → Attempt) : Inv σ attempts (init σ attempts) :=
  ⟨place_init σ attempts, fun _ h => nomatch h⟩

omit [DecidableEq ι] in
theorem Succeeded.append (h : Succeeded n log) (l : List (Event ι machine)) :
    Succeeded n (log ++ l) := by
  obtain ⟨e, he, hs⟩ := h
  exact ⟨e, List.mem_append_left l he, hs⟩

theorem Inv.step {s t : State ι machine Outcome} (h : Inv σ attempts s) (hs : step s x = some t) :
    Inv σ attempts t := by
  refine ⟨fun i => (h.place i).step hs, fun n hm => ?_⟩
  cases x with
  | tick key =>
    cases hs
    exact h.marked n (marked_of_del hm)
  | run i ch =>
    obtain ⟨c, k, hp, rfl⟩ := step_run hs
    refine Succeeded.append ?_ _
    rcases marked_of_perform ((h.place i).fits hp) ch hm with hm | ⟨rfl, hst⟩
    · exact h.marked n hm
    · exact (h.place i).succeeded hst

theorem inv_run {as : List (Label ι machine)} (h : exec step (init σ attempts) as = some s) :
    Inv σ attempts s :=
  exec_invariant' (I := Inv σ attempts) (fun hi hs => hi.step hs) (inv_init σ attempts) h

omit [DecidableEq ι] in
theorem truthy_answer (w : World ι machine) (n : Uuid) {ch : Choice} (hok : ch.reply = .ok) :
    truthy (w.answer (.get (markKey n)) ch) = true ↔ Marked n w.store := by
  have ha : w.answer (.get (markKey n)) ch = some (KeyValue.get w.store (markKey n)) := by
    unfold World.answer
    change (perform (.get (markKey n)) ch w.store).1 = _
    simp only [perform, Reply.command, hok, Reply.failed_ok]
    rfl
  rw [ha]
  rfl

def Stage.Early (st : Stage) : Prop := st = .started ∨ st = .missing ∨ st = .found

structure Spared (a : Attempt) (i : ι) (w : World ι machine) : Prop where
  marked : Marked a.notificationId w.store
  early : (stageOf i w).Early

theorem Spared.follow {w : World ι machine} (h : Spared a i w) (hr : a.redis = true)
    (hfits : Fits a (stageOf i w) c) {ch : Choice} (hok : ch.reply = .ok) :
    ((stageOf i w).follow c (w.answer c ch)).Early := by
  have hearly := h.early
  cases c with
  | loadNotification nid uid =>
    match w.answer (.loadNotification nid uid) ch with
    | .ok none => exact .inr (.inl rfl)
    | .ok (some row) => exact hearly
    | .error _ => exact hearly
  | enqueueJob job => exact hearly
  | get key =>
    obtain ⟨-, -, rfl⟩ := hfits.get
    exact .inr (.inr (if_pos ((truthy_answer w _ hok).mpr h.marked)))
  | publishSns topic m =>
    rcases hfits.publish.2 with hst | ⟨-, hno⟩
    · rw [hst] at hearly
      rcases hearly with he | he | he <;> cases he
    · rw [hr] at hno
      cases hno
  | set key value ex =>
    rw [hfits.set.1] at hearly
    rcases hearly with he | he | he <;> cases he

theorem Spared.step {s t : State ι machine Outcome} (h : Spared (attempts i) i s.world)
    (hinv : Inv σ attempts s) (hr : (attempts i).redis = true)
    (hexpire : x ≠ .tick (M := machine) (markKey (attempts i).notificationId))
    (hok : ∀ ch, x = .run (M := machine) i ch → ch.reply = .ok) (hs : step s x = some t) :
    Spared (attempts i) i t.world := by
  cases x with
  | tick key =>
    cases hs
    refine ⟨(marked_del_of_ne _ ?_).mpr h.marked, h.early⟩
    rintro rfl
    exact hexpire rfl
  | run j ch =>
    obtain ⟨c, k, hp, rfl⟩ := step_run hs
    have hfits := (hinv.place j).fits hp
    refine ⟨h.marked.perform hfits ch, ?_⟩
    by_cases hj : j = i
    · subst hj
      exact Eq.mpr (congrArg Stage.Early (stageOf_self j _ _ _)) (h.follow hr hfits (hok ch rfl))
    · exact Eq.mpr (congrArg Stage.Early (stageOf_other hj _ _ _)) h.early

theorem no_publish_of_marked {u s : State ι machine Outcome} {as : List (Label ι machine)}
    (hinv : Inv σ attempts u) (hown : own i u.world.log = [])
    (hm : Marked (attempts i).notificationId u.world.store) (hr : (attempts i).redis = true)
    (hexpire : .tick (M := machine) (markKey (attempts i).notificationId) ∉ as)
    (hok : ∀ ch, .run (M := machine) i ch ∈ as → ch.reply = .ok) (h : exec step u as = some s) :
    ∀ e ∈ s.world.log, e.who = i → publishes (attempts i).notificationId e.cmd = false := by
  have h0 : Spared (attempts i) i u.world := by
    refine ⟨hm, .inl ?_⟩
    unfold stageOf
    rw [hown]
    rfl
  have hP : ∀ a ∈ as, a ≠ .tick (M := machine) (markKey (attempts i).notificationId) ∧
      ∀ ch, a = .run (M := machine) i ch → ch.reply = .ok := by
    intro a ha
    refine ⟨fun he => hexpire (he ▸ ha), fun ch he => hok ch (he ▸ ha)⟩
  obtain ⟨hspared, hinv'⟩ := exec_invariant
    (I := fun s => Spared (attempts i) i s.world ∧ Inv σ attempts s)
    (P := fun _ a => a ≠ .tick (M := machine) (markKey (attempts i).notificationId) ∧
      ∀ ch, a = .run (M := machine) i ch → ch.reply = .ok)
    (fun hi ha hs => ⟨hi.1.step hi.2 hr ha.1 ha.2 hs, hi.2.step hs⟩) ⟨h0, hinv⟩
    (Along.of_forall hP step u) h
  rintro e he rfl
  have hpub := (hinv'.place e.who).told.published
  have hnone : (own e.who s.world.log).any
      (fun x => publishes (attempts e.who).notificationId x.cmd) = false := by
    rw [hpub]
    rcases hspared.early with hst | hst | hst <;> rw [hst] <;> rfl
  have hmem := List.any_eq_false.mp hnone _ (mem_own he)
  simpa using hmem

theorem any_own (f : (c : Cmd) → c.Ans → Bool) (i : ι) (log : List (Event ι machine)) :
    ((own i log).any fun x => f x.cmd x.ans) = true ↔
      ∃ e ∈ log, e.who = i ∧ f e.cmd e.ans = true := by
  rw [List.any_eq_true]
  constructor
  · rintro ⟨x, hx, hf⟩
    exact ⟨_, exists_of_mem_own hx, rfl, hf⟩
  · rintro ⟨e, he, rfl, hf⟩
    exact ⟨_, mem_own he, hf⟩

theorem retry_iff {s : State ι machine Outcome} (h : Place σ a i s) (hw : a.isWorker = true)
    (hb : s.procs i = .done b) :
    (∃ defer, b = .retry defer) ↔
      ¬ (∃ e ∈ s.world.log, e.who = i ∧ succeeds a.notificationId e.cmd e.ans = true) ∧
      ¬ (∃ e ∈ s.world.log, e.who = i ∧ findsMark a.notificationId e.cmd e.ans = true) ∧
      ¬ (∃ e ∈ s.world.log, e.who = i ∧ findsNoRow e.cmd e.ans = true) ∧
      σ.snsTopicArn ≠ "" := by
  have hends := h.ends hb
  rw [hends.retries hw, ← any_own (succeeds _), ← any_own (findsMark _), ← any_own findsNoRow,
    h.told.succeeded, h.told.found, h.told.missing]
  have hlooked := hends.not_looked
  revert hlooked
  cases stageOf i s.world <;> simp

/-! ### One attempt after another -/

/-- The attempts to deliver a notification take turns, Redis works for them, and the mark does not
expire; all other attempts are free. -/
def InTurn (attempts : ι → Attempt) (n : Uuid) (s : State ι machine Outcome) :
    Label ι machine → Prop
  | .run i ch => (attempts i).notificationId = n → Choice.reply ch = .ok ∧
    ∀ j, j ≠ i → (attempts j).notificationId = n →
      own j s.world.log = [] ∨ ∃ b, s.procs j = .done b
  | .tick key => key ≠ markKey n

/-- Every lookup of the mark finds it exactly if a publish has returned before. -/
def Prompt (n : Uuid) (log : List (Event ι machine)) : Prop :=
  ∀ l₁ e l₂, log = l₁ ++ e :: l₂ → looksUp n e.cmd = true →
    (findsMark n e.cmd e.ans = true ↔ Succeeded n l₁)

omit [DecidableEq ι] in
theorem Prompt.append {log : List (Event ι machine)} (h : Prompt n log)
    (he : looksUp n e.cmd = true → (findsMark n e.cmd e.ans = true ↔ Succeeded n log)) :
    Prompt n (log ++ [e]) := by
  intro l₁ x l₂ heq hx
  rcases l₂.eq_nil_or_concat with rfl | ⟨l₃, y, rfl⟩
  · obtain ⟨rfl, hxe⟩ := List.append_inj' heq rfl
    cases hxe
    exact he hx
  · rw [List.concat_eq_append, ← List.cons_append, ← List.append_assoc] at heq
    obtain ⟨rfl, -⟩ := List.append_inj' heq rfl
    exact h l₁ x l₃ rfl hx

omit [DecidableEq ι] in
theorem succeeded_append {log : List (Event ι machine)} :
    Succeeded n (log ++ [e]) ↔ Succeeded n log ∨ succeeds n e.cmd e.ans = true := by
  simp [Succeeded, or_and_right, exists_or]

structure Turns (attempts : ι → Attempt) (n : Uuid) (w : World ι machine) : Prop where
  once : w.log.countP (fun e => succeeds n e.cmd e.ans) ≤ 1
  marked : Succeeded n w.log →
    Marked n w.store ∨ ∃ j, (attempts j).notificationId = n ∧ stageOf j w = .sent
  fresh : ∀ j, (attempts j).notificationId = n → stageOf j w = .looked → ¬ Succeeded n w.log
  prompt : Prompt n w.log

theorem Turns.silent {w : World ι machine} (h : Turns attempts n w) (i : ι) (c : Cmd) (ch : Choice)
    (hs : succeeds n c (w.answer c ch) = false) (hl : looksUp n c = false)
    (hm : Marked n w.store → Marked n (w.after i c ch).store)
    (hstage : ∀ j, (attempts j).notificationId = n →
      (stageOf j (w.after i c ch) = .looked → stageOf j w = .looked) ∧
      (stageOf j w = .sent → stageOf j (w.after i c ch) = .sent)) :
    Turns attempts n (w.after i c ch) := by
  have hsucc : Succeeded n (w.after i c ch).log ↔ Succeeded n w.log := by
    refine succeeded_append.trans (or_iff_left ?_)
    rw [hs]
    nofun
  constructor
  · simp only [World.after, List.countP_append, List.countP_singleton, hs]
    exact h.once
  · intro hn
    rcases h.marked (hsucc.mp hn) with hmark | ⟨j, hj, hst⟩
    · exact .inl (hm hmark)
    · exact .inr ⟨j, hj, (hstage j hj).2 hst⟩
  · intro j hj hst
    rw [hsucc]
    exact h.fresh j hj ((hstage j hj).1 hst)
  · refine h.prompt.append fun hlook => ?_
    rw [hl] at hlook
    cases hlook

theorem Fits.other (h : Fits a st c) (hn : a.notificationId ≠ n) (ans : c.Ans) :
    succeeds n c ans = false ∧ looksUp n c = false := by
  cases c with
  | get key =>
    obtain ⟨-, -, rfl⟩ := h.get
    refine ⟨rfl, ?_⟩
    simp only [looksUp, beq_eq_false_iff_ne]
    exact fun he => hn (markKey_injective he)
  | publishSns topic m =>
    have hne : (m.notificationId == uuidToBase62 n) = false := by
      rw [h.publish.1, beq_eq_false_iff_ne]
      intro he
      exact hn (by rw [← base62Value_uuidToBase62 a.notificationId, he, base62Value_uuidToBase62])
    refine ⟨?_, rfl⟩
    simp only [succeeds, hne]
    exact Bool.and_false ans
  | _ => exact ⟨rfl, rfl⟩

section Turn
variable {w : World ι machine} {i : ι} {n : Uuid} {ch : Choice}

def Alone (attempts : ι → Attempt) (n : Uuid) (i : ι) (w : World ι machine) : Prop :=
  ∀ j, j ≠ i → (attempts j).notificationId = n → stageOf j w ≠ .looked ∧ stageOf j w ≠ .sent

theorem Turns.succeeded_iff (h : Turns attempts n w)
    (hmark : Marked n w.store → Succeeded n w.log) (halone : Alone attempts n i w)
    (hst : stageOf i w ≠ .sent) : Succeeded n w.log ↔ Marked n w.store := by
  refine ⟨fun hs => (h.marked hs).resolve_right ?_, hmark⟩
  rintro ⟨j, hj, hsent⟩
  by_cases hji : j = i
  · exact hst (hji ▸ hsent)
  · exact (halone j hji hj).2 hsent

theorem Turns.quiet (h : Turns attempts n w) (halone : Alone attempts n i w)
    (hst : stageOf i w = .started) (c : Cmd) (hs : succeeds n c (w.answer c ch) = false)
    (hl : looksUp n c = false) (hstore : (w.after i c ch).store = w.store)
    (hnext : (stageOf i w).follow c (w.answer c ch) ≠ .looked) :
    Turns attempts n (w.after i c ch) := by
  refine h.silent i c ch hs hl (fun hm => hstore.symm ▸ hm) fun j hj => ?_
  by_cases hji : j = i
  · subst hji
    rw [stageOf_self, hst] at *
    exact ⟨fun he => absurd he hnext, nofun⟩
  · rw [stageOf_other (Ne.symm hji)]
    exact ⟨id, id⟩

theorem Turns.look (h : Turns attempts n w) (hmark : Marked n w.store → Succeeded n w.log)
    (halone : Alone attempts n i w) (hst : stageOf i w = .started) (hok : ch.reply = .ok) :
    Turns attempts n (w.after i (.get (markKey n)) ch) := by
  have hiff := h.succeeded_iff hmark halone (by rw [hst]; rintro ⟨⟩)
  have hseen := truthy_answer w n hok
  have hsucc : Succeeded n (w.after i (.get (markKey n)) ch).log ↔ Succeeded n w.log :=
    succeeded_append.trans (or_iff_left (by rintro ⟨⟩))
  have hstore : (w.after i (.get (markKey n)) ch).store = w.store :=
    perform_get (markKey n) ch w.store
  constructor
  · simp only [World.after, List.countP_append, List.countP_singleton]
    exact h.once
  · intro hs
    exact .inl (hstore.symm ▸ hiff.mp (hsucc.mp hs))
  · intro j hj hlook hs
    have hm := hiff.mp (hsucc.mp hs)
    by_cases hji : j = i
    · subst hji
      rw [stageOf_self] at hlook
      cases hlook.symm.trans (if_pos (hseen.mpr hm))
    · rw [stageOf_other (Ne.symm hji)] at hlook
      exact (halone j hji hj).1 hlook
  · refine h.prompt.append fun _ => ?_
    rw [hiff, ← hseen]
    simp [findsMark]

theorem Turns.publish (h : Turns attempts n w) (halone : Alone attempts n i w)
    (hn : (attempts i).notificationId = n) (hst : stageOf i w = .looked) (topic : String)
    (m : SnsPayload) : Turns attempts n (w.after i (.publishSns topic m) ch) := by
  have hfresh := h.fresh i hn hst
  have hzero : w.log.countP (fun e => succeeds n e.cmd e.ans) = 0 := by
    rw [List.countP_eq_zero]
    exact fun e he hs => hfresh ⟨e, he, hs⟩
  have hothers (j : ι) (hj : (attempts j).notificationId = n) :
      stageOf j (w.after i (.publishSns topic m) ch) ≠ .looked := by
    by_cases hji : j = i
    · subst hji
      rw [stageOf_self]
      cases w.answer (.publishSns topic m) ch with
      | true => rintro ⟨⟩
      | false => rintro ⟨⟩
    · rw [stageOf_other (Ne.symm hji)]
      exact (halone j hji hj).1
  constructor
  · simp only [World.after, List.countP_append, List.countP_singleton, hzero]
    split <;> omega
  · intro hs
    have hnew := (succeeded_append.mp hs).resolve_left hfresh
    refine .inr ⟨i, hn, ?_⟩
    rw [stageOf_self]
    cases ha : w.answer (.publishSns topic m) ch with
    | true => rfl
    | false =>
      simp only [ha, succeeds] at hnew
      cases hnew
  · exact fun j hj hlook => absurd hlook (hothers j hj)
  · refine h.prompt.append ?_
    rintro ⟨⟩


theorem Turns.mark (h : Turns attempts n w) (halone : Alone attempts n i w)
    (hst : stageOf i w = .sent) (hok : ch.reply = .ok) (ex : Nat) :
    Turns attempts n (w.after i (.set (markKey n) "1" ex) ch) := by
  have hsucc : Succeeded n (w.after i (.set (markKey n) "1" ex) ch).log ↔ Succeeded n w.log :=
    succeeded_append.trans (or_iff_left (by rintro ⟨⟩))
  have hmarked : Marked n (w.after i (.set (markKey n) "1" ex) ch).store := by
    change Marked n (perform (.set (markKey n) "1" ex) ch w.store).2
    simp only [perform, Reply.command, hok, Reply.took_ok]
    exact (marked_set _ n n).mpr (.inl rfl)
  constructor
  · simp only [World.after, List.countP_append, List.countP_singleton]
    exact h.once
  · exact fun _ => .inl hmarked
  · intro j hj hlook
    by_cases hji : j = i
    · subst hji
      rw [stageOf_self] at hlook
      cases hlook
    · rw [stageOf_other (Ne.symm hji)] at hlook
      exact absurd hlook (halone j hji hj).1
  · refine h.prompt.append ?_
    rintro ⟨⟩

theorem Turns.after (h : Turns attempts n w) (hmark : Marked n w.store → Succeeded n w.log)
    (halone : Alone attempts n i w) (hn : (attempts i).notificationId = n)
    (hr : (attempts i).redis = true) (hok : ch.reply = .ok)
    (hfits : Fits (attempts i) (stageOf i w) c) : Turns attempts n (w.after i c ch) := by
  cases c with
  | loadNotification nid uid =>
    refine h.quiet halone hfits.load _ rfl rfl rfl ?_
    rw [hfits.load]
    match w.answer (.loadNotification nid uid) ch with
    | .error _ => nofun
    | .ok none => nofun
    | .ok (some _) => nofun
  | enqueueJob job =>
    refine h.quiet halone hfits.enqueue _ rfl rfl rfl ?_
    rw [hfits.enqueue]
    nofun
  | get key =>
    obtain ⟨hst, -, rfl⟩ := hfits.get
    rw [hn]
    exact h.look hmark halone hst hok
  | publishSns topic m =>
    rcases hfits.publish.2 with hst | ⟨-, hno⟩
    · exact h.publish halone hn hst topic m
    · rw [hr] at hno
      cases hno
  | set key value ex =>
    obtain ⟨hst, -, rfl, rfl⟩ := hfits.set
    rw [hn]
    exact h.mark halone hst hok ex

theorem Turns.elsewhere (h : Turns attempts n w) (hn : (attempts i).notificationId ≠ n)
    (hfits : Fits (attempts i) (stageOf i w) c) (ch : Choice) :
    Turns attempts n (w.after i c ch) := by
  obtain ⟨hsucc, hlook⟩ := hfits.other hn (w.answer c ch)
  refine h.silent i c ch hsucc hlook (fun hm => hm.perform hfits ch) fun j hj => ?_
  have hij : i ≠ j := fun he => hn (he ▸ hj)
  rw [stageOf_other hij]
  exact ⟨id, id⟩

theorem Turns.step {s t : State ι machine Outcome} (h : Turns attempts n s.world)
    (hinv : Inv σ attempts s) (hr : ∀ j, (attempts j).notificationId = n → (attempts j).redis = true)
    (hturn : InTurn attempts n s x) (hs : step s x = some t) : Turns attempts n t.world := by
  cases x with
  | tick key =>
    cases hs
    refine ⟨h.once, fun hn => ?_, h.fresh, h.prompt⟩
    exact (h.marked hn).imp_left (marked_del_of_ne _ hturn).mpr
  | run i ch =>
    obtain ⟨c, k, hp, rfl⟩ := step_run hs
    have hfits := (hinv.place i).fits hp
    by_cases hn : (attempts i).notificationId = n
    · obtain ⟨hok, hothers⟩ := hturn hn
      refine h.after (hinv.marked n) (fun j hji hj => ?_) hn (hr i hn) hok hfits
      rcases hothers j hji hj with hnew | ⟨b, hb⟩
      · have hst : stageOf j s.world = .started := by
          unfold stageOf
          rw [hnew]
          rfl
        rw [hst]
        exact ⟨nofun, nofun⟩
      · have hends := (hinv.place j).ends hb
        exact ⟨hends.not_looked, hends.not_sent (hr j hj)⟩
    · exact h.elsewhere hn hfits ch

end Turn

/-- An attempt that has looked up the mark in its turn has published exactly if none before it had
succeeded. -/
theorem published_iff {s : State ι machine Outcome} (h : Turns attempts n s.world)
    (hplace : Place σ (attempts i) i s) (hn : (attempts i).notificationId = n)
    (hr : (attempts i).redis = true) (hb : s.procs i = .done b)
    (hlog : s.world.log = l₁ ++ e :: l₂) (hi : e.who = i) (hl : looksUp n e.cmd = true) :
    (∃ e' ∈ s.world.log, e'.who = i ∧ publishes n e'.cmd = true) ↔ ¬ Succeeded n l₁ := by
  have he : e ∈ s.world.log := by simp [hlog]
  have hends := hplace.ends hb
  have htold := hplace.told
  rw [hn] at htold
  rw [← h.prompt l₁ e l₂ hlog hl, ← any_own fun c _ => publishes n c, htold.published]
  subst hi
  obtain ⟨hstarted, hmissing, hfound⟩ := htold.lookup _ (mem_own he) hl
  rw [hfound]
  have hlooked := hends.not_looked
  have hsent := hends.not_sent hr
  revert hstarted hmissing hlooked hsent
  cases stageOf e.who s.world <;> simp

end Runs

def likeEvent : NotificationEvent where
  recipientUserId := 1
  notificationId := 0
  kind := .likePost
  actorId := some 2
  postId := some 3
  commentId := none
  recipient_lt := by decide
  notification_lt := by decide

def publishing (published : Bool) : Choice where
  reply := .ok
  row := .ok none
  published := published
  enqueued := true

def secondTry : List (Label Bool machine) :=
  [.run false (publishing false), .run false (publishing false), .run true (publishing true),
    .run true (publishing true), .run true (publishing true)]

theorem secondTry_inTurn : Along step (InTurn (fun _ => .inline true likeEvent) 0)
    (init { snsTopicArn := "arn:aws:sns:topic" } fun _ : Bool => .inline true likeEvent)
    secondTry := by
  refine ⟨fun _ => ⟨rfl, ?_⟩, ?_⟩
  · rintro (_ | _) hj -
    · exact absurd rfl hj
    · exact .inl rfl
  rintro _ ⟨⟩
  refine ⟨fun _ => ⟨rfl, ?_⟩, ?_⟩
  · rintro (_ | _) hj -
    · exact absurd rfl hj
    · exact .inl rfl
  rintro _ ⟨⟩
  refine ⟨fun _ => ⟨rfl, ?_⟩, ?_⟩
  · rintro (_ | _) hj -
    · exact .inr ⟨_, rfl⟩
    · exact absurd rfl hj
  rintro _ ⟨⟩
  refine ⟨fun _ => ⟨rfl, ?_⟩, ?_⟩
  · rintro (_ | _) hj -
    · exact .inr ⟨_, rfl⟩
    · exact absurd rfl hj
  rintro _ ⟨⟩
  refine ⟨fun _ => ⟨rfl, ?_⟩, fun _ _ => trivial⟩
  rintro (_ | _) hj -
  · exact .inr ⟨_, rfl⟩
  · exact absurd rfl hj

end Delivery
end PuppyTalk
