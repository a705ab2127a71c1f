import PuppyTalk.PostIdempotency
import PuppyTalk.Process

namespace PuppyTalk.Locks

open Process
open PostIdempotency (RedisValue ApiResponse normalizeIdempotencyKey idempotencyFingerprint
  resultRedisKey lockRedisKey validateJson apiResponse mergeRequestIdIntoCachedBody
  idempConflictMessage)

/-- The commands of the lock holders. `createPost` and `runJob` are the work done under a lock, and
`pick` says which coroutine of a `gather` goes first. -/
inductive Cmd where
  | get (key : String)
  | setNx (key token : String)
  | release (key token : String)
  | set (key : String) (body : ApiResponse)
  | createPost
  | runJob (name : String)
  | pick

def Cmd.Ans : Cmd → Type
  | .get _ => Option (Option RedisValue)
  | .setNx _ _ => Option Bool
  | .release _ _ => Option Unit
  | .set _ _ => Option Unit
  | .createPost => Except ApiException Uuid
  | .runJob _ => Except Unit Int
  | .pick => Bool

structure Choice where
  reply : Reply
  created : Except ApiException Uuid
  jobResult : Except Unit Int
  first : Bool

def command (r : Reply) (a : α) (f : KeyValue RedisValue → KeyValue RedisValue)
    (kv : KeyValue RedisValue) : Option α × KeyValue RedisValue :=
  (if r.failed then none else some a, if r.took then f kv else kv)

def perform : (c : Cmd) → Choice → KeyValue RedisValue → c.Ans × KeyValue RedisValue
  | .get key, ch, kv => command ch.reply (kv.get key) id kv
  | .setNx key token, ch, kv =>
    command ch.reply (kv.setNx key (.token token)).1 (fun kv => (kv.setNx key (.token token)).2) kv
  | .release key token, ch, kv => command ch.reply () (fun kv => kv.delIfEq key (.token token)) kv
  | .set key body, ch, kv => command ch.reply () (fun kv => kv.set key (.body body)) kv
  | .createPost, ch, kv => (ch.created, kv)
  | .runJob _, ch, kv => (ch.jobResult, kv)
  | .pick, ch, kv => (ch.first, kv)

def machine : Machine where
  Store := KeyValue RedisValue
  Cmd := Cmd
  Ans := Cmd.Ans
  Choice := Choice
  Tick := String
  perform := perform
  tick key kv := kv.del key

def cmd (c : Cmd) : Prog machine c.Ans := .cmd (M := machine) c

/-- `try_acquire_lock`; what Redis raises is passed on. -/
def tryAcquireLock (key token : String) : Prog machine (Option (Option String)) := do
  match ← cmd (.setNx key token) with
  | none => pure none
  | some acquired => pure (some (if acquired then some token else none))

/-- `release_lock`; what Redis raises is only logged. -/
def releaseLock (key token : String) : Prog machine Unit := do
  let _ ← cmd (.release key token)
  pure ()

structure IdempotencyHandle where
  fingerprint : String
  lockToken : Option String

/-- A `create_post` request; `redis` says whether the app has a client, and `token` is what
`new_lock_token` returns. -/
structure Request where
  sha256Hex : String → String
  redis : Bool
  userId : String
  rawKey : Option String
  requestId : String
  token : String

def postCreateIdempotencyBefore (r : Request) :
    Prog machine (Except ApiException (Option ApiResponse × Option IdempotencyHandle)) :=
  match normalizeIdempotencyKey r.rawKey with
  | .error e => pure (.error e)
  | .ok none => pure (.ok (none, none))
  | .ok (some norm) =>
    let fp := idempotencyFingerprint r.sha256Hex r.userId norm
    if !r.redis then pure (.ok (none, some ⟨fp, none⟩))
    else do
      match ← cmd (.get (resultRedisKey fp)) with
      | none => pure (.ok (none, some ⟨fp, some r.token⟩))
      | some payload =>
        match payload.bind validateJson with
        | some body =>
          pure (.ok (some (mergeRequestIdIntoCachedBody body r.requestId), some ⟨fp, none⟩))
        | none =>
          match ← tryAcquireLock (lockRedisKey fp) r.token with
          | none => pure (.ok (none, some ⟨fp, some r.token⟩))
          | some none => pure (.error (.concurrentUpdate idempConflictMessage))
          | some (some _) => pure (.ok (none, some ⟨fp, some r.token⟩))

/-- `_store_success_result`; what Redis raises is only logged. -/
def storeSuccessResult (fp : String) (out : ApiResponse) : Prog machine Unit := do
  let _ ← cmd (.set (resultRedisKey fp) out)
  pure ()

def releaseIfHeld (handle : IdempotencyHandle) : Prog machine Unit :=
  match handle.lockToken with
  | none => pure ()
  | some token => releaseLock (lockRedisKey handle.fingerprint) token

def postCreateIdempotencyAfterSuccess (redis : Bool) (handle : Option IdempotencyHandle)
    (out : ApiResponse) : Prog machine Unit :=
  match handle with
  | none => pure ()
  | some handle =>
    if !redis then pure ()
    else do
      match ← cmd .pick with
      | true =>
        storeSuccessResult handle.fingerprint out
        releaseIfHeld handle
      | false =>
        releaseIfHeld handle
        storeSuccessResult handle.fingerprint out

def postCreateIdempotencyAfterFailure (redis : Bool) (handle : Option IdempotencyHandle) :
    Prog machine Unit :=
  match handle with
  | none => pure ()
  | some handle => if !redis then pure () else releaseIfHeld handle

/-- `create_post` of the router. -/
def createPost (r : Request) : Prog machine (Except ApiException ApiResponse) := do
  match ← postCreateIdempotencyBefore r with
  | .error e => pure (.error e)
  | .ok (some cached, _) => pure (.ok cached)
  | .ok (none, idemp) =>
    match ← cmd .createPost with
    | .ok postId =>
      postCreateIdempotencyAfterSuccess r.redis idemp (apiResponse r.requestId postId)
      pure (.ok (apiResponse r.requestId postId))
    | .error e =>
      postCreateIdempotencyAfterFailure r.redis idemp
      pure (.error e)

/-- `PeriodicJob`, with the token that its lock gets. -/
structure PeriodicJob where
  name : String
  lockKey : Option String
  token : String

def jobLockKey (name : String) : String := "lock:job:" ++ name

/-- `job.lock_key or job_lock_key(job.name)`. -/
def PeriodicJob.key (job : PeriodicJob) : String :=
  match job.lockKey with
  | some key => if key = "" then jobLockKey job.name else key
  | none => jobLockKey job.name

/-- `try_acquire_job_lock`: without Redis or when it raises, the job goes on without a lock. -/
def tryAcquireJobLock (redis : Bool) (key token : String) : Prog machine (Bool × Option String) :=
  if !redis then pure (true, none)
  else do
    match ← tryAcquireLock key token with
    | none => pure (true, none)
    | some token => pure (token.isSome, token)

/-- `run_jobs_once`; what a job raises is only logged. -/
def runJobsOnce (redis : Bool) : List PeriodicJob → Prog machine Unit
  | [] => pure ()
  | job :: jobs => do
    let (acquired, token) ← tryAcquireJobLock redis job.key job.token
    if acquired then
      let _ ← cmd (.runJob job.name)
      match token with
      | some token => if redis then releaseLock job.key token
      | none => pure ()
    runJobsOnce redis jobs

def releaseFailed : (c : Cmd) → c.Ans → Prop
  | .release _ _, a => a = none
  | _, _ => False

def commandFailed : (c : Cmd) → c.Ans → Prop
  | .get _, a => a = none
  | .setNx _ _, a => a = none
  | .release _ _, a => a = none
  | .set _ _, a => a = none
  | _, _ => False

section Effects
variable {kv : KeyValue RedisValue} {ch : Choice}

theorem command_store (kv : KeyValue RedisValue) (f : KeyValue RedisValue → KeyValue RedisValue)
    (r : Reply) (a : α) :
    (command r a f kv).2 = f kv ∨ (command r a f kv).2 = kv := by
  cases h : r.took with
  | true => exact .inl (by simp [command, h])
  | false => exact .inr (by simp [command, h])

/-- What a command can do to a key: an acquisition writes an absent one, a release removes its own
token, and a store overwrites. -/
theorem key_after (c : Cmd) (ch : Choice) (kv : KeyValue RedisValue) (key : String) :
    (perform c ch kv).2 key = kv key ∨
      (∃ t, c = .setNx key t ∧ kv key = none ∧ (perform c ch kv).2 key = some (.token t)) ∨
      (∃ t, c = .release key t ∧ kv key = some (.token t) ∧ (perform c ch kv).2 key = none) ∨
      ∃ body, c = .set key body ∧ (perform c ch kv).2 key = some (.body body) := by
  cases c with
  | get k => exact .inl (by simp [perform, command])
  | createPost => exact .inl rfl
  | runJob name => exact .inl rfl
  | pick => exact .inl rfl
  | set k body =>
    rcases command_store kv (fun kv => kv.set k (.body body)) ch.reply () with he | he
    · rw [show (perform (.set k body) ch kv).2 = _ from he]
      by_cases hk : key = k
      · subst hk
        exact .inr (.inr (.inr ⟨body, rfl, KeyValue.get_set_self kv key _⟩))
      · exact .inl (KeyValue.get_set_of_ne kv _ hk)
    · exact .inl (congrFun he key)
  | release k token =>
    rcases command_store kv (fun kv => kv.delIfEq k (.token token)) ch.reply () with he | he
    · rw [show (perform (.release k token) ch kv).2 = _ from he]
      by_cases hg : kv.get k = some (.token token)
      · rw [KeyValue.delIfEq_eq hg]
        by_cases hk : key = k
        · subst hk
          exact .inr (.inr (.inl ⟨token, rfl, hg, KeyValue.get_del_self kv key⟩))
        · exact .inl (KeyValue.get_del_of_ne kv hk)
      · rw [KeyValue.delIfEq_ne hg]
        exact .inl rfl
    · exact .inl (congrFun he key)
  | setNx k token =>
    rcases command_store kv (fun kv => (kv.setNx k (.token token)).2) ch.reply
      (kv.setNx k (.token token)).1 with he | he
    · rw [show (perform (.setNx k token) ch kv).2 = _ from he]
      cases hg : kv.get k with
      | some v =>
        rw [KeyValue.setNx_held _ hg]
        exact .inl rfl
      | none =>
        rw [KeyValue.setNx_free _ hg]
        by_cases hk : key = k
        · subst hk
          exact .inr (.inl ⟨token, rfl, hg, KeyValue.get_set_self kv key _⟩)
        · exact .inl (KeyValue.get_set_of_ne kv _ hk)
    · exact .inl (congrFun he key)

theorem token_after {w : World ι machine} {c : Cmd}
    (h : (w.after i c ch).store key = some (.token t)) :
    w.store key = some (.token t) ∨ (c = .setNx key t ∧ w.store key = none) := by
  rcases key_after c ch w.store key with he | ⟨t', hc, hnone, he⟩ | ⟨t', -, -, he⟩ | ⟨body, -, he⟩
  · exact .inl (he.symm.trans h)
  · cases he.symm.trans h
    exact .inr ⟨hc, hnone⟩
  · cases he.symm.trans h
  · cases he.symm.trans h

theorem token_stays {w : World ι machine} {c : Cmd} (i : ι) (ch : Choice)
    (h : w.store key = some (.token t)) (hr : c ≠ .release key t) (hs : ∀ body, c ≠ .set key body) :
    (w.after i c ch).store key = some (.token t) := by
  rcases key_after c ch w.store key with he | ⟨t', -, hnone, -⟩ | ⟨t', hc, hsome, -⟩ | ⟨body, hc, -⟩
  · exact he.trans h
  · cases hnone.symm.trans h
  · cases hsome.symm.trans h
    exact absurd hc hr
  · exact absurd hc (hs body)

theorem took_of_not_failed {r : Reply} (h : r.failed = false) : r.took = true := by
  cases r with
  | ok => rfl
  | raised => cases h
  | raisedAfter => cases h

theorem release_token (h : (perform (.release key t) ch kv).1 ≠ none) :
    (perform (.release key t) ch kv).2 key ≠ some (.token t) := by
  have hf : ch.reply.failed = false := by
    cases hf : ch.reply.failed with
    | false => rfl
    | true =>
      refine absurd ?_ h
      simp only [perform, command, hf, if_true]
      rfl
  have hs : (perform (.release key t) ch kv).2 = kv.delIfEq key (.token t) := by
    simp [perform, command, took_of_not_failed hf]
  rw [hs]
  unfold KeyValue.delIfEq
  split
  · exact fun he => nomatch (KeyValue.get_del_self kv key).symm.trans he
  · assumption

theorem setNx_refused (h : (perform (.setNx key t) ch kv).1 = some false) : kv key ≠ none := by
  intro hk
  cases hf : ch.reply.failed with
  | true => simp [perform, command, hf] at h
  | false =>
    simp only [perform, command, hf, KeyValue.setNx_free _ hk] at h
    cases h

theorem setNx_granted (h : (perform (.setNx key t) ch kv).1 = some true) :
    kv key = none ∧ (perform (.setNx key t) ch kv).2 key = some (.token t) := by
  cases hf : ch.reply.failed with
  | true =>
    simp only [perform, command, hf, if_true] at h
    cases h
  | false =>
    cases hk : kv.get key with
    | some v =>
      simp only [perform, command, hf, KeyValue.setNx_held _ hk] at h
      cases h
    | none =>
      refine ⟨hk, ?_⟩
      simp only [perform, command, took_of_not_failed hf, if_true, KeyValue.setNx_free _ hk]
      exact KeyValue.get_set_self kv key _

end Effects

section Tokens
variable {ι : Type} {bad : (c : Cmd) → c.Ans → Prop} {i : ι} {T : List String}
  {w w' : World ι machine}

def Clean (bad : (c : Cmd) → c.Ans → Prop) (i : ι) (w : World ι machine) : Prop :=
  ∀ e ∈ w.log, e.who = i → ¬ bad e.cmd e.ans

def Holds (bad : (c : Cmd) → c.Ans → Prop) (i : ι) (T : List String)
    (held : Option (String × String)) (w : World ι machine) : Prop :=
  Clean bad i w → ∀ key, ∀ t ∈ T, w.store key = some (.token t) → held = some (key, t)

/-- What `i` relies on: nobody else writes its tokens. -/
def logic (i : ι) (T : List String) : Logic ι machine where
  inv _ := True
  rely j w w' := j = i → w.log ⊆ w'.log ∧
    ∀ key, ∀ t ∈ T, w'.store key = some (.token t) → w.store key = some (.token t)
  refl _ w _ := ⟨List.Subset.refl w.log, fun _ _ _ h => h⟩
  trans _ _ _ _ h h' hj := ⟨List.Subset.trans (h hj).1 (h' hj).1,
    fun key t ht hk => (h hj).2 key t ht ((h' hj).2 key t ht hk)⟩
  tick w key _ := by
    refine ⟨trivial, fun j _ => ⟨List.Subset.refl w.log, fun key' t _ hk => ?_⟩⟩
    by_cases hkey : key' = key
    · subst hkey
      cases (KeyValue.get_del_self w.store key').symm.trans hk
    · exact (KeyValue.get_del_of_ne w.store hkey).symm.trans hk

theorem Clean.of_subset (h : Clean bad i w') (hl : w.log ⊆ w'.log) : Clean bad i w :=
  fun e he => h e (hl he)

theorem Holds.of_rely (h : Holds bad i T held w) (hr : (logic i T).rely i w w') :
    Holds bad i T held w' := by
  obtain ⟨hl, hk⟩ := hr rfl
  exact fun hc key t ht hs => h (hc.of_subset hl) key t ht (hk key t ht hs)

theorem Holds.weaken (h : Holds bad i T none w) : Holds bad i T held w := by
  intro hc key t ht hs
  cases h hc key t ht hs

theorem safe_cmd {c : Cmd} {f : c.Ans → Prog machine β} {post : β → World ι machine → Prop}
    (h : ∀ w' ch, (logic i T).rely i w w' → (logic i T).Safe i post (f (w'.answer c ch)) (w'.after i c ch)) :
    (logic i T).Safe i post (cmd c >>= f) w :=
  fun w' ch hr _ => ⟨⟨trivial, fun _ hj he => absurd he hj⟩, h w' ch hr⟩

theorem safe_done {post : β → World ι machine → Prop} (h : ∀ w', (logic i T).rely i w w' → post b w') :
    (logic i T).Safe i post (.done b) w :=
  fun w' hr _ => h w' hr

theorem Holds.after (h : Holds bad i T held w) {c : Cmd} (hc : ∀ key token, c ≠ .setNx key token)
    (ch : Choice) : Holds bad i T held (w.after i c ch) := by
  intro hclean key t ht hs
  refine h (hclean.of_subset (List.subset_append_left _ _)) key t ht ?_
  exact (token_after hs).resolve_right fun hset => hc key t hset.1

theorem Holds.acquire (h : Holds bad i T none w) (key token : String) (ch : Choice) :
    Holds bad i T (some (key, token)) (w.after i (.setNx key token) ch) := by
  intro hclean key' t ht hs
  rcases token_after hs with hold | ⟨hset, -⟩
  · cases h (hclean.of_subset (List.subset_append_left _ _)) key' t ht hold
  · cases hset
    rfl

theorem Holds.refused (h : Holds bad i T none w) {ch : Choice}
    (hans : w.answer (.setNx key token) ch = some false) :
    Holds bad i T none (w.after i (.setNx key token) ch) := by
  intro hclean key' t ht hs
  rcases token_after hs with hold | ⟨hset, hnone⟩
  · exact h (hclean.of_subset (List.subset_append_left _ _)) key' t ht hold
  · cases hset
    exact absurd hnone (setNx_refused hans)

theorem Holds.of_bad {c : Cmd} {ch : Choice} (h : bad c (w.answer c ch)) :
    Holds bad i T held (w.after i c ch) := by
  intro hclean
  exact absurd h (hclean _ (List.mem_append_right _ (List.mem_singleton.mpr rfl)) rfl)

theorem Holds.release (h : Holds bad i T (some (key, token)) w) (ch : Choice)
    (hbad : bad (.release key token) none) :
    Holds bad i T none (w.after i (.release key token) ch) := by
  by_cases hans : w.answer (.release key token) ch = none
  · exact Holds.of_bad (hans ▸ hbad)
  · intro hclean key' t ht hs
    rcases token_after hs with hold | ⟨hset, -⟩
    · cases h (hclean.of_subset (List.subset_append_left _ _)) key' t ht hold
      exact absurd hs (release_token hans)
    · cases hset

theorem safe_plain {c : Cmd} {f : c.Ans → Prog machine β} {post : β → World ι machine → Prop}
    (hc : ∀ key token, c ≠ .setNx key token) (h : Holds bad i T held w)
    (hf : ∀ w' a, Holds bad i T held w' → (logic i T).Safe i post (f a) w') :
    (logic i T).Safe i post (cmd c >>= f) w :=
  safe_cmd fun _ ch hr => hf _ _ ((h.of_rely hr).after hc ch)

theorem safe_releaseLock (hbad : bad (.release key token) none)
    (h : Holds bad i T (some (key, token)) w) :
    (logic i T).Safe i (fun _ w => Holds bad i T none w) (releaseLock key token) w :=
  safe_cmd fun _ ch hr => safe_done fun _ hr' => ((h.of_rely hr).release ch hbad).of_rely hr'

theorem safe_tryAcquireLock {f : Option (Option String) → Prog machine β}
    {post : β → World ι machine → Prop} (h : Holds bad i T none w)
    (hraised : ∀ w', (bad (.setNx key token) none → Holds bad i T none w') →
      Holds bad i T (some (key, token)) w' → (logic i T).Safe i post (f none) w')
    (hrefused : ∀ w', Holds bad i T none w' → (logic i T).Safe i post (f (some none)) w')
    (hheld : ∀ w', Holds bad i T (some (key, token)) w' →
      (logic i T).Safe i post (f (some (some token))) w') :
    (logic i T).Safe i post (tryAcquireLock key token >>= f) w := by
  refine Logic.Safe.bind (safe_cmd fun w' ch hr => ?_)
  have hw := h.of_rely hr
  have hacq := hw.acquire key token ch
  cases hans : w'.answer (.setNx key token) ch with
  | none =>
    refine safe_done fun w'' hr' => hraised w'' (fun hb => ?_) (hacq.of_rely hr')
    exact (Holds.of_bad (hans ▸ hb)).of_rely hr'
  | some acquired =>
    cases acquired with
    | false => exact safe_done fun w'' hr' => hrefused w'' ((hw.refused hans).of_rely hr')
    | true => exact safe_done fun w'' hr' => hheld w'' (hacq.of_rely hr')

section CreatePost
variable {r : Request}

def IdempotencyHandle.held (handle : Option IdempotencyHandle) : Option (String × String) :=
  handle.bind fun h => h.lockToken.map fun token => (lockRedisKey h.fingerprint, token)

def HandleOk (i : ι) (T : List String) (redis : Bool) (handle : Option IdempotencyHandle)
    (w : World ι machine) : Prop :=
  Holds releaseFailed i T (IdempotencyHandle.held handle) w ∧
    (redis = false → IdempotencyHandle.held handle = none)

theorem safe_before (h : Holds releaseFailed i T none w) :
    (logic i T).Safe i (fun out w => match out with
      | .ok (none, handle) => HandleOk i T r.redis handle w
      | _ => Holds releaseFailed i T none w) (postCreateIdempotencyBefore r) w := by
  unfold postCreateIdempotencyBefore
  split
  · exact safe_done fun _ hr => h.of_rely hr
  · exact safe_done fun _ hr => ⟨h.of_rely hr, fun _ => rfl⟩
  · split
    · exact safe_done fun _ hr => ⟨h.of_rely hr, fun _ => rfl⟩
    · rename_i hredis
      have hno {o : Option (String × String)} : r.redis = false → o = none :=
        fun hf => absurd hf (by simpa using hredis)
      refine safe_plain (fun _ _ => nofun) h fun w₁ a h₁ => ?_
      cases a with
      | none => exact safe_done fun _ hr => ⟨(h₁.of_rely hr).weaken, hno⟩
      | some payload =>
        cases hv : payload.bind validateJson with
        | some body =>
          simp only [hv]
          exact safe_done fun _ hr => h₁.of_rely hr
        | none =>
          simp only [hv]
          refine safe_tryAcquireLock h₁ (fun w₂ _ h₂ => ?_) (fun w₂ h₂ => ?_) fun w₂ h₂ => ?_
          · exact safe_done fun _ hr => ⟨h₂.of_rely hr, hno⟩
          · exact safe_done fun _ hr => h₂.of_rely hr
          · exact safe_done fun _ hr => ⟨h₂.of_rely hr, hno⟩

theorem safe_releaseIfHeld {handle : IdempotencyHandle}
    (h : Holds releaseFailed i T (IdempotencyHandle.held (some handle)) w) :
    (logic i T).Safe i (fun _ w => Holds releaseFailed i T none w) (releaseIfHeld handle) w := by
  obtain ⟨fp, token⟩ := handle
  cases token with
  | none => exact safe_done fun _ hr => h.of_rely hr
  | some token => exact safe_releaseLock rfl h

theorem safe_storeSuccessResult {held : Option (String × String)}
    (h : Holds releaseFailed i T held w) (fp : String) (out : ApiResponse) :
    (logic i T).Safe i (fun _ w => Holds releaseFailed i T held w) (storeSuccessResult fp out) w :=
  safe_plain (fun _ _ => nofun) h fun _ _ h' => safe_done fun _ hr => h'.of_rely hr

theorem safe_afterFailure {handle : Option IdempotencyHandle} (h : HandleOk i T redis handle w) :
    (logic i T).Safe i (fun _ w => Holds releaseFailed i T none w)
      (postCreateIdempotencyAfterFailure redis handle) w := by
  obtain ⟨hholds, hnone⟩ := h
  cases handle with
  | none => exact safe_done fun _ hr => hholds.of_rely hr
  | some handle =>
    cases redis with
    | false => exact safe_done fun _ hr => (hnone rfl ▸ hholds).of_rely hr
    | true => exact safe_releaseIfHeld hholds

theorem safe_afterSuccess {handle : Option IdempotencyHandle} (h : HandleOk i T redis handle w)
    (out : ApiResponse) : (logic i T).Safe i (fun _ w => Holds releaseFailed i T none w)
      (postCreateIdempotencyAfterSuccess redis handle out) w := by
  obtain ⟨hholds, hnone⟩ := h
  cases handle with
  | none => exact safe_done fun _ hr => hholds.of_rely hr
  | some handle =>
    cases redis with
    | false => exact safe_done fun _ hr => (hnone rfl ▸ hholds).of_rely hr
    | true =>
      refine safe_plain (c := .pick) (fun _ _ => nofun) hholds fun w₁ first h₁ => ?_
      cases first with
      | true =>
        refine Logic.Safe.bind ((safe_storeSuccessResult h₁ _ out).mono fun _ w₂ _ h₂ => ?_)
        exact safe_releaseIfHeld h₂
      | false =>
        refine Logic.Safe.bind ((safe_releaseIfHeld h₁).mono fun _ w₂ _ h₂ => ?_)
        exact safe_storeSuccessResult h₂ _ out

theorem safe_createPost (h : Holds releaseFailed i T none w) :
    (logic i T).Safe i (fun _ w => Holds releaseFailed i T none w) (createPost r) w := by
  refine Logic.Safe.bind ((safe_before h).mono fun out w₁ _ h₁ => ?_)
  match out with
  | .error e => exact safe_done fun _ hr => Holds.of_rely h₁ hr
  | .ok (some cached, handle) => exact safe_done fun _ hr => Holds.of_rely h₁ hr
  | .ok (none, handle) =>
    refine safe_cmd fun w₂ ch hr => ?_
    have h₂ : HandleOk i T r.redis handle (w₂.after i .createPost ch) :=
      ⟨(h₁.1.of_rely hr).after (c := .createPost) (fun _ _ => nofun) ch, h₁.2⟩
    cases w₂.answer .createPost ch with
    | ok postId =>
      refine Logic.Safe.bind ((safe_afterSuccess h₂ _).mono fun _ w₃ _ h₃ => ?_)
      exact safe_done fun _ hr => h₃.of_rely hr
    | error e =>
      refine Logic.Safe.bind ((safe_afterFailure h₂).mono fun _ w₃ _ h₃ => ?_)
      exact safe_done fun _ hr => h₃.of_rely hr

end CreatePost

theorem safe_tryAcquireJobLock (h : Holds commandFailed i T none w) :
    (logic i T).Safe i (fun out w => match out with
      | (true, some token') => redis = true ∧ token' = token ∧
          Holds commandFailed i T (some (key, token)) w
      | _ => Holds commandFailed i T none w) (tryAcquireJobLock redis key token) w := by
  cases redis with
  | false => exact safe_done fun _ hr => h.of_rely hr
  | true =>
    refine safe_tryAcquireLock h (fun w₁ h₁ _ => ?_) (fun w₁ h₁ => ?_) fun w₁ h₁ => ?_
    · exact safe_done fun _ hr => (h₁ rfl).of_rely hr
    · exact safe_done fun _ hr => h₁.of_rely hr
    · exact safe_done fun _ hr => ⟨rfl, rfl, h₁.of_rely hr⟩

theorem safe_runJobsOnce (redis : Bool) (jobs : List PeriodicJob) (h : Holds commandFailed i T none w) :
    (logic i T).Safe i (fun _ w => Holds commandFailed i T none w) (runJobsOnce redis jobs) w := by
  induction jobs generalizing w with
  | nil => exact safe_done fun _ hr => h.of_rely hr
  | cons job jobs ih =>
    refine Logic.Safe.bind ((safe_tryAcquireJobLock h).mono fun out w₁ _ h₁ => ?_)
    match out with
    | (false, token) => exact ih h₁
    | (true, none) => exact safe_plain (c := .runJob _) (fun _ _ => nofun) h₁ fun w₂ _ h₂ => ih h₂
    | (true, some token) =>
      obtain ⟨rfl, rfl, h₁⟩ := h₁
      refine safe_plain (c := .runJob _) (fun _ _ => nofun) h₁ fun w₂ _ h₂ => ?_
      exact Logic.Safe.bind ((safe_releaseLock rfl h₂).mono fun _ w₃ _ h₃ => ih h₃)

end Tokens

section Exclusion
variable {ι : Type} {w : World ι machine}

def granted (key : String) (holders : List String) : (c : Cmd) → c.Ans → List String
  | .setNx k t, some true => if k = key then t :: holders else holders
  | .release k t, _ => if k = key then holders.filter (· ≠ t) else holders
  | _, _ => holders

def holders (key : String) (log : List (Event ι machine)) : List String :=
  log.foldl (fun hs e => granted key hs e.cmd e.ans) []

theorem holders_after (key : String) (w : World ι machine) (i : ι) (c : Cmd) (ch : Choice) :
    holders key (w.after i c ch).log = granted key (holders key w.log) c (w.answer c ch) := by
  simp only [holders, World.after, List.foldl_append, List.foldl_cons, List.foldl_nil]

def Exclusive (key : String) (w : World ι machine) : Prop :=
  (holders key w.log).length ≤ 1 ∧ ∀ t ∈ holders key w.log, w.store key = some (.token t)

theorem Exclusive.of_sublist (h : Exclusive key w) (i : ι) {c : Cmd} (ch : Choice)
    (hc : ∀ body, c ≠ .set key body)
    (hsub : (granted key (holders key w.log) c (w.answer c ch)).Sublist (holders key w.log))
    (hr : ∀ t ∈ granted key (holders key w.log) c (w.answer c ch), c ≠ .release key t) :
    Exclusive key (w.after i c ch) := by
  unfold Exclusive
  rw [holders_after]
  refine ⟨le_trans hsub.length_le h.1, fun t ht => ?_⟩
  exact token_stays i ch (h.2 t (hsub.subset ht)) (hr t ht) hc

theorem Exclusive.after (h : Exclusive key w) (i : ι) {c : Cmd} (ch : Choice)
    (hc : ∀ body, c ≠ .set key body) : Exclusive key (w.after i c ch) := by
  cases c with
  | get k => exact h.of_sublist i ch hc (List.Sublist.refl _) fun _ _ => nofun
  | set k body => exact h.of_sublist i ch hc (List.Sublist.refl _) fun _ _ => nofun
  | createPost => exact h.of_sublist i ch hc (List.Sublist.refl _) fun _ _ => nofun
  | runJob name => exact h.of_sublist i ch hc (List.Sublist.refl _) fun _ _ => nofun
  | pick => exact h.of_sublist i ch hc (List.Sublist.refl _) fun _ _ => nofun
  | release k t =>
    by_cases hk : k = key
    · subst hk
      have hg : granted k (holders k w.log) (.release k t) (w.answer (.release k t) ch) =
          (holders k w.log).filter (· ≠ t) := if_pos rfl
      refine h.of_sublist i ch hc (hg ▸ List.filter_sublist) fun t' ht' he => ?_
      rw [hg] at ht'
      cases he
      simp at ht'
    · have hg : granted key (holders key w.log) (.release k t) (w.answer (.release k t) ch) =
          holders key w.log := if_neg hk
      refine h.of_sublist i ch hc (by rw [hg]) fun t' _ he => ?_
      cases he
      exact hk rfl
  | setNx k t =>
    by_cases hgrant : k = key ∧ w.answer (.setNx k t) ch = some true
    · obtain ⟨rfl, hans⟩ := hgrant
      obtain ⟨hnone, hnew⟩ := setNx_granted hans
      have hempty : holders k w.log = [] :=
        List.eq_nil_iff_forall_not_mem.mpr fun t' ht' => nomatch hnone.symm.trans (h.2 t' ht')
      unfold Exclusive
      rw [holders_after, hempty, hans]
      simp only [granted, if_true, List.length_singleton, le_refl, List.mem_singleton, forall_eq,
        true_and]
      exact hnew
    · have hg : granted key (holders key w.log) (.setNx k t) (w.answer (.setNx k t) ch) =
          holders key w.log := by
        match hans : w.answer (.setNx k t) ch with
        | none => rfl
        | some false => rfl
        | some true => exact if_neg fun hk => hgrant ⟨hk, hans⟩
      exact h.of_sublist i ch hc (by rw [hg]) fun _ _ => nofun

def Spares (key : String) (c : Cmd) : Prop := ∀ body, c ≠ .set key body

theorem exclusive_run [DecidableEq ι] {s t : State ι machine β} {as : List (Label ι machine)}
    {key : String} (hlog : s.world.log = [])
    (hset : ∀ i, Prog.All (M := machine) (Spares key) (s.procs i))
    (hexpire : ∀ a ∈ as, a ≠ .tick (M := machine) key) (h : exec step s as = some t) :
    Exclusive key t.world := by
  refine (exec_invariant (P := fun _ a => a ≠ .tick (M := machine) key)
    (I := fun s => Exclusive key s.world ∧ ∀ i, Prog.All (M := machine) (Spares key) (s.procs i))
    ?_ ⟨?_, hset⟩ (Along.of_forall hexpire step s) h).1
  · intro s a t ⟨hex, hall⟩ ha hs
    refine ⟨?_, all_step hall hs⟩
    cases a with
    | tick key' =>
      cases hs
      refine ⟨hex.1, fun t ht => ?_⟩
      have hne : key ≠ key' := fun he => ha (he ▸ rfl)
      exact (KeyValue.get_del_of_ne s.world.store hne).trans (hex.2 t ht)
    | run i ch =>
      have hi := hall i
      obtain ⟨c, k, hp, rfl⟩ := step_run hs
      rw [hp] at hi
      exact hex.after i ch hi.1
  · unfold Exclusive
    rw [hlog]
    exact ⟨Nat.zero_le _, fun _ => nofun⟩

end Exclusion

def ended (p : Prog machine α) : Prog machine Unit := do
  let _ ← p
  pure ()

def Avoids (T : List String) (c : Cmd) : Prop := ∀ key, ∀ t ∈ T, c ≠ .setNx key t

section Runs
variable {ι : Type} [DecidableEq ι] {bad : (c : Cmd) → c.Ans → Prop} {i : ι} {T : List String}
  {s t : State ι machine Unit} {as : List (Label ι machine)}

theorem no_token_run {p : Prog machine α}
    (hfree : ∀ key, ∀ u ∈ T, s.world.store key ≠ some (.token u)) (hp : s.procs i = ended p)
    (hsafe : ∀ w : World ι machine, Holds bad i T none w →
      (logic i T).Safe i (fun _ w => Holds bad i T none w) p w)
    (hothers : ∀ j, j ≠ i → Prog.All (M := machine) (Avoids T) (s.procs j))
    (h : exec step s as = some t) (hdone : t.procs i = .done ()) (hclean : Clean bad i t.world) :
    ∀ key, ∀ u ∈ T, t.world.store key ≠ some (.token u) := by
  have hgood : (logic i T).Good
      (fun j _ w => j = i → Holds bad i T none w) s := by
    refine ⟨trivial, fun j => ?_⟩
    by_cases hj : j = i
    · subst hj
      rw [hp]
      refine Logic.Safe.bind ((hsafe _ fun _ key u hu hk => absurd hk (hfree key u hu)).mono ?_)
      exact fun _ w _ hw => safe_done fun _ hr _ => hw.of_rely hr
    · refine (Logic.Safe.of_all (hothers j hj) ?_ _).mono fun _ _ _ _ he => absurd he hj
      intro c ch w hc _
      refine ⟨trivial, fun k _ _ => ⟨List.subset_append_left _ _, fun key u hu hk => ?_⟩⟩
      exact (token_after hk).resolve_right fun hset => hc key u hu hset.1
  intro key u hu hk
  cases (hgood.run h).2 i () hdone rfl hclean key u hu hk

/-- Over every run of any processes: a release leaves a lock with another token alone; while the key
does not expire, at most one token has a granted and unreleased lock; and a `create_post` whose
releases did not fail, or a `run_jobs_once` whose commands did not fail, leaves none of its tokens
in Redis when it has ended. -/
theorem locks_exclusive_and_released {store : KeyValue RedisValue} {procs : ι → Prog machine Unit}
    (h : exec step (⟨⟨store, []⟩, procs⟩ : State ι machine Unit) as = some t) :
    (∀ i ch u key token other k, t.procs i = .call (M := machine) (.release key token) k →
      t.world.store key = some (.token other) → other ≠ token → step t (.run i ch) = some u →
      u.world.store key = some (.token other)) ∧
    (∀ key : String, (∀ i, Prog.All (M := machine) (Spares key) (procs i)) →
      (∀ a ∈ as, a ≠ .tick (M := machine) key) → (holders key t.world.log).length ≤ 1) ∧
    (∀ i r, procs i = ended (createPost r) → (∀ key, store key ≠ some (.token r.token)) →
      (∀ j, j ≠ i → Prog.All (M := machine) (Avoids [r.token]) (procs j)) →
      t.procs i = .done () → Clean releaseFailed i t.world →
      ∀ key, t.world.store key ≠ some (.token r.token)) ∧
    ∀ i redis jobs, procs i = ended (runJobsOnce redis jobs) →
      (∀ key, ∀ job ∈ jobs, store key ≠ some (.token job.token)) →
      (∀ j, j ≠ i → Prog.All (M := machine) (Avoids (jobs.map PeriodicJob.token)) (procs j)) →
      t.procs i = .done () → Clean commandFailed i t.world →
      ∀ key, ∀ job ∈ jobs, t.world.store key ≠ some (.token job.token) := by
  refine ⟨?_, fun key hset hexpire => (exclusive_run rfl hset hexpire h).1, ?_, ?_⟩
  · intro i ch u key token other k hp hstore hne hs
    obtain ⟨c, k', hp', rfl⟩ := step_run hs
    cases hp.symm.trans hp'
    refine token_stays i ch hstore (fun he => ?_) fun _ => nofun
    cases he
    exact hne rfl
  · intro i r hp hfree hothers hdone hclean key
    refine no_token_run (T := [r.token]) (fun key u hu => ?_) hp (fun _ hw => safe_createPost hw) hothers h
      hdone hclean key r.token List.mem_cons_self
    rw [List.mem_singleton.mp hu]
    exact hfree key
  · intro i redis jobs hp hfree hothers hdone hclean key job hjob
    refine no_token_run (T := jobs.map PeriodicJob.token) (fun key u hu => ?_) hp
      (fun _ hw => safe_runJobsOnce redis jobs hw) hothers h hdone hclean key job.token
      (List.mem_map_of_mem hjob)
    obtain ⟨job', hjob', rfl⟩ := List.mem_map.mp hu
    exact hfree key job' hjob'

end Runs

def sampleJob : PeriodicJob := ⟨"cleanup", none, "t1"⟩

def failingChoice : Choice := ⟨.ok, .error .postNotFound, .error (), true⟩

def jobRun : List (Label Unit machine) :=
  [.run () failingChoice, .run () failingChoice, .run () failingChoice]

theorem locks_exclusive_and_released_jobRun :
    ∃ t, exec step (⟨⟨fun _ => none, []⟩, fun _ => ended (runJobsOnce true [sampleJob])⟩ :
        State Unit machine Unit) jobRun = some t ∧
      t.procs () = .done () ∧ ∀ key, t.world.store key ≠ some (.token "t1") := by
  obtain ⟨t, ht, hdone, hlog⟩ : ∃ t, exec step (⟨⟨fun _ => none, []⟩,
      fun _ => ended (runJobsOnce true [sampleJob])⟩ : State Unit machine Unit) jobRun = some t ∧
      t.procs () = .done () ∧ t.world.log = [⟨(), .setNx "lock:job:cleanup" "t1", some true⟩,
        ⟨(), .runJob "cleanup", .error ()⟩, ⟨(), .release "lock:job:cleanup" "t1", some ()⟩] :=
    ⟨_, rfl, rfl, rfl⟩
  refine ⟨t, ht, hdone, fun key => ?_⟩
  refine (locks_exclusive_and_released ht).2.2.2 () true [sampleJob] rfl (fun _ _ _ => nofun)
    (fun j hj => absurd rfl hj) hdone ?_ key sampleJob List.mem_cons_self
  intro e he _
  rw [hlog] at he
  simp only [List.mem_cons, List.not_mem_nil, or_false] at he
  rcases he with rfl | rfl | rfl
  · exact nofun
  · exact id
  · exact nofun

end PuppyTalk.Locks
