import PuppyTalk.PasswordHistory
import PuppyTalk.Session
import PuppyTalk.RotationProtocol

namespace PuppyTalk.Session

open Rotation

theorem userRefreshKey_injective (h : userRefreshKey u = userRefreshKey v) : u = v := by
  apply Uuid.text_injective
  have hl := congrArg String.toList h
  simp only [userRefreshKey, String.toList_append] at hl
  exact String.toList_inj.mp (List.append_cancel_left hl)

theorem userRefreshKey_ne_status (u v : Uuid) : userRefreshKey u ≠ userStatusCacheKey v :=
  KeyValue.append_ne_append 5 (by decide) (by decide) (by decide) _ _

theorem userRefreshKey_ne_auth (u v : Uuid) : userRefreshKey u ≠ userAuthCacheKey v :=
  KeyValue.append_ne_append 5 (by decide) (by decide) (by decide) _ _

theorem userRefreshKey_ne_blacklist (u : Uuid) (jti : String) :
    userRefreshKey u ≠ accessJtiBlacklistRedisKey jti :=
  KeyValue.append_ne_append 5 (by decide) (by decide) (by decide) _ _

def Phase.intent : Phase → Intent Uuid String
  | .loginStore u d => .store u d
  | .refreshRotate u incoming new => .rotate u incoming new
  | .passwordReturn u n => .returning u n
  | _ => .none

def Phase.sequential : Phase → Bool
  | .sequentialGet _ _ _ | .sequentialSet _ _ _ => true
  | _ => false

def view (s : State) : Slots Nat Uuid String where
  slot u := s.redis.get (userRefreshKey u)
  intent p := (s.phase p).intent
  issued := s.issued
  log := s.log
  origin := s.origin
  revoked := s.revoked
  returned := s.returned

theorem view_setPhase (s : State) (p : Nat) (ph : Phase) : view (s.setPhase p ph) =
    { view s with intent := Function.update (view s).intent p ph.intent } := by
  simp only [view, State.setPhase, Slots.mk.injEq, true_and, and_true]
  funext q
  simp only [Function.update_apply]
  split <;> rfl

theorem view_setPhase_none (h : (s.phase p).intent = .none) (h' : ph.intent = .none) :
    view (s.setPhase p ph) = view s := by
  rw [view_setPhase, h']
  have hself : Function.update (view s).intent p .none = (view s).intent := by
    rw [Function.update_eq_self_iff]
    exact h.symm
  rw [hself]

theorem slot_set (kv : KeyValue String) (u : Uuid) (d : String) :
    (fun v => (kv.set (userRefreshKey u) d).get (userRefreshKey v)) =
      Function.update (fun v => kv.get (userRefreshKey v)) u (some d) := by
  funext v
  rw [Function.update_apply]
  split
  · subst v
    exact KeyValue.get_set_self ..
  · rename_i hne
    exact KeyValue.get_set_of_ne _ _ fun he => hne (userRefreshKey_injective he)

theorem slot_del (kv : KeyValue String) (u : Uuid) :
    (fun v => (kv.del (userRefreshKey u)).get (userRefreshKey v)) =
      Function.update (fun v => kv.get (userRefreshKey v)) u none := by
  funext v
  rw [Function.update_apply]
  split
  · subst v
    exact KeyValue.get_del_self ..
  · rename_i hne
    exact KeyValue.get_del_of_ne _ fun he => hne (userRefreshKey_injective he)

theorem view_store (s : State) (u : Uuid) (d : String) : view (s.store u d) =
    { view s with
      slot := Function.update (view s).slot u (some d)
      log := .stored u d :: s.log } := by
  simp only [view, State.store, slot_set]

theorem view_rotate (s : State) (u : Uuid) (old new : String) : view (s.rotate u old new) =
    { view s with
      slot := Function.update (view s).slot u (some new)
      log := .rotated u old new :: s.log } := by
  simp only [view, State.rotate, slot_set]

theorem view_setOrigin (s : State) (d : String) (n : Nat) : view (s.setOrigin d n) =
    { view s with origin := Function.update s.origin d n } := rfl

theorem view_delete (s : State) (u : Uuid) : view (s.delete u) =
    { view s with
      slot := Function.update (view s).slot u none
      log := .deleted u :: s.log } := by
  simp only [view, State.delete, slot_del]

theorem view_cache (h : ∀ u, userRefreshKey u ≠ key) (s : State) (value : String) :
    view (s.cache key value) = view s := by
  simp only [view, State.cache, Slots.mk.injEq, and_true]
  funext u
  exact KeyValue.get_set_of_ne _ _ (h u)

theorem view_invalidate (s : State) (u : Uuid) : view (s.invalidate u) = view s := by
  simp only [view, State.invalidate, Slots.mk.injEq, and_true]
  funext v
  rw [KeyValue.get_del_of_ne _ (userRefreshKey_ne_auth v u),
    KeyValue.get_del_of_ne _ (userRefreshKey_ne_status v u)]

def NoFallback (s : State) : Prop := ∀ p, (s.phase p).sequential = false

theorem NoFallback.setPhase (h : NoFallback s) (hph : ph.sequential = false) (p : Nat) :
    NoFallback (s.setPhase p ph) := by
  intro q
  simp only [State.setPhase, Function.update_apply]
  split
  · exact hph
  · exact h q

/-- The step is one of the slots, and no request enters the fallback. -/
structure Refines (allowed : Uuid → String → Prop) (s s' : State) : Prop where
  move : Move allowed (view s) (view s')
  noFallback : NoFallback s'

theorem Refines.quiet (hn : NoFallback s) (hv : view s' = view s) (hphase : s'.phase = s.phase) :
    Refines allowed s s' := by
  apply Refines.mk
  · rw [hv]
    exact .stay
  · intro p
    rw [hphase]
    exact hn p

theorem Refines.next (hn : NoFallback s) (hv : view s' = view s) (hphase : s'.phase = s.phase)
    (p : Nat) (hi : ph.intent = .none) (hph : ph.sequential = false) :
    Refines allowed s (s'.setPhase p ph) := by
  apply Refines.mk
  · rw [view_setPhase, hv, hi]
    exact .settle p
  · apply NoFallback.setPhase _ hph
    intro q
    rw [hphase]
    exact hn q

theorem login_refines (hn : NoFallback s) (httl : 0 < c.refreshTtlSeconds)
    (hs : login c s p data token = some s') :
    Refines allowed s s' := by
  simp only [login] at hs
  split at hs
  · cases hs
    exact .next hn rfl rfl p rfl rfl
  rename_i user _
  split at hs
  · cases hs
  rename_i hfresh
  cases hs
  apply Refines.mk
  · rw [view_setPhase]
    exact .createStore p user.id _ (s.generation user.id) hfresh
  · exact NoFallback.setPhase hn rfl p

theorem refresh_refines (hn : NoFallback s) (c : Config) (p : Nat) (token : String) :
    Refines allowed s (refresh c s p token) := by
  simp only [refresh]
  split
  · exact .next hn rfl rfl p rfl rfl
  split
  · exact .next hn rfl rfl p rfl rfl
  split
  · exact .next hn rfl rfl p rfl rfl
  split
  · exact .next hn rfl rfl p rfl rfl
  · exact .next hn rfl rfl p rfl rfl

theorem refreshStatus_refines (hn : NoFallback s) (p : Nat) (u : Uuid) (incoming : String)
    (cached : Option String) : Refines allowed s (refreshStatus s p u incoming cached) := by
  simp only [refreshStatus]
  split
  · exact .next hn rfl rfl p rfl rfl
  split
  · exact .next hn rfl rfl p rfl rfl
  · exact .next hn rfl rfl p rfl rfl

theorem refreshDb_refines (hn : NoFallback s) (p : Nat) (u : Uuid) (incoming : String) :
    Refines allowed s (refreshDb s p u incoming) := by
  simp only [refreshDb]
  split
  · exact .next hn rfl rfl p rfl rfl
  · exact .next hn rfl rfl p rfl rfl

theorem refreshCache_refines (hn : NoFallback s) (p : Nat) (u : Uuid) (incoming : String)
    (status : UserStatus) : Refines allowed s (refreshCache s p u incoming status .ok) := by
  have hv := view_cache (fun v => userRefreshKey_ne_status v u) s status.value
  simp only [refreshCache, Reply.took_ok, if_true]
  split
  · exact .next hn hv rfl p rfl rfl
  · exact .next hn hv rfl p rfl rfl

theorem refreshRotate_refines (hn : NoFallback s) (httl : 0 < c.refreshTtlSeconds)
    (hp : s.phase p = .refreshRotate u incoming new) :
    Refines allowed s (refreshRotate c s p u incoming new .ok) := by
  have hi : (view s).intent p = .rotate u incoming new := by
    simp only [view, hp, Phase.intent]
  simp only [refreshRotate, if_neg (Int.not_le.mpr httl), Reply.failed_ok, Bool.false_eq_true, if_false]
  split
  · rename_i hit
    apply Refines.mk
    · rw [State.finish, view_setPhase, view_setOrigin, view_rotate]
      exact .rotate p u incoming new hi hit
    · exact NoFallback.setPhase hn rfl p
  · exact .next hn rfl rfl p rfl rfl

theorem delete_refines (hn : NoFallback s) (hp : (s.phase p).intent = .none) (u : Uuid)
    (hi : next.intent = .none) (hseq : next.sequential = false) :
    Refines allowed s (deleteThen s p u .ok next) := by
  simp only [deleteThen, Reply.took_ok, if_true, Reply.failed_ok, Bool.false_eq_true, if_false]
  apply Refines.mk
  · have hp' : ((s.delete u).phase p).intent = .none := hp
    rw [view_setPhase_none hp' hi, view_delete]
    exact .delete u
  · exact NoFallback.setPhase hn hseq p

theorem revoke_refines (hn : NoFallback s) (p : Nat) (u : Uuid) (n : Nat) :
    Refines allowed s (deleteThen (s.setRevoked u n) p u .ok (.passwordReturn u n)) := by
  simp only [deleteThen, Reply.took_ok, if_true, Reply.failed_ok, Bool.false_eq_true, if_false]
  apply Refines.mk
  · rw [view_setPhase, view_delete]
    exact .revoke p u n
  · exact NoFallback.setPhase hn rfl p

theorem run_refines (hn : NoFallback s) (httl : 0 < c.refreshTtlSeconds)
    (hallow : ∀ u d, s.phase p = .loginStore u d → allowed u d)
    (hs : run c s p .ok = some s') : Refines allowed s s' := by
  simp only [run, Reply.took_ok, if_true, Reply.failed_ok, Bool.false_eq_true, if_false] at hs
  have hseq := hn p
  cases hp : s.phase p with
  | idle => simp only [hp] at hs; cases hs
  | done => simp only [hp] at hs; cases hs
  | refreshCreate => simp only [hp] at hs; cases hs
  | loginStore u d =>
    simp only [hp] at hs
    cases hs
    apply Refines.mk
    · rw [view_setPhase, view_store]
      have hi : (view s).intent p = .store u d := by simp only [view, hp, Phase.intent]
      exact .store p u d hi (hallow u d hp)
    · exact NoFallback.setPhase hn rfl p
  | loginStatus u =>
    simp only [hp] at hs
    cases hs
    exact .next hn (view_cache (fun v => userRefreshKey_ne_status v u) s _) rfl p rfl rfl
  | refreshStatus u incoming =>
    simp only [hp] at hs
    cases hs
    exact refreshStatus_refines hn p u incoming _
  | refreshDb u incoming =>
    simp only [hp] at hs
    cases hs
    exact refreshDb_refines hn p u incoming
  | refreshCache u incoming status =>
    simp only [hp] at hs
    cases hs
    exact refreshCache_refines hn p u incoming status
  | refreshRotate u incoming new =>
    simp only [hp] at hs
    cases hs
    exact refreshRotate_refines hn httl hp
  | sequentialGet => simp only [hp] at hseq; cases hseq
  | sequentialSet => simp only [hp] at hseq; cases hseq
  | logoutBlacklist u jti =>
    simp only [hp] at hs
    cases hs
    exact .next hn (view_cache (fun v => userRefreshKey_ne_blacklist v jti) s _) rfl p rfl rfl
  | logoutDelete u =>
    simp only [hp] at hs
    cases hs
    exact delete_refines hn (by rw [hp]; rfl) u rfl rfl
  | passwordRevoke u n =>
    simp only [hp] at hs
    cases hs
    exact revoke_refines hn p u n
  | passwordReturn u n =>
    simp only [hp] at hs
    cases hs
    apply Refines.mk
    · rw [State.finish, view_setPhase]
      have hi : (view s).intent p = .returning u n := by simp only [view, hp, Phase.intent]
      exact .report p u n hi
    · exact NoFallback.setPhase hn rfl p
  | withdrawRevoke u =>
    simp only [hp] at hs
    cases hs
    exact delete_refines hn (by rw [hp]; rfl) u rfl rfl
  | withdrawDelete u =>
    simp only [hp] at hs
    split at hs
    · cases hs
      apply Refines.next hn _ _ p <;> rfl
    · cases hs
      apply Refines.next hn _ _ p <;> rfl
  | suspendRevoke u =>
    simp only [hp] at hs
    cases hs
    exact delete_refines hn (by rw [hp]; rfl) u rfl rfl
  | invalidate u =>
    simp only [hp] at hs
    cases hs
    exact .next hn (view_invalidate s u) rfl p rfl rfl

theorem start_some {s : State} (h : s.start p next = some s') : next = some s' := by
  simp only [State.start] at h
  split at h
  · exact h
  · cases h

theorem setUserStatus_refines (hn : NoFallback s) (p : Nat) (u : Uuid) (status : UserStatus)
    (hi : next.intent = .none) (hseq : next.sequential = false) :
    Refines allowed s (setUserStatus s p u status next) := by
  simp only [setUserStatus]
  split
  · apply Refines.next hn _ _ p <;> rfl
  · apply Refines.next hn _ _ p hi hseq <;> rfl

theorem updatePassword_refines (hn : NoFallback s) (c : Config) (p : Nat) (u : Uuid)
    (data : Schema.UpdatePasswordBody) (salt : c.credentials.bcrypt.Salt) :
    Refines allowed s (updatePassword c s p u data salt) := by
  simp only [updatePassword]
  split
  · apply Refines.next hn _ _ p <;> rfl
  · apply Refines.next hn _ _ p <;> rfl

theorem step_refines (hn : NoFallback s) (httl : 0 < c.refreshTtlSeconds) {a : Label c}
    (hok : a.NoFailure)
    (hallow : ∀ p u d, a = .run p .ok → s.phase p = .loginStore u d → allowed u d)
    (hs : step c s a = some s') : Refines allowed s s' := by
  cases a with
  | tick d =>
    cases hs
    exact .quiet hn rfl rfl
  | environment db =>
    simp only [step] at hs
    split at hs
    · cases hs
      exact .quiet hn rfl rfl
    · cases hs
  | refreshExpired u =>
    cases hs
    apply Refines.mk
    · rw [view_delete]
      exact .delete u
    · exact hn
  | statusExpired u =>
    cases hs
    exact .quiet hn (view_invalidate s u) rfl
  | blacklistExpired jti =>
    cases hs
    apply Refines.quiet hn
    · simp only [view, Slots.mk.injEq, and_true]
      funext u
      exact KeyValue.get_del_of_ne _ (userRefreshKey_ne_blacklist u jti)
    · rfl
  | login p data token => exact login_refines hn httl (start_some hs)
  | refresh p token =>
    cases start_some hs
    exact refresh_refines hn c p token
  | create p token =>
    simp only [step] at hs
    split at hs
    · rename_i u incoming hp
      split at hs
      · cases hs
      · rename_i hfresh
        cases hs
        apply Refines.mk
        · rw [view_setPhase]
          exact .createRotate p u incoming _ hfresh
        · exact NoFallback.setPhase hn rfl p
    · cases hs
  | logout p u jti ttl =>
    cases start_some hs
    cases jti with
    | none => exact .next hn rfl rfl p rfl rfl
    | some jti =>
      dsimp only
      split
      · exact .next hn rfl rfl p rfl rfl
      · exact .next hn rfl rfl p rfl rfl
  | updatePassword p u data salt =>
    cases start_some hs
    exact updatePassword_refines hn c p u data salt
  | deleteMe p u =>
    cases start_some hs
    exact .next hn rfl rfl p rfl rfl
  | suspendUser p u =>
    cases start_some hs
    exact setUserStatus_refines hn p u .suspended rfl rfl
  | activateUser p u =>
    cases start_some hs
    exact setUserStatus_refines hn p u .active rfl rfl
  | run p r =>
    cases hok
    exact run_refines hn httl (fun u d => hallow p u d rfl) hs

theorem guarded_init (db : Db) : Guarded (view (State.init db)) := by
  have hfresh : Fresh (view (State.init db)) := by
    apply Fresh.mk
    · exact True.intro
    · exact fun _ => rfl
    · exact fun d hd => by cases hd
    · exact fun p d hp => by cases hp
    · exact fun p q d hp => by cases hp
  refine ⟨hfresh, ?_, fun _ => Nat.le_refl _, ?_⟩
  · exact fun u d hu => by cases hu
  · exact fun p u n hp => by cases hp

theorem noFallback_init (db : Db) : NoFallback (State.init db) := fun _ => rfl

/-- In every interleaving in which no Redis command raises every refresh token is accepted at most
once, only while it is the one written last to its user's key, and never after a deletion of the
key that followed its writing. -/
theorem refresh_rotation_safe (c : Config) (httl : 0 < c.refreshTtlSeconds) (db : Db)
    {as : List (Label c)} (hok : ∀ a ∈ as, a.NoFailure)
    (hrun : exec (step c) (State.init db) as = some s) :
    ((acceptances s.log).map Prod.snd).Nodup ∧
    (∀ newer e older u d, s.log = newer ++ e :: older → e.accept = some (u, d) →
      lastWritten u older = some d) ∧
    ∀ newer e mid older u d, s.log = newer ++ e :: (mid ++ .deleted u :: older) →
      e.accept = some (u, d) → d ∉ tokens older := by
  have hinv : Fresh (view s) ∧ NoFallback s := by
    apply exec_invariant (I := fun s => Fresh (view s) ∧ NoFallback s) _
      ⟨(guarded_init db).fresh, noFallback_init db⟩ (Along.of_forall hok _ _) hrun
    rintro s a t ⟨hf, hn⟩ hok hs
    have href : Refines (fun _ _ => True) s t :=
      step_refines hn httl hok (fun _ _ _ _ _ => trivial) hs
    exact ⟨hf.move href.move, href.noFallback⟩
  have hvalid : Valid s.log := hinv.1.valid
  apply And.intro hvalid.accepted_nodup
  apply And.intro
  · intro newer e older u d hlog he
    rw [hlog] at hvalid
    exact hvalid.accept_lastWritten he
  · intro newer e mid older u d hlog he
    rw [hlog] at hvalid
    exact hvalid.accept_after_deleted he

def sampleConfig : Config where
  credentials := PasswordHistory.sampleConfig.credentials
  refreshTtlSeconds := 7 * 86400
  refreshTokenDigest := id
  verifyRefreshToken _ _ := some "1"
  jwtSubToUuid _ := some 1

def sampleDb : Db where
  users := [{
    id := 1, version := 1, email := "a@b.kr", password := PasswordHistory.plainHash (utf8 "bori-123"),
    nickname := "보리", profileImageId := none, status := .active, createdAt := 0, updatedAt := 0,
    deletedAt := none }]

def rotationRun : List (Label sampleConfig) :=
  [.login 0 ⟨"a@b.kr", "bori-123"⟩ "t0", .run 0 .ok, .run 0 .ok,
   .refresh 1 "t0", .run 1 .ok, .create 1 "t1", .run 1 .ok,
   .refresh 2 "t0", .run 2 .ok, .create 2 "t2", .run 2 .ok,
   .logout 3 1 (some "01H") 60, .run 3 .ok, .run 3 .ok]

theorem refresh_rotation_safe_rotationRun :
    ∃ s, exec (step sampleConfig) (State.init sampleDb) rotationRun = some s ∧
      acceptances s.log = [(1, "t0")] ∧ ((acceptances s.log).map Prod.snd).Nodup := by
  have hrun : ∃ s, exec (step sampleConfig) (State.init sampleDb) rotationRun = some s ∧
      acceptances s.log = [(1, "t0")] := ⟨_, rfl, rfl⟩
  obtain ⟨s, he, hacc⟩ := hrun
  have hok : ∀ a ∈ rotationRun, a.NoFailure := by simp [rotationRun, Label.NoFailure]
  have hsafe := refresh_rotation_safe sampleConfig (by decide) sampleDb hok he
  exact ⟨s, he, hacc, hsafe.1⟩

/-- A login stores its token before any later password change deletes the key. -/
def StoresBeforeRevoke (s : State) : Label c → Prop
  | .run p _ => ∀ u d, s.phase p = .loginStore u d → s.revoked u ≤ s.origin d
  | _ => True

/-- The step accepts a token that goes back to a login with a password that a change, which has
already returned, has replaced. -/
def AcceptsOldSession (c : Config) (s : State) (a : Label c) : Prop :=
  ∃ s' u d, step c s a = some s' ∧ acceptances s'.log = (u, d) :: acceptances s.log ∧
    s.origin d < s.returned u

theorem step_guarded (hn : NoFallback s) (httl : 0 < c.refreshTtlSeconds) {a : Label c}
    (hok : a.NoFailure) (hstore : StoresBeforeRevoke s a) (hs : step c s a = some s') :
    Refines (fun u d => (view s).revoked u ≤ (view s).origin d) s s' := by
  apply step_refines hn httl hok _ hs
  rintro p u d rfl hp
  exact hstore u d hp

/-- In every interleaving in which logins store their tokens in time no token of an old password is
accepted once the change has returned. -/
theorem password_change_ends_sessions (c : Config) (httl : 0 < c.refreshTtlSeconds) (db : Db)
    {as : List (Label c)} (hok : ∀ a ∈ as, a.NoFailure)
    (h : Along (step c) StoresBeforeRevoke (State.init db) as) :
    Along (step c) (fun s a => ¬ AcceptsOldSession c s a) (State.init db) as := by
  apply Along.of_invariant (I := fun s => Guarded (view s) ∧ NoFallback s) _ _
    ⟨guarded_init db, noFallback_init db⟩ ((Along.of_forall hok _ _).and h)
  · rintro s a t ⟨hg, hn⟩ ⟨hok, hstore⟩ hs
    have href := step_guarded hn httl hok hstore hs
    exact ⟨hg.move href.move, href.noFallback⟩
  · rintro s a ⟨hg, hn⟩ ⟨hok, hstore⟩ ⟨s', u, d, hs, hacc, hold⟩
    have href := step_guarded hn httl hok hstore hs
    exact Nat.not_le.mpr hold (hg.accept href.move hacc)

def changedAfterwardsRun : List (Label sampleConfig) :=
  [.login 0 ⟨"a@b.kr", "bori-123"⟩ "t0", .run 0 .ok,
   .updatePassword 1 1 ⟨"bori-123", "bori-456"⟩ (), .run 1 .ok, .run 1 .ok, .refresh 2 "t0"]

theorem password_change_ends_sessions_changedAfterwardsRun :
    (exec (step sampleConfig) (State.init sampleDb) changedAfterwardsRun).isSome ∧
    Along (step sampleConfig) (fun s a => ¬ AcceptsOldSession sampleConfig s a) (State.init sampleDb)
      changedAfterwardsRun := by
  have hok : ∀ a ∈ changedAfterwardsRun, a.NoFailure := by
    simp [changedAfterwardsRun, Label.NoFailure]
  have hstores : Along (step sampleConfig) StoresBeforeRevoke (State.init sampleDb)
      changedAfterwardsRun := by
    apply And.intro trivial
    intro s₁ h₁
    cases h₁
    -- no change has deleted a key when the login stores its token
    apply And.intro fun u d _ => Nat.zero_le _
    intro s₂ h₂
    cases h₂
    apply And.intro trivial
    intro s₃ h₃
    cases h₃
    apply And.intro fun u d hp => Phase.noConfusion hp
    intro s₄ h₄
    cases h₄
    apply And.intro fun u d hp => Phase.noConfusion hp
    intro s₅ h₅
    exact ⟨trivial, fun _ _ => trivial⟩
  exact ⟨by rfl, password_change_ends_sessions sampleConfig (by decide) sampleDb hok hstores⟩

/-- The login has checked the old password, the change runs to its end, and only then the login
stores its token, which a refresh takes. -/
def changedMeanwhileRun : List (Label sampleConfig) :=
  [.login 0 ⟨"a@b.kr", "bori-123"⟩ "t0",
   .updatePassword 1 1 ⟨"bori-123", "bori-456"⟩ (), .run 1 .ok, .run 1 .ok,
   .run 0 .ok, .run 0 .ok, .refresh 2 "t0", .run 2 .ok, .create 2 "t1"]

theorem old_session_accepted : ¬ ∀ (c : Config) (db : Db) (as : List (Label c)),
    0 < c.refreshTtlSeconds → (∀ a ∈ as, a.NoFailure) →
    Along (step c) (fun s a => ¬ AcceptsOldSession c s a) (State.init db) as := by
  intro h
  have hrun : ∃ s s', exec (step sampleConfig) (State.init sampleDb) changedMeanwhileRun = some s ∧
      step sampleConfig s (.run 2 .ok) = some s' ∧
      acceptances s'.log = (1, "t0") :: acceptances s.log ∧ s.origin "t0" = 0 ∧ s.returned 1 = 1 :=
    ⟨_, _, rfl, rfl, rfl, rfl, rfl⟩
  obtain ⟨s, s', he, hs, hacc, hold, hret⟩ := hrun
  have hok : ∀ a ∈ changedMeanwhileRun ++ [.run 2 .ok], a.NoFailure := by
    simp [changedMeanwhileRun, Label.NoFailure]
  apply (h sampleConfig sampleDb _ (by decide) hok).next he
  exact ⟨s', 1, "t0", hs, hacc, by rw [hold, hret]; decide⟩

end PuppyTalk.Session
