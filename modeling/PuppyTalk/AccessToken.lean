import Mathlib.Algebra.Order.Archimedean.Real.Basic
import Mathlib.Algebra.Order.Floor.Ring
import Mathlib.Tactic.Linarith
import PuppyTalk.SessionSafety

namespace PuppyTalk.Access

-- times are numbers of seconds, in any ordered field with integer parts
variable {R : Type} [Field R] [LinearOrder R]

/-- The `exp` entry of a payload. -/
inductive ExpClaim (R : Type) where
  | int (n : Int)
  | datetime (t : R)
  | other

structure AccessPayload (R : Type) where
  sub : Option String
  jti : Option String
  exp : ExpClaim R

structure AccessToken where
  sub : String
  exp : Int
  jti : String
  jti_nonblank : Python.strip jti ≠ ""

def AccessToken.payload (token : AccessToken) : AccessPayload R where
  sub := some token.sub
  jti := some token.jti
  exp := .int token.exp

/-- `verify_access_token` of a correctly signed token. -/
def verifyAccessToken (token : AccessToken) (t : R) : Option (AccessPayload R) :=
  if t < (token.exp : R) then some token.payload else none

structure AuthSnapshot where
  status : String
  user : Option Uuid

structure Environment where
  cached : Uuid → Option AuthSnapshot
  db : Db

def invalidTokenMessage : String := "인증 토큰이 유효하지 않습니다."

def resolveFromDb (env : Environment) (userId : Uuid) : Except ApiException Uuid :=
  match UsersRepository.getUserById env.db userId with
  | none => .error (.unauthorized (some invalidTokenMessage))
  | some user =>
    if user.status = .active then .ok user.id
    else .error (.forbidden (some (UserStatus.inactiveMessageKo user.status.value)))

/-- `resolve_access_token_user` past the blacklist. -/
def resolveSubject (jwtSubToUuid : String → Option Uuid) (env : Environment) (sub : Option String) :
    Except ApiException Uuid :=
  match sub.bind jwtSubToUuid with
  | none => .error (.unauthorized (some invalidTokenMessage))
  | some userId =>
    match env.cached userId with
    | none => resolveFromDb env userId
    | some snapshot =>
      if snapshot.status = UserStatus.active.value then
        match snapshot.user with
        | some user => .ok user
        | none => resolveFromDb env userId
      else .error (.forbidden (some (UserStatus.inactiveMessageKo snapshot.status)))

/-- `resolve_access_token_user` at a time. -/
def resolveAccessTokenUser (jwtSubToUuid : String → Option Uuid) (env : Environment)
    (redis : TimedKeyValue R String) (token : AccessToken) (t : R) : Except ApiException Uuid :=
  match verifyAccessToken token t with
  | none => .error (.unauthorized (some invalidTokenMessage))
  | some payload =>
    match payload.jti with
    | none => resolveSubject jwtSubToUuid env payload.sub
    | some jti =>
      if Python.strip jti ≠ "" ∧
          (redis.get (Session.accessJtiBlacklistRedisKey (Python.strip jti)) t).isSome then
        .error (.unauthorized (some invalidTokenMessage))
      else resolveSubject jwtSubToUuid env payload.sub

section
variable [FloorRing R]

def truncate (x : R) : Int := if 0 ≤ x then ⌊x⌋ else ⌈x⌉

/-- `datetime.now`, which has a resolution of a microsecond. -/
def datetimeNow (t : R) : R := (⌊t * 1000000⌋ : R) / 1000000

/-- `_remaining_ttl_seconds_from_access_payload` at a clock reading. -/
def remainingTtlSeconds (exp : ExpClaim R) (now : R) : Int :=
  match exp with
  | .int n => max 0 (truncate ((n : R) - now))
  | .datetime t => max 0 (truncate (t - now))
  | .other => 0

/-- `AuthService.logout` whose clock is read at `clock` and whose `SET` runs at `set`. -/
def logout (redis : TimedKeyValue R String) (userId : Uuid) (payload : AccessPayload R)
    (clock set : R) : TimedKeyValue R String :=
  let ttl := remainingTtlSeconds payload.exp (datetimeNow clock)
  let redis := match payload.jti with
    | none => redis
    | some jti =>
      if 0 < ttl ∧ Python.strip jti ≠ "" then
        redis.setEx (Session.accessJtiBlacklistRedisKey (Python.strip jti)) "logout" set (ttl : R)
      else redis
  redis.del (Session.userRefreshKey userId)

structure LogoutTimes (R : Type) [LE R] where
  resolved : R
  verified : R
  clock : R
  set : R
  done : R
  resolved_le : resolved ≤ verified
  verified_le : verified ≤ clock
  clock_le : clock ≤ set
  set_le : set ≤ done

def logoutRequest (jwtSubToUuid : String → Option Uuid) (env : Environment)
    (redis : TimedKeyValue R String) (token : AccessToken) (times : LogoutTimes R) :
    Except ApiException (TimedKeyValue R String) :=
  match resolveAccessTokenUser jwtSubToUuid env redis token times.resolved with
  | .error e => .error e
  | .ok userId =>
    match verifyAccessToken token times.verified with
    | none => .error .internalServerError
    | some payload => .ok (logout redis userId payload times.clock times.set)

end

theorem verifyAccessToken_of_le {token : AccessToken} {t : R} (h : (token.exp : R) ≤ t) :
    verifyAccessToken token t = none := if_neg (not_lt.mpr h)

def blacklistKey (token : AccessToken) : String :=
  Session.accessJtiBlacklistRedisKey (Python.strip token.jti)

theorem resolveAccessTokenUser_eq (f : String → Option Uuid) (env : Environment)
    (redis : TimedKeyValue R String) (token : AccessToken) (t : R) :
    resolveAccessTokenUser f env redis token t =
      if (token.exp : R) ≤ t ∨ (redis.get (blacklistKey token) t).isSome then
        .error (.unauthorized (some invalidTokenMessage))
      else resolveSubject f env (some token.sub) := by
  by_cases hexp : (token.exp : R) ≤ t
  · rw [if_pos (.inl hexp), resolveAccessTokenUser, verifyAccessToken_of_le hexp]
  · simp only [resolveAccessTokenUser, verifyAccessToken, if_pos (not_le.mp hexp), ne_eq,
      AccessToken.payload, token.jti_nonblank, not_false_eq_true, true_and, hexp, false_or,
      blacklistKey]

def activeEnvironment (userId : Uuid) : Environment where
  cached _ := some { status := UserStatus.active.value, user := some userId }
  db := {}

theorem resolveSubject_active (h : resolveSubject f env sub = .ok u) (userId : Uuid) :
    resolveSubject f (activeEnvironment userId) sub = .ok userId := by
  simp only [resolveSubject] at h ⊢
  split at h
  · cases h
  · rename_i uid hsub
    simp only [activeEnvironment, if_true]

/-- The token is accepted at a time by some environment exactly if it is neither expired nor
blacklisted then. -/
theorem rejected_iff {token : AccessToken} (hsub : resolveSubject f env (some token.sub) = .ok u)
    (redis : TimedKeyValue R String) (t : R) :
    (∀ env, ∃ e, resolveAccessTokenUser f env redis token t = .error e) ↔
      (token.exp : R) ≤ t ∨ (redis.get (blacklistKey token) t).isSome := by
  apply Iff.intro
  · intro h
    obtain ⟨e, he⟩ := h (activeEnvironment u)
    rw [resolveAccessTokenUser_eq, resolveSubject_active hsub] at he
    split at he
    · assumption
    · cases he
  · intro h env
    rw [resolveAccessTokenUser_eq, if_pos h]
    exact ⟨_, rfl⟩

variable [FloorRing R]

def blacklistTtl (token : AccessToken) (clock : R) : Int :=
  remainingTtlSeconds (.int token.exp) (datetimeNow clock)

theorem logout_get (redis : TimedKeyValue R String) (userId : Uuid) (token : AccessToken)
    (clock set t : R) :
    (logout redis userId token.payload clock set).get (blacklistKey token) t =
      if 0 < blacklistTtl token clock then
        if t < set + (blacklistTtl token clock : R) then some "logout" else none
      else redis.get (blacklistKey token) t := by
  have hne := (Session.userRefreshKey_ne_blacklist userId (Python.strip token.jti)).symm
  simp only [logout, AccessToken.payload, ne_eq, token.jti_nonblank, not_false_eq_true, and_true]
  rw [TimedKeyValue.get_del_of_ne _ t (by exact hne), blacklistTtl]
  split
  · exact TimedKeyValue.get_setEx_self ..
  · rfl

theorem logoutRequest_ok {token : AccessToken} {times : LogoutTimes R}
    (h : logoutRequest f env redis token times = .ok redis') :
    (∃ u, resolveSubject f env (some token.sub) = .ok u) ∧
    redis.get (blacklistKey token) times.resolved = none ∧
    ∃ userId, redis' = logout redis userId token.payload times.clock times.set := by
  simp only [logoutRequest, resolveAccessTokenUser_eq] at h
  split at h
  · cases h
  rename_i u hres
  split at hres
  · cases hres
  rename_i hvalid
  simp only [not_or, Option.not_isSome_iff_eq_none] at hvalid
  split at h
  · cases h
  rename_i payload hver
  cases h
  simp only [verifyAccessToken] at hver
  split at hver
  · cases hver
    exact ⟨⟨u, hres⟩, hvalid.2, u, rfl⟩
  · cases hver

/-- After a completed logout the token is rejected at every later time, whatever the caches and the
database hold, if and only if the entry outlives the token or the token had expired by then. -/
theorem logged_out_token_dead_iff [IsStrictOrderedRing R] {token : AccessToken}
    {times : LogoutTimes R} (h : logoutRequest f env redis token times = .ok redis') :
    (∀ t, times.done ≤ t → ∀ env, ∃ e, resolveAccessTokenUser f env redis' token t = .error e) ↔
      (token.exp : R) ≤ max (times.set + (blacklistTtl token times.clock : R)) times.done := by
  obtain ⟨⟨u, hsub⟩, hclean, userId, rfl⟩ := logoutRequest_ok h
  simp only [rejected_iff hsub, logout_get]
  have hbefore : times.resolved ≤ times.done :=
    times.resolved_le.trans (times.verified_le.trans (times.clock_le.trans times.set_le))
  apply Iff.intro
  · intro hdead
    -- the first moment at which the entry is gone
    by_contra hlt
    rw [not_le] at hlt
    rcases hdead _ (le_max_right _ _) with hexp | hblack
    · exact absurd hexp (not_le.mpr hlt)
    · split at hblack
      · rw [if_neg (not_lt.mpr (le_max_left _ _))] at hblack
        cases hblack
      · rw [TimedKeyValue.get_none_of_le hclean (hbefore.trans (le_max_right _ _))] at hblack
        cases hblack
  · intro hexp t ht
    by_cases hlt : (token.exp : R) ≤ t
    · exact .inl hlt
    · have hset : t < times.set + (blacklistTtl token times.clock : R) := by
        rw [not_le] at hlt
        rcases le_max_iff.mp hexp with hexp | hexp
        · exact hlt.trans_le hexp
        · exact absurd (hexp.trans ht) (not_le.mpr hlt)
      have hpos : 0 < blacklistTtl token times.clock := by
        by_contra hnot
        have hle : (blacklistTtl token times.clock : R) ≤ 0 := by
          exact_mod_cast not_lt.mp hnot
        have : times.set ≤ t := times.set_le.trans ht
        linarith
      rw [if_pos hpos, if_pos hset]
      exact .inr rfl

omit [LinearOrder R] [FloorRing R] in
theorem mul_micro_cancel [CharZero R] (n : Int) : (n / 1000000 : R) * 1000000 = n := by
  field_simp

theorem blacklistTtl_eq [IsStrictOrderedRing R] (token : AccessToken) {n m : Int} (hm : 0 ≤ m)
    (hle : (m : R) ≤ token.exp - n / 1000000) (hlt : token.exp - n / 1000000 < (m : R) + 1) :
    blacklistTtl token (n / 1000000 : R) = m := by
  have hnow : datetimeNow (n / 1000000 : R) = n / 1000000 := by
    rw [datetimeNow, mul_micro_cancel, Int.floor_intCast]
  have hpos : (0 : R) ≤ token.exp - n / 1000000 := (Int.cast_nonneg hm).trans hle
  rw [blacklistTtl, hnow, remainingTtlSeconds, truncate, if_pos hpos,
    Int.floor_eq_iff.mpr ⟨hle, hlt⟩, max_eq_right hm]

def sampleToken : AccessToken where
  sub := "1"
  exp := 100
  jti := "01H"
  jti_nonblank := by decide

def sampleSubToUuid (sub : String) : Option Uuid := if sub = "1" then some 1 else none

def LogoutTimes.instant (t : R) : LogoutTimes R where
  resolved := t
  verified := t
  clock := t
  set := t
  done := t
  resolved_le := le_refl t
  verified_le := le_refl t
  clock_le := le_refl t
  set_le := le_refl t

theorem sampleToken_resolves : resolveSubject sampleSubToUuid (activeEnvironment 1)
    (some sampleToken.sub) = .ok 1 := rfl

theorem sampleLogout_ok {t : ℝ} (ht : t < 100) :
    logoutRequest sampleSubToUuid (activeEnvironment 1) (fun _ => none) sampleToken (.instant t) =
      .ok (logout (fun _ => none) 1 sampleToken.payload t t) := by
  have hexp : t < (sampleToken.exp : ℝ) := by simpa [sampleToken] using ht
  have hver : verifyAccessToken sampleToken t = some sampleToken.payload := if_pos hexp
  simp only [logoutRequest, resolveAccessTokenUser_eq, LogoutTimes.instant, TimedKeyValue.get,
    Option.isSome_none, Bool.false_eq_true, or_false, if_neg (not_le.mpr hexp), sampleToken_resolves,
    hver]

/-- A logout on a full second leaves an entry that lives as long as the token. -/
theorem logged_out_token_dead_iff_fullSecond :
    ∃ redis', logoutRequest sampleSubToUuid (activeEnvironment 1) (fun _ => none) sampleToken
        (.instant (98 : ℝ)) = .ok redis' ∧
      ∀ t, 98 ≤ t → ∀ env, ∃ e,
        resolveAccessTokenUser sampleSubToUuid env redis' sampleToken t = .error e := by
  have hrun := sampleLogout_ok (t := 98) (by norm_num)
  have httl : blacklistTtl sampleToken (98 : ℝ) = 2 := by
    have h := blacklistTtl_eq (R := ℝ) sampleToken (n := 98000000) (m := 2) (by decide)
    norm_num [sampleToken] at h ⊢
    exact h
  apply Exists.intro _
  apply And.intro hrun
  apply (logged_out_token_dead_iff hrun).mpr
  simp only [LogoutTimes.instant, httl]
  norm_num [sampleToken]

/-- A logout half a second later: the entry is gone half a second before the token. -/
theorem logged_out_token_accepted : ¬ ∀ (f : String → Option Uuid) (env : Environment)
    (redis redis' : TimedKeyValue ℝ String) (token : AccessToken) (times : LogoutTimes ℝ),
    logoutRequest f env redis token times = .ok redis' →
    ∀ t, times.done ≤ t → ∀ env, ∃ e, resolveAccessTokenUser f env redis' token t = .error e := by
  intro h
  have hdead := h _ _ _ _ _ _ (sampleLogout_ok (t := 98.5) (by norm_num)) 99.75
    (by norm_num [LogoutTimes.instant])
  have httl : blacklistTtl sampleToken (98.5 : ℝ) = 1 := by
    have h := blacklistTtl_eq (R := ℝ) sampleToken (n := 98500000) (m := 1) (by decide)
    norm_num [sampleToken] at h ⊢
    exact h
  rw [rejected_iff sampleToken_resolves, logout_get, httl] at hdead
  norm_num [sampleToken] at hdead

end PuppyTalk.Access
