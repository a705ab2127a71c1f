import PuppyTalk.AccountAccess

namespace PuppyTalk.AccountAccess

open Session (userRefreshKey userStatusCacheKey userAuthCacheKey userRefreshKey_ne_status)

variable {R : Type} [Field R] [LinearOrder R]

def Active (db : Store) (u : Uuid) : Prop :=
  ∃ user ∈ db.users, user.id = u ∧ user.deletedAt = none ∧ user.status = .active

instance (db : Store) (u : Uuid) : Decidable (Active db u) :=
  inferInstanceAs (Decidable (∃ user ∈ db.users, _))

/-- A status reaches the caches at most `d` after it was read from the database. -/
def Prompt (d : R) (s : State R) : Label R → Prop
  | .run p _ _ =>
    match s.phase p with
    | .loginStatus _ readAt | .refreshCache _ _ readAt => s.now ≤ readAt + d
    | _ => True
  | .fill p _ _ =>
    match s.phase p with
    | .fill _ _ _ readAt _ _ => s.now ≤ readAt + d
    | _ => True
  | _ => True

def Checked (V : Uuid → R → Prop) (s : State R) : Label R → Prop
  | .run p _ _ =>
    match s.phase p with
    | .sendCheck u _ _ => V u s.now
    | _ => True
  | _ => True

section Invariant

/-! `W u t` stands for a moment `t` of the run at which the user was active, and `V u t` for what is
known of a sender whose check ran at that moment. -/

variable (W V : Uuid → R → Prop) (d : R)

def Recent (ids : List Uuid) : Phase R → Prop
  | .loginStore u _ t | .loginStatus u t | .fill _ u .active t _ _ | .refreshCache u .active t => W u t
  | .passed _ u t => ∃ t₀, W u t₀ ∧ t - 240 - d ≤ t₀ ∧ t₀ ≤ t
  | .statusUpdate u _ _ | .withdrawDelete u => u ∈ ids
  | .sendStore u _ _ t => V u t
  | _ => True

def snapshotActive (snapshot : Access.AuthSnapshot) (u : Uuid) : Prop :=
  snapshot.status = UserStatus.active.value ∧ snapshot.user = some u

/-- Where an effect comes from: a cache is written no later than `d` after the read, and accounts
and messages change behind their checks. -/
def Grounded (s : State R) (p : Nat) (a : Label R) : Effect → Prop
  | .cacheStatus u status => status = .active → ∃ t, W u t ∧ s.now ≤ t + d
  | .cacheAuth _ snapshot => ∀ u, snapshotActive snapshot u → ∃ t, W u t ∧ s.now ≤ t + d
  | .setStatus u status _ => ∃ revoke, s.phase p = .statusUpdate u status revoke
  | .withdraw u _ => s.phase p = .withdrawDelete u
  | .message _ m => ∃ roomId messageId r stamp roomCache payload t,
      a = .store p roomId messageId r stamp ∧ s.phase p = .sendStore m.senderId roomCache payload t
  | _ => True

structure Fresh (s : State R) : Prop where
  status (u : Uuid) (expiry : R) :
    s.redis (userStatusCacheKey u) = some (UserStatus.active.value, expiry) →
      ∃ t, W u t ∧ expiry ≤ t + d + 240
  auth (key : String) (snapshot : Access.AuthSnapshot) (expiry : R) (u : Uuid) :
    s.auth key = some (snapshot, expiry) → snapshotActive snapshot u →
      ∃ t, W u t ∧ expiry ≤ t + d + 240
  phase (p : Nat) : Recent W V d s.ids (s.phase p)
  ids : ∀ v ∈ s.db.users, v.id ∈ s.ids

end Invariant

variable {W V : Uuid → R → Prop} {d : R} {s : State R}

omit [Field R] [LinearOrder R] in
theorem Checked.trivial : Checked (fun _ _ => True) s a := by
  unfold Checked
  split
  · split <;> exact True.intro
  · exact True.intro

theorem UserStatus.value_active {status : UserStatus} (h : status.value = UserStatus.active.value) :
    status = .active := by
  cases status with
  | active => rfl
  | suspended => exact absurd h (by decide)
  | withdrawn => exact absurd h (by decide)

theorem userStatusCacheKey_injective (h : userStatusCacheKey u = userStatusCacheKey v) : u = v := by
  apply Uuid.text_injective
  apply String.toList_inj.mp
  have hl := congrArg String.toList h
  simp only [userStatusCacheKey, String.toList_append] at hl
  exact List.append_cancel_left hl

theorem active_of_getUserById {db : Store} (h : UsersRepository.getUserById db.toDb u = some user)
    (hs : user.status = .active) : Active db u := by
  have hfound := List.find?_some h
  simp only [Bool.and_eq_true, beq_iff_eq, Option.isNone_iff_eq_none] at hfound
  exact ⟨user, List.mem_of_find?_eq_some h, hfound.1, hfound.2, hs⟩

theorem active_of_loginBlock {db : Store} {cr : Credentials}
    (h : AuthService.loginBlock cr db.toDb data = .ok user) : Active db user.id := by
  unfold AuthService.loginBlock at h
  split at h
  · cases h
  · rename_i found hfind
    split at h
    · cases h
    · rename_i hs
      split at h
      · cases h
        have hfound := List.find?_some hfind
        simp only [Bool.and_eq_true, Option.isNone_iff_eq_none] at hfound
        exact ⟨_, List.mem_of_find?_eq_some hfind, rfl, hfound.2, not_not.mp hs⟩
      · cases h

/-! ### What a step may do to the caches -/

theorem Recent.mono (h : Recent W V d ids ph) (hW : ∀ u t, W u t → W' u t)
    (hV : ∀ u t, V u t → V' u t) (hids : ids ⊆ ids') : Recent W' V' d ids' ph := by
  unfold Recent at h ⊢
  split at h
  · exact hW _ _ h
  · exact hW _ _ h
  · exact hW _ _ h
  · exact hW _ _ h
  · obtain ⟨t₀, hw, hge⟩ := h
    exact ⟨t₀, hW _ _ hw, hge⟩
  · exact hids h
  · exact hids h
  · exact hV _ _ h
  · trivial

theorem Fresh.mono (h : Fresh W V d s) (hW : ∀ u t, W u t → W' u t) (hV : ∀ u t, V u t → V' u t) :
    Fresh W' V' d s where
  status u expiry hu := by
    obtain ⟨t, hw, hle⟩ := h.status u expiry hu
    exact ⟨t, hW u t hw, hle⟩
  auth key snapshot expiry u hkey hact := by
    obtain ⟨t, hw, hle⟩ := h.auth key snapshot expiry u hkey hact
    exact ⟨t, hW u t hw, hle⟩
  phase p := (h.phase p).mono hW hV fun _ hu => hu
  ids := h.ids

theorem Fresh.setPhase (h : Fresh W V d s) (p : Nat) (hph : Recent W V d s.ids ph) :
    Fresh W V d (s.setPhase p ph) where
  status := h.status
  auth := h.auth
  phase q := by
    by_cases hq : q = p
    · subst hq
      simpa only [State.setPhase, Function.update_self] using hph
    · simpa only [State.setPhase, Function.update_of_ne hq] using h.phase q
  ids := h.ids

/-! ### What a request may do -/

theorem recent_fill :
    Recent W V d ids (.fill surface u status t auth statusLeft) ↔ (status = .active → W u t) := by
  cases status with
  | active => exact ⟨fun h _ => h, fun h => h rfl⟩
  | suspended => exact ⟨fun _ h => (nomatch h), fun _ => trivial⟩
  | withdrawn => exact ⟨fun _ h => (nomatch h), fun _ => trivial⟩

theorem recent_refreshCache :
    Recent W V d ids (.refreshCache u status t) ↔ (status = .active → W u t) := by
  cases status with
  | active => exact ⟨fun h _ => h, fun h => h rfl⟩
  | suspended => exact ⟨fun _ h => (nomatch h), fun _ => trivial⟩
  | withdrawn => exact ⟨fun _ h => (nomatch h), fun _ => trivial⟩

theorem Grounded.reply (h : Grounded W d s p a e) (r : Reply) :
    Grounded W d s p a (e.reply r) := by
  unfold Effect.reply
  split
  · exact h
  · trivial

theorem setUserStatus_recent (hids : ∀ v ∈ s.db.users, v.id ∈ s.ids) (u : Uuid)
    (status : UserStatus) (revoke : Bool) :
    Recent W V d s.ids (setUserStatus s u status revoke) := by
  unfold setUserStatus
  split
  · trivial
  · rename_i user hfind
    split
    · trivial
    · have hfound := List.find?_some hfind
      have hid := hids user (List.mem_of_find?_eq_some hfind)
      rwa [beq_iff_eq.mp hfound] at hid

theorem withdrawFind_recent (hids : ∀ v ∈ s.db.users, v.id ∈ s.ids) (u : Uuid) :
    Recent W V d s.ids (withdrawFind s u) := by
  unfold withdrawFind
  split
  · trivial
  · rename_i user hfind
    have hid := hids user (List.mem_of_find?_eq_some hfind)
    have hfound := List.find?_some hfind
    simp only [Bool.and_eq_true, beq_iff_eq] at hfound
    rwa [hfound.1] at hid

theorem sendCheck_recent (hV : V u s.now) (roomCache : List (Uuid × Uuid))
    (payload : Backend.ChatService.ChatMessageSend) :
    Recent W V d s.ids (sendCheck s u roomCache payload) := by
  unfold sendCheck
  split
  · trivial
  · exact hV

theorem resolveAccessTokenUser_recent (s : State R) (surface : Surface)
    (token : Access.AccessToken) : Recent W V d ids (resolveAccessTokenUser s surface token) := by
  unfold resolveAccessTokenUser
  split <;> trivial

theorem ensureJtiNotBlacklisted_recent (c : Config) (s : State R) (surface : Surface)
    (token : Access.AccessToken) (r : Reply) :
    Recent W V d ids (ensureJtiNotBlacklisted c s surface token r) := by
  unfold ensureJtiNotBlacklisted
  split
  · trivial
  · split <;> trivial

omit [Field R] [LinearOrder R] in
theorem start_eq {next ph₀ : Phase R} (h : (start next ph₀).map (q, ·) = some (p, e, ph)) :
    e = .none ∧ ph = next := by
  cases ph₀ with
  | idle =>
    cases h
    exact ⟨rfl, rfl⟩
  | _ => cases h

theorem connect_recent (h : connect registered ph₀ = some ph) : Recent W V d ids ph := by
  unfold connect at h
  split at h
  · cases h
    split <;> trivial
  · cases h

theorem frame_recent (h : frame gate parsed ph₀ = some ph) : Recent W V d ids ph := by
  unfold frame at h
  split at h
  · split at h <;> cases h <;> trivial
  · cases h

theorem store_fresh (h : store s roomId messageId r stamp (s.phase p) = some (e, ph)) :
    Grounded W d s p (.store p roomId messageId r stamp) e ∧ Recent W V d ids ph := by
  unfold store at h
  split at h
  · rename_i u roomCache payload t hs
    dsimp only at h
    split at h
    · cases h
      exact ⟨trivial, trivial⟩
    · rename_i id e' hstore
      cases h
      obtain ⟨rooms, m, rfl, rfl⟩ := storeMessage_effect hstore
      refine ⟨Grounded.reply ?_ r, trivial⟩
      exact ⟨_, _, _, _, _, _, _, rfl, hs⟩
  · cases h

section Reads

variable (hW : ∀ u, Active s.db u → W u s.now)
include hW

theorem login_recent (c : Config) (data : Schema.LoginBody) (token : String) :
    Recent W V d ids (login c s data token) := by
  unfold login
  split
  · trivial
  · rename_i user hok
    split
    · exact hW _ (active_of_loginBlock hok)
    · trivial

theorem findUser_recent (surface : Surface) (u : Uuid) :
    Recent W V d ids (findUser s surface u) := by
  unfold findUser
  split
  · trivial
  · rename_i user hfind
    exact recent_fill.mpr fun hs => hW u (active_of_getUserById hfind hs)

theorem refreshDb_recent (u : Uuid) : Recent W V d ids (refreshDb s u) := by
  unfold refreshDb
  split
  · trivial
  · rename_i user hfind
    exact recent_refreshCache.mpr fun hs => hW u (active_of_getUserById hfind hs)

end Reads

variable [IsStrictOrderedRing R]

theorem expiry_le {t now : R} (h : now ≤ t + d) :
    now + (userStatusCacheTtlSeconds : R) ≤ t + d + 240 := by
  have httl : ((userStatusCacheTtlSeconds : Nat) : R) = 240 := by
    norm_num [userStatusCacheTtlSeconds]
  rw [httl]
  linarith

theorem Fresh.apply (h : Fresh W V d s) (hg : Grounded W d s p a e) : Fresh W V d (s.apply c e) := by
  have hids : ∀ v ∈ (s.apply c e).db.users, v.id ∈ s.ids := by
    intro v hv
    obtain ⟨w, hw, hid⟩ := apply_users_id hv
    exact hid ▸ h.ids w hw
  cases e with
  | none => exact h
  | cacheStatus u status =>
    refine ⟨fun v expiry hv => ?_, h.auth, h.phase, hids⟩
    simp only [State.apply] at hv
    rcases TimedKeyValue.setEx_eq_some hv with ⟨hkey, hx⟩ | hold
    · obtain ⟨hval, rfl⟩ := Prod.mk.inj hx
      obtain ⟨t, hw, hle⟩ := hg (UserStatus.value_active hval.symm)
      exact ⟨t, userStatusCacheKey_injective hkey ▸ hw, expiry_le hle⟩
    · exact h.status v expiry hold
  | cacheAuth u snapshot =>
    refine ⟨h.status, fun key sn expiry v hv hact => ?_, h.phase, hids⟩
    simp only [State.apply] at hv
    rcases TimedKeyValue.setEx_eq_some hv with ⟨-, hx⟩ | hold
    · obtain ⟨rfl, rfl⟩ := Prod.mk.inj hx
      obtain ⟨t, hw, hle⟩ := hg v hact
      exact ⟨t, hw, expiry_le hle⟩
    · exact h.auth key sn expiry v hold hact
  | storeRefresh u token =>
    refine ⟨fun v expiry hv => ?_, h.auth, h.phase, hids⟩
    simp only [State.apply] at hv
    rcases TimedKeyValue.setEx_eq_some hv with ⟨hkey, -⟩ | hold
    · exact absurd hkey.symm (userRefreshKey_ne_status u v)
    · exact h.status v expiry hold
  | deleteRefresh u =>
    refine ⟨fun v expiry hv => ?_, h.auth, h.phase, hids⟩
    simp only [State.apply] at hv
    exact h.status v expiry (TimedKeyValue.del_eq_some hv)
  | invalidate u =>
    refine ⟨fun v expiry hv => ?_, fun key sn expiry v hv => ?_, h.phase, hids⟩
    · simp only [State.apply] at hv
      exact h.status v expiry (TimedKeyValue.del_eq_some hv)
    · simp only [State.apply] at hv
      exact h.auth key sn expiry v (TimedKeyValue.del_eq_some hv)
  | setStatus u status stamp => exact ⟨h.status, h.auth, h.phase, hids⟩
  | withdraw u stamp => exact ⟨h.status, h.auth, h.phase, hids⟩
  | message rooms m => exact ⟨h.status, h.auth, h.phase, hids⟩

theorem recent_of_expiry {t expiry now : R} (hw : W u t) (hle : ∀ u t, W u t → t ≤ now)
    (hexp : expiry ≤ t + d + 240) (hread : now ≤ expiry) : Recent W V d ids (.passed check u now) :=
  ⟨t, hw, by linarith, hle u t hw⟩

theorem recent_of_read {t now : R} (hw : W u t) (hle : ∀ u t, W u t → t ≤ now)
    (hread : now ≤ t + d) : Recent W V d ids (.passed check u now) :=
  ⟨t, hw, by linarith, hle u t hw⟩

section Cached

variable (hle : ∀ u t, W u t → t ≤ s.now)
include hle

theorem readAuthCache_recent (h : Fresh W V d s) (surface : Surface) (u : Uuid) (r : Reply) :
    Recent W V d ids (readAuthCache s surface u r) := by
  unfold readAuthCache
  split
  · trivial
  · rename_i snapshot hread
    split
    · rename_i hact
      split
      · rename_i user huser
        cases hr : r.failed with
        | true =>
          rw [hr] at hread
          cases hread
        | false =>
          rw [hr] at hread
          obtain ⟨expiry, hkey, hexp⟩ := TimedKeyValue.read_eq_some hread
          obtain ⟨t, hw, hlt⟩ := h.auth _ snapshot expiry user hkey ⟨hact, huser⟩
          exact recent_of_expiry hw hle hlt hexp
      · trivial
    · trivial

theorem refreshStatus_recent (h : Fresh W V d s) (u : Uuid) (r : Reply) :
    Recent W V d ids (refreshStatus s u r) := by
  unfold refreshStatus
  split
  · trivial
  · rename_i status hread
    split
    · rename_i hact
      subst hact
      cases hr : r.failed with
      | true =>
        rw [hr] at hread
        cases hread
      | false =>
        rw [hr] at hread
        obtain ⟨expiry, hkey, hexp⟩ := TimedKeyValue.read_eq_some hread
        obtain ⟨t, hw, hlt⟩ := h.status u expiry hkey
        exact recent_of_expiry hw hle hlt hexp
    · trivial

theorem filled_recent (hact : status = .active → W u readAt) (hread : s.now ≤ readAt + d) :
    Recent W V d ids (filled s surface u status readAt auth statusLeft) := by
  unfold filled
  split
  · exact recent_fill.mpr hact
  · split
    · rename_i hs
      exact recent_of_read (hact hs) hle hread
    · trivial

theorem refreshed_recent (hact : status = .active → W u readAt) (hread : s.now ≤ readAt + d) :
    Recent W V d ids (refreshed s u status) := by
  unfold refreshed
  split
  · rename_i hs
    exact recent_of_read (hact hs) hle hread
  · trivial

theorem fill_fresh (hph : Recent W V d s.ids (s.phase p)) (hp : Prompt d s (.fill p slot r))
    (hf : fill c s r (s.phase p) slot = some (e, ph)) :
    Grounded W d s p a e ∧ Recent W V d s.ids ph := by
  simp only [Prompt] at hp
  cases hs : s.phase p with
  | fill surface u status readAt auth statusLeft =>
    rw [hs] at hp hph hf
    have hact := recent_fill.mp hph
    cases slot with
    | auth =>
      cases auth with
      | false => cases statusLeft <;> cases hf
      | true =>
        cases hf
        refine ⟨Grounded.reply (fun v hv => ?_) r, filled_recent hle hact hp⟩
        obtain ⟨hstatus, huser⟩ := hv
        have hv : v = u := by
          split at huser
          · exact (Option.some.inj huser).symm
          · cases huser
        exact ⟨readAt, hv ▸ hact (UserStatus.value_active hstatus), hp⟩
    | status =>
      cases statusLeft with
      | false => cases auth <;> cases hf
      | true =>
        have he : some ((Effect.cacheStatus u status).reply r,
            filled s surface u status readAt auth false) = some (e, ph) := by
          cases auth <;> exact hf
        cases he
        exact ⟨Grounded.reply (fun h => ⟨readAt, hact h, hp⟩) r, filled_recent hle hact hp⟩
  | _ =>
    rw [hs] at hf
    cases hf

end Cached

section Move

variable (h : Fresh W V d s) (hW : ∀ u, Active s.db u → W u s.now) (hle : ∀ u t, W u t → t ≤ s.now)
include h hW hle

theorem run_fresh (hp : Prompt d s (.run p r stamp)) (hv : Checked V s (.run p r stamp))
    (hrun : run c s r stamp (s.phase p) = some (e, ph)) :
    Grounded W d s p a e ∧ Recent W V d s.ids ph := by
  have hph := h.phase p
  simp only [Prompt] at hp
  simp only [Checked] at hv
  cases hs : s.phase p with
  | loginStore u token readAt =>
    rw [hs] at hph hrun
    cases hrun
    refine ⟨Grounded.reply (by trivial) r, ?_⟩
    split
    · trivial
    · exact hph
  | loginStatus u readAt =>
    rw [hs] at hph hp hrun
    cases hrun
    exact ⟨Grounded.reply (fun _ => ⟨readAt, hph, hp⟩) r, trivial⟩
  | blacklist surface token =>
    rw [hs] at hrun
    cases hrun
    exact ⟨trivial, ensureJtiNotBlacklisted_recent c s surface token r⟩
  | authCache surface u =>
    rw [hs] at hrun
    cases hrun
    exact ⟨trivial, readAuthCache_recent hle h surface u r⟩
  | findUser surface u =>
    rw [hs] at hrun
    cases hrun
    exact ⟨trivial, findUser_recent hW surface u⟩
  | refreshStatus u =>
    rw [hs] at hrun
    cases hrun
    exact ⟨trivial, refreshStatus_recent hle h u r⟩
  | refreshDb u =>
    rw [hs] at hrun
    cases hrun
    exact ⟨trivial, refreshDb_recent hW u⟩
  | refreshCache u status readAt =>
    rw [hs] at hph hp hrun
    cases hrun
    have hact := recent_refreshCache.mp hph
    exact ⟨Grounded.reply (fun h => ⟨readAt, hact h, hp⟩) r, refreshed_recent hle hact hp⟩
  | statusUpdate u status revoke =>
    rw [hs] at hrun
    cases hrun
    refine ⟨⟨revoke, hs⟩, ?_⟩
    split <;> trivial
  | revokeRefresh u =>
    rw [hs] at hrun
    cases hrun
    refine ⟨Grounded.reply (by trivial) r, ?_⟩
    unfold revoked
    split <;> trivial
  | withdrawRevoke u =>
    rw [hs] at hrun
    cases hrun
    refine ⟨Grounded.reply (by trivial) r, ?_⟩
    unfold revoked
    split <;> trivial
  | withdrawFind u =>
    rw [hs] at hrun
    cases hrun
    exact ⟨trivial, withdrawFind_recent h.ids u⟩
  | withdrawDelete u =>
    rw [hs] at hrun
    cases hrun
    refine ⟨hs, ?_⟩
    unfold withdrawn
    split <;> trivial
  | invalidate u =>
    rw [hs] at hrun
    cases hrun
    exact ⟨Grounded.reply (by trivial) r, trivial⟩
  | sendCheck u roomCache payload =>
    rw [hs] at hv hrun
    cases hrun
    exact ⟨trivial, sendCheck_recent hv roomCache payload⟩
  | _ =>
    rw [hs] at hrun
    cases hrun

theorem move_fresh (hp : Prompt d s a) (hv : Checked V s a)
    (hm : move c s a = some (p, e, ph)) :
    Grounded W d s p a e ∧ Recent W V d s.ids ph := by
  cases a with
  | tick _ => cases hm
  | environment _ => cases hm
  | evict _ => cases hm
  | login q data token =>
    obtain ⟨rfl, rfl⟩ := start_eq hm
    exact ⟨trivial, login_recent hW c data token⟩
  | resolve q surface token =>
    obtain ⟨rfl, rfl⟩ := start_eq hm
    exact ⟨trivial, resolveAccessTokenUser_recent s surface token⟩
  | refresh q u =>
    obtain ⟨rfl, rfl⟩ := start_eq hm
    exact ⟨trivial, trivial⟩
  | suspendUser q u =>
    obtain ⟨rfl, rfl⟩ := start_eq hm
    exact ⟨trivial, setUserStatus_recent h.ids u .suspended true⟩
  | activateUser q u =>
    obtain ⟨rfl, rfl⟩ := start_eq hm
    exact ⟨trivial, setUserStatus_recent h.ids u .active false⟩
  | deleteMe q u =>
    obtain ⟨rfl, rfl⟩ := start_eq hm
    exact ⟨trivial, trivial⟩
  | run q r stamp =>
    obtain ⟨m, hrun, he⟩ := Option.map_eq_some_iff.mp hm
    cases he
    exact run_fresh h hW hle hp hv hrun
  | fill q slot r =>
    obtain ⟨m, hfill, he⟩ := Option.map_eq_some_iff.mp hm
    cases he
    exact fill_fresh hle (h.phase p) hp hfill
  | connect q registered =>
    obtain ⟨m, hconnect, he⟩ := Option.map_eq_some_iff.mp hm
    cases he
    exact ⟨trivial, connect_recent hconnect⟩
  | frame q gate parsed =>
    obtain ⟨m, hframe, he⟩ := Option.map_eq_some_iff.mp hm
    cases he
    exact ⟨trivial, frame_recent hframe⟩
  | store q roomId messageId r stamp =>
    obtain ⟨m, hstore, he⟩ := Option.map_eq_some_iff.mp hm
    cases he
    exact store_fresh hstore
  | disconnect q =>
    simp only [move] at hm
    split at hm
    · cases hm
      exact ⟨trivial, trivial⟩
    · cases hm
  | abort q =>
    simp only [move] at hm
    split at hm
    · cases hm
    · cases hm
    · cases hm
      exact ⟨trivial, trivial⟩

theorem Fresh.step (hp : Prompt d s a) (hv : Checked V s a) (hs : step c s a = some t) :
    Fresh W V d t := by
  rcases step_cases hs with ⟨e, -, -, rfl⟩ | ⟨db, -, -, rfl⟩ | ⟨key, -, rfl⟩ | ⟨p, e, ph, hm, rfl⟩
  · exact ⟨h.status, h.auth, h.phase, h.ids⟩
  · refine ⟨h.status, h.auth, fun p => ?_, fun v hu => ?_⟩
    · exact (h.phase p).mono (fun _ _ => id) (fun _ _ => id) (List.subset_append_left ..)
    · exact List.mem_append_right _ (List.mem_map_of_mem hu)
  · exact ⟨fun v expiry hv => h.status v expiry (TimedKeyValue.del_eq_some hv),
      fun k sn expiry v hv => h.auth k sn expiry v (TimedKeyValue.del_eq_some hv), h.phase, h.ids⟩
  · obtain ⟨hg, hph⟩ := move_fresh h hW hle hp hv hm
    refine (h.apply hg).setPhase p ?_
    rwa [apply_ids]

end Move

/-! ### Runs -/

variable {c : Config} {db : Store}

def ActiveAt (c : Config) (db : Store) (as : List (Label R)) (u : Uuid) (t : R) : Prop :=
  ∃ bs r, bs <+: as ∧ exec (step c) (.init db) bs = some r ∧ r.now = t ∧ Active r.db u

omit [IsStrictOrderedRing R] in
theorem ActiveAt.append (h : ActiveAt c db as u t) (bs : List (Label R)) :
    ActiveAt c db (as ++ bs) u t := by
  obtain ⟨cs, r, hcs, hr, hnow, hact⟩ := h
  exact ⟨cs, r, hcs.trans (List.prefix_append as bs), hr, hnow, hact⟩

omit [IsStrictOrderedRing R] in
theorem ActiveAt.now (hrun : exec (step c) (.init db) as = some s) (hu : Active s.db u) :
    ActiveAt c db as u s.now := ⟨as, s, List.prefix_rfl, hrun, rfl, hu⟩

theorem ActiveAt.le (h : ActiveAt c db as u t) (hrun : exec (step c) (.init db) as = some s) :
    t ≤ s.now := by
  obtain ⟨bs, r, ⟨cs, rfl⟩, hr, rfl, -⟩ := h
  rw [exec_append, hr] at hrun
  exact exec_now hrun

theorem fresh_run (V : List (Label R) → Uuid → R → Prop)
    (hmono : ∀ as a u t, V as u t → V (as ++ [a]) u t)
    (hV : ∀ bs cs a r, as = bs ++ a :: cs → exec (step c) (.init db) bs = some r →
      Checked (V bs) r a)
    (hrun : exec (step c) (.init db) as = some s)
    (hd : Along (step c) (Prompt d) (.init db) as) : Fresh (ActiveAt c db as) (V as) d s := by
  induction as using List.reverseRecOn generalizing s with
  | nil =>
    cases hrun
    exact ⟨fun _ _ h => (nomatch h), fun _ _ _ _ h => (nomatch h), fun _ => trivial,
      fun v hv => List.mem_map_of_mem hv⟩
  | append_singleton as a ih =>
    rw [exec_append] at hrun
    obtain ⟨r, hr, hlast⟩ := Option.bind_eq_some_iff.mp hrun
    obtain ⟨s', hs, he⟩ := exec_cons_some hlast
    cases he
    have hfresh : Fresh (ActiveAt c db as) (V as) d r := by
      refine ih (fun bs cs b q hbs hq => hV bs (cs ++ [a]) b q ?_ hq) hr hd.left
      rw [hbs, List.append_assoc]
      rfl
    have hnext := hfresh.step (fun u hu => .now hr hu) (fun u t ht => ht.le hr) (hd.next hr)
      (hV as [] a r rfl hr) hs
    exact hnext.mono (fun u t ht => ht.append [a]) fun u t ht => hmono as a u t ht

/-- Bounded staleness of the account status: whoever passes a check was active at a moment of the
run that lies at most the lifetime of the caches and the delay of a write back. -/
theorem passed_recently_active (hrun : exec (step c) (.init db) as = some s)
    (hd : Along (step c) (Prompt d) (.init db) as) (hp : s.phase p = .passed check u t) :
    ∃ bs r, bs <+: as ∧ exec (step c) (.init db) bs = some r ∧
      t - 240 - d ≤ r.now ∧ r.now ≤ t ∧ Active r.db u := by
  have hph := (fresh_run (fun _ _ _ => True) (fun _ _ _ _ _ => trivial)
    (fun _ _ _ _ _ _ => Checked.trivial) hrun hd).phase p
  rw [hp] at hph
  obtain ⟨t₀, ⟨bs, r, hbs, hr, rfl, hact⟩, hge, hle⟩ := hph
  exact ⟨bs, r, hbs, hr, hge, hle, hact⟩

/-- A request whose snapshot is not cached: Redis answers no `GET`, and the second write comes two
seconds after the read. -/
def Sample.missRun : List (Label ℚ) :=
  [.resolve 0 .http Access.sampleToken, .run 0 .raised 0, .run 0 .raised 0, .run 0 .ok 0,
   .fill 0 .auth .ok, .tick 2, .fill 0 .status .ok]

theorem passed_recently_active_missRun :
    ∃ s, exec (step Sample.config) Sample.start Sample.missRun = some s ∧
      s.phase 0 = .passed (.access .http) 1 2 ∧
      ∃ bs r, bs <+: Sample.missRun ∧ exec (step Sample.config) Sample.start bs = some r ∧
        (2 : ℚ) - 240 - 2 ≤ r.now ∧ r.now ≤ 2 ∧ Active r.db 1 := by
  have hrun : ∃ s, exec (step Sample.config) Sample.start Sample.missRun = some s ∧
      s.phase 0 = .passed (.access .http) 1 (0 + 2) := ⟨_, rfl, rfl⟩
  obtain ⟨s, hs, hp⟩ := hrun
  rw [zero_add] at hp
  have hd : Along (step Sample.config) (Prompt 2) Sample.start Sample.missRun :=
    .cons trivial rfl <| .cons trivial rfl <| .cons trivial rfl <| .cons trivial rfl <|
      .cons (show (0 : ℚ) ≤ 0 + 2 by norm_num) rfl <| .cons trivial rfl <|
      .cons (show (0 : ℚ) + 2 ≤ 0 + 2 from le_rfl) rfl trivial
  exact ⟨s, hs, hp, passed_recently_active hs hd hp⟩

end PuppyTalk.AccountAccess
