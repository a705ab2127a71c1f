import PuppyTalk.Password
import PuppyTalk.PublicIds

namespace PuppyTalk

theorem HexChar.ne_underscore (h : HexChar c) : c ≠ '_' := by
  obtain ⟨n, hn, rfl⟩ := h
  revert n
  decide

namespace UsersRepository

section Text

theorem split_last {a a' b b' : List Char} (hb : x ∉ b) (hb' : x ∉ b')
    (h : a ++ x :: b = a' ++ x :: b') : a = a' ∧ b = b' := by
  have hplain : ∀ {l : List Char}, x ∉ l → ∀ c ∈ l.reverse, (c != x) = true := by
    intro l hl c hc
    exact bne_iff_ne.mpr fun he => hl (he ▸ List.mem_reverse.mp hc)
  have hcut : ∀ {a l : List Char}, x ∉ l →
      (a ++ x :: l).reverse.takeWhile (· != x) = l.reverse := by
    intro a l hl
    rw [List.reverse_append, List.reverse_cons, List.append_assoc,
      List.takeWhile_append_of_pos (hplain hl), List.singleton_append,
      List.takeWhile_cons_of_neg (by simp), List.append_nil]
  have he : b = b' := by
    have hrev := congrArg (fun l => l.reverse.takeWhile (· != x)) h
    simp only [hcut hb, hcut hb'] at hrev
    exact List.reverse_injective hrev
  subst he
  exact ⟨List.append_cancel_right h, rfl⟩

theorem int_text (i : Int) :
    (toString i).toList = (if i < 0 then ['-'] else []) ++ Nat.toDigits 10 i.natAbs := by
  cases i with
  | ofNat n => exact Nat.toList_repr
  | negSucc n =>
    show ("-" ++ Nat.repr (n + 1)).toList = _
    rw [String.toList_append, Nat.toList_repr, if_pos (Int.negSucc_lt_zero n)]
    rfl

theorem int_text_mem (i : Int) : '_' ∉ (toString i).toList := by
  rw [int_text, List.mem_append, not_or]
  constructor
  · split <;> decide
  · intro h
    exact absurd (Nat.isDigit_of_mem_toDigits (by decide) (by decide) h) (by decide)

theorem int_text_length {i : Int} (h : i.natAbs < 10 ^ k) (hk : 0 < k) :
    (toString i).toList.length ≤ k + 1 := by
  have hdigits : (Nat.toDigits 10 i.natAbs).length ≤ k :=
    (Nat.length_toDigits_le_iff (by decide) hk).mpr h
  have hsign : (if i < 0 then ['-'] else []).length ≤ 1 := by split <;> decide
  rw [int_text, List.length_append]
  omega

theorem uuid_text_mem (u : Uuid) : '_' ∉ u.text.toList := by
  intro h
  rcases u.text_mem _ h with h | h
  · exact h.ne_underscore rfl
  · exact absurd h (by decide)

theorem uuid_text_length (hu : u < 2 ^ 128) : (Uuid.text u).toList.length = 36 := by
  have hlen := Uuid.hex_length_eq hu
  simp only [Uuid.text_toList, List.length_append, List.length_cons, List.length_take,
    List.length_drop, hlen]
  rfl

end Text

section Mask

/-- The values of `datetime`, from the year 1 to the year 9999. -/
def IsDatetime (t : Timestamp) : Prop := -62135596800000000 ≤ t ∧ t < 253402300800000000

instance (t : Timestamp) : Decidable (IsDatetime t) :=
  inferInstanceAs (Decidable (_ ∧ _))

theorem deletedAtSuffix_toList (u : Uuid) (t : Timestamp) :
    (deletedAtSuffix u t).toList =
      "_deleted".toList ++ '_' :: (u.text.toList ++ '_' :: (toString (t.tdiv 1000000)).toList) := by
  simp [deletedAtSuffix, toString, String.toList_append]

theorem deletedAtSuffix_length (hu : u < 2 ^ 128) (ht : IsDatetime t) :
    (deletedAtSuffix u t).toList.length ≤ 255 := by
  have hseconds : (t.tdiv 1000000).natAbs < 10 ^ 12 := by
    have hbound : ∀ i : Int, -62135596800000000 ≤ i ∧ i < 253402300800000000 →
        (i.tdiv 1000000).natAbs < 10 ^ 12 := by
      intro i hi
      have habs : (i.tdiv 1000000).natAbs = i.natAbs / 1000000 := Int.natAbs_tdiv i 1000000
      omega
    exact hbound t ht
  have htext := int_text_length hseconds (by decide)
  have hid := uuid_text_length hu
  rw [deletedAtSuffix_toList]
  simp only [List.length_append, List.length_cons, hid]
  have hword : "_deleted".toList.length = 8 := by decide
  omega

theorem maskForWithdrawal_toList (value : String) {suffix : String}
    (h : suffix.toList.length ≤ 255) :
    (maskForWithdrawal value suffix).toList =
      value.toList.take (255 - suffix.toList.length) ++ suffix.toList := by
  have hlen : suffix.length = suffix.toList.length := String.length_toList.symm
  rw [maskForWithdrawal, String.toList_ofList, hlen, deletedAtMaxLen]
  apply List.take_of_length_le
  rw [List.length_append, List.length_take]
  omega

variable {u v : Uuid} {t t' : Timestamp}

theorem mask_toList (value : String) (hu : u < 2 ^ 128) (ht : IsDatetime t) :
    ∃ base, (maskForWithdrawal value (deletedAtSuffix u t)).toList =
      (base ++ "_deleted".toList) ++ '_' ::
        (u.text.toList ++ '_' :: (toString (t.tdiv 1000000)).toList) := by
  refine ⟨value.toList.take (255 - (deletedAtSuffix u t).toList.length), ?_⟩
  rw [maskForWithdrawal_toList value (deletedAtSuffix_length hu ht), deletedAtSuffix_toList,
    List.append_assoc]

theorem mask_length (value : String) (hu : u < 2 ^ 128) (ht : IsDatetime t) :
    (maskForWithdrawal value (deletedAtSuffix u t)).toList.length ≤ 255 := by
  have hsuffix := deletedAtSuffix_length hu ht
  rw [maskForWithdrawal_toList value hsuffix, List.length_append, List.length_take]
  omega

theorem mask_suffix (value : String) (hu : u < 2 ^ 128) (ht : IsDatetime t) :
    (deletedAtSuffix u t).toList <:+
      (maskForWithdrawal value (deletedAtSuffix u t)).toList := by
  rw [maskForWithdrawal_toList value (deletedAtSuffix_length hu ht)]
  exact List.suffix_append _ _

theorem mask_injective (hu : u < 2 ^ 128) (ht : IsDatetime t) (hv : v < 2 ^ 128)
    (ht' : IsDatetime t')
    (h : maskForWithdrawal value (deletedAtSuffix u t) =
      maskForWithdrawal value' (deletedAtSuffix v t')) : u = v := by
  obtain ⟨base, hbase⟩ := mask_toList value hu ht
  obtain ⟨base', hbase'⟩ := mask_toList value' hv ht'
  have hlist := (hbase.symm.trans (congrArg String.toList h)).trans hbase'
  rw [← List.cons_append, ← List.cons_append, ← List.append_assoc, ← List.append_assoc] at hlist
  obtain ⟨hfront, -⟩ := split_last (int_text_mem _) (int_text_mem _) hlist
  obtain ⟨-, htext⟩ := split_last (uuid_text_mem u) (uuid_text_mem v) hfront
  exact Uuid.text_injective (String.toList_inj.mp htext)

theorem mask_mem (value : String) (hu : u < 2 ^ 128) (ht : IsDatetime t) :
    '_' ∈ (maskForWithdrawal value (deletedAtSuffix u t)).toList := by
  obtain ⟨base, hbase⟩ := mask_toList value hu ht
  rw [hbase]
  exact List.mem_append_right _ List.mem_cons_self

theorem mask_ne (hu : u < 2 ^ 128) (ht : IsDatetime t) (h : value.toList.length < 255) :
    maskForWithdrawal value (deletedAtSuffix u t) ≠ value := by
  intro he
  have hsuffix := deletedAtSuffix_length hu ht
  have hlen := congrArg (fun s => s.toList.length) he
  have hpos : 0 < (deletedAtSuffix u t).toList.length := by
    rw [deletedAtSuffix_toList, List.length_append, List.length_cons]
    omega
  simp only [maskForWithdrawal_toList value hsuffix, List.length_append, List.length_take] at hlen
  omega

end Mask

end UsersRepository

namespace Schema

theorem validateNicknameFormat_mem (h : validateNicknameFormat n = true) : '_' ∉ n.toList := by
  intro hmem
  have hall := List.all_eq_true.mp (Bool.and_eq_true_iff.mp h).2 '_' hmem
  exact absurd hall (by decide)

theorem ensureNicknameFormat_ok (h : ensureNicknameFormat v = .ok n) :
    validateNicknameFormat n = true := by
  unfold ensureNicknameFormat at h
  split at h
  next hv =>
    cases h
    exact hv
  next => cases h

theorem signUpRequest_names (h : signUpRequest emailStr body = .ok data) :
    emailStr body.email = some data.email ∧ validateNicknameFormat data.nickname = true := by
  simp only [signUpRequest, bind_eq_ok, emailField_eq_ok, lengthField_eq_ok] at h
  obtain ⟨email, hemail, _, -, _, ⟨-, -⟩, nickname, hnick, _, ⟨-, rfl⟩, h⟩ := h
  split at h
  · cases h
  · cases h
    exact ⟨hemail, ensureNicknameFormat_ok hnick⟩

theorem validateNicknameFormat_length (h : validateNicknameFormat n = true) :
    n.toList.length ≤ 10 :=
  of_decide_eq_true (Bool.and_eq_true_iff.mp (Bool.and_eq_true_iff.mp h).1).2

end Schema

namespace Registration

open Table UsersRepository
open ImageLifecycle (Settings State SignUpRequest)

inductive Op where
  | signup (userId : Uuid) (body : Schema.SignUpBody) (hashedPassword : String)
  | withdraw (userId : Uuid)
  deriving DecidableEq, Repr

/-- `delete_user` under the unique constraints of the table. -/
def withdraw (db : Db) (userId : Uuid) (now : Timestamp) : Except ApiException Unit × Db :=
  let r := UserService.deleteUser db userId now
  if Keyed User.email r.2.users ∧ Keyed User.nickname r.2.users then r
  else (.error .integrityError, db)

def accepted (body : Schema.SignUpBody) (hashedPassword : String) : SignUpRequest where
  email := body.email
  hashedPassword := hashedPassword
  nickname := body.nickname
  profileImageId := body.profileImageId
  signupToken := body.signupToken

def step (c : Settings) (emailStr : Schema.EmailStr) (s : State) (a : Op × Timestamp) :
    Option State :=
  match a.1 with
  | .signup userId body hashedPassword =>
    if userId < 2 ^ 128 ∧ (s.db.users.all fun u => u.id != userId) = true then
      match Schema.signUpRequest emailStr body with
      | .error _ => some s
      | .ok body =>
        some (ImageLifecycle.signup c { s with now := a.2 } userId
          (accepted body hashedPassword)).2
    else none
  | .withdraw userId =>
    if IsDatetime a.2 then some { s with db := (withdraw s.db userId a.2).2 } else none

structure Registry (users : List User) : Prop where
  ids : Keyed User.id users
  uuids : ∀ u ∈ users, u.id < 2 ^ 128
  emails : Keyed User.email users
  nicknames : Keyed User.nickname users
  live : ∀ u ∈ users, u.deletedAt = none →
    Schema.validateNicknameFormat u.nickname = true ∧ u.email.toList.length < 255
  masked : ∀ u ∈ users, u.deletedAt ≠ none →
    ∃ value t, IsDatetime t ∧ u.nickname = maskForWithdrawal value (deletedAtSuffix u.id t)

theorem Registry.nil : Registry [] where
  ids := keyed_nil _
  uuids := nofun
  emails := keyed_nil _
  nicknames := keyed_nil _
  live := nofun
  masked := nofun

structure Adds (users users' : List User) (u : User) : Prop where
  append : users' = users ++ [u]
  live : u.deletedAt = none
  email : ∀ v ∈ users, v.email ≠ u.email
  nickname : ∀ v ∈ users, v.nickname ≠ u.nickname

section Signup

variable {c : Settings} {db db' : Db} {s : State} {userId : Uuid} {data : SignUpRequest}

theorem createUser_adds
    (h : createUser lower db userId email hashed nickname image now = .ok db') :
    ∃ u, Adds db.users db'.users u ∧ u.id = userId ∧ u.email = lower email ∧
      u.nickname = nickname := by
  simp only [createUser] at h
  split at h
  · cases h
  rename_i hemail
  split at h
  · cases h
  rename_i hnickname
  split at h
  · cases h
    refine ⟨_, ⟨rfl, rfl, ?_, ?_⟩, rfl, rfl, rfl⟩
    · simpa using hemail
    · simpa using hnickname
  · cases h

theorem signupBlock_adds
    (h : ImageLifecycle.signupBlock c db userId data image now = .ok ((), db')) :
    ∃ u, Adds db.users db'.users u ∧ u.id = userId ∧ u.email = c.lower data.email ∧
      u.nickname = data.nickname := by
  simp only [ImageLifecycle.signupBlock] at h
  split at h
  · cases h
  rename_i db₁ hcreate
  have hadds := createUser_adds hcreate
  split at h
  · cases h
    exact hadds
  split at h
  · cases h
  · rename_i db₂ hclaim
    cases h
    simp only [MediaRepository.claimImageOwnership] at hclaim
    obtain ⟨-, rfl⟩ := Prod.mk.inj hclaim
    exact hadds

theorem begin_signupBlock (c : Settings) (db : Db) (userId : Uuid) (data : SignUpRequest)
    (image : Option Uuid) (now : Timestamp) :
    (db.begin fun db => ImageLifecycle.signupBlock c db userId data image now).2.users = db.users ∨
      ∃ u, Adds db.users
          (db.begin fun db => ImageLifecycle.signupBlock c db userId data image now).2.users u ∧
        u.id = userId ∧ u.email = c.lower data.email ∧ u.nickname = data.nickname := by
  cases hb : ImageLifecycle.signupBlock c db userId data image now with
  | error e =>
    rw [Db.begin_error hb]
    exact .inl rfl
  | ok r =>
    rw [Db.begin_ok hb]
    exact .inr (signupBlock_adds hb)

theorem signup_users (c : Settings) (s : State) (userId : Uuid) (data : SignUpRequest) :
    (ImageLifecycle.signup c s userId data).2.db.users = s.db.users ∨
      ∃ u, Adds s.db.users (ImageLifecycle.signup c s userId data).2.db.users u ∧
        u.id = userId ∧ u.email = c.lower data.email ∧ u.nickname = data.nickname := by
  simp only [ImageLifecycle.signup]
  split
  · exact .inl rfl
  split
  · exact .inl rfl
  split
  · exact .inl rfl
  split
  · exact begin_signupBlock c s.db userId data none s.now
  split
  · exact .inl rfl
  split
  · exact .inl rfl
  · exact begin_signupBlock c s.db userId data _ s.now

theorem Registry.adds (hr : Registry users) (h : Adds users users' u) (hu : u.id < 2 ^ 128)
    (hfresh : ∀ v ∈ users, v.id ≠ u.id)
    (hnick : Schema.validateNicknameFormat u.nickname = true)
    (hemail : u.email.toList.length < 255) : Registry users' := by
  obtain ⟨rfl, hlive, hemails, hnicks⟩ := h
  have hmem {P : User → Prop} (hold : ∀ v ∈ users, P v) (hnew : P u) : ∀ v ∈ users ++ [u], P v := by
    intro v hv
    rcases List.mem_append.mp hv with hv | hv
    · exact hold v hv
    · exact List.mem_singleton.mp hv ▸ hnew
  exact {
    ids := hr.ids.append hfresh
    uuids := hmem hr.uuids hu
    emails := hr.emails.append hemails
    nicknames := hr.nicknames.append hnicks
    live := hmem hr.live fun _ => ⟨hnick, hemail⟩
    masked := hmem hr.masked fun hdel => absurd hlive hdel }

end Signup

section Withdraw

variable {db : Db} {userId : Uuid} {now : Timestamp}

def withdrawn (now : Timestamp) (u : User) : User :=
  { u with
    email := maskForWithdrawal u.email (deletedAtSuffix u.id now)
    nickname := maskForWithdrawal u.nickname (deletedAtSuffix u.id now)
    status := .withdrawn
    profileImageId := none
    deletedAt := some now
    updatedAt := now }

theorem withdrawn_id (now : Timestamp) (u : User) : (withdrawn now u).id = u.id := by
  simp only [withdrawn]

theorem deleteUser_cases (hids : Keyed User.id db.users) (userId : Uuid) (now : Timestamp) :
    (∃ e, getUserById db userId = none ∧ UserService.deleteUser db userId now = (.error e, db)) ∨
      (∃ u ∈ db.users, u.id = userId ∧ u.deletedAt = none) ∧
        UserService.deleteUser db userId now = (.ok (), { db with
          users := Table.update (fun u => u.id == userId && u.deletedAt.isNone) (withdrawn now)
            db.users }) := by
  cases hget : getUserById db userId with
  | none =>
    left
    exact ⟨_, rfl, Db.begin_error (by simp only [hget]; rfl)⟩
  | some row =>
    right
    have hmem := List.mem_of_find?_eq_some hget
    have hcond := List.find?_some hget
    simp only [Bool.and_eq_true, beq_iff_eq, Option.isNone_iff_eq_none] at hcond
    refine ⟨⟨row, hmem, hcond⟩, Db.begin_ok ?_⟩
    have hsame : Table.update (fun u => u.id == userId && u.deletedAt.isNone) (fun u => { u with
        email := maskForWithdrawal row.email (deletedAtSuffix userId now)
        nickname := maskForWithdrawal row.nickname (deletedAtSuffix userId now)
        status := .withdrawn
        profileImageId := none
        deletedAt := some now
        updatedAt := now }) db.users =
        Table.update (fun u => u.id == userId && u.deletedAt.isNone) (withdrawn now) db.users := by
      refine List.map_congr_left fun u hu => ?_
      split
      next hc =>
        simp only [Bool.and_eq_true, beq_iff_eq] at hc
        obtain rfl := hids.eq hu hmem (hc.1.trans hcond.1.symm)
        simp only [withdrawn, hcond.1]
      next => rfl
    have hfind : db.users.find? (fun u => u.id == userId && u.deletedAt.isNone) = some row := hget
    simp only [hget, UsersRepository.deleteUser, updateUsers, updateReturning, hfind,
      Option.map_some, Option.isSome_some, hsame]

theorem Registry.masked_ne (hr : Registry users) (hu : u ∈ users) (hv : v ∈ users)
    (hne : v.id ≠ u.id) (hnow : IsDatetime now) : v.nickname ≠ (withdrawn now u).nickname := by
  intro he
  cases hdel : v.deletedAt with
  | none =>
    have hplain := Schema.validateNicknameFormat_mem (hr.live v hv hdel).1
    rw [he] at hplain
    exact hplain (mask_mem u.nickname (hr.uuids u hu) hnow)
  | some d =>
    obtain ⟨value, t, ht, hmask⟩ := hr.masked v hv (by rw [hdel]; nofun)
    exact hne (mask_injective (hr.uuids v hv) ht (hr.uuids u hu) hnow (hmask.symm.trans he))

theorem Registry.withdraw_nicknames (hr : Registry users) (userId : Uuid) (hnow : IsDatetime now) :
    Keyed User.nickname (Table.update (fun u => u.id == userId && u.deletedAt.isNone)
      (withdrawn now) users) := by
  unfold Keyed Table.update
  rw [List.map_map]
  refine List.Nodup.map_on (fun u hu v hv he => ?_) (.of_map _ hr.ids)
  by_contra hne
  have hid : u.id ≠ v.id := fun hid => hne (hr.ids.eq hu hv hid)
  simp only [Function.comp_apply] at he
  split at he
  next hcu =>
    split at he
    next hcv =>
      simp only [Bool.and_eq_true, beq_iff_eq] at hcu hcv
      exact hid (hcu.1.trans hcv.1.symm)
    next => exact hr.masked_ne hu hv hid.symm hnow he.symm
  next =>
    split at he
    next => exact hr.masked_ne hv hu hid hnow he
    next => exact hne (hr.nicknames.eq hu hv he)

theorem deleteUser_nicknames (hr : Registry db.users) (userId : Uuid) (hnow : IsDatetime now) :
    Keyed User.nickname (UserService.deleteUser db userId now).2.users := by
  rcases deleteUser_cases hr.ids userId now with ⟨e, -, he⟩ | ⟨-, hok⟩
  · rw [he]
    exact hr.nicknames
  · rw [hok]
    exact hr.withdraw_nicknames userId hnow

theorem Registry.withdraw (hr : Registry db.users) (userId : Uuid) (hnow : IsDatetime now) :
    Registry (withdraw db userId now).2.users := by
  unfold Registration.withdraw
  dsimp only
  split
  next hunique =>
    rcases deleteUser_cases hr.ids userId now with ⟨e, -, he⟩ | ⟨-, hok⟩
    · rw [he]
      exact hr
    · rw [hok] at hunique ⊢
      -- a row of the new table is an old one or the masked one
      have hmem : ∀ v ∈ Table.update (fun u => u.id == userId && u.deletedAt.isNone)
          (withdrawn now) db.users, ∃ u ∈ db.users, v = u ∨ v = withdrawn now u := by
        intro v hv
        obtain ⟨u, hu, rfl⟩ := mem_update.mp hv
        refine ⟨u, hu, ?_⟩
        split
        · exact .inr rfl
        · exact .inl rfl
      refine {
        ids := hr.ids.update (withdrawn_id now)
        uuids := fun v hv => ?_
        emails := hunique.1
        nicknames := hunique.2
        live := fun v hv hlive => ?_
        masked := fun v hv hdel => ?_ }
      · obtain ⟨u, hu, rfl | rfl⟩ := hmem v hv
        · exact hr.uuids v hu
        · rw [withdrawn_id]
          exact hr.uuids u hu
      · obtain ⟨u, hu, rfl | rfl⟩ := hmem v hv
        · exact hr.live v hu hlive
        · cases hlive
      · obtain ⟨u, hu, rfl | rfl⟩ := hmem v hv
        · exact hr.masked v hu hdel
        · rw [withdrawn_id]
          exact ⟨u.nickname, now, hnow, rfl⟩
  next => exact hr

theorem freed {k : User → String} (hids : Keyed User.id users) (hk : Keyed k users)
    (hu : u ∈ users) (hlive : u.deletedAt = none) (hmask : k (withdrawn now u) ≠ k u) :
    ∀ v ∈ Table.update (fun v => v.id == u.id && v.deletedAt.isNone) (withdrawn now) users,
      k v ≠ k u := by
  intro v hv
  obtain ⟨w, hw, rfl⟩ := mem_update.mp hv
  split
  next hc =>
    simp only [Bool.and_eq_true, beq_iff_eq] at hc
    rw [hids.eq hw hu hc.1]
    exact hmask
  next hc =>
    intro he
    refine hc ?_
    rw [hk.eq hw hu he, hlive]
    simp

theorem withdraw_ok (hids : Keyed User.id db.users)
    (h : withdraw db userId now = (.ok (), db')) :
    db' = { db with
      users := Table.update (fun u => u.id == userId && u.deletedAt.isNone) (withdrawn now)
        db.users } := by
  unfold Registration.withdraw at h
  dsimp only at h
  split at h
  next =>
    rcases deleteUser_cases hids userId now with ⟨e, -, he⟩ | ⟨-, hok⟩
    · rw [he] at h
      cases h
    · rw [hok] at h
      exact (Prod.mk.inj h).2.symm
  next => cases h

theorem signup_free {c : Settings} {s : State} {data : SignUpRequest}
    (himage : data.profileImageId = none) (htoken : data.signupToken = none)
    (hemail : ∀ v ∈ s.db.users, v.email ≠ c.lower data.email)
    (hnickname : ∀ v ∈ s.db.users, v.nickname ≠ data.nickname) :
    (ImageLifecycle.signup c s userId data).1 = .ok () := by
  have hmail : (s.db.users.any fun v => v.email == c.lower data.email) = false := by
    simpa using hemail
  have hnick : (s.db.users.any fun v => v.nickname == data.nickname) = false := by
    simpa using hnickname
  have hmail' : emailExists c.lower s.db data.email = false := by
    simp only [emailExists, List.any_eq_false, Bool.and_eq_true, beq_iff_eq, not_and]
    exact fun v hv he => absurd he (hemail v hv)
  have hnick' : nicknameExists s.db data.nickname = false := by
    simp only [nicknameExists, List.any_eq_false, Bool.and_eq_true, beq_iff_eq, not_and]
    exact fun v hv he => absurd he (hnickname v hv)
  simp only [ImageLifecycle.signup, himage, htoken, hmail', hnick', Option.isSome_none,
    Bool.false_eq_true, false_and, if_false, Option.filter_none]
  obtain ⟨db', hblock⟩ : ∃ db', ImageLifecycle.signupBlock c s.db userId data none s.now =
      .ok ((), db') := by
    simp only [ImageLifecycle.signupBlock, createUser, hmail, hnick, Bool.false_eq_true, if_false,
      Option.all_none, if_true]
    exact ⟨_, rfl⟩
  rw [Db.begin_ok hblock]

theorem Registry.signup_again (hr : Registry db.users) (hu : u ∈ db.users)
    (hlive : u.deletedAt = none) (hnow : IsDatetime now)
    (hw : Registration.withdraw db u.id now = (.ok (), db')) {c : Settings} {s : State}
    {data : SignUpRequest} (hs : s.db = db') (himage : data.profileImageId = none)
    (htoken : data.signupToken = none) (hemail : c.lower data.email = u.email)
    (hnickname : data.nickname = u.nickname) :
    (ImageLifecycle.signup c s userId data).1 = .ok () := by
  have hid := hr.uuids u hu
  obtain ⟨hnick, hmail⟩ := hr.live u hu hlive
  have hshort := (Schema.validateNicknameFormat_length hnick).trans_lt (by decide : 10 < 255)
  rw [withdraw_ok hr.ids hw] at hs
  apply signup_free himage htoken
  · rw [hs, hemail]
    have hne : (withdrawn now u).email ≠ u.email := mask_ne hid hnow hmail
    exact freed hr.ids hr.emails hu hlive hne
  · rw [hs, hnickname]
    have hne : (withdrawn now u).nickname ≠ u.nickname := mask_ne hid hnow hshort
    exact freed hr.ids hr.nicknames hu hlive hne

end Withdraw

section Runs

variable {c : Settings} {emailStr : Schema.EmailStr} {s t : State}

theorem Registry.step (hemail : ∀ v e, emailStr v = some e → (c.lower e).toList.length < 255)
    (hr : Registry s.db.users) (h : step c emailStr s a = some t) : Registry t.db.users := by
  obtain ⟨op, now⟩ := a
  cases op with
  | signup userId body hashed =>
    simp only [Registration.step] at h
    split at h
    next hnew =>
      split at h
      next =>
        cases h
        exact hr
      next data hdata =>
        cases h
        obtain ⟨hmail, hnick⟩ := Schema.signUpRequest_names hdata
        rcases signup_users c { s with now := now } userId (accepted data hashed) with
          hsame | ⟨u, hadds, hid, hue, hun⟩
        · rw [hsame]
          exact hr
        · refine hr.adds hadds (hid ▸ hnew.1) (fun v hv => ?_) (hun ▸ hnick)
            (hue ▸ hemail _ _ hmail)
          rw [hid]
          exact bne_iff_ne.mp (List.all_eq_true.mp hnew.2 v hv)
    next => cases h
  | withdraw userId =>
    simp only [Registration.step] at h
    split at h
    next hnow =>
      cases h
      exact hr.withdraw userId hnow
    next => cases h

/-- In a table that has seen signups and withdrawals only, the check for a nickname that the
schema accepts and the unique constraint agree: no masked value is in its way. -/
theorem Registry.nicknameExists_eq (hr : Registry db.users)
    (hn : Schema.validateNicknameFormat n = true) :
    nicknameExists db n = db.users.any fun u => u.nickname == n := by
  refine Bool.eq_iff_iff.mpr ?_
  simp only [nicknameExists, List.any_eq_true, Bool.and_eq_true, beq_iff_eq,
    Option.isNone_iff_eq_none]
  constructor
  · rintro ⟨u, hu, he, -⟩
    exact ⟨u, hu, he⟩
  · rintro ⟨u, hu, he⟩
    refine ⟨u, hu, he, ?_⟩
    by_contra hdel
    obtain ⟨value, t, ht, hmask⟩ := hr.masked u hu hdel
    have hplain := Schema.validateNicknameFormat_mem hn
    rw [← he, hmask] at hplain
    exact hplain (mask_mem value (hr.uuids u hu) ht)

theorem mask_not_accepted (value : String) {u : Uuid} {t : Timestamp} (hu : u < 2 ^ 128)
    (ht : IsDatetime t) (raw : String) :
    Schema.ensureNicknameFormat raw ≠ .ok (maskForWithdrawal value (deletedAtSuffix u t)) := by
  intro h
  have hplain := Schema.validateNicknameFormat_mem (Schema.ensureNicknameFormat_ok h)
  exact hplain (mask_mem value hu ht)

/-- Masked values are short, end with the whole suffix, tell the users apart and are no nicknames;
so in every run of signups and withdrawals the nicknames stay apart, only live accounts are in the
way of a new one, and a withdrawal sets its email and nickname free. The email validator lets no
address through that is 255 characters long in lower case. -/
theorem withdrawal_frees (c : Settings) (emailStr : Schema.EmailStr)
    (hemail : ∀ v e, emailStr v = some e → (c.lower e).toList.length < 255) :
    (∀ (u v : Uuid) (value value' : String) (t t' : Timestamp), u < 2 ^ 128 → v < 2 ^ 128 →
      IsDatetime t → IsDatetime t' →
      (maskForWithdrawal value (deletedAtSuffix u t)).toList.length ≤ 255 ∧
      (deletedAtSuffix u t).toList <:+ (maskForWithdrawal value (deletedAtSuffix u t)).toList ∧
      (u ≠ v → maskForWithdrawal value (deletedAtSuffix u t) ≠
        maskForWithdrawal value' (deletedAtSuffix v t')) ∧
      ∀ raw, Schema.ensureNicknameFormat raw ≠
        .ok (maskForWithdrawal value (deletedAtSuffix u t))) ∧
    ∀ (s t : State) (ops : List (Op × Timestamp)), s.db.users = [] →
      exec (step c emailStr) s ops = some t →
      (∀ userId now, IsDatetime now →
        Keyed User.nickname (UserService.deleteUser t.db userId now).2.users) ∧
      (∀ raw n, Schema.ensureNicknameFormat raw = .ok n →
        nicknameExists t.db n = t.db.users.any fun u => u.nickname == n) ∧
      ∀ u ∈ t.db.users, u.deletedAt = none → ∀ now db', IsDatetime now →
        withdraw t.db u.id now = (.ok (), db') →
        ∀ (userId : Uuid) (data : SignUpRequest), data.profileImageId = none →
          data.signupToken = none → c.lower data.email = u.email → data.nickname = u.nickname →
          (ImageLifecycle.signup c { t with db := db' } userId data).1 = .ok () := by
  refine ⟨fun u v value value' t t' hu hv ht ht' => ?_, fun s t ops hs h => ?_⟩
  · refine ⟨mask_length value hu ht, mask_suffix value hu ht, fun hne he => ?_, ?_⟩
    · exact hne (mask_injective hu ht hv ht' he)
    · exact mask_not_accepted value hu ht
  · have hinit : Registry s.db.users := hs ▸ Registry.nil
    have hr : Registry t.db.users :=
      exec_invariant' (I := fun s => Registry s.db.users) (fun hi hstep => hi.step hemail hstep)
        hinit h
    refine ⟨fun userId now hnow => deleteUser_nicknames hr userId hnow, fun raw n hn => ?_, ?_⟩
    · exact hr.nicknameExists_eq (Schema.ensureNicknameFormat_ok hn)
    · intro u hu hlive now db' hnow hw userId data himage htoken hmail hnick
      exact hr.signup_again hu hlive hnow hw rfl himage htoken hmail hnick

end Runs

section Sample

def shortEmail : Schema.EmailStr := fun v => if v.toList.length < 255 then some v else none

theorem shortEmail_lower (v e : String) (h : shortEmail v = some e) :
    (Python.lower e).toList.length < 255 := by
  unfold shortEmail at h
  split at h
  next hlen =>
    cases h
    rwa [Python.lower, String.toList_ofList, List.length_map]
  next => cases h

def sampleBody : Schema.SignUpBody where
  email := "Dog@puppytalk.kr"
  password := "멍멍abc123!"
  nickname := "멍멍이"
  profileImageId := none
  signupToken := none

theorem signUpRequest_sample :
    Schema.signUpRequest shortEmail sampleBody = .ok sampleBody := by
  decide +kernel

def signedUp : State where
  db := { users := [{
    id := 7, version := 1, email := Python.lower sampleBody.email, password := "hash",
    nickname := sampleBody.nickname, profileImageId := none, status := .active,
    createdAt := 1000000, updatedAt := 1000000, deletedAt := none }] }
  objects := []
  tokens := fun _ => none
  now := 1000000
  pass := fun _ => none

theorem step_sample : step (.default Python.lower) shortEmail .init
    (.signup 7 sampleBody "hash", 1000000) = some signedUp := by
  simp only [step, signUpRequest_sample]
  rw [if_pos (by decide)]
  rfl

theorem withdraw_sample : ∃ db', withdraw signedUp.db 7 2000000 = (.ok (), db') := ⟨_, rfl⟩

/-- A user signs up, withdraws and signs up again. -/
theorem withdrawal_frees_sample :
    ∃ db', exec (step (.default Python.lower) shortEmail) .init
        [(.signup 7 sampleBody "hash", 1000000)] = some signedUp ∧
      withdraw signedUp.db 7 2000000 = (.ok (), db') ∧
      (ImageLifecycle.signup (.default Python.lower) { signedUp with db := db' } 8
        (accepted sampleBody "hash")).1 = .ok () := by
  have hrun := exec_one step_sample
  obtain ⟨db', hw⟩ := withdraw_sample
  refine ⟨db', hrun, hw, ?_⟩
  have hnow : IsDatetime 2000000 := by
    unfold IsDatetime
    norm_num
  have hfrees := ((withdrawal_frees (.default Python.lower) shortEmail shortEmail_lower).2 .init
    signedUp _ rfl hrun).2.2
  have huser := hfrees _ List.mem_cons_self rfl 2000000 db' hnow
  exact huser hw 8 (accepted sampleBody "hash") rfl rfl rfl rfl

end Sample

end Registration

end PuppyTalk
