import PuppyTalk.Password
import Mathlib.Tactic.FinCases
namespace PuppyTalk
open Table

theorem utf8_length (s : String) : (utf8 s).length = (s.toList.map Char.utf8Size).sum := by
  simp [utf8, List.length_flatMap, String.length_utf8EncodeChar]

theorem utf8_injective (h : utf8 s = utf8 t) : s = t := by
  have hbytes : s.toList.utf8Encode = t.toList.utf8Encode := congrArg List.toByteArray h
  rw [String.utf8Encode_toList, String.utf8Encode_toList] at hbytes
  exact String.toByteArray_inj.mp hbytes

namespace Schema

theorem isLowercase_iff : isLowercase c = true ↔ 97 ≤ c.toNat ∧ c.toNat ≤ 122 := by
  simp [isLowercase, Char.le_def, UInt32.le_iff_toNat_le]

theorem isDigit_iff : isDigit c = true ↔ 48 ≤ c.toNat ∧ c.toNat ≤ 57 := by
  simp [isDigit, Char.le_def, UInt32.le_iff_toNat_le]

theorem passwordSpecial_spec : ∀ c ∈ passwordSpecial,
    c.utf8Size = 1 ∧ isLowercase c = false ∧ isDigit c = false := by
  intro c hc
  fin_cases hc <;> decide

def kinds (c : Char) : Nat :=
  (isLowercase c).toNat + (isDigit c).toNat + (passwordSpecial.contains c).toNat

theorem utf8Size_add_kinds (c : Char) : c.utf8Size + 3 * kinds c ≤ 4 := by
  have hfour := c.utf8Size_le_four
  have hone (h : c.toNat ≤ 127) : c.utf8Size = 1 := Char.utf8Size_eq_one_iff.mpr h
  by_cases hs : c ∈ passwordSpecial
  · obtain ⟨hsize, hl, hd⟩ := passwordSpecial_spec c hs
    simp [kinds, hsize, hl, hd, hs]
  have hl := @isLowercase_iff c
  have hd := @isDigit_iff c
  cases hlc : isLowercase c with
  | true =>
    obtain ⟨h₁, h₂⟩ := hl.mp hlc
    have hnd : isDigit c = false := by
      rw [Bool.eq_false_iff, ne_eq, hd]
      omega
    simp [kinds, hlc, hnd, hs, hone (by omega)]
  | false =>
    cases hdc : isDigit c with
    | true =>
      obtain ⟨h₁, h₂⟩ := hd.mp hdc
      simp [kinds, hlc, hdc, hs, hone (by omega)]
    | false => simpa [kinds, hlc, hdc, hs] using hfour

theorem one_le_countP_of_any {l : List α} {p : α → Bool} (h : l.any p = true) : 1 ≤ l.countP p := by
  obtain ⟨x, hx, hp⟩ := List.any_eq_true.mp h
  exact List.countP_pos_iff.mpr ⟨x, hx, hp⟩

theorem sum_kinds (l : List Char) : (l.map kinds).sum =
    l.countP isLowercase + l.countP isDigit + l.countP passwordSpecial.contains := by
  induction l with
  | nil => rfl
  | cons c l ih =>
    simp only [List.map_cons, List.sum_cons, List.countP_cons, ih, kinds]
    cases isLowercase c <;> cases isDigit c <;> cases passwordSpecial.contains c <;> simp <;> omega

theorem utf8_length_add_kinds (s : String) :
    (utf8 s).length + 3 * (s.toList.map kinds).sum ≤ 4 * Python.len s := by
  rw [utf8_length, Python.len]
  induction s.toList with
  | nil => exact Nat.le_refl 0
  | cons c l ih =>
    have hc := utf8Size_add_kinds c
    simp only [List.map_cons, List.sum_cons, List.length_cons]
    omega

theorem utf8_length_le_of_auth (h : validatePasswordFormatAuth p = true) : (utf8 p).length ≤ 72 := by
  simp only [validatePasswordFormatAuth, validatePasswordFormat, passwordComplexityOk,
    Bool.and_eq_true, decide_eq_true_eq] at h
  obtain ⟨⟨-, hlen⟩, ⟨hl, hd⟩, hs⟩ := h
  have hsize := utf8_length_add_kinds p
  rw [sum_kinds] at hsize
  have hl := one_le_countP_of_any hl
  have hd := one_le_countP_of_any hd
  have hs := one_le_countP_of_any hs
  omega

theorem update_of_auth (h : validatePasswordFormatAuth p = true) :
    validatePasswordFormatUpdate p = true := by
  simp only [validatePasswordFormatAuth, validatePasswordFormatUpdate, validatePasswordFormat,
    Bool.and_eq_true, decide_eq_true_eq] at h ⊢
  exact ⟨⟨h.1.1, Nat.le_trans h.1.2 (by decide)⟩, h.2⟩

theorem auth_iff_update : validatePasswordFormatAuth p = true ↔
    validatePasswordFormatUpdate p = true ∧ Python.len p ≤ 20 := by
  apply Iff.intro
  · intro h
    apply And.intro (update_of_auth h)
    simp only [validatePasswordFormatAuth, validatePasswordFormat, Bool.and_eq_true,
      decide_eq_true_eq] at h
    exact h.1.2
  · rintro ⟨h, hlen⟩
    simp only [validatePasswordFormatAuth, validatePasswordFormatUpdate, validatePasswordFormat,
      Bool.and_eq_true, decide_eq_true_eq] at h ⊢
    exact ⟨⟨h.1.1, hlen⟩, h.2⟩

theorem signUpRequest_ok (h : signUpRequest emailStr body = .ok data) :
    validatePasswordFormatAuth data.password = true := by
  simp only [signUpRequest, bind_eq_ok, ensurePasswordFormatAuth, ensure_eq_ok,
    lengthField_eq_ok] at h
  obtain ⟨email, -, password, ⟨hp, rfl⟩, _, ⟨-, rfl⟩, nickname, -, nickname', -, h⟩ := h
  split at h
  · cases h
  · cases h
    exact hp

theorem updatePasswordRequest_ok (h : updatePasswordRequest body = .ok data) :
    validatePasswordFormatUpdate data.newPassword = true := by
  simp only [updatePasswordRequest, bind_eq_ok, ensurePasswordFormatUpdate, ensure_eq_ok,
    lengthField_eq_ok] at h
  obtain ⟨current, -, new, ⟨hp, rfl⟩, _, ⟨-, rfl⟩, h⟩ := h
  cases h
  exact hp

theorem loginRequest_eq_ok : loginRequest emailStr body = .ok data ↔
    emailStr body.email = some data.email ∧ validatePasswordFormatAuth body.password = true ∧
    data.password = body.password := by
  simp only [loginRequest, bind_eq_ok, emailField_eq_ok, ensurePasswordFormatAuth, ensure_eq_ok,
    lengthField_eq_ok]
  apply Iff.intro
  · rintro ⟨e, he, p, ⟨hp, rfl⟩, q, ⟨-, rfl⟩, h⟩
    cases h
    exact ⟨he, hp, rfl⟩
  · rintro ⟨he, hp, hd⟩
    have hlen : 8 ≤ Python.len body.password ∧ Python.len body.password ≤ 20 := by
      simp only [validatePasswordFormatAuth, validatePasswordFormat, Bool.and_eq_true,
        decide_eq_true_eq] at hp
      exact hp.1
    exact ⟨_, he, _, ⟨hp, rfl⟩, _, ⟨hlen, rfl⟩, by rw [← hd]⟩

end Schema

namespace PasswordHistory

structure Config where
  settings : ImageLifecycle.Settings
  bcrypt : Bcrypt
  pepper : String
  emailStr : Schema.EmailStr

def Config.credentials (c : Config) : Credentials where
  bcrypt := c.bcrypt
  pepper := c.pepper
  lower := c.settings.lower

/-- The stored data, and for each user the password that the last accepted request has set. -/
structure State where
  base : ImageLifecycle.State
  current : Uuid → Option String

def State.init : State where
  base := .init
  current := fun _ => none

inductive Request (c : Config) where
  | signup (userId : Uuid) (body : Schema.SignUpBody) (salt : c.bcrypt.Salt)
  | updatePassword (userId : Uuid) (body : Schema.UpdatePasswordBody) (salt : c.bcrypt.Salt)
  | setStatus (userId : Uuid) (status : UserStatus)

def State.accept (s : State) (userId : Uuid) (password : String) (base : ImageLifecycle.State) :
    State where
  base := base
  current := Function.update s.current userId (some password)

/-- `signup` on a validated request. -/
def signup (c : Config) (s : ImageLifecycle.State) (userId : Uuid) (data : Schema.SignUpBody)
    (salt : c.bcrypt.Salt) : Except ApiException Unit × ImageLifecycle.State :=
  let hashed := Security.hashPassword c.bcrypt (Security.passwordWithPepper c.pepper data.password)
    salt
  ImageLifecycle.signup c.settings s userId
    { email := data.email, hashedPassword := hashed, nickname := data.nickname,
      profileImageId := data.profileImageId, signupToken := data.signupToken }

def step (c : Config) (s : State) : Request c → Option State
  | .signup userId body salt =>
    if s.base.db.users.any (·.id == userId) then none
    else
      match Schema.signUpRequest c.emailStr body with
      | .error _ => some s
      | .ok data =>
        match signup c s.base userId data salt with
        | (.error _, base) => some { s with base := base }
        | (.ok (), base) => some (s.accept userId data.password base)
  | .updatePassword userId body salt =>
    match Schema.updatePasswordRequest body with
    | .error _ => some s
    | .ok data =>
      match UserService.updatePassword c.credentials s.base.db userId data salt with
      | (.error _, db) => some { s with base := { s.base with db := db } }
      | (.ok (), db) => some (s.accept userId data.newPassword { s.base with db := db })
  | .setStatus userId status =>
    some { s with base := { s.base with
      db := (AdminService.setUserStatus s.base.db userId status s.base.now).2 } }

def loginSucceeds (c : Config) (s : State) (body : Schema.LoginBody) : Bool :=
  match Schema.loginRequest c.emailStr body with
  | .error _ => false
  | .ok data => (AuthService.loginBlock c.credentials s.base.db data).isOk

def storedHash (c : Credentials) (p : String) (salt : c.bcrypt.Salt) : String :=
  Security.hashPassword c.bcrypt (Security.passwordWithPepper c.pepper p) salt

structure Hashed (c : Config) (s : State) : Prop where
  ids : Keyed User.id s.base.db.users
  emails : Keyed User.email s.base.db.users
  passwords : ∀ u ∈ s.base.db.users, ∃ p salt, s.current u.id = some p ∧
    Schema.validatePasswordFormatUpdate p = true ∧ u.password = storedHash c.credentials p salt

theorem hashed_init (c : Config) : Hashed c State.init :=
  ⟨keyed_nil _, keyed_nil _, fun _ hu => by cases hu⟩

theorem Hashed.congr (h : Hashed c s) (hu : s'.base.db.users = s.base.db.users)
    (hc : s'.current = s.current) : Hashed c s' := by
  apply Hashed.mk
  · rw [hu]; exact h.ids
  · rw [hu]; exact h.emails
  · rw [hu, hc]; exact h.passwords

theorem Hashed.update {p : User → Bool} {f : User → User} (h : Hashed c s)
    (hu : s'.base.db.users = Table.update p f s.base.db.users) (hid : ∀ u, (f u).id = u.id)
    (hemail : ∀ u, (f u).email = u.email)
    (hp : ∀ u ∈ s.base.db.users, ∃ q salt, s'.current u.id = some q ∧
      Schema.validatePasswordFormatUpdate q = true ∧
      (if p u then f u else u).password = storedHash c.credentials q salt) :
    Hashed c s' := by
  apply Hashed.mk
  · rw [hu]
    exact h.ids.update hid
  · rw [hu]
    exact h.emails.update hemail
  · intro v hv
    rw [hu] at hv
    obtain ⟨u, hm, rfl⟩ := mem_update.mp hv
    rw [key_update hid u]
    exact hp u hm

def Changes (users : List User) (P : List User → Prop) (r : Except ApiException Unit)
    (users' : List User) : Prop :=
  (∃ e, r = .error e) ∧ users' = users ∨ r = .ok () ∧ P users'

theorem Changes.error : Changes users P (.error e) users := .inl ⟨⟨e, rfl⟩, rfl⟩

theorem Changes.begin {block : Db → Except ApiException (Unit × Db)}
    (h : ∀ db', block db = .ok ((), db') → P db'.users) :
    Changes db.users P (db.begin block).1 (db.begin block).2.users := by
  cases hb : block db with
  | error e =>
    rw [Db.begin_error hb]
    exact Changes.error
  | ok r =>
    rw [Db.begin_ok hb]
    exact .inr ⟨rfl, h _ hb⟩

def AddsUser (users users' : List User) (userId : Uuid) (hashed : String) : Prop :=
  ∃ u, users' = users ++ [u] ∧ u.id = userId ∧ u.password = hashed ∧ ∀ v ∈ users, v.email ≠ u.email

theorem createUser_addsUser
    (h : UsersRepository.createUser lower db userId email hashed nickname image now = .ok db') :
    AddsUser db.users db'.users userId hashed := by
  simp only [UsersRepository.createUser] at h
  split at h
  · cases h
  rename_i hemail
  split at h
  · cases h
  split at h
  · cases h
    apply Exists.intro _
    apply And.intro rfl
    apply And.intro rfl
    apply And.intro rfl
    simpa using hemail
  · cases h

theorem signupBlock_addsUser
    (h : ImageLifecycle.signupBlock c db userId data image now = .ok ((), db')) :
    AddsUser db.users db'.users userId data.hashedPassword := by
  simp only [ImageLifecycle.signupBlock] at h
  split at h
  · cases h
  rename_i db₁ hcreate
  have hadds := createUser_addsUser hcreate
  split at h
  · cases h
    exact hadds
  split at h
  · cases h
  · rename_i db₂ hclaim
    cases h
    simp only [MediaRepository.claimImageOwnership] at hclaim
    obtain ⟨-, rfl⟩ := Prod.mk.inj hclaim
    exact hadds

theorem signup_changes (c : Config) (s : ImageLifecycle.State) (userId : Uuid)
    (data : Schema.SignUpBody) (salt : c.bcrypt.Salt) :
    Changes s.db.users
      (fun users => AddsUser s.db.users users userId (storedHash c.credentials data.password salt))
      (signup c s userId data salt).1 (signup c s userId data salt).2.db.users := by
  simp only [signup, ImageLifecycle.signup]
  split
  · exact .error
  split
  · exact .error
  split
  · exact .error
  split
  · exact .begin fun _ hb => signupBlock_addsUser hb
  split
  · exact .error
  split
  · exact .error
  · exact .begin fun _ hb => signupBlock_addsUser hb

def SetsPassword (users users' : List User) (userId : Uuid) (hashed : String) : Prop :=
  (∃ u ∈ users, u.id = userId ∧ u.deletedAt = none) ∧
  users' = Table.update (fun u => u.id == userId && u.deletedAt.isNone)
    (fun u => { u with password := hashed }) users

theorem updatePassword_changes (c : Credentials) (db : Db) (userId : Uuid)
    (data : Schema.UpdatePasswordBody) (salt : c.bcrypt.Salt) :
    Changes db.users
      (fun users => SetsPassword db.users users userId (storedHash c data.newPassword salt))
      (UserService.updatePassword c db userId data salt).1
      (UserService.updatePassword c db userId data salt).2.users := by
  apply Changes.begin
  intro db' hb
  split at hb
  · cases hb
  rename_i hashed hget
  split at hb
  · cases hb
  split at hb
  · cases hb
  dsimp only at hb
  split at hb
  · cases hb
  rename_i db₁ hup
  cases hb
  obtain ⟨u, hu, -⟩ := Option.map_eq_some_iff.mp hget
  have hfound := List.find?_some hu
  simp only [Bool.and_eq_true, beq_iff_eq, Option.isNone_iff_eq_none] at hfound
  apply And.intro ⟨u, List.mem_of_find?_eq_some hu, hfound⟩
  obtain ⟨-, rfl⟩ := Prod.mk.inj hup
  rfl

theorem setUserStatus_changes (db : Db) (userId : Uuid) (status : UserStatus) (now : Timestamp) :
    Changes db.users
      (fun users => users = Table.update (fun u => u.id == userId && u.deletedAt.isNone)
        (fun u => { u with status := status, updatedAt := now }) db.users)
      (AdminService.setUserStatus db userId status now).1
      (AdminService.setUserStatus db userId status now).2.users := by
  apply Changes.begin
  intro db' hb
  split at hb
  · cases hb
  split at hb
  · cases hb
  · cases hb
    rfl

theorem accept_current_self (s : State) (userId : Uuid) (p : String) (base : ImageLifecycle.State) :
    (s.accept userId p base).current userId = some p := Function.update_self ..

theorem accept_current_of_ne {s : State} (p : String) (base : ImageLifecycle.State)
    (h : userId' ≠ userId) : (s.accept userId p base).current userId' = s.current userId' :=
  Function.update_of_ne h ..

theorem Hashed.addUser (h : Hashed c s) (hfresh : ∀ u ∈ s.base.db.users, u.id ≠ userId)
    (hadd : AddsUser s.base.db.users base.db.users userId (storedHash c.credentials p salt))
    (hp : Schema.validatePasswordFormatUpdate p = true) : Hashed c (s.accept userId p base) := by
  obtain ⟨u, hu, rfl, hpw, hemail⟩ := hadd
  apply Hashed.mk
  · simp only [State.accept, hu]
    exact h.ids.append hfresh
  · simp only [State.accept, hu]
    exact h.emails.append hemail
  · intro v hv
    simp only [State.accept, hu] at hv
    rcases List.mem_append.mp hv with hv | hv
    · obtain ⟨q, salt', hq, hrest⟩ := h.passwords v hv
      exact ⟨q, salt', by rw [accept_current_of_ne p base (hfresh v hv), hq], hrest⟩
    · cases List.mem_singleton.mp hv
      exact ⟨p, salt, accept_current_self .., hp, hpw⟩

theorem Hashed.setPassword (h : Hashed c s)
    (hset : SetsPassword s.base.db.users base.db.users userId (storedHash c.credentials p salt))
    (hp : Schema.validatePasswordFormatUpdate p = true) : Hashed c (s.accept userId p base) := by
  obtain ⟨⟨u, hu, rfl, hlive⟩, hbase⟩ := hset
  apply h.update hbase
  · exact fun _ => rfl
  · exact fun _ => rfl
  intro v hv
  by_cases hid : v.id = u.id
  · -- the ids are keys, so this is the account that was changed
    cases h.ids.eq hv hu hid
    exact ⟨p, salt, accept_current_self .., hp, by simp [hlive]⟩
  · obtain ⟨q, salt', hq, hrest⟩ := h.passwords v hv
    exact ⟨q, salt', by rw [accept_current_of_ne p base hid, hq], by simpa [hid] using hrest⟩

theorem Hashed.step (h : Hashed c s) (hs : PasswordHistory.step c s a = some s') : Hashed c s' := by
  cases a with
  | signup userId body salt =>
    simp only [PasswordHistory.step] at hs
    split at hs
    · cases hs
    rename_i hfresh
    split at hs
    · cases hs
      exact h
    rename_i data hdata
    have hch := signup_changes c s.base userId data salt
    split at hs
    · rename_i e base hsign
      cases hs
      rw [hsign] at hch
      rcases hch with ⟨-, hu⟩ | ⟨hr, -⟩
      · exact h.congr hu rfl
      · cases hr
    · rename_i base hsign
      cases hs
      rw [hsign] at hch
      rcases hch with ⟨⟨_, hr⟩, -⟩ | ⟨-, hadd⟩
      · cases hr
      · exact h.addUser (by simpa using hfresh) hadd
          (Schema.update_of_auth (Schema.signUpRequest_ok hdata))
  | updatePassword userId body salt =>
    simp only [PasswordHistory.step] at hs
    split at hs
    · cases hs
      exact h
    rename_i data hdata
    have hch := updatePassword_changes c.credentials s.base.db userId data salt
    split at hs
    · rename_i e db hupd
      cases hs
      rw [hupd] at hch
      rcases hch with ⟨-, hu⟩ | ⟨hr, -⟩
      · exact h.congr hu rfl
      · cases hr
    · rename_i db hupd
      cases hs
      rw [hupd] at hch
      rcases hch with ⟨⟨_, hr⟩, -⟩ | ⟨-, hset⟩
      · cases hr
      · exact h.setPassword hset (Schema.updatePasswordRequest_ok hdata)
  | setStatus userId status =>
    cases hs
    rcases setUserStatus_changes s.base.db userId status s.base.now with ⟨-, hu⟩ | ⟨-, hu⟩
    · exact h.congr hu rfl
    · apply h.update hu
      · exact fun _ => rfl
      · exact fun _ => rfl
      intro v hv
      obtain ⟨q, salt, hq, hvalid, hpw⟩ := h.passwords v hv
      exact ⟨q, salt, hq, hvalid, by split <;> exact hpw⟩

/-- Without a pepper a stored hash is met by exactly the texts that agree with its password on the
first 72 bytes. -/
theorem verify_storedHash (c : Credentials) (hpepper : c.pepper = "") (x p : String)
    (salt : c.bcrypt.Salt) :
    Security.verifyPasswordWithLegacyFallback c.bcrypt c.pepper x (storedHash c p salt) = true ↔
      (utf8 x).take 72 = (utf8 p).take 72 := by
  simp [Security.verifyPasswordWithLegacyFallback, Security.verifyPassword, storedHash,
    Security.hashPassword, Security.passwordWithPepper, hpepper, c.bcrypt.checkpw_hashpw]

theorem Hashed.loginBlock (h : Hashed c s) (hu : u ∈ s.base.db.users) (hlive : u.deletedAt = none)
    (hactive : u.status = .active) (hemail : c.settings.lower data.email = u.email) :
    (AuthService.loginBlock c.credentials s.base.db data).isOk =
      Security.verifyPasswordWithLegacyFallback c.bcrypt c.pepper data.password u.password := by
  have hget : UsersRepository.getUserByEmail c.credentials.lower s.base.db data.email = some u := by
    apply h.emails.find_eq_some (i := u.email) _ hu
    · simp [hlive, Config.credentials, hemail]
    · intro v hv
      simp only [Bool.and_eq_true, beq_iff_eq] at hv
      exact hv.1.trans hemail
  simp only [AuthService.loginBlock, hget, hactive, ne_eq, not_true_eq_false, if_false]
  split
  · rename_i hv
    exact hv.symm
  · rename_i hv
    exact (Bool.not_eq_true _ ▸ hv).symm

/-- A login with the account's address is accepted for the texts that the form takes and that agree
with the current password on the first 72 bytes. -/
theorem Hashed.loginSucceeds_iff (h : Hashed c s) (hpepper : c.pepper = "")
    (hu : u ∈ s.base.db.users) (hlive : u.deletedAt = none) (hactive : u.status = .active)
    (hp : s.current u.id = some p) (he : c.emailStr email = some e)
    (hemail : c.settings.lower e = u.email) (x : String) :
    loginSucceeds c s ⟨email, x⟩ = true ↔
      Schema.validatePasswordFormatAuth x = true ∧ (utf8 x).take 72 = (utf8 p).take 72 := by
  obtain ⟨q, salt, hq, -, hpw⟩ := h.passwords u hu
  cases hp.symm.trans hq
  have hverify := verify_storedHash c.credentials hpepper x p salt
  cases hr : Schema.loginRequest c.emailStr ⟨email, x⟩ with
  | error err =>
    simp only [loginSucceeds, hr, Bool.false_eq_true, false_iff, not_and]
    intro hx
    have hok : Schema.loginRequest c.emailStr ⟨email, x⟩ = .ok ⟨e, x⟩ :=
      Schema.loginRequest_eq_ok.mpr ⟨he, hx, rfl⟩
    rw [hr] at hok
    cases hok
  | ok data =>
    obtain ⟨he', hx, hdx⟩ := Schema.loginRequest_eq_ok.mp hr
    cases he.symm.trans he'
    simp only [loginSucceeds, hr]
    rw [h.loginBlock hu hlive hactive hemail, hdx, hpw]
    simp only [hx, true_and]
    exact hverify

/-- After every history of signups and password changes the login of an active account accepts
exactly its current password if and only if that has at most 20 characters. -/
theorem login_accepts_current_password_iff (c : Config) (hpepper : c.pepper = "")
    {as : List (Request c)} (hrun : exec (step c) State.init as = some s) (hu : u ∈ s.base.db.users)
    (hlive : u.deletedAt = none) (hactive : u.status = .active) (hp : s.current u.id = some p)
    (he : c.emailStr email = some e) (hemail : c.settings.lower e = u.email) :
    (∀ x, loginSucceeds c s ⟨email, x⟩ = true ↔ x = p) ↔ Python.len p ≤ 20 := by
  have h : Hashed c s := exec_invariant' Hashed.step (hashed_init c) hrun
  have hlogin := h.loginSucceeds_iff hpepper hu hlive hactive hp he hemail
  apply Iff.intro
  · intro hx
    have hauth := ((hlogin p).mp ((hx p).mpr rfl)).1
    exact (Schema.auth_iff_update.mp hauth).2
  · intro hlen x
    obtain ⟨q, _, hq, hvalid, -⟩ := h.passwords u hu
    cases hp.symm.trans hq
    have hpauth := Schema.auth_iff_update.mpr ⟨hvalid, hlen⟩
    rw [hlogin x]
    apply Iff.intro
    · rintro ⟨hxauth, hbytes⟩
      -- neither text is cut, so equal hashes mean equal texts
      rw [List.take_of_length_le (Schema.utf8_length_le_of_auth hxauth),
        List.take_of_length_le (Schema.utf8_length_le_of_auth hpauth)] at hbytes
      exact utf8_injective hbytes
    · rintro rfl
      exact ⟨hpauth, rfl⟩

def plainHash (p : List UInt8) : String :=
  String.ofList ((p.take 72).map fun b => Char.ofNat b.toNat)

theorem plainHash_inj : plainHash q = plainHash p ↔ q.take 72 = p.take 72 := by
  have hbyte : Function.Injective fun b : UInt8 => Char.ofNat b.toNat := by
    intro a b h
    have hval (b : UInt8) : (Char.ofNat b.toNat).toNat = b.toNat := by
      have hvalid : b.toNat.isValidChar := .inl (Nat.lt_of_lt_of_le b.toNat_lt (by decide))
      simp only [Char.ofNat, hvalid, dif_pos]
      rfl
    rw [← UInt8.toNat_inj, ← hval a, ← hval b]
    exact congrArg Char.toNat h
  rw [plainHash, plainHash, String.ofList_inj]
  exact List.map_inj_right hbyte

def plainBcrypt : Bcrypt where
  Salt := Unit
  hashpw p _ := plainHash p
  checkpw q h := some (decide (plainHash q = h))
  checkpw_hashpw p q _ := by simp [plainHash_inj]

def sampleConfig : Config where
  settings := .default id
  bcrypt := plainBcrypt
  pepper := ""
  emailStr := some

def sampleSignUp : Schema.SignUpBody where
  email := "a@b.kr"
  password := "bori-123"
  nickname := "보리"
  profileImageId := none
  signupToken := none

def signUpRun : List (Request sampleConfig) := [.signup 1 sampleSignUp ()]

theorem login_accepts_current_password_iff_signUpRun :
    ∃ s u, exec (step sampleConfig) State.init signUpRun = some s ∧ u ∈ s.base.db.users ∧
      s.current u.id = some "bori-123" ∧
      ((∀ x, loginSucceeds sampleConfig s ⟨"a@b.kr", x⟩ = true ↔ x = "bori-123") ↔
        Python.len "bori-123" ≤ 20) := by
  have hrun : ∃ s u, exec (step sampleConfig) State.init signUpRun = some s ∧
      s.base.db.users = [u] ∧ u.deletedAt = none ∧ u.status = .active ∧ u.email = "a@b.kr" ∧
      s.current u.id = some "bori-123" := ⟨_, _, rfl, rfl, rfl, rfl, rfl, rfl⟩
  obtain ⟨s, u, he, hus, hlive, hactive, hemail, hp⟩ := hrun
  have hu : u ∈ s.base.db.users := hus ▸ List.mem_singleton_self u
  exact ⟨s, u, he, hu, hp, login_accepts_current_password_iff sampleConfig rfl he hu hlive hactive hp
    rfl hemail.symm⟩

def longPasswordRun : List (Request sampleConfig) :=
  [.signup 1 sampleSignUp (), .updatePassword 1 ⟨"bori-123", "bori-walks-every-day-1"⟩ ()]

/-- The form for a change takes the new password, the login form does not. -/
theorem login_rejects_current_password : ¬ ∀ (c : Config) (as : List (Request c)) s u p email e,
    c.pepper = "" → exec (step c) State.init as = some s → u ∈ s.base.db.users →
    u.deletedAt = none → u.status = .active → s.current u.id = some p →
    c.emailStr email = some e → c.settings.lower e = u.email →
    ∀ x, loginSucceeds c s ⟨email, x⟩ = true ↔ x = p := by
  intro h
  have hrun : ∃ s u, exec (step sampleConfig) State.init longPasswordRun = some s ∧
      s.base.db.users = [u] ∧ u.deletedAt = none ∧ u.status = .active ∧ u.email = "a@b.kr" ∧
      s.current u.id = some "bori-walks-every-day-1" ∧
      loginSucceeds sampleConfig s ⟨"a@b.kr", "bori-walks-every-day-1"⟩ = false :=
    ⟨_, _, rfl, rfl, rfl, rfl, rfl, rfl, rfl⟩
  obtain ⟨s, u, he, hus, hlive, hactive, hemail, hp, hno⟩ := hrun
  have hyes := (h sampleConfig longPasswordRun s u _ "a@b.kr" "a@b.kr" rfl he
    (hus ▸ List.mem_singleton_self u) hlive hactive hp rfl hemail.symm _).mpr rfl
  rw [hno] at hyes
  cases hyes

end PasswordHistory

end PuppyTalk
