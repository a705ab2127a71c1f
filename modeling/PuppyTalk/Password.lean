import PuppyTalk.Python
import PuppyTalk.ImageLifecycle

namespace PuppyTalk

/-- `str.encode("utf-8")`. -/
def utf8 (s : String) : List UInt8 := s.toList.flatMap String.utf8EncodeChar

/-- The `bcrypt` package as an ideal hash of the first 72 bytes; `checkpw` answers `none` where it
raises. -/
structure Bcrypt where
  Salt : Type
  hashpw : List UInt8 → Salt → String
  checkpw : List UInt8 → String → Option Bool
  checkpw_hashpw : ∀ p q salt, checkpw q (hashpw p salt) = some (decide (q.take 72 = p.take 72))

namespace Security

def passwordWithPepper (pepper plain : String) : String := plain ++ pepper

def hashPassword (b : Bcrypt) (password : String) (salt : b.Salt) : String :=
  b.hashpw (utf8 password) salt

def verifyPassword (b : Bcrypt) (password hashedPassword : String) : Bool :=
  (b.checkpw (utf8 password) hashedPassword).getD false

def verifyPasswordWithLegacyFallback (b : Bcrypt) (pepper plain hashedPassword : String) : Bool :=
  if pepper = "" then verifyPassword b plain hashedPassword
  else verifyPassword b (passwordWithPepper pepper plain) hashedPassword ||
    verifyPassword b plain hashedPassword

end Security

namespace Schema

inductive ValidationError where
  | stringTooShort (minLength : Nat)
  | stringTooLong (maxLength : Nat)
  | valueError (message : String)
  | emailInvalid
  deriving DecidableEq, Repr

/-- `_PASSWORD_SPECIAL`; the codes are quotes, braces and the backslash. -/
def passwordSpecial : List Char :=
  ['!', '@', '#', '$', '%', '^', '&', '*', '(', ')', '_', '+', '-', '=', '[', ']', '\x7b', '\x7d',
   ';', '\x27', ':', '\x22', '\x5c', '|', ',', '.', '<', '>', '/', '?']

def isLowercase (c : Char) : Bool := 'a' ≤ c && c ≤ 'z'

def isDigit (c : Char) : Bool := '0' ≤ c && c ≤ '9'

def passwordComplexityOk (password : String) : Bool :=
  password.toList.any isLowercase && password.toList.any isDigit &&
  password.toList.any passwordSpecial.contains

def validatePasswordFormat (maxLength : Nat) (password : String) : Bool :=
  decide (8 ≤ Python.len password) && decide (Python.len password ≤ maxLength) &&
  passwordComplexityOk password

def validatePasswordFormatAuth : String → Bool := validatePasswordFormat 20

def validatePasswordFormatUpdate : String → Bool := validatePasswordFormat 128

/-- `_NICKNAME_PATTERN`. -/
def validateNicknameFormat (nickname : String) : Bool :=
  decide (1 ≤ Python.len nickname) && decide (Python.len nickname ≤ 10) &&
  nickname.toList.all fun c => ('가' ≤ c && c ≤ '힣') || ('a' ≤ c && c ≤ 'z') ||
    ('A' ≤ c && c ≤ 'Z') || ('0' ≤ c && c ≤ '9')

/-- `Field(min_length=…, max_length=…)` on a string. -/
def lengthField (minLength maxLength : Nat) (v : String) : Except ValidationError String :=
  if Python.len v < minLength then .error (.stringTooShort minLength)
  else if maxLength < Python.len v then .error (.stringTooLong maxLength)
  else .ok v

def ensurePasswordFormatAuth (v : String) : Except ValidationError String :=
  if validatePasswordFormatAuth v then .ok v else .error (.valueError "INVALID_PASSWORD_FORMAT")

def ensurePasswordFormatUpdate (v : String) : Except ValidationError String :=
  if validatePasswordFormatUpdate v then .ok v else .error (.valueError "INVALID_PASSWORD_FORMAT")

def ensureNicknameFormat (v : String) : Except ValidationError String :=
  if validateNicknameFormat (Python.strip v) then .ok (Python.strip v)
  else .error (.valueError "INVALID_REQUEST_BODY")

/-- `EmailStr`: the normalised address, or `none` for a text that is not one. -/
abbrev EmailStr := String → Option String

def emailField (emailStr : EmailStr) (v : String) : Except ValidationError String :=
  match emailStr v with
  | none => .error .emailInvalid
  | some e => .ok e

/-- `SignUpRequest`, `LoginRequest` and `UpdatePasswordRequest` as sent. -/
structure SignUpBody where
  email : String
  password : String
  nickname : String
  profileImageId : Option Uuid
  signupToken : Option String
  deriving DecidableEq, Repr

structure LoginBody where
  email : String
  password : String
  deriving DecidableEq, Repr

structure UpdatePasswordBody where
  currentPassword : String
  newPassword : String
  deriving DecidableEq, Repr

def signUpRequest (emailStr : EmailStr) (body : SignUpBody) :
    Except ValidationError SignUpBody := do
  let email ← emailField emailStr body.email
  let password ← ensurePasswordFormatAuth body.password
  let password ← lengthField 8 20 password
  let nickname ← ensureNicknameFormat body.nickname
  let nickname ← lengthField 1 10 nickname
  if body.profileImageId.isSome ∧ body.signupToken.all (· = "") then
    .error (.valueError "profileImageId 사용 시 signupToken이 필요합니다.")
  else
    .ok { body with email := email, password := password, nickname := nickname }

def loginRequest (emailStr : EmailStr) (body : LoginBody) : Except ValidationError LoginBody := do
  let email ← emailField emailStr body.email
  let password ← ensurePasswordFormatAuth body.password
  let password ← lengthField 8 20 password
  .ok { email := email, password := password }

def updatePasswordRequest (body : UpdatePasswordBody) :
    Except ValidationError UpdatePasswordBody := do
  let currentPassword ← lengthField 1 128 body.currentPassword
  let newPassword ← ensurePasswordFormatUpdate body.newPassword
  let newPassword ← lengthField 8 128 newPassword
  .ok { currentPassword := currentPassword, newPassword := newPassword }

theorem bind_eq_ok {x : Except ε α} {f : α → Except ε β} :
    (x >>= f) = .ok b ↔ ∃ a, x = .ok a ∧ f a = .ok b := by
  cases x with
  | error e => simp [bind, Except.bind]
  | ok a => simp [bind, Except.bind]

theorem ensure_eq_ok {p : String → Bool} {e : ValidationError} :
    (if p v then .ok v else .error e) = Except.ok w ↔ p v = true ∧ v = w := by
  split <;> simp_all

theorem lengthField_eq_ok : lengthField lo hi v = .ok w ↔
    (lo ≤ Python.len v ∧ Python.len v ≤ hi) ∧ v = w := by
  simp only [lengthField]
  split
  · simp; omega
  split
  · simp; omega
  · simp; omega

theorem emailField_eq_ok : emailField emailStr v = .ok e ↔ emailStr v = some e := by
  simp only [emailField]
  split <;> simp_all

end Schema

structure Credentials where
  bcrypt : Bcrypt
  pepper : String
  lower : String → String

namespace UserService

def samePasswordMessage : String := "기존 비밀번호와 동일한 비밀번호는 사용할 수 없습니다."

def updatePassword (c : Credentials) (db : Db) (userId : Uuid) (data : Schema.UpdatePasswordBody)
    (salt : c.bcrypt.Salt) : Except ApiException Unit × Db :=
  db.begin fun db =>
    match UsersRepository.getPasswordHash db userId with
    | none => .error (.unauthorized none)
    | some hashed =>
      if hashed = "" || !Security.verifyPasswordWithLegacyFallback c.bcrypt c.pepper
          data.currentPassword hashed then
        .error (.unauthorized none)
      else if Security.verifyPasswordWithLegacyFallback c.bcrypt c.pepper data.newPassword
          hashed then
        .error (.invalidRequest samePasswordMessage)
      else
        let newHashed := Security.hashPassword c.bcrypt
          (Security.passwordWithPepper c.pepper data.newPassword) salt
        match UsersRepository.updatePassword db userId newHashed with
        | (false, _) => .error .internalServerError
        | (true, db) => .ok ((), db)

end UserService

namespace AuthService

/-- The transaction of `login`. -/
def loginBlock (c : Credentials) (db : Db) (data : Schema.LoginBody) : Except ApiException User :=
  match UsersRepository.getUserByEmail c.lower db data.email with
  | none => .error .invalidCredentials
  | some user =>
    if user.status ≠ .active then .error (.forbidden none)
    else if Security.verifyPasswordWithLegacyFallback c.bcrypt c.pepper data.password
        user.password then .ok user
    else .error .invalidCredentials

end AuthService

end PuppyTalk
