namespace PuppyTalk

/-- Entity ids; only their identity and their order matter. -/
abbrev Uuid := Nat

/-- A clock reading in microseconds. -/
abbrev Timestamp := Int

/-- The exceptions that the modelled services raise; a constraint violation reaches the global
handler as `integrityError`. -/
inductive ApiException where
  | postNotFound
  | commentNotFound
  | imageNotFound
  | userNotFound
  | userWithdrawn
  | emailAlreadyExists
  | nicknameAlreadyExists
  | missingRequiredField
  | signupImageTokenInvalid
  | invalidCredentials
  | unauthorized (message : Option String)
  | forbidden (message : Option String)
  | concurrentUpdate (message : String)
  | invalidRequest (message : String)
  | internalServerError
  | integrityError
  deriving DecidableEq, Repr

def ApiException.statusCode : ApiException → Nat
  | .postNotFound | .commentNotFound | .imageNotFound | .userNotFound => 404
  | .emailAlreadyExists | .nicknameAlreadyExists | .concurrentUpdate _ | .integrityError => 409
  | .missingRequiredField | .signupImageTokenInvalid | .invalidRequest _ | .userWithdrawn => 400
  | .invalidCredentials | .unauthorized _ => 401
  | .forbidden _ => 403
  | .internalServerError => 500

inductive TargetType where
  | post
  | comment
  deriving DecidableEq, Repr

inductive ReportReason where
  | spam
  | profanity
  | inappropriateContent
  | other
  deriving DecidableEq, Repr

def ReportReason.value : ReportReason → String
  | .spam => "스팸"
  | .profanity => "욕설"
  | .inappropriateContent => "부적절한 콘텐츠"
  | .other => "기타"

inductive UserStatus where
  | active
  | suspended
  | withdrawn
  deriving DecidableEq, Repr

def UserStatus.value : UserStatus → String
  | .active => "ACTIVE"
  | .suspended => "SUSPENDED"
  | .withdrawn => "WITHDRAWN"

/-- `inactive_message_ko` of a status text. -/
def UserStatus.inactiveMessageKo (status : String) : String :=
  if status = UserStatus.suspended.value then "계정이 정지되었습니다."
  else if status = UserStatus.withdrawn.value then "탈퇴한 계정입니다."
  else "계정이 비활성 상태입니다."

inductive DogGender where
  | male
  | female
  deriving DecidableEq, Repr

inductive NotificationKind where
  | commentOnPost
  | likePost
  | likeComment
  deriving DecidableEq, Repr

end PuppyTalk
