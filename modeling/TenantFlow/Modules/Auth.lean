import TenantFlow.Core.Access

/-!
# Registration, login and refresh tokens
-/

namespace TenantFlow

open JsonText Transactional

variable [Platform]

def tokenFingerprint (token : String) : String := Platform.sha256 token

/-! ## Schemas -/

/-- A parsed body: the address is the one `EmailStr` normalised. -/
structure RegisterRequest where
  email : String
  password : String
  fullName : String

def RegisterRequest.valid (payload : RegisterRequest) : Bool :=
  10 ≤ payload.password.length && payload.password.length ≤ 256 &&
    2 ≤ payload.fullName.length && payload.fullName.length ≤ 160

structure TokenPair where
  accessToken : String
  refreshToken : String
  tokenType : String := "bearer"

structure UserResponse where
  id : String
  email : String
  fullName : String

def userResponse (user : User) : Except Failure UserResponse :=
  match Platform.validateEmail user.email with
  | some email => .ok { id := user.id.str, email, fullName := user.fullName }
  | none => .error (.unhandled "ValidationError")

/-! ## Service -/

def registerUser (payload : RegisterRequest) : App User := do
  let email := Platform.lower payload.email
  let existing ← select fun db => (db .users).any (·.email = email)
  if existing then
    raise (conflictError "EMAIL_ALREADY_REGISTERED" "An account already uses this email")
  else
    let passwordHash ← call (.hashPassword payload.password)
    let d ← rowDefaults
    let user : User :=
      { id := d.id, email, passwordHash, fullName := strip payload.fullName,
        isActive := true }
    insertRow (t := .users) user
    return user

def authenticate (email password : String) : App User := do
  let user ← select fun db => (db .users).find? (·.email = Platform.lower email)
  match user with
  | none => raise (authenticationError "Invalid email or password")
  | some user =>
    if !Platform.verifyPassword password user.passwordHash then
      raise (authenticationError "Invalid email or password")
    else if !user.isActive then raise (authenticationError "User account is disabled")
    else return user

/-- `family_id or uuid4()`: a login starts a family of its own. -/
def familyOrNew : Option UUID → App UUID
  | some familyId => return familyId
  | none => uuid4

def issueTokenPair (user : User) (familyId : Option UUID) : App TokenPair := do
  let rawRefresh ← call (.tokenUrlsafe 48)
  let at_ ← now
  let familyId ← familyOrNew familyId
  let id ← uuid4
  insertRow (t := .refreshTokens)
    { id, userId := user.id, tokenHash := tokenFingerprint rawRefresh, familyId,
      expiresAt := at_ + days Platform.settings.refreshTokenDays, revokedAt := none,
      replacedByHash := none, createdAt := at_ }
  let accessToken ← call (.createAccessToken user.id.str)
  return { accessToken, refreshToken := rawRefresh }

def findToken (rawToken : String) (db : Db Row) : Option RefreshToken :=
  (db .refreshTokens).find? (·.tokenHash = tokenFingerprint rawToken)

def RefreshToken.revoke (at_ : Datetime) (r : RefreshToken) : RefreshToken :=
  { r with revokedAt := some at_ }

def RefreshToken.replace (at_ : Datetime) (successor : String) (r : RefreshToken) : RefreshToken :=
  { r with revokedAt := some at_, replacedByHash := some successor }

def rotateRefreshToken (rawToken : String) : App TokenPair := do
  let token ← selectForUpdate .refreshTokens (findToken rawToken)
  let at_ ← now
  match token with
  | none => raise (authenticationError "Refresh token is invalid or expired")
  | some token =>
    if token.revokedAt.isSome || decide (token.expiresAt ≤ at_) then
      raise (authenticationError "Refresh token is invalid or expired")
    else
      let user ← select fun db => (db .users).find? (·.id = token.userId)
      match user.filter (·.isActive) with
      | none => raise (authenticationError "User account is unavailable")
      | some user =>
        let pair ← issueTokenPair user (some token.familyId)
        -- The old token is written when the session commits.
        updateRow .refreshTokens token.id
          (RefreshToken.replace at_ (tokenFingerprint pair.refreshToken))
        return pair

def revokeRefreshToken (rawToken : String) : App Unit := do
  let token ← selectForUpdate .refreshTokens (findToken rawToken)
  match token with
  | none => return ()
  | some token =>
    if token.revokedAt.isNone then
      let at_ ← now
      updateRow .refreshTokens token.id (RefreshToken.revoke at_)
    else return ()

/-! ## Routes -/

/-- `POST /auth/register` -/
def register (args : Option RegisterRequest) : App UserResponse := do
  let payload ← validated args RegisterRequest.valid
  let user ← registerUser payload
  Prog.ofExcept (userResponse user)

/-- `POST /auth/login` and `POST /auth/token`, by `_issue_login_tokens`. -/
def issueLoginTokens (clientIp : Option String) (args : Option (String × String)) :
    App TokenPair := do
  let (email, password) ← validated args fun _ => true
  let result ← orRaise (.unhandled "RedisError")
    (← call (.checkRateLimit ("ratelimit:login:" ++ clientIp.getD "unknown") 10 60))
  if !result.allowed then raise (.http 429 "Too many login attempts")
  else
    let user ← authenticate email password
    issueTokenPair user none

/-- `POST /auth/refresh` -/
def refresh (args : Option String) : App TokenPair := do
  let rawToken ← validated args fun _ => true
  rotateRefreshToken rawToken

/-- `POST /auth/logout` -/
def logout (args : Option String) : App Unit := do
  let rawToken ← validated args fun _ => true
  revokeRefreshToken rawToken

/-- `GET /auth/me` -/
def me (userId : UUID) : App UserResponse := do
  let user ← getCurrentUser userId
  Prog.ofExcept (userResponse user)

end TenantFlow
