import GreenCommunity.Auth.RateLimit
import GreenCommunity.Auth.TokenStore

/-!
# The authentication service

`AuthService`: login, token refresh with rotation and reuse detection, logout of
one device and of all devices.  `Request` collects the four so that runs can mix
them.
-/

namespace GreenCommunity.Auth

open GreenCommunity.Base
open GreenCommunity.Base.Redis

variable {Tok : Type} (d : Deps Tok)

structure IssuedTokens (Tok : Type) where
  accessToken : Tok
  refreshToken : Tok
  expiresIn : Nat

/-- `_DUMMY_PASSWORD_HASH`: the hash checked when the account does not exist. -/
def dummyPasswordHash : String :=
  "$2b$12$C6UzMDM.H6dfI/f/IKcEe.6qL8x4rY4rB0LHhCwZgHUqvOeYlqQvi"

def badCredentials : AppError :=
  .unauthorized "이메일 또는 비밀번호가 올바르지 않습니다."

def sessionExpired : AppError :=
  .unauthorized "세션이 만료되었습니다. 다시 로그인해주세요."

/-! ## Issuing tokens -/

def issueTokens (userId : Nat) : AuthM (IssuedTokens Tok) := do
  let accessToken ← createAccessToken d userId
  let (refreshToken, jti) ← createRefreshToken d userId
  save d userId jti (hashToken d refreshToken)
  return { accessToken := accessToken
           refreshToken := refreshToken
           expiresIn := d.settings.accessTokenExpireMinutes * 60 }

/-! ## Login -/

def rateLimitKeys (email clientIp : String) : List String :=
  let lowered := d.lower email
  [s!"ratelimit:login:email:{lowered}", s!"ratelimit:login:ip:{clientIp}"]

def checkLoginRateLimit (email clientIp : String) : AuthM Unit :=
  (rateLimitKeys d email clientIp).forM fun key => do
    let result ← hit key d.settings.loginRateLimitMaxAttempts
      d.settings.loginRateLimitWindowSeconds
    if !result.allowed then
      let _ ← request (.log (.loginRateLimited key result.current))
      throw (.rateLimited "로그인 시도가 너무 많습니다. 잠시 후 다시 시도해주세요."
        result.retryAfter)

def resetLoginRateLimit (email clientIp : String) : AuthM Unit :=
  (rateLimitKeys d email clientIp).forM reset

def login (email password clientIp : String) : AuthM (IssuedTokens Tok) := do
  checkLoginRateLimit d email clientIp
  let user ← request (.getByEmail email)
  let passwordHash := match user with
    | some user => user.userPasswordHash
    | none => dummyPasswordHash
  let passwordOk := verifyPassword d password passwordHash
  match user with
  | none =>
      let _ ← request (.log (.loginFailedCredentials email))
      throw badCredentials
  | some user =>
      if !passwordOk then
        let _ ← request (.log (.loginFailedCredentials email))
        throw badCredentials
      if !user.userIsActive then
        let _ ← request (.log (.loginFailedInactive user.userId))
        throw badCredentials
      resetLoginRateLimit d email clientIp
      let _ ← request (.log (.loginSucceeded user.userId))
      issueTokens d user.userId

/-! ## Refresh -/

def refresh (refreshToken : Tok) : AuthM (IssuedTokens Tok) := do
  let payload ← decodeToken d refreshToken .refresh
  let state ← verify d payload.userId payload.jti refreshToken
  if state = .reused ∨ state = .forged then
    let revoked ← revokeAll payload.userId
    let _ ← request (.log (.refreshTokenCompromiseDetected payload.userId payload.jti
      state.value revoked))
    throw sessionExpired
  if state = .unknown then
    let _ ← request (.log (.refreshTokenNotFound payload.userId payload.jti))
    throw sessionExpired
  let user ← request (.getById payload.userId)
  match user with
  | none =>
      let _ ← revokeAll payload.userId
      throw sessionExpired
  | some user =>
      if !user.userIsActive then
        let _ ← revokeAll payload.userId
        throw sessionExpired
      let now ← request .now
      -- `timedelta.total_seconds()` truncated towards zero
      let remaining := ((payload.expiresAt : Int) - now).tdiv second
      rotate payload.userId payload.jti remaining
      let _ ← request (.log (.tokenRefreshed user.userId))
      issueTokens d user.userId

/-! ## Logout -/

def logout (refreshToken : Option Tok) : AuthM Unit := do
  match refreshToken with
  | none => return ()
  | some refreshToken =>
      let payload ← tryCatch (some <$> decodeToken d refreshToken .refresh)
        fun _ => return none
      match payload with
      | none => return ()
      | some payload =>
          revoke payload.userId payload.jti
          let _ ← request (.log (.logout payload.userId))

def logoutAll (userId : Nat) : AuthM Nat := do
  let revoked ← revokeAll userId
  let _ ← request (.log (.logoutAll userId revoked))
  return revoked

/-! ## Requests -/

inductive Request (Tok : Type) where
  | login (email password clientIp : String)
  | refresh (refreshToken : Tok)
  | logout (refreshToken : Option Tok)
  | logoutAll (userId : Nat)

/-- What a request returns: tokens, or the number of revoked sessions. -/
inductive Response (Tok : Type) where
  | tokens (issued : IssuedTokens Tok)
  | revoked (sessions : Nat)
  | done

/-- The program of a request. -/
def serve : Request Tok → AuthM (Response Tok)
  | .login email password clientIp => .tokens <$> login d email password clientIp
  | .refresh refreshToken => .tokens <$> refresh d refreshToken
  | .logout refreshToken => (fun _ => .done) <$> logout d refreshToken
  | .logoutAll userId => .revoked <$> logoutAll userId

end GreenCommunity.Auth
