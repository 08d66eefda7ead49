import GreenCommunity.Auth.Service

/-!
# The endpoints of authentication

`modules/auth/router.py`: the refresh token travels in a cookie, which the answers to login
and refresh set and the answers to the two logouts clear.  A failed request is answered by
the exception handlers, which set no cookie.  An empty cookie counts as none.

`Jar` is what a browser keeps of the cookies that it gets: a cookie replaces the one with
its name and path, and is sent with the requests for its path and for what is below it.
The connection is taken to be one that `Secure` cookies are sent over.
-/

namespace GreenCommunity.Auth

open GreenCommunity.Base

variable {Tok : Type}

/-! ## Cookies -/

inductive SameSite where
  | lax
  | strict
  | none
  deriving DecidableEq, Repr

/-- The settings of the router. -/
structure Routing where
  apiV1Prefix : String
  cookieSecure : Bool
  cookieSamesite : SameSite

/-- A `Set-Cookie` of an answer; a cleared cookie has no value. -/
structure Cookie (Tok : Type) where
  key : String
  value : Option Tok
  httponly : Bool
  secure : Bool
  samesite : SameSite
  path : String
  maxAge : Nat

def refreshCookieName : String := "refresh_token"

variable (d : Deps Tok) (r : Routing)

/-- `_cookie_path`. -/
def cookiePath : String := s!"{r.apiV1Prefix}/auth"

/-- `_set_refresh_cookie`. -/
def refreshCookie (refreshToken : Tok) : Cookie Tok where
  key := refreshCookieName
  value := some refreshToken
  httponly := true
  secure := r.cookieSecure
  samesite := r.cookieSamesite
  path := cookiePath r
  maxAge := d.settings.refreshTokenExpireDays * 24 * 60 * 60

/-- `_clear_refresh_cookie`. -/
def clearedCookie : Cookie Tok where
  key := refreshCookieName
  value := none
  httponly := true
  secure := r.cookieSecure
  samesite := r.cookieSamesite
  path := cookiePath r
  maxAge := 0

/-! ## Endpoints -/

structure TokenResponse (Tok : Type) where
  accessToken : Tok
  tokenType : String := "bearer"
  expiresIn : Nat

/-- A body and the cookie that is set with it. -/
structure Answer (Tok Body : Type) where
  body : Body
  cookie : Cookie Tok

def tokenResponse (tokens : IssuedTokens Tok) : Answer Tok (TokenResponse Tok) where
  body := { accessToken := tokens.accessToken, expiresIn := tokens.expiresIn }
  cookie := refreshCookie d r tokens.refreshToken

/-- `_client_ip`. -/
def clientIp (client : Option String) : String := client.getD "unknown"

/-- `get_current_user`. -/
def currentUser (credentials : Option Tok) : AuthM User := do
  match credentials with
  | none => throw (.unauthorized "인증이 필요합니다.")
  | some token => do
      let payload ← decodeToken d token .access
      let user ← request (.getById payload.userId)
      match user with
      | none => throw (.unauthorized "인증이 필요합니다.")
      | some user =>
          if !user.userIsActive then
            throw (.unauthorized "비활성화된 계정입니다. 다시 로그인해주세요.")
          return user

namespace Router

def login (email password : String) (client : Option String) :
    AuthM (Answer Tok (TokenResponse Tok)) := do
  let tokens ← Auth.login d email password (clientIp client)
  return tokenResponse d r tokens

def refresh (cookie : Option Tok) : AuthM (Answer Tok (TokenResponse Tok)) := do
  match cookie with
  | none => throw sessionExpired
  | some refreshToken => do
      let tokens ← Auth.refresh d refreshToken
      return tokenResponse d r tokens

def logout (cookie : Option Tok) : AuthM (Answer Tok String) := do
  Auth.logout d cookie
  return { body := "로그아웃되었습니다.", cookie := clearedCookie r }

def logoutAll (credentials : Option Tok) : AuthM (Answer Tok String) := do
  let user ← currentUser d credentials
  let revoked ← Auth.logoutAll user.userId
  return { body := s!"{revoked}개의 세션이 종료되었습니다.", cookie := clearedCookie r }

end Router

/-! ## Browsers -/

abbrev Jar (Tok : Type) := List (Cookie Tok)

/-- A request for the path, or for what is below it. -/
def pathMatches (path requestPath : String) : Bool :=
  path == requestPath ||
    path.toList.isPrefixOf requestPath.toList &&
      (path.toList.getLast? == some '/' ||
        (requestPath.toList.drop path.toList.length).head? == some '/')

namespace Jar

/-- The cookie replaces the one of its name and path; a lifetime of zero deletes it. -/
def receive (jar : Jar Tok) (cookie : Cookie Tok) : Jar Tok :=
  let others := jar.filter fun old => !(old.key == cookie.key && old.path == cookie.path)
  if cookie.maxAge = 0 then others else cookie :: others

def sentTo (jar : Jar Tok) (requestPath : String) : List (Cookie Tok) :=
  jar.filter fun cookie => pathMatches cookie.path requestPath

/-- `request.cookies.get(REFRESH_COOKIE_NAME)`. -/
def refreshToken (jar : Jar Tok) (requestPath : String) : Option Tok :=
  ((jar.sentTo requestPath).find? fun cookie => cookie.key == refreshCookieName).bind
    Cookie.value

end Jar

/-- What a user does in a browser, as far as authentication is concerned.  Cookies are
forgotten when their time is over, or when the user deletes them. -/
inductive Visit (Tok : Type) where
  | login (email password : String) (client : Option String)
  | refresh
  | logout
  | logoutAll (credentials : Option Tok)
  | forget

/-- The request of a visit, and the cookie that is set. -/
def visit (jar : Jar Tok) : Visit Tok → AuthM (Option (Cookie Tok))
  | .login email password client => do
      let answer ← Router.login d r email password client
      return some answer.cookie
  | .refresh => do
      let answer ← Router.refresh d r (jar.refreshToken (cookiePath r ++ "/refresh"))
      return some answer.cookie
  | .logout => do
      let answer ← Router.logout d r (jar.refreshToken (cookiePath r ++ "/logout"))
      return some answer.cookie
  | .logoutAll credentials => do
      let answer ← Router.logoutAll d r credentials
      return some answer.cookie
  | .forget => return none

/-- The jar after a visit. -/
def Jar.after (jar : Jar Tok) : Visit Tok → Option (Cookie Tok) → Jar Tok
  | .forget, _ => []
  | _, none => jar
  | _, some cookie => jar.receive cookie

/-- A browser, which waits for every answer before the next visit. -/
def browse (jar : Jar Tok) : List (Visit Tok) → AuthM (Jar Tok)
  | [] => return jar
  | v :: vs => do
      let cookie ← (visit d r jar v).handle fun _ => return none
      browse (jar.after v cookie) vs

end GreenCommunity.Auth
