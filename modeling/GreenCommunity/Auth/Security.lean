import GreenCommunity.Auth.Ops

/-!
# Tokens and passwords

`core/security.py`: issuing and decoding JWTs, and the two hash checks.  A token
carries whole-second times (`exp` is truncated by PyJWT) while the clock runs in
ticks; a token is accepted while the clock is before `exp`.
-/

namespace GreenCommunity.Auth

open GreenCommunity.Base
open GreenCommunity.Base.Redis

variable {Tok : Type} (d : Deps Tok)

inductive TokenType where
  | access
  | refresh
  deriving DecidableEq, Repr

def TokenType.value : TokenType → String
  | .access => "access"
  | .refresh => "refresh"

structure TokenPayload where
  userId : Nat
  tokenType : TokenType
  jti : String
  /-- In clock ticks. -/
  expiresAt : Nat
  deriving DecidableEq

/-! ## Passwords -/

def bcryptMaxPasswordBytes : Nat := 72

def verifyPassword (password passwordHash : String) : Bool :=
  if password.utf8ByteSize > bcryptMaxPasswordBytes then false
  else (d.checkpw password passwordHash).getD false

/-! ## JWT -/

/-- `_create_token`: the token, its `jti` and its expiry. -/
def createToken (userId : Nat) (tokenType : TokenType) (expiresDelta : Nat) :
    AuthM (Tok × String × Nat) := do
  let now ← request .now
  let expiresAt := now + expiresDelta
  let jti ← request .uuid4
  let token := d.jwtEncode
    { sub := toString userId
      type := tokenType.value
      jti := jti
      iat := now / second
      exp := expiresAt / second }
  return (token, jti, expiresAt)

def createAccessToken (userId : Nat) : AuthM Tok := do
  let (token, _, _) ← createToken d userId .access
    (ticks (d.settings.accessTokenExpireMinutes * 60))
  return token

def createRefreshToken (userId : Nat) : AuthM (Tok × String) := do
  let (token, jti, _) ← createToken d userId .refresh
    (ticks (d.settings.refreshTokenExpireDays * 24 * 60 * 60))
  return (token, jti)

def invalidToken : AppError := .unauthorized "유효하지 않은 토큰입니다."

def decodeToken (token : Tok) (expectedType : TokenType) : AuthM TokenPayload := do
  let now ← request .now
  match d.jwtDecode token with
  | none => throw invalidToken
  | some claims =>
      if now < ticks claims.iat then throw invalidToken
      if ticks claims.exp ≤ now then throw invalidToken
      if claims.type ≠ expectedType.value then throw invalidToken
      match claims.sub.toNat? with
      | none => throw invalidToken
      | some userId =>
          return { userId := userId
                   tokenType := expectedType
                   jti := claims.jti
                   expiresAt := ticks claims.exp }

/-! ## Token hashes -/

def hashToken (token : Tok) : String := d.sha256 token

def verifyTokenHash (token : Tok) (storedHash : String) : Bool :=
  hashToken d token == storedHash

end GreenCommunity.Auth
