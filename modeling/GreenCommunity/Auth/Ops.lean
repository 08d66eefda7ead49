import GreenCommunity.Base.Pool
import GreenCommunity.Base.Redis
import GreenCommunity.Core.Exceptions

/-!
# The services behind authentication

The operations that `AuthService` and its collaborators perform on shared
services, one constructor for each atomic step: reading the clock, drawing a
UUID, one Redis command, one Redis pipeline, one database read, one log line.
`State` is what these services hold and `step` is what each operation does.  None of
them fails in a run; a request that breaks off is one that takes no further step.

Third-party code and the deployment settings are the parameters `Deps`: PyJWT's
`encode` and `decode`, SHA-256, `bcrypt.checkpw`, the comparison of the email
column and Python's `str.lower`.  The only law asked of them is that decoding
inverts encoding.
-/

namespace GreenCommunity.Auth

open GreenCommunity.Base
open GreenCommunity.Base.Redis

/-! ## Settings and third-party code -/

structure Settings where
  accessTokenExpireMinutes : Nat
  refreshTokenExpireDays : Nat
  loginRateLimitMaxAttempts : Nat
  loginRateLimitWindowSeconds : Nat
  accessTokenExpireMinutes_pos : 1 ≤ accessTokenExpireMinutes
  refreshTokenExpireDays_pos : 1 ≤ refreshTokenExpireDays
  loginRateLimitMaxAttempts_pos : 1 ≤ loginRateLimitMaxAttempts
  loginRateLimitWindowSeconds_pos : 1 ≤ loginRateLimitWindowSeconds

/-- `RefreshTokenStore._ttl_seconds`. -/
def Settings.ttlSeconds (c : Settings) : Nat :=
  c.refreshTokenExpireDays * 24 * 60 * 60

theorem Settings.ttlSeconds_pos (c : Settings) : 0 < c.ttlSeconds := by
  have h := c.refreshTokenExpireDays_pos
  unfold Settings.ttlSeconds
  omega

/-- The life of a refresh token's Redis key, in clock ticks. -/
def Settings.ttl (c : Settings) : Nat := ticks c.ttlSeconds

theorem Settings.ttl_pos (c : Settings) : 0 < c.ttl :=
  ticks_pos c.ttlSeconds_pos

/-- The JWT payload. `iat` and `exp` are whole seconds since the epoch. -/
structure Claims where
  sub : String
  type : String
  jti : String
  iat : Nat
  exp : Nat
  deriving DecidableEq

structure Deps (Tok : Type) where
  settings : Settings
  /-- `jwt.encode` with the secret key. -/
  jwtEncode : Claims → Tok
  /-- `jwt.decode` up to the claim times: `none` for a bad signature, a malformed
  token or a missing claim. -/
  jwtDecode : Tok → Option Claims
  jwtDecode_encode : ∀ c, jwtDecode (jwtEncode c) = some c
  sha256 : Tok → String
  /-- `bcrypt.checkpw`; `none` where it raises `ValueError`. -/
  checkpw : String → String → Option Bool
  /-- Equality of the `user_email` column. -/
  sameEmail : String → String → Bool
  lower : String → String

/-! ## Shared state -/

structure User where
  userId : Nat
  userEmail : String
  userPasswordHash : String
  userIsActive : Bool
  deriving DecidableEq, Repr

structure State where
  clock : Nat
  redis : Keyspace
  users : List User
  /-- Every value `uuid4` has returned so far. -/
  uuids : List String

inductive LogEntry where
  | refreshTokenCompromiseDetected (userId : Nat) (jti state : String) (revokedSessions : Nat)
  | refreshTokenNotFound (userId : Nat) (jti : String)
  | tokenRefreshed (userId : Nat)
  | loginRateLimited (key : String) (attempts : Int)
  | loginFailedCredentials (email : String)
  | loginFailedInactive (userId : Nat)
  | loginSucceeded (userId : Nat)
  | logout (userId : Nat)
  | logoutAll (userId : Nat) (revokedSessions : Nat)
  deriving DecidableEq, Repr

/-! ## Operations -/

inductive Op where
  | now
  | uuid4
  | redis (c : Cmd)
  | pipeline (cs : List Cmd)
  | getById (userId : Nat)
  | getByEmail (userEmail : String)
  | log (entry : LogEntry)
  deriving DecidableEq, Repr

abbrev Reply : Op → Type
  | .now => Nat
  | .uuid4 => String
  | .redis c => c.Reply
  | .pipeline cs => Replies cs
  | .getById _ => Option User
  | .getByEmail _ => Option User
  | .log _ => Unit

abbrev AuthM := Prog Op Reply AppError

abbrev AuthEvent := Event Op Reply

/-- Issue one operation. -/
abbrev request (op : Op) : AuthM (Reply op) := Prog.request op

/-- `UserRepository.get_by_id` and `get_by_email`. -/
def getById (s : State) (userId : Nat) : Option User :=
  s.users.find? fun u => u.userId == userId

def getByEmail {Tok : Type} (d : Deps Tok) (s : State) (userEmail : String) :
    Option User :=
  s.users.find? fun u => d.sameEmail u.userEmail userEmail

/-- What each operation replies and does. `uuid4` never repeats a value. -/
def step {Tok : Type} (d : Deps Tok) (s : State) :
    (op : Op) → Reply op → State → Prop
  | .now, r, s' => r = s.clock ∧ s' = s
  | .uuid4, r, s' => r ∉ s.uuids ∧ s' = { s with uuids := r :: s.uuids }
  | .redis c, r, s' =>
      r = (exec s.clock s.redis c).1 ∧
        s' = { s with redis := (exec s.clock s.redis c).2 }
  | .pipeline cs, r, s' =>
      r = (pipeline s.clock s.redis cs).1 ∧
        s' = { s with redis := (pipeline s.clock s.redis cs).2 }
  | .getById userId, r, s' => r = getById s userId ∧ s' = s
  | .getByEmail userEmail, r, s' => r = getByEmail d s userEmail ∧ s' = s
  | .log _, _, s' => s' = s

/-- Time passes, and other requests may change the users table. -/
def drift (s s' : State) : Prop :=
  s.clock ≤ s'.clock ∧ s' = { s with clock := s'.clock, users := s'.users }

theorem drift_refl (s : State) : drift s s := ⟨Nat.le_refl _, rfl⟩

/-- The semantics of a pool of authentication requests. -/
def sem {Tok : Type} (C : Type) (d : Deps Tok) : Sem C Op Reply State where
  step _ s op r s' := step d s op r s'
  env := drift

/-- A step of the pool lets time pass or performs one event. -/
theorem pool_step {Tok C α : Type} [DecidableEq C] {d : Deps Tok}
    {cfg cfg' : Config C Op Reply AppError α State} {l : Label C Op Reply}
    (h : Step (sem C d) cfg l cfg') :
    (l = .env ∧ drift cfg.state cfg'.state) ∨
    (∃ c e, l = .call c e ∧ step d cfg.state e.op e.reply cfg'.state) := by
  cases h with
  | env h => exact Or.inl ⟨rfl, h⟩
  | @call c op k r s' _ hstep => exact Or.inr ⟨c, ⟨op, r⟩, rfl, hstep⟩

end GreenCommunity.Auth
