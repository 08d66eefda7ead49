import GreenCommunity.Auth.Service
import GreenCommunity.Users.Ops

/-!
# Accounts

`UserRepository`, `UserService`, `get_current_user` and the endpoints of `auth` and of
`users/me`.  The programs of authentication run in the session of the request: what they
read of the users is a `SELECT` here.
-/

namespace GreenCommunity.Users

open GreenCommunity.Base
open GreenCommunity.Infrastructure (oneOrNone refreshed changed)

/-! ## Payloads -/

def NicknameFits (userNickname : String) : Prop :=
  2 ≤ userNickname.length ∧ userNickname.length ≤ 50

def PasswordFits (userPassword : String) : Prop :=
  8 ≤ userPassword.length ∧ userPassword.length ≤ Auth.bcryptMaxPasswordBytes ∧
    userPassword.utf8ByteSize ≤ Auth.bcryptMaxPasswordBytes

structure UserCreate where
  userEmail : String
  userPassword : String
  userNickname : String
  password_fits : PasswordFits userPassword
  nickname_fits : NicknameFits userNickname

/-- A field of an update is absent, null or a value. -/
structure UserUpdate where
  userNickname : Option (Option String)
  nickname_fits : ∀ nickname, userNickname = some (some nickname) → NicknameFits nickname

/-! ## Repository -/

namespace UserRepository

def getById (userId : Nat) : UsersM (Option User) := do
  oneOrNone (← perform (.selectById userId))

def getByEmail (userEmail : String) : UsersM (Option User) := do
  oneOrNone (← perform (.selectByEmail userEmail))

def existsByEmail (userEmail : String) : UsersM Bool := do
  let count ← perform (.countByEmail userEmail)
  return count != 0

def add (userEmail userPasswordHash userNickname : String) : UsersM User := do
  let userId ← perform (.insert userEmail userPasswordHash userNickname)
  refreshed (← perform (.selectById userId))

/-- The flush of a user whose nickname and flag have been set: an `UPDATE` of those that
are not as loaded. -/
def flush (user : User) (userNickname : Option String) (userIsActive : Bool) : UsersM Unit :=
  let newNickname := changed (some user.userNickname) userNickname
  let newIsActive := changed user.userIsActive userIsActive
  if newNickname.isSome || newIsActive.isSome then
    perform (.update user.userId newNickname newIsActive)
  else
    return ()

end UserRepository

/-! ## Service -/

namespace UserService

def emailTaken : AppError := .conflict "이미 사용 중인 이메일입니다."

/-- The `except IntegrityError` of a signup. -/
def afterFailure (userEmail : String) : AppError → UsersM User
  | .integrityError => do
      perform .rollback
      if ← UserRepository.existsByEmail userEmail then
        throw emailTaken
      else
        throw .integrityError
  | e => throw e

def create (payload : UserCreate) : UsersM User := do
  if ← UserRepository.existsByEmail payload.userEmail then
    throw emailTaken
  else
    let userPasswordHash ← perform (.hashPassword payload.userPassword)
    (do
      let user ← UserRepository.add payload.userEmail userPasswordHash payload.userNickname
      perform .commit
      return user).handle (afterFailure payload.userEmail)

def update (user : User) (payload : UserUpdate) : UsersM User := do
  let userNickname := payload.userNickname.getD (some user.userNickname)
  UserRepository.flush user userNickname user.userIsActive
  perform .commit
  return { user with userNickname := userNickname.getD user.userNickname }

def deactivate (user : User) : UsersM Unit := do
  UserRepository.flush user (some user.userNickname) false
  perform .commit

end UserService

/-! ## Authentication in a session -/

/-- A program of authentication, with its reads of the users in the session. -/
def lift {α : Type} : Auth.AuthM α → UsersM α
  | .ret a => .ret a
  | .raise e => .raise e
  | .call (.getById userId) k => do
      let user ← UserRepository.getById userId
      lift (k (user.map User.toUser))
  | .call (.getByEmail userEmail) k => do
      let user ← UserRepository.getByEmail userEmail
      lift (k (user.map User.toUser))
  | .call op k => do
      let r ← perform (.auth op)
      lift (k r)

theorem lift_bind {α β : Type} (p : Auth.AuthM α) (f : α → Auth.AuthM β) :
    lift (p >>= f) = lift p >>= fun a => lift (f a) := by
  induction p with
  | ret a => rfl
  | raise e => rfl
  | call op k ih =>
      have hread : ∀ {γ : Type} (read : UsersM γ) (g : γ → Auth.Reply op),
          (read >>= fun x => lift (k (g x) >>= f)) =
            (read >>= fun x => lift (k (g x))) >>= fun a => lift (f a) := by
        intro γ read g
        rw [Prog.bind_assoc]
        exact congrArg _ (funext fun x => ih (g x))
      cases op with
      | getById userId => exact hread (UserRepository.getById userId) (Option.map User.toUser)
      | getByEmail userEmail =>
          exact hread (UserRepository.getByEmail userEmail) (Option.map User.toUser)
      | now => exact hread (perform (.auth .now)) id
      | uuid4 => exact hread (perform (.auth .uuid4)) id
      | redis cmd => exact hread (perform (.auth (.redis cmd))) id
      | pipeline cmds => exact hread (perform (.auth (.pipeline cmds))) id
      | log entry => exact hread (perform (.auth (.log entry))) id

theorem lift_getById {α : Type} (userId : Nat) (f : Option Auth.User → Auth.AuthM α) :
    lift (Auth.request (.getById userId) >>= f) =
      UserRepository.getById userId >>= fun user => lift (f (user.map User.toUser)) := rfl

theorem lift_getByEmail {α : Type} (userEmail : String) (f : Option Auth.User → Auth.AuthM α) :
    lift (Auth.request (.getByEmail userEmail) >>= f) =
      UserRepository.getByEmail userEmail >>= fun user => lift (f (user.map User.toUser)) := rfl

section Requests

variable {Tok : Type} (d : Auth.Deps Tok)

def unauthenticated : AppError := .unauthorized "인증이 필요합니다."

def getCurrentUser (credentials : Option Tok) : UsersM User := do
  match credentials with
  | none => throw unauthenticated
  | some token => do
      let payload ← lift (Auth.decodeToken d token .access)
      match ← UserRepository.getById payload.userId with
      | none => throw unauthenticated
      | some user =>
          if !user.userIsActive then
            throw (.unauthorized "비활성화된 계정입니다. 다시 로그인해주세요.")
          else
            return user

inductive Request (Tok : Type) where
  | signup (payload : UserCreate)
  | login (email password clientIp : String)
  /-- The token is that of the cookie, if there is one. -/
  | refresh (refreshToken : Option Tok)
  | logout (refreshToken : Option Tok)
  | logoutAll (credentials : Option Tok)
  | getMe (credentials : Option Tok)
  | updateMe (credentials : Option Tok) (payload : UserUpdate)
  | deactivateMe (credentials : Option Tok)

inductive Response (Tok : Type) where
  | user (user : User)
  | tokens (issued : Auth.IssuedTokens Tok)
  | revoked (sessions : Nat)
  | done

/-- The endpoints. -/
def endpoint : Request Tok → UsersM (Response Tok)
  | .signup payload => .user <$> UserService.create payload
  | .login email password clientIp => .tokens <$> lift (Auth.login d email password clientIp)
  | .refresh none => throw Auth.sessionExpired
  | .refresh (some refreshToken) => .tokens <$> lift (Auth.refresh d refreshToken)
  | .logout refreshToken => (fun _ => .done) <$> lift (Auth.logout d refreshToken)
  | .logoutAll credentials => do
      let user ← getCurrentUser d credentials
      .revoked <$> lift (Auth.logoutAll user.userId)
  | .getMe credentials => .user <$> getCurrentUser d credentials
  | .updateMe credentials payload => do
      let user ← getCurrentUser d credentials
      .user <$> UserService.update user payload
  | .deactivateMe credentials => do
      let user ← getCurrentUser d credentials
      (fun _ => .done) <$> UserService.deactivate user

/-- A request in its session. -/
def serve (req : Request Tok) : UsersM (Response Tok) :=
  Infrastructure.inSession (perform .rollback) (perform .close) (endpoint d req)

end Requests

end GreenCommunity.Users
