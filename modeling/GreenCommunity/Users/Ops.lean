import GreenCommunity.Auth.Ops
import GreenCommunity.Base.Mvcc
import GreenCommunity.Base.Rows
import GreenCommunity.Board.Tables
import GreenCommunity.Infrastructure.Collation
import GreenCommunity.Infrastructure.Database

/-!
# The table of users

The operations of signup, login and profile requests: one SQL statement or one commit
each, the hashing of a password, and what authentication asks of the clock, Redis and
the log, which may answer anything here.  Any statement may fail with `serviceError` and
then has had no effect, except `rollback` and `close`, which end the transaction whatever
becomes of the connection.

The unique key on `user_email` compares under the collation.  An `INSERT` waits for
another transaction that has inserted the same email; it is refused once a row with the
email is committed.
-/

namespace GreenCommunity.Users

open GreenCommunity.Base
open GreenCommunity.Board (UserRole)
open GreenCommunity.Infrastructure (Collation)

/-! ## The table -/

structure User extends Auth.User where
  userNickname : String
  userRole : UserRole
  deriving DecidableEq, Repr

/-- An `UPDATE` sets the columns that have changed. -/
inductive Write where
  | insert (row : User)
  | update (userId : Nat) (userNickname : Option String) (userIsActive : Option Bool)
  deriving DecidableEq, Repr

/-- The primary key of the row a write is about. -/
def Write.userId : Write → Nat
  | .insert row => row.userId
  | .update userId _ _ => userId

/-- The row with the given columns set. -/
def User.set (row : User) (userNickname : Option String) (userIsActive : Option Bool) : User :=
  { row with
    userNickname := userNickname.getD row.userNickname
    userIsActive := userIsActive.getD row.userIsActive }

def apply (t : List User) : Write → List User
  | .insert row => t ++ [row]
  | .update userId userNickname userIsActive =>
      updateAt (fun row => row.userId) userId (fun row => row.set userNickname userIsActive) t

/-- The first write waits while another transaction holds the second one. -/
def Write.Conflicts (coll : Collation) : Write → Write → Prop
  | .insert row, .insert row' => coll.same row.userEmail row'.userEmail = true
  | w, w' => w.userId = w'.userId

/-- A row has the email already. -/
def Registered (coll : Collation) (t : List User) (userEmail : String) : Prop :=
  ∃ row ∈ t, coll.same row.userEmail userEmail = true

structure State (C : Type) where
  db : Db C (List User) Write
  /-- The `AUTO_INCREMENT` counter. -/
  nextUserId : Nat

/-! ## Operations -/

inductive Op where
  | selectById (userId : Nat)
  | selectByEmail (userEmail : String)
  | countByEmail (userEmail : String)
  | insert (userEmail userPasswordHash userNickname : String)
  | update (userId : Nat) (userNickname : Option (Option String)) (userIsActive : Option Bool)
  | hashPassword (password : String)
  | auth (op : Auth.Op)
  | commit
  | rollback
  | close
  deriving DecidableEq, Repr

abbrev Result : Op → Type
  | .selectById _ | .selectByEmail _ => List User
  | .countByEmail _ | .insert _ _ _ => Nat
  | .hashPassword _ => String
  | .auth op => Auth.Reply op
  | .update _ _ _ | .commit | .rollback | .close => Unit

abbrev Reply (op : Op) : Type := Infrastructure.Answer Result op

abbrev UsersM := Prog Op Reply AppError

abbrev UsersEvent := Event Op Reply

def perform (op : Op) : UsersM (Result op) := Infrastructure.perform op

section Steps

variable {C : Type} [DecidableEq C] (coll : Collation)

def usersById (t : List User) (userId : Nat) : List User :=
  t.filter fun row => row.userId == userId

def usersByEmail (t : List User) (userEmail : String) : List User :=
  t.filter fun row => coll.same row.userEmail userEmail

/-- The row of a signup: the role and the flag are the defaults of their columns. -/
def newUser (userId : Nat) (userEmail userPasswordHash userNickname : String) : User where
  userId := userId
  userEmail := userEmail
  userPasswordHash := userPasswordHash
  userIsActive := true
  userNickname := userNickname
  userRole := .user

/-- A write that the database takes. -/
def writes (c : C) (s : State C) (w : Write) (s' : State C) : Prop :=
  s.db.Free (Write.Conflicts coll) c w ∧ s' = { s with db := s.db.write c w }

/-- An operation that succeeds. -/
def does (c : C) (s : State C) : (op : Op) → Result op → State C → Prop
  | .selectById userId, rows, s' =>
      rows = usersById (s.db.view apply c) userId ∧ s' = { s with db := s.db.read c }
  | .selectByEmail userEmail, rows, s' =>
      rows.Perm (usersByEmail coll (s.db.view apply c) userEmail) ∧
        s' = { s with db := s.db.read c }
  | .countByEmail userEmail, count, s' =>
      count = (usersByEmail coll (s.db.view apply c) userEmail).length ∧
        s' = { s with db := s.db.read c }
  | .insert userEmail userPasswordHash userNickname, r, s' =>
      r = s.nextUserId ∧ ¬ Registered coll (s.db.current apply c) userEmail ∧
        writes coll c { s with nextUserId := s.nextUserId + 1 }
          (.insert (newUser s.nextUserId userEmail userPasswordHash userNickname)) s'
  | .update userId userNickname userIsActive, _, s' =>
      userNickname ≠ some none ∧
        writes coll c s (.update userId userNickname.join userIsActive) s'
  | .hashPassword _, _, s' | .auth _, _, s' => s' = s
  | .commit, _, s' => s' = { s with db := s.db.commit apply c }
  | .rollback, _, s' | .close, _, s' => s' = { s with db := s.db.rollback c }

/-- The ways an operation fails: the unique key refuses a row, a column that may not be
NULL is, bcrypt does not take the password, or the call does not go through. -/
def fails (c : C) (s : State C) : Op → AppError → Prop
  | .insert userEmail _ _, .integrityError => Registered coll (s.db.current apply c) userEmail
  | .update _ userNickname _, .integrityError => userNickname = some none
  | .hashPassword _, e => ∃ message, e = .valueError message
  | .auth .now, _ | .auth .uuid4, _ | .auth (.log _), _ | .rollback, _ | .close, _ => False
  | _, e => e = .serviceError

def step (c : C) (s : State C) (op : Op) : Reply op → State C → Prop
  | .ok r, s' => does coll c s op r s'
  | .error e, s' => fails coll c s op e ∧ s' = s

/-- The semantics of concurrent requests. -/
def sem : Sem C Op Reply (State C) where
  step := step coll
  env s s' := s' = s

end Steps

end GreenCommunity.Users
