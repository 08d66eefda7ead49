import GreenCommunity.Base.Mvcc
import GreenCommunity.Infrastructure.Database

/-!
# The services behind likes

A like is written to Redis first and to the table `posts_like` later, by a job
that scans the Redis keys.  The operations are one Redis command, one SQL
statement or one commit each.  Any of them may fail with `serviceError` and then
has had no effect, except `rollback` and `close`, which end the transaction on
the server whatever becomes of the connection.

The keys `post_like:…` carry no time to live, so this part of Redis is a map from
texts to texts.  Which keys a `SCAN` iteration yields is the parameter `scans`:
the iteration runs over many commands and sees keys that come and go.  The table
`users` is not part of the state, and a user lookup may find any row.
-/

namespace GreenCommunity.Likes

open GreenCommunity.Base

/-! ## Tables -/

inductive PostStatus where
  | published
  | hidden
  | deleted
  deriving DecidableEq, Repr

structure Post where
  postId : Nat
  postStatus : PostStatus
  deletedAt : Option Nat
  deriving DecidableEq, Repr

structure PostLike where
  likeId : Nat
  postId : Nat
  userId : Nat
  deriving DecidableEq, Repr

/-- What `get_current_user` looks at in a row of `users`. -/
structure User where
  userId : Nat
  userIsActive : Bool
  deriving DecidableEq, Repr

structure Tables where
  posts : List Post
  postsLike : List PostLike

/-- A row is inserted, or deleted by its primary key. -/
inductive Write where
  | insert (like : PostLike)
  | delete (like : PostLike)
  deriving DecidableEq, Repr

def Tables.apply (t : Tables) : Write → Tables
  | .insert like => { t with postsLike := t.postsLike ++ [like] }
  | .delete like =>
      { t with postsLike := t.postsLike.filter fun row => row.likeId != like.likeId }

/-- The unique key `(post_id, user_id)` of the row a write is about. -/
def Write.key : Write → Nat × Nat
  | .insert like => (like.postId, like.userId)
  | .delete like => (like.postId, like.userId)

/-- Writes that wait for each other. -/
def Write.conflict (w w' : Write) : Prop := w.key = w'.key

structure State (C : Type) where
  redis : String → Option String
  db : Db C Tables Write
  /-- The `AUTO_INCREMENT` counter of `posts_like`. -/
  nextLikeId : Nat

/-! ## Operations -/

inductive Op where
  | get (key : String)
  | set (key value : String)
  | del (keys : List String)
  | scanIter (stem : String)
  | mget (keys : List String)
  | selectUser (userId : Nat)
  | selectPost (postId : Nat)
  | selectLike (postId userId : Nat)
  | countRows (postId : Nat)
  | selectUserIds (postId : Nat) (userIds : List Nat)
  | insertLike (postId userId : Nat)
  | deleteLike (like : PostLike)
  | commit
  | rollback
  | close
  deriving DecidableEq, Repr

abbrev Result : Op → Type
  | .get _ => Option String
  | .scanIter _ => List String
  | .mget _ => List (Option String)
  | .selectUser _ => List User
  | .selectPost _ => List Post
  | .selectLike _ _ => List PostLike
  | .countRows _ => Nat
  | .selectUserIds _ _ => List Nat
  | .set _ _ | .del _ | .insertLike _ _ | .deleteLike _ => Unit
  | .commit | .rollback | .close => Unit

abbrev Reply (op : Op) : Type := Infrastructure.Answer Result op

abbrev LikesM := Prog Op Reply AppError

abbrev LikesEvent := Event Op Reply

def perform (op : Op) : LikesM (Result op) := Infrastructure.perform op

/-- The operations that look at Redis or at the tables. -/
def Op.isRead : Op → Bool
  | .get _ | .scanIter _ | .mget _ => true
  | .selectUser _ | .selectPost _ | .selectLike _ _ => true
  | .countRows _ | .selectUserIds _ _ => true
  | .set _ _ | .del _ | .insertLike _ _ | .deleteLike _ => false
  | .commit | .rollback | .close => false

/-- The active posts with this id, and the like rows of this pair. -/
def Tables.activePost (t : Tables) (postId : Nat) : List Post :=
  t.posts.filter fun post =>
    post.postStatus == .published && post.deletedAt.isNone && post.postId == postId

def Tables.likesOf (t : Tables) (postId userId : Nat) : List PostLike :=
  t.postsLike.filter fun row => row.postId == postId && row.userId == userId

/-- The users of the like rows of a post. -/
def Tables.likers (t : Tables) (postId : Nat) : List Nat :=
  (t.postsLike.filter fun row => row.postId == postId).map PostLike.userId

/-- An iteration with nobody else about yields keys that are there, and each of them
at least once. -/
def FullScan (redis : String → Option String) (stem : String) (keys : List String) : Prop :=
  (∀ key ∈ keys, stem.toList <+: key.toList ∧ (redis key).isSome) ∧
  ∀ key, stem.toList <+: key.toList → (redis key).isSome → key ∈ keys

section Steps

variable {C : Type} [DecidableEq C]
  (scans : (String → Option String) → String → List String → Prop)

/-- An operation that succeeds. -/
def does (c : C) (s : State C) : (op : Op) → Result op → State C → Prop
  | .get key, r, s' => r = s.redis key ∧ s' = s
  | .set key value, _, s' =>
      s' = { s with redis := Function.update s.redis key (some value) }
  | .del keys, _, s' =>
      s' = { s with redis := fun key => if key ∈ keys then none else s.redis key }
  | .scanIter stem, r, s' => scans s.redis stem r ∧ s' = s
  | .mget keys, r, s' => r = keys.map s.redis ∧ s' = s
  | .selectUser userId, r, s' =>
      (r = [] ∨ ∃ user, r = [user] ∧ user.userId = userId) ∧
        s' = { s with db := s.db.read c }
  | .selectPost postId, r, s' =>
      r = (s.db.view Tables.apply c).activePost postId ∧ s' = { s with db := s.db.read c }
  | .selectLike postId userId, r, s' =>
      r = (s.db.view Tables.apply c).likesOf postId userId ∧
        s' = { s with db := s.db.read c }
  | .countRows postId, r, s' =>
      r = ((s.db.view Tables.apply c).likers postId).length ∧
        s' = { s with db := s.db.read c }
  | .selectUserIds postId userIds, r, s' =>
      r = ((s.db.view Tables.apply c).likers postId).filter (· ∈ userIds) ∧
        s' = { s with db := s.db.read c }
  | .insertLike postId userId, _, s' =>
      let like := ⟨s.nextLikeId, postId, userId⟩
      s.db.Free Write.conflict c (.insert like) ∧
        (s.db.current Tables.apply c).likesOf postId userId = [] ∧
        s' = { s with db := s.db.write c (.insert like), nextLikeId := s.nextLikeId + 1 }
  | .deleteLike like, _, s' =>
      -- a row that is gone is matched by nothing and locked by nobody
      if like ∈ (s.db.current Tables.apply c).postsLike then
        s.db.Free Write.conflict c (.delete like) ∧
          s' = { s with db := s.db.write c (.delete like) }
      else s' = s
  | .commit, _, s' => s' = { s with db := s.db.commit Tables.apply c }
  | .rollback, _, s' => s' = { s with db := s.db.rollback c }
  | .close, _, s' => s' = { s with db := s.db.rollback c }

/-- The ways an operation fails: the unique key rejects a row, or the call does not
go through. -/
def fails (c : C) (s : State C) : Op → AppError → Prop
  | .insertLike postId userId, .integrityError =>
      (s.db.current Tables.apply c).likesOf postId userId ≠ []
  | .rollback, _ => False
  | .close, _ => False
  | _, e => e = .serviceError

def step (c : C) (s : State C) (op : Op) : Reply op → State C → Prop
  | .ok r, s' => does scans c s op r s'
  | .error e, s' => fails c s op e ∧ s' = s

/-- Other requests change the posts. -/
def others (s s' : State C) : Prop :=
  ∃ posts, s' = { s with db := { s.db with committed := { s.db.committed with posts } } }

/-- The semantics of concurrent requests. -/
def sem : Sem C Op Reply (State C) where
  step := step scans
  env := others

end Steps

end GreenCommunity.Likes
