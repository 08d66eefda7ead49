import Mathlib.Algebra.Ring.Int.Defs
import Mathlib.Data.List.AList
import GreenCommunity.Likes.Ops

/-!
# Likes in the post repository

The part of `PostRepository` that deals with likes.  The session's unflushed
change is explicit: `add` and `delete` only register it, and it is sent before the
next `SELECT` (autoflush) and before `COMMIT`.
-/

namespace GreenCommunity.Likes

open GreenCommunity.Base
open GreenCommunity.Infrastructure (oneOrNone)

/-! ## Keys -/

def likeKey (postId userId : Nat) : String := s!"post_like:{postId}:{userId}"

/-- `_, post_id, user_id = key.split(":")` and the two calls of `int`. -/
def splitKey (key : String) : LikesM (Nat × Nat) :=
  match (key.toList.splitOn ':').map String.ofList with
  | [_, postId, userId] =>
      match postId.toNat?, userId.toNat? with
      | some postId, some userId => return (postId, userId)
      | _, _ => throw (.valueError "invalid literal for int() with base 10")
  | _ => throw (.valueError "not enough or too many values to unpack (expected 3)")

/-- `int(key.rsplit(":", 1)[1])`. -/
def userIdOf (key : String) : LikesM Nat :=
  match (key.toList.splitOn ':').reverse with
  | userId :: _ :: _ =>
      match (String.ofList userId).toNat? with
      | some userId => return userId
      | none => throw (.valueError "invalid literal for int() with base 10")
  | _ => throw .indexError

/-! ## Queries -/

def getById (postId : Nat) : LikesM (Option Post) := do
  oneOrNone (← perform (.selectPost postId))

def getLike (postId userId : Nat) : LikesM Bool := do
  let redisStatus ← perform (.get (likeKey postId userId))
  match redisStatus with
  | some status => return status == "1"
  | none =>
      let like ← oneOrNone (← perform (.selectLike postId userId))
      return like.isSome

/-- `zip` with `strict=True`. -/
def zipStrict {α β : Type} (xs : List α) (ys : List β) : LikesM (List (α × β)) :=
  if xs.length = ys.length then return xs.zip ys
  else throw (.valueError "zip() arguments have different lengths")

/-- A dictionary from user ids to whether the user likes the post. -/
abbrev Pending := AList fun _ : Nat => Bool

/-- The comprehension of `count_likes`: the last value of a user counts. The order of the
dictionary's entries has no effect. -/
def pendingLikes : List (String × Option String) → Pending → LikesM Pending
  | [], pending => return pending
  | (_, none) :: pairs, pending => pendingLikes pairs pending
  | (key, some value) :: pairs, pending => do
      let userId ← userIdOf key
      pendingLikes pairs (pending.insert userId (value == "1"))

/-- What `count_likes` does behind its look at Redis. -/
def correctedCount (postId : Nat) (pending : Pending) : LikesM Int := do
  let total ← perform (.countRows postId)
  if pending.entries = [] then return total
  let saved ← perform (.selectUserIds postId pending.keys)
  return total + (pending.entries.map fun entry =>
    (entry.2.toNat : Int) - ((decide (entry.1 ∈ saved)).toNat : Int)).sum

def countLikes (postId : Nat) : LikesM Int := do
  let keys ← perform (.scanIter s!"post_like:{postId}:")
  let pending ← if keys ≠ [] then do
      let values ← perform (.mget keys)
      pendingLikes (← zipStrict keys values) ∅
    else pure ∅
  correctedCount postId pending

def addLike (postId userId : Nat) : LikesM Unit :=
  perform (.set (likeKey postId userId) "1")

def deleteLike (postId userId : Nat) : LikesM Unit :=
  perform (.set (likeKey postId userId) "0")

/-! ## Writing likes back -/

/-- A change registered with the session and not yet sent. -/
inductive Change where
  | add (postId userId : Nat)
  | delete (like : PostLike)
  deriving DecidableEq, Repr

def flush : Option Change → LikesM Unit
  | none => return ()
  | some (.add postId userId) => perform (.insertLike postId userId)
  | some (.delete like) => perform (.deleteLike like)

/-- What `scan_like_to_db` registers for a key. -/
def change (status : Option String) (postId userId : Nat) :
    Option PostLike → Option Change
  | none => if status = some "1" then some (.add postId userId) else none
  | some existingLike => if status = some "0" then some (.delete existingLike) else none

/-- The loop of `scan_like_to_db`. It returns the change that is still unsent and
`processed_keys`. -/
def scanKeys : List String → Option Change → List String →
    LikesM (Option Change × List String)
  | [], unsent, processedKeys => return (unsent, processedKeys)
  | key :: keys, unsent, processedKeys => do
      let (postId, userId) ← splitKey key
      let status ← perform (.get key)
      flush unsent
      let existingLike ← oneOrNone (← perform (.selectLike postId userId))
      scanKeys keys (change status postId userId existingLike) (processedKeys ++ [key])

def scanLikeToDb : LikesM Unit := do
  let keys ← perform (.scanIter "post_like:")
  let (unsent, processedKeys) ← scanKeys keys none []
  flush unsent
  perform .commit
  if processedKeys ≠ [] then
    perform (.del processedKeys)

end GreenCommunity.Likes
