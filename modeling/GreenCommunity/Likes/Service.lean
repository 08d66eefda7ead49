import GreenCommunity.Likes.Repository

/-!
# Liking and unliking posts, and the sync job

`PostService.like_post` and `unlike_post`, the user lookup that a request begins with,
and `post_like_sync`.  A request and the job run in a database session of their own,
which is rolled back if the body raises and closed in any case: `get_db` does that for
requests, and the job for itself.
-/

namespace GreenCommunity.Likes

open GreenCommunity.Base
open GreenCommunity.Infrastructure (oneOrNone)

/-- `get_db`, and the `try … except … finally` of the job. -/
def inSession {α : Type} (body : LikesM α) : LikesM α :=
  Infrastructure.inSession (perform .rollback) (perform .close) body

/-- `get_current_user` behind a token that is in order. -/
def getCurrentUser (userId : Nat) : LikesM User := do
  let user ← oneOrNone (← perform (.selectUser userId))
  match user with
  | none => throw (.unauthorized "인증이 필요합니다.")
  | some user =>
      if !user.userIsActive then
        throw (.unauthorized "비활성화된 계정입니다. 다시 로그인해주세요.")
      return user

def likePost (postId userId : Nat) : LikesM Unit := do
  let post ← getById postId
  if post.isNone then
    throw (.notFound "게시글을 찾을 수 없습니다.")
  let existingLike ← getLike postId userId
  if existingLike then return ()
  addLike postId userId

def unlikePost (postId userId : Nat) : LikesM Unit := do
  let like ← getLike postId userId
  if !like then return ()
  deleteLike postId userId

def postLikeSync : LikesM Unit := inSession scanLikeToDb

inductive Request where
  | like (postId userId : Nat)
  | unlike (postId userId : Nat)
  | sync
  deriving DecidableEq, Repr

/-- The program of a request. -/
def serve : Request → LikesM Unit
  | .like postId userId => inSession (likePost postId userId)
  | .unlike postId userId => inSession (unlikePost postId userId)
  | .sync => postLikeSync

end GreenCommunity.Likes
