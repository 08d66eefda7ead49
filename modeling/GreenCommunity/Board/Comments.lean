import GreenCommunity.Base.Text
import GreenCommunity.Board.Posts

/-!
# Comments

`CommentRepository` and `CommentService`.  The page of a listing is cut out of all the
top-level comments of the post, which are sorted in memory.
-/

namespace GreenCommunity.Board

open GreenCommunity.Base
open GreenCommunity.Common
open GreenCommunity.Infrastructure (oneOrNone refreshed changed datetime)

/-- A content as the schemas admit it. -/
def CommentFits (content : String) : Prop := 1 ≤ content.length ∧ content.length ≤ 1000

structure CommentCreate where
  commentContent : String
  parentCommentId : Option Int
  content_fits : CommentFits commentContent

structure CommentUpdate where
  commentContent : String
  content_fits : CommentFits commentContent

/-! ## Repository -/

namespace CommentRepository

def getById (commentId : Int) : BoardM (Option Comment) := do
  oneOrNone (← perform (.select (.activeComment commentId)))

def getParentComment (parentCommentId : Int) : BoardM (Option Comment) := do
  oneOrNone (← perform (.select (.activeComment parentCommentId)))

/-- `comments.sort(key=self._comment_sort_key, reverse=True)` -/
def newestFirst (comments : List Comment) : List Comment :=
  comments.insertionSort fun row row' =>
    row'.createdAt < row.createdAt ∨
      (row'.createdAt = row.createdAt ∧ row'.commentId ≤ row.commentId)

/-- The dictionary of reply counts, from the rows of the query. -/
def replyCounts (rows : List (Option Int × Nat)) : Int → Option Nat :=
  rows.foldl
    (fun counts row =>
      match row.1 with
      | some parentCommentId => Function.update counts parentCommentId (some row.2)
      | none => counts)
    fun _ => none

def countRepliesByParents (parentCommentIds : List Int) : BoardM (Int → Option Nat) :=
  if parentCommentIds = [] then
    return fun _ => none
  else do
    let rows ← perform (.select (.countReplies parentCommentIds))
    return replyCounts rows

def listByPost (postId : Int) (params : PageParams) :
    BoardM (List Comment × Nat × (Int → Option Nat)) := do
  let total ← perform (.select (.countTopComments postId))
  let comments ← perform (.select (.topComments postId))
  let comments := ((newestFirst comments).drop params.offset).take params.limit
  let counts ← countRepliesByParents (comments.map Comment.commentId)
  return (comments, total, counts)

def listByParent (parentCommentId : Int) : BoardM (List Comment) :=
  perform (.select (.replies parentCommentId))

def searchMentionUsers (userNickname : String) : BoardM (List User) :=
  perform (.select (.usersNamed userNickname))

def add (commentContent : String) (postId authorId : Int) (parentCommentId : Option Int) :
    BoardM Comment := do
  let commentId ← perform
    (.insert (.comment commentContent postId authorId parentCommentId))
  refreshed (← perform (.select (.anyComment commentId)))

/-- The flush of a comment with a new content. -/
def flush (comment : Comment) (commentContent : String) : BoardM Unit :=
  match changed comment.commentContent commentContent with
  | none => return ()
  | some commentContent =>
      perform (.update (.comment comment.commentId ⟨some commentContent, none⟩))

end CommentRepository

/-! ## Mentions -/

/-- `text.split()` -/
def splitWords (text : String) : List String :=
  ((text.toList.splitOnP Text.isSpace).filter fun word => word ≠ []).map String.ofList

/-! ## Service -/

namespace CommentService

def ensurePostExists (postId : Int) : BoardM Unit := do
  match ← PostRepository.getById postId with
  | none => throw (.notFound "게시글을 찾을 수 없습니다.")
  | some _ => return ()

def listByPost (postId : Int) (params : PageParams) :
    BoardM (List Comment × Nat × (Int → Option Nat)) := do
  ensurePostExists postId
  CommentRepository.listByPost postId params

def listByParent (commentId : Int) : BoardM (List Comment) := do
  match ← CommentRepository.getById commentId with
  | none => throw (.notFound "댓글을 찾을 수 없습니다.")
  | some _ => CommentRepository.listByParent commentId

def ensureMentioned (userNickname : String) : BoardM Unit := do
  let users ← CommentRepository.searchMentionUsers userNickname
  if users.any fun user => user.userNickname == userNickname then
    return ()
  else
    throw (.notFound s!"멘션한 사용자 @{userNickname}을 찾을 수 없습니다.")

/-- The check of one word: only `@` with a nickname behind it is a mention. -/
def validateWord (word : String) : BoardM Unit :=
  match word.toList with
  | '@' :: char :: chars => ensureMentioned (String.ofList (char :: chars))
  | _ => return ()

def validateMentions (commentContent : String) : BoardM Unit :=
  (splitWords commentContent).forM validateWord

/-- The checks of a reply. -/
def ensureRepliable (postId parentCommentId : Int) : BoardM Unit := do
  match ← CommentRepository.getParentComment parentCommentId with
  | none => throw (.notFound "댓글을 찾을 수 없습니다.")
  | some parentComment =>
      if parentComment.postId ≠ postId then
        throw (.notFound "해당 게시글의 댓글이 아닙니다.")
      else if parentComment.parentCommentId.isSome then
        throw (.forbidden "답글에는 다시 답글을 작성할 수 없습니다.")
      else
        return ()

def create (postId : Int) (author : User) (payload : CommentCreate) : BoardM Comment := do
  ensurePostExists postId
  match payload.parentCommentId with
  | none => pure ()
  | some parentCommentId => ensureRepliable postId parentCommentId
  validateMentions payload.commentContent
  let comment ← CommentRepository.add payload.commentContent postId author.userId
    payload.parentCommentId
  perform .commit
  return comment

def getOwned (commentId : Int) (currentUser : User) : BoardM Comment := do
  match ← CommentRepository.getById commentId with
  | none => throw (.notFound "댓글을 찾을 수 없습니다.")
  | some comment =>
      if comment.authorId ≠ currentUser.userId then
        throw (.forbidden "본인이 작성한 댓글만 수정/삭제할 수 있습니다.")
      else
        return comment

def update (commentId : Int) (currentUser : User) (payload : CommentUpdate) :
    BoardM Comment := do
  let comment ← getOwned commentId currentUser
  validateMentions payload.commentContent
  CommentRepository.flush comment payload.commentContent
  perform .commit
  return { comment with commentContent := payload.commentContent }

/-- The comment is not deleted, so the column changes. -/
def delete (commentId : Int) (currentUser : User) : BoardM Unit := do
  let comment ← getOwned commentId currentUser
  let now ← perform .now
  perform (.update (.comment comment.commentId ⟨none, some (datetime now)⟩))
  perform .commit

end CommentService

/-- The endpoint `GET /posts/…/comments`: the comments with their reply counts. -/
def listComments (postId : Int) (params : PageParams) :
    BoardM (PageResponse (Comment × Nat)) := do
  let (comments, total, counts) ← CommentService.listByPost postId params
  let items := comments.map fun comment => (comment, (counts comment.commentId).getD 0)
  return .create items total params

end GreenCommunity.Board
