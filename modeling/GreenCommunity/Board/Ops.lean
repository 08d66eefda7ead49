import GreenCommunity.Board.Tables
import GreenCommunity.Infrastructure.Database
import GreenCommunity.Infrastructure.Like
import Mathlib.Data.List.Sort

/-!
# The services behind the board

The operations are one SQL statement or one commit each, a reading of the clock, a new
UUID as its text of 36 characters, and a call of the object storage.  Any of them may
fail with `serviceError` and then has had no effect, except `rollback` and `close`, which
end the transaction whatever becomes of the connection.

A query without `ORDER BY` returns its rows in any order, and `ORDER BY` leaves the
order of equal rows open.  Likes are modelled on their own: here their operations may
answer anything.
-/

namespace GreenCommunity.Board

open GreenCommunity.Base
open GreenCommunity.Infrastructure (Collation)

/-! ## Queries -/

/-- What a report is about, as the conditions of `_same_reports` tell targets apart. -/
inductive Target where
  | post (postId : Int)
  | comment (postId commentId : Int)
  | user (reportedUserId : Int)
  deriving DecidableEq, Repr

def Target.includes : Target → Report → Bool
  | .post postId, row =>
      row.reportContentType == .post && row.postId == some postId && row.commentId.isNone
  | .comment postId commentId, row =>
      row.reportContentType == .comment && row.postId == some postId &&
        row.commentId == some commentId
  | .user reportedUserId, row =>
      row.reportContentType == .user && row.reportedUserId == reportedUserId &&
        row.postId.isNone && row.commentId.isNone

inductive Query where
  | user (userId : Int)
  | usersNamed (userNickname : String)
  | countUsers
  | pageUsers (offset limit : Nat)
  | activePost (postId : Int)
  | anyPost (postId : Int)
  | postDetail (postId : Int)
  | countPosts
  | pagePosts (offset limit : Nat)
  | notices
  | postImages (postId : Int)
  | postImage (imageId : Int)
  | activeComment (commentId : Int)
  | anyComment (commentId : Int)
  | countTopComments (postId : Int)
  | topComments (postId : Int)
  | countReplies (parentCommentIds : List Int)
  | replies (parentCommentId : Int)
  | report (reportId : Int)
  | pendingReports (offset limit : Nat)
  | countPending
  | pendingOf (target : Target)
  | userSanction (userSanctionId : Int)
  deriving DecidableEq, Repr

/-- What a query returns. -/
abbrev Query.Rows : Query → Type
  | .user _ | .usersNamed _ | .pageUsers _ _ => List User
  | .activePost _ | .anyPost _ => List Post
  | .postDetail _ | .pagePosts _ _ | .notices => List (Post × User)
  | .postImages _ | .postImage _ => List PostImage
  | .activeComment _ | .anyComment _ | .topComments _ | .replies _ => List Comment
  | .countUsers | .countPosts | .countTopComments _ | .countPending => Nat
  | .countReplies _ => List (Option Int × Nat)
  | .report _ | .pendingReports _ _ | .pendingOf _ => List Report
  | .userSanction _ => List UserSanction

/-- The `filters` of `list_paginated`, which the service calls without filter words. -/
def listed (row : Post) : Bool :=
  row.deletedAt.isNone && row.postStatus == .published && !row.postIsNotice

section Queries

variable (t : Tables)

/-- `PostRepository._active` -/
def activePosts : List Post :=
  t.posts.filter fun row => row.postStatus == .published && row.deletedAt.isNone

/-- `.join(User, Post.author_id == User.user_id)` -/
def withAuthors (posts : List Post) : List (Post × User) :=
  posts.flatMap fun post =>
    (t.users.filter fun user => user.userId == post.authorId).map fun user => (post, user)

/-- `CommentRepository._active` -/
def activeComments : List Comment :=
  t.comments.filter fun row => row.deletedAt.isNone

def topCommentsOf (postId : Int) : List Comment :=
  (activeComments t).filter fun row => row.postId == postId && row.parentCommentId.isNone

def repliesTo (parentCommentId : Int) : List Comment :=
  (activeComments t).filter fun row => row.parentCommentId == some parentCommentId

/-- The groups of `count_replies_by_parents`: the parents in question that have replies. -/
def replyGroups (parentCommentIds : List Int) : List (Option Int × Nat) :=
  (parentCommentIds.dedup.filter fun id => !(repliesTo t id).isEmpty).map fun id =>
    (some id, (repliesTo t id).length)

def pendingRows : List Report :=
  t.reports.filter fun row => row.reportStatus == .pending

end Queries

/-- `rows` are the candidates in an order that `ORDER BY` admits, and then the part that
`OFFSET` and `LIMIT` leave. -/
def Paged {R : Type} (before : R → R → Prop) (candidates : List R) (offset limit : Nat)
    (rows : List R) : Prop :=
  ∃ sorted : List R, sorted.Perm candidates ∧ sorted.Pairwise before ∧
    rows = (sorted.drop offset).take limit

/-- The answers of a query on the tables. -/
def Query.answers (coll : Collation) (t : Tables) : (query : Query) → query.Rows → Prop
  | .user userId, rows => rows = t.users.filter fun row => row.userId == userId
  | .usersNamed userNickname, rows =>
      Paged (fun _ _ => True)
        (t.users.filter fun row => coll.contains row.userNickname userNickname) 0 5 rows
  | .countUsers, count => count = t.users.length
  | .pageUsers offset limit, rows =>
      Paged (fun row row' => row'.userId ≤ row.userId) t.users offset limit rows
  | .activePost postId, rows =>
      rows = (activePosts t).filter fun row => row.postId == postId
  | .anyPost postId, rows => rows = t.posts.filter fun row => row.postId == postId
  | .postDetail postId, rows =>
      rows = withAuthors t ((activePosts t).filter fun row => row.postId == postId)
  | .countPosts, count => count = (t.posts.filter listed).length
  | .pagePosts offset limit, rows =>
      Paged (fun row row' => row'.1.postId ≤ row.1.postId)
        (withAuthors t ((activePosts t).filter listed)) offset limit rows
  | .notices, rows =>
      rows.Perm (withAuthors t ((activePosts t).filter fun row => row.postIsNotice))
  | .postImages postId, rows =>
      rows.Perm (t.postImages.filter fun row => row.postId == postId) ∧
        rows.Pairwise fun row row' => row.imageId ≤ row'.imageId
  | .postImage imageId, rows => rows = t.postImages.filter fun row => row.imageId == imageId
  | .activeComment commentId, rows =>
      rows = (activeComments t).filter fun row => row.commentId == commentId
  | .anyComment commentId, rows =>
      rows = t.comments.filter fun row => row.commentId == commentId
  | .countTopComments postId, count =>
      count = (t.comments.filter fun row =>
        row.postId == postId && row.deletedAt.isNone && row.parentCommentId.isNone).length
  | .topComments postId, rows => rows.Perm (topCommentsOf t postId)
  | .countReplies parentCommentIds, rows => rows.Perm (replyGroups t parentCommentIds)
  | .replies parentCommentId, rows => rows.Perm (repliesTo t parentCommentId)
  | .report reportId, rows => rows = t.reports.filter fun row => row.reportId == reportId
  | .pendingReports offset limit, rows =>
      Paged (fun row row' => row'.createdAt ≤ row.createdAt) (pendingRows t) offset limit
        rows
  | .countPending, count => count = (pendingRows t).length
  | .pendingOf target, rows => rows.Perm ((pendingRows t).filter target.includes)
  | .userSanction userSanctionId, rows =>
      rows = t.userSanctions.filter fun row => row.userSanctionId == userSanctionId

/-! ## Operations -/

structure State (C : Type) where
  db : Db C Tables Write
  /-- The `AUTO_INCREMENT` counters. -/
  nextId : Table → Int
  /-- The objects in storage, by their keys. -/
  objects : String → Option (List UInt8)
  /-- The UUIDs that have been made. -/
  fileIds : List String

inductive Op where
  | select (query : Query)
  | insert (row : NewRow)
  | update (change : Change)
  | countLikes (postId : Int)
  | getLike (postId userId : Int)
  | setLike (postId userId : Int) (liked : Bool)
  | now
  | uuid4
  | upload (key : String) (data : List UInt8) (contentType : Option String)
  | presign (key : String)
  | commit
  | rollback
  | close
  deriving DecidableEq, Repr

abbrev Result : Op → Type
  | .select query => query.Rows
  | .insert _ => Int
  | .countLikes _ | .now => Nat
  | .getLike _ _ => Bool
  | .uuid4 | .presign _ => String
  | .update _ | .setLike _ _ _ | .upload _ _ _ | .commit | .rollback | .close => Unit

abbrev Reply (op : Op) : Type := Infrastructure.Answer Result op

abbrev BoardM := Prog Op Reply AppError

abbrev BoardEvent := Event Op Reply

def perform (op : Op) : BoardM (Result op) := Infrastructure.perform op

section Steps

variable {C : Type} [DecidableEq C] (coll : Collation)

/-- A write that the database takes. -/
def writes (c : C) (s : State C) (w : Write) (s' : State C) : Prop :=
  s.db.Free Write.conflict c w ∧ s' = { s with db := s.db.write c w }

/-- An operation that succeeds. -/
def does (c : C) (s : State C) : (op : Op) → Result op → State C → Prop
  | .select query, rows, s' =>
      query.answers coll (s.db.view apply c) rows ∧ s' = { s with db := s.db.read c }
  | .insert new, r, s' =>
      r = s.nextId new.table ∧ ∃ createdAt row, new.row r createdAt = some row ∧
        writes c { s with nextId := Function.update s.nextId new.table (r + 1) }
          (.insert row) s'
  | .update change, _, s' => change.fits = true ∧ writes c s (.update change) s'
  | .countLikes _, _, s' | .getLike _ _, _, s' => s' = { s with db := s.db.read c }
  | .setLike _ _ _, _, s' | .now, _, s' | .presign _, _, s' => s' = s
  | .uuid4, r, s' =>
      r.length = 36 ∧ r ∉ s.fileIds ∧ s' = { s with fileIds := r :: s.fileIds }
  | .upload key data _, _, s' =>
      s' = { s with objects := Function.update s.objects key (some data) }
  | .commit, _, s' => s' = { s with db := s.db.commit apply c }
  | .rollback, _, s' | .close, _, s' => s' = { s with db := s.db.rollback c }

/-- The ways an operation fails: a column that may not be NULL is, or the call does not
go through, as with a text that is too long. -/
def fails : Op → AppError → Prop
  | .insert new, .integrityError => new.hasNull = true
  | .update change, .integrityError => change.hasNull = true
  | .now, _ | .uuid4, _ | .rollback, _ | .close, _ => False
  | _, e => e = .serviceError

def step (c : C) (s : State C) (op : Op) : Reply op → State C → Prop
  | .ok r, s' => does coll c s op r s'
  | .error e, s' => fails op e ∧ s' = s

/-- Other requests change the users. -/
def others (s s' : State C) : Prop :=
  ∃ users, s' = { s with db := { s.db with committed := { s.db.committed with users } } }

/-- The semantics of concurrent requests. -/
def sem : Sem C Op Reply (State C) where
  step := step coll
  env := others

/-- The semantics of a request with nobody else about. -/
def alone : Sem C Op Reply (State C) where
  step := step coll
  env s s' := s' = s

end Steps

end GreenCommunity.Board
