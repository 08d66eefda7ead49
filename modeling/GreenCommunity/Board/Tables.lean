import GreenCommunity.Base.Mvcc
import GreenCommunity.Base.Rows
import GreenCommunity.Likes.Ops

/-!
# The tables of the board

Users write posts and comments, add images to posts and report content; reports are
decided and lead to sanctions.  None of these rows is ever deleted: deleting a post or
a comment records the time, and hiding a post changes its status.  The tables have no
foreign keys.

A row that is inserted gets its number and its time of creation from the database.  An
`UPDATE` names a row by its primary key and sets some columns, from values that were
computed before, whatever the row holds by then.  Only the view counter is incremented
in place.
-/

namespace GreenCommunity.Board

open GreenCommunity.Base

export GreenCommunity.Likes (PostStatus)

/-! ## Rows -/

inductive UserRole where
  | user
  | admin
  deriving DecidableEq, Repr

structure User where
  userId : Int
  userNickname : String
  userRole : UserRole
  userIsActive : Bool
  deriving DecidableEq, Repr

structure Post where
  postId : Int
  postTitle : String
  postContent : String
  authorId : Int
  postViewCount : Int
  postStatus : PostStatus
  postIsNotice : Bool
  deletedAt : Option Nat
  deriving DecidableEq, Repr

structure PostImage where
  imageId : Int
  postId : Int
  imageOriginalPath : String
  imageContentPath : String
  imageThumbnailPath : String
  deriving DecidableEq, Repr

structure Comment where
  commentId : Int
  commentContent : String
  postId : Int
  authorId : Int
  parentCommentId : Option Int
  createdAt : Nat
  deletedAt : Option Nat
  deriving DecidableEq, Repr

inductive ContentType where
  | post
  | comment
  | user
  deriving DecidableEq, Repr

inductive ReportStatus where
  | pending
  | accepted
  | rejected
  deriving DecidableEq, Repr

inductive SanctionType where
  | warning
  | suspended
  | banned
  deriving DecidableEq, Repr

structure Report where
  reportId : Int
  reporterUserId : Option Int
  reportContentType : ContentType
  postId : Option Int
  postTitle : String
  postContent : String
  commentId : Option Int
  commentContent : String
  reportedUserId : Int
  reportCategory : String
  reportReason : Option String
  reportStatus : ReportStatus
  userSanctionType : Option SanctionType
  reviewerUserId : Option Int
  processedAt : Option Nat
  createdAt : Nat
  deriving DecidableEq, Repr

structure UserSanction where
  userSanctionId : Int
  reportedUserId : Int
  userSanctionType : SanctionType
  userSanctionReason : String
  reportId : Int
  expiresAt : Option Nat
  deriving DecidableEq, Repr

structure Tables where
  users : List User
  posts : List Post
  postImages : List PostImage
  comments : List Comment
  reports : List Report
  userSanctions : List UserSanction
  deriving DecidableEq, Repr

/-! ## Inserts -/

/-- The tables that requests write to. -/
inductive Table where
  | posts
  | postImages
  | comments
  | reports
  | userSanctions
  deriving DecidableEq, Repr

inductive Row where
  | post (row : Post)
  | postImage (row : PostImage)
  | comment (row : Comment)
  | report (row : Report)
  | userSanction (row : UserSanction)
  deriving DecidableEq, Repr

/-- The columns that an `INSERT` names. -/
inductive NewRow where
  | post (postTitle postContent : String) (authorId : Int)
  | postImage (postId : Int)
      (imageOriginalPath imageContentPath imageThumbnailPath : String)
  | comment (commentContent : String) (postId authorId : Int) (parentCommentId : Option Int)
  | report (reporterUserId : Option Int) (reportContentType : ContentType)
      (postId : Option Int) (postTitle postContent : Option String) (commentId : Option Int)
      (commentContent : Option String) (reportedUserId : Int) (reportCategory : String)
      (reportReason : Option String)
  | userSanction (reportedUserId : Int) (userSanctionType : SanctionType)
      (userSanctionReason : String) (reportId : Int) (expiresAt : Option Nat)
  deriving DecidableEq, Repr

def NewRow.table : NewRow → Table
  | .post _ _ _ => .posts
  | .postImage _ _ _ _ => .postImages
  | .comment _ _ _ _ => .comments
  | .report _ _ _ _ _ _ _ _ _ _ => .reports
  | .userSanction _ _ _ _ _ => .userSanctions

/-- A column that is not nullable would be NULL. -/
def NewRow.hasNull : NewRow → Bool
  | .report _ _ _ postTitle postContent _ commentContent _ _ _ =>
      postTitle.isNone || postContent.isNone || commentContent.isNone
  | _ => false

/-- A `VARCHAR` column takes so many characters. -/
def varchar (n : Nat) (value : String) : Bool := value.length ≤ n

/-- A `TEXT` column takes so many bytes. What is stored of comments and sanctions is shorter
anyway. -/
def text (value : String) : Bool := value.utf8ByteSize ≤ 65535

/-- The row with the number `n`, created at `createdAt`. There is none if a column that
is not nullable would be NULL or a text is too long. -/
def NewRow.row (n : Int) (createdAt : Nat) : NewRow → Option Row
  | .post postTitle postContent authorId =>
      if varchar 200 postTitle && text postContent then
        some (.post ⟨n, postTitle, postContent, authorId, 0, .published, false, none⟩)
      else none
  | .postImage postId imageOriginalPath imageContentPath imageThumbnailPath =>
      if [imageOriginalPath, imageContentPath, imageThumbnailPath].all (varchar 500) then
        some (.postImage ⟨n, postId, imageOriginalPath, imageContentPath, imageThumbnailPath⟩)
      else none
  | .comment commentContent postId authorId parentCommentId =>
      some (.comment ⟨n, commentContent, postId, authorId, parentCommentId, createdAt, none⟩)
  | .report reporterUserId reportContentType postId (some postTitle) (some postContent)
      commentId (some commentContent) reportedUserId reportCategory reportReason =>
      if varchar 200 postTitle && varchar 50 reportCategory &&
          [postContent, commentContent, reportReason.getD ""].all text then
        some (.report ⟨n, reporterUserId, reportContentType, postId, postTitle, postContent,
          commentId, commentContent, reportedUserId, reportCategory, reportReason, .pending,
          none, none, none, createdAt⟩)
      else none
  | .report _ _ _ _ _ _ _ _ _ _ => none
  | .userSanction reportedUserId userSanctionType userSanctionReason reportId expiresAt =>
      some (.userSanction ⟨n, reportedUserId, userSanctionType, userSanctionReason, reportId,
        expiresAt⟩)

/-! ## Updates -/

/-- The columns of a post that an `UPDATE` sets. A text column may be sent NULL. -/
structure PostSet where
  postTitle : Option (Option String)
  postContent : Option (Option String)
  postStatus : Option PostStatus
  deletedAt : Option Nat
  deriving DecidableEq, Repr

structure CommentSet where
  commentContent : Option String
  deletedAt : Option Nat
  deriving DecidableEq, Repr

structure ReportSet where
  reportStatus : ReportStatus
  userSanctionType : Option (Option SanctionType)
  reviewerUserId : Option Int
  processedAt : Nat
  deriving DecidableEq, Repr

inductive Change where
  | post (postId : Int) (set : PostSet)
  | views (postId : Int)
  | comment (commentId : Int) (set : CommentSet)
  | report (reportId : Int) (set : ReportSet)
  deriving DecidableEq, Repr

def Change.hasNull : Change → Bool
  | .post _ set => set.postTitle == some none || set.postContent == some none
  | _ => false

/-- No column that is not nullable is set to NULL and no text is too long. -/
def Change.fits : Change → Bool
  | .post postId set =>
      !Change.hasNull (.post postId set) && set.postTitle.join.all (varchar 200) &&
        set.postContent.join.all text
  | _ => true

def Post.set (row : Post) (set : PostSet) : Post :=
  { row with
    postTitle := set.postTitle.join.getD row.postTitle
    postContent := set.postContent.join.getD row.postContent
    postStatus := set.postStatus.getD row.postStatus
    deletedAt := set.deletedAt.or row.deletedAt }

def Comment.set (row : Comment) (set : CommentSet) : Comment :=
  { row with
    commentContent := set.commentContent.getD row.commentContent
    deletedAt := set.deletedAt.or row.deletedAt }

def Report.set (row : Report) (set : ReportSet) : Report :=
  { row with
    reportStatus := set.reportStatus
    userSanctionType := set.userSanctionType.getD row.userSanctionType
    reviewerUserId := set.reviewerUserId.or row.reviewerUserId
    processedAt := some set.processedAt }

/-! ## Writes -/

inductive Write where
  | insert (row : Row)
  | update (change : Change)
  deriving DecidableEq, Repr

def Tables.insert (t : Tables) : Row → Tables
  | .post row => { t with posts := t.posts ++ [row] }
  | .postImage row => { t with postImages := t.postImages ++ [row] }
  | .comment row => { t with comments := t.comments ++ [row] }
  | .report row => { t with reports := t.reports ++ [row] }
  | .userSanction row => { t with userSanctions := t.userSanctions ++ [row] }

def Tables.update (t : Tables) : Change → Tables
  | .post postId set =>
      { t with posts := updateAt Post.postId postId (fun row => row.set set) t.posts }
  | .views postId =>
      { t with
        posts := updateAt Post.postId postId
          (fun row => { row with postViewCount := row.postViewCount + 1 }) t.posts }
  | .comment commentId set =>
      { t with
        comments := updateAt Comment.commentId commentId (fun row => row.set set) t.comments }
  | .report reportId set =>
      { t with
        reports := updateAt Report.reportId reportId (fun row => row.set set) t.reports }

def apply (t : Tables) : Write → Tables
  | .insert row => t.insert row
  | .update change => t.update change

/-- The table and the primary key of a row. -/
def Row.key : Row → Table × Int
  | .post row => (.posts, row.postId)
  | .postImage row => (.postImages, row.imageId)
  | .comment row => (.comments, row.commentId)
  | .report row => (.reports, row.reportId)
  | .userSanction row => (.userSanctions, row.userSanctionId)

def Change.key : Change → Table × Int
  | .post postId _ | .views postId => (.posts, postId)
  | .comment commentId _ => (.comments, commentId)
  | .report reportId _ => (.reports, reportId)

def Write.key : Write → Table × Int
  | .insert row => row.key
  | .update change => change.key

/-- Writes to one row wait for each other. -/
def Write.conflict (w w' : Write) : Prop := w.key = w'.key

end GreenCommunity.Board
