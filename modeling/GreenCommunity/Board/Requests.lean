import GreenCommunity.Board.Reports

/-!
# Requests

Every operation of `PostService`, `CommentService` and `ReportService`, called by the
user of the access token.  The lookup of this user comes first, in the same session.
What a response shows is not kept.
-/

namespace GreenCommunity.Board

open GreenCommunity.Base
open GreenCommunity.Common

inductive Request where
  | getPost (postId : Int)
  | listPosts (params : PageParams)
  | createPost (payload : PostCreate)
  | updatePost (postId : Int) (payload : PostUpdate)
  | deletePost (postId : Int)
  | likePost (postId : Int)
  | unlikePost (postId : Int)
  | sharePost (postId : Int)
  | listImages (postId : Int)
  | uploadImage (postId : Int) (image : UploadFile)
  | listComments (postId : Int) (params : PageParams)
  | listReplies (commentId : Int)
  | createComment (postId : Int) (payload : CommentCreate)
  | updateComment (commentId : Int) (payload : CommentUpdate)
  | deleteComment (commentId : Int)
  | addReport (request : ReportCreateRequest)
  | listReports (params : PageParams)
  | processReport (reportId : Int) (request : ReportProcessRequest)

/-- What the deployment provides. -/
structure Deployment where
  libs : Libraries
  /-- A storage is configured. -/
  storage : Bool

variable (dep : Deployment)

/-- The service call of a request. -/
def call (user : User) : Request → BoardM Unit
  | .getPost postId => discard (PostService.getDetail postId user)
  | .listPosts params => discard (listPosts params)
  | .createPost payload => discard (PostService.create user payload)
  | .updatePost postId payload => discard (PostService.update postId user payload)
  | .deletePost postId => PostService.delete postId user
  | .likePost postId => PostService.likePost postId user
  | .unlikePost postId => PostService.unlikePost postId user
  | .sharePost postId => discard (PostService.getShareUrl postId)
  | .listImages postId => discard (PostService.listImages dep.storage postId)
  | .uploadImage postId image =>
      discard (PostService.uploadImage dep.libs dep.storage postId user image)
  | .listComments postId params => discard (listComments postId params)
  | .listReplies commentId => discard (CommentService.listByParent commentId)
  | .createComment postId payload => discard (CommentService.create postId user payload)
  | .updateComment commentId payload =>
      discard (CommentService.update commentId user payload)
  | .deleteComment commentId => CommentService.delete commentId user
  | .addReport request => discard (ReportService.addReport request user)
  | .listReports params => discard (listReports params)
  | .processReport reportId request =>
      ReportService.processReport reportId user.userId request

def inSession {α : Type} (body : BoardM α) : BoardM α :=
  Infrastructure.inSession (perform .rollback) (perform .close) body

/-- The program of a request made with the access token of the user `userId`. -/
def serve (userId : Int) (req : Request) : BoardM Unit :=
  inSession do
    let user ← getCurrentUser userId
    call dep user req

end GreenCommunity.Board
