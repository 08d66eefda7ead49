import GreenCommunity.Board.Summary

/-!
# Which requests do what

Views are counted by two requests only, and images are stored and handed out by two
others.
-/

namespace GreenCommunity.Board

open GreenCommunity.Base
open GreenCommunity.Base.Prog
open GreenCommunity.Infrastructure (every_perform every_refreshed)

/-- An operation that has nothing to do with the view counters. -/
def Op.viewless : Op → Prop
  | .update (.views _) => False
  | _ => True

/-- An operation that has nothing to do with images. -/
def Op.imageless : Op → Prop
  | .insert (.postImage _ _ _ _) | .uuid4 | .upload _ _ _ | .presign _ => False
  | _ => True

/-- An operation that any request may issue. -/
def Op.common (op : Op) : Prop := op.viewless ∧ op.imageless

/-- A request that neither shows a post nor deals with images. -/
def Request.ordinary : Request → Prop
  | .getPost _ | .updatePost _ _ | .listImages _ | .uploadImage _ _ => False
  | _ => True

theorem light_viewless (op : Op) (h : op.light) : op.viewless := by
  cases op <;> first | exact absurd h id | trivial

theorem light_imageless (op : Op) (h : op.light) : op.imageless := by
  cases op <;> first | exact absurd h id | trivial

theorem light_common (op : Op) (h : op.light) : op.common :=
  ⟨light_viewless op h, light_imageless op h⟩

section Footprint

variable {P : Op → Prop} {α : Type}

theorem every_discard {p : BoardM α} (h : p.Every P) : (discard p).Every P :=
  every_bind h fun _ => every_ret ()

theorem getCurrentUser_every {userId : Int} (hP : P (.select (.user userId))) :
    (getCurrentUser userId).Every P := by
  refine every_bind (every_find (.user userId) hP id) fun found => ?_
  cases found with
  | none => trivial
  | some user =>
      dsimp only
      split <;> trivial

theorem getOwned_every (hP : ∀ query, P (.select query)) (postId : Int) (user : User) :
    (PostService.getOwned postId user).Every P := by
  refine every_bind (getById_every hP postId) fun found => ?_
  cases found with
  | none => trivial
  | some post =>
      dsimp only
      split <;> trivial

theorem getOwnedComment_every (hP : ∀ query, P (.select query)) (commentId : Int)
    (user : User) : (CommentService.getOwned commentId user).Every P := by
  refine every_bind (getComment_every (hP _)) fun found => ?_
  cases found with
  | none => trivial
  | some comment =>
      dsimp only
      split <;> trivial

/-! ## Showing a post -/

theorem getDetail_imageless (postId : Int) (user : User) :
    (PostService.getDetail postId user).Every Op.imageless := by
  have hselect : ∀ query, Op.imageless (.select query) := fun _ => trivial
  refine every_bind (every_find (.postDetail postId) (hselect _) id) fun found => ?_
  cases found with
  | none => trivial
  | some row =>
      have hcount : (PostService.countView row.1 user).Every Op.imageless := by
        rw [PostService.countView]
        split
        · refine every_bind (every_bind (every_perform trivial) fun _ =>
            every_bind (every_select hselect _) fun rows => every_refreshed) fun post => ?_
          exact every_bind (every_perform trivial) fun _ => every_ret post
        · trivial
      refine every_bind hcount fun post => ?_
      refine every_bind (every_perform trivial) fun count => ?_
      refine every_bind (every_perform trivial) fun liked => ?_
      exact every_bind (every_select hselect _) fun images => every_ret _

theorem flush_every {post : Post} {payload : PostUpdate}
    (hP : ∀ postId set, P (.update (.post postId set))) :
    (PostRepository.flush post payload).Every P := by
  rw [PostRepository.flush]
  split
  · exact every_perform (hP _ _)
  · trivial

theorem updatePost_imageless (postId : Int) (user : User) (payload : PostUpdate) :
    (PostService.update postId user payload).Every Op.imageless := by
  refine every_bind (getOwned_every (fun _ => trivial) postId user) fun post => ?_
  refine every_bind (flush_every fun _ _ => trivial) fun _ => ?_
  exact every_bind (every_perform trivial) fun _ => getDetail_imageless postId user

/-! ## Images -/

theorem listImages_viewless (storage : Bool) (postId : Int) :
    (PostService.listImages storage postId).Every Op.viewless := by
  have hselect : ∀ query, Op.viewless (.select query) := fun _ => trivial
  refine every_bind (getById_every hselect postId) fun found => ?_
  cases found with
  | none => trivial
  | some post =>
      refine every_bind (every_select hselect _) fun images => ?_
      split
      · trivial
      split
      · trivial
      refine every_mapM (fun image => ?_) images
      exact every_bind (every_perform trivial) fun url => every_ret _

theorem uploadImage_viewless (libs : Libraries) (storage : Bool) (postId : Int) (user : User)
    (image : UploadFile) :
    (PostService.uploadImage libs storage postId user image).Every Op.viewless := by
  have hselect : ∀ query, Op.viewless (.select query) := fun _ => trivial
  refine every_bind (getById_every hselect postId) fun found => ?_
  cases found with
  | none => trivial
  | some post =>
      dsimp only
      split
      · trivial
      split
      · trivial
      split
      · trivial
      have hconvert : (PostService.convertImage libs image.data).Every Op.viewless := by
        rw [PostService.convertImage]
        split <;> trivial
      refine every_bind hconvert fun datas => ?_
      refine every_bind (every_perform trivial) fun fileId => ?_
      refine every_bind (every_handle ?_ fun e => ?_) fun row => ?_
      · refine every_bind (every_perform trivial) fun _ => ?_
        refine every_bind (every_perform trivial) fun _ => ?_
        refine every_bind (every_perform trivial) fun _ => ?_
        refine every_bind (every_bind (every_perform trivial) fun _ =>
          every_bind (every_select hselect _) fun _ => every_refreshed) fun row => ?_
        exact every_bind (every_perform trivial) fun _ => every_ret row
      · exact every_bind (every_perform trivial) fun _ => every_raise e
      · exact every_bind (every_perform trivial) fun _ => every_ret _

/-! ## Everything else -/

theorem createPost_common (user : User) (payload : PostCreate) :
    (PostService.create user payload).Every Op.common := by
  refine every_bind (every_bind (every_perform ⟨trivial, trivial⟩) fun _ =>
    every_bind (every_select (fun _ => ⟨trivial, trivial⟩) _) fun _ => every_refreshed)
    fun post => ?_
  exact every_bind (every_perform ⟨trivial, trivial⟩) fun _ => every_ret _

theorem deletePost_common (postId : Int) (user : User) :
    (PostService.delete postId user).Every Op.common := by
  refine every_bind (getOwned_every (fun _ => ⟨trivial, trivial⟩) postId user) fun post => ?_
  refine every_bind (every_perform ⟨trivial, trivial⟩) fun now => ?_
  exact every_bind (every_perform ⟨trivial, trivial⟩)
    fun _ => every_perform ⟨trivial, trivial⟩

theorem createComment_common (postId : Int) (user : User) (payload : CommentCreate) :
    (CommentService.create postId user payload).Every Op.common := by
  have hselect : ∀ query, Op.common (.select query) := fun _ => ⟨trivial, trivial⟩
  have hrest : ∀ parentCommentId,
      (CommentService.validateMentions payload.commentContent >>= fun _ =>
        CommentRepository.add payload.commentContent postId user.userId
          parentCommentId >>= fun comment =>
        perform .commit >>= fun _ => ret comment).Every Op.common := by
    intro parentCommentId
    refine every_bind (validateMentions_every hselect _) fun _ => ?_
    refine every_bind (every_bind (every_perform ⟨trivial, trivial⟩) fun _ =>
      every_bind (every_select hselect _) fun _ => every_refreshed) fun comment => ?_
    exact every_bind (every_perform ⟨trivial, trivial⟩) fun _ => every_ret _
  refine every_bind (ensurePostExists_every hselect postId) fun _ => ?_
  cases payload.parentCommentId with
  | none => exact hrest none
  | some id =>
      refine every_bind (every_bind (getComment_every (hselect _)) fun found => ?_)
        fun _ => hrest (some id)
      cases found with
      | none => trivial
      | some parent =>
          dsimp only
          split
          · trivial
          split <;> trivial

theorem updateComment_common (commentId : Int) (user : User) (payload : CommentUpdate) :
    (CommentService.update commentId user payload).Every Op.common := by
  have hselect : ∀ query, Op.common (.select query) := fun _ => ⟨trivial, trivial⟩
  refine every_bind (getOwnedComment_every hselect commentId user) fun comment => ?_
  refine every_bind (validateMentions_every hselect _) fun _ => ?_
  refine every_bind ?_ fun _ =>
    every_bind (every_perform ⟨trivial, trivial⟩) fun _ => every_ret _
  rw [CommentRepository.flush]
  split
  · trivial
  · exact every_perform ⟨trivial, trivial⟩

theorem deleteComment_common (commentId : Int) (user : User) :
    (CommentService.delete commentId user).Every Op.common := by
  refine every_bind (getOwnedComment_every (fun _ => ⟨trivial, trivial⟩) commentId user)
    fun comment => ?_
  refine every_bind (every_perform ⟨trivial, trivial⟩) fun now => ?_
  exact every_bind (every_perform ⟨trivial, trivial⟩)
    fun _ => every_perform ⟨trivial, trivial⟩

theorem rollingBack_common {body : BoardM α} (h : body.Every Op.common) :
    (ReportService.rollingBack body).Every Op.common :=
  every_handle h fun e => every_bind (every_perform ⟨trivial, trivial⟩) fun _ => every_raise e

theorem addReport_common (request : ReportCreateRequest) (user : User) :
    (ReportService.addReport request user).Every Op.common := by
  have hselect : ∀ query, Op.common (.select query) := fun _ => ⟨trivial, trivial⟩
  refine every_bind (validateReport_every (fun _ => hselect _) (fun _ => hselect _) _ _ _ _ _)
    fun reported =>
    rollingBack_common ?_
  refine every_bind (every_bind (every_perform ⟨trivial, trivial⟩) fun _ =>
    every_bind (every_select hselect _) fun _ => every_refreshed) fun report => ?_
  exact every_bind (every_perform ⟨trivial, trivial⟩) fun _ => every_ret _

theorem hide_common (rep : Report) (request : ReportProcessRequest) :
    (ReportService.hide rep request).Every Op.common := by
  have hcontent : (ReportService.hideReportedContent rep).Every Op.common := by
    rw [ReportService.hideReportedContent]
    split
    · refine every_bind (getAnyById_every ⟨trivial, trivial⟩) fun found => ?_
      cases found with
      | none => trivial
      | some post =>
          dsimp only
          split
          · trivial
          · exact every_perform ⟨trivial, trivial⟩
    · trivial
    · trivial
  rw [ReportService.hide]
  split
  · exact hcontent
  · exact hcontent
  · trivial

theorem sanction_common (rep : Report) (request : ReportProcessRequest) :
    (ReportService.sanction rep request).Every Op.common := by
  rw [ReportService.sanction]
  split
  · rw [ReportService.addUserSanction]
    split
    · trivial
    split
    · trivial
    refine every_bind (every_bind (every_perform ⟨trivial, trivial⟩) fun _ =>
      every_bind (every_select (fun _ => ⟨trivial, trivial⟩) _) fun _ => every_refreshed)
      fun _ => every_ret _
  · trivial

theorem processReport_common (reportId reviewerUserId : Int) (request : ReportProcessRequest) :
    (ReportService.processReport reportId reviewerUserId request).Every Op.common := by
  have hselect : ∀ query, Op.common (.select query) := fun _ => ⟨trivial, trivial⟩
  refine every_bind (every_find (.report reportId) (hselect _) id) fun found => ?_
  cases found with
  | none => trivial
  | some rep =>
      refine every_bind
        (validateReport_every (fun _ => hselect _) (fun _ => hselect _) _ _ _ _ _) fun _ => ?_
      split
      · trivial
      refine rollingBack_common ?_
      refine every_bind (every_perform ⟨trivial, trivial⟩) fun now => ?_
      refine every_bind ?_ fun _ => every_bind (hide_common rep request) fun _ =>
        every_bind (sanction_common rep request) fun _ => every_perform ⟨trivial, trivial⟩
      rw [ReportRepository.updateReport]
      refine every_bind ?_ fun target => ?_
      · rw [ReportRepository.sameReports]
        split <;> trivial
      refine every_bind (every_select hselect _) fun batch => ?_
      exact every_bind (every_forM (fun row => every_perform ⟨trivial, trivial⟩) _)
        fun _ => every_ret _

/-- What an ordinary request may do. -/
theorem call_common (dep : Deployment) (user : User) {req : Request} (h : req.ordinary) :
    (call dep user req).Every Op.common := by
  cases req with
  | getPost | updatePost | listImages | uploadImage => exact absurd h id
  | listPosts => exact every_discard (listPosts_every light_common _)
  | createPost => exact every_discard (createPost_common _ _)
  | deletePost => exact deletePost_common _ _
  | likePost => exact likePost_every light_common _ _
  | unlikePost => exact unlikePost_every light_common _ _
  | sharePost => exact every_discard (getShareUrl_every light_common _)
  | listComments => exact every_discard (listComments_every light_common _ _)
  | listReplies => exact every_discard (listByParent_every light_common _)
  | createComment => exact every_discard (createComment_common _ _ _)
  | updateComment => exact every_discard (updateComment_common _ _ _)
  | deleteComment => exact deleteComment_common _ _
  | addReport => exact every_discard (addReport_common _ _)
  | listReports => exact every_discard (listReports_every light_common _)
  | processReport => exact processReport_common _ _ _

end Footprint

end GreenCommunity.Board
