import GreenCommunity.Board.Orphans

/-!
# What each request may write

`Request.Writes` lists for every request the rows that it may insert and the updates that
it may issue; everything else it does leaves the tables alone.
-/

namespace GreenCommunity.Board

open GreenCommunity.Base
open GreenCommunity.Base.Prog
open GreenCommunity.Infrastructure (every_perform every_refreshed)

/-- The writes that a request may issue, and all that writes no row. -/
def Request.Writes : Request → Op → Prop
  | .getPost _, .update (.views _) => True
  | .createPost _, .insert (.post _ _ _) => True
  | .updatePost _ _, .update (.views _) => True
  | .updatePost _ _, .update (.post _ set) | .deletePost _, .update (.post _ set) => set.ByOwner
  | .uploadImage _ _, .insert (.postImage _ _ _ _) => True
  | .createComment _ _, .insert (.comment _ _ _ _) => True
  | .updateComment _ _, .update (.comment _ _) => True
  | .deleteComment _, .update (.comment _ _) => True
  | .addReport _, .insert (.report _ _ _ _ _ _ _ _ _ _) => True
  | .processReport _ _, .update (.post _ set) => set = hideSet
  | .processReport _ _, .update (.report _ _)
  | .processReport _ _, .insert (.userSanction _ _ _ _ _) => True
  | _, op => op.rowless

theorem writes_of_rowless {req : Request} {op : Op} (h : op.rowless) : req.Writes op := by
  cases op with
  | insert | update => exact h.elim
  | _ => cases req <;> trivial

theorem light_rowless {op : Op} (h : op.light) : op.rowless := by
  cases op <;> first | exact absurd h id | trivial

section Writes

variable {P : Op → Prop} {α : Type} (hP : ∀ op, op.rowless → P op)
include hP

theorem getDetail_every (hviews : ∀ id, P (.update (.views id))) (postId : Int) (user : User) :
    (PostService.getDetail postId user).Every P := by
  have hselect : ∀ query, P (.select query) := fun _ => hP _ trivial
  refine every_bind (every_find (.postDetail postId) (hselect _) id) fun found => ?_
  match found with
  | none => trivial
  | some (post, author) =>
      refine every_bind ?_ fun post => every_bind (every_perform (hP _ trivial)) fun count =>
        every_bind (every_perform (hP _ trivial)) fun liked =>
          every_bind (every_select hselect _) fun images => every_ret _
      rw [PostService.countView]
      split
      · refine every_bind (every_bind (every_perform (hviews _)) fun _ =>
          every_bind (every_select hselect _) fun rows => every_refreshed) fun post => ?_
        exact every_bind (every_perform (hP _ trivial)) fun _ => every_ret post
      · trivial

omit hP in
theorem flush_by_owner {post : Post} {payload : PostUpdate}
    (hset : ∀ postId set, set.ByOwner → P (.update (.post postId set))) :
    (PostRepository.flush post payload).Every P := by
  rw [PostRepository.flush]
  split
  · exact every_perform (hset _ _ (Or.inl ⟨rfl, rfl⟩))
  · trivial

theorem listImages_every (storage : Bool) (postId : Int) :
    (PostService.listImages storage postId).Every P := by
  refine every_bind (getById_every (fun _ => hP _ trivial) postId) fun found => ?_
  cases found with
  | none => trivial
  | some post =>
      refine every_bind (every_select (fun _ => hP _ trivial) _) fun images => ?_
      split
      · trivial
      split
      · trivial
      exact every_mapM (fun image => every_bind (every_perform (hP (.presign _) trivial))
        fun url => every_ret _) images

theorem uploadImage_every (hnew : ∀ postId original content thumbnail,
      P (.insert (.postImage postId original content thumbnail)))
    (libs : Libraries) (storage : Bool) (postId : Int) (user : User) (image : UploadFile) :
    (PostService.uploadImage libs storage postId user image).Every P := by
  refine every_bind (getById_every (fun _ => hP _ trivial) postId) fun found => ?_
  cases found with
  | none => trivial
  | some post =>
      dsimp only
      split
      · trivial
      split
      · trivial
      split
      · trivial
      have hconvert : (PostService.convertImage libs image.data).Every P := by
        rw [PostService.convertImage]
        split <;> trivial
      refine every_bind hconvert fun datas => every_bind (every_perform (hP _ trivial))
        fun fileId => every_bind (every_handle ?_ fun e => ?_) fun row =>
          every_bind (every_perform (hP _ trivial)) fun _ => every_ret _
      · refine every_bind (every_perform (hP _ trivial)) fun _ => ?_
        refine every_bind (every_perform (hP _ trivial)) fun _ => ?_
        refine every_bind (every_perform (hP _ trivial)) fun _ => ?_
        exact every_bind (every_bind (every_perform (hnew _ _ _ _)) fun _ =>
          every_bind (every_perform (hP (.select _) trivial)) fun _ => every_refreshed) fun row =>
          every_bind (every_perform (hP _ trivial)) fun _ => every_ret row
      · exact every_bind (every_perform (hP _ trivial)) fun _ => every_raise e

omit hP in
theorem ensureRepliable_every (hselect : ∀ query, P (.select query))
    (postId parentCommentId : Int) :
    (CommentService.ensureRepliable postId parentCommentId).Every P := by
  refine every_bind (getComment_every (hselect _)) fun found => ?_
  cases found with
  | none => trivial
  | some parent =>
      dsimp only
      split
      · trivial
      split <;> trivial

theorem createComment_every (hnew : ∀ content postId authorId parent,
      P (.insert (.comment content postId authorId parent)))
    (postId : Int) (user : User) (payload : CommentCreate) :
    (CommentService.create postId user payload).Every P := by
  have hselect : ∀ query, P (.select query) := fun _ => hP _ trivial
  have hrest : ∀ parentCommentId,
      (CommentService.validateMentions payload.commentContent >>= fun _ =>
        CommentRepository.add payload.commentContent postId user.userId
          parentCommentId >>= fun comment =>
        perform .commit >>= fun _ => ret comment).Every P := fun parentCommentId =>
    every_bind (validateMentions_every hselect _) fun _ =>
      every_bind (every_bind (every_perform (hnew _ _ _ _)) fun _ =>
        every_bind (every_perform (hP (.select _) trivial)) fun _ => every_refreshed) fun comment =>
        every_bind (every_perform (hP _ trivial)) fun _ => every_ret _
  refine every_bind (ensurePostExists_every hselect postId) fun _ => ?_
  cases payload.parentCommentId with
  | none => exact hrest none
  | some id => exact every_bind (ensureRepliable_every hselect postId id) fun _ => hrest (some id)

theorem updateComment_every (hset : ∀ id set, P (.update (.comment id set))) (commentId : Int)
    (user : User) (payload : CommentUpdate) :
    (CommentService.update commentId user payload).Every P := by
  have hselect : ∀ query, P (.select query) := fun _ => hP _ trivial
  refine every_bind (getOwnedComment_every hselect commentId user) fun comment =>
    every_bind (validateMentions_every hselect _) fun _ => every_bind ?_ fun _ =>
      every_bind (every_perform (hP _ trivial)) fun _ => every_ret _
  rw [CommentRepository.flush]
  split
  · trivial
  · exact every_perform (hset _ _)

theorem rollingBack_every {body : BoardM α} (h : body.Every P) :
    (ReportService.rollingBack body).Every P :=
  every_handle h fun e => every_bind (every_perform (hP _ trivial)) fun _ => every_raise e

theorem hide_every (hset : ∀ id, P (.update (.post id hideSet))) (rep : Report)
    (request : ReportProcessRequest) : (ReportService.hide rep request).Every P := by
  have hcontent : (ReportService.hideReportedContent rep).Every P := by
    rw [ReportService.hideReportedContent]
    split
    · refine every_bind (getAnyById_every (hP _ trivial)) fun found => ?_
      cases found with
      | none => trivial
      | some post =>
          dsimp only
          split
          · trivial
          · exact every_perform (hset _)
    · trivial
    · trivial
  rw [ReportService.hide]
  split
  · exact hcontent
  · exact hcontent
  · trivial

theorem sanction_every (hnew : ∀ userId type reason reportId expiresAt,
      P (.insert (.userSanction userId type reason reportId expiresAt)))
    (rep : Report) (request : ReportProcessRequest) :
    (ReportService.sanction rep request).Every P := by
  rw [ReportService.sanction]
  split
  · rw [ReportService.addUserSanction]
    split
    · trivial
    split
    · trivial
    exact every_bind (every_bind (every_perform (hnew _ _ _ _ _)) fun _ =>
      every_bind (every_perform (hP (.select _) trivial)) fun _ => every_refreshed)
        fun _ => every_ret _
  · trivial

theorem processReport_every (hset : ∀ id set, P (.update (.report id set)))
    (hpost : ∀ id, P (.update (.post id hideSet)))
    (hnew : ∀ userId type reason reportId expiresAt,
      P (.insert (.userSanction userId type reason reportId expiresAt)))
    (reportId reviewerUserId : Int) (request : ReportProcessRequest) :
    (ReportService.processReport reportId reviewerUserId request).Every P := by
  have hselect : ∀ query, P (.select query) := fun _ => hP _ trivial
  refine every_bind (every_find (.report reportId) (hselect _) id) fun found => ?_
  cases found with
  | none => trivial
  | some rep =>
      refine every_bind
        (validateReport_every (fun _ => hselect _) (fun _ => hselect _) _ _ _ _ _) fun _ => ?_
      split
      · trivial
      refine rollingBack_every hP (every_bind (every_perform (hP _ trivial)) fun now =>
        every_bind ?_ fun _ => every_bind (hide_every hP hpost rep request) fun _ =>
          every_bind (sanction_every hP hnew rep request) fun _ => every_perform (hP _ trivial))
      rw [ReportRepository.updateReport]
      refine every_bind ?_ fun target => every_bind (every_select hselect _) fun batch =>
        every_bind (every_forM (fun row => every_perform (hset _ _)) _) fun _ => every_ret _
      rw [ReportRepository.sameReports]
      split <;> trivial

omit hP in
theorem call_writes (dep : Deployment) (user : User) (req : Request) :
    (call dep user req).Every req.Writes := by
  have hrowless : ∀ op, op.rowless → req.Writes op := fun _ h => writes_of_rowless h
  have hlight : ∀ op, op.light → req.Writes op := fun _ h => writes_of_rowless (light_rowless h)
  have hselect : ∀ query, req.Writes (.select query) := fun _ => writes_of_rowless trivial
  cases req with
  | getPost => exact every_discard (getDetail_every hrowless (fun _ => trivial) _ _)
  | listPosts => exact every_discard (listPosts_every hlight _)
  | createPost =>
      exact every_discard (every_bind (every_bind (every_perform trivial) fun _ =>
        every_bind (every_perform trivial) fun _ => every_refreshed)
          fun _ => every_bind (every_perform trivial) fun _ => every_ret _)
  | updatePost =>
      exact every_discard (every_bind (getOwned_every hselect _ _) fun _ =>
        every_bind (flush_by_owner fun _ _ h => h) fun _ => every_bind (every_perform trivial)
          fun _ => getDetail_every hrowless (fun _ => trivial) _ _)
  | deletePost =>
      exact every_bind (getOwned_every hselect _ _) fun _ => every_bind (every_perform trivial)
        fun now => every_bind (every_perform (Or.inr ⟨_, rfl⟩)) fun _ => every_perform trivial
  | likePost => exact likePost_every hlight _ _
  | unlikePost => exact unlikePost_every hlight _ _
  | sharePost => exact every_discard (getShareUrl_every hlight _)
  | listImages => exact every_discard (listImages_every hrowless _ _)
  | uploadImage => exact every_discard (uploadImage_every hrowless (fun _ _ _ _ => trivial) _ _ _ _ _)
  | listComments => exact every_discard (listComments_every hlight _ _)
  | listReplies => exact every_discard (listByParent_every hlight _)
  | createComment =>
      exact every_discard (createComment_every hrowless (fun _ _ _ _ => trivial) _ _ _)
  | updateComment => exact every_discard (updateComment_every hrowless (fun _ _ => trivial) _ _ _)
  | deleteComment =>
      exact every_bind (getOwnedComment_every hselect _ _) fun _ =>
        every_bind (every_perform trivial) fun _ => every_bind (every_perform trivial)
          fun _ => every_perform trivial
  | addReport =>
      exact every_discard (every_bind
        (validateReport_every (fun _ => hselect _) (fun _ => hselect _) _ _ _ _ _) fun _ =>
        rollingBack_every hrowless (every_bind (every_bind (every_perform trivial) fun _ =>
          every_bind (every_perform trivial) fun _ => every_refreshed)
          fun _ => every_bind (every_perform trivial) fun _ => every_ret _))
  | listReports => exact every_discard (listReports_every hlight _)
  | processReport =>
      exact processReport_every hrowless (fun _ _ => trivial) (fun _ => rfl)
        (fun _ _ _ _ _ => trivial) _ _ _

omit hP in
/-- A request writes nothing but what it may. -/
theorem serve_writes (dep : Deployment) (userId : Int) (req : Request) :
    (serve dep userId req).Every req.Writes :=
  Infrastructure.every_inSession (every_perform (writes_of_rowless trivial))
    (every_perform (writes_of_rowless trivial))
    (every_bind (getCurrentUser_every (writes_of_rowless trivial))
      fun user => call_writes dep user req)

end Writes

end GreenCommunity.Board
