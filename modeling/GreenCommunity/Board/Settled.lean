import GreenCommunity.Board.Footprint
import GreenCommunity.Board.Ledger

/-!
# What every request commits

Each request against `Settled`, from an empty ledger.
-/

namespace GreenCommunity.Board

open GreenCommunity.Base
open GreenCommunity.Base.Prog
open GreenCommunity.Infrastructure (every_perform refreshed changed datetime)

section Settling

variable {α β : Type} {user : User} {req : Request} {es : List BoardEvent}
  {told : BoardEvent → Prop}

/-- From an empty ledger the program ends with batches that `P` admits. -/
abbrev Settles (told : BoardEvent → Prop) (p : BoardM α) (P : Bool → List (List Op) → Prop) :
    Prop :=
  Keeps told p (fun o x' => P o.isOk x'.batches) .empty

theorem every_plain (query : Query) : (perform (.select query)).Every Op.plain :=
  every_perform trivial

theorem settles_discard {p : BoardM α} {P : Bool → List (List Op) → Prop}
    (h : Settles told p P) : Settles told (discard p) P := by
  show Keeps told (p >>= fun _ => ret ()) _ _
  refine among_bind.mpr (Among.imp ?_ h)
  rintro (e | a) x' hP <;> exact hP

/-- A request that only reads. -/
theorem settles_of_plain {p : BoardM α} (h : p.Every Op.plain)
    {P : Bool → List (List Op) → Prop} (hP : ∀ b, P b []) : Settles told p P :=
  (gets_of_plain h).imp fun o _ hx => hx.1 ▸ hP o.isOk

/-! ### Reading -/

theorem getById_gets (postId : Int) (x : Ledger) :
    Keeps (Told req es) (PostRepository.getById postId) (Gets (fun found => ∀ post,
      found = some post → post.postId = postId ∧ Answered es (.activePost postId) [post]) x) x := by
  refine gets_find (.activePost postId) id fun rows post htold hrows => ?_
  obtain rfl : rows = [post] := hrows
  exact ⟨htold.truthful post (List.mem_singleton.mpr rfl), htold.mem⟩

theorem getAnyById_gets (postId : Int) (x : Ledger) :
    Keeps (Told req es) (PostRepository.getAnyById postId) (Gets (fun found => ∀ post,
      found = some post → post.postId = postId ∧ Answered es (.anyPost postId) [post]) x) x := by
  refine gets_find (.anyPost postId) id fun rows post htold hrows => ?_
  obtain rfl : rows = [post] := hrows
  exact ⟨htold.truthful post (List.mem_singleton.mpr rfl), htold.mem⟩

theorem getComment_gets (commentId : Int) (x : Ledger) :
    Keeps (Told req es) (CommentRepository.getById commentId) (Gets (fun found => ∀ comment,
      found = some comment → comment.commentId = commentId ∧
        Answered es (.activeComment commentId) [comment]) x) x := by
  refine gets_find (.activeComment commentId) id fun rows comment htold hrows => ?_
  obtain rfl : rows = [comment] := hrows
  exact ⟨htold.truthful comment (List.mem_singleton.mpr rfl), htold.mem⟩

theorem getOwned_gets (postId : Int) (user : User) (x : Ledger) :
    Keeps (Told req es) (PostService.getOwned postId user) (Gets (fun post =>
      post.postId = postId ∧ Answered es (.activePost postId) [post]) x) x := by
  refine keeps_bind (getById_gets postId x) (fun _ => gets_error) fun found hfound => ?_
  cases found with
  | none => exact gets_error
  | some post =>
      show Keeps (Told req es) (if _ then throw _ else ret post) _ x
      split
      · exact gets_error
      · exact gets_ok (hfound post rfl)

theorem getOwnedComment_gets (commentId : Int) (user : User) (x : Ledger) :
    Keeps (Told req es) (CommentService.getOwned commentId user) (Gets (fun comment =>
      comment.commentId = commentId ∧ Answered es (.activeComment commentId) [comment]) x) x := by
  refine keeps_bind (getComment_gets commentId x) (fun _ => gets_error)
    fun found hfound => ?_
  cases found with
  | none => exact gets_error
  | some comment =>
      show Keeps (Told req es) (if _ then throw _ else ret comment) _ x
      split
      · exact gets_error
      · exact gets_ok (hfound comment rfl)

/-! ### Posts -/

/-- Showing a post adds the view that it counts. -/
theorem getDetail_keeps (postId : Int) (user : User) (bs : List (List Op)) :
    Keeps (Told req es) (PostService.getDetail postId user) (fun o x' => ∃ rest,
      x'.batches = bs ++ rest ∧
        (Shown user.userId es postId rest ∨ o.isOk = false ∧ rest = [])) ⟨[], bs⟩ := by
  have hfail : ∃ rest, bs = bs ++ rest ∧
      (Shown user.userId es postId rest ∨ false = false ∧ rest = []) :=
    ⟨[], by simp, Or.inr ⟨rfl, rfl⟩⟩
  have hrest : ∀ (author : User) (post : Post) (rest : List (List Op)),
      Shown user.userId es postId rest → Keeps (Told req es) (do
        let postLikeCount ← perform (.countLikes postId)
        let isLiked ← perform (.getLike postId user.userId)
        let images ← PostRepository.listImages postId
        return (⟨post, author, postLikeCount, isLiked, images ≠ []⟩ : PostDetail))
      (fun o x' => ∃ rest, x'.batches = bs ++ rest ∧
        (Shown user.userId es postId rest ∨ o.isOk = false ∧ rest = [])) ⟨[], bs ++ rest⟩ := by
    intro author post rest hshown
    refine Among.imp (fun o x' h => h.1 ▸ ⟨rest, rfl, Or.inl hshown⟩) (gets_of_plain ?_)
    exact every_bind (every_perform trivial) fun _ => every_bind (every_perform trivial)
      fun _ => every_bind (every_plain _) fun _ => every_ret _
  refine keeps_bind (P := fun found => ∀ row, found = some row →
    row.1.postId = postId ∧ Answered es (.postDetail postId) [row])
    (gets_find (.postDetail postId) id fun rows row htold hrows => ?_)
    (fun _ => hfail) fun found hfound => ?_
  · obtain rfl : rows = [row] := hrows
    exact ⟨htold.truthful row (List.mem_singleton.mpr rfl), htold.mem⟩
  cases found with
  | none => exact hfail
  | some found =>
      obtain ⟨post, author⟩ := found
      obtain ⟨hid, hread⟩ := hfound (post, author) rfl
      change post.postId = postId at hid
      show Keeps (Told req es) (PostService.countView post user >>= _) _ _
      rw [PostService.countView]
      split
      next hother =>
        rw [PostRepository.incrementViews, hid]
        simp only [bind_assoc]
        refine keeps_perform (fun _ => hfail) fun _ _ => ?_
        refine keeps_perform (fun _ => hfail) fun rows _ => ?_
        refine keeps_refreshed (fun _ => hfail) fun row _ => ?_
        refine keeps_perform (fun _ => hfail) fun _ _ => hrest author row _ ?_
        exact ⟨post, author, hread, (if_neg hother).symm⟩
      next hown =>
        rw [show (⟨[], bs⟩ : Ledger) = ⟨[], bs ++ []⟩ by rw [List.append_nil]]
        exact hrest author post [] ⟨post, author, hread, (if_pos (not_not.mp hown)).symm⟩

theorem getPost_settles (postId : Int) (user : User) :
    Settles (Told req es) (PostService.getDetail postId user) fun ok bs =>
      Shown user.userId es postId bs ∨ ok = false ∧ bs = [] := by
  refine Among.imp ?_ (getDetail_keeps postId user [])
  rintro _ x' ⟨rest, hrest, hshown⟩
  rw [hrest]
  exact hshown

theorem createPost_settles (payload : PostCreate) :
    Settles told (PostService.create user payload) fun ok bs => bs = if ok then
      [[.insert (.post payload.postTitle payload.postContent user.userId)]] else [] := by
  rw [PostService.create, PostRepository.add]
  simp only [bind_assoc]
  refine keeps_perform (fun _ => rfl) fun postId _ => ?_
  refine keeps_perform (fun _ => rfl) fun rows _ => ?_
  exact keeps_refreshed (fun _ => rfl) fun _ _ => keeps_perform (fun _ => rfl) fun _ _ => rfl

theorem updatePost_settles (postId : Int) (user : User) (payload : PostUpdate) :
    Settles (Told req es) (PostService.update postId user payload) fun ok bs =>
      (∃ post rest, Answered es (.activePost postId) [post] ∧ post.postId = postId ∧
        bs = payload.edit post :: rest ∧
          (Shown user.userId es postId rest ∨ ok = false ∧ rest = [])) ∨
        ok = false ∧ bs = [] := by
  have hfail : false = false ∧ ([] : List (List Op)) = [] := ⟨rfl, rfl⟩
  refine keeps_bind (getOwned_gets postId user _) (fun _ => Or.inr hfail)
    fun post ⟨hid, hread⟩ => ?_
  have hrest : Keeps (Told req es)
      (perform .commit >>= fun _ => PostService.getDetail postId user)
      (fun o x' => (∃ post rest, Answered es (.activePost postId) [post] ∧ post.postId = postId ∧
        x'.batches = payload.edit post :: rest ∧
          (Shown user.userId es postId rest ∨ o.isOk = false ∧ rest = [])) ∨
        o.isOk = false ∧ x'.batches = []) ⟨payload.edit post, []⟩ := by
    refine keeps_perform (fun _ => Or.inr hfail) fun _ _ => ?_
    refine Among.imp ?_ (getDetail_keeps postId user [payload.edit post])
    rintro _ x' ⟨rest, hrest, hshown⟩
    exact Or.inl ⟨post, rest, hread, hid, hrest, hshown⟩
  rw [PostUpdate.edit] at hrest
  rw [PostRepository.flush]
  by_cases hnone : payload.postTitle.bind (changed (some post.postTitle)) = none ∧
      payload.postContent.bind (changed (some post.postContent)) = none
  · rw [if_pos hnone] at hrest
    rw [hnone.1, hnone.2]
    exact hrest
  · rw [if_neg hnone] at hrest
    rw [if_pos (by simpa [Option.isSome_iff_ne_none, imp_iff_not_or] using hnone)]
    exact keeps_perform (fun _ => Or.inr hfail) fun _ _ => hrest

theorem deletePost_settles (postId : Int) (user : User) :
    Settles (Told req es) (PostService.delete postId user) fun ok bs =>
      if ok then ∃ now, (⟨.now, .ok now⟩ : BoardEvent) ∈ es ∧
        bs = [[.update (.post postId ⟨none, none, some .deleted, some (datetime now)⟩)]]
      else bs = [] := by
  refine keeps_bind (getOwned_gets postId user _) (fun _ => rfl) fun post ⟨hid, _⟩ => ?_
  rw [hid]
  refine keeps_perform (fun _ => rfl) fun now htold => ?_
  refine keeps_perform (fun _ => rfl) fun _ _ => ?_
  exact keeps_last (fun _ => rfl) fun _ => ⟨now, htold.mem, rfl⟩

/-- The handler rolls back and raises again. -/
theorem keeps_rollback {p : BoardM α} {P : Bool → List (List Op) → Prop} {x : Ledger}
    (h : Keeps told p (fun o x' => P o.isOk x'.batches) x) :
    Keeps told (p.handle fun e => perform .rollback >>= fun _ => throw e)
      (fun o x' => P o.isOk x'.batches) x := by
  refine among_handle.mpr (Among.imp ?_ h)
  rintro (e | a) x' hP
  · exact keeps_perform (fun _ => hP) fun _ _ => hP
  · exact hP

/-- The image that is stored under the name `fileId`. -/
theorem storeImage_keeps (postId : Int) (image : UploadFile) (suffix : String)
    (contentData thumbnailData : List UInt8) (fileId : String) :
    Settles told (PostService.storeImage postId image suffix contentData thumbnailData fileId)
      fun ok bs => bs = if ok then
        [[.insert (.postImage postId s!"posts/{postId}/original/{fileId}{suffix}"
          s!"posts/{postId}/content/{fileId}.webp"
          s!"posts/{postId}/thumbnail/{fileId}.webp")]] else [] := by
  refine keeps_rollback (P := fun ok bs => bs = if ok then _ else []) ?_
  refine keeps_perform (fun _ => rfl) fun _ _ => ?_
  refine keeps_perform (fun _ => rfl) fun _ _ => ?_
  refine keeps_perform (fun _ => rfl) fun _ _ => ?_
  rw [PostRepository.addImage]
  simp only [bind_assoc]
  refine keeps_perform (fun _ => rfl) fun imageId _ => ?_
  refine keeps_perform (fun _ => rfl) fun rows _ => ?_
  refine keeps_refreshed (fun _ => rfl) fun _ _ => ?_
  exact keeps_perform (fun _ => rfl) fun _ _ => rfl

theorem uploadImage_settles (libs : Libraries) (storage : Bool) (postId : Int) (user : User)
    (image : UploadFile) :
    Settles (Told req es) (PostService.uploadImage libs storage postId user image) fun ok bs =>
      (∃ fileId, (⟨.uuid4, .ok fileId⟩ : BoardEvent) ∈ es ∧
        let suffix := libs.lower (pathSuffix (image.filename.getD ""))
        bs = [[.insert (.postImage postId s!"posts/{postId}/original/{fileId}{suffix}"
          s!"posts/{postId}/content/{fileId}.webp"
          s!"posts/{postId}/thumbnail/{fileId}.webp")]]) ∨
        ok = false ∧ bs = [] := by
  have hfail : false = false ∧ ([] : List (List Op)) = [] := ⟨rfl, rfl⟩
  refine keeps_bind (getById_gets postId _) (fun _ => Or.inr hfail) fun found _ => ?_
  cases found with
  | none => exact Or.inr hfail
  | some post =>
      dsimp only
      split
      · exact Or.inr hfail
      split
      · exact Or.inr hfail
      split
      · exact Or.inr hfail
      have hconvert : (PostService.convertImage libs image.data).Every Op.plain := by
        rw [PostService.convertImage]
        split <;> trivial
      refine keeps_bind (gets_of_plain hconvert) (fun _ => Or.inr hfail) fun datas _ => ?_
      refine keeps_perform (fun _ => Or.inr hfail) fun fileId htold => ?_
      refine among_bind.mpr (Among.imp ?_ (storeImage_keeps postId image _ _ _ fileId))
      rintro (e | row) x' hstored
      · exact Or.inr ⟨rfl, hstored⟩
      · exact keeps_perform (fun _ => Or.inl ⟨fileId, htold.mem, hstored⟩)
          fun _ _ => Or.inl ⟨fileId, htold.mem, hstored⟩

/-! ### Comments -/

theorem createComment_settles (postId : Int) (payload : CommentCreate) :
    Settles told (CommentService.create postId user payload) fun ok bs => bs = if ok then
      [[.insert (.comment payload.commentContent postId user.userId payload.parentCommentId)]]
      else [] := by
  have hrest : ∀ parentCommentId, Keeps told
      (CommentService.validateMentions payload.commentContent >>= fun _ =>
        CommentRepository.add payload.commentContent postId user.userId
          parentCommentId >>= fun comment =>
        perform .commit >>= fun _ => ret comment)
      (fun o x' => x'.batches = if o.isOk then
        [[.insert (.comment payload.commentContent postId user.userId parentCommentId)]]
        else []) .empty := by
    intro parentCommentId
    refine keeps_bind (gets_of_plain (validateMentions_every (fun _ => trivial) _))
      (fun _ => rfl) fun _ _ => ?_
    rw [CommentRepository.add]
    simp only [bind_assoc]
    refine keeps_perform (fun _ => rfl) fun commentId _ => ?_
    refine keeps_perform (fun _ => rfl) fun rows _ => ?_
    exact keeps_refreshed (fun _ => rfl) fun _ _ => keeps_perform (fun _ => rfl) fun _ _ => rfl
  refine keeps_bind (gets_of_plain (ensurePostExists_every (fun _ => trivial) postId))
    (fun _ => rfl) fun _ _ => ?_
  cases hparent : payload.parentCommentId with
  | none => exact hrest none
  | some id =>
      refine keeps_bind (gets_of_plain ?_) (fun _ => rfl) fun _ _ => hrest (some id)
      refine every_bind (getComment_every trivial) fun found => ?_
      cases found with
      | none => trivial
      | some parent =>
          dsimp only
          split
          · trivial
          split <;> trivial

theorem updateComment_settles (commentId : Int) (payload : CommentUpdate) :
    Settles (Told req es) (CommentService.update commentId user payload) fun ok bs =>
      if ok then ∃ comment, Answered es (.activeComment commentId) [comment] ∧
        comment.commentId = commentId ∧ bs = [payload.edit comment]
      else bs = [] := by
  refine keeps_bind (getOwnedComment_gets commentId user _) (fun _ => rfl)
    fun comment ⟨hid, hread⟩ => ?_
  refine keeps_bind (gets_of_plain (validateMentions_every (fun _ => trivial) _))
    (fun _ => rfl) fun _ _ => ?_
  have hrest : ∀ ops, ops = payload.edit comment → Keeps (Told req es)
      (perform .commit >>= fun _ =>
        (ret { comment with commentContent := payload.commentContent } : BoardM Comment))
      (fun o x' => if o.isOk then ∃ comment, Answered es (.activeComment commentId) [comment] ∧
          comment.commentId = commentId ∧ x'.batches = [payload.edit comment]
        else x'.batches = []) ⟨ops, []⟩ :=
    fun ops hops => keeps_perform (fun _ => rfl)
      fun _ _ => ⟨comment, hread, hid, congrArg (fun ops => [ops]) hops⟩
  rw [CommentUpdate.edit] at hrest
  rw [CommentRepository.flush]
  unfold changed
  by_cases hsame : payload.commentContent = comment.commentContent
  · rw [if_pos hsame]
    exact hrest [] (if_pos hsame).symm
  · rw [if_neg hsame]
    exact keeps_perform (fun _ => rfl) fun _ _ => hrest _ (if_neg hsame).symm

theorem deleteComment_settles (commentId : Int) :
    Settles (Told req es) (CommentService.delete commentId user) fun ok bs =>
      if ok then ∃ now, (⟨.now, .ok now⟩ : BoardEvent) ∈ es ∧
        bs = [[.update (.comment commentId ⟨none, some (datetime now)⟩)]]
      else bs = [] := by
  refine keeps_bind (getOwnedComment_gets commentId user _) (fun _ => rfl)
    fun comment ⟨hid, _⟩ => ?_
  rw [hid]
  refine keeps_perform (fun _ => rfl) fun now htold => ?_
  refine keeps_perform (fun _ => rfl) fun _ _ => ?_
  exact keeps_last (fun _ => rfl) fun _ => ⟨now, htold.mem, rfl⟩

/-! ### Reports -/

/-- What is kept of the target of a new report. -/
theorem validateReport_gets (request : ReportCreateRequest) (x : Ledger) :
    Keeps (Told req es) (ReportService.validateReport request.reportContentType request.postId
      request.commentId request.reportedUserId none) (Gets (request.Reported es) x) x := by
  unfold ReportService.validateReport
  rw [if_neg (by simp)]
  unfold ReportCreateRequest.Reported
  cases request.reportContentType with
  | post =>
      cases hpost : request.postId <;> cases hcomment : request.commentId <;>
        try exact gets_error
      refine keeps_bind (getAnyById_gets _ x) (fun _ => gets_error) fun found hfound => ?_
      cases found with
      | none => exact gets_error
      | some post =>
          obtain ⟨rfl, hread⟩ := hfound post rfl
          exact gets_ok ⟨post, rfl, hread, rfl⟩
  | comment =>
      cases hpost : request.postId <;> cases hcomment : request.commentId <;>
        try exact gets_error
      refine keeps_bind (getComment_gets _ x) (fun _ => gets_error) fun found hfound => ?_
      cases found with
      | none => exact gets_error
      | some comment =>
          obtain ⟨rfl, hcommentRead⟩ := hfound comment rfl
          dsimp only
          split
          · exact gets_error
          next hagrees =>
            refine keeps_bind (getAnyById_gets _ x) (fun _ => gets_error) fun found hfound => ?_
            cases found with
            | none => exact gets_error
            | some post =>
                obtain ⟨hid, hread⟩ := hfound post rfl
                exact gets_ok ⟨comment, post, rfl,
                  congrArg some (not_not.mp hagrees).symm, hcommentRead, hread, rfl⟩
  | user =>
      cases request.postId <;> cases request.commentId <;>
        cases request.reportedUserId
      case none.none.some u => exact gets_ok ⟨u, rfl, rfl⟩
      all_goals exact gets_error

theorem addReport_settles (request : ReportCreateRequest) :
    Settles (Told req es) (ReportService.addReport request user) fun ok bs =>
      if ok then ∃ reported, request.Reported es reported ∧
        bs = [[.insert (.report (some user.userId) request.reportContentType request.postId
          reported.postTitle reported.postContent request.commentId reported.commentContent
          reported.reportedUserId request.reportCategory request.reportReason)]]
      else bs = [] := by
  refine keeps_bind (validateReport_gets request _) (fun _ => rfl)
    fun reported hreported => keeps_rollback (P := fun ok bs => if ok then
      ∃ reported, request.Reported es reported ∧ bs = [[.insert (.report (some user.userId)
        request.reportContentType request.postId reported.postTitle reported.postContent
        request.commentId reported.commentContent reported.reportedUserId request.reportCategory
        request.reportReason)]] else bs = []) ?_
  rw [ReportRepository.addReport]
  simp only [bind_assoc]
  refine keeps_perform (fun _ => rfl) fun reportId _ => ?_
  refine keeps_perform (fun _ => rfl) fun rows _ => ?_
  exact keeps_refreshed (fun _ => rfl) fun _ _ =>
    keeps_perform (fun _ => rfl) fun _ _ => ⟨reported, hreported, rfl⟩

/-- Updates of reports one after the other. -/
theorem updates_keep (ch : Report → ReportSet) (rows : List Report) (ops : List Op) :
    Keeps told (rows.forM fun row => perform (.update (.report row.reportId (ch row))))
      (fun o x' => x'.batches = [] ∧ (o = .ok () → x'.pending =
        ops ++ rows.map fun row => .update (.report row.reportId (ch row)))) ⟨ops, []⟩ := by
  induction rows generalizing ops with
  | nil => exact ⟨rfl, fun _ => by simp⟩
  | cons row rows ih =>
      refine keeps_perform (fun _ => ⟨rfl, by rintro ⟨⟩⟩) fun _ _ => ?_
      refine Among.imp (fun o x' h => ⟨h.1, fun ho => ?_⟩)
        (ih (ops ++ [.update (.report row.reportId (ch row))]))
      rw [h.2 ho, List.map_cons, List.append_assoc]
      rfl

/-- The program adds writes that `P` accepts to the open transaction. -/
def Adds (ops : List Op) (P : List Op → Prop) (o : Except AppError Unit) (x : Ledger) : Prop :=
  x.batches = [] ∧ (o = .ok () → ∃ added, x.pending = ops ++ added ∧ P added)

section Adds

variable {ops : List Op} {P : List Op → Prop}

theorem adds_error {x : Ledger} (h : x.batches = []) (e : AppError) :
    Adds ops P (.error e) x :=
  ⟨h, by rintro ⟨⟩⟩

theorem adds_none (h : P []) (o : Except AppError Unit) : Adds ops P o ⟨ops, []⟩ :=
  ⟨rfl, fun _ => ⟨[], by simp, h⟩⟩

theorem adds_one {op : Op} (h : P [op]) (o : Except AppError Unit) :
    Adds ops P o ⟨ops ++ [op], []⟩ :=
  ⟨rfl, fun _ => ⟨[op], rfl, h⟩⟩

end Adds

/-- The reported post is hidden if it is published. -/
theorem hideReportedContent_keeps (rep : Report) (ops : List Op) :
    Keeps (Told req es) (ReportService.hideReportedContent rep) (Adds ops fun hidden =>
      rep.reportContentType = .post ∧ ∃ post, rep.postId = some post.postId ∧
        Answered es (.anyPost post.postId) [post] ∧
          hidden = if post.postStatus = .published then [.update (.post post.postId hideSet)]
            else []) ⟨ops, []⟩ := by
  rw [ReportService.hideReportedContent]
  split
  next postId htype hpost =>
    refine keeps_bind (getAnyById_gets _ _) (adds_error rfl) fun found hfound => ?_
    cases found with
    | none => exact adds_error rfl _
    | some post =>
        obtain ⟨rfl, hread⟩ := hfound post rfl
        dsimp only
        split
        next hdraft => exact adds_none ⟨htype, post, hpost, hread, (if_neg hdraft).symm⟩ _
        next hpublished =>
          refine keeps_last (adds_error rfl) fun _ => adds_one ⟨htype, post, hpost, hread, ?_⟩ _
          rw [if_pos (not_not.mp hpublished)]
          rfl
  · exact adds_error rfl _
  · exact adds_error rfl _

/-- The hiding of a post is the only write of `hide`. -/
theorem hide_keeps (rep : Report) (request : ReportProcessRequest) (ops : List Op) :
    Keeps (Told req es) (ReportService.hide rep request) (Adds ops (request.Hides es rep))
      ⟨ops, []⟩ := by
  have hnone : Keeps (Told req es) (ret ()) (Adds ops (· = [])) ⟨ops, []⟩ :=
    adds_none (P := (· = [])) rfl _
  unfold ReportProcessRequest.Hides
  rw [ReportService.hide]
  rcases request.reportStatus with _ | _ <;> rcases request.userSanctionType with _ | _ | _ | _
  all_goals first | exact hnone | exact hideReportedContent_keeps rep ops

/-- The sanction of an accepted report is the only write of `sanction`. -/
theorem sanction_keeps (rep : Report) (request : ReportProcessRequest) (ops : List Op) :
    Keeps told (ReportService.sanction rep request) (Adds ops (· = request.sanction rep))
      ⟨ops, []⟩ := by
  have hnone : Keeps told (ret ()) (Adds ops (· = [])) ⟨ops, []⟩ :=
    adds_none (P := (· = [])) rfl _
  rw [ReportService.sanction, ReportProcessRequest.sanction]
  cases request.reportStatus with
  | rejected => exact hnone
  | accepted =>
      cases request.userSanctionType with
      | none => exact hnone
      | some type =>
          dsimp only
          rw [ReportService.addUserSanction]
          split
          · exact adds_error rfl _
          split
          · exact adds_error rfl _
          rw [UserSanctionRepository.addUserSanction]
          simp only [bind_assoc]
          refine keeps_perform (adds_error rfl) fun sanctionId _ => ?_
          refine keeps_perform (adds_error rfl) fun rows _ => ?_
          exact keeps_refreshed (adds_error rfl) fun _ _ => adds_one (P := (· = _)) rfl _

/-- The report that was read, with the decisions on its target. -/
theorem decide_keeps (reportId : Int) (request : ReportProcessRequest) {rep : Report}
    {target : Target} (hread : Answered es (.report reportId) [rep])
    (hid : rep.reportId = reportId) (hpending : rep.reportStatus = .pending)
    (htarget : rep.target = some target) :
    Settles (Told (.processReport reportId request) es)
      (ReportService.decide rep user.userId request) fun ok bs =>
        if ok then ∃ rep rows now hidden, request.Decides reportId es rep rows now hidden ∧
          bs = [request.decisions user.userId now rows ++ hidden ++ request.sanction rep]
        else bs = [] := by
  refine keeps_rollback (P := fun ok bs => if ok then ∃ rep rows now hidden,
    request.Decides reportId es rep rows now hidden ∧
      bs = [request.decisions user.userId now rows ++ hidden ++ request.sanction rep]
    else bs = []) ?_
  refine keeps_perform (fun _ => rfl) fun now hnow => ?_
  rw [ReportRepository.updateReport, sameReports_of_target htarget]
  simp only [ret_bind, bind_assoc]
  refine keeps_perform (fun _ => rfl) fun rows hrows => ?_
  refine among_bind.mpr (Among.imp ?_ (updates_keep _ _ []))
  rintro (e | ⟨⟩) x₁ ⟨hbatches₁, hpending₁⟩
  · exact hbatches₁
  have hpending₁ := hpending₁ rfl
  obtain ⟨ops₁, bs₁⟩ := x₁
  obtain rfl : bs₁ = [] := hbatches₁
  show Keeps _ (ReportService.hide rep request >>= _) _ _
  refine among_bind.mpr (Among.imp ?_ (hide_keeps rep request ops₁))
  rintro (e | ⟨⟩) x₂ ⟨hbatches₂, hpending₂⟩
  · exact hbatches₂
  obtain ⟨hidden, hpending₂, hhidden⟩ := hpending₂ rfl
  obtain ⟨ops₂, bs₂⟩ := x₂
  obtain rfl : bs₂ = [] := hbatches₂
  refine among_bind.mpr (Among.imp ?_ (sanction_keeps rep request ops₂))
  rintro (e | ⟨⟩) x₃ ⟨hbatches₃, hpending₃⟩
  · exact hbatches₃
  obtain ⟨_, hpending₃, rfl⟩ := hpending₃ rfl
  have hall : x₃.pending =
      request.decisions user.userId now rows ++ hidden ++ request.sanction rep := by
    rw [hpending₃, show ops₂ = _ from hpending₂, show ops₁ = _ from hpending₁]
    rfl
  refine keeps_last (fun _ => hbatches₃) fun _ => ⟨rep, rows, now, hidden, ?_, ?_⟩
  · exact ⟨⟨hread, hid⟩, hpending, ⟨target, htarget, hrows.mem, hrows.truthful⟩,
      hrows.named reportId request rfl target rows rfl, hnow.mem, hhidden⟩
  · show x₃.batches ++ [x₃.pending] = _
    rw [hbatches₃, hall]
    rfl

theorem processReport_settles (reportId : Int) (request : ReportProcessRequest) :
    Settles (Told (.processReport reportId request) es)
      (ReportService.processReport reportId user.userId request) fun ok bs =>
        if ok then ∃ rep rows now hidden, request.Decides reportId es rep rows now hidden ∧
          bs = [request.decisions user.userId now rows ++ hidden ++ request.sanction rep]
        else bs = [] := by
  refine keeps_bind (P := fun found => ∀ rep, found = some rep →
    rep.reportId = reportId ∧ Answered es (.report reportId) [rep])
    (gets_find (.report reportId) id fun rows rep htold hrows => ?_)
    (fun _ => rfl) fun found hfound => ?_
  · obtain rfl : rows = [rep] := hrows
    exact ⟨htold.truthful rep (List.mem_singleton.mpr rfl), htold.mem⟩
  cases found with
  | none => exact rfl
  | some rep =>
      obtain ⟨hid, hread⟩ := hfound rep rfl
      dsimp only
      by_cases hvalid : rep.reportStatus = .pending ∧ ∃ target, rep.target = some target
      · obtain ⟨hpending, target, htarget⟩ := hvalid
        refine keeps_bind (gets_of_plain
          (validateReport_every (fun _ => trivial) (fun _ => trivial) _ _ _ _ _))
          (fun _ => rfl) fun _ _ => ?_
        split
        · exact rfl
        · exact decide_keeps reportId request hread hid hpending htarget
      · obtain ⟨e, he⟩ := validateReport_raise hvalid
        rw [he]
        exact rfl

/-! ### All of them -/

theorem call_settles (dep : Deployment) (user : User) (req : Request) :
    Settles (Told req es) (call dep user req) (req.Settled dep user.userId es) := by
  have hlight : ∀ op : Op, op.light → op.plain := fun op h => by
    cases op <;> first | exact absurd h id | trivial
  cases req with
  | getPost postId => exact settles_discard (getPost_settles postId user)
  | listPosts => exact settles_of_plain (every_discard (listPosts_every hlight _)) fun _ => rfl
  | createPost => exact settles_discard (createPost_settles _)
  | updatePost => exact settles_discard (updatePost_settles _ _ _)
  | deletePost => exact deletePost_settles _ _
  | likePost => exact settles_of_plain (likePost_every hlight _ _) fun _ => rfl
  | unlikePost => exact settles_of_plain (unlikePost_every hlight _ _) fun _ => rfl
  | sharePost => exact settles_of_plain (every_discard (getShareUrl_every hlight _)) fun _ => rfl
  | listImages storage =>
      refine settles_of_plain (every_discard ?_) fun _ => rfl
      refine every_bind (getById_every (fun _ => trivial) _) fun found => ?_
      cases found with
      | none => trivial
      | some post =>
          refine every_bind (every_plain _) fun images => ?_
          split
          · trivial
          split
          · trivial
          exact every_mapM (fun image => every_bind (every_perform trivial)
            fun _ => every_ret _) images
  | uploadImage => exact settles_discard (uploadImage_settles _ _ _ _ _)
  | listComments =>
      exact settles_of_plain (every_discard (listComments_every hlight _ _)) fun _ => rfl
  | listReplies =>
      exact settles_of_plain (every_discard (listByParent_every hlight _)) fun _ => rfl
  | createComment => exact settles_discard (createComment_settles _ _)
  | updateComment => exact settles_discard (updateComment_settles _ _)
  | deleteComment => exact deleteComment_settles _
  | addReport => exact settles_discard (addReport_settles _)
  | listReports =>
      exact settles_of_plain (every_discard (listReports_every hlight _)) fun _ => rfl
  | processReport => exact processReport_settles _ _

/-- A request that fails before its service call has committed nothing. -/
theorem settled_nothing (dep : Deployment) (userId : Int) (req : Request) :
    req.Settled dep userId es false [] := by
  cases req <;> first | rfl | exact Or.inr ⟨rfl, rfl⟩

theorem getCurrentUser_gets (userId : Int) (x : Ledger) :
    Keeps (Told req es) (getCurrentUser userId) (Gets (fun user => user.userId = userId) x) x := by
  refine keeps_bind (P := fun found => ∀ user, found = some user → user.userId = userId)
    (gets_find (.user userId) id fun rows user htold hrows => ?_)
    (fun _ => gets_error) fun found hfound => ?_
  · obtain rfl : rows = [user] := hrows
    exact htold.truthful user (List.mem_singleton.mpr rfl)
  cases found with
  | none => exact gets_error
  | some user =>
      show Keeps (Told req es) (if !user.userIsActive then _ else ret user) _ x
      split
      · exact gets_error
      · exact gets_ok (hfound user rfl)

/-- What a request has committed when it has ended. -/
theorem serve_settles (dep : Deployment) (userId : Int) (req : Request) :
    Settles (Told req es) (serve dep userId req) (req.Settled dep userId es) := by
  have hend : ∀ (op : Op), op = .rollback ∨ op = .close → ∀ (o : Except AppError Unit)
      (x : Ledger), req.Settled dep userId es o.isOk x.batches → Keeps (Told req es) (perform op)
        (fun o' x' => req.Settled dep userId es (o'.bind fun _ => o).isOk x'.batches) x := by
    rintro op (rfl | rfl) o x hsettled
    all_goals
      refine (records_call _ _).mpr fun r htold => ?_
      cases r with
      | error e => exact htold.truthful.elim
      | ok r => exact ⟨trivial, hsettled⟩
  refine Infrastructure.among_inSession (fun o x h => hend .close (Or.inr rfl) o x h)
    (fun e x h => hend .rollback (Or.inl rfl) (.error e) x h) ?_
  refine keeps_bind (getCurrentUser_gets userId _) (fun e => settled_nothing dep userId req)
    fun user huser => ?_
  rw [← huser]
  exact call_settles dep user req

end Settling

end GreenCommunity.Board
