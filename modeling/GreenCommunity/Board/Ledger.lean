import GreenCommunity.Base.Ghost
import GreenCommunity.Board.Summary

/-!
# Batches of writes

The ledger of a request holds the writes of its open transaction and, batch by batch, the
writes that it has committed.  `Settled` says for every request, its arguments and the rows
that it has read what its ledger comes to: what a request that succeeds has committed is what
it was sent for, in one batch, and a request that fails has committed nothing.  Three
requests go on behind their commit: showing a post counts a view, an edited post is shown,
and the URL of a new image is made.  The commit stands if what follows it fails.
-/

namespace GreenCommunity.Board

open GreenCommunity.Base
open GreenCommunity.Base.Prog
open GreenCommunity.Infrastructure (oneOrNone refreshed changed datetime)

/-! ## Ledgers -/

structure Ledger where
  pending : List Op
  batches : List (List Op)

namespace Ledger

def empty : Ledger := ⟨[], []⟩

def next (x : Ledger) (e : BoardEvent) : Ledger where
  pending := match e with
    | ⟨.insert new, .ok _⟩ => x.pending ++ [.insert new]
    | ⟨.update change, .ok _⟩ => x.pending ++ [.update change]
    | ⟨.commit, .ok _⟩ | ⟨.rollback, .ok _⟩ | ⟨.close, .ok _⟩ => []
    | _ => x.pending
  batches := match e with
    | ⟨.commit, .ok _⟩ => x.batches ++ [x.pending]
    | _ => x.batches

end Ledger

/-- The rows that a lookup returns are such as it has asked for, and a session can always be
rolled back and closed. -/
def Truthful : BoardEvent → Prop
  | ⟨.select (.user userId), .ok rows⟩ => ∀ row ∈ (rows : List User), row.userId = userId
  | ⟨.select (.activePost postId), .ok rows⟩ | ⟨.select (.anyPost postId), .ok rows⟩ =>
      ∀ row ∈ (rows : List Post), row.postId = postId
  | ⟨.select (.postDetail postId), .ok rows⟩ =>
      ∀ row ∈ (rows : List (Post × User)), row.1.postId = postId
  | ⟨.select (.activeComment commentId), .ok rows⟩ =>
      ∀ row ∈ (rows : List Comment), row.commentId = commentId
  | ⟨.select (.report reportId), .ok rows⟩ =>
      ∀ row ∈ (rows : List Report), row.reportId = reportId
  | ⟨.select (.pendingOf target), .ok rows⟩ =>
      ∀ row ∈ (rows : List Report), row.reportStatus = .pending ∧ row.target = some target
  | ⟨.rollback, .error _⟩ | ⟨.close, .error _⟩ => False
  | _ => True

/-- The report with this number is among the pending reports of its target. -/
def Names (reportId : Int) (e : BoardEvent) : Prop :=
  ∀ target rows, e = ⟨.select (.pendingOf target), .ok rows⟩ → ∃ row ∈ rows, row.reportId = reportId

/-- What a request may rely on: its events are those of the list `es`. -/
structure Told (req : Request) (es : List BoardEvent) (e : BoardEvent) : Prop where
  truthful : Truthful e
  mem : e ∈ es
  named : ∀ reportId request, req = .processReport reportId request → Names reportId e

/-! ## What requests commit -/

/-- A `SELECT` has been answered so. -/
def Answered (es : List BoardEvent) (query : Query) (rows : query.Rows) : Prop :=
  (⟨.select query, .ok rows⟩ : BoardEvent) ∈ es

/-- The post has been shown, and the view of somebody else counted. -/
def Shown (userId : Int) (es : List BoardEvent) (postId : Int) (batches : List (List Op)) : Prop :=
  ∃ post author, Answered es (.postDetail postId) [(post, author)] ∧
    batches = if post.authorId = userId then [] else [[.update (.views postId)]]

/-- An `UPDATE` of the fields that were sent with another value than the loaded one. -/
def PostUpdate.edit (payload : PostUpdate) (post : Post) : List Op :=
  let postTitle := payload.postTitle.bind (changed (some post.postTitle))
  let postContent := payload.postContent.bind (changed (some post.postContent))
  if postTitle = none ∧ postContent = none then []
  else [.update (.post post.postId ⟨postTitle, postContent, none, none⟩)]

def CommentUpdate.edit (payload : CommentUpdate) (comment : Comment) : List Op :=
  if payload.commentContent = comment.commentContent then []
  else [.update (.comment comment.commentId ⟨some payload.commentContent, none⟩)]

/-- The author and the texts that are kept with a new report are those of its target. -/
def ReportCreateRequest.Reported (request : ReportCreateRequest) (es : List BoardEvent)
    (reported : ReportService.Reported) : Prop :=
  match request.reportContentType with
  | .post => ∃ post, request.postId = some post.postId ∧
      Answered es (.anyPost post.postId) [post] ∧
        reported = ⟨post.authorId, some post.postTitle, some post.postContent, none⟩
  | .comment => ∃ comment post, request.commentId = some comment.commentId ∧
      request.postId = some comment.postId ∧
        Answered es (.activeComment comment.commentId) [comment] ∧
          Answered es (.anyPost comment.postId) [post] ∧
            reported = ⟨comment.authorId, some post.postTitle, none, some comment.commentContent⟩
  | .user => ∃ userId, request.reportedUserId = some userId ∧
      reported = ⟨userId, none, none, none⟩

/-- The decisions of some reports, in the order of their numbers. -/
def ReportProcessRequest.decisions (request : ReportProcessRequest) (reviewerUserId : Int)
    (now : Nat) (rows : List Report) : List Op :=
  (rows.insertionSort fun row row' => row.reportId ≤ row'.reportId).map fun row =>
    .update (.report row.reportId (ReportRepository.decision row request.reportStatus
      request.userSanctionType reviewerUserId (datetime now)))

/-- The post of the report is hidden if it is published, and the sanction asks for it. -/
def ReportProcessRequest.Hides (request : ReportProcessRequest) (es : List BoardEvent)
    (rep : Report) (hidden : List Op) : Prop :=
  match request.reportStatus, request.userSanctionType with
  | .accepted, some .suspended | .accepted, some .banned =>
      rep.reportContentType = .post ∧ ∃ post, rep.postId = some post.postId ∧
        Answered es (.anyPost post.postId) [post] ∧
          hidden = if post.postStatus = .published then [.update (.post post.postId hideSet)]
            else []
  | _, _ => hidden = []

/-- The sanction of the reported user. -/
def ReportProcessRequest.sanction (request : ReportProcessRequest) (rep : Report) : List Op :=
  match request.reportStatus, request.userSanctionType with
  | .accepted, some type =>
      [.insert (.userSanction rep.reportedUserId type (ReportService.sanctionReason rep)
        rep.reportId (request.expiresAt.map datetime))]
  | _, _ => []

/-- The report was pending, and so were the reports of its target that are decided with it. -/
structure ReportProcessRequest.Decides (request : ReportProcessRequest) (reportId : Int)
    (es : List BoardEvent) (rep : Report) (rows : List Report) (now : Nat)
    (hidden : List Op) : Prop where
  report : Answered es (.report reportId) [rep] ∧ rep.reportId = reportId
  pending : rep.reportStatus = .pending
  target : ∃ target, rep.target = some target ∧ Answered es (.pendingOf target) rows ∧
    ∀ row ∈ rows, row.reportStatus = .pending ∧ row.target = some target
  named : ∃ row ∈ rows, row.reportId = reportId
  time : (⟨.now, .ok now⟩ : BoardEvent) ∈ es
  hides : request.Hides es rep hidden

/-- What a request of the user `userId` with the events `es` has committed when it has ended,
in a success or not. -/
def Request.Settled (dep : Deployment) (userId : Int) (es : List BoardEvent) :
    Request → Bool → List (List Op) → Prop
  | .listPosts _, _, bs | .likePost _, _, bs | .unlikePost _, _, bs | .sharePost _, _, bs
  | .listImages _, _, bs | .listComments _ _, _, bs | .listReplies _, _, bs
  | .listReports _, _, bs => bs = []
  | .getPost postId, ok, bs => Shown userId es postId bs ∨ ok = false ∧ bs = []
  | .updatePost postId payload, ok, bs =>
      (∃ post rest, Answered es (.activePost postId) [post] ∧ post.postId = postId ∧
        bs = payload.edit post :: rest ∧
          (Shown userId es postId rest ∨ ok = false ∧ rest = [])) ∨
        ok = false ∧ bs = []
  | .uploadImage postId image, ok, bs =>
      (∃ fileId, (⟨.uuid4, .ok fileId⟩ : BoardEvent) ∈ es ∧
        let suffix := dep.libs.lower (pathSuffix (image.filename.getD ""))
        bs = [[.insert (.postImage postId s!"posts/{postId}/original/{fileId}{suffix}"
          s!"posts/{postId}/content/{fileId}.webp"
          s!"posts/{postId}/thumbnail/{fileId}.webp")]]) ∨
        ok = false ∧ bs = []
  | .createPost payload, ok, bs =>
      bs = if ok then [[.insert (.post payload.postTitle payload.postContent userId)]] else []
  | .deletePost postId, ok, bs =>
      if ok then ∃ now, (⟨.now, .ok now⟩ : BoardEvent) ∈ es ∧
        bs = [[.update (.post postId ⟨none, none, some .deleted, some (datetime now)⟩)]]
      else bs = []
  | .createComment postId payload, ok, bs =>
      bs = if ok then
        [[.insert (.comment payload.commentContent postId userId payload.parentCommentId)]]
      else []
  | .updateComment commentId payload, ok, bs =>
      if ok then ∃ comment, Answered es (.activeComment commentId) [comment] ∧
        comment.commentId = commentId ∧ bs = [payload.edit comment]
      else bs = []
  | .deleteComment commentId, ok, bs =>
      if ok then ∃ now, (⟨.now, .ok now⟩ : BoardEvent) ∈ es ∧
        bs = [[.update (.comment commentId ⟨none, some (datetime now)⟩)]]
      else bs = []
  | .addReport request, ok, bs =>
      if ok then ∃ reported, request.Reported es reported ∧
        bs = [[.insert (.report (some userId) request.reportContentType request.postId
          reported.postTitle reported.postContent request.commentId reported.commentContent
          reported.reportedUserId request.reportCategory request.reportReason)]]
      else bs = []
  | .processReport reportId request, ok, bs =>
      if ok then ∃ rep rows now hidden, request.Decides reportId es rep rows now hidden ∧
        bs = [request.decisions userId now rows ++ hidden ++ request.sanction rep]
      else bs = []

/-! ## Rules -/

section Rules

variable {α β : Type} {told : BoardEvent → Prop} {x : Ledger}

abbrev Keeps (told : BoardEvent → Prop) (p : BoardM α) (Q : Except AppError α → Ledger → Prop)
    (x : Ledger) : Prop :=
  p.Records (fun _ e => told e) (fun _ _ => True) Ledger.next Q x

/-- The program leaves the ledger alone; `P` is what is known of its result. -/
def Gets (P : α → Prop) (x : Ledger) (o : Except AppError α) (x' : Ledger) : Prop :=
  x' = x ∧ ∀ a, o = .ok a → P a

theorem gets_error {P : α → Prop} {e : AppError} : Gets P x (.error e) x :=
  ⟨rfl, by rintro _ ⟨⟩⟩

theorem gets_ok {P : α → Prop} {a : α} (h : P a) : Gets P x (.ok a) x :=
  ⟨rfl, by rintro _ ⟨⟩; exact h⟩

theorem next_plain {op : Op} (h : op.plain) (x : Ledger) (r : Reply op) :
    x.next ⟨op, r⟩ = x := by
  cases r with
  | error e => cases op <;> rfl
  | ok r => cases op <;> first | rfl | exact absurd h id

theorem gets_of_plain {p : BoardM α} (h : p.Every Op.plain) :
    Keeps told p (Gets (fun _ => True) x) x :=
  (h.records (K := (· = x)) (fun y _ r hop hy _ => ⟨trivial, (next_plain hop y r).trans hy⟩)
    rfl).imp fun _ _ hx => ⟨hx, fun _ _ => trivial⟩

/-- What comes after a program that only reads. -/
theorem keeps_bind {p : BoardM α} {f : α → BoardM β} {P : α → Prop}
    {Q : Except AppError β → Ledger → Prop} (hp : Keeps told p (Gets P x) x)
    (herr : ∀ e, Q (.error e) x) (hf : ∀ a, P a → Keeps told (f a) Q x) :
    Keeps told (p >>= f) Q x := by
  refine among_bind.mpr (Among.imp ?_ hp)
  rintro (e | a) _ ⟨rfl, h⟩
  · exact herr e
  · exact hf a (h a rfl)

theorem keeps_perform {op : Op} {f : Result op → BoardM β}
    {Q : Except AppError β → Ledger → Prop} (herr : ∀ e, Q (.error e) x)
    (hf : ∀ r, told ⟨op, .ok r⟩ → Keeps told (f r) Q (x.next ⟨op, .ok r⟩)) :
    Keeps told (perform op >>= f) Q x := by
  refine (records_call op _).mpr fun r htrue => ⟨trivial, ?_⟩
  cases r with
  | error e =>
      have hsame : x.next ⟨op, .error e⟩ = x := by cases op <;> rfl
      rw [hsame]
      exact herr e
  | ok r => exact hf r htrue

theorem keeps_last {op : Op} {Q : Except AppError (Result op) → Ledger → Prop}
    (herr : ∀ e, Q (.error e) x) (hok : ∀ r, Q (.ok r) (x.next ⟨op, .ok r⟩)) :
    Keeps told (perform op) Q x := by
  have h : Keeps told (perform op >>= ret) Q x := keeps_perform herr fun r _ => hok r
  rwa [bind_ret] at h

/-- What comes behind the row of `refresh`. -/
theorem keeps_refreshed {R : Type} {rows : List R} {f : R → BoardM β}
    {Q : Except AppError β → Ledger → Prop} (herr : ∀ e, Q (.error e) x)
    (hf : ∀ row, rows = [row] → Keeps told (f row) Q x) : Keeps told (refreshed rows >>= f) Q x := by
  match rows, hf with
  | [row], hf => exact hf row rfl
  | [], _ | _ :: _ :: _, _ => exact herr _

/-- A lookup, and the row it finds. -/
theorem gets_find (query : Query) {R : Type} (f : query.Rows → List R) {P : R → Prop}
    (hP : ∀ rows row, told ⟨.select query, .ok rows⟩ → f rows = [row] → P row) :
    Keeps told (perform (.select query) >>= fun rows => oneOrNone (f rows))
      (Gets (fun found => ∀ row, found = some row → P row) x) x := by
  refine keeps_perform (fun _ => gets_error) fun rows htold => ?_
  have hrows := hP rows
  match f rows, hrows with
  | [], _ => exact ⟨rfl, by rintro _ ⟨⟩ _ ⟨⟩⟩
  | [row], hrows =>
      refine gets_ok ?_
      rintro _ ⟨⟩
      exact hrows row htold rfl
  | _ :: _ :: _, _ => exact gets_error

end Rules

end GreenCommunity.Board
