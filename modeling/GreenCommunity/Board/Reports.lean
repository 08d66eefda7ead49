import GreenCommunity.Board.Comments

/-!
# Reports

`ReportRepository`, `UserSanctionRepository` and `ReportService`.  Processing a report
decides all pending reports of its target, may hide the post it is about and may record
a sanction, in one transaction that is rolled back if any of it fails.

A target is one of three kinds, so the branches for other kinds do not arise.
-/

namespace GreenCommunity.Board

open GreenCommunity.Base
open GreenCommunity.Common
open GreenCommunity.Infrastructure (oneOrNone refreshed changed datetime)

structure ReportCreateRequest where
  reportContentType : ContentType
  postId : Option Int
  commentId : Option Int
  reportedUserId : Option Int
  reportCategory : String
  reportReason : Option String
  deriving DecidableEq, Repr

inductive Verdict where
  | accepted
  | rejected
  deriving DecidableEq, Repr

structure ReportProcessRequest where
  reportStatus : Verdict
  userSanctionType : Option SanctionType
  expiresAt : Option Nat
  deriving DecidableEq, Repr

def Verdict.status : Verdict → ReportStatus
  | .accepted => .accepted
  | .rejected => .rejected

/-! ## Repositories -/

namespace ReportRepository

/-- The conditions on reports of the same target. -/
def sameReports (report : Report) : BoardM Target :=
  match report.reportContentType, report.postId, report.commentId with
  | .post, some postId, _ => return .post postId
  | .post, none, _ => throw (.valueError "게시글 신고에 post_id가 없습니다.")
  | .comment, some postId, some commentId => return .comment postId commentId
  | .comment, _, _ => throw (.valueError "댓글 신고 대상 정보가 올바르지 않습니다.")
  | .user, _, _ => return .user report.reportedUserId

def addReport (new : NewRow) : BoardM Report := do
  let reportId ← perform (.insert new)
  refreshed (← perform (.select (.report reportId)))

def getById (reportId : Int) : BoardM (Option Report) := do
  oneOrNone (← perform (.select (.report reportId)))

def listReports (offset limit : Nat) : BoardM (List Report) :=
  perform (.select (.pendingReports offset limit))

def countByTotalReports : BoardM Nat := perform (.select .countPending)

/-- What a decision makes of a report. The row was PENDING, so its status changes, and
the time of the decision always differs from a loaded one, which has no time zone. -/
def decision (row : Report) (reportStatus : Verdict) (userSanctionType : Option SanctionType)
    (reviewerUserId : Int) (processedAt : Nat) : ReportSet where
  reportStatus := reportStatus.status
  userSanctionType := changed row.userSanctionType userSanctionType
  reviewerUserId := (changed row.reviewerUserId (some reviewerUserId)).join
  processedAt := processedAt

/-- The flush sends the updates in the order of the primary keys. -/
def updateReport (report : Report) (reportStatus : Verdict)
    (userSanctionType : Option SanctionType) (reviewerUserId : Int) (processedAt : Nat) :
    BoardM Nat := do
  let target ← sameReports report
  let pendingReports ← perform (.select (.pendingOf target))
  (pendingReports.insertionSort fun row row' => row.reportId ≤ row'.reportId).forM fun row =>
    perform (.update (.report row.reportId
      (decision row reportStatus userSanctionType reviewerUserId processedAt)))
  return pendingReports.length

end ReportRepository

def UserSanctionRepository.addUserSanction (reportedUserId : Int)
    (userSanctionType : SanctionType) (userSanctionReason : String) (reportId : Int)
    (expiresAt : Option Nat) : BoardM UserSanction := do
  let userSanctionId ← perform
    (.insert (.userSanction reportedUserId userSanctionType userSanctionReason reportId
      expiresAt))
  refreshed (← perform (.select (.userSanction userSanctionId)))

/-! ## Service -/

namespace ReportService

/-- The author of the reported content, and the title and the texts to keep. -/
structure Reported where
  reportedUserId : Int
  postTitle : Option String
  postContent : Option String
  commentContent : Option String
  deriving DecidableEq, Repr

def validatePost : Option Int → Option Int → BoardM Reported
  | some postId, none => do
      match ← PostRepository.getAnyById postId with
      | none => throw (.notFound "신고 대상 게시글을 찾을 수 없습니다.")
      | some post => return ⟨post.authorId, some post.postTitle, some post.postContent, none⟩
  | _, _ => throw (.valueError "게시글 신고 대상 정보가 올바르지 않습니다.")

def validateComment : Option Int → Option Int → BoardM Reported
  | some postId, some commentId => do
      match ← CommentRepository.getById commentId with
      | none => throw (.notFound "신고 대상 댓글을 찾을 수 없습니다.")
      | some comment =>
          if comment.postId ≠ postId then
            throw (.valueError "댓글이 해당 게시글에 속하지 않습니다.")
          else do
            match ← PostRepository.getAnyById comment.postId with
            | none => throw (.notFound "댓글이 작성된 게시글을 찾을 수 없습니다.")
            | some post =>
                return ⟨comment.authorId, some post.postTitle, none,
                  some comment.commentContent⟩
  | _, _ => throw (.valueError "댓글 신고 대상 정보가 올바르지 않습니다.")

def validateUser : Option Int → Option Int → Option Int → BoardM Reported
  | none, none, some reportedUserId => return ⟨reportedUserId, none, none, none⟩
  | none, none, none => throw (.valueError "신고 대상 사용자 정보가 필요합니다.")
  | _, _, _ => throw (.valueError "사용자 신고 대상 정보가 올바르지 않습니다.")

/-- A report that is being filed has no status yet. -/
def validateReport (reportContentType : ContentType)
    (postId commentId reportedUserId : Option Int) (reportStatus : Option ReportStatus) :
    BoardM Reported :=
  if reportStatus.any fun status => status ≠ .pending then
    throw (.valueError "이미 처리된 신고입니다.")
  else
    match reportContentType with
    | .post => validatePost postId commentId
    | .comment => validateComment postId commentId
    | .user => validateUser postId commentId reportedUserId

/-- `try … except Exception: rollback; raise` -/
def rollingBack {α : Type} (body : BoardM α) : BoardM α :=
  body.handle fun e => do
    perform .rollback
    throw e

def addReport (request : ReportCreateRequest) (currentUser : User) : BoardM Report := do
  let reported ← validateReport request.reportContentType request.postId request.commentId
    request.reportedUserId none
  rollingBack do
    let report ← ReportRepository.addReport (.report (some currentUser.userId)
      request.reportContentType request.postId reported.postTitle reported.postContent
      request.commentId reported.commentContent reported.reportedUserId
      request.reportCategory request.reportReason)
    perform .commit
    return report

/-- There is no check of the caller here. -/
def listReports (params : PageParams) : BoardM (List Report × Nat) := do
  let reports ← ReportRepository.listReports params.offset params.size
  let total ← ReportRepository.countByTotalReports
  return (reports, total)

/-- Only posts can be hidden. -/
def hideReportedContent (report : Report) : BoardM Unit :=
  match report.reportContentType, report.postId with
  | .post, some postId => PostRepository.hideIfPublished postId
  | .post, none => throw (.valueError "신고 대상 게시글 ID가 없습니다.")
  | _, _ => throw (.valueError "지원하지 않는 신고 대상입니다.")

/-- `report.report_reason or report.report_category`: an empty reason counts as none. -/
def sanctionReason (report : Report) : String :=
  match report.reportReason with
  | some reason => if reason = "" then report.reportCategory else reason
  | none => report.reportCategory

def addUserSanction (report : Report) (userSanctionType : SanctionType)
    (expiresAt : Option Nat) : BoardM Unit :=
  if userSanctionType = .suspended ∧ expiresAt = none then
    throw (.valueError "기간 정지에는 종료 시각이 필요합니다.")
  else if userSanctionType ≠ .suspended ∧ expiresAt ≠ none then
    throw (.valueError "기간 정지에만 종료 시각을 설정할 수 있습니다.")
  else do
    let _ ← UserSanctionRepository.addUserSanction report.reportedUserId userSanctionType
      (sanctionReason report) report.reportId (expiresAt.map datetime)
    return ()

/-- The sanction of an accepted report. -/
def sanction (report : Report) (request : ReportProcessRequest) : BoardM Unit :=
  match request.reportStatus, request.userSanctionType with
  | .accepted, some userSanctionType =>
      addUserSanction report userSanctionType request.expiresAt
  | _, _ => return ()

/-- A suspension or a ban hides the content. -/
def hide (report : Report) (request : ReportProcessRequest) : BoardM Unit :=
  match request.reportStatus, request.userSanctionType with
  | .accepted, some .suspended | .accepted, some .banned => hideReportedContent report
  | _, _ => return ()

/-- The `try` of `process_report`. -/
def decide (report : Report) (reviewerUserId : Int) (request : ReportProcessRequest) :
    BoardM Unit :=
  rollingBack do
    let now ← perform .now
    let _ ← ReportRepository.updateReport report request.reportStatus
      request.userSanctionType reviewerUserId (datetime now)
    hide report request
    sanction report request
    perform .commit

def processReport (reportId reviewerUserId : Int) (request : ReportProcessRequest) :
    BoardM Unit := do
  match ← ReportRepository.getById reportId with
  | none => throw (.notFound "신고 내역을 찾을 수 없습니다.")
  | some report => do
      let _ ← validateReport report.reportContentType report.postId report.commentId
        (some report.reportedUserId) (some report.reportStatus)
      if request.reportStatus = .rejected ∧ request.userSanctionType ≠ none then
        throw (.valueError "반려된 신고에는 사용자 제재를 적용할 수 없습니다.")
      else
        decide report reviewerUserId request

end ReportService

/-- The endpoint `GET /reports`. -/
def listReports (params : PageParams) : BoardM (PageResponse Report) := do
  let (reports, total) ← ReportService.listReports params
  return .create reports total params

end GreenCommunity.Board
