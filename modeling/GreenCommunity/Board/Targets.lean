import GreenCommunity.Board.Requests

/-!
# The targets of reports

A well-formed report is about one post, one comment of a post, or one user.  The
conditions of `_same_reports` select the reports of the same target.
-/

namespace GreenCommunity.Board

open GreenCommunity.Base

/-- What a well-formed report is about. -/
def Report.target (row : Report) : Option Target :=
  match row.reportContentType, row.postId, row.commentId with
  | .post, some postId, none => some (.post postId)
  | .comment, some postId, some commentId => some (.comment postId commentId)
  | .user, none, none => some (.user row.reportedUserId)
  | _, _, _ => none

theorem includes_iff {target : Target} {row : Report} :
    target.includes row = true ↔ row.target = some target := by
  obtain ⟨_, _, type, postId, _, _, commentId, _, reportedUserId⟩ := row
  cases target <;> cases type <;> cases postId <;> cases commentId <;>
    simp [Target.includes, Report.target]

theorem sameReports_of_target {row : Report} {target : Target}
    (h : row.target = some target) : ReportRepository.sameReports row = .ret target := by
  simp only [Report.target] at h
  simp only [ReportRepository.sameReports]
  split at h <;> simp_all

end GreenCommunity.Board
