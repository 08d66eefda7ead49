import GreenCommunity.Board.Filing

/-!
# Deciding reports

A pending report is decided by a request that is consistent in itself.  Two things stand
in the way: `_validate_report` wants the numbers in the report to suit its kind and looks
for its comment among the comments that are not deleted, and `_hide_reported_content`,
which a suspension or a ban runs into, knows posts only.  Such a report stays pending, and
so do all others of its target.
-/

namespace GreenCommunity.Board

open GreenCommunity.Base
open GreenCommunity.Base.Prog
open GreenCommunity.Infrastructure (Collation datetime)

/-- What the report is about has a row, whatever has become of it. -/
def TargetExists (t : Tables) (report : Report) : Prop :=
  match report.reportContentType with
  | .post => ∃ post ∈ t.posts, report.postId = some post.postId
  | .comment => ∃ comment ∈ t.comments, report.commentId = some comment.commentId
  | .user => ∃ user ∈ t.users, user.userId = report.reportedUserId

/-- The sanction suits the verdict, and the end of it the sanction. -/
def Consistent (request : ReportProcessRequest) : Prop :=
  match request.reportStatus, request.userSanctionType with
  | .rejected, sanctionType => sanctionType = none
  | .accepted, none => True
  | .accepted, some .suspended => request.expiresAt ≠ none
  | .accepted, some _ => request.expiresAt = none

/-- The request asks for the content to be hidden. -/
def Hides (request : ReportProcessRequest) : Prop :=
  request.reportStatus = .accepted ∧
    (request.userSanctionType = some .suspended ∨ request.userSanctionType = some .banned)

/-- The numbers in the report suit its kind, and its comment, if it is about one, is not
deleted and stands under a post that is there. -/
def Checked (t : Tables) (report : Report) : Prop :=
  match report.reportContentType with
  | .post => report.commentId = none
  | .comment =>
      ∃ comment ∈ t.comments, comment.deletedAt = none ∧
        report.commentId = some comment.commentId ∧ report.postId = some comment.postId ∧
          ∃ post ∈ t.posts, post.postId = comment.postId
  | .user => report.postId = none ∧ report.commentId = none

/-- A sanction that hides content can follow from the report of a post only. -/
def Processable (t : Tables) (report : Report) (request : ReportProcessRequest) : Prop :=
  Checked t report ∧ (Hides request → report.reportContentType = .post)

/-- The report has been decided. -/
def Decided (reportId : Int) (status : ReportStatus) (t : Tables) : Prop :=
  ∃ row ∈ t.reports, row.reportId = reportId ∧ row.reportStatus = status

/-- The request is served, and the report is no longer pending. -/
def Decides {C : Type} (report : Report) (request : ReportProcessRequest)
    (o : Except AppError Unit) (s : State C) : Prop :=
  o = .ok () ∧ Decided report.reportId request.reportStatus.status s.db.committed

/-! ## What becomes of the report -/

section Decided

variable {reportId : Int} {status : ReportStatus} {t : Tables}

/-- A report stays decided, unless another verdict overwrites it. -/
theorem Decided.apply (h : Decided reportId status t) {w : Write}
    (hw : ∀ k set, w = .update (.report k set) → set.reportStatus = status) :
    Decided reportId status (Board.apply t w) := by
  obtain ⟨row, hrow, hid, hstatus⟩ := h
  match w with
  | .insert new =>
      cases new with
      | report new => exact ⟨row, List.mem_append_left _ hrow, hid, hstatus⟩
      | _ => exact ⟨row, hrow, hid, hstatus⟩
  | .update (.report k set) =>
      by_cases hk : row.reportId = k
      · exact ⟨row.set set, mem_updateAt.mpr (Or.inl ⟨row, hrow, hk, rfl⟩), hid, hw k set rfl⟩
      · exact ⟨row, mem_updateAt.mpr (Or.inr ⟨hrow, hk⟩), hid, hstatus⟩
  | .update (.post _ _) | .update (.views _) | .update (.comment _ _) =>
      exact ⟨row, hrow, hid, hstatus⟩

theorem Decided.foldl {ws : List Write} (h : Decided reportId status t)
    (hws : ∀ w ∈ ws, ∀ k set, w = .update (.report k set) → set.reportStatus = status) :
    Decided reportId status (ws.foldl Board.apply t) := by
  induction ws generalizing t with
  | nil => exact h
  | cons w ws ih =>
      exact ih (h.apply (hws w List.mem_cons_self)) fun w hw => hws w (List.mem_cons_of_mem _ hw)

/-- The update of the report itself decides it, whatever else is updated. -/
theorem decided_of_update {ws : List Write} {set : ReportSet}
    (hrow : reportId ∈ t.keys .reports) (hset : set.reportStatus = status)
    (hws : ∀ w ∈ ws, ∃ k set, w = .update (.report k set) ∧ set.reportStatus = status)
    (hmem : .update (.report reportId set) ∈ ws) :
    Decided reportId status (ws.foldl Board.apply t) := by
  obtain ⟨before, after, rfl⟩ := List.append_of_mem hmem
  rw [List.foldl_append, List.foldl_cons]
  have hkeys : reportId ∈ (before.foldl Board.apply t).keys .reports := by
    rw [keys_updates fun w hw => ?_]
    · exact hrow
    · obtain ⟨k, set, rfl, _⟩ := hws w (List.mem_append_left _ hw)
      exact ⟨_, rfl⟩
  obtain ⟨row, hrow, hid⟩ := List.mem_map.mp hkeys
  refine Decided.foldl ⟨row.set set, mem_updateAt.mpr (Or.inl ⟨row, hrow, hid, rfl⟩), hid, hset⟩
    fun w hw k set hupdate => ?_
  obtain ⟨k', set', rfl, hset'⟩ := hws w (List.mem_append_right _ (List.mem_cons_of_mem _ hw))
  cases hupdate
  exact hset'

end Decided

/-! ## The request -/

section Processing

variable {C : Type} [DecidableEq C] {coll : Collation} {c : C} {t : Tables} {s : State C}
  {report : Report} {request : ReportProcessRequest}

/-- The report is one of its own target. -/
theorem sameReports_eq (htarget : TargetExists t report) (hchecked : Checked t report) :
    ∃ target, ReportRepository.sameReports report = ret target ∧
      target.includes report = true := by
  unfold TargetExists at htarget
  unfold Checked at hchecked
  unfold ReportRepository.sameReports
  cases hkind : report.reportContentType with
  | post =>
      rw [hkind] at htarget hchecked
      obtain ⟨post, _, hpost⟩ := htarget
      rw [hpost]
      exact ⟨_, rfl, by simp [Target.includes, hkind, hpost, show report.commentId = none from
        hchecked]⟩
  | comment =>
      rw [hkind] at hchecked
      obtain ⟨comment, _, _, hcomment, hpost, _⟩ := hchecked
      rw [hpost, hcomment]
      exact ⟨_, rfl, by simp [Target.includes, hkind, hpost, hcomment]⟩
  | user =>
      rw [hkind] at hchecked
      exact ⟨_, rfl, by simp [Target.includes, hkind, hchecked.1, hchecked.2]⟩

/-- All pending reports of the target are updated, this one among them. -/
theorem Solo.updateReport (h : Solo c t [] s) (hreport : report ∈ t.reports)
    (hpending : report.reportStatus = .pending) (htarget : TargetExists t report)
    (hchecked : Checked t report) {verdict : Verdict} {sanctionType : Option SanctionType} {reviewerUserId : Int}
    {processedAt : Nat} {Q : Except AppError Nat → State C → Prop}
    (hok : ∀ n ws s', Solo c t ws s' → (∀ w ∈ ws, ∃ change, w = .update change) →
      Decided report.reportId verdict.status (ws.foldl apply t) → Q (.ok n) s') :
    (ReportRepository.updateReport report verdict sanctionType reviewerUserId
      processedAt).total (healthy coll) c Q s := by
  obtain ⟨target, heq, hincludes⟩ := sameReports_eq htarget hchecked
  unfold ReportRepository.updateReport
  rw [heq, ret_bind]
  refine h.select fun rows s₁ hrows h₁ => ?_
  have hmem : report ∈ rows := by
    refine hrows.symm.subset (List.mem_filter.mpr ⟨List.mem_filter.mpr ⟨hreport, ?_⟩, hincludes⟩)
    rw [hpending]
    rfl
  refine Solo.updates (fun _ => rfl) _ h₁ fun s₂ h₂ => ?_
  refine hok rows.length _ s₂ h₂ (fun w hw => ?_) ?_
  · obtain ⟨row, _, rfl⟩ := List.mem_map.mp (by simpa using hw)
    exact ⟨_, rfl⟩
  · refine decided_of_update (List.mem_map_of_mem hreport) rfl (fun w hw => ?_)
      (by simpa using ⟨report, hmem, rfl, rfl⟩)
    obtain ⟨row, _, rfl⟩ := List.mem_map.mp (by simpa using hw)
    exact ⟨_, _, rfl, rfl⟩

theorem hide_of_hides (h : Hides request) :
    ReportService.hide report request = ReportService.hideReportedContent report := by
  obtain ⟨hstatus, hsanction | hsanction⟩ := h <;> rw [ReportService.hide, hstatus, hsanction]

theorem hide_of_not (h : ¬ Hides request) : ReportService.hide report request = ret () := by
  unfold ReportService.hide
  split
  next hstatus hsanction => exact absurd ⟨hstatus, Or.inl hsanction⟩ h
  next hstatus hsanction => exact absurd ⟨hstatus, Or.inr hsanction⟩ h
  · rfl

/-- The post of a report is hidden, if it is published. -/
theorem Solo.hide {ws : List Write} (h : Solo c t ws s)
    (hws : ∀ w ∈ ws, ∃ change, w = .update change) (htarget : TargetExists t report)
    (hprocessable : Processable t report request) {status : ReportStatus}
    (hdecided : Decided report.reportId status (ws.foldl apply t))
    {Q : Except AppError Unit → State C → Prop}
    (hok : ∀ ws s', Solo c t ws s' → Decided report.reportId status (ws.foldl apply t) →
      Q (.ok ()) s') :
    (ReportService.hide report request).total (healthy coll) c Q s := by
  by_cases hhides : Hides request
  · rw [hide_of_hides hhides]
    have hkind := hprocessable.2 hhides
    unfold TargetExists at htarget
    rw [hkind] at htarget
    obtain ⟨post, hpost, hid⟩ := htarget
    have hmem : post.postId ∈ (ws.foldl apply t).keys .posts := by
      rw [keys_updates hws]
      exact List.mem_map_of_mem hpost
    obtain ⟨post', hpost', hid'⟩ := List.mem_map.mp hmem
    unfold ReportService.hideReportedContent
    rw [hkind, hid]
    unfold PostRepository.hideIfPublished PostRepository.getAnyById
    dsimp only
    rw [Prog.bind_assoc]
    refine h.select fun posts s₁ hposts h₁ => ?_
    subst hposts
    refine total_row (h₁.numbered.nodup .posts) (fun row hrow => by simpa using hrow)
      (fun hnone => ?_) fun row _ _ => ?_
    · exact absurd (hnone post' hpost') (by simp [hid'])
    · dsimp only
      split
      · exact hok ws s₁ h₁ hdecided
      · rw [← bind_pure (perform _)]
        refine h₁.update rfl fun s₂ h₂ => hok _ s₂ h₂ ?_
        rw [List.foldl_append, List.foldl_cons, List.foldl_nil]
        exact hdecided.apply fun k set hw => by cases hw
  · rw [hide_of_not hhides]
    exact hok ws s h hdecided

/-- A consistent request passes the checks of the sanction. -/
theorem Solo.sanction {ws : List Write} (h : Solo c t ws s) (hrequest : Consistent request)
    {status : ReportStatus} (hdecided : Decided report.reportId status (ws.foldl apply t))
    {Q : Except AppError Unit → State C → Prop}
    (hok : ∀ ws s', Solo c t ws s' → Decided report.reportId status (ws.foldl apply t) →
      Q (.ok ()) s') :
    (ReportService.sanction report request).total (healthy coll) c Q s := by
  unfold ReportService.sanction
  split
  next sanctionType hstatus hsanction =>
    unfold Consistent at hrequest
    rw [hstatus, hsanction] at hrequest
    unfold ReportService.addUserSanction
    rw [if_neg (by rintro ⟨rfl, hnone⟩; exact hrequest hnone),
      if_neg (by
        rintro ⟨hne, hsome⟩
        cases sanctionType <;> first | exact hne rfl | exact hsome hrequest)]
    unfold UserSanctionRepository.addUserSanction
    rw [Prog.bind_assoc]
    refine h.insert (fun n createdAt => ⟨_, rfl⟩) fun createdAt row s₁ hrow h₁ => ?_
    rw [Prog.bind_assoc]
    refine h₁.select fun rows s₂ hrows h₂ => ?_
    subst hrows
    cases hrow
    refine total_refreshed (h₂.numbered.nodup .userSanctions)
      (fun row hrow => by simpa using hrow) ?_ fun row _ _ => hok _ s₂ h₂ ?_
    · rw [List.foldl_append]
      exact ⟨_, List.mem_append_right _ List.mem_cons_self, by simp⟩
    · rw [List.foldl_append, List.foldl_cons, List.foldl_nil]
      exact hdecided.apply fun k set hw => by cases hw
  · exact hok ws s h hdecided

/-- What the request does to the report, once the checks are passed. -/
theorem Solo.decide (h : Solo c t [] s) (hreport : report ∈ t.reports)
    (hpending : report.reportStatus = .pending) (htarget : TargetExists t report)
    (hrequest : Consistent request) (hprocessable : Processable t report request)
    (reviewerUserId : Int) :
    (ReportService.decide report reviewerUserId request).total (healthy coll) c
      (Decides report request) s := by
  have hbody : Prog.total (healthy coll) c (do
      let now ← perform .now
      let _ ← ReportRepository.updateReport report request.reportStatus
        request.userSanctionType reviewerUserId (datetime now)
      ReportService.hide report request
      ReportService.sanction report request
      perform .commit) (Decides report request) s := by
    refine h.now fun now s₁ h₁ => ?_
    refine total_bind.mpr (h₁.updateReport hreport hpending htarget hprocessable.1 ?_)
    intro n ws s₂ h₂ hws hdecided
    refine total_bind.mpr (h₂.hide hws htarget hprocessable hdecided ?_)
    intro ws s₃ h₃ hdecided
    refine total_bind.mpr (h₃.sanction hrequest hdecided ?_)
    intro ws s₄ h₄ hdecided
    exact h₄.commit fun s₅ h₅ => ⟨rfl, by rw [h₅.committed]; exact hdecided⟩
  refine total_handle.mpr (total_mono ?_ hbody)
  rintro (e | _) s' hdecides
  · cases hdecides.1
  · exact hdecides

theorem hideReportedContent_raises (hkind : report.reportContentType ≠ .post) :
    ReportService.hideReportedContent report =
      raise (.valueError "지원하지 않는 신고 대상입니다.") := by
  unfold ReportService.hideReportedContent
  split
  next hpost _ => exact absurd hpost hkind
  next hpost _ => exact absurd hpost hkind
  · rfl

/-- A request that would hide what cannot be hidden raises. -/
theorem Solo.decide_raises (h : Solo c t [] s) (hreport : report ∈ t.reports)
    (hpending : report.reportStatus = .pending) (htarget : TargetExists t report)
    (hchecked : Checked t report) (hhides : Hides request) (hkind : report.reportContentType ≠ .post)
    (reviewerUserId : Int) :
    (ReportService.decide report reviewerUserId request).total (healthy coll) c
      (fun o _ => ∃ e, o = .error e) s := by
  refine total_rollingBack (fun e s' (_ : At c t [] s') => ⟨e, rfl⟩) ?_
  refine h.now fun now s₁ h₁ => ?_
  refine total_bind.mpr (h₁.updateReport hreport hpending htarget hchecked ?_)
  intro n ws s₂ h₂ _ _
  rw [hide_of_hides hhides, hideReportedContent_raises hkind]
  exact ⟨ws, h₂.toAt⟩

/-- The checks before the decision. -/
theorem Solo.validatePending (h : Solo c t [] s) (htarget : TargetExists t report)
    {Q : Except AppError ReportService.Reported → State C → Prop}
    (hraise : ¬ Checked t report → ∀ e s', Solo c t [] s' → Q (.error e) s')
    (hok : Checked t report → ∀ reported s', Solo c t [] s' → Q (.ok reported) s') :
    (ReportService.validateReport report.reportContentType report.postId report.commentId
      (some report.reportedUserId) (some .pending)).total (healthy coll) c Q s := by
  unfold ReportService.validateReport
  rw [if_neg (by simp)]
  unfold TargetExists at htarget
  unfold Checked at hraise hok
  cases hkind : report.reportContentType with
  | post =>
      rw [hkind] at htarget hok hraise
      exact h.validatePost (fun hill => hraise fun hnone => hill ⟨hnone, htarget⟩)
        fun hnone post _ _ s' h' => hok hnone _ s' h'
  | comment =>
      rw [hkind] at hok hraise
      exact h.validateComment hraise fun comment hcomment hactive hid hpost post hmem hpostId =>
        hok ⟨comment, hcomment, hactive, hid, hpost, post, hmem, hpostId⟩ _
  | user =>
      rw [hkind] at hok hraise
      rcases hpost : report.postId with _ | postId <;>
        rcases hcomment : report.commentId with _ | commentId <;>
        rw [hpost, hcomment] at hok hraise
      · exact hok ⟨rfl, rfl⟩ _ s h
      all_goals exact hraise (by simp) _ s h

/-- A consistent request decides a pending report if and only if it is one that the code
can process. -/
theorem processReport_iff (h : Solo c t [] s) (hreport : report ∈ t.reports)
    (hpending : report.reportStatus = .pending) (htarget : TargetExists t report)
    (hrequest : Consistent request) (reviewerUserId : Int) :
    (ReportService.processReport report.reportId reviewerUserId request).total (healthy coll) c
        (Decides report request) s ↔ Processable t report request := by
  have hloaded : ∀ {Q : Except AppError Unit → State C → Prop},
      (∀ s', Solo c t [] s' → ((ReportService.validateReport report.reportContentType
        report.postId report.commentId (some report.reportedUserId) (some .pending)) >>= fun _ =>
          ReportService.decide report reviewerUserId request).total (healthy coll) c Q s') →
      (ReportService.processReport report.reportId reviewerUserId request).total (healthy coll) c
        Q s := by
    intro Q hrest
    unfold ReportService.processReport ReportRepository.getById
    rw [Prog.bind_assoc]
    refine h.select fun rows s₁ hrows h₁ => ?_
    subst hrows
    refine total_row (h₁.numbered.nodup .reports) (fun row hrow => by simpa using hrow)
      (fun hnone => absurd (hnone report hreport) (by simp)) fun row hrow hid => ?_
    obtain rfl := List.inj_on_of_nodup_map (h₁.numbered.nodup .reports) hrow hreport
      (by simpa using hid)
    have hsuits : ¬ (request.reportStatus = .rejected ∧ request.userSanctionType ≠ none) := by
      rintro ⟨hstatus, hsanction⟩
      unfold Consistent at hrequest
      rw [hstatus] at hrequest
      exact hsanction hrequest
    have hrest₁ := hrest s₁ h₁
    dsimp only
    rw [hpending, if_neg hsuits]
    exact hrest₁
  constructor
  · intro hdecides
    by_contra hstuck
    have hraises : (ReportService.processReport report.reportId reviewerUserId request).total
        (healthy coll) c (fun o _ => ∃ e, o = .error e) s := by
      refine hloaded fun s₁ h₁ => total_bind.mpr (h₁.validatePending htarget
        (fun _ e s' _ => ⟨e, rfl⟩) fun hchecked reported s₂ h₂ => ?_)
      obtain ⟨hhides, hkind⟩ : Hides request ∧ report.reportContentType ≠ .post := by
        simpa [Processable, hchecked] using hstuck
      exact h₂.decide_raises hreport hpending htarget hchecked hhides hkind reviewerUserId
    obtain ⟨o, s', ⟨hok, _⟩, e, rfl⟩ := exists_of_total hdecides hraises
    cases hok
  · intro hprocessable
    refine hloaded fun s₁ h₁ => total_bind.mpr (h₁.validatePending htarget
      (fun hno => absurd hprocessable.1 hno) fun _ _ s₂ h₂ => ?_)
    exact h₂.decide hreport hpending htarget hrequest hprocessable reviewerUserId

end Processing

/-! ## A report of a user -/

section Samples

open Infrastructure (binaryCollation)

/-- The user 5 is reported as such. -/
def userComplaint : Report :=
  { complaint with reportContentType := .user, postId := none }

/-- The members of the board with this report. -/
def tribunal : State Unit where
  db :=
    { committed := ⟨[spammer, moderator], [badPost], [], [], [userComplaint], []⟩
      session := fun _ => .idle }
  nextId := board.nextId
  objects := board.objects
  fileIds := board.fileIds

theorem solo_tribunal : Solo () tribunal.db.committed [] tribunal where
  toAt := at_of_idle rfl
  others _ hc := absurd rfl hc
  numbered :=
    { users := by decide
      nodup := by
        intro table
        cases table <;> decide
      below := by
        intro table
        cases table <;> decide }

theorem targetExists_userComplaint :
    TargetExists tribunal.db.committed userComplaint :=
  ⟨spammer, List.mem_cons_self, rfl⟩

theorem checked_userComplaint : Checked tribunal.db.committed userComplaint := ⟨rfl, rfl⟩

/-- The user cannot be banned. -/
theorem ban_not_possible :
    TargetExists tribunal.db.committed userComplaint ∧ Consistent ban ∧
      ¬ (ReportService.processReport 1 9 ban).total (healthy binaryCollation) ()
        (Decides userComplaint ban) tribunal := by
  refine ⟨targetExists_userComplaint, rfl, fun hdecides => ?_⟩
  have hraises : (ReportService.processReport 1 9 ban).total (healthy binaryCollation) ()
      (fun o _ => ∃ e, o = .error e) tribunal := by
    unfold ReportService.processReport ReportRepository.getById
    rw [Prog.bind_assoc]
    refine solo_tribunal.select fun rows s₁ hrows h₁ => ?_
    obtain rfl : rows = [userComplaint] := hrows
    exact h₁.decide_raises List.mem_cons_self rfl targetExists_userComplaint
      checked_userComplaint ⟨rfl, Or.inr rfl⟩ (by decide) 9
  obtain ⟨o, s', ⟨hok, _⟩, e, rfl⟩ := exists_of_total hdecides hraises
  cases hok

/-- A warning goes through. -/
theorem processReport_iff_sample :
    (ReportService.processReport 1 9 ⟨.accepted, some .warning, none⟩).total
      (healthy binaryCollation) ()
      (Decides userComplaint ⟨.accepted, some .warning, none⟩) tribunal :=
  have hrequest : Consistent ⟨.accepted, some .warning, none⟩ := rfl
  (processReport_iff solo_tribunal List.mem_cons_self rfl targetExists_userComplaint hrequest
    9).mpr ⟨checked_userComplaint, by rintro ⟨_, hsanction | hsanction⟩ <;> cases hsanction⟩

end Samples

end GreenCommunity.Board
