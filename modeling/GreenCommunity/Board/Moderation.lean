import GreenCommunity.Board.Alone
import GreenCommunity.Board.Sample
import GreenCommunity.Board.Targets

/-!
# Deciding reports

What one `process_report` does when nobody else is about: all of a decision or nothing.
The reports it decides are the pending ones of the target of the report it is called
for; `Processed` says what becomes of the tables.
-/

namespace GreenCommunity.Board

open GreenCommunity.Base
open GreenCommunity.Base.Prog
open GreenCommunity.Infrastructure (Collation changed datetime)

/-! ## Decisions -/

/-- The row after the decision. -/
def Report.decided (row : Report) (request : ReportProcessRequest) (reviewerUserId : Int)
    (processedAt : Nat) : Report :=
  { row with
    reportStatus := request.reportStatus.status
    userSanctionType := request.userSanctionType
    reviewerUserId := some reviewerUserId
    processedAt := some processedAt }

/-- The sanction that goes with a decision. -/
def ReportProcessRequest.sanctioned (request : ReportProcessRequest) : Option SanctionType :=
  match request.reportStatus with
  | .accepted => request.userSanctionType
  | .rejected => none

/-- The decision hides the content: ACCEPTED with SUSPENDED or BANNED. -/
def ReportProcessRequest.hides (request : ReportProcessRequest) : Bool :=
  request.sanctioned == some .suspended || request.sanctioned == some .banned

/-- The posts after a decision: the target is hidden if the decision says so and it is
PUBLISHED. -/
def hiddenPosts (request : ReportProcessRequest) (target : Target) (posts : List Post) :
    List Post :=
  posts.map fun row =>
    if request.hides = true ∧ target = .post row.postId ∧ row.postStatus = .published then
      { row with postStatus := .hidden }
    else row

/-- The tables `t'` after a decision on the report `rep` about `target`, at the time
`processedAt`. -/
structure Processed (t t' : Tables) (rep : Report) (target : Target) (reviewerUserId : Int)
    (request : ReportProcessRequest) (processedAt : Nat) : Prop where
  mem : rep ∈ t.reports
  pending : rep.reportStatus = .pending
  about : rep.target = some target
  /-- Exactly the pending reports of the target are decided, all alike. -/
  reports : t'.reports = t.reports.map fun row =>
    if row.reportStatus = .pending ∧ row.target = some target then
      row.decided request reviewerUserId processedAt
    else row
  settled : ∀ row ∈ t'.reports, row.target = some target → row.reportStatus ≠ .pending
  posts : t'.posts = hiddenPosts request target t.posts
  hidden : request.hides = true → ∃ post ∈ t.posts, target = .post post.postId
  /-- One sanction is added if the decision says so. -/
  userSanctions : ∃ n, t'.userSanctions = t.userSanctions ++
    request.sanctioned.toList.map fun userSanctionType =>
      ⟨n, rep.reportedUserId, userSanctionType, ReportService.sanctionReason rep,
        rep.reportId, request.expiresAt.map datetime⟩
  expires : ∀ userSanctionType, request.sanctioned = some userSanctionType →
    (request.expiresAt.isSome ↔ userSanctionType = .suspended)
  others : t'.users = t.users ∧ t'.comments = t.comments ∧ t'.postImages = t.postImages

section Rows

variable {request : ReportProcessRequest} {reviewerUserId : Int} {processedAt : Nat}

/-- The columns that are left out have the value of the decision already. -/
theorem set_decision (row : Report) :
    row.set (ReportRepository.decision row request.reportStatus request.userSanctionType
      reviewerUserId processedAt) = row.decided request reviewerUserId processedAt := by
  have hsanction : (changed row.userSanctionType request.userSanctionType).getD
      row.userSanctionType = request.userSanctionType := by
    by_cases h : request.userSanctionType = row.userSanctionType <;> simp [changed, h]
  have hreviewer : (changed row.reviewerUserId (some reviewerUserId)).join.or
      row.reviewerUserId = some reviewerUserId := by
    by_cases h : some reviewerUserId = row.reviewerUserId <;> simp [changed, h]
  simp only [Report.set, ReportRepository.decision, Report.decided, hsanction, hreviewer]

theorem foldl_reports {ch : Report → ReportSet} (batch : List Report) (t : Tables) :
    (batch.map fun row => Write.update (.report row.reportId (ch row))).foldl apply t =
      { t with
        reports := batch.foldl (fun rows row =>
          updateAt Report.reportId row.reportId (fun old => old.set (ch row)) rows)
          t.reports } := by
  induction batch generalizing t with
  | nil => rfl
  | cons row batch ih =>
      rw [List.map_cons, List.foldl_cons, ih]
      rfl

/-- The updates of a batch decide its rows. -/
theorem foldl_decisions (request : ReportProcessRequest) (reviewerUserId : Int)
    (processedAt : Nat) {t : Tables} (h : (t.reports.map Report.reportId).Nodup)
    {batch : List Report} {target : Target}
    (hbatch : batch.Perm ((pendingRows t).filter target.includes)) :
    (batch.map fun row => Write.update (.report row.reportId (ReportRepository.decision row
      request.reportStatus request.userSanctionType reviewerUserId processedAt))).foldl apply t =
      { t with
        reports := t.reports.map fun row =>
          if row.reportStatus = .pending ∧ row.target = some target then
            row.decided request reviewerUserId processedAt
          else row } := by
  have hmem : ∀ row, row ∈ batch ↔
      row ∈ t.reports ∧ row.reportStatus = .pending ∧ row.target = some target := by
    intro row
    rw [hbatch.mem_iff]
    simp only [pendingRows, List.mem_filter, beq_iff_eq, includes_iff, and_assoc]
  have hnodup : batch.Nodup := by
    rw [hbatch.nodup_iff]
    exact ((List.Nodup.of_map _ h).filter _).filter _
  rw [foldl_reports, foldl_updateAt (g := fun b row => row.set (ReportRepository.decision b
    request.reportStatus request.userSanctionType reviewerUserId processedAt))
    (fun _ _ => rfl) h (fun b hb => ((hmem b).mp hb).1) hnodup]
  congr 1
  refine List.map_congr_left fun row hrow => ?_
  simp only [hmem, hrow, true_and, set_decision]

end Rows

/-! ## The checks -/

section Checks

variable {C : Type} [DecidableEq C] {c : C} {t : Tables} {ws : List Write} {s : State C}
  {coll : Collation} {β : Type} {Q : Except AppError β → State C → Prop}

theorem At.getAnyPost (h : At c t ws s) {postId : Int} {f : Option Post → BoardM β}
    (herr : ∀ e s', At c t ws s' → Q (.error e) s')
    (hnone : ∀ s', At c t ws s' → (f none).wp (alone coll) c Q s')
    (hsome : ∀ post s', At c t ws s' →
      (ws.foldl apply t).posts.filter (fun row => row.postId == postId) = [post] →
        (f (some post)).wp (alone coll) c Q s') :
    (PostRepository.getAnyById postId >>= f).wp (alone coll) c Q s := by
  rw [PostRepository.getAnyById, bind_assoc]
  refine h.select herr fun rows s₁ hrows h₁ => ?_
  refine h₁.one herr (fun _ => hnone s₁ h₁) fun post hpost => hsome post s₁ h₁ ?_
  exact hrows.symm.trans hpost

theorem At.getComment (h : At c t ws s) {commentId : Int} {f : Option Comment → BoardM β}
    (herr : ∀ e s', At c t ws s' → Q (.error e) s')
    (hok : ∀ found s', At c t ws s' → (f found).wp (alone coll) c Q s') :
    (CommentRepository.getById commentId >>= f).wp (alone coll) c Q s := by
  rw [CommentRepository.getById, bind_assoc]
  refine h.select herr fun rows s₁ _ h₁ => ?_
  exact h₁.one herr (fun _ => hok none s₁ h₁) fun comment _ => hok (some comment) s₁ h₁

/-- A report that passes is pending and well formed. -/
theorem At.validate (h : At c t ws s) {row : Report} {f : ReportService.Reported → BoardM β}
    (herr : ∀ e s', At c t ws s' → Q (.error e) s')
    (hok : ∀ reported s' target, At c t ws s' → row.reportStatus = .pending →
      row.target = some target → (f reported).wp (alone coll) c Q s') :
    (ReportService.validateReport row.reportContentType row.postId row.commentId
      (some row.reportedUserId) (some row.reportStatus) >>= f).wp (alone coll) c Q s := by
  unfold ReportService.validateReport
  split
  · exact herr _ s h
  rename_i hpending
  have hpending : row.reportStatus = .pending := by simpa using hpending
  cases htype : row.reportContentType <;> cases hpost : row.postId <;>
    cases hcomment : row.commentId
  case post.some.none postId =>
      have htarget : row.target = some (.post postId) := by
        simp [Report.target, htype, hpost, hcomment]
      show (PostRepository.getAnyById postId >>= _ >>= f).wp (alone coll) c Q s
      rw [bind_assoc]
      exact h.getAnyPost herr (fun s' h' => herr _ s' h')
        fun post s' h' _ => hok _ s' _ h' hpending htarget
  case comment.some.some postId commentId =>
      have htarget : row.target = some (.comment postId commentId) := by
        simp [Report.target, htype, hpost, hcomment]
      show (CommentRepository.getById commentId >>= _ >>= f).wp (alone coll) c Q s
      rw [bind_assoc]
      refine h.getComment herr fun found s₁ h₁ => ?_
      cases found with
      | none => exact herr _ s₁ h₁
      | some comment =>
          dsimp only
          split
          · exact herr _ s₁ h₁
          rw [bind_assoc]
          exact h₁.getAnyPost herr (fun s' h' => herr _ s' h')
            fun post s' h' _ => hok _ s' _ h' hpending htarget
  case user.none.none =>
      have htarget : row.target = some (.user row.reportedUserId) := by
        simp [Report.target, htype, hpost, hcomment]
      exact hok _ s _ h hpending htarget
  all_goals exact herr _ s h

end Checks

/-! ## The transaction -/

section Transaction

variable {C : Type} [DecidableEq C] {c : C} {t : Tables} {ws : List Write} {s : State C}
  {coll : Collation} {β : Type} {Q : Except AppError β → State C → Prop}
  {rep : Report} {target : Target} {request : ReportProcessRequest}

/-- A decision that does not hide leaves the posts alone. -/
theorem hiddenPosts_of_not_hides (h : request.hides = false) (posts : List Post) :
    hiddenPosts request target posts = posts := by
  simp [hiddenPosts, h]

/-- The one post with this number. -/
theorem hiddenPosts_of_filter {posts : List Post} {post : Post} {postId : Int}
    (hpost : posts.filter (fun row => row.postId == postId) = [post])
    (hhides : request.hides = true) :
    hiddenPosts request (.post postId) posts =
      if post.postStatus = .published then
        updateAt Post.postId postId (fun row => row.set ⟨none, none, some .hidden, none⟩) posts
      else posts := by
  have hone : ∀ row ∈ posts, row.postId = postId → row = post := by
    intro row hrow hid
    have hmem : row ∈ posts.filter fun row => row.postId == postId :=
      List.mem_filter.mpr ⟨hrow, beq_iff_eq.mpr hid⟩
    rw [hpost] at hmem
    exact List.mem_singleton.mp hmem
  split
  · rename_i hpublished
    refine List.map_congr_left fun row hrow => ?_
    by_cases hid : row.postId = postId
    · rw [if_pos ⟨hhides, by rw [hid], by rwa [hone row hrow hid]⟩, if_pos hid]
      rfl
    · rw [if_neg fun hc => hid (Target.post.inj hc.2.1).symm, if_neg hid]
  · rename_i hunpublished
    refine (List.map_congr_left fun row hrow => ?_).trans (List.map_id posts)
    refine if_neg fun hc => hunpublished ?_
    rw [← hone row hrow (Target.post.inj hc.2.1).symm]
    exact hc.2.2

/-- `ReportService.hide` -/
theorem At.hide (h : At c t ws s) (request : ReportProcessRequest) {f : Unit → BoardM β}
    (htarget : rep.target = some target)
    (herr : ∀ e ws' s', At c t ws' s' → Q (.error e) s')
    (hok : ∀ ws' s', At c t ws' s' →
      ws'.foldl apply t = { ws.foldl apply t with
        posts := hiddenPosts request target (ws.foldl apply t).posts } →
      (request.hides = true → ∃ post ∈ (ws.foldl apply t).posts, target = .post post.postId) →
        (f ()).wp (alone coll) c Q s') :
    (ReportService.hide rep request >>= f).wp (alone coll) c Q s := by
  have hkeep : request.hides = false → (f ()).wp (alone coll) c Q s := by
    intro hhides
    refine hok ws s h ?_ fun hh => absurd hh (by simp [hhides])
    rw [hiddenPosts_of_not_hides hhides]
  have hpost : request.hides = true → ∀ postId, rep.reportContentType = .post →
      rep.postId = some postId →
        (PostRepository.hideIfPublished postId >>= f).wp (alone coll) c Q s := by
    intro hhides postId htype hid
    have htarget : target = .post postId := by
      simp only [Report.target, htype, hid] at htarget
      split at htarget <;> simp_all
    subst htarget
    rw [PostRepository.hideIfPublished, bind_assoc]
    refine h.getAnyPost (fun e s' h' => herr e ws s' h') (fun s' h' => herr _ ws s' h') ?_
    intro post s₁ h₁ hone
    have hmem : post ∈ (ws.foldl apply t).posts ∧ post.postId = postId := by
      have hin : post ∈ [post] := List.mem_singleton.mpr rfl
      rw [← hone] at hin
      simpa using List.mem_filter.mp hin
    have hthere : ∃ row ∈ (ws.foldl apply t).posts, Target.post postId = .post row.postId :=
      ⟨post, hmem.1, by rw [hmem.2]⟩
    have hposts := hiddenPosts_of_filter hone hhides
    dsimp only
    split
    · rename_i hstatus
      rw [if_neg hstatus] at hposts
      exact hok ws s₁ h₁ (by rw [hposts]) fun _ => hthere
    · rename_i hstatus
      rw [if_pos (not_not.mp hstatus)] at hposts
      refine h₁.update (fun e s' h' => herr e ws s' h') fun s₂ h₂ => ?_
      refine hok _ s₂ h₂ ?_ fun _ => hthere
      rw [List.foldl_append, hposts]
      rfl
  have hcontent : request.hides = true →
      (ReportService.hideReportedContent rep >>= f).wp (alone coll) c Q s := by
    intro hhides
    rw [ReportService.hideReportedContent]
    split
    · rename_i postId htype hid
      exact hpost hhides postId htype hid
    · exact herr _ ws s h
    · exact herr _ ws s h
  obtain ⟨status, sanction, expires⟩ := request
  cases status with
  | rejected => exact hkeep rfl
  | accepted =>
      cases sanction with
      | none => exact hkeep rfl
      | some sanction =>
          cases sanction with
          | warning => exact hkeep rfl
          | suspended | banned => exact hcontent rfl

/-- `ReportService.sanction` -/
theorem At.sanction (h : At c t ws s) (rep : Report) (request : ReportProcessRequest)
    {f : Unit → BoardM β}
    (herr : ∀ e ws' s', At c t ws' s' → Q (.error e) s')
    (hok : ∀ ws' s' n, At c t ws' s' →
      ws'.foldl apply t = { ws.foldl apply t with
        userSanctions := (ws.foldl apply t).userSanctions ++
          request.sanctioned.toList.map fun userSanctionType =>
            ⟨n, rep.reportedUserId, userSanctionType, ReportService.sanctionReason rep,
              rep.reportId, request.expiresAt.map datetime⟩ } →
      (∀ userSanctionType, request.sanctioned = some userSanctionType →
        (request.expiresAt.isSome ↔ userSanctionType = .suspended)) →
        (f ()).wp (alone coll) c Q s') :
    (ReportService.sanction rep request >>= f).wp (alone coll) c Q s := by
  obtain ⟨status, sanction, expires⟩ := request
  have hnone : (ReportProcessRequest.sanctioned ⟨status, sanction, expires⟩) = none →
      (f ()).wp (alone coll) c Q s := by
    intro hn
    refine hok ws s 0 h ?_ fun type htype => absurd (hn.symm.trans htype) (by simp)
    rw [hn]
    simp
  match status, sanction with
  | .rejected, _ => exact hnone rfl
  | .accepted, none => exact hnone rfl
  | .accepted, some type =>
      show (ReportService.addUserSanction rep type expires >>= f).wp (alone coll) c Q s
      rw [ReportService.addUserSanction]
      split
      · exact herr _ ws s h
      rename_i hneeds
      split
      · exact herr _ ws s h
      rename_i hmay
      rw [UserSanctionRepository.addUserSanction]
      simp only [bind_assoc]
      refine h.insert (fun e s' h' => herr e ws s' h') ?_
      rintro n createdAt row s₁ hrow h₁
      refine h₁.select (fun e s' h' => herr e _ s' h') fun rows s₂ _ h₂ => ?_
      refine h₂.refreshed (fun e s' h' => herr e _ s' h') fun _ => ?_
      refine hok _ s₂ n h₂ ?_ ?_
      · rw [List.foldl_append]
        simp only [NewRow.row, Option.some.injEq] at hrow
        subst hrow
        rfl
      · rintro _ ⟨⟩
        cases expires <;> simp_all

/-- The call raises and has changed nothing, or it returns and has done everything. -/
def AllOrNothing (c : C) (t : Tables) (reportId reviewerUserId : Int)
    (request : ReportProcessRequest) (o : Except AppError Unit) (s : State C) : Prop :=
  match o with
  | .error _ => At c t [] s
  | .ok _ => ∃ t' rep target processedAt, At c t' [] s ∧ rep.reportId = reportId ∧
      Processed t t' rep target reviewerUserId request processedAt

/-- The decided reports are not pending any more. -/
theorem decided_settled {reports : List Report} {reviewerUserId : Int} {processedAt : Nat} :
    ∀ row ∈ reports.map (fun row =>
        if row.reportStatus = .pending ∧ row.target = some target then
          row.decided request reviewerUserId processedAt
        else row),
      row.target = some target → row.reportStatus ≠ .pending := by
  intro row hrow htarget
  obtain ⟨old, _, rfl⟩ := List.mem_map.mp hrow
  by_cases hbatch : old.reportStatus = .pending ∧ old.target = some target
  · rw [if_pos hbatch]
    cases hstatus : request.reportStatus <;> simp [Report.decided, hstatus, Verdict.status]
  · rw [if_neg hbatch] at htarget ⊢
    exact fun hpending => hbatch ⟨hpending, htarget⟩

theorem At.transaction (h : At c t [] s) (hkeyed : (t.reports.map Report.reportId).Nodup)
    (hrep : rep ∈ t.reports) (hpending : rep.reportStatus = .pending)
    (htarget : rep.target = some target) {reviewerUserId : Int} :
    (ReportService.decide rep reviewerUserId request).wp (alone coll) c
      (AllOrNothing c t rep.reportId reviewerUserId request) s := by
  refine wp_rollingBack (t := t) (fun e s' h' => h') ?_
  refine h.now fun now s₁ h₁ => ?_
  simp only [ReportRepository.updateReport, sameReports_of_target htarget, ret_bind,
    bind_assoc]
  refine h₁.select (fun e s' h' => ⟨_, h'⟩) fun batch s₂ hbatch h₂ => ?_
  have hsorted := (List.perm_insertionSort
    (fun row row' : Report => row.reportId ≤ row'.reportId) batch).trans hbatch
  refine At.updates (fun e ws' s' h' => ⟨ws', h'⟩) _ h₂ fun s₃ h₃ => ?_
  rw [List.nil_append] at h₃
  have hreports := foldl_decisions request reviewerUserId (datetime now) hkeyed hsorted
  refine h₃.hide request htarget (fun e ws' s' h' => ⟨ws', h'⟩) ?_
  intro ws₄ s₄ h₄ hposts hhidden
  refine h₄.sanction rep request (fun e ws' s' h' => ⟨ws', h'⟩) ?_
  intro ws₅ s₅ n h₅ hsanctions hexpires
  refine h₅.commit (fun e s' h' => ⟨_, h'⟩) fun s₆ h₆ => ?_
  rw [hsanctions, hposts, hreports] at h₆
  rw [hreports] at hhidden
  exact ⟨_, rep, target, datetime now, h₆, rfl, hrep, hpending, htarget, rfl,
    decided_settled, rfl, hhidden, ⟨n, rfl⟩, hexpires, rfl, rfl, rfl⟩

theorem At.processReport (h : At c t [] s) (hkeyed : (t.reports.map Report.reportId).Nodup)
    {reportId reviewerUserId : Int} :
    (ReportService.processReport reportId reviewerUserId request).wp (alone coll) c
      (AllOrNothing c t reportId reviewerUserId request) s := by
  rw [ReportService.processReport, ReportRepository.getById, bind_assoc]
  refine h.select (fun e s' h' => h') fun rows s₁ hrows h₁ => ?_
  refine h₁.one (fun e s' h' => h') (fun _ => h₁) fun rep hone => ?_
  have hmem : rep ∈ t.reports ∧ rep.reportId = reportId := by
    have hin : rep ∈ rows := by rw [hone]; exact List.mem_singleton.mpr rfl
    rw [hrows] at hin
    simpa using hin
  refine h₁.validate (fun e s' h' => h') fun _ s₂ target h₂ hpending htarget => ?_
  split
  · exact h₂
  · rw [← hmem.2]
    exact h₂.transaction hkeyed hmem.1 hpending htarget

/-- `process_report`, whatever its arguments and wherever it fails: if it raises, the
tables are as they were, and if it returns, exactly the pending reports of its target
are decided, the post is hidden and the sanction recorded as the decision says. -/
theorem process_report_all_or_nothing {reportId reviewerUserId : Int} {s' : State C}
    {evs : List (State C × BoardEvent)} {o : Except AppError Unit}
    (hkeyed : (s.db.committed.reports.map Report.reportId).Nodup)
    (hwrites : (s.db.session c).writes = []) (hfresh : s.db.Fresh c)
    (h : Exec (alone coll) c s
      (ReportService.processReport reportId reviewerUserId request) evs (some o) s') :
    AllOrNothing c s.db.committed reportId reviewerUserId request o s' :=
  h.wp (fun _ _ => id) (At.processReport ⟨rfl, hfresh, hwrites⟩ hkeyed)

end Transaction

/-! ## A ban -/

section Samples

/-- The table before the report is processed. -/
def reported : State Unit where
  db := { committed := ⟨[], [badPost], [], [], [complaint], []⟩, session := fun _ => .idle }
  nextId _ := 1
  objects _ := none
  fileIds := []

def banTrace : List BoardEvent :=
  [⟨.select (.report 1), .ok [complaint]⟩, ⟨.select (.anyPost 3), .ok [badPost]⟩,
    ⟨.now, .ok (20000000 : Nat)⟩, ⟨.select (.pendingOf (.post 3)), .ok [complaint]⟩,
    ⟨.update (.report 1 ⟨.accepted, some (some .banned), some 9, 20⟩), .ok ()⟩,
    ⟨.select (.anyPost 3), .ok [badPost]⟩,
    ⟨.update (.post 3 ⟨none, none, some .hidden, none⟩), .ok ()⟩,
    ⟨.insert (.userSanction 5 .banned "SPAM" 1 none), .ok (1 : Int)⟩,
    ⟨.select (.userSanction 1), .ok [⟨1, 5, .banned, "SPAM", 1, none⟩]⟩, ⟨.commit, .ok ()⟩]

/-- The moderator 9 bans the author. -/
theorem process_report_all_or_nothing_sample : ∃ evs s',
    Exec (alone Infrastructure.binaryCollation) () reported
        (ReportService.processReport 1 9 ban) evs (some (.ok ())) s' ∧
      s'.db.committed.posts = [{ badPost with postStatus := .hidden }] ∧
      AllOrNothing () reported.db.committed 1 9 ban (.ok ()) s' := by
  have hfree : ∀ (db : Db Unit Tables Write) (w : Write), db.Free Write.conflict () w :=
    fun _ _ c' hc => absurd rfl hc
  have hruns : (ReportService.processReport 1 9 ban).Runs banTrace (.ret ()) :=
    .cons (.cons (.cons (.cons (.cons (.cons (.cons (.cons (.cons (.cons .nil)))))))))
  have hchain : ∃ s', Chain (alone Infrastructure.binaryCollation) reported
      (banTrace.map (.call ())) s' ∧
      s'.db.committed.posts = [{ badPost with postStatus := .hidden }] :=
    ⟨_, .call ⟨rfl, rfl⟩ (.call ⟨rfl, rfl⟩ (.call rfl (.call ⟨.refl _, rfl⟩
      (.call ⟨rfl, hfree _ _, rfl⟩ (.call ⟨rfl, rfl⟩ (.call ⟨rfl, hfree _ _, rfl⟩
        (.call ⟨rfl, 0, _, rfl, hfree _ _, rfl⟩ (.call ⟨rfl, rfl⟩ (.call rfl .nil))))))))),
      rfl⟩
  obtain ⟨s', hchain, hposts⟩ := hchain
  obtain ⟨evs, _, _, hexec⟩ := Exec.of_chain (P := fun _ => True) (fun _ => rfl)
    (fun _ _ _ _ _ _ => trivial) hruns rfl trivial hchain
  exact ⟨evs, s', hexec, hposts,
    process_report_all_or_nothing (by decide) rfl (Db.fresh_of_idle rfl) hexec⟩

end Samples

end GreenCommunity.Board
