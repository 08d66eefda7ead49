import GreenCommunity.Board.Healthy
import GreenCommunity.Board.Listing

/-!
# Filing reports

A report keeps the title and the texts of what it is about, as far as its kind has them:
a report of a post has no comment, one of a comment no content of the post, one of a user
neither.  The columns of all three texts are not nullable, so the database takes no
report at all.
-/

namespace GreenCommunity.Board

open GreenCommunity.Base
open GreenCommunity.Base.Prog
open GreenCommunity.Infrastructure (Collation)

/-- The target is named as its kind demands, and it is there. -/
def WellFormed (t : Tables) (request : ReportCreateRequest) : Prop :=
  match request.reportContentType with
  | .post => request.commentId = none ∧ ∃ post ∈ t.posts, request.postId = some post.postId
  | .comment =>
      ∃ comment ∈ t.comments, comment.deletedAt = none ∧
        request.commentId = some comment.commentId ∧ request.postId = some comment.postId
  | .user =>
      request.postId = none ∧ request.commentId = none ∧ request.reportedUserId ≠ none

/-- The report names the author of the content and keeps its texts. -/
def Shows (t : Tables) (request : ReportCreateRequest) (row : Report) : Prop :=
  match request.reportContentType with
  | .post =>
      ∃ post ∈ t.posts, request.postId = some post.postId ∧
        row.reportedUserId = post.authorId ∧ row.postTitle = post.postTitle ∧
        row.postContent = post.postContent
  | .comment =>
      ∃ comment ∈ t.comments, request.commentId = some comment.commentId ∧
        row.reportedUserId = comment.authorId ∧ row.commentContent = comment.commentContent ∧
        ∃ post ∈ t.posts, post.postId = comment.postId ∧ row.postTitle = post.postTitle
  | .user => request.reportedUserId = some row.reportedUserId

/-- One row more, for this caller and this request. -/
structure Filed (t : Tables) (user : User) (request : ReportCreateRequest) (row : Report)
    (t' : Tables) : Prop where
  inserted : t' = t.insert (.report row)
  status : row.reportStatus = .pending
  reporter : row.reporterUserId = some user.userId
  contentType : row.reportContentType = request.reportContentType
  target : row.postId = request.postId ∧ row.commentId = request.commentId
  category : row.reportCategory = request.reportCategory
  reason : row.reportReason = request.reportReason
  fits : varchar 200 row.postTitle = true ∧ varchar 50 row.reportCategory = true
  shows : Shows t request row

/-- A well-formed report is filed, and any other request raises and changes nothing. -/
def FilesOrRaises {C : Type} (t : Tables) (user : User) (request : ReportCreateRequest)
    (o : Except AppError Report) (s : State C) : Prop :=
  (WellFormed t request → ∃ row, o = .ok row ∧ Filed t user request row s.db.committed) ∧
    (¬ WellFormed t request → (∃ e, o = .error e) ∧ s.db.committed = t)

section Filing

variable {C : Type} [DecidableEq C] {coll : Collation} {c : C} {t : Tables} {s : State C}

/-- The post of a report, whatever its status. -/
theorem Solo.validatePost (h : Solo c t [] s) {postId commentId : Option Int}
    {Q : Except AppError ReportService.Reported → State C → Prop}
    (hraise : ¬ (commentId = none ∧ ∃ post ∈ t.posts, postId = some post.postId) →
      ∀ e s', Solo c t [] s' → Q (.error e) s')
    (hok : commentId = none → ∀ post ∈ t.posts, postId = some post.postId → ∀ s',
      Solo c t [] s' →
        Q (.ok ⟨post.authorId, some post.postTitle, some post.postContent, none⟩) s') :
    (ReportService.validatePost postId commentId).total (healthy coll) c Q s := by
  rcases postId with _ | postId <;> rcases commentId with _ | commentId <;>
    try exact hraise (by simp) _ s h
  unfold ReportService.validatePost PostRepository.getAnyById
  dsimp only
  rw [Prog.bind_assoc]
  refine h.select fun posts s₁ hposts h₁ => ?_
  subst hposts
  refine total_row (h₁.numbered.nodup .posts) (fun row hrow => by simpa using hrow)
    (fun hnone => hraise ?_ _ s₁ h₁) fun post hpost hid => ?_
  · rintro ⟨_, post, hpost, hid⟩
    exact absurd (hnone post hpost) (by simpa using Option.some.inj hid.symm)
  · exact hok rfl post hpost (congrArg some (beq_iff_eq.mp hid).symm) s₁ h₁

/-- The comment of a report, unless it has been deleted. -/
theorem Solo.validateComment (h : Solo c t [] s) {postId commentId : Option Int}
    {Q : Except AppError ReportService.Reported → State C → Prop}
    (hraise : ¬ (∃ comment ∈ t.comments, comment.deletedAt = none ∧
        commentId = some comment.commentId ∧ postId = some comment.postId ∧
          ∃ post ∈ t.posts, post.postId = comment.postId) →
      ∀ e s', Solo c t [] s' → Q (.error e) s')
    (hok : ∀ comment ∈ t.comments, comment.deletedAt = none →
      commentId = some comment.commentId → postId = some comment.postId →
      ∀ post ∈ t.posts, post.postId = comment.postId → ∀ s', Solo c t [] s' →
        Q (.ok ⟨comment.authorId, some post.postTitle, none, some comment.commentContent⟩) s') :
    (ReportService.validateComment postId commentId).total (healthy coll) c Q s := by
  rcases postId with _ | postId <;> rcases commentId with _ | commentId <;>
    try exact hraise (by simp) _ s h
  unfold ReportService.validateComment CommentRepository.getById
  dsimp only
  rw [Prog.bind_assoc]
  refine h.select fun comments s₁ hcomments h₁ => ?_
  subst hcomments
  rw [activeComments, List.filter_filter]
  have hunique : ∀ comment ∈ t.comments, ∀ comment' ∈ t.comments,
      comment.commentId = comment'.commentId → comment = comment' := fun _ hc _ hc' =>
    List.inj_on_of_nodup_map (h₁.numbered.nodup .comments) hc hc'
  refine total_row (h₁.numbered.nodup .comments) (k := commentId) (fun row hrow => ?_)
    (fun hnone => hraise ?_ _ s₁ h₁) fun comment hcomment hid => ?_
  · simp only [Bool.and_eq_true, beq_iff_eq] at hrow
    exact hrow.1
  · rintro ⟨comment, hcomment, hactive, hid, _⟩
    have hfalse := hnone comment hcomment
    simp [hactive, Option.some.inj hid] at hfalse
  · simp only [Bool.and_eq_true, beq_iff_eq] at hid
    dsimp only
    split
    next hpost =>
      refine hraise ?_ _ s₁ h₁
      rintro ⟨comment', hcomment', _, hid', hpost', _⟩
      have heq := hunique comment' hcomment' comment hcomment
        (by rw [hid.1]; exact (Option.some.inj hid').symm)
      exact hpost (heq ▸ (Option.some.inj hpost').symm)
    next hpost' =>
      unfold PostRepository.getAnyById
      rw [Prog.bind_assoc]
      refine h₁.select fun posts s₂ hposts h₂ => ?_
      subst hposts
      refine total_row (h₂.numbered.nodup .posts) (fun row hrow => by simpa using hrow)
        (fun hnone => hraise ?_ _ s₂ h₂) fun post hpost hpostId => ?_
      · rintro ⟨comment', hcomment', _, hid', _, post, hpost, hpostId⟩
        have heq := hunique comment' hcomment' comment hcomment
          (by rw [hid.1]; exact (Option.some.inj hid').symm)
        exact absurd (hnone post hpost) (by simp [hpostId, heq])
      · exact hok comment hcomment (Option.isNone_iff_eq_none.mp hid.2) (by rw [hid.1])
          (by rw [not_not.mp hpost']) post hpost (beq_iff_eq.mp hpostId) s₂ h₂

/-- Whatever the kind of the target, one of the texts is missing. -/
theorem Solo.validateReport (h : Solo c t [] s) (request : ReportCreateRequest) :
    (ReportService.validateReport request.reportContentType request.postId request.commentId
      request.reportedUserId none).total (healthy coll) c (fun o s' => Solo c t [] s' ∧
        ∀ reported, o = .ok reported →
          reported.postContent = none ∨ reported.commentContent = none) s := by
  have hraise : ∀ (e : AppError) (s' : State C), Solo c t [] s' → Solo c t [] s' ∧
      ∀ reported : ReportService.Reported, (.error e : Except AppError _) = .ok reported →
        reported.postContent = none ∨ reported.commentContent = none :=
    fun e s' h' => ⟨h', by simp⟩
  unfold ReportService.validateReport
  rw [if_neg (by simp)]
  cases request.reportContentType with
  | post =>
      exact h.validatePost (fun _ => hraise) fun _ post _ _ s' h' =>
        ⟨h', by rintro _ ⟨⟩; exact Or.inr rfl⟩
  | comment =>
      exact h.validateComment (fun _ => hraise) fun comment _ _ _ _ post _ _ s' h' =>
        ⟨h', by rintro _ ⟨⟩; exact Or.inl rfl⟩
  | user =>
      rcases request.postId with _ | postId <;> rcases request.commentId with _ | commentId <;>
        rcases request.reportedUserId with _ | reportedUserId <;> try exact hraise _ s h
      exact ⟨h, by rintro _ ⟨⟩; exact Or.inl rfl⟩

/-- Without one of the texts there is no row. -/
theorem row_of_missing {reporterUserId : Option Int} {contentType : ContentType}
    {postId commentId : Option Int} {reported : ReportService.Reported}
    {reportCategory : String} {reportReason : Option String}
    (hmissing : reported.postContent = none ∨ reported.commentContent = none) (n : Int)
    (createdAt : Nat) :
    (NewRow.report reporterUserId contentType postId reported.postTitle reported.postContent
      commentId reported.commentContent reported.reportedUserId reportCategory
      reportReason).row n createdAt = none := by
  obtain ⟨_, postTitle, postContent, commentContent⟩ := reported
  rcases hmissing with hmissing | hmissing <;> simp only at hmissing <;> subst hmissing <;>
    cases postTitle <;> first | rfl | (cases postContent <;> rfl)

/-- No report is ever filed, whatever the request. -/
theorem Solo.addReport (h : Solo c t [] s) (user : User) (request : ReportCreateRequest) :
    (ReportService.addReport request user).total (healthy coll) c (fun o s' =>
      (∃ e, o = .error e) ∧ s'.db.committed = t) s := by
  unfold ReportService.addReport
  refine total_bind.mpr (total_mono ?_ (h.validateReport request))
  rintro (e | reported) s₁ ⟨h₁, hmissing⟩
  · exact ⟨⟨e, rfl⟩, h₁.committed⟩
  · refine total_rollingBack (fun e s' h' => ⟨⟨e, rfl⟩, h'.committed⟩) ?_
    unfold ReportRepository.addReport
    rw [bind_assoc]
    exact h₁.insert_refused (row_of_missing (hmissing reported rfl)) fun e s' h' =>
      ⟨_, h'.toAt⟩

/-- Filing goes as it should only where there is nothing to file. -/
theorem addReport_iff (h : Solo c t [] s) (user : User) (request : ReportCreateRequest) :
    (ReportService.addReport request user).total (healthy coll) c
        (FilesOrRaises t user request) s ↔ ¬ WellFormed t request := by
  have hraises : (ReportService.addReport request user).total (healthy coll) c
      (fun o s' => (∃ e, o = .error e) ∧ s'.db.committed = t) s := h.addReport user request
  constructor
  · intro hfiles hwell
    obtain ⟨o, s', ⟨hfiled, _⟩, ⟨e, rfl⟩, _⟩ := exists_of_total hfiles hraises
    obtain ⟨row, hok, _⟩ := hfiled hwell
    cases hok
  · intro hill
    refine total_mono (fun o s' hraise => ?_) hraises
    exact ⟨fun hwell => absurd hwell hill, fun _ => hraise⟩

end Filing

/-! ## A report of a post -/

section Samples

open Infrastructure (binaryCollation)

/-- The sample board, for one caller. -/
def members : State Unit where
  db := { committed := board.db.committed, session := fun _ => .idle }
  nextId := board.nextId
  objects := board.objects
  fileIds := board.fileIds

theorem solo_members : Solo () board.db.committed [] members where
  toAt := at_of_idle (s := members) rfl
  others _ hc := absurd rfl hc
  numbered :=
    { users := by decide
      nodup := by
        intro table
        cases table <;> decide
      below := by
        intro table
        cases table <;> decide }

/-- The moderator reports the post of the sample board. -/
def postComplaint : ReportCreateRequest := ⟨.post, some 3, none, none, "SPAM", none⟩

theorem wellFormed_postComplaint : WellFormed board.db.committed postComplaint :=
  ⟨rfl, badPost, List.mem_cons_self, rfl⟩

/-- It is well formed, and it is not filed. -/
theorem post_not_reportable :
    ¬ (ReportService.addReport postComplaint moderator).total (healthy binaryCollation) ()
      (FilesOrRaises board.db.committed moderator postComplaint) members := by
  intro hfiles
  obtain ⟨o, s', ⟨hfiled, _⟩, ⟨e, rfl⟩, _⟩ :=
    exists_of_total hfiles (solo_members.addReport moderator postComplaint)
  obtain ⟨row, hok, _⟩ := hfiled wellFormed_postComplaint
  cases hok

/-- A report of a comment without its post is not well formed. -/
theorem addReport_iff_sample :
    (ReportService.addReport ⟨.comment, none, some 8, none, "SPAM", none⟩ moderator).total
      (healthy binaryCollation) ()
      (FilesOrRaises board.db.committed moderator ⟨.comment, none, some 8, none, "SPAM", none⟩)
      members :=
  (addReport_iff solo_members moderator _).mpr (by
    rintro ⟨comment, hcomment, _⟩
    cases hcomment)

end Samples

end GreenCommunity.Board
