import GreenCommunity.Board.Authors
import GreenCommunity.Board.Footprint
import GreenCommunity.Board.Healthy
import GreenCommunity.Board.Listing
import GreenCommunity.Board.Threads

/-!
# Comments that no listing returns

The pages of a post show its top-level comments, and the replies to a comment come in a
listing of their own, which first looks up the comment and answers 404 if it is deleted.
Deleting a comment touches its own row only.  So a reply is lost from view exactly when
the comment above it is deleted, and the two requests that can do that are the deletion
of a comment with live replies and a reply whose parent is deleted before the commit.
-/

namespace GreenCommunity.Board

open GreenCommunity.Base
open GreenCommunity.Base.Prog
open GreenCommunity.Common
open GreenCommunity.Infrastructure (Collation oneOrNone)

/-! ## What is to be shown -/

/-- The post is published. -/
def Tables.HasPost (t : Tables) (postId : Int) : Prop :=
  ∃ post ∈ activePosts t, post.postId = postId

/-- The comment is not deleted. -/
def Tables.HasComment (t : Tables) (commentId : Int) : Prop :=
  ∃ row ∈ activeComments t, row.commentId = commentId

/-- A comment of a published post that is not deleted. -/
structure Live (t : Tables) (row : Comment) : Prop where
  comment : row ∈ activeComments t
  post : t.HasPost row.postId

/-- No live comment answers a deleted one. -/
def NoOrphans (t : Tables) : Prop :=
  ∀ row, Live t row → ∀ id, row.parentCommentId = some id → t.HasComment id

/-- With nothing going wrong, the call always returns the comment. -/
def Returns {α : Type} (coll : Collation) (t : Tables) (p : BoardM α) (items : α → List Comment)
    (row : Comment) : Prop :=
  ∀ s : State Unit, At () t [] s →
    p.total (healthy coll) () (fun o _ => ∃ a, o = .ok a ∧ row ∈ items a) s

/-- Some response of the call contains the comment. -/
def MayReturn {α : Type} (coll : Collation) (t : Tables) (p : BoardM α) (items : α → List Comment)
    (row : Comment) : Prop :=
  ∃ a, Responds coll () t p a ∧ row ∈ items a

/-- The comments of a page. -/
def onPage (response : PageResponse (Comment × Nat)) : List Comment :=
  response.items.map Prod.fst

/-- One of the two listings returns the comment, and the other never does. -/
inductive ShownOnce (coll : Collation) (t : Tables) (row : Comment) : Prop where
  | page (params : PageParams) (h : Returns coll t (listComments row.postId params) onPage row)
      (hno : ∀ id, row.parentCommentId = some id →
        ¬ MayReturn coll t (CommentService.listByParent id) (fun replies => replies) row)
  | replies (id : Int) (hid : row.parentCommentId = some id)
      (h : Returns coll t (CommentService.listByParent id) (fun replies => replies) row)
      (hno : ∀ params, ¬ MayReturn coll t (listComments row.postId params) onPage row)

/-- Every live comment is returned by exactly one of the two listings. -/
def AllShown (coll : Collation) (t : Tables) : Prop := ∀ row, Live t row → ShownOnce coll t row

/-! ## The two listings -/

section Listings

variable {coll : Collation} {t : Tables} {s : State Unit} {β : Type}
  {Q : Except AppError β → State Unit → Prop}

/-- A query whose answer is the same for everybody. -/
theorem At.total_select (h : At () t [] s) {query : Query} {f : query.Rows → BoardM β}
    (hok : ∀ rows s', query.answers coll t rows → At () t [] s' →
      (f rows).total (healthy coll) () Q s') :
    (perform (.select query) >>= f).total (healthy coll) () Q s := by
  refine ⟨?_, ?_⟩
  · obtain ⟨rows, hrows⟩ := query.exists_answer coll t
    exact ⟨.ok rows, _, by rw [h.view]; exact hrows, rfl⟩
  · rintro (e | rows) s' hs
    · exact hs.1.elim
    · obtain ⟨hrows, rfl⟩ := hs
      rw [h.view] at hrows
      exact hok rows _ hrows h.read

/-- The post of the listing is there. -/
theorem At.total_ensurePostExists (h : At () t [] s) {postId : Int}
    (hposts : (t.posts.map Post.postId).Nodup) (hpost : t.HasPost postId) {f : Unit → BoardM β}
    (hok : ∀ s', At () t [] s' → (f ()).total (healthy coll) () Q s') :
    (CommentService.ensurePostExists postId >>= f).total (healthy coll) () Q s := by
  obtain ⟨post, hmem, hid⟩ := hpost
  rw [CommentService.ensurePostExists, PostRepository.getById, bind_assoc, bind_assoc]
  refine h.total_select fun posts s₁ hrows h₁ => ?_
  obtain rfl : posts = (activePosts t).filter fun row => row.postId == postId := hrows
  have hkeys : ((activePosts t).map Post.postId).Nodup :=
    hposts.sublist (List.filter_sublist.map _)
  refine total_row hkeys (k := postId) (fun row hrow => by simpa using hrow) ?_ ?_
  · intro hnone
    exact absurd (hnone post hmem) (by simp [hid])
  · exact fun _ _ _ => hok s₁ h₁

theorem At.total_listComments (h : At () t [] s) {postId : Int}
    (hposts : (t.posts.map Post.postId).Nodup) (hpost : t.HasPost postId) (params : PageParams) :
    (Board.listComments postId params).total (healthy coll) ()
      (fun o _ => ∃ response, o = .ok response) s := by
  rw [Board.listComments, CommentService.listByPost, bind_assoc]
  refine h.total_ensurePostExists hposts hpost fun s₁ h₁ => ?_
  rw [CommentRepository.listByPost, bind_assoc]
  refine h₁.total_select fun total s₂ _ h₂ => ?_
  rw [bind_assoc]
  refine h₂.total_select fun comments s₃ _ h₃ => ?_
  unfold CommentRepository.countRepliesByParents
  dsimp only
  split
  · exact ⟨_, rfl⟩
  · rw [bind_assoc, bind_assoc]
    exact h₃.total_select fun groups s₄ _ _ => ⟨_, rfl⟩

/-- The replies that a call returns, and the comment that it has found first. -/
theorem At.repliesOf (h : At () t [] s) (id : Int) :
    Always coll () s (CommentService.listByParent id) fun replies =>
      t.HasComment id ∧ replies.Perm (repliesTo t id) := by
  rw [CommentService.listByParent, CommentRepository.getById, bind_assoc]
  refine h.always fun comments s₁ hcomments h₁ => ?_
  refine h₁.one (fun _ _ _ _ h => by cases h) (fun _ => always_raise) fun comment hcomment => ?_
  obtain rfl : comments = (activeComments t).filter fun row => row.commentId == id := hcomments
  have hmem : comment ∈ (activeComments t).filter fun row => row.commentId == id := by
    simp [hcomment]
  show Always coll () s₁ (perform (.select (.replies id))) _
  rw [← bind_pure (perform _)]
  refine h₁.always fun replies s₂ hreplies _ => always_ret ⟨⟨comment, ?_⟩, hreplies⟩
  simpa using hmem

theorem At.total_listByParent (h : At () t [] s) {id : Int}
    (hcomments : (t.comments.map Comment.commentId).Nodup) (hid : t.HasComment id) :
    (CommentService.listByParent id).total (healthy coll) ()
      (fun o _ => ∃ replies, o = .ok replies) s := by
  obtain ⟨parent, hmem, hparent⟩ := hid
  rw [CommentService.listByParent, CommentRepository.getById, bind_assoc]
  refine h.total_select fun comments s₁ hrows h₁ => ?_
  obtain rfl : comments = (activeComments t).filter fun row => row.commentId == id := hrows
  have hkeys : ((activeComments t).map Comment.commentId).Nodup :=
    hcomments.sublist (List.filter_sublist.map _)
  refine total_row hkeys (k := id) (fun row hrow => by simpa using hrow) ?_ ?_
  · intro hnone
    exact absurd (hnone parent hmem) (by simp [hparent])
  · intro comment _ _
    show (perform (.select (.replies id))).total (healthy coll) () _ s₁
    rw [← bind_pure (perform _)]
    exact h₁.total_select fun replies s₂ _ _ => ⟨replies, rfl⟩

end Listings

/-! ## Which listing shows a comment -/

section Shown

variable {coll : Collation} {t : Tables} {row : Comment}

/-- What every response meets and a response that always comes. -/
theorem returns_of_always {α : Type} {p : BoardM α} {items : α → List Comment} {P : α → Prop}
    (htotal : ∀ s : State Unit, At () t [] s →
      p.total (healthy coll) () (fun o _ => ∃ a, o = .ok a) s)
    (halways : ∀ s : State Unit, At () t [] s → Always coll () s p P)
    (hrow : ∀ a, P a → row ∈ items a) : Returns coll t p items row := by
  intro s h
  have hboth := total_and_wp (fun _ _ _ _ => step_of_healthy coll) (htotal s h) (halways s h)
  refine total_mono ?_ hboth
  rintro _ s' ⟨⟨a, rfl⟩, ha⟩
  exact ⟨a, rfl, hrow a (ha a rfl)⟩

/-- A comment that is always returned is in some response, which meets what all do. -/
theorem Returns.meets {α : Type} {p : BoardM α} {items : α → List Comment} {P : α → Prop}
    (h : Returns coll t p items row)
    (halways : ∀ s : State Unit, At () t [] s → Always coll () s p P) :
    ∃ a, row ∈ items a ∧ P a := by
  let s : State Unit := ⟨⟨t, fun _ => .idle⟩, fun _ => 0, fun _ => none, []⟩
  have hat : At () t [] s := at_of_idle (s := s) rfl
  have hboth := total_and_wp (fun _ _ _ _ => step_of_healthy coll) (h s hat) (halways s hat)
  obtain ⟨_, _, ⟨⟨a, rfl, hrow⟩, ha⟩, _⟩ := exists_of_total hboth hboth
  exact ⟨a, hrow, ha a rfl⟩

theorem MayReturn.meets {α : Type} {p : BoardM α} {items : α → List Comment} {P : α → Prop}
    (h : MayReturn coll t p items row)
    (halways : ∀ s : State Unit, At () t [] s → Always coll () s p P) :
    ∃ a, row ∈ items a ∧ P a := by
  obtain ⟨a, hresponds, hrow⟩ := h
  exact ⟨a, hrow, hresponds.always halways⟩

/-- The comments of a post that the pages show. -/
theorem mem_topCommentsOf {postId : Int} :
    row ∈ topCommentsOf t postId ↔
      row ∈ activeComments t ∧ row.postId = postId ∧ row.parentCommentId = none := by
  simp [topCommentsOf]

theorem mem_repliesTo {id : Int} :
    row ∈ repliesTo t id ↔ row ∈ activeComments t ∧ row.parentCommentId = some id := by
  simp [repliesTo]

/-- There is one order of the comments, whatever the database answers. -/
theorem sorted_unique {rows : List Comment} {postId : Int}
    (hcomments : (t.comments.map Comment.commentId).Nodup)
    (hperm : rows.Perm (topCommentsOf t postId))
    (hsorted : rows.Pairwise fun row row' => row'.createdAt < row.createdAt ∨
      (row'.createdAt = row.createdAt ∧ row'.commentId ≤ row.commentId)) :
    rows = CommentRepository.newestFirst (topCommentsOf t postId) := by
  have hperm' : (CommentRepository.newestFirst (topCommentsOf t postId)).Perm
      (topCommentsOf t postId) := List.perm_insertionSort _ _
  have hkeys : ((topCommentsOf t postId).map Comment.commentId).Nodup :=
    hcomments.sublist ((List.filter_sublist.trans List.filter_sublist).map _)
  refine List.Perm.eq_of_pairwise (fun a b ha hb hab hba => ?_) hsorted (newestFirst_sorted _)
    (hperm.trans hperm'.symm)
  refine List.inj_on_of_nodup_map hkeys (hperm.subset ha) (hperm'.subset hb) ?_
  omega

/-- A top-level comment is on a page of its own. -/
theorem page_of_top (hposts : (t.posts.map Post.postId).Nodup)
    (hcomments : (t.comments.map Comment.commentId).Nodup) (hlive : Live t row)
    (htop : row.parentCommentId = none) :
    ∃ params, Returns coll t (listComments row.postId params) onPage row := by
  have hmem : row ∈ CommentRepository.newestFirst (topCommentsOf t row.postId) :=
    (List.perm_insertionSort _ _).symm.subset
      (mem_topCommentsOf.mpr ⟨hlive.comment, rfl, htop⟩)
  obtain ⟨i, hi, hrow⟩ := List.getElem_of_mem hmem
  refine ⟨⟨i + 1, 1, by omega, by omega, by omega⟩, ?_⟩
  refine returns_of_always (fun s h => h.total_listComments hposts hlive.post _)
    (fun s h => h.listComments row.postId _) ?_
  rintro response ⟨rows, hperm, hsorted, rfl⟩
  rw [sorted_unique hcomments hperm hsorted]
  have hpage : ((CommentRepository.newestFirst (topCommentsOf t row.postId)).drop i).take 1 =
      [row] := by
    rw [List.drop_eq_getElem_cons hi, hrow]
    rfl
  have hoffset : PageParams.offset ⟨i + 1, 1, by omega, by omega, by omega⟩ = i := by
    simp [PageParams.offset]
  simp only [onPage, PageResponse.create]
  rw [hoffset, List.map_take, List.map_drop, List.map_map]
  have hfst : (Prod.fst ∘ counted t) = (id : Comment → Comment) := rfl
  rw [hfst, List.map_id]
  exact hpage ▸ List.mem_singleton.mpr rfl

/-- What a page shows is no reply. -/
theorem top_of_page {postId : Int} {params : PageParams}
    (h : ∃ response, row ∈ onPage response ∧ ∃ rows : List Comment,
      rows.Perm (topCommentsOf t postId) ∧
        rows.Pairwise (fun row row' => row'.createdAt < row.createdAt ∨
          (row'.createdAt = row.createdAt ∧ row'.commentId ≤ row.commentId)) ∧
        response = .create (((rows.map (counted t)).drop params.offset).take params.limit)
          rows.length params) : row.parentCommentId = none := by
  obtain ⟨_, hrow, rows, hperm, _, rfl⟩ := h
  obtain ⟨item, hitem, rfl⟩ := List.mem_map.mp hrow
  obtain ⟨row, hmem, rfl⟩ := List.mem_map.mp (List.mem_of_mem_drop (List.mem_of_mem_take hitem))
  exact (mem_topCommentsOf.mp (hperm.subset hmem)).2.2

/-- A comment is shown by one of the two listings, and by that one only, exactly when it
is no reply or the comment above it is not deleted. -/
theorem shownOnce_iff (hposts : (t.posts.map Post.postId).Nodup)
    (hcomments : (t.comments.map Comment.commentId).Nodup) (hlive : Live t row) :
    ShownOnce coll t row ↔ ∀ id, row.parentCommentId = some id → t.HasComment id := by
  constructor
  · rintro (⟨params, h, _⟩ | ⟨id, hid, h, _⟩) id' hid'
    · rw [top_of_page (h.meets fun s hat => hat.listComments row.postId params)] at hid'
      cases hid'
    · obtain ⟨_, _, hfound, _⟩ := h.meets fun s hat => hat.repliesOf id
      rw [hid] at hid'
      cases hid'
      exact hfound
  · intro hparent
    cases hid : row.parentCommentId with
    | none =>
        obtain ⟨params, hpage⟩ := page_of_top hposts hcomments hlive hid
        exact .page params hpage (by simp [hid])
    | some id =>
        refine .replies id hid ?_ fun params hpage => ?_
        · refine returns_of_always
            (fun s h => h.total_listByParent hcomments (hparent id hid))
            (fun s h => h.repliesOf id) ?_
          rintro replies ⟨_, hperm⟩
          exact hperm.symm.subset (mem_repliesTo.mpr ⟨hlive.comment, hid⟩)
        · rw [top_of_page (hpage.meets fun s hat => hat.listComments row.postId params)] at hid
          cases hid

theorem allShown_iff (hposts : (t.posts.map Post.postId).Nodup)
    (hcomments : (t.comments.map Comment.commentId).Nodup) :
    AllShown coll t ↔ NoOrphans t :=
  forall_congr' fun _ => imp_congr_right fun hlive => shownOnce_iff hposts hcomments hlive

/-- A live reply to a comment that is deleted is in no response of either listing. -/
theorem never_shown {id : Int} (hid : row.parentCommentId = some id) (hno : ¬ t.HasComment id) :
    (∀ params, ¬ MayReturn coll t (listComments row.postId params) onPage row) ∧
      ¬ MayReturn coll t (CommentService.listByParent id) (fun replies => replies) row := by
  refine ⟨fun params h => ?_, fun h => ?_⟩
  · rw [top_of_page (h.meets fun s hat => hat.listComments row.postId params)] at hid
    cases hid
  · obtain ⟨_, _, hfound, _⟩ := h.meets fun s hat => hat.repliesOf id
    exact hno hfound

end Shown

/-! ## What a commit does to them -/

/-- The writes of a transaction that stores, edits or deletes one comment. -/
inductive OneComment : List Write → Prop where
  | none : OneComment []
  | insert (row : Comment) (hnew : row.deletedAt = none) : OneComment [.insert (.comment row)]
  | update (id : Int) (set : CommentSet) : OneComment [.update (.comment id set)]

/-- No comment is deleted that has live replies, and no reply is stored whose parent is
deleted by then. -/
structure Spares (t : Tables) (ws : List Write) : Prop where
  deletes : ∀ id set, .update (.comment id set) ∈ ws → set.deletedAt ≠ none →
    ∀ row, Live t row → row.parentCommentId ≠ some id
  answers : ∀ row, .insert (.comment row) ∈ ws → t.HasPost row.postId →
    ∀ id, row.parentCommentId = some id → t.HasComment id

section Commit

variable {t : Tables}

theorem mem_activeComments {row : Comment} :
    row ∈ activeComments t ↔ row ∈ t.comments ∧ row.deletedAt = none := by
  simp [activeComments]

/-- No comment answers itself. -/
theorem Tables.Threaded.not_self (h : t.Threaded)
    (hcomments : (t.comments.map Comment.commentId).Nodup) {row : Comment}
    (hrow : row ∈ t.comments) : row.parentCommentId ≠ some row.commentId := by
  intro hself
  obtain ⟨parent, hparent, hid, _, htop⟩ := h row hrow _ hself
  rw [List.inj_on_of_nodup_map hcomments hparent hrow hid, hself] at htop
  cases htop

theorem noOrphans_insert {row : Comment} (hnew : row.deletedAt = none) (h : NoOrphans t)
    (hself : row.parentCommentId ≠ some row.commentId) :
    NoOrphans (t.insert (.comment row)) ↔ Spares t [.insert (.comment row)] := by
  have hactive : ∀ {row'}, row' ∈ activeComments (t.insert (.comment row)) ↔
      row' ∈ activeComments t ∨ row' = row := by
    intro row'
    simp only [mem_activeComments, Tables.insert, List.mem_append, List.mem_singleton]
    constructor
    · rintro ⟨hold | rfl, hlive⟩
      · exact Or.inl ⟨hold, hlive⟩
      · exact Or.inr rfl
    · rintro (⟨hold, hlive⟩ | rfl)
      · exact ⟨Or.inl hold, hlive⟩
      · exact ⟨Or.inr rfl, hnew⟩
  constructor
  · intro hafter
    refine ⟨fun id set hmem => by simp at hmem, fun row' hmem hpost id hid => ?_⟩
    obtain rfl : row' = row := by simpa using hmem
    obtain ⟨parent, hparent, hparentId⟩ := hafter row' ⟨hactive.mpr (Or.inr rfl), hpost⟩ id hid
    rcases hactive.mp hparent with hold | rfl
    · exact ⟨parent, hold, hparentId⟩
    · exact absurd (hparentId ▸ hid) hself
  · intro hspares row' hlive id hid
    have hfound : t.HasComment id := by
      rcases hactive.mp hlive.comment with hold | rfl
      · exact h row' ⟨hold, hlive.post⟩ id hid
      · exact hspares.answers row' (List.mem_singleton.mpr rfl) hlive.post id hid
    obtain ⟨parent, hparent, hparentId⟩ := hfound
    exact ⟨parent, hactive.mpr (Or.inl hparent), hparentId⟩

theorem noOrphans_update {id : Int} {set : CommentSet} (h : NoOrphans t)
    (hself : ∀ row ∈ (t.update (.comment id set)).comments,
      row.parentCommentId ≠ some row.commentId) :
    NoOrphans (t.update (.comment id set)) ↔ Spares t [.update (.comment id set)] := by
  have hcomments : ∀ {row}, row ∈ (t.update (.comment id set)).comments ↔
      (∃ old ∈ t.comments, old.commentId = id ∧ row = old.set set) ∨
        (row ∈ t.comments ∧ row.commentId ≠ id) := mem_updateAt
  constructor
  · intro hafter
    refine ⟨fun id' set' hmem hset row hlive hid => ?_, fun row hmem => by simp at hmem⟩
    obtain ⟨rfl, rfl⟩ : id' = id ∧ set' = set := by simpa using hmem
    obtain ⟨hrow, hnone⟩ := mem_activeComments.mp hlive.comment
    have hne : row.commentId ≠ id' := by
      intro hown
      refine hself (row.set set') (hcomments.mpr (Or.inl ⟨row, hrow, hown, rfl⟩)) ?_
      exact hid.trans (congrArg some hown.symm)
    have hkept : row ∈ activeComments (t.update (.comment id' set')) :=
      mem_activeComments.mpr ⟨hcomments.mpr (Or.inr ⟨hrow, hne⟩), hnone⟩
    obtain ⟨parent, hparent, hparentId⟩ := hafter row ⟨hkept, hlive.post⟩ id' hid
    obtain ⟨hmem, halive⟩ := mem_activeComments.mp hparent
    rcases hcomments.mp hmem with ⟨old, _, _, rfl⟩ | ⟨_, hother⟩
    · exact hset (Option.or_eq_none_iff.mp halive).1
    · exact hother hparentId
  · intro hspares row hlive id' hid
    obtain ⟨hrow, hnone⟩ := mem_activeComments.mp hlive.comment
    have hold : ∃ old, Live t old ∧ old.parentCommentId = some id' := by
      rcases hcomments.mp hrow with ⟨old, hmem, _, rfl⟩ | ⟨hmem, _⟩
      · exact ⟨old, ⟨mem_activeComments.mpr ⟨hmem, (Option.or_eq_none_iff.mp hnone).2⟩,
          hlive.post⟩, hid⟩
      · exact ⟨row, ⟨mem_activeComments.mpr ⟨hmem, hnone⟩, hlive.post⟩, hid⟩
    obtain ⟨old, holdLive, holdId⟩ := hold
    obtain ⟨parent, hparent, hparentId⟩ := h old holdLive id' holdId
    obtain ⟨hmem, halive⟩ := mem_activeComments.mp hparent
    by_cases hat : parent.commentId = id
    · -- the parent has been written to, but is not deleted
      have hset : set.deletedAt = none := by
        by_contra hset
        exact hspares.deletes id set (List.mem_singleton.mpr rfl) hset old holdLive
          (by rw [holdId, ← hparentId, hat])
      refine ⟨parent.set set, mem_activeComments.mpr
        ⟨hcomments.mpr (Or.inl ⟨parent, hmem, hat, rfl⟩), ?_⟩, hparentId⟩
      exact Option.or_eq_none_iff.mpr ⟨hset, halive⟩
    · exact ⟨parent, mem_activeComments.mpr ⟨hcomments.mpr (Or.inr ⟨hmem, hat⟩), halive⟩,
        hparentId⟩

/-- What one write does to comments that are all in sight. -/
theorem noOrphans_commit {ws : List Write} (hone : OneComment ws) (h : NoOrphans t)
    (hthreads : (ws.foldl apply t).Threaded)
    (hcomments : ((ws.foldl apply t).comments.map Comment.commentId).Nodup) :
    NoOrphans (ws.foldl apply t) ↔ Spares t ws := by
  cases hone with
  | none => exact iff_of_true h ⟨nofun, nofun⟩
  | insert row hnew =>
      refine noOrphans_insert hnew h (hthreads.not_self hcomments ?_)
      exact List.mem_append_right _ (List.mem_singleton.mpr rfl)
  | update id set => exact noOrphans_update h fun row hrow => hthreads.not_self hcomments hrow

end Commit

/-! ## The requests -/

/-- The requests that store, edit or delete a comment. -/
def Request.onComment : Request → Prop
  | .createComment _ _ | .updateComment _ _ | .deleteComment _ => True
  | _ => False

/-- A write is the first of its transaction and one of a comment. -/
def FirstComment (x : Summary) (e : BoardEvent) : Prop :=
  match e.op with
  | .insert new => new.table = .comments ∧ x.writes = []
  | .update change => change.key.1 = .comments ∧ x.writes = []
  | _ => True

/-- An operation that writes no row. -/
def Op.rowless : Op → Prop
  | .insert _ | .update _ => False
  | _ => True

section Requests

variable {α β : Type} {x : Summary}

/-- The program writes one comment at most. -/
abbrev WritesOnce (p : BoardM α) (x : Summary) : Prop :=
  p.Track Summary.next FirstComment (fun _ _ => True) x

theorem firstComment_rowless {op : Op} (h : op.rowless) (r : Reply op) :
    FirstComment x ⟨op, r⟩ := by
  cases op <;> first | exact absurd h id | trivial

theorem writesOnce_of_rowless {p : BoardM α} (h : p.Every Op.rowless) : WritesOnce p x :=
  h.track (K := fun _ => True) (fun _ _ r hop _ => ⟨firstComment_rowless hop r, trivial⟩) trivial

theorem Op.plain.rowless {op : Op} (h : op.plain) : op.rowless := by
  cases op <;> first | exact absurd h id | trivial

/-- What comes behind the checks of a request. -/
theorem writesOnce_bind {p : BoardM α} {f : α → BoardM β} (hp : p.Every Op.plain)
    (hw : x.writes = []) (hf : ∀ a x', x'.writes = [] → WritesOnce (f a) x') :
    WritesOnce (p >>= f) x := by
  refine track_bind.mpr (Track.imp ?_ (hp.track (K := fun x' => x'.writes = [])
    (fun x' op r hop hx => ⟨firstComment_rowless hop.rowless r, ?_⟩) hw))
  · rintro x' (e | a) hx
    · trivial
    · exact hf a x' hx
  · exact (later_next hop r).writes.trans hx

/-- The write, and what comes behind it. -/
theorem writesOnce_perform {op : Op} {f : Result op → BoardM α}
    (hop : ∀ r, FirstComment x ⟨op, r⟩) (hf : ∀ r, (f r).Every Op.rowless) :
    WritesOnce (perform op >>= f) x := by
  rintro (e | r)
  · exact ⟨hop _, trivial⟩
  · exact ⟨hop _, writesOnce_of_rowless (hf r)⟩

theorem writesOnce_discard {p : BoardM α} (h : WritesOnce p x) : WritesOnce (discard p) x := by
  show WritesOnce (p >>= fun _ => ret ()) x
  refine track_bind.mpr (Track.imp ?_ h)
  rintro x' (e | a) _ <;> trivial

theorem rowless_select (query : Query) : Op.rowless (.select query) := trivial

theorem createComment_once (hw : x.writes = []) (postId : Int) (user : User)
    (payload : CommentCreate) : WritesOnce (CommentService.create postId user payload) x := by
  have hrest : ∀ x₁ : Summary, x₁.writes = [] →
      WritesOnce (CommentService.validateMentions payload.commentContent >>= fun _ =>
        CommentRepository.add payload.commentContent postId user.userId
          payload.parentCommentId >>= fun comment =>
        perform .commit >>= fun _ => ret comment) x₁ := by
    intro x₁ h₁
    refine writesOnce_bind (validateMentions_every plain_select _) h₁ fun _ x₂ h₂ => ?_
    rw [CommentRepository.add, bind_assoc]
    refine writesOnce_perform (fun _ => ⟨rfl, h₂⟩) fun _ => ?_
    exact every_bind (every_bind (every_select rowless_select _)
      fun _ => Infrastructure.every_refreshed)
      fun _ => every_bind (Infrastructure.every_perform trivial) fun _ => every_ret _
  refine writesOnce_bind (ensurePostExists_every plain_select postId) hw fun _ x₁ h₁ => ?_
  cases hp : payload.parentCommentId with
  | none =>
      rw [hp] at hrest
      exact hrest x₁ h₁
  | some id =>
      rw [hp] at hrest
      refine writesOnce_bind (every_bind (getComment_every (plain_select _)) fun found => ?_) h₁
        fun _ x₂ h₂ => hrest x₂ h₂
      cases found with
      | none => trivial
      | some parent =>
          dsimp only
          split
          · trivial
          split <;> trivial

theorem updateComment_once (hw : x.writes = []) (commentId : Int) (user : User)
    (payload : CommentUpdate) : WritesOnce (CommentService.update commentId user payload) x := by
  refine writesOnce_bind (getOwnedComment_every plain_select commentId user) hw
    fun comment x₁ h₁ => ?_
  refine writesOnce_bind (validateMentions_every plain_select _) h₁ fun _ x₂ h₂ => ?_
  have hrest : (perform .commit >>= fun _ =>
      (ret { comment with commentContent := payload.commentContent } : BoardM Comment)).Every
        Op.rowless := every_bind (Infrastructure.every_perform trivial) fun _ => every_ret _
  rw [CommentRepository.flush]
  split
  · exact writesOnce_of_rowless hrest
  · exact writesOnce_perform (fun _ => ⟨rfl, h₂⟩) fun _ => hrest

theorem deleteComment_once (hw : x.writes = []) (commentId : Int) (user : User) :
    WritesOnce (CommentService.delete commentId user) x := by
  refine writesOnce_bind (getOwnedComment_every plain_select commentId user) hw
    fun comment x₁ h₁ => ?_
  refine writesOnce_bind (Infrastructure.every_perform trivial) h₁ fun now x₂ h₂ => ?_
  exact writesOnce_perform (fun _ => ⟨rfl, h₂⟩) fun _ => Infrastructure.every_perform trivial

/-- A request on a comment writes one comment at most. -/
theorem serve_once (dep : Deployment) (userId : Int) {req : Request} (hreq : req.onComment) :
    WritesOnce (serve dep userId req) .empty := by
  refine Infrastructure.track_inSession ?_
    (fun _ => writesOnce_of_rowless (Infrastructure.every_perform trivial))
    (fun _ => writesOnce_of_rowless (Infrastructure.every_perform trivial))
  refine writesOnce_bind (getCurrentUser_every (plain_select _)) rfl fun user x hx => ?_
  cases req with
  | createComment => exact writesOnce_discard (createComment_once hx _ _ _)
  | updateComment => exact writesOnce_discard (updateComment_once hx _ _ _)
  | deleteComment => exact deleteComment_once hx _ _
  | _ => exact absurd hreq id

end Requests

/-! ## The numbers of comments -/

/-- The numbers that the open transactions have drawn are their own. -/
structure Discussing {C : Type} (nextComment : Int) (db : Db C Tables Write) : Prop where
  posts : (db.committed.posts.map Post.postId).Nodup
  comments : (db.committed.comments.map Comment.commentId).Nodup
  below : ∀ row ∈ db.committed.comments, row.commentId < nextComment
  one : ∀ c, OneComment (db.session c).writes
  drawn : ∀ c row, .insert (.comment row) ∈ (db.session c).writes →
    row.commentId < nextComment ∧ ∀ old ∈ db.committed.comments, old.commentId ≠ row.commentId
  apart : ∀ c d row row', c ≠ d → .insert (.comment row) ∈ (db.session c).writes →
    .insert (.comment row') ∈ (db.session d).writes → row.commentId ≠ row'.commentId

section Discussing

variable {C : Type} [DecidableEq C] {nextComment : Int} {db : Db C Tables Write} {c : C}

theorem Discussing.read (h : Discussing nextComment db) : Discussing nextComment (db.read c) where
  posts := h.posts
  comments := h.comments
  below := h.below
  one d := by
    rw [Db.writes_read]
    exact h.one d
  drawn d row hrow := by
    rw [Db.writes_read] at hrow
    exact h.drawn d row hrow
  apart d d' row row' hne hrow hrow' := by
    rw [Db.writes_read] at hrow hrow'
    exact h.apart d d' row row' hne hrow hrow'

/-- A session has written its first row. -/
theorem Discussing.write (h : Discussing nextComment db) {w : Write} {nextComment' : Int}
    (hempty : (db.session c).writes = []) (hone : OneComment [w])
    (hnext : nextComment ≤ nextComment')
    (hw : ∀ row, w = .insert (.comment row) →
      nextComment ≤ row.commentId ∧ row.commentId < nextComment') :
    Discussing nextComment' (db.write c w) := by
  have hsame : ((db.write c w).session c).writes = [w] := by
    rw [Db.writes_write, hempty]
    rfl
  have hother : ∀ {d}, d ≠ c → ((db.write c w).session d).writes = (db.session d).writes :=
    fun hd => by rw [Db.session_write_ne hd]
  have hcases : ∀ {d row}, .insert (.comment row) ∈ ((db.write c w).session d).writes →
      (d = c ∧ w = .insert (.comment row)) ∨
        (d ≠ c ∧ .insert (.comment row) ∈ (db.session d).writes) := by
    intro d row hrow
    by_cases hd : d = c
    · subst hd
      rw [hsame] at hrow
      exact Or.inl ⟨rfl, (List.mem_singleton.mp hrow).symm⟩
    · rw [hother hd] at hrow
      exact Or.inr ⟨hd, hrow⟩
  refine ⟨h.posts, h.comments, fun row hrow => lt_of_lt_of_le (h.below row hrow) hnext, ?_, ?_, ?_⟩
  · intro d
    by_cases hd : d = c
    · subst hd
      rw [hsame]
      exact hone
    · rw [hother hd]
      exact h.one d
  · intro d row hrow
    rcases hcases hrow with ⟨_, hwrite⟩ | ⟨_, hold⟩
    · refine ⟨(hw row hwrite).2, fun old hold heq => ?_⟩
      have hlt := h.below old hold
      have hle := (hw row hwrite).1
      omega
    · exact ⟨lt_of_lt_of_le (h.drawn d row hold).1 hnext, (h.drawn d row hold).2⟩
  · intro d d' row row' hne hrow hrow'
    rcases hcases hrow with ⟨rfl, hwrite⟩ | ⟨hd, hold⟩ <;>
      rcases hcases hrow' with ⟨rfl, hwrite'⟩ | ⟨hd', hold'⟩
    · exact absurd rfl hne
    · have hlt := (h.drawn d' row' hold').1
      have hle := (hw row hwrite).1
      omega
    · have hlt := (h.drawn d row hold).1
      have hle := (hw row' hwrite').1
      omega
    · exact h.apart d d' row row' hne hold hold'

/-- The session of `c` ends. -/
private theorem Discussing.ended (h : Discussing nextComment db) {t : Tables}
    (hposts : (t.posts.map Post.postId).Nodup)
    (hcomments : (t.comments.map Comment.commentId).Nodup)
    (hrows : ∀ row ∈ t.comments, (∃ old ∈ db.committed.comments,
      old.commentId = row.commentId) ∨ .insert (.comment row) ∈ (db.session c).writes) :
    Discussing nextComment { committed := t, session := Function.update db.session c .idle } := by
  have hcases : ∀ {d row}, .insert (.comment row) ∈
      (Function.update db.session c .idle d).writes →
        d ≠ c ∧ .insert (.comment row) ∈ (db.session d).writes := by
    intro d row hrow
    by_cases hd : d = c
    · subst hd
      simp [Session.idle] at hrow
    · rw [Function.update_of_ne hd] at hrow
      exact ⟨hd, hrow⟩
  refine ⟨hposts, hcomments, fun row hrow => ?_, fun d => ?_, fun d row hrow => ?_,
    fun d d' row row' hne hrow hrow' => h.apart d d' row row' hne (hcases hrow).2 (hcases hrow').2⟩
  · rcases hrows row hrow with ⟨old, hold, hid⟩ | hnew
    · exact hid ▸ h.below old hold
    · exact (h.drawn c row hnew).1
  · by_cases hd : d = c
    · subst hd
      simp only [Function.update_self, Session.idle]
      exact .none
    · show OneComment (Function.update db.session c .idle d).writes
      rw [Function.update_of_ne hd]
      exact h.one d
  · obtain ⟨hd, hmem⟩ := hcases hrow
    refine ⟨(h.drawn d row hmem).1, fun row' hrow' => ?_⟩
    rcases hrows row' hrow' with ⟨old, hold, hid⟩ | hnew
    · exact hid ▸ (h.drawn d row hmem).2 old hold
    · exact h.apart c d row' row (Ne.symm hd) hnew hmem

theorem Discussing.rollback (h : Discussing nextComment db) :
    Discussing nextComment (db.rollback c) :=
  h.ended h.posts h.comments fun row hrow => Or.inl ⟨row, hrow, rfl⟩

theorem Discussing.commit (h : Discussing nextComment db) :
    Discussing nextComment (db.commit apply c) := by
  have hone := h.one c
  have hdrawn := h.drawn c
  refine h.ended (t := (db.session c).writes.foldl apply db.committed) ?_ ?_ ?_
  all_goals generalize (db.session c).writes = ws at hone hdrawn
  · cases hone <;> exact h.posts
  · cases hone with
    | none => exact h.comments
    | insert row =>
        show ((db.committed.comments ++ [row]).map Comment.commentId).Nodup
        rw [List.map_append, List.nodup_append]
        refine ⟨h.comments, List.nodup_singleton _, ?_⟩
        rintro _ hold _ hnew
        obtain ⟨old, hmem, rfl⟩ := List.mem_map.mp hold
        rw [List.mem_singleton.mp hnew]
        exact (hdrawn row (List.mem_singleton.mpr rfl)).2 old hmem
    | update id set =>
        show ((db.committed.update (.comment id set)).keys .comments).Nodup
        rw [keys_update]
        exact h.comments
  · intro row hrow
    cases hone with
    | none => exact Or.inl ⟨row, hrow, rfl⟩
    | insert new =>
        rcases List.mem_append.mp hrow with hold | hnew
        · exact Or.inl ⟨row, hold, rfl⟩
        · exact Or.inr (List.mem_singleton.mpr (by rw [List.mem_singleton.mp hnew]))
    | update id set =>
        rcases mem_updateAt.mp hrow with ⟨old, hold, _, rfl⟩ | ⟨hold, _⟩
        · exact Or.inl ⟨old, hold, rfl⟩
        · exact Or.inl ⟨row, hold, rfl⟩

end Discussing

/-! ## Runs -/

section Runs

variable {C : Type} [DecidableEq C] {coll : Collation} {dep : Deployment} {who : C → Int}
  {req : C → Request} {init : State C} {tr : List (Label C Op Reply)}
  {cfg : Config C Op Reply AppError Unit (State C)}

/-- A row with a number of the table of comments. -/
theorem comment_of_row {new : NewRow} {n : Int} {createdAt : Nat} {row : Row}
    (h : new.row n createdAt = some row) (htable : new.table = .comments) :
    ∃ comment : Comment, row = .comment comment ∧ comment.commentId = n ∧
      comment.deletedAt = none := by
  have hkey := key_of_row h
  rw [htable] at hkey
  cases row with
  | comment row =>
      obtain ⟨_, _, _, _, _, rfl⟩ := row_eq_comment h
      exact ⟨_, rfl, rfl, rfl⟩
  | _ => cases hkey

private theorem discussing_step {c : C} {s s' : State C} {e : BoardEvent} {x : Summary}
    (h : Discussing (s.nextId .comments) s.db)
    (hexp : Explains coll s.db.committed x (s.db.session c)) (hfirst : FirstComment x e)
    (heff : Effect coll c s e s') : Discussing (s'.nextId .comments) s'.db := by
  have hempty : x.writes = [] → (s.db.session c).writes = [] := fun hnil => by
    have hforall := hexp.writes
    rw [hnil] at hforall
    exact List.forall₂_nil_left_iff.mp hforall
  cases heff with
  | quiet hdb hids =>
      rw [hdb, hids]
      exact h
  | read hdb hids | select _ _ _ _ hdb hids =>
      rw [hdb, hids]
      exact h.read
  | insert new n createdAt row he hn hrow hdb hids =>
      subst he
      obtain ⟨htable, hnil⟩ : new.table = .comments ∧ x.writes = [] := hfirst
      obtain ⟨comment, rfl, hid, hnew⟩ := comment_of_row hrow htable
      rw [hdb, hids, htable, Function.update_self]
      rw [htable] at hn
      refine h.write (hempty hnil) (.insert comment hnew) (by omega) ?_
      rintro row ⟨⟩
      omega
  | update change he hdb hids =>
      subst he
      obtain ⟨htable, hnil⟩ : change.key.1 = .comments ∧ x.writes = [] := hfirst
      rw [hdb, hids]
      cases change with
      | comment id set =>
          exact h.write (hempty hnil) (.update id set) (Int.le_refl _) fun row hrow => by
            cases hrow
      | _ => cases htable
  | commit _ hdb hids =>
      rw [hdb, hids]
      exact h.commit
  | rollback hdb hids =>
      rw [hdb, hids]
      exact h.rollback

/-- In every state of a run of requests on comments their numbers are primary keys. -/
theorem discussing_run (h0 : Idle init) (hnum : Numbered init) (hreq : ∀ c, (req c).onComment)
    (h : Run (sem coll) anyStep (start dep who req init) tr cfg) :
    Discussing (cfg.state.nextId .comments) cfg.state.db := by
  refine Run.inv (fun _ cfg => Discussing (cfg.state.nextId .comments) cfg.state.db) ?_ ?_ h
  · have hnone : ∀ c, (init.db.session c).writes = [] := fun c => by
      rw [h0 c]
      rfl
    refine ⟨hnum.posts, hnum.comments, hnum.nextComment, fun c => ?_, fun c row hrow => ?_,
      fun c d row row' _ hrow _ => ?_⟩
    · exact (hnone c).symm ▸ OneComment.none
    · exact absurd ((hnone c) ▸ hrow) List.not_mem_nil
    · exact absurd ((hnone c) ▸ hrow) List.not_mem_nil
  intro tr cfg l cfg' hrun hinv hl _
  cases hl with
  | env henv =>
      obtain ⟨users, rfl⟩ := henv
      exact ⟨hinv.posts, hinv.comments, hinv.below, hinv.one, hinv.drawn, hinv.apart⟩
  | @call c op k r s' hpool hstep =>
      have hfirst := hrun.track_step (fun c => serve_once dep (who c) (hreq c))
        (.call hpool hstep)
      exact discussing_step hinv (explained_run h0 hrun c) hfirst (effect_of_step hstep)

/-- In every state that requests on comments reach, a live comment is returned by exactly
one of the two listings, unless it answers a deleted comment: then neither returns it. -/
theorem comment_shown (h0 : Idle init) (hnum : Numbered init) (hreq : ∀ c, (req c).onComment)
    (h : Run (sem coll) anyStep (start dep who req init) tr cfg) {row : Comment}
    (hlive : Live cfg.state.db.committed row) :
    ((∀ id, row.parentCommentId = some id → cfg.state.db.committed.HasComment id) →
        ShownOnce coll cfg.state.db.committed row) ∧
      ∀ id, row.parentCommentId = some id → ¬ cfg.state.db.committed.HasComment id →
        (∀ params, ¬ MayReturn coll cfg.state.db.committed
            (listComments row.postId params) onPage row) ∧
          ¬ MayReturn coll cfg.state.db.committed (CommentService.listByParent id)
            (fun replies => replies) row := by
  have hdisc := discussing_run h0 hnum hreq h
  exact ⟨(shownOnce_iff hdisc.posts hdisc.comments hlive).mpr, fun id => never_shown⟩

/-- In a run of requests on comments every live comment is returned by exactly one of the
two listings, in every state reached, exactly when no request commits the deletion of a
comment with live replies or a reply to a comment that is deleted by then. -/
theorem all_shown_iff (h0 : Idle init) (hnum : Numbered init)
    (hthreads : init.db.committed.Threaded) (hshown : AllShown coll init.db.committed)
    (hreq : ∀ c, (req c).onComment) :
    Run (sem coll) (fun _ (cfg : Config C Op Reply AppError Unit (State C)) _ =>
            AllShown coll cfg.state.db.committed) (start dep who req init) tr cfg ∧
          AllShown coll cfg.state.db.committed ↔
      Run (sem coll) (AtCommits fun _ c s => Spares s.db.committed (s.db.session c).writes)
        (start dep who req init) tr cfg := by
  refine Run.always_iff (fun _ (cfg : Config C Op Reply AppError Unit (State C)) =>
    AllShown coll cfg.state.db.committed) hshown ?_
  intro tr cfg l cfg' hrun hall hl
  have hafter : Run (sem coll) anyStep (start dep who req init) (tr ++ [l]) cfg' :=
    .snoc hrun hl trivial
  have hdisc := discussing_run h0 hnum hreq hrun
  have hdisc' := discussing_run h0 hnum hreq hafter
  have hthreads' := (threads_of_two h0 hthreads hafter).1
  have hnone := (allShown_iff hdisc.posts hdisc.comments).mp hall
  rw [allShown_iff hdisc'.posts hdisc'.comments]
  have hcomments' := hdisc'.comments
  rcases committed_step hl with ⟨c, rfl, hdb⟩ | ⟨hquiet, users, hdb⟩
  · rw [hdb] at hthreads' hcomments' ⊢
    have hcommit := noOrphans_commit (hdisc.one c) hnone hthreads' hcomments'
    refine hcommit.trans ⟨fun hspares d hd => ?_, fun hok => hok c rfl⟩
    obtain rfl : c = d := by
      cases hd
      rfl
    exact hspares
  · have hsame : NoOrphans { cfg.state.db.committed with users } := by
      rintro row ⟨hrow, hpost⟩ id hid
      exact hnone row ⟨hrow, hpost⟩ id hid
    rw [hdb]
    exact iff_of_true hsame fun c hc => absurd hc (hquiet c)

end Runs

/-! ## A question, an answer, and the deletion of the question -/

section Samples

open Infrastructure (binaryCollation)

inductive Visitor where
  | asks
  | answers
  | deletes
  deriving DecidableEq

/-- A board with one post and no comments. -/
def silentBoard : State Visitor where
  db :=
    { committed := ⟨[spammer, moderator], [badPost], [], [], [], []⟩
      session := fun _ => .idle }
  nextId _ := 10
  objects _ := none
  fileIds := []

def visitor : Visitor → Int
  | .asks | .deletes => 5
  | .answers => 9

theorem content_fits_why : CommentFits "why" := ⟨by decide, by decide⟩

theorem content_fits_yes : CommentFits "yes" := ⟨by decide, by decide⟩

def visit : Visitor → Request
  | .asks => .createComment 3 ⟨"why", none, content_fits_why⟩
  | .answers => .createComment 3 ⟨"yes", some 10, content_fits_yes⟩
  | .deletes => .deleteComment 10

def firstQuestion : Comment := ⟨10, "why", 3, 5, none, 20, none⟩

def firstAnswer : Comment := ⟨11, "yes", 3, 9, some 10, 20, none⟩

def asking : List BoardEvent :=
  [⟨.select (.user 5), .ok [spammer]⟩, ⟨.select (.activePost 3), .ok [badPost]⟩,
    ⟨.insert (.comment "why" 3 5 none), .ok (10 : Int)⟩,
    ⟨.select (.anyComment 10), .ok [firstQuestion]⟩, ⟨.commit, .ok ()⟩, ⟨.close, .ok ()⟩]

def answering : List BoardEvent :=
  [⟨.select (.user 9), .ok [moderator]⟩, ⟨.select (.activePost 3), .ok [badPost]⟩,
    ⟨.select (.activeComment 10), .ok [firstQuestion]⟩,
    ⟨.insert (.comment "yes" 3 9 (some 10)), .ok (11 : Int)⟩,
    ⟨.select (.anyComment 11), .ok [firstAnswer]⟩, ⟨.commit, .ok ()⟩, ⟨.close, .ok ()⟩]

def deleting : List BoardEvent :=
  [⟨.select (.user 5), .ok [spammer]⟩, ⟨.select (.activeComment 10), .ok [firstQuestion]⟩,
    ⟨.now, .ok (30000000 : Nat)⟩, ⟨.update (.comment 10 ⟨none, some 30⟩), .ok ()⟩,
    ⟨.commit, .ok ()⟩, ⟨.close, .ok ()⟩]

theorem free_of_quiet {c : Visitor} {db : Db Visitor Tables Write} {w : Write}
    (h : ∀ c', c' ≠ c → (db.session c').writes = []) : db.Free Write.conflict c w := by
  intro c' hc w' hw'
  rw [h c' hc] at hw'
  cases hw'

/-- The question is asked and answered. -/
private theorem answered_chain : ∃ s, Chain (sem binaryCollation) silentBoard
      (asking.map (.call Visitor.asks) ++ answering.map (.call .answers)) s ∧
    (∀ c, s.db.session c = .idle) ∧ s.db.committed =
      ⟨[spammer, moderator], [badPost], [], [firstQuestion, firstAnswer], [], []⟩ := by
  refine ⟨_, .append
    (.call ⟨rfl, rfl⟩ (.call ⟨rfl, rfl⟩ (.call ⟨rfl, 20, _, rfl, free_of_quiet ?_, rfl⟩
      (.call ⟨rfl, rfl⟩ (.call rfl (.call rfl .nil))))))
    (.call ⟨rfl, rfl⟩ (.call ⟨rfl, rfl⟩ (.call ⟨rfl, rfl⟩
      (.call ⟨rfl, 20, _, rfl, free_of_quiet ?_, rfl⟩
        (.call ⟨rfl, rfl⟩ (.call rfl (.call rfl .nil))))))), ?_, rfl⟩
  all_goals
    intro c'
    cases c' <;> first | rfl | exact fun _ => rfl

/-- The question is deleted. -/
private theorem deleted_chain {s : State Visitor} (hidle : ∀ c, s.db.session c = .idle)
    (hs : s.db.committed =
      ⟨[spammer, moderator], [badPost], [], [firstQuestion, firstAnswer], [], []⟩) :
    ∃ s', Chain (sem binaryCollation) s (deleting.map (.call Visitor.deletes)) s' ∧
      s'.db.committed = ⟨[spammer, moderator], [badPost], [],
        [{ firstQuestion with deletedAt := some 30 }, firstAnswer], [], []⟩ := by
  have hview : s.db.view apply .deletes =
      ⟨[spammer, moderator], [badPost], [], [firstQuestion, firstAnswer], [], []⟩ := by
    rw [Db.view, hidle]
    exact hs
  have huser : Query.answers binaryCollation (s.db.view apply .deletes) (.user 5) [spammer] := by
    rw [hview]
    rfl
  have hquestion : Query.answers binaryCollation ((s.db.read .deletes).view apply .deletes)
      (.activeComment 10) [firstQuestion] := by
    rw [Db.view_read, hview]
    rfl
  have hfree : ((s.db.read .deletes).read .deletes).Free Write.conflict .deletes
      (.update (.comment 10 ⟨none, some 30⟩)) := by
    refine free_of_quiet fun c _ => ?_
    rw [Db.writes_read, Db.writes_read, hidle]
    rfl
  refine ⟨_, .call ⟨huser, rfl⟩ (.call ⟨hquestion, rfl⟩ (.call rfl (.call ⟨rfl, hfree, rfl⟩
    (.call rfl (.call rfl .nil))))), ?_⟩
  simp [Db.current, Db.read, Db.write, hidle, hs, Session.idle]
  rfl

private theorem asking_runs : (serve sampleDeployment (visitor .asks) (visit .asks)).Runs asking
    (.ret ()) := .cons (.cons (.cons (.cons (.cons (.cons .nil)))))

private theorem answering_runs : (serve sampleDeployment (visitor .answers)
    (visit .answers)).Runs answering (.ret ()) :=
  .cons (.cons (.cons (.cons (.cons (.cons (.cons .nil))))))

private theorem deleting_runs : (serve sampleDeployment (visitor .deletes)
    (visit .deletes)).Runs deleting (.ret ()) :=
  .cons (.cons (.cons (.cons (.cons (.cons .nil)))))

/-- The first two requests, one after the other. -/
private theorem answered_run : ∃ tr cfg,
    Run (sem binaryCollation) anyStep (start sampleDeployment visitor visit silentBoard) tr cfg ∧
      cfg.state.db.committed =
        ⟨[spammer, moderator], [badPost], [], [firstQuestion, firstAnswer], [], []⟩ := by
  obtain ⟨s, hchain, _, hs⟩ := answered_chain
  have hrun := Run.of_chain hchain
    (p := fun c => serve sampleDeployment (visitor c) (visit c))
    (q := fun c => if c = .deletes then serve sampleDeployment (visitor c) (visit c) else .ret ())
    ?_
  · exact ⟨_, _, hrun, hs⟩
  · intro c
    cases c with
    | asks => simpa [own_map_ne] using asking_runs
    | answers => simpa [own_map_ne] using answering_runs
    | deletes => simpa [own_map_ne] using Prog.Runs.nil

/-- One request after the other. -/
private theorem visits_run : ∃ tr cfg,
    Run (sem binaryCollation) anyStep (start sampleDeployment visitor visit silentBoard) tr cfg ∧
      (∀ c, (cfg.pool c).outcome = some (.ok ())) ∧ cfg.state.db.committed =
        ⟨[spammer, moderator], [badPost], [],
          [{ firstQuestion with deletedAt := some 30 }, firstAnswer], [], []⟩ := by
  obtain ⟨s, hchain, hidle, hs⟩ := answered_chain
  obtain ⟨s', hdelete, hs'⟩ := deleted_chain hidle hs
  have hrun := Run.of_chain (hchain.append hdelete)
    (p := fun c => serve sampleDeployment (visitor c) (visit c)) (q := fun _ => .ret ()) ?_
  · exact ⟨_, _, hrun, fun _ => rfl, hs'⟩
  · intro c
    cases c with
    | asks => simpa [own_map_ne] using asking_runs
    | answers => simpa [own_map_ne] using answering_runs
    | deletes => simpa [own_map_ne] using deleting_runs

/-- Three requests that succeed one after the other, and a live reply to a published post
that neither listing ever returns. -/
theorem reply_unreachable : ∃ tr cfg,
    Run (sem binaryCollation) anyStep (start sampleDeployment visitor visit silentBoard) tr cfg ∧
      (∀ c, (cfg.pool c).outcome = some (.ok ())) ∧
      Live cfg.state.db.committed firstAnswer ∧
      (∀ params, ¬ MayReturn binaryCollation cfg.state.db.committed (listComments 3 params)
        onPage firstAnswer) ∧
      (∀ id, firstAnswer.parentCommentId = some id →
        ¬ MayReturn binaryCollation cfg.state.db.committed (CommentService.listByParent id)
          (fun replies => replies) firstAnswer) ∧
      ¬ AllShown binaryCollation cfg.state.db.committed := by
  obtain ⟨tr, cfg, hrun, hdone, hs⟩ := visits_run
  have hlive : Live cfg.state.db.committed firstAnswer := by
    rw [hs]
    exact ⟨by decide, badPost, by decide, rfl⟩
  have hdeleted : ¬ cfg.state.db.committed.HasComment 10 := by
    rw [hs, Tables.HasComment]
    decide
  have hnever : (∀ params, ¬ MayReturn binaryCollation cfg.state.db.committed
      (listComments firstAnswer.postId params) onPage firstAnswer) ∧ _ :=
    never_shown rfl hdeleted
  refine ⟨tr, cfg, hrun, hdone, hlive, hnever.1, ?_, fun hall => ?_⟩
  · rintro id ⟨⟩
    exact hnever.2
  · have hunique : cfg.state.db.committed.posts.map Post.postId = [3] ∧
        cfg.state.db.committed.comments.map Comment.commentId = [10, 11] := by
      rw [hs]
      decide
    exact hdeleted ((shownOnce_iff (hunique.1 ▸ by decide) (hunique.2 ▸ by decide) hlive).mp
      (hall _ hlive) 10 rfl)

/-- Before the question is deleted the answer is shown once, and afterwards it is out of
sight. -/
theorem comment_shown_sample :
    (∃ tr cfg, Run (sem binaryCollation) anyStep
        (start sampleDeployment visitor visit silentBoard) tr cfg ∧
      Live cfg.state.db.committed firstAnswer ∧
      ShownOnce binaryCollation cfg.state.db.committed firstAnswer) ∧
    ∃ tr cfg, Run (sem binaryCollation) anyStep
        (start sampleDeployment visitor visit silentBoard) tr cfg ∧
      Live cfg.state.db.committed firstAnswer ∧
      (∀ params, ¬ MayReturn binaryCollation cfg.state.db.committed
        (listComments firstAnswer.postId params) onPage firstAnswer) ∧
      ¬ MayReturn binaryCollation cfg.state.db.committed
        (CommentService.listByParent 10) (fun replies => replies) firstAnswer := by
  have hreq : ∀ c, (visit c).onComment := by
    intro c
    cases c <;> trivial
  have hnum : Numbered silentBoard := ⟨by decide, by decide, by decide, by decide⟩
  obtain ⟨tr₁, cfg₁, hrun₁, hs₁⟩ := answered_run
  obtain ⟨tr₂, cfg₂, hrun₂, _, hs₂⟩ := visits_run
  have hlive₁ : Live cfg₁.state.db.committed firstAnswer := by
    rw [hs₁]
    exact ⟨by decide, badPost, by decide, rfl⟩
  have hlive₂ : Live cfg₂.state.db.committed firstAnswer := by
    rw [hs₂]
    exact ⟨by decide, badPost, by decide, rfl⟩
  refine ⟨⟨tr₁, cfg₁, hrun₁, hlive₁, (comment_shown (fun _ => rfl) hnum hreq hrun₁ hlive₁).1 ?_⟩,
    tr₂, cfg₂, hrun₂, hlive₂, (comment_shown (fun _ => rfl) hnum hreq hrun₂ hlive₂).2 10 rfl ?_⟩
  · rintro id ⟨⟩
    rw [hs₁, Tables.HasComment]
    decide
  · rw [hs₂, Tables.HasComment]
    decide

theorem allShown_silentBoard (coll : Collation) : AllShown coll silentBoard.db.committed := by
  rintro row ⟨hrow, _⟩
  cases hrow

/-- In that run something was committed that should not have been. -/
theorem all_shown_iff_sample : ∃ tr cfg,
    Run (sem binaryCollation) anyStep (start sampleDeployment visitor visit silentBoard) tr cfg ∧
      (∀ c, (cfg.pool c).outcome = some (.ok ())) ∧
      (Run (sem binaryCollation) (fun _ (cfg : Config Visitor Op Reply AppError Unit _) _ =>
              AllShown binaryCollation cfg.state.db.committed)
            (start sampleDeployment visitor visit silentBoard) tr cfg ∧
          AllShown binaryCollation cfg.state.db.committed ↔
        Run (sem binaryCollation)
          (AtCommits fun _ c s => Spares s.db.committed (s.db.session c).writes)
          (start sampleDeployment visitor visit silentBoard) tr cfg) := by
  obtain ⟨tr, cfg, hrun, hdone, _⟩ := visits_run
  refine ⟨tr, cfg, hrun, hdone, all_shown_iff (fun _ => rfl)
    ⟨by decide, by decide, by decide, by decide⟩ (fun row hrow => absurd hrow List.not_mem_nil)
    (allShown_silentBoard _) fun c => ?_⟩
  cases c <;> trivial

end Samples

end GreenCommunity.Board
