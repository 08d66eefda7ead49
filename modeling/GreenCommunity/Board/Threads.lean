import GreenCommunity.Board.Evolution
import GreenCommunity.Board.Sample

/-!
# Threads of comments

A reply names its parent by a number only, without a foreign key.  When it is inserted
its transaction has read the parent, a comment of the same post that is no reply itself.
No request changes the post or the parent of a comment and no comment is ever removed, so
what the transaction has read still stands at the commit, whatever has been deleted.
-/

namespace GreenCommunity.Board

open GreenCommunity.Base

/-- Where a comment stands: its number, its post and the comment that it answers. -/
def Comment.place (row : Comment) : Int × Int × Option Int :=
  (row.commentId, row.postId, row.parentCommentId)

/-- Every reply belongs to a comment of its post that is no reply. -/
def Tables.Threaded (t : Tables) : Prop :=
  ∀ row ∈ t.comments, ∀ id, row.parentCommentId = some id →
    ∃ parent ∈ t.comments, parent.commentId = id ∧ parent.postId = row.postId ∧
      parent.parentCommentId = none

/-- The comments are where they were. -/
def Placed (t t' : Tables) : Prop := Kept Comment.place t.comments t'.comments

theorem Placed.refl (t : Tables) : Placed t t := Kept.refl _

theorem Placed.trans {t t' t'' : Tables} (h : Placed t t') (h' : Placed t' t'') :
    Placed t t'' := Kept.trans h h'

/-! ## Writes -/

section Writes

variable {t : Tables} {row : Comment}

theorem placed_apply (t : Tables) (w : Write) : Placed t (apply t w) := by
  cases w with
  | insert new =>
      cases new with
      | comment => exact .append _ _
      | _ => exact .refl _
  | update change =>
      cases change with
      | comment => exact .updateAt fun _ => rfl
      | _ => exact .refl _

theorem placed_foldl (t : Tables) (ws : List Write) : Placed t (ws.foldl apply t) := by
  induction ws generalizing t with
  | nil => exact .refl t
  | cons w ws ih => exact (placed_apply t w).trans (ih _)

/-- A comment has been there before, or it is new. -/
theorem mem_comments_apply {w : Write} (h : row ∈ (apply t w).comments) :
    (∃ old ∈ t.comments, old.place = row.place) ∨ w = .insert (.comment row) := by
  cases w with
  | insert new =>
      cases new with
      | comment new =>
          rcases List.mem_append.mp h with hold | hnew
          · exact Or.inl ⟨row, hold, rfl⟩
          · rw [List.mem_singleton.mp hnew]
            exact Or.inr rfl
      | _ => exact Or.inl ⟨row, h, rfl⟩
  | update change =>
      cases change with
      | comment =>
          rcases mem_updateAt.mp h with ⟨old, hold, _, rfl⟩ | ⟨hold, _⟩
          · exact Or.inl ⟨old, hold, rfl⟩
          · exact Or.inl ⟨row, hold, rfl⟩
      | _ => exact Or.inl ⟨row, h, rfl⟩

theorem mem_comments_foldl {ws : List Write} (h : row ∈ (ws.foldl apply t).comments) :
    (∃ old ∈ t.comments, old.place = row.place) ∨
      ∃ new, .insert (.comment new) ∈ ws ∧ new.place = row.place := by
  induction ws generalizing t with
  | nil => exact Or.inl ⟨row, h, rfl⟩
  | cons w ws ih =>
      rcases ih h with ⟨old, hold, hplace⟩ | ⟨new, hnew, hplace⟩
      · rcases mem_comments_apply hold with ⟨older, holder, heq⟩ | rfl
        · exact Or.inl ⟨older, holder, heq.trans hplace⟩
        · exact Or.inr ⟨old, List.mem_cons_self, hplace⟩
      · exact Or.inr ⟨new, List.mem_cons_of_mem _ hnew, hplace⟩

end Writes

/-! ## Transactions -/

section Transaction

variable {coll : Infrastructure.Collation} {committed : Tables} {x : Summary}
  {session : Session Tables Write}

/-- The parent of a new comment stands where its transaction has read it. -/
theorem Explains.parent (h : Explains coll committed x session) {t : Tables}
    (hplaced : ∀ t', session.snapshot = some t' → Placed t' t) {row : Comment}
    (hw : .insert (.comment row) ∈ session.writes) {id : Int}
    (hid : row.parentCommentId = some id) :
    ∃ parent ∈ t.comments, parent.place = (id, row.postId, none) := by
  obtain ⟨_, _, _, _, _, hrow, hj⟩ := h.inserted hw
  obtain ⟨_, _, _, parentCommentId, rfl, rfl⟩ := row_eq_comment hrow
  obtain ⟨parent, hread, hpost, htop⟩ := hj.2 id hid
  obtain ⟨t', hsnap, hrows⟩ := h.reads _ _ hread
  have hmem : parent ∈ (activeComments t').filter fun row => row.commentId == id := by
    rw [← show [parent] = _ from hrows]
    exact List.mem_singleton.mpr rfl
  obtain ⟨hactive, hnumber⟩ := List.mem_filter.mp hmem
  obtain ⟨now, hnow, hplace⟩ := hplaced t' hsnap parent (List.mem_filter.mp hactive).1
  refine ⟨now, hnow, hplace.trans ?_⟩
  rw [Comment.place, hpost, htop, beq_iff_eq.mp hnumber]

/-- The writes of a transaction keep the threads, on tables where the comments are that
it has seen. -/
theorem Explains.threaded (h : Explains coll committed x session) {t : Tables}
    (hplaced : ∀ t', session.snapshot = some t' → Placed t' t) (ht : t.Threaded) :
    (session.writes.foldl apply t).Threaded := by
  have htop : ∀ {id postId}, (∃ parent ∈ t.comments, parent.place = (id, postId, none)) →
      ∃ parent ∈ (session.writes.foldl apply t).comments, parent.commentId = id ∧
        parent.postId = postId ∧ parent.parentCommentId = none := by
    rintro id postId ⟨parent, hparent, hplace⟩
    obtain ⟨after, hafter, hsame⟩ := placed_foldl t session.writes parent hparent
    have heq := hsame.trans hplace
    simp only [Comment.place, Prod.mk.injEq] at heq
    exact ⟨after, hafter, heq⟩
  intro row hrow id hid
  rcases mem_comments_foldl hrow with ⟨old, hold, hplace⟩ | ⟨new, hnew, hplace⟩
  · simp only [Comment.place, Prod.mk.injEq] at hplace
    obtain ⟨parent, hparent, hnumber, hpost, hnone⟩ := ht old hold id (hplace.2.2.trans hid)
    refine htop ⟨parent, hparent, ?_⟩
    rw [Comment.place, hnumber, hpost, hnone, hplace.2.1]
  · simp only [Comment.place, Prod.mk.injEq] at hplace
    obtain ⟨parent, hparent, heq⟩ := h.parent hplaced hnew (hplace.2.2.trans hid)
    exact htop ⟨parent, hparent, heq.trans (by rw [hplace.2.1])⟩

end Transaction

/-! ## Runs -/

section Runs

variable {C : Type} [DecidableEq C] {coll : Infrastructure.Collation} {dep : Deployment}
  {who : C → Int} {req : C → Request} {init : State C} {tr : List (Label C Op Reply)}
  {cfg : Config C Op Reply AppError Unit (State C)}

/-- What is committed and what is in the snapshots is threaded, and no comment moves. -/
theorem follows_threads (h0 : Idle init) (hinit : init.db.committed.Threaded)
    (h : Run (sem coll) anyStep (start dep who req init) tr cfg) :
    cfg.state.db.Follows Tables.Threaded Placed :=
  follows_run Placed.refl Placed.trans (fun t _ ht => ⟨ht, .refl t⟩) h0 hinit
    (fun _ _ c hrun hfollows =>
      ⟨(explained_run h0 hrun c).threaded (fun t ht => (hfollows.snapshot c t ht).2)
        hfollows.committed, placed_foldl _ _⟩) h

/-- In every state of a run of any requests the replies belong to comments of their post
that are no replies, in what is committed and in what each open transaction sees. -/
theorem threads_of_two (h0 : Idle init) (hinit : init.db.committed.Threaded)
    (h : Run (sem coll) anyStep (start dep who req init) tr cfg) :
    cfg.state.db.committed.Threaded ∧ ∀ c, (cfg.state.db.view apply c).Threaded := by
  have hfollows := follows_threads h0 hinit h
  refine ⟨hfollows.committed, fun c => ?_⟩
  have hsource := hfollows.source Placed.refl c
  refine (explained_run h0 h c).threaded (fun t ht => ?_) hsource.1
  rw [ht]
  exact .refl t

end Runs

/-! ## A reply to a comment that is deleted meanwhile -/

section Samples

open Infrastructure (binaryCollation)

def question : Comment := ⟨7, "why", 3, 5, none, 0, none⟩

/-- The board with one comment. -/
def questioned : State Bool :=
  { board with
    db := { board.db with committed := { board.db.committed with comments := [question] } } }

def reply : CommentCreate where
  commentContent := "yes"
  parentCommentId := some 7
  content_fits := ⟨by decide, by decide⟩

/-- The author deletes the comment while the moderator answers it. -/
def deleteAndReply : Bool → Request
  | false => .deleteComment 7
  | true => .createComment 3 reply

def replier : Bool → Int
  | false => 5
  | true => 9

def commentDeletion : List BoardEvent :=
  [⟨.select (.user 5), .ok [spammer]⟩, ⟨.select (.activeComment 7), .ok [question]⟩,
    ⟨.now, .ok (20000000 : Nat)⟩, ⟨.update (.comment 7 ⟨none, some 20⟩), .ok ()⟩,
    ⟨.commit, .ok ()⟩, ⟨.close, .ok ()⟩]

/-- The checks of the reply. -/
def replyFront : List BoardEvent :=
  [⟨.select (.user 9), .ok [moderator]⟩, ⟨.select (.activePost 3), .ok [badPost]⟩,
    ⟨.select (.activeComment 7), .ok [question]⟩]

def replyBack : List BoardEvent :=
  [⟨.insert (.comment "yes" 3 9 (some 7)), .ok (10 : Int)⟩,
    ⟨.select (.anyComment 10), .ok [⟨10, "yes", 3, 9, some 7, 21, none⟩]⟩,
    ⟨.commit, .ok ()⟩, ⟨.close, .ok ()⟩]

/-- The reply goes to a deleted comment, which is still there. -/
theorem threads_of_two_sample : ∃ tr cfg,
    Run (sem binaryCollation) anyStep
        (start sampleDeployment replier deleteAndReply questioned) tr cfg ∧
      (∀ c, (cfg.pool c).outcome = some (.ok ())) ∧
      cfg.state.db.committed.comments =
        [{ question with deletedAt := some 20 }, ⟨10, "yes", 3, 9, some 7, 21, none⟩] ∧
      cfg.state.db.committed.Threaded ∧ ∀ c, (cfg.state.db.view apply c).Threaded := by
  have hchain : ∃ s, Chain (sem binaryCollation) questioned
      (replyFront.map (.call true) ++ commentDeletion.map (.call false) ++
        replyBack.map (.call true)) s ∧
      s.db.committed.comments =
        [{ question with deletedAt := some 20 }, ⟨10, "yes", 3, 9, some 7, 21, none⟩] := by
    refine ⟨_, .append (.append
      (.call ⟨rfl, rfl⟩ (.call ⟨rfl, rfl⟩ (.call ⟨rfl, rfl⟩ .nil)))
      (.call ⟨rfl, rfl⟩ (.call ⟨rfl, rfl⟩ (.call rfl
        (.call ⟨rfl, free_of_other ?_, rfl⟩ (.call rfl (.call rfl .nil)))))))
      (.call ⟨rfl, 21, _, rfl, free_of_other ?_, rfl⟩ (.call ⟨rfl, rfl⟩
        (.call rfl (.call rfl .nil)))), rfl⟩
    · decide
    · decide
  obtain ⟨s, hchain, hs⟩ := hchain
  have hrun := Run.of_chain hchain
    (p := fun c => serve sampleDeployment (replier c) (deleteAndReply c))
    (q := fun _ => .ret ()) ?_
  · refine ⟨_, _, hrun, fun _ => rfl, hs,
      threads_of_two (fun _ => rfl) (fun row hrow id hid => ?_) hrun⟩
    have hmem : row ∈ [question] := hrow
    rw [List.mem_singleton.mp hmem] at hid
    cases hid
  · intro c
    cases c with
    | false =>
        simp only [own_append, own_map_self, own_map_ne Bool.false_ne_true.symm,
          List.append_nil, List.nil_append]
        exact .cons (.cons (.cons (.cons (.cons (.cons .nil)))))
    | true =>
        simp only [own_append, own_map_self, own_map_ne Bool.false_ne_true,
          List.append_nil]
        exact .cons (.cons (.cons (.cons (.cons (.cons (.cons .nil))))))

end Samples

end GreenCommunity.Board
