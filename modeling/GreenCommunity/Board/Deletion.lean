import GreenCommunity.Board.Evolution
import GreenCommunity.Board.Sample

/-!
# Deleted posts

A post is deleted by setting its status and the time of deletion together.  A post that
is hidden was published when its status was read, and `already deleted` is checked on
that reading: the `UPDATE` names the post by its number alone, and takes the status of a
post that has been deleted in between.
-/

namespace GreenCommunity.Board

open GreenCommunity.Base

/-- The status is DELETED exactly when the time of deletion is set. -/
def DeletedAgree (t : Tables) : Prop :=
  ∀ postId row, t.postAt postId = some row →
    (row.postStatus = .deleted ↔ row.deletedAt.isSome = true)

/-- The tables `t` have become `t'`, and no post has left the status DELETED or come
back from HIDDEN. -/
structure KeepsDeleted (t t' : Tables) : Prop where
  agree : DeletedAgree t'
  final : ∀ postId row, t.postAt postId = some row → ∃ row', t'.postAt postId = some row' ∧
    (row.postStatus = .deleted → row'.postStatus = .deleted) ∧
      (row.postStatus = .hidden → row'.postStatus ≠ .published)

/-- The transaction of `c` hides no post that is deleted by now. -/
def HidesLive {C : Type} (c : C) (s : State C) : Prop :=
  ∀ postId row, .update (.post postId hideSet) ∈ (s.db.session c).writes →
    s.db.committed.postAt postId = some row → row.postStatus ≠ .deleted

section Commit

variable {coll : Infrastructure.Collation} {t : Tables} {x : Summary}
  {session : Session Tables Write}

/-- No update makes a post published. -/
private theorem onPost_not_published (h : Explains coll t x session) {w : Write}
    (hw : w ∈ session.writes) {row : Post} (hrow : row.postStatus ≠ .published) :
    (w.onPost row).postStatus ≠ .published := by
  by_cases hset : w.setsPost = false
  · obtain ⟨views, hviews⟩ := onPost_quiet hset row
    rw [hviews]
    exact hrow
  · cases w with
    | insert => exact absurd rfl hset
    | update change =>
        cases change with
        | post postId set =>
            simp only [Write.onPost]
            split
            · rcases h.post hw with rfl | ⟨⟨hstatus, _⟩ | ⟨now, rfl⟩, _⟩
              · simp [Post.set, hideSet]
              · rwa [Post.set, hstatus]
              · simp [Post.set]
            · exact hrow
        | _ => exact absurd rfl hset

/-- An update by the owner leaves the status and the time of deletion alone, or sets
both; and so does every write that is no hiding of the post. -/
private theorem onPost_owner (h : Explains coll t x session) {postId : Int}
    (hhide : .update (.post postId hideSet) ∉ session.writes) {w : Write}
    (hw : w ∈ session.writes) {row : Post} (hid : row.postId = postId) :
    ((w.onPost row).postStatus = row.postStatus ∧ (w.onPost row).deletedAt = row.deletedAt) ∨
      (w.onPost row).postStatus = .deleted ∧ (w.onPost row).deletedAt.isSome = true := by
  by_cases hset : w.setsPost = false
  · obtain ⟨views, hviews⟩ := onPost_quiet hset row
    rw [hviews]
    exact Or.inl ⟨rfl, rfl⟩
  · cases w with
    | insert => exact absurd rfl hset
    | update change =>
        cases change with
        | post id set =>
            simp only [Write.onPost]
            split
            next hrow =>
              rcases h.post hw with rfl | ⟨⟨hstatus, hdeleted⟩ | ⟨now, rfl⟩, _⟩
              · exact absurd (hid.symm.trans hrow ▸ hw) hhide
              · refine Or.inl ⟨?_, ?_⟩
                · rw [Post.set, hstatus]; rfl
                · rw [Post.set, hdeleted]; rfl
              · exact Or.inr ⟨rfl, rfl⟩
            next => exact Or.inl ⟨rfl, rfl⟩
        | _ => exact absurd rfl hset

/-- What a commit does to the deleted posts. -/
theorem keepsDeleted_iff {C : Type} {c : C} {s : State C}
    (h : Explains coll s.db.committed x (s.db.session c)) (hagree : DeletedAgree s.db.committed) :
    KeepsDeleted s.db.committed (s.db.current apply c) ↔ HidesLive c s := by
  constructor
  · intro hkeeps postId row hhide hrow hdeleted
    obtain ⟨row', hrow', hfinal, _⟩ := hkeeps.final postId row hrow
    obtain ⟨hidden, hhidden, hstatus⟩ := h.hidden_after hhide hrow
    cases hrow'.symm.trans hhidden
    rw [hfinal hdeleted] at hstatus
    cases hstatus
  · intro hlive
    refine ⟨fun postId row hrow => ?_, fun postId row hrow => ⟨_, postAt_foldl hrow, ?_, ?_⟩⟩
    · by_cases hhide : .update (.post postId hideSet) ∈ (s.db.session c).writes
      · -- such a post is not deleted before, in between or after
        have hkept : row.postStatus ≠ .deleted ∧ row.deletedAt = none := by
          refine postAt_foldl_inv (P := fun row =>
            row.postStatus ≠ .deleted ∧ row.deletedAt = none) (fun old hold => ?_)
            (fun new hnew => ?_) (fun w hw old hid hold => ?_) hrow
          · have hstatus := hlive postId old hhide hold
            refine ⟨hstatus, Option.not_isSome_iff_eq_none.mp fun hsome => hstatus ?_⟩
            exact (hagree postId old hold).mpr hsome
          · obtain ⟨hstatus, hdeleted⟩ := h.inserted_post hnew
            exact ⟨by simp [hstatus], hdeleted⟩
          · rcases h.only_post hhide w hw with rfl | hset
            · rw [Write.onPost, if_pos hid]
              exact ⟨by simp [Post.set, hideSet], hold.2⟩
            · obtain ⟨views, hviews⟩ := onPost_quiet hset old
              rw [hviews]
              exact hold
        simp [hkept]
      · refine postAt_foldl_inv
          (P := fun row => row.postStatus = .deleted ↔ row.deletedAt.isSome = true)
          (hagree postId) (fun new hnew => ?_) (fun w hw old hid hold => ?_) hrow
        · obtain ⟨hstatus, hdeleted⟩ := h.inserted_post hnew
          simp [hstatus, hdeleted]
        · rcases onPost_owner h hhide hw hid with ⟨hstatus, hdeleted⟩ | ⟨hstatus, hdeleted⟩
          · rw [hstatus, hdeleted]
            exact hold
          · simp [hstatus, hdeleted]
    · intro hdeleted
      have hhide : .update (.post postId hideSet) ∉ (s.db.session c).writes :=
        fun hhide => hlive postId row hhide hrow hdeleted
      refine foldl_onPost (P := fun row => row.postStatus = .deleted)
        (fun w hw old hid hold => ?_) (rowAt_eq_some hrow).2 hdeleted
      rcases onPost_owner h hhide hw hid with ⟨hstatus, _⟩ | ⟨hstatus, _⟩
      · exact hstatus.trans hold
      · exact hstatus
    · intro hhidden
      refine foldl_keeps (f := Write.onPost) (P := fun row => row.postStatus ≠ .published)
        (fun w hw row => onPost_not_published h hw) ?_
      simp [hhidden]

end Commit

section Runs

variable {C : Type} [DecidableEq C] {coll : Infrastructure.Collation} {dep : Deployment}
  {who : C → Int} {req : C → Request} {init : State C} {tr : List (Label C Op Reply)}
  {cfg : Config C Op Reply AppError Unit (State C)}

/-- In a run of any requests a deleted post stays deleted, DELETED goes with the time of
deletion, and a hidden post does not come back, exactly when no request commits the
hiding of a post that is deleted by then. -/
theorem deleted_stays_iff (h0 : Idle init) (hagree : DeletedAgree init.db.committed) :
    Run (sem coll) (AtCommits fun _ c s =>
          KeepsDeleted s.db.committed (s.db.current apply c))
        (start dep who req init) tr cfg ↔
      Run (sem coll) (AtCommits fun _ c s => HidesLive c s) (start dep who req init) tr cfg :=
  commits_iff (I := DeletedAgree) (fun _ _ hI => hI) hagree fun _ _ c hrun hI =>
    ⟨keepsDeleted_iff (explained_run h0 hrun c) hI, fun hkeeps => hkeeps.agree⟩

end Runs

/-! ## A deletion during the hiding -/

section Samples

open Infrastructure (binaryCollation)

/-- The author deletes the post while the moderator bans the author. -/
def deleteAndBan : Bool → Request
  | false => .deletePost 3
  | true => .processReport 1 ban

def deleter : Bool → Int
  | false => 5
  | true => 9

def deletion : List BoardEvent :=
  [⟨.select (.user 5), .ok [spammer]⟩, ⟨.select (.activePost 3), .ok [badPost]⟩,
    ⟨.now, .ok (20000000 : Nat)⟩,
    ⟨.update (.post 3 ⟨none, none, some .deleted, some 20⟩), .ok ()⟩, ⟨.commit, .ok ()⟩,
    ⟨.close, .ok ()⟩]

/-- The decision up to the reading of the post that is to be hidden. -/
def banFront : List BoardEvent :=
  [⟨.select (.user 9), .ok [moderator]⟩, ⟨.select (.report 1), .ok [complaint]⟩,
    ⟨.select (.anyPost 3), .ok [badPost]⟩, ⟨.now, .ok (20000000 : Nat)⟩,
    ⟨.select (.pendingOf (.post 3)), .ok [complaint]⟩,
    ⟨.update (.report 1 ⟨.accepted, some (some .banned), some 9, 20⟩), .ok ()⟩,
    ⟨.select (.anyPost 3), .ok [badPost]⟩]

def banBack : List BoardEvent :=
  [⟨.update (.post 3 hideSet), .ok ()⟩,
    ⟨.insert (.userSanction 5 .banned "SPAM" 1 none), .ok (10 : Int)⟩,
    ⟨.select (.userSanction 10), .ok [⟨10, 5, .banned, "SPAM", 1, none⟩]⟩,
    ⟨.commit, .ok ()⟩, ⟨.close, .ok ()⟩]

/-- The post is deleted between the reading of its status and the hiding. -/
theorem hiding_run : ∃ tr cfg, Run (sem binaryCollation) anyStep
    (start sampleDeployment deleter deleteAndBan board) tr cfg ∧
      (∀ c, (cfg.pool c).outcome = some (.ok ())) ∧
      cfg.state.db.committed.posts =
        [{ badPost with postStatus := .hidden, deletedAt := some 20 }] := by
  have hchain : ∃ s, Chain (sem binaryCollation) board
      (banFront.map (.call true) ++ deletion.map (.call false) ++ banBack.map (.call true)) s ∧
      s.db.committed.posts = [{ badPost with postStatus := .hidden, deletedAt := some 20 }] := by
    refine ⟨_, .append (.append
      (.call ⟨rfl, rfl⟩ (.call ⟨rfl, rfl⟩ (.call ⟨rfl, rfl⟩ (.call rfl (.call ⟨.refl _, rfl⟩
        (.call ⟨rfl, free_of_other ?_, rfl⟩ (.call ⟨rfl, rfl⟩ .nil)))))))
      (.call ⟨rfl, rfl⟩ (.call ⟨rfl, rfl⟩ (.call rfl
        (.call ⟨rfl, free_of_other ?_, rfl⟩ (.call rfl (.call rfl .nil)))))))
      (.call ⟨rfl, free_of_other ?_, rfl⟩ (.call ⟨rfl, 0, _, rfl, free_of_other ?_, rfl⟩
        (.call ⟨rfl, rfl⟩ (.call rfl (.call rfl .nil))))), rfl⟩
    · decide
    · decide
    · decide
    · decide
  obtain ⟨s, hchain, hs⟩ := hchain
  have hrun := Run.of_chain hchain
    (p := fun c => serve sampleDeployment (deleter c) (deleteAndBan c))
    (q := fun _ => .ret ()) ?_
  · exact ⟨_, _, hrun, fun _ => rfl, hs⟩
  · intro c
    cases c with
    | false =>
        simp only [own_append, own_map_self, own_map_ne Bool.false_ne_true.symm,
          List.append_nil, List.nil_append]
        exact .cons (.cons (.cons (.cons (.cons (.cons .nil)))))
    | true =>
        simp only [own_append, own_map_self, own_map_ne Bool.false_ne_true,
          List.append_nil]
        exact .cons (.cons (.cons (.cons (.cons (.cons (.cons (.cons (.cons (.cons (.cons
          (.cons .nil)))))))))))

/-- Both requests succeed, and the deleted post is hidden. -/
theorem deleted_post_hidden :
    ¬ ∀ tr cfg, Run (sem binaryCollation) anyStep
        (start sampleDeployment deleter deleteAndBan board) tr cfg →
      (∀ c, (cfg.pool c).outcome = some (.ok ())) → DeletedAgree cfg.state.db.committed := by
  intro h
  obtain ⟨tr, cfg, hrun, hdone, hs⟩ := hiding_run
  have hrow : cfg.state.db.committed.postAt 3 =
      some { badPost with postStatus := .hidden, deletedAt := some 20 } := by
    rw [Tables.postAt, hs]
    rfl
  exact absurd ((h tr cfg hrun hdone 3 _ hrow).mpr rfl) (by decide)

theorem deletedAgree_board : DeletedAgree board.db.committed := by
  intro postId row hrow
  have hmem : row ∈ [badPost] := (rowAt_eq_some hrow).1
  rw [List.mem_singleton.mp hmem]
  decide

/-- The run of the deletion and the ban, on both sides. -/
theorem deleted_stays_iff_sample : ∃ tr cfg,
    Run (sem binaryCollation) anyStep
        (start sampleDeployment deleter deleteAndBan board) tr cfg ∧
      (∀ c, (cfg.pool c).outcome = some (.ok ())) ∧
      (Run (sem binaryCollation) (AtCommits fun _ c s =>
            KeepsDeleted s.db.committed (s.db.current apply c))
          (start sampleDeployment deleter deleteAndBan board) tr cfg ↔
        Run (sem binaryCollation) (AtCommits fun _ c s => HidesLive c s)
          (start sampleDeployment deleter deleteAndBan board) tr cfg) := by
  obtain ⟨tr, cfg, hrun, hdone, _⟩ := hiding_run
  exact ⟨tr, cfg, hrun, hdone, deleted_stays_iff idle_board deletedAgree_board⟩

end Samples

end GreenCommunity.Board
