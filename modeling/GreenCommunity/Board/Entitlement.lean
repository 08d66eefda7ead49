import GreenCommunity.Board.Authors
import GreenCommunity.Board.Sample

/-!
# Who changes content

Posts are edited and deleted by their authors and by administrators, comments by their
authors, and images are added by the authors of the posts.  The services check this on
every such path but one: nothing is asked of the user who processes a report, and a
decision may hide the post of somebody else.
-/

namespace GreenCommunity.Board

open GreenCommunity.Base

/-- The title, the content, the status and the time of deletion. -/
def Post.Same (row row' : Post) : Prop :=
  row'.postTitle = row.postTitle ∧ row'.postContent = row.postContent ∧
    row'.postStatus = row.postStatus ∧ row'.deletedAt = row.deletedAt

def Comment.Same (row row' : Comment) : Prop :=
  row'.commentContent = row.commentContent ∧ row'.deletedAt = row.deletedAt

section Definitions

variable {C : Type} [DecidableEq C] (who : C → Int) (tr : List (Label C Op Reply)) (c : C)

/-- The request of `c` is made by the author, or by an ADMIN. -/
def Entitled (authorId : Int) : Prop :=
  authorId = who c ∨ ∃ user, Performs who tr c user ∧ user.userRole = .admin

/-- The request of `c` turns the tables `t` into `t'`, and is entitled to what changes. -/
structure EntitledChanges (t t' : Tables) : Prop where
  posts : ∀ postId row, t.postAt postId = some row → ∃ row', t'.postAt postId = some row' ∧
    (row.Same row' ∨ Entitled who tr c row.authorId)
  comments : ∀ commentId row, t.commentAt commentId = some row →
    ∃ row', t'.commentAt commentId = some row' ∧ (row.Same row' ∨ row.authorId = who c)
  images : ∃ new, t'.postImages = t.postImages ++ new ∧
    ∀ image ∈ new, ∃ post, t.postAt image.postId = some post ∧ post.authorId = who c

/-- A post that the transaction of `c` hides, and that is not hidden yet, is the
user's own or the user is an ADMIN. -/
def HidesEntitled (s : State C) : Prop :=
  ∀ postId row, .update (.post postId hideSet) ∈ (s.db.session c).writes →
    s.db.committed.postAt postId = some row → row.postStatus ≠ .hidden →
      Entitled who tr c row.authorId

end Definitions

/-! ## Images -/

def Write.image : Write → Option PostImage
  | .insert (.postImage row) => some row
  | _ => none

theorem image_eq_some {w : Write} {row : PostImage} :
    w.image = some row ↔ w = .insert (.postImage row) := by
  cases w with
  | insert new => cases new <;> simp [Write.image]
  | update => simp [Write.image]

theorem postImages_apply (t : Tables) (w : Write) :
    (apply t w).postImages = t.postImages ++ w.image.toList := by
  cases w with
  | insert new =>
      cases new with
      | postImage => rfl
      | _ => exact (List.append_nil _).symm
  | update change => cases change <;> exact (List.append_nil _).symm

/-! ## One commit -/

section Commit

variable {C : Type} [DecidableEq C] {coll : Infrastructure.Collation} {who : C → Int}
  {tr : List (Label C Op Reply)} {c : C} {s : State C} {x : Summary}
  {owner : Table → Int → Int}

theorem Post.Same.refl (row : Post) : row.Same row := ⟨rfl, rfl, rfl, rfl⟩

/-- A write that is no update of the post leaves it as it is. -/
private theorem onPost_same {w : Write} {postId : Int} {row old : Post}
    (hw : ∀ set, w ≠ .update (.post postId set)) (hid : row.postId = postId)
    (hold : old.Same row) : old.Same (w.onPost row) := by
  by_cases hset : w.setsPost = false
  · obtain ⟨views, hviews⟩ := onPost_quiet hset row
    rw [hviews]
    exact hold
  · cases w with
    | insert => exact absurd rfl hset
    | update change =>
        cases change with
        | post id set =>
            rw [Write.onPost, if_neg fun heq => hw set (by rw [← hid, heq])]
            exact hold
        | _ => exact absurd rfl hset

omit [DecidableEq C] in
/-- The author of a post that was read is the author of the one that is committed. -/
private theorem author_of_read (hexp : Explains coll s.db.committed x (s.db.session c))
    (hown : AllOwned owner s.nextId s.db) {id : Int} {post : Post}
    (hread : x.Read (.activePost id) [post]) :
    post.postId = id ∧ (∃ row, s.db.committed.postAt post.postId = some row) ∧
      ∀ row ∈ s.db.committed.posts, row.postId = post.postId →
        row.authorId = post.authorId := by
  obtain ⟨t₀, hsnap, hrows⟩ := hexp.reads _ _ hread
  have hin : post ∈ (activePosts t₀).filter fun row => row.postId == id := by
    rw [← show [post] = _ from hrows]
    exact List.mem_singleton.mpr rfl
  have hmem : post ∈ t₀.posts := (List.mem_filter.mp (List.mem_filter.mp hin).1).1
  obtain ⟨row₀, hrow₀, hid⟩ := (hexp.before t₀ hsnap).posts post hmem
  refine ⟨by simpa using (List.mem_filter.mp hin).2, ?_, fun row hrow heq => ?_⟩
  · rw [← hid]
    exact rowAt_of_mem hrow₀
  · rw [(hown.committed.posts row hrow).2, ((hown.snapshot c t₀ hsnap).posts post hmem).2, heq]

omit [DecidableEq C] in
/-- The same of a comment. -/
private theorem author_of_comment (hexp : Explains coll s.db.committed x (s.db.session c))
    (hown : AllOwned owner s.nextId s.db) {id : Int} {comment : Comment}
    (hread : x.Read (.activeComment id) [comment]) :
    ∀ row ∈ s.db.committed.comments, row.commentId = comment.commentId →
      row.authorId = comment.authorId := by
  obtain ⟨t₀, hsnap, hrows⟩ := hexp.reads _ _ hread
  have hin : comment ∈ (activeComments t₀).filter fun row => row.commentId == id := by
    rw [← show [comment] = _ from hrows]
    exact List.mem_singleton.mpr rfl
  have hmem : comment ∈ t₀.comments := (List.mem_filter.mp (List.mem_filter.mp hin).1).1
  intro row hrow heq
  rw [(hown.committed.comments row hrow).2,
    ((hown.snapshot c t₀ hsnap).comments comment hmem).2, heq]

/-- The user of the summary is who makes the request. -/
private def Serves (who : C → Int) (tr : List (Label C Op Reply)) (c : C) (x : Summary) :
    Prop :=
  ∀ user, x.user = some user → Performs who tr c user ∧ user.userId = who c

private theorem post_entitled (hexp : Explains coll s.db.committed x (s.db.session c))
    (hown : AllOwned owner s.nextId s.db) (huser : Serves who tr c x)
    (hhides : HidesEntitled who tr c s) {postId : Int} {row : Post}
    (hrow : s.db.committed.postAt postId = some row) :
    row.Same ((s.db.session c).writes.foldl (fun row w => w.onPost row) row) ∨
      Entitled who tr c row.authorId := by
  obtain ⟨hmem, hid⟩ := rowAt_eq_some hrow
  by_cases hset : ∃ set, .update (.post postId set) ∈ (s.db.session c).writes
  · obtain ⟨set, hset⟩ := hset
    rcases hexp.post hset with rfl | ⟨_, user, id, post, hx, hread, rfl, hmanages⟩
    · by_cases hhidden : row.postStatus = .hidden
      · -- hiding a hidden post changes nothing
        refine Or.inl (foldl_onPost (P := row.Same) (fun w hw old hold hsame => ?_) hid
          (.refl row))
        rcases hexp.only_post hset w hw with rfl | hquiet
        · rw [Write.onPost, if_pos hold]
          exact ⟨hsame.1, hsame.2.1, hhidden.symm, hsame.2.2.2⟩
        · obtain ⟨views, hviews⟩ := onPost_quiet hquiet old
          rw [hviews]
          exact hsame
      · exact Or.inr (hhides postId row hset hrow hhidden)
    · obtain ⟨_, _, hauthor⟩ := author_of_read hexp hown hread
      obtain ⟨hperforms, huserId⟩ := huser user hx
      refine Or.inr (hmanages.imp (fun hpost => ?_) fun hadmin => ⟨user, hperforms, hadmin⟩)
      rw [hauthor row hmem hid, hpost, huserId]
  · exact Or.inl (foldl_onPost (P := row.Same)
      (fun w hw old hold hsame => onPost_same (fun set heq => hset ⟨set, heq ▸ hw⟩) hold hsame)
      hid (.refl row))

private theorem comment_entitled (hexp : Explains coll s.db.committed x (s.db.session c))
    (hown : AllOwned owner s.nextId s.db) (huser : Serves who tr c x) {commentId : Int}
    {row : Comment} (hrow : s.db.committed.commentAt commentId = some row) :
    row.Same ((s.db.session c).writes.foldl (fun row w => w.onComment row) row) ∨
      row.authorId = who c := by
  obtain ⟨hmem, hid⟩ := rowAt_eq_some hrow
  by_cases hset : ∃ set, .update (.comment commentId set) ∈ (s.db.session c).writes
  · obtain ⟨set, hset⟩ := hset
    obtain ⟨_, _, user, id, comment, hx, hread, rfl, hauthor⟩ := hexp.updated hset
    rw [author_of_comment hexp hown hread row hmem hid, hauthor, (huser user hx).2]
    exact Or.inr rfl
  · have hsame : (s.db.session c).writes.foldl (fun row w => w.onComment row) row = row := by
      refine foldl_keeps (f := Write.onComment) (P := fun old => old = row)
        (fun w hw old heq => ?_) rfl
      subst heq
      cases w with
      | insert => rfl
      | update change =>
          cases change with
          | comment id set =>
              rw [Write.onComment, if_neg]
              rintro rfl
              exact hset ⟨set, hid ▸ hw⟩
          | _ => rfl
    rw [hsame]
    exact Or.inl ⟨rfl, rfl⟩

private theorem image_entitled (hexp : Explains coll s.db.committed x (s.db.session c))
    (hown : AllOwned owner s.nextId s.db) (huser : Serves who tr c x) {image : PostImage}
    (hin : .insert (.postImage image) ∈ (s.db.session c).writes) :
    ∃ post, s.db.committed.postAt image.postId = some post ∧ post.authorId = who c := by
  obtain ⟨_, new, n, createdAt, _, hnew, hj⟩ := hexp.inserted hin
  obtain ⟨postId, _, _, _, rfl, rfl⟩ := row_eq_postImage hnew
  obtain ⟨user, post, hx, hread, hpost⟩ := hj
  obtain ⟨rfl, ⟨row, hrow⟩, hauthor⟩ := author_of_read hexp hown hread
  obtain ⟨hmem, hid⟩ := rowAt_eq_some hrow
  refine ⟨row, hrow, ?_⟩
  rw [hauthor row hmem hid, hpost, (huser user hx).2]

/-- What a commit changes, and who commits. -/
private theorem entitledChanges_iff (hexp : Explains coll s.db.committed x (s.db.session c))
    (hown : AllOwned owner s.nextId s.db) (huser : Serves who tr c x) :
    EntitledChanges who tr c s.db.committed (s.db.current apply c) ↔
      HidesEntitled who tr c s := by
  constructor
  · intro hchanges postId row hhide hrow hstatus
    obtain ⟨row', hrow', hsame | hentitled⟩ := hchanges.posts postId row hrow
    · obtain ⟨hidden, hhidden, hafter⟩ := hexp.hidden_after hhide hrow
      cases hrow'.symm.trans hhidden
      exact absurd (hsame.2.2.1.symm.trans hafter) hstatus
    · exact hentitled
  · intro hhides
    refine ⟨fun postId row hrow => ⟨_, postAt_foldl hrow, ?_⟩,
      fun commentId row hrow => ⟨_, commentAt_foldl hrow, ?_⟩,
      _, foldl_inserts postImages_apply, fun image hin => ?_⟩
    · exact post_entitled hexp hown huser hhides hrow
    · exact comment_entitled hexp hown huser hrow
    · obtain ⟨w, hw, himage⟩ := List.mem_filterMap.mp hin
      exact image_entitled hexp hown huser (image_eq_some.mp himage ▸ hw)

end Commit

section Runs

variable {C : Type} [DecidableEq C] {coll : Infrastructure.Collation} {dep : Deployment}
  {who : C → Int} {req : C → Request} {init : State C} {tr : List (Label C Op Reply)}
  {cfg : Config C Op Reply AppError Unit (State C)}

/-- In a run of any requests everything that changes is changed by a user who is
entitled to it, exactly when no decision on a report hides the post of somebody else
without an ADMIN. -/
theorem entitled_changes_iff (h0 : Idle init) (hnum : Numbered init) :
    Run (sem coll) (AtCommits fun tr c s =>
          EntitledChanges who tr c s.db.committed (s.db.current apply c))
        (start dep who req init) tr cfg ↔
      Run (sem coll) (AtCommits fun tr c s => HidesEntitled who tr c s)
        (start dep who req init) tr cfg := by
  refine commits_iff (I := fun _ => True) (fun _ _ _ => trivial) trivial
    fun tr cfg c hrun _ => ⟨?_, fun _ => trivial⟩
  obtain ⟨owner, hown⟩ := owned_run h0 hnum hrun
  refine entitledChanges_iff (explained_run h0 hrun c) hown fun user hx => ?_
  have hperforms := performs_of_user hrun hx
  exact ⟨hperforms, userId_of_performs hrun hperforms⟩

end Runs

/-! ## A decision by anybody -/

section Samples

open Infrastructure (binaryCollation)

/-- Neither the author nor an ADMIN. -/
def bystander : User := ⟨7, "bystander", .user, true⟩

/-- The board with one request. -/
def quietBoard : State Unit where
  db := { board.db with
    committed := { board.db.committed with users := [spammer, bystander] }
    session := fun _ => .idle }
  nextId := board.nextId
  objects := board.objects
  fileIds := board.fileIds

def bystanderBans : List BoardEvent :=
  [⟨.select (.user 7), .ok [bystander]⟩, ⟨.select (.report 1), .ok [complaint]⟩,
    ⟨.select (.anyPost 3), .ok [badPost]⟩, ⟨.now, .ok (20000000 : Nat)⟩,
    ⟨.select (.pendingOf (.post 3)), .ok [complaint]⟩,
    ⟨.update (.report 1 ⟨.accepted, some (some .banned), some 7, 20⟩), .ok ()⟩,
    ⟨.select (.anyPost 3), .ok [badPost]⟩, ⟨.update (.post 3 hideSet), .ok ()⟩,
    ⟨.insert (.userSanction 5 .banned "SPAM" 1 none), .ok (10 : Int)⟩,
    ⟨.select (.userSanction 10), .ok [⟨10, 5, .banned, "SPAM", 1, none⟩]⟩,
    ⟨.commit, .ok ()⟩, ⟨.close, .ok ()⟩]

private theorem bystander_run : ∃ tr cfg, Run (sem binaryCollation) anyStep
    (start sampleDeployment (fun _ => 7) (fun _ => .processReport 1 ban) quietBoard) tr cfg ∧
      (cfg.pool ()).outcome = some (.ok ()) ∧ own () tr = bystanderBans ∧
      cfg.state.db.committed.posts = [{ badPost with postStatus := .hidden }] := by
  have hfree : ∀ (db : Db Unit Tables Write) (w : Write), db.Free Write.conflict () w :=
    fun _ _ c' hc => absurd rfl hc
  have hchain : ∃ s, Chain (sem binaryCollation) quietBoard (bystanderBans.map (.call ())) s ∧
      s.db.committed.posts = [{ badPost with postStatus := .hidden }] :=
    ⟨_, .call ⟨rfl, rfl⟩ (.call ⟨rfl, rfl⟩ (.call ⟨rfl, rfl⟩ (.call rfl
      (.call ⟨.refl _, rfl⟩ (.call ⟨rfl, hfree _ _, rfl⟩ (.call ⟨rfl, rfl⟩
        (.call ⟨rfl, hfree _ _, rfl⟩ (.call ⟨rfl, 0, _, rfl, hfree _ _, rfl⟩
          (.call ⟨rfl, rfl⟩ (.call rfl (.call rfl .nil))))))))))), rfl⟩
  obtain ⟨s, hchain, hs⟩ := hchain
  have hrun := Run.of_chain hchain
    (p := fun _ => serve sampleDeployment 7 (.processReport 1 ban)) (q := fun _ => .ret ()) ?_
  · exact ⟨_, _, hrun, rfl, own_map_self _ _, hs⟩
  · intro c
    rw [own_map_self]
    exact .cons (.cons (.cons (.cons (.cons (.cons (.cons (.cons (.cons (.cons (.cons (.cons
      .nil)))))))))))

/-- The only request there is hides the post of somebody else. -/
theorem bystander_hides :
    ¬ ∀ tr cfg, Run (sem binaryCollation) anyStep
        (start sampleDeployment (fun _ => 7) (fun _ => .processReport 1 ban) quietBoard) tr cfg →
      (cfg.pool ()).outcome = some (.ok ()) →
        ∀ row, cfg.state.db.committed.postAt badPost.postId = some row →
          badPost.Same row ∨ Entitled (fun _ => 7) tr () badPost.authorId := by
  intro h
  obtain ⟨tr, cfg, hrun, hdone, hown, hs⟩ := bystander_run
  have hrow : cfg.state.db.committed.postAt badPost.postId =
      some { badPost with postStatus := .hidden } := by
    rw [Tables.postAt, hs]
    rfl
  rcases h tr cfg hrun hdone _ hrow with hsame | hauthor | ⟨user, hperforms, hadmin⟩
  · exact absurd hsame.2.2.1 (by decide)
  · exact absurd hauthor (by decide)
  · rw [Performs, hown] at hperforms
    have huser : user = bystander := by simpa [bystanderBans] using hperforms
    rw [huser] at hadmin
    exact absurd hadmin (by decide)

theorem numbered_quietBoard : Numbered quietBoard := ⟨by decide, by decide, by decide, by decide⟩

/-- The run of the bystander's decision, on both sides. -/
theorem entitled_changes_iff_sample : ∃ tr cfg,
    Run (sem binaryCollation) anyStep
        (start sampleDeployment (fun _ => 7) (fun _ => .processReport 1 ban) quietBoard) tr cfg ∧
      (cfg.pool ()).outcome = some (.ok ()) ∧
      (Run (sem binaryCollation) (AtCommits fun tr c s =>
            EntitledChanges (fun _ => 7) tr c s.db.committed (s.db.current apply c))
          (start sampleDeployment (fun _ => 7) (fun _ => .processReport 1 ban) quietBoard) tr
          cfg ↔
        Run (sem binaryCollation) (AtCommits fun tr c s => HidesEntitled (fun _ => 7) tr c s)
          (start sampleDeployment (fun _ => 7) (fun _ => .processReport 1 ban) quietBoard) tr
          cfg) := by
  obtain ⟨tr, cfg, hrun, hdone, _⟩ := bystander_run
  exact ⟨tr, cfg, hrun, hdone, entitled_changes_iff (fun _ => rfl) numbered_quietBoard⟩

end Samples

end GreenCommunity.Board
