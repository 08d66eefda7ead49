import GreenCommunity.Board.Decisions
import GreenCommunity.Board.Images
import GreenCommunity.Board.Threads
import GreenCommunity.Board.Writes

/-!
# References

Comments and images belong to posts, replies to comments, and sanctions to reports.  A
request inserts a row behind a read of what the row refers to, in one transaction, and no
row is ever taken away, so that references resolve in all that any session can see.
-/

namespace GreenCommunity.Board

open GreenCommunity.Base
open GreenCommunity.Base.Prog
open GreenCommunity.Infrastructure (every_perform)

/-- Every reference of a row to a row of another table, or of its own, resolves. -/
structure Tables.Resolved (t : Tables) : Prop where
  comments : ∀ row ∈ t.comments, ∃ post ∈ t.posts, post.postId = row.postId
  replies : t.Threaded
  images : PostsExist t
  sanctions : ∀ row ∈ t.userSanctions, ∃ report ∈ t.reports, report.reportId = row.reportId

/-! ## Comments are written behind a read of their post -/

/-- A comment is inserted where the transaction has read the post. -/
def Grounded (x : Summary) : Op → Prop
  | .insert (.comment _ postId _ _) => ∃ post, x.Read (.activePost postId) [post]
  | _ => True

section Requests

variable {α β : Type} {x : Summary}

abbrev Grounds (p : BoardM α) (R : Summary → Except AppError α → Prop) (x : Summary) : Prop :=
  p.Track Summary.next (fun x e => Grounded x e.op) R x

/-- An operation that inserts no comment. -/
def Op.mute : Op → Prop
  | .insert (.comment _ _ _ _) => False
  | _ => True

theorem Op.mute.grounded {op : Op} (h : op.mute) : Grounded x op := by
  cases op with
  | insert new => cases new <;> first | exact absurd h id | trivial
  | _ => trivial

theorem Op.plain.mute {op : Op} (h : op.plain) : op.mute := by
  cases op <;> first | exact absurd h id | trivial

theorem grounds_of_mute {p : BoardM α} (h : p.Every Op.mute) : Grounds p anyEnd x :=
  h.track (K := fun _ => True) (fun _ _ _ hop _ => ⟨hop.grounded, trivial⟩) trivial

theorem grounds_of_plain {p : BoardM α} (h : p.Every Op.plain) :
    Grounds p (fun x' _ => Later x x') x :=
  h.track (fun _ _ r hop hx => ⟨hop.mute.grounded, hx.trans (later_next hop r)⟩) (.refl x)

theorem grounds_bind {p : BoardM α} {f : α → BoardM β} {R : Summary → Prop}
    (hp : Grounds p (fun x' o => ∀ a, o = .ok a → R x') x)
    (hf : ∀ a x', R x' → Grounds (f a) anyEnd x') : Grounds (p >>= f) anyEnd x := by
  refine track_bind.mpr (Track.imp ?_ hp)
  rintro x' (e | a) h
  · trivial
  · exact hf a x' (h a rfl)

theorem grounds_plain_bind {p : BoardM α} {f : α → BoardM β} (hp : p.Every Op.plain)
    (hf : ∀ a x', Later x x' → Grounds (f a) anyEnd x') : Grounds (p >>= f) anyEnd x :=
  grounds_bind (Track.imp (fun _ _ h _ _ => h) (grounds_of_plain hp)) hf

/-- The insert, and what comes behind it. -/
theorem grounds_perform {op : Op} {f : Result op → BoardM α} (hop : Grounded x op)
    (hf : ∀ r, (f r).Every Op.mute) : Grounds (perform op >>= f) anyEnd x := by
  rintro (e | r)
  · exact ⟨hop, trivial⟩
  · exact ⟨hop, grounds_of_mute (hf r)⟩

theorem ensurePostExists_grounds (hw : x.writes = []) (postId : Int) :
    Grounds (CommentService.ensurePostExists postId)
      (fun x' o => ∀ a, o = .ok a → ∃ post, x'.Read (.activePost postId) [post]) x := by
  rintro (e | rows)
  · exact ⟨trivial, nofun⟩
  refine ⟨trivial, ?_⟩
  match rows with
  | [] => exact nofun
  | [post] =>
      rintro _ ⟨⟩
      refine ⟨post, ?_⟩
      show _ ∈ if x.writes.isEmpty then x.reads ++ [_] else x.reads
      rw [hw]
      exact List.mem_append_right _ (List.mem_singleton.mpr rfl)
  | _ :: _ :: _ => exact nofun

theorem createComment_grounds (hw : x.writes = []) (postId : Int) (user : User)
    (payload : CommentCreate) : Grounds (CommentService.create postId user payload) anyEnd x := by
  have hrest : ∀ x₁ : Summary, (∃ post, x₁.Read (.activePost postId) [post]) →
      Grounds (CommentService.validateMentions payload.commentContent >>= fun _ =>
        CommentRepository.add payload.commentContent postId user.userId
          payload.parentCommentId >>= fun comment =>
        perform .commit >>= fun _ => ret comment) anyEnd x₁ := by
    rintro x₁ ⟨post, hread⟩
    refine grounds_plain_bind (validateMentions_every plain_select _) fun _ x₂ h₂ => ?_
    rw [CommentRepository.add, bind_assoc]
    refine grounds_perform ⟨post, h₂.reads hread⟩ fun _ => ?_
    exact every_bind (every_bind (every_perform trivial) fun _ => Infrastructure.every_refreshed)
      fun _ => every_bind (every_perform trivial) fun _ => every_ret _
  refine grounds_bind (ensurePostExists_grounds hw postId) fun _ x₁ hpost => ?_
  cases hp : payload.parentCommentId with
  | none =>
      rw [hp] at hrest
      exact hrest x₁ hpost
  | some id =>
      rw [hp] at hrest
      obtain ⟨post, hread⟩ := hpost
      exact grounds_plain_bind (ensureRepliable_every plain_select postId id)
        fun _ x₂ h₂ => hrest x₂ ⟨post, h₂.reads hread⟩

/-- No other request inserts a comment. -/
theorem writes_mute {req : Request} (hreq : ∀ postId payload, req ≠ .createComment postId payload)
    {op : Op} (h : req.Writes op) : op.mute := by
  cases op with
  | insert new =>
      cases new with
      | comment =>
          cases req with
          | createComment => exact absurd rfl (hreq _ _)
          | _ => exact absurd h id
      | _ => trivial
  | _ => trivial

theorem serve_grounds (dep : Deployment) (userId : Int) (req : Request) :
    Grounds (serve dep userId req) anyEnd .empty := by
  have hother : (∀ postId payload, req ≠ .createComment postId payload) →
      Grounds (serve dep userId req) anyEnd .empty := fun hreq =>
    grounds_of_mute (Every.imp (fun _ h => writes_mute hreq h) (serve_writes dep userId req))
  cases req with
  | createComment postId payload =>
      refine Infrastructure.track_inSession ?_
        (fun _ => grounds_of_mute (every_perform trivial))
        (fun _ => grounds_of_mute (every_perform trivial))
      refine grounds_plain_bind (getCurrentUser_every (plain_select _)) fun user x hx => ?_
      refine grounds_bind (R := fun _ => True)
        (Track.imp (fun _ _ _ _ _ => trivial)
          (createComment_grounds (hx.writes.trans rfl) postId user payload)) fun _ _ _ => trivial
  | _ => exact hother nofun

end Requests

/-! ## Transactions -/

section Transaction

variable {coll : Infrastructure.Collation} {committed : Tables} {x : Summary}
  {session : Session Tables Write}

/-- The posts of the comments that a session inserts are in its snapshot. -/
def Anchored (session : Session Tables Write) : Prop :=
  ∀ row, .insert (.comment row) ∈ session.writes →
    ∃ t, session.snapshot = some t ∧ ∃ post ∈ t.posts, post.postId = row.postId

theorem report_of_inserted (h : Explains coll committed x session) {row : UserSanction}
    (hin : .insert (.userSanction row) ∈ session.writes) :
    ∃ t, session.snapshot = some t ∧ ∃ report ∈ t.reports, report.reportId = row.reportId := by
  obtain ⟨_, new, n, createdAt, _, hnew, hj⟩ := h.inserted hin
  obtain ⟨_, _, _, reportId, _, rfl, rfl⟩ := row_eq_userSanction hnew
  obtain ⟨_, id, report, _, _, hread, hid, _⟩ := hj
  obtain ⟨t, hsnap, hrows⟩ := h.reads _ _ hread
  have hmem : report ∈ t.reports.filter fun row => row.reportId == id := by
    rw [← show [report] = _ from hrows]
    exact List.mem_singleton.mpr rfl
  exact ⟨t, hsnap, report, (List.mem_filter.mp hmem).1, hid⟩

theorem image_of_inserted (h : Explains coll committed x session) {row : PostImage}
    (hin : .insert (.postImage row) ∈ session.writes) :
    ∃ t, session.snapshot = some t ∧ ∃ post ∈ t.posts, post.postId = row.postId := by
  obtain ⟨_, new, n, createdAt, _, hnew, hj⟩ := h.inserted hin
  obtain ⟨postId, _, _, _, rfl, rfl⟩ := row_eq_postImage hnew
  obtain ⟨_, post, _, hread, _⟩ := hj
  obtain ⟨t, hsnap, hrows⟩ := h.reads _ _ hread
  have hmem : post ∈ (activePosts t).filter fun row => row.postId == postId := by
    rw [← show [post] = _ from hrows]
    exact List.mem_singleton.mpr rfl
  obtain ⟨hactive, hid⟩ := List.mem_filter.mp hmem
  exact ⟨t, hsnap, post, (List.mem_filter.mp hactive).1, by simpa using hid⟩

/-- What was there is there, where it stood. -/
structure Tables.Past (t t' : Tables) : Prop where
  before : t.Before t'
  placed : Placed t t'

theorem Tables.Past.refl (t : Tables) : t.Past t := ⟨.refl t, .refl t⟩

theorem Tables.Past.trans {t t' t'' : Tables} (h : t.Past t') (h' : t'.Past t'') : t.Past t'' :=
  ⟨h.before.trans h'.before, h.placed.trans h'.placed⟩

/-- The writes of a session, on tables that have all that it has seen. -/
theorem Explains.resolved (h : Explains coll committed x session) (hanchored : Anchored session)
    {t : Tables} (hpast : ∀ t', session.snapshot = some t' → t'.Past t) (ht : t.Resolved) :
    (session.writes.foldl apply t).Resolved := by
  have hafter : t.Before (session.writes.foldl apply t) := .foldl _ _
  have hpost : ∀ {postId}, (∃ post ∈ t.posts, post.postId = postId) →
      ∃ post ∈ (session.writes.foldl apply t).posts, post.postId = postId := by
    rintro postId ⟨post, hmem, hid⟩
    obtain ⟨now, hnow, hsame⟩ := hafter.posts post hmem
    exact ⟨now, hnow, hsame.trans hid⟩
  have hseen : ∀ {postId}, (∃ t', session.snapshot = some t' ∧
      ∃ post ∈ t'.posts, post.postId = postId) → ∃ post ∈ t.posts, post.postId = postId := by
    rintro postId ⟨t', hsnap, post, hmem, hid⟩
    obtain ⟨now, hnow, hsame⟩ := (hpast t' hsnap).before.posts post hmem
    exact ⟨now, hnow, hsame.trans hid⟩
  refine ⟨fun row hrow => hpost ?_, h.threaded (fun t' hsnap => (hpast t' hsnap).placed)
    ht.replies, fun row hrow => hpost ?_, fun row hrow => ?_⟩
  · rcases mem_comments_foldl hrow with ⟨old, hold, hplace⟩ | ⟨new, hnew, hplace⟩
    · rw [← show old.postId = row.postId from congrArg (fun place => place.2.1) hplace]
      exact ht.comments old hold
    · rw [← show new.postId = row.postId from congrArg (fun place => place.2.1) hplace]
      exact hseen (hanchored new hnew)
  · rw [foldl_inserts postImages_apply] at hrow
    rcases List.mem_append.mp hrow with hold | hnew
    · exact ht.images row hold
    · obtain ⟨w, hw, himage⟩ := List.mem_filterMap.mp hnew
      exact hseen (image_of_inserted h (image_eq_some.mp himage ▸ hw))
  · have hreport : ∃ report ∈ t.reports, report.reportId = row.reportId := by
      rw [foldl_inserts userSanctions_apply] at hrow
      rcases List.mem_append.mp hrow with hold | hnew
      · exact ht.sanctions row hold
      · obtain ⟨w, hw, hsanction⟩ := List.mem_filterMap.mp hnew
        obtain ⟨t', hsnap, report, hmem, hid⟩ :=
          report_of_inserted h (sanction_eq_some.mp hsanction ▸ hw)
        obtain ⟨now, hnow, hsame⟩ := (hpast t' hsnap).before.reports report hmem
        exact ⟨now, hnow, hsame.trans hid⟩
    obtain ⟨report, hmem, hid⟩ := hreport
    obtain ⟨now, hnow, hsame⟩ := hafter.reports report hmem
    exact ⟨now, hnow, hsame.trans hid⟩

end Transaction

/-! ## Runs -/

section Runs

variable {C : Type} [DecidableEq C] {coll : Infrastructure.Collation} {dep : Deployment}
  {who : C → Int} {req : C → Request} {init : State C} {tr : List (Label C Op Reply)}
  {cfg : Config C Op Reply AppError Unit (State C)}

/-- One step of the caller `c`, seen from its session. -/
theorem anchored_step {c : C} {e : BoardEvent} {s s' : State C} {x : Summary}
    (hexp : Explains coll s.db.committed x (s.db.session c))
    (h : Anchored (s.db.session c)) (hg : Grounded x e.op) (heff : Effect coll c s e s') :
    Anchored (s'.db.session c) := by
  have hread : s'.db = s.db.read c → Anchored (s'.db.session c) := by
    intro hdb row hrow
    rw [hdb, Db.writes_read] at hrow
    obtain ⟨t, hsnap, hpost⟩ := h row hrow
    refine ⟨t, ?_, hpost⟩
    rw [hdb]
    simp [Db.read, hsnap]
  have hwrite : ∀ w, s'.db = s.db.write c w → (∀ row, w = .insert (.comment row) →
      ∃ t, (s.db.session c).snapshot = some t ∧ ∃ post ∈ t.posts, post.postId = row.postId) →
      Anchored (s'.db.session c) := by
    intro w hdb hw row hrow
    have hsession : s'.db.session c =
        { s.db.session c with writes := (s.db.session c).writes ++ [w] } := by
      rw [hdb]
      simp [Db.write]
    rw [hsession] at hrow ⊢
    rcases List.mem_append.mp hrow with hold | hnew
    · exact h row hold
    · exact hw row (List.mem_singleton.mp hnew).symm
  cases heff with
  | quiet hdb =>
      rw [hdb]
      exact h
  | read hdb | select _ _ _ _ hdb => exact hread hdb
  | insert new n createdAt row he _ hrow hdb _ =>
      refine hwrite _ hdb ?_
      rintro comment ⟨⟩
      obtain ⟨content, postId, authorId, parent, rfl, rfl⟩ := row_eq_comment hrow
      subst he
      obtain ⟨post, hpost⟩ := hg
      obtain ⟨t, hsnap, hrows⟩ := hexp.reads _ _ hpost
      have hmem : post ∈ (activePosts t).filter fun row => row.postId == postId := by
        rw [← show [post] = _ from hrows]
        exact List.mem_singleton.mpr rfl
      obtain ⟨hactive, hid⟩ := List.mem_filter.mp hmem
      exact ⟨t, hsnap, post, (List.mem_filter.mp hactive).1, by simpa using hid⟩
  | update _ _ hdb _ =>
      refine hwrite _ hdb ?_
      rintro row ⟨⟩
  | commit _ hdb _ =>
      rw [hdb, Db.session_commit]
      intro row hrow
      cases hrow
  | rollback hdb _ _ =>
      rw [hdb, Db.session_rollback]
      intro row hrow
      cases hrow

theorem anchored_run (h0 : Idle init)
    (h : Run (sem coll) anyStep (start dep who req init) tr cfg) (c : C) :
    Anchored (cfg.state.db.session c) := by
  refine Run.inv (fun _ cfg => ∀ c, Anchored (cfg.state.db.session c)) (fun c row hrow => ?_) ?_
    h c
  · rw [show (start dep who req init).state = init from rfl, h0 c] at hrow
    cases hrow
  intro tr cfg l cfg' hrun hanchored hl _ d
  cases hl with
  | env henv =>
      obtain ⟨users, rfl⟩ := henv
      exact hanchored d
  | @call c op k r s' hpool hstep =>
      have heff := effect_of_step hstep
      by_cases hd : d = c
      · subst hd
        exact anchored_step (explained_run h0 hrun d) (hanchored d)
          (hrun.track_step (fun c => serve_grounds dep (who c) (req c)) (.call hpool hstep)) heff
      · show Anchored (s'.db.session d)
        rw [others_step hd heff]
        exact hanchored d

/-- In every state of a run of any requests the references resolve, in what is committed
and in what each open transaction sees. -/
theorem references_resolve (h0 : Idle init) (hinit : init.db.committed.Resolved)
    (h : Run (sem coll) anyStep (start dep who req init) tr cfg) :
    cfg.state.db.committed.Resolved ∧ ∀ c, (cfg.state.db.view apply c).Resolved := by
  have hfollows : cfg.state.db.Follows Tables.Resolved Tables.Past := by
    refine follows_run .refl .trans (fun t users ht => ⟨⟨ht.comments, ht.replies, ht.images,
      ht.sanctions⟩, .users t users, .refl t⟩) h0 hinit (fun tr cfg c hrun hfollows => ?_) h
    exact ⟨(explained_run h0 hrun c).resolved (anchored_run h0 hrun c)
      (fun t ht => (hfollows.snapshot c t ht).2) hfollows.committed, .foldl _ _,
      placed_foldl _ _⟩
  refine ⟨hfollows.committed, fun c => ?_⟩
  refine (explained_run h0 h c).resolved (anchored_run h0 h c) (fun t ht => ?_)
    (hfollows.source .refl c).1
  rw [ht]
  exact .refl t

end Runs

/-! ## A comment on a post that is deleted meanwhile -/

section Samples

open Infrastructure (binaryCollation)

def remark : CommentCreate := ⟨"ok", none, ⟨by decide, by decide⟩⟩

/-- The author comments on the post that the moderator deletes. -/
def remarkAndDelete : Bool → Request
  | false => .createComment 3 remark
  | true => .deletePost 3

def remarkAndDeleteUsers : Bool → Int
  | false => 5
  | true => 9

/-- The comment is inserted before the post is deleted and committed behind it. -/
theorem remark_run : ∃ tr cfg, Run (sem binaryCollation) anyStep
    (start sampleDeployment remarkAndDeleteUsers remarkAndDelete board) tr cfg ∧
      ∀ c, (cfg.pool c).outcome = some (.ok ()) := by
  have hchain : ∃ s, Chain (sem binaryCollation) board
      (([⟨.select (.user 5), .ok [spammer]⟩, ⟨.select (.activePost 3), .ok [badPost]⟩,
          ⟨.insert (.comment "ok" 3 5 none), .ok (10 : Int)⟩] :
            List BoardEvent).map (.call false) ++
        ([⟨.select (.user 9), .ok [moderator]⟩, ⟨.select (.activePost 3), .ok [badPost]⟩,
          ⟨.now, .ok (20000000 : Nat)⟩,
          ⟨.update (.post 3 ⟨none, none, some .deleted, some 20⟩), .ok ()⟩, ⟨.commit, .ok ()⟩,
          ⟨.close, .ok ()⟩] : List BoardEvent).map (.call true) ++
        ([⟨.select (.anyComment 10), .ok [⟨10, "ok", 3, 5, none, 7, none⟩]⟩,
          ⟨.commit, .ok ()⟩, ⟨.close, .ok ()⟩] : List BoardEvent).map (.call false)) s := by
    refine ⟨_, .append (.append
      (.call ⟨rfl, rfl⟩ (.call ⟨rfl, rfl⟩ (.call ⟨rfl, 7, _, rfl, free_of_other ?_, rfl⟩ .nil)))
      (.call ⟨rfl, rfl⟩ (.call ⟨rfl, rfl⟩ (.call rfl
        (.call ⟨rfl, free_of_other ?_, rfl⟩ (.call rfl (.call rfl .nil)))))))
      (.call ⟨rfl, rfl⟩ (.call rfl (.call rfl .nil)))⟩
    · decide
    · decide
  obtain ⟨s, hchain⟩ := hchain
  have hrun := Run.of_chain hchain
    (p := fun c => serve sampleDeployment (remarkAndDeleteUsers c) (remarkAndDelete c))
    (q := fun _ => .ret ()) ?_
  · exact ⟨_, _, hrun, fun _ => rfl⟩
  · intro c
    cases c with
    | false =>
        simp only [own_append, own_map_self, own_map_ne Bool.false_ne_true.symm,
          List.append_nil]
        exact .cons (.cons (.cons (.cons (.cons (.cons .nil)))))
    | true =>
        simp only [own_append, own_map_self, own_map_ne Bool.false_ne_true, List.nil_append,
          List.append_nil]
        exact .cons (.cons (.cons (.cons (.cons (.cons .nil)))))

theorem resolved_board : board.db.committed.Resolved where
  comments := nofun
  replies := nofun
  images := nofun
  sanctions := nofun

theorem references_resolve_sample : ∃ tr cfg,
    Run (sem binaryCollation) anyStep
        (start sampleDeployment remarkAndDeleteUsers remarkAndDelete board) tr cfg ∧
      (∀ c, (cfg.pool c).outcome = some (.ok ())) ∧ cfg.state.db.committed.Resolved ∧
        ∀ c, (cfg.state.db.view apply c).Resolved := by
  obtain ⟨tr, cfg, hrun, hdone⟩ := remark_run
  exact ⟨tr, cfg, hrun, hdone, references_resolve idle_board resolved_board hrun⟩

end Samples

end GreenCommunity.Board
