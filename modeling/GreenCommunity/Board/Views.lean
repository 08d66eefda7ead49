import GreenCommunity.Board.Authors
import GreenCommunity.Board.Footprint
import GreenCommunity.Board.Sample
import Mathlib.Data.Set.Card

/-!
# View counters

Reading a post through `GET /posts/…` counts as a view unless the reader is the author:
the request increments the counter in place and commits.  An edit ends with the same
call of `get_detail`, so the edit of an ADMIN who is not the author is counted as well.
The counters are right as long as no such edit commits its increment.
-/

namespace GreenCommunity.Board

open GreenCommunity.Base
open GreenCommunity.Base.Prog
open GreenCommunity.Infrastructure (Collation every_perform)

/-! ## The viewing of a post -/

/-- How far a request has got with the viewing of the post that it asks for. -/
inductive Stage where
  | unseen
  | found (postId : Int) (post : Post)
  | counted (postId : Int) (post : Post)
  | over

namespace Stage

/-- `clean` says that the open transaction has not written. -/
def next (clean : Bool) : Stage → BoardEvent → Stage
  | .unseen, ⟨.select (.postDetail postId), .ok [(post, _)]⟩ =>
      if clean then .found postId post else .unseen
  | .found postId post, ⟨.update (.views _), .ok _⟩ => .counted postId post
  | .counted _ _, ⟨.commit, .ok _⟩ | .counted _ _, ⟨.rollback, .ok _⟩
  | .counted _ _, ⟨.close, .ok _⟩ => .over
  | stage, _ => stage

/-- The request has been shown the post. -/
def Shows (stage : Stage) (postId : Int) (post : Post) : Prop :=
  stage = .found postId post ∨ stage = .counted postId post

/-- The increments that are not committed yet. -/
def pending : Stage → List Int
  | .counted _ post => [post.postId]
  | _ => []

theorem next_error (stage : Stage) (clean : Bool) (op : Op) (e : AppError) :
    stage.next clean ⟨op, .error e⟩ = stage := by
  cases stage with
  | unseen =>
      cases op with
      | select query => cases query <;> rfl
      | _ => rfl
  | found =>
      cases op with
      | update change => cases change <;> rfl
      | _ => rfl
  | _ => cases op <;> rfl

theorem next_over (clean : Bool) (e : BoardEvent) : Stage.over.next clean e = .over := by
  unfold next
  split <;> first | rfl | contradiction

/-- A query counts nothing. -/
theorem pending_select (stage : Stage) (clean : Bool) (query : Query) (rows : query.Rows) :
    (stage.next clean ⟨.select query, .ok rows⟩).pending = stage.pending := by
  cases stage with
  | unseen =>
      cases query with
      | postDetail postId =>
          match rows with
          | [] => rfl
          | [(post, author)] => cases clean <;> rfl
          | _ :: _ :: _ => rfl
      | _ => rfl
  | _ => rfl

end Stage

structure Viewing where
  summary : Summary
  stage : Stage

namespace Viewing

def start : Viewing := ⟨.empty, .unseen⟩

def next (x : Viewing) (e : BoardEvent) : Viewing :=
  ⟨x.summary.next e, x.stage.next x.summary.writes.isEmpty e⟩

/-- A view is counted once, for a post of somebody else, and `GET /posts/…` commits
nothing but that. -/
def Admits (req : Request) (x : Viewing) (e : BoardEvent) : Prop :=
  match e.op with
  | .update (.views k) => ∃ user postId post, x.summary.user = some user ∧
      x.stage = .found postId post ∧ k = post.postId ∧ post.authorId ≠ user.userId
  | .commit => ∀ postId, req = .getPost postId → ∃ user post, x.summary.user = some user ∧
      x.stage = .counted postId post ∧ post.authorId ≠ user.userId
  | _ => True

end Viewing

/-! ## Programs -/

section Programs

variable {α β : Type} {req : Request} {x : Viewing} {user : User}

/-- The program keeps to the rules of viewing. -/
abbrev Watches (req : Request) (p : BoardM α) (R : Viewing → Except AppError α → Prop)
    (x : Viewing) : Prop :=
  p.Track Viewing.next (Viewing.Admits req) R x

/-- Nothing is asked of the end. -/
abbrev anywhere : Viewing → Except AppError α → Prop := fun _ _ => True

/-- An operation that is admitted at any stage of a request that shows no post. -/
def Op.idle (req : Request) : Op → Prop
  | .update (.views _) => False
  | .commit => ∀ postId, req ≠ .getPost postId
  | _ => True

theorem admits_of_idle {op : Op} (h : op.idle req) (r : Reply op) : x.Admits req ⟨op, r⟩ := by
  cases op with
  | update change =>
      cases change with
      | views => exact absurd h id
      | _ => trivial
  | commit => exact fun postId heq => absurd heq (h postId)
  | _ => trivial

theorem watches_of_idle {p : BoardM α} (h : p.Every (Op.idle req)) : Watches req p anywhere x :=
  h.track (K := fun _ => True) (fun _ _ r hop _ => ⟨admits_of_idle hop r, trivial⟩) trivial

/-- Of an ordinary request, and of one that deals with images. -/
theorem idle_of_viewless (hreq : ∀ postId, req ≠ .getPost postId) {p : BoardM α}
    (h : p.Every Op.viewless) : p.Every (Op.idle req) := by
  refine h.imp fun op hop => ?_
  cases op with
  | update change =>
      cases change with
      | views => exact absurd hop id
      | _ => trivial
  | commit => exact hreq
  | _ => trivial

/-- The user is known and the request has not looked at a post. -/
structure Fresh (user : User) (x : Viewing) : Prop where
  user : x.summary.user = some user
  unseen : x.stage = .unseen

/-- An operation before the post is shown. -/
theorem fresh_next {op : Op} (hop : ∀ postId, op ≠ .select (.postDetail postId))
    (h : Fresh user x) (r : Reply op) : Fresh user (x.next ⟨op, r⟩) := by
  obtain ⟨summary, stage⟩ := x
  obtain ⟨huser, rfl⟩ := h
  cases r with
  | error e =>
      refine ⟨by cases op <;> exact huser, ?_⟩
      cases op with
      | select query => cases query <;> rfl
      | _ => rfl
  | ok r =>
      cases op with
      | select query =>
          refine ⟨by simp [Viewing.next, Summary.next, show summary.user = _ from huser], ?_⟩
          cases query with
          | postDetail postId => exact absurd rfl (hop postId)
          | _ => rfl
      | _ => exact ⟨huser, rfl⟩

/-- The rule for such an operation, and the rest of the program. -/
theorem fresh_perform {op : Op} {f : Result op → BoardM α}
    (hop : ∀ postId, op ≠ .select (.postDetail postId)) (hidle : op.idle req)
    (h : Fresh user x) (hf : ∀ r, Fresh user (x.next ⟨op, .ok r⟩) →
      Watches req (f r) anywhere (x.next ⟨op, .ok r⟩)) :
    Watches req (perform op >>= f) anywhere x := by
  rintro (e | r)
  · exact ⟨admits_of_idle hidle _, trivial⟩
  · exact ⟨admits_of_idle hidle _, hf r (fresh_next hop h _)⟩

/-- The increment and its commit. -/
theorem incrementViews_watches {postId : Int} {post : Post} {f : Post → BoardM α}
    (huser : x.summary.user = some user) (hstage : x.stage = .found postId post)
    (hne : post.authorId ≠ user.userId) (hreq : ∀ id, req = .getPost id → id = postId)
    (hf : ∀ post, (f post).Every (Op.idle req)) :
    Watches req (PostRepository.incrementViews post >>= fun post =>
      perform .commit >>= fun _ => f post) anywhere x := by
  rw [PostRepository.incrementViews, bind_assoc]
  rintro (e | ⟨⟩)
  · exact ⟨⟨user, postId, post, huser, hstage, rfl, hne⟩, trivial⟩
  refine ⟨⟨user, postId, post, huser, hstage, rfl, hne⟩, ?_⟩
  have hcounted : (x.next ⟨.update (.views post.postId), .ok ()⟩).stage = .counted postId post := by
    simp [Viewing.next, hstage, Stage.next]
  have huser₁ : (x.next ⟨.update (.views post.postId), .ok ()⟩).summary.user = some user := huser
  generalize x.next ⟨.update (.views post.postId), .ok ()⟩ = x₁ at hcounted huser₁
  rintro (e | rows)
  · exact ⟨trivial, trivial⟩
  refine ⟨trivial, ?_⟩
  have hcommit : ∀ post', Watches req (perform .commit >>= fun _ => f post') anywhere
      (x₁.next ⟨.select (.anyPost post.postId), .ok rows⟩) := by
    intro post' r
    refine ⟨fun id hid => ⟨user, post, ?_, ?_, hne⟩, ?_⟩
    · simp [Viewing.next, Summary.next, huser₁]
    · rw [hreq id hid]
      simp [Viewing.next, hcounted, Stage.next]
    · cases r with
      | error e => trivial
      | ok r => exact watches_of_idle (hf post')
  cases rows with
  | nil => trivial
  | cons post' rest =>
      cases rest with
      | nil => exact hcommit post'
      | cons => trivial

/-- Reading and counting. -/
theorem getDetail_watches (h : Fresh user x) (hclean : x.summary.writes = []) {postId : Int}
    (hreq : ∀ id, req = .getPost id → id = postId) :
    Watches req (PostService.getDetail postId user) anywhere x := by
  have hrest : ∀ author post, (perform (.countLikes postId) >>= fun count =>
      perform (.getLike postId user.userId) >>= fun liked =>
      PostRepository.listImages postId >>= fun images =>
      (ret ⟨post, author, count, liked, images ≠ []⟩ : BoardM PostDetail)).Every
        (Op.idle req) := fun author post =>
    every_bind (every_perform trivial) fun count => every_bind (every_perform trivial)
      fun liked => every_bind (every_perform trivial) fun images => every_ret _
  rw [PostService.getDetail, PostRepository.getDetail, bind_assoc]
  rintro (e | rows)
  · exact ⟨trivial, trivial⟩
  refine ⟨trivial, ?_⟩
  match rows with
  | [] => trivial
  | (post, author) :: _ :: _ => trivial
  | [(post, author)] =>
      have huser : (x.next ⟨.select (.postDetail postId), .ok [(post, author)]⟩).summary.user =
          some user := by simp [Viewing.next, Summary.next, h.user]
      have hfound : (x.next ⟨.select (.postDetail postId), .ok [(post, author)]⟩).stage =
          .found postId post := by
        simp [Viewing.next, h.unseen, Stage.next, hclean]
      generalize x.next ⟨.select (.postDetail postId), .ok [(post, author)]⟩ = x₁ at hfound huser
      show Watches req (PostService.countView post user >>= _) anywhere x₁
      rw [PostService.countView]
      split
      next hne =>
        simp only [bind_assoc, pure_eq, ret_bind]
        exact incrementViews_watches huser hfound hne hreq (hrest author)
      next => exact watches_of_idle (hrest author post)

/-- An edit, and the call of `get_detail` after its commit. -/
theorem updatePost_watches (h : Fresh user x) (postId : Int) (payload : PostUpdate)
    (hreq : req = .updatePost postId payload) :
    Watches req (PostService.update postId user payload) anywhere x := by
  have hnever : ∀ id, req ≠ .getPost id := fun id heq => by simp [hreq] at heq
  have hshow : ∀ x' : Viewing, Fresh user x' → Watches req (perform .commit >>= fun _ =>
      PostService.getDetail postId user) anywhere x' := fun x' h' =>
    fresh_perform nofun hnever h' fun _ h'' =>
      getDetail_watches h'' rfl fun id hid => absurd hid (hnever id)
  rw [PostService.update, PostService.getOwned, PostRepository.getById, bind_assoc, bind_assoc]
  refine fresh_perform (by simp) trivial h fun rows h₁ => ?_
  match rows with
  | [] => trivial
  | _ :: _ :: _ => trivial
  | [post] =>
      simp only [Infrastructure.oneOrNone, pure_eq, ret_bind]
      split
      · trivial
      simp only [ret_bind]
      rw [PostRepository.flush]
      split
      · exact fresh_perform (by simp) trivial h₁ fun _ h₂ => hshow _ h₂
      · exact hshow _ h₁

theorem watches_discard {p : BoardM α} (h : Watches req p anywhere x) :
    Watches req (discard p) anywhere x := by
  show Watches req (p >>= fun _ => ret ()) anywhere x
  refine track_bind.mpr (Track.imp ?_ h)
  rintro x' (e | a) _ <;> trivial

/-- Every request keeps to the rules. -/
theorem serve_watches (dep : Deployment) (userId : Int) (req : Request) :
    Watches req (serve dep userId req) anywhere .start := by
  refine Infrastructure.track_inSession ?_
    (fun _ => watches_of_idle (every_perform trivial))
    (fun _ => watches_of_idle (every_perform trivial))
  rw [getCurrentUser, UserRepository.getById, bind_assoc, bind_assoc]
  rintro (e | rows)
  · exact ⟨trivial, trivial⟩
  refine ⟨trivial, ?_⟩
  match rows with
  | [] => trivial
  | _ :: _ :: _ => trivial
  | [user] =>
      show Watches req ((if !user.userIsActive then _ else ret user) >>= fun user =>
        call dep user req) anywhere _
      split
      · trivial
      rw [ret_bind]
      have hfresh : Fresh user
          (Viewing.start.next ⟨.select (.user userId), .ok [user]⟩) := ⟨rfl, rfl⟩
      by_cases hord : req.ordinary
      · refine watches_of_idle (idle_of_viewless ?_
          ((call_common dep user hord).imp fun _ h => h.1))
        rintro postId rfl
        exact hord
      cases req with
      | getPost postId =>
          refine watches_discard (getDetail_watches hfresh rfl fun id hid => ?_)
          cases hid
          rfl
      | updatePost postId payload =>
          exact watches_discard (updatePost_watches hfresh postId payload rfl)
      | listImages =>
          exact watches_discard (watches_of_idle
            (idle_of_viewless (by simp) (listImages_viewless _ _)))
      | uploadImage =>
          exact watches_discard (watches_of_idle
            (idle_of_viewless (by simp) (uploadImage_viewless _ _ _ _ _)))
      | _ => exact absurd trivial hord

end Programs

/-! ## A `GET` that returns -/

/-- Among the events is the answer that shows the post, by somebody else than the user. -/
def Saw (userId postId : Int) (es : List BoardEvent) : Prop :=
  ∃ post author, (⟨.select (.postDetail postId), .ok [(post, author)]⟩ : BoardEvent) ∈ es ∧
    post.authorId ≠ userId

/-- A commit has followed. -/
def Commits (userId postId : Int) (es : List BoardEvent) : Prop :=
  ∃ past later, es = past ++ (⟨.commit, .ok ()⟩ : BoardEvent) :: later ∧ Saw userId postId past

section Answers

variable {α : Type} {userId postId : Int} {es es' : List BoardEvent} {user : User}

theorem Saw.append (h : Saw userId postId es) : Saw userId postId (es ++ es') := by
  obtain ⟨post, author, hmem, hne⟩ := h
  exact ⟨post, author, List.mem_append_left _ hmem, hne⟩

theorem Commits.saw (h : Commits userId postId es) : Saw userId postId es := by
  obtain ⟨past, later, rfl, hsaw⟩ := h
  exact hsaw.append

theorem Commits.append (h : Commits userId postId es) : Commits userId postId (es ++ es') := by
  obtain ⟨past, later, rfl, hsaw⟩ := h
  exact ⟨past, later ++ es', by rw [List.append_assoc, List.cons_append], hsaw⟩

/-- A view has been committed. -/
def Tallies (userId postId : Int) (es : List BoardEvent) : Prop :=
  Saw userId postId es → Commits userId postId es

/-- The operation shows no post. -/
def Op.blind (op : Op) : Prop := ∀ postId, op ≠ .select (.postDetail postId)

theorem saw_snoc {e : BoardEvent} (he : e.op.blind) :
    Saw userId postId (es ++ [e]) ↔ Saw userId postId es := by
  refine ⟨?_, Saw.append⟩
  rintro ⟨post, author, hmem, hne⟩
  rcases List.mem_append.mp hmem with hmem | hmem
  · exact ⟨post, author, hmem, hne⟩
  · rw [← List.mem_singleton.mp hmem] at he
    exact absurd rfl (he postId)

theorem Tallies.snoc (h : Tallies userId postId es) {e : BoardEvent} (he : e.op.blind) :
    Tallies userId postId (es ++ [e]) :=
  fun hsaw => (h ((saw_snoc he).mp hsaw)).append

/-- The program and the list of its events. -/
abbrev Records (p : BoardM α) (R : List BoardEvent → Except AppError α → Prop)
    (es : List BoardEvent) : Prop :=
  p.Track (fun es e => es ++ [e]) (fun _ _ => True) R es

theorem records_of_blind {p : BoardM α} (h : p.Every Op.blind) (hes : Tallies userId postId es) :
    Records p (fun es _ => Tallies userId postId es) es :=
  h.track (K := Tallies userId postId)
    (fun _ _ _ hop hes => ⟨trivial, hes.snoc hop⟩) hes

/-- An exception is no response. -/
theorem of_error {e : AppError} {P : Prop} :
    (∃ a : α, (.error e : Except AppError α) = .ok a) → P := by
  rintro ⟨_, hno⟩
  cases hno

theorem records_mem {p : BoardM α} {e : BoardEvent} (he : e ∈ es) :
    Records p (fun es _ => e ∈ es) es :=
  (every_true p).track (K := fun es => e ∈ es)
    (fun _ _ _ _ he => ⟨trivial, List.mem_append_left _ he⟩) he

/-- What is shown is committed before the response is put together. -/
theorem getDetail_tallies (hes : ¬ Saw user.userId postId es) :
    Records (PostService.getDetail postId user)
      (fun es o => (∃ a, o = .ok a) → Tallies user.userId postId es) es := by
  have hrest : ∀ author post {es' : List BoardEvent}, Tallies user.userId postId es' →
      Records (perform (.countLikes postId) >>= fun count =>
        perform (.getLike postId user.userId) >>= fun liked =>
        PostRepository.listImages postId >>= fun images =>
        (ret ⟨post, author, count, liked, images ≠ []⟩ : BoardM PostDetail))
        (fun es o => (∃ a, o = .ok a) → Tallies user.userId postId es) es' := by
    intro author post es' hes'
    refine Track.imp ?_ (records_of_blind ?_ hes')
    · exact fun _ _ htallies _ => htallies
    exact every_bind (every_perform (by simp [Op.blind])) fun _ =>
      every_bind (every_perform (by simp [Op.blind])) fun _ =>
        every_bind (every_perform (by simp [Op.blind])) fun _ => every_ret _
  rw [PostService.getDetail, PostRepository.getDetail, Prog.bind_assoc]
  rintro (e | rows)
  · exact ⟨trivial, of_error⟩
  refine ⟨trivial, ?_⟩
  rcases rows with _ | ⟨⟨post, author⟩, _ | ⟨_, _⟩⟩
  · exact of_error
  · show Records (PostService.countView post user >>= _) _ _
    rw [PostService.countView]
    split
    next hne =>
      have hsaw : Saw user.userId postId
          (es ++ [⟨.select (.postDetail postId), .ok [(post, author)]⟩]) :=
        ⟨post, author, List.mem_append_right _ (List.mem_singleton.mpr rfl), hne⟩
      simp only [Prog.bind_assoc, pure_eq, ret_bind, PostRepository.incrementViews]
      rintro (e | ⟨⟩)
      · exact ⟨trivial, of_error⟩
      refine ⟨trivial, ?_⟩
      rintro (e | rows)
      · exact ⟨trivial, of_error⟩
      refine ⟨trivial, ?_⟩
      rcases rows with _ | ⟨post', _ | ⟨_, _⟩⟩
      · exact of_error
      · rintro (e | ⟨⟩)
        · exact ⟨trivial, of_error⟩
        exact ⟨trivial, hrest author post' fun _ => ⟨_, [], rfl, hsaw.append.append⟩⟩
      · exact of_error
    next hown =>
      refine hrest author post fun hsaw => absurd hsaw ?_
      rintro ⟨post', author', hmem, hne⟩
      rcases List.mem_append.mp hmem with hmem | hmem
      · exact hes ⟨post', author', hmem, hne⟩
      · cases List.mem_singleton.mp hmem
        exact hown hne
  · exact of_error

/-- A `GET` that returns has committed its view, if it has one. -/
theorem getPost_tallies (dep : Deployment) (userId postId : Int) :
    Records (serve dep userId (.getPost postId)) (fun es o => (∃ a, o = .ok a) →
      ∃ user, (⟨.select (.user userId), .ok [user]⟩ : BoardEvent) ∈ es ∧
        Tallies user.userId postId es) [] := by
  refine Infrastructure.track_inSession_of ?_ ?_ ?_
  · rintro es e _ r
    exact ⟨trivial, by cases r <;> exact of_error⟩
  · rintro es o hreturns r
    refine ⟨trivial, ?_⟩
    cases r with
    | error e => exact of_error
    | ok r =>
        intro hok
        obtain ⟨user, hmem, htallies⟩ := hreturns hok
        exact ⟨user, List.mem_append_left _ hmem, htallies.snoc nofun⟩
  rw [getCurrentUser, UserRepository.getById, Prog.bind_assoc, Prog.bind_assoc]
  rintro (e | rows)
  · exact ⟨trivial, of_error⟩
  refine ⟨trivial, ?_⟩
  match rows with
  | [] => exact of_error
  | _ :: _ :: _ => exact of_error
  | [user] =>
      show Records ((if !user.userIsActive then _ else ret user) >>= fun user =>
        discard (PostService.getDetail postId user)) _ _
      split
      · exact of_error
      rw [ret_bind]
      have hnone : ¬ Saw user.userId postId [⟨.select (.user userId), .ok [user]⟩] := by
        rintro ⟨_, _, hmem, _⟩
        cases List.mem_singleton.mp hmem
      refine track_bind.mpr (Track.imp ?_
        ((getDetail_tallies hnone).and (records_mem (List.mem_singleton.mpr rfl))))
      rintro es (e | detail) ⟨htallies, hmem⟩
      · exact of_error
      · exact fun _ => ⟨user, hmem, htallies ⟨detail, rfl⟩⟩

theorem foldl_snoc (es past : List BoardEvent) :
    es.foldl (fun es e => es ++ [e]) past = past ++ es := by
  induction es generalizing past with
  | nil => simp
  | cons e es ih => rw [List.foldl_cons, ih, List.append_assoc, List.singleton_append]

/-- The same of the history of any request. -/
theorem serve_tallies (dep : Deployment) (userId : Int) (req : Request) :
    (serve dep userId req).Hist (fun _ _ => True) (fun es o => ∀ postId, req = .getPost postId →
      (∃ a, o = .ok a) → ∃ user, (⟨.select (.user userId), .ok [user]⟩ : BoardEvent) ∈ es ∧
        Tallies user.userId postId es) [] := by
  by_cases hget : ∃ postId, req = .getPost postId
  · obtain ⟨postId, rfl⟩ := hget
    refine Hist.imp (fun _ _ _ => trivial) (fun es o htallies id hid hok => ?_)
      (Track.hist (getPost_tallies dep userId postId))
    cases hid
    simpa only [foldl_snoc, List.nil_append] using htallies hok
  · exact hist_of_every (every_true _) (fun _ _ _ => trivial)
      fun _ _ _ postId hreq => absurd ⟨postId, hreq⟩ hget

end Answers

/-! ## Increments -/

/-- The post whose counter a write increments. -/
def Write.views : Write → Option Int
  | .update (.views postId) => some postId
  | _ => none

theorem views_eq_some {w : Write} {k : Int} : w.views = some k ↔ w = .update (.views k) := by
  cases w with
  | insert => simp [Write.views]
  | update change => cases change <;> simp [Write.views]

theorem onPost_postViewCount (w : Write) (row : Post) :
    (w.onPost row).postViewCount =
      row.postViewCount + if w.views = some row.postId then 1 else 0 := by
  cases w with
  | insert => simp [Write.onPost, Write.views]
  | update change =>
      cases change with
      | post postId set =>
          simp only [Write.onPost, Write.views]
          split <;> simp [Post.set]
      | views postId =>
          by_cases hid : row.postId = postId
          · simp [Write.onPost, Write.views, hid]
          · simp [Write.onPost, Write.views, hid, Ne.symm hid]
      | _ => simp [Write.onPost, Write.views]

/-- Some writes add as many views as they contain increments. -/
theorem foldl_postViewCount (ws : List Write) (row : Post) :
    (ws.foldl (fun row w => w.onPost row) row).postViewCount =
      row.postViewCount + ((ws.filterMap Write.views).count row.postId : Nat) := by
  induction ws generalizing row with
  | nil => simp
  | cons w ws ih =>
      rw [List.foldl_cons, ih, onPost_postId, onPost_postViewCount]
      cases hw : w.views with
      | none => simp [hw]
      | some k =>
          by_cases hk : k = row.postId
          · simp [hw, hk]
            omega
          · simp [hw, hk]

/-! ## Runs -/

section Runs

variable {C : Type} [DecidableEq C] {coll : Collation} {dep : Deployment} {who : C → Int}
  {req : C → Request} {init : State C} {tr : List (Label C Op Reply)}
  {cfg : Config C Op Reply AppError Unit (State C)}

def viewing (c : C) (tr : List (Label C Op Reply)) : Viewing :=
  (own c tr).foldl Viewing.next .start

theorem viewing_env (c : C) (tr : List (Label C Op Reply)) :
    viewing c (tr ++ [.env]) = viewing c tr := by
  simp [viewing]

theorem viewing_self (c : C) (tr : List (Label C Op Reply)) (e : BoardEvent) :
    viewing c (tr ++ [.call c e]) = (viewing c tr).next e := by
  simp [viewing]

theorem viewing_ne {c d : C} (h : d ≠ c) (tr : List (Label C Op Reply)) (e : BoardEvent) :
    viewing c (tr ++ [.call d e]) = viewing c tr := by
  simp [viewing, own_call_ne h]

theorem summary_viewing (c : C) (tr : List (Label C Op Reply)) :
    (viewing c tr).summary = summary c tr := by
  have hfold : ∀ (es : List BoardEvent) (x : Viewing),
      (es.foldl Viewing.next x).summary = es.foldl Summary.next x.summary := by
    intro es
    induction es with
    | nil => exact fun _ => rfl
    | cons e es ih => exact fun x => ih _
  exact hfold _ _

/-- What is known of the viewing of `c`. -/
structure Watched (req : C → Request) (c : C) (tr : List (Label C Op Reply)) (s : State C) :
    Prop where
  writes : (s.db.session c).writes.filterMap Write.views = (viewing c tr).stage.pending
  seen : ∀ postId post, (viewing c tr).stage.Shows postId post → post.postId = postId ∧
    (∃ author, (⟨.select (.postDetail postId), .ok [(post, author)]⟩ : BoardEvent) ∈
      own c tr) ∧ ∃ row ∈ s.db.committed.posts, row.postId = postId
  done : ∀ postId, req c = .getPost postId →
    (⟨.commit, .ok ()⟩ : BoardEvent) ∈ own c tr → (viewing c tr).stage = .over

/-- A stage that shows a post has shown it before, or has just found it. -/
theorem shows_next {stage : Stage} {clean : Bool} {e : BoardEvent} {postId : Int} {post : Post}
    (h : (stage.next clean e).Shows postId post) :
    stage.Shows postId post ∨ clean = true ∧
      ∃ author, e = ⟨.select (.postDetail postId), .ok [(post, author)]⟩ := by
  unfold Stage.next at h
  split at h
  · split at h
    next hclean =>
      rcases h with h | h
      · cases h
        exact Or.inr ⟨hclean, _, rfl⟩
      · cases h
    next => rcases h with h | h <;> cases h
  · rcases h with h | h
    · cases h
    · cases h
      exact Or.inl (Or.inl rfl)
  · rcases h with h | h <;> cases h
  · rcases h with h | h <;> cases h
  · rcases h with h | h <;> cases h
  · exact Or.inl h

/-- The increments of the open transaction are those of the stage. -/
theorem pending_step {c : C} {s s' : State C} {x : Viewing} {op : Op} {r : Reply op}
    {req : Request}
    (h : (s.db.session c).writes.filterMap Write.views = x.stage.pending)
    (hadm : x.Admits req ⟨op, r⟩) (hstep : (sem coll).step c s op r s') :
    (s'.db.session c).writes.filterMap Write.views = (x.next ⟨op, r⟩).stage.pending := by
  obtain ⟨summary, stage⟩ := x
  have hquiet : (s'.db.session c).writes.filterMap Write.views =
        (s.db.session c).writes.filterMap Write.views →
      (stage.next summary.writes.isEmpty ⟨op, r⟩).pending = stage.pending →
      (s'.db.session c).writes.filterMap Write.views =
        (Viewing.next ⟨summary, stage⟩ ⟨op, r⟩).stage.pending :=
    fun hwrites hstage => hwrites.trans (h.trans hstage.symm)
  have hended : (s'.db.session c) = .idle →
      (stage.next summary.writes.isEmpty ⟨op, r⟩).pending = [] →
      (s'.db.session c).writes.filterMap Write.views =
        (Viewing.next ⟨summary, stage⟩ ⟨op, r⟩).stage.pending := fun hidle hstage => by
    rw [hidle]
    exact hstage.symm
  cases r with
  | error e =>
      obtain ⟨_, rfl⟩ := hstep
      exact hquiet rfl (by rw [Stage.next_error])
  | ok r =>
      cases op with
      | select query =>
          obtain ⟨_, rfl⟩ := hstep
          exact hquiet (by simp) (stage.pending_select _ _ _)
      | insert new =>
          obtain ⟨_, _, row, _, _, rfl⟩ := hstep
          refine hquiet (by simp [Write.views]) ?_
          cases stage <;> rfl
      | update change =>
          obtain ⟨_, _, rfl⟩ := hstep
          cases change with
          | views postId =>
              obtain ⟨_, _, post, _, hstage, rfl, _⟩ := hadm
              obtain rfl : stage = _ := hstage
              rw [Db.writes_write, List.filterMap_append, h]
              rfl
          | _ =>
              refine hquiet (by simp [Write.views]) ?_
              cases stage <;> rfl
      | commit =>
          obtain rfl := hstep
          refine hended Db.session_commit ?_
          cases stage <;> rfl
      | rollback | close =>
          obtain rfl := hstep
          refine hended Db.session_rollback ?_
          cases stage <;> rfl
      | uuid4 =>
          obtain ⟨_, _, rfl⟩ := hstep
          refine hquiet rfl ?_
          cases stage <;> rfl
      | countLikes | getLike =>
          obtain rfl := hstep
          refine hquiet (by simp) ?_
          cases stage <;> rfl
      | _ =>
          obtain rfl := hstep
          refine hquiet rfl ?_
          cases stage <;> rfl

/-- A post that is found in a clean transaction is there. -/
theorem found_committed {c : C} {s s' : State C} {x : Summary} {postId : Int} {post : Post}
    {author : User} (hexp : Explains coll s.db.committed x (s.db.session c))
    (hclean : x.writes = [])
    (hstep : (sem coll).step c s (.select (.postDetail postId)) (.ok [(post, author)]) s') :
    post.postId = postId ∧ ∃ row ∈ s.db.committed.posts, row.postId = postId := by
  obtain ⟨hrows, _⟩ := hstep
  have hnil : (s.db.session c).writes = [] := by
    have hforall := hexp.writes
    rw [hclean] at hforall
    exact List.forall₂_nil_left_iff.mp hforall
  have hmem : (post, author) ∈ withAuthors (s.db.view apply c)
      ((activePosts (s.db.view apply c)).filter fun row => row.postId == postId) := by
    rw [← show [(post, author)] = _ from hrows]
    exact List.mem_singleton.mpr rfl
  simp only [withAuthors, List.mem_flatMap, List.mem_map, List.mem_filter, activePosts,
    Prod.mk.injEq] at hmem
  obtain ⟨row, ⟨⟨hrow, _⟩, hid⟩, _, _, rfl, _⟩ := hmem
  refine ⟨beq_iff_eq.mp hid, ?_⟩
  rw [Db.view, hnil] at hrow
  have hbefore : ((s.db.session c).snapshot.getD s.db.committed).Before s.db.committed := by
    cases hs : (s.db.session c).snapshot with
    | none => exact .refl _
    | some t => exact hexp.before t hs
  obtain ⟨now, hnow, heq⟩ := hbefore.posts row hrow
  exact ⟨now, hnow, heq.trans (beq_iff_eq.mp hid)⟩

/-- The caller's own step. -/
theorem watched_self {c : C} {s s' : State C} {op : Op} {r : Reply op}
    (h : Watched req c tr s) (hexp : Explains coll s.db.committed (summary c tr) (s.db.session c))
    (hadm : (viewing c tr).Admits (req c) ⟨op, r⟩) (hstep : (sem coll).step c s op r s') :
    Watched req c (tr ++ [.call c ⟨op, r⟩]) s' where
  writes := by
    rw [viewing_self]
    exact pending_step h.writes hadm hstep
  seen postId post hshows := by
    have hbefore := before_step (effect_of_step hstep)
    have hthere : (∃ row ∈ s.db.committed.posts, row.postId = postId) →
        ∃ row ∈ s'.db.committed.posts, row.postId = postId := by
      rintro ⟨row, hrow, hid⟩
      obtain ⟨row', hrow', heq⟩ := hbefore.posts row hrow
      exact ⟨row', hrow', heq.trans hid⟩
    rw [viewing_self] at hshows
    rcases shows_next hshows with hold | ⟨hclean, author, heq⟩
    · obtain ⟨hid, ⟨author, hevent⟩, hrow⟩ := h.seen postId post hold
      exact ⟨hid, ⟨author, mem_own_snoc.mpr (Or.inl hevent)⟩, hthere hrow⟩
    · rw [summary_viewing, List.isEmpty_iff] at hclean
      cases heq
      obtain ⟨hid, hrow⟩ := found_committed hexp hclean hstep
      exact ⟨hid, ⟨author, mem_own_snoc.mpr (Or.inr ⟨rfl, rfl⟩)⟩, hthere hrow⟩
  done postId hreq hmem := by
    rw [viewing_self]
    rcases mem_own_snoc.mp hmem with hold | ⟨_, heq⟩
    · rw [Viewing.next, h.done postId hreq hold, Stage.next_over]
    · cases heq
      obtain ⟨_, post, _, hstage, _⟩ := hadm postId hreq
      rw [Viewing.next, hstage]
      rfl

/-- The rules of viewing hold at every step of a run. -/
theorem admits_step {ok : Guard C Op Reply AppError Unit (State C)} {c : C} {e : BoardEvent}
    {cfg' : Config C Op Reply AppError Unit (State C)}
    (h : Run (sem coll) ok (start dep who req init) tr cfg)
    (hl : Step (sem coll) cfg (.call c e) cfg') : (viewing c tr).Admits (req c) e :=
  h.track_step (Q := fun c => Viewing.Admits (req c))
    (fun c => serve_watches dep (who c) (req c)) hl

theorem watched_run (h0 : Idle init)
    (h : Run (sem coll) anyStep (start dep who req init) tr cfg) (c : C) :
    Watched req c tr cfg.state := by
  refine Run.inv (fun tr cfg => ∀ c, Watched req c tr cfg.state) ?_ ?_ h c
  · intro c
    have hidle : (start dep who req init).state.db.session c = .idle := h0 c
    refine ⟨by rw [hidle]; rfl, fun postId post hshows => ?_, fun _ _ hmem => nomatch hmem⟩
    rcases hshows with hshows | hshows <;> cases hshows
  intro tr cfg l cfg' hrun ih hl _ d
  cases hl with
  | env henv =>
      obtain ⟨users, rfl⟩ := henv
      obtain ⟨hwrites, hseen, hdone⟩ := ih d
      exact ⟨by rwa [viewing_env], by simpa [viewing_env] using hseen,
        by simpa [viewing_env] using hdone⟩
  | @call c op k r s' hpool hstep =>
      by_cases hd : c = d
      · subst hd
        exact watched_self (ih c) (explained_run h0 hrun c)
          (admits_step hrun (.call hpool hstep)) hstep
      · have heff := effect_of_step hstep
        obtain ⟨hwrites, hseen, hdone⟩ := ih d
        have hown : own d (tr ++ [.call c ⟨op, r⟩]) = own d tr := by simp [own_call_ne hd]
        refine ⟨?_, ?_, ?_⟩
        · rw [viewing_ne hd, others_step (Ne.symm hd) heff]
          exact hwrites
        · rw [viewing_ne hd, hown]
          intro postId post hshows
          obtain ⟨hid, hevent, row, hrow, heq⟩ := hseen postId post hshows
          obtain ⟨row', hrow', heq'⟩ := (before_step heff).posts row hrow
          exact ⟨hid, hevent, row', hrow', heq'.trans heq⟩
        · rw [viewing_ne hd, hown]
          exact hdone

/-! ## Views -/

/-- The request of `c` is a `GET` of the post by somebody else than its author, and has found
it published. -/
def Viewed (who : C → Int) (req : C → Request) (tr : List (Label C Op Reply)) (postId : Int)
    (c : C) : Prop :=
  req c = .getPost postId ∧ Saw (who c) postId (own c tr)

/-- The number of views of a post. -/
noncomputable def views (who : C → Int) (req : C → Request) (tr : List (Label C Op Reply))
    (postId : Int) : Nat :=
  Set.ncard {c | Viewed who req tr postId c}

/-- The number of those that have been answered. -/
noncomputable def answers (who : C → Int) (req : C → Request) (tr : List (Label C Op Reply))
    (cfg : Config C Op Reply AppError Unit (State C)) (postId : Int) : Nat :=
  Set.ncard {c | Viewed who req tr postId c ∧ (cfg.pool c).outcome = some (.ok ())}

/-- What the counter of a post shows before the requests. -/
def startViews (init : State C) (postId : Int) : Int :=
  ((init.db.committed.postAt postId).map Post.postViewCount).getD 0

/-- No view that has been answered is missing from the counter of its post, and nothing is
counted but views. -/
structure ViewsCounted (who : C → Int) (req : C → Request) (init : State C)
    (tr : List (Label C Op Reply)) (cfg : Config C Op Reply AppError Unit (State C)) : Prop where
  kept : ∀ postId row, cfg.state.db.committed.postAt postId = some row →
    startViews init postId + answers who req tr cfg postId ≤ row.postViewCount
  only : ∀ postId row, cfg.state.db.committed.postAt postId = some row →
    row.postViewCount ≤ startViews init postId + views who req tr postId

/-! ### Commits of views -/

/-- The view has been committed. -/
def Counted (who : C → Int) (req : C → Request) (tr : List (Label C Op Reply)) (postId : Int)
    (c : C) : Prop :=
  req c = .getPost postId ∧ Commits (who c) postId (own c tr)

noncomputable def counts (who : C → Int) (req : C → Request) (tr : List (Label C Op Reply))
    (postId : Int) : Nat :=
  Set.ncard {c | Counted who req tr postId c}

def AllCounted (who : C → Int) (req : C → Request) (init : State C)
    (tr : List (Label C Op Reply)) (t : Tables) : Prop :=
  ∀ postId row, t.postAt postId = some row →
    row.postViewCount = startViews init postId + counts who req tr postId

/-- That happens at a commit only. -/
theorem counted_snoc {l : Label C Op Reply} {postId : Int} {d : C} :
    Counted who req (tr ++ [l]) postId d ↔ Counted who req tr postId d ∨
      l = .call d ⟨.commit, .ok ()⟩ ∧ req d = .getPost postId ∧ Saw (who d) postId (own d tr) := by
  rw [Counted, own_append]
  constructor
  · rintro ⟨hreq, past, later, hown, hsaw⟩
    cases hl : own d [l] with
    | nil =>
        rw [hl, List.append_nil] at hown
        exact Or.inl ⟨hreq, past, later, hown, hsaw⟩
    | cons e rest =>
        have hmem : e ∈ own d [l] := hl ▸ List.mem_cons_self
        have hcall := List.mem_singleton.mp (mem_own.mp hmem)
        rw [← hcall, own_call_self] at hown
        rcases List.eq_nil_or_concat later with rfl | ⟨later, e', rfl⟩
        · obtain ⟨rfl, he⟩ := List.append_inj' hown rfl
          cases he
          exact Or.inr ⟨hcall.symm, hreq, hsaw⟩
        · rw [List.concat_eq_append, ← List.cons_append, ← List.append_assoc] at hown
          obtain ⟨hown, _⟩ := List.append_inj' hown rfl
          exact Or.inl ⟨hreq, past, later, hown, hsaw⟩
  · rintro (⟨hreq, hcommits⟩ | ⟨rfl, hreq, hsaw⟩)
    · exact ⟨hreq, hcommits.append⟩
    · exact ⟨hreq, own d tr, [], by rw [own_call_self], hsaw⟩

/-- The views are finitely many. -/
theorem finite_viewed (postId : Int) : {c | Viewed who req tr postId c}.Finite := by
  have hcallers : ∀ tr : List (Label C Op Reply), {c | own c tr ≠ []}.Finite := by
    intro tr
    induction tr with
    | nil => simp
    | cons l tr ih =>
        have hone : {c | own c [l] ≠ []}.Subsingleton := by
          intro c hc d hd
          cases l with
          | env => simp at hc
          | call b e =>
              have hb : ∀ {c}, own c [.call b e] ≠ [] → b = c := fun h => by
                by_contra hne
                exact h (own_call_ne hne e)
              exact (hb hc).symm.trans (hb hd)
        refine (hone.finite.union ih).subset fun c hc => ?_
        rw [Set.mem_ofPred_eq, show l :: tr = [l] ++ tr from rfl, own_append] at hc
        by_contra hnone
        simp only [Set.mem_union, Set.mem_ofPred_eq, not_or, not_not] at hnone
        exact hc (by rw [hnone.1, hnone.2]; rfl)
  refine (hcallers tr).subset fun c hc hnil => ?_
  obtain ⟨_, _, _, hmem, _⟩ := hc
  rw [hnil] at hmem
  cases hmem

theorem viewed_of_counted {postId : Int} {c : C} (h : Counted who req tr postId c) :
    Viewed who req tr postId c := ⟨h.1, h.2.saw⟩

theorem finite_counted (postId : Int) : {c | Counted who req tr postId c}.Finite :=
  (finite_viewed postId).subset fun _ => viewed_of_counted

/-- A label that is no commit of a view leaves the views alone. -/
theorem counts_same {l : Label C Op Reply} {postId : Int}
    (h : ∀ c, l = .call c ⟨.commit, .ok ()⟩ → req c ≠ .getPost postId) :
    counts who req (tr ++ [l]) postId = counts who req tr postId := by
  have hset : {c | Counted who req (tr ++ [l]) postId c} = {c | Counted who req tr postId c} := by
    ext c
    refine counted_snoc.trans ⟨?_, Or.inl⟩
    rintro (hold | ⟨hcall, hreq, _⟩)
    · exact hold
    · exact absurd hreq (h c hcall)
  rw [counts, hset, counts]

/-- The commit of a view counts once. -/
theorem counts_commit (h0 : Idle init)
    (h : Run (sem coll) anyStep (start dep who req init) tr cfg) {c : C}
    {cfg' : Config C Op Reply AppError Unit (State C)}
    (hl : Step (sem coll) cfg (.call c ⟨.commit, .ok ()⟩) cfg') {postId : Int}
    (hreq : req c = .getPost postId) :
    counts who req (tr ++ [.call c ⟨.commit, .ok ()⟩]) postId =
      counts who req tr postId + 1 := by
  obtain ⟨user, post, huser, hstage, hne⟩ := admits_step h hl postId hreq
  have hwatched := watched_run h0 h c
  obtain ⟨_, ⟨author, hfound⟩, _⟩ := hwatched.seen postId post (Or.inr hstage)
  rw [summary_viewing] at huser
  rw [userId_of_performs h (performs_of_user h huser)] at hne
  have hfirst : c ∉ {c | Counted who req tr postId c} := by
    rintro ⟨_, past, later, hown, _⟩
    have hover := hwatched.done postId hreq (by rw [hown]; simp)
    rw [hstage] at hover
    cases hover
  have hset : {d | Counted who req (tr ++ [.call c ⟨.commit, .ok ()⟩]) postId d} =
      insert c {d | Counted who req tr postId d} := by
    ext d
    refine counted_snoc.trans ?_
    constructor
    · rintro (hold | ⟨hcall, _⟩)
      · exact Or.inr hold
      · cases hcall
        exact Or.inl rfl
    · rintro (rfl | hold)
      · exact Or.inr ⟨rfl, hreq, post, author, hfound, hne⟩
      · exact Or.inl hold
  rw [counts, hset, Set.ncard_insert_of_notMem hfirst (finite_counted postId), counts]

/-- A post that has been viewed is there. -/
theorem counted_there (h0 : Idle init)
    (h : Run (sem coll) anyStep (start dep who req init) tr cfg) {postId : Int} {c : C}
    (hviewed : Counted who req tr postId c) :
    ∃ row ∈ cfg.state.db.committed.posts, row.postId = postId := by
  have hall : ∀ c, Counted who req tr postId c →
      ∃ row ∈ cfg.state.db.committed.posts, row.postId = postId := by
    refine Run.inv (fun tr cfg => ∀ c, Counted who req tr postId c →
      ∃ row ∈ cfg.state.db.committed.posts, row.postId = postId) ?_ ?_ h
    · rintro c ⟨_, past, later, hown, _⟩
      rw [own_nil] at hown
      simp at hown
    intro tr cfg l cfg' hrun ih hl _ c hc
    have hold : ∃ row ∈ cfg.state.db.committed.posts, row.postId = postId := by
      rcases counted_snoc.mp hc with hc | ⟨rfl, hreq, _⟩
      · exact ih c hc
      · obtain ⟨_, post, _, hstage, _⟩ := admits_step hrun hl postId hreq
        exact ((watched_run h0 hrun c).seen postId post (Or.inr hstage)).2.2
    obtain ⟨row, hrow, hid⟩ := hold
    obtain ⟨row', hrow', heq⟩ := (before_label hl).posts row hrow
    exact ⟨row', hrow', heq.trans hid⟩
  exact hall c hviewed

/-- Nothing is known of a post that is not there. -/
theorem uncounted (h0 : Idle init)
    (h : Run (sem coll) anyStep (start dep who req init) tr cfg) {postId : Int}
    (hnone : cfg.state.db.committed.postAt postId = none) :
    startViews init postId = 0 ∧ counts who req tr postId = 0 := by
  have habsent : ¬ ∃ row ∈ cfg.state.db.committed.posts, row.postId = postId := by
    rintro ⟨row, hrow, rfl⟩
    obtain ⟨row', hrow'⟩ : ∃ row', cfg.state.db.committed.postAt row.postId = some row' :=
      rowAt_of_mem hrow
    rw [hnone] at hrow'
    cases hrow'
  constructor
  · rw [startViews]
    cases hstart : init.db.committed.postAt postId with
    | none => rfl
    | some row =>
        obtain ⟨hrow, hid⟩ := rowAt_eq_some hstart
        obtain ⟨row', hrow', heq⟩ := (before_run h).posts row hrow
        exact absurd ⟨row', hrow', heq.trans hid⟩ habsent
  · have hset : {c | Counted who req tr postId c} = ∅ :=
      Set.eq_empty_of_forall_notMem fun c hc => habsent (counted_there h0 h hc)
    rw [counts, hset, Set.ncard_empty]

/-- The increments that `c` is about to commit are views. -/
def CountsViews (req : C → Request) (c : C) (s : State C) : Prop :=
  ∀ postId, .update (.views postId) ∈ (s.db.session c).writes → req c = .getPost postId

/-- What a commit makes of the counters. -/
theorem postViewCount_current (h0 : Idle init)
    (h : Run (sem coll) anyStep (start dep who req init) tr cfg) (c : C) {postId : Int}
    {row' : Post} (hrow' : (cfg.state.db.current apply c).postAt postId = some row') :
    row'.postViewCount =
      ((cfg.state.db.committed.postAt postId).map Post.postViewCount).getD 0 +
        ((viewing c tr).stage.pending.count postId : Nat) := by
  have hwatched := watched_run h0 h c
  cases hrow : cfg.state.db.committed.postAt postId with
  | some row =>
      cases hrow'.symm.trans (postAt_foldl hrow)
      rw [foldl_postViewCount, hwatched.writes, (rowAt_eq_some hrow).2]
      rfl
  | none =>
      have hpending : postId ∉ (viewing c tr).stage.pending := by
        intro hmem
        cases hstage : (viewing c tr).stage with
        | counted id post =>
            obtain ⟨rfl, _, row, hmem', hid⟩ := hwatched.seen id post (Or.inr hstage)
            rw [hstage] at hmem
            cases List.mem_singleton.mp hmem
            obtain ⟨row'', hrow''⟩ : ∃ row'', cfg.state.db.committed.postAt row.postId =
              some row'' := rowAt_of_mem hmem'
            rw [hid, hrow] at hrow''
            cases hrow''
        | _ =>
            rw [hstage] at hmem
            cases hmem
      rw [List.count_eq_zero.mpr hpending]
      refine postAt_foldl_inv (P := fun row => row.postViewCount = 0) (fun row hold => ?_)
        (fun new hnew => ?_) (fun w hw old hid hold => ?_) hrow'
      · rw [hrow] at hold
        cases hold
      · obtain ⟨_, _, _, _, _, hnewrow, _⟩ := (explained_run h0 h c).inserted hnew
        obtain ⟨_, _, _, _, rfl⟩ := row_eq_post hnewrow
        rfl
      · rw [onPost_postViewCount, hold, if_neg]
        · rfl
        · intro hviews
          refine hpending ?_
          rw [← hwatched.writes, ← hid]
          exact List.mem_filterMap.mpr ⟨w, hw, hviews⟩

/-- The counters are right after a commit whose increments are views. -/
theorem allCounted_commit (h0 : Idle init)
    (h : Run (sem coll) anyStep (start dep who req init) tr cfg)
    (hcount : AllCounted who req init tr cfg.state.db.committed) {c : C}
    {cfg' : Config C Op Reply AppError Unit (State C)}
    (hl : Step (sem coll) cfg (.call c ⟨.commit, .ok ()⟩) cfg')
    (hcounts : CountsViews req c cfg.state) :
    AllCounted who req init (tr ++ [.call c ⟨.commit, .ok ()⟩])
      (cfg.state.db.current apply c) := by
  have hwatched := watched_run h0 h c
  have hold : ∀ postId,
      ((cfg.state.db.committed.postAt postId).map Post.postViewCount).getD 0 =
        startViews init postId + counts who req tr postId := by
    intro postId
    cases hrow : cfg.state.db.committed.postAt postId with
    | some row => exact hcount postId row hrow
    | none =>
        obtain ⟨hstart, hcounted⟩ := uncounted h0 h hrow
        rw [hstart, hcounted]
        rfl
  intro postId row' hrow'
  rw [postViewCount_current h0 h c hrow', hold]
  by_cases hreq : req c = .getPost postId
  · obtain ⟨_, post, _, hstage, _⟩ := admits_step h hl postId hreq
    obtain ⟨hid, _⟩ := hwatched.seen postId post (Or.inr hstage)
    rw [counts_commit h0 h hl hreq, hstage, Stage.pending, hid, List.count_singleton_self]
    omega
  · have hnone : postId ∉ (viewing c tr).stage.pending := by
      intro hpending
      rw [← hwatched.writes, List.mem_filterMap] at hpending
      obtain ⟨w, hw, hviews⟩ := hpending
      exact hreq (hcounts postId (views_eq_some.mp hviews ▸ hw))
    rw [List.count_eq_zero.mpr hnone, counts_same fun d hd => by
      cases hd
      exact hreq]
    omega

/-- The counters show the views that are committed, as long as no edit commits an
increment. -/
theorem allCounted_run (h0 : Idle init)
    (h : Run (sem coll) (AtCommits fun _ c s => CountsViews req c s) (start dep who req init) tr
      cfg) : AllCounted who req init tr cfg.state.db.committed := by
  refine Run.inv (fun tr cfg => AllCounted who req init tr cfg.state.db.committed) ?_ ?_ h
  · intro postId row hrow
    have hnil : {c | Counted who req ([] : List (Label C Op Reply)) postId c} = ∅ := by
      refine Set.eq_empty_of_forall_notMem fun c hc => ?_
      obtain ⟨_, past, later, hown, _⟩ := hc
      rw [own_nil] at hown
      simp at hown
    have hstart : startViews init postId = row.postViewCount := by
      rw [startViews, show init.db.committed.postAt postId = some row from hrow]
      rfl
    rw [counts, hnil, Set.ncard_empty, hstart]
    simp
  intro tr cfg l cfg' hrun hcount hl hok
  have hrun := hrun.mono fun _ _ _ _ => trivial
  rcases committed_step hl with ⟨c, rfl, hdb⟩ | ⟨hquiet, users, hdb⟩
  · rw [hdb]
    exact allCounted_commit h0 hrun hcount hl (hok c rfl)
  · rw [hdb]
    intro postId row hrow
    rw [counts_same fun c hc => absurd hc (hquiet c)]
    exact hcount postId row hrow

/-- An update of the open transaction is an event of the caller. -/
theorem issued_of_write (h0 : Idle init)
    (h : Run (sem coll) anyStep (start dep who req init) tr cfg) {c : C} {change : Change}
    (hw : .update change ∈ (cfg.state.db.session c).writes) :
    (⟨.update change, .ok ()⟩ : BoardEvent) ∈ own c tr := by
  have hsubset : ∀ (es : List BoardEvent) (x : Summary),
      (es.foldl Summary.next x).writes ⊆ x.writes ++ es := by
    intro es
    induction es with
    | nil => exact fun x => by simp
    | cons e es ih =>
        intro x
        have hnext : (x.next e).writes ⊆ x.writes ++ [e] := by
          unfold Summary.next
          split <;> simp
        intro e' he'
        rcases List.mem_append.mp (ih (x.next e) he') with he' | he'
        · have hmem := hnext he'
          simp only [List.mem_append, List.mem_singleton] at hmem
          rcases hmem with hmem | rfl
          · exact List.mem_append_left _ hmem
          · exact List.mem_append_right _ List.mem_cons_self
        · exact List.mem_append_right _ (List.mem_cons_of_mem _ he')
  obtain ⟨e, he, hwrote⟩ := exists_left (explained_run h0 h c).writes hw
  have hown : e ∈ own c tr := hsubset (own c tr) .empty he
  obtain ⟨op, r⟩ := e
  cases r with
  | error e => cases op <;> exact absurd hwrote id
  | ok r =>
      cases op with
      | insert new =>
          obtain ⟨_, _, _, hno⟩ := hwrote
          cases hno
      | update change' =>
          cases hwrote
          exact hown
      | _ => exact absurd hwrote id

/-- Runs in which only requests for a post increment its counter. -/
theorem counts_of_own (h0 : Idle init)
    (h : Run (sem coll) anyStep (start dep who req init) tr cfg)
    (hviews : ∀ c postId, (⟨.update (.views postId), .ok ()⟩ : BoardEvent) ∈ own c tr →
      req c = .getPost postId) :
    Run (sem coll) (AtCommits fun _ c s => CountsViews req c s) (start dep who req init) tr cfg := by
  refine h.guarded fun tr₁ l tr₂ cfg₁ htr hrun c _ postId hw => hviews c postId ?_
  rw [htr, own_append]
  exact List.mem_append_left _ (issued_of_write h0 hrun hw)

/-! ### Answers -/

/-- A view that has been answered has been committed. -/
theorem counted_of_answered (h : Run (sem coll) anyStep (start dep who req init) tr cfg)
    {postId : Int} {c : C} (hviewed : Viewed who req tr postId c)
    (ho : (cfg.pool c).outcome = some (.ok ())) : Counted who req tr postId c := by
  obtain ⟨user, hperforms, htallies⟩ :=
    h.hist_outcome (fun c => serve_tallies dep (who c) (req c)) ho postId hviewed.1 ⟨(), rfl⟩
  rw [userId_of_performs h hperforms] at htallies
  exact ⟨hviewed.1, htallies hviewed.2⟩

/-- Runs of any requests in which no edit commits an increment.  In every state the counter of
a post is at least what it was at the start and one more for each view that has been
answered, and at most one more for each view; once all views have been answered it is
exactly that. -/
theorem views_counted (h0 : Idle init)
    (h : Run (sem coll) (AtCommits fun _ c s => CountsViews req c s) (start dep who req init) tr
      cfg) :
    ViewsCounted who req init tr cfg ∧
      ((∀ postId c, Viewed who req tr postId c → (cfg.pool c).outcome = some (.ok ())) →
        ∀ postId row, cfg.state.db.committed.postAt postId = some row →
          row.postViewCount = startViews init postId + views who req tr postId) := by
  have hrun : Run (sem coll) anyStep (start dep who req init) tr cfg :=
    h.mono fun _ _ _ _ => trivial
  have hcounted := allCounted_run h0 h
  have hviews : ∀ postId, counts who req tr postId ≤ views who req tr postId := fun postId =>
    Set.ncard_le_ncard (fun _ => viewed_of_counted) (finite_viewed postId)
  have hanswers : ∀ postId, answers who req tr cfg postId ≤ counts who req tr postId :=
    fun postId => Set.ncard_le_ncard (fun c hc => counted_of_answered hrun hc.1 hc.2)
      (finite_counted postId)
  have hbounds : ViewsCounted who req init tr cfg := by
    refine ⟨fun postId row hrow => ?_, fun postId row hrow => ?_⟩
    · have hle := hanswers postId
      rw [hcounted postId row hrow]
      omega
    · have hle := hviews postId
      rw [hcounted postId row hrow]
      omega
  refine ⟨hbounds, fun hall postId row hrow => ?_⟩
  have hsame : answers who req tr cfg postId = views who req tr postId :=
    congrArg Set.ncard (Set.ext fun c => ⟨And.left, fun hc => ⟨hc, hall postId c hc⟩⟩)
  have hkept := hbounds.kept postId row hrow
  rw [hsame] at hkept
  exact le_antisymm (hbounds.only postId row hrow) hkept

end Runs

/-! ## The edit of a moderator -/

section Samples

open Infrastructure (binaryCollation)

def retitle : PostUpdate where
  postTitle := some (some "ham")
  postContent := none
  title_fits := by rintro _ ⟨⟩; exact ⟨by decide, by decide⟩
  content_fits := nofun

def retitled : Post := { badPost with postTitle := "ham" }

/-- The moderator edits the post of the user 5. -/
def edit : List BoardEvent :=
  [⟨.select (.user 9), .ok [moderator]⟩, ⟨.select (.activePost 3), .ok [badPost]⟩,
    ⟨.update (.post 3 ⟨some (some "ham"), none, none, none⟩), .ok ()⟩, ⟨.commit, .ok ()⟩,
    ⟨.select (.postDetail 3), .ok [(retitled, spammer)]⟩, ⟨.update (.views 3), .ok ()⟩,
    ⟨.select (.anyPost 3), .ok [{ retitled with postViewCount := 1 }]⟩, ⟨.commit, .ok ()⟩,
    ⟨.countLikes 3, .ok (0 : Nat)⟩, ⟨.getLike 3 9, .ok false⟩,
    ⟨.select (.postImages 3), .ok []⟩, ⟨.close, .ok ()⟩]

private theorem edit_run : ∃ tr cfg, Run (sem binaryCollation) anyStep
    (start sampleDeployment (fun _ => 9) (fun _ => .updatePost 3 retitle) board) tr cfg ∧
      (cfg.pool false).outcome = some (.ok ()) ∧
      cfg.state.db.committed.posts = [{ retitled with postViewCount := 1 }] := by
  have hchain : ∃ s, Chain (sem binaryCollation) board (edit.map (.call false)) s ∧
      s.db.committed.posts = [{ retitled with postViewCount := 1 }] := by
    refine ⟨_, .call ⟨rfl, rfl⟩ (.call ⟨rfl, rfl⟩ (.call ⟨rfl, free_of_other ?_, rfl⟩
      (.call rfl (.call ⟨rfl, rfl⟩ (.call ⟨rfl, free_of_other ?_, rfl⟩ (.call ⟨rfl, rfl⟩
        (.call rfl (.call rfl (.call rfl (.call ⟨⟨.refl _, .nil⟩, rfl⟩
          (.call rfl .nil))))))))))), rfl⟩
    · decide
    · decide
  obtain ⟨s, hchain, hs⟩ := hchain
  have hruns : (serve sampleDeployment 9 (.updatePost 3 retitle)).Runs edit (.ret ()) :=
    .cons (.cons (.cons (.cons (.cons (.cons (.cons (.cons (.cons (.cons (.cons (.cons
      .nil)))))))))))
  have hrun := Run.of_chain hchain
    (p := fun _ => serve sampleDeployment 9 (.updatePost 3 retitle))
    (q := fun c => if c then serve sampleDeployment 9 (.updatePost 3 retitle) else .ret ()) ?_
  · exact ⟨_, _, hrun, rfl, hs⟩
  · intro c
    cases c with
    | false =>
        rw [own_map_self]
        exact hruns
    | true =>
        rw [own_map_ne Bool.false_ne_true]
        exact .nil

/-- Nobody has sent a `GET`, and the counter is at 1. -/
theorem edit_counts :
    ¬ ∀ tr cfg, Run (sem binaryCollation) anyStep
        (start sampleDeployment (fun _ => 9) (fun _ => .updatePost 3 retitle) board) tr cfg →
      ViewsCounted (fun _ => 9) (fun _ => .updatePost 3 retitle) board tr cfg := by
  intro h
  obtain ⟨tr, cfg, hrun, _, hs⟩ := edit_run
  have hrow : cfg.state.db.committed.postAt 3 = some { retitled with postViewCount := 1 } := by
    rw [Tables.postAt, hs]
    rfl
  have hset : {c | Viewed (fun _ => 9) (fun _ : Bool => .updatePost 3 retitle) tr 3 c} = ∅ :=
    Set.eq_empty_of_forall_notMem fun c hc => by cases hc.1
  have honly := (h tr cfg hrun).only 3 _ hrow
  rw [views, hset, Set.ncard_empty] at honly
  exact absurd honly (by decide)

/-! ### A view during an edit -/

/-- The moderator asks for the post, which its author edits. -/
def readers : Bool → Int
  | false => 9
  | true => 5

def reading : Bool → Request
  | false => .getPost 3
  | true => .updatePost 3 retitle

def looks : List BoardEvent :=
  [⟨.select (.user 9), .ok [moderator]⟩, ⟨.select (.postDetail 3), .ok [(badPost, spammer)]⟩]

def edits : List BoardEvent :=
  [⟨.select (.user 5), .ok [spammer]⟩, ⟨.select (.activePost 3), .ok [badPost]⟩,
    ⟨.update (.post 3 ⟨some (some "ham"), none, none, none⟩), .ok ()⟩, ⟨.commit, .ok ()⟩,
    ⟨.select (.postDetail 3), .ok [(retitled, spammer)]⟩, ⟨.countLikes 3, .ok (0 : Nat)⟩,
    ⟨.getLike 3 5, .ok false⟩, ⟨.select (.postImages 3), .ok []⟩, ⟨.close, .ok ()⟩]

/-- The row that is shown has the title of before. -/
def shows : List BoardEvent :=
  [⟨.update (.views 3), .ok ()⟩,
    ⟨.select (.anyPost 3), .ok [{ badPost with postViewCount := 1 }]⟩, ⟨.commit, .ok ()⟩,
    ⟨.countLikes 3, .ok (0 : Nat)⟩, ⟨.getLike 3 9, .ok false⟩,
    ⟨.select (.postImages 3), .ok []⟩, ⟨.close, .ok ()⟩]

def readingTrace : List (Label Bool Op Reply) :=
  looks.map (.call false) ++ edits.map (.call true) ++ shows.map (.call false)

theorem own_readingTrace (c : Bool) :
    own c readingTrace = if c then edits else looks ++ shows := by
  cases c with
  | false =>
      simp only [readingTrace, own_append, own_map_self, own_map_ne Bool.false_ne_true.symm,
        List.append_nil]
      rfl
  | true =>
      simp only [readingTrace, own_append, own_map_self, own_map_ne Bool.false_ne_true,
        List.append_nil, List.nil_append]
      rfl

theorem reading_run : ∃ cfg, Run (sem binaryCollation)
    (AtCommits fun _ c s => CountsViews reading c s)
    (start sampleDeployment readers reading board) readingTrace cfg ∧
      (∀ c, (cfg.pool c).outcome = some (.ok ())) ∧
      cfg.state.db.committed.posts = [{ retitled with postViewCount := 1 }] := by
  have hchain : ∃ s, Chain (sem binaryCollation) board readingTrace s ∧
      s.db.committed.posts = [{ retitled with postViewCount := 1 }] := by
    refine ⟨_, .call ⟨rfl, rfl⟩ (.call ⟨rfl, rfl⟩
      (.call ⟨rfl, rfl⟩ (.call ⟨rfl, rfl⟩ (.call ⟨rfl, free_of_other ?_, rfl⟩ (.call rfl
        (.call ⟨rfl, rfl⟩ (.call rfl (.call rfl (.call ⟨⟨.refl _, .nil⟩, rfl⟩ (.call rfl
          (.call ⟨rfl, free_of_other ?_, rfl⟩ (.call ⟨rfl, rfl⟩ (.call rfl (.call rfl (.call rfl
            (.call ⟨⟨.refl _, .nil⟩, rfl⟩ (.call rfl .nil))))))))))))))))), rfl⟩
    · decide
    · decide
  obtain ⟨s, hchain, hs⟩ := hchain
  have hrun := Run.of_chain hchain
    (p := fun c => serve sampleDeployment (readers c) (reading c)) (q := fun _ => .ret ()) ?_
  · refine ⟨_, counts_of_own idle_board hrun fun c postId hmem => ?_, fun _ => rfl, hs⟩
    rw [own_readingTrace] at hmem
    cases c with
    | false =>
        obtain rfl : postId = 3 := by simpa [looks, shows] using hmem
        rfl
    | true => simp [edits] at hmem
  · intro c
    rw [own_readingTrace]
    cases c with
    | false =>
        exact .cons (.cons (.cons (.cons (.cons (.cons (.cons (.cons (.cons .nil))))))))
    | true =>
        exact .cons (.cons (.cons (.cons (.cons (.cons (.cons (.cons (.cons .nil))))))))

/-- One view, which the edit has not lost. -/
theorem views_counted_sample : ∃ cfg, Run (sem binaryCollation)
    (AtCommits fun _ c s => CountsViews reading c s)
    (start sampleDeployment readers reading board) readingTrace cfg ∧
      Viewed readers reading readingTrace 3 false ∧
      ∃ row, cfg.state.db.committed.postAt 3 = some row ∧ row.postTitle = "ham" ∧
        row.postViewCount = 1 ∧
        row.postViewCount = startViews board 3 + views readers reading readingTrace 3 := by
  obtain ⟨cfg, hrun, hdone, hs⟩ := reading_run
  have hrow : cfg.state.db.committed.postAt 3 = some { retitled with postViewCount := 1 } := by
    rw [Tables.postAt, hs]
    rfl
  refine ⟨cfg, hrun, ⟨rfl, badPost, spammer, ?_, by decide⟩, _, hrow, rfl, rfl,
    (views_counted idle_board hrun).2 (fun _ c _ => hdone c) 3 _ hrow⟩
  rw [own_readingTrace]
  simp [looks]

end Samples

end GreenCommunity.Board
