import GreenCommunity.Base.Track
import GreenCommunity.Board.Targets

/-!
# What stands behind a write

A request reads, and then writes what its reads allow.  `Summary` keeps of the events of
a caller who the user is and what the open transaction has read, as long as it had not
written, and written.  `Justified` says for every write what stands behind it; every
request keeps to it, whatever the services answer.
-/

namespace GreenCommunity.Board

open GreenCommunity.Base
open GreenCommunity.Base.Prog
open GreenCommunity.Infrastructure (oneOrNone refreshed)

/-! ## Summaries -/

structure Summary where
  /-- The user who was looked up first. -/
  user : Option User
  reads : List BoardEvent
  writes : List BoardEvent

namespace Summary

def empty : Summary := ⟨none, [], []⟩

def lookedUp : BoardEvent → Option User
  | ⟨.select (.user _), .ok [user]⟩ => some user
  | _ => none

def next (x : Summary) (e : BoardEvent) : Summary :=
  match e with
  | ⟨.select _, .ok _⟩ =>
      { x with
        user := x.user.or (lookedUp e)
        reads := if x.writes.isEmpty then x.reads ++ [e] else x.reads }
  | ⟨.insert _, .ok _⟩ | ⟨.update _, .ok _⟩ => { x with writes := x.writes ++ [e] }
  | ⟨.commit, .ok _⟩ | ⟨.rollback, .ok _⟩ | ⟨.close, .ok _⟩ =>
      { x with reads := [], writes := [] }
  | _ => x

/-- The open transaction has read the rows, before it wrote. -/
def Read (x : Summary) (query : Query) (rows : query.Rows) : Prop :=
  (⟨.select query, .ok rows⟩ : BoardEvent) ∈ x.reads

/-- The open transaction has issued the update. -/
def Updated (x : Summary) (change : Change) : Prop :=
  (⟨.update change, .ok ()⟩ : BoardEvent) ∈ x.writes

end Summary

/-! ## Justifications -/

def hideSet : PostSet := ⟨none, none, some .hidden, none⟩

/-- An edit leaves the status alone, and a deletion sets both columns. -/
def PostSet.ByOwner (set : PostSet) : Prop :=
  (set.postStatus = none ∧ set.deletedAt = none) ∨
    ∃ now, set = ⟨none, none, some .deleted, some now⟩

def Op.setsPost : Op → Bool
  | .update (.post _ _) => true
  | _ => false

def Op.sanctions : Op → Bool
  | .insert (.userSanction _ _ _ _ _) => true
  | _ => false

/-- The author of a post, or an ADMIN. -/
def User.Manages (user : User) (post : Post) : Prop :=
  post.authorId = user.userId ∨ user.userRole = .admin

/-- What stands behind an operation, in the summary of the events before it. -/
def Justified (x : Summary) : Op → Prop
  | .insert (.post _ _ authorId) => ∃ user, x.user = some user ∧ authorId = user.userId
  | .insert (.postImage postId _ _ _) =>
      ∃ user post, x.user = some user ∧ x.Read (.activePost postId) [post] ∧
        post.authorId = user.userId
  | .insert (.comment _ postId authorId parentCommentId) =>
      (∃ user, x.user = some user ∧ authorId = user.userId) ∧
        ∀ id, parentCommentId = some id → ∃ parent, x.Read (.activeComment id) [parent] ∧
          parent.postId = postId ∧ parent.parentCommentId = none
  | .insert (.report reporterUserId _ _ _ _ _ _ _ _ _) =>
      ∃ user, x.user = some user ∧ reporterUserId = some user.userId
  | .insert (.userSanction _ _ _ reportId _) =>
      (∀ e ∈ x.writes, e.op.sanctions = false) ∧
        ∃ id rep target batch, x.Read (.report id) [rep] ∧ rep.reportId = reportId ∧
          rep.reportStatus = .pending ∧ rep.target = some target ∧
          x.Read (.pendingOf target) batch ∧
          ∀ row ∈ batch, ∃ set, x.Updated (.report row.reportId set)
  | .update (.post postId set) =>
      (∀ e ∈ x.writes, e.op.setsPost = false) ∧
        (set = hideSet ∨ set.ByOwner ∧ ∃ user id post, x.user = some user ∧
          x.Read (.activePost id) [post] ∧ post.postId = postId ∧ user.Manages post)
  | .update (.comment commentId _) =>
      ∃ user id comment, x.user = some user ∧ x.Read (.activeComment id) [comment] ∧
        comment.commentId = commentId ∧ comment.authorId = user.userId
  | .update (.report reportId set) =>
      set.reportStatus ≠ .pending ∧ ∃ target batch row, x.Read (.pendingOf target) batch ∧
        row ∈ batch ∧ row.reportId = reportId
  | _ => True

/-! ## Rules -/

section Rules

variable {α β : Type} {x x' x'' : Summary}

/-- The program keeps to the justifications; `R` is what its end must meet. -/
abbrev Follows (p : BoardM α) (R : Summary → Except AppError α → Prop) (x : Summary) : Prop :=
  p.Track Summary.next (fun x e => Justified x e.op) R x

/-- Nothing is asked of the end. -/
def anyEnd : Summary → Except AppError α → Prop := fun _ _ => True

/-- The transaction has gone on without writing. -/
structure Later (x x' : Summary) : Prop where
  user : ∀ user, x.user = some user → x'.user = some user
  reads : x.reads ⊆ x'.reads
  writes : x'.writes = x.writes

theorem Later.refl (x : Summary) : Later x x := ⟨fun _ h => h, List.Subset.refl _, rfl⟩

theorem Later.trans (h : Later x x') (h' : Later x' x'') : Later x x'' where
  user user hu := h'.user user (h.user user hu)
  reads := List.Subset.trans h.reads h'.reads
  writes := h'.writes.trans h.writes

/-- A program that only reads: `P` is what is known of its result. -/
def Yields (x : Summary) (P : Summary → α → Prop) (x' : Summary) (o : Except AppError α) :
    Prop :=
  ∀ a, o = .ok a → Later x x' ∧ P x' a

/-- The operations that neither write nor end the transaction. -/
def Op.plain : Op → Prop
  | .insert _ | .update _ | .commit | .rollback | .close => False
  | _ => True

/-- The operations that need nothing behind them. -/
def Op.free (op : Op) : Prop := ∀ x, Justified x op

theorem Op.plain.free {op : Op} (h : op.plain) : op.free := by
  intro x
  cases op <;> first | exact absurd h id | trivial

theorem later_next {op : Op} (h : op.plain) (r : Reply op) : Later x (x.next ⟨op, r⟩) := by
  cases r with
  | error e => cases op <;> exact .refl x
  | ok r =>
      cases op with
      | select query =>
          refine ⟨fun user hu => ?_, ?_, rfl⟩
          · simp [Summary.next, hu]
          · show x.reads ⊆ if x.writes.isEmpty then x.reads ++ [_] else x.reads
            split
            · exact List.subset_append_left _ _
            · exact List.Subset.refl _
      | insert | update | commit | rollback | close => exact absurd h id
      | _ => exact .refl x

theorem follows_of_free {p : BoardM α} (h : p.Every Op.free) : Follows p anyEnd x :=
  h.track (K := fun _ => True) (fun x _ _ hop _ => ⟨hop x, trivial⟩) trivial

theorem follows_of_plain {p : BoardM α} (h : p.Every Op.plain) :
    Follows p (Yields x fun _ _ => True) x := by
  refine Track.imp ?_ (h.track (K := Later x) (fun x' op r hop hx =>
    ⟨hop.free x', hx.trans (later_next hop r)⟩) (.refl x))
  exact fun x' _ hx _ _ => ⟨hx, trivial⟩

theorem follows_discard {p : BoardM α} (h : Follows p anyEnd x) :
    Follows (discard p) anyEnd x := by
  show Follows (p >>= fun _ => ret ()) anyEnd x
  refine track_bind.mpr (Track.imp ?_ h)
  rintro x' (e | a) _ <;> trivial

/-- What comes after a program that reads. -/
theorem Follows.bind {p : BoardM α} {f : α → BoardM β} {P : Summary → α → Prop}
    {R : Summary → Except AppError β → Prop} (hp : Follows p (Yields x P) x)
    (hR : ∀ x' e, R x' (.error e))
    (hf : ∀ a x', Later x x' → P x' a → Follows (f a) R x') : Follows (p >>= f) R x := by
  refine track_bind.mpr (Track.imp ?_ hp)
  rintro x' (e | a) h
  · exact hR x' e
  · exact hf a x' (h a rfl).1 (h a rfl).2

theorem yields_error {P : Summary → α → Prop} (x' : Summary) (e : AppError) :
    Yields x P x' (.error e) := nofun

theorem yields_ret {P : Summary → α → Prop} {a : α} (h : P x a) :
    Follows (ret a) (Yields x P) x := by
  rintro _ ⟨⟩
  exact ⟨.refl x, h⟩

/-- A result of a program is known later. -/
theorem Yields.trans {P : Summary → α → Prop} {p : BoardM α} (hl : Later x x')
    (h : Follows p (Yields x' P) x') : Follows p (Yields x P) x' :=
  Track.imp (fun _ _ hy a ha => ⟨hl.trans (hy a ha).1, (hy a ha).2⟩) h

theorem follows_select {query : Query} :
    Follows (perform (.select query))
      (Yields x fun x' rows => x.writes = [] → x'.Read query rows) x := by
  rintro (e | rows)
  · exact ⟨trivial, nofun⟩
  · refine ⟨trivial, ?_⟩
    rintro _ ⟨⟩
    have hplain : (Op.select query).plain := trivial
    refine ⟨later_next hplain _, fun hw => ?_⟩
    show _ ∈ if x.writes.isEmpty then x.reads ++ [_] else x.reads
    rw [hw]
    exact List.mem_append_right _ (List.mem_singleton.mpr rfl)

/-- Reading at most one row. -/
theorem follows_one {R : Type} {rows : List R} :
    Follows (oneOrNone rows) (Yields x fun _ found => ∀ row, found = some row → rows = [row])
      x :=
  match rows with
  | [] => yields_ret nofun
  | [row] => yields_ret (by rintro _ ⟨⟩; rfl)
  | _ :: _ :: _ => nofun

/-- A query for one row, and the row it finds. -/
theorem follows_find (query : Query) {R : Type} (f : query.Rows → List R)
    (hw : x.writes = []) :
    Follows (perform (.select query) >>= fun rows => oneOrNone (f rows))
      (Yields x fun x' found => ∀ row, found = some row →
        ∃ rows, f rows = [row] ∧ x'.Read query rows) x := by
  refine follows_select.bind yields_error fun rows x₁ h₁ hread => ?_
  refine Yields.trans h₁ (Track.imp ?_ follows_one)
  intro x₂ o hy found ho
  obtain ⟨h₂, hone⟩ := hy found ho
  exact ⟨h₂, fun row hrow => ⟨rows, hone row hrow, h₂.reads (hread hw)⟩⟩

end Rules

/-! ## Requests without a justification -/

section Free

variable {P : Op → Prop}

theorem every_select (hP : ∀ query, P (.select query)) (query : Query) :
    (perform (.select query)).Every P := Infrastructure.every_perform (hP query)

theorem every_find {R : Type} (query : Query) (hP : P (.select query)) (f : query.Rows → List R) :
    (perform (.select query) >>= fun rows => oneOrNone (f rows)).Every P :=
  every_bind (Infrastructure.every_perform hP) fun _ => Infrastructure.every_oneOrNone

theorem getById_every (hP : ∀ query, P (.select query)) (postId : Int) :
    (PostRepository.getById postId).Every P := every_find _ (hP (.activePost postId)) id

theorem getAnyById_every {postId : Int} (hP : P (.select (.anyPost postId))) :
    (PostRepository.getAnyById postId).Every P := every_find _ hP id

theorem getComment_every {commentId : Int} (hP : P (.select (.activeComment commentId))) :
    (CommentRepository.getById commentId).Every P := every_find _ hP id

theorem ensurePostExists_every (hP : ∀ query, P (.select query)) (postId : Int) :
    (CommentService.ensurePostExists postId).Every P :=
  every_bind (getById_every hP postId) fun found => by cases found <;> trivial

theorem validateMentions_every (hP : ∀ query, P (.select query)) (text : String) :
    (CommentService.validateMentions text).Every P := by
  refine every_forM (fun word => ?_) _
  rw [CommentService.validateWord]
  split
  · refine every_bind (every_select hP _) fun users => ?_
    split <;> trivial
  · trivial

theorem validateReport_every (hpost : ∀ postId, P (.select (.anyPost postId)))
    (hcomment : ∀ commentId, P (.select (.activeComment commentId))) (type : ContentType)
    (postId commentId reportedUserId : Option Int) (status : Option ReportStatus) :
    (ReportService.validateReport type postId commentId reportedUserId status).Every P := by
  unfold ReportService.validateReport
  split
  · trivial
  cases type with
  | post =>
      cases postId <;> cases commentId <;> try trivial
      exact every_bind (getAnyById_every (hpost _)) fun found => by cases found <;> trivial
  | comment =>
      cases postId <;> cases commentId <;> try trivial
      refine every_bind (getComment_every (hcomment _)) fun found => ?_
      cases found with
      | none => trivial
      | some comment =>
          dsimp only
          split
          · trivial
          · exact every_bind (getAnyById_every (hpost _)) fun found => by cases found <;> trivial
  | user => cases postId <;> cases commentId <;> cases reportedUserId <;> trivial

theorem free_select (query : Query) : Op.free (.select query) := fun _ => trivial

theorem getDetail_free (postId : Int) (user : User) :
    (PostService.getDetail postId user).Every Op.free := by
  refine every_bind (every_find (.postDetail postId) (free_select _) id) fun found => ?_
  match found with
  | none => trivial
  | some (post, author) =>
      refine every_bind ?_ fun post => ?_
      · rw [PostService.countView]
        split
        · refine every_bind (every_bind (Infrastructure.every_perform fun _ => trivial)
            fun _ => every_bind (every_select free_select _)
              fun rows => Infrastructure.every_refreshed) fun post => ?_
          exact every_bind (Infrastructure.every_perform fun _ => trivial)
            fun _ => every_ret post
        · trivial
      · refine every_bind (Infrastructure.every_perform fun _ => trivial) fun count => ?_
        refine every_bind (Infrastructure.every_perform fun _ => trivial) fun liked => ?_
        exact every_bind (every_select free_select _) fun images => every_ret _

theorem listImages_free (storage : Bool) (postId : Int) :
    (PostService.listImages storage postId).Every Op.free := by
  refine every_bind (getById_every free_select postId) fun found => ?_
  cases found with
  | none => trivial
  | some post =>
      refine every_bind (every_select free_select _) fun images => ?_
      split
      · trivial
      split
      · trivial
      refine every_mapM (fun image => ?_) images
      exact every_bind (Infrastructure.every_perform fun _ => trivial) fun url => every_ret _

/-- The queries, and all that concerns likes. -/
def Op.light : Op → Prop
  | .select _ | .countLikes _ | .getLike _ _ | .setLike _ _ _ => True
  | _ => False

theorem light_free (op : Op) (h : op.light) : op.free := by
  intro x
  cases op <;> first | exact absurd h id | trivial

section Light

variable (hP : ∀ op, op.light → P op)
include hP

theorem likePost_every (postId : Int) (user : User) :
    (PostService.likePost postId user).Every P := by
  refine every_bind (getById_every (fun _ => hP _ trivial) postId) fun found => ?_
  cases found with
  | none => trivial
  | some post =>
      refine every_bind (Infrastructure.every_perform (hP _ trivial)) fun liked => ?_
      cases liked
      · exact Infrastructure.every_perform (hP _ trivial)
      · trivial

theorem unlikePost_every (postId : Int) (user : User) :
    (PostService.unlikePost postId user).Every P := by
  refine every_bind (Infrastructure.every_perform (hP _ trivial)) fun liked => ?_
  cases liked
  · trivial
  · exact Infrastructure.every_perform (hP _ trivial)

theorem getShareUrl_every (postId : Int) : (PostService.getShareUrl postId).Every P :=
  every_bind (getById_every (fun _ => hP _ trivial) postId)
    fun found => by cases found <;> trivial

theorem listPosts_every (params : Common.PageParams) : (listPosts params).Every P := by
  have hselect : ∀ query, P (.select query) := fun _ => hP _ trivial
  refine every_bind (every_bind (every_select hselect _) fun notices =>
    every_bind (every_bind (every_select hselect _) fun total =>
      every_bind (every_select hselect _) fun rows => every_ret _) fun found => ?_)
    fun found => every_ret _
  exact every_ret _

theorem listComments_every (postId : Int) (params : Common.PageParams) :
    (listComments postId params).Every P := by
  have hselect : ∀ query, P (.select query) := fun _ => hP _ trivial
  refine every_bind (every_bind (ensurePostExists_every hselect postId) fun _ => ?_)
    fun found => every_ret _
  refine every_bind (every_select hselect _) fun total => ?_
  refine every_bind (every_select hselect _) fun comments => ?_
  refine every_bind ?_ fun counts => every_ret _
  rw [CommentRepository.countRepliesByParents]
  split
  · trivial
  · exact every_bind (every_select hselect _) fun rows => every_ret _

theorem listByParent_every (commentId : Int) :
    (CommentService.listByParent commentId).Every P := by
  refine every_bind (getComment_every (hP _ trivial)) fun found => ?_
  cases found with
  | none => trivial
  | some comment => exact every_select (fun _ => hP _ trivial) _

theorem listReports_every (params : Common.PageParams) : (listReports params).Every P := by
  have hselect : ∀ query, P (.select query) := fun _ => hP _ trivial
  exact every_bind (every_bind (every_select hselect _) fun _ =>
    every_bind (every_select hselect _) fun _ => every_ret _) fun _ => every_ret _

end Light

end Free

/-! ## Requests that write -/

section Writing

variable {α β : Type} {x : Summary} {user : User}

theorem plain_select (query : Query) : Op.plain (.select query) := trivial

/-- The user is known and nothing is written yet. -/
structure Begun (user : User) (x : Summary) : Prop where
  user : x.user = some user
  writes : x.writes = []

theorem Begun.later {x' : Summary} (h : Begun user x) (hl : Later x x') : Begun user x' :=
  ⟨hl.user user h.user, hl.writes.trans h.writes⟩

/-- An operation with something behind it, and the rest of the program. -/
theorem follows_perform {op : Op} {f : Result op → BoardM α} (hop : Justified x op)
    (hf : ∀ r, Follows (f r) anyEnd (x.next ⟨op, .ok r⟩)) :
    Follows (perform op >>= f) anyEnd x := by
  rintro (e | r)
  · exact ⟨hop, trivial⟩
  · exact ⟨hop, hf r⟩

/-- What comes behind the reads of a request. -/
theorem Follows.rest {p : BoardM α} {f : α → BoardM β} {P : Summary → α → Prop}
    (hp : Follows p (Yields x P) x)
    (hf : ∀ a x', Later x x' → P x' a → Follows (f a) anyEnd x') :
    Follows (p >>= f) anyEnd x :=
  hp.bind (fun _ _ => trivial) hf

theorem follows_raise (e : AppError) : Follows (raise e : BoardM α) anyEnd x := trivial

theorem commit_free : (perform .commit).Every Op.free :=
  Infrastructure.every_perform fun _ => trivial

theorem getById_follows (hw : x.writes = []) (postId : Int) :
    Follows (PostRepository.getById postId)
      (Yields x fun x' found => ∀ post, found = some post →
        x'.Read (.activePost postId) [post]) x := by
  refine Track.imp ?_ (follows_find (.activePost postId) id hw)
  intro x' o hy found ho
  refine ⟨(hy found ho).1, fun post hpost => ?_⟩
  obtain ⟨rows, rfl, hread⟩ := (hy found ho).2 post hpost
  exact hread

theorem getComment_follows (hw : x.writes = []) (commentId : Int) :
    Follows (CommentRepository.getById commentId)
      (Yields x fun x' found => ∀ comment, found = some comment →
        x'.Read (.activeComment commentId) [comment]) x := by
  refine Track.imp ?_ (follows_find (.activeComment commentId) id hw)
  intro x' o hy found ho
  refine ⟨(hy found ho).1, fun comment hcomment => ?_⟩
  obtain ⟨rows, rfl, hread⟩ := (hy found ho).2 comment hcomment
  exact hread

theorem getReport_follows (hw : x.writes = []) (reportId : Int) :
    Follows (ReportRepository.getById reportId)
      (Yields x fun x' found => ∀ report, found = some report →
        x'.Read (.report reportId) [report]) x := by
  refine Track.imp ?_ (follows_find (.report reportId) id hw)
  intro x' o hy found ho
  refine ⟨(hy found ho).1, fun report hreport => ?_⟩
  obtain ⟨rows, rfl, hread⟩ := (hy found ho).2 report hreport
  exact hread

/-! ### Posts -/

theorem getOwned_follows (hb : Begun user x) (postId : Int) :
    Follows (PostService.getOwned postId user)
      (Yields x fun x' post => x'.Read (.activePost postId) [post] ∧ user.Manages post) x := by
  refine (getById_follows hb.writes postId).bind yields_error fun found x₁ h₁ hfound => ?_
  cases found with
  | none => exact yields_error x₁ _
  | some post =>
      dsimp only
      split
      · exact yields_error x₁ _
      · rename_i howned
        refine Yields.trans h₁ (yields_ret ⟨hfound post rfl, ?_⟩)
        rw [not_and_or, not_not, not_not] at howned
        exact howned

/-- The update of a post by somebody who manages it. -/
theorem justified_post {x' : Summary} {id : Int} {post : Post} {set : PostSet}
    (hb : Begun user x') (hread : x'.Read (.activePost id) [post]) (howned : user.Manages post)
    (hset : set.ByOwner) : Justified x' (.update (.post post.postId set)) := by
  refine ⟨fun e he => ?_, Or.inr ⟨hset, user, id, post, hb.user, hread, rfl, howned⟩⟩
  rw [hb.writes] at he
  cases he

theorem createPost_follows (hb : Begun user x) (payload : PostCreate) :
    Follows (PostService.create user payload) anyEnd x := by
  rw [PostService.create, PostRepository.add, bind_assoc]
  refine follows_perform ⟨user, hb.user, rfl⟩ fun id => follows_of_free ?_
  exact every_bind (every_bind (every_select free_select _)
    fun _ => Infrastructure.every_refreshed) fun _ => every_bind commit_free fun _ => every_ret _

theorem updatePost_follows (hb : Begun user x) (postId : Int) (payload : PostUpdate) :
    Follows (PostService.update postId user payload) anyEnd x := by
  refine (getOwned_follows hb postId).rest fun post x₁ h₁ ⟨hread, howned⟩ => ?_
  have hrest : (perform .commit >>= fun _ => PostService.getDetail postId user).Every Op.free :=
    every_bind commit_free fun _ => getDetail_free postId user
  rw [PostRepository.flush]
  split
  · exact follows_perform (justified_post (hb.later h₁) hread howned (Or.inl ⟨rfl, rfl⟩))
      fun _ => follows_of_free hrest
  · exact follows_of_free hrest

theorem deletePost_follows (hb : Begun user x) (postId : Int) :
    Follows (PostService.delete postId user) anyEnd x := by
  refine (getOwned_follows hb postId).rest fun post x₁ h₁ ⟨hread, howned⟩ => ?_
  refine follows_perform trivial fun now => ?_
  refine follows_perform (justified_post (hb.later h₁) hread howned (Or.inr ⟨_, rfl⟩))
    fun _ => follows_of_free commit_free

theorem uploadImage_follows (hb : Begun user x) (libs : Libraries) (storage : Bool)
    (postId : Int) (image : UploadFile) :
    Follows (PostService.uploadImage libs storage postId user image) anyEnd x := by
  refine (getById_follows hb.writes postId).rest fun found x₁ h₁ hfound => ?_
  cases found with
  | none => exact follows_raise _
  | some post =>
      dsimp only
      split
      · exact follows_raise _
      rename_i howner
      split
      · exact follows_raise _
      split
      · exact follows_raise _
      have hjustified : ∀ {x' : Summary} (p p' p'' : String), Later x₁ x' →
          Justified x' (.insert (.postImage postId p p' p'')) := fun p p' p'' hl =>
        ⟨user, post, (hb.later (h₁.trans hl)).user, hl.reads (hfound post rfl),
          not_not.mp howner⟩
      have hconvert : (PostService.convertImage libs image.data).Every Op.plain := by
        rw [PostService.convertImage]
        split <;> trivial
      refine (follows_of_plain hconvert).rest fun datas x₂ h₂ _ => ?_
      refine (follows_of_plain (Infrastructure.every_perform (by trivial))).rest
        fun fileId x₃ h₃ _ => ?_
      refine track_bind.mpr (Track.imp (R := anyEnd) ?_ ?_)
      · rintro x' (e | row) _
        · trivial
        · exact follows_of_free (every_bind (Infrastructure.every_perform fun _ => trivial)
            fun _ => every_ret _)
      refine track_handle.mpr (Track.imp (R := anyEnd) ?_ ?_)
      · rintro x' (e | row) _
        · exact follows_of_free (every_bind (Infrastructure.every_perform fun _ => trivial)
            fun _ => every_raise e)
        · trivial
      refine (follows_of_plain (Infrastructure.every_perform (by trivial))).rest
        fun _ x₄ h₄ _ => ?_
      refine (follows_of_plain (Infrastructure.every_perform (by trivial))).rest
        fun _ x₅ h₅ _ => ?_
      refine (follows_of_plain (Infrastructure.every_perform (by trivial))).rest
        fun _ x₆ h₆ _ => ?_
      rw [PostRepository.addImage, bind_assoc]
      refine follows_perform (hjustified _ _ _
        (h₂.trans (h₃.trans (h₄.trans (h₅.trans h₆))))) fun _ => follows_of_free ?_
      exact every_bind (every_bind (every_select free_select _)
        fun _ => Infrastructure.every_refreshed)
        fun _ => every_bind commit_free fun _ => every_ret _

/-! ### Comments -/

theorem getOwnedComment_follows (hb : Begun user x) (commentId : Int) :
    Follows (CommentService.getOwned commentId user)
      (Yields x fun x' comment => x'.Read (.activeComment commentId) [comment] ∧
        comment.authorId = user.userId) x := by
  refine (getComment_follows hb.writes commentId).bind yields_error fun found x₁ h₁ hfound => ?_
  cases found with
  | none => exact yields_error x₁ _
  | some comment =>
      dsimp only
      split
      · exact yields_error x₁ _
      · rename_i howner
        exact Yields.trans h₁ (yields_ret ⟨hfound comment rfl, not_not.mp howner⟩)

theorem ensureRepliable_follows (hw : x.writes = []) (postId id : Int) :
    Follows (CommentService.ensureRepliable postId id)
      (Yields x fun x' _ => ∃ parent, x'.Read (.activeComment id) [parent] ∧
        parent.postId = postId ∧ parent.parentCommentId = none) x := by
  refine (getComment_follows hw id).bind yields_error fun found x₁ h₁ hfound => ?_
  cases found with
  | none => exact yields_error x₁ _
  | some parent =>
      dsimp only
      split
      · exact yields_error x₁ _
      rename_i hpost
      split
      · exact yields_error x₁ _
      rename_i htop
      refine Yields.trans h₁ (yields_ret ⟨parent, hfound parent rfl, not_not.mp hpost, ?_⟩)
      simpa using htop

theorem createComment_follows (hb : Begun user x) (postId : Int) (payload : CommentCreate) :
    Follows (CommentService.create postId user payload) anyEnd x := by
  have hrest : ∀ x₁ : Summary, Later x x₁ → (∀ id, payload.parentCommentId = some id →
      ∃ parent, x₁.Read (.activeComment id) [parent] ∧ parent.postId = postId ∧
        parent.parentCommentId = none) →
      Follows (CommentService.validateMentions payload.commentContent >>= fun _ =>
        CommentRepository.add payload.commentContent postId user.userId
          payload.parentCommentId >>= fun comment =>
        perform .commit >>= fun _ => ret comment) anyEnd x₁ := by
    intro x₁ h₁ hparent
    refine (follows_of_plain (validateMentions_every plain_select _)).rest fun _ x₂ h₂ _ => ?_
    rw [CommentRepository.add, bind_assoc]
    refine follows_perform ⟨⟨user, (hb.later (h₁.trans h₂)).user, rfl⟩, fun id hid => ?_⟩
      fun _ => follows_of_free ?_
    · obtain ⟨parent, hread, hfits⟩ := hparent id hid
      exact ⟨parent, h₂.reads hread, hfits⟩
    · exact every_bind (every_bind (every_select free_select _)
        fun _ => Infrastructure.every_refreshed)
        fun _ => every_bind commit_free fun _ => every_ret _
  refine (follows_of_plain (ensurePostExists_every plain_select postId)).rest
    fun _ x₁ h₁ _ => ?_
  cases hp : payload.parentCommentId with
  | none =>
      rw [hp] at hrest
      exact hrest x₁ h₁ nofun
  | some id =>
      rw [hp] at hrest
      refine (ensureRepliable_follows (hb.later h₁).writes postId id).rest
        fun _ x₂ h₂ hparent => hrest x₂ (h₁.trans h₂) ?_
      rintro _ ⟨⟩
      exact hparent

theorem updateComment_follows (hb : Begun user x) (commentId : Int) (payload : CommentUpdate) :
    Follows (CommentService.update commentId user payload) anyEnd x := by
  refine (getOwnedComment_follows hb commentId).rest fun comment x₁ h₁ ⟨hread, howner⟩ => ?_
  refine (follows_of_plain (validateMentions_every plain_select _)).rest fun _ x₂ h₂ _ => ?_
  have hrest : (perform .commit >>= fun _ =>
      (ret { comment with commentContent := payload.commentContent } : BoardM Comment)).Every
        Op.free := every_bind commit_free fun _ => every_ret _
  rw [CommentRepository.flush]
  split
  · exact follows_of_free hrest
  · exact follows_perform ⟨user, commentId, comment, (hb.later (h₁.trans h₂)).user,
      h₂.reads hread, rfl, howner⟩ fun _ => follows_of_free hrest

theorem deleteComment_follows (hb : Begun user x) (commentId : Int) :
    Follows (CommentService.delete commentId user) anyEnd x := by
  refine (getOwnedComment_follows hb commentId).rest fun comment x₁ h₁ ⟨hread, howner⟩ => ?_
  refine follows_perform trivial fun now => ?_
  exact follows_perform ⟨user, commentId, comment, (hb.later h₁).user, hread, rfl, howner⟩
    fun _ => follows_of_free commit_free

/-! ### Reports -/

/-- A program that is rolled back if it raises. -/
theorem follows_rollingBack {body : BoardM α} (h : Follows body anyEnd x) :
    Follows (ReportService.rollingBack body) anyEnd x := by
  refine track_handle.mpr (Track.imp ?_ h)
  rintro x' (e | a) _
  · exact follows_of_free (every_bind (Infrastructure.every_perform fun _ => trivial)
      fun _ => every_raise e)
  · trivial

theorem addReport_follows (hb : Begun user x) (request : ReportCreateRequest) :
    Follows (ReportService.addReport request user) anyEnd x := by
  refine (follows_of_plain
    (validateReport_every (fun _ => plain_select _) (fun _ => plain_select _) _ _ _ _ _)).rest
    fun reported x₁ h₁ _ => follows_rollingBack ?_
  rw [ReportRepository.addReport, bind_assoc]
  refine follows_perform ⟨user, (hb.later h₁).user, rfl⟩ fun _ => follows_of_free ?_
  exact every_bind (every_bind (every_select free_select _)
    fun _ => Infrastructure.every_refreshed) fun _ => every_bind commit_free fun _ => every_ret _

/-- A report that is not pending, or not about a target, does not pass. -/
theorem validateReport_raise {row : Report}
    (h : ¬ (row.reportStatus = .pending ∧ ∃ target, row.target = some target)) :
    ∃ e, ReportService.validateReport row.reportContentType row.postId row.commentId
      (some row.reportedUserId) (some row.reportStatus) = raise e := by
  unfold ReportService.validateReport
  split
  · exact ⟨_, rfl⟩
  rename_i hpending
  have htarget : row.target = none := by
    rw [Option.eq_none_iff_forall_ne_some]
    exact fun target ht => h ⟨by simpa using hpending, target, ht⟩
  cases htype : row.reportContentType <;> cases hpost : row.postId <;>
    cases hcomment : row.commentId <;>
    first
      | exact ⟨_, rfl⟩
      | simp [Report.target, htype, hpost, hcomment] at htarget

theorem validateReport_follows (row : Report) :
    Follows (ReportService.validateReport row.reportContentType row.postId row.commentId
        (some row.reportedUserId) (some row.reportStatus))
      (Yields x fun _ _ => row.reportStatus = .pending ∧ ∃ target, row.target = some target)
      x := by
  by_cases h : row.reportStatus = .pending ∧ ∃ target, row.target = some target
  · refine Track.imp ?_ (follows_of_plain
      (validateReport_every (fun _ => plain_select _) (fun _ => plain_select _) _ _ _ _ _))
    exact fun x' o hy a ha => ⟨(hy a ha).1, h⟩
  · obtain ⟨e, he⟩ := validateReport_raise h
    rw [he]
    exact yields_error x e

/-- The updates of a decision, on top of earlier ones. -/
structure Deciding (target : Target) (batch done : List Report) (x x' : Summary) : Prop where
  user : ∀ user, x.user = some user → x'.user = some user
  reads : x.reads ⊆ x'.reads
  read : x'.Read (.pendingOf target) batch
  updated : ∀ row ∈ done, ∃ set, x'.Updated (.report row.reportId set)
  only : ∀ e ∈ x'.writes, ∃ reportId set, e.op = .update (.report reportId set)

theorem deciding_follows {target : Target} {batch : List Report} (ch : Report → ReportSet)
    (hch : ∀ row, (ch row).reportStatus ≠ .pending) :
    ∀ (rows : List Report) {done : List Report} {x' : Summary}, rows ⊆ batch →
      Deciding target batch done x x' →
        Follows (rows.forM fun row => perform (.update (.report row.reportId (ch row))))
          (fun x'' o => o = .ok () → Deciding target batch (done ++ rows) x x'') x'
  | [], done, x', _, h => fun _ => by simpa using h
  | row :: rows, done, x', hsub, h => by
      rintro (e | ⟨⟩)
      · exact ⟨⟨hch row, target, batch, row, h.read, hsub List.mem_cons_self, rfl⟩, nofun⟩
      · refine ⟨⟨hch row, target, batch, row, h.read, hsub List.mem_cons_self, rfl⟩, ?_⟩
        have hnext : Deciding target batch (done ++ [row]) x
            (x'.next ⟨.update (.report row.reportId (ch row)), .ok ()⟩) := by
          refine ⟨h.user, h.reads, h.read, fun row' hrow' => ?_, fun e he => ?_⟩
          · rcases List.mem_append.mp hrow' with hold | hnew
            · obtain ⟨set, hset⟩ := h.updated row' hold
              exact ⟨set, List.mem_append_left _ hset⟩
            · obtain rfl := List.mem_singleton.mp hnew
              exact ⟨ch row', List.mem_append_right _ (List.mem_singleton.mpr rfl)⟩
          · rcases List.mem_append.mp he with hold | hnew
            · exact h.only e hold
            · rw [List.mem_singleton.mp hnew]
              exact ⟨_, _, rfl⟩
        have hrest := deciding_follows ch hch rows
          (fun r hr => hsub (List.mem_cons_of_mem _ hr)) hnext
        rw [List.append_assoc] at hrest
        exact hrest

/-- The hiding of a post, among the updates of a decision. -/
theorem hide_follows {target : Target} {batch done : List Report} {x' : Summary}
    (h : Deciding target batch done x x') (rep : Report) (request : ReportProcessRequest) :
    Follows (ReportService.hide rep request)
      (fun x'' o => o = .ok () → (∀ e ∈ x''.writes, e.op.sanctions = false) ∧
        x'.reads ⊆ x''.reads ∧ x'.writes ⊆ x''.writes) x' := by
  have hnone : ∀ e ∈ x'.writes, e.op.sanctions = false ∧ e.op.setsPost = false := by
    intro e he
    obtain ⟨_, _, hop⟩ := h.only e he
    rw [hop]
    exact ⟨rfl, rfl⟩
  have hkeep : (fun (x'' : Summary) (o : Except AppError Unit) => o = .ok () →
      (∀ e ∈ x''.writes, e.op.sanctions = false) ∧ x'.reads ⊆ x''.reads ∧
        x'.writes ⊆ x''.writes) x' (.ok ()) :=
    fun _ => ⟨fun e he => (hnone e he).1, List.Subset.refl _, List.Subset.refl _⟩
  have hpost : ∀ postId, Follows (PostRepository.hideIfPublished postId)
      (fun x'' o => o = .ok () → (∀ e ∈ x''.writes, e.op.sanctions = false) ∧
        x'.reads ⊆ x''.reads ∧ x'.writes ⊆ x''.writes) x' := by
    intro postId
    refine (follows_of_plain (getAnyById_every (plain_select _))).bind (fun _ _ => nofun)
      fun found x₁ h₁ _ => ?_
    have hnone₁ : ∀ e ∈ x₁.writes, e.op.sanctions = false ∧ e.op.setsPost = false := by
      rw [h₁.writes]
      exact hnone
    cases found with
    | none => exact nofun
    | some post =>
        dsimp only
        split
        · exact fun _ => ⟨fun e he => (hnone₁ e he).1, h₁.reads, h₁.writes ▸ List.Subset.refl _⟩
        rintro (e | ⟨⟩)
        · exact ⟨⟨fun e he => (hnone₁ e he).2, Or.inl rfl⟩, nofun⟩
        · refine ⟨⟨fun e he => (hnone₁ e he).2, Or.inl rfl⟩, fun _ => ⟨fun e he => ?_, h₁.reads,
            fun e he => List.mem_append_left _ (h₁.writes ▸ he)⟩⟩
          rcases List.mem_append.mp he with hold | hnew
          · exact (hnone₁ e hold).1
          · rw [List.mem_singleton.mp hnew]
            rfl
  have hcontent : Follows (ReportService.hideReportedContent rep)
      (fun x'' o => o = .ok () → (∀ e ∈ x''.writes, e.op.sanctions = false) ∧
        x'.reads ⊆ x''.reads ∧ x'.writes ⊆ x''.writes) x' := by
    rw [ReportService.hideReportedContent]
    split
    · exact hpost _
    · exact nofun
    · exact nofun
  rw [ReportService.hide]
  split
  · exact hcontent
  · exact hcontent
  · exact hkeep

theorem processReport_follows (hb : Begun user x) (reportId : Int)
    (request : ReportProcessRequest) :
    Follows (ReportService.processReport reportId user.userId request) anyEnd x := by
  refine (getReport_follows hb.writes reportId).rest fun found x₁ h₁ hfound => ?_
  cases found with
  | none => exact follows_raise _
  | some rep =>
      have hrep : x₁.Read (.report reportId) [rep] := hfound rep rfl
      refine (validateReport_follows rep).rest fun _ x₂ h₂ ⟨hpending, target, htarget⟩ => ?_
      split
      · exact follows_raise _
      refine follows_rollingBack ?_
      refine (follows_of_plain (Infrastructure.every_perform (by trivial))).rest
        fun now x₃ h₃ _ => ?_
      have hw₃ := (hb.later (h₁.trans (h₂.trans h₃))).writes
      simp only [ReportRepository.updateReport, sameReports_of_target htarget, pure_eq,
        ret_bind, bind_assoc]
      refine follows_select.rest fun batch x₄ h₄ hbatch => ?_
      have hstart : Deciding target batch [] x₄ x₄ :=
        ⟨fun _ h => h, List.Subset.refl _, hbatch hw₃, by simp, fun e he => by
          rw [h₄.writes, hw₃] at he
          cases he⟩
      have hsorted : ∀ row, row ∈ batch.insertionSort
          (fun row row' => row.reportId ≤ row'.reportId) ↔ row ∈ batch :=
        fun row => List.mem_insertionSort _
      have hdecided : ∀ row, (ReportRepository.decision row request.reportStatus
          request.userSanctionType user.userId (Infrastructure.datetime now)).reportStatus ≠
            .pending := by
        intro row
        cases hstatus : request.reportStatus <;>
          simp [ReportRepository.decision, Verdict.status]
      have hupdates := deciding_follows (fun row => ReportRepository.decision row
        request.reportStatus request.userSanctionType user.userId
        (Infrastructure.datetime now)) hdecided _ (fun row hrow => (hsorted row).mp hrow) hstart
      refine track_bind.mpr (Track.imp ?_ hupdates)
      rintro x₅ (e | ⟨⟩) h₅
      · trivial
      have h₅ := h₅ rfl
      refine track_bind.mpr (Track.imp ?_ (hide_follows h₅ rep request))
      rintro x₆ (e | ⟨⟩) h₆
      · trivial
      obtain ⟨hfirst, hreads, hwrites⟩ := h₆ rfl
      have hlast : Follows (perform .commit) anyEnd x₆ := follows_of_free commit_free
      have hsanction : ∀ type reason expires, Justified x₆ (.insert
          (.userSanction rep.reportedUserId type reason rep.reportId expires)) := by
        refine fun _ _ _ => ⟨hfirst, reportId, rep, target, batch, ?_, rfl, hpending, htarget,
          hreads h₅.read, fun row hrow => ?_⟩
        · exact hreads (h₅.reads (h₄.reads (h₃.reads (h₂.reads hrep))))
        · obtain ⟨set, hset⟩ := h₅.updated row ((hsorted row).mpr hrow)
          exact ⟨set, hwrites hset⟩
      show Follows (ReportService.sanction rep request >>= fun _ => perform .commit) anyEnd x₆
      rw [ReportService.sanction]
      split
      · rw [ReportService.addUserSanction]
        split
        · exact follows_raise _
        split
        · exact follows_raise _
        rw [UserSanctionRepository.addUserSanction]
        simp only [bind_assoc]
        refine follows_perform (hsanction _ _ _) fun _ => follows_of_free ?_
        exact every_bind (every_select free_select _) fun _ =>
          every_bind Infrastructure.every_refreshed fun _ => commit_free
      · exact hlast

/-! ### All of them -/

/-- Whatever a request writes has its justification. -/
theorem serve_follows (dep : Deployment) (userId : Int) (req : Request) :
    Follows (serve dep userId req) anyEnd .empty := by
  refine Infrastructure.track_inSession ?_
    (fun _ => follows_of_free (Infrastructure.every_perform fun _ => trivial))
    (fun _ => follows_of_free (Infrastructure.every_perform fun _ => trivial))
  have hbegun : Follows (getCurrentUser userId)
      (fun x o => ∀ user, o = .ok user → Begun user x) .empty := by
    rintro (e | rows)
    · exact ⟨trivial, nofun⟩
    refine ⟨trivial, ?_⟩
    match rows with
    | [] => exact nofun
    | [found] =>
        show Follows (if !found.userIsActive then _ else ret found) _ _
        split
        · exact nofun
        · rintro _ ⟨⟩
          exact ⟨rfl, rfl⟩
    | _ :: _ :: _ => exact nofun
  refine track_bind.mpr (Track.imp ?_ hbegun)
  rintro x (e | user) h
  · trivial
  have hb := h user rfl
  cases req with
  | getPost => exact follows_discard (follows_of_free (getDetail_free _ _))
  | listPosts => exact follows_discard (follows_of_free (listPosts_every light_free _))
  | createPost => exact follows_discard (createPost_follows hb _)
  | updatePost => exact follows_discard (updatePost_follows hb _ _)
  | deletePost => exact deletePost_follows hb _
  | likePost => exact follows_of_free (likePost_every light_free _ _)
  | unlikePost => exact follows_of_free (unlikePost_every light_free _ _)
  | sharePost => exact follows_discard (follows_of_free (getShareUrl_every light_free _))
  | listImages => exact follows_discard (follows_of_free (listImages_free _ _))
  | uploadImage => exact follows_discard (uploadImage_follows hb _ _ _ _)
  | listComments => exact follows_discard (follows_of_free (listComments_every light_free _ _))
  | listReplies => exact follows_discard (follows_of_free (listByParent_every light_free _))
  | createComment => exact follows_discard (createComment_follows hb _ _)
  | updateComment => exact follows_discard (updateComment_follows hb _ _)
  | deleteComment => exact deleteComment_follows hb _
  | addReport => exact follows_discard (addReport_follows hb _)
  | listReports => exact follows_discard (follows_of_free (listReports_every light_free _))
  | processReport => exact processReport_follows hb _ _

end Writing

end GreenCommunity.Board
