import GreenCommunity.Board.Alone
import GreenCommunity.Board.Footprint
import GreenCommunity.Board.Sample
import GreenCommunity.Board.Transactions

/-!
# Image uploads

An upload stores three objects under keys of its own, inserts the row that names them,
and commits.  `Imaging` is how far a request has got with that.  When an upload fails the
transaction is rolled back, and the objects stay: the storage has no way to remove one.
-/

namespace GreenCommunity.Board

open GreenCommunity.Base
open GreenCommunity.Base.Prog
open GreenCommunity.Infrastructure (Collation every_perform)

/-! ## Keys -/

def originalKey (postId : Int) (fileId suffix : String) : String :=
  s!"posts/{postId}/original/{fileId}{suffix}"

def contentKey (postId : Int) (fileId : String) : String :=
  s!"posts/{postId}/content/{fileId}.webp"

def thumbnailKey (postId : Int) (fileId : String) : String :=
  s!"posts/{postId}/thumbnail/{fileId}.webp"

/-- The three keys of a file. -/
def fileKeys (postId : Int) (fileId suffix : String) : List String :=
  [originalKey postId fileId suffix, contentKey postId fileId, thumbnailKey postId fileId]

def PostImage.keys (row : PostImage) : List String :=
  [row.imageOriginalPath, row.imageContentPath, row.imageThumbnailPath]

/-- The row names the keys of a file. -/
def PostImage.Names (row : PostImage) (fileId : String) : Prop :=
  ∃ suffix, row.keys = fileKeys row.postId fileId suffix

/-! ## The progress of an upload -/

/-- The file that an upload is about, and whether its row has been inserted. -/
inductive Draft where
  | none
  | drawn (fileId : String)
  | inserted (fileId : String)
  deriving DecidableEq

namespace Draft

def fileId : Draft → Option String
  | .none => .none
  | .drawn fileId | .inserted fileId => some fileId

/-- The row of the file is inserted. -/
def insert : Draft → Draft
  | .drawn fileId => .inserted fileId
  | draft => draft

def next (draft : Draft) : BoardEvent → Draft
  | ⟨.uuid4, .ok fileId⟩ => .drawn fileId
  | ⟨.insert (.postImage _ _ _ _), .ok _⟩ => draft.insert
  | ⟨.commit, .ok _⟩ | ⟨.rollback, .ok _⟩ | ⟨.close, .ok _⟩ => .none
  | _ => draft

theorem next_error (draft : Draft) (op : Op) (e : AppError) :
    draft.next ⟨op, .error e⟩ = draft := by
  cases op with
  | insert new => cases new <;> rfl
  | _ => rfl

end Draft

structure Imaging where
  draft : Draft
  /-- The keys that have been uploaded. -/
  stored : List String
  /-- The images that have been read. -/
  shown : List PostImage
  /-- There has been a commit, and no link has failed since. -/
  complete : Bool

namespace Imaging

def start : Imaging := ⟨.none, [], [], false⟩

def next (x : Imaging) (e : BoardEvent) : Imaging where
  draft := x.draft.next e
  stored := match e with
    | ⟨.upload key _ _, .ok _⟩ => key :: x.stored
    | _ => x.stored
  shown := match e with
    | ⟨.select (.postImages _), .ok rows⟩ => rows ++ x.shown
    | _ => x.shown
  complete := match e with
    | ⟨.commit, .ok _⟩ => true
    | ⟨.presign _, .error _⟩ => false
    | _ => x.complete

/-- One file at a time, its row after its objects, and links to nothing else. -/
def Admits (x : Imaging) (e : BoardEvent) : Prop :=
  match e.op with
  | .uuid4 => x.draft = .none
  | .insert (.postImage postId originalPath contentPath thumbnailPath) =>
      ∃ fileId suffix, x.draft = .drawn fileId ∧
        [originalPath, contentPath, thumbnailPath] = fileKeys postId fileId suffix ∧
        ∀ key ∈ fileKeys postId fileId suffix, key ∈ x.stored
  | .presign key => key ∈ x.stored ∨ ∃ row ∈ x.shown, key = row.imageContentPath
  | _ => True

end Imaging

section Programs

variable {α β : Type} {x : Imaging} {R : Imaging → Except AppError α → Prop}

/-- The program keeps to the rules of uploading. -/
abbrev Draws (p : BoardM α) (R : Imaging → Except AppError α → Prop) (x : Imaging) : Prop :=
  p.Track Imaging.next Imaging.Admits R x

/-- Nothing is asked of the end. -/
abbrev whereever : Imaging → Except AppError α → Prop := fun _ _ => True

theorem draws_of_imageless {p : BoardM α} (h : p.Every Op.imageless) : Draws p whereever x := by
  refine h.track (K := fun _ => True) (fun x op r hop _ => ⟨?_, trivial⟩) trivial
  cases op with
  | insert new =>
      cases new with
      | postImage => exact absurd hop id
      | _ => trivial
  | uuid4 | presign | upload => exact absurd hop id
  | _ => trivial

/-- No upload has begun. -/
def Imaging.Unbegun (x : Imaging) : Prop := x.draft = .none ∧ x.complete = false

/-- A query begins no upload. -/
theorem draws_of_selects {p : BoardM α} (h : p.Every fun op => ∃ query, op = .select query)
    (hx : x.Unbegun) : Draws p (fun x' _ => x'.Unbegun) x := by
  refine h.track (fun x op r hop hx => ⟨?_, ?_⟩) hx
  · obtain ⟨query, rfl⟩ := hop
    trivial
  · obtain ⟨query, rfl⟩ := hop
    cases r <;> exact hx

theorem draws_discard {p : BoardM α} (h : Draws p whereever x) :
    Draws (discard p) whereever x := by
  show Draws (p >>= fun _ => ret ()) whereever x
  refine track_bind.mpr (Track.imp ?_ h)
  rintro x' (e | a) _ <;> trivial

/-- What an upload leaves: its objects, or no commit. -/
def Leaves (key : String) (x : Imaging) (o : Except AppError α) : Prop :=
  (∀ a, o = .ok a → key ∈ x.stored) ∧ ∀ e, o = .error e → x.complete = false

/-- Three uploads, the row and the commit. -/
theorem storeImage_draws {postId : Int} {image : UploadFile} {suffix fileId : String}
    {contentData thumbnailData : List UInt8} (hdraft : x.draft = .drawn fileId)
    (hx : x.complete = false) :
    Draws (PostService.storeImage postId image suffix contentData thumbnailData fileId)
      (Leaves (contentKey postId fileId)) x := by
  have hundo : ∀ (e : AppError) (x' : Imaging), x'.complete = false → Draws
      (perform .rollback >>= fun _ => raise e : BoardM PostImage)
      (Leaves (contentKey postId fileId)) x' := by
    intro e x' hx' r
    have hfailed : ∀ e, Leaves (contentKey postId fileId) (x'.next ⟨.rollback, r⟩)
        (.error e : Except AppError PostImage) := fun e =>
      ⟨fun a h => (by cases h), fun _ _ => hx'⟩
    cases r <;> exact ⟨trivial, hfailed _⟩
  refine track_handle.mpr ?_
  rintro (e | ⟨⟩)
  · exact ⟨trivial, hundo e _ hx⟩
  refine ⟨trivial, ?_⟩
  rintro (e | ⟨⟩)
  · exact ⟨trivial, hundo e _ hx⟩
  refine ⟨trivial, ?_⟩
  rintro (e | ⟨⟩)
  · exact ⟨trivial, hundo e _ hx⟩
  refine ⟨trivial, fun r => ⟨⟨fileId, suffix, hdraft, rfl, ?_⟩, ?_⟩⟩
  · simp [fileKeys, originalKey, contentKey, thumbnailKey, Imaging.next]
  cases r with
  | error e => exact hundo e _ hx
  | ok imageId =>
      rintro (e | rows)
      · exact ⟨trivial, hundo e _ hx⟩
      refine ⟨trivial, ?_⟩
      match rows with
      | [] => exact hundo _ _ hx
      | _ :: _ :: _ => exact hundo _ _ hx
      | [row] =>
          rintro (e | ⟨⟩)
          · exact ⟨trivial, hundo e _ hx⟩
          · refine ⟨trivial, fun row _ => ?_, fun e h => by cases h⟩
            simp [contentKey, Imaging.next]

theorem convertImage_cases (libs : Libraries) (originalData : List UInt8) :
    (∃ datas, PostService.convertImage libs originalData = ret datas) ∨
      ∃ e, PostService.convertImage libs originalData = raise e := by
  rw [PostService.convertImage]
  split
  · exact Or.inl ⟨_, rfl⟩
  · exact Or.inr ⟨_, rfl⟩

/-- An upload fails before its commit, or at the link. -/
theorem uploadImage_draws (libs : Libraries) (storage : Bool) (postId : Int) (user : User)
    (image : UploadFile) (hx : x.Unbegun) :
    Draws (PostService.uploadImage libs storage postId user image)
      (fun x' o => ∀ e, o = .error e → x'.complete = false) x := by
  refine track_bind.mpr (Track.imp ?_ (draws_of_selects
    (getById_every (fun query => ⟨query, rfl⟩) postId) hx))
  rintro x₁ (e | found) hx₁
  · exact fun _ _ => hx₁.2
  cases found with
  | none => exact fun _ _ => hx₁.2
  | some post =>
      dsimp only
      split
      · exact fun _ _ => hx₁.2
      split
      · exact fun _ _ => hx₁.2
      split
      · exact fun _ _ => hx₁.2
      rcases convertImage_cases libs image.data with ⟨⟨contentData, thumbnailData⟩, h⟩ | ⟨e, h⟩
      · rw [h, ret_bind]
        rintro (e | fileId)
        · exact ⟨hx₁.1, fun _ _ => hx₁.2⟩
        refine ⟨hx₁.1, ?_⟩
        show Draws (PostService.storeImage postId image _ contentData thumbnailData fileId >>= _)
          _ _
        refine track_bind.mpr (Track.imp ?_ (storeImage_draws rfl hx₁.2))
        rintro x₂ (e | row) ⟨hstored, hfailed⟩
        · exact fun _ _ => hfailed e rfl
        rintro (e | url)
        · exact ⟨Or.inl (hstored row rfl), fun _ _ => rfl⟩
        · exact ⟨Or.inl (hstored row rfl), fun e h => by cases h⟩
      · rw [h]
        exact fun _ _ => hx₁.2

/-- Links are made for the images that have been read. -/
theorem presigns_draws {postId : Int} : ∀ {images : List PostImage} {x : Imaging},
    (∀ row ∈ images, row ∈ x.shown) → Draws (images.mapM fun image => do
        let imageUrl ← perform (.presign image.imageContentPath)
        return (⟨image.imageId, postId, imageUrl⟩ : PostImageResponse)) whereever x
  | [], x, h => by
      rw [List.mapM_nil]
      trivial
  | image :: images, x, h => by
      rw [List.mapM_cons]
      have hmem := h image List.mem_cons_self
      rintro (e | url)
      · exact ⟨Or.inr ⟨image, hmem, rfl⟩, trivial⟩
      refine ⟨Or.inr ⟨image, hmem, rfl⟩, ?_⟩
      show Draws (images.mapM _ >>= _) whereever _
      refine track_bind.mpr (Track.imp ?_ (presigns_draws
        fun row hrow => h row (List.mem_cons_of_mem _ hrow)))
      rintro x' (e | urls) _ <;> trivial

theorem listImages_draws (storage : Bool) (postId : Int) (hx : x.Unbegun) :
    Draws (PostService.listImages storage postId) whereever x := by
  refine track_bind.mpr (Track.imp ?_ (draws_of_selects
    (getById_every (fun query => ⟨query, rfl⟩) postId) hx))
  rintro x₁ (e | found) hx₁
  · trivial
  cases found with
  | none => trivial
  | some post =>
      rintro (e | images)
      · exact ⟨trivial, trivial⟩
      refine ⟨trivial, ?_⟩
      show Draws (if images = [] then ret [] else if !storage then _ else _) whereever _
      split
      · trivial
      split
      · trivial
      exact presigns_draws fun row hrow => List.mem_append_left _ hrow

/-- Every request keeps to the rules. -/
theorem serve_draws (dep : Deployment) (userId : Int) (req : Request) :
    Draws (serve dep userId req) whereever .start := by
  refine Infrastructure.track_inSession ?_
    (fun _ => draws_of_imageless (every_perform trivial))
    (fun _ => draws_of_imageless (every_perform trivial))
  refine track_bind.mpr (Track.imp ?_ (draws_of_selects
    (getCurrentUser_every ⟨_, rfl⟩) ⟨rfl, rfl⟩))
  rintro x (e | user) hx
  · trivial
  show Draws (call dep user req) whereever x
  by_cases hord : req.ordinary
  · exact draws_of_imageless ((call_common dep user hord).imp fun _ h => h.2)
  cases req with
  | getPost => exact draws_discard (draws_of_imageless (getDetail_imageless _ _))
  | updatePost => exact draws_discard (draws_of_imageless (updatePost_imageless _ _ _))
  | listImages => exact draws_discard (listImages_draws _ _ hx)
  | uploadImage =>
      exact draws_discard (Track.imp (fun _ _ _ => trivial) (uploadImage_draws _ _ _ _ _ hx))
  | _ => exact absurd trivial hord

end Programs

/-! ## Storage -/

section Storage

variable {C : Type} [DecidableEq C] {coll : Collation} {c : C} {s s' : State C}
  {es : List BoardEvent}

/-- What an event makes of the objects. -/
def storing (objects : String → Option (List UInt8)) (e : BoardEvent) :
    String → Option (List UInt8) :=
  match e with
  | ⟨.upload key data _, .ok _⟩ => Function.update objects key (some data)
  | _ => objects

/-- What an event makes of the UUIDs. -/
def drawing (fileIds : List String) (e : BoardEvent) : List String :=
  match e with
  | ⟨.uuid4, .ok fileId⟩ => fileId :: fileIds
  | _ => fileIds

theorem objects_step {e : BoardEvent} (h : step coll c s e.op e.reply s') :
    s'.objects = storing s.objects e ∧ s'.fileIds = drawing s.fileIds e := by
  obtain ⟨op, r⟩ := e
  cases r with
  | error e =>
      obtain ⟨_, rfl⟩ := h
      cases op <;> exact ⟨rfl, rfl⟩
  | ok r =>
      cases op with
      | select =>
          obtain ⟨_, rfl⟩ := h
          exact ⟨rfl, rfl⟩
      | insert =>
          obtain ⟨_, _, _, _, _, rfl⟩ := h
          exact ⟨rfl, rfl⟩
      | update | uuid4 =>
          obtain ⟨_, _, rfl⟩ := h
          exact ⟨rfl, rfl⟩
      | _ =>
          obtain rfl := h
          exact ⟨rfl, rfl⟩

/-- Storage after a request that runs alone. -/
theorem objects_chain (h : Chain (alone coll) s (es.map (.call c)) s') :
    s'.objects = es.foldl storing s.objects := by
  induction es generalizing s with
  | nil => rw [chain_nil.mp h]; rfl
  | cons e es ih =>
      obtain ⟨s₁, hstep, hrest⟩ := chain_cons.mp h
      rw [ih hrest, (objects_step hstep).1]
      rfl

theorem committed_chain (h : Chain (alone coll) s (es.map (.call c)) s')
    (hes : ⟨.commit, .ok ()⟩ ∉ es) : s'.db.committed = s.db.committed := by
  induction es generalizing s with
  | nil => rw [chain_nil.mp h]
  | cons e es ih =>
      obtain ⟨s₁, hstep, hrest⟩ := chain_cons.mp h
      rw [List.mem_cons, not_or] at hes
      rw [ih hrest hes.2]
      have heff : Effect coll c s e s₁ := effect_of_step hstep
      cases heff with
      | quiet hdb => rw [hdb]
      | read hdb | rollback hdb => rw [hdb]; rfl
      | select _ _ _ _ hdb | insert _ _ _ _ _ _ _ hdb | update _ _ hdb => rw [hdb]; rfl
      | commit he => exact absurd he.symm hes.1

end Storage

/-! ## Failed uploads -/

/-- After a commit only a link can fail. -/
theorem complete_foldl {es : List BoardEvent} {x : Imaging}
    (h : x.complete = true ∨ (⟨.commit, .ok ()⟩ : BoardEvent) ∈ es) :
    (es.foldl Imaging.next x).complete = true ∨
      ∃ key e, (⟨.presign key, .error e⟩ : BoardEvent) ∈ es := by
  induction es generalizing x with
  | nil => exact Or.inl (h.resolve_right (by simp))
  | cons e es ih =>
      by_cases hfail : ∃ key e', e = ⟨.presign key, .error e'⟩
      · obtain ⟨key, e', rfl⟩ := hfail
        exact Or.inr ⟨key, e', List.mem_cons_self⟩
      have hkeeps : x.complete = true → (x.next e).complete = true := by
        intro hx
        unfold Imaging.next
        dsimp only
        split
        · rfl
        · exact absurd ⟨_, _, rfl⟩ hfail
        · exact hx
      have hnext : (x.next e).complete = true ∨ (⟨.commit, .ok ()⟩ : BoardEvent) ∈ es := by
        rcases h with hx | hmem
        · exact Or.inl (hkeeps hx)
        rcases List.mem_cons.mp hmem with rfl | hmem
        · exact Or.inl rfl
        · exact Or.inr hmem
      rcases ih hnext with htrue | ⟨key, e', hmem⟩
      · exact Or.inl htrue
      · exact Or.inr ⟨key, e', List.mem_cons_of_mem _ hmem⟩

section Failures

variable {C : Type} [DecidableEq C] {coll : Collation} {c : C} {t : Tables} {ws : List Write}
  {s s' : State C} {β : Type} {Q : Except AppError β → State C → Prop}

/-- An operation that does not touch the database. -/
theorem At.outside (h : At c t ws s) {op : Op} {f : Result op → BoardM β}
    (hop : ∀ s r s', step coll c s op r s' → s'.db = s.db)
    (herr : ∀ e s', At c t ws s' → Q (.error e) s')
    (hok : ∀ r s', At c t ws s' → (f r).wp (alone coll) c Q s') :
    (perform op >>= f).wp (alone coll) c Q s := by
  have hkept : ∀ r s', step coll c s op r s' → At c t ws s' := by
    intro r s' hstep
    have hdb := hop s r s' hstep
    exact ⟨hdb ▸ h.committed, hdb ▸ h.fresh, hdb ▸ h.writes⟩
  refine wp_bind.mpr (Infrastructure.wp_perform ?_ ?_)
  · exact fun r s' hstep => hok r s' (hkept (.ok r) s' hstep)
  · exact fun e s' hstep => herr e s' (hkept (.error e) s' hstep)

theorem uuid4_db (s : State C) (r : Reply .uuid4) (s' : State C)
    (h : step coll c s .uuid4 r s') : s'.db = s.db := by
  cases r with
  | error e => rw [h.2]
  | ok r => rw [h.2.2]

theorem presign_db {key : String} (s : State C) (r : Reply (.presign key)) (s' : State C)
    (h : step coll c s (.presign key) r s') : s'.db = s.db := by
  cases r with
  | error e => rw [h.2]
  | ok r => rw [show s' = _ from h]

theorem upload_db {key : String} {data : List UInt8} {contentType : Option String}
    (s : State C) (r : Reply (.upload key data contentType)) (s' : State C)
    (h : step coll c s (.upload key data contentType) r s') : s'.db = s.db := by
  cases r with
  | error e => rw [h.2]
  | ok r => rw [show s' = _ from h]

/-- Whatever fails, the transaction is over. -/
theorem uploadImage_wp (h : At c t [] s) (libs : Libraries) (storage : Bool) (postId : Int)
    (user : User) (image : UploadFile) :
    (PostService.uploadImage libs storage postId user image).wp (alone coll) c
      (fun o s' => ∀ e, o = .error e → (s'.db.session c).writes = []) s := by
  have hfails : ∀ {β : Type} (e : AppError) {t : Tables} (s' : State C), At c t [] s' →
      ∀ e', (.error e : Except AppError β) = .error e' → (s'.db.session c).writes = [] :=
    fun _ _ _ h' _ _ => h'.writes
  rw [PostService.uploadImage, PostRepository.getById, bind_assoc]
  refine h.select (fun e s' => hfails e s') fun rows s₁ _ h₁ => ?_
  refine h₁.one (fun e s' => hfails e s') (fun _ => hfails _ _ h₁) fun post _ => ?_
  dsimp only
  split
  · exact hfails _ _ h₁
  split
  · exact hfails _ _ h₁
  split
  · exact hfails _ _ h₁
  rcases convertImage_cases libs image.data with ⟨⟨contentData, thumbnailData⟩, heq⟩ | ⟨e, heq⟩
  · rw [heq, ret_bind]
    refine h₁.outside uuid4_db (fun e s' => hfails e s') fun fileId s₂ h₂ => ?_
    have hstore : ∀ suffix, (PostService.storeImage postId image suffix contentData
        thumbnailData fileId).wp (alone coll) c (fun o s' => ∃ t', At c t' [] s') s₂ := by
      intro suffix
      refine wp_rollingBack (t := t) (fun _ s' h' => ⟨t, h'⟩) ?_
      refine h₂.outside upload_db (fun _ _ h' => ⟨_, h'⟩) fun _ s₃ h₃ => ?_
      refine h₃.outside upload_db (fun _ _ h' => ⟨_, h'⟩) fun _ s₄ h₄ => ?_
      refine h₄.outside upload_db (fun _ _ h' => ⟨_, h'⟩) fun _ s₅ h₅ => ?_
      rw [PostRepository.addImage, bind_assoc]
      refine h₅.insert (fun _ _ h' => ⟨_, h'⟩) fun n createdAt row s₆ _ h₆ => ?_
      rw [bind_assoc]
      refine h₆.select (fun _ _ h' => ⟨_, h'⟩) fun rows s₇ _ h₇ => ?_
      refine h₇.refreshed (fun _ _ h' => ⟨_, h'⟩) fun row' => ?_
      refine wp_bind.mpr (h₇.commit (fun _ _ h' => ⟨_, h'⟩) fun s' h' => ⟨_, h'⟩)
    refine wp_bind.mpr (wp_mono ?_ (hstore _))
    rintro (e | row) s₃ ⟨t', h₃⟩
    · exact hfails _ _ h₃
    · exact h₃.outside presign_db (fun e s' => hfails e s') fun url s' _ e he => by cases he
  · rw [heq]
    exact hfails _ _ h₁

/-- When an upload raises, storage holds what it held and the objects of those uploads
that have returned.  The transaction is over, and the tables are as they were unless it
is only the link that failed. -/
theorem uploadImage_failure {libs : Libraries} {storage : Bool} {postId : Int} {user : User}
    {image : UploadFile} {evs : List (State C × BoardEvent)} {e : AppError} (h0 : At c t [] s)
    (h : Exec (alone coll) c s (PostService.uploadImage libs storage postId user image) evs
      (some (.error e)) s') :
    s'.objects = (evs.map Prod.snd).foldl storing s.objects ∧
      (s'.db.session c).writes = [] ∧
      (s'.db.committed = t ∨
        ∃ key e', (⟨.presign key, .error e'⟩ : BoardEvent) ∈ evs.map Prod.snd) := by
  have hchain := h.chain fun _ _ henv => henv
  have hclean := h.wp (fun _ _ henv => henv) (uploadImage_wp h0 libs storage postId user image)
  have htrack : Draws (PostService.uploadImage libs storage postId user image) _
      (([] : List BoardEvent).foldl Imaging.next .start) :=
    uploadImage_draws libs storage postId user image ⟨rfl, rfl⟩
  have hpost := h.post htrack.hist e rfl
  refine ⟨objects_chain hchain, hclean e rfl, ?_⟩
  by_cases hcommit : (⟨.commit, .ok ()⟩ : BoardEvent) ∈ evs.map Prod.snd
  · rcases complete_foldl (x := .start) (Or.inr hcommit) with htrue | hlink
    · rw [List.nil_append] at hpost
      exact absurd (htrue.symm.trans hpost) (by decide)
    · exact Or.inr hlink
  · exact Or.inl ((committed_chain hchain hcommit).trans h0.committed)

end Failures

section Samples

open Infrastructure (binaryCollation)

/-- Images that convert to one byte. -/
def sampleLibraries : Libraries where
  resizeImage _ _ := some [1]
  createThumbnailImage _ := some [2]
  lower := id

def photo : UploadFile := ⟨some "a.png", some "image/png", [0]⟩

def photoId : String := "11111111-1111-4111-8111-111111111111"

/-- The second upload fails. -/
def failingUpload : List BoardEvent :=
  [⟨.select (.activePost 3), .ok [badPost]⟩, ⟨.uuid4, .ok photoId⟩,
    ⟨.upload (originalKey 3 photoId ".png") [0] (some "image/png"), .ok ()⟩,
    ⟨.upload (contentKey 3 photoId) [1] (some "image/webp"), .error .serviceError⟩,
    ⟨.rollback, .ok ()⟩]

private theorem failingUpload_exec : ∃ evs s',
    Exec (alone binaryCollation) false board
        (PostService.uploadImage sampleLibraries true 3 spammer photo) evs
        (some (.error .serviceError)) s' ∧
      s'.objects = Function.update board.objects (originalKey 3 photoId ".png") (some [0]) := by
  have hchain : ∃ s', Chain (alone binaryCollation) board (failingUpload.map (.call false)) s' ∧
      s'.objects =
        Function.update board.objects (originalKey 3 photoId ".png") (some [0]) := by
    refine ⟨_, .call ⟨rfl, rfl⟩ (.call ⟨by decide, by simp [board], rfl⟩
      (.call rfl (.call ⟨rfl, rfl⟩ (.call rfl .nil)))), rfl⟩
  obtain ⟨s', hchain, hs⟩ := hchain
  have hruns : (PostService.uploadImage sampleLibraries true 3 spammer photo).Runs
      failingUpload (.raise .serviceError) :=
    .cons (.cons (.cons (.cons (.cons .nil))))
  obtain ⟨evs, _, _, hexec⟩ := Exec.of_chain (P := fun _ => True) (fun _ => rfl)
    (fun _ _ _ _ _ _ => trivial) hruns rfl trivial hchain
  exact ⟨evs, s', hexec, hs⟩

/-- The first object stays. -/
theorem failed_upload_leaves_object :
    ¬ ∀ (s s' : State Bool) (libs : Libraries) (storage : Bool) (postId : Int) (user : User)
        (image : UploadFile) (evs : List (State Bool × BoardEvent)) (e : AppError),
      At false s.db.committed [] s →
      Exec (alone binaryCollation) false s
          (PostService.uploadImage libs storage postId user image) evs (some (.error e)) s' →
        s'.db.committed.postImages = s.db.committed.postImages ∧
          ∀ key, (s'.objects key).isSome = (s.objects key).isSome := by
  intro h
  obtain ⟨evs, s', hexec, hs⟩ := failingUpload_exec
  have hsame := (h board s' _ _ _ _ _ evs _ (at_of_idle rfl) hexec).2
    (originalKey 3 photoId ".png")
  rw [hs, Function.update_self] at hsame
  exact absurd hsame (by decide)

/-- The failing upload. -/
theorem uploadImage_failure_sample : ∃ evs s',
    Exec (alone binaryCollation) false board
        (PostService.uploadImage sampleLibraries true 3 spammer photo) evs
        (some (.error .serviceError)) s' ∧
      s'.objects = (evs.map Prod.snd).foldl storing board.objects ∧
      (s'.db.session false).writes = [] ∧
      (s'.db.committed = board.db.committed ∨
        ∃ key e', (⟨.presign key, .error e'⟩ : BoardEvent) ∈ evs.map Prod.snd) := by
  obtain ⟨evs, s', hexec, _⟩ := failingUpload_exec
  exact ⟨evs, s', hexec, uploadImage_failure (at_of_idle rfl) hexec⟩

end Samples

end GreenCommunity.Board
