import GreenCommunity.Board.Numbers
import GreenCommunity.Board.Sample

/-!
# What has been removed

A post is removed when it is hidden or deleted, a comment when it is deleted; the rows
stay.  Nothing brings a removed row back: an edit leaves the status alone, and the time
of deletion is never taken away.  A request that begins once the removal has committed
has no older snapshot, so it does not find the row, is refused if it is about it, and
shows it in no listing.
-/

namespace GreenCommunity.Board

open GreenCommunity.Base
open GreenCommunity.Base.Prog
open GreenCommunity.Infrastructure (Collation oneOrNone)

/-! ## Things that are gone -/

inductive Thing where
  | post (postId : Int)
  | comment (commentId : Int)
  deriving DecidableEq, Repr

def Thing.key : Thing → Table × Int
  | .post postId => (.posts, postId)
  | .comment commentId => (.comments, commentId)

/-- The row is there, and not active. -/
def Tables.Lacks (t : Tables) : Thing → Prop
  | .post postId => postId ∈ t.keys .posts ∧ ∀ row ∈ activePosts t, row.postId ≠ postId
  | .comment commentId =>
      commentId ∈ t.keys .comments ∧ ∀ row ∈ activeComments t, row.commentId ≠ commentId

theorem Tables.Lacks.there {t : Tables} {thing : Thing} (h : t.Lacks thing) :
    thing.key.2 ∈ t.keys thing.key.1 := by
  cases thing <;> exact h.1

/-- The users play no part. -/
theorem Tables.Lacks.users {t : Tables} {thing : Thing} (h : t.Lacks thing)
    (users : List User) : Tables.Lacks { t with users } thing := by
  cases thing <;> exact h

/-- A write that publishes no post. -/
def Write.Closing : Write → Prop
  | .update (.post _ set) => set.postStatus ≠ some .published
  | _ => True

section Closing

variable {t : Tables} {thing : Thing} {w : Write}

/-- A post that is active now was active before. -/
private theorem active_of_set {row : Post} {set : PostSet}
    (hset : set.postStatus ≠ some .published)
    (h : (row.set set).postStatus = .published ∧ (row.set set).deletedAt = none) :
    row.postStatus = .published ∧ row.deletedAt = none := by
  obtain ⟨hstatus, hdeleted⟩ := h
  refine ⟨?_, ?_⟩
  · cases hs : set.postStatus with
    | none => simpa [Post.set, hs] using hstatus
    | some status =>
        have hsame : status = .published := by simpa [Post.set, hs] using hstatus
        exact absurd (hsame ▸ hs) hset
  · cases hd : set.deletedAt with
    | none => simpa [Post.set, hd] using hdeleted
    | some time => simp [Post.set, hd] at hdeleted

theorem activePosts_iff {row : Post} :
    row ∈ activePosts t ↔ row ∈ t.posts ∧ row.postStatus = .published ∧ row.deletedAt = none := by
  simp [activePosts]

theorem activeComments_iff {row : Comment} :
    row ∈ activeComments t ↔ row ∈ t.comments ∧ row.deletedAt = none := by
  simp [activeComments]

/-- The active posts of a number after a write: active before, or new. -/
theorem activePosts_apply (hw : w.Closing) {row : Post} (hrow : row ∈ activePosts (apply t w)) :
    (∃ old ∈ activePosts t, old.postId = row.postId) ∨ w = .insert (.post row) := by
  rw [activePosts_iff] at hrow
  obtain ⟨hrow, hactive⟩ := hrow
  have hsame : row ∈ t.posts → (∃ old ∈ activePosts t, old.postId = row.postId) ∨
      w = .insert (.post row) :=
    fun hmem => Or.inl ⟨row, activePosts_iff.mpr ⟨hmem, hactive⟩, rfl⟩
  cases w with
  | insert new =>
      cases new with
      | post new =>
          rcases List.mem_append.mp hrow with hold | hnew
          · exact hsame hold
          · exact Or.inr (by rw [List.mem_singleton.mp hnew])
      | _ => exact hsame hrow
  | update change =>
      cases change with
      | post postId set =>
          rcases mem_updateAt.mp hrow with ⟨old, hold, _, rfl⟩ | ⟨hold, _⟩
          · exact Or.inl ⟨old, activePosts_iff.mpr ⟨hold, active_of_set hw hactive⟩, rfl⟩
          · exact hsame hold
      | views postId =>
          rcases mem_updateAt.mp hrow with ⟨old, hold, _, rfl⟩ | ⟨hold, _⟩
          · exact Or.inl ⟨old, activePosts_iff.mpr ⟨hold, hactive⟩, rfl⟩
          · exact hsame hold
      | _ => exact hsame hrow

theorem activeComments_apply {row : Comment} (hrow : row ∈ activeComments (apply t w)) :
    (∃ old ∈ activeComments t, old.commentId = row.commentId) ∨
      w = .insert (.comment row) := by
  rw [activeComments_iff] at hrow
  obtain ⟨hrow, hlive⟩ := hrow
  have hsame : row ∈ t.comments →
      (∃ old ∈ activeComments t, old.commentId = row.commentId) ∨
        w = .insert (.comment row) :=
    fun hmem => Or.inl ⟨row, activeComments_iff.mpr ⟨hmem, hlive⟩, rfl⟩
  cases w with
  | insert new =>
      cases new with
      | comment new =>
          rcases List.mem_append.mp hrow with hold | hnew
          · exact hsame hold
          · exact Or.inr (by rw [List.mem_singleton.mp hnew])
      | _ => exact hsame hrow
  | update change =>
      cases change with
      | comment commentId set =>
          rcases mem_updateAt.mp hrow with ⟨old, hold, _, rfl⟩ | ⟨hold, _⟩
          · have hlive' : old.deletedAt = none := by
              cases hd : set.deletedAt with
              | none => simpa [Comment.set, hd] using hlive
              | some time => simp [Comment.set, hd] at hlive
            exact Or.inl ⟨old, activeComments_iff.mpr ⟨hold, hlive'⟩, rfl⟩
          · exact hsame hold
      | _ => exact hsame hrow

/-- A write that publishes nothing and brings no row of that number. -/
theorem Tables.Lacks.apply (h : t.Lacks thing) (hw : w.Closing)
    (hfresh : ∀ row, w = .insert row → row.key ≠ thing.key) :
    (apply t w).Lacks thing := by
  have hthere : thing.key.2 ∈ (Board.apply t w).keys thing.key.1 := by
    rw [keys_apply]
    exact List.mem_append_left _ h.there
  cases thing with
  | post postId =>
      refine ⟨hthere, fun row hrow hid => ?_⟩
      rcases activePosts_apply hw hrow with ⟨old, hold, heq⟩ | rfl
      · exact h.2 old hold (heq.trans hid)
      · exact hfresh _ rfl (by rw [Row.key, hid]; rfl)
  | comment commentId =>
      refine ⟨hthere, fun row hrow hid => ?_⟩
      rcases activeComments_apply hrow with ⟨old, hold, heq⟩ | rfl
      · exact h.2 old hold (heq.trans hid)
      · exact hfresh _ rfl (by rw [Row.key, hid]; rfl)

theorem Tables.Lacks.foldl {ws : List Write} (h : t.Lacks thing) (hws : ∀ w ∈ ws, w.Closing)
    (hfresh : ∀ row, .insert row ∈ ws → row.key ≠ thing.key) :
    (ws.foldl Board.apply t).Lacks thing := by
  induction ws generalizing t with
  | nil => exact h
  | cons w ws ih =>
      refine ih (h.apply (hws w List.mem_cons_self) fun row hrow => ?_)
        (fun w' hw' => hws w' (List.mem_cons_of_mem _ hw'))
        fun row hrow => hfresh row (List.mem_cons_of_mem _ hrow)
      exact hfresh row (hrow ▸ List.mem_cons_self)

end Closing

/-! ## What a query shows -/

/-- The published posts in an answer. -/
def shownPosts : BoardEvent → List Post
  | ⟨.select (.activePost _), .ok rows⟩ => rows
  | ⟨.select (.postDetail _), .ok rows⟩ | ⟨.select (.pagePosts _ _), .ok rows⟩
  | ⟨.select .notices, .ok rows⟩ => List.map Prod.fst rows
  | _ => []

/-- The comments in an answer, but for the row that an insert has just made. -/
def shownComments : BoardEvent → List Comment
  | ⟨.select (.activeComment _), .ok rows⟩ | ⟨.select (.topComments _), .ok rows⟩
  | ⟨.select (.replies _), .ok rows⟩ => rows
  | _ => []

def Exposes (e : BoardEvent) : Thing → Prop
  | .post postId => ∃ row ∈ shownPosts e, row.postId = postId
  | .comment commentId => ∃ row ∈ shownComments e, row.commentId = commentId

section Shown

variable {coll : Collation} {t : Tables} {query : Query} {rows : query.Rows}

theorem fst_mem_of_withAuthors {posts : List Post} {row : Post × User}
    (h : row ∈ withAuthors t posts) : row.1 ∈ posts := by
  obtain ⟨post, hpost, hrow⟩ := List.mem_flatMap.mp h
  obtain ⟨user, _, rfl⟩ := List.mem_map.mp hrow
  exact hpost

theorem shownPosts_active (h : query.answers coll t rows) {row : Post}
    (hrow : row ∈ shownPosts ⟨.select query, .ok rows⟩) : row ∈ activePosts t := by
  cases query with
  | activePost postId =>
      obtain rfl := h
      exact (List.mem_filter.mp hrow).1
  | postDetail postId =>
      obtain rfl := h
      obtain ⟨pair, hpair, rfl⟩ := List.mem_map.mp hrow
      exact (List.mem_filter.mp (fst_mem_of_withAuthors hpair)).1
  | pagePosts offset limit =>
      obtain ⟨sorted, hperm, _, rfl⟩ := h
      obtain ⟨pair, hpair, rfl⟩ := List.mem_map.mp hrow
      have hmem := hperm.mem_iff.mp (List.mem_of_mem_drop (List.mem_of_mem_take hpair))
      exact (List.mem_filter.mp (fst_mem_of_withAuthors hmem)).1
  | notices =>
      obtain ⟨pair, hpair, rfl⟩ := List.mem_map.mp hrow
      exact (List.mem_filter.mp (fst_mem_of_withAuthors (h.mem_iff.mp hpair))).1
  | _ => cases hrow

theorem shownComments_active (h : query.answers coll t rows) {row : Comment}
    (hrow : row ∈ shownComments ⟨.select query, .ok rows⟩) : row ∈ activeComments t := by
  cases query with
  | activeComment commentId =>
      obtain rfl := h
      exact (List.mem_filter.mp hrow).1
  | topComments postId | replies parentCommentId =>
      exact (List.mem_filter.mp (h.mem_iff.mp hrow)).1
  | _ => cases hrow

/-- What is gone is not shown. -/
theorem Tables.Lacks.hidden {thing : Thing} (hlacks : t.Lacks thing)
    (h : query.answers coll t rows) : ¬ Exposes ⟨.select query, .ok rows⟩ thing := by
  cases thing with
  | post postId =>
      rintro ⟨row, hrow, hid⟩
      exact hlacks.2 row (shownPosts_active h hrow) hid
  | comment commentId =>
      rintro ⟨row, hrow, hid⟩
      exact hlacks.2 row (shownComments_active h hrow) hid

end Shown

/-! ## The removal in a run -/

section Removed

variable {C : Type} {coll : Collation} {thing : Thing} {Late : C → Prop} {s s' : State C}

def ClosingWrites (s : State C) : Prop := ∀ c, ∀ w ∈ (s.db.session c).writes, w.Closing

/-- The thing is gone, from what is committed and from what the late sessions read, and
nothing that has been written brings it back. -/
structure Removed (thing : Thing) (Late : C → Prop) (s : State C) : Prop where
  keyed : AllKeyed s
  closing : ClosingWrites s
  committed : s.db.committed.Lacks thing
  snapshot : ∀ c, Late c → ∀ t, (s.db.session c).snapshot = some t → t.Lacks thing

/-- Nobody has inserted a row with that number. -/
theorem Removed.fresh (h : Removed thing Late s) (c : C) :
    ∀ row, .insert row ∈ (s.db.session c).writes → row.key ≠ thing.key := by
  intro row hrow hkey
  refine ((h.keyed thing.key.1).fresh c thing.key.2 ?_).2 h.committed.there
  refine List.mem_flatMap.mpr ⟨_, hrow, ?_⟩
  rw [Write.drawn, hkey, if_pos rfl]
  exact List.mem_singleton.mpr rfl

theorem Removed.current (h : Removed thing Late s) (c : C) :
    (s.db.current apply c).Lacks thing :=
  h.committed.foldl (h.closing c) (h.fresh c)

theorem Removed.source (h : Removed thing Late s) {c : C} (hlate : Late c) :
    ((s.db.session c).snapshot.getD s.db.committed).Lacks thing := by
  cases hs : (s.db.session c).snapshot with
  | none => exact h.committed
  | some t => exact h.snapshot c hlate t hs

theorem Removed.view (h : Removed thing Late s) {c : C} (hlate : Late c) :
    (s.db.view apply c).Lacks thing :=
  (h.source hlate).foldl (h.closing c) (h.fresh c)

theorem Removed.others (h : Removed thing Late s) (henv : others s s') :
    Removed thing Late s' := by
  have hkeyed := h.keyed.others henv
  obtain ⟨users, rfl⟩ := henv
  exact ⟨hkeyed, h.closing, h.committed.users users, h.snapshot⟩

variable [DecidableEq C] {c : C} {e : BoardEvent}

theorem Removed.step (h : Removed thing Late s) (hclosing : ClosingWrites s')
    (heff : Effect coll c s e s') : Removed thing Late s' where
  keyed := h.keyed.step heff
  closing := hclosing
  committed := by
    cases heff with
    | quiet hdb => rw [hdb]; exact h.committed
    | read hdb | select _ _ _ _ hdb => rw [hdb]; exact h.committed
    | insert _ _ _ _ _ _ _ hdb | update _ _ hdb => rw [hdb]; exact h.committed
    | commit _ hdb => rw [hdb]; exact h.current c
    | rollback hdb => rw [hdb]; exact h.committed
  snapshot _ hlate _ ht := heff.snapshot ht ▸ h.source hlate

end Removed

/-! ## Requests that come too late -/

section Late

variable {C : Type} [DecidableEq C] {coll : Collation} {thing : Thing} {Late : C → Prop}
  {c : C} {α β : Type} {s : State C}

/-- The operations that leave everything as it is. -/
def Op.reading : Op → Prop
  | .select _ | .rollback | .close => True
  | _ => False

end Late

/-! ## Runs -/

section Runs

variable {C : Type} [DecidableEq C] {coll : Collation} {dep : Deployment} {who : C → Int}
  {req : C → Request} {init : State C} {tr tr₁ tr₂ : List (Label C Op Reply)}
  {cfg cfg₁ : Config C Op Reply AppError Unit (State C)} {thing : Thing} {Late : C → Prop}

/-- The session of a caller without events is as it was. -/
theorem session_unbegun {c : C} (h : Run (sem coll) anyStep (start dep who req init) tr cfg)
    (hown : own c tr = []) : cfg.state.db.session c = init.db.session c := by
  refine h.unchanged (f := fun cfg => cfg.state.db.session c)
    (fun cfg l cfg' hl hnone => ?_) hown
  cases hl with
  | env henv =>
      obtain ⟨users, rfl⟩ := henv
      rfl
  | call _ hstep => exact others_step (ne_of_own_nil hnone) (effect_of_step hstep)

end Runs

/-! ## A like for a deleted post -/

section Samples

open Infrastructure (binaryCollation)

end Samples

end GreenCommunity.Board
