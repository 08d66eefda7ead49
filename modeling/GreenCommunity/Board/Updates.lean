import GreenCommunity.Board.Healthy
import GreenCommunity.Board.Listing
import GreenCommunity.Board.Posts

/-!
# Updates of posts

An update sets the columns whose fields were sent, also to NULL, which the columns of a
post do not take: the `UPDATE` is refused and the request fails.  The response shows the
post, and that counts as a view of anybody but the author: an admin who edits the post of
somebody else changes a column that was not sent.
-/

namespace GreenCommunity.Board

open GreenCommunity.Base
open GreenCommunity.Base.Prog
open GreenCommunity.Infrastructure (Collation oneOrNone changed)

/-! ## What an update is to do -/

/-- The row with the values that were sent. -/
def PostUpdate.patch (payload : PostUpdate) (row : Post) : Post :=
  { row with
    postTitle := payload.postTitle.join.getD row.postTitle
    postContent := payload.postContent.join.getD row.postContent }

/-- The tables with one post patched. -/
def patchedPosts (t : Tables) (postId : Int) (payload : PostUpdate) : Tables :=
  { t with posts := updateAt Post.postId postId payload.patch t.posts }

/-- No field was sent as null, and a new content fits its column. -/
structure PostUpdate.Storable (payload : PostUpdate) (post : Post) : Prop where
  title : payload.postTitle ≠ some none
  content : payload.postContent ≠ some none
  fits : ∀ content, payload.postContent = some (some content) → content ≠ post.postContent →
    text content = true

/-- The user is the author of the post and has a row in the table. -/
structure Post.OwnedBy (t : Tables) (post : Post) (user : User) : Prop where
  author : post.authorId = user.userId
  there : ∃ author ∈ t.users, author.userId = post.authorId

/-- The row after it has been shown to the user. -/
def Post.viewedBy (user : User) (row : Post) : Post :=
  if row.authorId = user.userId then row
  else { row with postViewCount := row.postViewCount + 1 }

/-! ## The steps of an update -/

/-- A post that is there is found by its number. -/
theorem Sequenced.active {nextId : Table → Int} {t : Tables} (h : Sequenced nextId t)
    {post : Post} (hpost : post ∈ activePosts t) :
    ((activePosts t).filter fun row => row.postId == post.postId) = [post] := by
  have hkeys : ((activePosts t).map Post.postId).Nodup :=
    (h.nodup .posts).sublist (List.filter_sublist.map _)
  rcases filter_key (k := post.postId) hkeys (fun row => row.postId == post.postId)
    (fun row hrow => by simpa using hrow) with hnil | ⟨row, hrow⟩
  · exact absurd (List.filter_eq_nil_iff.mp hnil post hpost) (by simp)
  · have hfound : post ∈ (activePosts t).filter fun row => row.postId == post.postId := by
      simp [hpost]
    rw [hrow] at hfound ⊢
    rw [List.mem_singleton.mp hfound]

section Update

variable {C : Type} [DecidableEq C] {coll : Collation} {c : C} {t : Tables} {ws : List Write}
  {s : State C} {β : Type} {Q : Except AppError β → State C → Prop}

omit [DecidableEq C] in
theorem Solo.active (h : Solo c t [] s) {post : Post} (hpost : post ∈ activePosts t) :
    ((activePosts t).filter fun row => row.postId == post.postId) = [post] :=
  h.numbered.active hpost

/-- The values to set are those that were sent. -/
theorem set_changed (post : Post) (payload : PostUpdate) :
    post.set ⟨payload.postTitle.bind (changed (some post.postTitle)),
        payload.postContent.bind (changed (some post.postContent)), none, none⟩ =
      payload.patch post := by
  have hvalue : ∀ (loaded : String) (sent : Option (Option String)),
      (sent.bind (changed (some loaded))).join.getD loaded = sent.join.getD loaded := by
    intro loaded sent
    rcases sent with _ | _ | value
    · rfl
    · rfl
    · by_cases h : value = loaded <;> simp [changed, h]
  simp only [Post.set, PostUpdate.patch, hvalue]
  rfl

/-- What is sent fits exactly if the values of the payload do. -/
theorem fits_iff (post : Post) (payload : PostUpdate) :
    (Change.post post.postId ⟨payload.postTitle.bind (changed (some post.postTitle)),
        payload.postContent.bind (changed (some post.postContent)), none, none⟩).fits = true ↔
      payload.Storable post := by
  have htitle : ∀ title, payload.postTitle = some (some title) → varchar 200 title = true :=
    fun title htitle => decide_eq_true (payload.title_fits title htitle).2
  simp only [Change.fits, Change.hasNull, Bool.and_eq_true, Bool.not_eq_true',
    Bool.or_eq_false_iff, beq_eq_false_iff_ne]
  constructor
  · rintro ⟨⟨⟨htitle', hcontent'⟩, _⟩, htext⟩
    refine ⟨fun hnull => htitle' (by simp [hnull, changed]),
      fun hnull => hcontent' (by simp [hnull, changed]), fun content hsent hne => ?_⟩
    simpa [hsent, changed, hne] using htext
  · rintro ⟨htitle', hcontent', htext⟩
    refine ⟨⟨⟨?_, ?_⟩, ?_⟩, ?_⟩
    · rcases hsent : payload.postTitle with _ | _ | title
      · simp
      · exact absurd hsent htitle'
      · by_cases h : title = post.postTitle <;> simp [changed, h]
    · rcases hsent : payload.postContent with _ | _ | content
      · simp
      · exact absurd hsent hcontent'
      · by_cases h : content = post.postContent <;> simp [changed, h]
    · rcases hsent : payload.postTitle with _ | _ | title
      · rfl
      · rfl
      · by_cases h : title = post.postTitle
        · simp [changed, h]
        · simpa [changed, h] using htitle title hsent
    · rcases hsent : payload.postContent with _ | _ | content
      · rfl
      · rfl
      · by_cases h : content = post.postContent
        · simp [changed, h]
        · simpa [changed, h] using htext content hsent h

/-- The flush of an update: a value that does not fit is refused. -/
theorem Solo.flush (h : Solo c t [] s) {post : Post} (hpost : post ∈ t.posts)
    (payload : PostUpdate) {f : Unit → BoardM β}
    (hok : payload.Storable post → ∀ ws s', Solo c t ws s' →
      ws.foldl apply t = patchedPosts t post.postId payload →
        (f ()).total (healthy coll) c Q s')
    (hno : ¬ payload.Storable post → ∀ e s', Q (.error e) s') :
    (PostRepository.flush post payload >>= f).total (healthy coll) c Q s := by
  have hset : t.update (.post post.postId
      ⟨payload.postTitle.bind (changed (some post.postTitle)),
        payload.postContent.bind (changed (some post.postContent)), none, none⟩) =
      patchedPosts t post.postId payload := by
    show { t with posts := _ } = { t with posts := _ }
    rw [updateAt_congr fun row hrow hid => ?_]
    obtain rfl := List.inj_on_of_nodup_map (h.numbered.nodup .posts) hrow hpost hid
    exact set_changed row payload
  unfold PostRepository.flush
  dsimp only
  split
  next hsent =>
    by_cases hstorable : payload.Storable post
    · exact h.update ((fits_iff post payload).mpr hstorable) fun s' h' =>
        hok hstorable _ s' h' hset
    · exact h.update_refused (Bool.eq_false_iff.mpr fun hfits =>
        hstorable ((fits_iff post payload).mp hfits)) fun e s' _ => hno hstorable e s'
  next hsame =>
    have hnone : payload.postTitle.bind (changed (some post.postTitle)) = none ∧
        payload.postContent.bind (changed (some post.postContent)) = none := by
      simpa using hsame
    have hstorable : payload.Storable post := by
      refine (fits_iff post payload).mp ?_
      rw [hnone.1, hnone.2]
      rfl
    have hself : updateAt Post.postId post.postId
        (fun row => row.set ⟨none, none, none, none⟩) t.posts = t.posts :=
      updateAt_self fun row _ _ => by simp [Post.set]
    refine hok hstorable [] s h ?_
    rw [← hset, hnone.1, hnone.2]
    show t = { t with posts := updateAt _ _ _ _ }
    rw [hself]

/-! ## The response -/

/-- The likes may be anything here, and reading them changes nothing. -/
theorem Solo.like (h : Solo c t ws s) {op : Op} {f : Result op → BoardM β} (r₀ : Result op)
    (hop : ∀ r s', does coll c s op r s' ↔ s' = { s with db := s.db.read c })
    (hrefuses : ∀ e, ¬ refuses op e)
    (hok : ∀ r s', Solo c t ws s' → (f r).total (healthy coll) c Q s') :
    (perform op >>= f).total (healthy coll) c Q s := by
  refine ⟨⟨.ok r₀, _, (hop r₀ _).mpr rfl⟩, ?_⟩
  rintro (e | r) s' hs
  · exact absurd hs.1 (hrefuses e)
  · obtain rfl := (hop r s').mp hs
    exact hok r _ h.read

/-- Counting the likes and listing the images. -/
theorem Solo.detailed (h : Solo c t [] s) {post : Post} (author : User) (postId userId : Int) :
    Prog.total (healthy coll) c (do
        let postLikeCount ← perform (.countLikes postId)
        let isLiked ← perform (.getLike postId userId)
        let images ← PostRepository.listImages postId
        return (⟨post, author, postLikeCount, isLiked, images ≠ []⟩ : PostDetail))
      (fun o s' => (∃ detail, o = .ok detail) ∧ s'.db.committed = t) s := by
  refine h.like (0 : Nat) (fun _ _ => Iff.rfl) (fun _ => id) fun count s₁ h₁ => ?_
  refine h₁.like false (fun _ _ => Iff.rfl) (fun _ => id) fun liked s₂ h₂ => ?_
  exact h₂.select fun images s₃ _ h₃ => ⟨⟨_, rfl⟩, h₃.committed⟩

/-- Showing a post that is there: the view counter is all that changes. -/
theorem Solo.getDetail (h : Solo c t [] s) {post : Post} (hpost : post ∈ activePosts t)
    (hauthor : ∃ author ∈ t.users, author.userId = post.authorId) (user : User) :
    (PostService.getDetail post.postId user).total (healthy coll) c (fun o s' =>
      (∃ detail, o = .ok detail) ∧ s'.db.committed =
        { t with posts := updateAt Post.postId post.postId (Post.viewedBy user) t.posts }) s := by
  obtain ⟨author, hmem, hid⟩ := hauthor
  have hstored : post ∈ t.posts := (List.mem_filter.mp hpost).1
  have honly : ∀ row ∈ t.posts, row.postId = post.postId → row = post := fun row hrow hrowId =>
    List.inj_on_of_nodup_map (h.numbered.nodup .posts) hrow hstored hrowId
  unfold PostService.getDetail PostRepository.getDetail
  rw [Prog.bind_assoc]
  refine h.select fun rows s₁ hrows h₁ => ?_
  obtain rfl : rows = [(post, author)] := by
    have hanswer : rows = withAuthors t
        ((activePosts t).filter fun row => row.postId == post.postId) := hrows
    rw [hanswer, h.active hpost]
    have hauthors : (t.users.filter fun user => user.userId == post.authorId) = [author] :=
      author_of_post h.numbered.users hmem hid
    simp [withAuthors, hauthors]
  show Prog.total _ _ (PostService.countView post user >>= _) _ _
  unfold PostService.countView
  split
  next hother =>
    have hviews : t.update (.views post.postId) =
        { t with posts := updateAt Post.postId post.postId (Post.viewedBy user) t.posts } := by
      show { t with posts := _ } = { t with posts := _ }
      rw [updateAt_congr fun row hrow hrowId => ?_]
      rw [honly row hrow hrowId, Post.viewedBy, if_neg hother]
    unfold PostRepository.incrementViews
    rw [Prog.bind_assoc, Prog.bind_assoc]
    refine h₁.update rfl fun s₂ h₂ => ?_
    rw [Prog.bind_assoc]
    refine h₂.select fun rows s₃ hrows h₃ => ?_
    obtain rfl := hrows
    refine total_refreshed (h₂.numbered.nodup .posts) (k := post.postId)
      (fun row hrow => by simpa using hrow) ?_ fun row _ _ => ?_
    · refine ⟨_, mem_updateAt.mpr (Or.inl ⟨post, hstored, rfl, rfl⟩), ?_⟩
      simp
    · rw [Prog.bind_assoc]
      refine total_bind.mpr (h₃.commit fun s₄ h₄ => ?_)
      rw [← hviews]
      exact h₄.detailed author post.postId user.userId
  next hown =>
    have hviews : updateAt Post.postId post.postId (Post.viewedBy user) t.posts = t.posts := by
      refine updateAt_self fun row hrow hrowId => ?_
      rw [honly row hrow hrowId, Post.viewedBy, if_pos (not_not.mp hown)]
    rw [hviews]
    exact h₁.detailed author post.postId user.userId

/-- The author or an admin gets the post. -/
theorem Solo.getOwned (h : Solo c t [] s) {post : Post} (hpost : post ∈ activePosts t)
    {user : User} (howner : post.authorId = user.userId ∨ user.userRole = .admin)
    {f : Post → BoardM β}
    (hok : ∀ s', Solo c t [] s' → (f post).total (healthy coll) c Q s') :
    (PostService.getOwned post.postId user >>= f).total (healthy coll) c Q s := by
  have hguard : ¬ (post.authorId ≠ user.userId ∧ user.userRole ≠ .admin) := by
    rintro ⟨hauthor, hrole⟩
    exact howner.elim hauthor hrole
  unfold PostService.getOwned PostRepository.getById
  rw [Prog.bind_assoc, Prog.bind_assoc]
  refine h.select fun rows s' hrows h' => ?_
  obtain rfl : rows = [post] := by
    have hanswer : rows = (activePosts t).filter fun row => row.postId == post.postId := hrows
    rw [hanswer, h.active hpost]
  show Prog.total _ _ ((if _ then _ else _) >>= f) _ _
  rw [if_neg hguard]
  exact hok s' h'

end Update

end GreenCommunity.Board
