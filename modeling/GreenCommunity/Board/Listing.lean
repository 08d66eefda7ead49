import GreenCommunity.Board.Alone
import GreenCommunity.Board.Sample
import Mathlib.Data.List.Dedup

/-!
# Listings

Each listing asks for a total and for a page, by different queries or by a slice in
memory.  On tables that do not change the pages of one listing are slices of the same
sorted rows, because the primary keys leave `ORDER BY` no choice.
-/

namespace GreenCommunity.Board

open GreenCommunity.Base
open GreenCommunity.Base.Prog
open GreenCommunity.Common
open GreenCommunity.Infrastructure (Collation)

/-! ## Rows and orders -/

/-- What the database guarantees of its tables, and that no user is ever deleted. -/
structure Sound (t : Tables) : Prop where
  users : (t.users.map User.userId).Nodup
  posts : (t.posts.map Post.postId).Nodup
  comments : (t.comments.map Comment.commentId).Nodup
  authors : ∀ post ∈ t.posts, ∃ user ∈ t.users, user.userId = post.authorId

def Post.Newer (row row' : Post) : Prop := row'.postId < row.postId

def User.Newer (row row' : User) : Prop := row'.userId < row.userId

def Comment.Newer (row row' : Comment) : Prop :=
  row'.createdAt < row.createdAt ∨
    (row'.createdAt = row.createdAt ∧ row'.commentId < row.commentId)

section Orders

variable {R : Type} {key : R → Int} {rows rows' : List R}

/-- Rows with different keys are in strict order. -/
theorem strict_of_keys (hkeys : (rows.map key).Nodup)
    (h : rows.Pairwise fun row row' => key row' ≤ key row) :
    rows.Pairwise fun row row' => key row' < key row := by
  have hne : rows.Pairwise fun row row' => key row ≠ key row' := List.pairwise_map.mp hkeys
  exact (h.and hne).imp fun h => lt_of_le_of_ne h.1 (Ne.symm h.2)

/-- There is one order of rows with different keys. -/
theorem eq_of_keys (hkeys : (rows.map key).Nodup) (hperm : rows'.Perm rows)
    (h : rows.Pairwise fun row row' => key row' ≤ key row)
    (h' : rows'.Pairwise fun row row' => key row' ≤ key row) : rows' = rows :=
  List.Perm.eq_of_pairwise (fun _ _ hrow hrow' hle hle' =>
    List.inj_on_of_nodup_map hkeys (hperm.subset hrow) hrow' (le_antisymm hle' hle)) h' h hperm

end Orders

/-- The join finds one author. -/
theorem author_of_post {t : Tables} (husers : (t.users.map User.userId).Nodup) {user : User}
    (huser : user ∈ t.users) {post : Post} (hid : user.userId = post.authorId) :
    (t.users.filter fun user => user.userId == post.authorId) = [user] := by
  rcases filter_key (k := post.authorId) husers (fun user => user.userId == post.authorId)
    (fun row h => by simpa using h) with hnil | ⟨row, hrow⟩
  · exact absurd (List.filter_eq_nil_iff.mp hnil user huser) (by simp [hid])
  · have hmem : user ∈ t.users.filter fun user => user.userId == post.authorId := by
      simp [huser, hid]
    rw [hrow] at hmem ⊢
    rw [List.mem_singleton.mp hmem]

/-- With its author each post comes once. -/
theorem withAuthors_posts {t : Tables} (hsound : Sound t) {posts : List Post}
    (hsub : posts ⊆ t.posts) : (withAuthors t posts).map Prod.fst = posts := by
  induction posts with
  | nil => rfl
  | cons post posts ih =>
      obtain ⟨hpost, hposts⟩ := List.cons_subset.mp hsub
      obtain ⟨user, huser, hid⟩ := hsound.authors post hpost
      have hrest := ih hposts
      rw [withAuthors] at hrest ⊢
      rw [List.flatMap_cons, List.map_append, hrest, author_of_post hsound.users huser hid]
      rfl

/-! ## Responses -/

section Responses

variable {C α : Type} [DecidableEq C] {coll : Collation} {c : C} {t : Tables} {s : State C}

/-- With nobody else about and the tables `t` in the database, the call returns `a`. -/
def Responds (coll : Collation) (c : C) (t : Tables) (p : BoardM α) (a : α) : Prop :=
  ∃ s evs s', At c t [] s ∧ Exec (alone coll) c s p evs (some (.ok a)) s'

/-- What every response of a program meets. -/
abbrev Always (coll : Collation) (c : C) (s : State C) (p : BoardM α) (P : α → Prop) : Prop :=
  p.wp (alone coll) c (fun o _ => ∀ a, o = .ok a → P a) s

theorem Responds.always {p : BoardM α} {a : α} {P : α → Prop} (h : Responds coll c t p a)
    (hp : ∀ s, At c t [] s → Always coll c s p P) : P a := by
  obtain ⟨s, evs, s', hat, hexec⟩ := h
  exact hexec.wp (fun _ _ => id) (hp s hat) a rfl

theorem always_ret {P : α → Prop} {a : α} (h : P a) : Always coll c s (ret a) P := by
  rintro _ ⟨⟩
  exact h

theorem always_raise {P : α → Prop} {e : AppError} : Always coll c s (raise e) P := nofun

theorem At.always {β : Type} (h : At c t [] s) {query : Query} {f : query.Rows → BoardM β}
    {P : β → Prop}
    (hok : ∀ rows s', query.answers coll t rows → At c t [] s' → Always coll c s' (f rows) P) :
    Always coll c s (perform (.select query) >>= f) P :=
  h.select (fun _ _ _ => nofun) hok

/-! ## One page -/

theorem At.listUsers (h : At c t [] s) (params : PageParams) :
    Always coll c s (listUsers params) fun response => ∃ rows : List User,
      rows.Perm t.users ∧ rows.Pairwise (fun row row' => row'.userId ≤ row.userId) ∧
        response = .create ((rows.drop params.offset).take params.limit) rows.length params := by
  rw [Board.listUsers, UserService.listUsers, UserRepository.listPaginated, bind_assoc]
  refine h.always fun total s₁ htotal h₁ => ?_
  rw [bind_assoc]
  refine h₁.always fun users s₂ husers _ => always_ret ?_
  obtain ⟨rows, hperm, hsorted, rfl⟩ := husers
  obtain rfl : total = t.users.length := htotal
  exact ⟨rows, hperm, hsorted, by rw [hperm.length_eq]⟩

/-- The posts that the pages show. -/
theorem active_listed (t : Tables) :
    (activePosts t).filter listed = t.posts.filter listed := by
  rw [activePosts, List.filter_filter]
  refine List.filter_congr fun row _ => ?_
  cases hrow : listed row with
  | false => rfl
  | true =>
      simp only [listed, Bool.and_eq_true] at hrow
      simp [hrow.1.1, hrow.1.2]

theorem listed_sub (t : Tables) : t.posts.filter listed ⊆ t.posts := List.filter_sublist.subset

theorem newestFirst_of_sorted {rows : List (Post × User)}
    (h : rows.Pairwise fun row row' => row'.1.postId ≤ row.1.postId) :
    PostService.newestFirst rows = rows := h.insertionSort_eq

theorem At.listPosts (hsound : Sound t) (h : At c t [] s) (params : PageParams) :
    Always coll c s (listPosts params) fun response => ∃ rows : List (Post × User),
      rows.Perm (withAuthors t (t.posts.filter listed)) ∧
        rows.Pairwise (fun row row' => row'.1.postId ≤ row.1.postId) ∧
        response.1 =
          .create ((rows.drop params.offset).take params.limit) rows.length params ∧
        response.2.Perm (withAuthors t ((activePosts t).filter fun row => row.postIsNotice)) := by
  rw [Board.listPosts, PostService.listPosts, bind_assoc]
  refine h.always fun notices s₁ hnotices h₁ => ?_
  rw [bind_assoc, PostRepository.listPaginated, bind_assoc]
  refine h₁.always fun total s₂ htotal h₂ => ?_
  rw [bind_assoc]
  refine h₂.always fun posts s₃ hposts _ => always_ret ?_
  obtain ⟨rows, hperm, hsorted, rfl⟩ := hposts
  obtain rfl : total = (t.posts.filter listed).length := htotal
  rw [active_listed] at hperm
  have hlength : rows.length = (t.posts.filter listed).length := by
    rw [hperm.length_eq, ← List.length_map, withAuthors_posts hsound (listed_sub t)]
  refine ⟨rows, hperm, hsorted, ?_, (List.perm_insertionSort _ notices).trans hnotices⟩
  rw [hlength, newestFirst_of_sorted ((hsorted.drop).take)]

/-- The order of `newestFirst` is total and transitive. -/
theorem newestFirst_sorted (comments : List Comment) :
    (CommentRepository.newestFirst comments).Pairwise fun row row' =>
      row'.createdAt < row.createdAt ∨
        (row'.createdAt = row.createdAt ∧ row'.commentId ≤ row.commentId) := by
  have htotal : Std.Total fun row row' : Comment => row'.createdAt < row.createdAt ∨
      (row'.createdAt = row.createdAt ∧ row'.commentId ≤ row.commentId) :=
    ⟨fun row row' => by omega⟩
  have htrans : IsTrans Comment fun row row' => row'.createdAt < row.createdAt ∨
      (row'.createdAt = row.createdAt ∧ row'.commentId ≤ row.commentId) :=
    ⟨fun row row' row'' h h' => by omega⟩
  exact List.pairwise_insertionSort _ comments

private theorem foldl_counts {step : (Int → Option Nat) → Option Int × Nat → Int → Option Nat}
    {count : Int → Nat} {id : Int}
    (hstep : ∀ counts id n, step counts (some id, n) = Function.update counts id (some n)) :
    ∀ (rows : List (Option Int × Nat)) (counts : Int → Option Nat),
      (∀ row ∈ rows, ∃ id, row = (some id, count id)) →
        rows.foldl step counts id =
          if (some id, count id) ∈ rows then some (count id) else counts id := by
  intro rows
  induction rows with
  | nil => intro counts _; rfl
  | cons row rows ih =>
      intro counts hrows
      obtain ⟨id', rfl⟩ := hrows row List.mem_cons_self
      rw [List.foldl_cons, ih _ fun row hrow => hrows row (List.mem_cons_of_mem _ hrow), hstep]
      by_cases hid : id = id'
      · subst hid
        simp
      · simp [hid]

/-- The dictionary of reply counts, from rows that agree on their counts. -/
theorem replyCounts_eq {rows : List (Option Int × Nat)} {count : Int → Nat}
    (hrows : ∀ row ∈ rows, ∃ id, row = (some id, count id)) (id : Int) :
    CommentRepository.replyCounts rows id =
      if (some id, count id) ∈ rows then some (count id) else none :=
  foldl_counts (fun _ _ _ => rfl) rows _ hrows

/-- The reply count of a comment of the page. -/
theorem replyCount_of_groups {rows : List (Option Int × Nat)} {ids : List Int}
    (hrows : rows.Perm (replyGroups t ids)) {id : Int} (hid : id ∈ ids) :
    (CommentRepository.replyCounts rows id).getD 0 = (repliesTo t id).length := by
  have hmem : ∀ row, row ∈ rows ↔ ∃ id ∈ ids, repliesTo t id ≠ [] ∧
      (some id, (repliesTo t id).length) = row := fun row => by
    rw [hrows.mem_iff]
    simp [replyGroups, List.mem_dedup, and_assoc]
  rw [@replyCounts_eq rows fun id => (repliesTo t id).length]
  · split
    · rfl
    next hnone =>
      have hempty : repliesTo t id = [] := by
        by_contra hne
        exact hnone ((hmem _).mpr ⟨id, hid, hne, rfl⟩)
      rw [hempty]
      rfl
  · intro row hrow
    obtain ⟨id, _, _, rfl⟩ := (hmem row).mp hrow
    exact ⟨id, rfl⟩

/-- A comment with the number of its replies. -/
def counted (t : Tables) (row : Comment) : Comment × Nat :=
  (row, (repliesTo t row.commentId).length)

theorem At.listComments (h : At c t [] s) (postId : Int) (params : PageParams) :
    Always coll c s (listComments postId params) fun response => ∃ rows : List Comment,
      rows.Perm (topCommentsOf t postId) ∧
        rows.Pairwise (fun row row' => row'.createdAt < row.createdAt ∨
          (row'.createdAt = row.createdAt ∧ row'.commentId ≤ row.commentId)) ∧
        response = .create (((rows.map (counted t)).drop params.offset).take params.limit)
          rows.length params := by
  rw [Board.listComments, CommentService.listByPost, bind_assoc, CommentService.ensurePostExists,
    PostRepository.getById, bind_assoc, bind_assoc]
  refine h.always fun posts s₁ _ h₁ => ?_
  refine h₁.one (fun _ _ _ => nofun) (fun _ => always_raise) fun post _ => ?_
  show Always coll c s₁ (CommentRepository.listByPost postId params >>= _) _
  rw [CommentRepository.listByPost, bind_assoc]
  refine h₁.always fun total s₂ htotal h₂ => ?_
  rw [bind_assoc]
  refine h₂.always fun comments s₃ hcomments h₃ => ?_
  have hperm : (CommentRepository.newestFirst comments).Perm (topCommentsOf t postId) :=
    (List.perm_insertionSort _ comments).trans hcomments
  have hsorted := newestFirst_sorted comments
  generalize CommentRepository.newestFirst comments = rows at hperm hsorted
  have hlength : total = rows.length := by
    rw [hperm.length_eq, topCommentsOf, activeComments, List.filter_filter, htotal]
    congr 1
    refine List.filter_congr fun row _ => ?_
    cases row.deletedAt.isNone <;> simp
  rw [hlength]
  unfold CommentRepository.countRepliesByParents
  dsimp only
  by_cases hids : ((rows.drop params.offset).take params.limit).map Comment.commentId = []
  · -- without comments there is no query for the counts
    have hpage : (rows.drop params.offset).take params.limit = [] := List.map_eq_nil_iff.mp hids
    rw [if_pos hids]
    refine always_ret ⟨rows, hperm, hsorted, ?_⟩
    rw [← List.map_drop, ← List.map_take, hpage]
    rfl
  · rw [if_neg hids, bind_assoc, bind_assoc]
    refine h₃.always fun groups s₄ hgroups _ => always_ret ⟨rows, hperm, hsorted, ?_⟩
    rw [← List.map_drop, ← List.map_take]
    congr 1
    refine List.map_congr_left fun row hrow => ?_
    rw [counted, replyCount_of_groups hgroups (List.mem_map_of_mem hrow)]

theorem At.listByParent (h : At c t [] s) (commentId : Int) :
    Always coll c s (CommentService.listByParent commentId) fun replies =>
      replies.length = (repliesTo t commentId).length := by
  rw [CommentService.listByParent, CommentRepository.getById, bind_assoc]
  refine h.always fun comments s₁ _ h₁ => ?_
  refine h₁.one (fun _ _ _ => nofun) (fun _ => always_raise) fun comment _ => ?_
  show Always coll c s₁ (perform (.select (.replies commentId))) _
  rw [← bind_pure (perform _)]
  exact h₁.always fun replies s₂ hreplies _ => always_ret hreplies.length_eq

/-! ## All pages -/

/-- The responses of a listing to the requests for pages of one size. -/
def Pages {β : Type} (coll : Collation) (c : C) (t : Tables) (size : Nat)
    (list : PageParams → BoardM β) (response : Nat → β) : Prop :=
  ∀ params, params.size = size → Responds coll c t (list params) (response params.page)

variable {size : Nat}

theorem users_slices (hsound : Sound t) (hpos : 1 ≤ size) (hle : size ≤ 100)
    {response : Nat → PageResponse User}
    (h : Pages coll c t size listUsers response) :
    ∃ rows : List User, (rows.Perm t.users ∧
      rows.Pairwise fun row row' => row'.userId ≤ row.userId) ∧ Slices rows size response := by
  refine slices_of_pages hpos hle (fun rows rows' hrows hrows' => ?_) fun params hsize => ?_
  · exact eq_of_keys ((hrows.1.map User.userId).nodup_iff.mpr hsound.users)
      (hrows'.1.trans hrows.1.symm) hrows.2 hrows'.2
  · obtain ⟨rows, hperm, hsorted, hpage⟩ :=
      (h params hsize).always fun s hat => hat.listUsers params
    exact ⟨rows, ⟨hperm, hsorted⟩, hpage⟩

/-- The users, page by page. -/
theorem users_complete (hsound : Sound t) (hpos : 1 ≤ size) (hle : size ≤ 100)
    {response : Nat → PageResponse User} (h : Pages coll c t size listUsers response) :
    Complete id User.Newer t.users size response := by
  obtain ⟨rows, ⟨hperm, hsorted⟩, hslices⟩ := users_slices hsound hpos hle h
  refine hslices.complete hpos hle (by rwa [List.map_id]) ?_
  rw [List.map_id]
  exact strict_of_keys ((hperm.map User.userId).nodup_iff.mpr hsound.users) hsorted

/-- The numbers of posts with their authors. -/
theorem nodup_withAuthors (hsound : Sound t) {posts : List Post} (hsub : posts.Sublist t.posts)
    {rows : List (Post × User)} (hperm : rows.Perm (withAuthors t posts)) :
    (rows.map fun row => row.1.postId).Nodup := by
  rw [(hperm.map fun row => row.1.postId).nodup_iff]
  have hmap := withAuthors_posts hsound hsub.subset
  rw [show (fun row : Post × User => row.1.postId) = Post.postId ∘ Prod.fst from rfl,
    ← List.map_map, hmap]
  exact hsound.posts.sublist (hsub.map _)

theorem posts_slices (hsound : Sound t) (hpos : 1 ≤ size) (hle : size ≤ 100)
    {response : Nat → PageResponse (Post × User) × List (Post × User)}
    (h : Pages coll c t size listPosts response) :
    ∃ rows : List (Post × User), (rows.Perm (withAuthors t (t.posts.filter listed)) ∧
      rows.Pairwise fun row row' => row'.1.postId ≤ row.1.postId) ∧
        Slices rows size fun p => (response p).1 := by
  refine slices_of_pages hpos hle (fun rows rows' hrows hrows' => ?_) fun params hsize => ?_
  · exact eq_of_keys (nodup_withAuthors hsound List.filter_sublist hrows.1)
      (hrows'.1.trans hrows.1.symm) hrows.2 hrows'.2
  · obtain ⟨rows, hperm, hsorted, hpage, _⟩ :=
      (h params hsize).always fun s hat => hat.listPosts hsound params
    exact ⟨rows, ⟨hperm, hsorted⟩, hpage⟩

/-- The posts, page by page. -/
theorem posts_complete (hsound : Sound t) (hpos : 1 ≤ size) (hle : size ≤ 100)
    {response : Nat → PageResponse (Post × User) × List (Post × User)}
    (h : Pages coll c t size listPosts response) :
    Complete Prod.fst Post.Newer (t.posts.filter listed) size fun p => (response p).1 := by
  obtain ⟨rows, ⟨hperm, hsorted⟩, hslices⟩ := posts_slices hsound hpos hle h
  refine hslices.complete hpos hle ?_ ?_
  · have hmap := hperm.map Prod.fst
    rwa [withAuthors_posts hsound (listed_sub t)] at hmap
  · exact List.pairwise_map.mpr
      (strict_of_keys (nodup_withAuthors hsound List.filter_sublist hperm) hsorted)

/-- The notices of any response and the pages share out the published posts. -/
theorem notices_complete (hsound : Sound t) (hpos : 1 ≤ size) (hle : size ≤ 100)
    {response : Nat → PageResponse (Post × User) × List (Post × User)}
    (h : Pages coll c t size listPosts response) {p : Nat} (hp : 1 ≤ p) :
    (((response p).2 ++ allItems fun p => (response p).1).map Prod.fst).Perm (activePosts t) := by
  obtain ⟨rows, ⟨hperm, _⟩, hslices⟩ := posts_slices hsound hpos hle h
  obtain ⟨_, _, _, _, hnotices⟩ :=
    (h ⟨p, size, hp, hpos, hle⟩ rfl).always fun s hat => hat.listPosts hsound _
  have hactive : (activePosts t) ⊆ t.posts := List.filter_sublist.subset
  have hnotice : ((response p).2.map Prod.fst).Perm
      ((activePosts t).filter fun row => row.postIsNotice) := by
    have hmap := hnotices.map Prod.fst
    rwa [withAuthors_posts hsound fun row hrow => hactive (List.mem_filter.mp hrow).1] at hmap
  have hother : (rows.map Prod.fst).Perm
      ((activePosts t).filter fun row => !row.postIsNotice) := by
    have hmap := hperm.map Prod.fst
    rw [withAuthors_posts hsound (listed_sub t), ← active_listed] at hmap
    rwa [List.filter_congr fun row hrow => ?_] at hmap
    have hstatus := (List.mem_filter.mp hrow).2
    simp only [Bool.and_eq_true] at hstatus
    simp [listed, hstatus.1, hstatus.2]
  rw [hslices.allItems_eq hpos hle, List.map_append]
  exact (hnotice.append hother).trans (List.filter_append_perm _ _)

theorem comments_slices (hsound : Sound t) (hpos : 1 ≤ size) (hle : size ≤ 100) {postId : Int}
    {response : Nat → PageResponse (Comment × Nat)}
    (h : Pages coll c t size (listComments postId) response) :
    ∃ items, (∃ rows : List Comment, items = rows.map (counted t) ∧
      rows.Perm (topCommentsOf t postId) ∧ rows.Pairwise Comment.Newer) ∧
        Slices items size response := by
  have hkeys : ∀ {rows : List Comment}, rows.Perm (topCommentsOf t postId) →
      (rows.map Comment.commentId).Nodup := fun hperm =>
    (hperm.map _).nodup_iff.mpr (hsound.comments.sublist
      ((List.filter_sublist.trans List.filter_sublist).map _))
  refine slices_of_pages hpos hle ?_ fun params hsize => ?_
  · rintro _ _ ⟨rows, rfl, hperm, hsorted⟩ ⟨rows', rfl, hperm', hsorted'⟩
    rw [List.Perm.eq_of_pairwise (fun row row' _ _ hlt hlt' => ?_) hsorted' hsorted
      (hperm'.trans hperm.symm)]
    simp only [Comment.Newer] at hlt hlt'
    omega
  · obtain ⟨rows, hperm, hsorted, hpage⟩ :=
      (h params hsize).always fun s hat => hat.listComments postId params
    have hne : rows.Pairwise fun row row' => row.commentId ≠ row'.commentId :=
      List.pairwise_map.mp (hkeys hperm)
    refine ⟨rows.map (counted t), ⟨rows, rfl, hperm, (hsorted.and hne).imp fun h => ?_⟩, ?_⟩
    · obtain ⟨hle, hne⟩ := h
      simp only [Comment.Newer]
      omega
    · rwa [List.length_map]

/-- The top-level comments of a post, page by page. -/
theorem comments_complete (hsound : Sound t) (hpos : 1 ≤ size) (hle : size ≤ 100) {postId : Int}
    {response : Nat → PageResponse (Comment × Nat)}
    (h : Pages coll c t size (listComments postId) response) :
    Complete Prod.fst Comment.Newer (topCommentsOf t postId) size response := by
  obtain ⟨_, ⟨rows, rfl, hperm, hsorted⟩, hslices⟩ := comments_slices hsound hpos hle h
  have hrows : (rows.map (counted t)).map Prod.fst = rows := by
    rw [List.map_map]
    exact List.map_id rows
  exact hslices.complete hpos hle (hrows.symm ▸ hperm) (hrows.symm ▸ hsorted)

/-- A comment is shown with the number of replies that its own listing returns. -/
theorem replyCount_eq (hsound : Sound t) (hpos : 1 ≤ size) (hle : size ≤ 100) {postId : Int}
    {response : Nat → PageResponse (Comment × Nat)}
    (h : Pages coll c t size (listComments postId) response) {p : Nat} (hp : 1 ≤ p)
    {item : Comment × Nat} (hitem : item ∈ (response p).items) {replies : List Comment}
    (hreplies : Responds coll c t (CommentService.listByParent item.1.commentId) replies) :
    item.2 = replies.length := by
  obtain ⟨_, ⟨rows, rfl, _⟩, hslices⟩ := comments_slices hsound hpos hle h
  rw [hslices.page hpos hle hp] at hitem
  obtain ⟨row, _, rfl⟩ := List.mem_map.mp (List.mem_of_mem_drop (List.mem_of_mem_take hitem))
  rw [hreplies.always fun s hat => hat.listByParent _]
  rfl

/-- On tables that do not change, the pages of the posts, of the users and of the
top-level comments of a post show every matching row once, the newest first. -/
theorem listings_complete (hsound : Sound t) (hpos : 1 ≤ size) (hle : size ≤ 100) :
    (∀ response, Pages coll c t size listPosts response →
        Complete Prod.fst Post.Newer (t.posts.filter listed) size (fun p => (response p).1) ∧
          ∀ p, 1 ≤ p → (((response p).2 ++ allItems fun p => (response p).1).map Prod.fst).Perm
            (activePosts t)) ∧
      (∀ response, Pages coll c t size listUsers response →
        Complete id User.Newer t.users size response) ∧
      ∀ postId response, Pages coll c t size (listComments postId) response →
        Complete Prod.fst Comment.Newer (topCommentsOf t postId) size response ∧
          ∀ p, 1 ≤ p → ∀ item ∈ (response p).items, ∀ replies,
            Responds coll c t (CommentService.listByParent item.1.commentId) replies →
              item.2 = replies.length :=
  ⟨fun _ h => ⟨posts_complete hsound hpos hle h, fun _ => notices_complete hsound hpos hle h⟩,
    fun _ h => users_complete hsound hpos hle h,
    fun _ _ h => ⟨comments_complete hsound hpos hle h,
      fun _ hp _ hitem _ => replyCount_eq hsound hpos hle h hp hitem⟩⟩

end Responses

/-! ## A small board -/

section Samples

open Infrastructure (binaryCollation)

/-- On the tables `t` and with nobody else about, the call can answer `a`. -/
def CanAnswer (coll : Collation) (t : Tables) {α : Type} (p : BoardM α) (a : α) : Prop :=
  ∀ s : State Unit, At () t [] s →
    ∃ evs s', Exec (alone coll) () s p evs (some (.ok a)) s'

section CanAnswer

variable {coll : Collation} {t : Tables} {α : Type} {a : α}

theorem canAnswer_ret : CanAnswer coll t (ret a) a := fun s _ => ⟨[], s, .ret⟩

theorem canAnswer_select {query : Query} {f : query.Rows → BoardM α} (rows : query.Rows)
    (hrows : query.answers coll t rows) (h : CanAnswer coll t (f rows) a) :
    CanAnswer coll t (perform (.select query) >>= f) a := by
  intro s hat
  obtain ⟨evs, s', hx⟩ := h _ hat.read
  have hstep : (alone coll).step () s (.select query) (.ok rows)
      { s with db := s.db.read () } := by
    refine ⟨?_, rfl⟩
    rw [hat.view]
    exact hrows
  exact ⟨_, s', .call rfl hstep hx⟩

theorem CanAnswer.responds {p : BoardM α} (h : CanAnswer coll t p a) {s : State Unit}
    (hs : At () t [] s) : Responds coll () t p a := by
  obtain ⟨evs, s', hx⟩ := h s hs
  exact ⟨s, evs, s', hs, hx⟩

end CanAnswer

def rules : Post := ⟨1, "rules", "be nice", 9, 0, .published, true, none⟩

def hello : Post := ⟨2, "hello", "hi", 9, 0, .published, false, none⟩

def whyComment : Comment := ⟨1, "why", 3, 9, none, 20, none⟩

def becauseReply : Comment := ⟨2, "because", 3, 5, some 1, 20, none⟩

def thanksComment : Comment := ⟨3, "thanks", 3, 9, none, 20, none⟩

/-- Two users, a notice and two posts, and under one of them two comments of the same second,
one with a reply. -/
def village : Tables :=
  ⟨[spammer, moderator], [rules, hello, badPost], [],
    [whyComment, becauseReply, thanksComment], [], []⟩

theorem sound_village : Sound village where
  users := by decide
  posts := by decide
  comments := by decide
  authors := by decide

/-- The board with these tables and nobody about. -/
def villageState : State Unit where
  db := { committed := village, session := fun _ => .idle }
  nextId := board.nextId
  objects := board.objects
  fileIds := board.fileIds

/-- A page with one of the rows. -/
def villagePage {R : Type} (rows : List R) (p : Nat) : PageResponse R :=
  ⟨(rows.drop ((p - 1) * 1)).take 1, rows.length, p, 1, rows.length⟩

def userRows : List User := [moderator, spammer]

def postRows : List (Post × User) := [(badPost, spammer), (hello, moderator)]

def noticeRows : List (Post × User) := [(rules, moderator)]

def commentRows : List (Comment × Nat) := [(thanksComment, 0), (whyComment, 1)]

theorem villagePage_eq {R : Type} (rows : List R) (page : Nat) (hsize) (hpage) (hle) :
    villagePage rows page = .create ((rows.drop ((page - 1) * 1)).take 1) rows.length
      ⟨page, 1, hpage, hsize, hle⟩ := by
  simp [villagePage, PageResponse.create]

theorem at_village : At () village [] villageState :=
  at_of_idle (s := villageState) rfl

theorem pages_users : Pages binaryCollation () village 1 listUsers (villagePage userRows) := by
  rintro ⟨page, size, hpage, hsize, hle⟩ rfl
  refine CanAnswer.responds ?_ at_village
  rw [Board.listUsers, UserService.listUsers, UserRepository.listPaginated, bind_assoc]
  refine canAnswer_select (2 : Nat) rfl ?_
  rw [bind_assoc]
  refine canAnswer_select _ ⟨userRows, by decide, by decide, rfl⟩ ?_
  rw [villagePage_eq userRows page hsize hpage hle]
  exact canAnswer_ret

theorem pages_posts : Pages binaryCollation () village 1 listPosts
    fun p => (villagePage postRows p, noticeRows) := by
  rintro ⟨page, size, hpage, hsize, hle⟩ rfl
  refine CanAnswer.responds ?_ at_village
  rw [Board.listPosts, PostService.listPosts, bind_assoc]
  refine canAnswer_select noticeRows (show List.Perm _ _ by decide) ?_
  rw [bind_assoc, PostRepository.listPaginated, bind_assoc]
  refine canAnswer_select (2 : Nat) rfl ?_
  rw [bind_assoc]
  refine canAnswer_select _ ⟨postRows, by decide, by decide, rfl⟩ ?_
  have hsorted : postRows.Pairwise fun row row' => row'.1.postId ≤ row.1.postId := by decide
  show CanAnswer _ _ (ret (PageResponse.create (PostService.newestFirst
    ((postRows.drop ((page - 1) * 1)).take 1)) 2 ⟨page, 1, hpage, hsize, hle⟩, noticeRows)) _
  rw [newestFirst_of_sorted ((hsorted.drop).take)]
  show CanAnswer _ _ _ (villagePage postRows page, noticeRows)
  rw [villagePage_eq postRows page hsize hpage hle]
  exact canAnswer_ret

theorem pages_comments :
    Pages binaryCollation () village 1 (listComments 3) (villagePage commentRows) := by
  rintro ⟨page, size, hpage, hsize, hle⟩ rfl
  refine CanAnswer.responds ?_ at_village
  rw [Board.listComments, CommentService.listByPost, bind_assoc, CommentService.ensurePostExists,
    PostRepository.getById, bind_assoc, bind_assoc]
  refine canAnswer_select [badPost] rfl ?_
  show CanAnswer _ _ (CommentRepository.listByPost 3 _ >>= _) _
  rw [CommentRepository.listByPost, bind_assoc]
  refine canAnswer_select (2 : Nat) rfl ?_
  rw [bind_assoc]
  refine canAnswer_select [whyComment, thanksComment] (show List.Perm _ _ by decide) ?_
  have hrows : CommentRepository.newestFirst [whyComment, thanksComment] = [thanksComment, whyComment] := by
    decide
  rw [hrows]
  -- on the first page there are no replies, on the second there is one, and nothing beyond
  obtain rfl | rfl | hbeyond : page = 1 ∨ page = 2 ∨ 3 ≤ page := by omega
  · show CanAnswer _ _ (((perform (.select (.countReplies [3])) >>= _) >>= _) >>= _) _
    rw [Prog.bind_assoc, Prog.bind_assoc]
    refine canAnswer_select [] (show List.Perm _ _ by decide) ?_
    rw [villagePage_eq commentRows 1 hsize hpage hle]
    exact canAnswer_ret
  · show CanAnswer _ _ (((perform (.select (.countReplies [1])) >>= _) >>= _) >>= _) _
    rw [Prog.bind_assoc, Prog.bind_assoc]
    refine canAnswer_select [(some 1, 1)] (show List.Perm _ _ by decide) ?_
    rw [villagePage_eq commentRows 2 hsize hpage hle]
    exact canAnswer_ret
  · have hempty : ([thanksComment, whyComment].drop ((page - 1) * 1)).take 1 = [] := by
      rw [List.drop_eq_nil_of_le (by simp; omega), List.take_nil]
    have hnone : (commentRows.drop ((page - 1) * 1)).take 1 = [] := by
      rw [List.drop_eq_nil_of_le (by simp [commentRows]; omega), List.take_nil]
    rw [villagePage_eq commentRows page hsize hpage hle, hnone]
    simp only [PageParams.offset, PageParams.limit, hempty]
    exact canAnswer_ret

theorem responds_replies :
    Responds binaryCollation () village (CommentService.listByParent 1) [becauseReply] := by
  refine CanAnswer.responds ?_ at_village
  rw [CommentService.listByParent, CommentRepository.getById, bind_assoc]
  refine canAnswer_select [whyComment] rfl ?_
  show CanAnswer _ _ (perform (.select (.replies 1))) _
  rw [← bind_pure (perform _)]
  exact canAnswer_select [becauseReply] (show List.Perm _ _ by decide) canAnswer_ret

/-- The pages of one row each, put together: the users, the posts below the notice, and the
comments with the number of their replies. -/
theorem listings_complete_sample :
    (Complete id User.Newer village.users 1 (villagePage userRows) ∧
      allItems (villagePage userRows) = [moderator, spammer]) ∧
    (Complete Prod.fst Post.Newer (village.posts.filter listed) 1 (villagePage postRows) ∧
      allItems (villagePage postRows) = [(badPost, spammer), (hello, moderator)] ∧
      ((noticeRows ++ allItems (villagePage postRows)).map Prod.fst).Perm
        (activePosts village)) ∧
    (Complete Prod.fst Comment.Newer (topCommentsOf village 3) 1 (villagePage commentRows) ∧
      allItems (villagePage commentRows) = [(thanksComment, 0), (whyComment, 1)] ∧
      Responds binaryCollation () village (CommentService.listByParent 1) [becauseReply] ∧
      ∀ replies, Responds binaryCollation () village (CommentService.listByParent 1) replies →
        1 = replies.length) := by
  obtain ⟨hposts, husers, hcomments⟩ :=
    @listings_complete Unit _ binaryCollation () village 1 sound_village (by decide) (by decide)
  obtain ⟨hcomplete, hnotices⟩ := hposts _ pages_posts
  obtain ⟨hcomments, hreplies⟩ := hcomments 3 _ pages_comments
  have hmem : (whyComment, 1) ∈ (villagePage commentRows 2).items := by decide
  exact ⟨⟨husers _ pages_users, rfl⟩, ⟨hcomplete, rfl, hnotices 1 (by decide)⟩, hcomments, rfl,
    responds_replies, hreplies 2 (by decide) _ hmem⟩

end Samples

end GreenCommunity.Board
