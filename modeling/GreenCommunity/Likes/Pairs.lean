import Mathlib.Data.List.Nodup
import GreenCommunity.Base.Text
import GreenCommunity.Likes.Service

/-!
# The state of one pair

Redis and the table `posts_like` together say for every post and user whether the
user likes the post: the Redis value if there is one, the row otherwise.
`effective` is that reading.  The lemmas below say how the key texts and the two
row writes look from there.
-/

namespace GreenCommunity.Likes

open GreenCommunity.Base
open GreenCommunity.Base.Text

/-! ## Keys -/

theorem likeKey_toList (p u : Nat) :
    (likeKey p u).toList = "post_like".toList ++ ':' ::
      (Nat.toDigits 10 p ++ ':' :: Nat.toDigits 10 u) := by
  simp [likeKey, toString_text]

@[simp] theorem likeKey_inj {p u q v : Nat} :
    likeKey p u = likeKey q v ↔ p = q ∧ u = v := by
  rw [← String.toList_inj, likeKey_toList, likeKey_toList, List.append_cancel_left_eq,
    List.cons.injEq]
  simpa [toDigits_inj] using
    @numbered_inj [] (Nat.toDigits 10 u) (Nat.toDigits 10 v) p q

theorem stem_likeKey (p u : Nat) : "post_like:".toList <+: (likeKey p u).toList :=
  ⟨Nat.toDigits 10 p ++ ':' :: Nat.toDigits 10 u, by rw [likeKey_toList]; simp⟩

theorem numeral (n : Nat) : (String.ofList (Nat.toDigits 10 n)).toNat? = some n :=
  Nat.toNat?_repr n

theorem splitOn_likeKey (p u : Nat) : (likeKey p u).toList.splitOn ':' =
    ["post_like".toList, Nat.toDigits 10 p, Nat.toDigits 10 u] := by
  rw [likeKey_toList, List.splitOn_append_cons_self_of_not_mem (by decide),
    List.splitOn_append_cons_self_of_not_mem (colon_notMem_toDigits p),
    List.splitOn_eq_singleton (colon_notMem_toDigits u)]

/-- The sync takes a key apart into the numbers it was made of. -/
theorem splitKey_likeKey (p u : Nat) : splitKey (likeKey p u) = .ret (p, u) := by
  simp only [splitKey, splitOn_likeKey, List.map_cons, List.map_nil, numeral]
  rfl

/-! ## Rows -/

/-- The table has a row for the pair. -/
def Tables.liked (t : Tables) (postId userId : Nat) : Bool :=
  !(t.likesOf postId userId).isEmpty

/-- The keys of `posts_like`: the unique pair, and the primary key. -/
structure Tables.Keyed (t : Tables) (nextLikeId : Nat) : Prop where
  unique : (t.postsLike.map fun row => (row.postId, row.userId)).Nodup
  ids : (t.postsLike.map PostLike.likeId).Nodup
  below : ∀ row ∈ t.postsLike, row.likeId < nextLikeId

section Rows

variable {t : Tables} {n p u : Nat}

theorem liked_iff : t.liked p u = true ↔
    ∃ row ∈ t.postsLike, row.postId = p ∧ row.userId = u := by
  simp [Tables.liked, Tables.likesOf]

theorem liked_eq_false : t.liked p u = false ↔ t.likesOf p u = [] := by
  simp [Tables.liked]

theorem mem_likesOf {row : PostLike} :
    row ∈ t.likesOf p u ↔ row ∈ t.postsLike ∧ row.postId = p ∧ row.userId = u := by
  simp [Tables.likesOf]

/-- The unique key leaves at most one row of a pair. -/
theorem likesOf_of_unique
    (h : (t.postsLike.map fun row => (row.postId, row.userId)).Nodup) (p u : Nat) :
    t.likesOf p u = [] ∨ ∃ row, t.likesOf p u = [row] := by
  have hsame : ∀ {r r'}, r ∈ t.likesOf p u → r' ∈ t.likesOf p u → r = r' := by
    intro r r' hr hr'
    obtain ⟨hrow, hp, hu⟩ := mem_likesOf.mp hr
    obtain ⟨hrow', hp', hu'⟩ := mem_likesOf.mp hr'
    exact List.inj_on_of_nodup_map h hrow hrow' (by rw [hp, hu, hp', hu'])
  have hnodup : (t.likesOf p u).Nodup := (List.Nodup.of_map _ h).filter _
  cases hl : t.likesOf p u with
  | nil => exact Or.inl rfl
  | cons r rest =>
      cases rest with
      | nil => exact Or.inr ⟨r, rfl⟩
      | cons r' rest =>
          rw [hl] at hsame hnodup
          have heq := @hsame r r' (by simp) (by simp)
          simp [heq] at hnodup

theorem Tables.Keyed.likesOf (h : t.Keyed n) (p u : Nat) :
    t.likesOf p u = [] ∨ ∃ row, t.likesOf p u = [row] := likesOf_of_unique h.unique p u

theorem liked_insert (like : PostLike) :
    (t.apply (.insert like)).liked p u =
      (t.liked p u || (p == like.postId && u == like.userId)) := by
  rw [Bool.eq_iff_iff]
  simp only [liked_iff, Tables.apply, List.mem_append, List.mem_singleton, Bool.or_eq_true,
    Bool.and_eq_true, beq_iff_eq]
  constructor
  · rintro ⟨row, hrow | rfl, rfl, rfl⟩
    · exact Or.inl ⟨row, hrow, rfl, rfl⟩
    · exact Or.inr ⟨rfl, rfl⟩
  · rintro (⟨row, hrow, hkey⟩ | ⟨rfl, rfl⟩)
    · exact ⟨row, Or.inl hrow, hkey⟩
    · exact ⟨like, Or.inr rfl, rfl, rfl⟩

theorem liked_delete (h : t.Keyed n) {like : PostLike} (hmem : like ∈ t.postsLike) :
    (t.apply (.delete like)).liked p u =
      (t.liked p u && !(p == like.postId && u == like.userId)) := by
  rw [Bool.eq_iff_iff]
  simp only [liked_iff, Tables.apply, List.mem_filter, bne_iff_ne, ne_eq, Bool.and_eq_true,
    Bool.not_eq_true', Bool.and_eq_false_iff, beq_eq_false_iff_ne]
  constructor
  · rintro ⟨row, ⟨hrow, hid⟩, rfl, rfl⟩
    refine ⟨⟨row, hrow, rfl, rfl⟩, ?_⟩
    by_contra hkey
    push Not at hkey
    have heq := List.inj_on_of_nodup_map h.unique hrow hmem (by rw [hkey.1, hkey.2])
    exact hid (by rw [heq])
  · rintro ⟨⟨row, hrow, rfl, rfl⟩, hne⟩
    refine ⟨row, ⟨hrow, fun hid => ?_⟩, rfl, rfl⟩
    have heq := List.inj_on_of_nodup_map h.ids hrow hmem hid
    rcases hne with hne | hne
    · exact hne (by rw [heq])
    · exact hne (by rw [heq])

theorem Tables.Keyed.insert (h : t.Keyed n) (hnone : t.likesOf p u = []) :
    (t.apply (.insert ⟨n, p, u⟩)).Keyed (n + 1) where
  unique := by
    simp only [Tables.apply, List.map_append, List.map_cons, List.map_nil]
    refine h.unique.append (by simp) ?_
    simp only [List.disjoint_singleton, List.mem_map, Prod.mk.injEq, not_exists, not_and]
    intro row hrow hp hu
    have hmem : row ∈ t.likesOf p u := mem_likesOf.mpr ⟨hrow, hp, hu⟩
    rw [hnone] at hmem
    cases hmem
  ids := by
    simp only [Tables.apply, List.map_append, List.map_cons, List.map_nil]
    refine h.ids.append (by simp) ?_
    simp only [List.disjoint_singleton, List.mem_map, not_exists, not_and]
    exact fun row hrow => Nat.ne_of_lt (h.below row hrow)
  below row hrow := by
    simp only [Tables.apply, List.mem_append, List.mem_singleton] at hrow
    rcases hrow with hrow | rfl
    · exact Nat.lt_succ_of_lt (h.below row hrow)
    · exact Nat.lt_succ_self n

theorem Tables.Keyed.delete (h : t.Keyed n) (like : PostLike) :
    (t.apply (.delete like)).Keyed n where
  unique := h.unique.sublist (List.filter_sublist.map _)
  ids := h.ids.sublist (List.filter_sublist.map _)
  below row hrow := h.below row (List.mem_of_mem_filter hrow)

theorem Tables.Keyed.mono (h : t.Keyed n) {m : Nat} (hm : n ≤ m) : t.Keyed m :=
  ⟨h.unique, h.ids, fun row hrow => Nat.lt_of_lt_of_le (h.below row hrow) hm⟩

theorem Tables.Keyed.posts (h : t.Keyed n) (posts : List Post) :
    ({ t with posts } : Tables).Keyed n := ⟨h.unique, h.ids, h.below⟩

end Rows

/-! ## Pairs -/

/-- The user likes the post: by the Redis value if there is one, else by the row. -/
def effective {C : Type} (s : State C) (postId userId : Nat) : Bool :=
  match s.redis (likeKey postId userId) with
  | some status => status == "1"
  | none => s.db.committed.liked postId userId

theorem effective_of_some {C : Type} {s : State C} {p u : Nat} {v : String}
    (h : s.redis (likeKey p u) = some v) : effective s p u = (v == "1") := by
  simp [effective, h]

theorem effective_of_none {C : Type} {s : State C} {p u : Nat}
    (h : s.redis (likeKey p u) = none) :
    effective s p u = s.db.committed.liked p u := by
  simp [effective, h]

end GreenCommunity.Likes
