import Mathlib.Data.Set.Card
import GreenCommunity.Base.Overlay
import GreenCommunity.Likes.Refinement

/-!
# Counting likes

`count_likes` corrects the number of rows by what waits in Redis; `get_like` decides pair
by pair, Redis first.  Both read one set: the users whose pending entry, or else whose row,
says that they like the post (`seen`).
-/

namespace GreenCommunity.Likes

open GreenCommunity.Base
open GreenCommunity.Base.Prog
open GreenCommunity.Base.Text

/-! ## Keys -/

/-- What `count_likes` scans for. -/
def likeStem (postId : Nat) : String := s!"post_like:{postId}:"

theorem likeStem_toList (p : Nat) :
    (likeStem p).toList = "post_like:".toList ++ (Nat.toDigits 10 p ++ [':']) := by
  simp [likeStem, toString_text]

/-- The stem of a post is the stem of its keys and of no other post's. -/
theorem stem_likeKey_iff {p q u : Nat} :
    (likeStem p).toList <+: (likeKey q u).toList ↔ p = q := by
  have hkey : (likeKey q u).toList =
      "post_like:".toList ++ (Nat.toDigits 10 q ++ ':' :: Nat.toDigits 10 u) := by
    rw [likeKey_toList]
    simp
  rw [hkey, likeStem_toList]
  constructor
  · rintro ⟨rest, h⟩
    simp only [List.append_assoc, List.cons_append, List.nil_append] at h
    exact (numbered_inj.mp h).1
  · rintro rfl
    exact ⟨Nat.toDigits 10 u, by simp⟩

theorem stem_of_likeStem {p : Nat} {key : String} (h : (likeStem p).toList <+: key.toList) :
    "post_like:".toList <+: key.toList := by
  obtain ⟨rest, h⟩ := h
  rw [likeStem_toList] at h
  exact ⟨Nat.toDigits 10 p ++ ':' :: rest, by simpa using h⟩

/-- The count takes the user out of a key that was made for one. -/
theorem userIdOf_likeKey (p u : Nat) : userIdOf (likeKey p u) = .ret u := by
  simp only [userIdOf, splitOn_likeKey, List.reverse_cons, List.reverse_nil, List.nil_append,
    List.cons_append, numeral]
  rfl

/-! ## The users who like a post -/

/-- The user likes the post: by the Redis value if there is one, else by the row. -/
def seen (redis : String → Option String) (t : Tables) (postId userId : Nat) : Bool :=
  match redis (likeKey postId userId) with
  | some status => status == "1"
  | none => t.liked postId userId

theorem effective_eq_seen {C : Type} (s : State C) (p u : Nat) :
    effective s p u = seen s.redis s.db.committed p u := rfl

theorem seen_eq_getD (redis : String → Option String) (t : Tables) (p u : Nat) :
    seen redis t p u = ((redis (likeKey p u)).map (· == "1")).getD (t.liked p u) := by
  unfold seen
  cases redis (likeKey p u) <;> rfl

section Likers

variable {t t' : Tables} {p u : Nat}

theorem mem_likers : u ∈ t.likers p ↔ t.liked p u = true := by
  simp only [Tables.likers, List.mem_map, List.mem_filter, beq_iff_eq, liked_iff]
  constructor
  · rintro ⟨row, ⟨hrow, hp⟩, hu⟩
    exact ⟨row, hrow, hp, hu⟩
  · rintro ⟨row, hrow, hp, hu⟩
    exact ⟨row, ⟨hrow, hp⟩, hu⟩

theorem likers_congr (h : t'.postsLike = t.postsLike) : t'.likers p = t.likers p := by
  simp [Tables.likers, h]

/-- By the unique key no user comes twice. -/
theorem nodup_likers (h : (t.postsLike.map fun row => (row.postId, row.userId)).Nodup) :
    (t.likers p).Nodup := by
  refine List.Nodup.map_on (fun row hrow row' hrow' hu => ?_) ((List.Nodup.of_map _ h).filter _)
  simp only [List.mem_filter, beq_iff_eq] at hrow hrow'
  exact List.inj_on_of_nodup_map h hrow.1 hrow'.1 (by rw [hrow.2, hrow'.2, hu])

end Likers

/-! ## What is pending -/

section Pending

variable {redis : String → Option String} {p : Nat}

/-- The comprehension over keys of one post: the entry of a user says what Redis says. -/
theorem pendingLikes_eq {keys : List String}
    (hkeys : ∀ key ∈ keys, ∀ v, redis key = some v → ∃ u, key = likeKey p u) :
    ∀ pending : Pending, ∃ pending' : Pending,
      pendingLikes (keys.zip (keys.map redis)) pending = .ret pending' ∧
        ∀ u, pending'.lookup u =
          if likeKey p u ∈ keys then
            ((redis (likeKey p u)).map (· == "1")).or (pending.lookup u)
          else pending.lookup u := by
  induction keys with
  | nil => exact fun pending => ⟨pending, rfl, fun u => by simp⟩
  | cons key keys ih =>
      intro pending
      have ih := ih fun key hkey => hkeys key (List.mem_cons_of_mem _ hkey)
      rw [List.map_cons, List.zip_cons_cons]
      cases hv : redis key with
      | none =>
          obtain ⟨pending', heq, hlookup⟩ := ih pending
          refine ⟨pending', heq, fun u => ?_⟩
          rw [hlookup]
          by_cases hkey : likeKey p u = key
          · simp [hkey, hv]
          · simp [hkey]
      | some v =>
          obtain ⟨w, rfl⟩ := hkeys key List.mem_cons_self v hv
          obtain ⟨pending', heq, hlookup⟩ := ih (pending.insert w (v == "1"))
          refine ⟨pending', ?_, fun u => ?_⟩
          · rw [pendingLikes, userIdOf_likeKey]
            exact heq
          · rw [hlookup]
            by_cases huw : u = w
            · subst huw
              simp [hv]
            · simp [huw]

/-- Where the keys cover what Redis holds, the pending entries and the rows make up the
users who like the post. -/
theorem mem_overlay_pending {t : Tables} {keys : List String} {pending : Pending}
    (hall : ∀ u, (redis (likeKey p u)).isSome → likeKey p u ∈ keys)
    (hlookup : ∀ u, pending.lookup u =
      if likeKey p u ∈ keys then ((redis (likeKey p u)).map (· == "1")).or none else none)
    (u : Nat) :
    u ∈ overlay (t.likers p).toFinset pending.entries ↔ seen redis t p u = true := by
  have hentry : pending.entries.dlookup u = (redis (likeKey p u)).map (· == "1") := by
    refine (hlookup u).trans ?_
    by_cases hkey : likeKey p u ∈ keys
    · simp [hkey]
    · have hnone : redis (likeKey p u) = none :=
        Option.not_isSome_iff_eq_none.mp fun hlive => hkey (hall u hlive)
      simp [hkey, hnone]
  have hrow : decide (u ∈ (t.likers p).toFinset) = t.liked p u := by
    rw [Bool.eq_iff_iff, decide_eq_true_iff, List.mem_toFinset, mem_likers]
  rw [mem_overlay, hentry, hrow, seen_eq_getD]

/-- The sum of `count_likes` is the size of the rows with the pending entries laid over
them. -/
theorem count_eq_card {t : Tables} (ht : (t.likers p).Nodup) (pending : Pending) :
    ((t.likers p).length : Int) + (pending.entries.map fun entry =>
      (entry.2.toNat : Int) -
        ((decide (entry.1 ∈ (t.likers p).filter (· ∈ pending.keys))).toNat : Int)).sum =
      (overlay (t.likers p).toFinset pending.entries).card := by
  rw [card_overlay pending.nodupKeys, List.toFinset_card_of_nodup ht]
  congr 2
  refine List.map_congr_left fun entry hentry => ?_
  have hkey : entry.1 ∈ pending.keys := List.mem_keys_of_mem hentry
  simp [correction, hkey]

end Pending

/-! ## The count among others -/

section Among

variable {C : Type} [DecidableEq C] {c : C} {t : Tables} {p : Nat}
  {scans : (String → Option String) → String → List String → Prop}
  {R : State C → State C → Prop} {A : State C → Event Op Reply → Prop}
  {G : State C → Event Op Reply → State C → Prop}

/-- The last command that `count_likes` sends to Redis. -/
inductive LastLook (p : Nat) : Event Op Reply → Prop where
  | mget (keys : List String) (values : List (Option String)) :
      LastLook p ⟨.mget keys, .ok values⟩
  | noKeys : LastLook p ⟨.scanIter (likeStem p), .ok []⟩

/-- A session that reads the like rows of `t` whenever it reads, in states where like keys
are well formed; among others that add no key to Redis. -/
structure ReadsRows (c : C) (t : Tables) (R : State C → State C → Prop)
    (G : State C → Event Op Reply → State C → Prop) (P : State C → Prop) : Prop where
  rely : ∀ {s s'}, P s → R s s' → P s'
  redis : ∀ {s s'}, P s → R s s' → ∀ {key v}, s'.redis key = some v → s.redis key = some v
  read : ∀ {s}, P s → P { s with db := s.db.read c }
  view : ∀ {s}, P s → (s.db.view Tables.apply c).postsLike = t.postsLike
  values : ∀ {s}, P s → ∀ {key v}, s.redis key = some v →
    "post_like:".toList <+: key.toList → ∃ p u, key = likeKey p u ∧ (v = "0" ∨ v = "1")
  stay : ∀ s e, e.op.isRead = true → G s e s
  reading : ∀ s e, e.op.isRead = true → G s e { s with db := s.db.read c }

variable {P : State C → Prop} {s : State C}

/-- The number of users who like the post as Redis had it at the last look there. -/
def Counted (t : Tables) (p : Nat) (A : State C → Event Op Reply → Prop)
    (P : State C → Prop) (o : Except AppError Int) (s' : State C) : Prop :=
  P s' ∧ ∀ n, o = .ok n → ∃ s₁ e, P s₁ ∧ A s₁ e ∧ LastLook p e ∧
    {u | (s₁.redis (likeKey p u)).isSome}.Finite ∧
    n = {u | seen s₁.redis t p u = true}.ncard

/-- The entries are those of Redis at `s₁`. -/
def Gathered (p : Nat) (s₁ : State C) (keys : List String) (pending : Pending) : Prop :=
  (∀ u, (s₁.redis (likeKey p u)).isSome → likeKey p u ∈ keys) ∧
  ∀ u, pending.lookup u = if likeKey p u ∈ keys then
    ((s₁.redis (likeKey p u)).map (· == "1")).or none else none

omit [DecidableEq C] in
theorem Gathered.finite {s₁ : State C} {keys : List String} {pending : Pending}
    (h : Gathered p s₁ keys pending) : {u | (s₁.redis (likeKey p u)).isSome}.Finite := by
  refine (pending.keys.toFinset.finite_toSet).subset fun u hu => ?_
  rw [Set.mem_ofPred_eq] at hu
  have hsome : (pending.lookup u).isSome := by
    rw [h.2, if_pos (h.1 u hu)]
    simpa using hu
  simpa using AList.mem_keys.mp (AList.lookup_isSome.mp hsome)

omit [DecidableEq C] in
theorem Gathered.count {s₁ : State C} {keys : List String} {pending : Pending}
    (h : Gathered p s₁ keys pending) (ht : (t.likers p).Nodup) :
    ((t.likers p).length : Int) + (pending.entries.map fun entry =>
      (entry.2.toNat : Int) -
        ((decide (entry.1 ∈ (t.likers p).filter (· ∈ pending.keys))).toNat : Int)).sum =
      ({u | seen s₁.redis t p u = true}.ncard : Int) := by
  have hset : {u | seen s₁.redis t p u = true} =
      ↑(overlay (t.likers p).toFinset pending.entries) := by
    ext u
    simpa using (mem_overlay_pending h.1 h.2 u).symm
  rw [hset, Set.ncard_coe_finset, count_eq_card ht]

theorem correctedCount_among (hP : ReadsRows c t R G P) (ht : (t.likers p).Nodup)
    {s₁ s₂ : State C} {e : Event Op Reply} {keys : List String} {pending : Pending}
    (hs₁ : P s₁) (hA : A s₁ e) (hlook : LastLook p e) (hpending : Gathered p s₁ keys pending)
    (hs₂ : P s₂) :
    (correctedCount p pending).Among (sem scans) c R A G (Counted t p A P) s₂ := by
  refine among_bind.mpr (among_perform ?_ fun s₀ e hR _ =>
    ⟨hP.stay s₀ _ rfl, hP.rely hs₂ hR, nofun⟩)
  rintro s₀ total _ hR ⟨htotal, rfl⟩ _
  have hs₀ := hP.rely hs₂ hR
  rw [likers_congr (hP.view hs₀)] at htotal
  refine ⟨hP.reading s₀ _ rfl, ?_⟩
  dsimp only
  split
  · rename_i hempty
    refine ⟨hP.read hs₀, ?_⟩
    rintro n ⟨⟩
    refine ⟨s₁, e, hs₁, hA, hlook, hpending.finite, ?_⟩
    have hcount := hpending.count ht
    rw [hempty] at hcount
    simpa [htotal] using hcount
  · refine among_bind.mpr (among_perform ?_ fun s₃ e hR' _ =>
      ⟨hP.stay s₃ _ rfl, hP.rely (hP.read hs₀) hR', nofun⟩)
    rintro s₃ saved _ hR' ⟨hsaved, rfl⟩ _
    have hs₃ := hP.rely (hP.read hs₀) hR'
    rw [likers_congr (hP.view hs₃)] at hsaved
    refine ⟨hP.reading s₃ _ rfl, hP.read hs₃, ?_⟩
    rintro n ⟨⟩
    refine ⟨s₁, e, hs₁, hA, hlook, hpending.finite, ?_⟩
    rw [hsaved, htotal]
    exact hpending.count ht

theorem countLikes_among (hP : ReadsRows c t R G P)
    (hscans : ∀ redis stem keys, scans redis stem keys → Covers redis stem keys)
    (ht : (t.likers p).Nodup) (hs : P s) :
    (countLikes p).Among (sem scans) c R A G (Counted t p A P) s := by
  refine among_bind.mpr (among_perform ?_ fun s₀ e hR _ =>
    ⟨hP.stay s₀ _ rfl, hP.rely hs hR, nofun⟩)
  rintro _ keys s₀ hR ⟨hscan, rfl⟩ hA
  have hs₀ := hP.rely hs hR
  obtain ⟨hstem, hall⟩ := hscans _ _ _ hscan
  have hall : ∀ u, (s₀.redis (likeKey p u)).isSome → likeKey p u ∈ keys :=
    fun u => hall _ (stem_likeKey_iff.mpr rfl)
  refine ⟨hP.stay _ _ rfl, ?_⟩
  dsimp only
  split
  · refine among_bind.mpr (among_perform ?_ fun s₁ e hR _ =>
      ⟨hP.stay s₁ _ rfl, hP.rely hs₀ hR, nofun⟩)
    rintro _ values s₁ hR' ⟨hvalues, rfl⟩ hA'
    have hs₁ := hP.rely hs₀ hR'
    have hkeys : ∀ key ∈ keys, ∀ v, s₁.redis key = some v → ∃ u, key = likeKey p u := by
      intro key hkey v hv
      obtain ⟨q, u, rfl, _⟩ := hP.values hs₁ hv (stem_of_likeStem (hstem key hkey))
      rw [stem_likeKey_iff.mp (hstem _ hkey)]
      exact ⟨u, rfl⟩
    have hall₁ : ∀ u, (s₁.redis (likeKey p u)).isSome → likeKey p u ∈ keys := by
      intro u hlive
      obtain ⟨v, hv⟩ := Option.isSome_iff_exists.mp hlive
      exact hall u (by simp [hP.redis hs₀ hR' hv])
    obtain ⟨pending, hpending, hlookup⟩ := pendingLikes_eq hkeys ∅
    have hzip : zipStrict keys values = .ret (keys.zip (keys.map s₁.redis)) := by
      simp [zipStrict, hvalues]
    refine ⟨hP.stay _ _ rfl, ?_⟩
    dsimp only
    rw [hzip, ret_bind, hpending]
    exact correctedCount_among hP ht hs₁ hA' (.mget keys values)
      ⟨hall₁, by simpa using hlookup⟩ hs₁
  · rename_i hkeys
    rw [not_not] at hkeys
    subst hkeys
    have hnone : Gathered p s₀ [] ∅ := ⟨hall, by simp⟩
    exact correctedCount_among hP ht hs₀ hA .noKeys hnone hs₀

end Among

/-! ## The count alone -/

section Alone

variable {s : State Unit} {p : Nat}

/-- What the caller of `get_like` is told. -/
def GetsLike (s : State Unit) (p u : Nat) : Prop :=
  ∃ evs s', Exec soloSem () s (getLike p u) evs (some (.ok true)) s'

/-- Where the services answer, `get_like` returns the state of the pair. -/
theorem getLike_exec (hclean : Clean s)
    (hk : (s.db.committed.postsLike.map fun row => (row.postId, row.userId)).Nodup)
    (p u : Nat) :
    ∃ evs s', Exec soloSem () s (getLike p u) evs (some (.ok (effective s p u))) s' := by
  have hget : soloSem.step () s (.get (likeKey p u)) (.ok (s.redis (likeKey p u))) s :=
    ⟨rfl, rfl⟩
  cases hv : s.redis (likeKey p u) with
  | some v =>
      rw [hv] at hget
      rw [effective_of_some hv]
      exact ⟨_, _, .call rfl hget .ret⟩
  | none =>
      rw [hv] at hget
      rw [effective_of_none hv, Tables.liked]
      have hselect : soloSem.step () s (.selectLike p u)
          (.ok (s.db.committed.likesOf p u)) { s with db := s.db.read () } :=
        ⟨by rw [hclean.view], rfl⟩
      rcases likesOf_of_unique hk p u with hrows | ⟨row, hrows⟩
      · rw [hrows] at hselect ⊢
        exact ⟨_, _, .call rfl hget (.call rfl hselect .ret)⟩
      · rw [hrows] at hselect ⊢
        exact ⟨_, _, .call rfl hget (.call rfl hselect .ret)⟩

theorem getsLike_iff (hclean : Clean s)
    (hk : (s.db.committed.postsLike.map fun row => (row.postId, row.userId)).Nodup) (u : Nat) :
    GetsLike s p u ↔ effective s p u = true := by
  constructor
  · rintro ⟨evs, s', hx⟩
    exact ((hx.wp (fun _ _ => id) (getLike_wp hclean hk p u)).2 true rfl).symm
  · intro heff
    obtain ⟨evs, s', hx⟩ := getLike_exec hclean hk p u
    rw [heff] at hx
    exact ⟨evs, s', hx⟩

/-- The like keys of a Redis map, and the unique key of the table. -/
structure Readable (s : State Unit) : Prop where
  values : ∀ {key v}, s.redis key = some v → "post_like:".toList <+: key.toList →
    ∃ p u, key = likeKey p u ∧ (v = "0" ∨ v = "1")
  unique : (s.db.committed.postsLike.map fun row => (row.postId, row.userId)).Nodup
  clean : Clean s

/-- Alone, the session reads what is committed. -/
theorem Readable.readsRows (hs : Readable s) :
    ReadsRows () s.db.committed (fun s s' => s' = s) (fun _ _ _ => True) (Kept s) where
  rely := by
    rintro s₁ _ h rfl
    exact h
  redis := by
    rintro s₁ _ _ rfl key v hv
    exact hv
  read h := h.trans ⟨rfl, rfl, rfl, h.clean.read⟩
  view h := by rw [h.clean.view, h.committed]
  values h := by
    intro key v hv hstem
    rw [h.redis] at hv
    exact hs.values hv hstem
  stay _ _ _ := trivial
  reading _ _ _ := trivial

theorem countLikes_wp (hs : Readable s) (p : Nat) :
    (countLikes p).wp soloSem () (fun o _ => ∀ n, o = .ok n →
      {u | effective s p u = true}.Finite ∧ n = {u | effective s p u = true}.ncard) s := by
  have hcount := countLikes_among (A := fun _ _ => True) hs.readsRows
    (fun _ _ _ => FullScan.covers) (nodup_likers (p := p) hs.unique) hs.clean.kept
  have hstep : soloSem.step = (sem FullScan).step := rfl
  refine wp_mono ?_ (Among.wp (R := fun s s' => s' = s) hstep (fun _ => rfl)
    (fun _ _ => trivial) hcount)
  rintro o s' ⟨_, hpost⟩ n ho
  obtain ⟨s₁, e, hkept, _, _, hfinite, hn⟩ := hpost n ho
  have hseen : ∀ u, seen s₁.redis s.db.committed p u = effective s p u := by
    intro u
    rw [effective_eq_seen, hkept.redis]
  simp only [hseen] at hn
  refine ⟨?_, hn⟩
  rw [hkept.redis] at hfinite
  refine (hfinite.union (s.db.committed.likers p).toFinset.finite_toSet).subset fun u hu => ?_
  rw [Set.mem_ofPred_eq, effective_eq_seen, seen] at hu
  cases hv : s.redis (likeKey p u) with
  | some v => exact Or.inl (by simp [hv])
  | none =>
      rw [hv] at hu
      exact Or.inr (by simpa [mem_likers] using hu)

/-- Where the services answer, every order and repetition of the keys leads to a count. -/
theorem countLikes_exec (hs : Readable s) (p : Nat) {keys : List String}
    (hscan : FullScan s.redis (likeStem p) keys) :
    ∃ evs n s', Exec soloSem () s (countLikes p)
      ((s, ⟨.scanIter (likeStem p), .ok keys⟩) :: evs) (some (.ok n)) s' := by
  have hstep : soloSem.step () s (.scanIter (likeStem p)) (.ok keys) s := ⟨hscan, rfl⟩
  have hcount : ∀ s : State Unit, soloSem.step () s (.countRows p)
      (.ok ((s.db.view Tables.apply ()).likers p).length) { s with db := s.db.read () } :=
    fun _ => ⟨rfl, rfl⟩
  have hsaved : ∀ (s : State Unit) userIds, soloSem.step () s (.selectUserIds p userIds)
      (.ok (((s.db.view Tables.apply ()).likers p).filter (· ∈ userIds)))
      { s with db := s.db.read () } := fun _ _ => ⟨rfl, rfl⟩
  have hrest : ∀ pending : Pending, ∃ evs n s',
      Exec soloSem () s (correctedCount p pending) evs (some (.ok n)) s' := by
    intro pending
    unfold correctedCount
    by_cases hempty : pending.entries = []
    · simp only [hempty, if_true]
      exact ⟨_, _, _, .call rfl (hcount s) .ret⟩
    · simp only [hempty, if_false]
      exact ⟨_, _, _, .call rfl (hcount s) (.call rfl (hsaved _ pending.keys) .ret)⟩
  by_cases hkeys : keys = []
  · obtain ⟨evs, n, s', hx⟩ := hrest ∅
    subst hkeys
    exact ⟨evs, n, s', .call rfl hstep hx⟩
  · have hlike : ∀ key ∈ keys, ∀ v, s.redis key = some v → ∃ u, key = likeKey p u := by
      intro key hkey v hv
      obtain ⟨hstem, _⟩ := hscan.1 key hkey
      obtain ⟨q, u, rfl, _⟩ := hs.values hv (stem_of_likeStem hstem)
      exact ⟨u, by rw [stem_likeKey_iff.mp hstem]⟩
    obtain ⟨pending, hpending, _⟩ := pendingLikes_eq hlike ∅
    obtain ⟨evs, n, s', hx⟩ := hrest pending
    have hmget : soloSem.step () s (.mget keys) (.ok (keys.map s.redis)) s := ⟨rfl, rfl⟩
    have hzip : zipStrict keys (keys.map s.redis) = .ret (keys.zip (keys.map s.redis)) := by
      simp [zipStrict]
    refine ⟨(s, ⟨.mget keys, .ok (keys.map s.redis)⟩) :: evs, n, s', .call rfl hstep ?_⟩
    show Exec soloSem () s (if keys ≠ [] then _ else _) _ _ _
    rw [if_pos hkeys]
    refine .call rfl hmget ?_
    show Exec soloSem () s (zipStrict keys (keys.map s.redis) >>= _) _ _ _
    rw [hzip, ret_bind, hpending]
    exact hx

/-- Whatever the order and the repetitions of the scan: the count is the number of users to
whom `get_like` says that they like the post, and no other post has a part in it. -/
theorem count_likes_agrees (hs : Readable s) (p : Nat) :
    (∀ keys, FullScan s.redis (likeStem p) keys →
      ∃ evs n s', Exec soloSem () s (countLikes p)
        ((s, ⟨.scanIter (likeStem p), .ok keys⟩) :: evs) (some (.ok n)) s') ∧
    ∀ evs n s', Exec soloSem () s (countLikes p) evs (some (.ok n)) s' →
      ({u | GetsLike s p u}.Finite ∧ n = {u | GetsLike s p u}.ncard) ∧
      ∀ s₂ : State Unit, Readable s₂ →
        (∀ u, s₂.redis (likeKey p u) = s.redis (likeKey p u)) →
        (∀ u, s₂.db.committed.liked p u = s.db.committed.liked p u) →
        ∀ evs₂ n₂ s₂', Exec soloSem () s₂ (countLikes p) evs₂ (some (.ok n₂)) s₂' →
          n₂ = n := by
  refine ⟨fun keys hscan => countLikes_exec hs p hscan, fun evs n s' hx => ⟨?_, ?_⟩⟩
  · simp only [getsLike_iff hs.clean hs.unique]
    exact hx.wp (fun _ _ => id) (countLikes_wp hs p) n rfl
  · intro s₂ hs₂ hredis hrows evs₂ n₂ s₂' hx₂
    obtain ⟨_, hn⟩ := hx.wp (fun _ _ => id) (countLikes_wp hs p) n rfl
    obtain ⟨_, hn₂⟩ := hx₂.wp (fun _ _ => id) (countLikes_wp hs₂ p) n₂ rfl
    have hsame : ∀ u, effective s₂ p u = effective s p u := by
      intro u
      simp only [effective, hredis, hrows]
    simp only [hsame] at hn₂
    rw [hn, hn₂]

end Alone

/-! ## A sample count -/

/-- One row and two pending entries of post 1, and a pending entry of post 12. -/
def countState : State Unit where
  redis key :=
    if key = likeKey 1 10 then some "0"
    else if key = likeKey 1 11 then some "1"
    else if key = likeKey 12 7 then some "1"
    else none
  db := { committed := { posts := [], postsLike := [⟨1, 1, 10⟩] }
          session := fun _ => .idle }
  nextLikeId := 2

theorem readable_countState : Readable countState where
  values {key v} hv _ := by
    simp only [countState] at hv
    split at hv
    · rename_i hkey
      cases hv
      exact ⟨1, 10, hkey, Or.inl rfl⟩
    · split at hv
      · rename_i hkey
        cases hv
        exact ⟨1, 11, hkey, Or.inr rfl⟩
      · split at hv
        · rename_i hkey
          cases hv
          exact ⟨12, 7, hkey, Or.inr rfl⟩
        · cases hv
  unique := by simp [countState]
  clean := ⟨Db.fresh_of_idle rfl, rfl⟩

/-- The scan may yield a key twice. -/
theorem count_likes_agrees_sample : ∃ evs n s',
    Exec soloSem () countState (countLikes 1)
      ((countState, ⟨.scanIter (likeStem 1),
        .ok [likeKey 1 11, likeKey 1 10, likeKey 1 11]⟩) :: evs) (some (.ok n)) s' ∧
      n = {u | GetsLike countState 1 u}.ncard := by
  have hscan : FullScan countState.redis (likeStem 1)
      [likeKey 1 11, likeKey 1 10, likeKey 1 11] := by
    refine ⟨fun key hkey => ?_, fun key hstem hlive => ?_⟩
    · simp only [List.mem_cons, List.not_mem_nil, or_false] at hkey
      rcases hkey with rfl | rfl | rfl <;>
        exact ⟨stem_likeKey_iff.mpr rfl, by simp [countState]⟩
    · by_contra hnot
      simp only [List.mem_cons, List.not_mem_nil, or_false, not_or] at hnot
      simp only [countState, hnot.2.1, hnot.1, if_false] at hlive
      split at hlive
      · rename_i hkey
        rw [hkey, stem_likeKey_iff] at hstem
        omega
      · cases hlive
  obtain ⟨hruns, hcounts⟩ := count_likes_agrees readable_countState 1
  obtain ⟨evs, n, s', hx⟩ := hruns _ hscan
  exact ⟨evs, n, s', hx, (hcounts _ n s' hx).1.2⟩

end GreenCommunity.Likes
