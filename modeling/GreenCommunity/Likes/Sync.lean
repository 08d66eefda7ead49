import GreenCommunity.Base.Rely
import GreenCommunity.Likes.Pairs

/-!
# The sync among readers

The sync job moves every pair from Redis to the table and changes the state of none, as
long as nobody else writes.  What others read meanwhile, and what they do to the posts,
makes no difference: that is all the sync relies on.  In return each of its steps keeps
the state of every pair, and the only keys it touches are those it deletes.
-/

namespace GreenCommunity.Likes

open GreenCommunity.Base
open GreenCommunity.Base.Prog
open GreenCommunity.Infrastructure (among_oneOrNone)

/-! ## The rows of a table -/

section Rows

variable {t t' : Tables} {n : Nat}

theorem apply_postsLike (h : t'.postsLike = t.postsLike) (w : Write) :
    (t'.apply w).postsLike = (t.apply w).postsLike := by
  cases w <;> simp [Tables.apply, h]

theorem foldl_apply_postsLike (ws : List Write) (h : t'.postsLike = t.postsLike) :
    (ws.foldl Tables.apply t').postsLike = (ws.foldl Tables.apply t).postsLike := by
  induction ws generalizing t t' with
  | nil => exact h
  | cons w ws ih => exact ih (apply_postsLike h w)

theorem likesOf_congr (h : t'.postsLike = t.postsLike) (p u : Nat) :
    t'.likesOf p u = t.likesOf p u := by
  simp [Tables.likesOf, h]

theorem liked_congr (h : t'.postsLike = t.postsLike) (p u : Nat) :
    t'.liked p u = t.liked p u := by
  rw [Tables.liked, Tables.liked, likesOf_congr h]

theorem Tables.Keyed.congr (h : t.Keyed n) (ht : t'.postsLike = t.postsLike) : t'.Keyed n where
  unique := by
    rw [ht]
    exact h.unique
  ids := by
    rw [ht]
    exact h.ids
  below row hrow := h.below row (ht ▸ hrow)

end Rows

/-- The state of the pairs that a table has once the unsent change has been sent. -/
def planned (t : Tables) : Option Change → Nat → Nat → Bool
  | none, p, u => t.liked p u
  | some (.add q w), p, u => t.liked p u || (p == q && u == w)
  | some (.delete like), p, u =>
      t.liked p u && !(p == like.postId && u == like.userId)

/-- The unsent change is one that the table admits. -/
def Fits (t : Tables) : Option Change → Prop
  | none => True
  | some (.add p u) => t.likesOf p u = []
  | some (.delete like) => like ∈ t.postsLike

theorem planned_congr {t t' : Tables} (h : t'.postsLike = t.postsLike)
    (unsent : Option Change) (p u : Nat) : planned t' unsent p u = planned t unsent p u :=
  match unsent with
  | none => liked_congr h p u
  | some (.add _ _) => by rw [planned, planned, liked_congr h]
  | some (.delete _) => by rw [planned, planned, liked_congr h]

theorem Fits.congr {t t' : Tables} (h : t'.postsLike = t.postsLike) :
    ∀ {unsent : Option Change}, Fits t unsent → Fits t' unsent
  | none, _ => trivial
  | some (.add p u), hfits => (likesOf_congr h p u).trans hfits
  | some (.delete like), hfits => show like ∈ t'.postsLike from h ▸ hfits

/-- The change registered for a pair gives it the state that Redis has for it; where Redis
has none, nothing is registered. -/
theorem planned_change {t : Tables} {n p u : Nat} {status : Option String} (hk : t.Keyed n)
    (hv : ∀ v, status = some v → v = "0" ∨ v = "1") :
    Fits t (change status p u (t.likesOf p u).head?) ∧
      ∀ q w, planned t (change status p u (t.likesOf p u).head?) q w =
        if q = p ∧ w = u then (status.map (· == "1")).getD (t.liked p u)
        else t.liked q w := by
  cases status with
  | none =>
      have hnone : change none p u (t.likesOf p u).head? = none := by
        cases (t.likesOf p u).head? <;> simp [change]
      rw [hnone]
      refine ⟨trivial, fun q w => ?_⟩
      by_cases hqw : q = p ∧ w = u
      · simp [planned, hqw]
      · simp [planned, hqw]
  | some v =>
      rcases hk.likesOf p u with hrows | ⟨row, hrows⟩
      · have hliked : t.liked p u = false := liked_eq_false.mpr hrows
        rcases hv v rfl with rfl | rfl
        · refine ⟨by simp [hrows, change, Fits], fun q w => ?_⟩
          by_cases hqw : q = p ∧ w = u
          · simp [hrows, change, planned, hqw, hliked]
          · simp [hrows, change, planned, hqw]
        · refine ⟨by simp [hrows, change, Fits], fun q w => ?_⟩
          by_cases hqw : q = p ∧ w = u
          · simp [hrows, change, planned, hqw]
          · rw [if_neg hqw]
            simpa [hrows, change, planned] using fun hq hw => absurd ⟨hq, hw⟩ hqw
      · obtain ⟨hrow, rfl, rfl⟩ := mem_likesOf.mp (hrows ▸ List.mem_singleton_self row)
        have hliked : t.liked row.postId row.userId = true :=
          liked_iff.mpr ⟨row, hrow, rfl, rfl⟩
        rcases hv v rfl with rfl | rfl
        · refine ⟨by simpa [hrows, change, Fits] using hrow, fun q w => ?_⟩
          by_cases hqw : q = row.postId ∧ w = row.userId
          · simp [hrows, change, planned, hqw]
          · rw [if_neg hqw]
            simpa [hrows, change, planned, Bool.and_eq_false_iff] using
              fun _ => not_and_or.mp hqw
        · refine ⟨by simp [hrows, change, Fits], fun q w => ?_⟩
          by_cases hqw : q = row.postId ∧ w = row.userId
          · simp [hrows, change, planned, hqw, hliked]
          · simp [hrows, change, planned, hqw]

/-! ## What holds on the way -/

section Sync

variable {C : Type}

/-- Like keys have the values that the service writes, and the table has its keys. -/
structure Stored (s : State C) : Prop where
  values : ∀ {key v}, s.redis key = some v → "post_like:".toList <+: key.toList →
    ∃ p u, key = likeKey p u ∧ (v = "0" ∨ v = "1")
  keyed : s.db.committed.Keyed s.nextLikeId

/-- What an iteration yields has the stem, and what is there is yielded.  What it yields
may be gone by the time it ends. -/
def Covers (redis : String → Option String) (stem : String) (keys : List String) : Prop :=
  (∀ key ∈ keys, stem.toList <+: key.toList) ∧
  ∀ key, stem.toList <+: key.toList → (redis key).isSome → key ∈ keys

theorem FullScan.covers {redis : String → Option String} {stem : String} {keys : List String}
    (h : FullScan redis stem keys) : Covers redis stem keys :=
  ⟨fun key hkey => (h.1 key hkey).1, h.2⟩

/-- Nothing that a session with writes depends on is changed. -/
structure Unnoticed (c : C) (s s' : State C) : Prop where
  redis : s'.redis = s.redis
  postsLike : s'.db.committed.postsLike = s.db.committed.postsLike
  session : s'.db.session c = s.db.session c
  nextLikeId : s'.nextLikeId = s.nextLikeId

/-- No pair changes its state, Redis gains no key, and the other sessions go on as they
were. -/
structure Carried (c : C) (s s' : State C) : Prop where
  session : ∀ d, d ≠ c → s'.db.session d = s.db.session d
  redis : ∀ {key v}, s'.redis key = some v → s.redis key = some v
  keyed : s.db.committed.Keyed s.nextLikeId → s'.db.committed.Keyed s'.nextLikeId
  effective : ∀ p u, effective s' p u = effective s p u

/-- Nothing shared has changed since `s`; the auto-increment counter may have moved. -/
structure Unsynced (s s' : State C) : Prop where
  redis : s'.redis = s.redis
  postsLike : s'.db.committed.postsLike = s.db.committed.postsLike
  nextLikeId : s.nextLikeId ≤ s'.nextLikeId

/-- In the middle of a sync that began in `s`: the transaction holds the state of every
pair it has processed and the old row of every other one. -/
structure Syncing (c : C) (s s' : State C) (unsent : Option Change) (done : List String) :
    Prop extends Unsynced s s' where
  fresh : (s'.db.view Tables.apply c).postsLike = (s'.db.current Tables.apply c).postsLike
  keyed : (s'.db.current Tables.apply c).Keyed s'.nextLikeId
  fits : Fits (s'.db.current Tables.apply c) unsent
  planned : ∀ p u, planned (s'.db.current Tables.apply c) unsent p u =
    if likeKey p u ∈ done then Likes.effective s p u else s.db.committed.liked p u

/-- What a sync establishes, however it ends. -/
structure Synced (s s' : State C) : Prop where
  redis : ∀ {key v}, s'.redis key = some v → s.redis key = some v
  keyed : s'.db.committed.Keyed s'.nextLikeId
  effective : ∀ p u, effective s' p u = effective s p u

/-- Redis holds no like. -/
def Drained (s : State C) : Prop :=
  ∀ key, "post_like:".toList <+: key.toList → s.redis key = none

variable {c : C} {s s' s'' : State C} {unsent : Option Change} {done : List String}

theorem effective_congr (hredis : s'.redis = s.redis)
    (hrows : s'.db.committed.postsLike = s.db.committed.postsLike) (p u : Nat) :
    effective s' p u = effective s p u := by
  simp [effective, hredis, liked_congr hrows]

theorem Unnoticed.refl (s : State C) : Unnoticed c s s := ⟨rfl, rfl, rfl, rfl⟩

theorem Unnoticed.trans (h : Unnoticed c s s') (h' : Unnoticed c s' s'') : Unnoticed c s s'' :=
  ⟨h'.redis.trans h.redis, h'.postsLike.trans h.postsLike, h'.session.trans h.session,
    h'.nextLikeId.trans h.nextLikeId⟩

theorem Unnoticed.current (h : Unnoticed c s s') :
    (s'.db.current Tables.apply c).postsLike = (s.db.current Tables.apply c).postsLike := by
  rw [Db.current, Db.current, h.session]
  exact foldl_apply_postsLike _ h.postsLike

theorem Unnoticed.view (h : Unnoticed c s s') :
    (s'.db.view Tables.apply c).postsLike = (s.db.view Tables.apply c).postsLike := by
  rw [Db.view, Db.view, h.session]
  cases (s.db.session c).snapshot with
  | none => exact foldl_apply_postsLike _ h.postsLike
  | some t => rfl

theorem Unsynced.unnoticed (h : Unsynced s s') (hu : Unnoticed c s' s'') :
    Unsynced s s'' where
  redis := hu.redis.trans h.redis
  postsLike := hu.postsLike.trans h.postsLike
  nextLikeId := by
    rw [hu.nextLikeId]
    exact h.nextLikeId

theorem Syncing.unnoticed (h : Syncing c s s' unsent done) (hu : Unnoticed c s' s'') :
    Syncing c s s'' unsent done where
  toUnsynced := h.toUnsynced.unnoticed hu
  fresh := by rw [hu.view, hu.current, h.fresh]
  keyed := by
    rw [hu.nextLikeId]
    exact h.keyed.congr hu.current
  fits := h.fits.congr hu.current
  planned p u := by rw [planned_congr hu.current, h.planned]

theorem Unsynced.synced (h : Unsynced s s') (hs : Stored s) : Synced s s' where
  redis hv := h.redis ▸ hv
  keyed := (hs.keyed.congr h.postsLike).mono h.nextLikeId
  effective := effective_congr h.redis h.postsLike

/-- A step that changes neither Redis nor the committed rows. -/
theorem carried_of_unsynced (h : Unsynced s s')
    (hsession : ∀ d, d ≠ c → s'.db.session d = s.db.session d) : Carried c s s' where
  session := hsession
  redis hv := h.redis ▸ hv
  keyed hk := (hk.congr h.postsLike).mono h.nextLikeId
  effective := effective_congr h.redis h.postsLike

theorem Synced.unnoticed (h : Synced s s') (hu : Unnoticed c s' s'') : Synced s s'' where
  redis hv := h.redis (hu.redis ▸ hv)
  keyed := by
    rw [hu.nextLikeId]
    exact h.keyed.congr hu.postsLike
  effective p u := by rw [effective_congr hu.redis hu.postsLike, h.effective]

/-- A key whose value has been read is processed. -/
theorem Syncing.advance (h : Syncing c s s' none done) (hs : Stored s) {key : String}
    {p u : Nat} (hstem : "post_like:".toList <+: key.toList)
    (hsplit : splitKey key = .ret (p, u)) :
    Syncing c s s' (change (s.redis key) p u
      ((s'.db.current Tables.apply c).likesOf p u).head?) (done ++ [key]) := by
  have hlive : ∀ v, s.redis key = some v → key = likeKey p u ∧ (v = "0" ∨ v = "1") := by
    intro v hv
    obtain ⟨p', u', rfl, hval⟩ := hs.values hv hstem
    rw [splitKey_likeKey] at hsplit
    cases hsplit
    exact ⟨rfl, hval⟩
  obtain ⟨hfits, hplanned⟩ := planned_change (p := p) (u := u) h.keyed
    fun v hv => (hlive v hv).2
  refine ⟨h.toUnsynced, h.fresh, h.keyed, hfits, fun q w => ?_⟩
  have hold := h.planned q w
  rw [Likes.planned] at hold
  rw [hplanned]
  simp only [List.mem_append, List.mem_singleton]
  cases hv : s.redis key with
  | none =>
      have hrow : (if q = p ∧ w = u then (s'.db.current Tables.apply c).liked p u
          else (s'.db.current Tables.apply c).liked q w) =
          (s'.db.current Tables.apply c).liked q w := by
        split
        · rename_i hqw
          rw [hqw.1, hqw.2]
        · rfl
      rw [Option.map_none, Option.getD_none, hrow, hold]
      by_cases hkey : likeKey q w = key
      · rw [← hkey] at hv
        simp [hkey, effective_of_none hv]
      · simp [hkey]
  | some v =>
      obtain ⟨rfl, hval⟩ := hlive v hv
      simp only [Option.map_some, Option.getD_some, likeKey_inj, hold]
      by_cases hqw : q = p ∧ w = u
      · obtain ⟨rfl, rfl⟩ := hqw
        simp [effective_of_some hv]
      · simp [hqw]

/-- Behind the loop every pair has its state in the rows. -/
theorem Syncing.liked (h : Syncing c s s' none done)
    (hdone : ∀ key, "post_like:".toList <+: key.toList → (s.redis key).isSome → key ∈ done)
    (p u : Nat) : (s'.db.current Tables.apply c).liked p u = Likes.effective s p u := by
  refine (h.planned p u).trans ?_
  split
  · rfl
  · rename_i hnot
    cases hv : s.redis (likeKey p u) with
    | none => rw [effective_of_none hv]
    | some v => exact absurd (hdone _ (stem_likeKey p u) (by simp [hv])) hnot

/-- A step between two states of a sync that agree with its first. -/
theorem Synced.carried (h : Synced s s') (h' : Synced s s'')
    (hsession : ∀ d, d ≠ c → s''.db.session d = s'.db.session d)
    (hredis : ∀ {key v}, s''.redis key = some v → s'.redis key = some v) :
    Carried c s' s'' where
  session := hsession
  redis := hredis
  keyed _ := h'.keyed
  effective p u := by rw [h'.effective, h.effective]

/-- A step that fails. -/
theorem Carried.refl (s : State C) : Carried c s s := ⟨fun _ _ => rfl, id, id, fun _ _ => rfl⟩

theorem Carried.trans (h : Carried c s s') (h' : Carried c s' s'') : Carried c s s'' where
  session d hd := (h'.session d hd).trans (h.session d hd)
  redis hv := h.redis (h'.redis hv)
  keyed hk := h'.keyed (h.keyed hk)
  effective p u := (h'.effective p u).trans (h.effective p u)

/-- Deleting the processed keys changes nothing once their rows are written. -/
theorem Synced.del {s₃ : State C} (done : List String) (h : Synced s s₃)
    (hrow : ∀ p u, s₃.db.committed.liked p u = Likes.effective s p u) :
    Synced s { s₃ with redis := fun key => if key ∈ done then none else s₃.redis key } where
  redis {key v} hv := by
    dsimp only at hv
    split at hv
    · cases hv
    · exact h.redis hv
  keyed := h.keyed
  effective p u := by
    by_cases hmem : likeKey p u ∈ done
    · rw [effective_of_none (by simp [hmem])]
      exact hrow p u
    · rw [← h.effective p u]
      simp [Likes.effective, hmem]

/-- Redis is empty once all that the iteration found is deleted. -/
theorem Synced.drained {s₃ : State C} (h : Synced s s₃)
    (hdone : ∀ key, "post_like:".toList <+: key.toList → (s.redis key).isSome → key ∈ done)
    (hgone : ∀ key ∈ done, s₃.redis key = none) : Drained s₃ := by
  intro key hstem
  by_contra hne
  obtain ⟨v, hv⟩ := Option.ne_none_iff_exists'.mp hne
  exact hne (hgone key (hdone key hstem (by simp [h.redis hv])))

/-! ## The steps -/

variable [DecidableEq C] {scans : (String → Option String) → String → List String → Prop}

theorem among_perform {R : State C → State C → Prop} {A : State C → Event Op Reply → Prop}
    {G : State C → Event Op Reply → State C → Prop} {op : Op}
    {Q : Except AppError (Result op) → State C → Prop}
    (hok : ∀ s₀ r s', R s s₀ → does scans c s₀ op r s' → A s₀ ⟨op, .ok r⟩ →
      G s₀ ⟨op, .ok r⟩ s' ∧ Q (.ok r) s')
    (herr : ∀ s₀ e, R s s₀ → fails c s₀ op e →
      G s₀ ⟨op, .error e⟩ s₀ ∧ Q (.error e) s₀) :
    (perform op).Among (sem scans) c R A G Q s := by
  refine Infrastructure.among_perform hok ?_
  rintro s₀ e s' hR ⟨hfail, rfl⟩ _
  exact herr s' e hR hfail

theorem carried_rollback : Carried c s { s with db := s.db.rollback c } :=
  carried_of_unsynced ⟨rfl, rfl, Nat.le_refl _⟩ fun _ hd => Db.session_rollback_ne hd

theorem carried_read : Carried c s { s with db := s.db.read c } :=
  carried_of_unsynced ⟨rfl, rfl, Nat.le_refl _⟩ fun _ hd => Db.session_read_ne hd

theorem carried_write {w : Write} {n : Nat} (h : s.nextLikeId ≤ n) :
    Carried c s { s with db := s.db.write c w, nextLikeId := n } :=
  carried_of_unsynced ⟨rfl, rfl, h⟩ fun _ hd => Db.session_write_ne hd

/-- Autoflush: the change is sent, or the sync ends with nothing done. -/
theorem flush_among (h : Syncing c s s' unsent done) :
    (flush unsent).Among (sem scans) c (Unnoticed c) (fun _ _ => True)
      (fun s₁ _ s₂ => Carried c s₁ s₂)
      (fun o s₂ => match o with
        | .ok _ => Syncing c s s₂ none done
        | .error _ => Unsynced s s₂) s' := by
  match unsent, h with
  | none, h => exact h
  | some (.add p u), h =>
      refine among_perform ?_ fun s₀ e hu _ =>
        ⟨.refl s₀, (h.unnoticed hu).toUnsynced⟩
      rintro s₀ _ _ hu ⟨_, hnone, rfl⟩ _
      have h := h.unnoticed hu
      refine ⟨carried_write (Nat.le_succ _),
        ⟨h.redis, h.postsLike, Nat.le_succ_of_le h.nextLikeId⟩, ?_, ?_, trivial, fun q w => ?_⟩
      · rw [Db.view_write, Db.current_write]
        exact apply_postsLike h.fresh _
      · rw [Db.current_write]
        exact h.keyed.insert hnone
      · rw [← h.planned q w, Db.current_write]
        exact liked_insert _
  | some (.delete like), h =>
      refine among_perform ?_ fun s₀ e hu _ =>
        ⟨.refl s₀, (h.unnoticed hu).toUnsynced⟩
      intro s₀ _ s₂ hu hs _
      have h := h.unnoticed hu
      obtain ⟨_, rfl⟩ := (if_pos (c := like ∈ _) h.fits).mp hs
      refine ⟨carried_write (Nat.le_refl _), ⟨h.redis, h.postsLike, h.nextLikeId⟩, ?_, ?_,
        trivial, fun q w => ?_⟩
      · rw [Db.view_write, Db.current_write]
        exact apply_postsLike h.fresh _
      · rw [Db.current_write]
        exact h.keyed.delete like
      · rw [← h.planned q w, Db.current_write]
        exact liked_delete h.keyed h.fits

/-- Taking a key apart gives two numbers or raises. -/
theorem splitKey_cases (key : String) :
    (∃ x, splitKey key = .ret x) ∨ ∃ e, splitKey key = .raise e := by
  unfold splitKey
  split
  · split
    · exact Or.inl ⟨_, rfl⟩
    · exact Or.inr ⟨_, rfl⟩
  · exact Or.inr ⟨_, rfl⟩

/-- The loop over the keys of the scan. -/
theorem scanKeys_among (hs : Stored s) {keys : List String}
    (hkeys : ∀ key ∈ keys, "post_like:".toList <+: key.toList) :
    ∀ {s' : State C} {unsent : Option Change} {done : List String},
      Syncing c s s' unsent done →
      (scanKeys keys unsent done).Among (sem scans) c (Unnoticed c) (fun _ _ => True)
        (fun s₁ _ s₂ => Carried c s₁ s₂) (fun o s₂ => match o with
          | .ok (unsent', done') => Syncing c s s₂ unsent' done' ∧ done' = done ++ keys
          | .error _ => Unsynced s s₂) s' := by
  induction keys with
  | nil => exact fun h => ⟨h, (List.append_nil _).symm⟩
  | cons key keys ih =>
      intro s' unsent done h
      rw [scanKeys]
      rcases splitKey_cases key with ⟨⟨p, u⟩, hsplit⟩ | ⟨e, hsplit⟩
      · rw [hsplit, ret_bind]
        refine among_bind.mpr (among_perform ?_ fun s₀ e hu _ =>
          ⟨.refl s₀, (h.unnoticed hu).toUnsynced⟩)
        rintro s₀ r _ hu ⟨hr, rfl⟩ _
        have h := h.unnoticed hu
        rw [h.redis] at hr
        refine ⟨.refl _, among_bind.mpr (Among.imp ?_ (flush_among h))⟩
        rintro (e | _) s₁ hflushed
        · exact hflushed
        refine among_bind.mpr (among_perform ?_ fun s₀ e hu _ =>
          ⟨.refl s₀, (hflushed.unnoticed hu).toUnsynced⟩)
        rintro s₂ rows s₃ hu ⟨hrows, hs₃⟩ _
        have hflushed := hflushed.unnoticed hu
        have hread : Syncing c s s₃ none done := by
          rw [hs₃]
          refine ⟨⟨hflushed.redis, hflushed.postsLike, hflushed.nextLikeId⟩, ?_, ?_, trivial, ?_⟩
          · rw [Db.view_read, Db.current_read]
            exact hflushed.fresh
          · rw [Db.current_read]
            exact hflushed.keyed
          · rw [Db.current_read]
            exact hflushed.planned
        have hrows : rows = (s₃.db.current Tables.apply c).likesOf p u := by
          rw [hrows, likesOf_congr hflushed.fresh, hs₃, Db.current_read]
        refine ⟨hs₃ ▸ carried_read, among_bind.mpr (among_oneOrNone (fun _ => ?_)
          fun _ => hread.toUnsynced)⟩
        refine Among.imp ?_ (@ih (fun key hkey => hkeys key (List.mem_cons_of_mem _ hkey))
          s₃ (change r p u rows.head?) (done ++ [key]) ?_)
        · rintro (e | ⟨unsent', done'⟩) s₄ hpost
          · exact hpost
          · exact ⟨hpost.1, by simpa using hpost.2⟩
        · rw [hr, hrows]
          exact hread.advance hs (hkeys key List.mem_cons_self) hsplit
      · rw [hsplit]
        exact h.toUnsynced

/-- `COMMIT`: every pair keeps its state. -/
theorem Syncing.commit (h : Syncing c s s' none done)
    (hliked : ∀ p u, (s'.db.current Tables.apply c).liked p u = Likes.effective s p u) :
    Synced s { s' with db := s'.db.commit Tables.apply c } := by
  refine ⟨fun hv => h.redis ▸ hv, h.keyed, fun p u => ?_⟩
  cases hv : s.redis (likeKey p u) with
  | some v =>
      rw [effective_of_some hv]
      exact effective_of_some (s := { s' with db := s'.db.commit Tables.apply c })
        (h.redis ▸ hv)
  | none =>
      rw [← hliked p u]
      exact effective_of_none (s := { s' with db := s'.db.commit Tables.apply c })
        (h.redis ▸ hv)

/-- Every step of a sync keeps the state of every pair. -/
theorem scanLikeToDb_among
    (hscans : ∀ redis stem keys, scans redis stem keys → Covers redis stem keys)
    (hs : Stored s) (hidle : s.db.session c = .idle) :
    scanLikeToDb.Among (sem scans) c (Unnoticed c) (fun _ _ => True)
      (fun s₁ _ s₂ => Carried c s₁ s₂)
      (fun o s' => Synced s s' ∧ (o = .ok () → Drained s')) s := by
  have habort : ∀ {e : AppError} {s' : State C}, Unsynced s s' →
      Synced s s' ∧ ((.error e : Except AppError Unit) = .ok () → Drained s') :=
    fun h => ⟨h.synced hs, by simp⟩
  have hself : Unsynced s s := ⟨rfl, rfl, Nat.le_refl _⟩
  refine among_bind.mpr (among_perform ?_ fun s₀ e hu _ =>
    ⟨.refl s₀, habort (hself.unnoticed hu)⟩)
  rintro s₀ keys _ hu ⟨hscan, rfl⟩ _
  rw [hu.redis] at hscan
  obtain ⟨hkeys, hall⟩ := hscans _ _ _ hscan
  have hstart : Syncing c s s none [] := by
    refine ⟨hself, ?_, ?_, trivial, fun p u => ?_⟩
    · rw [Db.view, Db.current, hidle]
      rfl
    · rw [Db.current_of_idle hidle]
      exact hs.keyed
    · rw [Db.current_of_idle hidle]
      rfl
  refine ⟨.refl _, among_bind.mpr (Among.imp ?_
    (scanKeys_among hs hkeys (hstart.unnoticed hu)))⟩
  rintro (e | ⟨unsent, processed⟩) s₁ hloop
  · exact habort hloop
  obtain ⟨hsync, rfl⟩ : Syncing c s s₁ unsent processed ∧ processed = keys := hloop
  refine among_bind.mpr (Among.imp ?_ (flush_among hsync))
  rintro (e | _) s₂ hflushed
  · exact habort hflushed
  refine among_bind.mpr (among_perform ?_ fun s₀ e hu _ =>
    ⟨.refl s₀, habort (hflushed.unnoticed hu).toUnsynced⟩)
  rintro s₃ _ _ hu rfl _
  have hflushed := hflushed.unnoticed hu
  have hliked := hflushed.liked hall
  have hsynced := hflushed.commit hliked
  refine ⟨(hflushed.toUnsynced.synced hs).carried hsynced
    (fun _ hd => Db.session_commit_ne hd) id, ?_⟩
  dsimp only
  split
  · refine among_perform ?_ fun s₀ e hu _ => ⟨.refl s₀, hsynced.unnoticed hu, by simp⟩
    rintro s₄ _ _ hu rfl _
    have hliked₄ : ∀ p u, s₄.db.committed.liked p u = Likes.effective s p u := by
      intro p u
      rw [liked_congr hu.postsLike]
      exact hliked p u
    have hdel := (hsynced.unnoticed hu).del processed hliked₄
    refine ⟨(hsynced.unnoticed hu).carried hdel (fun _ _ => rfl) fun {key v} hv => ?_, hdel,
      fun _ => hdel.drained hall fun key hkey => if_pos hkey⟩
    dsimp only at hv
    split at hv
    · cases hv
    · exact hv
  · rename_i hempty
    rw [not_not] at hempty
    exact ⟨hsynced, fun _ => hsynced.drained hall (by simp [hempty])⟩

end Sync

end GreenCommunity.Likes
