import GreenCommunity.Likes.Sync

/-!
# Rows under locks

Where several syncs run at once, a row write locks the unique key of its pair until its
transaction ends.  The rows of a pair are therefore written by one session at a time, and
a transaction that has not written a pair's row finds it as committed.
-/

namespace GreenCommunity.Likes

open GreenCommunity.Base

/-- The row that a write is about. -/
def Write.like : Write → PostLike
  | .insert like => like
  | .delete like => like

theorem Write.key_eq (w : Write) : w.key = (w.like.postId, w.like.userId) := by
  cases w <;> rfl

section Rows

variable {t t' : Tables} {p u : Nat} {like row : PostLike} {w : Write}

theorem likesOf_insert (t : Tables) (like : PostLike) (p u : Nat) :
    (t.apply (.insert like)).likesOf p u =
      if like.postId = p ∧ like.userId = u then t.likesOf p u ++ [like] else t.likesOf p u := by
  by_cases h : like.postId = p ∧ like.userId = u
  · simp [Tables.likesOf, Tables.apply, h]
  · simp only [Tables.likesOf, Tables.apply, List.filter_append, h, if_false]
    simpa using not_and.mp h

theorem likesOf_delete (t : Tables) (like : PostLike) (p u : Nat) :
    (t.apply (.delete like)).likesOf p u =
      (t.likesOf p u).filter fun row => row.likeId != like.likeId := by
  simp [Tables.likesOf, Tables.apply, List.filter_filter, Bool.and_comm]

theorem likesOf_apply_congr (h : t'.likesOf p u = t.likesOf p u) (w : Write) :
    (t'.apply w).likesOf p u = (t.apply w).likesOf p u := by
  cases w with
  | insert like => simp [likesOf_insert, h]
  | delete like => simp [likesOf_delete, h]

/-- Writes make the same of the same rows. -/
theorem likesOf_foldl_congr (h : t'.likesOf p u = t.likesOf p u) (ws : List Write) :
    (ws.foldl Tables.apply t').likesOf p u = (ws.foldl Tables.apply t).likesOf p u := by
  induction ws generalizing t t' with
  | nil => exact h
  | cons w ws ih => exact ih (likesOf_apply_congr h w)

theorem liked_of_likesOf (h : t'.likesOf p u = t.likesOf p u) :
    t'.liked p u = t.liked p u := by
  simp [Tables.liked, h]

/-- A write leaves the rows of other pairs alone, where no two rows share an id. -/
theorem likesOf_apply_of_ne (hkey : w.key ≠ (p, u))
    (hids : ∀ row ∈ t.likesOf p u, row.likeId = w.like.likeId → row = w.like) :
    (t.apply w).likesOf p u = t.likesOf p u := by
  rw [Write.key_eq, Ne, Prod.mk.injEq] at hkey
  cases w with
  | insert like => exact (likesOf_insert t like p u).trans (if_neg hkey)
  | delete like =>
      rw [likesOf_delete, List.filter_eq_self]
      intro row hrow
      rw [bne_iff_ne]
      intro hid
      obtain rfl := hids row hrow hid
      exact hkey (mem_likesOf.mp hrow).2

theorem likesOf_foldl_of_ne {ws : List Write} (hkeys : ∀ w ∈ ws, w.key ≠ (p, u))
    (hids : ∀ w ∈ ws, ∀ row ∈ t.likesOf p u, row.likeId = w.like.likeId → row = w.like) :
    (ws.foldl Tables.apply t).likesOf p u = t.likesOf p u := by
  induction ws generalizing t with
  | nil => rfl
  | cons w ws ih =>
      have hfirst := likesOf_apply_of_ne (hkeys w List.mem_cons_self)
        (hids w List.mem_cons_self)
      rw [List.foldl_cons, ih (fun w' hw' => hkeys w' (List.mem_cons_of_mem _ hw')), hfirst]
      rw [hfirst]
      exact fun w' hw' => hids w' (List.mem_cons_of_mem _ hw')

/-- Where a row of a table with writes comes from. -/
theorem mem_foldl_apply {ws : List Write} (h : row ∈ (ws.foldl Tables.apply t).postsLike) :
    row ∈ t.postsLike ∨ ∃ w ∈ ws, w.like = row := by
  induction ws generalizing t with
  | nil => exact Or.inl h
  | cons w ws ih =>
      rcases ih h with hrow | ⟨w', hw', rfl⟩
      · cases w with
        | insert like =>
            rcases List.mem_append.mp hrow with hrow | hrow
            · exact Or.inl hrow
            · exact Or.inr ⟨_, List.mem_cons_self, (List.mem_singleton.mp hrow).symm⟩
        | delete like => exact Or.inl (List.mem_of_mem_filter hrow)
      · exact Or.inr ⟨w', List.mem_cons_of_mem _ hw', rfl⟩

end Rows

/-! ## What the locks keep -/

section Locked

variable {C : Type}

/-- The rows of the table, of a snapshot or of an open transaction. -/
def State.Knows (s : State C) (row : PostLike) : Prop :=
  row ∈ s.db.committed.postsLike ∨
    (∃ c t, (s.db.session c).snapshot = some t ∧ row ∈ t.postsLike) ∨
    ∃ c, ∃ w ∈ (s.db.session c).writes, w.like = row

/-- No two rows share an id, no two sessions write one pair, and no session finds two rows
of a pair. -/
structure Locked (s : State C) : Prop where
  ids : ∀ {row row'}, s.Knows row → s.Knows row' → row.likeId = row'.likeId → row = row'
  below : ∀ {row}, s.Knows row → row.likeId < s.nextLikeId
  apart : ∀ {c d}, c ≠ d → ∀ w ∈ (s.db.session c).writes, ∀ w' ∈ (s.db.session d).writes,
    w.key ≠ w'.key
  single : ∀ p u, (s.db.committed.likesOf p u).length ≤ 1
  current : ∀ c p u, ((s.db.current Tables.apply c).likesOf p u).length ≤ 1

variable {c d : C} {s s' : State C} {p u : Nat} {row : PostLike} {w : Write}

theorem State.Knows.of_current (h : row ∈ (s.db.current Tables.apply c).postsLike) :
    s.Knows row := by
  rcases mem_foldl_apply h with hrow | hw
  · exact Or.inl hrow
  · exact Or.inr (Or.inr ⟨c, hw⟩)

/-- A transaction that has not written a pair's rows finds them as committed. -/
theorem Locked.current_eq (h : Locked s)
    (hkeys : ∀ w ∈ (s.db.session c).writes, w.key ≠ (p, u)) :
    (s.db.current Tables.apply c).likesOf p u = s.db.committed.likesOf p u :=
  likesOf_foldl_of_ne hkeys fun w hw _ hrow hid =>
    h.ids (Or.inl (mem_likesOf.mp hrow).1) (Or.inr (Or.inr ⟨c, w, hw, rfl⟩)) hid

theorem Locked.init {n : Nat} (hkeyed : s.db.committed.Keyed n) (hn : s.nextLikeId = n)
    (hidle : ∀ c, s.db.session c = .idle) : Locked s := by
  have hknows : ∀ {row}, s.Knows row → row ∈ s.db.committed.postsLike := by
    rintro row (hrow | ⟨c, t, ht, _⟩ | ⟨c, w, hw, _⟩)
    · exact hrow
    · simp [hidle c, Session.idle] at ht
    · simp [hidle c, Session.idle] at hw
  have hsingle : ∀ p u, (s.db.committed.likesOf p u).length ≤ 1 := by
    intro p u
    rcases hkeyed.likesOf p u with hrows | ⟨row, hrows⟩ <;> simp [hrows]
  refine ⟨fun hrow hrow' => List.inj_on_of_nodup_map hkeyed.ids (hknows hrow) (hknows hrow'),
    fun hrow => hn ▸ hkeyed.below _ (hknows hrow), fun _ w hw => ?_, hsingle, fun c p u => ?_⟩
  · simp [hidle, Session.idle] at hw
  · rw [Db.current_of_idle (hidle c)]
    exact hsingle p u

/-- What neither adds rows nor writes keeps the locks. -/
theorem Locked.mono (h : Locked s) (hknows : ∀ row, s'.Knows row → s.Knows row)
    (hnext : s.nextLikeId ≤ s'.nextLikeId)
    (hwrites : ∀ c w, w ∈ (s'.db.session c).writes → w ∈ (s.db.session c).writes)
    (hsingle : ∀ p u, (s'.db.committed.likesOf p u).length ≤ 1)
    (hcurrent : ∀ c p u, ((s'.db.current Tables.apply c).likesOf p u).length ≤ 1) :
    Locked s' where
  ids hrow hrow' := h.ids (hknows _ hrow) (hknows _ hrow')
  below hrow := Nat.lt_of_lt_of_le (h.below (hknows _ hrow)) hnext
  apart hne w hw w' hw' := h.apart hne w (hwrites _ _ hw) w' (hwrites _ _ hw')
  single := hsingle
  current := hcurrent

/-- What changes neither the rows nor the sessions. -/
theorem Locked.congr (h : Locked s)
    (hrows : s'.db.committed.postsLike = s.db.committed.postsLike)
    (hsession : s'.db.session = s.db.session) (hnext : s'.nextLikeId = s.nextLikeId) :
    Locked s' := by
  refine h.mono (fun row hrow => ?_) (Nat.le_of_eq hnext.symm) (fun c w hw => hsession ▸ hw)
    (fun p u => ?_) fun c p u => ?_
  · rw [State.Knows, hrows, hsession] at hrow
    exact hrow
  · rw [likesOf_congr hrows]
    exact h.single p u
  · rw [Db.current, hsession, likesOf_congr (foldl_apply_postsLike _ hrows)]
    exact h.current c p u

variable [DecidableEq C]

theorem Locked.read (h : Locked s) : Locked { s with db := s.db.read c } := by
  refine h.mono (fun row hrow => ?_) (Nat.le_refl _) (fun d w hw => ?_) h.single
    fun d p u => ?_
  · rcases hrow with hrow | ⟨d, t, ht, hrow⟩ | ⟨d, w, hw, rfl⟩
    · exact Or.inl hrow
    · by_cases hd : d = c
      · subst hd
        cases hs : (s.db.session d).snapshot with
        | none =>
            simp only [Db.read, Function.update_self, hs, Option.getD_none,
              Option.some.injEq] at ht
            exact Or.inl (ht ▸ hrow)
        | some t' =>
            simp only [Db.read, Function.update_self, hs, Option.getD_some,
              Option.some.injEq] at ht
            exact Or.inr (Or.inl ⟨d, t', hs, ht ▸ hrow⟩)
      · rw [Db.session_read_ne hd] at ht
        exact Or.inr (Or.inl ⟨d, t, ht, hrow⟩)
    · exact Or.inr (Or.inr ⟨d, w, by simpa using hw, rfl⟩)
  · simpa using hw
  · rw [Db.current_read]
    exact h.current d p u

/-- The end of a transaction that writes nothing. -/
theorem Locked.rollback (h : Locked s) : Locked { s with db := s.db.rollback c } := by
  have hsession : ∀ d, (s.db.rollback c).session d = .idle ∨
      (s.db.rollback c).session d = s.db.session d := by
    intro d
    by_cases hd : d = c
    · exact Or.inl (hd ▸ Db.session_rollback)
    · exact Or.inr (Db.session_rollback_ne hd)
  refine h.mono (fun row hrow => ?_) (Nat.le_refl _) (fun d w hw => ?_) h.single
    fun d p u => ?_
  · rcases hrow with hrow | ⟨d, t, ht, hrow⟩ | ⟨d, w, hw, rfl⟩
    · exact Or.inl hrow
    · rcases hsession d with hd | hd
      · simp [hd, Session.idle] at ht
      · exact Or.inr (Or.inl ⟨d, t, hd ▸ ht, hrow⟩)
    · rcases hsession d with hd | hd
      · simp [hd, Session.idle] at hw
      · exact Or.inr (Or.inr ⟨d, w, hd ▸ hw, rfl⟩)
  · rcases hsession d with hd | hd
    · simp [hd, Session.idle] at hw
    · exact hd ▸ hw
  · rcases hsession d with hd | hd
    · rw [Db.current_of_idle hd]
      exact h.single p u
    · rw [Db.current, hd]
      exact h.current d p u

/-- One more write of a session that holds the lock, with the rows it leaves. -/
theorem Locked.write (h : Locked s) {n : Nat} (hfree : s.db.Free Write.conflict c w)
    (hnew : ∀ {row}, s.Knows row → row.likeId = w.like.likeId → row = w.like)
    (hlt : w.like.likeId < n) (hn : s.nextLikeId ≤ n)
    (hcurrent : ∀ p u, (((s.db.current Tables.apply c).apply w).likesOf p u).length ≤ 1) :
    Locked { s with db := s.db.write c w, nextLikeId := n } := by
  have hwrites : ∀ {d w'}, w' ∈ ((s.db.write c w).session d).writes →
      w' ∈ (s.db.session d).writes ∨ d = c ∧ w' = w := by
    intro d w' hw'
    by_cases hd : d = c
    · subst hd
      rw [Db.writes_write, List.mem_append, List.mem_singleton] at hw'
      exact hw'.imp_right fun hw' => ⟨rfl, hw'⟩
    · rw [Db.session_write_ne hd] at hw'
      exact Or.inl hw'
  have hknows : ∀ {row}, State.Knows { s with db := s.db.write c w, nextLikeId := n } row →
      s.Knows row ∨ row = w.like := by
    rintro row (hrow | ⟨d, t, ht, hrow⟩ | ⟨d, w', hw', rfl⟩)
    · exact Or.inl (Or.inl hrow)
    · by_cases hd : d = c
      · subst hd
        simp only [Db.write, Function.update_self] at ht
        exact Or.inl (Or.inr (Or.inl ⟨d, t, ht, hrow⟩))
      · rw [Db.session_write_ne hd] at ht
        exact Or.inl (Or.inr (Or.inl ⟨d, t, ht, hrow⟩))
    · rcases hwrites hw' with hw' | ⟨_, rfl⟩
      · exact Or.inl (Or.inr (Or.inr ⟨d, w', hw', rfl⟩))
      · exact Or.inr rfl
  refine ⟨fun hrow hrow' hid => ?_, fun hrow => ?_, fun hne w₁ hw₁ w₂ hw₂ => ?_, h.single,
    fun d p u => ?_⟩
  · rcases hknows hrow with hrow | rfl
    · rcases hknows hrow' with hrow' | rfl
      · exact h.ids hrow hrow' hid
      · exact hnew hrow hid
    · rcases hknows hrow' with hrow' | rfl
      · exact (hnew hrow' hid.symm).symm
      · rfl
  · rcases hknows hrow with hrow | rfl
    · exact Nat.lt_of_lt_of_le (h.below hrow) hn
    · exact hlt
  · rcases hwrites hw₁ with hold₁ | ⟨rfl, rfl⟩
    · rcases hwrites hw₂ with hold₂ | ⟨rfl, rfl⟩
      · exact h.apart hne w₁ hold₁ w₂ hold₂
      · exact fun heq => hfree _ hne w₁ hold₁ heq.symm
    · rcases hwrites hw₂ with hold₂ | ⟨rfl, _⟩
      · exact hfree _ (Ne.symm hne) w₂ hold₂
      · exact absurd rfl hne
  · by_cases hd : d = c
    · subst hd
      rw [Db.current_write]
      exact hcurrent p u
    · rw [Db.current, Db.session_write_ne hd]
      exact h.current d p u

theorem Locked.insert (h : Locked s) {p u : Nat}
    (hfree : s.db.Free Write.conflict c (.insert ⟨s.nextLikeId, p, u⟩))
    (hnone : (s.db.current Tables.apply c).likesOf p u = []) :
    Locked { s with
      db := s.db.write c (.insert ⟨s.nextLikeId, p, u⟩), nextLikeId := s.nextLikeId + 1 } := by
  refine h.write hfree (fun hrow hid => ?_) (Nat.lt_succ_self _) (Nat.le_succ _) fun q w => ?_
  · exact absurd hid (Nat.ne_of_lt (h.below hrow))
  · rw [likesOf_insert]
    split
    · rename_i hkey
      obtain ⟨rfl, rfl⟩ := hkey
      simp [hnone]
    · exact h.current c q w

theorem Locked.delete (h : Locked s) {like : PostLike}
    (hmem : like ∈ (s.db.current Tables.apply c).postsLike)
    (hfree : s.db.Free Write.conflict c (.delete like)) :
    Locked { s with db := s.db.write c (.delete like) } := by
  have hlike : s.Knows like := .of_current hmem
  refine h.write hfree (fun hrow hid => h.ids hrow hlike hid) (h.below hlike) (Nat.le_refl _)
    fun p u => ?_
  rw [likesOf_delete]
  exact Nat.le_trans (List.length_filter_le _ _) (h.current c p u)

/-- What another session finds when a transaction commits: where it has written itself, the
rows stay; elsewhere it finds the rows of the transaction. -/
theorem Locked.current_commit (h : Locked s) (hd : d ≠ c) (p u : Nat) :
    ((s.db.commit Tables.apply c).current Tables.apply d).likesOf p u =
      if ∃ w ∈ (s.db.session d).writes, w.key = (p, u)
      then (s.db.current Tables.apply d).likesOf p u
      else (s.db.current Tables.apply c).likesOf p u := by
  rw [Db.current, Db.session_commit_ne hd, Db.committed_commit]
  split
  · rename_i hown
    obtain ⟨w, hw, hkey⟩ := hown
    refine likesOf_foldl_congr (h.current_eq fun w' hw' hkey' => ?_) _
    exact h.apart hd w hw w' hw' (hkey.trans hkey'.symm)
  · rename_i hnone
    refine likesOf_foldl_of_ne (fun w hw hkey => hnone ⟨w, hw, hkey⟩) fun w hw row hrow hid => ?_
    exact h.ids (.of_current (mem_likesOf.mp hrow).1) (Or.inr (Or.inr ⟨d, w, hw, rfl⟩)) hid

theorem Locked.commit (h : Locked s) :
    Locked { s with db := s.db.commit Tables.apply c } := by
  have hsession : ∀ d, (s.db.commit Tables.apply c).session d = .idle ∨
      (s.db.commit Tables.apply c).session d = s.db.session d := by
    intro d
    by_cases hd : d = c
    · exact Or.inl (hd ▸ Db.session_commit)
    · exact Or.inr (Db.session_commit_ne hd)
  refine h.mono (fun row hrow => ?_) (Nat.le_refl _) (fun d w hw => ?_) (h.current c)
    fun d p u => ?_
  · rcases hrow with hrow | ⟨d, t, ht, hrow⟩ | ⟨d, w, hw, rfl⟩
    · exact .of_current hrow
    · rcases hsession d with hd | hd
      · simp [hd, Session.idle] at ht
      · exact Or.inr (Or.inl ⟨d, t, hd ▸ ht, hrow⟩)
    · rcases hsession d with hd | hd
      · simp [hd, Session.idle] at hw
      · exact Or.inr (Or.inr ⟨d, w, hd ▸ hw, rfl⟩)
  · rcases hsession d with hd | hd
    · simp [hd, Session.idle] at hw
    · exact hd ▸ hw
  · by_cases hd : d = c
    · subst hd
      rw [Db.current_of_idle Db.session_commit]
      exact h.current d p u
    · rw [h.current_commit hd]
      split
      · exact h.current d p u
      · exact h.current c p u

end Locked

end GreenCommunity.Likes
