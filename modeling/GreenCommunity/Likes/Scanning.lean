import GreenCommunity.Likes.Toggles

/-!
# A sync beside toggles

In the middle of `scan_like_to_db`, while others toggle pairs and sync them too: every pair
of which the sync has a reading that still holds will have the state that was read once the
unsent change is sent.  The sync sees the rows of its snapshot and writes to the committed
ones; for such a pair the two say the same, or another sync has brought the committed row to
where the reading wants it.
-/

namespace GreenCommunity.Likes

open GreenCommunity.Base

def Change.key : Change → Nat × Nat
  | .add p u => (p, u)
  | .delete like => (like.postId, like.userId)

/-- The change answers to the rows of its pair. -/
def Suits (t : Tables) : Option Change → Prop
  | none => True
  | some (.add p u) => t.likesOf p u = []
  | some (.delete like) => t.likesOf like.postId like.userId = [like]

/-- A value was found under the key. -/
def Reading.Held (r : Reading) : Prop := (∃ v, r = .current (some v)) ∨ r = .overtaken

theorem Reading.Held.found {r : Reading} (h : r.Held) (value : Option String) :
    (r.found value).Held := by
  rcases h with ⟨v, rfl⟩ | rfl
  · cases value with
    | none => exact Or.inl ⟨v, rfl⟩
    | some v' => exact Or.inl ⟨v', rfl⟩
  · cases value with
    | none => exact Or.inr rfl
    | some v' => exact Or.inl ⟨v', rfl⟩

section Planned

variable {t t' : Tables} {unsent : Option Change} {p u : Nat}

/-- The unsent change decides about its own pair and about no other. -/
theorem planned_cases (unsent : Option Change) (p u : Nat) :
    (∀ t t', planned t unsent p u = planned t' unsent p u) ∨
      ∀ t, planned t unsent p u = t.liked p u := by
  match unsent with
  | none => exact Or.inr fun _ => rfl
  | some (.add q w) =>
      cases hkey : p == q && u == w with
      | true => exact Or.inl fun t t' => by simp [planned, hkey]
      | false => exact Or.inr fun t => by simp [planned, hkey]
  | some (.delete like) =>
      cases hkey : p == like.postId && u == like.userId with
      | true => exact Or.inl fun t t' => by simp [planned, hkey]
      | false => exact Or.inr fun t => by simp [planned, hkey]

theorem planned_of_liked (h : t'.liked p u = t.liked p u) :
    planned t' unsent p u = planned t unsent p u := by
  rcases planned_cases unsent p u with hsame | hliked
  · exact hsame t' t
  · rw [hliked, hliked, h]

theorem planned_of_ne (h : ∀ change ∈ unsent, change.key ≠ (p, u)) :
    planned t unsent p u = t.liked p u := by
  match unsent, h with
  | none, _ => rfl
  | some (.add q w), h =>
      have hkey := h _ rfl
      rw [Change.key, Ne, Prod.mk.injEq] at hkey
      have hne : (p == q && u == w) = false := by
        simpa using fun hp hu => hkey ⟨hp.symm, hu.symm⟩
      simp [planned, hne]
  | some (.delete like), h =>
      have hkey := h _ rfl
      rw [Change.key, Ne, Prod.mk.injEq] at hkey
      have hne : (p == like.postId && u == like.userId) = false := by
        simpa using fun hp hu => hkey ⟨hp.symm, hu.symm⟩
      simp [planned, hne]

/-- A row that is there is deleted, and no other pair's. -/
theorem liked_delete_of_single {like : PostLike} (hmem : like ∈ t.postsLike)
    (hsingle : ∀ p u, (t.likesOf p u).length ≤ 1)
    (hids : ∀ {row}, row ∈ t.postsLike → row.likeId = like.likeId → row = like) (p u : Nat) :
    (t.apply (.delete like)).liked p u = planned t (some (.delete like)) p u := by
  by_cases hkey : like.postId = p ∧ like.userId = u
  · obtain ⟨rfl, rfl⟩ := hkey
    have hrow : like ∈ t.likesOf like.postId like.userId := mem_likesOf.mpr ⟨hmem, rfl, rfl⟩
    have hrows : t.likesOf like.postId like.userId = [like] := by
      obtain ⟨row, hrows⟩ := List.length_eq_one_iff.mp
        (Nat.le_antisymm (hsingle _ _) (List.length_pos_of_mem hrow))
      rw [hrows, List.mem_singleton] at hrow
      rw [hrows, hrow]
    simp [Tables.liked, likesOf_delete, hrows, planned]
  · rw [planned_of_ne fun change hchange => by
      cases hchange
      simpa [Change.key] using hkey]
    refine liked_of_likesOf (likesOf_apply_of_ne (by simpa [Write.key] using hkey) ?_)
    exact fun row hrow hid => hids (mem_likesOf.mp hrow).1 hid

end Planned

/-! ## The loop -/

section Scanning

variable {C : Type} [DecidableEq C]

/-- In the middle of the loop, with a change that is still unsent and perhaps a key that was
read and not yet compared with its row. -/
structure Scanning (init : State C) (c : C) (x : World C) (unsent : Option Change)
    (busy : Option String) : Prop where
  kept : Upheld init x
  opened : unsent.isSome → (x.state.db.session c).snapshot.isSome
  suits : Suits (x.state.db.view Tables.apply c) unsent
  abreast : ∀ p u v, lastReading c p u x.log = .current (some v) →
    (x.state.db.view Tables.apply c).likesOf p u =
        (x.state.db.current Tables.apply c).likesOf p u ∨
      (x.state.db.current Tables.apply c).liked p u = (v == "1")
  planned : ∀ p u v, lastReading c p u x.log = .current (some v) → busy ≠ some (likeKey p u) →
    planned (x.state.db.current Tables.apply c) unsent p u = (v == "1")
  held : ∀ w ∈ (x.state.db.session c).writes, (lastReading c w.key.1 w.key.2 x.log).Held
  meant : ∀ change ∈ unsent, (lastReading c change.key.1 change.key.2 x.log).Held

variable {init : State C} {c : C} {x x' : World C} {unsent : Option Change}
  {busy : Option String} {p u : Nat} {v key : String} {r : Option String}
  {l : Label C Op Reply}

omit [DecidableEq C] in
theorem view_eq_current (h : (x.state.db.session c).snapshot = none) :
    x.state.db.view Tables.apply c = x.state.db.current Tables.apply c := by
  rw [Db.view, Db.current, h]
  rfl

theorem Meanwhile.view_eq (h : Meanwhile c x x')
    (hopen : (x.state.db.session c).snapshot.isSome) :
    x'.state.db.view Tables.apply c = x.state.db.view Tables.apply c := by
  obtain ⟨t, ht⟩ := Option.isSome_iff_exists.mp hopen
  rw [Db.view, Db.view, h.session, ht]
  rfl

/-- The rows that a transaction would commit: those of a pair that it has read stay, or come
to the state that was read. -/
theorem Meanwhile.current_cases (h : Meanwhile c x x') (hk : Upheld init x')
    (hr : lastReading c p u x'.log = .current (some v)) :
    (x'.state.db.current Tables.apply c).likesOf p u =
        (x.state.db.current Tables.apply c).likesOf p u ∨
      (x'.state.db.current Tables.apply c).liked p u = (v == "1") := by
  have hsame : x'.state.db.committed.likesOf p u = x.state.db.committed.likesOf p u →
      (x'.state.db.current Tables.apply c).likesOf p u =
        (x.state.db.current Tables.apply c).likesOf p u := by
    intro hrows
    rw [Db.current, Db.current, h.session]
    exact likesOf_foldl_congr hrows _
  by_cases hown : ∃ w ∈ (x.state.db.session c).writes, w.key = (p, u)
  · obtain ⟨w, hw, hkey⟩ := hown
    exact Or.inl (hsame (h.locked w hw p u hkey))
  · refine (h.rows p u v hr).imp hsame fun hliked => ?_
    refine (liked_of_likesOf (hk.locked.current_eq fun w hw hkey => ?_)).trans hliked
    exact hown ⟨w, h.session ▸ hw, hkey⟩

theorem Onward.held (h : Onward c x x') (hr : (lastReading c p u x.log).Held) :
    (lastReading c p u x'.log).Held := by
  rcases h p u with hsame | ⟨_, hover⟩
  · rwa [hsame]
  · exact Or.inr hover

/-- Others leave the loop as it is. -/
theorem Scanning.meanwhile (h : Scanning init c x unsent busy) (hr : Relies init c x x') :
    Scanning init c x' unsent busy := by
  obtain ⟨hkept, hm⟩ := hr
  have hk' := hkept h.kept
  refine ⟨hk', fun hsome => hm.session ▸ h.opened hsome, ?_, fun p u v hread => ?_,
    fun p u v hread hbusy => ?_, fun w hw => hm.onward.held (h.held w (hm.session ▸ hw)),
    fun change hchange => hm.onward.held (h.meant change hchange)⟩
  · cases hunsent : unsent with
    | none => trivial
    | some change =>
        rw [hm.view_eq (h.opened (by simp [hunsent])), ← hunsent]
        exact h.suits
  · cases hopen : (x.state.db.session c).snapshot with
    | none =>
        rw [view_eq_current (hm.session ▸ hopen)]
        exact Or.inl rfl
    | some t =>
        rw [hm.view_eq (by simp [hopen])]
        rcases hm.current_cases hk' hread with hrows | hliked
        · rw [hrows, liked_of_likesOf hrows]
          exact h.abreast p u v (hm.onward.current hread)
        · exact Or.inr hliked
  · have hplanned := h.planned p u v (hm.onward.current hread) hbusy
    rcases hm.current_cases hk' hread with hrows | hliked
    · rw [planned_of_liked (liked_of_likesOf hrows), hplanned]
    · rcases planned_cases unsent p u with hsame | hrow
      · rw [hsame _ (x.state.db.current Tables.apply c), hplanned]
      · rw [hrow, hliked]

/-- A key is read before its row. -/
theorem Scanning.get (h : Scanning init c x unsent none)
    (hkey : ∀ v, x.state.redis key = some v → key = likeKey p u)
    (htimely : ∀ v t, x.state.redis key = some v →
      (x.state.db.session c).snapshot = some t →
        t.likesOf p u = x.state.db.committed.likesOf p u) :
    Scanning init c ⟨x.state, x.log ++ [.call c ⟨.get key, .ok (x.state.redis key)⟩]⟩ unsent
      (if (x.state.redis key).isSome then some key else none) := by
  have hread : ∀ {q w v}, lastReading c q w
      (x.log ++ [.call c ⟨.get key, .ok (x.state.redis key)⟩]) = .current (some v) →
        x.state.redis key = some v ∧ key = likeKey q w ∨
          lastReading c q w x.log = .current (some v) := by
    intro q w v hnow
    rw [lastReading_get] at hnow
    split at hnow
    · rename_i hsame
      exact (Reading.found_eq_some.mp hnow).imp (⟨·, hsame.2⟩) And.right
    · exact Or.inr hnow
  have hheld : ∀ {q w}, (lastReading c q w x.log).Held → (lastReading c q w
      (x.log ++ [.call c ⟨.get key, .ok (x.state.redis key)⟩])).Held := by
    intro q w hold
    rw [lastReading_get]
    split
    · exact hold.found _
    · exact hold
  refine ⟨h.kept.get key, h.opened, h.suits, fun q w v hnow => ?_, fun q w v hnow hbusy => ?_,
    fun w hw => hheld (h.held w hw), fun change hchange => hheld (h.meant change hchange)⟩
  · rcases hread hnow with ⟨hv, rfl⟩ | hold
    · obtain ⟨rfl, rfl⟩ := likeKey_inj.mp (hkey v hv)
      refine Or.inl ?_
      cases hopen : (x.state.db.session c).snapshot with
      | none => rw [view_eq_current hopen]
      | some t =>
          rw [Db.view, Db.current, hopen]
          exact likesOf_foldl_congr (htimely v t hv hopen) _
    · exact h.abreast q w v hold
  · rcases hread hnow with ⟨hv, rfl⟩ | hold
    · simp [hv] at hbusy
    · exact h.planned q w v hold (by rintro ⟨⟩)

/-- The change is sent: a row of its pair is written. -/
theorem Scanning.sent {change : Change} {w : Write} {n : Nat}
    (h : Scanning init c x (some change) busy) (hkey : w.key = change.key)
    (hlocked : Locked { x.state with db := x.state.db.write c w, nextLikeId := n })
    (hpair : ((x.state.db.view Tables.apply c).apply w).likesOf w.key.1 w.key.2 =
      ((x.state.db.current Tables.apply c).apply w).likesOf w.key.1 w.key.2)
    (hother : ∀ p u, w.key ≠ (p, u) →
      ((x.state.db.current Tables.apply c).apply w).likesOf p u =
        (x.state.db.current Tables.apply c).likesOf p u)
    (hplanned : ∀ p u, ((x.state.db.current Tables.apply c).apply w).liked p u =
      Likes.planned (x.state.db.current Tables.apply c) (some change) p u)
    (hl : Silent l) :
    Scanning init c ⟨{ x.state with db := x.state.db.write c w, nextLikeId := n },
      x.log ++ [l]⟩ none busy := by
  refine ⟨h.kept.silent hl (fun _ _ => rfl) id hlocked, nofun, trivial,
    fun p u v hread => ?_, fun p u v hread hbusy => ?_, fun w' hw' => ?_, nofun⟩
  · rw [hl.lastReading] at hread
    rw [Db.view_write, Db.current_write]
    by_cases hsame : w.key = (p, u)
    · rw [hsame] at hpair
      exact Or.inl hpair
    · rcases h.abreast p u v hread with hrows | hliked
      · exact Or.inl (likesOf_apply_congr hrows w)
      · exact Or.inr ((liked_of_likesOf (hother p u hsame)).trans hliked)
  · rw [hl.lastReading] at hread
    rw [Db.current_write, ← h.planned p u v hread hbusy, ← hplanned]
    rfl
  · rw [hl.lastReading]
    dsimp only at hw'
    rw [Db.writes_write, List.mem_append, List.mem_singleton] at hw'
    rcases hw' with hw' | rfl
    · exact h.held w' hw'
    · rw [hkey]
      exact h.meant change rfl

theorem Scanning.insert (h : Scanning init c x (some (.add p u)) busy)
    (hfree : x.state.db.Free Write.conflict c (.insert ⟨x.state.nextLikeId, p, u⟩))
    (hnone : (x.state.db.current Tables.apply c).likesOf p u = []) (hl : Silent l) :
    Scanning init c ⟨{ x.state with
      db := x.state.db.write c (.insert ⟨x.state.nextLikeId, p, u⟩),
      nextLikeId := x.state.nextLikeId + 1 }, x.log ++ [l]⟩ none busy := by
  have hview : (x.state.db.view Tables.apply c).likesOf p u = [] := h.suits
  refine h.sent rfl (h.kept.locked.insert hfree hnone)
    (likesOf_apply_congr (hview.trans hnone.symm) _) (fun q w hne => ?_)
    (fun q w => liked_insert _) hl
  rw [likesOf_insert, if_neg]
  rwa [Write.key_eq, Ne, Prod.mk.injEq] at hne

theorem Scanning.delete {like : PostLike} (h : Scanning init c x (some (.delete like)) busy)
    (hmem : like ∈ (x.state.db.current Tables.apply c).postsLike)
    (hfree : x.state.db.Free Write.conflict c (.delete like)) (hl : Silent l) :
    Scanning init c ⟨{ x.state with db := x.state.db.write c (.delete like) },
      x.log ++ [l]⟩ none busy := by
  have hlocked := h.kept.locked
  have hids : ∀ {row}, row ∈ (x.state.db.current Tables.apply c).postsLike →
      row.likeId = like.likeId → row = like :=
    fun hrow hid => hlocked.ids (.of_current hrow) (.of_current hmem) hid
  have hplanned := liked_delete_of_single hmem (hlocked.current c) hids
  refine h.sent rfl (hlocked.delete hmem hfree) ?_ (fun q w hne =>
    likesOf_apply_of_ne hne fun row hrow hid => hids (mem_likesOf.mp hrow).1 hid) hplanned hl
  have hnone := hplanned like.postId like.userId
  simp only [Likes.planned, beq_self_eq_true, Bool.and_self, Bool.not_true, Bool.and_false] at hnone
  have hview : (x.state.db.view Tables.apply c).likesOf like.postId like.userId = [like] :=
    h.suits
  rw [Write.key, liked_eq_false.mp hnone, likesOf_delete, hview]
  simp

/-- The row is gone already: another sync has deleted it. -/
theorem Scanning.gone {like : PostLike} (h : Scanning init c x (some (.delete like)) busy)
    (hmem : like ∉ (x.state.db.current Tables.apply c).postsLike) (hl : Silent l) :
    Scanning init c ⟨x.state, x.log ++ [l]⟩ none busy := by
  refine ⟨h.kept.silent hl (fun _ _ => rfl) id h.kept.locked, nofun, trivial,
    fun p u v hread => h.abreast p u v (hl.lastReading ▸ hread), fun p u v hread hbusy => ?_,
    fun w hw => ?_, nofun⟩
  · rw [hl.lastReading] at hread
    have hplanned := h.planned p u v hread hbusy
    by_cases hkey : like.postId = p ∧ like.userId = u
    · obtain ⟨rfl, rfl⟩ := hkey
      have hview : (x.state.db.view Tables.apply c).likesOf like.postId like.userId =
          [like] := h.suits
      rcases h.abreast _ _ v hread with hrows | hliked
      · rw [hview] at hrows
        exact absurd (mem_likesOf.mp (hrows ▸ List.mem_singleton_self like)).1 hmem
      · exact hliked
    · rwa [planned_of_ne fun change hchange => by
        cases hchange
        simpa [Change.key] using hkey] at hplanned
  · rw [hl.lastReading]
    exact h.held w hw

/-- Before the first key. -/
theorem scanning_init (hs : Stored init) (hidle : ∀ c, init.db.session c = .idle) :
    Scanning init c ⟨init, []⟩ none none where
  kept := upheld_init hs hidle
  opened := nofun
  suits := trivial
  abreast _ _ _ := nofun
  planned _ _ _ := nofun
  held w hw := by simp [hidle c, Session.idle] at hw
  meant := nofun

theorem Scanning.scan (h : Scanning init c x none none) (hl : Silent l) :
    Scanning init c ⟨x.state, x.log ++ [l]⟩ none none where
  kept := h.kept.silent hl (fun _ _ => rfl) id h.kept.locked
  opened := nofun
  suits := trivial
  abreast p u v hread := h.abreast p u v (hl.lastReading ▸ hread)
  planned p u v hread := h.planned p u v (hl.lastReading ▸ hread)
  held w hw := by
    rw [hl.lastReading]
    exact h.held w hw
  meant := nofun

/-- What the sync has found under a key that it takes apart into `p` and `u`. -/
structure Looked (c : C) (x : World C) (key : String) (p u : Nat) (r : Option String) :
    Prop where
  value : ∀ v, r = some v → key = likeKey p u ∧ (v = "0" ∨ v = "1")
  reading : ∀ v, r = some v → lastReading c p u x.log = .current (some v) ∨
    lastReading c p u x.log = .overtaken

theorem looked_get (hlive : ∀ v, x.state.redis key = some v →
      key = likeKey p u ∧ (v = "0" ∨ v = "1")) :
    Looked c ⟨x.state, x.log ++ [.call c ⟨.get key, .ok (x.state.redis key)⟩]⟩ key p u
      (x.state.redis key) where
  value := hlive
  reading v hv := by
    rw [lastReading_get, if_pos ⟨rfl, (hlive v hv).1⟩, hv]
    exact Or.inl (by simp [Reading.found])

theorem Looked.onward (h : Looked c x key p u r) (ho : Onward c x x') :
    Looked c x' key p u r where
  value := h.value
  reading v hv := by
    rcases ho p u with hsame | ⟨_, hover⟩
    · rw [hsame]
      exact h.reading v hv
    · exact Or.inr hover

omit [DecidableEq C] in
/-- A change is about the pair whose key was read, and answers to its rows. -/
theorem change_suits {t : Tables} {rows : List PostLike} (hrows : rows = t.likesOf p u)
    (hlen : rows.length ≤ 1) (r : Option String) :
    Suits t (change r p u rows.head?) ∧ ∀ chg ∈ change r p u rows.head?,
      chg.key = (p, u) ∧ ∃ v, r = some v := by
  cases rows with
  | nil =>
      simp only [List.head?_nil, change]
      split
      · rename_i hone
        refine ⟨hrows.symm, ?_⟩
        rintro _ ⟨⟩
        exact ⟨rfl, _, hone⟩
      · exact ⟨trivial, by rintro _ ⟨⟩⟩
  | cons row rest =>
      obtain rfl : rest = [] :=
        List.length_eq_zero_iff.mp (Nat.le_zero.mp (Nat.le_of_succ_le_succ hlen))
      obtain ⟨_, rfl, rfl⟩ := mem_likesOf.mp (hrows ▸ List.mem_singleton_self row)
      simp only [List.head?_cons, change]
      split
      · rename_i hzero
        refine ⟨hrows.symm, ?_⟩
        rintro _ ⟨⟩
        exact ⟨rfl, _, hzero⟩
      · exact ⟨trivial, by rintro _ ⟨⟩⟩

/-- The change brings the pair to what was read, if the row that is seen is the row that is
there or is not needed any more. -/
theorem planned_of_change {t t' : Tables} {rows : List PostLike}
    (hrows : rows = t.likesOf p u) (hlen : rows.length ≤ 1) (hv : v = "0" ∨ v = "1")
    (habreast : t.likesOf p u = t'.likesOf p u ∨ t'.liked p u = (v == "1")) :
    planned t' (change (some v) p u rows.head?) p u = (v == "1") := by
  have hnone : t'.liked p u = (v == "1") → planned t' none p u = (v == "1") := id
  match rows, hrows, hlen with
  | [], hrows, _ =>
      rcases hv with rfl | rfl
      · refine hnone (habreast.elim (fun hsame => ?_) id)
        exact liked_eq_false.mpr (hsame ▸ hrows.symm)
      · simp [change, planned]
  | [row], hrows, _ =>
      obtain ⟨_, rfl, rfl⟩ := mem_likesOf.mp (hrows ▸ List.mem_singleton_self row)
      rcases hv with rfl | rfl
      · simp [change, planned]
      · refine hnone (habreast.elim (fun hsame => ?_) id)
        simp [Tables.liked, ← hsame, ← hrows]

/-- The row of the key is read, and the change it asks for is registered. -/
theorem Scanning.select {rows : List PostLike}
    (h : Scanning init c x none (if r.isSome then some key else none))
    (hlooked : Looked c x key p u r)
    (hrows : rows = (x.state.db.view Tables.apply c).likesOf p u) (hlen : rows.length ≤ 1)
    (hl : Silent l) :
    Scanning init c ⟨{ x.state with db := x.state.db.read c }, x.log ++ [l]⟩
      (change r p u rows.head?) none := by
  obtain ⟨hsuits, hkey⟩ := change_suits hrows hlen r
  refine ⟨h.kept.silent hl (fun _ _ => rfl) id h.kept.locked.read, fun _ => by simp [Db.read],
    ?_, fun q w v hread => ?_, fun q w v hread _ => ?_, fun w hw => ?_, fun chg hchg => ?_⟩
  · rw [Db.view_read]
    exact hsuits
  · rw [hl.lastReading] at hread
    rw [Db.view_read, Db.current_read]
    exact h.abreast q w v hread
  · rw [hl.lastReading] at hread
    rw [Db.current_read]
    have hold := fun hbusy => h.planned q w v hread hbusy
    cases r with
    | none =>
        rw [planned_of_ne fun chg hchg => by
          obtain ⟨_, _, hr⟩ := hkey chg hchg
          cases hr]
        exact hold (by rintro ⟨⟩)
    | some v' =>
        obtain ⟨rfl, hval⟩ := hlooked.value v' rfl
        by_cases hpair : p = q ∧ u = w
        · obtain ⟨rfl, rfl⟩ := hpair
          have hv : v' = v := by
            rcases hlooked.reading v' rfl with hnow | hover
            · rw [hread] at hnow
              simpa using hnow.symm
            · rw [hread] at hover
              cases hover
          subst hv
          exact planned_of_change hrows hlen hval (h.abreast p u v' hread)
        · rw [planned_of_ne fun chg hchg => by
            rw [(hkey chg hchg).1]
            simpa using hpair]
          exact hold (by simpa using hpair)
  · rw [hl.lastReading]
    exact h.held w (by simpa using hw)
  · rw [hl.lastReading]
    obtain ⟨hpair, v, hr⟩ := hkey chg hchg
    rw [hpair]
    exact (hlooked.reading v hr).imp (⟨v, ·⟩) id

/-! ## Behind the loop -/

/-- A key that was read is not forgotten. -/
def AllRead (c : C) (x : World C) (done : List String) : Prop :=
  ∀ p u, likeKey p u ∈ done → lastReading c p u x.log ≠ .unread

theorem AllRead.get {done : List String} (h : AllRead c x done) (key : String) :
    AllRead c ⟨x.state, x.log ++ [.call c ⟨.get key, .ok (x.state.redis key)⟩]⟩
      (done ++ [key]) := by
  intro p u hmem
  rw [lastReading_get]
  split
  · intro hunread
    cases hv : x.state.redis key <;> cases hold : lastReading c p u x.log <;>
      simp [hv, hold, Reading.found] at hunread
  · rename_i hne
    rcases List.mem_append.mp hmem with hmem | hmem
    · exact h p u hmem
    · exact absurd ⟨rfl, (List.mem_singleton.mp hmem).symm⟩ hne

theorem AllRead.onward {done : List String} (h : AllRead c x done) (ho : Onward c x x') :
    AllRead c x' done := by
  intro p u hmem
  rcases ho p u with hsame | ⟨_, hover⟩
  · rw [hsame]
    exact h p u hmem
  · rw [hover]
    nofun

/-- The rows say what the sync has read, wherever its reading still holds. -/
structure Written (init : State C) (c : C) (x : World C) : Prop where
  kept : Upheld init x
  rows : ∀ p u v, lastReading c p u x.log = .current (some v) →
    x.state.db.committed.liked p u = (v == "1")

theorem Written.meanwhile (h : Written init c x) (hr : Relies init c x x') :
    Written init c x' := by
  refine ⟨hr.1 h.kept, fun p u v hread => ?_⟩
  rcases hr.2.rows p u v hread with hrows | hliked
  · exact (liked_of_likesOf hrows).trans (h.rows p u v (hr.2.onward.current hread))
  · exact hliked

/-- The commit rests on no reading that was overtaken. -/
theorem Scanning.commit (h : Scanning init c x none none)
    (htimely : ∀ w ∈ (x.state.db.session c).writes,
      lastReading c w.key.1 w.key.2 x.log ≠ .overtaken) :
    Keeps init c x ⟨.commit, .ok ()⟩ ⟨{ x.state with db := x.state.db.commit Tables.apply c },
        x.log ++ [.call c ⟨.commit, .ok ()⟩]⟩ ∧
      Written init c ⟨{ x.state with db := x.state.db.commit Tables.apply c },
        x.log ++ [.call c ⟨.commit, .ok ()⟩]⟩ := by
  have hsilent : Silent (.call c ⟨.commit, .ok ()⟩ : Label C Op Reply) :=
    fun _ _ => ⟨rfl, fun _ => rfl⟩
  have hkeeps := keeps_commit (c := c) h.kept fun p u hown => by
    obtain ⟨w, hw, hkey⟩ := hown
    have hheld := h.held w hw
    have hover := htimely w hw
    rw [hkey] at hheld hover
    obtain ⟨v, hread⟩ := hheld.resolve_right hover
    exact (h.planned p u v hread nofun).trans (h.kept.found hread).symm
  refine ⟨hkeeps, hkeeps.1 h.kept, fun p u v hread => ?_⟩
  rw [hsilent.lastReading] at hread
  exact h.planned p u v hread nofun

/-- Nor does the deletion. -/
theorem Written.del {done : List String} (h : Written init c x) (hread : AllRead c x done)
    (htimely : ∀ p u, likeKey p u ∈ done → (x.state.redis (likeKey p u)).isSome →
      lastReading c p u x.log ≠ .overtaken) :
    Keeps init c x ⟨.del done, .ok ()⟩ ⟨{ x.state with
      redis := fun key => if key ∈ done then none else x.state.redis key },
      x.log ++ [.call c ⟨.del done, .ok ()⟩]⟩ := by
  refine keeps_del h.kept fun p u hmem hsome => ?_
  cases hnow : lastReading c p u x.log with
  | unread => exact absurd hnow (hread p u hmem)
  | overtaken => exact absurd hnow (htimely p u hmem hsome)
  | current value =>
      cases value with
      | none => simp [h.kept.missed hnow] at hsome
      | some v => exact (h.rows p u v hnow).trans (h.kept.found hnow).symm

end Scanning

end GreenCommunity.Likes
