import GreenCommunity.Base.Mvcc
import Mathlib.Data.List.Nodup

/-!
# Keys from a counter

The rows of a table get their primary keys from a counter that only goes up, as those
of an `AUTO_INCREMENT` column do.  A key is drawn when its row is written, long before
the transaction commits, and a transaction that is rolled back takes its keys with it:
the counter stays where it is.  So the keys of what is committed and those of the open
transactions are all different, and below the counter.

What the keys of the tables are, and which keys a write brings, are parameters.
-/

namespace GreenCommunity.Base.Db

variable {C T W : Type} (keys : T → List Int) (drawn : W → List Int)

/-- The keys that a session has drawn in its open transaction. -/
def drawnBy (db : Db C T W) (c : C) : List Int := (db.session c).writes.flatMap drawn

/-- Every key has been drawn once, and is below the counter. -/
structure Keyed (next : Int) (db : Db C T W) : Prop where
  committed : (keys db.committed).Nodup
  below : ∀ k ∈ keys db.committed, k < next
  pending : ∀ c, (db.drawnBy drawn c).Nodup
  fresh : ∀ c, ∀ k ∈ db.drawnBy drawn c, k < next ∧ k ∉ keys db.committed
  apart : ∀ c d, c ≠ d → ∀ k ∈ db.drawnBy drawn c, k ∉ db.drawnBy drawn d
  snapshot : ∀ c t, (db.session c).snapshot = some t →
    (keys t).Nodup ∧ ∀ k ∈ keys t, k ∈ keys db.committed

variable {keys drawn} {next : Int} {db : Db C T W} {c : C} {w : W} {apply : T → W → T}

/-- Tables whose keys are the same. -/
theorem Keyed.congr {t : T} (h : db.Keyed keys drawn next) (ht : keys t = keys db.committed) :
    Keyed keys drawn next { db with committed := t } where
  committed := ht ▸ h.committed
  below := ht ▸ h.below
  pending := h.pending
  fresh c k hk := ⟨(h.fresh c k hk).1, ht ▸ (h.fresh c k hk).2⟩
  apart := h.apart
  snapshot c t' ht' := ⟨(h.snapshot c t' ht').1, ht ▸ (h.snapshot c t' ht').2⟩

/-- What a session reads from has the keys of what was committed at some time. -/
theorem Keyed.source (h : db.Keyed keys drawn next) (c : C) :
    (keys ((db.session c).snapshot.getD db.committed)).Nodup ∧
      ∀ k ∈ keys ((db.session c).snapshot.getD db.committed), k ∈ keys db.committed := by
  cases hs : (db.session c).snapshot with
  | none => exact ⟨h.committed, fun _ hk => hk⟩
  | some t => exact h.snapshot c t hs

section Writes

variable (hkeys : ∀ t w, keys (apply t w) = keys t ++ drawn w)
include hkeys

/-- The keys after some writes. -/
theorem keys_foldl (t : T) (ws : List W) :
    keys (ws.foldl apply t) = keys t ++ ws.flatMap drawn := by
  induction ws generalizing t with
  | nil => simp
  | cons w ws ih => rw [List.foldl_cons, ih, hkeys, List.flatMap_cons, List.append_assoc]

variable (keys) in
theorem keys_view (db : Db C T W) (c : C) : keys (db.view apply c) =
    keys ((db.session c).snapshot.getD db.committed) ++ db.drawnBy drawn c :=
  keys_foldl hkeys _ _

theorem keys_current (db : Db C T W) (c : C) :
    keys (db.current apply c) = keys db.committed ++ db.drawnBy drawn c :=
  keys_foldl hkeys _ _

/-- No key shows twice in what a session sees. -/
theorem Keyed.view (h : db.Keyed keys drawn next) (c : C) :
    (keys (db.view apply c)).Nodup := by
  rw [keys_view keys hkeys]
  refine List.nodup_append.mpr ⟨(h.source c).1, h.pending c, fun k hk k' hk' heq => ?_⟩
  subst heq
  exact (h.fresh c k hk').2 ((h.source c).2 k hk)

theorem Keyed.current (h : db.Keyed keys drawn next) (c : C) :
    (keys (db.current apply c)).Nodup := by
  rw [keys_current hkeys]
  refine List.nodup_append.mpr ⟨h.committed, h.pending c, fun k hk k' hk' heq => ?_⟩
  subst heq
  exact (h.fresh c k hk').2 hk

end Writes

/-! ## Steps -/

variable [DecidableEq C]

theorem drawnBy_read (d : C) : (db.read c).drawnBy drawn d = db.drawnBy drawn d := by
  rw [drawnBy, writes_read, drawnBy]

theorem Keyed.read (h : db.Keyed keys drawn next) : (db.read c).Keyed keys drawn next where
  committed := h.committed
  below := h.below
  pending d := by
    rw [drawnBy_read]
    exact h.pending d
  fresh d k hk := by
    rw [drawnBy_read] at hk
    exact h.fresh d k hk
  apart d d' hd k hk := by
    rw [drawnBy_read] at hk ⊢
    exact h.apart d d' hd k hk
  snapshot d t ht := by
    by_cases hd : d = c
    · subst hd
      simp only [Db.read, Function.update_self, Option.some.injEq] at ht
      subst ht
      exact h.source d
    · rw [session_read_ne hd] at ht
      exact h.snapshot d t ht

theorem drawnBy_write : (db.write c w).drawnBy drawn c = db.drawnBy drawn c ++ drawn w := by
  rw [drawnBy, writes_write, List.flatMap_append, List.flatMap_singleton]
  rfl

theorem drawnBy_write_ne {d : C} (hd : d ≠ c) :
    (db.write c w).drawnBy drawn d = db.drawnBy drawn d := by
  rw [drawnBy, session_write_ne hd]
  rfl

private theorem snapshot_write (d : C) :
    ((db.write c w).session d).snapshot = (db.session d).snapshot := by
  by_cases hd : d = c
  · subst hd
    simp [Db.write]
  · rw [session_write_ne hd]

/-- A write that brings no row. -/
theorem Keyed.write (h : db.Keyed keys drawn next) (hw : drawn w = []) :
    (db.write c w).Keyed keys drawn next := by
  have hsame : ∀ d, (db.write c w).drawnBy drawn d = db.drawnBy drawn d := by
    intro d
    by_cases hd : d = c
    · subst hd
      rw [drawnBy_write, hw, List.append_nil]
    · exact drawnBy_write_ne hd
  refine ⟨h.committed, h.below, fun d => ?_, fun d => ?_, fun d d' hd => ?_, fun d t ht => ?_⟩
  · rw [hsame]
    exact h.pending d
  · rw [hsame]
    exact h.fresh d
  · rw [hsame, hsame]
    exact h.apart d d' hd
  · rw [snapshot_write] at ht
    exact h.snapshot d t ht

/-- A write of one row, which takes the key that the counter shows. -/
theorem Keyed.draw (h : db.Keyed keys drawn next) (hw : drawn w = [next]) :
    (db.write c w).Keyed keys drawn (next + 1) := by
  have hcases : ∀ d k, k ∈ (db.write c w).drawnBy drawn d →
      k ∈ db.drawnBy drawn d ∨ (d = c ∧ k = next) := by
    intro d k hk
    by_cases hd : d = c
    · subst hd
      rw [drawnBy_write, hw, List.mem_append, List.mem_singleton] at hk
      exact hk.imp_right fun hk => ⟨rfl, hk⟩
    · rw [drawnBy_write_ne hd] at hk
      exact Or.inl hk
  refine ⟨h.committed, fun k hk => ?_, fun d => ?_, fun d k hk => ?_, fun d d' hd k hk hk' => ?_,
    fun d t ht => ?_⟩
  · exact Int.lt_trans (h.below k hk) (Int.lt_succ next)
  · by_cases hd : d = c
    · subst hd
      rw [drawnBy_write, hw]
      refine List.nodup_append.mpr ⟨h.pending d, List.nodup_singleton _, ?_⟩
      intro k hk k' hk' heq
      rw [List.mem_singleton.mp hk'] at heq
      exact absurd (h.fresh d k hk).1 (heq ▸ Int.lt_irrefl _)
    · rw [drawnBy_write_ne hd]
      exact h.pending d
  · rcases hcases d k hk with hk | ⟨rfl, rfl⟩
    · exact ⟨Int.lt_trans (h.fresh d k hk).1 (Int.lt_succ next), (h.fresh d k hk).2⟩
    · exact ⟨Int.lt_succ k, fun hmem => absurd (h.below k hmem) (Int.lt_irrefl _)⟩
  · rcases hcases d k hk with hold | ⟨rfl, rfl⟩
    · rcases hcases d' k hk' with hold' | ⟨rfl, rfl⟩
      · exact h.apart d d' hd k hold hold'
      · exact absurd (h.fresh d k hold).1 (Int.lt_irrefl _)
    · rcases hcases d' k hk' with hold' | ⟨rfl, _⟩
      · exact absurd (h.fresh d' k hold').1 (Int.lt_irrefl _)
      · exact hd rfl
  · rw [snapshot_write] at ht
    exact h.snapshot d t ht

/-- The end of a transaction, which leaves the tables `t`: its keys are among them or gone. -/
private theorem Keyed.ended (h : db.Keyed keys drawn next) {t : T} (hnodup : (keys t).Nodup)
    (hold : ∀ k ∈ keys db.committed, k ∈ keys t)
    (hnew : ∀ k ∈ keys t, k ∈ keys db.committed ∨ k ∈ db.drawnBy drawn c) :
    Keyed keys drawn next { committed := t, session := Function.update db.session c .idle } := by
  have hgone : drawnBy drawn { committed := t, session := Function.update db.session c .idle } c =
      [] := by
    simp [drawnBy, Session.idle]
  have hsame : ∀ d, d ≠ c →
      drawnBy drawn { committed := t, session := Function.update db.session c .idle } d =
        db.drawnBy drawn d := by
    intro d hd
    simp [drawnBy, Function.update_of_ne hd]
  have hcases : ∀ d k, k ∈ drawnBy drawn
      { committed := t, session := Function.update db.session c .idle } d →
        d ≠ c ∧ k ∈ db.drawnBy drawn d := by
    intro d k hk
    by_cases hd : d = c
    · subst hd
      rw [hgone] at hk
      cases hk
    · rw [hsame d hd] at hk
      exact ⟨hd, hk⟩
  refine ⟨hnodup, fun k hk => ?_, fun d => ?_, fun d k hk => ?_, fun d d' hd k hk hk' => ?_,
    fun d t' ht' => ?_⟩
  · exact (hnew k hk).elim (h.below k) fun hk => (h.fresh c k hk).1
  · by_cases hd : d = c
    · subst hd
      rw [hgone]
      exact List.nodup_nil
    · rw [hsame d hd]
      exact h.pending d
  · obtain ⟨hd, hk⟩ := hcases d k hk
    refine ⟨(h.fresh d k hk).1, fun hmem => ?_⟩
    rcases hnew k hmem with hcommitted | hown
    · exact (h.fresh d k hk).2 hcommitted
    · exact h.apart d c hd k hk hown
  · exact h.apart d d' hd k (hcases d k hk).2 (hcases d' k hk').2
  · by_cases hd : d = c
    · subst hd
      simp [Session.idle] at ht'
    · simp only [Function.update_of_ne hd] at ht'
      exact ⟨(h.snapshot d t' ht').1, fun k hk => hold k ((h.snapshot d t' ht').2 k hk)⟩

theorem Keyed.rollback (h : db.Keyed keys drawn next) :
    (db.rollback c).Keyed keys drawn next :=
  h.ended h.committed (fun _ hk => hk) fun _ hk => Or.inl hk

theorem Keyed.commit (hkeys : ∀ t w, keys (apply t w) = keys t ++ drawn w)
    (h : db.Keyed keys drawn next) : (db.commit apply c).Keyed keys drawn next := by
  refine h.ended (h.current hkeys c) (fun k hk => ?_) fun k hk => ?_
  · rw [keys_current hkeys]
    exact List.mem_append_left _ hk
  · rw [keys_current hkeys] at hk
    exact List.mem_append.mp hk

end GreenCommunity.Base.Db
