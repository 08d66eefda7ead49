import Mathlib.Logic.Function.Basic

/-!
# Transactions over snapshots

A database whose transactions read from a snapshot, as MySQL does under
REPEATABLE READ.  The first `SELECT` of a transaction fixes what it sees of the
others; its own writes show on top of that.  Writes act on what is committed at
the time: `commit` applies the transaction's writes to the committed tables, which
may have moved on since the snapshot.  Locks are up to the instance: a write waits
while another open transaction holds a conflicting one (`Free`).

The tables `T`, the writes `W` and the effect `apply` of a write are parameters,
and so are the callers `C`, each of which has one session.
-/

namespace GreenCommunity.Base

/-- A session: the snapshot of its open transaction, if it has read anything yet,
and the transaction's writes, oldest first. -/
structure Session (T W : Type) where
  snapshot : Option T
  writes : List W

/-- A session without an open transaction. -/
def Session.idle {T W : Type} : Session T W := ⟨none, []⟩

structure Db (C T W : Type) where
  committed : T
  session : C → Session T W

namespace Db

variable {C T W : Type} (apply : T → W → T)

/-- What a `SELECT` of the session sees. -/
def view (db : Db C T W) (c : C) : T :=
  (db.session c).writes.foldl apply ((db.session c).snapshot.getD db.committed)

/-- The tables as they are if the session commits now. -/
def current (db : Db C T W) (c : C) : T :=
  (db.session c).writes.foldl apply db.committed

/-- No other session holds a conflicting write. -/
def Free (conflict : W → W → Prop) (db : Db C T W) (c : C) (w : W) : Prop :=
  ∀ c', c' ≠ c → ∀ w' ∈ (db.session c').writes, ¬ conflict w w'

variable [DecidableEq C]

/-- A `SELECT`: it opens the snapshot if there is none. -/
def read (db : Db C T W) (c : C) : Db C T W :=
  let snapshot := some ((db.session c).snapshot.getD db.committed)
  { db with session := Function.update db.session c { db.session c with snapshot } }

/-- One more write of the open transaction. -/
def write (db : Db C T W) (c : C) (w : W) : Db C T W :=
  let writes := (db.session c).writes ++ [w]
  { db with session := Function.update db.session c { db.session c with writes } }

def commit (db : Db C T W) (c : C) : Db C T W :=
  { committed := db.current apply c
    session := Function.update db.session c .idle }

def rollback (db : Db C T W) (c : C) : Db C T W :=
  { db with session := Function.update db.session c .idle }

variable {apply} {db : Db C T W} {c : C} {w : W}

@[simp] theorem committed_read : (db.read c).committed = db.committed := rfl

@[simp] theorem committed_write : (db.write c w).committed = db.committed := rfl

@[simp] theorem committed_rollback : (db.rollback c).committed = db.committed := rfl

@[simp] theorem committed_commit :
    (db.commit apply c).committed = db.current apply c := rfl

@[simp] theorem writes_read (c' : C) :
    ((db.read c).session c').writes = (db.session c').writes := by
  by_cases h : c' = c
  · subst h
    simp [read]
  · simp [read, h]

@[simp] theorem session_commit : (db.commit apply c).session c = .idle := by
  simp [commit]

@[simp] theorem session_rollback : (db.rollback c).session c = .idle := by
  simp [rollback]

/-- The other sessions do not notice. -/
theorem session_read_ne {c' : C} (h : c' ≠ c) :
    (db.read c).session c' = db.session c' := by
  simp [read, h]

theorem session_write_ne {c' : C} (h : c' ≠ c) :
    (db.write c w).session c' = db.session c' := by
  simp [write, h]

theorem session_commit_ne {c' : C} (h : c' ≠ c) :
    (db.commit apply c).session c' = db.session c' := by
  simp [commit, h]

theorem session_rollback_ne {c' : C} (h : c' ≠ c) :
    (db.rollback c).session c' = db.session c' := by
  simp [rollback, h]

@[simp] theorem writes_write :
    ((db.write c w).session c).writes = (db.session c).writes ++ [w] := by
  simp [write]

@[simp] theorem current_read (c' : C) :
    (db.read c).current apply c' = db.current apply c' := by
  simp [current]

@[simp] theorem current_write :
    (db.write c w).current apply c = apply (db.current apply c) w := by
  simp [current]

@[simp] theorem view_read : (db.read c).view apply c = db.view apply c := by
  simp [view, read]

@[simp] theorem view_write :
    (db.write c w).view apply c = apply (db.view apply c) w := by
  simp [view, write]

omit [DecidableEq C] in
@[simp] theorem current_of_idle (h : db.session c = .idle) :
    db.current apply c = db.committed := by
  simp [current, h, Session.idle]

/-! ## Snapshots

A snapshot is what was committed at some time. -/

/-- `I` holds of all that is committed or in a snapshot, and `R` leads from every snapshot
to what is committed by now. -/
structure Follows (I : T → Prop) (R : T → T → Prop) (db : Db C T W) : Prop where
  committed : I db.committed
  snapshot : ∀ c t, (db.session c).snapshot = some t → I t ∧ R t db.committed

section Follows

variable {I : T → Prop} {R : T → T → Prop}

omit [DecidableEq C] in
/-- What a session reads from. -/
theorem Follows.source (hR : ∀ t, R t t) (h : db.Follows I R) (c : C) :
    I ((db.session c).snapshot.getD db.committed) ∧
      R ((db.session c).snapshot.getD db.committed) db.committed := by
  cases hs : (db.session c).snapshot with
  | none => exact ⟨h.committed, hR _⟩
  | some t => exact h.snapshot c t hs

theorem Follows.read (hR : ∀ t, R t t) (h : db.Follows I R) : (db.read c).Follows I R where
  committed := h.committed
  snapshot d t ht := by
    by_cases hd : d = c
    · subst hd
      simp only [Db.read, Function.update_self, Option.some.injEq] at ht
      subst ht
      exact h.source hR d
    · rw [session_read_ne hd] at ht
      exact h.snapshot d t ht

theorem Follows.write (h : db.Follows I R) : (db.write c w).Follows I R where
  committed := h.committed
  snapshot d t ht := by
    by_cases hd : d = c
    · subst hd
      simp only [Db.write, Function.update_self] at ht
      exact h.snapshot d t ht
    · rw [session_write_ne hd] at ht
      exact h.snapshot d t ht

theorem Follows.rollback (h : db.Follows I R) : (db.rollback c).Follows I R where
  committed := h.committed
  snapshot d t ht := by
    by_cases hd : d = c
    · subst hd
      rw [session_rollback] at ht
      cases ht
    · rw [session_rollback_ne hd] at ht
      exact h.snapshot d t ht

theorem Follows.commit (htrans : ∀ {t t' t''}, R t t' → R t' t'' → R t t'')
    (h : db.Follows I R) (hI : I (db.current apply c))
    (hR : R db.committed (db.current apply c)) : (db.commit apply c).Follows I R where
  committed := hI
  snapshot d t ht := by
    by_cases hd : d = c
    · subst hd
      rw [session_commit] at ht
      cases ht
    · rw [session_commit_ne hd] at ht
      exact ⟨(h.snapshot d t ht).1, htrans (h.snapshot d t ht).2 hR⟩

end Follows

/-! ## A session that is alone

Where nobody else commits, the snapshot never falls behind. -/

/-- The session's snapshot, if it is open, is what is committed. -/
def Fresh (db : Db C T W) (c : C) : Prop :=
  ∀ t, (db.session c).snapshot = some t → t = db.committed

omit [DecidableEq C] in
theorem Fresh.view_eq (h : db.Fresh c) : db.view apply c = db.current apply c := by
  unfold view current
  cases hs : (db.session c).snapshot with
  | none => rfl
  | some t => rw [h t hs]; rfl

theorem Fresh.read (h : db.Fresh c) : (db.read c).Fresh c := by
  intro t ht
  simp only [Db.read, Function.update_self, Option.some.injEq] at ht
  cases hs : (db.session c).snapshot with
  | none => simp [hs] at ht; exact ht.symm
  | some t' =>
      rw [hs, Option.getD_some] at ht
      rw [← ht]
      exact h t' hs

theorem Fresh.write (h : db.Fresh c) : (db.write c w).Fresh c := by
  intro t ht
  simp only [Db.write, Function.update_self] at ht
  exact h t ht

omit [DecidableEq C] in
theorem fresh_of_idle (h : db.session c = .idle) : db.Fresh c := by
  intro t ht
  simp [h, Session.idle] at ht

end Db

end GreenCommunity.Base
