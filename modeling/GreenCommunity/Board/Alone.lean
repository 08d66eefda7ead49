import GreenCommunity.Board.Requests

/-!
# Requests with nobody else about

A session that is alone sees its own writes on top of what is committed.  `At c t ws s`
says that `t` is committed in `s` and that the session of `c` has written `ws` since.
Each operation has a rule from one such state to the next; an operation that fails
leaves the state it met.
-/

namespace GreenCommunity.Board

open GreenCommunity.Base
open GreenCommunity.Base.Prog
open GreenCommunity.Infrastructure (Collation oneOrNone refreshed wp_perform)

section Alone

variable {C : Type} [DecidableEq C] {c : C} {t : Tables} {ws : List Write} {s : State C}

structure At (c : C) (t : Tables) (ws : List Write) (s : State C) : Prop where
  committed : s.db.committed = t
  fresh : s.db.Fresh c
  writes : (s.db.session c).writes = ws

omit [DecidableEq C] in
theorem At.current (h : At c t ws s) : s.db.current apply c = ws.foldl apply t := by
  rw [Db.current, h.writes, h.committed]

omit [DecidableEq C] in
theorem At.view (h : At c t ws s) : s.db.view apply c = ws.foldl apply t := by
  rw [h.fresh.view_eq, h.current]

omit [DecidableEq C] in
theorem at_of_idle (h : s.db.session c = .idle) : At c s.db.committed [] s :=
  ⟨rfl, Db.fresh_of_idle h, by rw [h]; rfl⟩

theorem At.read (h : At c t ws s) : At c t ws { s with db := s.db.read c } :=
  ⟨h.committed, h.fresh.read, by simpa using h.writes⟩

theorem At.write (h : At c t ws s) (w : Write) (nextId : Table → Int) :
    At c t (ws ++ [w]) { s with db := s.db.write c w, nextId } :=
  ⟨h.committed, h.fresh.write, by simp [h.writes]⟩

theorem At.committing (h : At c t ws s) :
    At c (ws.foldl apply t) [] { s with db := s.db.commit apply c } where
  committed := h.current
  fresh := Db.fresh_of_idle Db.session_commit
  writes := by
    show ((s.db.commit apply c).session c).writes = []
    rw [Db.session_commit]
    rfl

theorem At.rollingBack (h : At c t ws s) : At c t [] { s with db := s.db.rollback c } where
  committed := h.committed
  fresh := Db.fresh_of_idle Db.session_rollback
  writes := by
    show ((s.db.rollback c).session c).writes = []
    rw [Db.session_rollback]
    rfl

/-! ## Rules -/

variable {coll : Collation} {β : Type} {Q : Except AppError β → State C → Prop}

theorem At.select (h : At c t ws s) {query : Query} {f : query.Rows → BoardM β}
    (herr : ∀ e s', At c t ws s' → Q (.error e) s')
    (hok : ∀ rows s', query.answers coll (ws.foldl apply t) rows → At c t ws s' →
      (f rows).wp (alone coll) c Q s') :
    (perform (.select query) >>= f).wp (alone coll) c Q s := by
  refine wp_bind.mpr (wp_perform ?_ ?_)
  · rintro rows s' ⟨hrows, rfl⟩
    rw [h.view] at hrows
    exact hok rows _ hrows h.read
  · rintro e s' ⟨_, rfl⟩
    exact herr e s' h

theorem At.update (h : At c t ws s) {change : Change} {f : Unit → BoardM β}
    (herr : ∀ e s', At c t ws s' → Q (.error e) s')
    (hok : ∀ s', At c t (ws ++ [.update change]) s' → (f ()).wp (alone coll) c Q s') :
    (perform (.update change) >>= f).wp (alone coll) c Q s := by
  refine wp_bind.mpr (wp_perform ?_ ?_)
  · rintro _ _ ⟨_, _, rfl⟩
    exact hok _ (h.write _ _)
  · rintro e s' ⟨_, rfl⟩
    exact herr e s' h

theorem At.insert (h : At c t ws s) {new : NewRow} {f : Int → BoardM β}
    (herr : ∀ e s', At c t ws s' → Q (.error e) s')
    (hok : ∀ n createdAt row s', new.row n createdAt = some row →
      At c t (ws ++ [.insert row]) s' → (f n).wp (alone coll) c Q s') :
    (perform (.insert new) >>= f).wp (alone coll) c Q s := by
  refine wp_bind.mpr (wp_perform ?_ ?_)
  · rintro n _ ⟨_, createdAt, row, hrow, _, rfl⟩
    exact hok n createdAt row _ hrow (h.write _ _)
  · rintro e s' ⟨_, rfl⟩
    exact herr e s' h

theorem At.now (h : At c t ws s) {f : Nat → BoardM β}
    (hok : ∀ now s', At c t ws s' → (f now).wp (alone coll) c Q s') :
    (perform .now >>= f).wp (alone coll) c Q s := by
  refine wp_bind.mpr (wp_perform ?_ ?_)
  · rintro now _ rfl
    exact hok now _ h
  · rintro e s' ⟨hfail, _⟩
    exact absurd hfail id

theorem At.commit (h : At c t ws s) {Q : Except AppError Unit → State C → Prop}
    (herr : ∀ e s', At c t ws s' → Q (.error e) s')
    (hok : ∀ s', At c (ws.foldl apply t) [] s' → Q (.ok ()) s') :
    (perform .commit).wp (alone coll) c Q s := by
  refine wp_perform ?_ ?_
  · rintro _ _ rfl
    exact hok _ h.committing
  · rintro e s' ⟨_, rfl⟩
    exact herr e s' h

/-- A loop that updates a row for each element of a list. -/
theorem At.updates {α : Type} {change : α → Change} {f : Unit → BoardM β}
    (herr : ∀ e ws' s', At c t ws' s' → Q (.error e) s') :
    ∀ (rows : List α) {ws : List Write} {s : State C}, At c t ws s →
      (∀ s', At c t (ws ++ rows.map fun row => .update (change row)) s' →
        (f ()).wp (alone coll) c Q s') →
      (rows.forM (fun row => perform (.update (change row))) >>= f).wp (alone coll) c Q s
  | [], ws, s, h, hok => hok s (by simpa using h)
  | row :: rows, ws, s, h, hok => by
      show ((perform (.update (change row)) >>= fun _ =>
        rows.forM fun row => perform (.update (change row))) >>= f).wp (alone coll) c Q s
      rw [bind_assoc]
      refine h.update (fun e s' => herr e ws s') fun s₁ h₁ => ?_
      refine At.updates herr rows h₁ fun s' h' => hok s' ?_
      simpa using h'

/-- Reading at most one row. -/
theorem At.one {R : Type} (h : At c t ws s) {rows : List R} {f : Option R → BoardM β}
    (herr : ∀ e s', At c t ws s' → Q (.error e) s')
    (hnone : rows = [] → (f none).wp (alone coll) c Q s)
    (hsome : ∀ row, rows = [row] → (f (some row)).wp (alone coll) c Q s) :
    (oneOrNone rows >>= f).wp (alone coll) c Q s :=
  match rows with
  | [] => hnone rfl
  | [row] => hsome row rfl
  | _ :: _ :: _ => herr _ s h

/-- `Session.refresh` returns a row or raises. -/
theorem At.refreshed {R : Type} (h : At c t ws s) {rows : List R} {f : R → BoardM β}
    (herr : ∀ e s', At c t ws s' → Q (.error e) s')
    (hok : ∀ row, (f row).wp (alone coll) c Q s) :
    (Infrastructure.refreshed rows >>= f).wp (alone coll) c Q s :=
  match rows with
  | [] => herr _ s h
  | [row] => hok row
  | _ :: _ :: _ => herr _ s h

/-- `try … except: rollback; raise` -/
theorem wp_rollingBack {body : BoardM β}
    (herr : ∀ e s', At c t [] s' → Q (.error e) s')
    (hbody : body.wp (alone coll) c (fun o s' => match o with
      | .ok a => Q (.ok a) s'
      | .error _ => ∃ ws, At c t ws s') s) :
    (ReportService.rollingBack body).wp (alone coll) c Q s := by
  refine wp_handle.mpr (wp_mono ?_ hbody)
  rintro (e | a) s' h
  · obtain ⟨ws, h⟩ := h
    refine wp_bind.mpr (wp_perform ?_ ?_)
    · rintro _ _ rfl
      exact herr e _ h.rollingBack
    · rintro _ _ ⟨hfail, _⟩
      exact absurd hfail id
  · exact h

end Alone

end GreenCommunity.Board
