import GreenCommunity.Base.TiedPages
import GreenCommunity.Base.Total
import GreenCommunity.Board.Alone

/-!
# Requests that nothing goes wrong around

What a request comes to by itself: nobody else is about and the database, the clock and
the storage are up, so an operation fails only if what it asks for does not fit the
tables.  `Solo c t ws s` says that `t` is committed and that the session of `c` has
written `ws` since, while no other session has written anything; the primary keys and
the `AUTO_INCREMENT` counters are in order.
-/

namespace GreenCommunity.Board

open GreenCommunity.Base
open GreenCommunity.Base.Prog
open GreenCommunity.Infrastructure (Collation oneOrNone refreshed)

/-! ## Primary keys -/

/-- The primary keys of a table that requests write to. -/
def Tables.keys (t : Tables) : Table → List Int
  | .posts => t.posts.map Post.postId
  | .postImages => t.postImages.map PostImage.imageId
  | .comments => t.comments.map Comment.commentId
  | .reports => t.reports.map Report.reportId
  | .userSanctions => t.userSanctions.map UserSanction.userSanctionId

theorem keys_insert (t : Tables) (row : Row) (table : Table) :
    (t.insert row).keys table =
      t.keys table ++ if row.key.1 = table then [row.key.2] else [] := by
  cases row <;> cases table <;> simp [Tables.insert, Tables.keys, Row.key]

theorem keys_update (t : Tables) (change : Change) (table : Table) :
    (t.update change).keys table = t.keys table := by
  cases change <;> cases table <;>
    first
    | rfl
    | exact map_key_updateAt fun _ => rfl

/-- Updates leave the keys alone. -/
theorem keys_updates {t : Tables} {ws : List Write}
    (hws : ∀ w ∈ ws, ∃ change, w = .update change) (table : Table) :
    (ws.foldl apply t).keys table = t.keys table := by
  induction ws generalizing t with
  | nil => rfl
  | cons w ws ih =>
      obtain ⟨change, rfl⟩ := hws w List.mem_cons_self
      rw [List.foldl_cons, ih fun w hw => hws w (List.mem_cons_of_mem _ hw)]
      exact keys_update t change table

/-- The keys are unique and below the counters. -/
structure Sequenced (nextId : Table → Int) (t : Tables) : Prop where
  users : (t.users.map User.userId).Nodup
  nodup : ∀ table, (t.keys table).Nodup
  below : ∀ table, ∀ k ∈ t.keys table, k < nextId table

section Sequenced

variable {nextId : Table → Int} {t : Tables}

theorem Sequenced.update (h : Sequenced nextId t) (change : Change) :
    Sequenced nextId (t.update change) where
  users := by
    cases change <;> exact h.users
  nodup table := by
    rw [keys_update]
    exact h.nodup table
  below table := by
    rw [keys_update]
    exact h.below table

theorem Sequenced.insert (h : Sequenced nextId t) {row : Row}
    (hrow : row.key.2 = nextId row.key.1) :
    Sequenced (Function.update nextId row.key.1 (row.key.2 + 1)) (t.insert row) where
  users := by
    cases row <;> exact h.users
  nodup table := by
    rw [keys_insert]
    by_cases htable : row.key.1 = table
    · subst htable
      rw [if_pos rfl]
      refine List.nodup_append.mpr ⟨h.nodup _, List.nodup_singleton _, ?_⟩
      intro k hk k' hk'
      have hlt := h.below _ k hk
      rw [List.mem_singleton.mp hk', hrow]
      omega
    · rw [if_neg htable, List.append_nil]
      exact h.nodup table
  below table := by
    rw [keys_insert]
    by_cases htable : row.key.1 = table
    · subst htable
      rw [if_pos rfl, Function.update_self, hrow]
      intro k hk
      rcases List.mem_append.mp hk with hk | hk
      · have hlt := h.below _ k hk
        omega
      · rw [List.mem_singleton.mp hk]
        omega
    · rw [if_neg htable, List.append_nil, Function.update_of_ne (Ne.symm htable)]
      exact h.below table

/-- The table and the number of a row that is inserted. -/
theorem key_of_row {new : NewRow} {n : Int} {createdAt : Nat} {row : Row}
    (h : new.row n createdAt = some row) : row.key = (new.table, n) := by
  revert h
  fun_cases NewRow.row n createdAt new <;> intro h <;> simp_all [Row.key, NewRow.table] <;>
    (subst h; rfl)

end Sequenced

/-! ## Answers -/

theorem exists_paged {R K : Type} [LinearOrder K] (key : R → K) (rows : List R)
    (offset limit : Nat) :
    ∃ page, Paged (fun row row' => key row' ≤ key row) rows offset limit page := by
  obtain ⟨sorted, hperm, hsorted⟩ := exists_admits key rows
  exact ⟨_, sorted, hperm, hsorted, rfl⟩

/-- Every query has an answer. -/
theorem Query.exists_answer (coll : Collation) (t : Tables) (query : Query) :
    ∃ rows, query.answers coll t rows := by
  cases query with
  | usersNamed userNickname =>
      exact ⟨_, _, List.Perm.refl _, List.pairwise_of_forall fun _ _ => trivial, rfl⟩
  | pageUsers offset limit => exact exists_paged User.userId _ _ _
  | pagePosts offset limit => exact exists_paged (fun row : Post × User => row.1.postId) _ _ _
  | pendingReports offset limit => exact exists_paged Report.createdAt _ _ _
  | postImages postId =>
      obtain ⟨sorted, hperm, hsorted⟩ := exists_admits
        (fun row : PostImage => OrderDual.toDual row.imageId)
        (t.postImages.filter fun row => row.postId == postId)
      exact ⟨sorted, hperm, hsorted⟩
  | notices | topComments | countReplies | replies | pendingOf => exact ⟨_, List.Perm.refl _⟩
  | _ => exact ⟨_, rfl⟩

/-! ## Operations -/

section Healthy

variable {C : Type} [DecidableEq C] (coll : Collation)

/-- The failures of an operation that are due to what it asks for: the row does not go
into its table. -/
def refuses : Op → AppError → Prop
  | .insert new, e => fails (.insert new) e ∧ ∀ n createdAt, new.row n createdAt = none
  | .update change, e => fails (.update change) e ∧ change.fits = false
  | _, _ => False

def healthyStep (c : C) (s : State C) (op : Op) : Reply op → State C → Prop
  | .ok r, s' => does coll c s op r s'
  | .error e, s' => refuses op e ∧ s' = s

/-- The semantics of a request that nothing goes wrong around. -/
def healthy : Sem C Op Reply (State C) where
  step := healthyStep coll
  env s s' := s' = s

/-- What happens when all goes well also happens otherwise. -/
theorem step_of_healthy {c : C} {s s' : State C} {op : Op} {r : Reply op}
    (h : healthyStep coll c s op r s') : step coll c s op r s' := by
  cases r with
  | ok r => exact h
  | error e =>
      refine ⟨?_, h.2⟩
      have hrefuses := h.1
      cases op <;> first | exact hrefuses.1 | exact hrefuses.elim

end Healthy

/-! ## Rules -/

structure Solo {C : Type} (c : C) (t : Tables) (ws : List Write) (s : State C) : Prop
    extends At c t ws s where
  others : ∀ c', c' ≠ c → (s.db.session c').writes = []
  numbered : Sequenced s.nextId (ws.foldl apply t)

section Solo

variable {C : Type} [DecidableEq C] {coll : Collation} {c : C} {t : Tables} {ws : List Write}
  {s : State C}

omit [DecidableEq C] in
theorem Solo.free (h : Solo c t ws s) (w : Write) : s.db.Free Write.conflict c w := by
  intro c' hc w' hw'
  rw [h.others c' hc] at hw'
  cases hw'

theorem Solo.read (h : Solo c t ws s) : Solo c t ws { s with db := s.db.read c } where
  toAt := h.toAt.read
  others c' hc := by
    rw [Db.session_read_ne hc]
    exact h.others c' hc
  numbered := h.numbered

theorem Solo.write (h : Solo c t ws s) {w : Write} {nextId : Table → Int}
    (hw : Sequenced nextId (apply (ws.foldl apply t) w)) :
    Solo c t (ws ++ [w]) { s with db := s.db.write c w, nextId } where
  toAt := h.toAt.write w nextId
  others c' hc := by
    show ((s.db.write c w).session c').writes = []
    rw [Db.session_write_ne hc]
    exact h.others c' hc
  numbered := by
    rw [List.foldl_append]
    exact hw

theorem Solo.committing (h : Solo c t ws s) :
    Solo c (ws.foldl apply t) [] { s with db := s.db.commit apply c } where
  toAt := h.toAt.committing
  others c' hc := by
    show ((s.db.commit apply c).session c').writes = []
    rw [Db.session_commit_ne hc]
    exact h.others c' hc
  numbered := h.numbered

variable {β : Type} {Q : Except AppError β → State C → Prop}

theorem Solo.select (h : Solo c t ws s) {query : Query} {f : query.Rows → BoardM β}
    (hok : ∀ rows s', query.answers coll (ws.foldl apply t) rows → Solo c t ws s' →
      (f rows).total (healthy coll) c Q s') :
    (perform (.select query) >>= f).total (healthy coll) c Q s := by
  refine ⟨?_, ?_⟩
  · obtain ⟨rows, hrows⟩ := query.exists_answer coll (ws.foldl apply t)
    exact ⟨.ok rows, _, by rw [h.view]; exact hrows, rfl⟩
  · rintro (e | rows) s' hs
    · exact hs.1.elim
    · obtain ⟨hrows, rfl⟩ := hs
      rw [h.view] at hrows
      exact hok rows _ hrows h.read

theorem Solo.update (h : Solo c t ws s) {change : Change} {f : Unit → BoardM β}
    (hfits : change.fits = true)
    (hok : ∀ s', Solo c t (ws ++ [.update change]) s' →
      (f ()).total (healthy coll) c Q s') :
    (perform (.update change) >>= f).total (healthy coll) c Q s := by
  refine ⟨⟨.ok (), _, hfits, h.free _, rfl⟩, ?_⟩
  rintro (e | _) s' hs
  · exact absurd (hs.1.2.symm.trans hfits) (by simp)
  · obtain ⟨_, _, rfl⟩ := hs
    exact hok _ (h.write (h.numbered.update change))

/-- An update that does not fit. -/
theorem Solo.update_refused (h : Solo c t ws s) {change : Change} {f : Unit → BoardM β}
    (hfits : change.fits = false) (herr : ∀ e s', Solo c t ws s' → Q (.error e) s') :
    (perform (.update change) >>= f).total (healthy coll) c Q s := by
  refine ⟨⟨.error .serviceError, s, ⟨rfl, hfits⟩, rfl⟩, ?_⟩
  rintro (e | _) s' hs
  · obtain ⟨_, rfl⟩ := hs
    exact herr e s' h
  · exact absurd (hs.1.symm.trans hfits) (by simp)

theorem Solo.insert (h : Solo c t ws s) {new : NewRow} {f : Int → BoardM β}
    (hnew : ∀ n createdAt, ∃ row, new.row n createdAt = some row)
    (hok : ∀ createdAt row s', new.row (s.nextId new.table) createdAt = some row →
      Solo c t (ws ++ [.insert row]) s' →
      (f (s.nextId new.table)).total (healthy coll) c Q s') :
    (perform (.insert new) >>= f).total (healthy coll) c Q s := by
  refine ⟨?_, ?_⟩
  · obtain ⟨row, hrow⟩ := hnew (s.nextId new.table) 0
    exact ⟨.ok (s.nextId new.table), _, rfl, 0, row, hrow, h.free _, rfl⟩
  · rintro (e | n) s' hs
    · obtain ⟨row, hrow⟩ := hnew 0 0
      exact absurd ((hs.1.2 0 0).symm.trans hrow) (by simp)
    · obtain ⟨rfl, createdAt, row, hrow, _, rfl⟩ := hs
      have hkey := key_of_row hrow
      refine hok createdAt row _ hrow (h.write ?_)
      have hnumbered := h.numbered.insert (show row.key.2 = s.nextId row.key.1 by rw [hkey])
      rwa [hkey] at hnumbered

/-- An insert of a row that the table does not take. -/
theorem Solo.insert_refused (h : Solo c t ws s) {new : NewRow} {f : Int → BoardM β}
    (hnew : ∀ n createdAt, new.row n createdAt = none)
    (herr : ∀ e s', Solo c t ws s' → Q (.error e) s') :
    (perform (.insert new) >>= f).total (healthy coll) c Q s := by
  refine ⟨⟨.error .serviceError, s, ⟨rfl, hnew⟩, rfl⟩, ?_⟩
  rintro (e | n) s' hs
  · obtain ⟨_, rfl⟩ := hs
    exact herr e s' h
  · obtain ⟨_, createdAt, row, hrow, _⟩ := hs
    exact absurd ((hnew _ _).symm.trans hrow) (by simp)

theorem Solo.now (h : Solo c t ws s) {f : Nat → BoardM β}
    (hok : ∀ now s', Solo c t ws s' → (f now).total (healthy coll) c Q s') :
    (perform .now >>= f).total (healthy coll) c Q s := by
  refine ⟨⟨.ok (0 : Nat), s, rfl⟩, ?_⟩
  rintro (e | now) s' hs
  · exact hs.1.elim
  · obtain rfl : s' = s := hs
    exact hok now s' h

theorem Solo.commit (h : Solo c t ws s) {Q : Except AppError Unit → State C → Prop}
    (hok : ∀ s', Solo c (ws.foldl apply t) [] s' → Q (.ok ()) s') :
    (perform .commit).total (healthy coll) c Q s := by
  refine ⟨⟨.ok (), _, rfl⟩, ?_⟩
  rintro (e | _) s' hs
  · exact hs.1.elim
  · obtain rfl : s' = _ := hs
    exact hok _ h.committing

/-- A loop that updates a row for each element of a list. -/
theorem Solo.updates {α : Type} {change : α → Change} {f : Unit → BoardM β}
    (hfits : ∀ a, (change a).fits = true) :
    ∀ (rows : List α) {ws : List Write} {s : State C}, Solo c t ws s →
      (∀ s', Solo c t (ws ++ rows.map fun row => .update (change row)) s' →
        (f ()).total (healthy coll) c Q s') →
      (rows.forM (fun row => perform (.update (change row))) >>= f).total (healthy coll) c Q s
  | [], ws, s, h, hok => hok s (by simpa using h)
  | row :: rows, ws, s, h, hok => by
      show ((perform (.update (change row)) >>= fun _ =>
        rows.forM fun row => perform (.update (change row))) >>= f).total (healthy coll) c Q s
      rw [bind_assoc]
      refine h.update (hfits row) fun s₁ h₁ => ?_
      refine Solo.updates hfits rows h₁ fun s' h' => hok s' ?_
      simpa using h'

/-- Reading the row of a primary key. -/
theorem total_row {R : Type} {key : R → Int} {k : Int} {rows : List R}
    (hnodup : (rows.map key).Nodup) {p : R → Bool} (hp : ∀ row, p row = true → key row = k)
    {f : Option R → BoardM β}
    (hnone : (∀ row ∈ rows, p row = false) → (f none).total (healthy coll) c Q s)
    (hsome : ∀ row ∈ rows, p row = true → (f (some row)).total (healthy coll) c Q s) :
    (oneOrNone (rows.filter p) >>= f).total (healthy coll) c Q s := by
  rcases filter_key hnodup p hp with hrows | ⟨row, hrows⟩
  · rw [hrows]
    exact hnone fun row hrow => by simpa using List.filter_eq_nil_iff.mp hrows row hrow
  · have hmem : row ∈ rows.filter p := by simp [hrows]
    rw [hrows]
    exact hsome row (List.mem_filter.mp hmem).1 (List.mem_filter.mp hmem).2

/-- `Session.refresh` of the row of a primary key. -/
theorem total_refreshed {R : Type} {key : R → Int} {k : Int} {rows : List R}
    (hnodup : (rows.map key).Nodup) {p : R → Bool} (hp : ∀ row, p row = true → key row = k)
    {f : R → BoardM β} (hrow : ∃ row ∈ rows, p row = true)
    (hok : ∀ row ∈ rows, p row = true → (f row).total (healthy coll) c Q s) :
    (refreshed (rows.filter p) >>= f).total (healthy coll) c Q s := by
  obtain ⟨row, hmem, hkey⟩ := hrow
  rcases filter_key hnodup p hp with hrows | ⟨row', hrows⟩
  · exact absurd (List.filter_eq_nil_iff.mp hrows row hmem) (by simpa using hkey)
  · have hmem' : row' ∈ rows.filter p := by simp [hrows]
    rw [hrows]
    exact hok row' (List.mem_filter.mp hmem').1 (List.mem_filter.mp hmem').2

/-- `try … except: rollback; raise` -/
theorem total_rollingBack {body : BoardM β}
    (herr : ∀ e s', At c t [] s' → Q (.error e) s')
    (hbody : body.total (healthy coll) c (fun o s' => match o with
      | .ok a => Q (.ok a) s'
      | .error _ => ∃ ws, At c t ws s') s) :
    (ReportService.rollingBack body).total (healthy coll) c Q s := by
  refine total_handle.mpr (total_mono ?_ hbody)
  rintro (e | a) s' h
  · obtain ⟨ws, h⟩ := h
    refine ⟨⟨.ok (), _, rfl⟩, ?_⟩
    rintro (e' | _) s'' hs
    · exact hs.1.elim
    · obtain rfl : s'' = _ := hs
      exact herr e _ h.rollingBack
  · exact h

end Solo

end GreenCommunity.Board
