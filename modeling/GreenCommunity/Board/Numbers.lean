import GreenCommunity.Base.Counter
import GreenCommunity.Board.Evolution
import GreenCommunity.Board.Healthy

/-!
# The numbers of rows

Every table counts its rows, and a row keeps its number.  In any run of requests no number
is given twice, whichever transactions are rolled back, so a lookup by primary key finds
one row at most, and finds the row that the same transaction has inserted before.  The
users are other people's: they are taken to have one row each.
-/

namespace GreenCommunity.Board

open GreenCommunity.Base
open GreenCommunity.Infrastructure (Collation)

/-! ## Keys -/

/-- The number of the row that a write brings to a table. -/
def Write.drawn (table : Table) : Write → List Int
  | .insert row => if row.key.1 = table then [row.key.2] else []
  | .update _ => []

theorem keys_apply (table : Table) (t : Tables) (w : Write) :
    (apply t w).keys table = t.keys table ++ w.drawn table := by
  cases w with
  | insert row => exact keys_insert t row table
  | update change => exact (keys_update t change table).trans (List.append_nil _).symm

/-- The numbers in what a session sees. -/
theorem keys_of_view {C : Type} (table : Table) (db : Db C Tables Write) (c : C) :
    (db.view apply c).keys table =
      ((db.session c).snapshot.getD db.committed).keys table ++
        db.drawnBy (Write.drawn table) c :=
  Db.keys_view (fun t => t.keys table) (keys_apply table) db c

/-- No number of a row has been given twice. -/
def AllKeyed {C : Type} (s : State C) : Prop :=
  ∀ table, s.db.Keyed (fun t => t.keys table) (Write.drawn table) (s.nextId table)

/-- Every user has one row. -/
def Tables.OneEach (t : Tables) : Prop := (t.users.map User.userId).Nodup

/-- The numbers are in order, and every session sees one row of each user. -/
structure WellNumbered {C : Type} (s : State C) : Prop where
  keyed : AllKeyed s
  users : ∀ c t, (s.db.session c).snapshot = some t → t.OneEach

section Steps

variable {C : Type} {s s' : State C}

/-- Other requests only touch the users. -/
theorem AllKeyed.others (h : AllKeyed s) (henv : others s s') : AllKeyed s' := by
  obtain ⟨users, rfl⟩ := henv
  exact fun table => (h table).congr (by cases table <;> rfl)

theorem WellNumbered.others (h : WellNumbered s) (henv : others s s') : WellNumbered s' := by
  refine ⟨h.keyed.others henv, ?_⟩
  obtain ⟨users, rfl⟩ := henv
  exact h.users

variable [DecidableEq C] {coll : Collation} {c : C} {e : BoardEvent}

theorem AllKeyed.step (h : AllKeyed s) (heff : Effect coll c s e s') : AllKeyed s' := by
  intro table
  cases heff with
  | quiet hdb hids =>
      rw [hdb, hids]
      exact h table
  | read hdb hids | select _ _ _ _ hdb hids =>
      rw [hdb, hids]
      exact (h table).read
  | insert new n createdAt row _ hn hrow hdb hids =>
      have hkey := key_of_row hrow
      rw [hdb, hids]
      by_cases htable : table = new.table
      · subst htable
        rw [Function.update_self, hn]
        refine (h new.table).draw ?_
        rw [Write.drawn, hkey, if_pos rfl, hn]
      · rw [Function.update_of_ne htable]
        refine (h table).write ?_
        rw [Write.drawn, hkey, if_neg (Ne.symm htable)]
  | update change _ hdb hids =>
      rw [hdb, hids]
      exact (h table).write rfl
  | commit _ hdb hids =>
      rw [hdb, hids]
      exact (h table).commit (keys_apply table)
  | rollback hdb hids =>
      rw [hdb, hids]
      exact (h table).rollback

/-- A snapshot is what was read from already, or what was committed. -/
theorem Effect.snapshot (heff : Effect coll c s e s') {d : C} {t : Tables}
    (ht : (s'.db.session d).snapshot = some t) :
    (s.db.session d).snapshot.getD s.db.committed = t := by
  by_cases hd : d = c
  · subst hd
    cases heff with
    | quiet hdb =>
        rw [hdb] at ht
        rw [ht, Option.getD_some]
    | read hdb | select _ _ _ _ hdb =>
        rw [hdb] at ht
        simpa [Db.read] using ht
    | insert _ _ _ _ _ _ _ hdb | update _ _ hdb =>
        rw [hdb] at ht
        have hsame : (s.db.session d).snapshot = some t := by simpa [Db.write] using ht
        rw [hsame, Option.getD_some]
    | commit _ hdb =>
        rw [hdb, Db.session_commit] at ht
        cases ht
    | rollback hdb =>
        rw [hdb, Db.session_rollback] at ht
        cases ht
  · rw [others_step hd heff] at ht
    rw [ht, Option.getD_some]

theorem WellNumbered.step (h : WellNumbered s) (hone : s.db.committed.OneEach)
    (heff : Effect coll c s e s') : WellNumbered s' := by
  refine ⟨h.keyed.step heff, fun d t ht => ?_⟩
  have hsource := heff.snapshot ht
  cases hs : (s.db.session d).snapshot with
  | none =>
      rw [hs, Option.getD_none] at hsource
      exact hsource ▸ hone
  | some t' =>
      rw [hs, Option.getD_some] at hsource
      exact h.users d t (hsource ▸ hs)

end Steps

/-! ## Lookups -/

/-- The query for the row of a table with a number. -/
def Table.byKey : Table → Int → Query
  | .posts, k => .anyPost k
  | .postImages, k => .postImage k
  | .comments, k => .anyComment k
  | .reports, k => .report k
  | .userSanctions, k => .userSanction k

/-- How many rows a query for a primary key has found. -/
def rowsFound : BoardEvent → Nat
  | ⟨.select (.user _), .ok rows⟩ => List.length rows
  | ⟨.select (.activePost _), .ok rows⟩ | ⟨.select (.anyPost _), .ok rows⟩ => List.length rows
  | ⟨.select (.postDetail _), .ok rows⟩ => List.length rows
  | ⟨.select (.postImage _), .ok rows⟩ => List.length rows
  | ⟨.select (.activeComment _), .ok rows⟩ | ⟨.select (.anyComment _), .ok rows⟩ =>
      List.length rows
  | ⟨.select (.report _), .ok rows⟩ => List.length rows
  | ⟨.select (.userSanction _), .ok rows⟩ => List.length rows
  | _ => 0

/-- The open transaction of `c` has the row with the number `k` in sight: in its snapshot
or among its own inserts. -/
def Holds {C : Type} (c : C) (table : Table) (k : Int) (s : State C) : Prop :=
  (∃ t, (s.db.session c).snapshot = some t ∧ k ∈ t.keys table) ∨
    k ∈ s.db.drawnBy (Write.drawn table) c

/-- An event of `c` in which a lookup finds one row at most, and the row it has in sight. -/
def Sighted {C : Type} (c : C) (s : State C) (e : BoardEvent) : Prop :=
  rowsFound e ≤ 1 ∧ ∀ table k rows, Holds c table k s →
    e = ⟨.select (table.byKey k), .ok rows⟩ → rowsFound e = 1

section Lookups

variable {C : Type} [DecidableEq C] {coll : Collation} {c : C} {s s' : State C} {t : Tables}

private theorem length_filter_le {R : Type} {key : R → Int} {rows : List R} {k : Int}
    (h : (rows.map key).Nodup) (p : R → Bool) (hp : ∀ row, p row = true → key row = k) :
    (rows.filter p).length ≤ 1 := by
  rcases filter_key h p hp with hnil | ⟨row, hone⟩
  · simp [hnil]
  · simp [hone]

omit [DecidableEq C] in
/-- A row in sight is in what the session sees. -/
theorem Holds.view {table : Table} {k : Int} (h : Holds c table k s) :
    k ∈ (s.db.view apply c).keys table := by
  rw [keys_of_view]
  rcases h with ⟨t, ht, hk⟩ | hk
  · refine List.mem_append_left _ ?_
    rw [ht]
    exact hk
  · exact List.mem_append_right _ hk

end Lookups

end GreenCommunity.Board
