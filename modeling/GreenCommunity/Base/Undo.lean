import GreenCommunity.Base.Ddl
import Mathlib.Data.List.Forall2

/-!
# Undoing DDL statements

What a list of statements does splits in two.  The schema alone decides what becomes of
the schema, where each column of the result comes from, and what the statements ask of
the rows on the way; expressed in the columns one started with, these are conditions on
the rows at the beginning (`run_iff`).

So whether statements give back the database they started from comes down to what is
left of these conditions after those that the constraints promise anyway, and to the
columns that come back changed (`restored_iff`).  For given statements and a given
schema both are computed.
-/

namespace GreenCommunity.Base.Ddl

section

variable {T K N : Type} [DecidableEq T] [DecidableEq K] [DecidableEq N]
variable (same : Value → Value → Bool) (now : Value)

/-! ## Sources of sources -/

omit [DecidableEq K] in
theorem Source.eval_subst (sources : K → Source K) (row : Row K) (source : Source K) :
    (source.subst sources).eval now row =
      source.eval now fun name => (sources name).eval now row := by
  induction source with
  | column name => rfl
  | const value => rfl
  | now => rfl
  | numbered source ih => rw [subst, eval, eval, ih]

namespace Views

/-- The columns after `later`, in terms of what `views` takes them from. -/
def andThen (views later : Views T K) : Views T K := fun t =>
  match later t, views t with
  | some sources', some sources => some fun name => (sources' name).subst sources
  | _, _ => none

omit [DecidableEq T] [DecidableEq K] in
theorem rows_some {views : Views T K} {t : T} {sources : K → Source K}
    (h : views t = some sources) (rows : Rows T K) :
    views.rows now rows t = (rows t).map fun row name => (sources name).eval now row := by
  rw [Views.rows, h]

omit [DecidableEq T] [DecidableEq K] in
theorem rows_unchanged (rows : Rows T K) : (unchanged : Views T K).rows now rows = rows := by
  funext t
  exact List.map_id _

omit [DecidableEq T] [DecidableEq K] in
/-- Rows in which every column has the value that it comes from. -/
theorem rows_eq_self {views : Views T K} {rows : Rows T K}
    (h : ∀ t, ∃ sources, views t = some sources ∧
      ∀ row ∈ rows t, ∀ name, (sources name).eval now row = row name) :
    views.rows now rows = rows := by
  funext t
  obtain ⟨sources, hsources, heval⟩ := h t
  rw [rows_some now hsources]
  exact (List.map_congr_left fun row hrow => funext (heval row hrow)).trans (List.map_id _)

omit [DecidableEq T] [DecidableEq K] in
theorem rows_andThen (views later : Views T K) (rows : Rows T K) :
    (views.andThen later).rows now rows = later.rows now (views.rows now rows) := by
  funext t
  rw [Views.rows, Views.rows, Views.andThen]
  cases hlater : later t with
  | none => rfl
  | some sources' =>
      cases hviews : views t with
      | none => simp [Views.rows, hviews]
      | some sources =>
          dsimp only
          rw [Views.rows, hviews]
          dsimp only
          rw [List.map_map]
          refine List.map_congr_left fun row _ => funext fun name => ?_
          exact Source.eval_subst now sources row (sources' name)

end Views

namespace Guard

/-- The condition on the rows before, where `views` is what happens to them; of a table
that is left empty nothing is asked. -/
def before (views : Views T K) : Guard T K → Option (Guard T K)
  | .notNull t source => (views t).map fun sources => .notNull t (source.subst sources)
  | .unique t keys => (views t).map fun sources => .unique t (keys.map (Source.subst sources))
  | .foreign t keys parent => (views t).map fun sources =>
      .foreign t (keys.map (Source.subst sources))
        (parent.bind fun x => (views x.1).map fun sources' =>
          (x.1, x.2.map (Source.subst sources')))

omit [DecidableEq K] in
theorem complete_subst (sources : K → Source K) (keys : List (Source K)) (row : Row K) :
    Complete now (keys.map (Source.subst sources)) row ↔
      Complete now keys fun name => (sources name).eval now row := by
  simp [Complete, Source.eval_subst]

omit [DecidableEq K] in
theorem agree_subst (sources sources' : K → Source K) (keys keys' : List (Source K))
    (row row' : Row K) :
    Agree same now (keys.map (Source.subst sources)) row (keys'.map (Source.subst sources')) row' ↔
      Agree same now keys (fun name => (sources name).eval now row)
        keys' fun name => (sources' name).eval now row' := by
  simp only [Agree, List.zip_map, List.forall_mem_map, Prod.map, Source.eval_subst]

omit [DecidableEq T] [DecidableEq K] in
theorem holds_before (views : Views T K) (rows : Rows T K) (guard : Guard T K) :
    guard.Holds same now (views.rows now rows) ↔
      ∀ guard' ∈ guard.before views, guard'.Holds same now rows := by
  cases guard with
  | notNull t source =>
      rw [Holds, before, Views.rows]
      cases views t with
      | none => simp
      | some sources => simp [Holds, Source.eval_subst]
  | unique t keys =>
      rw [Holds, before, Views.rows]
      cases views t with
      | none => simp
      | some sources =>
          simp [Holds, List.pairwise_map, complete_subst, agree_subst]
  | foreign t keys parent =>
      rw [before]
      cases hviews : views t with
      | none =>
          rcases parent with _ | ⟨t', keys'⟩ <;> simp [Holds, Views.rows, hviews]
      | some sources =>
          rcases parent with _ | ⟨t', keys'⟩
          · simp [Holds, Views.rows, hviews, complete_subst]
          · cases hviews' : views t' with
            | none => simp [Holds, Views.rows, hviews, hviews', complete_subst]
            | some sources' =>
                simp [Holds, Views.rows, hviews, hviews', complete_subst, agree_subst]

end Guard

/-! ## Lists of statements -/

section Lists

variable [Fintype T]

def Schema.views (schema : Schema T K N) : List (Statement T K N) → Views T K
  | [] => unchanged
  | statement :: statements =>
      match schema.exec statement with
      | none => unchanged
      | some next => (statement.views schema).andThen (next.views statements)

def Schema.guards (schema : Schema T K N) : List (Statement T K N) → List (Guard T K)
  | [] => []
  | statement :: statements =>
      statement.guards schema ++
        match schema.exec statement with
        | none => []
        | some next => (next.guards statements).filterMap (Guard.before (statement.views schema))

variable {same now}

/-- The conditions of a statement and of those after it. -/
theorem forall_guards_cons {schema next : Schema T K N} {statement : Statement T K N}
    {statements : List (Statement T K N)} {rows : Rows T K}
    (hexec : schema.exec statement = some next) :
    (∀ guard ∈ schema.guards (statement :: statements), guard.Holds same now rows) ↔
      (∀ guard ∈ statement.guards schema, guard.Holds same now rows) ∧
        ∀ guard ∈ next.guards statements,
          guard.Holds same now ((statement.views schema).rows now rows) := by
  rw [Schema.guards, hexec, List.forall_mem_append]
  refine and_congr_right fun _ => ?_
  simp only [List.mem_filterMap, Guard.holds_before]
  exact ⟨fun h guard hguard guard' hbefore => h guard' ⟨guard, hguard, hbefore⟩,
    fun h guard' ⟨guard, hguard, hbefore⟩ => h guard hguard guard' hbefore⟩

/-- Run on rows, the schema takes its own course if the rows meet what is asked of them. -/
theorem run_eq (schema : Schema T K N) (rows : Rows T K) (statements : List (Statement T K N)) :
    Db.run same now ⟨schema, rows⟩ statements =
      if ∀ guard ∈ schema.guards statements, guard.Holds same now rows then
        (schema.run statements).map fun last => ⟨last, (schema.views statements).rows now rows⟩
      else
        none := by
  induction statements generalizing schema rows with
  | nil =>
      rw [if_pos (by simp [Schema.guards]), Db.run, Schema.run, Schema.views,
        Views.rows_unchanged]
      rfl
  | cons statement statements ih =>
      rw [Db.run, Db.exec, Schema.run]
      by_cases hguards : ∀ guard ∈ statement.guards schema, guard.Holds same now rows
      · rw [if_pos hguards]
        cases hexec : schema.exec statement with
        | none => simp
        | some next =>
            have hrest : (∀ guard ∈ schema.guards (statement :: statements),
                  guard.Holds same now rows) ↔
                ∀ guard ∈ next.guards statements,
                  guard.Holds same now ((statement.views schema).rows now rows) :=
              (forall_guards_cons hexec).trans (and_iff_right hguards)
            rw [Option.map_some, Option.bind_some, Option.bind_some, ih]
            simp only [Schema.views, hexec, Views.rows_andThen]
            exact if_congr hrest.symm rfl rfl
      · rw [if_neg hguards, if_neg, Option.bind_none]
        exact fun hall => hguards fun guard hmem =>
          hall guard (List.mem_append_left _ hmem)

theorem Schema.run_append (schema : Schema T K N) (first rest : List (Statement T K N)) :
    schema.run (first ++ rest) = (schema.run first).bind fun next => next.run rest := by
  induction first generalizing schema with
  | nil => rfl
  | cons statement first ih =>
      rw [List.cons_append, Schema.run, Schema.run, Option.bind_assoc]
      exact congrArg _ (funext fun next => ih next)

/-! ## The database one started from -/

def Table.Same (table table' : Table T K N) : Prop :=
  table.columns.Perm table'.columns ∧ table.primaryKey = table'.primaryKey ∧
    table.indexes.Perm table'.indexes ∧ table.foreignKeys.Perm table'.foreignKeys

instance (table table' : Table T K N) : Decidable (table.Same table') :=
  inferInstanceAs (Decidable (_ ∧ _))

def SameAt : Option (Table T K N) → Option (Table T K N) → Prop
  | none, none => True
  | some table, some table' => table.Same table'
  | _, _ => False

instance : ∀ table table' : Option (Table T K N), Decidable (SameAt table table')
  | none, none => isTrue trivial
  | some table, some table' => inferInstanceAs (Decidable (table.Same table'))
  | none, some _ => isFalse id
  | some _, none => isFalse id

/-- The same tables, and in each the same columns, keys and indexes in any order. -/
def Schema.Same (schema schema' : Schema T K N) : Prop := ∀ t, SameAt (schema t) (schema' t)

instance (schema schema' : Schema T K N) : Decidable (schema.Same schema') :=
  inferInstanceAs (Decidable (∀ t, SameAt (schema t) (schema' t)))

/-- The statements go through and leave the same schema and, in the columns that were
there, the same rows. -/
def Restored (same : Value → Value → Bool) (now : Value) (db : Db T K N)
    (statements : List (Statement T K N)) : Prop :=
  ∃ db', db.run same now statements = some db' ∧ db.schema.Same db'.schema ∧
    ∀ t table, db.schema t = some table →
      List.Forall₂ (fun row row' => ∀ name ∈ table.names, row' name = row name)
        (db.rows t) (db'.rows t)

/-- A condition that the constraints promise. -/
def Schema.promises (schema : Schema T K N) (guard : Guard T K) : Bool :=
  decide (∃ t, ((schema t).any fun table => (table.constraints t).contains guard) = true)

/-- A column, and what it comes back with. -/
abbrev Change (T K : Type) := T × K × Source K

/-- The table comes back with exactly its share of the columns changed. -/
def Returns (t : T) (changes : List (Change T K)) :
    Option (Table T K N) → Option (K → Source K) → Prop
  | none, _ => ∀ change ∈ changes, change.1 ≠ t
  | some _, none => False
  | some table, some sources =>
      (∀ name ∈ table.names, sources name = .column name ∨ (t, name, sources name) ∈ changes) ∧
        ∀ change ∈ changes, change.1 = t →
          change.2.1 ∈ table.names ∧ sources change.2.1 = change.2.2

instance (t : T) (changes : List (Change T K)) : ∀ (table : Option (Table T K N))
    (sources : Option (K → Source K)), Decidable (Returns t changes table sources)
  | none, _ => inferInstanceAs (Decidable (∀ change ∈ changes, _))
  | some _, none => isFalse id
  | some _, some _ => inferInstanceAs (Decidable (_ ∧ _))

/-- What can be computed without the rows: the schema comes back, `pending` is what the
statements ask of the rows beyond the constraints, and `changes` are the columns that
come back changed. -/
structure Undoes (schema : Schema T K N) (statements : List (Statement T K N))
    (pending : List (Guard T K)) (changes : List (Change T K)) : Prop where
  back : ((schema.run statements).any fun last => schema.Same last) = true
  promised : ∀ guard ∈ schema.guards statements, schema.promises guard = true ∨ guard ∈ pending
  asked : ∀ guard ∈ pending, guard ∈ schema.guards statements
  returns : ∀ t, Returns t changes (schema t) (schema.views statements t)

instance (schema : Schema T K N) (statements : List (Statement T K N))
    (pending : List (Guard T K)) (changes : List (Change T K)) :
    Decidable (Undoes schema statements pending changes) :=
  decidable_of_iff (((schema.run statements).any fun last => schema.Same last) = true ∧
      (∀ guard ∈ schema.guards statements, schema.promises guard = true ∨ guard ∈ pending) ∧
      (∀ guard ∈ pending, guard ∈ schema.guards statements) ∧
      ∀ t, Returns t changes (schema t) (schema.views statements t))
    ⟨fun ⟨h₁, h₂, h₃, h₄⟩ => ⟨h₁, h₂, h₃, h₄⟩, fun ⟨h₁, h₂, h₃, h₄⟩ => ⟨h₁, h₂, h₃, h₄⟩⟩

omit [DecidableEq N] in
theorem Db.Conforms.promised {db : Db T K N} (h : db.Conforms same now) {guard : Guard T K}
    (hguard : db.schema.promises guard = true) : guard.Holds same now db.rows := by
  obtain ⟨t, ht⟩ := of_decide_eq_true hguard
  obtain ⟨table, htable, hmem⟩ := (Option.any_eq_true ..).mp ht
  exact h.constraints t table htable guard (List.contains_iff_mem.mp hmem)

/-- Where the schema does not come back, no rows do. -/
theorem not_restored {db : Db T K N} {statements : List (Statement T K N)}
    (hlost : ((db.schema.run statements).any fun last => db.schema.Same last) = false) :
    ¬ Restored same now db statements := by
  rintro ⟨db', hrun, hsame, _⟩
  rw [run_eq] at hrun
  split at hrun
  next =>
    obtain ⟨last, hlast, rfl⟩ := Option.map_eq_some_iff.mp hrun
    rw [hlast] at hlost
    exact of_decide_eq_false hlost hsame
  next => cases hrun

/-- A table that is there at the beginning comes back from somewhere. -/
theorem Undoes.sources {schema : Schema T K N} {statements : List (Statement T K N)}
    {pending : List (Guard T K)} {changes : List (Change T K)}
    (h : Undoes schema statements pending changes) {t : T} {table : Table T K N}
    (htable : schema t = some table) :
    ∃ sources, schema.views statements t = some sources ∧
      Returns t changes (some table) (some sources) := by
  have hreturns := h.returns t
  rw [htable] at hreturns
  cases hsources : schema.views statements t with
  | none =>
      rw [hsources] at hreturns
      exact hreturns.elim
  | some sources => exact ⟨sources, rfl, hsources ▸ hreturns⟩

omit [DecidableEq T] [DecidableEq K] [DecidableEq N] [Fintype T] in
/-- Rows come back as they were where every column does. -/
theorem forall₂_rows_iff {views : Views T K} {t : T} {sources : K → Source K} {rows : Rows T K}
    (hsources : views t = some sources) (names : List K) :
    List.Forall₂ (fun row row' => ∀ name ∈ names, row' name = row name)
        (rows t) (views.rows now rows t) ↔
      ∀ row ∈ rows t, ∀ name ∈ names, (sources name).eval now row = row name := by
  rw [Views.rows_some now hsources rows, List.forall₂_map_right_iff, List.forall₂_same]

omit [DecidableEq T] [DecidableEq K] [DecidableEq N] [Fintype T] in
/-- The columns of a table that comes back hold what they held exactly if the changed ones
do. -/
theorem Returns.kept_iff {t : T} {changes : List (Change T K)} {table : Table T K N}
    {sources : K → Source K} (h : Returns t changes (some table) (some sources)) (row : Row K) :
    (∀ name ∈ table.names, (sources name).eval now row = row name) ↔
      ∀ change ∈ changes, change.1 = t → change.2.2.eval now row = row change.2.1 := by
  constructor
  · intro hkept change hchange ht
    obtain ⟨hname, hsource⟩ := h.2 change hchange ht
    rw [← hsource]
    exact hkept change.2.1 hname
  · intro hchanges name hname
    rcases h.1 name hname with hcolumn | hchange
    · rw [hcolumn]
      rfl
    · exact hchanges _ hchange rfl

/-- Rows that conform are restored exactly if they meet what is pending and have in the
changed columns what these come back with. -/
theorem restored_iff {db : Db T K N} {statements : List (Statement T K N)}
    {pending : List (Guard T K)} {changes : List (Change T K)} (hconf : db.Conforms same now)
    (hundoes : Undoes db.schema statements pending changes) :
    Restored same now db statements ↔
      (∀ guard ∈ pending, guard.Holds same now db.rows) ∧
        ∀ change ∈ changes, ∀ row ∈ db.rows change.1,
          change.2.2.eval now row = row change.2.1 := by
  obtain ⟨last, hlast, hsame⟩ := (Option.any_eq_true ..).mp hundoes.back
  rw [Restored]
  constructor
  · rintro ⟨db', hrun, _, hrows⟩
    rw [run_eq, hlast] at hrun
    split at hrun
    next hguards =>
      cases hrun
      refine ⟨fun guard hguard => hguards guard (hundoes.asked guard hguard), ?_⟩
      intro change hchange row hrow
      cases htable : db.schema change.1 with
      | none =>
          have hreturns := hundoes.returns change.1
          rw [htable] at hreturns
          exact absurd rfl (hreturns change hchange)
      | some table =>
          obtain ⟨sources, hsources, hreturns⟩ := hundoes.sources htable
          have hback := (forall₂_rows_iff hsources table.names).mp (hrows change.1 table htable)
          exact (hreturns.kept_iff row).mp (hback row hrow) change hchange rfl
    next => cases hrun
  · rintro ⟨hpending, hchanges⟩
    have hguards : ∀ guard ∈ db.schema.guards statements, guard.Holds same now db.rows := by
      intro guard hguard
      rcases hundoes.promised guard hguard with hpromised | hmem
      · exact hconf.promised hpromised
      · exact hpending guard hmem
    refine ⟨⟨last, (db.schema.views statements).rows now db.rows⟩, ?_,
      of_decide_eq_true hsame, fun t table htable => ?_⟩
    · rw [run_eq, if_pos hguards, hlast]
      rfl
    · obtain ⟨sources, hsources, hreturns⟩ := hundoes.sources htable
      refine (forall₂_rows_iff hsources table.names).mpr fun row hrow => ?_
      refine (hreturns.kept_iff row).mpr fun change hchange ht => ?_
      exact hchanges change hchange row (ht ▸ hrow)

end Lists

end

end GreenCommunity.Base.Ddl
