import Mathlib.Data.Fintype.Pi
import Mathlib.Logic.Function.Basic

/-!
# DDL statements as MySQL runs them

A database is a schema and the rows of its tables.  A statement that changes the schema
commits at once and fails where MySQL refuses it: a name is taken or missing, an index
is dropped that a foreign key needs, a constraint is added that the rows do not meet.
`CHANGE` and `MODIFY` replace the whole definition of a column, so what they do not
repeat is lost.

Tables, columns and constraints are named by the types `T`, `K` and `N`.  `same` is how
the database compares two values, and `now` the time that it fills in.
-/

namespace GreenCommunity.Base.Ddl

/-! ## Schemas -/

inductive Value where
  | null
  | int (n : Int)
  | text (s : String)
  deriving DecidableEq

inductive SqlType where
  | integer
  | boolean
  | varchar (length : Nat)
  | text
  | datetime
  | enum (values : List String)
  deriving DecidableEq

inductive Default where
  | literal (value : Value)
  | currentTimestamp
  deriving DecidableEq

structure Column (K : Type) where
  name : K
  type : SqlType
  nullable : Bool
  default : Option Default
  autoIncrement : Bool
  deriving DecidableEq

/-- A unique constraint is a unique index. An implicit one was made for a foreign key and
gives way to any that serves it as well. -/
structure Index (K N : Type) where
  name : N
  columns : List K
  unique : Bool
  implicit : Bool
  deriving DecidableEq

structure ForeignKey (T K N : Type) where
  name : N
  columns : List K
  refTable : T
  refColumns : List K
  cascade : Bool
  deriving DecidableEq

structure Table (T K N : Type) where
  columns : List (Column K)
  primaryKey : List K
  indexes : List (Index K N)
  foreignKeys : List (ForeignKey T K N)
  deriving DecidableEq

abbrev Schema (T K N : Type) := T → Option (Table T K N)

inductive Statement (T K N : Type) where
  | createTable (t : T) (table : Table T K N)
  | dropTable (t : T)
  | createIndex (t : T) (index : Index K N)
  | dropIndex (t : T) (name : N)
  | addColumn (t : T) (column : Column K)
  | dropColumn (t : T) (name : K)
  /-- `CHANGE old column`; `MODIFY` if the name stays. -/
  | changeColumn (t : T) (old : K) (column : Column K)
  /-- `ALTER COLUMN name SET DEFAULT` or `DROP DEFAULT`. -/
  | setDefault (t : T) (name : K) (default : Option Default)
  | addForeignKey (t : T) (key : ForeignKey T K N)
  | dropForeignKey (t : T) (name : N)

section

variable {T K N : Type} [DecidableEq T] [DecidableEq K] [DecidableEq N]

namespace Table

variable (table : Table T K N)

def names : List K := table.columns.map Column.name

def column (name : K) : Option (Column K) := table.columns.find? fun c => c.name = name

/-- The keys and indexes that rows are looked up by. -/
def keys : List (List K) := table.primaryKey :: table.indexes.map Index.columns

/-- There is a key that begins with these columns. -/
def covers (columns : List K) : Bool := table.keys.any columns.isPrefixOf

/-- The keys that two rows may not share. -/
def uniqueKeys : List (List K) :=
  table.primaryKey :: (table.indexes.filter Index.unique).map Index.columns

/-- A foreign key gets an index of its name where none serves it. -/
def serve (key : ForeignKey T K N) : Table T K N :=
  if table.covers key.columns then table
  else { table with indexes := table.indexes ++ [⟨key.name, key.columns, false, true⟩] }

/-- Implicit indexes that a new one serves as well are dropped. -/
def addIndex (index : Index K N) : Table T K N :=
  { table with
    indexes := (table.indexes.filter fun i => !(i.implicit && i.columns.isPrefixOf index.columns))
      ++ [index] }

def rename (old new : K) (name : K) : K := if name = old then new else name

/-- The table with a column redefined. -/
def change (old : K) (column : Column K) : Table T K N where
  columns := table.columns.map fun c => if c.name = old then column else c
  primaryKey := table.primaryKey.map (rename old column.name)
  indexes := table.indexes.map fun i => { i with columns := i.columns.map (rename old column.name) }
  foreignKeys := table.foreignKeys.map fun k =>
    { k with columns := k.columns.map (rename old column.name) }

end Table

namespace Schema

variable (schema : Schema T K N)

/-- The references to a table, with a column of it renamed. -/
def follow (t : T) (old new : K) : Schema T K N := fun t' =>
  (schema t').map fun table =>
    { table with
      foreignKeys := table.foreignKeys.map fun k =>
        if k.refTable = t then { k with refColumns := k.refColumns.map (Table.rename old new) }
        else k }

/-- What a foreign key refers to is there and has a key of its own. -/
def refers (key : ForeignKey T K N) : Bool :=
  (schema key.refTable).any fun table => table.covers key.refColumns

/-- The foreign keys of any table that refer to `t`. -/
def referencesTo (t t' : T) : List (ForeignKey T K N) :=
  match schema t' with
  | none => []
  | some table => table.foreignKeys.filter fun key => key.refTable = t

/-- A column takes part in a foreign key, on one side or the other. -/
def inForeignKey [Fintype T] (t : T) (table : Table T K N) (name : K) : Bool :=
  (table.foreignKeys.any fun key => key.columns.contains name) ||
    decide (∃ t', ∃ key ∈ schema.referencesTo t t', name ∈ key.refColumns)

/-- `ALTER TABLE`, where the table is there and `allowed`. -/
def alter (t : T) (allowed : Table T K N → Bool) (f : Table T K N → Table T K N) :
    Option (Schema T K N) :=
  match schema t with
  | none => none
  | some table => if allowed table then some (Function.update schema t (some (f table))) else none

variable [Fintype T]

/-- What a statement makes of the schema, if it is not refused for the schema's sake. -/
def exec : Statement T K N → Option (Schema T K N)
  | .createTable t table =>
      if schema t = none ∧ table.foreignKeys.all schema.refers then
        some (Function.update schema t (some (table.foreignKeys.foldl Table.serve table)))
      else
        none
  | .dropTable t =>
      if (schema t).isSome ∧ ∀ t', t' ≠ t → schema.referencesTo t t' = [] then
        some (Function.update schema t none)
      else
        none
  | .createIndex t index =>
      schema.alter t
        (fun table => !(table.indexes.map Index.name).contains index.name &&
          index.columns.all table.names.contains)
        fun table => table.addIndex index
  | .dropIndex t name =>
      let without (table : Table T K N) : Table T K N :=
        { table with indexes := table.indexes.filter fun i => i.name ≠ name }
      -- no foreign key may be left without a key that serves it
      schema.alter t
        (fun table => (table.indexes.map Index.name).contains name &&
          (table.foreignKeys.all fun key => (without table).covers key.columns) &&
          decide (∀ t', ∀ key ∈ schema.referencesTo t t', (without table).covers key.refColumns))
        without
  | .addColumn t column =>
      schema.alter t (fun table => !table.names.contains column.name && !column.autoIncrement)
        fun table => { table with columns := table.columns ++ [column] }
  | .dropColumn t name =>
      schema.alter t
        (fun table => table.names.contains name && !table.primaryKey.contains name &&
          !schema.inForeignKey t table name)
        fun table =>
          { table with
            columns := table.columns.filter fun c => c.name ≠ name
            indexes := (table.indexes.map fun i =>
              { i with columns := i.columns.filter fun c => c ≠ name }).filter fun i =>
                i.columns ≠ [] }
  | .changeColumn t old column =>
      (schema.alter t
        (fun table => (table.column old).any fun was =>
          (column.name = old || !table.names.contains column.name) &&
            (!column.autoIncrement || table.covers [old]) &&
            -- a column of a foreign key may only be renamed
            (!schema.inForeignKey t table old ||
              (column.type = was.type && column.nullable = was.nullable &&
                column.autoIncrement = was.autoIncrement)))
        fun table => table.change old column).map fun changed =>
          changed.follow t old column.name
  | .setDefault t name default =>
      schema.alter t (fun table => table.names.contains name)
        fun table =>
          { table with
            columns := table.columns.map fun c => if c.name = name then { c with default } else c }
  | .addForeignKey t key =>
      schema.alter t
        (fun table => !(table.foreignKeys.map ForeignKey.name).contains key.name &&
          key.columns.all table.names.contains && schema.refers key)
        fun table =>
          { table.serve key with foreignKeys := table.foreignKeys ++ [key] }
  | .dropForeignKey t name =>
      schema.alter t (fun table => (table.foreignKeys.map ForeignKey.name).contains name)
        fun table =>
          { table with foreignKeys := table.foreignKeys.filter fun key => key.name ≠ name }

def run (schema : Schema T K N) : List (Statement T K N) → Option (Schema T K N)
  | [] => some schema
  | statement :: statements => (schema.exec statement).bind fun next => run next statements

end Schema

/-! ## Rows -/

abbrev Row (K : Type) := K → Value

abbrev Rows (T K : Type) := T → List (Row K)

/-- Where a statement takes a value from. -/
inductive Source (K : Type) where
  | column (name : K)
  | const (value : Value)
  | now
  /-- `AUTO_INCREMENT` counts a zero as no value and gives it the number 1. -/
  | numbered (source : Source K)
  deriving DecidableEq

namespace Source

def eval (now : Value) (row : Row K) : Source K → Value
  | .column name => row name
  | .const value => value
  | .now => now
  | .numbered source =>
      if source.eval now row = .int 0 then .int 1 else source.eval now row

/-- The source in terms of what the columns come from. -/
def subst (sources : K → Source K) : Source K → Source K
  | .column name => sources name
  | .const value => .const value
  | .now => .now
  | .numbered source => .numbered (source.subst sources)

end Source

/-- What the columns of each table come from; a table without sources is left empty. -/
abbrev Views (T K : Type) := T → Option (K → Source K)

def unchanged : Views T K := fun _ => some .column

def Views.rows (now : Value) (views : Views T K) (rows : Rows T K) : Rows T K := fun t =>
  match views t with
  | none => []
  | some sources => (rows t).map fun row name => (sources name).eval now row

/-- A condition on the rows; of what a foreign key refers to there may be no rows at all. -/
inductive Guard (T K : Type) where
  | notNull (t : T) (source : Source K)
  | unique (t : T) (sources : List (Source K))
  | foreign (t : T) (sources : List (Source K)) (parent : Option (T × List (Source K)))
  deriving DecidableEq

section Guards

variable (same : Value → Value → Bool) (now : Value) (rows : Rows T K)

/-- Every value is there. -/
def Complete (sources : List (Source K)) (row : Row K) : Prop :=
  ∀ source ∈ sources, source.eval now row ≠ .null

instance (sources : List (Source K)) (row : Row K) : Decidable (Complete now sources row) :=
  inferInstanceAs (Decidable (∀ source ∈ sources, _))

def Agree (sources : List (Source K)) (row : Row K) (sources' : List (Source K))
    (row' : Row K) : Prop :=
  ∀ pair ∈ sources.zip sources', same (pair.1.eval now row) (pair.2.eval now row') = true

instance (sources : List (Source K)) (row : Row K) (sources' : List (Source K))
    (row' : Row K) : Decidable (Agree same now sources row sources' row') :=
  inferInstanceAs (Decidable (∀ pair ∈ sources.zip sources', _))

/-- NULL is the same as nothing, in a unique key as in a foreign key. -/
def Guard.Holds : Guard T K → Prop
  | .notNull t source => ∀ row ∈ rows t, source.eval now row ≠ .null
  | .unique t sources => (rows t).Pairwise fun row row' =>
      ¬ (Complete now sources row ∧ Complete now sources row' ∧
        Agree same now sources row sources row')
  | .foreign t sources none => ∀ row ∈ rows t, ¬ Complete now sources row
  | .foreign t sources (some (t', sources')) => ∀ row ∈ rows t, Complete now sources row →
      ∃ row' ∈ rows t', Agree same now sources row sources' row'

instance (guard : Guard T K) : Decidable (guard.Holds same now rows) :=
  match guard with
  | .notNull t _ => inferInstanceAs (Decidable (∀ row ∈ rows t, _))
  | .unique t _ => inferInstanceAs (Decidable ((rows t).Pairwise _))
  | .foreign t _ none => inferInstanceAs (Decidable (∀ row ∈ rows t, _))
  | .foreign t _ (some _) => inferInstanceAs (Decidable (∀ row ∈ rows t, _))

end Guards

/-- What the constraints of a table ask of the rows. -/
def Table.constraints (t : T) (table : Table T K N) : List (Guard T K) :=
  ((table.columns.filter fun c => !c.nullable).map fun c => .notNull t (.column c.name)) ++
    (table.uniqueKeys.map fun key => .unique t (key.map .column)) ++
      table.foreignKeys.map fun key =>
        .foreign t (key.columns.map .column)
          (some (key.refTable, key.refColumns.map .column))

/-! ## Statements on a database -/

/-- What MySQL puts where a value has to stand and none is given. -/
def SqlType.implicit : SqlType → Value
  | .integer | .boolean => .int 0
  | .varchar _ | .text => .text ""
  | .datetime => .text "0000-00-00 00:00:00"
  | .enum values => .text (values.headD "")

/-- The value of a new column in the rows that are there. -/
def Column.fill (column : Column K) : Source K :=
  match column.default with
  | some (.literal value) => .const value
  | some .currentTimestamp => .now
  | none => if column.nullable then .const .null else .const column.type.implicit

/-- The column is redefined as one that counts, which it was not before. -/
def startsCounting (schema : Schema T K N) (t : T) (old : K) (column : Column K) : Bool :=
  column.autoIncrement &&
    !((schema t).any fun table => (table.column old).any Column.autoIncrement)

def taken (schema : Schema T K N) (t : T) (old : K) (column : Column K) : Source K :=
  if startsCounting schema t old column then .numbered (.column old) else .column old

def Statement.views (schema : Schema T K N) : Statement T K N → Views T K
  | .createTable t _ | .dropTable t => Function.update unchanged t none
  | .addColumn t column =>
      Function.update unchanged t (some (Function.update .column column.name column.fill))
  | .dropColumn t name =>
      Function.update unchanged t (some (Function.update .column name (.const .null)))
  | .changeColumn t old column =>
      Function.update unchanged t (some (Function.update
        (Function.update .column old (.const .null)) column.name (taken schema t old column)))
  | _ => unchanged

def Statement.guards (schema : Schema T K N) : Statement T K N → List (Guard T K)
  | .createIndex t index =>
      if index.unique then [.unique t (index.columns.map .column)] else []
  | .addForeignKey t key =>
      [.foreign t (key.columns.map .column) (some (key.refTable, key.refColumns.map .column))]
  | .changeColumn t old column =>
      (if column.nullable then [] else [.notNull t (.column old)]) ++
        if startsCounting schema t old column then
          (((schema t).toList.flatMap Table.uniqueKeys).filter fun key => key.contains old).map
            fun key => .unique t (key.map (Function.update .column old (.numbered (.column old))))
        else []
  | _ => []

structure Db (T K N : Type) where
  schema : Schema T K N
  rows : Rows T K

namespace Db

variable [Fintype T] (same : Value → Value → Bool) (now : Value)

def exec (db : Db T K N) (statement : Statement T K N) : Option (Db T K N) :=
  if ∀ guard ∈ statement.guards db.schema, guard.Holds same now db.rows then
    (db.schema.exec statement).map fun schema =>
      ⟨schema, (statement.views db.schema).rows now db.rows⟩
  else
    none

def run (db : Db T K N) : List (Statement T K N) → Option (Db T K N)
  | [] => some db
  | statement :: statements => (db.exec same now statement).bind fun next => next.run statements

/-- The rows meet the constraints of their tables. -/
structure Conforms (db : Db T K N) : Prop where
  empty : ∀ t, db.schema t = none → db.rows t = []
  constraints : ∀ t table, db.schema t = some table →
    ∀ guard ∈ table.constraints t, guard.Holds same now db.rows

instance (db : Db T K N) : Decidable (db.Conforms same now) :=
  decidable_of_iff ((∀ t, db.schema t = none → db.rows t = []) ∧
      ∀ t, ∀ table ∈ db.schema t, ∀ guard ∈ table.constraints t, guard.Holds same now db.rows)
    ⟨fun h => ⟨h.1, h.2⟩, fun h => ⟨h.empty, h.constraints⟩⟩

end Db

end

end GreenCommunity.Base.Ddl
