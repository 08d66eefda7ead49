import GreenCommunity.Base.Nested

/-!
# Schema synchronization

With `DB_SYNCHRONIZE` set, the operations that Alembic's comparison of models and
database yields are run at startup; `preview_synchronize` only describes them.  The
comparison groups them by table.  `_collect_operations` dissolves the groups with a
work list: a group is taken off its front and its members put there in its place.
What is left to do counts all nodes that are still pending, so each pass makes it
smaller although a group may leave more entries than it takes.

The comparison and what an operation makes of the database are Alembic's: they are
the parameters `Alembic`. MySQL commits every DDL statement, so operations run before
a failure stay.
-/

namespace GreenCommunity.Synchronize

open GreenCommunity.Base (Nested)
open GreenCommunity.Base.Nested

/-! ## Operations -/

/-- An operation that is no group: what `_describe` reads of it and, in `payload`, what
only its invocation does. A missing attribute and one that is `None` read the same. -/
structure MigrateOperation (α : Type) where
  typeName : String
  tableName : Option String
  /-- `column`, and the `name` of the column. -/
  column : Option (Option String)
  columnName : Option String
  indexName : Option String
  constraintName : Option String
  payload : α
  deriving DecidableEq

/-- A node with an `ops` list is a group of operations. -/
abbrev Operations (α : Type) := List (Nested (MigrateOperation α))

section

variable {α δ ε : Type}

/-- The loop of `_collect_operations`. -/
def collectLoop (operations : List (MigrateOperation α)) :
    Operations α → List (MigrateOperation α)
  | [] => operations
  | .group children :: pending => collectLoop operations (children ++ pending)
  | .item operation :: pending => collectLoop (operations ++ [operation]) pending
termination_by pending => sizeOfAll pending
decreasing_by all_goals simp; try omega

/-- `_collect_operations`, given `upgrade_ops`. -/
def collectOperations : Option (Operations α) → List (MigrateOperation α)
  | none => []
  | some ops => collectLoop [] ops

/-- A Python string that counts as true. -/
def truthy (value : Option String) : Option String := value.filter fun s => s ≠ ""

/-- `_describe`. -/
def describe (operation : MigrateOperation α) : String :=
  let tableName := (truthy operation.tableName).map ("table=" ++ ·)
  let columnName :=
    ((truthy (operation.column.bind id)).or (truthy operation.columnName)).map ("column=" ++ ·)
  let indexName := (truthy operation.indexName).map ("index=" ++ ·)
  let constraintName := (truthy operation.constraintName).map ("constraint=" ++ ·)
  " ".intercalate
    (operation.typeName :: [tableName, columnName, indexName, constraintName].filterMap id)

/-! ## Running them -/

inductive Event where
  | upToDate
  | apply (operation : String)
  | completed (applied : Nat)
  deriving DecidableEq

/-- The database, the log, and the operations handed to the executor so far. -/
structure World (δ α : Type) where
  database : δ
  log : List Event
  invoked : List (MigrateOperation α)

structure Alembic (δ α ε : Type) where
  /-- `produce_migrations(context, Base.metadata).upgrade_ops`, and its `ops`. -/
  upgradeOps : δ → Option (Operations α)
  /-- `Operations(context).invoke`. -/
  invoke : MigrateOperation α → δ → Except ε Unit × δ

abbrev SyncM (δ α ε : Type) := ExceptT ε (StateM (World δ α))

variable (alembic : Alembic δ α ε)

/-- `preview_synchronize`. -/
def previewSynchronize : SyncM δ α ε (List String) := do
  let world ← get
  return (collectOperations (alembic.upgradeOps world.database)).map describe

def log (event : Event) : SyncM δ α ε Unit :=
  modify fun world => { world with log := world.log ++ [event] }

/-- `executor.invoke`. -/
def invoke (operation : MigrateOperation α) : SyncM δ α ε Unit := do
  let world ← get
  let (outcome, database) := alembic.invoke operation world.database
  set { world with database, invoked := world.invoked ++ [operation] }
  ExceptT.mk (pure outcome)

def applyOperation (operation : MigrateOperation α) : SyncM δ α ε Unit := do
  log (.apply (describe operation))
  invoke alembic operation

/-- `synchronize_database` from where the operations are collected. -/
def applyOperations (operations : List (MigrateOperation α)) : SyncM δ α ε Nat := do
  if operations.isEmpty then
    log .upToDate
    return 0
  operations.forM (applyOperation alembic)
  log (.completed operations.length)
  return operations.length

/-- `synchronize_database`. -/
def synchronizeDatabase : SyncM δ α ε Nat := do
  let world ← get
  applyOperations alembic (collectOperations (alembic.upgradeOps world.database))

/-! ## The loop -/

/-- What was collected and what is still pending hold the leaves between them. -/
theorem collectLoop_eq (operations : List (MigrateOperation α)) (pending : Operations α) :
    collectLoop operations pending = operations ++ leavesOf pending := by
  fun_induction collectLoop operations pending with
  | case1 operations => simp
  | case2 operations children pending ih => simpa using ih
  | case3 operations operation pending ih => simpa using ih

theorem collectOperations_eq (upgradeOps : Option (Operations α)) :
    collectOperations upgradeOps = leavesOf (upgradeOps.getD []) := by
  cases upgradeOps with
  | none => rw [collectOperations, Option.getD_none, leavesOf_nil]
  | some ops => rw [collectOperations, collectLoop_eq, List.nil_append, Option.getD_some]

/-! ## What a run leaves behind -/

def Event.operation? : Event → Option String
  | .apply operation => some operation
  | _ => none

/-- The operations announced in the log. -/
def World.announced (world : World δ α) : List String :=
  world.log.filterMap Event.operation?

/-- `done` is what was announced and handed to the executor between two worlds. -/
def Performed (done : List (MigrateOperation α)) (world after : World δ α) : Prop :=
  after.invoked = world.invoked ++ done ∧
    after.announced = world.announced ++ done.map describe

theorem Performed.refl (world : World δ α) : Performed [] world world := by
  simp [Performed]

theorem Performed.trans {done more : List (MigrateOperation α)} {world after last : World δ α}
    (h : Performed done world after) (h' : Performed more after last) :
    Performed (done ++ more) world last := by
  obtain ⟨hinvoked, hannounced⟩ := h
  obtain ⟨hinvoked', hannounced'⟩ := h'
  constructor
  · rw [hinvoked', hinvoked, List.append_assoc]
  · rw [hannounced', hannounced, List.map_append, List.append_assoc]

theorem run_bind_ok {β γ : Type} {x : SyncM δ α ε β} (f : β → SyncM δ α ε γ) {b : β}
    {world after : World δ α} (h : x.run world = (.ok b, after)) :
    (x >>= f).run world = (f b).run after := by
  show (ExceptT.bindCont f (x.run world).1) (x.run world).2 = (f b).run after
  rw [h]
  rfl

theorem run_bind_error {β γ : Type} {x : SyncM δ α ε β} (f : β → SyncM δ α ε γ) {e : ε}
    {world after : World δ α} (h : x.run world = (.error e, after)) :
    (x >>= f).run world = (.error e, after) := by
  show (ExceptT.bindCont f (x.run world).1) (x.run world).2 = (.error e, after)
  rw [h]
  rfl

theorem applyOperation_performed (operation : MigrateOperation α) (world : World δ α) :
    Performed [operation] world ((applyOperation alembic operation).run world).2 := by
  refine ⟨rfl, ?_⟩
  show (world.log ++ [Event.apply (describe operation)]).filterMap Event.operation? = _
  rw [List.filterMap_append]
  rfl

/-- How `operations` can end: all of them done, or stopped by one that fails. -/
inductive Ending {β : Type} (result : β) (operations : List (MigrateOperation α)) :
    List (MigrateOperation α) → Except ε β → Prop
  | completed : Ending result operations operations (.ok result)
  | failed (before : List (MigrateOperation α)) {rest : List (MigrateOperation α)}
      {operation : MigrateOperation α} {database : δ} {e : ε}
      (hsplit : operations = before ++ operation :: rest)
      (hfailed : (alembic.invoke operation database).1 = .error e) :
      Ending result operations (before ++ [operation]) (.error e)

theorem applyOperation_outcome (operation : MigrateOperation α) (world : World δ α) :
    ((applyOperation alembic operation).run world).1 =
      (alembic.invoke operation world.database).1 := rfl

/-- The loop goes through the operations in order and stops where one fails. -/
theorem forM_performed (operations : List (MigrateOperation α)) (world : World δ α) :
    ∃ done outcome after,
      (operations.forM (applyOperation alembic)).run world = (outcome, after) ∧
        Performed done world after ∧ Ending alembic () operations done outcome := by
  induction operations generalizing world with
  | nil => exact ⟨[], .ok (), world, rfl, Performed.refl world, .completed⟩
  | cons operation operations ih =>
      have hfirst := applyOperation_performed alembic operation world
      have houtcome := applyOperation_outcome alembic operation world
      cases hrun : (applyOperation alembic operation).run world with
      | mk outcome after =>
          rw [hrun] at hfirst houtcome
          cases outcome with
          | error e =>
              exact ⟨[operation], .error e, after, run_bind_error _ hrun, hfirst,
                .failed [] rfl houtcome.symm⟩
          | ok _ =>
              obtain ⟨done, outcome, last, hrest, hdone, hending⟩ := ih after
              refine ⟨operation :: done, outcome, last, ?_, hfirst.trans hdone, ?_⟩
              · exact (run_bind_ok (fun _ => operations.forM (applyOperation alembic))
                  hrun).trans hrest
              · cases hending with
                | completed => exact .completed
                | failed before hsplit hfailed =>
                    rw [hsplit]
                    exact .failed (operation :: before) rfl hfailed

/-! ## The preview and the run -/

theorem log_performed (event : Event) (h : event.operation? = none) (world : World δ α) :
    Performed [] world ((log event : SyncM δ α ε Unit).run world).2 := by
  refine ⟨(List.append_nil _).symm, ?_⟩
  show (world.log ++ [event]).filterMap Event.operation? = _
  rw [List.filterMap_append, List.filterMap_cons_none h]
  rfl

theorem applyOperations_performed (operations : List (MigrateOperation α))
    (world : World δ α) :
    ∃ done outcome after,
      (applyOperations alembic operations).run world = (outcome, after) ∧
        Performed done world after ∧
        Ending alembic operations.length operations done outcome := by
  unfold applyOperations
  cases operations with
  | nil =>
      exact ⟨[], .ok 0, _, rfl, log_performed (ε := ε) .upToDate rfl world, .completed⟩
  | cons operation operations =>
      obtain ⟨done, outcome, after, hloop, hdone, hending⟩ :=
        forM_performed alembic (operation :: operations) world
      rw [List.isEmpty_cons, if_neg Bool.false_ne_true]
      cases hending with
      | failed before hsplit hfailed =>
          exact ⟨_, _, after, run_bind_error _ hloop, hdone, .failed before hsplit hfailed⟩
      | completed =>
          have hlog := log_performed (ε := ε) (.completed (operation :: operations).length)
            rfl after
          refine ⟨_, .ok _, _, run_bind_ok _ hloop, ?_, .completed⟩
          have hboth := hdone.trans hlog
          rwa [List.append_nil] at hboth

/-- The operations collected are the leaves of the tree, in the order of their
positions and each once. The preview describes them and changes nothing; the run
announces and executes the same ones in the same order, up to the first that fails. -/
theorem synchronize_runs_preview (world : World δ α) :
    let upgradeOps := alembic.upgradeOps world.database
    let operations := collectOperations upgradeOps
    let forest := Nested.group (upgradeOps.getD [])
    (operations = forest.leaves ∧
      operations = forest.positions.map Prod.snd ∧
      forest.positions.Pairwise (fun p q => p.1 < q.1) ∧
      ∀ path operation,
        (path, operation) ∈ forest.positions ↔ forest.leafAt path = some operation) ∧
    (previewSynchronize alembic).run world = (.ok (operations.map describe), world) ∧
    ∃ done outcome after,
      (synchronizeDatabase alembic).run world = (outcome, after) ∧
        Performed done world after ∧
        Ending alembic operations.length operations done outcome := by
  dsimp only
  have hleaves : collectOperations (alembic.upgradeOps world.database) =
      (Nested.group ((alembic.upgradeOps world.database).getD [])).leaves := by
    rw [collectOperations_eq, leaves_group]
  refine ⟨⟨hleaves, ?_, positions_sorted _, fun path operation => mem_positions⟩, rfl, ?_⟩
  · rw [hleaves, map_positions]
  · exact applyOperations_performed alembic _ world

end

end GreenCommunity.Synchronize
