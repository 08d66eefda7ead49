import GreenCommunity.Base.Undo
import GreenCommunity.Migrations.Revisions

/-!
# Which revisions can be undone

A revision is applied after those that it revises, so the schemas it can meet are those
of the histories of the chain. There are many orders but sixteen schemas, the `stages`:
the menus can be added anywhere between the initial schema and the merge.

For every stage and every revision that comes next it is computed what its upgrade and
its downgrade ask of the rows, and what they change.
-/

namespace GreenCommunity.Migrations

open GreenCommunity.Base.Ddl

abbrev Schema := Base.Ddl.Schema TableName ColumnName KeyName

abbrev Db := Base.Ddl.Db TableName ColumnName KeyName

abbrev Rows := Base.Ddl.Rows TableName ColumnName

/-! ## Histories -/

/-- A database without tables. -/
def base : Schema := fun _ => none

def Applicable (history : List Revision) (revision : Revision) : Prop :=
  revision ∉ history ∧ ∀ previous ∈ revision.downRevision, previous ∈ history

instance (history : List Revision) (revision : Revision) :
    Decidable (Applicable history revision) :=
  inferInstanceAs (Decidable (_ ∧ _))

/-- The revisions that have been applied, in their order. -/
inductive History : List Revision → Prop
  | base : History []
  | upgrade {history : List Revision} {revision : Revision} (h : History history)
      (happlicable : Applicable history revision) : History (history ++ [revision])

def schemaAfter (history : List Revision) : Option Schema :=
  base.run (history.flatMap Revision.upgrade)

def roundTrip (revision : Revision) : List Op := revision.upgrade ++ revision.downgrade

theorem schemaAfter_concat (history : List Revision) (revision : Revision) :
    schemaAfter (history ++ [revision]) =
      (schemaAfter history).bind fun schema => schema.run revision.upgrade := by
  rw [schemaAfter, List.flatMap_append, Schema.run_append, List.flatMap_singleton]
  rfl

/-! ## Stages -/

/-- The order of the files. -/
def versions : List Revision :=
  [.createInitialSchema, .addMenusTable, .addPostViewCount, .renameUserIdToUserId,
    .addPostsLike, .addPostsImage, .mergeMigrationHeads, .addUserIsActive,
    .addAutoIncrementToPostsPostId, .updatePostImageModel, .addPostIsNotice]

/-- What can have been applied, in the order of the files. -/
def stages : List (List Revision) :=
  versions.inits ++ (versions.take 6).inits.filterMap fun stage =>
    if stage.length < 3 then none else some (stage.filter fun r => r ≠ .addMenusTable)

/-- The stage after one more revision. -/
def advance (stage : List Revision) (revision : Revision) : List Revision :=
  versions.filter fun r => stage.contains r || r = revision

theorem advance_stage : ∀ stage ∈ stages, ∀ revision, Applicable stage revision →
    advance stage revision ∈ stages ∧
      schemaAfter (stage ++ [revision]) = schemaAfter (advance stage revision) := by
  decide +kernel

theorem Applicable.congr {history stage : List Revision} {revision : Revision}
    (h : Applicable history revision) (hmem : ∀ r, r ∈ history ↔ r ∈ stage) :
    Applicable stage revision :=
  ⟨fun hin => h.1 ((hmem revision).mpr hin),
    fun previous hprevious => (hmem previous).mp (h.2 previous hprevious)⟩

/-- A history has the schema of the stage with its revisions. -/
theorem History.stage {history : List Revision} (h : History history) :
    ∃ stage ∈ stages, (∀ revision, revision ∈ history ↔ revision ∈ stage) ∧
      schemaAfter history = schemaAfter stage := by
  induction h with
  | base => exact ⟨[], by decide, fun _ => Iff.rfl, rfl⟩
  | @upgrade history revision h happlicable ih =>
      obtain ⟨stage, hstage, hmem, hschema⟩ := ih
      have hnext := advance_stage stage hstage revision (happlicable.congr hmem)
      refine ⟨advance stage revision, hnext.1, ?_, ?_⟩
      · intro r
        have hversions : r ∈ versions := by cases r <;> decide
        simp [advance, hversions, hmem]
      · rw [schemaAfter_concat, hschema, ← schemaAfter_concat]
        exact hnext.2

/-! ## What is computed for a stage -/

/-- The revisions that do not give back the schema. -/
def Lost (revision : Revision) : Prop :=
  revision ∈ [.createInitialSchema, .addPostViewCount, .addUserIsActive]

instance (revision : Revision) : Decidable (Lost revision) :=
  inferInstanceAs (Decidable (revision ∈ _))

/-- What the constraints promise before a revision and is asked again on the way. -/
def plain : Revision → List (Guard TableName ColumnName)
  | .addPostsLike => [.notNull .comments (.column .postId)]
  | .addAutoIncrementToPostsPostId =>
      [.unique .posts [.column .postId],
        .foreign .comments [.column .postId] (some (.posts, [.column .postId])),
        .notNull .posts (.column .postId)]
  | _ => []

/-- The posts, numbered anew where their number is zero. -/
def numberedPosts : Views TableName ColumnName :=
  Function.update unchanged .posts
    (some (Function.update .column .postId (.numbered (.column .postId))))

def pending : Revision → List (Guard TableName ColumnName)
  | .addPostsLike => [.foreign .comments [.column .postId] (some (.posts, [.column .postId]))]
  | .addAutoIncrementToPostsPostId =>
      (plain .addAutoIncrementToPostsPostId).filterMap (Guard.before numberedPosts)
  | _ => []

def changes : Revision → List (Change TableName ColumnName)
  | .addAutoIncrementToPostsPostId => [(.posts, .postId, .numbered (.column .postId))]
  | .updatePostImageModel => [(.postsImage, .imagePath, .const (.text ""))]
  | _ => []

theorem lost_stage : ∀ stage ∈ stages, ∀ revision, Applicable stage revision → Lost revision →
    (schemaAfter stage).all (fun schema =>
      !(schema.run (roundTrip revision)).any fun last => schema.Same last) = true := by
  decide +kernel

theorem undoes_stage : ∀ stage ∈ stages, ∀ revision, Applicable stage revision →
    ¬ Lost revision → (schemaAfter stage).all (fun schema =>
      decide (Undoes schema (roundTrip revision) (pending revision) (changes revision)) &&
        (plain revision).all schema.promises) = true := by
  decide +kernel

/-- The upgrades go through in every order in which they can be applied. -/
theorem History.isSome_schemaAfter {history : List Revision} (h : History history) :
    (schemaAfter history).isSome = true := by
  have hstages : ∀ stage ∈ stages, (schemaAfter stage).isSome = true := by decide +kernel
  obtain ⟨stage, hstage, _, hschema⟩ := h.stage
  rw [hschema]
  exact hstages stage hstage

/-! ## Databases -/

section

variable {same : Value → Value → Bool} {now : Value} {history : List Revision}
  {revision : Revision} {db : Db}

theorem not_restored_of_lost (hhistory : History history)
    (happlicable : Applicable history revision) (hlost : Lost revision)
    (hschema : schemaAfter history = some db.schema) :
    ¬ Restored same now db (roundTrip revision) := by
  obtain ⟨stage, hstage, hmem, hstageSchema⟩ := hhistory.stage
  have hcomputed := lost_stage stage hstage revision (happlicable.congr hmem) hlost
  rw [← hstageSchema, hschema, Option.all_some, Bool.not_eq_true'] at hcomputed
  exact not_restored hcomputed

theorem undoes (hhistory : History history) (happlicable : Applicable history revision)
    (hlost : ¬ Lost revision) (hschema : schemaAfter history = some db.schema) :
    Undoes db.schema (roundTrip revision) (pending revision) (changes revision) ∧
      ∀ guard ∈ plain revision, db.schema.promises guard = true := by
  obtain ⟨stage, hstage, hmem, hstageSchema⟩ := hhistory.stage
  have hcomputed := undoes_stage stage hstage revision (happlicable.congr hmem) hlost
  rw [← hstageSchema, hschema, Option.all_some, Bool.and_eq_true] at hcomputed
  exact ⟨of_decide_eq_true hcomputed.1, List.all_eq_true.mp hcomputed.2⟩

/-- What is pending and what changes, for a revision that is not lost. -/
theorem restored_iff_pending (hhistory : History history)
    (happlicable : Applicable history revision) (hlost : ¬ Lost revision)
    (hschema : schemaAfter history = some db.schema) (hconf : db.Conforms same now) :
    Restored same now db (roundTrip revision) ↔
      (∀ guard ∈ pending revision, guard.Holds same now db.rows) ∧
        ∀ change ∈ changes revision, ∀ row ∈ db.rows change.1,
          change.2.2.eval now row = row change.2.1 :=
  restored_iff hconf (undoes hhistory happlicable hlost hschema).1

end

/-! ## Rows -/

section

variable (same : Value → Value → Bool) (now : Value) (rows : Rows)

/-- The key that the downgrade drops is put on by the upgrade: the comments need posts. -/
theorem pending_addPostsLike
    (hpromised : ∀ guard ∈ plain .addPostsLike, guard.Holds same now rows) :
    (∀ guard ∈ pending .addPostsLike, guard.Holds same now rows) ↔
      ∀ comment ∈ rows .comments, ∃ post ∈ rows .posts,
        same (comment .postId) (post .postId) = true := by
  have hpostId : ∀ comment ∈ rows .comments, comment .postId ≠ .null :=
    hpromised _ (List.mem_singleton_self _)
  have hcomplete : ∀ comment : Row ColumnName,
      Complete now [.column .postId] comment ↔ comment .postId ≠ .null := by
    intro comment
    simp [Complete, Source.eval]
  have hagree : ∀ comment post : Row ColumnName,
      Agree same now [.column .postId] comment [.column .postId] post ↔
        same (comment .postId) (post .postId) = true := by
    intro comment post
    simp [Agree, Source.eval]
  show (∀ guard ∈ [_], _) ↔ _
  rw [List.forall_mem_singleton, Guard.Holds]
  simp only [hcomplete, hagree]
  exact forall₂_congr fun comment hcomment => imp_iff_right (hpostId comment hcomment)

/-- A number that is not zero is kept when the column is made to count. -/
theorem eval_numbered_eq_self (post : Row ColumnName) :
    (Source.numbered (.column .postId)).eval now post = post .postId ↔
      post .postId ≠ .int 0 := by
  show (if post .postId = .int 0 then Value.int 1 else post .postId) = post .postId ↔ _
  split
  next hzero => simp [hzero]
  next hzero => simp [hzero]

theorem rows_numberedPosts (h : ∀ post ∈ rows .posts, post .postId ≠ .int 0) :
    numberedPosts.rows now rows = rows := by
  refine Views.rows_eq_self now fun t => ?_
  by_cases ht : t = .posts
  · subst ht
    refine ⟨_, Function.update_self .., fun post hpost name => ?_⟩
    by_cases hname : name = .postId
    · subst hname
      rw [Function.update_self]
      exact (eval_numbered_eq_self now post).mpr (h post hpost)
    · rw [Function.update_of_ne hname]
      rfl
  · exact ⟨_, Function.update_of_ne ht .., fun _ _ _ => rfl⟩

/-- Without zeros the posts stay as they are, and so do the constraints that they meet. -/
theorem pending_addAutoIncrement (h : ∀ post ∈ rows .posts, post .postId ≠ .int 0)
    (hpromised : ∀ guard ∈ plain .addAutoIncrementToPostsPostId, guard.Holds same now rows) :
    ∀ guard ∈ pending .addAutoIncrementToPostsPostId, guard.Holds same now rows := by
  intro guard' hguard'
  obtain ⟨guard, hguard, hbefore⟩ := List.mem_filterMap.mp hguard'
  have hholds := hpromised guard hguard
  rw [← rows_numberedPosts now rows h] at hholds
  exact (Guard.holds_before same now numberedPosts rows guard).mp hholds guard' hbefore

end

/-! ## The revisions that can be undone -/

/-- What the rows have to be like for a revision to be undone. -/
def Undone (same : Value → Value → Bool) (rows : Rows) : Revision → Prop
  -- the downgrade drops indexes that the foreign keys of the comments still need
  | .createInitialSchema => False
  -- the upgrade takes AUTO_INCREMENT from the posts and the foreign key from the comments
  | .addPostViewCount => False
  -- the upgrade takes the default from the column that it renames
  | .addUserIsActive => False
  | .addPostsLike => ∀ comment ∈ rows .comments, ∃ post ∈ rows .posts,
      same (comment .postId) (post .postId) = true
  | .addAutoIncrementToPostsPostId => ∀ post ∈ rows .posts, post .postId ≠ .int 0
  | .updatePostImageModel => ∀ image ∈ rows .postsImage, image .imagePath = .text ""
  | .addMenusTable | .renameUserIdToUserId | .addPostsImage | .mergeMigrationHeads
  | .addPostIsNotice => True

/-- A revision can be undone on the rows of `Undone` and on no others. -/
theorem restored_iff_undone (same : Value → Value → Bool) (now : Value)
    (history : List Revision) (revision : Revision) (db : Db) (hhistory : History history)
    (happlicable : Applicable history revision)
    (hschema : schemaAfter history = some db.schema) (hconf : db.Conforms same now) :
    Restored same now db (roundTrip revision) ↔ Undone same db.rows revision := by
  by_cases hlost : Lost revision
  · have hnot : ¬ Undone same db.rows revision := by
      have hcases : revision = .createInitialSchema ∨ revision = .addPostViewCount ∨
          revision = .addUserIsActive := by
        simpa [Lost] using hlost
      rcases hcases with rfl | rfl | rfl <;> exact id
    exact iff_of_false (not_restored_of_lost hhistory happlicable hlost hschema) hnot
  · have hpromised : ∀ guard ∈ plain revision, guard.Holds same now db.rows :=
      fun guard hguard =>
        hconf.promised ((undoes hhistory happlicable hlost hschema).2 guard hguard)
    rw [restored_iff_pending hhistory happlicable hlost hschema hconf]
    cases revision with
    | createInitialSchema => exact absurd (by decide) hlost
    | addPostViewCount => exact absurd (by decide) hlost
    | addUserIsActive => exact absurd (by decide) hlost
    | addPostsLike =>
        rw [pending_addPostsLike same now db.rows hpromised]
        exact and_iff_left (List.forall_mem_nil _)
    | addAutoIncrementToPostsPostId =>
        have hchanges : (∀ change ∈ changes .addAutoIncrementToPostsPostId,
            ∀ row ∈ db.rows change.1, change.2.2.eval now row = row change.2.1) ↔
              Undone same db.rows .addAutoIncrementToPostsPostId := by
          show (∀ change ∈ [_], _) ↔ _
          rw [List.forall_mem_singleton]
          exact forall₂_congr fun post _ => eval_numbered_eq_self now post
        rw [hchanges]
        exact and_iff_right_of_imp fun hzero =>
          pending_addAutoIncrement same now db.rows hzero hpromised
    | updatePostImageModel =>
        have hchanges : (∀ change ∈ changes .updatePostImageModel,
            ∀ row ∈ db.rows change.1, change.2.2.eval now row = row change.2.1) ↔
              Undone same db.rows .updatePostImageModel := by
          show (∀ change ∈ [_], _) ↔ _
          rw [List.forall_mem_singleton]
          exact forall₂_congr fun image _ => eq_comm
        rw [hchanges]
        exact and_iff_right (List.forall_mem_nil _)
    | addMenusTable | renameUserIdToUserId | addPostsImage | mergeMigrationHeads
    | addPostIsNotice => exact iff_of_true ⟨List.forall_mem_nil _, List.forall_mem_nil _⟩ trivial

/-! ### Samples -/

def sameValue (value value' : Value) : Bool := decide (value = value')

def sampleHistory : List Revision :=
  [.createInitialSchema, .addPostViewCount, .renameUserIdToUserId]

def sampleDb (history : List Revision) (rows : Rows) : Db := ⟨(schemaAfter history).getD base, rows⟩

def sampleRows (postId : Value) : Rows
  | .comments => [fun name =>
      match name with
      | .id => .int 1
      | .postId => postId
      | .authorId => .int 1
      | .content => .text "hi"
      | .createdAt | .updatedAt => .text "2026-08-12 10:00:00"
      | _ => .null]
  | .users => [fun name =>
      match name with
      | .userId => .int 1
      | .email => .text "ann@green.example"
      | .passwordHash => .text "$2b$12$"
      | .nickname => .text "ann"
      | .role => .text "USER"
      | .isActive => .int 1
      | .createdAt | .updatedAt => .text "2026-08-12 10:00:00"
      | _ => .null]
  | _ => []

theorem sampleHistory_history : History sampleHistory :=
  ((History.base.upgrade (show Applicable [] .createInitialSchema by decide)).upgrade
    (show Applicable [.createInitialSchema] .addPostViewCount by decide)).upgrade
      (show Applicable [.createInitialSchema, .addPostViewCount] .renameUserIdToUserId by decide)

theorem some_sampleDb {history : List Revision} (hhistory : History history) (rows : Rows) :
    schemaAfter history = some (sampleDb history rows).schema :=
  (Option.getD_of_ne_none (Option.isSome_iff_ne_none.mp hhistory.isSome_schemaAfter) base).symm

/-- A comment on a post that is gone, which the schema allows here, and likes are added. -/
theorem restored_iff_undone_sample :
    ¬ Restored sameValue (.text "2026-08-12 15:34:00")
      (sampleDb sampleHistory (sampleRows (.int 7))) (roundTrip .addPostsLike) :=
  fun hrestored =>
    absurd ((restored_iff_undone sameValue (.text "2026-08-12 15:34:00") sampleHistory
      .addPostsLike (sampleDb sampleHistory (sampleRows (.int 7))) sampleHistory_history
      (by decide) (some_sampleDb sampleHistory_history _) (by decide +kernel)).mp hrestored)
      (by simp [Undone, sampleDb, sampleRows])

/-- The view count is added to a database without rows and taken away again. -/
theorem addPostViewCount_not_restored :
    History [.createInitialSchema] ∧ Applicable [.createInitialSchema] .addPostViewCount ∧
      schemaAfter [.createInitialSchema] =
        some (sampleDb [.createInitialSchema] fun _ => []).schema ∧
      (sampleDb [.createInitialSchema] fun _ => []).Conforms sameValue .null ∧
      ¬ Restored sameValue .null (sampleDb [.createInitialSchema] fun _ => [])
        (roundTrip .addPostViewCount) := by
  have hhistory : History [.createInitialSchema] :=
    History.base.upgrade (show Applicable [] .createInitialSchema by decide)
  exact ⟨hhistory, by decide, some_sampleDb hhistory _, by decide +kernel,
    not_restored (by decide +kernel)⟩

end GreenCommunity.Migrations
