import GreenCommunity.Base.Ddl

/-!
# The revisions

The files of `alembic/versions` with what their `upgrade` and `downgrade` send to MySQL.
The chain forks after the initial schema and is merged again.

`op.alter_column` sends one of three statements: `CHANGE` if the column is renamed,
`MODIFY` if anything but its default is given, and else `ALTER COLUMN` with the default.
The first two say all about the column that they are told, and nothing else stays.
Comments on columns are no part of the schema here, but they make a `MODIFY`.
-/

namespace GreenCommunity.Migrations

open GreenCommunity.Base.Ddl

/-! ## Names -/

inductive TableName where
  | users
  | posts
  | comments
  | menus
  | postsLike
  | postsImage
  deriving DecidableEq

instance : Fintype TableName where
  elems := {.users, .posts, .comments, .menus, .postsLike, .postsImage}
  complete t := by cases t <;> decide

inductive ColumnName where
  | id
  | email
  | passwordHash
  | nickname
  | role
  | isActive
  | createdAt
  | updatedAt
  | deletedAt
  | title
  | content
  | authorId
  | postId
  | menuId
  | menuName
  | menuParentId
  | postTitle
  | postContent
  | postViewCount
  | userId
  | likeId
  | commentId
  | commentContent
  | userEmail
  | userPasswordHash
  | userNickname
  | userRole
  | imageId
  | imagePath
  | userIsActive
  | parentCommentId
  | imageOriginalPath
  | imageContentPath
  | imageThumbnailPath
  | postStatus
  | postIsNotice
  deriving DecidableEq

/-- Names of indexes and constraints. -/
inductive KeyName where
  | uqUsersEmail
  | fkPostsAuthorIdUsers
  | ixPostsAuthorId
  | ixPostsDeletedAt
  | fkCommentsAuthorIdUsers
  | fkCommentsPostIdPosts
  | ixCommentsAuthorId
  | ixCommentsDeletedAt
  | ixCommentsPostId
  | uqMenusParentName
  | ixMenusDeletedAt
  | ixMenusMenuParentId
  | uqPostsLikePostIdUserId
  | ixPostsLikePostId
  | ixPostsLikeUserId
  | uqUsersUserEmail
  | ixPostsImagePostId
  | ixCommentsParentCommentId
  | ixPostsPostStatus
  deriving DecidableEq

abbrev Op := Statement TableName ColumnName KeyName

/-! ## `op` -/

/-- `sa.Column` -/
def column (name : ColumnName) (type : SqlType) (nullable : Bool)
    (serverDefault : Option Default) : Column ColumnName :=
  ⟨name, type, nullable, serverDefault, false⟩

def autoincrement (name : ColumnName) : Column ColumnName :=
  ⟨name, .integer, false, none, true⟩

def currentTimestamp (name : ColumnName) : Column ColumnName :=
  column name .datetime false (some .currentTimestamp)

def uniqueConstraint (name : KeyName) (columns : List ColumnName) : Index ColumnName KeyName :=
  ⟨name, columns, true, false⟩

def createIndex (name : KeyName) (t : TableName) (columns : List ColumnName)
    (unique : Bool) : Op :=
  .createIndex t ⟨name, columns, unique, false⟩

def createUniqueConstraint (name : KeyName) (t : TableName) (columns : List ColumnName) : Op :=
  createIndex name t columns true

def createForeignKey (name : KeyName) (source referent : TableName)
    (localCols remoteCols : List ColumnName) (cascade : Bool) : Op :=
  .addForeignKey source ⟨name, localCols, referent, remoteCols, cascade⟩

/-- What is given to `op.alter_column`. -/
structure AlterColumn where
  newColumnName : Option ColumnName := none
  existingType : SqlType
  existingNullable : Bool := false
  serverDefault : Option (Option Default) := none
  existingServerDefault : Option Default := none
  autoincrement : Option Bool := none
  comment : Bool := false

def alterColumn (t : TableName) (name : ColumnName) (given : AlterColumn) : Op :=
  if given.newColumnName.isSome || given.autoincrement.isSome || given.comment then
    .changeColumn t name
      { name := given.newColumnName.getD name
        type := given.existingType
        nullable := given.existingNullable
        default := given.serverDefault.getD given.existingServerDefault
        autoIncrement := given.autoincrement.getD false }
  else
    .setDefault t name (given.serverDefault.getD none)

def zero : Default := .literal (.int 0)

def one : Default := .literal (.int 1)

def user : Default := .literal (.text "USER")

/-! ## `versions` -/

inductive Revision where
  | createInitialSchema
  | addMenusTable
  | addPostViewCount
  | renameUserIdToUserId
  | addPostsLike
  | addPostsImage
  | mergeMigrationHeads
  | addUserIsActive
  | addAutoIncrementToPostsPostId
  | updatePostImageModel
  | addPostIsNotice
  deriving DecidableEq

instance : Fintype Revision where
  elems := {.createInitialSchema, .addMenusTable, .addPostViewCount, .renameUserIdToUserId,
    .addPostsLike, .addPostsImage, .mergeMigrationHeads, .addUserIsActive,
    .addAutoIncrementToPostsPostId, .updatePostImageModel, .addPostIsNotice}
  complete revision := by cases revision <;> decide

namespace Revision

def downRevision : Revision → List Revision
  | .createInitialSchema => []
  | .addMenusTable => [.createInitialSchema]
  | .addPostViewCount => [.createInitialSchema]
  | .renameUserIdToUserId => [.addPostViewCount]
  | .addPostsLike => [.renameUserIdToUserId]
  | .addPostsImage => [.addPostsLike]
  | .mergeMigrationHeads => [.addMenusTable, .addPostsImage]
  | .addUserIsActive => [.mergeMigrationHeads]
  | .addAutoIncrementToPostsPostId => [.addUserIsActive]
  | .updatePostImageModel => [.addAutoIncrementToPostsPostId]
  | .addPostIsNotice => [.updatePostImageModel]

def upgrade : Revision → List Op
  | .createInitialSchema =>
      [.createTable .users
        { columns :=
            [autoincrement .id,
              column .email (.varchar 255) false none,
              column .passwordHash (.varchar 255) false none,
              column .nickname (.varchar 50) false none,
              column .role (.varchar 20) false (some user),
              column .isActive .boolean false (some one),
              currentTimestamp .createdAt,
              currentTimestamp .updatedAt]
          primaryKey := [.id]
          indexes := [uniqueConstraint .uqUsersEmail [.email]]
          foreignKeys := [] },
        .createTable .posts
          { columns :=
              [autoincrement .id,
                column .title (.varchar 200) false none,
                column .content .text false none,
                column .authorId .integer false none,
                currentTimestamp .createdAt,
                currentTimestamp .updatedAt,
                column .deletedAt .datetime true none]
            primaryKey := [.id]
            indexes := []
            foreignKeys := [⟨.fkPostsAuthorIdUsers, [.authorId], .users, [.id], false⟩] },
        createIndex .ixPostsAuthorId .posts [.authorId] false,
        createIndex .ixPostsDeletedAt .posts [.deletedAt] false,
        .createTable .comments
          { columns :=
              [autoincrement .id,
                column .content .text false none,
                column .postId .integer false none,
                column .authorId .integer false none,
                currentTimestamp .createdAt,
                currentTimestamp .updatedAt,
                column .deletedAt .datetime true none]
            primaryKey := [.id]
            indexes := []
            foreignKeys :=
              [⟨.fkCommentsAuthorIdUsers, [.authorId], .users, [.id], false⟩,
                ⟨.fkCommentsPostIdPosts, [.postId], .posts, [.id], true⟩] },
        createIndex .ixCommentsAuthorId .comments [.authorId] false,
        createIndex .ixCommentsDeletedAt .comments [.deletedAt] false,
        createIndex .ixCommentsPostId .comments [.postId] false]
  | .addMenusTable =>
      [.createTable .menus
        { columns :=
            [autoincrement .menuId,
              column .menuName (.varchar 50) false none,
              column .menuParentId .integer true none,
              currentTimestamp .createdAt,
              currentTimestamp .updatedAt,
              column .deletedAt .datetime true none]
          primaryKey := [.menuId]
          indexes := [uniqueConstraint .uqMenusParentName [.menuParentId, .menuName, .deletedAt]]
          foreignKeys := [] },
        createIndex .ixMenusDeletedAt .menus [.deletedAt] false,
        createIndex .ixMenusMenuParentId .menus [.menuParentId] false]
  | .addPostViewCount =>
      [.dropForeignKey .comments .fkCommentsPostIdPosts,
        alterColumn .posts .id { newColumnName := some .postId, existingType := .integer },
        alterColumn .posts .title
          { newColumnName := some .postTitle, existingType := .varchar 200 },
        alterColumn .posts .content { newColumnName := some .postContent, existingType := .text },
        .addColumn .posts (column .postViewCount .integer false (some zero))]
  | .renameUserIdToUserId =>
      [alterColumn .users .id
        { newColumnName := some .userId, existingType := .integer, autoincrement := some true }]
  | .addPostsLike =>
      [.createTable .postsLike
        { columns :=
            [autoincrement .likeId,
              column .postId .integer false none,
              column .userId .integer false none,
              currentTimestamp .createdAt,
              currentTimestamp .updatedAt]
          primaryKey := [.likeId]
          indexes := [uniqueConstraint .uqPostsLikePostIdUserId [.postId, .userId]]
          foreignKeys := [] },
        createIndex .ixPostsLikePostId .postsLike [.postId] false,
        createIndex .ixPostsLikeUserId .postsLike [.userId] false,
        alterColumn .comments .id
          { newColumnName := some .commentId, existingType := .integer,
            autoincrement := some true },
        alterColumn .comments .content
          { newColumnName := some .commentContent, existingType := .text },
        createForeignKey .fkCommentsPostIdPosts .comments .posts [.postId] [.postId] true,
        alterColumn .posts .postViewCount { existingType := .integer, serverDefault := some none },
        .dropForeignKey .posts .fkPostsAuthorIdUsers,
        .dropIndex .users .uqUsersEmail,
        alterColumn .users .email
          { newColumnName := some .userEmail, existingType := .varchar 255 },
        alterColumn .users .passwordHash
          { newColumnName := some .userPasswordHash, existingType := .varchar 255 },
        alterColumn .users .nickname
          { newColumnName := some .userNickname, existingType := .varchar 50 },
        alterColumn .users .role
          { newColumnName := some .userRole, existingType := .varchar 20,
            existingServerDefault := some user },
        createUniqueConstraint .uqUsersUserEmail .users [.userEmail]]
  | .addPostsImage =>
      [.createTable .postsImage
        { columns :=
            [autoincrement .imageId,
              column .postId .integer false none,
              column .imagePath (.varchar 500) false none,
              currentTimestamp .createdAt,
              currentTimestamp .updatedAt]
          primaryKey := [.imageId]
          indexes := []
          foreignKeys := [] },
        createIndex .ixPostsImagePostId .postsImage [.postId] false,
        alterColumn .users .userEmail { existingType := .varchar 255, comment := true },
        alterColumn .users .userNickname { existingType := .varchar 50, comment := true }]
  | .mergeMigrationHeads => []
  | .addUserIsActive =>
      [alterColumn .users .isActive
        { newColumnName := some .userIsActive, existingType := .boolean }]
  | .addAutoIncrementToPostsPostId =>
      [.dropForeignKey .comments .fkCommentsPostIdPosts,
        alterColumn .posts .postId { existingType := .integer, autoincrement := some true },
        createForeignKey .fkCommentsPostIdPosts .comments .posts [.postId] [.postId] true]
  | .updatePostImageModel =>
      [.addColumn .comments (column .parentCommentId .integer true none),
        createIndex .ixCommentsParentCommentId .comments [.parentCommentId] false,
        .dropForeignKey .comments .fkCommentsPostIdPosts,
        .dropForeignKey .comments .fkCommentsAuthorIdUsers,
        .addColumn .postsImage (column .imageOriginalPath (.varchar 500) false none),
        .addColumn .postsImage (column .imageContentPath (.varchar 500) false none),
        .addColumn .postsImage (column .imageThumbnailPath (.varchar 500) false none),
        .dropColumn .postsImage .imagePath,
        alterColumn .users .userIsActive
          { existingType := .boolean, serverDefault := some (some one), comment := true }]
  | .addPostIsNotice =>
      [.addColumn .posts
        (column .postStatus (.enum ["PUBLISHED", "HIDDEN", "DELETED"]) false
          (some (.literal (.text "PUBLISHED")))),
        .addColumn .posts (column .postIsNotice .boolean false (some zero)),
        createIndex .ixPostsPostStatus .posts [.postStatus] false]

def downgrade : Revision → List Op
  | .createInitialSchema =>
      [.dropIndex .comments .ixCommentsPostId,
        .dropIndex .comments .ixCommentsDeletedAt,
        .dropIndex .comments .ixCommentsAuthorId,
        .dropTable .comments,
        .dropIndex .posts .ixPostsDeletedAt,
        .dropIndex .posts .ixPostsAuthorId,
        .dropTable .posts,
        .dropTable .users]
  | .addMenusTable =>
      [.dropIndex .menus .ixMenusMenuParentId,
        .dropIndex .menus .ixMenusDeletedAt,
        .dropTable .menus]
  | .addPostViewCount =>
      [.dropColumn .posts .postViewCount,
        alterColumn .posts .postContent { newColumnName := some .content, existingType := .text },
        alterColumn .posts .postTitle
          { newColumnName := some .title, existingType := .varchar 200 },
        alterColumn .posts .postId { newColumnName := some .id, existingType := .integer }]
  | .renameUserIdToUserId =>
      [alterColumn .users .userId
        { newColumnName := some .id, existingType := .integer, autoincrement := some true }]
  | .addPostsLike =>
      [.dropIndex .users .uqUsersUserEmail,
        alterColumn .users .userRole
          { newColumnName := some .role, existingType := .varchar 20,
            existingServerDefault := some user },
        alterColumn .users .userNickname
          { newColumnName := some .nickname, existingType := .varchar 50 },
        alterColumn .users .userPasswordHash
          { newColumnName := some .passwordHash, existingType := .varchar 255 },
        alterColumn .users .userEmail
          { newColumnName := some .email, existingType := .varchar 255 },
        createIndex .uqUsersEmail .users [.email] true,
        createForeignKey .fkPostsAuthorIdUsers .posts .users [.authorId] [.userId] false,
        alterColumn .posts .postViewCount
          { existingType := .integer, serverDefault := some (some zero) },
        .dropForeignKey .comments .fkCommentsPostIdPosts,
        alterColumn .comments .commentContent
          { newColumnName := some .content, existingType := .text },
        alterColumn .comments .commentId
          { newColumnName := some .id, existingType := .integer, autoincrement := some true },
        .dropIndex .postsLike .ixPostsLikeUserId,
        .dropIndex .postsLike .ixPostsLikePostId,
        .dropTable .postsLike]
  | .addPostsImage =>
      [alterColumn .users .userNickname { existingType := .varchar 50, comment := true },
        alterColumn .users .userEmail { existingType := .varchar 255, comment := true },
        .dropIndex .postsImage .ixPostsImagePostId,
        .dropTable .postsImage]
  | .mergeMigrationHeads => []
  | .addUserIsActive =>
      [alterColumn .users .userIsActive
        { newColumnName := some .isActive, existingType := .boolean }]
  | .addAutoIncrementToPostsPostId =>
      [.dropForeignKey .comments .fkCommentsPostIdPosts,
        alterColumn .posts .postId { existingType := .integer, autoincrement := some false },
        createForeignKey .fkCommentsPostIdPosts .comments .posts [.postId] [.postId] true]
  | .updatePostImageModel =>
      [alterColumn .users .userIsActive
        { existingType := .boolean, serverDefault := some none, comment := true },
        .addColumn .postsImage (column .imagePath (.varchar 500) false none),
        .dropColumn .postsImage .imageThumbnailPath,
        .dropColumn .postsImage .imageContentPath,
        .dropColumn .postsImage .imageOriginalPath,
        createForeignKey .fkCommentsAuthorIdUsers .comments .users [.authorId] [.userId] false,
        createForeignKey .fkCommentsPostIdPosts .comments .posts [.postId] [.postId] true,
        .dropIndex .comments .ixCommentsParentCommentId,
        .dropColumn .comments .parentCommentId]
  | .addPostIsNotice =>
      [.dropIndex .posts .ixPostsPostStatus,
        .dropColumn .posts .postIsNotice,
        .dropColumn .posts .postStatus]

end Revision

end GreenCommunity.Migrations
