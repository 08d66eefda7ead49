import GreenCommunity.Board.Users

/-!
# Posts

`PostRepository` and `PostService`, without the filter words, which are always empty.
The session flushes a changed post before it commits: an `UPDATE` of the columns whose
value is not the loaded one.

What Pillow makes of an image, and `str.lower`, are parameters.
-/

namespace GreenCommunity.Board

open GreenCommunity.Base
open GreenCommunity.Common
open GreenCommunity.Infrastructure (oneOrNone refreshed changed datetime)

/-! ## Payloads -/

/-- A title and a content as the schemas admit them. -/
def TitleFits (title : String) : Prop := 1 ≤ title.length ∧ title.length ≤ 200

def ContentFits (content : String) : Prop := 1 ≤ content.length

structure PostCreate where
  postTitle : String
  postContent : String
  title_fits : TitleFits postTitle
  content_fits : ContentFits postContent

/-- A field of an update is absent, null or a value. -/
structure PostUpdate where
  postTitle : Option (Option String)
  postContent : Option (Option String)
  title_fits : ∀ title, postTitle = some (some title) → TitleFits title
  content_fits : ∀ content, postContent = some (some content) → ContentFits content

structure UploadFile where
  filename : Option String
  contentType : Option String
  data : List UInt8
  deriving DecidableEq, Repr

structure PostDetail where
  post : Post
  author : User
  postLikeCount : Nat
  isLiked : Bool
  hasImages : Bool
  deriving DecidableEq, Repr

structure PostImageResponse where
  imageId : Int
  postId : Int
  imageUrl : String
  deriving DecidableEq, Repr

/-- What is used of Pillow and of Python's strings. There is no image where the
conversion raises one of the errors that `upload_image` catches. -/
structure Libraries where
  resizeImage : (originalData : List UInt8) → (maxWidth : Nat) → Option (List UInt8)
  createThumbnailImage : (originalData : List UInt8) → Option (List UInt8)
  lower : String → String

def maxContentWidthPx : Nat := 1600

/-- `Path(filename).suffix` -/
def pathSuffix (filename : String) : String :=
  let parts := (filename.toList.splitOn '/').filter fun part => part ≠ [] && part ≠ ['.']
  let name := parts.getLastD []
  let suffix := (name.reverse.takeWhile fun char => char ≠ '.').reverse
  if suffix ≠ [] ∧ suffix.length + 1 < name.length then String.ofList ('.' :: suffix) else ""

/-! ## Repository -/

namespace PostRepository

def getById (postId : Int) : BoardM (Option Post) := do
  oneOrNone (← perform (.select (.activePost postId)))

def getAnyById (postId : Int) : BoardM (Option Post) := do
  oneOrNone (← perform (.select (.anyPost postId)))

def getDetail (postId : Int) : BoardM (Option (Post × User)) := do
  oneOrNone (← perform (.select (.postDetail postId)))

def listPaginated (params : PageParams) : BoardM (List (Post × User) × Nat) := do
  let total ← perform (.select .countPosts)
  let rows ← perform (.select (.pagePosts params.offset params.limit))
  return (rows, total)

def listNotices : BoardM (List (Post × User)) := perform (.select .notices)

def incrementViews (post : Post) : BoardM Post := do
  perform (.update (.views post.postId))
  refreshed (← perform (.select (.anyPost post.postId)))

def listImages (postId : Int) : BoardM (List PostImage) :=
  perform (.select (.postImages postId))

def add (postTitle postContent : String) (authorId : Int) : BoardM Post := do
  let postId ← perform (.insert (.post postTitle postContent authorId))
  refreshed (← perform (.select (.anyPost postId)))

def hideIfPublished (postId : Int) : BoardM Unit := do
  match ← getAnyById postId with
  | none => throw (.valueError "게시글을 찾을 수 없습니다.")
  | some post =>
      if post.postStatus ≠ .published then
        return ()
      else
        perform (.update (.post postId ⟨none, none, some .hidden, none⟩))

/-- The flush of a post with new values in the fields that were sent. -/
def flush (post : Post) (payload : PostUpdate) : BoardM Unit :=
  let postTitle := payload.postTitle.bind (changed (some post.postTitle))
  let postContent := payload.postContent.bind (changed (some post.postContent))
  if postTitle.isSome || postContent.isSome then
    perform (.update (.post post.postId ⟨postTitle, postContent, none, none⟩))
  else
    return ()

def addImage (postId : Int)
    (imageOriginalPath imageContentPath imageThumbnailPath : String) : BoardM PostImage := do
  let imageId ← perform
    (.insert (.postImage postId imageOriginalPath imageContentPath imageThumbnailPath))
  refreshed (← perform (.select (.postImage imageId)))

end PostRepository

/-! ## Service -/

namespace PostService

/-- A view by somebody other than the author counts. -/
def countView (post : Post) (currentUser : User) : BoardM Post :=
  if post.authorId ≠ currentUser.userId then do
    let post ← PostRepository.incrementViews post
    perform .commit
    return post
  else
    return post

def getDetail (postId : Int) (currentUser : User) : BoardM PostDetail := do
  match ← PostRepository.getDetail postId with
  | none => throw (.notFound "게시글을 찾을 수 없습니다.")
  | some (post, author) => do
      let post ← countView post currentUser
      let postLikeCount ← perform (.countLikes postId)
      let isLiked ← perform (.getLike postId currentUser.userId)
      let images ← PostRepository.listImages postId
      return ⟨post, author, postLikeCount, isLiked, images ≠ []⟩

/-- `rows.sort(key=lambda item: item[0].post_id, reverse=True)` -/
def newestFirst (rows : List (Post × User)) : List (Post × User) :=
  rows.insertionSort fun row row' => row'.1.postId ≤ row.1.postId

def listPosts (params : PageParams) :
    BoardM (List (Post × User) × List (Post × User) × Nat) := do
  let notices ← PostRepository.listNotices
  let (posts, total) ← PostRepository.listPaginated params
  return (newestFirst notices, newestFirst posts, total)

def create (author : User) (payload : PostCreate) : BoardM (Post × User) := do
  let post ← PostRepository.add payload.postTitle payload.postContent author.userId
  perform .commit
  return (post, author)

def getOwned (postId : Int) (currentUser : User) : BoardM Post := do
  match ← PostRepository.getById postId with
  | none => throw (.notFound "게시글을 찾을 수 없습니다.")
  | some post =>
      if post.authorId ≠ currentUser.userId ∧ currentUser.userRole ≠ .admin then
        throw (.forbidden "본인이 작성한 게시글만 수정/삭제할 수 있습니다.")
      else
        return post

def update (postId : Int) (currentUser : User) (payload : PostUpdate) : BoardM PostDetail := do
  let post ← getOwned postId currentUser
  PostRepository.flush post payload
  perform .commit
  getDetail postId currentUser

/-- The post is PUBLISHED and not deleted, so both columns change. -/
def delete (postId : Int) (currentUser : User) : BoardM Unit := do
  let post ← getOwned postId currentUser
  let now ← perform .now
  perform (.update (.post post.postId ⟨none, none, some .deleted, some (datetime now)⟩))
  perform .commit

def likePost (postId : Int) (currentUser : User) : BoardM Unit := do
  match ← PostRepository.getById postId with
  | none => throw (.notFound "게시글을 찾을 수 없습니다.")
  | some _ => do
      let existingLike ← perform (.getLike postId currentUser.userId)
      if existingLike then
        return ()
      else
        perform (.setLike postId currentUser.userId true)

def unlikePost (postId : Int) (currentUser : User) : BoardM Unit := do
  let like ← perform (.getLike postId currentUser.userId)
  if !like then
    return ()
  else
    perform (.setLike postId currentUser.userId false)

def getShareUrl (postId : Int) : BoardM String := do
  match ← PostRepository.getById postId with
  | none => throw (.notFound "게시글을 찾을 수 없습니다.")
  | some _ => return s!"http://localhost:5173/posts/{postId}"

/-- `storage` says whether a storage is configured. -/
def listImages (storage : Bool) (postId : Int) : BoardM (List PostImageResponse) := do
  match ← PostRepository.getById postId with
  | none => throw (.notFound "게시글을 찾을 수 없습니다.")
  | some _ => do
      let images ← PostRepository.listImages postId
      if images = [] then
        return []
      else if !storage then
        throw .storageNotConfigured
      else
        images.mapM fun image => do
          let imageUrl ← perform (.presign image.imageContentPath)
          return ⟨image.imageId, postId, imageUrl⟩

/-- The part of `upload_image` behind the conversions, with its `try`. -/
def storeImage (postId : Int) (image : UploadFile) (suffix : String)
    (contentData thumbnailData : List UInt8) (fileId : String) : BoardM PostImage :=
  let originalKey := s!"posts/{postId}/original/{fileId}{suffix}"
  let contentKey := s!"posts/{postId}/content/{fileId}.webp"
  let thumbnailKey := s!"posts/{postId}/thumbnail/{fileId}.webp"
  Prog.handle (do
      perform (.upload originalKey image.data image.contentType)
      perform (.upload contentKey contentData (some "image/webp"))
      perform (.upload thumbnailKey thumbnailData (some "image/webp"))
      let postImage ← PostRepository.addImage postId originalKey contentKey thumbnailKey
      perform .commit
      return postImage)
    fun e => do
      perform .rollback
      throw e

def maxImageBytes : Nat := 10 * 1024 * 1024

def convertImage (libs : Libraries) (originalData : List UInt8) :
    BoardM (List UInt8 × List UInt8) :=
  match libs.resizeImage originalData maxContentWidthPx,
      libs.createThumbnailImage originalData with
  | some contentData, some thumbnailData => return (contentData, thumbnailData)
  | _, _ => throw (.badRequest "지원하지 않거나 크기가 너무 큰 이미지입니다.")

def uploadImage (libs : Libraries) (storage : Bool) (postId : Int) (currentUser : User)
    (image : UploadFile) : BoardM PostImageResponse := do
  match ← PostRepository.getById postId with
  | none => throw (.notFound "게시글을 찾을 수 없습니다.")
  | some post =>
      if post.authorId ≠ currentUser.userId then
        throw (.forbidden "본인이 작성한 게시글에만 이미지를 추가할 수 있습니다.")
      else if !storage then
        throw .storageNotConfigured
      else if maxImageBytes < image.data.length then
        throw (.badRequest "이미지는 10MB 이하로 업로드해주세요.")
      else do
        let suffix := libs.lower (pathSuffix (image.filename.getD ""))
        let (contentData, thumbnailData) ← convertImage libs image.data
        let fileId ← perform .uuid4
        let postImage ← storeImage postId image suffix contentData thumbnailData fileId
        let imageUrl ← perform (.presign s!"posts/{postId}/content/{fileId}.webp")
        return ⟨postImage.imageId, postImage.postId, imageUrl⟩

end PostService

/-- The endpoint `GET /posts`: the page and the notices. -/
def listPosts (params : PageParams) :
    BoardM (PageResponse (Post × User) × List (Post × User)) := do
  let (notices, posts, total) ← PostService.listPosts params
  return (.create posts total params, notices)

end GreenCommunity.Board
