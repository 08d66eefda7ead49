import GreenCommunity.Menus.Repository

/-!
# The menu service

`MenuService.create`, `update` and `delete` with their checks, in the order of the
source.  A field of an update is absent, null or a value.  The walk up the ancestors
is a `while` loop; `fuel` bounds the rounds that are modelled, and a walk that goes on
beyond them neither returns nor raises.
-/

namespace GreenCommunity.Menus

open GreenCommunity.Base

structure MenuCreate where
  menuName : String
  menuParentId : Option Int
  deriving DecidableEq, Repr

structure MenuUpdate where
  menuName : Option (Option String)
  menuParentId : Option (Option Int)
  deriving DecidableEq, Repr

/-! ## Checks -/

def getOr404 (menuId : Int) : MenusM Menu := do
  match ← getById menuId with
  | none => throw (.notFound "메뉴를 찾을 수 없습니다.")
  | some menu => return menu

def ensureParentExists : Option Int → MenusM Unit
  | none => return ()
  | some menuParentId => do
      if !(← existsById menuParentId) then
        throw (.notFound "부모 메뉴를 찾을 수 없습니다.")

def ensureNameAvailable (menuParentId : Option Int) (menuName : Option String) :
    MenusM Unit := do
  if ← existsByParentAndName menuParentId menuName then
    throw (.conflict "같은 위치에 동일한 이름의 메뉴가 이미 있습니다.")

/-- The loop of `_ensure_not_own_descendant`. -/
def walk (menuId : Int) : Nat → Option Int → MenusM Unit
  | _, none => return ()
  | 0, some _ => do
      let never ← perform .loop
      nomatch never
  | fuel + 1, some cursor => do
      if cursor = menuId then
        throw (.badRequest "하위 메뉴를 부모로 지정할 수 없습니다.")
      match ← getById cursor with
      | none => return ()
      | some parent => walk menuId fuel parent.menuParentId

def ensureNotOwnDescendant (fuel : Nat) (menuId newParentId : Int) : MenusM Unit := do
  if menuId = newParentId then
    throw (.badRequest "자기 자신을 부모로 지정할 수 없습니다.")
  walk menuId fuel (some newParentId)

/-! ## Operations -/

def create (payload : MenuCreate) : MenusM Menu := do
  ensureParentExists payload.menuParentId
  ensureNameAvailable payload.menuParentId (some payload.menuName)
  let menuId ← perform (.insertMenu payload.menuName payload.menuParentId)
  perform .commit
  return ⟨menuId, payload.menuName, payload.menuParentId, none⟩

/-- The checks of a request that names a parent. -/
def ensureMovable (fuel : Nat) (menuId : Int) : Option (Option Int) → MenusM Unit
  | some (some newParentId) => do
      ensureParentExists (some newParentId)
      ensureNotOwnDescendant fuel menuId newParentId
  | _ => return ()

/-- The duplicate check of an update, made only where the place or the name changes. -/
def ensureRenamable (menu : Menu) (newParentId : Option Int) (newName : Option String) :
    MenusM Unit :=
  if newParentId ≠ menu.menuParentId ∨ newName ≠ some menu.menuName then
    ensureNameAvailable newParentId newName
  else
    return ()

def update (fuel : Nat) (menuId : Int) (payload : MenuUpdate) : MenusM Menu := do
  let menu ← getOr404 menuId
  let newParentId := payload.menuParentId.getD menu.menuParentId
  let newName := payload.menuName.getD (some menu.menuName)
  ensureMovable fuel menuId payload.menuParentId
  ensureRenamable menu newParentId newName
  flushUpdate menu newName newParentId
  perform .commit
  return { menu with menuName := newName.getD menu.menuName, menuParentId := newParentId }

def delete (menuId : Int) : MenusM Unit := do
  let menu ← getOr404 menuId
  let children ← listChildren (some menuId)
  if children ≠ [] then
    throw (.badRequest "하위 메뉴가 있어 삭제할 수 없습니다.")
  let now ← perform .now
  perform (.updateMenu menu.menuId none none (some (Infrastructure.datetime now)))
  perform .commit

/-! ## Requests -/

inductive Request where
  | create (payload : MenuCreate)
  | update (menuId : Int) (payload : MenuUpdate)
  | delete (menuId : Int)
  deriving DecidableEq, Repr

/-- The service call of a request, with the menu it returns. -/
def call (fuel : Nat) : Request → MenusM (Option Menu)
  | .create payload => some <$> create payload
  | .update menuId payload => some <$> update fuel menuId payload
  | .delete menuId => do
      delete menuId
      return none

/-- A request: the lookup of the current user comes first, in the same session. -/
def serve (fuel : Nat) (req : Request) : MenusM (Option Menu) :=
  Infrastructure.inSession (perform .rollback) (perform .close) do
    perform .selectUser
    call fuel req

end GreenCommunity.Menus
