import GreenCommunity.Menus.Ops

/-!
# The menu repository

The queries of `MenuRepository`.  A change is registered with the session by setting
attributes; `flushUpdate` is the `UPDATE` that a flush makes of it, which leaves out
the columns whose value is the loaded one and is not sent at all if none has changed.
-/

namespace GreenCommunity.Menus

open GreenCommunity.Infrastructure (oneOrNone)

export GreenCommunity.Infrastructure (changed)

def getById (menuId : Int) : MenusM (Option Menu) := do
  oneOrNone (← perform (.selectMenu menuId))

def listAll : MenusM (List Menu) := perform .selectAll

def listChildren (menuParentId : Option Int) : MenusM (List Menu) :=
  perform (.selectChildren menuParentId)

def existsById (menuId : Int) : MenusM Bool := do
  let count ← perform (.countById menuId)
  return count != 0

def existsByParentAndName (menuParentId : Option Int) (menuName : Option String) :
    MenusM Bool := do
  let count ← perform (.countByParentAndName menuParentId menuName)
  return count != 0

def flushUpdate (menu : Menu) (menuName : Option String) (menuParentId : Option Int) :
    MenusM Unit :=
  let menuName := changed (some menu.menuName) menuName
  let menuParentId := changed menu.menuParentId menuParentId
  if menuName.isSome || menuParentId.isSome then
    perform (.updateMenu menu.menuId menuName menuParentId none)
  else
    return ()

end GreenCommunity.Menus
