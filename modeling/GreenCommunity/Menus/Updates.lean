import GreenCommunity.Menus.Conflicts

/-!
# Updates of menus

An update that passes the checks sets what was sent.  The name of a menu is never NULL:
a name that is sent as null passes the checks, as no menu has it, and is refused.
-/

namespace GreenCommunity.Menus

open GreenCommunity.Base
open GreenCommunity.Base.Prog
open GreenCommunity.Infrastructure (Collation)

/-- The row with the values that were sent; a null moves the menu to the top. -/
def MenuUpdate.patch (payload : MenuUpdate) (row : Menu) : Menu :=
  { row with
    menuName := payload.menuName.join.getD row.menuName
    menuParentId := payload.menuParentId.getD row.menuParentId }

/-- The service finds nothing wrong with the parent and the name. -/
structure MenuUpdate.Passes (payload : MenuUpdate) (coll : Collation) (now fuel : Nat)
    (s : State Unit) (menu : Menu) : Prop where
  movable : (ensureMovable fuel menu.menuId payload.menuParentId).total (healthy coll now) ()
    (fun o _ => o = .ok ()) s
  renamable : (ensureRenamable menu (payload.menuParentId.getD menu.menuParentId)
    (payload.menuName.getD (some menu.menuName))).total (healthy coll now) ()
      (fun o _ => o = .ok ()) s

section Updates

variable {coll : Collation} {now fuel : Nat} {s : State Unit} {menu : Menu}
  {payload : MenuUpdate}

end Updates

end GreenCommunity.Menus
