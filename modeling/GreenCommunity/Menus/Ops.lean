import GreenCommunity.Base.Mvcc
import GreenCommunity.Infrastructure.Collation
import GreenCommunity.Infrastructure.Database

/-!
# The table of menus

Menus form a tree by `menu_parent_id`; deleting one only records the time.  The
operations are one SQL statement or one commit each, and the reading of the clock.
Any statement may fail with `serviceError` and then has had no effect, except
`rollback` and `close`, which end the transaction whatever becomes of the connection.

The unique key `(menu_parent_id, menu_name, deleted_at)` compares names under the
collation and never rejects a row with a NULL in one of its columns.
-/

namespace GreenCommunity.Menus

open GreenCommunity.Base
open GreenCommunity.Infrastructure (Collation)

/-! ## The table -/

structure Menu where
  menuId : Int
  menuName : String
  menuParentId : Option Int
  deletedAt : Option Nat
  deriving DecidableEq, Repr

/-- An `UPDATE` sets the columns that have changed. -/
inductive Write where
  | insert (menu : Menu)
  | update (menuId : Int) (menuName : Option String) (menuParentId : Option (Option Int))
      (deletedAt : Option Nat)
  deriving DecidableEq, Repr

/-- The primary key of the row a write is about. -/
def Write.menuId : Write → Int
  | .insert menu => menu.menuId
  | .update menuId _ _ _ => menuId

/-- The row with the given columns set. -/
def Menu.set (row : Menu) (menuName : Option String) (menuParentId : Option (Option Int))
    (deletedAt : Option Nat) : Menu where
  menuId := row.menuId
  menuName := menuName.getD row.menuName
  menuParentId := menuParentId.getD row.menuParentId
  deletedAt := deletedAt.or row.deletedAt

def apply (t : List Menu) : Write → List Menu
  | .insert menu => t ++ [menu]
  | .update menuId menuName menuParentId deletedAt =>
      t.map fun row =>
        if row.menuId = menuId then row.set menuName menuParentId deletedAt else row

/-- Two rows that the unique key does not let stand side by side. -/
def Menu.Duplicates (coll : Collation) (row row' : Menu) : Prop :=
  row.menuId ≠ row'.menuId ∧
    (row.menuParentId.isSome ∧ row.menuParentId = row'.menuParentId) ∧
    coll.same row.menuName row'.menuName = true ∧
    (row.deletedAt.isSome ∧ row.deletedAt = row'.deletedAt)

instance (coll : Collation) (row row' : Menu) : Decidable (row.Duplicates coll row') :=
  inferInstanceAs (Decidable (_ ∧ _))

/-- The unique key admits what the write makes of the table. -/
def Admits (coll : Collation) (t : List Menu) (w : Write) : Prop :=
  ∀ row ∈ apply t w, row.menuId = w.menuId → ∀ row' ∈ apply t w, ¬ row.Duplicates coll row'

structure State (C : Type) where
  db : Db C (List Menu) Write
  /-- The `AUTO_INCREMENT` counter. -/
  nextMenuId : Int

/-! ## Operations -/

inductive Op where
  /-- The lookup of the current user, which other tables answer. -/
  | selectUser
  | selectMenu (menuId : Int)
  | countById (menuId : Int)
  | countByParentAndName (menuParentId : Option Int) (menuName : Option String)
  | selectChildren (menuParentId : Option Int)
  | selectAll
  | insertMenu (menuName : String) (menuParentId : Option Int)
  | updateMenu (menuId : Int) (menuName : Option (Option String))
      (menuParentId : Option (Option Int)) (deletedAt : Option Nat)
  | now
  | commit
  | rollback
  | close
  /-- A loop that goes on beyond what is modelled of it. -/
  | loop
  deriving DecidableEq, Repr

abbrev Result : Op → Type
  | .selectMenu _ | .selectChildren _ | .selectAll => List Menu
  | .countById _ | .countByParentAndName _ _ | .now => Nat
  | .insertMenu _ _ => Int
  | .loop => Empty
  | .selectUser | .updateMenu _ _ _ _ | .commit | .rollback | .close => Unit

abbrev Reply (op : Op) : Type := Infrastructure.Answer Result op

abbrev MenusM := Prog Op Reply AppError

abbrev MenusEvent := Event Op Reply

def perform (op : Op) : MenusM (Result op) := Infrastructure.perform op

section Queries

variable (t : List Menu)

/-- `MenuRepository._active` -/
def activeMenus : List Menu := t.filter fun row => row.deletedAt.isNone

def menusById (menuId : Int) : List Menu :=
  (activeMenus t).filter fun row => row.menuId == menuId

/-- A comparison with `None` becomes `IS NULL`. -/
def childrenOf (menuParentId : Option Int) : List Menu :=
  (activeMenus t).filter fun row => row.menuParentId == menuParentId

/-- `ORDER BY menu_parent_id, menu_id`, where NULL comes first. -/
def Menu.Before (row row' : Menu) : Prop :=
  match row.menuParentId, row'.menuParentId with
  | none, none => row.menuId ≤ row'.menuId
  | none, some _ => True
  | some _, none => False
  | some p, some p' => p < p' ∨ p = p' ∧ row.menuId ≤ row'.menuId

/-- No row has the name NULL. -/
def siblingsNamed (coll : Collation) (menuParentId : Option Int)
    (menuName : Option String) : List Menu :=
  (childrenOf t menuParentId).filter fun row => menuName.any (coll.same row.menuName)

end Queries

section Steps

variable {C : Type} [DecidableEq C] (coll : Collation)

/-- The rows that a session has written, as they are if it commits now. -/
def pendingRows (db : Db C (List Menu) Write) (c : C) : List Menu :=
  (db.current apply c).filter fun row =>
    (db.session c).writes.any fun w => w.menuId == row.menuId

/-- Nobody else has an uncommitted write to the row, or an uncommitted entry in the
unique index that is the same as the row's. -/
def Unblocked (db : Db C (List Menu) Write) (c : C) (w : Write) : Prop :=
  db.Free (fun w w' => w.menuId = w'.menuId) c w ∧
    ∀ c', c' ≠ c → ∀ row' ∈ pendingRows db c', ∀ row ∈ apply (db.current apply c) w,
      row.menuId = w.menuId → ¬ row.Duplicates coll row'

/-- A write that the database takes. -/
def writes (c : C) (s : State C) (w : Write) (s' : State C) : Prop :=
  Unblocked coll s.db c w ∧ Admits coll (s.db.current apply c) w ∧
    s' = { s with db := s.db.write c w }

/-- An operation that succeeds. -/
def does (c : C) (s : State C) : (op : Op) → Result op → State C → Prop
  | .selectUser, _, s' => s' = { s with db := s.db.read c }
  | .selectMenu menuId, r, s' =>
      r = menusById (s.db.view apply c) menuId ∧ s' = { s with db := s.db.read c }
  | .countById menuId, r, s' =>
      r = (menusById (s.db.view apply c) menuId).length ∧ s' = { s with db := s.db.read c }
  | .countByParentAndName menuParentId menuName, r, s' =>
      r = (siblingsNamed (s.db.view apply c) coll menuParentId menuName).length ∧
        s' = { s with db := s.db.read c }
  | .selectChildren menuParentId, r, s' =>
      r = childrenOf (s.db.view apply c) menuParentId ∧ s' = { s with db := s.db.read c }
  | .selectAll, r, s' =>
      (r.Perm (activeMenus (s.db.view apply c)) ∧ r.Pairwise Menu.Before) ∧
        s' = { s with db := s.db.read c }
  | .insertMenu menuName menuParentId, r, s' =>
      r = s.nextMenuId ∧
        writes coll c { s with nextMenuId := s.nextMenuId + 1 }
          (.insert ⟨s.nextMenuId, menuName, menuParentId, none⟩) s'
  | .updateMenu menuId menuName menuParentId deletedAt, _, s' =>
      menuName ≠ some none ∧
        writes coll c s (.update menuId menuName.join menuParentId deletedAt) s'
  | .now, _, s' => s' = s
  | .commit, _, s' => s' = { s with db := s.db.commit apply c }
  | .rollback, _, s' => s' = { s with db := s.db.rollback c }
  | .close, _, s' => s' = { s with db := s.db.rollback c }
  | .loop, r, _ => nomatch r

/-- The ways an operation fails: the unique key rejects a row, a column that may not
be NULL is, or the call does not go through. -/
def fails (c : C) (s : State C) : Op → AppError → Prop
  | .insertMenu menuName menuParentId, .integrityError =>
      ¬ Admits coll (s.db.current apply c)
        (.insert ⟨s.nextMenuId, menuName, menuParentId, none⟩)
  | .updateMenu menuId menuName menuParentId deletedAt, .integrityError =>
      menuName = some none ∨ ¬ Admits coll (s.db.current apply c)
        (.update menuId menuName.join menuParentId deletedAt)
  | .now, _ | .rollback, _ | .close, _ | .loop, _ => False
  | _, e => e = .serviceError

def step (c : C) (s : State C) (op : Op) : Reply op → State C → Prop
  | .ok r, s' => does coll c s op r s'
  | .error e, s' => fails coll c s op e ∧ s' = s

/-- Nothing else changes the menus. -/
def sem : Sem C Op Reply (State C) where
  step := step coll
  env s s' := s' = s

end Steps

end GreenCommunity.Menus
