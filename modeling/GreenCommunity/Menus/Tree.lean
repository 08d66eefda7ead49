import Mathlib.Data.List.Nodup
import GreenCommunity.Base.Forest
import GreenCommunity.Menus.Ops

/-!
# The tree that the rows form

`parentOf` reads the table as parent pointers between the menus that are not deleted.
For every write it says what becomes of the pointers, and from that, and from
`Base.Forest`, exactly which writes keep the menus a forest, and which keep the names
below one parent distinct.
-/

namespace GreenCommunity.Menus

open GreenCommunity.Base
open GreenCommunity.Infrastructure (Collation)
open Relation (ReflTransGen)

/-- The parent pointers between the menus that are not deleted. -/
def parentOf (t : List Menu) : Parents Int := fun k =>
  (t.find? fun row => row.menuId == k && row.deletedAt.isNone).map Menu.menuParentId

/-- No two menus that are not deleted have the same parent and the same name. -/
def Siblings (coll : Collation) (t : List Menu) : Prop :=
  ∀ row ∈ t, ∀ row' ∈ t, row.deletedAt = none → row'.deletedAt = none →
    row.menuParentId = row'.menuParentId → coll.same row.menuName row'.menuName = true →
    row.menuId = row'.menuId

/-- The table has its primary key. -/
structure Keyed (t : List Menu) (nextMenuId : Int) : Prop where
  nodup : (t.map Menu.menuId).Nodup
  below : ∀ row ∈ t, row.menuId < nextMenuId

section Pointers

variable {t : List Menu} {nextMenuId k : Int}

theorem Keyed.unique (h : Keyed t nextMenuId) {row row' : Menu} (hr : row ∈ t)
    (hr' : row' ∈ t) (hid : row.menuId = row'.menuId) : row = row' :=
  List.inj_on_of_nodup_map h.nodup hr hr' hid

theorem mem_activeMenus {row : Menu} :
    row ∈ activeMenus t ↔ row ∈ t ∧ row.deletedAt = none := by
  simp [activeMenus]

theorem mem_menusById {row : Menu} :
    row ∈ menusById t k ↔ row ∈ t ∧ row.deletedAt = none ∧ row.menuId = k := by
  simp [menusById, mem_activeMenus, and_assoc]

theorem mem_childrenOf {row : Menu} {q : Option Int} :
    row ∈ childrenOf t q ↔ row ∈ t ∧ row.deletedAt = none ∧ row.menuParentId = q := by
  simp [childrenOf, mem_activeMenus, and_assoc]

theorem mem_siblingsNamed {coll : Collation} {row : Menu} {q : Option Int} {name : String} :
    row ∈ siblingsNamed t coll q (some name) ↔
      row ∈ t ∧ row.deletedAt = none ∧ row.menuParentId = q ∧
        coll.same row.menuName name = true := by
  simp [siblingsNamed, mem_childrenOf, and_assoc]

/-- The lookup by primary key yields at most one row. -/
theorem Keyed.menusById (h : Keyed t nextMenuId) (k : Int) :
    menusById t k = [] ∨ ∃ row, menusById t k = [row] := by
  have hnodup : (Menus.menusById t k).Nodup :=
    ((List.Nodup.of_map _ h.nodup).filter _).filter _
  cases hl : Menus.menusById t k with
  | nil => exact Or.inl rfl
  | cons row rest =>
      cases rest with
      | nil => exact Or.inr ⟨row, rfl⟩
      | cons row' rest =>
          obtain ⟨hrow, _, hid⟩ := mem_menusById.mp (by rw [hl]; simp : row ∈ _)
          obtain ⟨hrow', _, hid'⟩ := mem_menusById.mp (by rw [hl]; simp : row' ∈ _)
          have heq := h.unique hrow hrow' (hid.trans hid'.symm)
          rw [hl, heq] at hnodup
          simp at hnodup

theorem parentOf_isSome :
    (parentOf t).Live k ↔ ∃ row ∈ t, row.deletedAt = none ∧ row.menuId = k := by
  rw [Parents.Live, parentOf, Option.isSome_map, List.find?_isSome]
  simp [and_comm]

theorem Keyed.parentOf (h : Keyed t nextMenuId) {q : Option Int} :
    parentOf t k = some q ↔
      ∃ row ∈ t, row.deletedAt = none ∧ row.menuId = k ∧ row.menuParentId = q := by
  rw [Menus.parentOf, Option.map_eq_some_iff]
  constructor
  · rintro ⟨row, hrow, hq⟩
    have hp := List.find?_some hrow
    simp only [Bool.and_eq_true, beq_iff_eq, Option.isNone_iff_eq_none] at hp
    exact ⟨row, List.mem_of_find?_eq_some hrow, hp.2, hp.1, hq⟩
  · rintro ⟨row, hrow, hlive, hid, hq⟩
    obtain ⟨row', hrow'⟩ := Option.isSome_iff_exists.mp
      (List.find?_isSome.mpr ⟨row, hrow, by simp [hlive, hid]⟩ :
        (t.find? fun row => row.menuId == k && row.deletedAt.isNone).isSome)
    have hp := List.find?_some hrow'
    simp only [Bool.and_eq_true, beq_iff_eq] at hp
    obtain rfl := h.unique hrow (List.mem_of_find?_eq_some hrow') (hid.trans hp.1.symm)
    exact ⟨row, hrow', hq⟩

end Pointers

/-! ## What a write does to the pointers -/

section Writes

variable {t : List Menu} {nextMenuId : Int}

theorem parentOf_insert {menu : Menu} (hlive : menu.deletedAt = none)
    (hfresh : ∀ row ∈ t, row.menuId ≠ menu.menuId) :
    parentOf (apply t (.insert menu)) =
      Function.update (parentOf t) menu.menuId (some menu.menuParentId) := by
  funext k
  rw [parentOf, apply, List.find?_append]
  by_cases hk : k = menu.menuId
  · subst hk
    have hnone : (t.find? fun row => row.menuId == menu.menuId && row.deletedAt.isNone) =
        none := by
      rw [List.find?_eq_none]
      intro row hrow
      simp [hfresh row hrow]
    rw [hnone, Function.update_self]
    simp [hlive]
  · rw [Function.update_of_ne hk, parentOf]
    simp [Ne.symm hk]

/-- A row with another number is found as before. -/
private theorem find_update_ne {id k : Int} (hk : k ≠ id) (f : Menu → Menu)
    (hf : ∀ row, (f row).menuId = row.menuId) :
    ((t.map fun row => if row.menuId = id then f row else row).find? fun row =>
        row.menuId == k && row.deletedAt.isNone) =
      t.find? fun row => row.menuId == k && row.deletedAt.isNone := by
  induction t with
  | nil => rfl
  | cons row t ih =>
      rw [List.map_cons, List.find?_cons, List.find?_cons, ih]
      by_cases hid : row.menuId = id
      · have hne : (row.menuId == k) = false := by
          rw [hid]
          exact beq_false_of_ne (Ne.symm hk)
        simp [hid, hf, hid ▸ hne]
      · simp [hid]

private theorem find_update_self {id : Int} (f : Menu → Menu)
    (hf : ∀ row, (f row).menuId = row.menuId)
    (hlive : ∀ row, (f row).deletedAt = row.deletedAt) :
    ((t.map fun row => if row.menuId = id then f row else row).find? fun row =>
        row.menuId == id && row.deletedAt.isNone) =
      (t.find? fun row => row.menuId == id && row.deletedAt.isNone).map f := by
  induction t with
  | nil => rfl
  | cons row t ih =>
      rw [List.map_cons, List.find?_cons, List.find?_cons, ih]
      by_cases hid : row.menuId = id
      · cases hd : row.deletedAt <;> simp [hid, hf, hlive, hd]
      · have hne : (row.menuId == id) = false := beq_false_of_ne hid
        simp [hid, hne]

/-- A move. -/
theorem parentOf_move {id : Int} {name : Option String} {parent : Option (Option Int)} :
    parentOf (apply t (.update id name parent none)) =
      Function.update (parentOf t) id ((parentOf t id).map parent.getD) := by
  funext k
  rw [parentOf, apply]
  by_cases hk : k = id
  · subst hk
    rw [Function.update_self, find_update_self (Menu.set · name parent none) (fun _ => rfl)
      fun _ => rfl, parentOf,
      Option.map_map, Option.map_map]
    rfl
  · rw [Function.update_of_ne hk,
      find_update_ne hk (Menu.set · name parent none) fun _ => rfl, parentOf]

/-- A deletion. -/
theorem parentOf_delete {id : Int} {name : Option String} {parent : Option (Option Int)}
    {time : Nat} :
    parentOf (apply t (.update id name parent (some time))) =
      Function.update (parentOf t) id none := by
  funext k
  rw [parentOf, apply]
  by_cases hk : k = id
  · subst hk
    rw [Function.update_self, Option.map_eq_none_iff, List.find?_eq_none]
    intro row hrow
    obtain ⟨row', _, rfl⟩ := List.mem_map.mp hrow
    by_cases hid : row'.menuId = k <;> simp [hid, Menu.set]
  · rw [Function.update_of_ne hk,
      find_update_ne hk (Menu.set · name parent (some time)) fun _ => rfl, parentOf]

/-! ## Writes that keep the tree -/

/-- What a write asks of the table so that the menus stay a forest.  A row that has
been deleted is of no consequence. -/
def Fits (t : List Menu) : Write → Prop
  | .insert menu => ∀ p, menu.menuParentId = some p → (parentOf t).Live p
  | .update id _ parent none => (parentOf t).Live id → ∀ p, parent = some (some p) →
      (parentOf t).Live p ∧ ¬ ReflTransGen (parentOf t).Up p id
  | .update id _ _ (some _) => ∀ c, ¬ (parentOf t).Up c id

/-- A new row is not deleted and has a new number. -/
def Write.Fresh (t : List Menu) : Write → Prop
  | .insert menu => menu.deletedAt = none ∧ ∀ row ∈ t, row.menuId ≠ menu.menuId
  | .update _ _ _ _ => True

/-- Exactly the fitting writes keep the menus a forest. -/
theorem forest_apply {w : Write} (h : (parentOf t).Forest) (hw : w.Fresh t) :
    (parentOf (apply t w)).Forest ↔ Fits t w := by
  cases w with
  | insert menu =>
      obtain ⟨hlive, hfresh⟩ := hw
      rw [parentOf_insert hlive hfresh, Parents.forest_attach h]
      refine forall_congr' fun p => imp_congr_right fun _ => and_iff_left_of_imp ?_
      -- a row that is not there lies above nobody
      intro hp hreach
      obtain ⟨row, hrow, _, hid⟩ := parentOf_isSome.mp (h.live_above hp hreach)
      exact hfresh row hrow hid
  | update id name parent deletedAt =>
      cases deletedAt with
      | some time => rw [parentOf_delete, Parents.forest_detach h, Fits]
      | none =>
          rw [parentOf_move, Fits]
          cases hid : parentOf t id with
          | none =>
              have hdead : ¬ (parentOf t).Live id := by simp [Parents.Live, hid]
              have hsame : Function.update (parentOf t) id (Option.map parent.getD none) =
                  parentOf t := by
                rw [Option.map_none, ← hid, Function.update_eq_self]
              rw [hsame]
              exact iff_of_true h fun hlive => absurd hlive hdead
          | some q =>
              have hlive : (parentOf t).Live id := by simp [Parents.Live, hid]
              rw [Option.map_some]
              cases parent with
              | none =>
                  rw [Option.getD_none, ← hid, Function.update_eq_self]
                  exact iff_of_true h (by simp)
              | some q' =>
                  rw [Option.getD_some, Parents.forest_attach h]
                  simp [hlive]

/-- What a write asks of the table so that names below one parent stay distinct. -/
def Named (coll : Collation) (t : List Menu) : Write → Prop
  | .insert menu => ∀ row ∈ t, row.deletedAt = none →
      row.menuParentId = menu.menuParentId → coll.same row.menuName menu.menuName = false
  | .update id name parent none => ∀ row ∈ t, row.menuId = id → row.deletedAt = none →
      ∀ row' ∈ t, row'.menuId ≠ id → row'.deletedAt = none →
        row'.menuParentId = parent.getD row.menuParentId →
        coll.same row'.menuName (name.getD row.menuName) = false
  | .update _ _ _ (some _) => True

/-- Exactly the well-named writes keep siblings apart. -/
theorem siblings_apply {coll : Collation} {w : Write} (h : Siblings coll t)
    (hw : w.Fresh t) : Siblings coll (apply t w) ↔ Named coll t w := by
  cases w with
  | insert menu =>
      obtain ⟨hlive, hfresh⟩ := hw
      constructor
      · intro hs row hrow hr hp
        by_contra hsame
        exact hfresh row hrow (hs row (List.mem_append_left _ hrow) menu (by simp [apply])
          hr hlive hp (by simpa using hsame))
      · intro hn row hrow row' hrow' hr hr' hp hsame
        rcases List.mem_append.mp hrow with hold | hnew <;>
          rcases List.mem_append.mp hrow' with hold' | hnew'
        · exact h row hold row' hold' hr hr' hp hsame
        · obtain rfl := List.mem_singleton.mp hnew'
          rw [hn row hold hr hp] at hsame
          cases hsame
        · obtain rfl := List.mem_singleton.mp hnew
          rw [coll.same_comm, hn row' hold' hr' hp.symm] at hsame
          cases hsame
        · rw [List.mem_singleton.mp hnew, List.mem_singleton.mp hnew']
  | update id name parent deletedAt =>
      cases deletedAt with
      | some time =>
          refine iff_of_true ?_ trivial
          intro row hrow row' hrow' hr hr' hp hsame
          obtain ⟨x, hx, rfl⟩ := List.mem_map.mp hrow
          obtain ⟨x', hx', rfl⟩ := List.mem_map.mp hrow'
          by_cases hid : x.menuId = id
          · simp [hid, Menu.set] at hr
          by_cases hid' : x'.menuId = id
          · simp [hid', Menu.set] at hr'
          rw [if_neg hid, if_neg hid'] at *
          exact h x hx x' hx' hr hr' hp hsame
      | none =>
          constructor
          · intro hs row hrow hid hr row' hrow' hid' hr' hp
            by_contra hsame
            have hmem : row.set name parent none ∈ apply t (.update id name parent none) :=
              List.mem_map.mpr ⟨row, hrow, if_pos hid⟩
            have hmem' : row' ∈ apply t (.update id name parent none) :=
              List.mem_map.mpr ⟨row', hrow', if_neg hid'⟩
            exact hid' ((hs row' hmem' _ hmem hr' hr hp
              (by simpa [Menu.set] using hsame)).trans hid)
          · intro hn row hrow row' hrow' hr hr' hp hsame
            obtain ⟨x, hx, rfl⟩ := List.mem_map.mp hrow
            obtain ⟨x', hx', rfl⟩ := List.mem_map.mp hrow'
            by_cases hid : x.menuId = id <;> by_cases hid' : x'.menuId = id
            · rw [if_pos hid, if_pos hid']
              exact hid.trans hid'.symm
            · rw [if_pos hid, if_neg hid'] at *
              have hfree := hn x hx hid hr x' hx' hid' hr' hp.symm
              rw [coll.same_comm] at hsame
              exact absurd hsame (by simpa [Menu.set] using hfree)
            · rw [if_neg hid, if_pos hid'] at *
              have hfree := hn x' hx' hid' hr' x hx hid hr hp
              exact absurd hsame (by simpa [Menu.set] using hfree)
            · rw [if_neg hid, if_neg hid'] at *
              exact h x hx x' hx' hr hr' hp hsame

/-- The unique key has a NULL in it where the written row is not deleted, so it never
rejects such a row, whatever its siblings are. -/
theorem admits_live {coll : Collation} {w : Write}
    (h : ∀ row ∈ apply t w, row.menuId = w.menuId → row.deletedAt = none) :
    Admits coll t w := by
  rintro row hrow hid row' _ ⟨_, _, _, hdeleted, _⟩
  rw [h row hrow hid] at hdeleted
  cases hdeleted

/-- The numbers in the table after a write. -/
theorem menuId_apply {w : Write} {row : Menu} (h : row ∈ apply t w) :
    (∃ row' ∈ t, row'.menuId = row.menuId) ∨ ∃ menu, w = .insert menu ∧ row = menu := by
  cases w with
  | insert menu =>
      rcases List.mem_append.mp h with hold | hnew
      · exact Or.inl ⟨row, hold, rfl⟩
      · exact Or.inr ⟨menu, rfl, List.mem_singleton.mp hnew⟩
  | update id name parent deletedAt =>
      obtain ⟨row', hrow', rfl⟩ := List.mem_map.mp h
      refine Or.inl ⟨row', hrow', ?_⟩
      by_cases hid : row'.menuId = id <;> simp [hid, Menu.set]

/-- Writes keep the primary key. -/
theorem Keyed.apply {w : Write} (h : Keyed t nextMenuId) (hw : w.Fresh t)
    (hid : ∀ menu, w = .insert menu → menu.menuId < nextMenuId) :
    Keyed (apply t w) nextMenuId := by
  refine ⟨?_, fun row hrow => ?_⟩
  · cases w with
    | insert menu =>
        rw [Menus.apply, List.map_append, List.nodup_append]
        refine ⟨h.nodup, by simp, ?_⟩
        intro a ha b hb
        obtain ⟨row, hrow, rfl⟩ := List.mem_map.mp ha
        obtain rfl := List.mem_singleton.mp hb
        exact hw.2 row hrow
    | update id name parent deletedAt =>
        have hids : (Menus.apply t (.update id name parent deletedAt)).map Menu.menuId =
            t.map Menu.menuId := by
          rw [Menus.apply, List.map_map]
          refine List.map_congr_left fun row _ => ?_
          by_cases hrow : row.menuId = id <;> simp [hrow, Menu.set]
        rw [hids]
        exact h.nodup
  · rcases menuId_apply hrow with ⟨row', hrow', heq⟩ | ⟨menu, rfl, rfl⟩
    · rw [← heq]
      exact h.below row' hrow'
    · exact hid row rfl

end Writes

end GreenCommunity.Menus
