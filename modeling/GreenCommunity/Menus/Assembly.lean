import GreenCommunity.Base.Unfold
import GreenCommunity.Menus.Repository
import GreenCommunity.Menus.Tree

/-!
# The menu tree of a response

`MenuService.get_tree` reads the menus with one query and puts the tree together in
memory: every menu becomes an object of its own, and one pass hangs each into the list of
its parent.  The objects refer to each other, so what the pass leaves is a graph of
references; a response is the trees that are read out of it.
-/

namespace GreenCommunity.Menus

open GreenCommunity.Base
open GreenCommunity.Base.Prog
open GreenCommunity.Infrastructure (Collation)
open Relation (TransGen)

/-! ## `menu_service.py` -/

structure MenuResponse where
  menuId : Int
  menuName : String
  menuParentId : Option Int
  deriving DecidableEq, Repr

/-- A `MenuTreeResponse` that is still being put together. Its children are objects, and
so they are keys of `nodes` here. -/
structure MenuNode where
  menu : MenuResponse
  children : List Int
  deriving DecidableEq, Repr

abbrev Nodes := Int → Option MenuNode

def Menu.response (menu : Menu) : MenuResponse :=
  ⟨menu.menuId, menu.menuName, menu.menuParentId⟩

/-- `MenuTreeResponse.model_validate` -/
def modelValidate (menu : Menu) : MenuNode := ⟨menu.response, []⟩

def enter (nodes : Nodes) (menu : Menu) : Nodes :=
  Function.update nodes menu.menuId (some (modelValidate menu))

structure Assembly where
  nodes : Nodes
  roots : List Int

namespace Assembly

def appendRoot (a : Assembly) (menu : Menu) : Assembly :=
  { a with roots := a.roots ++ [menu.menuId] }

/-- One round of the second loop. -/
def place (a : Assembly) (menu : Menu) : Assembly :=
  match menu.menuParentId with
  | none => a.appendRoot menu
  | some parentId =>
      match a.nodes parentId with
      | none => a.appendRoot menu
      | some parent =>
          let children := parent.children ++ [menu.menuId]
          { a with nodes := Function.update a.nodes parentId (some { parent with children }) }

def look (a : Assembly) (menuId : Int) : Option (MenuResponse × List Int) :=
  (a.nodes menuId).map fun node => (node.menu, node.children)

/-- The trees that the roots lead to, down to the given depth. -/
def forest (a : Assembly) (depth : Nat) : Option (List (RoseTree MenuResponse)) :=
  a.roots.mapM (RoseTree.unfold a.look depth)

end Assembly

def assemble (menus : List Menu) : Assembly :=
  menus.foldl Assembly.place ⟨menus.foldl enter fun _ => none, []⟩

def getTree : MenusM Assembly := do
  let menus ← listAll
  return assemble menus

/-! ## What the loops make of the menus -/

section Loops

variable {menus : List Menu} {k : Int}

/-- The menu with a number. -/
def lookup (menus : List Menu) (k : Int) : Option Menu :=
  menus.find? fun menu => menu.menuId == k

/-- The numbers of the menus below a number, as far as they are in `done`. -/
def childIds (done : List Menu) (k : Int) : List Int :=
  (done.filter fun menu => menu.menuParentId == some k).map Menu.menuId

/-- A menu without a parent, or whose parent is not there. -/
def isRoot (menus : List Menu) (menu : Menu) : Bool :=
  menu.menuParentId.all fun p => (lookup menus p).isNone

theorem lookup_of_mem (hnodup : (menus.map Menu.menuId).Nodup) {menu : Menu}
    (h : menu ∈ menus) : lookup menus menu.menuId = some menu := by
  rw [lookup]
  cases hfound : menus.find? fun other => other.menuId == menu.menuId with
  | none => exact absurd (List.find?_eq_none.mp hfound menu h) (by simp)
  | some other =>
      have hid := List.find?_some hfound
      exact congrArg some (List.inj_on_of_nodup_map hnodup (List.mem_of_find?_eq_some hfound) h
        (by simpa using hid))

theorem lookup_eq_some {menu : Menu} (h : lookup menus k = some menu) :
    menu ∈ menus ∧ menu.menuId = k :=
  ⟨List.mem_of_find?_eq_some h, by simpa using List.find?_some h⟩

theorem lookup_eq_none : lookup menus k = none ↔ k ∉ menus.map Menu.menuId := by
  simp [lookup]

/-- The dictionary of the first step. -/
theorem foldl_enter (hnodup : (menus.map Menu.menuId).Nodup) (nodes : Nodes) :
    menus.foldl enter nodes k = ((lookup menus k).map modelValidate).or (nodes k) := by
  induction menus generalizing nodes with
  | nil => simp [lookup]
  | cons menu menus ih =>
      rw [List.map_cons, List.nodup_cons] at hnodup
      rw [List.foldl_cons, ih hnodup.2]
      by_cases hk : menu.menuId = k
      · have hnone : lookup menus k = none := lookup_eq_none.mpr (hk ▸ hnodup.1)
        rw [hnone]
        simp [lookup, enter, hk]
      · simp [lookup, enter, hk, Ne.symm hk]

/-- The objects and the roots after a part of the second loop. -/
structure Placed (menus done : List Menu) (a : Assembly) : Prop where
  nodes : ∀ k, a.nodes k =
    (lookup menus k).map fun menu => ⟨menu.response, childIds done k⟩
  roots : a.roots = (done.filter (isRoot menus)).map Menu.menuId

theorem Placed.root {done : List Menu} {a : Assembly} (h : Placed menus done a) {menu : Menu}
    (hroot : isRoot menus menu = true) (hchild : ∀ p, menu.menuParentId = some p →
      lookup menus p = none) : Placed menus (done ++ [menu]) (a.appendRoot menu) where
  nodes k := by
    rw [Assembly.appendRoot, h.nodes]
    cases hk : lookup menus k with
    | none => rfl
    | some other =>
        have hne : menu.menuParentId ≠ some k := fun heq => by simp [hchild k heq] at hk
        simp [childIds, hne]
  roots := by simp [Assembly.appendRoot, h.roots, hroot]

theorem Placed.place {done : List Menu} {a : Assembly} (h : Placed menus done a)
    (menu : Menu) : Placed menus (done ++ [menu]) (a.place menu) := by
  unfold Assembly.place
  cases hp : menu.menuParentId with
  | none => exact h.root (by simp [isRoot, hp]) (by simp [hp])
  | some p =>
      cases hl : lookup menus p with
      | none =>
          have hnone : a.nodes p = none := by rw [h.nodes, hl]; rfl
          simp only [hnone]
          refine h.root (by simp [isRoot, hp, hl]) fun q hq => ?_
          rw [← Option.some.inj (hp.symm.trans hq), hl]
      | some parent =>
          have hsome : a.nodes p = some ⟨parent.response, childIds done p⟩ := by
            rw [h.nodes, hl]; rfl
          simp only [hsome]
          refine ⟨fun k => ?_, ?_⟩
          · by_cases hk : k = p
            · subst hk
              simp [hl, childIds, hp]
            · show Function.update a.nodes p _ k = _
              rw [Function.update_of_ne hk, h.nodes]
              simp [childIds, hp, Ne.symm hk]
          · simp [h.roots, isRoot, hp, hl]

theorem Placed.foldl {done : List Menu} {a : Assembly} (h : Placed menus done a)
    (rest : List Menu) : Placed menus (done ++ rest) (rest.foldl Assembly.place a) := by
  induction rest generalizing done a with
  | nil => simpa using h
  | cons menu rest ih => simpa using ih (h.place menu)

theorem placed_assemble (hnodup : (menus.map Menu.menuId).Nodup) :
    Placed menus menus (assemble menus) := by
  have hstart : Placed menus [] ⟨menus.foldl enter fun _ => none, []⟩ := by
    refine ⟨fun k => ?_, rfl⟩
    show menus.foldl enter _ k = _
    rw [foldl_enter hnodup, Option.or_none]
    rfl
  exact hstart.foldl menus

end Loops

/-! ## The forest -/

section Forest

variable {menus : List Menu} {k : Int}

/-- The label of a number. -/
def label (menus : List Menu) (k : Int) : Option MenuResponse :=
  (lookup menus k).map Menu.response

theorem look_assemble (hnodup : (menus.map Menu.menuId).Nodup) (k : Int) :
    (assemble menus).look k =
      (lookup menus k).map fun menu => (menu.response, childIds menus k) := by
  rw [Assembly.look, (placed_assemble hnodup).nodes]
  cases lookup menus k <;> rfl

theorem look_eq_some (hnodup : (menus.map Menu.menuId).Nodup) {m : MenuResponse}
    {ks : List Int} (h : (assemble menus).look k = some (m, ks)) :
    label menus k = some m ∧ m.menuId = k ∧ childIds menus k = ks ∧
      k ∈ menus.map Menu.menuId := by
  rw [look_assemble hnodup, Option.map_eq_some_iff] at h
  obtain ⟨menu, hmenu, heq⟩ := h
  cases heq
  obtain ⟨hmem, hid⟩ := lookup_eq_some hmenu
  exact ⟨by rw [label, hmenu]; rfl, hid, rfl, hid ▸ List.mem_map_of_mem hmem⟩

theorem mem_childIds {p : Int} : p ∈ childIds menus k ↔
    ∃ menu ∈ menus, menu.menuParentId = some k ∧ menu.menuId = p := by
  simp [childIds, and_assoc]

/-- The parent of a menu in the list. -/
def Below (menus : List Menu) (k p : Int) : Prop :=
  ∃ menu ∈ menus, menu.menuId = k ∧ menu.menuParentId = some p

/-- Without a cycle all menus are read. -/
theorem forest_isSome (hnodup : (menus.map Menu.menuId).Nodup)
    (hacyclic : ∀ k, ¬ TransGen (Below menus) k k) :
    ∃ forest, (assemble menus).forest (menus.length + 1) = some forest := by
  have hdown : ∀ k,
      ¬ TransGen (fun k p => k ∈ menus.map Menu.menuId ∧ Below menus p k) k k := by
    intro k h
    have hswap : TransGen (Function.swap (Below menus)) k k :=
      TransGen.mono (fun _ _ hab => hab.2) k k h
    exact hacyclic k (TransGen.swap k k hswap)
  have hlength : menus.length = (menus.map Menu.menuId).length := by simp
  refine mapM_isSome fun k hk => ?_
  rw [hlength]
  refine RoseTree.unfold_isSome hdown (fun k p h => h.1) (fun k hk => ?_) ?_
  · obtain ⟨menu, hmenu, rfl⟩ := List.mem_map.mp hk
    refine ⟨menu.response, childIds menus menu.menuId, ?_, fun p hp => ?_⟩
    · rw [look_assemble hnodup, lookup_of_mem hnodup hmenu]
      rfl
    · obtain ⟨child, hchild, hparent, rfl⟩ := mem_childIds.mp hp
      exact ⟨⟨hk, child, hchild, rfl, hparent⟩, List.mem_map_of_mem hchild⟩
  · rw [(placed_assemble hnodup).roots] at hk
    obtain ⟨menu, hmenu, rfl⟩ := List.mem_map.mp hk
    exact List.mem_map_of_mem (List.mem_of_mem_filter hmenu)

variable {forest : List (RoseTree MenuResponse)}

/-- The nodes carry the labels of their numbers. -/
theorem label_of_node (hnodup : (menus.map Menu.menuId).Nodup) {depth : Nat}
    (h : (assemble menus).forest depth = some forest) {u : RoseTree MenuResponse}
    (hu : u ∈ RoseTree.nodesOf forest) :
    label menus u.root.menuId = some u.root ∧ u.root.menuId ∈ menus.map Menu.menuId ∧
      ∃ depth', (childIds menus u.root.menuId).mapM
        (RoseTree.unfold (assemble menus).look depth') = some u.children := by
  obtain ⟨t, ht, hu⟩ := RoseTree.mem_nodesOf.mp hu
  obtain ⟨k, hk⟩ := mem_of_mapM h ht
  obtain ⟨k', ks, depth', hlook, hchildren⟩ := RoseTree.nodes_unfold hk hu
  obtain ⟨hlabel, rfl, rfl, hmem⟩ := look_eq_some hnodup hlook
  exact ⟨hlabel, hmem, depth', hchildren⟩

/-- How often a menu is a child of the numbers of a list. -/
theorem count_children (hnodup : (menus.map Menu.menuId).Nodup) {menu : Menu}
    (hmenu : menu ∈ menus) (ks : List Int) :
    (ks.flatMap (childIds menus)).count menu.menuId =
      match menu.menuParentId with
      | none => 0
      | some p => ks.count p := by
  have hone : ∀ k, (childIds menus k).count menu.menuId =
      if menu.menuParentId = some k then 1 else 0 := by
    intro k
    have hnodup' : (childIds menus k).Nodup :=
      hnodup.sublist ((List.filter_sublist).map _)
    split
    next hparent =>
      exact List.count_eq_one_of_mem hnodup' (mem_childIds.mpr ⟨menu, hmenu, hparent, rfl⟩)
    next hparent =>
      refine List.count_eq_zero.mpr fun hmem => hparent ?_
      obtain ⟨other, hother, hk, hid⟩ := mem_childIds.mp hmem
      rwa [← List.inj_on_of_nodup_map hnodup hother hmenu hid]
  induction ks with
  | nil => cases menu.menuParentId <;> rfl
  | cons k ks ih =>
      rw [List.flatMap_cons, List.count_append, ih, hone]
      cases menu.menuParentId with
      | none => simp
      | some p =>
          show (if some p = some k then 1 else 0) + ks.count p = (k :: ks).count p
          rw [List.count_cons]
          simp only [Option.some.injEq, beq_iff_eq, eq_comm (a := p)]
          omega

/-- Every number occurs once. -/
theorem keysOf_perm (hnodup : (menus.map Menu.menuId).Nodup)
    (hacyclic : ∀ k, ¬ TransGen (Below menus) k k) {depth : Nat}
    (h : (assemble menus).forest depth = some forest) :
    (RoseTree.keysOf MenuResponse.menuId forest).Perm (menus.map Menu.menuId) := by
  have hperm : (RoseTree.keysOf MenuResponse.menuId forest).Perm
      ((menus.filter (isRoot menus)).map Menu.menuId ++
        (RoseTree.keysOf MenuResponse.menuId forest).flatMap (childIds menus)) := by
    rw [← (placed_assemble hnodup).roots]
    refine RoseTree.keys_perm (fun k m ks hlook => ?_) h
    obtain ⟨_, hid, hks, _⟩ := look_eq_some hnodup hlook
    exact ⟨hid, hks⟩
  have hsub : ∀ k ∈ RoseTree.keysOf MenuResponse.menuId forest, k ∈ menus.map Menu.menuId := by
    intro k hk
    obtain ⟨u, hu, rfl⟩ := List.mem_map.mp hk
    exact (label_of_node hnodup h hu).2.1
  have hone : ∀ k ∈ menus.map Menu.menuId,
      (RoseTree.keysOf MenuResponse.menuId forest).count k = 1 := by
    intro k
    have hsource : ∀ k p, Below menus k p → k ∈ menus.map Menu.menuId := by
      rintro _ p ⟨menu, hmenu, rfl, _⟩
      exact List.mem_map_of_mem hmenu
    refine acyclic_induction (P := fun _ k =>
      k ∈ menus.map Menu.menuId → (RoseTree.keysOf MenuResponse.menuId forest).count k = 1)
      hacyclic hsource (fun _ k ih hk => ?_) k
    obtain ⟨menu, hmenu, rfl⟩ := List.mem_map.mp hk
    have hroots : ((menus.filter (isRoot menus)).map Menu.menuId).count menu.menuId =
        if isRoot menus menu then 1 else 0 := by
      have hnodup' : ((menus.filter (isRoot menus)).map Menu.menuId).Nodup :=
        hnodup.sublist (List.filter_sublist.map _)
      split
      next hroot =>
        exact List.count_eq_one_of_mem hnodup'
          (List.mem_map_of_mem (List.mem_filter.mpr ⟨hmenu, hroot⟩))
      next hroot =>
        refine List.count_eq_zero.mpr fun hmem => hroot ?_
        obtain ⟨other, hother, hid⟩ := List.mem_map.mp hmem
        obtain ⟨hother, hroot'⟩ := List.mem_filter.mp hother
        rwa [← List.inj_on_of_nodup_map hnodup hother hmenu hid]
    have hcount := hperm.count_eq menu.menuId
    rw [List.count_append, hroots, count_children hnodup hmenu] at hcount
    cases hparent : menu.menuParentId with
    | none => simpa [hparent, isRoot] using hcount
    | some p =>
        cases hl : lookup menus p with
        | none =>
            -- the parent is not there, and so no node has its number
            have hzero : (RoseTree.keysOf MenuResponse.menuId forest).count p = 0 :=
              List.count_eq_zero.mpr fun hmem => lookup_eq_none.mp hl (hsub p hmem)
            simpa [hparent, isRoot, hl, hzero] using hcount
        | some parent =>
            obtain ⟨hmem, hid⟩ := lookup_eq_some hl
            have hparent' := ih p ⟨menu, hmenu, rfl, hparent⟩
              (hid ▸ List.mem_map_of_mem hmem)
            simpa [hparent, isRoot, hl, hparent'] using hcount
  rw [List.perm_iff_count]
  intro k
  by_cases hk : k ∈ menus.map Menu.menuId
  · rw [hone k hk, List.count_eq_one_of_mem hnodup hk]
  · rw [List.count_eq_zero.mpr hk, List.count_eq_zero.mpr fun hmem => hk (hsub k hmem)]

/-- The labels of numbers. -/
theorem map_label (hnodup : (menus.map Menu.menuId).Nodup) {done : List Menu}
    (hdone : ∀ menu ∈ done, menu ∈ menus) :
    (done.map Menu.menuId).map (label menus) = (done.map Menu.response).map some := by
  rw [List.map_map, List.map_map]
  refine List.map_congr_left fun menu hmenu => ?_
  simp [label, lookup_of_mem hnodup (hdone menu hmenu)]

/-- The roots of the trees of references are the labels of these. -/
theorem map_root (hnodup : (menus.map Menu.menuId).Nodup) {ks : List Int} {depth : Nat}
    {ts : List (RoseTree MenuResponse)}
    (h : ks.mapM (RoseTree.unfold (assemble menus).look depth) = some ts) :
    (ts.map RoseTree.root).map some = ks.map (label menus) := by
  have hforall := mapM_eq_some.mp h
  clear h
  induction hforall with
  | nil => rfl
  | cons hk _ ih =>
      obtain ⟨ks', hlook⟩ := RoseTree.unfold_root hk
      rw [List.map_cons, List.map_cons, List.map_cons, ih,
        (look_eq_some hnodup hlook).1]

end Forest

/-! ## The response -/

/-- A forest that shows the menus: one node for each, below each node the menus whose
parent it is, ascending, and at the top those without a parent in the list. -/
structure ShowsMenus (rows : List Menu) (forest : List (RoseTree MenuResponse)) : Prop where
  nodes : ((RoseTree.nodesOf forest).map RoseTree.root).Perm (rows.map Menu.response)
  children : ∀ u ∈ RoseTree.nodesOf forest, ∀ m, m ∈ u.children.map RoseTree.root ↔
    ∃ row ∈ rows, row.response = m ∧ row.menuParentId = some u.root.menuId
  ascending : ∀ u ∈ RoseTree.nodesOf forest,
    (u.children.map RoseTree.root).Pairwise fun m m' => m.menuId < m'.menuId
  roots : ∀ m, m ∈ forest.map RoseTree.root ↔
    ∃ row ∈ rows, row.response = m ∧
      ∀ p, row.menuParentId = some p → ∀ other ∈ rows, other.menuId ≠ p

theorem ShowsMenus.perm {rows menus : List Menu} {forest : List (RoseTree MenuResponse)}
    (h : ShowsMenus menus forest) (hp : menus.Perm rows) : ShowsMenus rows forest where
  nodes := h.nodes.trans (hp.map _)
  children u hu m := by simpa only [hp.mem_iff] using h.children u hu m
  ascending := h.ascending
  roots m := by simpa only [hp.mem_iff] using h.roots m

section Response

variable {menus : List Menu} {forest : List (RoseTree MenuResponse)}

private theorem some_injective : Function.Injective (some : MenuResponse → Option MenuResponse) :=
  fun _ _ h => Option.some.inj h

/-- The children of a node, in the order of the query. -/
theorem children_eq (hnodup : (menus.map Menu.menuId).Nodup) {depth : Nat}
    (h : (assemble menus).forest depth = some forest) {u : RoseTree MenuResponse}
    (hu : u ∈ RoseTree.nodesOf forest) :
    u.children.map RoseTree.root =
      (menus.filter fun menu => menu.menuParentId == some u.root.menuId).map
        Menu.response := by
  obtain ⟨_, _, depth', hchildren⟩ := label_of_node hnodup h hu
  refine some_injective.list_map ?_
  rw [map_root hnodup hchildren, childIds,
    map_label hnodup fun menu hmenu => List.mem_of_mem_filter hmenu]

theorem roots_eq (hnodup : (menus.map Menu.menuId).Nodup) {depth : Nat}
    (h : (assemble menus).forest depth = some forest) :
    forest.map RoseTree.root = (menus.filter (isRoot menus)).map Menu.response := by
  refine some_injective.list_map ?_
  rw [map_root hnodup h, (placed_assemble hnodup).roots,
    map_label hnodup fun menu hmenu => List.mem_of_mem_filter hmenu]

theorem isRoot_iff {menu : Menu} : isRoot menus menu = true ↔
    ∀ p, menu.menuParentId = some p → ∀ other ∈ menus, other.menuId ≠ p := by
  cases hp : menu.menuParentId <;> simp [isRoot, hp, lookup]

/-- Menus with one parent are sorted by their numbers. -/
theorem before_siblings {row row' : Menu} (h : row.Before row')
    (hparent : row.menuParentId = row'.menuParentId) : row.menuId ≤ row'.menuId := by
  unfold Menu.Before at h
  rw [hparent] at h
  cases hp : row'.menuParentId with
  | none => simpa [hp] using h
  | some p => simpa [hp] using h

theorem shows_assemble (hnodup : (menus.map Menu.menuId).Nodup)
    (hsorted : menus.Pairwise Menu.Before) (hacyclic : ∀ k, ¬ TransGen (Below menus) k k) :
    ∃ forest, (assemble menus).forest (menus.length + 1) = some forest ∧
      ShowsMenus menus forest := by
  obtain ⟨forest, h⟩ := forest_isSome hnodup hacyclic
  refine ⟨forest, h, ?_, fun u hu m => ?_, fun u hu => ?_, fun m => ?_⟩
  · have hlabels : ((RoseTree.nodesOf forest).map RoseTree.root).map some =
        (RoseTree.keysOf MenuResponse.menuId forest).map (label menus) := by
      rw [RoseTree.keysOf, List.map_map, List.map_map]
      exact List.map_congr_left fun u hu => ((label_of_node hnodup h hu).1).symm
    refine (List.map_perm_map_iff some_injective).mp ?_
    rw [hlabels, ← map_label hnodup fun _ hmenu => hmenu]
    exact (keysOf_perm hnodup hacyclic h).map _
  · rw [children_eq hnodup h hu]
    simp only [List.mem_map, List.mem_filter, beq_iff_eq]
    exact exists_congr fun row => by rw [and_assoc, and_comm (a := _ = some _)]
  · rw [children_eq hnodup h hu, List.pairwise_map]
    have hids : menus.Pairwise fun row row' => row.menuId ≠ row'.menuId :=
      List.pairwise_map.mp hnodup
    refine ((hsorted.and hids).filter _).imp_of_mem fun {row row'} hrow hrow' hboth => ?_
    have hparent : row.menuParentId = some u.root.menuId := by
      simpa using (List.mem_filter.mp hrow).2
    have hparent' : row'.menuParentId = some u.root.menuId := by
      simpa using (List.mem_filter.mp hrow').2
    have hle := before_siblings hboth.1 (hparent.trans hparent'.symm)
    have hne := hboth.2
    show row.menuId < row'.menuId
    omega
  · rw [roots_eq hnodup h]
    simp only [List.mem_map, List.mem_filter, isRoot_iff]
    exact exists_congr fun row => by rw [and_assoc, and_comm (b := _ = m)]

end Response

section Requests

variable {C : Type} [DecidableEq C] {coll : Collation} {c : C} {s : State C}

/-- Whenever the menus that are not deleted have no cycle, `get_tree` returns objects
that are read as a forest, and the forest shows the menus. -/
theorem getTree_shows (hnodup : ((activeMenus (s.db.view apply c)).map Menu.menuId).Nodup)
    (hacyclic : ∀ k, ¬ TransGen (Below (activeMenus (s.db.view apply c))) k k) :
    getTree.wp (sem coll) c (fun o s' => match o with
      | .ok a => ∃ forest,
          a.forest ((activeMenus (s.db.view apply c)).length + 1) = some forest ∧
            ShowsMenus (activeMenus (s.db.view apply c)) forest
      | .error e => e = .serviceError ∧ s' = s) s := by
  refine wp_bind.mpr (Infrastructure.wp_perform ?_ ?_)
  · rintro menus s' ⟨⟨hperm, hsorted⟩, rfl⟩
    have hbelow : ∀ k p, Below menus k p → Below (activeMenus (s.db.view apply c)) k p := by
      rintro k p ⟨menu, hmenu, h⟩
      exact ⟨menu, hperm.mem_iff.mp hmenu, h⟩
    obtain ⟨forest, hforest, hshows⟩ := shows_assemble
      ((hperm.map Menu.menuId).nodup_iff.mpr hnodup) hsorted
      fun k h => hacyclic k (TransGen.mono hbelow k k h)
    exact ⟨forest, hperm.length_eq ▸ hforest, hshows.perm hperm⟩
  · rintro e s' ⟨hfail, rfl⟩
    exact ⟨hfail, rfl⟩

end Requests

section Samples

open Infrastructure (binaryCollation)

/-- The menu 2 hangs below 1, which comes after it, and the parent of 4 is not there. -/
def sampleMenus : List Menu :=
  [⟨9, "news", none, none⟩, ⟨2, "talk", some 1, none⟩, ⟨4, "old", some 3, none⟩,
    ⟨1, "code", some 9, none⟩]

def sampleState : State Unit := ⟨⟨sampleMenus, fun _ => .idle⟩, 10⟩

def sampleForest : List (RoseTree MenuResponse) :=
  [.node ⟨9, "news", none⟩ [.node ⟨1, "code", some 9⟩ [.node ⟨2, "talk", some 1⟩ []]],
    .node ⟨4, "old", some 3⟩ []]

/-- How deep the menus of the sample are. -/
private def sampleDepth (k : Int) : Nat :=
  if k = 2 then 3 else if k = 1 ∨ k = 4 then 2 else if k = 9 then 1 else 0

theorem acyclic_sample (k : Int) : ¬ TransGen (Below sampleMenus) k k := by
  have hstep : ∀ a b, Below sampleMenus a b → sampleDepth b < sampleDepth a := by
    rintro a b ⟨menu, hmenu, rfl, hparent⟩
    simp only [sampleMenus, List.mem_cons, List.not_mem_nil, or_false] at hmenu
    rcases hmenu with rfl | rfl | rfl | rfl <;> cases hparent <;> decide
  have hless : ∀ a b, TransGen (Below sampleMenus) a b → sampleDepth b < sampleDepth a := by
    intro a b h
    induction h with
    | single hab => exact hstep _ _ hab
    | tail _ hbc ih => exact Nat.lt_trans (hstep _ _ hbc) ih
  exact fun h => Nat.lt_irrefl _ (hless k k h)

/-- The response for the sample. -/
theorem getTree_shows_sample :
    (assemble sampleMenus).forest 5 = some sampleForest ∧ ShowsMenus sampleMenus sampleForest := by
  have hforest : (assemble sampleMenus).forest 5 = some sampleForest := rfl
  have hwp : getTree.wp (sem binaryCollation) () _ sampleState :=
    getTree_shows (by decide) acyclic_sample
  obtain ⟨forest, hread, hshows⟩ := hwp (.ok sampleMenus) _
    ⟨⟨.refl _, by simp [sampleMenus, Menu.Before]⟩, rfl⟩
  cases hread.symm.trans hforest
  exact ⟨hforest, hshows⟩

end Samples

end GreenCommunity.Menus
