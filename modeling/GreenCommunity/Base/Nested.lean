import Mathlib.Data.List.Basic

/-!
# Nested lists

Items in groups, the groups nested to any depth and possibly empty.  The leaves from
left to right are their items without the groups.  A path of indices leads to each:
the positions list every leaf under its path, once and in the order of the paths, so
the order of `leaves` is that of the tree and not of the recursion that computes it.
-/

namespace GreenCommunity.Base

inductive Nested (α : Type) where
  | item (a : α)
  | group (members : List (Nested α))

namespace Nested

variable {α : Type}

/-! ## Leaves and size -/

mutual

def leaves : Nested α → List α
  | .item a => [a]
  | .group members => leavesOf members

def leavesOf : List (Nested α) → List α
  | [] => []
  | x :: xs => x.leaves ++ leavesOf xs

end

@[simp] theorem leaves_item (a : α) : (item a).leaves = [a] := by rw [leaves]

@[simp] theorem leaves_group (members : List (Nested α)) :
    (group members).leaves = leavesOf members := by rw [leaves]

@[simp] theorem leavesOf_nil : leavesOf ([] : List (Nested α)) = [] := by rw [leavesOf]

@[simp] theorem leavesOf_cons (x : Nested α) (xs : List (Nested α)) :
    leavesOf (x :: xs) = x.leaves ++ leavesOf xs := by rw [leavesOf]

@[simp] theorem leavesOf_append (xs ys : List (Nested α)) :
    leavesOf (xs ++ ys) = leavesOf xs ++ leavesOf ys := by
  induction xs with
  | nil => simp
  | cons x xs ih => simp [ih]

mutual

/-- How many nodes there are, groups and items. -/
def size : Nested α → Nat
  | .item _ => 1
  | .group members => sizeOfAll members + 1

def sizeOfAll : List (Nested α) → Nat
  | [] => 0
  | x :: xs => x.size + sizeOfAll xs

end

@[simp] theorem size_item (a : α) : (item a).size = 1 := by rw [size]

@[simp] theorem size_group (members : List (Nested α)) :
    (group members).size = sizeOfAll members + 1 := by rw [size]

@[simp] theorem sizeOfAll_nil : sizeOfAll ([] : List (Nested α)) = 0 := by rw [sizeOfAll]

@[simp] theorem sizeOfAll_cons (x : Nested α) (xs : List (Nested α)) :
    sizeOfAll (x :: xs) = x.size + sizeOfAll xs := by rw [sizeOfAll]

@[simp] theorem sizeOfAll_append (xs ys : List (Nested α)) :
    sizeOfAll (xs ++ ys) = sizeOfAll xs + sizeOfAll ys := by
  induction xs with
  | nil => simp
  | cons x xs ih => simp [ih, Nat.add_assoc]

/-! ## Positions -/

/-- The item a path of indices leads to. -/
def leafAt : Nested α → List Nat → Option α
  | .item a, [] => some a
  | .group members, i :: path => members[i]?.bind fun x => x.leafAt path
  | _, _ => none

mutual

def positions : Nested α → List (List Nat × α)
  | .item a => [([], a)]
  | .group members => positionsFrom 0 members

/-- The positions of a group's members, of which the first has the index `i`. -/
def positionsFrom (i : Nat) : List (Nested α) → List (List Nat × α)
  | [] => []
  | x :: xs => x.positions.map (fun p => (i :: p.1, p.2)) ++ positionsFrom (i + 1) xs

end

theorem mem_positionsFrom {i : Nat} {xs : List (Nested α)} {p : List Nat × α} :
    p ∈ positionsFrom i xs ↔
      ∃ j x q, xs[j]? = some x ∧ q ∈ x.positions ∧ p = ((i + j) :: q.1, q.2) := by
  induction xs generalizing i with
  | nil => simp [positionsFrom]
  | cons x xs ih =>
      rw [positionsFrom, List.mem_append, List.mem_map, ih]
      constructor
      · rintro (⟨q, hq, rfl⟩ | ⟨j, y, q, hy, hq, rfl⟩)
        · exact ⟨0, x, q, rfl, hq, rfl⟩
        · exact ⟨j + 1, y, q, hy, hq, by rw [Nat.add_assoc, Nat.add_comm 1 j]⟩
      · rintro ⟨j, y, q, hy, hq, rfl⟩
        cases j with
        | zero =>
            obtain rfl : x = y := Option.some.inj hy
            exact Or.inl ⟨q, hq, rfl⟩
        | succ j =>
            exact Or.inr ⟨j, y, q, hy, hq, by rw [Nat.add_assoc, Nat.add_comm 1 j]⟩

/-- The positions are those of the tree. Induction on the path. -/
theorem mem_positions {x : Nested α} {path : List Nat} {a : α} :
    (path, a) ∈ x.positions ↔ x.leafAt path = some a := by
  induction path generalizing x with
  | nil =>
      cases x with
      | item b => simp [positions, leafAt, eq_comm]
      | group members => simp [positions, leafAt, mem_positionsFrom]
  | cons i path ih =>
      cases x with
      | item b => simp [positions, leafAt]
      | group members =>
          rw [positions, leafAt, mem_positionsFrom, Option.bind_eq_some_iff]
          constructor
          · rintro ⟨j, y, q, hy, hq, hp⟩
            obtain ⟨⟨rfl, rfl⟩, rfl⟩ : (i = 0 + j ∧ path = q.1) ∧ a = q.2 := by simpa using hp
            rw [Nat.zero_add]
            exact ⟨y, hy, ih.mp hq⟩
          · rintro ⟨y, hy, hleaf⟩
            exact ⟨i, y, (path, a), hy, ih.mpr hleaf, by rw [Nat.zero_add]⟩

mutual

theorem map_positions (x : Nested α) : x.positions.map Prod.snd = x.leaves := by
  cases x with
  | item a => rw [positions, leaves_item, List.map_singleton]
  | group members =>
      rw [positions, leaves_group]
      exact map_positionsFrom 0 members

theorem map_positionsFrom (i : Nat) (xs : List (Nested α)) :
    (positionsFrom i xs).map Prod.snd = leavesOf xs := by
  cases xs with
  | nil => rw [positionsFrom, leavesOf_nil, List.map_nil]
  | cons x xs =>
      rw [positionsFrom, leavesOf_cons, List.map_append, List.map_map,
        map_positionsFrom (i + 1) xs]
      exact congrArg (· ++ leavesOf xs) (map_positions x)

end

mutual

theorem positions_sorted (x : Nested α) : x.positions.Pairwise fun p q => p.1 < q.1 := by
  cases x with
  | item a => exact (positions.eq_1 a) ▸ List.pairwise_singleton _ _
  | group members =>
      rw [positions]
      exact positionsFrom_sorted 0 members

/-- Two positions in one member compare as they do there; across members the
indices decide. -/
theorem positionsFrom_sorted (i : Nat) (xs : List (Nested α)) :
    (positionsFrom i xs).Pairwise fun p q => p.1 < q.1 := by
  cases xs with
  | nil => exact (positionsFrom.eq_1 (α := α) i) ▸ List.Pairwise.nil
  | cons x xs =>
      rw [positionsFrom, List.pairwise_append, List.pairwise_map]
      refine ⟨?_, positionsFrom_sorted (i + 1) xs, ?_⟩
      · exact (positions_sorted x).imp fun hlt => List.Lex.cons hlt
      · intro p hp q hq
        obtain ⟨p', _, rfl⟩ := List.mem_map.mp hp
        obtain ⟨j, y, q', _, _, rfl⟩ := mem_positionsFrom.mp hq
        exact List.Lex.rel (by omega)

end

end Nested

end GreenCommunity.Base
