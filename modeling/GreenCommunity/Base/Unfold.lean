import Mathlib.Data.List.Count
import Mathlib.Data.List.Forall2
import Mathlib.Data.List.Nodup
import Mathlib.Data.List.Perm.Basic
import Mathlib.Logic.Relation

/-!
# Trees read out of references

A graph of objects that refer to each other by their keys, read from some of them, is a
list of trees, if the references have no cycle.  `look` yields what a reference leads to:
a label and the references of the object.  `unfold` reads a tree to a given depth.

Every node of the trees other than a root is the child of one node, so the keys that
occur are the roots and the children of those that occur (`keys_perm`).
-/

namespace GreenCommunity.Base

open Relation (TransGen)

/-- Induction along a relation without cycles whose sources are in a list: there is no
way longer than the list.  `path` is the way so far, from its end. -/
private theorem acyclic_path {K : Type} {r : K → K → Prop} {ids : List K}
    (hacyclic : ∀ k, ¬ TransGen r k k) (hids : ∀ k p, r k p → k ∈ ids)
    {P : Nat → K → Prop} (h : ∀ n k, (∀ p, r k p → P n p) → P (n + 1) k) :
    ∀ (n : Nat) (k : K) (path : List K), path.Nodup → path ⊆ ids →
      (∀ a ∈ path, TransGen r a k) → n + path.length = ids.length + 1 → P n k := by
  intro n
  induction n with
  | zero =>
      intro k path hnodup hsub _ hlength
      have hle := (List.subperm_of_subset hnodup hsub).length_le
      omega
  | succ n ih =>
      intro k path hnodup hsub hway hlength
      refine h n k fun p hp => ?_
      have hfresh : k ∉ path := fun hk => hacyclic k (hway k hk)
      refine ih p (k :: path) (List.nodup_cons.mpr ⟨hfresh, hnodup⟩)
        (List.cons_subset.mpr ⟨hids k p hp, hsub⟩) ?_ (by simp; omega)
      intro a ha
      rcases List.mem_cons.mp ha with rfl | ha
      · exact .single hp
      · exact (hway a ha).tail hp

theorem acyclic_induction {K : Type} {r : K → K → Prop} {ids : List K}
    (hacyclic : ∀ k, ¬ TransGen r k k) (hids : ∀ k p, r k p → k ∈ ids)
    {P : Nat → K → Prop} (h : ∀ n k, (∀ p, r k p → P n p) → P (n + 1) k) (k : K) :
    P (ids.length + 1) k :=
  acyclic_path hacyclic hids h _ k [] List.nodup_nil (List.nil_subset _) (by simp) (by simp)

/-- `mapM` succeeds where every call does. -/
theorem mapM_eq_some {A B : Type} {f : A → Option B} {as : List A} {bs : List B} :
    as.mapM f = some bs ↔ List.Forall₂ (fun a b => f a = some b) as bs := by
  induction as generalizing bs with
  | nil =>
      cases bs <;> simp
  | cons a as ih =>
      rw [List.mapM_cons]
      constructor
      · intro h
        obtain ⟨b, hb, h⟩ := Option.bind_eq_some_iff.mp h
        obtain ⟨bs', hbs, h⟩ := Option.bind_eq_some_iff.mp h
        cases h
        exact .cons hb (ih.mp hbs)
      · intro h
        cases h with
        | cons hb hbs =>
            rw [hb, ih.mpr hbs]
            rfl

theorem mapM_isSome {A B : Type} {f : A → Option B} {as : List A}
    (h : ∀ a ∈ as, ∃ b, f a = some b) : ∃ bs, as.mapM f = some bs := by
  induction as with
  | nil => exact ⟨[], rfl⟩
  | cons a as ih =>
      obtain ⟨b, hb⟩ := h a List.mem_cons_self
      obtain ⟨bs, hbs⟩ := ih fun a' ha' => h a' (List.mem_cons_of_mem _ ha')
      exact ⟨b :: bs, by rw [List.mapM_cons, hb, hbs]; rfl⟩

theorem mem_of_mapM {A B : Type} {f : A → Option B} {as : List A} {bs : List B} {b : B}
    (h : as.mapM f = some bs) (hb : b ∈ bs) : ∃ a, f a = some b := by
  have hforall := mapM_eq_some.mp h
  clear h
  induction hforall with
  | nil => cases hb
  | cons ha _ ih =>
      rcases List.mem_cons.mp hb with rfl | hb
      · exact ⟨_, ha⟩
      · exact ih hb

/-! ## Trees -/

inductive RoseTree (A : Type) where
  | node (root : A) (children : List (RoseTree A))

namespace RoseTree

variable {A K : Type}

def root : RoseTree A → A
  | .node a _ => a

def children : RoseTree A → List (RoseTree A)
  | .node _ ts => ts

mutual

/-- The nodes of a tree, each with what hangs below it. -/
def nodes : RoseTree A → List (RoseTree A)
  | .node a ts => .node a ts :: nodesOf ts

def nodesOf : List (RoseTree A) → List (RoseTree A)
  | [] => []
  | t :: ts => t.nodes ++ nodesOf ts

end

/-- What a reference leads to, as a tree of a given depth at most. -/
def unfold (look : K → Option (A × List K)) : Nat → K → Option (RoseTree A)
  | 0, _ => none
  | depth + 1, k =>
      match look k with
      | none => none
      | some (a, ks) => (ks.mapM (unfold look depth)).map (.node a)

variable {look : K → Option (A × List K)} {depth : Nat} {k : K} {ks : List K} {t : RoseTree A}
  {ts : List (RoseTree A)}

theorem unfold_eq_some : unfold look (depth + 1) k = some t ↔
    ∃ a ks ts, look k = some (a, ks) ∧ ks.mapM (unfold look depth) = some ts ∧
      t = .node a ts := by
  rw [unfold]
  cases hk : look k with
  | none => simp
  | some found =>
      obtain ⟨a, ks⟩ := found
      constructor
      · intro h
        obtain ⟨ts, hts, rfl⟩ := Option.map_eq_some_iff.mp h
        exact ⟨a, ks, ts, rfl, hts, rfl⟩
      · rintro ⟨a', ks', ts, heq, hts, rfl⟩
        cases heq
        exact Option.map_eq_some_iff.mpr ⟨ts, hts, rfl⟩

/-- The tree of a reference has the label that it leads to at its root. -/
theorem unfold_root (h : unfold look depth k = some t) :
    ∃ ks, look k = some (t.root, ks) := by
  cases depth with
  | zero => cases h
  | succ depth =>
      obtain ⟨a, ks, ts, hk, _, rfl⟩ := unfold_eq_some.mp h
      exact ⟨ks, hk⟩

/-- A graph without cycles can be read to a depth that is enough for all of it. -/
theorem unfold_isSome {ids : List K} {r : K → K → Prop} (hacyclic : ∀ k, ¬ TransGen r k k)
    (hids : ∀ k p, r k p → k ∈ ids)
    (hlook : ∀ k ∈ ids, ∃ a ks, look k = some (a, ks) ∧ ∀ p ∈ ks, r k p ∧ p ∈ ids)
    (hk : k ∈ ids) : ∃ t, unfold look (ids.length + 1) k = some t := by
  refine acyclic_induction (P := fun depth k => k ∈ ids → ∃ t, unfold look depth k = some t)
    hacyclic hids (fun depth k ih hk => ?_) k hk
  obtain ⟨a, ks, hlooked, hks⟩ := hlook k hk
  obtain ⟨ts, hts⟩ := mapM_isSome fun p hp => ih p (hks p hp).1 (hks p hp).2
  exact ⟨_, unfold_eq_some.mpr ⟨a, ks, ts, hlooked, hts, rfl⟩⟩

theorem mem_nodesOf {u : RoseTree A} : u ∈ nodesOf ts ↔ ∃ t ∈ ts, u ∈ t.nodes := by
  induction ts with
  | nil => simp [nodesOf]
  | cons t ts ih => simp [nodesOf, ih]

/-- A node carries the label of a reference, and its children are the trees of the
references of that. -/
theorem nodes_unfold {u : RoseTree A} (h : unfold look depth k = some t) (hu : u ∈ t.nodes) :
    ∃ k' ks depth', look k' = some (u.root, ks) ∧
      ks.mapM (unfold look depth') = some u.children := by
  induction depth generalizing k t with
  | zero => cases h
  | succ depth ih =>
      obtain ⟨a, ks, ts, hk, hts, rfl⟩ := unfold_eq_some.mp h
      rw [nodes] at hu
      rcases List.mem_cons.mp hu with rfl | hu
      · exact ⟨k, ks, depth, hk, hts⟩
      · obtain ⟨t, ht, hu⟩ := mem_nodesOf.mp hu
        obtain ⟨p, hp⟩ := mem_of_mapM hts ht
        exact ih hp hu

section Keys

variable [DecidableEq K] {key : A → K} {kids : K → List K}

/-- The keys of the nodes. -/
def keysOf (key : A → K) (ts : List (RoseTree A)) : List K := (nodesOf ts).map fun u => key u.root

omit [DecidableEq K] in
theorem keysOf_cons : keysOf key (t :: ts) =
    (t.nodes.map fun u => key u.root) ++ keysOf key ts := by
  simp [keysOf, nodesOf]

/-- The keys that occur are the roots and the children of those that occur. -/
theorem keys_perm (hlook : ∀ k a ks, look k = some (a, ks) → key a = k ∧ kids k = ks)
    (h : ks.mapM (unfold look depth) = some ts) :
    (keysOf key ts).Perm (ks ++ (keysOf key ts).flatMap kids) := by
  induction depth generalizing ks ts with
  | zero =>
      cases mapM_eq_some.mp h with
      | nil => exact .refl _
      | cons hp => cases hp
  | succ depth ih =>
      have hforall := mapM_eq_some.mp h
      clear h
      induction hforall with
      | nil => exact .refl _
      | @cons k t ks ts hp _ ihs =>
          obtain ⟨a, ks', ts', hk, hts', rfl⟩ := unfold_eq_some.mp hp
          obtain ⟨hkey, hkids⟩ := hlook k a ks' hk
          have hbelow := ih hts'
          have hkeys : keysOf key (.node a ts' :: ts) =
              k :: (keysOf key ts' ++ keysOf key ts) := by
            rw [keysOf_cons, nodes, List.map_cons]
            exact congrArg (· :: _) hkey
          rw [hkeys, List.perm_iff_count]
          intro c
          have hcount := hbelow.count_eq c
          have hcounts := ihs.count_eq c
          simp only [List.count_append, List.flatMap_cons, List.flatMap_append,
            List.count_cons, hkids, List.cons_append] at hcount hcounts ⊢
          omega

end Keys

end RoseTree

end GreenCommunity.Base
