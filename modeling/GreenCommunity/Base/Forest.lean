import Mathlib.Logic.Function.Basic
import Mathlib.Logic.Relation

/-!
# Forests of parent pointers

A table whose rows name their parents: `par k` is `none` if there is no row `k`,
`some none` if `k` is a root and `some (some p)` if its parent is `p`.  The table is
a forest if every row reaches a root; that rules out cycles as well as parents that
are not there.

A row is attached, or moved, by pointing it somewhere, and detached by removing it.
For both the exact conditions are given under which a forest stays one.  A table
without cycles may still have parents that are not there; a move keeps it without
cycles under the same condition.
-/

namespace GreenCommunity.Base

open Relation (ReflTransGen TransGen)

abbrev Parents (K : Type) := K → Option (Option K)

namespace Parents

variable {K : Type} (par : Parents K)

/-- There is a row `k`. -/
def Live (k : K) : Prop := (par k).isSome

/-- One step up. -/
def Up (k p : K) : Prop := par k = some (some p)

/-- `k` reaches a root after finitely many steps, all through rows that are there. -/
inductive Rooted : K → Prop where
  | root {k : K} (h : par k = some none) : Rooted k
  | child {k p : K} (h : par.Up k p) (hp : Rooted p) : Rooted k

def Forest : Prop := ∀ k, par.Live k → par.Rooted k

variable {par} {k p c : K}

theorem Up.live (h : par.Up k p) : par.Live k := by
  rw [Live, h]
  rfl

theorem Up.unique {q : K} (h : par.Up k p) (h' : par.Up k q) : p = q := by
  rw [Up, h] at h'
  simpa using h'

theorem Rooted.live (h : par.Rooted k) : par.Live k := by
  cases h with
  | root h =>
      rw [Live, h]
      rfl
  | child h _ => exact h.live

theorem Rooted.parent (h : par.Rooted k) (hk : par.Up k p) : par.Rooted p := by
  cases h with
  | root h =>
      rw [Up, h] at hk
      cases hk
  | child h hp =>
      rw [hk.unique h]
      exact hp

theorem Rooted.above (h : par.Rooted k) (hk : ReflTransGen par.Up k p) :
    par.Rooted p := by
  induction hk with
  | refl => exact h
  | tail _ hstep ih => exact ih.parent hstep

/-- No row that reaches a root lies on a cycle. -/
theorem Rooted.acyclic (h : par.Rooted k) : ¬ TransGen par.Up k k := by
  induction h with
  | root h =>
      intro hcycle
      obtain ⟨p, hp, _⟩ := TransGen.head'_iff.mp hcycle
      rw [Up, h] at hp
      cases hp
  | @child k p h _ ih =>
      intro hcycle
      obtain ⟨q, hq, hback⟩ := TransGen.head'_iff.mp hcycle
      rw [hq.unique h] at hback
      -- the cycle through `k` is one through its parent
      exact ih (TransGen.tail' hback h)

theorem Forest.live_parent (h : par.Forest) (hk : par.Up k p) : par.Live p :=
  ((h k hk.live).parent hk).live

theorem Forest.live_above (h : par.Forest) (hlive : par.Live k)
    (hk : ReflTransGen par.Up k p) : par.Live p :=
  ((h k hlive).above hk).live

section Update

variable [DecidableEq K] {q : Option (Option K)}

theorem up_update_ne (hne : c ≠ k) :
    Up (Function.update par k q) c p ↔ par.Up c p := by
  rw [Up, Up, Function.update_of_ne hne]

theorem up_update_self : Up (Function.update par k q) k p ↔ q = some (some p) := by
  rw [Up, Function.update_self]

theorem live_update_ne (hne : c ≠ k) :
    Live (Function.update par k q) c ↔ par.Live c := by
  rw [Live, Live, Function.update_of_ne hne]

theorem live_update_self : Live (Function.update par k q) k ↔ q.isSome := by
  rw [Live, Function.update_self]

/-- Rows that do not lead to `k` keep their way up when `k` changes. -/
theorem Rooted.update (h : par.Rooted c) (hoff : ¬ ReflTransGen par.Up c k) :
    Rooted (Function.update par k q) c := by
  induction h with
  | @root c h =>
      have hne : c ≠ k := fun heq => hoff (heq ▸ .refl)
      exact .root (by rw [Function.update_of_ne hne, h])
  | @child c p h _ ih =>
      have hne : c ≠ k := fun heq => hoff (heq ▸ .refl)
      exact .child ((up_update_ne hne).mpr h) (ih fun hp => hoff (.head h hp))

/-- A way up to `k` does not depend on what `k` points to. -/
theorem reach_update (h : ReflTransGen par.Up c k) :
    ReflTransGen (Up (Function.update par k q)) c k := by
  induction h using ReflTransGen.head_induction_on with
  | refl => exact .refl
  | @head a b hab _ ih =>
      by_cases hne : a = k
      · rw [hne]
      · exact .head ((up_update_ne hne).mpr hab) ih

/-- Where a new parent is there and does not lie below `k`, and only there, `k` may
be pointed to it.  It does not matter whether `k` was there before. -/
theorem forest_attach {q : Option K} (h : par.Forest) :
    Forest (Function.update par k (some q)) ↔
      ∀ p, q = some p → par.Live p ∧ ¬ ReflTransGen par.Up p k := by
  constructor
  · rintro hforest p rfl
    have hup : Up (Function.update par k (some (some p))) k p := up_update_self.mpr rfl
    have hrooted := hforest k hup.live
    have hoff : ¬ ReflTransGen par.Up p k := fun hp =>
      hrooted.acyclic (TransGen.head' hup (reach_update hp))
    refine ⟨?_, hoff⟩
    have hne : p ≠ k := fun heq => hoff (heq ▸ .refl)
    exact (live_update_ne hne).mp (hrooted.parent hup).live
  · intro hq
    have hk : Rooted (Function.update par k (some q)) k := by
      cases q with
      | none => exact .root (Function.update_self ..)
      | some p =>
          obtain ⟨hlive, hoff⟩ := hq p rfl
          exact .child (up_update_self.mpr rfl) ((h p hlive).update hoff)
    intro c hc
    by_cases hne : c = k
    · rw [hne]
      exact hk
    · have hrooted := h c ((live_update_ne hne).mp hc)
      clear hc hne
      induction hrooted with
      | @root c h =>
          by_cases hne : c = k
          · rw [hne]
            exact hk
          · exact .root (by rw [Function.update_of_ne hne, h])
      | @child c p h _ ih =>
          by_cases hne : c = k
          · rw [hne]
            exact hk
          · exact .child ((up_update_ne hne).mpr h) ih

/-- A row may be removed where nothing points to it, and only there. -/
theorem forest_detach (h : par.Forest) :
    Forest (Function.update par k none) ↔ ∀ c, ¬ par.Up c k := by
  constructor
  · intro hforest c hc
    have hne : c ≠ k := by
      rintro rfl
      exact (h c hc.live).acyclic (.single hc)
    have hup : Up (Function.update par k none) c k := (up_update_ne hne).mpr hc
    have hgone := ((hforest c hup.live).parent hup).live
    rw [live_update_self] at hgone
    cases hgone
  · intro hnone c hc
    have hne : c ≠ k := by
      rintro rfl
      rw [live_update_self] at hc
      cases hc
    refine (h c ((live_update_ne hne).mp hc)).update fun hreach => ?_
    -- the last step up to `k` comes from a row that points to it
    rcases hreach.cases_tail with heq | ⟨b, _, hb⟩
    · exact hne heq.symm
    · exact hnone b hb

end Update

/-! ## Tables without cycles -/

variable (par) in
/-- No row lies above itself. -/
def Acyclic : Prop := ∀ k, ¬ TransGen par.Up k k

/-- From a row with another number, the way up goes through its parent. -/
theorem reach_parent {q : Option K} {m : K} (hk : par k = some q) (hne : k ≠ m) :
    ReflTransGen par.Up k m ↔ ∃ p, q = some p ∧ ReflTransGen par.Up p m := by
  constructor
  · intro hreach
    rcases hreach.cases_head with heq | ⟨p, hup, hrest⟩
    · exact absurd heq hne
    · rw [Up, hk, Option.some.injEq] at hup
      exact ⟨p, hup, hrest⟩
  · rintro ⟨p, rfl, hrest⟩
    exact .head hk hrest

/-- From a row that is not there, nothing else is reached. -/
theorem reach_dead {m : K} (hdead : ¬ par.Live k) (hreach : ReflTransGen par.Up k m) :
    k = m := by
  rcases hreach.cases_head with heq | ⟨p, hup, _⟩
  · exact heq
  · exact absurd hup.live hdead

section Update

variable [DecidableEq K] {q : Option (Option K)}

/-- A way up to `k` was there before `k` pointed elsewhere. -/
theorem reach_of_update (h : ReflTransGen (Up (Function.update par k q)) c k) :
    ReflTransGen par.Up c k := by
  induction h using ReflTransGen.head_induction_on with
  | refl => exact .refl
  | @head a b hab _ ih =>
      by_cases hne : a = k
      · rw [hne]
      · exact .head ((up_update_ne hne).mp hab) ih

/-- A way up either does not touch what `k` points to, or goes through `k`. -/
theorem trans_of_update (h : TransGen (Up (Function.update par k q)) c p) :
    TransGen par.Up c p ∨ TransGen (Up (Function.update par k q)) k p ∧
      ReflTransGen (Up (Function.update par k q)) c k := by
  induction h using TransGen.head_induction_on with
  | @single a hap =>
      by_cases hne : a = k
      · subst hne
        exact Or.inr ⟨.single hap, .refl⟩
      · exact Or.inl (.single ((up_update_ne hne).mp hap))
  | @head a b hab hbp ih =>
      by_cases hne : a = k
      · subst hne
        exact Or.inr ⟨.head hab hbp, .refl⟩
      · rcases ih with hold | ⟨hnew, hreach⟩
        · exact Or.inl (.head ((up_update_ne hne).mp hab) hold)
        · exact Or.inr ⟨hnew, .head hab hreach⟩

/-- A row may be moved where the new parent does not lie below it, and only there. -/
theorem acyclic_move (h : par.Acyclic) :
    Acyclic (Function.update par k (some (some p))) ↔ ¬ ReflTransGen par.Up p k := by
  have hup : Up (Function.update par k (some (some p))) k p := up_update_self.mpr rfl
  constructor
  · intro hacyclic hp
    exact hacyclic k (.head' hup (reach_update hp))
  · intro hoff c hcycle
    rcases trans_of_update hcycle with hold | ⟨hnew, hreach⟩
    · exact h c hold
    · -- the cycle goes through `k`, and from there on to its new parent
      obtain ⟨q, hq, hback⟩ := TransGen.head'_iff.mp (hnew.trans_left hreach)
      rw [hq.unique hup] at hback
      exact hoff (reach_of_update hback)

end Update

end Parents

end GreenCommunity.Base
