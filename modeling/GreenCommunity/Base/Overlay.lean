import Mathlib.Data.Finset.Card
import Mathlib.Data.List.AList
import Mathlib.Tactic.Ring

/-!
# A set and pending changes to it

A write-behind store keeps a set in one place and, for some elements, whether they are
to be in it in another.  `overlay` is the set with the pending changes made.  Its size is
that of the set, plus one for every pending entrance, less one for every pending element
that the set has already.
-/

namespace GreenCommunity.Base

variable {α : Type} [DecidableEq α]

/-- The first entry of an element decides. -/
def overlay (base : Finset α) : List (Sigma fun _ : α => Bool) → Finset α
  | [] => base
  | ⟨a, true⟩ :: pending => insert a (overlay base pending)
  | ⟨a, false⟩ :: pending => (overlay base pending).erase a

variable {base : Finset α} {pending : List (Sigma fun _ : α => Bool)} {a : α}

theorem mem_overlay :
    a ∈ overlay base pending ↔ (pending.dlookup a).getD (decide (a ∈ base)) = true := by
  induction pending with
  | nil => simp [overlay]
  | cons entry pending ih =>
      obtain ⟨b, v⟩ := entry
      by_cases hab : a = b
      · subst hab
        cases v <;> simp [overlay]
      · rw [List.dlookup_cons_ne _ _ hab, ← ih]
        cases v <;> simp [overlay, hab]

/-- An element without an entry is where it was. -/
theorem mem_overlay_of_notMem (h : a ∉ pending.keys) :
    a ∈ overlay base pending ↔ a ∈ base := by
  rw [mem_overlay, List.dlookup_eq_none.mpr h]
  simp

/-- What a pending entry adds to the size. -/
def correction (base : Finset α) (entry : Sigma fun _ : α => Bool) : Int :=
  (entry.2.toNat : Int) - ((decide (entry.1 ∈ base)).toNat : Int)

theorem card_overlay (h : pending.NodupKeys) :
    ((overlay base pending).card : Int) =
      base.card + (pending.map (correction base)).sum := by
  induction pending with
  | nil => simp [overlay]
  | cons entry pending ih =>
      obtain ⟨hnot, hrest⟩ := List.nodupKeys_cons.mp h
      obtain ⟨a, v⟩ := entry
      have hmem : a ∈ overlay base pending ↔ a ∈ base := mem_overlay_of_notMem hnot
      have hcard : ((overlay base (⟨a, v⟩ :: pending)).card : Int) =
          (overlay base pending).card + correction base ⟨a, v⟩ := by
        by_cases ha : a ∈ base
        · have hpos : 0 < (overlay base pending).card :=
            Finset.card_pos.mpr ⟨a, hmem.mpr ha⟩
          cases v with
          | true => simp [overlay, correction, ha, Finset.insert_eq_of_mem (hmem.mpr ha)]
          | false =>
              simp only [overlay, correction, Finset.card_erase_of_mem (hmem.mpr ha), ha]
              simp only [Bool.toNat_false, decide_true, Bool.toNat_true]
              omega
        · have hout : a ∉ overlay base pending := fun hin => ha (hmem.mp hin)
          cases v with
          | true => simp [overlay, correction, ha, Finset.card_insert_of_notMem hout]
          | false => simp [overlay, correction, ha, Finset.erase_eq_of_notMem hout]
      rw [hcard, ih hrest, List.map_cons, List.sum_cons]
      ring

end GreenCommunity.Base
