import Mathlib.Data.List.Perm.Subperm
import Mathlib.Data.Set.Finite.Lattice
import GreenCommunity.Menus.Assembly
import GreenCommunity.Menus.Healthy

/-!
# The walk up the ancestors

The loop of `_ensure_not_own_descendant` keeps no record of where it has been.  What
bounds it is the table: without cycles no menu is met twice, and one that has been met
is there, so after as many rounds as there are rows the walk has met a root, a parent
that is not there, or the menu itself.
-/

namespace GreenCommunity.Menus

open GreenCommunity.Base
open GreenCommunity.Base.Prog
open GreenCommunity.Base.Parents (Acyclic)
open GreenCommunity.Infrastructure (Collation)
open Relation (ReflTransGen TransGen)

def Refused (o : Except AppError Unit) : Prop := ∃ text, o = .error (.badRequest text)

/-- The check refuses exactly what lies below. -/
def Decides (below : Prop) (o : Except AppError Unit) : Prop :=
  (below → Refused o) ∧ (¬ below → o = .ok ())

theorem Decides.congr {below below' : Prop} (h : below' ↔ below) {o : Except AppError Unit}
    (hdecides : Decides below o) : Decides below' o := by
  rwa [h]

theorem Decides.refused_iff {below : Prop} {o : Except AppError Unit}
    (h : Decides below o) : Refused o ↔ below := by
  constructor
  · rintro ⟨text, rfl⟩
    by_contra hbelow
    cases h.2 hbelow
  · exact h.1

theorem exists_keyed {t : List Menu} (h : (t.map Menu.menuId).Nodup) :
    ∃ nextMenuId, Keyed t nextMenuId := by
  obtain ⟨bound, hbound⟩ := (t.map Menu.menuId).toFinset.bddAbove
  refine ⟨bound + 1, h, fun row hrow => Int.lt_add_one_of_le (hbound ?_)⟩
  exact List.mem_toFinset.mpr (List.mem_map_of_mem hrow)

section Walk

variable {coll : Collation} {now : Nat} {s₀ : State Unit} {nextMenuId m : Int}

/-- Menus met on the way are as many as rows at most. -/
theorem length_le_rows {t : List Menu} {seen : List Int} (hnodup : seen.Nodup)
    (hlive : ∀ k ∈ seen, (parentOf t).Live k) : seen.length ≤ t.length := by
  rw [← List.length_map Menu.menuId]
  refine (List.subperm_of_subset hnodup fun k hk => ?_).length_le
  obtain ⟨row, hrow, _, rfl⟩ := parentOf_isSome.mp (hlive k hk)
  exact List.mem_map_of_mem hrow

/-- The walk from `cursor`, when it has come there through the menus in `seen`. -/
theorem total_walk (hkeyed : Keyed s₀.db.committed nextMenuId)
    (hacyclic : (parentOf s₀.db.committed).Acyclic) (fuel : Nat) :
    ∀ {s : State Unit} (cursor : Option Int) (seen : List Int), Quiet s₀ s →
      seen.Nodup → (∀ k ∈ seen, (parentOf s₀.db.committed).Live k) →
      (∀ k ∈ seen, ∀ p, cursor = some p → TransGen (parentOf s₀.db.committed).Up k p) →
      s₀.db.committed.length < fuel + seen.length →
        (walk m fuel cursor).total (healthy coll now) () (fun o s' => Quiet s₀ s' ∧
          Decides (∃ p, cursor = some p ∧
            ReflTransGen (parentOf s₀.db.committed).Up p m) o) s := by
  induction fuel with
  | zero =>
      intro s cursor seen _ hnodup hlive _ hfuel
      have hle := length_le_rows hnodup hlive
      omega
  | succ fuel ih =>
      intro s cursor seen h hnodup hlive habove hfuel
      cases cursor with
      | none => exact ⟨h, by simp [Decides]⟩
      | some p =>
          rw [walk]
          by_cases hp : p = m
          · rw [if_pos hp]
            exact ⟨h, fun _ => ⟨_, rfl⟩, fun hoff => absurd ⟨p, rfl, hp ▸ .refl⟩ hoff⟩
          rw [if_neg hp]
          refine h.total_getById hkeyed p (fun hnone s' h' => ?_) ?_
          · have hdead : ¬ (parentOf s₀.db.committed).Live p := by
              intro hp'
              obtain ⟨row, hrow, hactive, hid⟩ := parentOf_isSome.mp hp'
              exact hnone row hrow hactive hid
            refine ⟨h', ?_, fun _ => rfl⟩
            rintro ⟨_, ⟨⟩, hreach⟩
            exact absurd (Parents.reach_dead hdead hreach) hp
          · intro parent hrow hactive hid s' h'
            have hpar : parentOf s₀.db.committed p = some parent.menuParentId :=
              hkeyed.parentOf.mpr ⟨parent, hrow, hactive, hid, rfl⟩
            have hfresh : p ∉ seen := fun hmem => hacyclic p (habove p hmem p rfl)
            refine total_mono ?_ (ih parent.menuParentId (p :: seen) h'
              (List.nodup_cons.mpr ⟨hfresh, hnodup⟩) ?_ ?_ ?_)
            · rintro o s'' ⟨hquiet, hdecides⟩
              refine ⟨hquiet, hdecides.congr ?_⟩
              simpa using Parents.reach_parent hpar hp
            · intro k hk
              rcases List.mem_cons.mp hk with rfl | hk
              · rw [Parents.Live, hpar]
                rfl
              · exact hlive k hk
            · intro k hk q hq
              have hup : (parentOf s₀.db.committed).Up p q := by rw [Parents.Up, hpar, hq]
              rcases List.mem_cons.mp hk with rfl | hk
              · exact .single hup
              · exact (habove k hk p rfl).tail hup
            · rw [List.length_cons]
              omega

theorem total_ensureNotOwnDescendant {s : State Unit}
    (hkeyed : Keyed s₀.db.committed nextMenuId)
    (hacyclic : (parentOf s₀.db.committed).Acyclic) (h : Quiet s₀ s) {fuel : Nat}
    (hfuel : s₀.db.committed.length < fuel) (p : Int) :
    (ensureNotOwnDescendant fuel m p).total (healthy coll now) () (fun o s' => Quiet s₀ s' ∧
      Decides (ReflTransGen (parentOf s₀.db.committed).Up p m) o) s := by
  rw [ensureNotOwnDescendant]
  by_cases hp : m = p
  · rw [if_pos hp]
    exact ⟨h, fun _ => ⟨_, rfl⟩, fun hoff => absurd (hp ▸ .refl) hoff⟩
  · rw [if_neg hp]
    refine total_mono ?_ (total_walk hkeyed hacyclic fuel (some p) [] h List.nodup_nil
      (by simp) (by simp) (by simpa using hfuel))
    rintro o s' ⟨hquiet, hdecides⟩
    exact ⟨hquiet, hdecides.congr (by simp)⟩

end Walk

/-- Setting the parent of a menu. -/
def reparented (t : List Menu) (m p : Int) : List Menu :=
  apply t (.update m none (some (some p)) none)

theorem acyclic_reparented {t : List Menu} {m p : Int} (hacyclic : (parentOf t).Acyclic)
    (hm : (parentOf t).Live m) :
    (parentOf (reparented t m p)).Acyclic ↔ ¬ ReflTransGen (parentOf t).Up p m := by
  obtain ⟨q, hq⟩ := Option.isSome_iff_exists.mp hm
  rw [reparented, parentOf_move, hq]
  exact Parents.acyclic_move hacyclic

/-- In a table without cycles the check returns once it has been given as many rounds
as there are rows, changes nothing, refuses exactly the menu itself and the menus below
it, and what it lets pass leaves the table without cycles. -/
theorem descendants_refused {coll : Collation} {now : Nat} {s : State Unit}
    (hidle : s.db.session () = .idle) (hnodup : (s.db.committed.map Menu.menuId).Nodup)
    (hacyclic : (parentOf s.db.committed).Acyclic) {m p : Int}
    (hm : (parentOf s.db.committed).Live m) {fuel : Nat}
    (hfuel : s.db.committed.length < fuel) :
    (ensureNotOwnDescendant fuel m p).total (healthy coll now) () (fun o s' =>
      s'.db.committed = s.db.committed ∧
        (Refused o ↔ ReflTransGen (parentOf s.db.committed).Up p m) ∧
        (¬ Refused o → o = .ok () ∧
          (parentOf (reparented s.db.committed m p)).Acyclic)) s := by
  obtain ⟨nextMenuId, hkeyed⟩ := exists_keyed hnodup
  have hquiet : Quiet s s := ⟨rfl, rfl, Db.fresh_of_idle hidle, by rw [hidle]; rfl⟩
  refine total_mono ?_ (total_ensureNotOwnDescendant hkeyed hacyclic hquiet hfuel p)
  rintro o s' ⟨h, hdecides⟩
  refine ⟨h.committed, hdecides.refused_iff, fun hpass => ?_⟩
  have hoff : ¬ ReflTransGen (parentOf s.db.committed).Up p m := by
    rwa [← hdecides.refused_iff]
  exact ⟨hdecides.2 hoff, (acyclic_reparented hacyclic hm).mpr hoff⟩

/-! ## Moves in the sample -/

/-- The pointers between the menus that are not deleted are those of the rows. -/
theorem acyclic_of_below {t : List Menu} (h : ∀ k, ¬ TransGen (Below t) k k) :
    (parentOf t).Acyclic := by
  have hbelow : ∀ k p, (parentOf t).Up k p → Below t k p := by
    intro k p hup
    obtain ⟨menu, hmenu, hparent⟩ := Option.map_eq_some_iff.mp hup
    have hid := List.find?_some hmenu
    rw [Bool.and_eq_true, beq_iff_eq] at hid
    exact ⟨menu, List.mem_of_find?_eq_some hmenu, hid.1, hparent⟩
  exact fun k hcycle => h k (TransGen.mono hbelow k k hcycle)

/-- The menu 9 lies above 2 and is not moved below it. -/
theorem descendants_refused_sample :
    ReflTransGen (parentOf sampleMenus).Up 2 9 ∧
      (ensureNotOwnDescendant 5 9 2).total (healthy Infrastructure.binaryCollation 0) ()
        (fun o _ => Refused o) sampleState := by
  have hbelow : ReflTransGen (parentOf sampleMenus).Up 2 9 :=
    .head (show (parentOf sampleMenus).Up 2 1 from rfl)
      (.single (show (parentOf sampleMenus).Up 1 9 from rfl))
  refine ⟨hbelow, ?_⟩
  refine total_mono (fun o s' h => h.2.1.mpr hbelow)
    (descendants_refused (s := sampleState) (m := 9) (p := 2) rfl (by decide)
      (acyclic_of_below acyclic_sample) rfl (by decide))

end GreenCommunity.Menus
