import GreenCommunity.Menus.Healthy

/-!
# Conflicts of a menu with itself

An update looks for siblings of the new name if the parent or the name changes, and
Python tells whether they do.  The database finds siblings under its collation, the menu
itself among them.  So a menu whose name changes to one that the collation takes for the
same is in the way of its own update.
-/

namespace GreenCommunity.Menus

open GreenCommunity.Base
open GreenCommunity.Base.Prog
open GreenCommunity.Infrastructure (Collation)

/-- Another menu that is not deleted has the parent and the name. -/
def Taken (coll : Collation) (t : List Menu) (menu : Menu) (menuParentId : Option Int)
    (menuName : String) : Prop :=
  ∃ row ∈ t, row.deletedAt = none ∧ row.menuId ≠ menu.menuId ∧
    row.menuParentId = menuParentId ∧ coll.same row.menuName menuName = true

/-- The menu keeps its parent and gets a name that the collation takes for its own. -/
def Recased (coll : Collation) (menu : Menu) (menuParentId : Option Int)
    (menuName : String) : Prop :=
  menuParentId = menu.menuParentId ∧ menuName ≠ menu.menuName ∧
    coll.same menu.menuName menuName = true

/-- Python sees no change. -/
def Unchanged (menu : Menu) (menuParentId : Option Int) (menuName : String) : Prop :=
  menuParentId = menu.menuParentId ∧ menuName = menu.menuName

section Conflicts

variable {coll : Collation} {now : Nat} {s : State Unit} {menu : Menu}

/-- The siblings that the check finds. -/
theorem siblingsNamed_ne_nil {t : List Menu} {nextMenuId : Int} (hkeyed : Keyed t nextMenuId)
    (hmenu : menu ∈ t) (hlive : menu.deletedAt = none) {menuParentId : Option Int}
    {menuName : String} :
    siblingsNamed t coll menuParentId (some menuName) ≠ [] ↔
      Taken coll t menu menuParentId menuName ∨
        (menuParentId = menu.menuParentId ∧ coll.same menu.menuName menuName = true) := by
  rw [ne_eq, List.eq_nil_iff_forall_not_mem]
  push Not
  simp only [mem_siblingsNamed]
  constructor
  · rintro ⟨row, hrow, hactive, hparent, hsame⟩
    by_cases hid : row.menuId = menu.menuId
    · obtain rfl := hkeyed.unique hrow hmenu hid
      exact Or.inr ⟨hparent.symm, hsame⟩
    · exact Or.inl ⟨row, hrow, hactive, hid, hparent, hsame⟩
  · rintro (⟨row, hrow, hactive, _, hparent, hsame⟩ | ⟨rfl, hsame⟩)
    · exact ⟨row, hrow, hactive, hparent, hsame⟩
    · exact ⟨menu, hmenu, hlive, rfl, hsame⟩

/-- An update ends in a conflict exactly if something changes and the check finds
siblings. -/
theorem update_conflict (hkeyed : Keyed s.db.committed s.nextMenuId)
    (hidle : s.db.session () = .idle) (hmenu : menu ∈ s.db.committed)
    (hlive : menu.deletedAt = none) {fuel : Nat} {payload : MenuUpdate} {menuName : String}
    (hname : payload.menuName.getD (some menu.menuName) = some menuName)
    (hparent : (ensureMovable fuel menu.menuId payload.menuParentId).total (healthy coll now) ()
      (fun o _ => o = .ok ()) s) :
    (update fuel menu.menuId payload).total (healthy coll now) () (fun o _ =>
      (∃ message, o = .error (.conflict message)) ↔
        ¬ Unchanged menu (payload.menuParentId.getD menu.menuParentId) menuName ∧
          siblingsNamed s.db.committed coll (payload.menuParentId.getD menu.menuParentId)
            (some menuName) ≠ []) s := by
  have hquiet : Quiet s s := ⟨rfl, rfl, Db.fresh_of_idle hidle, by rw [hidle]; rfl⟩
  unfold update
  refine hquiet.total_getOr404 hkeyed hmenu hlive fun s₁ h₁ => ?_
  dsimp only
  rw [hname]
  refine total_bind.mpr (total_mono ?_
    (total_reading (ensureMovable_reads fuel _ _) hquiet h₁ hparent))
  rintro _ s₂ ⟨rfl, h₂⟩
  generalize payload.menuParentId.getD menu.menuParentId = newParentId
  have hchanges : (newParentId ≠ menu.menuParentId ∨ some menuName ≠ some menu.menuName) ↔
      ¬ Unchanged menu newParentId menuName := by
    rw [Unchanged, not_and_or]
    simp
  have hrest : ∀ s', Quiet s s' → ¬ (¬ Unchanged menu newParentId menuName ∧
      siblingsNamed s.db.committed coll newParentId (some menuName) ≠ []) →
        Prog.total (healthy coll now) () (do
          flushUpdate menu (some menuName) newParentId
          perform .commit
          return { menu with
            menuName := (some menuName).getD menu.menuName, menuParentId := newParentId })
        (fun o _ => (∃ message, o = .error (.conflict message)) ↔
          ¬ Unchanged menu newParentId menuName ∧
            siblingsNamed s.db.committed coll newParentId (some menuName) ≠ []) s' := by
    intro s' h' hfree
    refine total_bind.mpr (h'.total_flushUpdate hkeyed hmenu hlive _ _ (by simp) ?_)
    intro _ _ s₃ h₃
    refine total_bind.mpr (h₃.total_commit fun s₄ _ _ _ => ?_)
    exact iff_of_false (by simp) hfree
  unfold ensureRenamable
  dsimp only
  by_cases hchanged : newParentId ≠ menu.menuParentId ∨ some menuName ≠ some menu.menuName
  · rw [if_pos hchanged]
    refine total_bind.mpr (h₂.total_ensureNameAvailable _ _ (fun htaken s₃ _ => ?_)
      fun hfree s₃ h₃ => hrest s₃ h₃ fun hconflict => hconflict.2 hfree)
    exact iff_of_true ⟨_, rfl⟩ ⟨hchanges.mp hchanged, htaken⟩
  · rw [if_neg hchanged]
    exact hrest s₂ h₂ fun hconflict => hchanged (hchanges.mpr hconflict.1)

/-- A menu conflicts exactly with other menus, if and only if it is not recased, unless
another menu has the place, and if nothing changes no other menu has it. -/
theorem update_conflict_iff (hkeyed : Keyed s.db.committed s.nextMenuId)
    (hidle : s.db.session () = .idle) (hmenu : menu ∈ s.db.committed)
    (hlive : menu.deletedAt = none) {fuel : Nat} {payload : MenuUpdate} {menuName : String}
    (hname : payload.menuName.getD (some menu.menuName) = some menuName)
    (hparent : (ensureMovable fuel menu.menuId payload.menuParentId).total (healthy coll now) ()
      (fun o _ => o = .ok ()) s) :
    (update fuel menu.menuId payload).total (healthy coll now) () (fun o _ =>
        (∃ message, o = .error (.conflict message)) ↔ Taken coll s.db.committed menu
          (payload.menuParentId.getD menu.menuParentId) menuName) s ↔
      (Recased coll menu (payload.menuParentId.getD menu.menuParentId) menuName →
          Taken coll s.db.committed menu (payload.menuParentId.getD menu.menuParentId)
            menuName) ∧
        (Unchanged menu (payload.menuParentId.getD menu.menuParentId) menuName →
          ¬ Taken coll s.db.committed menu (payload.menuParentId.getD menu.menuParentId)
            menuName) := by
  have hactual : (update fuel menu.menuId payload).total (healthy coll now) () _ s :=
    update_conflict hkeyed hidle hmenu hlive hname hparent
  rw [siblingsNamed_ne_nil hkeyed hmenu hlive] at hactual
  generalize payload.menuParentId.getD menu.menuParentId = newParentId at hactual ⊢
  have hcode : ((¬ Unchanged menu newParentId menuName ∧
      (Taken coll s.db.committed menu newParentId menuName ∨
        (newParentId = menu.menuParentId ∧ coll.same menu.menuName menuName = true))) ↔
          Taken coll s.db.committed menu newParentId menuName) ↔
      (Recased coll menu newParentId menuName →
          Taken coll s.db.committed menu newParentId menuName) ∧
        (Unchanged menu newParentId menuName →
          ¬ Taken coll s.db.committed menu newParentId menuName) := by
    unfold Recased Unchanged
    tauto
  rw [← hcode]
  constructor
  · intro hclaimed
    obtain ⟨o, _, hcode, hclaim⟩ := exists_of_total hactual hclaimed
    exact hcode.symm.trans hclaim
  · intro heq
    exact total_mono (fun o _ h => h.trans heq) hactual

end Conflicts

/-! ## A menu whose case changes -/

section Samples

/-- A collation that takes upper and lower case for the same. -/
def caseCollation : Collation where
  same a b := a.toList.map Char.toLower == b.toList.map Char.toLower
  refl a := beq_self_eq_true _
  symm h := by simpa using (beq_iff_eq.mp h).symm
  trans h h' := by
    rw [beq_iff_eq] at h h' ⊢
    exact h.trans h'

def notice : Menu := ⟨1, "notice", none, none⟩

/-- The only menu. -/
def noticeState : State Unit where
  db := { committed := [notice], session := fun _ => .idle }
  nextMenuId := 2

theorem keyed_noticeState : Keyed noticeState.db.committed noticeState.nextMenuId where
  nodup := by decide
  below row hrow := by
    rw [List.mem_singleton.mp hrow]
    decide

/-- No other menu has any place. -/
theorem not_taken_notice {coll : Collation} {menuParentId : Option Int} {menuName : String} :
    ¬ Taken coll noticeState.db.committed notice menuParentId menuName := by
  rintro ⟨row, hrow, _, hne, _⟩
  exact hne (congrArg Menu.menuId (List.mem_singleton.mp hrow))

/-- `notice` cannot become `Notice`. -/
theorem notice_in_its_own_way :
    ¬ (update 1 1 ⟨some (some "Notice"), none⟩).total (healthy caseCollation 0) () (fun o _ =>
      (∃ message, o = .error (.conflict message)) ↔
        Taken caseCollation noticeState.db.committed notice none "Notice") noticeState := by
  intro hclaimed
  have hactual : (update 1 notice.menuId ⟨some (some "Notice"), none⟩).total
      (healthy caseCollation 0) () _ noticeState :=
    update_conflict keyed_noticeState rfl List.mem_cons_self rfl rfl rfl
  obtain ⟨o, _, hcode, hclaim⟩ := exists_of_total hactual hclaimed
  refine not_taken_notice (hclaim.mp (hcode.mpr ⟨?_, ?_⟩))
  · rintro ⟨_, hname⟩
    exact absurd hname (by decide)
  · exact (siblingsNamed_ne_nil keyed_noticeState List.mem_cons_self rfl).mpr
      (Or.inr ⟨rfl, by decide⟩)

/-- `notice` can become `news`. -/
theorem update_conflict_iff_sample :
    (update 1 notice.menuId ⟨some (some "news"), none⟩).total (healthy caseCollation 0) ()
      (fun o _ => (∃ message, o = .error (.conflict message)) ↔
        Taken caseCollation noticeState.db.committed notice none "news") noticeState :=
  have hparent : (ensureMovable 1 notice.menuId none).total (healthy caseCollation 0) ()
      (fun o _ => o = .ok ()) noticeState := rfl
  (update_conflict_iff keyed_noticeState rfl List.mem_cons_self rfl rfl hparent).mpr
    ⟨fun hrecased => absurd hrecased.2.2 (by decide),
      fun hunchanged => absurd hunchanged.2 (by decide)⟩

end Samples

end GreenCommunity.Menus
