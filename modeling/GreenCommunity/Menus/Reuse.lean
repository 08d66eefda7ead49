import GreenCommunity.Menus.Healthy

/-!
# Deleting menus and using their names again

A menu without children can be deleted, and then its name is free again.  But the time
of deletion is part of a unique key and has whole seconds: of two menus with the same
name below one parent only one can be deleted in a second.
-/

namespace GreenCommunity.Menus

open GreenCommunity.Base
open GreenCommunity.Base.Prog
open GreenCommunity.Infrastructure (Collation datetime)

/-- A menu of the same parent, not the top level, and the same name was deleted at this
very second. -/
def Clashes (coll : Collation) (t : List Menu) (menu : Menu) (deletedAt : Nat) : Prop :=
  menu.menuParentId ≠ none ∧ ∃ row ∈ t, row.menuParentId = menu.menuParentId ∧
    coll.same row.menuName menu.menuName = true ∧ row.deletedAt = some deletedAt

instance (coll : Collation) (t : List Menu) (menu : Menu) (deletedAt : Nat) :
    Decidable (Clashes coll t menu deletedAt) := inferInstanceAs (Decidable (_ ∧ _))

/-- The menus with one of them deleted. -/
def deleted (t : List Menu) (menu : Menu) (deletedAt : Nat) : List Menu :=
  apply t (.update menu.menuId none none (some deletedAt))

section Reuse

variable {coll : Collation} {now : Nat} {s₀ s : State Unit} {t : List Menu}
  {nextMenuId : Int} {menu : Menu}

/-- The rows of the table with the menu deleted. -/
theorem mem_deleted (hkeyed : Keyed t nextMenuId) (hmenu : menu ∈ t)
    (hlive : menu.deletedAt = none) {deletedAt : Nat} {row : Menu} :
    row ∈ deleted t menu deletedAt ↔
      row = { menu with deletedAt := some deletedAt } ∨ (row ∈ t ∧ row.menuId ≠ menu.menuId) := by
  have hset : menu.set none none (some deletedAt) = { menu with deletedAt := some deletedAt } := by
    simp [Menu.set]
  rw [deleted, apply, List.mem_map]
  constructor
  · rintro ⟨row', hrow', rfl⟩
    split
    next hid =>
      obtain rfl := hkeyed.unique hrow' hmenu hid
      exact Or.inl hset
    next hid => exact Or.inr ⟨hrow', hid⟩
  · rintro (rfl | ⟨hrow, hid⟩)
    · exact ⟨menu, hmenu, by rw [if_pos rfl, hset]⟩
    · exact ⟨row, hrow, if_neg hid⟩

/-- The unique key is in the way exactly of such a deletion. -/
theorem admits_delete_iff (hkeyed : Keyed t nextMenuId) (hmenu : menu ∈ t)
    (hlive : menu.deletedAt = none) {deletedAt : Nat} :
    Admits coll t (.update menu.menuId none none (some deletedAt)) ↔
      ¬ Clashes coll t menu deletedAt := by
  have hmem : ∀ row, row ∈ apply t (.update menu.menuId none none (some deletedAt)) ↔
      row = { menu with deletedAt := some deletedAt } ∨ (row ∈ t ∧ row.menuId ≠ menu.menuId) :=
    fun row => mem_deleted hkeyed hmenu hlive
  constructor
  · rintro hadmits ⟨hparent, row, hrow, hsame, hname, hdeleted⟩
    have hne : row.menuId ≠ menu.menuId := by
      intro hid
      obtain rfl := hkeyed.unique hrow hmenu hid
      rw [hlive] at hdeleted
      cases hdeleted
    refine hadmits { menu with deletedAt := some deletedAt } ((hmem _).mpr (Or.inl rfl)) rfl row
      ((hmem _).mpr (Or.inr ⟨hrow, hne⟩)) ⟨hne.symm, ⟨?_, hsame.symm⟩, coll.symm hname, rfl, ?_⟩
    · exact Option.isSome_iff_ne_none.mpr hparent
    · exact hdeleted.symm
  · rintro hfree row hrow hid row' hrow' ⟨hne, ⟨hparent, hsame⟩, hname, _, hdeleted⟩
    rcases (hmem row).mp hrow with rfl | ⟨_, hother⟩
    · rcases (hmem row').mp hrow' with rfl | ⟨hrow', _⟩
      · exact hne rfl
      · exact hfree ⟨Option.isSome_iff_ne_none.mp hparent, row', hrow', hsame.symm,
          coll.symm hname, hdeleted.symm⟩
    · exact hother hid

/-- The menus, the next number and no open transaction. -/
structure Rests (t : List Menu) (nextMenuId : Int) (s : State Unit) : Prop where
  committed : s.db.committed = t
  nextMenuId : s.nextMenuId = nextMenuId
  idle : s.db.session () = .idle

theorem Rests.quiet (h : Rests t nextMenuId s) : Quiet s s :=
  ⟨rfl, rfl, Db.fresh_of_idle h.idle, by rw [h.idle]; rfl⟩

/-- The menu is deleted, unless the unique key is in the way. -/
theorem Quiet.total_delete (h : Quiet s₀ s) (hkeyed : Keyed s₀.db.committed s₀.nextMenuId)
    (hmenu : menu ∈ s₀.db.committed) (hlive : menu.deletedAt = none)
    (hchildless : childrenOf s₀.db.committed (some menu.menuId) = []) :
    (delete menu.menuId).total (healthy coll now) () (fun o s' =>
      if Clashes coll s₀.db.committed menu (datetime now) then o = .error .integrityError
      else o = .ok () ∧
        Rests (deleted s₀.db.committed menu (datetime now)) s₀.nextMenuId s') s := by
  unfold delete
  refine h.total_getOr404 hkeyed hmenu hlive fun s₁ h₁ => ?_
  refine h₁.total_select (.selectChildren (some menu.menuId))
    (fun t => childrenOf t (some menu.menuId)) (fun _ _ => Iff.rfl) (fun _ => trivial)
    (fun _ he => he) fun s₂ h₂ => ?_
  dsimp only
  rw [hchildless, if_neg (not_not.mpr rfl)]
  refine ⟨⟨.ok now, s₂, rfl, rfl⟩, ?_⟩
  rintro (e | now') s₃ hs
  · exact absurd hs.1.1 id
  obtain ⟨rfl, rfl⟩ := hs
  have hadmits : Admits coll (s₃.db.current apply ())
      (.update menu.menuId none none (some (datetime now'))) ↔
        ¬ Clashes coll s₀.db.committed menu (datetime now') := by
    rw [h₂.current]
    exact admits_delete_iff hkeyed hmenu hlive
  by_cases hclash : Clashes coll s₀.db.committed menu (datetime now')
  · have hrefused : ¬ Admits coll (s₃.db.current apply ())
        (.update menu.menuId none none (some (datetime now'))) :=
      fun hadmitted => hadmits.mp hadmitted hclash
    refine ⟨⟨.error .integrityError, s₃, ⟨Or.inr hrefused, by simp⟩, rfl⟩, ?_⟩
    rintro (e | _) s₄ hs
    · obtain ⟨⟨hfail, hne⟩, rfl⟩ := hs
      show if Clashes coll s₀.db.committed menu (datetime now') then _ else _
      rw [if_pos hclash]
      cases e with
      | integrityError => rfl
      | _ => exact absurd hfail hne
    · exact absurd hs.1.2.2.1 hrefused
  · have hadmitted := hadmits.mpr hclash
    refine ⟨⟨.ok (), _, ⟨by simp, unblocked _ _, hadmitted, rfl⟩, trivial⟩, ?_⟩
    rintro (e | _) s₄ hs
    · obtain ⟨⟨hfail, hne⟩, rfl⟩ := hs
      cases e with
      | integrityError =>
          exact absurd hfail (not_or.mpr ⟨by simp, not_not.mpr hadmitted⟩)
      | _ => exact absurd hfail hne
    · obtain ⟨⟨_, _, _, rfl⟩, _⟩ := hs
      have hunsaved : Unsaved (deleted s₀.db.committed menu (datetime now')) s₀.nextMenuId
          { s₃ with db := s₃.db.write () (.update menu.menuId none none
            (some (datetime now'))) } :=
        ⟨by rw [Db.current_write, h₂.current]; rfl, h₂.nextMenuId⟩
      refine hunsaved.total_commit fun s₅ hcommitted hnext hidle => ?_
      rw [if_neg hclash]
      exact ⟨rfl, hcommitted, hnext, hidle⟩

/-- The check of a parent that is there. -/
theorem Quiet.total_ensureParentExists (h : Quiet s₀ s) {q : Option Int}
    (hparent : ∀ p, q = some p → (parentOf s₀.db.committed).Live p)
    {Q : Except AppError Unit → State Unit → Prop}
    (hok : ∀ s', Quiet s₀ s' → Q (.ok ()) s') :
    (ensureParentExists q).total (healthy coll now) () Q s := by
  cases q with
  | none => exact hok s h
  | some p =>
      obtain ⟨row, hrow, hlive, hid⟩ := parentOf_isSome.mp (hparent p rfl)
      have hpos : ((menusById s₀.db.committed p).length != 0) = true := by
        have hmem := mem_menusById.mpr ⟨hrow, hlive, hid⟩
        simpa using List.ne_nil_of_mem hmem
      unfold ensureParentExists existsById
      dsimp only
      rw [Prog.bind_assoc]
      refine h.total_select (.countById p) (fun t => (menusById t p).length)
        (fun _ _ => Iff.rfl) (fun _ => trivial) (fun _ he => he) fun s' h' => ?_
      rw [Prog.pure_eq, ret_bind, hpos]
      exact hok s' h'

/-- A menu is created where its parent is there and its name is free. -/
theorem Quiet.total_create (h : Quiet s₀ s)
    (hkeyed : Keyed s₀.db.committed s₀.nextMenuId) (payload : MenuCreate)
    (hparent : ∀ p, payload.menuParentId = some p → (parentOf s₀.db.committed).Live p)
    (hfree : siblingsNamed s₀.db.committed coll payload.menuParentId
      (some payload.menuName) = []) :
    (create payload).total (healthy coll now) () (fun o s' =>
      o = .ok ⟨s₀.nextMenuId, payload.menuName, payload.menuParentId, none⟩ ∧
        Rests (s₀.db.committed ++
          [⟨s₀.nextMenuId, payload.menuName, payload.menuParentId, none⟩])
          (s₀.nextMenuId + 1) s') s := by
  unfold create
  refine total_bind.mpr (h.total_ensureParentExists hparent fun s₁ h₁ => ?_)
  refine total_bind.mpr (h₁.total_ensureNameAvailable _ _ (fun htaken => absurd hfree htaken)
    fun _ s₂ h₂ => ?_)
  have hadmits : Admits coll (s₂.db.current apply ())
      (.insert ⟨s₂.nextMenuId, payload.menuName, payload.menuParentId, none⟩) := by
    refine admits_live fun row hrow hid => ?_
    rcases List.mem_append.mp hrow with hold | hnew
    · rw [h₂.current] at hold
      have hlt := hkeyed.below row hold
      have hnext : row.menuId = s₂.nextMenuId := hid
      rw [hnext, h₂.nextMenuId] at hlt
      omega
    · rw [List.mem_singleton.mp hnew]
  refine ⟨⟨.ok s₂.nextMenuId, _, ⟨rfl, unblocked _ _, hadmits, rfl⟩, trivial⟩, ?_⟩
  rintro (e | menuId) s₃ hs
  · obtain ⟨⟨hfail, hne⟩, rfl⟩ := hs
    cases e with
    | integrityError => exact absurd hadmits hfail
    | _ => exact absurd hfail hne
  · obtain ⟨⟨rfl, _, _, rfl⟩, _⟩ := hs
    have hunsaved : Unsaved (s₀.db.committed ++
        [⟨s₀.nextMenuId, payload.menuName, payload.menuParentId, none⟩]) (s₀.nextMenuId + 1)
        ⟨s₂.db.write () (.insert ⟨s₂.nextMenuId, payload.menuName, payload.menuParentId,
          none⟩), s₂.nextMenuId + 1⟩ := by
      refine ⟨?_, by rw [h₂.nextMenuId]⟩
      rw [Db.current_write, h₂.current, h₂.nextMenuId]
      rfl
    show Prog.total (healthy coll now) () (perform .commit >>= fun _ =>
      ret (⟨s₂.nextMenuId, payload.menuName, payload.menuParentId, none⟩ : Menu)) _ _
    refine total_bind.mpr (hunsaved.total_commit fun s₄ hcommitted hnext hidle => ?_)
    rw [h₂.nextMenuId]
    exact ⟨rfl, hcommitted, hnext, hidle⟩

end Reuse

/-! ## Runs -/

section Runs

variable {coll : Collation} {fuel now : Nat} {s : State Unit} {menu : Menu}
  {log : List (Served Request Op Reply AppError (Option Menu) (State Unit))}

/-- The menu is deleted, and at any time a menu of its parent and its name can be created. -/
def Reusable (coll : Collation) (menu : Menu) (o : Except AppError Unit) (s : State Unit) :
    Prop :=
  o = .ok () ∧ (∀ row ∈ s.db.committed, row.menuId = menu.menuId → row.deletedAt ≠ none) ∧
    ∀ now, (create ⟨menu.menuName, menu.menuParentId⟩).total (healthy coll now) ()
      (fun o _ => ∃ menu', o = .ok menu') s

/-- Behind a deletion the parent is still there and the name is free. -/
theorem reusable_deleted {t : List Menu} {nextMenuId : Int} {deletedAt : Nat}
    (hkeyed : Keyed t nextMenuId) (hforest : (parentOf t).Forest) (hsiblings : Siblings coll t)
    (hmenu : menu ∈ t) (hlive : menu.deletedAt = none)
    (hrests : Rests (deleted t menu deletedAt) nextMenuId s) :
    Reusable coll menu (.ok ()) s := by
  have hmem : ∀ row, row ∈ s.db.committed ↔
      row = { menu with deletedAt := some deletedAt } ∨ (row ∈ t ∧ row.menuId ≠ menu.menuId) := by
    intro row
    rw [hrests.committed]
    exact mem_deleted hkeyed hmenu hlive
  have hkeyed' : Keyed s.db.committed s.nextMenuId := by
    rw [hrests.committed, hrests.nextMenuId]
    exact hkeyed.apply trivial nofun
  refine ⟨rfl, fun row hrow hid => ?_, fun now => ?_⟩
  · rcases (hmem row).mp hrow with rfl | ⟨_, hne⟩
    · simp
    · exact absurd hid hne
  refine total_mono (fun o s' h => ⟨_, h.1⟩)
    (hrests.quiet.total_create hkeyed' ⟨menu.menuName, menu.menuParentId⟩ ?_ ?_)
  · intro p hp
    have hup : (parentOf t).Up menu.menuId p := hkeyed.parentOf.mpr ⟨menu, hmenu, hlive, rfl, hp⟩
    have hne : p ≠ menu.menuId := by
      rintro rfl
      exact (hforest _ hup.live).acyclic (.single hup)
    obtain ⟨row, hrow, hactive, rfl⟩ := parentOf_isSome.mp (hforest.live_parent hup)
    exact parentOf_isSome.mpr ⟨row, (hmem row).mpr (Or.inr ⟨hrow, hne⟩), hactive, rfl⟩
  · rw [List.eq_nil_iff_forall_not_mem]
    intro row hrow
    obtain ⟨hrow, hactive, hparent, hname⟩ := mem_siblingsNamed.mp hrow
    rcases (hmem row).mp hrow with rfl | ⟨hrow, hne⟩
    · cases hactive
    · exact hne (hsiblings row hrow menu hmenu hactive hlive hparent hname)

/-- In every state that requests at any times lead to, a menu without children can be
deleted and its name used again, if and only if no menu of the same name below the same
parent was deleted in the same second. -/
theorem delete_reusable_iff
    (h : Serial (sem coll) () (fun s s' => s' = s) (serve fuel) emptyState log s)
    (hmenu : menu ∈ s.db.committed) (hlive : menu.deletedAt = none)
    (hchildless : childrenOf s.db.committed (some menu.menuId) = []) :
    (delete menu.menuId).total (healthy coll now) () (Reusable coll menu) s ↔
      ¬ Clashes coll s.db.committed menu (datetime now) := by
  obtain ⟨htree, hidle⟩ := tree_of_serial h
  have hquiet : Quiet s s := Rests.quiet ⟨rfl, rfl, hidle⟩
  have hactual : (delete menu.menuId).total (healthy coll now) () _ s :=
    hquiet.total_delete htree.keyed hmenu hlive hchildless
  constructor
  · intro hreusable hclash
    obtain ⟨o, s', ⟨rfl, _⟩, hrefused⟩ := exists_of_total hreusable hactual
    rw [if_pos hclash] at hrefused
    cases hrefused
  · intro hfree
    refine total_mono (fun o s' hdone => ?_) hactual
    rw [if_neg hfree] at hdone
    obtain ⟨rfl, hrests⟩ := hdone
    exact reusable_deleted htree.keyed htree.forest htree.siblings hmenu hlive hrests

end Runs

/-! ## Twice in a second -/

section Samples

open Infrastructure (binaryCollation)

variable {coll : Collation} {fuel now : Nat} {s : State Unit} {t : List Menu}
  {nextMenuId : Int}

theorem Rests.closed (h : Rests t nextMenuId s) : Rests t nextMenuId s.closed :=
  ⟨h.committed, h.nextMenuId, Db.session_rollback⟩

/-- The session around a service call. -/
theorem serve_total (h : Rests t nextMenuId s) {req : Request} {t' : List Menu}
    {nextMenuId' : Int}
    (hcall : ∀ s', Quiet s s' → (call fuel req).total (healthy coll now) ()
      (fun _ s'' => Rests t' nextMenuId' s'') s') :
    (serve fuel req).total (healthy coll now) () (fun _ s' => Rests t' nextMenuId' s') s := by
  refine Infrastructure.total_inSession closed_closed ?_ ?_ ?_
  · intro Q s hQ
    refine ⟨⟨.ok (), s.closed, rfl, trivial⟩, ?_⟩
    rintro (e | _) s' hs
    · exact absurd hs.1.1 id
    · obtain ⟨rfl, _⟩ := hs
      exact hQ
  · intro Q s hQ
    refine ⟨⟨.ok (), s.closed, rfl, trivial⟩, ?_⟩
    rintro (e | _) s' hs
    · exact absurd hs.1.1 id
    · obtain ⟨rfl, _⟩ := hs
      exact hQ
  · refine h.quiet.total_select .selectUser (fun _ => ()) (fun _ _ => ⟨fun hs => ⟨rfl, hs⟩,
      fun hs => hs.2⟩) (fun _ => trivial) (fun _ he => he) fun s' h' => ?_
    exact total_mono (fun _ _ hrests => hrests.closed) (hcall s' h')

/-- Some sequence of requests leads to these menus. -/
def Reached (coll : Collation) (fuel : Nat) (t : List Menu) (nextMenuId : Int) (s : State Unit) :
    Prop :=
  ∃ log, Serial (sem coll) () (fun s s' => s' = s) (serve fuel) emptyState log s ∧
    Rests t nextMenuId s

theorem Reached.serve (h : Reached coll fuel t nextMenuId s) (now : Nat) (req : Request)
    {t' : List Menu} {nextMenuId' : Int}
    (hcall : ∀ s', Quiet s s' → (call fuel req).total (healthy coll now) ()
      (fun _ s'' => Rests t' nextMenuId' s'') s') :
    ∃ s', Reached coll fuel t' nextMenuId' s' := by
  obtain ⟨log, hserial, hrests⟩ := h
  obtain ⟨evs, o, s', hexec, hrests'⟩ := exec_of_total (fun _ => rfl) (serve_total hrests hcall)
  exact ⟨s', _, .serve hserial (exec_of_healthy hexec), hrests'⟩

theorem Reached.keyed (h : Reached coll fuel t nextMenuId s) :
    Keyed s.db.committed s.nextMenuId := by
  obtain ⟨log, hserial, _⟩ := h
  exact (tree_of_serial hserial).1.keyed

theorem Reached.create (h : Reached coll fuel t nextMenuId s) (payload : MenuCreate)
    (hparent : ∀ p, payload.menuParentId = some p → (parentOf t).Live p)
    (hfree : siblingsNamed t coll payload.menuParentId (some payload.menuName) = []) :
    ∃ s', Reached coll fuel (t ++ [⟨nextMenuId, payload.menuName, payload.menuParentId, none⟩])
      (nextMenuId + 1) s' := by
  have hrests := h.choose_spec.2
  refine h.serve 0 (.create payload) fun s' h' => ?_
  obtain ⟨rfl, rfl, _⟩ := hrests
  refine total_bind.mpr (total_mono ?_ (h'.total_create h.keyed payload hparent hfree))
  rintro o s'' ⟨rfl, hrests''⟩
  exact hrests''

theorem Reached.delete (h : Reached coll fuel t nextMenuId s) (now : Nat) (menu : Menu)
    (hmenu : menu ∈ t) (hlive : menu.deletedAt = none)
    (hchildless : childrenOf t (some menu.menuId) = [])
    (hfree : ¬ Clashes coll t menu (datetime now)) :
    ∃ s', Reached coll fuel (deleted t menu (datetime now)) nextMenuId s' := by
  have hrests := h.choose_spec.2
  refine h.serve now (.delete menu.menuId) fun s' h' => ?_
  obtain ⟨rfl, rfl, _⟩ := hrests
  refine total_bind.mpr (total_mono ?_ (h'.total_delete h.keyed hmenu hlive hchildless))
  intro o s'' hdone
  rw [if_neg hfree] at hdone
  obtain ⟨rfl, hrests''⟩ := hdone
  exact hrests''

def boards : Menu := ⟨1, "boards", none, none⟩

def free (menuId : Int) : Menu := ⟨menuId, "free", some 1, none⟩

/-- A menu has been deleted at the second 0 and created again. -/
def recreated : List Menu := [boards, { free 2 with deletedAt := some 0 }, free 3]

theorem reached_recreated : ∃ s, Reached binaryCollation 1 recreated 4 s := by
  have hempty : Reached binaryCollation 1 [] 1 emptyState := ⟨[], .nil, rfl, rfl, rfl⟩
  have hboards : ∀ t, boards ∈ t → ∀ p, some (1 : Int) = some p → (parentOf t).Live p := by
    rintro t hmem p ⟨⟩
    exact parentOf_isSome.mpr ⟨boards, hmem, rfl, rfl⟩
  obtain ⟨s₁, h₁⟩ := hempty.create ⟨"boards", none⟩ (by simp) rfl
  obtain ⟨s₂, h₂⟩ := h₁.create ⟨"free", some 1⟩ (hboards _ (by decide)) (by decide)
  obtain ⟨s₃, h₃⟩ := h₂.delete 0 (free 2) (by decide) rfl (by decide) (by decide)
  exact h₃.create ⟨"free", some 1⟩ (hboards _ (by decide)) (by decide)

/-- In the same second the new menu cannot be deleted. -/
theorem twice_in_a_second : ∃ log s,
    Serial (sem binaryCollation) () (fun s s' => s' = s) (serve 1) emptyState log s ∧
      free 3 ∈ s.db.committed ∧ childrenOf s.db.committed (some 3) = [] ∧
      ¬ (delete 3).total (healthy binaryCollation 0) () (Reusable binaryCollation (free 3)) s := by
  obtain ⟨s, log, hserial, hrests⟩ := reached_recreated
  obtain ⟨htree, hidle⟩ := tree_of_serial hserial
  have hmenu : free 3 ∈ s.db.committed := by
    rw [hrests.committed]
    decide
  have hchildless : childrenOf s.db.committed (some 3) = [] := by
    rw [hrests.committed]
    decide
  refine ⟨log, s, hserial, hmenu, hchildless, fun hreusable => ?_⟩
  obtain ⟨o, _, ⟨rfl, _⟩, hrefused⟩ := exists_of_total hreusable
    (hrests.quiet.total_delete htree.keyed hmenu rfl hchildless)
  rw [hrests.committed, if_pos (by decide)] at hrefused
  cases hrefused

/-- A second later it can. -/
theorem delete_reusable_iff_sample : ∃ log s,
    Serial (sem binaryCollation) () (fun s s' => s' = s) (serve 1) emptyState log s ∧
      (delete 3).total (healthy binaryCollation 1000000) ()
        (Reusable binaryCollation (free 3)) s := by
  obtain ⟨s, log, hserial, hrests⟩ := reached_recreated
  have hmenu : free 3 ∈ s.db.committed := by
    rw [hrests.committed]
    decide
  refine ⟨log, s, hserial, (delete_reusable_iff hserial hmenu rfl ?_).mpr ?_⟩ <;>
    rw [hrests.committed] <;> decide

end Samples

end GreenCommunity.Menus
