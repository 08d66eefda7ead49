import GreenCommunity.Base.Total
import GreenCommunity.Menus.Invariant

/-!
# Requests that nothing goes wrong around

What a request about menus comes to by itself, at a given time: the database is up, so an
operation fails only if the table does not take the row.
-/

namespace GreenCommunity.Menus

open GreenCommunity.Base
open GreenCommunity.Base.Prog
open GreenCommunity.Infrastructure (Collation oneOrNone)

/-- The clock reads `now`. -/
def Reading (now : Nat) : (op : Op) → Result op → Prop
  | .now, r => r = now
  | _, _ => True

def healthyStep (coll : Collation) (now : Nat) (c : Unit) (s : State Unit) (op : Op) :
    Reply op → State Unit → Prop
  | .ok r, s' => does coll c s op r s' ∧ Reading now op r
  | .error e, s' => (fails coll c s op e ∧ e ≠ .serviceError) ∧ s' = s

/-- The semantics of a request that nothing goes wrong around. -/
def healthy (coll : Collation) (now : Nat) : Sem Unit Op Reply (State Unit) where
  step := healthyStep coll now
  env s s' := s' = s

section Rules

variable {coll : Collation} {now : Nat} {s₀ s : State Unit} {α β : Type}

/-- What happens when all goes well also happens otherwise. -/
theorem exec_of_healthy {p : MenusM α} {evs : List (State Unit × MenusEvent)}
    {o : Option (Except AppError α)} {s' : State Unit}
    (h : Exec (healthy coll now) () s p evs o s') : Exec (sem coll) () s p evs o s' := by
  induction h with
  | ret => exact .ret
  | raise => exact .raise
  | stop => exact .stop
  | @call s s₀ s₁ s₂ op k r evs o hw hstep _ ih =>
      refine .call hw ?_ ih
      cases r with
      | ok r => exact hstep.1
      | error e => exact ⟨hstep.1.1, hstep.2⟩

/-- There is one session only. -/
theorem unblocked (db : Db Unit (List Menu) Write) (w : Write) : Unblocked coll db () w :=
  ⟨fun _ hc => absurd rfl hc, fun _ hc => absurd rfl hc⟩

variable {Q : Except AppError β → State Unit → Prop}

/-- A `SELECT`, with what it makes of the menus. -/
theorem Quiet.total_select (h : Quiet s₀ s) (op : Op) (f : List Menu → Result op)
    {k : Result op → MenusM β}
    (hop : ∀ r s', does coll () s op r s' ↔
      r = f (s.db.view apply ()) ∧ s' = { s with db := s.db.read () })
    (hreading : ∀ r, Reading now op r) (herr : ∀ e, fails coll () s op e → e = .serviceError)
    (hok : ∀ s', Quiet s₀ s' → (k (f s₀.db.committed)).total (healthy coll now) () Q s') :
    (perform op >>= k).total (healthy coll now) () Q s := by
  refine ⟨⟨.ok (f (s.db.view apply ())), _, (hop _ _).mpr ⟨rfl, rfl⟩, hreading _⟩, ?_⟩
  rintro (e | r) s' hs
  · exact absurd (herr e hs.1.1) hs.1.2
  · obtain ⟨rfl, rfl⟩ := (hop r s').mp hs.1
    rw [h.view]
    exact hok _ h.read

/-- The menu of a number. -/
theorem Quiet.total_getById (h : Quiet s₀ s) {nextMenuId : Int}
    (hkeyed : Keyed s₀.db.committed nextMenuId) (k : Int) {f : Option Menu → MenusM β}
    (hnone : (∀ menu ∈ s₀.db.committed, menu.deletedAt = none → menu.menuId ≠ k) →
      ∀ s', Quiet s₀ s' → (f none).total (healthy coll now) () Q s')
    (hsome : ∀ menu ∈ s₀.db.committed, menu.deletedAt = none → menu.menuId = k →
      ∀ s', Quiet s₀ s' → (f (some menu)).total (healthy coll now) () Q s') :
    (getById k >>= f).total (healthy coll now) () Q s := by
  unfold getById
  rw [Prog.bind_assoc]
  refine h.total_select (.selectMenu k) (fun t => menusById t k) (fun _ _ => Iff.rfl)
    (fun _ => trivial) (fun _ he => he) fun s' h' => ?_
  rcases hkeyed.menusById k with hrows | ⟨menu, hrows⟩
  · rw [hrows]
    refine hnone (fun menu hmenu hlive hid => ?_) s' h'
    have hmem := mem_menusById.mpr ⟨hmenu, hlive, hid⟩
    rw [hrows] at hmem
    cases hmem
  · rw [hrows]
    obtain ⟨hmenu, hlive, hid⟩ := mem_menusById.mp (by rw [hrows]; simp : menu ∈ _)
    exact hsome menu hmenu hlive hid s' h'

/-- A menu that is there is found. -/
theorem Quiet.total_getOr404 (h : Quiet s₀ s) (hkeyed : Keyed s₀.db.committed s₀.nextMenuId)
    {menu : Menu} (hmenu : menu ∈ s₀.db.committed) (hlive : menu.deletedAt = none)
    {f : Menu → MenusM β}
    (hok : ∀ s', Quiet s₀ s' → (f menu).total (healthy coll now) () Q s') :
    (getOr404 menu.menuId >>= f).total (healthy coll now) () Q s := by
  unfold getOr404
  rw [Prog.bind_assoc]
  refine h.total_getById hkeyed _ (fun hnone => absurd rfl (hnone menu hmenu hlive)) ?_
  intro menu' hmenu' _ hid s' h'
  obtain rfl := hkeyed.unique hmenu' hmenu hid
  exact hok s' h'

/-- The check of a name counts the siblings of that name. -/
theorem Quiet.total_ensureNameAvailable (h : Quiet s₀ s) (q : Option Int)
    (name : Option String) {Q : Except AppError Unit → State Unit → Prop}
    (htaken : siblingsNamed s₀.db.committed coll q name ≠ [] → ∀ s', Quiet s₀ s' →
      Q (.error (.conflict "같은 위치에 동일한 이름의 메뉴가 이미 있습니다.")) s')
    (hfree : siblingsNamed s₀.db.committed coll q name = [] → ∀ s', Quiet s₀ s' →
      Q (.ok ()) s') :
    (ensureNameAvailable q name).total (healthy coll now) () Q s := by
  unfold ensureNameAvailable existsByParentAndName
  rw [Prog.bind_assoc]
  refine h.total_select (.countByParentAndName q name)
    (fun t => (siblingsNamed t coll q name).length) (fun _ _ => Iff.rfl) (fun _ => trivial)
    (fun _ he => he) fun s' h' => ?_
  by_cases hrows : siblingsNamed s₀.db.committed coll q name = []
  · rw [hrows]
    exact hfree hrows s' h'
  · have hpos : ((siblingsNamed s₀.db.committed coll q name).length != 0) = true := by
      simpa using hrows
    show Prog.total _ _ (if ((siblingsNamed s₀.db.committed coll q name).length != 0) = true then _
      else _) _ _
    rw [if_pos hpos]
    exact htaken hrows s' h'

/-- The menus and the number that a commit would leave. -/
structure Unsaved (t : List Menu) (nextMenuId : Int) (s : State Unit) : Prop where
  current : s.db.current apply () = t
  nextMenuId : s.nextMenuId = nextMenuId

/-- A commit leaves no transaction open. -/
theorem Unsaved.total_commit {t : List Menu} {nextMenuId : Int} (h : Unsaved t nextMenuId s)
    {Q : Except AppError Unit → State Unit → Prop}
    (hok : ∀ s', s'.db.committed = t → s'.nextMenuId = nextMenuId →
      s'.db.session () = .idle → Q (.ok ()) s') :
    (perform .commit).total (healthy coll now) () Q s := by
  refine ⟨⟨.ok (), _, rfl, trivial⟩, ?_⟩
  rintro (e | _) s' hs
  · exact absurd hs.1.1 hs.1.2
  · obtain ⟨rfl, _⟩ := hs
    exact hok _ h.current h.nextMenuId Db.session_commit

/-- The row of a menu in which the name and the parent have been set. -/
def rewritten (t : List Menu) (menu : Menu) (menuName : String) (menuParentId : Option Int) :
    List Menu :=
  t.map fun row =>
    if row.menuId = menu.menuId then { row with menuName, menuParentId } else row

theorem changed_ne_null {old new : String} : changed (some old) (some new) ≠ some none := by
  unfold changed
  split <;> simp

/-- The UPDATE of what has changed sets the name and the parent. -/
theorem apply_changed (hkeyed : Keyed s₀.db.committed s₀.nextMenuId) {menu : Menu}
    (hmenu : menu ∈ s₀.db.committed) (menuName : String) (parent : Option Int) :
    apply s₀.db.committed (.update menu.menuId
      (changed (some menu.menuName) (some menuName)).join
      (changed menu.menuParentId parent) none) =
        rewritten s₀.db.committed menu menuName parent := by
  refine List.map_congr_left fun row hrow => ?_
  split
  next hid =>
    obtain rfl := hkeyed.unique hrow hmenu hid
    rw [Menu.set, changed_name, changed_getD, Option.none_or]
  next => rfl

theorem Quiet.admits_changed (h : Quiet s₀ s)
    (hkeyed : Keyed s₀.db.committed s₀.nextMenuId) {menu : Menu}
    (hmenu : menu ∈ s₀.db.committed) (hlive : menu.deletedAt = none) (menuName : String)
    (parent : Option Int) :
    Admits coll (s.db.current apply ()) (.update menu.menuId
      (changed (some menu.menuName) (some menuName)).join
      (changed menu.menuParentId parent) none) := by
  rw [h.current]
  refine admits_live fun row hrow hid => ?_
  rw [apply_changed hkeyed hmenu] at hrow
  obtain ⟨row', hrow', rfl⟩ := List.mem_map.mp hrow
  split at hid
  next hid' => rw [if_pos hid', hkeyed.unique hrow' hmenu hid', hlive]
  next hid' => exact absurd hid hid'

/-- The flush of an update: a name that is NULL is refused. -/
theorem Quiet.total_flushUpdate (h : Quiet s₀ s)
    (hkeyed : Keyed s₀.db.committed s₀.nextMenuId) {menu : Menu}
    (hmenu : menu ∈ s₀.db.committed) (hlive : menu.deletedAt = none) (name : Option String)
    (parent : Option Int) {Q : Except AppError Unit → State Unit → Prop}
    (hnull : name = none → ∀ s', Quiet s₀ s' → Q (.error .integrityError) s')
    (hok : ∀ menuName, name = some menuName → ∀ s',
      Unsaved (rewritten s₀.db.committed menu menuName parent) s₀.nextMenuId s' →
        Q (.ok ()) s') :
    (flushUpdate menu name parent).total (healthy coll now) () Q s := by
  unfold flushUpdate
  dsimp only
  split
  next hchanged =>
    cases name with
    | none =>
        refine ⟨⟨.error .integrityError, s, ⟨Or.inl (by simp [changed]), by simp⟩, rfl⟩, ?_⟩
        rintro (e | _) s' hs
        · obtain ⟨⟨hfail, hne⟩, rfl⟩ := hs
          cases e with
          | integrityError => exact hnull rfl s' h
          | _ => exact absurd hfail hne
        · exact absurd (by simp [changed]) hs.1.1
    | some menuName =>
        have hadmits : Admits coll (s.db.current apply ()) _ :=
          h.admits_changed hkeyed hmenu hlive menuName parent
        refine ⟨⟨.ok (), _, ⟨changed_ne_null, unblocked _ _, hadmits, rfl⟩, trivial⟩, ?_⟩
        rintro (e | _) s' hs
        · obtain ⟨⟨hfail, hne⟩, rfl⟩ := hs
          cases e with
          | integrityError =>
              exact absurd hfail (not_or.mpr ⟨changed_ne_null, not_not.mpr hadmits⟩)
          | _ => exact absurd hfail hne
        · obtain ⟨⟨_, _, _, rfl⟩, _⟩ := hs
          refine hok menuName rfl _ ⟨?_, h.nextMenuId⟩
          rw [Db.current_write, h.current, apply_changed hkeyed hmenu]
  next hsame =>
    cases name with
    | none => exact absurd (by simp [changed]) hsame
    | some menuName =>
        have hunchanged : changed (some menu.menuName) (some menuName) = none ∧
            changed menu.menuParentId parent = none := by
          simpa using hsame
        refine hok menuName rfl s ⟨?_, h.nextMenuId⟩
        rw [h.current, ← apply_changed hkeyed hmenu, hunchanged.1, hunchanged.2]
        refine (List.map_id _).symm.trans (List.map_congr_left fun row _ => ?_)
        simp [Menu.set]

end Rules

/-! ## Programs that only read -/

def Op.Reads : Op → Prop
  | .insertMenu _ _ | .updateMenu _ _ _ _ | .now | .commit | .rollback | .close => False
  | _ => True

section Reading

variable {coll : Collation} {now : Nat} {s₀ s s' : State Unit} {α : Type}

/-- A read answers the same wherever the same menus are committed. -/
theorem Quiet.step_reads {op : Op} (hop : op.Reads) {r : Reply op} (h : Quiet s₀ s)
    (h' : Quiet s₀ s') {s₁ : State Unit} (hs : (healthy coll now).step () s op r s₁) :
    (healthy coll now).step () s' op r { s' with db := s'.db.read () } ∧
      s₁ = { s with db := s.db.read () } := by
  have hview : s'.db.view apply () = s.db.view apply () := by rw [h.view, h'.view]
  have herr : ∀ e, ¬ (fails coll () s op e ∧ e ≠ .serviceError) := by
    rintro e ⟨hfail, hne⟩
    cases op <;> first | exact hne hfail | exact hop | exact hfail
  cases r with
  | error e => exact absurd hs.1 (herr e)
  | ok r =>
      obtain ⟨hdoes, _⟩ := hs
      cases op <;> first
        | exact hop.elim
        | exact r.elim
        | (simp only [does] at hdoes
           simp [healthy, healthyStep, does, Reading, hview, hdoes])

/-- What comes of such a program depends on the committed menus only. -/
theorem total_reading {p : MenusM α} (hp : p.Every Op.Reads) {P : Except AppError α → Prop} :
    ∀ {s s' : State Unit}, Quiet s₀ s → Quiet s₀ s' →
      p.total (healthy coll now) () (fun o _ => P o) s →
        p.total (healthy coll now) () (fun o s'' => P o ∧ Quiet s₀ s'') s' := by
  induction p with
  | ret a => exact fun _ h' hP => ⟨hP, h'⟩
  | raise e => exact fun _ h' hP => ⟨hP, h'⟩
  | call op k ih =>
      intro s s' h h' htotal
      obtain ⟨⟨r, s₁, hs⟩, hall⟩ := htotal
      refine ⟨⟨r, _, (h.step_reads hp.1 h' hs).1⟩, fun r s₁' hs' => ?_⟩
      obtain ⟨hstep, rfl⟩ := h'.step_reads hp.1 h hs'
      exact ih r (hp.2 r) h.read h'.read (hall r _ hstep)

theorem getById_reads (k : Int) : (getById k).Every Op.Reads :=
  every_bind (Infrastructure.every_perform trivial) fun _ => Infrastructure.every_oneOrNone

theorem ensureParentExists_reads (q : Option Int) : (ensureParentExists q).Every Op.Reads := by
  cases q with
  | none => trivial
  | some p =>
      refine every_bind (every_bind (Infrastructure.every_perform trivial) fun _ => trivial) ?_
      intro found
      cases found <;> trivial

theorem walk_reads (m : Int) (fuel : Nat) :
    ∀ cursor, (walk m fuel cursor).Every Op.Reads := by
  induction fuel with
  | zero =>
      intro cursor
      cases cursor with
      | none => trivial
      | some p => exact every_bind (Infrastructure.every_perform trivial) fun never => never.elim
  | succ fuel ih =>
      intro cursor
      cases cursor with
      | none => trivial
      | some p =>
          rw [walk]
          split
          · trivial
          · refine every_bind (getById_reads p) fun found => ?_
            cases found with
            | none => trivial
            | some parent => exact ih parent.menuParentId

theorem ensureMovable_reads (fuel : Nat) (m : Int) (q : Option (Option Int)) :
    (ensureMovable fuel m q).Every Op.Reads := by
  match q with
  | none => trivial
  | some none => trivial
  | some (some p) =>
      refine every_bind (ensureParentExists_reads (some p)) fun _ => ?_
      rw [ensureNotOwnDescendant]
      split
      · trivial
      · exact walk_reads m fuel (some p)

end Reading

end GreenCommunity.Menus
