import GreenCommunity.Menus.Service
import GreenCommunity.Menus.Tree

/-!
# The menus stay a tree

Run one at a time, creating, updating and deleting menus keeps them a forest in which
siblings have different names, whatever the requests are and however they end.  No
constraint of the database is behind this: each request reads what `Fits` and `Named`
ask of its write, and alone it reads what is committed.
-/

namespace GreenCommunity.Menus

open GreenCommunity.Base
open GreenCommunity.Base.Prog
open GreenCommunity.Infrastructure (Collation wp_perform wp_oneOrNone)
open Relation (ReflTransGen)

/-- What holds of the committed menus. -/
structure Tree {C : Type} (coll : Collation) (s : State C) : Prop where
  keyed : Keyed s.db.committed s.nextMenuId
  forest : (parentOf s.db.committed).Forest
  siblings : Siblings coll s.db.committed

/-- Since `s₀`, the only request has read and not written. -/
structure Quiet (s₀ s : State Unit) : Prop where
  committed : s.db.committed = s₀.db.committed
  nextMenuId : s.nextMenuId = s₀.nextMenuId
  fresh : s.db.Fresh ()
  writes : (s.db.session ()).writes = []

/-- A program that only reads: `P` is what its result says about `s₀`. -/
def Reads {α : Type} (s₀ : State Unit) (P : α → Prop) (o : Except AppError α)
    (s : State Unit) : Prop :=
  Quiet s₀ s ∧ ∀ a, o = .ok a → P a

section Quiet

variable {s₀ s : State Unit} {coll : Collation}

theorem Quiet.current (h : Quiet s₀ s) :
    s.db.current Menus.apply () = s₀.db.committed := by
  simp [Db.current, h.writes, h.committed]

theorem Quiet.view (h : Quiet s₀ s) : s.db.view Menus.apply () = s₀.db.committed := by
  rw [h.fresh.view_eq, h.current]

theorem Quiet.read (h : Quiet s₀ s) : Quiet s₀ { s with db := s.db.read () } :=
  ⟨h.committed, h.nextMenuId, h.fresh.read, by simpa using h.writes⟩

theorem Quiet.le (h : Quiet s₀ s) : s₀.nextMenuId ≤ s.nextMenuId :=
  Int.le_of_eq h.nextMenuId.symm

theorem Quiet.tree (h : Quiet s₀ s) (ht : Tree coll s₀) : Tree coll s := by
  obtain ⟨hkeyed, hforest, hsiblings⟩ := ht
  exact ⟨by rwa [h.committed, h.nextMenuId], by rwa [h.committed], by rwa [h.committed]⟩

/-- A read, and then the rest of the program. -/
theorem wp_reads {α β : Type} {P : α → Prop} {p : MenusM α} {f : α → MenusM β}
    {Q : Except AppError β → State Unit → Prop}
    (hp : p.wp (sem coll) () (Reads s₀ P) s)
    (herr : ∀ e s', Quiet s₀ s' → Q (.error e) s')
    (hok : ∀ a s', Quiet s₀ s' → P a → (f a).wp (sem coll) () Q s') :
    (p >>= f).wp (sem coll) () Q s := by
  refine wp_bind.mpr (wp_mono ?_ hp)
  rintro (e | a) s' ⟨hq, ha⟩
  · exact herr e s' hq
  · exact hok a s' hq (ha a rfl)

/-- A read and a pure check of its result. -/
theorem wp_reads_bind {α β : Type} {P : α → Prop} {R : β → Prop} {p : MenusM α}
    {f : α → MenusM β} (hp : p.wp (sem coll) () (Reads s₀ P) s)
    (hok : ∀ a s', Quiet s₀ s' → P a → (f a).wp (sem coll) () (Reads s₀ R) s') :
    (p >>= f).wp (sem coll) () (Reads s₀ R) s :=
  wp_reads hp (fun _ _ hq => ⟨hq, nofun⟩) hok

theorem reads_ret {α : Type} {P : α → Prop} {a : α} (h : Quiet s₀ s) (ha : P a) :
    (ret a : MenusM α).wp (sem coll) () (Reads s₀ P) s := by
  refine ⟨h, ?_⟩
  rintro _ ⟨⟩
  exact ha

theorem reads_raise {α : Type} {P : α → Prop} {e : AppError} (h : Quiet s₀ s) :
    (raise e : MenusM α).wp (sem coll) () (Reads s₀ P) s := ⟨h, nofun⟩

/-- A `SELECT`. -/
theorem reads_select (op : Op) (f : List Menu → Result op) (h : Quiet s₀ s)
    (hop : ∀ r s', (sem coll).step () s op (.ok r) s' →
      r = f (s.db.view apply ()) ∧ s' = { s with db := s.db.read () })
    (herr : ∀ e s', (sem coll).step () s op (.error e) s' → s' = s) :
    (perform op).wp (sem coll) () (Reads s₀ (· = f s₀.db.committed)) s := by
  refine wp_perform ?_ ?_
  · intro r s' hs
    obtain ⟨rfl, rfl⟩ := hop r s' hs
    refine ⟨h.read, ?_⟩
    rintro _ ⟨⟩
    rw [h.view]
  · intro e s' hs
    rw [herr e s' hs]
    exact ⟨h, nofun⟩

end Quiet

/-! ## What the checks establish -/

section Checks

variable {s₀ s : State Unit} {coll : Collation}

theorem getById_wp (ht : Tree coll s₀) (h : Quiet s₀ s) (k : Int) :
    (getById k).wp (sem coll) ()
      (Reads s₀ (· = (menusById s₀.db.committed k).head?)) s := by
  refine wp_reads_bind (reads_select (.selectMenu k) (fun t => menusById t k) h
    (fun _ _ hs => hs) fun _ _ hs => hs.2) ?_
  rintro rows s' hq rfl
  refine wp_oneOrNone (ht.keyed.menusById k) ⟨hq, ?_⟩
  rintro _ ⟨⟩
  rfl

theorem getOr404_wp (ht : Tree coll s₀) (h : Quiet s₀ s) (k : Int) :
    (getOr404 k).wp (sem coll) ()
      (Reads s₀ fun menu => menu ∈ s₀.db.committed ∧ menu.deletedAt = none ∧
        menu.menuId = k) s := by
  refine wp_reads_bind (getById_wp ht h k) ?_
  intro found s' hq hfound
  cases found with
  | none => exact reads_raise hq
  | some menu => exact reads_ret hq (mem_menusById.mp (List.mem_of_mem_head? hfound.symm))

theorem ensureParentExists_wp (h : Quiet s₀ s) (q : Option Int) :
    (ensureParentExists q).wp (sem coll) ()
      (Reads s₀ fun _ => ∀ p, q = some p → (parentOf s₀.db.committed).Live p) s := by
  cases q with
  | none => exact reads_ret h nofun
  | some p =>
      refine wp_reads_bind (P := fun b => b = true → (parentOf s₀.db.committed).Live p)
        (wp_reads_bind (reads_select (.countById p) (fun t => (menusById t p).length) h
          (fun _ _ hs => hs) fun _ _ hs => hs.2) ?_) ?_
      · rintro count s' hq rfl
        refine reads_ret hq fun hcount => ?_
        rw [bne_iff_ne, ne_eq, List.length_eq_zero_iff] at hcount
        obtain ⟨row, hrow⟩ := List.exists_mem_of_ne_nil _ hcount
        exact parentOf_isSome.mpr ⟨row, mem_menusById.mp hrow⟩
      · intro b s' hq hb
        cases b with
        | false => exact reads_raise hq
        | true =>
            refine reads_ret hq ?_
            rintro _ ⟨⟩
            exact hb rfl

theorem ensureNameAvailable_wp (h : Quiet s₀ s) (q : Option Int) (name : Option String) :
    (ensureNameAvailable q name).wp (sem coll) ()
      (Reads s₀ fun _ => ∀ n, name = some n → ∀ row ∈ s₀.db.committed,
        row.deletedAt = none → row.menuParentId = q →
          coll.same row.menuName n = false) s := by
  refine wp_reads_bind
    (P := fun b => b = false → siblingsNamed s₀.db.committed coll q name = [])
    (wp_reads_bind (reads_select (.countByParentAndName q name)
      (fun t => (siblingsNamed t coll q name).length) h (fun _ _ hs => hs)
      fun _ _ hs => hs.2) ?_) ?_
  · rintro count s' hq rfl
    refine reads_ret hq fun hcount => ?_
    rwa [bne_eq_false_iff_eq, List.length_eq_zero_iff] at hcount
  · intro b s' hq hb
    cases b with
    | true => exact reads_raise hq
    | false =>
        refine reads_ret hq ?_
        rintro n rfl row hrow hlive hp
        by_contra hsame
        have hmem := mem_siblingsNamed.mpr ⟨hrow, hlive, hp, Bool.not_eq_false _ ▸ hsame⟩
        rw [hb rfl] at hmem
        cases hmem

/-- A walk that returns has not met the menu. -/
theorem walk_wp (ht : Tree coll s₀) (m : Int) (fuel : Nat) :
    ∀ {s : State Unit} (cursor : Option Int), Quiet s₀ s →
      (walk m fuel cursor).wp (sem coll) () (Reads s₀ fun _ => ∀ p, cursor = some p →
        ¬ ReflTransGen (parentOf s₀.db.committed).Up p m) s := by
  induction fuel with
  | zero =>
      intro s cursor h
      cases cursor with
      | none => exact reads_ret h nofun
      | some p =>
          rintro (e | never) s' hs
          · exact absurd hs.1 id
          · exact nomatch never
  | succ fuel ih =>
      intro s cursor h
      cases cursor with
      | none => exact reads_ret h nofun
      | some p =>
          rw [walk]
          by_cases hp : p = m
          · rw [if_pos hp]
            exact reads_raise h
          rw [if_neg hp]
          refine wp_reads_bind (getById_wp ht h p) ?_
          intro found s' hq hfound
          -- the first step of a way up from `p` to `m` goes to its parent
          have hstep : ∀ {x : Prop}, ReflTransGen (parentOf s₀.db.committed).Up p m →
              (∀ q, (parentOf s₀.db.committed).Up p q →
                ReflTransGen (parentOf s₀.db.committed).Up q m → x) → x := by
            intro x hreach hx
            rcases hreach.cases_head with heq | ⟨q, hup, hrest⟩
            · exact absurd heq hp
            · exact hx q hup hrest
          cases found with
          | none =>
              refine reads_ret hq ?_
              rintro _ ⟨⟩ hreach
              refine hstep hreach fun q hup _ => ?_
              obtain ⟨row, hrow⟩ := parentOf_isSome.mp hup.live
              have hmem := mem_menusById.mpr hrow
              rw [List.head?_eq_none_iff.mp hfound.symm] at hmem
              cases hmem
          | some parent =>
              have hrow := mem_menusById.mp (List.mem_of_mem_head? hfound.symm)
              refine wp_mono ?_ (ih parent.menuParentId hq)
              rintro o s'' ⟨hq', hoff⟩
              refine ⟨hq', ?_⟩
              rintro _ ho _ ⟨⟩ hreach
              refine hstep hreach fun q hup hrest => hoff () ho q ?_ hrest
              have hpar := ht.keyed.parentOf.mpr ⟨parent, hrow.1, hrow.2.1, hrow.2.2, rfl⟩
              rw [Parents.Up, hpar] at hup
              simpa using hup

theorem ensureMovable_wp (ht : Tree coll s₀) (h : Quiet s₀ s) (fuel : Nat) (m : Int)
    (q : Option (Option Int)) :
    (ensureMovable fuel m q).wp (sem coll) () (Reads s₀ fun _ => ∀ p, q = some (some p) →
      (parentOf s₀.db.committed).Live p ∧
        ¬ ReflTransGen (parentOf s₀.db.committed).Up p m) s := by
  match q with
  | none => exact reads_ret h nofun
  | some none => exact reads_ret h nofun
  | some (some p) =>
      refine wp_reads_bind (ensureParentExists_wp h (some p)) ?_
      intro _ s' hq hlive
      rw [ensureNotOwnDescendant]
      by_cases hp : m = p
      · rw [if_pos hp]
        exact reads_raise hq
      rw [if_neg hp]
      refine wp_mono ?_ (walk_wp ht m fuel (some p) hq)
      rintro o s'' ⟨hq', hoff⟩
      refine ⟨hq', ?_⟩
      rintro a ho _ ⟨⟩
      exact ⟨hlive p rfl, hoff a ho p rfl⟩

end Checks

/-! ## The operations -/

section Operations

variable {s₀ s : State Unit} {coll : Collation}

/-- The commit of one write. -/
theorem Tree.commit {s' : State Unit} {w : Write} (ht : Tree coll s₀)
    (hcurrent : s'.db.current apply () = apply s₀.db.committed w)
    (hfresh : w.Fresh s₀.db.committed) (hnext : s₀.nextMenuId ≤ s'.nextMenuId)
    (hid : ∀ menu, w = .insert menu → menu.menuId < s'.nextMenuId)
    (hfits : Fits s₀.db.committed w) (hnamed : Named coll s₀.db.committed w) :
    Tree coll { s' with db := s'.db.commit apply () } where
  keyed := by
    show Keyed (s'.db.current apply ()) s'.nextMenuId
    rw [hcurrent]
    refine Keyed.apply ⟨ht.keyed.nodup, fun row hrow => ?_⟩ hfresh hid
    exact Int.lt_of_lt_of_le (ht.keyed.below row hrow) hnext
  forest := by
    show (parentOf (s'.db.current apply ())).Forest
    rw [hcurrent]
    exact (forest_apply ht.forest hfresh).mpr hfits
  siblings := by
    show Siblings coll (s'.db.current apply ())
    rw [hcurrent]
    exact (siblings_apply ht.siblings hfresh).mpr hnamed

/-- `COMMIT`: it takes effect or it fails. -/
theorem commit_wp {α : Type} {a : α} (h : Tree coll s)
    (hcommit : Tree coll { s with db := s.db.commit apply () }) :
    (perform .commit >>= fun _ => (ret a : MenusM α)).wp (sem coll) ()
      (fun _ s' => Tree coll s') s := by
  refine wp_bind.mpr (wp_perform ?_ ?_)
  · rintro _ _ rfl
    exact hcommit
  · rintro _ _ ⟨_, rfl⟩
    exact h

/-- A written row is not committed yet. -/
theorem Quiet.tree_write (h : Quiet s₀ s) (ht : Tree coll s₀) {w : Write} {n : Int}
    (hn : s₀.nextMenuId ≤ n) :
    Tree coll (⟨s.db.write () w, n⟩ : State Unit) where
  keyed := by
    refine ⟨?_, fun row hrow => ?_⟩
    · rw [Db.committed_write, h.committed]
      exact ht.keyed.nodup
    · rw [Db.committed_write, h.committed] at hrow
      exact Int.lt_of_lt_of_le (ht.keyed.below row hrow) hn
  forest := by
    rw [Db.committed_write, h.committed]
    exact ht.forest
  siblings := by
    rw [Db.committed_write, h.committed]
    exact ht.siblings

theorem create_wp (ht : Tree coll s₀) (h : Quiet s₀ s) (payload : MenuCreate) :
    (create payload).wp (sem coll) () (fun _ s' => Tree coll s') s := by
  refine wp_reads (ensureParentExists_wp h _) (fun _ _ hq => hq.tree ht) ?_
  intro _ s₁ hq hparent
  refine wp_reads (ensureNameAvailable_wp hq _ _) (fun _ _ hq => hq.tree ht) ?_
  intro _ s₂ hq hname
  refine wp_bind.mpr (wp_perform ?_ ?_)
  · rintro menuId _ ⟨rfl, _, _, rfl⟩
    have hnext : s₀.nextMenuId ≤ s₂.nextMenuId + 1 := by
      have hle := hq.le
      omega
    refine commit_wp (hq.tree_write ht hnext) (ht.commit (w := .insert
      ⟨s₂.nextMenuId, payload.menuName, payload.menuParentId, none⟩) ?_ ⟨rfl, ?_⟩ hnext ?_
      hparent (hname _ rfl))
    · rw [Db.current_write, hq.current]
    · intro row hrow
      have hlt := ht.keyed.below row hrow
      rw [← hq.nextMenuId] at hlt
      exact Int.ne_of_lt hlt
    · rintro menu ⟨⟩
      show s₂.nextMenuId < s₂.nextMenuId + 1
      omega
  · rintro e _ ⟨_, rfl⟩
    exact hq.tree ht

/-- What the changed value of a column makes of the loaded one. -/
theorem changed_getD {α : Type} [DecidableEq α] (loaded value : α) :
    (changed loaded value).getD loaded = value := by
  unfold changed
  split
  · rename_i heq
    exact heq.symm
  · rfl

/-- A parent that an update sets was named by the request. -/
private theorem sent_parent {menu : Menu} {sent : Option (Option Int)} {p : Int}
    (h : changed menu.menuParentId (sent.getD menu.menuParentId) = some (some p)) :
    sent = some (some p) := by
  unfold changed at h
  split at h
  · cases h
  · rename_i hne
    cases sent with
    | none => exact absurd rfl hne
    | some q => rw [← Option.some.inj h, Option.getD_some]

/-- The name that an update leaves in the row. -/
theorem changed_name (menu : Menu) (n : String) :
    (changed (some menu.menuName) (some n)).join.getD menu.menuName = n := by
  unfold changed
  split
  · rename_i heq
    exact (Option.some.inj heq).symm
  · rfl

/-- The duplicate check of an update covers what the `UPDATE` asks of the names. -/
private theorem named_update (ht : Tree coll s₀) {menu : Menu}
    (hmem : menu ∈ s₀.db.committed) {q : Option Int} {name : Option String}
    (hnotnull : changed (some menu.menuName) name ≠ some none)
    (hname : ∀ n, name = some n → ∀ row ∈ s₀.db.committed, row.deletedAt = none →
      row.menuParentId = q → coll.same row.menuName n = false) :
    Named coll s₀.db.committed (.update menu.menuId
      (changed (some menu.menuName) name).join (changed menu.menuParentId q) none) := by
  intro row hrow hid _ row' hrow' _ hlive' hp
  obtain rfl := ht.keyed.unique hrow hmem hid
  rw [changed_getD] at hp
  cases name with
  | none => exact absurd (by simp [changed]) hnotnull
  | some n =>
      rw [changed_name]
      exact hname n rfl row' hrow' hlive' hp

theorem update_wp (ht : Tree coll s₀) (h : Quiet s₀ s) (fuel : Nat) (m : Int)
    (payload : MenuUpdate) :
    (update fuel m payload).wp (sem coll) () (fun _ s' => Tree coll s') s := by
  refine wp_reads (getOr404_wp ht h m) (fun _ _ hq => hq.tree ht) ?_
  rintro menu s₁ hq ⟨hmem, _, hid⟩
  refine wp_reads (ensureMovable_wp ht hq fuel m _) (fun _ _ hq => hq.tree ht) ?_
  intro _ s₂ hq hmovable
  generalize hparent : payload.menuParentId.getD menu.menuParentId = newParentId
  generalize payload.menuName.getD (some menu.menuName) = newName
  -- the name check, where the row's place or name changes
  refine wp_reads (P := fun _ => newParentId ≠ menu.menuParentId ∨
      newName ≠ some menu.menuName → ∀ n, newName = some n → ∀ row ∈ s₀.db.committed,
        row.deletedAt = none → row.menuParentId = newParentId →
          coll.same row.menuName n = false) (Q := fun _ s' => Tree coll s') ?_
    (fun _ _ hq => hq.tree ht) ?_
  · rw [ensureRenamable]
    split
    · refine wp_mono ?_ (ensureNameAvailable_wp hq newParentId newName)
      exact fun o s' hr => ⟨hr.1, fun a ha _ => hr.2 a ha⟩
    · exact reads_ret hq fun hne => absurd hne ‹_›
  intro _ s₃ hq hname
  rw [flushUpdate]
  split
  · rename_i hchanged
    refine wp_bind.mpr (wp_perform ?_ ?_)
    · rintro _ _ ⟨hnotnull, _, _, rfl⟩
      refine commit_wp (hq.tree_write ht hq.le) (ht.commit (w := .update menu.menuId
        (changed (some menu.menuName) newName).join (changed menu.menuParentId newParentId)
        none) ?_ trivial hq.le nofun ?_ (named_update ht hmem hnotnull (hname ?_)))
      · rw [Db.current_write, hq.current]
      · intro _ p hp
        rw [hid]
        exact hmovable p (sent_parent (hparent ▸ hp))
      · by_contra hsame
        simp only [not_or, not_not] at hsame
        simp [changed, hsame.1, hsame.2] at hchanged
    · rintro e _ ⟨_, rfl⟩
      exact hq.tree ht
  · refine commit_wp (hq.tree ht) ?_
    have hsame : s₃.db.current apply () = s₃.db.committed := by
      rw [hq.current, hq.committed]
    exact ⟨by rw [Db.committed_commit, hsame]; exact (hq.tree ht).keyed,
      by rw [Db.committed_commit, hsame]; exact (hq.tree ht).forest,
      by rw [Db.committed_commit, hsame]; exact (hq.tree ht).siblings⟩

theorem delete_wp (ht : Tree coll s₀) (h : Quiet s₀ s) (m : Int) :
    (delete m).wp (sem coll) () (fun _ s' => Tree coll s') s := by
  refine wp_reads (getOr404_wp ht h m) (fun _ _ hq => hq.tree ht) ?_
  rintro menu s₁ hq ⟨_, _, hid⟩
  refine wp_reads (reads_select (.selectChildren (some m)) (fun t => childrenOf t (some m))
    hq (fun _ _ hs => hs) fun _ _ hs => hs.2) (fun _ _ hq => hq.tree ht) ?_
  rintro children s₂ hq rfl
  split
  · exact hq.tree ht
  rename_i hnone
  refine wp_bind.mpr (wp_perform ?_ ?_)
  · rintro now _ rfl
    refine wp_bind.mpr (wp_perform ?_ ?_)
    · rintro _ _ ⟨_, _, _, rfl⟩
      refine wp_mono (fun _ _ h => h) (wp_perform (Q := fun _ s' => Tree coll s') ?_ ?_)
      · rintro _ _ rfl
        refine ht.commit (w := .update menu.menuId none none
          (some (Infrastructure.datetime now))) ?_ trivial hq.le nofun ?_
          trivial
        · rw [Db.current_write, hq.current]
          rfl
        · intro c hc
          rw [hid] at hc
          obtain ⟨row, hrow, hlive, _, hp⟩ := ht.keyed.parentOf.mp hc
          have hchild := mem_childrenOf.mpr ⟨hrow, hlive, hp⟩
          rw [not_not.mp hnone] at hchild
          cases hchild
      · rintro _ _ ⟨_, rfl⟩
        exact hq.tree_write ht hq.le
    · rintro e _ ⟨_, rfl⟩
      exact hq.tree ht
  · rintro e _ ⟨hfail, _⟩
    exact absurd hfail id

/-- What rolling back makes of a state. -/
def State.closed (s : State Unit) : State Unit := { s with db := s.db.rollback () }

theorem closed_closed (s : State Unit) : s.closed.closed = s.closed := by
  simp [State.closed, Db.rollback]

/-- Every request keeps the tree and leaves no transaction open. -/
theorem serve_wp (ht : Tree coll s) (hidle : s.db.session () = .idle) (fuel : Nat)
    (req : Request) :
    (serve fuel req).wp (sem coll) () (fun _ s' => Tree coll s' ∧
      s'.db.session () = .idle) s := by
  have hq : Quiet s s := ⟨rfl, rfl, Db.fresh_of_idle hidle, by rw [hidle]; rfl⟩
  refine Infrastructure.wp_inSession closed_closed ?_ ?_ ?_
  · intro Q s hQ
    refine wp_perform ?_ ?_
    · rintro _ _ rfl
      exact hQ
    · rintro _ _ ⟨hfail, _⟩
      exact absurd hfail id
  · intro Q s hQ
    refine wp_perform ?_ ?_
    · rintro _ _ rfl
      exact hQ
    · rintro _ _ ⟨hfail, _⟩
      exact absurd hfail id
  refine wp_mono (Q := fun _ s' => Tree coll s')
    (fun _ s' h => ⟨⟨h.keyed, h.forest, h.siblings⟩, Db.session_rollback⟩) ?_
  refine wp_bind.mpr (wp_perform ?_ ?_)
  · rintro _ _ rfl
    cases req with
    | create payload => exact wp_bind.mpr (wp_mono (fun o _ h => by cases o <;> exact h)
        (create_wp ht hq.read payload))
    | update m payload => exact wp_bind.mpr (wp_mono (fun o _ h => by cases o <;> exact h)
        (update_wp ht hq.read fuel m payload))
    | delete m => exact wp_bind.mpr (wp_mono (fun o _ h => by cases o <;> exact h)
        (delete_wp ht hq.read m))
  · rintro _ _ ⟨_, rfl⟩
    exact ht

end Operations

/-! ## Runs -/

section Main

variable {coll : Collation} {fuel : Nat} {init s : State Unit}
  {log : List (Served Request Op Reply AppError (Option Menu) (State Unit))}

/-- There is no menu yet. -/
def emptyState : State Unit where
  db := { committed := [], session := fun _ => .idle }
  nextMenuId := 1

theorem tree_emptyState : Tree coll emptyState where
  keyed := ⟨List.nodup_nil, nofun⟩
  forest _ hlive := by cases hlive
  siblings := nofun

/-- The invariant of all sequences of requests. -/
theorem tree_of_serial
    (h : Serial (sem coll) () (fun s s' => s' = s) (serve fuel) emptyState log s) :
    Tree coll s ∧ s.db.session () = .idle := by
  refine Serial.inv (fun _ s => Tree coll s ∧ s.db.session () = .idle)
    ⟨tree_emptyState, rfl⟩ ?_ ?_ h
  · rintro log s _ hs rfl
    exact hs
  · intro log s s' req evs o _ hs hx
    exact hx.wp (fun _ _ => id) (serve_wp hs.1 hs.2 fuel req)

/-- After any sequence of requests: every menu that is not deleted reaches a root
through menus that are not deleted, and no two of them have the same parent and the
same name. -/
theorem menus_stay_tree
    (h : Serial (sem coll) () (fun s s' => s' = s) (serve fuel) emptyState log s) :
    (parentOf s.db.committed).Forest ∧ Siblings coll s.db.committed := by
  obtain ⟨htree, _⟩ := tree_of_serial h
  exact ⟨htree.forest, htree.siblings⟩

end Main

/-! ## A sample history -/

section Sample

open Infrastructure (binaryCollation)

/-- The state between two requests. -/
def resting (t : List Menu) (nextMenuId : Int) : State Unit where
  db := { committed := t, session := fun _ => .idle }
  nextMenuId := nextMenuId

/-- The execution of events with nobody else about. -/
private theorem served_of_chain (es : List MenusEvent) {fuel : Nat} {req : Request}
    {t t' : List Menu} {n n' : Int} {o : Option Menu} {s : State Unit}
    (hruns : (serve fuel req).Runs es (.ret o))
    (hchain : Chain (sem binaryCollation) (resting t n) (es.map (.call ())) s)
    (hs : s.db.committed = t' ∧ s.db.session () = .idle ∧ s.nextMenuId = n') :
    ∃ evs, Exec (sem binaryCollation) () (resting t n) (serve fuel req) evs
      (some (.ok o)) (resting t' n') := by
  obtain ⟨evs, _, _, hx⟩ := Exec.of_chain (P := fun _ => True) (fun _ => rfl)
    (fun _ _ _ _ h _ => h) hruns rfl trivial hchain
  obtain ⟨⟨_, session⟩, _⟩ := s
  obtain ⟨rfl, hidle, rfl⟩ := hs
  obtain rfl : session = fun _ => .idle := funext fun _ => hidle
  exact ⟨evs, hx⟩

/-- A write that leaves the unique key alone meets nobody. -/
private theorem writes_alone {s : State Unit} {w : Write}
    (h : ∀ row ∈ apply (s.db.current apply ()) w, row.menuId = w.menuId →
      ∀ row' ∈ apply (s.db.current apply ()) w, ¬ row.Duplicates binaryCollation row') :
    writes binaryCollation () s w { s with db := s.db.write () w } :=
  ⟨⟨fun _ hc => absurd rfl hc, fun _ hc => absurd rfl hc⟩, h, rfl⟩

/-- A new top-level menu. -/
private theorem created_top (t : List Menu) (n : Int) (name : String)
    (hname : 0 = (siblingsNamed t binaryCollation none (some name)).length)
    (hlive : ∀ row ∈ t, row.deletedAt = none) :
    ∃ evs, Exec (sem binaryCollation) () (resting t n) (serve 3 (.create ⟨name, none⟩)) evs
      (some (.ok (some ⟨n, name, none, none⟩)))
      (resting (t ++ [⟨n, name, none, none⟩]) (n + 1)) := by
  refine served_of_chain [⟨.selectUser, .ok ()⟩,
      ⟨.countByParentAndName none (some name), .ok (0 : Nat)⟩,
      ⟨.insertMenu name none, .ok n⟩, ⟨.commit, .ok ()⟩, ⟨.close, .ok ()⟩]
    (.cons (.cons (.cons (.cons (.cons .nil)))))
    (.call rfl (.call ⟨hname, rfl⟩ (.call ⟨rfl, writes_alone ?_⟩
      (.call rfl (.call rfl .nil)))))
    ⟨rfl, rfl, rfl⟩
  refine admits_live fun row hrow _ => ?_
  rcases List.mem_append.mp hrow with hold | hnew
  · exact hlive row hold
  · rw [List.mem_singleton.mp hnew]

/-- A child of the first. -/
private theorem create_rules : ∃ evs, Exec (sem binaryCollation) ()
    (resting [⟨1, "notice", none, none⟩, ⟨2, "board", none, none⟩] 3)
    (serve 3 (.create ⟨"rules", some 1⟩)) evs (some (.ok (some ⟨3, "rules", some 1, none⟩)))
    (resting [⟨1, "notice", none, none⟩, ⟨2, "board", none, none⟩, ⟨3, "rules", some 1, none⟩]
      4) :=
  served_of_chain [⟨.selectUser, .ok ()⟩, ⟨.countById 1, .ok (1 : Nat)⟩,
      ⟨.countByParentAndName (some 1) (some "rules"), .ok (0 : Nat)⟩,
      ⟨.insertMenu "rules" (some 1), .ok (3 : Int)⟩, ⟨.commit, .ok ()⟩, ⟨.close, .ok ()⟩]
    (.cons (.cons (.cons (.cons (.cons (.cons .nil))))))
    (.call rfl (.call ⟨rfl, rfl⟩ (.call ⟨rfl, rfl⟩ (.call ⟨rfl, writes_alone (by decide)⟩
      (.call rfl (.call rfl .nil))))))
    ⟨rfl, rfl, rfl⟩

/-- The child moves under the second. -/
private theorem move_rules : ∃ evs, Exec (sem binaryCollation) ()
    (resting [⟨1, "notice", none, none⟩, ⟨2, "board", none, none⟩, ⟨3, "rules", some 1, none⟩]
      4)
    (serve 3 (.update 3 ⟨none, some (some 2)⟩)) evs
    (some (.ok (some ⟨3, "rules", some 2, none⟩)))
    (resting [⟨1, "notice", none, none⟩, ⟨2, "board", none, none⟩, ⟨3, "rules", some 2, none⟩]
      4) :=
  served_of_chain [⟨.selectUser, .ok ()⟩,
      ⟨.selectMenu 3, .ok [⟨3, "rules", some 1, none⟩]⟩, ⟨.countById 2, .ok (1 : Nat)⟩,
      ⟨.selectMenu 2, .ok [⟨2, "board", none, none⟩]⟩,
      ⟨.countByParentAndName (some 2) (some "rules"), .ok (0 : Nat)⟩,
      ⟨.updateMenu 3 none (some (some 2)) none, .ok ()⟩, ⟨.commit, .ok ()⟩, ⟨.close, .ok ()⟩]
    (.cons (.cons (.cons (.cons (.cons (.cons (.cons (.cons .nil))))))))
    (.call rfl (.call ⟨rfl, rfl⟩ (.call ⟨rfl, rfl⟩ (.call ⟨rfl, rfl⟩ (.call ⟨rfl, rfl⟩
      (.call ⟨by decide, writes_alone (by decide)⟩ (.call rfl (.call rfl .nil))))))))
    ⟨rfl, rfl, rfl⟩

/-- The first menu, childless by now, is deleted. -/
private theorem delete_notice : ∃ evs, Exec (sem binaryCollation) ()
    (resting [⟨1, "notice", none, none⟩, ⟨2, "board", none, none⟩, ⟨3, "rules", some 2, none⟩]
      4)
    (serve 3 (.delete 1)) evs (some (.ok none))
    (resting [⟨1, "notice", none, some 2⟩, ⟨2, "board", none, none⟩,
      ⟨3, "rules", some 2, none⟩] 4) :=
  served_of_chain [⟨.selectUser, .ok ()⟩,
      ⟨.selectMenu 1, .ok [⟨1, "notice", none, none⟩]⟩, ⟨.selectChildren (some 1), .ok []⟩,
      ⟨.now, .ok (2000000 : Nat)⟩, ⟨.updateMenu 1 none none (some 2), .ok ()⟩,
      ⟨.commit, .ok ()⟩, ⟨.close, .ok ()⟩]
    (.cons (.cons (.cons (.cons (.cons (.cons (.cons .nil)))))))
    (.call rfl (.call ⟨rfl, rfl⟩ (.call ⟨rfl, rfl⟩ (.call rfl
      (.call ⟨by decide, writes_alone (by decide)⟩ (.call rfl (.call rfl .nil)))))))
    ⟨rfl, rfl, rfl⟩

/-- Two top-level menus and a child are created, the child moves from the one to the
other, and the one it has left is deleted. -/
theorem menus_stay_tree_sample : ∃ log s,
    Serial (sem binaryCollation) () (fun s s' => s' = s) (serve 3) emptyState log s ∧
    s.db.committed = [⟨1, "notice", none, some 2⟩, ⟨2, "board", none, none⟩,
      ⟨3, "rules", some 2, none⟩] ∧
    (parentOf s.db.committed).Forest ∧ Siblings binaryCollation s.db.committed := by
  obtain ⟨evs₁, h₁⟩ := created_top [] 1 "notice" (by decide) (by decide)
  obtain ⟨evs₂, h₂⟩ := created_top [⟨1, "notice", none, none⟩] 2 "board" (by decide) (by decide)
  obtain ⟨evs₃, h₃⟩ := create_rules
  obtain ⟨evs₄, h₄⟩ := move_rules
  obtain ⟨evs₅, h₅⟩ := delete_notice
  have hlog : Serial (sem binaryCollation) () (fun s s' => s' = s) (serve 3) emptyState _ _ :=
    .serve (.serve (.serve (.serve (.serve .nil h₁) h₂) h₃) h₄) h₅
  exact ⟨_, _, hlog, rfl, menus_stay_tree hlog⟩

end Sample

end GreenCommunity.Menus
