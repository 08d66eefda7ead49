import GreenCommunity.Menus.Service
import GreenCommunity.Menus.Tree

/-!
# Menus under concurrent requests

A request checks the tree in its snapshot and writes one row; the row takes effect at
the commit, on whatever others have committed by then.  What the checks establish is
`Fits` and `Named` for the table they read.  The menus stay a forest, and siblings
keep different names, exactly in the runs in which that still holds of the committed
table when the request commits.

No constraint of the database stands in for it: there are no foreign keys, and the
unique key has a NULL in it for every menu that is not deleted.
-/

namespace GreenCommunity.Menus

open GreenCommunity.Base
open GreenCommunity.Base.Prog
open GreenCommunity.Infrastructure (Collation)

/-! ## One write for each request -/

/-- Reads come before the write, and only the end of the transaction after it. -/
def phases : Phases Op where
  enter
    | .commit | .rollback | .close => 1
    | _ => 0
  leave
    | .commit | .rollback | .close => 1
    | .insertMenu _ _ | .updateMenu _ _ _ _ => 1
    | _ => 0
  le op := by cases op <;> simp

section Phases

private theorem query_stays {op : Op} (h : phases.leave op = 0) :
    (perform op).Stays phases 0 0 :=
  Infrastructure.stays_perform (Nat.zero_le _) (h ▸ Nat.le_refl 0)

private theorem write_stays {op : Op} (h : phases.leave op = 1) :
    (perform op).Stays phases 0 1 :=
  Infrastructure.stays_perform (Nat.zero_le _) (h ▸ Nat.le_refl 1)

private theorem end_stays {op : Op} (h : phases.enter op = 1) (h' : phases.leave op = 1) :
    (perform op).Stays phases 1 1 :=
  Infrastructure.stays_perform (h ▸ Nat.le_refl 1) (h' ▸ Nat.le_refl 1)

theorem getById_stays (k : Int) : (getById k).Stays phases 0 0 :=
  .bind (Nat.le_refl 0) (query_stays rfl)
    fun _ => Infrastructure.stays_oneOrNone (Nat.le_refl 0)

theorem getOr404_stays (k : Int) : (getOr404 k).Stays phases 0 0 :=
  .bind (Nat.le_refl 0) (getById_stays k) fun found => by
    cases found <;> exact Nat.le_refl 0

theorem ensureParentExists_stays (q : Option Int) :
    (ensureParentExists q).Stays phases 0 0 := by
  cases q with
  | none => exact Nat.le_refl 0
  | some p =>
      refine .bind (Nat.le_refl 0) (.bind (Nat.le_refl 0)
        (query_stays rfl)
        fun _ => Nat.le_refl 0) fun b => ?_
      cases b <;> exact Nat.le_refl 0

theorem ensureNameAvailable_stays (q : Option Int) (name : Option String) :
    (ensureNameAvailable q name).Stays phases 0 0 := by
  refine .bind (Nat.le_refl 0) (.bind (Nat.le_refl 0)
    (query_stays rfl)
    fun _ => Nat.le_refl 0) fun b => ?_
  cases b <;> exact Nat.le_refl 0

theorem walk_stays (m : Int) (fuel : Nat) :
    ∀ cursor, (walk m fuel cursor).Stays phases 0 0 := by
  induction fuel with
  | zero =>
      intro cursor
      cases cursor with
      | none => exact Nat.le_refl 0
      | some p =>
          exact .bind (Nat.le_refl 0)
            (query_stays rfl) nofun
  | succ fuel ih =>
      intro cursor
      cases cursor with
      | none => exact Nat.le_refl 0
      | some p =>
          rw [walk]
          split
          · exact Nat.le_refl 0
          refine .bind (Nat.le_refl 0) (getById_stays p) fun found => ?_
          cases found with
          | none => exact Nat.le_refl 0
          | some parent => exact ih parent.menuParentId

theorem ensureMovable_stays (fuel : Nat) (m : Int) (q : Option (Option Int)) :
    (ensureMovable fuel m q).Stays phases 0 0 := by
  match q with
  | none => exact Nat.le_refl 0
  | some none => exact Nat.le_refl 0
  | some (some p) =>
      refine .bind (Nat.le_refl 0) (ensureParentExists_stays (some p)) fun _ => ?_
      rw [ensureNotOwnDescendant]
      split
      · exact Nat.le_refl 0
      · exact walk_stays m fuel (some p)

private theorem commit_stays {α : Type} (a : α) :
    (perform .commit >>= fun _ => (ret a : MenusM α)).Stays phases 1 1 :=
  .bind (Nat.le_refl 1) (end_stays rfl rfl)
    fun _ => Nat.le_refl 1

theorem create_stays (payload : MenuCreate) : (create payload).Stays phases 0 1 := by
  refine .bind (Nat.zero_le 1) (ensureParentExists_stays _) fun _ => ?_
  refine .bind (Nat.zero_le 1) (ensureNameAvailable_stays _ _) fun _ => ?_
  exact .bind (Nat.le_refl 1)
    (write_stays rfl) fun _ => commit_stays _

theorem update_stays (fuel : Nat) (m : Int) (payload : MenuUpdate) :
    (update fuel m payload).Stays phases 0 1 := by
  refine .bind (Nat.zero_le 1) (getOr404_stays m) fun menu => ?_
  refine .bind (Nat.zero_le 1) (ensureMovable_stays fuel m _) fun _ => ?_
  refine .bind (m := 0) (Nat.zero_le 1) ?_ fun _ => .bind (Nat.le_refl 1) ?_ fun _ =>
    commit_stays _
  · rw [ensureRenamable]
    split
    · exact ensureNameAvailable_stays _ _
    · exact Nat.le_refl 0
  · rw [flushUpdate]
    split
    · exact write_stays rfl
    · exact Nat.zero_le 1

theorem delete_stays (m : Int) : (delete m).Stays phases 0 1 := by
  refine .bind (Nat.zero_le 1) (getOr404_stays m) fun menu => ?_
  refine .bind (Nat.zero_le 1)
    (query_stays rfl) fun children => ?_
  split
  · exact Nat.zero_le 1
  refine .bind (Nat.zero_le 1)
    (query_stays rfl) fun now => ?_
  refine .bind (Nat.le_refl 1)
    (write_stays rfl) fun _ => ?_
  exact end_stays rfl rfl

theorem serve_stays (fuel : Nat) (req : Request) : (serve fuel req).Stays phases 0 1 := by
  refine Infrastructure.stays_inSession (Nat.le_refl 1) ?_
    (end_stays rfl rfl)
    (end_stays rfl rfl)
  refine .bind (Nat.zero_le 1)
    (query_stays rfl) fun _ => ?_
  cases req with
  | create payload => exact .bind (Nat.le_refl 1) (create_stays payload) fun _ => Nat.le_refl 1
  | update m payload =>
      exact .bind (Nat.le_refl 1) (update_stays fuel m payload) fun _ => Nat.le_refl 1
  | delete m => exact .bind (Nat.le_refl 1) (delete_stays m) fun _ => Nat.le_refl 1

end Phases

/-! ## What is pending in a run -/

section Runs

variable {C : Type} [DecidableEq C] {coll : Collation} {fuel : Nat} {req : C → Request}
  {init : State C} {tr : List (Label C Op Reply)}

/-- No transaction is open and the table has its primary key. -/
structure Ready {C : Type} (init : State C) : Prop where
  keyed : Keyed init.db.committed init.nextMenuId
  idle : ∀ c, init.db.session c = .idle

/-- The requests of the callers, before any of them has begun. -/
def start (fuel : Nat) (req : C → Request) (init : State C) :
    Config C Op Reply AppError (Option Menu) (State C) :=
  ⟨init, fun c => serve fuel (req c)⟩

/-- The caller has issued its write. -/
def Wrote (c : C) (tr : List (Label C Op Reply)) : Prop :=
  ∃ e ∈ own c tr, phases.enter e.op = 0 ∧ phases.leave e.op = 1

/-- Every session holds at most one write, and new rows have new numbers. -/
structure Pending (tr : List (Label C Op Reply)) (s : State C) : Prop where
  keyed : Keyed s.db.committed s.nextMenuId
  one : ∀ c, (s.db.session c).writes = [] ∨ ∃ w, (s.db.session c).writes = [w] ∧ Wrote c tr
  fresh : ∀ c w, (s.db.session c).writes = [w] → w.Fresh s.db.committed
  below : ∀ c menu, (s.db.session c).writes = [.insert menu] → menu.menuId < s.nextMenuId
  apart : ∀ c c' menu menu', c ≠ c' → (s.db.session c).writes = [.insert menu] →
    (s.db.session c').writes = [.insert menu'] → menu.menuId ≠ menu'.menuId

theorem Ready.pending (h : Ready init) : Pending ([] : List (Label C Op Reply)) init where
  keyed := h.keyed
  one c := Or.inl (by rw [h.idle]; rfl)
  fresh c w hw := by rw [h.idle] at hw; cases hw
  below c menu hw := by rw [h.idle] at hw; cases hw
  apart c c' menu menu' _ hw := by rw [h.idle] at hw; cases hw

variable {s s' : State C} {c : C} {l : Label C Op Reply}

theorem Wrote.snoc (h : Wrote c tr) : Wrote c (tr ++ [l]) := by
  obtain ⟨e, he, hphase⟩ := h
  exact ⟨e, by rw [own_append]; exact List.mem_append_left _ he, hphase⟩

/-- Sessions keep their writes or lose them. -/
theorem Pending.drop (h : Pending tr s) (hcommitted : s'.db.committed = s.db.committed)
    (hnext : s'.nextMenuId = s.nextMenuId)
    (hwrites : ∀ c, (s'.db.session c).writes = [] ∨
      (s'.db.session c).writes = (s.db.session c).writes) : Pending (tr ++ [l]) s' := by
  have hold : ∀ {c w}, (s'.db.session c).writes = [w] → (s.db.session c).writes = [w] := by
    intro c w hw
    rcases hwrites c with hnil | hsame
    · rw [hnil] at hw
      cases hw
    · rw [← hsame, hw]
  refine ⟨by rw [hcommitted, hnext]; exact h.keyed, fun c => ?_, fun c w hw => ?_,
    fun c menu hw => ?_, fun c c' menu menu' hne hw hw' => ?_⟩
  · rcases hwrites c with hnil | hsame
    · exact Or.inl hnil
    · rw [hsame]
      exact (h.one c).imp_right fun ⟨w, hw, hwrote⟩ => ⟨w, hw, hwrote.snoc⟩
  · rw [hcommitted]
    exact h.fresh c w (hold hw)
  · rw [hnext]
    exact h.below c menu (hold hw)
  · exact h.apart c c' menu menu' hne (hold hw) (hold hw')

/-- The one write of a session. -/
theorem Pending.write (h : Pending tr s) {e : MenusEvent} {w : Write} {n : Int}
    (hnil : (s.db.session c).writes = [])
    (he : phases.enter e.op = 0 ∧ phases.leave e.op = 1) (hn : s.nextMenuId ≤ n)
    (hw : ∀ menu, w = .insert menu → menu.deletedAt = none ∧
      s.nextMenuId ≤ menu.menuId ∧ menu.menuId < n) :
    Pending (tr ++ [.call c e]) (⟨s.db.write c w, n⟩ : State C) := by
  have hself : ((s.db.write c w).session c).writes = [w] := by simp [hnil]
  have hother : ∀ {c'}, c' ≠ c → (s.db.write c w).session c' = s.db.session c' :=
    fun hne => Db.session_write_ne hne
  have hbelow : ∀ {c' menu}, ((s.db.write c w).session c').writes = [.insert menu] →
      c' = c ∧ w = .insert menu ∨ c' ≠ c ∧ (s.db.session c').writes = [.insert menu] := by
    intro c' menu hw'
    by_cases hc : c' = c
    · subst hc
      rw [hself] at hw'
      exact Or.inl ⟨rfl, List.singleton_inj.mp hw'⟩
    · rw [hother hc] at hw'
      exact Or.inr ⟨hc, hw'⟩
  refine ⟨⟨h.keyed.nodup, fun row hrow => Int.lt_of_lt_of_le (h.keyed.below row hrow) hn⟩,
    fun c' => ?_, fun c' w' hw' => ?_, fun c' menu hw' => ?_,
    fun c₁ c₂ menu menu' hne hw₁ hw₂ => ?_⟩
  · by_cases hc : c' = c
    · subst hc
      refine Or.inr ⟨w, hself, e, ?_, he⟩
      rw [own_append, own_call_self]
      exact List.mem_append_right _ (List.mem_singleton.mpr rfl)
    · show ((s.db.write c w).session c').writes = [] ∨ _
      rw [hother hc]
      exact (h.one c').imp_right fun ⟨w, hw, hwrote⟩ => ⟨w, hw, hwrote.snoc⟩
  · cases w' with
    | update => trivial
    | insert menu =>
        rcases hbelow hw' with ⟨_, heq⟩ | ⟨_, hold⟩
        · obtain ⟨hlive, hle, _⟩ := hw menu heq
          refine ⟨hlive, fun row hrow heq => ?_⟩
          have hlt := h.keyed.below row hrow
          omega
        · exact h.fresh c' _ hold
  · rcases hbelow hw' with ⟨_, heq⟩ | ⟨_, hold⟩
    · exact (hw menu heq).2.2
    · exact Int.lt_of_lt_of_le (h.below c' menu hold) hn
  · rcases hbelow hw₁ with ⟨hc₁, heq₁⟩ | ⟨_, hold₁⟩ <;>
      rcases hbelow hw₂ with ⟨hc₂, heq₂⟩ | ⟨_, hold₂⟩
    · exact absurd (hc₁.trans hc₂.symm) hne
    · have hlt := h.below c₂ menu' hold₂
      have hle := (hw menu heq₁).2.1
      omega
    · have hlt := h.below c₁ menu hold₁
      have hle := (hw menu' heq₂).2.1
      omega
    · exact h.apart c₁ c₂ menu menu' hne hold₁ hold₂

theorem Pending.current (h : Pending tr s) (c : C) :
    s.db.current apply c = s.db.committed ∧ (s.db.session c).writes = [] ∨
      ∃ w, (s.db.session c).writes = [w] ∧
        s.db.current apply c = apply s.db.committed w := by
  rcases h.one c with hnil | ⟨w, hw, _⟩
  · exact Or.inl ⟨by rw [Db.current, hnil]; rfl, hnil⟩
  · exact Or.inr ⟨w, hw, by rw [Db.current, hw]; rfl⟩

theorem Pending.commit (h : Pending tr s) (c : C) :
    Pending (tr ++ [l]) { s with db := s.db.commit apply c } := by
  have hkept : ∀ {c'}, c' ≠ c →
      (s.db.commit apply c).session c' = s.db.session c' :=
    fun hne => Db.session_commit_ne hne
  have hold : ∀ {c' w'}, ((s.db.commit apply c).session c').writes = [w'] →
      c' ≠ c ∧ (s.db.session c').writes = [w'] := by
    intro c' w' hw'
    by_cases hc : c' = c
    · subst hc
      rw [Db.session_commit] at hw'
      cases hw'
    · rw [hkept hc] at hw'
      exact ⟨hc, hw'⟩
  refine ⟨?_, fun c' => ?_, fun c' w' hw' => ?_, fun c' menu hw' => ?_,
    fun c₁ c₂ menu menu' hne hw₁ hw₂ => ?_⟩
  · show Keyed (s.db.current apply c) s.nextMenuId
    rcases h.current c with ⟨hcur, _⟩ | ⟨w, hw, hcur⟩
    · rw [hcur]
      exact h.keyed
    · rw [hcur]
      exact h.keyed.apply (h.fresh c w hw) fun menu heq => h.below c menu (heq ▸ hw)
  · by_cases hc : c' = c
    · subst hc
      exact Or.inl (by rw [Db.session_commit]; rfl)
    · show ((s.db.commit apply c).session c').writes = [] ∨ _
      rw [hkept hc]
      exact (h.one c').imp_right fun ⟨w, hw, hwrote⟩ => ⟨w, hw, hwrote.snoc⟩
  · obtain ⟨hc, hw'⟩ := hold hw'
    cases w' with
    | update => trivial
    | insert menu =>
        have hfresh := h.fresh c' _ hw'
        refine ⟨hfresh.1, ?_⟩
        show ∀ row ∈ s.db.current apply c, row.menuId ≠ menu.menuId
        rcases h.current c with ⟨hcur, _⟩ | ⟨w, hw, hcur⟩
        · rw [hcur]
          exact hfresh.2
        · rw [hcur]
          intro row hrow
          rcases menuId_apply hrow with ⟨row', hrow', heq⟩ | ⟨menu', rfl, rfl⟩
          · rw [← heq]
            exact hfresh.2 row' hrow'
          · exact h.apart c c' row menu (Ne.symm hc) hw hw'
  · exact h.below c' menu (hold hw').2
  · exact h.apart c₁ c₂ menu menu' hne (hold hw₁).2 (hold hw₂).2

/-- Before a request writes it has written nothing. -/
private theorem unwritten {cfg : Config C Op Reply AppError (Option Menu) (State C)}
    {ok : Guard C Op Reply AppError (Option Menu) (State C)} {c : C} {e : MenusEvent}
    (h : Run (sem coll) ok (start fuel req init) (tr ++ [.call c e]) cfg)
    (he : phases.enter e.op = 0) (hs : Pending tr s) : (s.db.session c).writes = [] := by
  have hstays : ∀ c, ∃ n m, ((start fuel req init).pool c).Stays phases n m :=
    fun c => ⟨0, 1, serve_stays fuel (req c)⟩
  have hordered := h.ordered hstays c
  rcases hs.one c with hnil | ⟨_, _, e', he', _, hleave⟩
  · exact hnil
  · have hle := Run.before hordered he'
    rw [he, hleave] at hle
    exact absurd hle (by decide)

theorem pending_run {cfg : Config C Op Reply AppError (Option Menu) (State C)}
    (h0 : Ready init) (h : Run (sem coll) anyStep (start fuel req init) tr cfg) :
    Pending tr cfg.state := by
  refine Run.inv (fun tr cfg => Pending tr cfg.state) h0.pending ?_ h
  intro tr cfg l cfg' hrun hp hl _
  have hnext := hrun.snoc hl trivial
  have hread : ∀ {l : Label C Op Reply} (c : C),
      Pending (tr ++ [l]) { cfg.state with db := cfg.state.db.read c } := fun c =>
    hp.drop rfl rfl fun c' => Or.inr (by simp)
  have hsame : ∀ {l : Label C Op Reply}, Pending (tr ++ [l]) cfg.state :=
    hp.drop rfl rfl fun c' => Or.inr rfl
  have hback : ∀ {l : Label C Op Reply} (c : C),
      Pending (tr ++ [l]) { cfg.state with db := cfg.state.db.rollback c } := by
    refine fun c => hp.drop rfl rfl fun c' => ?_
    show ((cfg.state.db.rollback c).session c').writes = [] ∨ _
    by_cases hc : c' = c
    · subst hc
      exact Or.inl (by rw [Db.session_rollback]; rfl)
    · exact Or.inr (by rw [Db.session_rollback_ne hc])
  cases hl with
  | env henv =>
      obtain rfl := henv
      exact hsame
  | @call c op k r s' hpool hstep =>
      cases r with
      | error e =>
          obtain ⟨_, rfl⟩ := hstep
          exact hsame
      | ok r =>
          cases op with
          | selectUser =>
              obtain rfl := hstep
              exact hread c
          | selectMenu | countById | countByParentAndName | selectChildren | selectAll =>
              obtain ⟨_, rfl⟩ := hstep
              exact hread c
          | now =>
              obtain rfl := hstep
              exact hsame
          | loop => exact nomatch r
          | rollback | close =>
              obtain rfl := hstep
              exact hback c
          | commit =>
              obtain rfl := hstep
              exact hp.commit c
          | insertMenu name q =>
              obtain ⟨_, _, _, rfl⟩ := hstep
              refine hp.write (unwritten hnext rfl hp) ⟨rfl, rfl⟩
                (Int.le_of_lt (Int.lt_succ _)) ?_
              rintro menu ⟨⟩
              exact ⟨rfl, Int.le_refl _, Int.lt_succ _⟩
          | updateMenu id name q deletedAt =>
              obtain ⟨_, _, _, rfl⟩ := hstep
              exact hp.write (unwritten hnext rfl hp) ⟨rfl, rfl⟩ (Int.le_refl _) nofun

/-! ## Commits that meet a condition -/

/-- At every commit the write of the session meets `K` for the committed table. -/
def CommitsMeet (K : List Menu → Write → Prop) :
    Guard C Op Reply AppError (Option Menu) (State C) :=
  fun _ cfg l => ∀ c, l = .call c ⟨.commit, .ok ()⟩ →
    ∀ w ∈ (cfg.state.db.session c).writes, K cfg.state.db.committed w

/-- The run goes through tables with the property `P`. -/
def Through (P : List Menu → Prop) : Guard C Op Reply AppError (Option Menu) (State C) :=
  fun _ cfg _ => P cfg.state.db.committed

/-- Where `K` says exactly which writes keep `P`, the committed menus have `P` in
every state of a run exactly when every commit of the run meets `K`. -/
theorem through_iff_commitsMeet {P : List Menu → Prop} {K : List Menu → Write → Prop}
    (hK : ∀ {t w}, P t → w.Fresh t → (P (apply t w) ↔ K t w)) (h0 : Ready init)
    (hP : P init.db.committed)
    {cfg : Config C Op Reply AppError (Option Menu) (State C)} :
    Run (sem coll) (Through P) (start fuel req init) tr cfg ∧ P cfg.state.db.committed ↔
      Run (sem coll) (CommitsMeet K) (start fuel req init) tr cfg := by
  refine Run.always_iff (fun _ (cfg : Config C Op Reply AppError (Option Menu) (State C)) =>
    P cfg.state.db.committed) hP ?_
  intro tr cfg l cfg' hrun hp hl
  have hpending := pending_run h0 hrun
  have hquiet : cfg'.state.db.committed = cfg.state.db.committed →
      (∀ c, l ≠ .call c ⟨.commit, .ok ()⟩) →
      (P cfg'.state.db.committed ↔ CommitsMeet K tr cfg l) := fun heq hne =>
    iff_of_true (heq ▸ hp) fun c hc => absurd hc (hne c)
  cases hl with
  | env henv =>
      obtain rfl := henv
      exact hquiet rfl nofun
  | @call c op k r s' hpool hstep =>
      cases r with
      | error e =>
          obtain ⟨_, rfl⟩ := hstep
          exact hquiet rfl nofun
      | ok r =>
          cases op with
          | selectUser | now | rollback | close =>
              obtain rfl := hstep
              exact hquiet rfl nofun
          | selectMenu | countById | countByParentAndName | selectChildren | selectAll =>
              obtain ⟨_, rfl⟩ := hstep
              exact hquiet rfl nofun
          | loop => exact nomatch r
          | insertMenu | updateMenu =>
              obtain ⟨_, _, _, rfl⟩ := hstep
              exact hquiet rfl nofun
          | commit =>
              obtain rfl := hstep
              show P (cfg.state.db.current apply c) ↔ _
              rcases hpending.current c with ⟨hcur, hnil⟩ | ⟨w, hw, hcur⟩
              · rw [hcur]
                refine iff_of_true hp ?_
                rintro c' ⟨⟩ w hw
                rw [hnil] at hw
                cases hw
              · rw [hcur, hK hp (hpending.fresh c w hw)]
                constructor
                · rintro hk c' ⟨⟩ w' hw'
                  rw [hw] at hw'
                  rwa [List.mem_singleton.mp hw']
                · intro hmeet
                  exact hmeet c rfl w (hw ▸ List.mem_singleton.mpr rfl)

/-- The menus are a forest in every state of a run exactly when, at every commit, the
checks of the request still hold of what is committed: the parent of a new or moved
menu is there and not below the menu, and a deleted menu has no children. -/
theorem menus_stay_forest_iff (h0 : Ready init) (hforest : (parentOf init.db.committed).Forest)
    {cfg : Config C Op Reply AppError (Option Menu) (State C)} :
    Run (sem coll) (Through fun t => (parentOf t).Forest) (start fuel req init) tr cfg ∧
        (parentOf cfg.state.db.committed).Forest ↔
      Run (sem coll) (CommitsMeet Fits) (start fuel req init) tr cfg :=
  through_iff_commitsMeet (P := fun t => (parentOf t).Forest) forest_apply h0 hforest

/-- Siblings have different names in every state of a run exactly when, at every
commit, the name is still free in the place of the new or changed menu. -/
theorem siblings_stay_distinct_iff (h0 : Ready init)
    (hsiblings : Siblings coll init.db.committed)
    {cfg : Config C Op Reply AppError (Option Menu) (State C)} :
    Run (sem coll) (Through (Siblings coll)) (start fuel req init) tr cfg ∧
        Siblings coll cfg.state.db.committed ↔
      Run (sem coll) (CommitsMeet (Named coll)) (start fuel req init) tr cfg :=
  through_iff_commitsMeet siblings_apply h0 hsiblings

end Runs

/-! ## Two moves that close a cycle -/

section Samples

open Infrastructure (binaryCollation)

def rootA : Menu := ⟨1, "a", none, none⟩

def rootB : Menu := ⟨2, "b", none, none⟩

/-- Two menus at the top. -/
def twoRoots : State Bool where
  db := { committed := [rootA, rootB], session := fun _ => .idle }
  nextMenuId := 3

theorem ready_twoRoots : Ready twoRoots where
  keyed := ⟨by decide, by decide⟩
  idle _ := rfl

theorem forest_twoRoots : (parentOf twoRoots.db.committed).Forest := by
  intro k hk
  obtain ⟨row, hrow, hlive, rfl⟩ := parentOf_isSome.mp hk
  refine .root (ready_twoRoots.keyed.parentOf.mpr ⟨row, hrow, hlive, rfl, ?_⟩)
  simp only [twoRoots, List.mem_cons, List.not_mem_nil, or_false] at hrow
  rcases hrow with rfl | rfl <;> rfl

/-- Each menu is moved under the other. -/
def crossingMoves : Bool → Request
  | false => .update 1 ⟨none, some (some 2)⟩
  | true => .update 2 ⟨none, some (some 1)⟩

/-- The reads of a request that moves `menu` under the top-level menu `parent`. -/
def moveFront (menu parent : Menu) : List MenusEvent :=
  [⟨.selectUser, .ok ()⟩, ⟨.selectMenu menu.menuId, .ok [menu]⟩,
    ⟨.countById parent.menuId, .ok (1 : Nat)⟩, ⟨.selectMenu parent.menuId, .ok [parent]⟩,
    ⟨.countByParentAndName (some parent.menuId) (some menu.menuName), .ok (0 : Nat)⟩]

/-- The move itself. -/
def moveBack (menu parent : Menu) : List MenusEvent :=
  [⟨.updateMenu menu.menuId none (some (some parent.menuId)) none, .ok ()⟩,
    ⟨.commit, .ok ()⟩, ⟨.close, .ok ()⟩]

/-- A row that is written and not deleted meets no lock of the others and no key. -/
private theorem writes_live {C : Type} [DecidableEq C] {coll : Collation} {c : C}
    {s : State C} {w : Write}
    (hfree : s.db.Free (fun w w' => w.menuId = w'.menuId) c w)
    (hlive : ∀ row ∈ apply (s.db.current apply c) w, row.deletedAt = none) :
    writes coll c s w { s with db := s.db.write c w } := by
  refine ⟨⟨hfree, ?_⟩, admits_live fun row hrow _ => hlive row hrow, rfl⟩
  rintro _ _ row' _ row hrow _ ⟨_, _, _, hdeleted, _⟩
  rw [hlive row hrow] at hdeleted
  cases hdeleted

/-- Both requests check the tree before either has moved its menu. -/
private theorem crossing_run : ∃ tr cfg,
    Run (sem binaryCollation) anyStep (start 1 crossingMoves twoRoots) tr cfg ∧
      (∀ c, ∃ menu, (cfg.pool c).outcome = some (.ok menu)) ∧
      cfg.state.db.committed = [⟨1, "a", some 2, none⟩, ⟨2, "b", some 1, none⟩] := by
  have hchain : ∃ s, Chain (sem binaryCollation) twoRoots
      ((moveFront rootA rootB).map (.call false) ++ (moveFront rootB rootA).map (.call true) ++
        (moveBack rootA rootB).map (.call false) ++ (moveBack rootB rootA).map (.call true))
      s ∧ s.db.committed = [⟨1, "a", some 2, none⟩, ⟨2, "b", some 1, none⟩] := by
    refine ⟨_, .append (.append (.append
      (.call rfl (.call ⟨rfl, rfl⟩ (.call ⟨rfl, rfl⟩ (.call ⟨rfl, rfl⟩ (.call ⟨rfl, rfl⟩
        .nil)))))
      (.call rfl (.call ⟨rfl, rfl⟩ (.call ⟨rfl, rfl⟩ (.call ⟨rfl, rfl⟩ (.call ⟨rfl, rfl⟩
        .nil))))))
      (.call ⟨nofun, writes_live ?_ ?_⟩ (.call rfl (.call rfl .nil))))
      (.call ⟨nofun, writes_live ?_ ?_⟩ (.call rfl (.call rfl .nil))), rfl⟩
    · intro c hc w hw
      cases c with
      | false => exact absurd rfl hc
      | true => exact nomatch hw
    · decide
    · intro c hc w hw
      cases c with
      | false => exact nomatch hw
      | true => exact absurd rfl hc
    · decide
  obtain ⟨s, hchain, hs⟩ := hchain
  have hrun := Run.of_chain hchain (p := fun c => serve 1 (crossingMoves c))
    (q := fun c => .ret (some (if c then ⟨2, "b", some 1, none⟩ else ⟨1, "a", some 2, none⟩)))
    ?_
  · exact ⟨_, _, hrun, fun c => ⟨_, rfl⟩, hs⟩
  · intro c
    cases c with
    | false =>
        simp only [own_append, own_map_self, own_map_ne Bool.false_ne_true.symm,
          List.append_nil]
        exact .cons (.cons (.cons (.cons (.cons (.cons (.cons (.cons .nil)))))))
    | true =>
        simp only [own_append, own_map_self, own_map_ne Bool.false_ne_true,
          List.append_nil, List.nil_append]
        exact .cons (.cons (.cons (.cons (.cons (.cons (.cons (.cons .nil)))))))

/-- Two moves that succeed and close a cycle. -/
theorem crossing_moves :
    ¬ ∀ tr cfg, Run (sem binaryCollation) anyStep (start 1 crossingMoves twoRoots) tr cfg →
      (∀ c, ∃ menu, (cfg.pool c).outcome = some (.ok menu)) →
        (parentOf cfg.state.db.committed).Forest := by
  intro h
  obtain ⟨tr, cfg, hrun, hdone, hs⟩ := crossing_run
  have hforest := h tr cfg hrun hdone
  rw [hs] at hforest
  have hup : Parents.Up (parentOf [⟨1, "a", some 2, none⟩, ⟨2, "b", some 1, none⟩]) 1 2 := rfl
  have hback : Parents.Up (parentOf [⟨1, "a", some 2, none⟩, ⟨2, "b", some 1, none⟩]) 2 1 := rfl
  exact (hforest 1 hup.live).acyclic (.tail (.single hup) hback)

/-- The run of the two moves, on both sides. -/
theorem menus_stay_forest_iff_sample : ∃ tr cfg,
    Run (sem binaryCollation) anyStep (start 1 crossingMoves twoRoots) tr cfg ∧
      (∀ c, ∃ menu, (cfg.pool c).outcome = some (.ok menu)) ∧
      (Run (sem binaryCollation) (Through fun t => (parentOf t).Forest)
          (start 1 crossingMoves twoRoots) tr cfg ∧
          (parentOf cfg.state.db.committed).Forest ↔
        Run (sem binaryCollation) (CommitsMeet Fits) (start 1 crossingMoves twoRoots) tr cfg) := by
  obtain ⟨tr, cfg, hrun, hdone, _⟩ := crossing_run
  exact ⟨tr, cfg, hrun, hdone, menus_stay_forest_iff ready_twoRoots forest_twoRoots⟩

/-! ## Two new menus of one name -/

/-- The table before the first menu. -/
def noMenus : State Bool where
  db := { committed := [], session := fun _ => .idle }
  nextMenuId := 1

theorem ready_noMenus : Ready noMenus where
  keyed := ⟨by decide, by decide⟩
  idle _ := rfl

/-- Both callers create a top-level menu of the same name. -/
def twins : Bool → Request := fun _ => .create ⟨"notice", none⟩

def createFront : List MenusEvent :=
  [⟨.selectUser, .ok ()⟩, ⟨.countByParentAndName none (some "notice"), .ok (0 : Nat)⟩]

def createBack (menuId : Int) : List MenusEvent :=
  [⟨.insertMenu "notice" none, .ok menuId⟩, ⟨.commit, .ok ()⟩, ⟨.close, .ok ()⟩]

/-- Both requests count before either has inserted, and the unique key lets both rows
in. -/
private theorem twin_run : ∃ tr cfg,
    Run (sem binaryCollation) anyStep (start 1 twins noMenus) tr cfg ∧
      (∀ c, ∃ menu, (cfg.pool c).outcome = some (.ok menu)) ∧
      cfg.state.db.committed = [⟨1, "notice", none, none⟩, ⟨2, "notice", none, none⟩] := by
  have hchain : ∃ s, Chain (sem binaryCollation) noMenus
      (createFront.map (.call false) ++ createFront.map (.call true) ++
        (createBack 1).map (.call false) ++ (createBack 2).map (.call true)) s ∧
      s.db.committed = [⟨1, "notice", none, none⟩, ⟨2, "notice", none, none⟩] := by
    refine ⟨_, .append (.append (.append
      (.call rfl (.call ⟨rfl, rfl⟩ .nil)) (.call rfl (.call ⟨rfl, rfl⟩ .nil)))
      (.call ⟨rfl, writes_live ?_ ?_⟩ (.call rfl (.call rfl .nil))))
      (.call ⟨rfl, writes_live ?_ ?_⟩ (.call rfl (.call rfl .nil))), rfl⟩
    · intro c hc w hw
      cases c with
      | false => exact absurd rfl hc
      | true => exact nomatch hw
    · decide
    · intro c hc w hw
      cases c with
      | false => exact nomatch hw
      | true => exact absurd rfl hc
    · decide
  obtain ⟨s, hchain, hs⟩ := hchain
  have hrun := Run.of_chain hchain (p := fun c => serve 1 (twins c))
    (q := fun c => .ret (some ⟨if c then 2 else 1, "notice", none, none⟩)) ?_
  · exact ⟨_, _, hrun, fun c => ⟨_, rfl⟩, hs⟩
  · intro c
    cases c with
    | false =>
        simp only [own_append, own_map_self, own_map_ne Bool.false_ne_true.symm,
          List.append_nil]
        exact .cons (.cons (.cons (.cons (.cons .nil))))
    | true =>
        simp only [own_append, own_map_self, own_map_ne Bool.false_ne_true,
          List.append_nil, List.nil_append]
        exact .cons (.cons (.cons (.cons (.cons .nil))))

/-- Two creations that succeed. -/
theorem twin_menus :
    ¬ ∀ tr cfg, Run (sem binaryCollation) anyStep (start 1 twins noMenus) tr cfg →
      (∀ c, ∃ menu, (cfg.pool c).outcome = some (.ok menu)) →
        Siblings binaryCollation cfg.state.db.committed := by
  intro h
  obtain ⟨tr, cfg, hrun, hdone, hs⟩ := twin_run
  have hsiblings := h tr cfg hrun hdone
  rw [hs] at hsiblings
  exact absurd (hsiblings ⟨1, "notice", none, none⟩ (by decide)
    ⟨2, "notice", none, none⟩ (by decide) rfl rfl rfl (by decide)) (by decide)

/-- The run of the two creations, on both sides. -/
theorem siblings_stay_distinct_iff_sample : ∃ tr cfg,
    Run (sem binaryCollation) anyStep (start 1 twins noMenus) tr cfg ∧
      (∀ c, ∃ menu, (cfg.pool c).outcome = some (.ok menu)) ∧
      (Run (sem binaryCollation) (Through (Siblings binaryCollation))
          (start 1 twins noMenus) tr cfg ∧ Siblings binaryCollation cfg.state.db.committed ↔
        Run (sem binaryCollation) (CommitsMeet (Named binaryCollation))
          (start 1 twins noMenus) tr cfg) := by
  obtain ⟨tr, cfg, hrun, hdone, _⟩ := twin_run
  exact ⟨tr, cfg, hrun, hdone, siblings_stay_distinct_iff ready_noMenus nofun⟩

end Samples

end GreenCommunity.Menus
