import GreenCommunity.Auth.Sessions

/-!
# The session tables

`State.token`, `State.index` and `State.used` are the three key families as the
store's commands see them at the present instant.  `Act` names the four pipelines
that change them.  For each pipeline, for every other operation and for the
passage of time there is one lemma a table; everything proved about sessions uses
these and nothing below them.
-/

namespace GreenCommunity.Auth

open GreenCommunity.Base
open GreenCommunity.Base.Redis

variable {Tok : Type} {d : Deps Tok}

/-! ## Tables -/

/-- The entry of an active token. -/
def State.token (s : State) (u : Nat) (j : String) : Option Entry :=
  purge s.clock s.redis (tokenKey u j)

/-- The `jti`s in a user's index set. -/
def State.index (s : State) (u : Nat) : List String :=
  members (purge s.clock s.redis) (indexKey u)

/-- When a user's index set expires. -/
def State.indexExpiry (s : State) (u : Nat) : WithTop Nat :=
  expiry (purge s.clock s.redis) (indexKey u)

/-- The entry of a used marker. -/
def State.used (s : State) (u : Nat) (j : String) : Option Entry :=
  purge s.clock s.redis (usedKey u j)

/-- The tables of `s'` are those of `s`. -/
structure SameTables (s s' : State) : Prop where
  token : ∀ u j, s'.token u j = s.token u j
  index : ∀ u, s'.index u = s.index u
  indexExpiry : ∀ u, s'.indexExpiry u = s.indexExpiry u
  used : ∀ u j, s'.used u j = s.used u j

theorem SameTables.refl (s : State) : SameTables s s :=
  ⟨fun _ _ => rfl, fun _ => rfl, fun _ => rfl, fun _ _ => rfl⟩

theorem SameTables.trans {s s' s'' : State} (h : SameTables s s')
    (h' : SameTables s' s'') : SameTables s s'' where
  token u j := (h'.token u j).trans (h.token u j)
  index u := (h'.index u).trans (h.index u)
  indexExpiry u := (h'.indexExpiry u).trans (h.indexExpiry u)
  used u j := (h'.used u j).trans (h.used u j)

theorem sameTables_of_keys {s s' : State}
    (h : ∀ k, SessionKey k → purge s'.clock s'.redis k = purge s.clock s.redis k) :
    SameTables s s' where
  token u j := h _ (.token u j)
  index u := members_congr (h _ (.index u))
  indexExpiry u := expiry_congr (h _ (.index u))
  used u j := h _ (.used u j)

/-! ## The passage of time -/

section Drift

variable {s s' : State} (h : drift s s')

include h

private theorem purge_drift (k : String) :
    purge s'.clock s'.redis k = purge s'.clock (purge s.clock s.redis) k := by
  rw [purge_purge h.1, h.2]

theorem token_drift {u : Nat} {j : String} {e : Entry} :
    s'.token u j = some e ↔
      s.token u j = some e ∧ (s'.clock : WithTop Nat) < e.expireAt := by
  rw [State.token, purge_drift h, purge_eq_some, State.token]

theorem used_drift {u : Nat} {j : String} {e : Entry} :
    s'.used u j = some e ↔
      s.used u j = some e ∧ (s'.clock : WithTop Nat) < e.expireAt := by
  rw [State.used, purge_drift h, purge_eq_some, State.used]

/-- An index set that outlasts the wait is there with its old expiry. -/
theorem index_drift {u : Nat} (hlt : (s'.clock : WithTop Nat) < s.indexExpiry u) :
    s'.index u = s.index u ∧ s'.indexExpiry u = s.indexExpiry u := by
  have hkey : purge s'.clock s'.redis (indexKey u) =
      purge s.clock s.redis (indexKey u) := by
    rw [purge_drift h]
    cases hk : purge s.clock s.redis (indexKey u) with
    | none => simp [purge_eq_none, hk]
    | some e =>
        have he : s.indexExpiry u = e.expireAt := by
          simp [State.indexExpiry, expiry, hk]
        exact purge_eq_some.mpr ⟨hk, he ▸ hlt⟩
  exact ⟨members_congr hkey, expiry_congr hkey⟩

end Drift

/-! ## Pipelines -/

/-- The pipelines of `RefreshTokenStore`. -/
inductive Act where
  | save (u : Nat) (j h : String)
  | rotate (u : Nat) (j : String) (ex : Nat)
  | revoke (u : Nat) (j : String)
  | revokeAll (u : Nat) (jtis : List String)
  deriving DecidableEq, Repr

/-- The commands of a pipeline. -/
def Act.cmds (d : Deps Tok) : Act → List Cmd
  | .save u j h => saveCmds d u j h
  | .rotate u j ex => rotateCmds u j ex
  | .revoke u j => revokeCmds u j
  | .revokeAll u jtis => revokeAllCmds u jtis

/-- The pipeline deletes the token key of `j`. -/
def Act.Kills : Act → Nat → String → Prop
  | .save _ _ _, _, _ => False
  | .rotate u j _, v, k => v = u ∧ k = j
  | .revoke u j, v, k => v = u ∧ k = j
  | .revokeAll u jtis, v, k => v = u ∧ k ∈ jtis

/-- The pipeline takes `j` out of the index set. -/
def Act.Drops : Act → Nat → String → Prop
  | .save _ _ _, _, _ => False
  | .rotate u j _, v, k => v = u ∧ k = j
  | .revoke u j, v, k => v = u ∧ k = j
  | .revokeAll u _, v, _ => v = u

/-- The pipeline renews the time to live of the user's index set. -/
def Act.Renews : Act → Nat → Prop
  | .save u _ _, v => v = u
  | _, _ => False

instance : (a : Act) → (v : Nat) → Decidable (a.Renews v)
  | .save u _ _, v => inferInstanceAs (Decidable (v = u))
  | .rotate _ _ _, _ => inferInstanceAs (Decidable False)
  | .revoke _ _, _ => inferInstanceAs (Decidable False)
  | .revokeAll _ _, _ => inferInstanceAs (Decidable False)

/-- The pipeline's marker, if it sets one, has a time to live. -/
def Act.Timed : Act → Prop
  | .rotate _ _ ex => 0 < ex
  | _ => True

theorem Act.timed_cmds {a : Act} (h : a.Timed) : ∀ c ∈ a.cmds d, c.Timed := by
  cases a with
  | save u j t =>
      intro c hc
      simp only [Act.cmds, saveCmds, List.mem_cons, List.not_mem_nil, or_false] at hc
      rcases hc with rfl | rfl | rfl
      · exact d.settings.ttlSeconds_pos
      · trivial
      · exact d.settings.ttlSeconds_pos
  | rotate u j ex =>
      intro c hc
      simp only [Act.cmds, rotateCmds, List.mem_cons, List.not_mem_nil, or_false] at hc
      rcases hc with rfl | rfl | rfl
      · trivial
      · trivial
      · exact h
  | revoke u j =>
      intro c hc
      simp only [Act.cmds, revokeCmds, List.mem_cons, List.not_mem_nil, or_false] at hc
      rcases hc with rfl | rfl <;> trivial
  | revokeAll u jtis =>
      intro c hc
      simp only [Act.cmds, revokeAllCmds, List.mem_append, List.mem_map,
        List.mem_singleton] at hc
      rcases hc with ⟨j, _, rfl⟩ | rfl <;> trivial

/-- A mass deletion consists of `DEL`s only. -/
theorem mem_revokeAllCmds {u : Nat} {jtis : List String} {c : Cmd}
    (hc : c ∈ revokeAllCmds u jtis) : ∃ keys, c = .del keys := by
  simp only [revokeAllCmds, List.mem_append, List.mem_map, List.mem_singleton] at hc
  rcases hc with ⟨j, _, rfl⟩ | rfl <;> exact ⟨_, rfl⟩

/-- The other pipelines each contain something else. -/
private theorem revokeAll_of_cmds {a : Act} {v : Nat} {jtis : List String}
    (h : a.cmds d = revokeAllCmds v jtis) : ∃ u js, a = .revokeAll u js := by
  cases a with
  | save u j t =>
      have hmem : Cmd.set (tokenKey u j) t (some d.settings.ttlSeconds) ∈
          revokeAllCmds v jtis := by
        rw [← h]
        exact List.mem_cons_self
      obtain ⟨keys, hkeys⟩ := mem_revokeAllCmds hmem
      cases hkeys
  | rotate u j ex =>
      have hmem : Cmd.srem (indexKey u) j ∈ revokeAllCmds v jtis := by
        rw [← h]
        exact List.mem_cons_of_mem _ List.mem_cons_self
      obtain ⟨keys, hkeys⟩ := mem_revokeAllCmds hmem
      cases hkeys
  | revoke u j =>
      have hmem : Cmd.srem (indexKey u) j ∈ revokeAllCmds v jtis := by
        rw [← h]
        exact List.mem_cons_of_mem _ List.mem_cons_self
      obtain ⟨keys, hkeys⟩ := mem_revokeAllCmds hmem
      cases hkeys
  | revokeAll u js => exact ⟨u, js, rfl⟩

private theorem revokeAllCmds_inj {u v : Nat} {js ks : List String}
    (h : revokeAllCmds u js = revokeAllCmds v ks) : u = v ∧ js = ks := by
  obtain ⟨hmap, hlast⟩ := List.append_inj' h rfl
  simp only [List.cons.injEq, Cmd.del.injEq, and_true, indexKey_inj] at hlast
  subst hlast
  refine ⟨rfl, ?_⟩
  refine (List.map_injective_iff.mpr ?_) hmap
  intro j k hjk
  simpa using hjk

/-- A pipeline's commands tell which pipeline it is. -/
theorem Act.cmds_inj {a b : Act} (h : a.cmds d = b.cmds d) : a = b := by
  by_cases hb : ∃ v ks, b = .revokeAll v ks
  · obtain ⟨v, ks, rfl⟩ := hb
    obtain ⟨u, js, rfl⟩ := revokeAll_of_cmds h
    obtain ⟨rfl, rfl⟩ := revokeAllCmds_inj h
    rfl
  · cases a with
    | revokeAll u js => exact absurd (revokeAll_of_cmds h.symm) hb
    | save u j t =>
        cases b <;> simp_all [Act.cmds, saveCmds, rotateCmds, revokeCmds]
    | rotate u j ex =>
        cases b <;> simp_all [Act.cmds, saveCmds, rotateCmds, revokeCmds]
    | revoke u j =>
        cases b <;> simp_all [Act.cmds, saveCmds, rotateCmds, revokeCmds]

section Pipelines

variable {s s' : State} {a : Act} {r : Reply (.pipeline (a.cmds d))} (ha : a.Timed)
  (h : step d s (.pipeline (a.cmds d)) r s')

include ha h

private theorem purge_act (k : String) :
    purge s'.clock s'.redis k =
      effect s.clock (purge s.clock s.redis) (a.cmds d) k := by
  obtain ⟨_, rfl⟩ := h
  exact congrFun (purge_pipeline _ (Act.timed_cmds ha)) k

/-- Active tokens after a pipeline. -/
theorem token_act (v : Nat) (k : String) (e : Entry) :
    s'.token v k = some e ↔
      (∃ t, a = .save v k t ∧
        e = ⟨.str t, ((s.clock + d.settings.ttl : Nat) : WithTop Nat)⟩) ∨
      ((∀ t, a ≠ .save v k t) ∧ ¬ a.Kills v k ∧ s.token v k = some e) := by
  rw [State.token, purge_act ha h]
  cases a with
  | save u j t =>
      rw [Act.cmds, save_token]
      by_cases hk : v = u ∧ k = j
      · obtain ⟨rfl, rfl⟩ := hk
        simp [Act.Kills, eq_comm]
      · rw [if_neg hk]
        have hne : ∀ t', Act.save u j t ≠ .save v k t' := by
          rintro t' ⟨⟩
          exact hk ⟨rfl, rfl⟩
        simp [hne, Act.Kills, State.token]
  | rotate u j ex =>
      rw [Act.cmds, rotate_eq_revoke _ _ _ _ _ (tokenKey_ne_usedKey _ _ _ _), revoke_token]
      by_cases hk : v = u ∧ k = j <;> simp [hk, Act.Kills, State.token]
  | revoke u j =>
      rw [Act.cmds, revoke_token]
      by_cases hk : v = u ∧ k = j <;> simp [hk, Act.Kills, State.token]
  | revokeAll u jtis =>
      rw [Act.cmds, revokeAll_token]
      by_cases hk : v = u ∧ k ∈ jtis <;> simp [hk, Act.Kills, State.token]

/-- The index sets after a pipeline. -/
theorem index_act (v : Nat) (k : String) :
    k ∈ s'.index v ↔ (∃ t, a = .save v k t) ∨ (¬ a.Drops v k ∧ k ∈ s.index v) := by
  rw [State.index, members_congr (purge_act ha h _)]
  cases a with
  | save u j t =>
      rw [Act.cmds, save_mem]
      simp only [Act.save.injEq, Act.Drops, not_false_eq_true, true_and, State.index]
      constructor
      · rintro (⟨rfl, rfl⟩ | hk)
        · exact Or.inl ⟨t, rfl, rfl, rfl⟩
        · exact Or.inr hk
      · rintro (⟨t', rfl, rfl, _⟩ | hk)
        · exact Or.inl ⟨rfl, rfl⟩
        · exact Or.inr hk
  | rotate u j ex =>
      rw [Act.cmds, members_congr
        (rotate_eq_revoke _ _ _ _ _ (usedKey_ne_indexKey _ _ _).symm), revoke_mem]
      simp [Act.Drops, State.index]
  | revoke u j =>
      rw [Act.cmds, revoke_mem]
      simp [Act.Drops, State.index]
  | revokeAll u jtis =>
      simp only [Act.cmds, members, revokeAll_index]
      by_cases hv : v = u <;> simp [hv, Act.Drops, State.index, members]

/-- A save renews the index set's time to live; the others keep it. -/
theorem indexExpiry_act {v : Nat} {k : String} (hk : k ∈ s'.index v) :
    s'.indexExpiry v =
      if a.Renews v then ((s.clock + d.settings.ttl : Nat) : WithTop Nat)
      else s.indexExpiry v := by
  rw [State.index, members_congr (purge_act ha h _)] at hk
  rw [State.indexExpiry, expiry_congr (purge_act ha h _)]
  cases a with
  | save u j t =>
      rw [Act.cmds, save_expiry]
      rfl
  | rotate u j ex =>
      have hfront : effect s.clock (purge s.clock s.redis) (rotateCmds u j ex)
            (indexKey v) =
          effect s.clock (purge s.clock s.redis) (revokeCmds u j) (indexKey v) :=
        rotate_eq_revoke _ _ _ _ _ (usedKey_ne_indexKey _ _ _).symm
      rw [Act.cmds, members_congr hfront] at hk
      rw [Act.cmds, expiry_congr hfront, revoke_expiry _ _ _ _ _ _ hk]
      rfl
  | revoke u j =>
      rw [Act.cmds] at hk ⊢
      rw [revoke_expiry _ _ _ _ _ _ hk]
      rfl
  | revokeAll u jtis =>
      rw [Act.cmds] at hk ⊢
      by_cases hv : v = u
      · simp [members, revokeAll_index, hv] at hk
      · rw [expiry_congr (by rw [revokeAll_index, if_neg hv])]
        rfl

/-- Used markers after a pipeline. -/
theorem used_act (v : Nat) (k : String) (e : Entry) :
    s'.used v k = some e ↔
      (∃ ex, a = .rotate v k ex ∧
        e = ⟨.str "1", ((s.clock + ticks ex : Nat) : WithTop Nat)⟩) ∨
      ((∀ ex, a ≠ .rotate v k ex) ∧ s.used v k = some e) := by
  rw [State.used, purge_act ha h]
  cases a with
  | save u j t =>
      rw [Act.cmds, save_used]
      simp [State.used]
  | rotate u j ex =>
      rw [Act.cmds, rotate_used]
      by_cases hk : v = u ∧ k = j
      · obtain ⟨rfl, rfl⟩ := hk
        simp [eq_comm]
      · rw [if_neg hk]
        have hne : ∀ ex', Act.rotate u j ex ≠ .rotate v k ex' := by
          rintro ex' ⟨⟩
          exact hk ⟨rfl, rfl⟩
        simp [hne, State.used]
  | revoke u j =>
      rw [Act.cmds, revoke_used]
      simp [State.used]
  | revokeAll u jtis =>
      rw [Act.cmds, revokeAll_used]
      simp [State.used]

end Pipelines

end GreenCommunity.Auth
