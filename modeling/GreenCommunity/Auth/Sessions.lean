import GreenCommunity.Auth.Service

/-!
# What the store's pipelines do to the three key families

The keys of the three families are pairwise distinct texts, so each pipeline of
`RefreshTokenStore` is an update of three tables: token entries, index sets and
used markers.  The lemmas below are that reading, one for each pipeline and
table; no later proof looks at a key's text again.
-/

namespace GreenCommunity.Auth

open GreenCommunity.Base
open GreenCommunity.Base.Redis
open GreenCommunity.Base.Text

variable {Tok : Type} {d : Deps Tok}

/-! ## Keys -/

@[simp] theorem tokenKey_inj {u v : Nat} {j k : String} :
    tokenKey u j = tokenKey v k ↔ u = v ∧ j = k := by
  rw [← String.toList_inj, ← @String.toList_inj j k]
  simpa [tokenKey, toString_text] using
    @numbered_inj "refresh:".toList j.toList k.toList u v

@[simp] theorem usedKey_inj {u v : Nat} {j k : String} :
    usedKey u j = usedKey v k ↔ u = v ∧ j = k := by
  rw [← String.toList_inj, ← @String.toList_inj j k]
  simpa [usedKey, toString_text] using
    @numbered_inj "refresh_used:".toList j.toList k.toList u v

@[simp] theorem indexKey_inj {u v : Nat} : indexKey u = indexKey v ↔ u = v := by
  rw [← String.toList_inj]
  simpa [indexKey, toString_text] using toDigits_inj

private theorem toList_ne {a b : String} (h : a.toList ≠ b.toList) : a ≠ b :=
  fun hab => h (congrArg String.toList hab)

@[simp] theorem tokenKey_ne_indexKey (u v : Nat) (j : String) :
    tokenKey u j ≠ indexKey v :=
  toList_ne (by simp [tokenKey, indexKey, toString_text])

@[simp] theorem tokenKey_ne_usedKey (u v : Nat) (j k : String) :
    tokenKey u j ≠ usedKey v k :=
  toList_ne (by simp [tokenKey, usedKey, toString_text])

@[simp] theorem usedKey_ne_indexKey (u v : Nat) (j : String) :
    usedKey u j ≠ indexKey v :=
  toList_ne (by simp [indexKey, usedKey, toString_text])

/-- A key of one of the three families. -/
inductive SessionKey : String → Prop where
  | token (u : Nat) (j : String) : SessionKey (tokenKey u j)
  | index (u : Nat) : SessionKey (indexKey u)
  | used (u : Nat) (j : String) : SessionKey (usedKey u j)

/-- The rate limiter's keys are not session keys. -/
theorem rateLimitKey_ne {email clientIp key k : String}
    (hkey : key ∈ rateLimitKeys d email clientIp) (hk : SessionKey k) : k ≠ key := by
  simp only [rateLimitKeys, List.mem_cons, List.not_mem_nil, or_false] at hkey
  rcases hkey with rfl | rfl <;> cases hk <;>
    exact toList_ne (by simp [tokenKey, indexKey, usedKey, toString_text])

/-! ## Effects of the pipelines -/

section Effects

variable (now : Nat) (db : Keyspace) (u : Nat) (j : String)

/-- The token keys after `save`. -/
theorem save_token (h : String) (v : Nat) (k : String) :
    effect now db (saveCmds d u j h) (tokenKey v k) =
      if v = u ∧ k = j then
        some ⟨.str h, ((now + d.settings.ttl : Nat) : WithTop Nat)⟩
      else db (tokenKey v k) := by
  simp only [saveCmds, effect_cons, effect_nil]
  rw [run_frame (by simp [Cmd.writes]), run_frame (by simp [Cmd.writes])]
  by_cases hk : tokenKey v k = tokenKey u j
  · rw [if_pos (tokenKey_inj.mp hk), hk]
    simp [Cmd.run, Settings.ttl]
  · rw [if_neg (fun h => hk (tokenKey_inj.mpr h)),
      run_frame (by simpa [Cmd.writes] using hk)]

theorem save_used (h : String) (v : Nat) (k : String) :
    effect now db (saveCmds d u j h) (usedKey v k) = db (usedKey v k) := by
  refine effect_frame now _ db fun c hc => ?_
  simp only [saveCmds, List.mem_cons, List.not_mem_nil, or_false] at hc
  rcases hc with rfl | rfl | rfl <;> simp [Cmd.writes, (tokenKey_ne_usedKey _ _ _ _).symm]

/-- The index sets after `save`. -/
theorem save_mem (h : String) (v : Nat) (k : String) :
    k ∈ members (effect now db (saveCmds d u j h)) (indexKey v) ↔
      (v = u ∧ k = j) ∨ k ∈ members db (indexKey v) := by
  simp only [saveCmds, effect_cons, effect_nil]
  by_cases hv : v = u
  · subst hv
    rw [members_expire, mem_members_sadd, members_congr (run_frame _ _ _)]
    · simp
    · simp [Cmd.writes, (tokenKey_ne_indexKey _ _ _).symm]
  · rw [members_congr (run_frame _ _ _), members_congr (run_frame _ _ _),
      members_congr (run_frame _ _ _)]
    · simp [hv]
    all_goals simp [Cmd.writes, hv, (tokenKey_ne_indexKey _ _ _).symm]

theorem save_expiry (h : String) (v : Nat) :
    expiry (effect now db (saveCmds d u j h)) (indexKey v) =
      if v = u then ((now + d.settings.ttl : Nat) : WithTop Nat)
      else expiry db (indexKey v) := by
  simp only [saveCmds, effect_cons, effect_nil]
  by_cases hv : v = u
  · subst hv
    rw [if_pos rfl]
    exact expiry_expire (mem_members_sadd.mpr (Or.inl rfl))
  · rw [if_neg hv, expiry_congr (run_frame _ _ _), expiry_congr (run_frame _ _ _),
      expiry_congr (run_frame _ _ _)]
    all_goals simp [Cmd.writes, hv, (tokenKey_ne_indexKey _ _ _).symm]

/-- The token keys after `revoke`. -/
theorem revoke_token (v : Nat) (k : String) :
    effect now db (revokeCmds u j) (tokenKey v k) =
      if v = u ∧ k = j then none else db (tokenKey v k) := by
  simp only [revokeCmds, effect_cons, effect_nil]
  rw [run_frame (by simp [Cmd.writes])]
  simp [Cmd.run]

theorem revoke_used (v : Nat) (k : String) :
    effect now db (revokeCmds u j) (usedKey v k) = db (usedKey v k) := by
  refine effect_frame now _ db fun c hc => ?_
  simp only [revokeCmds, List.mem_cons, List.not_mem_nil, or_false] at hc
  rcases hc with rfl | rfl <;> simp [Cmd.writes, (tokenKey_ne_usedKey _ _ _ _).symm]

/-- The index sets after `revoke`. -/
theorem revoke_mem (v : Nat) (k : String) :
    k ∈ members (effect now db (revokeCmds u j)) (indexKey v) ↔
      ¬(v = u ∧ k = j) ∧ k ∈ members db (indexKey v) := by
  have hdel : ((Cmd.del [tokenKey u j]).run now db).2 (indexKey v) =
      db (indexKey v) :=
    run_frame (by simp [Cmd.writes, (tokenKey_ne_indexKey _ _ _).symm]) now db
  simp only [revokeCmds, effect_cons, effect_nil]
  by_cases hv : v = u
  · subst hv
    rw [mem_members_srem, members_congr hdel]
    simp
  · rw [members_congr (run_frame (by simp [Cmd.writes, hv]) _ _), members_congr hdel]
    simp [hv]

theorem revoke_expiry (v : Nat) (k : String)
    (hk : k ∈ members (effect now db (revokeCmds u j)) (indexKey v)) :
    expiry (effect now db (revokeCmds u j)) (indexKey v) =
      expiry db (indexKey v) := by
  have hdel : ((Cmd.del [tokenKey u j]).run now db).2 (indexKey v) =
      db (indexKey v) :=
    run_frame (by simp [Cmd.writes, (tokenKey_ne_indexKey _ _ _).symm]) now db
  simp only [revokeCmds, effect_cons, effect_nil] at hk ⊢
  by_cases hv : v = u
  · subst hv
    rw [expiry_srem hk, expiry_congr hdel]
  · rw [expiry_congr (run_frame (by simp [Cmd.writes, hv]) _ _), expiry_congr hdel]

/-- `rotate` is `revoke` followed by the used marker. -/
theorem rotate_eq_revoke (ex : Nat) {k : String} (hk : k ≠ usedKey u j) :
    effect now db (rotateCmds u j ex) k =
      effect now db (revokeCmds u j) k := by
  simp only [rotateCmds, revokeCmds, effect_cons, effect_nil]
  exact run_frame (by simpa [Cmd.writes] using hk) _ _

/-- The used markers after `rotate`. -/
theorem rotate_used (ex : Nat) (v : Nat) (k : String) :
    effect now db (rotateCmds u j ex) (usedKey v k) =
      if v = u ∧ k = j then
        some ⟨.str "1", ((now + ticks ex : Nat) : WithTop Nat)⟩
      else db (usedKey v k) := by
  by_cases hk : usedKey v k = usedKey u j
  · rw [if_pos (usedKey_inj.mp hk), hk]
    simp [rotateCmds, Cmd.run]
  · rw [if_neg (fun h => hk (usedKey_inj.mpr h)), rotate_eq_revoke now db u j _ hk,
      revoke_used]

/-- The token keys after the deletion pipeline of `revoke_all`. -/
theorem revokeAll_token (jtis : List String) (v : Nat) (k : String) :
    effect now db (revokeAllCmds u jtis) (tokenKey v k) =
      if v = u ∧ k ∈ jtis then none else db (tokenKey v k) := by
  have h := effect_delete now (jtis.map (tokenKey u)) [.del [indexKey u]]
    (tokenKey v k) db (by simp [Cmd.writes])
  simp only [List.map_map, Function.comp_def] at h
  rw [revokeAllCmds, h]
  by_cases hv : v = u
  · subst hv
    simp
  · have hne : tokenKey v k ∉ jtis.map (tokenKey u) := by
      simp [Ne.symm hv]
    simp [hne, hv]

theorem revokeAll_used (jtis : List String) (v : Nat) (k : String) :
    effect now db (revokeAllCmds u jtis) (usedKey v k) = db (usedKey v k) := by
  refine effect_frame now _ db fun c hc => ?_
  simp only [revokeAllCmds, List.mem_append, List.mem_map, List.mem_singleton] at hc
  rcases hc with ⟨i, _, rfl⟩ | rfl <;>
    simp [Cmd.writes, (tokenKey_ne_usedKey _ _ _ _).symm]

/-- The index sets after the deletion pipeline of `revoke_all`. -/
theorem revokeAll_index (jtis : List String) (v : Nat) :
    effect now db (revokeAllCmds u jtis) (indexKey v) =
      if v = u then none else db (indexKey v) := by
  have hframe : ∀ db' : Keyspace,
      effect now db' (jtis.map fun i => .del [tokenKey u i]) (indexKey v) =
        db' (indexKey v) := by
    intro db'
    refine effect_frame now _ db' fun c hc => ?_
    obtain ⟨i, _, rfl⟩ := List.mem_map.mp hc
    simp [Cmd.writes, (tokenKey_ne_indexKey _ _ _).symm]
  rw [revokeAllCmds, effect_append]
  simp only [effect_cons, effect_nil, Cmd.run, List.mem_singleton, indexKey_inj]
  by_cases hv : v = u
  · simp [hv]
  · rw [if_neg hv, if_neg hv, hframe]

end Effects

end GreenCommunity.Auth
