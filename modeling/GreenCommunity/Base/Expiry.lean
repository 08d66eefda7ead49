import GreenCommunity.Base.Redis

/-!
# Keys that expire

`INCR` and `SADD` on a key that is not there make one without a time to live.  Between the
commands of a pipeline one such key may be owed an expiry (`ExpiresBut`); `Pays` says of a
list of commands that it pays what it owes.
-/

namespace GreenCommunity.Base.Redis

/-- Every key is gone by the instant `due`, but for the key that is owed an expiry. -/
def ExpiresBut (owed : Option String) (due : Nat) (db : Keyspace) : Prop :=
  ∀ k e, db k = some e → e.expireAt ≤ (due : WithTop Nat) ∨ e.expireAt = ⊤ ∧ owed = some k

def Expires (due : Nat) (db : Keyspace) : Prop :=
  ∀ k e, db k = some e → e.expireAt ≤ (due : WithTop Nat)

/-- The commands, which begin with the key `owed` without an expiry, leave every key that
they make with one, by `due`. -/
def Pays (now due : Nat) : Option String → List Cmd → Prop
  | owed, [] => owed = none
  | owed, .sadd key _ :: cs | owed, .incr key :: cs =>
      (owed = none ∨ owed = some key) ∧ Pays now due (some key) cs
  | owed, .expire key s _ :: cs =>
      (owed = none ∨ owed = some key) ∧ now + ticks s ≤ due ∧ Pays now due none cs
  | owed, .set _ _ ex :: cs => (∃ s, ex = some s ∧ now + ticks s ≤ due) ∧ Pays now due owed cs
  | owed, .get _ :: cs | owed, .del _ :: cs | owed, .exists _ :: cs | owed, .srem _ _ :: cs
  | owed, .smembers _ :: cs | owed, .ttl _ :: cs => Pays now due owed cs

section Rules

variable {owed : Option String} {now due due' : Nat} {db : Keyspace} {key : String}

theorem expires_iff : Expires due db ↔ ExpiresBut none due db := by
  simp [Expires, ExpiresBut]

theorem Expires.mono (h : Expires due db) (hle : due ≤ due') : Expires due' db :=
  fun k e he => (h k e he).trans (WithTop.coe_le_coe.mpr hle)

theorem Expires.purge (h : Expires due db) (now : Nat) : Expires due (purge now db) :=
  fun k e he => h k e (purge_eq_some.mp he).1

/-- From then on there is nothing left. -/
theorem Expires.purge_eq_none (h : Expires due db) (hle : due ≤ now) (k : String) :
    Redis.purge now db k = none :=
  Redis.purge_eq_none.mpr fun e he => (h k e he).trans (WithTop.coe_le_coe.mpr hle)

/-- A new entry of a key. -/
theorem ExpiresBut.update {owed' : Option String} (h : ExpiresBut owed due db)
    (howed : owed = none ∨ owed = some key ∨ owed = owed') {o : Option Entry}
    (ho : ∀ e, o = some e →
      e.expireAt ≤ (due : WithTop Nat) ∨ e.expireAt = ⊤ ∧ owed' = some key) :
    ExpiresBut owed' due (Function.update db key o) := by
  intro k e he
  by_cases hk : k = key
  · subst hk
    rw [Function.update_self] at he
    exact ho e he
  · rw [Function.update_of_ne hk] at he
    rcases h k e he with hle | ⟨htop, hkey⟩
    · exact Or.inl hle
    · rcases howed with rfl | rfl | rfl
      · cases hkey
      · exact absurd (Option.some.inj hkey).symm hk
      · exact Or.inr ⟨htop, hkey⟩

/-- The expiry that `SADD` and `INCR` keep. -/
theorem ExpiresBut.expiry (h : ExpiresBut owed due db) (key : String) :
    expiry db key ≤ (due : WithTop Nat) ∨ expiry db key = ⊤ := by
  unfold Redis.expiry
  cases hk : db key with
  | none => exact Or.inr rfl
  | some e => exact (h key e hk).imp_right And.left

theorem ExpiresBut.sadd (h : ExpiresBut owed due db) (howed : owed = none ∨ owed = some key)
    (member : String) : ExpiresBut (some key) due ((Cmd.sadd key member).run now db).2 := by
  refine h.update (howed.imp_right Or.inl) ?_
  rintro e ⟨⟩
  exact (h.expiry key).imp_right fun htop => ⟨htop, rfl⟩

theorem ExpiresBut.incr (h : ExpiresBut owed due db) (howed : owed = none ∨ owed = some key) :
    ExpiresBut (some key) due ((Cmd.incr key).run now db).2 := by
  refine h.update (howed.imp_right Or.inl) ?_
  rintro e ⟨⟩
  exact (h.expiry key).imp_right fun htop => ⟨htop, rfl⟩

/-- `EXPIRE` gives the key its time, and `EXPIRE NX` if it has none. -/
theorem ExpiresBut.expire (h : ExpiresBut owed due db) (howed : owed = none ∨ owed = some key)
    {s : Nat} (hs : now + ticks s ≤ due) (nx : Bool) :
    ExpiresBut none due ((Cmd.expire key s nx).run now db).2 := by
  have hkept : (∀ e, db key = some e → e.expireAt ≠ ⊤) → ExpiresBut none due db := by
    intro hne k e he
    rcases h k e he with hle | ⟨htop, hkey⟩
    · exact Or.inl hle
    · rcases howed with rfl | rfl
      · cases hkey
      · obtain rfl := Option.some.inj hkey
        exact absurd htop (hne e he)
  simp only [Cmd.run]
  split
  next v t hdb =>
    split
    next hnx =>
      refine hkept fun e he => ?_
      obtain rfl := Option.some.inj (hdb.symm.trans he)
      exact hnx.2
    next =>
      refine h.update (howed.imp_right Or.inl) ?_
      rintro e ⟨⟩
      exact Or.inl (WithTop.coe_le_coe.mpr hs)
  next hdb =>
    refine hkept fun e he => ?_
    rw [hdb] at he
    cases he

theorem ExpiresBut.set (h : ExpiresBut owed due db) {s : Nat} (hs : now + ticks s ≤ due)
    (value : String) : ExpiresBut owed due ((Cmd.set key value (some s)).run now db).2 := by
  refine h.update (Or.inr (Or.inr rfl)) ?_
  rintro e ⟨⟩
  exact Or.inl (WithTop.coe_le_coe.mpr hs)

theorem ExpiresBut.del (h : ExpiresBut owed due db) (keys : List String) :
    ExpiresBut owed due ((Cmd.del keys).run now db).2 := by
  intro k e he
  simp only [Cmd.run] at he
  split at he
  · cases he
  · exact h k e he

theorem ExpiresBut.srem (h : ExpiresBut owed due db) (member : String) :
    ExpiresBut owed due ((Cmd.srem key member).run now db).2 := by
  simp only [Cmd.run]
  split
  next ms t hdb =>
    refine h.update (Or.inr (Or.inr rfl)) fun e he => ?_
    split at he
    · cases he
    · cases he
      have hold := h key _ hdb
      exact hold
  next => exact h

/-- What a list of commands that pays leaves behind. -/
theorem effect_expiresBut : ∀ (cs : List Cmd) {owed : Option String} {db : Keyspace},
    Pays now due owed cs → ExpiresBut owed due db → ExpiresBut none due (effect now db cs) := by
  intro cs
  induction cs with
  | nil =>
      rintro owed db rfl h
      exact h
  | cons c cs ih =>
      intro owed db hpays h
      rw [effect_cons]
      cases c with
      | get | «exists» | smembers | ttl => exact ih hpays h
      | del keys => exact ih hpays (h.del keys)
      | srem key member => exact ih hpays (h.srem member)
      | sadd key member => exact ih hpays.2 (h.sadd hpays.1 member)
      | incr key => exact ih hpays.2 (h.incr hpays.1)
      | expire key s nx => exact ih hpays.2.2 (h.expire hpays.1 hpays.2.1 nx)
      | set key value ex =>
          obtain ⟨s, rfl, hs⟩ := hpays.1
          exact ih hpays.2 (h.set hs value)

theorem pipeline_expires {cs : List Cmd} (hpays : Pays now due none cs) (h : Expires due db) :
    Expires due (pipeline now db cs).2 := by
  rw [pipeline_snd]
  exact expires_iff.mpr (effect_expiresBut cs hpays (expires_iff.mp (h.purge now)))

theorem exec_expires {c : Cmd} (hpays : Pays now due none [c]) (h : Expires due db) :
    Expires due (exec now db c).2 :=
  pipeline_expires hpays h

/-- Deletions owe nothing. -/
theorem pays_of_deletes {cs : List Cmd} (h : ∀ c ∈ cs, ∃ keys, c = .del keys) :
    Pays now due none cs := by
  induction cs with
  | nil => exact rfl
  | cons c cs ih =>
      obtain ⟨keys, rfl⟩ := h c List.mem_cons_self
      exact ih fun c' hc' => h c' (List.mem_cons_of_mem _ hc')

end Rules

end GreenCommunity.Base.Redis
