import Mathlib.Logic.Function.Basic
import Mathlib.Algebra.Order.Monoid.Unbundled.WithTop
import Std.Data.String

/-!
# A keyspace with expiry

The documented behaviour of the Redis commands that a session store, a rate
limiter and a write-behind cache need: strings, sets, counters, and a time to
live on every key.  A key whose time has come is absent to every command, so a
command first drops what has expired (`purge`) and then acts.  A pipeline is one
`MULTI`/`EXEC`: all its commands run at one instant with nothing in between.

Time is a natural number of ticks, `second` of them to the second; commands take
whole seconds.  A key is gone at the very instant its time to live ends; Redis, whose
clock counts milliseconds, may keep it for one more.  A command against a key that
holds the other type of value is an error in Redis; here it replies as if the key were
absent and changes nothing.
-/

namespace GreenCommunity.Base.Redis

/-- Clock ticks (microseconds) to the second. -/
def second : Nat := 1000000

theorem second_pos : 0 < second := by decide

/-- Whole seconds in ticks. -/
def ticks (seconds : Nat) : Nat := second * seconds

theorem ticks_pos {s : Nat} (h : 0 < s) : 0 < ticks s := Nat.mul_pos second_pos h

inductive Value where
  | str (s : String)
  | set (members : List String)
  deriving DecidableEq, Repr

/-- A stored value with its expiry; `⊤` for a key without a time to live. -/
structure Entry where
  value : Value
  expireAt : WithTop Nat
  deriving DecidableEq

abbrev Keyspace := String → Option Entry

/-- The keyspace with every key dropped whose time has come. -/
def purge (now : Nat) (db : Keyspace) : Keyspace :=
  fun k => (db k).filter fun e => decide ((now : WithTop Nat) < e.expireAt)

/-- Nothing in the keyspace has expired. -/
def Settled (now : Nat) (db : Keyspace) : Prop :=
  ∀ k e, db k = some e → (now : WithTop Nat) < e.expireAt

theorem purge_eq_some {now : Nat} {db : Keyspace} {k : String} {e : Entry} :
    purge now db k = some e ↔
      db k = some e ∧ (now : WithTop Nat) < e.expireAt := by
  simp [purge, Option.filter_eq_some_iff]

theorem purge_eq_none {now : Nat} {db : Keyspace} {k : String} :
    purge now db k = none ↔
      ∀ e, db k = some e → e.expireAt ≤ (now : WithTop Nat) := by
  simp [purge, Option.filter_eq_none_iff]

theorem purge_settled (now : Nat) (db : Keyspace) :
    Settled now (purge now db) :=
  fun _ _ h => (purge_eq_some.mp h).2

theorem Settled.purge_eq {now : Nat} {db : Keyspace} (h : Settled now db) :
    purge now db = db := by
  funext k
  cases hk : db k with
  | none => simp [purge, hk]
  | some e => exact purge_eq_some.mpr ⟨hk, h k e hk⟩

/-- Dropping what has expired and waiting is the same as waiting and dropping
what has expired then. -/
theorem purge_purge {now later : Nat} (h : now ≤ later) (db : Keyspace) :
    purge later (purge now db) = purge later db := by
  funext k
  cases hk : purge later db k with
  | some e =>
      obtain ⟨hdb, hlt⟩ := purge_eq_some.mp hk
      have hnow : (now : WithTop Nat) < e.expireAt :=
        lt_of_le_of_lt (WithTop.coe_le_coe.mpr h) hlt
      exact purge_eq_some.mpr ⟨purge_eq_some.mpr ⟨hdb, hnow⟩, hlt⟩
  | none =>
      rw [purge_eq_none] at hk ⊢
      exact fun e he => hk e (purge_eq_some.mp he).1

/-! ## Commands -/

inductive Cmd where
  | get (key : String)
  | set (key value : String) (ex : Option Nat)
  | del (keys : List String)
  | exists (key : String)
  | sadd (key member : String)
  | srem (key member : String)
  | smembers (key : String)
  | expire (key : String) (seconds : Nat) (nx : Bool)
  | incr (key : String)
  | ttl (key : String)
  deriving DecidableEq, Repr

/-- The type of a command's reply. -/
abbrev Cmd.Reply : Cmd → Type
  | .get _ => Option String
  | .set _ _ _ => Unit
  | .del _ => Unit
  | .exists _ => Bool
  | .sadd _ _ => Unit
  | .srem _ _ => Unit
  | .smembers _ => List String
  | .expire _ _ _ => Bool
  | .incr _ => Int
  | .ttl _ => Int

/-- The members of the set at a key; an absent key is the empty set. -/
def members (db : Keyspace) (key : String) : List String :=
  match db key with
  | some ⟨.set ms, _⟩ => ms
  | _ => []

/-- The expiry `SADD` and `INCR` keep: that of the key, or none for a new one. -/
def expiry (db : Keyspace) (key : String) : WithTop Nat :=
  match db key with
  | some e => e.expireAt
  | none => ⊤

/-- Remaining time in whole seconds, as `TTL` reports it: the remaining
milliseconds rounded to the nearest second, `-1` without an expiry and `-2`
without the key. -/
def remaining (now : Nat) : Option Entry → Int
  | none => -2
  | some ⟨_, none⟩ => -1
  | some ⟨_, some t⟩ => (((t - now) / 1000 + 500) / 1000 : Nat)

/-- One command on a keyspace from which the expired keys are gone. -/
def Cmd.run (now : Nat) (db : Keyspace) : (c : Cmd) → c.Reply × Keyspace
  | .get key =>
      ((db key).bind fun e => match e.value with
        | .str s => some s
        | .set _ => none, db)
  | .set key value ex =>
      ((), Function.update db key
        (some ⟨.str value, ex.elim ⊤ fun s => ((now + ticks s : Nat) : WithTop Nat)⟩))
  | .del keys => ((), fun k => if k ∈ keys then none else db k)
  | .exists key => ((db key).isSome, db)
  | .sadd key member =>
      ((), Function.update db key
        (some ⟨.set (if member ∈ members db key then members db key
          else member :: members db key), expiry db key⟩))
  | .srem key member =>
      match db key with
      | some ⟨.set ms, t⟩ =>
          ((), Function.update db key
            (if ms.filter (· ≠ member) = [] then none
              else some ⟨.set (ms.filter (· ≠ member)), t⟩))
      | _ => ((), db)
  | .smembers key => (members db key, db)
  | .expire key seconds nx =>
      match db key with
      | some ⟨v, t⟩ =>
          if nx = true ∧ t ≠ ⊤ then (false, db)
          else (true, Function.update db key
            (some ⟨v, ((now + ticks seconds : Nat) : WithTop Nat)⟩))
      | none => (false, db)
  | .incr key =>
      let n : Int := match db key with
        | some ⟨.str s, _⟩ => (s.toInt?).getD 0
        | _ => 0
      (n + 1, Function.update db key
        (some ⟨.str (toString (n + 1)), expiry db key⟩))
  | .ttl key => (remaining now (db key), db)

/-- One command at an instant. -/
def exec (now : Nat) (db : Keyspace) (c : Cmd) : c.Reply × Keyspace :=
  c.run now (purge now db)

/-- The replies of a pipeline, command by command. -/
def Replies : List Cmd → Type
  | [] => Unit
  | c :: cs => c.Reply × Replies cs

/-- Commands in sequence at one instant. -/
def runAll (now : Nat) (db : Keyspace) : (cs : List Cmd) → Replies cs × Keyspace
  | [] => ((), db)
  | c :: cs =>
      let first := c.run now db
      let rest := runAll now first.2 cs
      ((first.1, rest.1), rest.2)

/-- A pipeline at an instant. -/
def pipeline (now : Nat) (db : Keyspace) (cs : List Cmd) :
    Replies cs × Keyspace :=
  runAll now (purge now db) cs

/-- The keyspace after commands in sequence at one instant. -/
def effect (now : Nat) (db : Keyspace) (cs : List Cmd) : Keyspace :=
  cs.foldl (fun db c => (c.run now db).2) db

@[simp] theorem effect_nil (now : Nat) (db : Keyspace) : effect now db [] = db := rfl

@[simp] theorem effect_cons (now : Nat) (db : Keyspace) (c : Cmd) (cs : List Cmd) :
    effect now db (c :: cs) = effect now (c.run now db).2 cs := rfl

theorem effect_append (now : Nat) (db : Keyspace) (cs cs' : List Cmd) :
    effect now db (cs ++ cs') = effect now (effect now db cs) cs' :=
  List.foldl_append

theorem runAll_snd (now : Nat) :
    ∀ (cs : List Cmd) (db : Keyspace), (runAll now db cs).2 = effect now db cs := by
  intro cs
  induction cs with
  | nil => intro db; rfl
  | cons c cs ih => intro db; exact ih _

theorem pipeline_snd (now : Nat) (db : Keyspace) (cs : List Cmd) :
    (pipeline now db cs).2 = effect now (purge now db) cs :=
  runAll_snd now cs _

/-! ## What a command leaves alone -/

/-- The keys a command may change. -/
def Cmd.writes : Cmd → List String
  | .get _ | .exists _ | .smembers _ | .ttl _ => []
  | .set key _ _ | .sadd key _ | .srem key _ | .expire key _ _ | .incr key => [key]
  | .del keys => keys

/-- The frame rule of one command. -/
theorem run_frame {c : Cmd} {k : String} (h : k ∉ c.writes) (now : Nat)
    (db : Keyspace) : (c.run now db).2 k = db k := by
  cases c with
  | get | «exists» | smembers | ttl => rfl
  | del keys =>
      have hk : k ∉ keys := h
      simp [Cmd.run, hk]
  | set key v ex =>
      have hk : k ≠ key := by simpa [Cmd.writes] using h
      simp [Cmd.run, Function.update_of_ne hk]
  | sadd key m =>
      have hk : k ≠ key := by simpa [Cmd.writes] using h
      simp [Cmd.run, Function.update_of_ne hk]
  | incr key =>
      have hk : k ≠ key := by simpa [Cmd.writes] using h
      simp [Cmd.run, Function.update_of_ne hk]
  | srem key m =>
      have hk : k ≠ key := by simpa [Cmd.writes] using h
      simp only [Cmd.run]
      split
      · exact Function.update_of_ne hk _ _
      · rfl
  | expire key s nx =>
      have hk : k ≠ key := by simpa [Cmd.writes] using h
      simp only [Cmd.run]
      split
      · split
        · rfl
        · exact Function.update_of_ne hk _ _
      · rfl

/-- The frame rule of a pipeline. -/
theorem effect_frame {k : String} (now : Nat) :
    ∀ (cs : List Cmd) (db : Keyspace), (∀ c ∈ cs, k ∉ c.writes) →
      effect now db cs k = db k := by
  intro cs
  induction cs with
  | nil => intro db _; rfl
  | cons c cs ih =>
      intro db h
      have hc : k ∉ c.writes := h c (by simp)
      have hcs : ∀ c' ∈ cs, k ∉ c'.writes := fun c' hc' => h c' (by simp [hc'])
      rw [effect_cons, ih _ hcs, run_frame hc]

/-- Deleting keys one by one before other commands that leave them alone. -/
theorem effect_delete (now : Nat) (keys : List String) (rest : List Cmd) (k : String) :
    ∀ db : Keyspace, (∀ c ∈ rest, k ∉ c.writes) →
      effect now db (keys.map (fun key => Cmd.del [key]) ++ rest) k =
        if k ∈ keys then none else db k := by
  induction keys with
  | nil => intro db h; simpa using effect_frame now rest db h
  | cons key keys ih =>
      intro db h
      simp only [List.map_cons, List.cons_append, effect_cons]
      rw [ih _ h]
      by_cases hk : k ∈ keys <;> simp [Cmd.run, hk]

/-! ## What a command looks at -/

/-- The keys a command reads or changes. -/
def Cmd.keys : Cmd → List String
  | .get key | .set key _ _ | .exists key | .sadd key _ | .srem key _ | .smembers key
  | .expire key _ _ | .incr key | .ttl key => [key]
  | .del keys => keys

/-- Two keyspaces agree on the keys in `K`. -/
def AgreeOn (K : String → Prop) (db db' : Keyspace) : Prop := ∀ k, K k → db k = db' k

private theorem AgreeOn.update {K : String → Prop} {db db' : Keyspace}
    (h : AgreeOn K db db') (key : String) {v v' : Option Entry} (hv : v = v') :
    AgreeOn K (Function.update db key v) (Function.update db' key v') := by
  intro k hk
  by_cases hkey : k = key
  · rw [hkey, Function.update_self, Function.update_self, hv]
  · rw [Function.update_of_ne hkey, Function.update_of_ne hkey, h k hk]

/-- A command on keys in `K` replies by these keys alone, and what it leaves there
depends on them alone. -/
theorem run_agree {K : String → Prop} {db db' : Keyspace} (now : Nat) {c : Cmd}
    (hc : ∀ k ∈ c.keys, K k) (h : AgreeOn K db db') :
    (c.run now db).1 = (c.run now db').1 ∧ AgreeOn K (c.run now db).2 (c.run now db').2 := by
  cases c with
  | del keys =>
      refine ⟨rfl, fun k hk => ?_⟩
      simp only [Cmd.run, h k hk]
  | set key v ex => exact ⟨rfl, h.update key rfl⟩
  | get key | «exists» key | smembers key | ttl key =>
      have hkey := h key (hc key List.mem_cons_self)
      simp only [Cmd.run, members, hkey]
      exact ⟨trivial, h⟩
  | sadd key m | incr key =>
      have hkey := h key (hc key List.mem_cons_self)
      simp only [Cmd.run, members, expiry, hkey]
      exact ⟨trivial, h.update key rfl⟩
  | srem key m =>
      have hkey := h key (hc key List.mem_cons_self)
      simp only [Cmd.run, hkey]
      split
      · exact ⟨trivial, h.update key rfl⟩
      · exact ⟨trivial, h⟩
  | expire key s nx =>
      have hkey := h key (hc key List.mem_cons_self)
      simp only [Cmd.run, hkey]
      split
      · split
        · exact ⟨rfl, h⟩
        · exact ⟨rfl, h.update key rfl⟩
      · exact ⟨rfl, h⟩

/-- The same of a pipeline. -/
theorem runAll_agree {K : String → Prop} (now : Nat) :
    ∀ (cs : List Cmd) {db db' : Keyspace}, (∀ c ∈ cs, ∀ k ∈ c.keys, K k) →
      AgreeOn K db db' →
      (runAll now db cs).1 = (runAll now db' cs).1 ∧
        AgreeOn K (runAll now db cs).2 (runAll now db' cs).2 := by
  intro cs
  induction cs with
  | nil => intro db db' _ h; exact ⟨rfl, h⟩
  | cons c cs ih =>
      intro db db' hcs h
      obtain ⟨hreply, hfirst⟩ := run_agree now (hcs c List.mem_cons_self) h
      obtain ⟨hreplies, hrest⟩ :=
        ih (fun c' hc' => hcs c' (List.mem_cons_of_mem c hc')) hfirst
      refine ⟨?_, hrest⟩
      show ((c.run now db).1, (runAll now (c.run now db).2 cs).1) = _
      rw [hreply, hreplies]
      rfl

/-! ## Sets -/

theorem members_congr {db db' : Keyspace} {key : String} (h : db' key = db key) :
    members db' key = members db key := by
  simp only [members, h]

theorem expiry_congr {db db' : Keyspace} {key : String} (h : db' key = db key) :
    expiry db' key = expiry db key := by
  simp only [expiry, h]

theorem mem_members_sadd {now : Nat} {db : Keyspace} {key m x : String} :
    x ∈ members ((Cmd.sadd key m).run now db).2 key ↔
      x = m ∨ x ∈ members db key := by
  rw [show members ((Cmd.sadd key m).run now db).2 key =
    if m ∈ members db key then members db key else m :: members db key by
      simp [Cmd.run, members]]
  by_cases hm : m ∈ members db key
  · rw [if_pos hm]
    exact ⟨Or.inr, fun h => h.elim (fun hx => hx ▸ hm) id⟩
  · rw [if_neg hm, List.mem_cons]

theorem mem_members_srem {now : Nat} {db : Keyspace} {key m x : String} :
    x ∈ members ((Cmd.srem key m).run now db).2 key ↔
      x ≠ m ∧ x ∈ members db key := by
  simp only [Cmd.run]
  split
  · rename_i ms t hdb
    have hms : members db key = ms := by simp [members, hdb]
    rw [hms]
    by_cases hnil : ms.filter (· ≠ m) = []
    · simp only [hnil, if_true, members, Function.update_self]
      constructor
      · intro h
        simp at h
      · rintro ⟨hne, hx⟩
        have hmem : x ∈ ms.filter (· ≠ m) := by simp [hx, hne]
        rw [hnil] at hmem
        simp at hmem
    · simp only [hnil, if_false, members, Function.update_self]
      simp [and_comm]
  · rename_i hdb
    have hms : members db key = [] := by
      unfold members
      split
      · rename_i ms t hset
        exact absurd hset (hdb ms t)
      · rfl
    simp [hms]

/-- `SREM` keeps the time to live of a set it does not empty. -/
theorem expiry_srem {now : Nat} {db : Keyspace} {key m x : String}
    (hx : x ∈ members ((Cmd.srem key m).run now db).2 key) :
    expiry ((Cmd.srem key m).run now db).2 key = expiry db key := by
  have hmem := (mem_members_srem.mp hx)
  simp only [Cmd.run]
  split
  · rename_i ms t hdb
    have hms : x ∈ ms := by simpa [members, hdb] using hmem.2
    have hnil : ms.filter (· ≠ m) ≠ [] := by
      intro hnil
      have hin : x ∈ ms.filter (· ≠ m) := by simp [hms, hmem.1]
      rw [hnil] at hin
      simp at hin
    simp only [hnil, if_false, expiry, Function.update_self, hdb]
  · rfl

@[simp] theorem members_expire {now n : Nat} {db : Keyspace} {key : String}
    {nx : Bool} :
    members ((Cmd.expire key n nx).run now db).2 key = members db key := by
  simp only [Cmd.run]
  split
  · rename_i v t hdb
    split
    · rfl
    · simp only [members, Function.update_self, hdb]
      cases v <;> rfl
  · rfl

theorem expiry_expire {now n : Nat} {db : Keyspace} {key x : String}
    (hx : x ∈ members db key) :
    expiry ((Cmd.expire key n false).run now db).2 key =
      ((now + ticks n : Nat) : WithTop Nat) := by
  simp only [Cmd.run]
  split
  · simp [expiry]
  · rename_i hdb
    simp [members, hdb] at hx

/-! ## Settled keyspaces stay settled -/

/-- Times to live are positive, as Redis demands of `SET EX` and `EXPIRE`. -/
def Cmd.Timed : Cmd → Prop
  | .set _ _ (some s) => 0 < s
  | .expire _ s _ => 0 < s
  | _ => True

private theorem lt_after {now s : Nat} (h : 0 < s) :
    (now : WithTop Nat) < ((now + ticks s : Nat) : WithTop Nat) := by
  have hpos : 0 < ticks s := ticks_pos h
  exact WithTop.coe_lt_coe.mpr (by omega : now < now + ticks s)

private theorem settled_update {now : Nat} {db : Keyspace} (h : Settled now db)
    {key : String} {o : Option Entry}
    (ho : ∀ e, o = some e → (now : WithTop Nat) < e.expireAt) :
    Settled now (Function.update db key o) := by
  intro k e hk
  by_cases hkey : k = key
  · subst hkey
    rw [Function.update_self] at hk
    exact ho e hk
  · rw [Function.update_of_ne hkey] at hk
    exact h k e hk

private theorem settled_expiry {now : Nat} {db : Keyspace} (h : Settled now db)
    (key : String) : (now : WithTop Nat) < expiry db key := by
  unfold expiry
  cases hk : db key with
  | none => exact WithTop.coe_lt_top now
  | some e => exact h key e hk

/-- A command with positive times keeps a settled keyspace settled. -/
theorem run_settled {now : Nat} {db : Keyspace} (h : Settled now db) {c : Cmd}
    (hc : c.Timed) : Settled now (c.run now db).2 := by
  cases c with
  | get | «exists» | smembers | ttl => exact h
  | del keys =>
      intro k e hk
      simp only [Cmd.run] at hk
      split at hk
      · simp at hk
      · exact h k e hk
  | set key v ex =>
      refine settled_update h ?_
      rintro e ⟨⟩
      cases ex with
      | none => exact WithTop.coe_lt_top now
      | some s => exact lt_after hc
  | sadd key m =>
      refine settled_update h ?_
      rintro e ⟨⟩
      exact settled_expiry h key
  | incr key =>
      refine settled_update h ?_
      rintro e ⟨⟩
      exact settled_expiry h key
  | srem key m =>
      simp only [Cmd.run]
      split
      · rename_i ms t hdb
        refine settled_update h ?_
        intro e he
        split at he
        · simp at he
        · cases he
          have hlt := h key _ hdb
          exact hlt
      · exact h
  | expire key s nx =>
      simp only [Cmd.run]
      split
      · split
        · exact h
        · refine settled_update h ?_
          rintro e ⟨⟩
          exact lt_after hc
      · exact h

theorem effect_settled {now : Nat} :
    ∀ (cs : List Cmd) (db : Keyspace), Settled now db → (∀ c ∈ cs, c.Timed) →
      Settled now (effect now db cs) := by
  intro cs
  induction cs with
  | nil => intro db h _; exact h
  | cons c cs ih =>
      intro db h hcs
      exact ih _ (run_settled h (hcs c (by simp)))
        fun c' hc' => hcs c' (by simp [hc'])

/-- After a pipeline nothing in the keyspace has expired. -/
theorem purge_pipeline {now : Nat} (db : Keyspace) {cs : List Cmd}
    (hcs : ∀ c ∈ cs, c.Timed) :
    purge now (pipeline now db cs).2 = effect now (purge now db) cs := by
  rw [pipeline_snd]
  exact (effect_settled cs _ (purge_settled now db) hcs).purge_eq

/-- After a command nothing in the keyspace has expired. -/
theorem purge_exec {now : Nat} (db : Keyspace) {c : Cmd} (hc : c.Timed) :
    purge now (exec now db c).2 = (exec now db c).2 :=
  (run_settled (purge_settled now db) hc).purge_eq

end GreenCommunity.Base.Redis
