import GreenCommunity.Users.Ops
import Mathlib.Data.List.Pairwise

/-!
# The keys of the users

What a step can do to the table and to the sessions, and what follows for the two unique
columns: no two rows that are committed, or that one session sees, share an id or an
email, and neither do rows that two sessions have inserted.
-/

namespace GreenCommunity.Users

open GreenCommunity.Base
open GreenCommunity.Infrastructure (Collation)

/-! ## What a step does -/

section Effect

variable {C : Type} [DecidableEq C] (coll : Collation)

/-- What an operation of `c` makes of the state. -/
inductive Effect (c : C) (s : State C) : Op → State C → Prop where
  | nothing {op : Op} : Effect c s op s
  | read {op : Op} : Effect c s op { s with db := s.db.read c }
  | insert {userEmail userPasswordHash userNickname : String}
      (hnew : ¬ Registered coll (s.db.current apply c) userEmail)
      (hfree : s.db.Free (Write.Conflicts coll) c
        (.insert (newUser s.nextUserId userEmail userPasswordHash userNickname))) :
      Effect c s (.insert userEmail userPasswordHash userNickname)
        ⟨s.db.write c (.insert (newUser s.nextUserId userEmail userPasswordHash userNickname)),
          s.nextUserId + 1⟩
  | update {userId : Nat} {userNickname : Option (Option String)} {userIsActive : Option Bool} :
      Effect c s (.update userId userNickname userIsActive)
        { s with db := s.db.write c (.update userId userNickname.join userIsActive) }
  | commit : Effect c s .commit { s with db := s.db.commit apply c }
  | rollback {op : Op} : Effect c s op { s with db := s.db.rollback c }

variable {coll} {c : C} {s s' : State C}

theorem effect_of_step {op : Op} {r : Reply op} (h : step coll c s op r s') :
    Effect coll c s op s' := by
  cases r with
  | error e =>
      obtain ⟨_, rfl⟩ := h
      exact .nothing
  | ok r =>
      cases op with
      | selectById userId | selectByEmail userEmail | countByEmail userEmail =>
          obtain ⟨_, rfl⟩ := h
          exact .read
      | insert userEmail userPasswordHash userNickname =>
          obtain ⟨_, hnew, hfree, rfl⟩ := h
          exact .insert hnew hfree
      | update userId userNickname userIsActive =>
          obtain ⟨_, _, rfl⟩ := h
          exact .update
      | hashPassword password | auth op =>
          obtain rfl : s' = s := h
          exact .nothing
      | commit =>
          obtain rfl : s' = _ := h
          exact .commit
      | rollback | close =>
          obtain rfl : s' = _ := h
          exact .rollback

/-- The other sessions do not notice. -/
theorem Effect.session_ne {op : Op} (h : Effect coll c s op s') {c' : C} (hc : c' ≠ c) :
    s'.db.session c' = s.db.session c' := by
  cases h with
  | nothing => rfl
  | read => exact Db.session_read_ne hc
  | insert | update => exact Db.session_write_ne hc
  | commit => exact Db.session_commit_ne hc
  | rollback => exact Db.session_rollback_ne hc

/-- Only a commit changes what is committed. -/
theorem Effect.committed {op : Op} (h : Effect coll c s op s') :
    s'.db.committed = s.db.committed ∨
      op = .commit ∧ s'.db.committed = s.db.current apply c := by
  cases h with
  | commit => exact Or.inr ⟨rfl, rfl⟩
  | _ => exact Or.inl rfl

end Effect

/-! ## Keys -/

/-- The columns with a unique key. -/
def User.keys (row : User) : Nat × String := (row.userId, row.userEmail)

/-- Rows with such columns do not stand side by side. -/
def Clash (coll : Collation) (k k' : Nat × String) : Prop :=
  k.1 = k'.1 ∨ coll.same k.2 k'.2 = true

theorem Clash.symm {coll : Collation} {k k' : Nat × String} (h : Clash coll k k') :
    Clash coll k' k :=
  h.imp Eq.symm coll.symm

/-- The keys that a write adds. -/
def Write.keys : Write → List (Nat × String)
  | .insert row => [row.keys]
  | .update _ _ _ => []

theorem keys_apply (t : List User) (w : Write) :
    (apply t w).map User.keys = t.map User.keys ++ w.keys := by
  cases w with
  | insert row => simp [apply, Write.keys]
  | update userId userNickname userIsActive =>
      rw [Write.keys, List.append_nil, apply, updateAt, List.map_map]
      refine List.map_congr_left fun row _ => ?_
      simp only [Function.comp_apply]
      split <;> rfl

theorem keys_foldl (t : List User) (ws : List Write) :
    (ws.foldl apply t).map User.keys = t.map User.keys ++ ws.flatMap Write.keys := by
  induction ws generalizing t with
  | nil => simp
  | cons w ws ih => rw [List.foldl_cons, ih, keys_apply, List.flatMap_cons, List.append_assoc]

/-- No two rows of the table clash. -/
def Distinct (coll : Collation) (keys : List (Nat × String)) : Prop :=
  keys.Pairwise fun k k' => ¬ Clash coll k k'

theorem distinct_append {coll : Collation} {ks ks' : List (Nat × String)} :
    Distinct coll (ks ++ ks') ↔
      Distinct coll ks ∧ Distinct coll ks' ∧ ∀ k ∈ ks, ∀ k' ∈ ks', ¬ Clash coll k k' :=
  List.pairwise_append

/-- Rows that clash are one row. -/
theorem Distinct.eq {coll : Collation} {t : List User} (h : Distinct coll (t.map User.keys))
    {row row' : User} (hrow : row ∈ t) (hrow' : row' ∈ t)
    (hclash : Clash coll row.keys row'.keys) : row = row' := by
  by_contra hne
  have hsymm : Std.Symm fun a b : User => ¬ Clash coll a.keys b.keys :=
    ⟨fun _ _ hno hclash => hno hclash.symm⟩
  exact (List.pairwise_map.mp h).forall hrow hrow' hne hclash

/-- At most one row has a given email. -/
theorem Distinct.usersByEmail {coll : Collation} {t : List User}
    (h : Distinct coll (t.map User.keys)) (userEmail : String) :
    (usersByEmail coll t userEmail).length ≤ 1 := by
  have hrows : (Users.usersByEmail coll t userEmail).Pairwise fun _ _ => False := by
    refine ((List.pairwise_map.mp h).sublist List.filter_sublist).imp_of_mem ?_
    intro row row' hrow hrow' hno
    have hsame := (List.mem_filter.mp hrow).2
    have hsame' := (List.mem_filter.mp hrow').2
    exact hno (Or.inr (coll.trans hsame (coll.symm hsame')))
  match hlist : Users.usersByEmail coll t userEmail with
  | [] | [_] => simp
  | row :: row' :: rest =>
      rw [hlist] at hrows
      exact absurd (List.rel_of_pairwise_cons hrows List.mem_cons_self) id

/-! ## The invariant -/

section Indexed

variable {C : Type}

/-- The keys that a session has added and not committed. -/
def pending (s : State C) (c : C) : List (Nat × String) :=
  (s.db.session c).writes.flatMap Write.keys

theorem keys_current (s : State C) (c : C) :
    (s.db.current apply c).map User.keys = s.db.committed.map User.keys ++ pending s c :=
  keys_foldl _ _

structure Indexed (coll : Collation) (s : State C) : Prop where
  distinct : Distinct coll (s.db.committed.map User.keys)
  current : ∀ c, Distinct coll ((s.db.current apply c).map User.keys)
  apart : ∀ c c', c ≠ c' → ∀ k ∈ pending s c, ∀ k' ∈ pending s c', ¬ Clash coll k k'
  below : ∀ c, ∀ k ∈ (s.db.current apply c).map User.keys, k.1 < s.nextUserId

variable {coll : Collation} {s s' : State C}

/-- Where no transaction is open only the table matters. -/
theorem indexed_of_idle (hidle : ∀ c, s.db.session c = .idle)
    (hdistinct : Distinct coll (s.db.committed.map User.keys))
    (hbelow : ∀ row ∈ s.db.committed, row.userId < s.nextUserId) : Indexed coll s where
  distinct := hdistinct
  current c := by
    rw [Db.current_of_idle (hidle c)]
    exact hdistinct
  apart c c' _ k hk := by
    rw [pending, hidle c] at hk
    cases hk
  below c k hk := by
    rw [Db.current_of_idle (hidle c)] at hk
    obtain ⟨row, hrow, rfl⟩ := List.mem_map.mp hk
    exact hbelow row hrow

/-- The invariant speaks of the committed keys and of the writes only. -/
theorem Indexed.congr (h : Indexed coll s)
    (hcommitted : s'.db.committed.map User.keys = s.db.committed.map User.keys)
    (hpending : ∀ c, pending s' c = pending s c) (hnext : s'.nextUserId = s.nextUserId) :
    Indexed coll s' := by
  have hcurrent : ∀ c, (s'.db.current apply c).map User.keys =
      (s.db.current apply c).map User.keys := by
    intro c
    rw [keys_current, keys_current, hcommitted, hpending]
  constructor
  · rw [hcommitted]
    exact h.distinct
  · intro c
    rw [hcurrent]
    exact h.current c
  · intro c c' hc
    rw [hpending, hpending]
    exact h.apart c c' hc
  · intro c
    rw [hcurrent, hnext]
    exact h.below c

variable [DecidableEq C] {c : C}

/-- The session of `c` is over, and its keys are gone. -/
theorem pending_rollback (s : State C) (c c' : C) :
    pending { s with db := s.db.rollback c } c' = if c' = c then [] else pending s c' := by
  by_cases hc : c' = c
  · subst hc
    simp [pending, Session.idle]
  · rw [if_neg hc]
    show ((s.db.rollback c).session c').writes.flatMap Write.keys = _
    rw [Db.session_rollback_ne hc]
    rfl

theorem pending_commit (s : State C) (c c' : C) :
    pending { s with db := s.db.commit apply c } c' = if c' = c then [] else pending s c' := by
  by_cases hc : c' = c
  · subst hc
    simp [pending, Session.idle]
  · rw [if_neg hc]
    show ((s.db.commit apply c).session c').writes.flatMap Write.keys = _
    rw [Db.session_commit_ne hc]
    rfl

theorem pending_write (s : State C) (c c' : C) (w : Write) (n : Nat) :
    pending ⟨s.db.write c w, n⟩ c' = if c' = c then pending s c ++ w.keys else pending s c' := by
  by_cases hc : c' = c
  · subst hc
    rw [if_pos rfl]
    show ((s.db.write c' w).session c').writes.flatMap Write.keys = _
    rw [Db.writes_write, List.flatMap_append, List.flatMap_singleton]
    rfl
  · rw [if_neg hc]
    show ((s.db.write c w).session c').writes.flatMap Write.keys = _
    rw [Db.session_write_ne hc]
    rfl

/-- A session that ends without a commit takes its keys with it. -/
theorem Indexed.rollback (h : Indexed coll s) :
    Indexed coll { s with db := s.db.rollback c } := by
  have hsub : ∀ c', ∀ k ∈ pending { s with db := s.db.rollback c } c', k ∈ pending s c' := by
    intro c' k hk
    rw [pending_rollback] at hk
    split at hk
    · cases hk
    · exact hk
  refine ⟨h.distinct, fun c' => ?_, fun c₁ c₂ hne k hk k' hk' => ?_, fun c' k hk => ?_⟩
  · rw [keys_current, pending_rollback]
    split
    · rw [List.append_nil]
      exact h.distinct
    · exact keys_current s c' ▸ h.current c'
  · exact h.apart c₁ c₂ hne k (hsub c₁ k hk) k' (hsub c₂ k' hk')
  · refine h.below c' k ?_
    rw [keys_current] at hk ⊢
    rcases List.mem_append.mp hk with hk | hk
    · exact List.mem_append_left _ hk
    · exact List.mem_append_right _ (hsub c' k hk)

/-- A commit makes the keys of a session those of the table. -/
theorem Indexed.commit (h : Indexed coll s) :
    Indexed coll { s with db := s.db.commit apply c } := by
  have hkeys : ∀ c', (({ s with db := s.db.commit apply c } : State C).db.current apply
      c').map User.keys = s.db.committed.map User.keys ++ pending s c ++
        if c' = c then [] else pending s c' := by
    intro c'
    rw [keys_current, pending_commit]
    show (s.db.current apply c).map User.keys ++ _ = _
    rw [keys_current]
  refine ⟨h.current c, fun c' => ?_, fun c₁ c₂ hne k hk k' hk' => ?_, fun c' k hk => ?_⟩
  · rw [hkeys]
    split
    · rw [List.append_nil, ← keys_current]
      exact h.current c
    next hc =>
      have hown := distinct_append.mp (keys_current s c ▸ h.current c)
      have hother := distinct_append.mp (keys_current s c' ▸ h.current c')
      refine distinct_append.mpr ⟨distinct_append.mpr hown, hother.2.1, fun k hk k' hk' => ?_⟩
      rcases List.mem_append.mp hk with hk | hk
      · exact hother.2.2 k hk k' hk'
      · exact h.apart c c' (Ne.symm hc) k hk k' hk'
  · rw [pending_commit] at hk hk'
    split at hk
    · cases hk
    · split at hk'
      · cases hk'
      · exact h.apart c₁ c₂ hne k hk k' hk'
  · rw [hkeys] at hk
    split at hk
    · rw [List.append_nil, ← keys_current] at hk
      exact h.below c k hk
    · rcases List.mem_append.mp hk with hk | hk
      · exact h.below c k (keys_current s c ▸ hk)
      · exact h.below c' k (keys_current s c' ▸ List.mem_append_right _ hk)

theorem keys_write (s : State C) (c c' : C) (w : Write) (n : Nat) :
    ((⟨s.db.write c w, n⟩ : State C).db.current apply c').map User.keys =
      (s.db.current apply c').map User.keys ++ if c' = c then w.keys else [] := by
  rw [keys_current, keys_current, pending_write]
  by_cases hc : c' = c
  · subst hc
    rw [if_pos rfl, if_pos rfl, ← List.append_assoc]
    rfl
  · rw [if_neg hc, if_neg hc, List.append_nil]
    rfl

omit [DecidableEq C] in
/-- A new id clashes with no other, so that only the email can. -/
theorem Indexed.clash_new (h : Indexed coll s) {row : User} (hid : row.userId = s.nextUserId)
    {c : C} {k : Nat × String} (hk : k ∈ (s.db.current apply c).map User.keys)
    (hclash : Clash coll row.keys k) : coll.same row.userEmail k.2 = true := by
  rcases hclash with heq | hsame
  · have hlt := h.below c k hk
    have hk : row.userId = k.1 := heq
    omega
  · exact hsame

omit [DecidableEq C] in
/-- Nobody has the email of a new row. -/
theorem Indexed.new_apart (h : Indexed coll s) {row : User} (hid : row.userId = s.nextUserId)
    (hnew : ¬ Registered coll (s.db.current apply c) row.userEmail) :
    ∀ k ∈ (s.db.current apply c).map User.keys, ¬ Clash coll row.keys k := by
  intro k hk hclash
  have hsame := h.clash_new hid hk hclash
  obtain ⟨row', hrow', rfl⟩ := List.mem_map.mp hk
  exact hnew ⟨row', hrow', coll.symm hsame⟩

omit [DecidableEq C] in
/-- Nobody else is about to have it. -/
theorem Indexed.free_apart (h : Indexed coll s) {row : User} (hid : row.userId = s.nextUserId)
    (hfree : s.db.Free (Write.Conflicts coll) c (.insert row)) {c' : C} (hc : c' ≠ c) :
    ∀ k ∈ pending s c', ¬ Clash coll row.keys k := by
  intro k hk hclash
  have hcurrent : k ∈ (s.db.current apply c').map User.keys := by
    rw [keys_current]
    exact List.mem_append_right _ hk
  have hsame := h.clash_new hid hcurrent hclash
  obtain ⟨w, hw, hkw⟩ := List.mem_flatMap.mp hk
  cases w with
  | insert row' =>
      obtain rfl := List.mem_singleton.mp hkw
      exact hfree c' hc _ hw hsame
  | update => cases hkw

/-- A new row has a new id, and an email that nobody has or is about to have. -/
theorem Indexed.insert (h : Indexed coll s) {row : User} (hid : row.userId = s.nextUserId)
    (hnew : ¬ Registered coll (s.db.current apply c) row.userEmail)
    (hfree : s.db.Free (Write.Conflicts coll) c (.insert row)) :
    Indexed coll ⟨s.db.write c (.insert row), s.nextUserId + 1⟩ := by
  refine ⟨h.distinct, fun c' => ?_, fun c₁ c₂ hne k hk k' hk' => ?_, fun c' k hk => ?_⟩
  · rw [keys_write]
    split
    next hc =>
      subst hc
      refine distinct_append.mpr ⟨h.current c', List.pairwise_singleton _ _, fun k hk k' hk' => ?_⟩
      rw [List.mem_singleton.mp hk']
      exact fun hno => h.new_apart hid hnew k hk hno.symm
    · rw [List.append_nil]
      exact h.current c'
  · rw [pending_write] at hk hk'
    split at hk
    next hc₁ =>
      subst hc₁
      rw [if_neg (Ne.symm hne)] at hk'
      rcases List.mem_append.mp hk with hk | hk
      · exact h.apart c₁ c₂ hne k hk k' hk'
      · rw [List.mem_singleton.mp hk]
        exact h.free_apart hid hfree (Ne.symm hne) k' hk'
    · split at hk'
      next hc₁ hc₂ =>
        subst hc₂
        rcases List.mem_append.mp hk' with hk' | hk'
        · exact h.apart c₁ c₂ hne k hk k' hk'
        · rw [List.mem_singleton.mp hk']
          exact fun hno => h.free_apart hid hfree hc₁ k hk hno.symm
      · exact h.apart c₁ c₂ hne k hk k' hk'
  · rw [keys_write] at hk
    rcases List.mem_append.mp hk with hk | hk
    · have hlt := h.below c' k hk
      show k.1 < s.nextUserId + 1
      omega
    · split at hk
      · rw [List.mem_singleton.mp hk]
        show row.userId < s.nextUserId + 1
        omega
      · cases hk

/-- Every step keeps the keys apart. -/
theorem Indexed.step (h : Indexed coll s) {op : Op} (heffect : Effect coll c s op s') :
    Indexed coll s' := by
  cases heffect with
  | nothing => exact h
  | read =>
      refine h.congr rfl (fun c' => ?_) rfl
      show ((s.db.read c).session c').writes.flatMap Write.keys = _
      rw [Db.writes_read]
      rfl
  | insert hnew hfree => exact h.insert rfl hnew hfree
  | update =>
      refine h.congr rfl (fun c' => ?_) rfl
      rw [pending_write]
      split
      next hc => rw [hc, Write.keys, List.append_nil]
      · rfl
  | commit => exact h.commit
  | rollback => exact h.rollback

/-- Throughout a run. -/
theorem Run.indexed {α : Type} {init cfg : Config C Op Reply AppError α (State C)}
    {tr : List (Label C Op Reply)} (h : Run (sem coll) anyStep init tr cfg)
    (h0 : Indexed coll init.state) : Indexed coll cfg.state := by
  refine h.inv (fun _ cfg => Indexed coll cfg.state) h0 ?_
  intro tr cfg l cfg' _ ih hl _
  cases hl with
  | env henv =>
      obtain rfl := henv
      exact ih
  | call _ hstep => exact ih.step (effect_of_step hstep)

end Indexed

end GreenCommunity.Users
