import GreenCommunity.Base.Logged
import GreenCommunity.Likes.Locks

/-!
# Toggles and readings

A toggle of a pair is a `SET` of its key.  What a sync writes and deletes rests on what its
`GET`s have found; a later toggle to another value overtakes the reading.  The pairs stay
where their toggles put them as long as no commit and no deletion rests on a reading that
was overtaken: that is what every step keeps here, and what it leaves of the readings of
others.
-/

namespace GreenCommunity.Likes

open GreenCommunity.Base
open GreenCommunity.Base.Prog

section Toggles

variable {C : Type}

/-- The state to which a step sets the pair: a `SET` of its key that went through. -/
def toggle (p u : Nat) : Label C Op Reply → Option Bool
  | .call _ ⟨.set key value, .ok _⟩ =>
      if key = likeKey p u then some (value == "1") else none
  | _ => none

/-- The state set by the last toggle of the pair. -/
def lastToggle (tr : List (Label C Op Reply)) (p u : Nat) : Option Bool :=
  tr.foldl (fun last l => (toggle p u l).or last) none

theorem lastToggle_snoc (tr : List (Label C Op Reply)) (l : Label C Op Reply)
    (p u : Nat) :
    lastToggle (tr ++ [l]) p u = (toggle p u l).or (lastToggle tr p u) := by
  simp [lastToggle]

/-- Every pair is in the state that its last toggle set, or in its first state. -/
def NothingLost (init : State C) (tr : List (Label C Op Reply)) (s : State C) : Prop :=
  ∀ p u, effective s p u = (lastToggle tr p u).getD (effective init p u)

end Toggles

/-! ## Readings -/

/-- What a caller has found under a pair's key: it has not looked, no toggle to another
value has come since, or one has. -/
inductive Reading where
  | unread
  | current (value : Option String)
  | overtaken
  deriving DecidableEq, Repr

/-- A `GET` of the key.  One that finds nothing does not undo what an earlier one found. -/
def Reading.found : Reading → Option String → Reading
  | _, some value => .current (some value)
  | .unread, none => .current none
  | reading, none => reading

def Reading.toggled : Reading → Bool → Reading
  | .current value, b => if value.map (· == "1") = some b then .current value else .overtaken
  | reading, _ => reading

theorem Reading.found_eq_some {r : Reading} {value : Option String} {v : String} :
    r.found value = .current (some v) ↔
      value = some v ∨ value = none ∧ r = .current (some v) := by
  cases value <;> cases r <;> simp [Reading.found]

theorem Reading.found_eq_none {r : Reading} {value : Option String}
    (h : r.found value = .current none) : value = none := by
  cases value <;> simp_all [Reading.found]

theorem Reading.toggled_eq_current {r : Reading} {b : Bool} {value : Option String} :
    r.toggled b = .current value ↔ r = .current value ∧ value.map (· == "1") = some b := by
  cases r with
  | unread | overtaken => simp [Reading.toggled]
  | current value' =>
      rw [Reading.toggled]
      split
      · rename_i hsame
        rw [Reading.current.injEq]
        exact ⟨fun h => ⟨h, h ▸ hsame⟩, And.left⟩
      · rename_i hne
        rw [Reading.current.injEq]
        exact ⟨nofun, fun h => absurd (h.1 ▸ h.2) hne⟩

section Readings

variable {C : Type} [DecidableEq C]

/-- The reply to a caller's `GET` of the pair's key. -/
def look (c : C) (p u : Nat) : Label C Op Reply → Option (Option String)
  | .call d ⟨.get key, .ok value⟩ => if d = c ∧ key = likeKey p u then some value else none
  | _ => none

def Reading.next (c : C) (p u : Nat) (reading : Reading) (l : Label C Op Reply) : Reading :=
  match look c p u l, toggle p u l with
  | some value, _ => reading.found value
  | none, some b => reading.toggled b
  | none, none => reading

/-- What a caller's reading of the pair has become. -/
def lastReading (c : C) (p u : Nat) (tr : List (Label C Op Reply)) : Reading :=
  tr.foldl (Reading.next c p u) .unread

/-- A step that does not come too late: a sync that looks at a key has the pair's committed
row before it, and neither commits a change nor deletes a key for which its reading was
overtaken. -/
structure Timely (req : C → Request) (tr : List (Label C Op Reply)) (s : State C) (c : C)
    (e : LikesEvent) : Prop where
  get : req c = .sync → ∀ p u v t, e = ⟨.get (likeKey p u), .ok (some v)⟩ →
    (s.db.session c).snapshot = some t → t.likesOf p u = s.db.committed.likesOf p u
  commit : e = ⟨.commit, .ok ()⟩ → ∀ w ∈ (s.db.session c).writes,
    lastReading c w.key.1 w.key.2 tr ≠ .overtaken
  del : ∀ keys, e = ⟨.del keys, .ok ()⟩ → ∀ p u, likeKey p u ∈ keys →
    (s.redis (likeKey p u)).isSome → lastReading c p u tr ≠ .overtaken

def InTime (req : C → Request) : Guard C Op Reply AppError Unit (State C) :=
  fun tr cfg l => ∀ c e, l = .call c e → Timely req tr cfg.state c e

variable {c d : C} {p u : Nat} {tr : List (Label C Op Reply)} {l : Label C Op Reply}

theorem lastReading_snoc : lastReading c p u (tr ++ [l]) =
    (lastReading c p u tr).next c p u l := by
  simp [lastReading]

/-- A step that neither looks at a pair nor toggles one. -/
def Silent (l : Label C Op Reply) : Prop :=
  ∀ p u, toggle p u l = none ∧ ∀ c, look c p u l = none

theorem Silent.lastReading (h : Silent l) :
    lastReading c p u (tr ++ [l]) = Likes.lastReading c p u tr := by
  rw [lastReading_snoc, Reading.next, (h p u).2 c, (h p u).1]

theorem lastReading_set {key value : String} :
    lastReading d p u (tr ++ [.call c ⟨.set key value, .ok ()⟩]) =
      if key = likeKey p u then (lastReading d p u tr).toggled (value == "1")
      else lastReading d p u tr := by
  rw [lastReading_snoc]
  by_cases hkey : key = likeKey p u <;> simp [Reading.next, look, toggle, hkey]

theorem lastReading_get {key : String} {value : Option String} :
    lastReading d p u (tr ++ [.call c ⟨.get key, .ok value⟩]) =
      if c = d ∧ key = likeKey p u then (lastReading d p u tr).found value
      else lastReading d p u tr := by
  rw [lastReading_snoc]
  by_cases hkey : c = d ∧ key = likeKey p u <;> simp [Reading.next, look, toggle, hkey]

/-- Where the pairs that a caller reads are not toggled, none of its readings is overtaken. -/
theorem not_overtaken (h : ∀ l ∈ tr, ∀ l' ∈ tr, look c p u l ≠ none → toggle p u l' = none) :
    lastReading c p u tr ≠ .overtaken := by
  by_cases hlooks : ∃ l ∈ tr, look c p u l ≠ none
  · obtain ⟨l, hl, hlook⟩ := hlooks
    have hquiet := fun l' hl' => h l hl l' hl' hlook
    clear h hl
    induction tr using List.reverseRecOn with
    | nil => nofun
    | append_singleton tr l' ih =>
        have hold := ih fun l'' hl'' => hquiet l'' (List.mem_append_left _ hl'')
        rw [lastReading_snoc, Reading.next, hquiet l' (by simp)]
        cases look c p u l' with
        | none => exact hold
        | some value =>
            cases value <;> cases hnow : lastReading c p u tr <;> simp_all [Reading.found]
  · have hunread : lastReading c p u tr = .unread := by
      clear h
      induction tr using List.reverseRecOn with
      | nil => rfl
      | append_singleton tr l' ih =>
          push Not at hlooks
          rw [lastReading_snoc, ih (by
            push Not
            exact fun l hl => hlooks l (List.mem_append_left _ hl)), Reading.next,
            hlooks l' (by simp)]
          cases toggle p u l' <;> rfl
    rw [hunread]
    nofun

end Readings

/-! ## What every step keeps -/

section Upheld

variable {C : Type} [DecidableEq C]

/-- A state and the trace that has led to it. -/
abbrev World (C : Type) := Logged (State C) (Label C Op Reply)

/-- Nothing is lost so far, and a reading that was not overtaken still says how its pair
stands. -/
structure Upheld (init : State C) (x : World C) : Prop where
  toggles : NothingLost init x.log x.state
  values : ∀ {key v}, x.state.redis key = some v → "post_like:".toList <+: key.toList →
    ∃ p u, key = likeKey p u ∧ (v = "0" ∨ v = "1")
  locked : Locked x.state
  found : ∀ {c p u v}, lastReading c p u x.log = .current (some v) →
    effective x.state p u = (v == "1")
  missed : ∀ {c p u}, lastReading c p u x.log = .current none →
    x.state.redis (likeKey p u) = none

variable {init s' : State C} {x x' x'' : World C} {c d : C} {l : Label C Op Reply}

theorem upheld_init {init : State C} (hs : Stored init)
    (hidle : ∀ c, init.db.session c = .idle) : Upheld init ⟨init, []⟩ where
  toggles _ _ := rfl
  values := hs.values
  locked := .init hs.keyed rfl hidle
  found := nofun
  missed := nofun

/-- A step that leaves every pair where it is. -/
theorem Upheld.silent (h : Upheld init x) (hl : Silent l)
    (heff : ∀ p u, effective s' p u = effective x.state p u)
    (hredis : ∀ {key v}, s'.redis key = some v → x.state.redis key = some v)
    (hlocked : Locked s') : Upheld init ⟨s', x.log ++ [l]⟩ where
  toggles p u := by
    rw [lastToggle_snoc, (hl p u).1, Option.none_or, ← h.toggles p u]
    exact heff p u
  values hv := h.values (hredis hv)
  locked := hlocked
  found hr := (heff _ _).trans (h.found (hl.lastReading ▸ hr))
  missed {c p u} hr := by
    rw [Option.eq_none_iff_forall_ne_some]
    intro v hv
    have hnone := h.missed (hl.lastReading ▸ hr)
    rw [hredis hv] at hnone
    cases hnone

theorem Upheld.get (h : Upheld init x) (key : String) :
    Upheld init ⟨x.state, x.log ++ [.call c ⟨.get key, .ok (x.state.redis key)⟩]⟩ where
  toggles p u := by
    rw [lastToggle_snoc]
    exact h.toggles p u
  values := h.values
  locked := h.locked
  found {d p u v} hr := by
    rw [lastReading_get] at hr
    split at hr
    · rename_i hkey
      rw [hkey.2, Reading.found_eq_some] at hr
      rcases hr with hv | ⟨_, hr⟩
      · exact effective_of_some hv
      · exact h.found hr
    · exact h.found hr
  missed {d p u} hr := by
    rw [lastReading_get] at hr
    split at hr
    · rename_i hkey
      rw [hkey.2] at hr
      exact Reading.found_eq_none hr
    · exact h.missed hr

/-- A toggle puts its pair where it says. -/
theorem Upheld.set (h : Upheld init x) {q w : Nat} {value : String}
    (hvalue : value = "0" ∨ value = "1") :
    Upheld init ⟨{ x.state with
      redis := Function.update x.state.redis (likeKey q w) (some value) },
      x.log ++ [.call c ⟨.set (likeKey q w) value, .ok ()⟩]⟩ := by
  have hother : ∀ {p u}, likeKey q w ≠ likeKey p u →
      Function.update x.state.redis (likeKey q w) (some value) (likeKey p u) =
        x.state.redis (likeKey p u) := fun hne => Function.update_of_ne (Ne.symm hne) ..
  have heff : ∀ p u, effective { x.state with
      redis := Function.update x.state.redis (likeKey q w) (some value) } p u =
        if likeKey q w = likeKey p u then value == "1" else effective x.state p u := by
    intro p u
    split
    · rename_i hkey
      simp [effective, hkey]
    · rename_i hne
      simp only [effective, hother hne]
  refine ⟨fun p u => ?_, fun {key v} hv hstem => ?_, h.locked.congr rfl rfl rfl,
    fun {d p u v} hr => ?_, fun {d p u} hr => ?_⟩
  · rw [lastToggle_snoc, toggle, heff]
    split
    · rfl
    · exact h.toggles p u
  · by_cases hkey : key = likeKey q w
    · subst hkey
      have hv : Function.update x.state.redis (likeKey q w) (some value) (likeKey q w) =
          some v := hv
      rw [Function.update_self] at hv
      cases hv
      exact ⟨q, w, rfl, hvalue⟩
    · have hv : Function.update x.state.redis (likeKey q w) (some value) key = some v := hv
      rw [Function.update_of_ne hkey] at hv
      exact h.values hv hstem
  · rw [lastReading_set] at hr
    rw [heff]
    split at hr
    · rename_i hkey
      rw [if_pos hkey]
      simpa using (Reading.toggled_eq_current.mp hr).2.symm
    · rename_i hne
      rw [if_neg hne]
      exact h.found hr
  · rw [lastReading_set] at hr
    split at hr
    · cases (Reading.toggled_eq_current.mp hr).2
    · rename_i hne
      exact (hother hne).trans (h.missed hr)

/-! ## What others leave of a session -/

/-- A session's readings still hold, or have been overtaken. -/
def Onward (d : C) (x x' : World C) : Prop :=
  ∀ p u, lastReading d p u x'.log = lastReading d p u x.log ∨
    (∃ value, lastReading d p u x.log = .current value) ∧
      lastReading d p u x'.log = .overtaken

/-- A reading that holds now has held before. -/
theorem Onward.current (h : Onward d x x') {p u : Nat} {value : Option String}
    (hr : lastReading d p u x'.log = .current value) :
    lastReading d p u x.log = .current value := by
  rcases h p u with hsame | ⟨_, hover⟩
  · exact hsame ▸ hr
  · rw [hover] at hr
    cases hr

theorem Onward.trans (h : Onward d x x') (h' : Onward d x' x'') : Onward d x x'' := by
  intro p u
  rcases h' p u with hsame' | ⟨⟨value, hold'⟩, hover⟩
  · rw [hsame']
    exact h p u
  · exact Or.inr ⟨⟨value, h.current hold'⟩, hover⟩

theorem onward_silent (hl : Silent l) : Onward d x ⟨s', x.log ++ [l]⟩ :=
  fun _ _ => Or.inl hl.lastReading

/-- Steps of others, as a session sees them: the rows that it has written stay, and those
whose reading still holds move to the state that was read, if they move at all. -/
structure Meanwhile (d : C) (x x' : World C) : Prop where
  session : x'.state.db.session d = x.state.db.session d
  onward : Onward d x x'
  rows : ∀ p u v, lastReading d p u x'.log = .current (some v) →
    x'.state.db.committed.likesOf p u = x.state.db.committed.likesOf p u ∨
      x'.state.db.committed.liked p u = (v == "1")
  locked : ∀ w ∈ (x.state.db.session d).writes, ∀ p u, w.key = (p, u) →
    x'.state.db.committed.likesOf p u = x.state.db.committed.likesOf p u

theorem Meanwhile.refl (x : World C) : Meanwhile d x x :=
  ⟨rfl, fun _ _ => Or.inl rfl, fun _ _ _ _ => Or.inl rfl, fun _ _ _ _ _ => rfl⟩

theorem Meanwhile.trans (h : Meanwhile d x x') (h' : Meanwhile d x' x'') :
    Meanwhile d x x'' where
  session := h'.session.trans h.session
  onward := h.onward.trans h'.onward
  rows p u v hr := by
    rcases h'.rows p u v hr with hrows | hliked
    · rcases h.rows p u v (h'.onward.current hr) with hrows' | hliked
      · exact Or.inl (hrows.trans hrows')
      · exact Or.inr ((liked_of_likesOf hrows).trans hliked)
    · exact Or.inr hliked
  locked w hw p u hkey :=
    (h'.locked w (h.session ▸ hw) p u hkey).trans (h.locked w hw p u hkey)

/-- What a session relies on. -/
def Relies (init : State C) (d : C) (x x' : World C) : Prop :=
  (Upheld init x → Upheld init x') ∧ Meanwhile d x x'

/-- What a step of `c` guarantees. -/
def Keeps (init : State C) (c : C) (x : World C) (_ : LikesEvent) (x' : World C) : Prop :=
  (Upheld init x → Upheld init x') ∧ ∀ d, d ≠ c → Meanwhile d x x'

/-- A silent step that leaves Redis and the committed rows as they are. -/
theorem meanwhile_silent (hl : Silent l)
    (hrows : s'.db.committed.postsLike = x.state.db.committed.postsLike)
    (hsession : s'.db.session d = x.state.db.session d) :
    Meanwhile d x ⟨s', x.log ++ [l]⟩ where
  session := hsession
  onward := onward_silent hl
  rows p u _ _ := Or.inl (likesOf_congr hrows p u)
  locked _ _ p u _ := likesOf_congr hrows p u

variable {scans : (String → Option String) → String → List String → Prop}

theorem silent_env : Silent (.env : Label C Op Reply) := fun _ _ => ⟨rfl, fun _ => rfl⟩

/-- Other requests change the posts only. -/
theorem Upheld.env (h : Upheld init x) (henv : (sem scans).traced.env x x') : Upheld init x' := by
  obtain ⟨s', log⟩ := x'
  obtain ⟨⟨posts, hs'⟩, hlog⟩ := henv
  dsimp only at hs' hlog
  subst hs' hlog
  exact h.silent silent_env (fun _ _ => rfl) id (h.locked.congr rfl rfl rfl)

theorem meanwhile_env (henv : (sem scans).traced.env x x') : Meanwhile d x x' := by
  obtain ⟨s', log⟩ := x'
  obtain ⟨⟨posts, hs'⟩, hlog⟩ := henv
  dsimp only at hs' hlog
  subst hs' hlog
  exact meanwhile_silent silent_env rfl rfl

theorem compatible_toggles : Compatible (sem scans).traced (Relies init) (Keeps init) where
  refl _ x := ⟨id, .refl x⟩
  trans _ _ _ _ h h' := ⟨h'.1 ∘ h.1, h.2.trans h'.2⟩
  others hne h := ⟨h.1, h.2 _ hne⟩
  env _ _ _ henv := ⟨fun hk => hk.env henv, meanwhile_env henv⟩

variable {e : LikesEvent}

theorem keeps_silent (hl : Silent (.call c e)) (hredis : s'.redis = x.state.redis)
    (hrows : s'.db.committed.postsLike = x.state.db.committed.postsLike)
    (hsession : ∀ d, d ≠ c → s'.db.session d = x.state.db.session d)
    (hlocked : Locked x.state → Locked s') :
    Keeps init c x e ⟨s', x.log ++ [.call c e]⟩ :=
  ⟨fun hk => hk.silent hl (effective_congr hredis hrows) (fun hv => hredis ▸ hv)
    (hlocked hk.locked), fun d hd => meanwhile_silent hl hrows (hsession d hd)⟩

theorem keeps_get (key : String) : Keeps init c x ⟨.get key, .ok (x.state.redis key)⟩
    ⟨x.state, x.log ++ [.call c ⟨.get key, .ok (x.state.redis key)⟩]⟩ := by
  refine ⟨fun hk => hk.get key, fun d hd => ⟨rfl, fun p u => Or.inl ?_,
    fun _ _ _ _ => Or.inl rfl, fun _ _ _ _ _ => rfl⟩⟩
  rw [lastReading_get, if_neg fun h => hd h.1.symm]

theorem keeps_set {p u : Nat} {value : String} (hvalue : value = "0" ∨ value = "1") :
    Keeps init c x ⟨.set (likeKey p u) value, .ok ()⟩ ⟨{ x.state with
      redis := Function.update x.state.redis (likeKey p u) (some value) },
      x.log ++ [.call c ⟨.set (likeKey p u) value, .ok ()⟩]⟩ := by
  refine ⟨fun hk => hk.set hvalue, fun d _ => ⟨rfl, fun q w => ?_,
    fun _ _ _ _ => Or.inl rfl, fun _ _ _ _ _ => rfl⟩⟩
  rw [lastReading_set]
  split
  · cases hold : lastReading d q w x.log with
    | unread | overtaken => exact Or.inl rfl
    | current value' =>
        rw [Reading.toggled]
        split
        · exact Or.inl rfl
        · exact Or.inr ⟨⟨value', rfl⟩, rfl⟩
  · exact Or.inl rfl

/-- A commit that moves rows only to where their pairs stand. -/
theorem keeps_commit (hk : Upheld init x)
    (hrows : ∀ p u, (∃ w ∈ (x.state.db.session c).writes, w.key = (p, u)) →
      (x.state.db.current Tables.apply c).liked p u = effective x.state p u) :
    Keeps init c x ⟨.commit, .ok ()⟩ ⟨{ x.state with db := x.state.db.commit Tables.apply c },
      x.log ++ [.call c ⟨.commit, .ok ()⟩]⟩ := by
  have hsilent : Silent (.call c ⟨.commit, .ok ()⟩ : Label C Op Reply) :=
    fun _ _ => ⟨rfl, fun _ => rfl⟩
  have hcases : ∀ p u,
      (x.state.db.current Tables.apply c).likesOf p u = x.state.db.committed.likesOf p u ∨
        (x.state.db.current Tables.apply c).liked p u = effective x.state p u := by
    intro p u
    by_cases hown : ∃ w ∈ (x.state.db.session c).writes, w.key = (p, u)
    · exact Or.inr (hrows p u hown)
    · exact Or.inl (hk.locked.current_eq fun w hw hkey => hown ⟨w, hw, hkey⟩)
  refine ⟨fun _ => hk.silent hsilent (fun p u => ?_) id hk.locked.commit, fun d hd =>
    ⟨Db.session_commit_ne hd, onward_silent hsilent, fun p u v hr => ?_,
      fun w hw p u hkey => ?_⟩⟩
  · cases hv : x.state.redis (likeKey p u) with
    | some v => simp [effective, hv]
    | none =>
        refine (effective_of_none
          (s := { x.state with db := x.state.db.commit Tables.apply c }) hv).trans ?_
        rcases hcases p u with hsame | hliked
        · exact (liked_of_likesOf hsame).trans (effective_of_none hv).symm
        · exact hliked
  · refine (hcases p u).imp_right fun hliked => hliked.trans ?_
    exact hk.found (hsilent.lastReading ▸ hr)
  · exact hk.locked.current_eq fun w' hw' hkey' =>
      hk.locked.apart hd w hw w' hw' (hkey.trans hkey'.symm)

/-- A deletion of keys that say what the committed rows say. -/
theorem keeps_del (hk : Upheld init x) {keys : List String}
    (hrows : ∀ p u, likeKey p u ∈ keys → (x.state.redis (likeKey p u)).isSome →
      x.state.db.committed.liked p u = effective x.state p u) :
    Keeps init c x ⟨.del keys, .ok ()⟩ ⟨{ x.state with
      redis := fun key => if key ∈ keys then none else x.state.redis key },
      x.log ++ [.call c ⟨.del keys, .ok ()⟩]⟩ := by
  have hsilent : Silent (.call c ⟨.del keys, .ok ()⟩ : Label C Op Reply) :=
    fun _ _ => ⟨rfl, fun _ => rfl⟩
  refine ⟨fun _ => hk.silent hsilent (fun p u => ?_) (fun {key v} hv => ?_)
    (hk.locked.congr rfl rfl rfl), fun d _ => meanwhile_silent hsilent rfl rfl⟩
  · by_cases hmem : likeKey p u ∈ keys
    · rw [effective_of_none (by simp [hmem])]
      cases hv : x.state.redis (likeKey p u) with
      | some v => exact hrows p u hmem (by simp [hv])
      | none => exact (effective_of_none hv).symm
    · simp [effective, hmem]
  · dsimp only at hv
    split at hv
    · cases hv
    · exact hv

end Upheld

end GreenCommunity.Likes
