import GreenCommunity.Users.Signup

/-!
# Deactivated accounts

A deactivation revokes no token.  The account is locked all the same, since every login,
refresh and authenticated call reads the row of the user: no operation sets the flag back,
the row keeps its id and its email, and a session that begins later has a snapshot in
which the user is not active.  So it does not matter which tokens there are, or which are
still being issued.
-/

namespace GreenCommunity.Users

open GreenCommunity.Base
open GreenCommunity.Base.Prog
open GreenCommunity.Infrastructure (Collation among_perform every_perform every_oneOrNone
  every_refreshed every_inSession oneOrNone)

/-! ## Calls -/

/-- The flag is not set back. -/
def Op.Quiet : Op → Prop
  | .update _ _ userIsActive => userIsActive ≠ some true
  | _ => True

/-- A request, or one of another module behind `get_current_user`, none of which sets the
flag of a user. -/
inductive Call (Tok : Type) where
  | request (req : Request Tok)
  | authenticated (credentials : Option Tok) (body : User → UsersM (Response Tok))
      (quiet : ∀ user, (body user).Every Op.Quiet)

section Calls

variable {Tok : Type} (d : Auth.Deps Tok)

def Call.program : Call Tok → UsersM (Response Tok)
  | .request req => serve d req
  | .authenticated credentials body _ =>
      Infrastructure.inSession (perform .rollback) (perform .close) (do
        let user ← getCurrentUser d credentials
        body user)

/-- The token names the user. -/
def Bears (token : Tok) (userId : Nat) : Prop :=
  ∃ claims, d.jwtDecode token = some claims ∧ claims.sub.toNat? = some userId

/-- A login, a refresh or an authenticated call for the user, whose email is that of the
row in the table. -/
def Call.For (coll : Collation) (t : List User) (userId : Nat) : Call Tok → Prop
  | .request (.login email _ _) =>
      ∃ row ∈ t, row.userId = userId ∧ coll.same row.userEmail email = true
  | .request (.refresh (some token)) | .request (.logoutAll (some token))
  | .request (.getMe (some token)) | .request (.updateMe (some token) _)
  | .request (.deactivateMe (some token)) | .authenticated (some token) _ _ =>
      Bears d token userId
  | _ => False

/-! ### What calls write -/

theorem every_lift {α : Type} (p : Auth.AuthM α) : (lift p).Every Op.Quiet := by
  induction p with
  | ret a => trivial
  | raise e => trivial
  | call op k ih =>
      cases op with
      | getById userId =>
          exact every_bind (every_bind (every_perform trivial) fun _ => every_oneOrNone)
            fun user => ih _
      | getByEmail userEmail =>
          exact every_bind (every_bind (every_perform trivial) fun _ => every_oneOrNone)
            fun user => ih _
      | _ => exact every_bind (every_perform trivial) fun r => ih r

theorem every_getById (userId : Nat) : (UserRepository.getById userId).Every Op.Quiet :=
  every_bind (every_perform trivial) fun _ => every_oneOrNone

theorem every_existsByEmail (userEmail : String) :
    (UserRepository.existsByEmail userEmail).Every Op.Quiet :=
  every_bind (every_perform trivial) fun _ => every_ret _

theorem every_getCurrentUser (credentials : Option Tok) :
    (getCurrentUser d credentials).Every Op.Quiet := by
  cases credentials with
  | none => trivial
  | some token =>
      refine every_bind (every_lift _) fun payload => every_bind (every_getById _) fun user => ?_
      cases user with
      | none => trivial
      | some user =>
          dsimp only
          split <;> trivial

theorem every_create (payload : UserCreate) : (UserService.create payload).Every Op.Quiet := by
  refine every_bind (every_existsByEmail _) fun found => ?_
  cases found with
  | true => trivial
  | false =>
      refine every_bind (every_perform trivial) fun hash => every_handle ?_ fun e => ?_
      · refine every_bind (every_bind (every_perform trivial) fun userId =>
          every_bind (every_perform trivial) fun _ => every_refreshed) fun user => ?_
        exact every_bind (every_perform trivial) fun _ => every_ret user
      · cases e with
        | integrityError =>
            refine every_bind (every_perform trivial) fun _ =>
              every_bind (every_existsByEmail _) fun found => ?_
            cases found <;> trivial
        | _ => trivial

/-- A flush that does not change the flag, or takes it. -/
theorem every_flush (user : User) (userNickname : Option String) {userIsActive : Bool}
    (h : userIsActive = user.userIsActive ∨ userIsActive = false) :
    (UserRepository.flush user userNickname userIsActive).Every Op.Quiet := by
  have hquiet : Infrastructure.changed user.userIsActive userIsActive ≠ some true := by
    rcases h with rfl | rfl
    · simp [Infrastructure.changed]
    · unfold Infrastructure.changed
      split <;> simp
  unfold UserRepository.flush
  dsimp only
  split
  · exact every_perform hquiet
  · trivial

theorem every_endpoint (req : Request Tok) : (endpoint d req).Every Op.Quiet := by
  cases req with
  | signup payload => exact every_bind (every_create payload) fun user => every_ret _
  | login email password clientIp => exact every_bind (every_lift _) fun issued => every_ret _
  | refresh refreshToken =>
      cases refreshToken with
      | none => trivial
      | some refreshToken => exact every_bind (every_lift _) fun issued => every_ret _
  | logout refreshToken => exact every_bind (every_lift _) fun _ => every_ret _
  | logoutAll credentials =>
      exact every_bind (every_getCurrentUser d credentials) fun user =>
        every_bind (every_lift _) fun sessions => every_ret _
  | getMe credentials =>
      exact every_bind (every_getCurrentUser d credentials) fun user => every_ret _
  | updateMe credentials payload =>
      refine every_bind (every_getCurrentUser d credentials) fun user => ?_
      refine every_bind (every_bind (every_flush user _ (Or.inl rfl)) fun _ => ?_) fun user' =>
        every_ret _
      exact every_bind (every_perform trivial) fun _ => every_ret _
  | deactivateMe credentials =>
      refine every_bind (every_getCurrentUser d credentials) fun user => ?_
      refine every_bind (every_bind (every_flush user _ (Or.inr rfl)) fun _ => ?_) fun _ =>
        every_ret _
      exact every_perform trivial

theorem every_program (call : Call Tok) : (call.program d).Every Op.Quiet := by
  cases call with
  | request req =>
      exact every_inSession (every_perform trivial) (every_perform trivial) (every_endpoint d req)
  | authenticated credentials body quiet =>
      exact every_inSession (every_perform trivial) (every_perform trivial)
        (every_bind (every_getCurrentUser d credentials) quiet)

end Calls

/-! ## The table -/

section Tables

variable {coll : Collation} {k : Nat × String} {t : List User} {userId : Nat}

/-- The flag is not set back. -/
def Write.Quiet : Write → Prop
  | .insert _ => True
  | .update _ _ userIsActive => userIsActive ≠ some true

/-- The user with these keys is there and not active. -/
structure Barred (coll : Collation) (k : Nat × String) (t : List User) : Prop where
  there : k ∈ t.map User.keys
  inactive : ∀ row ∈ t, Clash coll row.keys k → row.userIsActive = false

/-- The user with this id is there and not active. -/
structure Deactivated (userId : Nat) (t : List User) : Prop where
  there : ∃ row ∈ t, row.userId = userId
  inactive : ∀ row ∈ t, row.userId = userId → row.userIsActive = false

theorem Deactivated.barred (h : Deactivated userId t)
    (hdistinct : Distinct coll (t.map User.keys)) :
    ∃ userEmail, Barred coll (userId, userEmail) t := by
  obtain ⟨row, hrow, rfl⟩ := h.there
  refine ⟨row.userEmail, List.mem_map_of_mem hrow, fun row' hrow' hclash => ?_⟩
  obtain rfl := hdistinct.eq hrow' hrow hclash
  exact h.inactive row' hrow' rfl

theorem set_inactive {row : User} {userNickname : Option String} {userIsActive : Option Bool}
    (h : row.userIsActive = false) (hquiet : userIsActive ≠ some true) :
    (row.set userNickname userIsActive).userIsActive = false := by
  match userIsActive with
  | none => exact h
  | some false => rfl
  | some true => exact absurd rfl hquiet

/-- A write that is not about the user, or does not set the flag back. -/
theorem Barred.apply (h : Barred coll k t) {w : Write} (hquiet : w.Quiet)
    (hapart : ∀ k' ∈ w.keys, ¬ Clash coll k' k) : Barred coll k (apply t w) := by
  constructor
  · rw [keys_apply]
    exact List.mem_append_left _ h.there
  · intro row hrow hclash
    cases w with
    | insert row' =>
        rcases List.mem_append.mp hrow with hrow | hrow
        · exact h.inactive row hrow hclash
        · obtain rfl := List.mem_singleton.mp hrow
          exact absurd hclash (hapart _ (List.mem_singleton_self _))
    | update userId userNickname userIsActive =>
        rcases mem_updateAt.mp hrow with ⟨old, hold, _, rfl⟩ | ⟨hrow, _⟩
        · exact set_inactive (h.inactive old hold hclash) hquiet
        · exact h.inactive row hrow hclash

theorem Barred.foldl (h : Barred coll k t) {ws : List Write} (hquiet : ∀ w ∈ ws, w.Quiet)
    (hapart : ∀ k' ∈ ws.flatMap Write.keys, ¬ Clash coll k' k) :
    Barred coll k (ws.foldl Users.apply t) := by
  induction ws generalizing t with
  | nil => exact h
  | cons w ws ih =>
      refine ih (h.apply (hquiet w List.mem_cons_self) fun k' hk' => ?_) ?_ ?_
      · exact hapart k' (List.mem_append_left _ hk')
      · exact fun w' hw' => hquiet w' (List.mem_cons_of_mem _ hw')
      · exact fun k' hk' => hapart k' (List.mem_append_right _ hk')

/-- Taking the flag. -/
theorem deactivated_apply (hthere : userId ∈ (t.map User.keys).map Prod.fst) :
    Deactivated userId (apply t (.update userId none (some false))) := by
  obtain ⟨k, hk, rfl⟩ := List.mem_map.mp hthere
  obtain ⟨row, hrow, rfl⟩ := List.mem_map.mp hk
  constructor
  · exact ⟨row.set none (some false), mem_updateAt.mpr (Or.inl ⟨row, hrow, rfl, rfl⟩), rfl⟩
  · intro row' hrow' hid
    rcases mem_updateAt.mp hrow' with ⟨old, _, _, rfl⟩ | ⟨_, hne⟩
    · rfl
    · exact absurd hid hne

end Tables

/-! ## The locked account -/

section Locked

variable {C : Type} {coll : Collation} {k : Nat × String} {Late : C → Prop} {s s' : State C}

def QuietWrites (s : State C) : Prop := ∀ c, ∀ w ∈ (s.db.session c).writes, w.Quiet

/-- The user is not active, neither in the table nor for the late sessions, and what has
been written does not change that. -/
structure Locked (coll : Collation) (k : Nat × String) (Late : C → Prop) (s : State C) : Prop where
  indexed : Indexed coll s
  quiet : QuietWrites s
  committed : Barred coll k s.db.committed
  snapshot : ∀ c, Late c → ∀ t, (s.db.session c).snapshot = some t → Barred coll k t

/-- Nobody has inserted a row with such keys. -/
theorem Locked.apart (h : Locked coll k Late s) (c : C) :
    ∀ k' ∈ pending s c, ¬ Clash coll k' k := by
  intro k' hk' hclash
  have hcurrent := distinct_append.mp (keys_current s c ▸ h.indexed.current c)
  exact hcurrent.2.2 k h.committed.there k' hk' hclash.symm

theorem Locked.current (h : Locked coll k Late s) (c : C) :
    Barred coll k (s.db.current apply c) :=
  h.committed.foldl (h.quiet c) (h.apart c)

/-- What a late session reads from. -/
theorem Locked.source (h : Locked coll k Late s) {c : C} (hlate : Late c) :
    Barred coll k ((s.db.session c).snapshot.getD s.db.committed) := by
  cases hsnapshot : (s.db.session c).snapshot with
  | none => exact h.committed
  | some t => exact h.snapshot c hlate t hsnapshot

theorem Locked.view (h : Locked coll k Late s) {c : C} (hlate : Late c) :
    Barred coll k (s.db.view apply c) :=
  (h.source hlate).foldl (h.quiet c) (h.apart c)

variable [DecidableEq C] {c : C} {op : Op}

theorem QuietWrites.step (h : QuietWrites s) (hop : op.Quiet) (heffect : Effect coll c s op s') :
    QuietWrites s' := by
  intro c' w hw
  by_cases hc : c' = c
  · subst hc
    have hsnoc : ∀ w', w'.Quiet → w ∈ ((s.db.write c' w').session c').writes → w.Quiet := by
      intro w' hquiet hw
      rw [Db.writes_write] at hw
      rcases List.mem_append.mp hw with hw | hw
      · exact h c' w hw
      · exact List.mem_singleton.mp hw ▸ hquiet
    cases heffect with
    | nothing => exact h c' w hw
    | read => exact h c' w (Db.writes_read c' ▸ hw)
    | insert => exact hsnoc (.insert _) trivial hw
    | update => exact hsnoc (.update _ _ _) hop hw
    | commit =>
        rw [Db.session_commit] at hw
        cases hw
    | rollback =>
        rw [Db.session_rollback] at hw
        cases hw
  · exact h c' w (heffect.session_ne hc ▸ hw)

/-- A snapshot is what was read from already, or what was committed. -/
theorem Effect.snapshot (h : Effect coll c s op s') {c' : C} {t : List User}
    (ht : (s'.db.session c').snapshot = some t) :
    (s.db.session c').snapshot.getD s.db.committed = t := by
  by_cases hc : c' = c
  · subst hc
    cases h with
    | nothing => rw [ht, Option.getD_some]
    | read => simpa [Db.read] using ht
    | insert | update =>
        have hsame : (s.db.session c').snapshot = some t := by simpa [Db.write] using ht
        rw [hsame, Option.getD_some]
    | commit =>
        rw [Db.session_commit] at ht
        cases ht
    | rollback =>
        rw [Db.session_rollback] at ht
        cases ht
  · rw [h.session_ne hc] at ht
    rw [ht, Option.getD_some]

/-- The lock holds, whatever is done. -/
theorem Locked.step (h : Locked coll k Late s) (hop : op.Quiet)
    (heffect : Effect coll c s op s') : Locked coll k Late s' where
  indexed := h.indexed.step heffect
  quiet := h.quiet.step hop heffect
  committed := by
    rcases heffect.committed with hsame | ⟨_, hcurrent⟩
    · rw [hsame]
      exact h.committed
    · rw [hcurrent]
      exact h.current c
  snapshot c' hlate t ht := heffect.snapshot ht ▸ h.source hlate

end Locked

/-! ## Looking the user up -/

/-- A token is refused or decoded to the user that it names. -/
theorem decodeToken_cases {Tok : Type} {d : Auth.Deps Tok} {token : Tok} {userId : Nat}
    (h : Bears d token userId) (type : Auth.TokenType) :
    ∃ k, Auth.decodeToken d token type = .call .now k ∧ ∀ now,
      k now = .raise Auth.invalidToken ∨
        ∃ payload, k now = .ret payload ∧ payload.userId = userId := by
  obtain ⟨claims, hclaims, hsub⟩ := h
  refine ⟨_, rfl, fun now => ?_⟩
  dsimp only [Prog.bind]
  rw [hclaims]
  by_cases hiat : now < Redis.ticks claims.iat
  · exact Or.inl (by simp [hiat])
  by_cases hexp : Redis.ticks claims.exp ≤ now
  · exact Or.inl (by simp [hiat, hexp])
  by_cases htype : claims.type ≠ type.value
  · exact Or.inl (by simp [hiat, hexp, htype])
  · refine Or.inr ⟨⟨userId, type, claims.jti, Redis.ticks claims.exp⟩, ?_, rfl⟩
    simp only [hiat, hexp, htype, if_false, hsub]
    rfl

section Lookups

variable {Tok : Type} {d : Auth.Deps Tok} {C : Type} [DecidableEq C] {coll : Collation} {c : C}
  {R : State C → State C → Prop} {A : State C → Prop} {G : State C → UsersEvent → State C → Prop}
  {β : Type} {Q : Except AppError β → State C → Prop} {s : State C} {userId : Nat}

/-- The program among others, where only a commit has to be accounted for. -/
abbrev Looks (coll : Collation) (c : C) (R : State C → State C → Prop) (A : State C → Prop)
    (G : State C → UsersEvent → State C → Prop) (p : UsersM β)
    (Q : Except AppError β → State C → Prop) (s : State C) : Prop :=
  p.Among (sem coll) c R (fun s _ => A s) G Q s

theorem looks_oneOrNone {rows : List User} {f : Option User → UsersM β}
    (herr : ∀ e s', Q (.error e) s')
    (hf : ∀ user, (∀ row, user = some row → row ∈ rows) → Looks coll c R A G (f user) Q s) :
    Looks coll c R A G (oneOrNone rows >>= f) Q s := by
  rcases rows with _ | ⟨row, _ | ⟨row', rows⟩⟩
  · exact hf none (by simp)
  · exact hf (some row) (by simp)
  · exact herr _ s

section

variable (hG : ∀ s₀ op r s', op ≠ .commit → step coll c s₀ op r s' → G s₀ ⟨op, r⟩ s')

include hG

theorem looks_getById {f : Option User → UsersM β} (herr : ∀ e s', Q (.error e) s')
    (hfound : ∀ s₀ user, R s s₀ → A s₀ →
      (∀ row, user = some row → row ∈ s₀.db.view apply c ∧ row.userId = userId) →
        Looks coll c R A G (f user) Q { s₀ with db := s₀.db.read c }) :
    Looks coll c R A G (UserRepository.getById userId >>= f) Q s := by
  unfold UserRepository.getById
  rw [Prog.bind_assoc]
  refine among_bind.mpr (among_perform (fun s₀ rows s' hs₀ hstep hA => ?_)
    fun s₀ e s' _ hstep _ => ⟨hG _ _ _ _ (by simp) hstep, herr e s'⟩)
  refine ⟨hG _ _ _ _ (by simp) hstep, ?_⟩
  obtain ⟨rfl, rfl⟩ := hstep
  refine looks_oneOrNone herr fun user huser => hfound s₀ user hs₀ hA fun row hrow => ?_
  obtain ⟨hview, hid⟩ := List.mem_filter.mp (huser row hrow)
  exact ⟨hview, beq_iff_eq.mp hid⟩

theorem looks_getByEmail {userEmail : String} {f : Option User → UsersM β}
    (herr : ∀ e s', Q (.error e) s')
    (hfound : ∀ s₀ user, R s s₀ → A s₀ →
      (∀ row, user = some row →
        row ∈ s₀.db.view apply c ∧ coll.same row.userEmail userEmail = true) →
        Looks coll c R A G (f user) Q { s₀ with db := s₀.db.read c }) :
    Looks coll c R A G (UserRepository.getByEmail userEmail >>= f) Q s := by
  unfold UserRepository.getByEmail
  rw [Prog.bind_assoc]
  refine among_bind.mpr (among_perform (fun s₀ rows s' hs₀ hstep hA => ?_)
    fun s₀ e s' _ hstep _ => ⟨hG _ _ _ _ (by simp) hstep, herr e s'⟩)
  refine ⟨hG _ _ _ _ (by simp) hstep, ?_⟩
  obtain ⟨hperm, rfl⟩ := hstep
  refine looks_oneOrNone herr fun user huser => hfound s₀ user hs₀ hA fun row hrow => ?_
  exact List.mem_filter.mp (hperm.mem_iff.mp (huser row hrow))

theorem looks_decodeToken {token : Tok} {type : Auth.TokenType} {f : Auth.TokenPayload → UsersM β}
    (hbears : Bears d token userId) (herr : ∀ e s', Q (.error e) s')
    (hok : ∀ payload s', payload.userId = userId → R s s' → Looks coll c R A G (f payload) Q s') :
    Looks coll c R A G (lift (Auth.decodeToken d token type) >>= f) Q s := by
  obtain ⟨k, hdecode, hk⟩ := decodeToken_cases hbears type
  rw [hdecode]
  refine among_bind.mpr (among_bind.mpr (among_perform (fun s₀ now s' hs₀ hstep _ => ?_)
    fun s₀ e s' _ hstep _ => ⟨hG _ _ _ _ (by simp) hstep, herr e s'⟩))
  refine ⟨hG _ _ _ _ (by simp) hstep, ?_⟩
  obtain rfl : s' = s₀ := hstep
  dsimp only
  rcases hk now with hraise | ⟨payload, hret, hpayload⟩
  · rw [hraise]
    exact herr _ s'
  · rw [hret]
    exact hok payload s' hpayload hs₀

theorem looks_getCurrentUser {token : Tok} {f : User → UsersM β} (hbears : Bears d token userId)
    (hR : ∀ {s s' s'' : State C}, R s s' → R s' s'' → R s s'') (herr : ∀ e s', Q (.error e) s')
    (hfound : ∀ s₀ row, R s s₀ → A s₀ → row ∈ s₀.db.view apply c → row.userId = userId →
      row.userIsActive = true → Looks coll c R A G (f row) Q { s₀ with db := s₀.db.read c }) :
    Looks coll c R A G (getCurrentUser d (some token) >>= f) Q s := by
  unfold getCurrentUser
  dsimp only
  rw [Prog.bind_assoc]
  refine looks_decodeToken hG hbears herr fun payload s₀ hpayload hs₀ => ?_
  rw [Prog.bind_assoc]
  refine looks_getById hG herr fun s₁ user hs₁ hA huser => ?_
  cases user with
  | none => exact herr _ _
  | some row =>
      obtain ⟨hrow, hid⟩ := huser row rfl
      cases hactive : row.userIsActive with
      | false =>
          simp only [hactive]
          exact herr _ _
      | true =>
          simp only [hactive]
          exact hfound s₁ row (hR hs₀ hs₁) hA hrow (hid.trans hpayload) hactive

end

end Lookups

/-! ## The deactivation -/

section Deactivation

variable {Tok : Type} {d : Auth.Deps Tok} {C : Type} [DecidableEq C] {coll : Collation}
  {a c : C} {s s' : State C} {userId : Nat} {op : Op} {r : Reply op}

/-- What the others may do between two operations of `c`. -/
def Beside (c : C) (s s' : State C) : Prop :=
  s'.db.session c = s.db.session c ∧
    s.db.committed.map User.keys ⊆ s'.db.committed.map User.keys

/-- What `c` does: a commit of `a` takes the flag of the user. -/
def Deactivates (userId : Nat) (a c : C) (s : State C) (e : UsersEvent) (s' : State C) : Prop :=
  (∀ c', c' ≠ c → Beside c' s s') ∧
    (c = a → e = ⟨.commit, .ok ()⟩ → Deactivated userId s'.db.committed)

theorem compatible_deactivates :
    Compatible (sem (C := C) coll) Beside (Deactivates userId a) where
  refl _ _ := ⟨rfl, List.Subset.refl _⟩
  trans _ _ _ _ h h' := ⟨h'.1.trans h.1, List.Subset.trans h.2 h'.2⟩
  others hd h := h.1 _ hd
  env _ _ _ h := h ▸ ⟨rfl, List.Subset.refl _⟩

/-- Keys are there for good. -/
theorem Effect.beside (h : Effect coll c s op s') {c' : C} (hc : c' ≠ c) : Beside c' s s' := by
  refine ⟨h.session_ne hc, ?_⟩
  rcases h.committed with hsame | ⟨_, hcurrent⟩
  · rw [hsame]
    exact List.Subset.refl _
  · rw [hcurrent, keys_current]
    exact List.subset_append_left _ _

theorem deactivates_of_step (hop : op ≠ .commit) (hstep : step coll c s op r s') :
    Deactivates userId a c s ⟨op, r⟩ s' :=
  ⟨fun _ hc => (effect_of_step hstep).beside hc, fun _ he => absurd (congrArg Event.op he) hop⟩

theorem uncommitted_among {β : Type} {p : UsersM β} (h : p.Every fun op => op ≠ .commit)
    {Q : Except AppError β → State C → Prop} (hQ : ∀ o s', Q o s') :
    p.Among (sem coll) c (Beside c) (fun _ _ => True) (Deactivates userId a c) Q s :=
  h.among (fun _ _ _ _ hop hstep _ => deactivates_of_step hop hstep) hQ

theorem flush_active {row : User} (hactive : row.userIsActive = true) :
    UserRepository.flush row (some row.userNickname) false =
      perform (.update row.userId none (some false)) := by
  have hnickname :
      Infrastructure.changed (some row.userNickname) (some row.userNickname) = none :=
    if_pos rfl
  have hflag : Infrastructure.changed row.userIsActive false = some false := by
    rw [hactive]
    rfl
  rw [UserRepository.flush, hnickname, hflag]
  rfl

/-- The flag is taken in the table as it is at the commit. -/
theorem deactivate_among {row : User} (hactive : row.userIsActive = true)
    (hthere : row.userId ∈ (s.db.committed.map User.keys).map Prod.fst)
    (hwrites : (s.db.session a).writes = []) :
    (UserService.deactivate row).Among (sem coll) a (Beside a) (fun _ _ => True)
      (Deactivates row.userId a a) (fun _ _ => True) s := by
  rw [UserService.deactivate, flush_active hactive]
  refine among_bind.mpr (among_perform (fun s₁ _ s₂ hs₁ hstep _ => ?_)
    fun s₁ e s₂ _ hstep _ => ⟨deactivates_of_step (by simp) hstep, trivial⟩)
  refine ⟨deactivates_of_step (by simp) hstep, ?_⟩
  obtain ⟨_, _, rfl⟩ := hstep
  refine among_perform (fun s₃ _ s₄ hs₃ hstep' _ => ?_) fun s₃ e s₄ _ hstep' _ => ?_
  · have hbeside : ∀ c', c' ≠ a → Beside c' s₃ s₄ := fun _ =>
      (effect_of_step (show step coll a s₃ .commit (.ok ()) s₄ from hstep')).beside
    refine ⟨⟨hbeside, fun _ _ => ?_⟩, trivial⟩
    obtain rfl : s₄ = _ := hstep'
    have hcurrent : s₃.db.current apply a =
        apply s₃.db.committed (.update row.userId none (some false)) := by
      rw [Db.current, hs₃.1]
      show ((s₁.db.write a _).session a).writes.foldl _ _ = _
      rw [Db.writes_write, hs₁.1, hwrites]
      rfl
    show Deactivated row.userId (s₃.db.current apply a)
    rw [hcurrent]
    refine deactivated_apply ?_
    exact List.map_subset Prod.fst (List.Subset.trans hs₁.2 hs₃.2) hthere
  · have hbeside : ∀ c', c' ≠ a → Beside c' s₃ s₄ := fun _ =>
      (effect_of_step (show step coll a s₃ .commit (.error e) s₄ from hstep')).beside
    exact ⟨⟨hbeside, fun _ he => by cases he⟩, trivial⟩

/-- The row is found active, in the table as it is then. -/
theorem deactivateMe_among {token : Tok} (hbears : Bears d token userId)
    (hidle : s.db.session a = .idle) :
    (serve d (.deactivateMe (some token))).Among (sem coll) a (Beside a) (fun _ _ => True)
      (Deactivates userId a a) (fun _ _ => True) s := by
  refine Infrastructure.among_inSession
    (fun o s' _ => uncommitted_among (every_perform (by simp)) fun _ _ => trivial)
    (fun e s' _ => uncommitted_among (every_perform (by simp)) fun _ _ => trivial) ?_
  refine looks_getCurrentUser (A := fun _ => True)
    (fun _ _ _ _ hop hstep => deactivates_of_step hop hstep) hbears
    (fun h h' => ⟨h'.1.trans h.1, List.Subset.trans h.2 h'.2⟩) (fun _ _ => trivial) ?_
  intro s₁ row hs₁ _ hrow hid hactive
  subst hid
  have hview : s₁.db.view apply a = s₁.db.committed := by
    rw [Db.view, hs₁.1, hidle]
    rfl
  have hthere : row.userId ∈ (s₁.db.committed.map User.keys).map Prod.fst :=
    List.mem_map_of_mem (f := Prod.fst) (List.mem_map_of_mem (f := User.keys) (hview ▸ hrow))
  have hwrites : ((s₁.db.read a).session a).writes = [] := by
    rw [Db.writes_read, hs₁.1, hidle]
    rfl
  refine among_bind.mpr (Among.imp ?_ (deactivate_among hactive hthere hwrites))
  rintro (e | _) s' _ <;> trivial

variable {call : C → Call Tok} {tr : List (Label C Op Reply)}
  {cfg : Config C Op Reply AppError (Response Tok) (State C)}

/-- Every call of the pool, where `a` deactivates the user. -/
theorem program_among {token : Tok} (hidle : ∀ c, s.db.session c = .idle)
    (ha : call a = .request (.deactivateMe (some token))) (hbears : Bears d token userId) (c : C) :
    ((call c).program d).Among (sem coll) c (Beside c) (fun _ _ => True)
      (Deactivates userId a c) (fun _ _ => True) s := by
  by_cases hc : c = a
  · subst hc
    rw [ha]
    exact deactivateMe_among hbears (hidle c)
  · refine (every_true _).among (fun s₀ op r s' _ hstep _ => ?_) fun _ _ => trivial
    exact ⟨fun _ hne => (effect_of_step hstep).beside hne, fun hca => absurd hca hc⟩

/-- Once the deactivation has committed, the account is locked. -/
theorem deactivated_run {token : Tok} (hs : Indexed coll s) (hidle : ∀ c, s.db.session c = .idle)
    (ha : call a = .request (.deactivateMe (some token))) (hbears : Bears d token userId)
    (h : Run (sem coll) anyStep ⟨s, fun c => (call c).program d⟩ tr cfg) :
    QuietWrites cfg.state ∧ (⟨.commit, .ok ()⟩ ∈ own a tr →
      ∃ userEmail, Locked coll (userId, userEmail) (fun _ => False) cfg.state) := by
  refine Run.inv (fun tr cfg => QuietWrites cfg.state ∧ (⟨.commit, .ok ()⟩ ∈ own a tr →
    ∃ userEmail, Locked coll (userId, userEmail) (fun _ => False) cfg.state)) ?_ ?_ h
  · have hnone : QuietWrites s := by
      intro c w hw
      rw [hidle c] at hw
      cases hw
    exact ⟨hnone, fun hmem => by cases hmem⟩
  · intro tr cfg l cfg' hrun ih hl _
    have hlabel := hl
    cases hl with
    | env henv =>
        obtain rfl := henv
        rw [own_append, own_env, List.append_nil]
        exact ih
    | @call c op k r s' _ hstep =>
        have hop : op.Quiet :=
          hlabel.every (hrun.every (P := fun _ => Op.Quiet) (fun c => every_program d (call c)) c)
        have heffect := effect_of_step hstep
        have hquiet := ih.1.step hop heffect
        refine ⟨hquiet, fun hmem => ?_⟩
        rcases mem_own_snoc.mp hmem with hmem | ⟨rfl, he⟩
        · obtain ⟨userEmail, hlocked⟩ := ih.2 hmem
          exact ⟨userEmail, hlocked.step hop heffect⟩
        · have hdeactivates := hrun.among_step compatible_deactivates (fun _ _ _ _ _ => trivial)
            (program_among hidle ha hbears) hlabel trivial
          have hindexed := (Run.indexed hrun hs).step heffect
          obtain ⟨userEmail, hbarred⟩ :=
            (hdeactivates.2 rfl he.symm).barred hindexed.distinct
          exact ⟨userEmail, hindexed, hquiet, hbarred, fun _ hno => hno.elim⟩

/-- The session of a caller without events is as it was. -/
theorem session_unbegun {init : Config C Op Reply AppError (Response Tok) (State C)} {c : C}
    (h : Run (sem coll) anyStep init tr cfg) (hown : own c tr = []) :
    cfg.state.db.session c = init.state.db.session c := by
  refine h.unchanged (f := fun cfg => cfg.state.db.session c) (fun cfg l cfg' hl hnone => ?_) hown
  cases hl with
  | env henv =>
      obtain rfl := henv
      rfl
  | call _ hstep => exact (effect_of_step hstep).session_ne (ne_of_own_nil hnone)

end Deactivation

/-! ## Calls that begin later -/

section Late

variable {Tok : Type} {d : Auth.Deps Tok} {C : Type} [DecidableEq C] {coll : Collation}
  {k : Nat × String} {Late : C → Prop} {c : C} {α β : Type} {s : State C}

/-- In a run where the account is locked, the program ends in an exception if it ends. -/
abbrev Refused (coll : Collation) (k : Nat × String) (Late : C → Prop) (c : C) (p : UsersM α)
    (s : State C) : Prop :=
  Looks coll c (fun _ _ => True) (Locked coll k Late) (fun _ _ _ => True) p
    (fun o _ => ∃ e, o = .error e) s

theorem refused_bind {p : UsersM α} {f : α → UsersM β} (h : Refused coll k Late c p s) :
    Refused coll k Late c (p >>= f) s := by
  refine among_bind.mpr (Among.imp ?_ h)
  rintro _ s' ⟨e, rfl⟩
  exact ⟨e, rfl⟩

/-- Whatever comes first. -/
theorem refused_then {p : UsersM α} {f : α → UsersM β}
    (h : ∀ a s', Refused coll k Late c (f a) s') : Refused coll k Late c (p >>= f) s := by
  refine among_bind.mpr ((every_true p).among (fun _ _ _ _ _ _ _ => trivial) ?_)
  rintro (e | a) s'
  · exact ⟨e, rfl⟩
  · exact h a s'

theorem refused_lift {p : Auth.AuthM α} {f : α → Auth.AuthM β}
    (h : ∀ a s', Refused coll k Late c (lift (f a)) s') :
    Refused coll k Late c (lift (p >>= f)) s := by
  rw [lift_bind]
  exact refused_then h

theorem refused_throw {e : AppError} :
    Refused coll k Late c (lift (throw e : Auth.AuthM α)) s := ⟨e, rfl⟩

theorem refused_throw_bind {e : AppError} {f : α → Auth.AuthM β} :
    Refused coll k Late c (lift (throw e >>= f)) s := ⟨e, rfl⟩

theorem getCurrentUser_refused {token : Tok} {f : User → UsersM β} (hlate : Late c)
    (hbears : Bears d token k.1) :
    Refused coll k Late c (getCurrentUser d (some token) >>= f) s := by
  refine looks_getCurrentUser (fun _ _ _ _ _ _ => trivial) hbears (fun _ _ => trivial)
    (fun e _ => ⟨e, rfl⟩) fun s₀ row _ hlocked hrow hid hactive => ?_
  have hinactive := (hlocked.view hlate).inactive row hrow (Or.inl hid)
  rw [hactive] at hinactive
  cases hinactive

theorem login_refused {email password clientIp : String} (hlate : Late c)
    (hemail : coll.same k.2 email = true) :
    Refused coll k Late c (lift (Auth.login d email password clientIp)) s := by
  unfold Auth.login
  refine refused_lift fun _ s₁ => ?_
  rw [lift_getByEmail]
  refine looks_getByEmail (fun _ _ _ _ _ _ => trivial) (fun e _ => ⟨e, rfl⟩)
    fun s₂ user _ hlocked huser => ?_
  cases user with
  | none => exact refused_lift fun _ _ => refused_throw
  | some row =>
      obtain ⟨hrow, hsame⟩ := huser row rfl
      have hinactive : row.toUser.userIsActive = false :=
        (hlocked.view hlate).inactive row hrow (Or.inr (coll.trans hsame (coll.symm hemail)))
      simp only [Option.map_some, hinactive, Bool.not_false, if_true]
      split
      · exact refused_lift fun _ _ => refused_throw_bind
      · exact refused_lift fun _ _ => refused_throw_bind

theorem refresh_refused {token : Tok} (hlate : Late c) (hbears : Bears d token k.1) :
    Refused coll k Late c (lift (Auth.refresh d token)) s := by
  unfold Auth.refresh
  rw [lift_bind]
  refine looks_decodeToken (fun _ _ _ _ _ _ => trivial) hbears (fun e _ => ⟨e, rfl⟩)
    fun payload s₁ hpayload _ => ?_
  refine refused_lift fun state s₂ => ?_
  dsimp only
  split
  · exact refused_lift fun _ _ => refused_lift fun _ _ => refused_throw_bind
  split
  · exact refused_lift fun _ _ => refused_throw_bind
  rw [lift_getById]
  refine looks_getById (fun _ _ _ _ _ _ => trivial) (fun e _ => ⟨e, rfl⟩)
    fun s₃ user _ hlocked huser => ?_
  cases user with
  | none => exact refused_lift fun _ _ => refused_throw
  | some row =>
      obtain ⟨hrow, hid⟩ := huser row rfl
      have hinactive : row.toUser.userIsActive = false :=
        (hlocked.view hlate).inactive row hrow (Or.inl (hid.trans hpayload))
      simp only [Option.map_some, hinactive, Bool.not_false, if_true]
      exact refused_lift fun _ _ => refused_throw_bind

/-- The end of the session is in vain. -/
theorem inSession_refused {body : UsersM α} (h : Refused coll k Late c body s) :
    Refused coll k Late c
      (Infrastructure.inSession (perform .rollback) (perform .close) body) s := by
  have hend : ∀ (op : Op) (e : AppError) (s' : State C),
      (perform op).Among (sem coll) c (fun _ _ => True) (fun s _ => Locked coll k Late s)
        (fun _ _ _ => True)
        (fun o _ => ∃ e', (o.bind fun _ => .error e : Except AppError α) = .error e') s' := by
    intro op e s'
    refine (every_true _).among (fun _ _ _ _ _ _ _ => trivial) ?_
    rintro (e' | _) s''
    · exact ⟨e', rfl⟩
    · exact ⟨e, rfl⟩
  refine Infrastructure.among_inSession ?_ (fun e s' _ => hend .rollback e s') h
  rintro _ s' ⟨e, rfl⟩
  exact hend .close e s'

/-- A call for the user, in a session that begins late. -/
theorem call_refused {t : List User} {call : Call Tok} (hlate : Late c)
    (hkeys : ∀ row ∈ t, row.userId = k.1 → row.keys = k) (hfor : call.For d coll t k.1) :
    Refused coll k Late c (call.program d) s := by
  have hguarded : ∀ {credentials : Option Tok} {f : User → UsersM (Response Tok)},
      (∃ token, credentials = some token ∧ Bears d token k.1) →
        Refused coll k Late c (getCurrentUser d credentials >>= f) s := by
    rintro _ f ⟨token, rfl, hbears⟩
    exact getCurrentUser_refused hlate hbears
  cases call with
  | authenticated credentials body quiet =>
      refine inSession_refused (hguarded ?_)
      cases credentials with
      | none => exact hfor.elim
      | some token => exact ⟨token, rfl, hfor⟩
  | request req =>
      refine inSession_refused ?_
      cases req with
      | signup payload | logout refreshToken => exact hfor.elim
      | login email password clientIp =>
          obtain ⟨row, hrow, hid, hsame⟩ := hfor
          refine refused_bind (login_refused hlate ?_)
          rw [← hkeys row hrow hid]
          exact hsame
      | refresh refreshToken =>
          cases refreshToken with
          | none => exact hfor.elim
          | some token => exact refused_bind (refresh_refused hlate hfor)
      | logoutAll credentials | getMe credentials | updateMe credentials payload
      | deactivateMe credentials =>
          refine hguarded ?_
          cases credentials with
          | none => exact hfor.elim
          | some token => exact ⟨token, rfl, hfor⟩

/-- The lock holds to the end of a run. -/
theorem locked_run {init cfg : Config C Op Reply AppError (Response Tok) (State C)}
    {tr : List (Label C Op Reply)} (h : Run (sem coll) anyStep init tr cfg)
    (hquiet : ∀ c, (init.pool c).Every Op.Quiet) (hlocked : Locked coll k Late init.state) :
    Locked coll k Late cfg.state := by
  refine Run.inv (fun _ cfg => Locked coll k Late cfg.state) hlocked ?_ h
  intro tr cfg l cfg' hrun ih hl _
  have hlabel := hl
  cases hl with
  | env henv =>
      obtain rfl := henv
      exact ih
  | @call c op k r s' _ hstep =>
      exact ih.step (hlabel.every (hrun.every (P := fun _ => Op.Quiet) hquiet c))
        (effect_of_step hstep)

theorem compatible_any :
    Compatible (sem (C := C) coll) (fun _ _ _ => True) (fun _ _ _ _ => True) where
  refl _ _ := trivial
  trans _ _ _ _ _ _ := trivial
  others _ _ := trivial
  env _ _ _ _ := trivial

/-- Calls in any order.  Once a deactivation of the user has committed, a login, a refresh or
an authenticated call for the user that has not begun by then can only end in an
exception. -/
theorem deactivation_locks_out {call : C → Call Tok} {a : C} {token : Tok} {userId : Nat}
    {tr₁ tr₂ : List (Label C Op Reply)}
    {cfg₁ cfg : Config C Op Reply AppError (Response Tok) (State C)}
    (hs : Indexed coll s) (hidle : ∀ c, s.db.session c = .idle)
    (ha : call a = .request (.deactivateMe (some token))) (hbears : Bears d token userId)
    (h₁ : Run (sem coll) anyStep ⟨s, fun c => (call c).program d⟩ tr₁ cfg₁)
    (hcommit : ⟨.commit, .ok ()⟩ ∈ own a tr₁) (h₂ : Run (sem coll) anyStep cfg₁ tr₂ cfg)
    (hbegin : own c tr₁ = []) (hfor : (call c).For d coll cfg₁.state.db.committed userId)
    {o : Except AppError (Response Tok)} (ho : (cfg.pool c).outcome = some o) :
    ∃ e, o = .error e := by
  obtain ⟨userEmail, hlocked⟩ := (deactivated_run hs hidle ha hbears h₁).2 hcommit
  have hsession : cfg₁.state.db.session c = .idle :=
    (session_unbegun h₁ hbegin).trans (hidle c)
  -- the session of the caller has no snapshot from before
  have hlate : Locked coll (userId, userEmail) (· = c) cfg₁.state := by
    refine ⟨hlocked.indexed, hlocked.quiet, hlocked.committed, ?_⟩
    rintro _ rfl t ht
    rw [hsession] at ht
    cases ht
  have hquiet : ∀ c, (cfg₁.pool c).Every Op.Quiet :=
    h₁.every (P := fun _ => Op.Quiet) fun c => every_program d (call c)
  have hguarded : Run (sem coll) (fun _ cfg _ => Locked coll (userId, userEmail) (· = c) cfg.state)
      cfg₁ tr₂ cfg :=
    h₂.guarded fun _ _ _ _ _ hrun => locked_run hrun hquiet hlate
  have hkeys : ∀ row ∈ cfg₁.state.db.committed, row.userId = userId →
      row.keys = (userId, userEmail) := by
    intro row hrow hid
    obtain ⟨row', hrow', hkeys'⟩ := List.mem_map.mp hlocked.committed.there
    obtain rfl := hlocked.indexed.distinct.eq hrow hrow' (Or.inl (hid.trans
      (congrArg Prod.fst hkeys').symm))
    exact hkeys'
  have hpool : ∀ c', (cfg₁.pool c').Among (sem coll) c' (fun _ _ => True)
      (fun s _ => Locked coll (userId, userEmail) (· = c) s) (fun _ _ _ => True)
      (fun o _ => c' = c → ∃ e, o = .error e) cfg₁.state := by
    intro c'
    by_cases hc : c' = c
    · subst hc
      rw [h₁.unbegun hbegin]
      exact Among.imp (fun _ _ he _ => he) (call_refused rfl hkeys hfor)
    · exact (every_true _).among (fun _ _ _ _ _ _ _ => trivial) fun _ _ heq => absurd heq hc
  obtain ⟨_, hrefused, _⟩ := hguarded.among_outcome compatible_any (fun _ _ _ _ h => h) hpool ho
  exact hrefused rfl

end Late

/-! ## A user who is gone -/

section Samples

open Infrastructure (binaryCollation)

def annsToken : Auth.Claims := ⟨toString (1 : Nat), Auth.TokenType.access.value, "jti", 0, 1⟩

theorem sub_annsToken : annsToken.sub.toNat? = some 1 := Nat.toNat?_repr 1

theorem getCurrentUser_ann : getCurrentUser Auth.sample (some annsToken) = (do
    let now ← perform (.auth .now)
    if Redis.ticks 1 ≤ now then throw Auth.invalidToken else
      match ← UserRepository.getById 1 with
      | none => throw unauthenticated
      | some user =>
          if !user.userIsActive then
            throw (.unauthorized "비활성화된 계정입니다. 다시 로그인해주세요.")
          else
            return user) := by
  have hdecode : Auth.decodeToken Auth.sample annsToken .access = .call .now fun now =>
      if Redis.ticks 1 ≤ now then .raise Auth.invalidToken
      else .ret ⟨1, .access, "jti", Redis.ticks 1⟩ := by
    unfold Auth.decodeToken
    refine congrArg _ (funext fun now => ?_)
    dsimp only [Prog.bind]
    rw [show Auth.sample.jwtDecode annsToken = some annsToken from rfl]
    have hiat : ¬ now < Redis.ticks annsToken.iat := Nat.not_lt_zero now
    have htype : ¬ annsToken.type ≠ Auth.TokenType.access.value := fun h => h rfl
    simp only [sub_annsToken, hiat, htype, if_false]
    by_cases hexp : Redis.ticks 1 ≤ now
    · exact (if_pos hexp).trans (if_pos hexp).symm
    · exact (if_neg hexp).trans (if_neg hexp).symm
  show (lift (Auth.decodeToken Auth.sample annsToken .access) >>= fun payload => _) = _
  rw [hdecode]
  show (perform (.auth .now) >>= fun now => lift _) >>= _ = _
  rw [Prog.bind_assoc]
  refine congrArg _ (funext fun now => ?_)
  split <;> rfl

/-- One deactivates the account, and the other asks for the profile with the same token. -/
def leaving : Bool → Call Auth.Claims
  | false => .request (.deactivateMe (some annsToken))
  | true => .request (.getMe (some annsToken))

theorem leaving_runs : ∃ tr₁ cfg₁ tr₂ cfg,
    Run (sem binaryCollation) anyStep
        ⟨usersState [ann] 2, fun c => (leaving c).program Auth.sample⟩ tr₁ cfg₁ ∧
      Run (sem binaryCollation) anyStep cfg₁ tr₂ cfg ∧
      ⟨.commit, .ok ()⟩ ∈ own false tr₁ ∧ own true tr₁ = [] ∧
      ∃ e, (cfg.pool true).outcome = some (.error e) := by
  let leaves : List UsersEvent :=
    [⟨.auth .now, .ok (0 : Nat)⟩, ⟨.selectById 1, .ok [ann]⟩,
      ⟨.update 1 none (some false), .ok ()⟩, ⟨.commit, .ok ()⟩, ⟨.close, .ok ()⟩]
  let asks : List UsersEvent :=
    [⟨.auth .now, .ok (0 : Nat)⟩, ⟨.selectById 1, .ok [ann.set none (some false)]⟩,
      ⟨.rollback, .ok ()⟩, ⟨.close, .ok ()⟩]
  have hchain : ∃ s₁ s₂, Chain (sem (C := Bool) binaryCollation) (usersState [ann] 2)
        (leaves.map (.call false)) s₁ ∧
      Chain (sem (C := Bool) binaryCollation) s₁ (asks.map (.call true)) s₂ := by
    refine ⟨_, _,
      .call rfl (.call ⟨rfl, rfl⟩ (.call ⟨by simp, ?_, rfl⟩ (.call rfl (.call rfl .nil)))),
      .call rfl (.call ⟨rfl, rfl⟩ (.call rfl (.call rfl .nil)))⟩
    intro c hc w hw
    cases c with
    | false => exact absurd rfl hc
    | true => cases hw
  obtain ⟨s₁, s₂, hchain₁, hchain₂⟩ := hchain
  have hleaves : ((leaving false).program Auth.sample).Runs leaves (.ret .done) := by
    show (Infrastructure.inSession _ _ (getCurrentUser _ _ >>= _)).Runs _ _
    rw [getCurrentUser_ann]
    exact .cons (.cons (.cons (.cons (.cons .nil))))
  have hasks : ((leaving true).program Auth.sample).Runs asks
      (.raise (.unauthorized "비활성화된 계정입니다. 다시 로그인해주세요.")) := by
    show (Infrastructure.inSession _ _ (Response.user <$> getCurrentUser _ _)).Runs _ _
    rw [getCurrentUser_ann]
    exact .cons (.cons (.cons (.cons .nil)))
  have hcommit : ⟨.commit, .ok ()⟩ ∈ own false (leaves.map (Label.call false)) := by
    rw [own_map_self]
    simp [leaves]
  have hrun₁ := Run.of_chain hchain₁ (p := fun c => (leaving c).program Auth.sample)
    (q := fun c => if c then (leaving true).program Auth.sample else .ret .done) ?_
  have hrun₂ := Run.of_chain hchain₂
    (p := fun c => if c then (leaving true).program Auth.sample else .ret .done)
    (q := fun c => if c then .raise (.unauthorized "비활성화된 계정입니다. 다시 로그인해주세요.")
      else .ret .done) ?_
  · exact ⟨_, _, _, _, hrun₁, hrun₂, hcommit, own_map_ne Bool.false_ne_true _, _, rfl⟩
  · intro c
    cases c with
    | false =>
        rw [own_map_ne Bool.false_ne_true.symm]
        exact .nil
    | true =>
        rw [own_map_self]
        exact hasks
  · intro c
    cases c with
    | false =>
        rw [own_map_self]
        exact hleaves
    | true =>
        rw [own_map_ne Bool.false_ne_true]
        exact .nil

theorem deactivation_locks_out_sample : ∃ tr₁ cfg₁ tr₂ cfg,
    Run (sem binaryCollation) anyStep
        ⟨usersState [ann] 2, fun c => (leaving c).program Auth.sample⟩ tr₁ cfg₁ ∧
      Run (sem binaryCollation) anyStep cfg₁ tr₂ cfg ∧
      ∃ o, (cfg.pool true).outcome = some o ∧ ∃ e, o = .error e := by
  obtain ⟨tr₁, cfg₁, tr₂, cfg, h₁, h₂, hcommit, hbegin, e, ho⟩ := leaving_runs
  have hindexed : Indexed binaryCollation (usersState [ann] 2) := by
    refine indexed_usersState (List.pairwise_singleton _ _) fun row hrow => ?_
    rw [List.mem_singleton.mp hrow]
    decide
  have hbears : Bears Auth.sample annsToken 1 := ⟨annsToken, rfl, sub_annsToken⟩
  exact ⟨tr₁, cfg₁, tr₂, cfg, h₁, h₂, _, ho,
    deactivation_locks_out hindexed (fun _ => rfl) rfl hbears h₁ hcommit h₂ hbegin hbears ho⟩

end Samples

end GreenCommunity.Users
