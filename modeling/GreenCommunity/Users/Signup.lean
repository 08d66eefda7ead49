import GreenCommunity.Auth.Sample
import GreenCommunity.Users.Index
import GreenCommunity.Users.Service

/-!
# Racing signups

Signups with one email: each looks for the email, inserts its row and commits.  The row of
at most one of them is ever committed, as the second insert waits for the first and is
refused once the first has committed.  A signup that is refused looks again, in a new
transaction, and finds the row that was in its way.
-/

namespace GreenCommunity.Users

open GreenCommunity.Base
open GreenCommunity.Base.Prog
open GreenCommunity.Infrastructure (Collation among_perform track_perform)

/-! ## How far a signup has come -/

/-- What the events of a signup say about its row. -/
inductive Stage where
  | unsent
  | inserted (row : User)
  | saved (row : User)
  /-- An operation failed that does not fail. -/
  | lost

/-- After a commit. -/
def Stage.commit : Stage → Stage
  | .inserted row => .saved row
  | x => x

/-- After the end of the transaction. -/
def Stage.close : Stage → Stage
  | .inserted _ => .unsent
  | x => x

def Stage.next (x : Stage) : UsersEvent → Stage
  | ⟨.insert userEmail userPasswordHash userNickname, .ok userId⟩ =>
      .inserted (newUser userId userEmail userPasswordHash userNickname)
  | ⟨.commit, .ok _⟩ => x.commit
  | ⟨.rollback, .ok _⟩ | ⟨.close, .ok _⟩ => x.close
  | ⟨.rollback, .error _⟩ | ⟨.close, .error _⟩ => .lost
  | _ => x

/-- The writes that are not committed. -/
def Stage.unsaved : Stage → List Write
  | .inserted row => [.insert row]
  | _ => []

/-- A signup inserts one row, with its email, and commits that. -/
def Stage.Allows (userEmail : String) (x : Stage) : UsersEvent → Prop
  | ⟨.insert email _ _, _⟩ => x = .unsent ∧ email = userEmail
  | ⟨.update _ _ _, _⟩ => False
  | ⟨.commit, _⟩ => ∃ row, x = .inserted row
  | _ => True

/-- A signup returns exactly if its row is saved. -/
def Stage.Tells {α : Type} (x : Stage) (o : Except AppError α) : Prop :=
  x = .lost ∨ ((∃ row, x = .saved row) ↔ ∃ a, o = .ok a)

section Track

variable {α : Type} {x : Stage}

theorem tells_error {e : AppError} (hx : ∀ row, x ≠ .saved row) :
    x.Tells (.error e : Except AppError α) :=
  Or.inr (iff_of_false (fun ⟨row, h⟩ => hx row h) (by simp))

/-- The end of the transaction takes nothing back that is saved. -/
theorem Stage.Tells.close {o : Except AppError α} (h : x.Tells o) : x.close.Tells o := by
  cases x with
  | inserted row =>
      rcases h with h | h
      · cases h
      · refine Or.inr (Iff.trans (iff_of_false ?_ ?_) h)
        · rintro ⟨row', h'⟩
          cases h'
        · rintro ⟨row', h'⟩
          cases h'
  | _ => exact h

theorem Stage.Tells.map {β : Type} {o : Except AppError α} (h : x.Tells o) (f : α → β) :
    x.Tells (f <$> o) := by
  refine h.imp id fun h => h.trans ?_
  cases o with
  | ok a => exact iff_of_true ⟨a, rfl⟩ ⟨f a, rfl⟩
  | error e => exact iff_of_false (by simp) (by simp)

theorem track_ending {userEmail : String} {op : Op} (hop : op = .rollback ∨ op = .close)
    {R : Stage → Except AppError (Result op) → Prop} (hok : ∀ r, R x.close (.ok r))
    (herr : ∀ e, R .lost (.error e)) :
    (perform op).Track Stage.next (Stage.Allows userEmail) R x := by
  rcases hop with rfl | rfl <;>
    exact track_perform (fun _ => trivial) (fun r => hok r) fun e => herr e

/-- What a signup does, whatever the replies. -/
theorem create_track (payload : UserCreate) :
    (UserService.create payload).Track Stage.next (Stage.Allows payload.userEmail)
      Stage.Tells .unsent := by
  have hunsent : ∀ row, Stage.unsent ≠ .saved row := fun row => by simp
  have hlooks : ∀ {β : Type} (f : Bool → UsersM β) (x : Stage),
      (∀ row, x ≠ .saved row) →
      (∀ found, (f found).Track Stage.next (Stage.Allows payload.userEmail) Stage.Tells x) →
        (UserRepository.existsByEmail payload.userEmail >>= f).Track Stage.next
          (Stage.Allows payload.userEmail) Stage.Tells x := by
    intro β f x hx hf
    unfold UserRepository.existsByEmail
    rw [bind_assoc]
    exact track_bind.mpr (track_perform (fun _ => trivial) (fun count => hf _) fun e =>
      tells_error hx)
  have hafter : ∀ (e : AppError) (x : Stage), (∀ row, x ≠ .saved row) →
      (UserService.afterFailure payload.userEmail e).Track Stage.next
        (Stage.Allows payload.userEmail) Stage.Tells x := by
    intro e x hx
    have hclose : ∀ row, x.close ≠ .saved row := by
      intro row h
      cases x <;> first | exact hx _ h | cases h
    cases e with
    | integrityError =>
        refine track_bind.mpr (track_ending (Or.inl rfl) (fun _ => ?_) fun e => Or.inl rfl)
        refine hlooks _ _ hclose fun found => ?_
        cases found <;> exact tells_error hclose
    | _ => exact tells_error hx
  unfold UserService.create
  refine hlooks _ _ hunsent fun found => ?_
  cases found with
  | true => exact tells_error hunsent
  | false =>
      refine track_bind.mpr (track_perform (fun _ => trivial) (fun hash => ?_) fun e =>
        tells_error hunsent)
      refine track_handle.mpr ?_
      unfold UserRepository.add
      rw [bind_assoc]
      refine track_bind.mpr (track_perform (fun _ => ⟨rfl, rfl⟩) (fun userId => ?_) fun e =>
        hafter e _ hunsent)
      have hinserted : ∀ row', Stage.inserted (newUser userId payload.userEmail hash
          payload.userNickname) ≠ .saved row' := fun row' => by simp
      dsimp only
      rw [bind_assoc]
      refine track_bind.mpr (track_perform (fun _ => trivial) (fun rows => ?_) fun e =>
        hafter e _ hinserted)
      refine track_bind.mpr ?_
      match rows with
      | [] | _ :: _ :: _ => exact hafter _ _ hinserted
      | [row] =>
          refine track_bind.mpr (track_perform (fun _ => ⟨_, rfl⟩) (fun _ => ?_) fun e =>
            hafter e _ hinserted)
          exact Or.inr (iff_of_true ⟨_, rfl⟩ ⟨_, rfl⟩)

/-- The same for the request. -/
theorem signup_track {Tok : Type} (d : Auth.Deps Tok) (payload : UserCreate) :
    (serve d (.signup payload)).Track Stage.next (Stage.Allows payload.userEmail)
      Stage.Tells .unsent := by
  refine Infrastructure.track_inSession_of (fun x e htells => ?_) (fun x o htells => ?_) ?_
  · exact track_ending (Or.inl rfl) (fun _ => htells.close) fun e => Or.inl rfl
  · exact track_ending (Or.inr rfl) (fun _ => htells.close) fun e => Or.inl rfl
  · refine track_bind.mpr (Track.imp ?_ (create_track payload))
    rintro x (e | user) htells <;> exact htells.map Response.user

end Track

/-! ## What a signup finds

Among signups rows only come, and the session of a signup is its own. -/

section Among

variable {C : Type} [DecidableEq C] {coll : Collation} {c : C} {s s' : State C}

/-- What the others may do between two operations of `c`. -/
def Meanwhile (c : C) (s s' : State C) : Prop :=
  s'.db.session c = s.db.session c ∧ s.db.committed ⊆ s'.db.committed

/-- What `c` does to the others. -/
def Spares (c : C) (s : State C) (_ : UsersEvent) (s' : State C) : Prop :=
  (∀ d, d ≠ c → s'.db.session d = s.db.session d) ∧ s.db.committed ⊆ s'.db.committed

theorem compatible_signups : Compatible (sem (C := C) coll) Meanwhile Spares where
  refl _ _ := ⟨rfl, List.Subset.refl _⟩
  trans _ _ _ _ h h' := ⟨h'.1.trans h.1, List.Subset.trans h.2 h'.2⟩
  others hd h := ⟨h.1 _ hd, h.2⟩
  env _ _ _ h := h ▸ ⟨rfl, List.Subset.refl _⟩

theorem Registered.mono {t t' : List User} {userEmail : String}
    (h : Registered coll t userEmail) (hsub : t ⊆ t') : Registered coll t' userEmail := by
  obtain ⟨row, hrow, hsame⟩ := h
  exact ⟨row, hsub hrow, hsame⟩

/-- A conflict tells of a row that is there, and the exception of the database is not let
through. -/
structure Fair {α : Type} (coll : Collation) (userEmail : String) (o : Except AppError α)
    (s : State C) : Prop where
  conflict : ∀ message, o = .error (.conflict message) →
    .conflict message = UserService.emailTaken ∧ Registered coll s.db.committed userEmail
  handled : o ≠ .error .integrityError

variable {α β : Type} {userEmail : String}

/-- The program of a signup, among others. -/
abbrev Among (coll : Collation) (c : C) (p : UsersM α) (Q : Except AppError α → State C → Prop)
    (s : State C) : Prop :=
  p.Among (sem coll) c (Meanwhile c) (fun _ _ => True) (Spares c) Q s

omit [DecidableEq C] in
theorem fair_error {e : AppError} (hconflict : ∀ message, e ≠ .conflict message)
    (hkey : e ≠ .integrityError) : Fair coll userEmail (.error e : Except AppError α) s where
  conflict message h := absurd (Except.error.inj h) (hconflict message)
  handled h := hkey (Except.error.inj h)

omit [DecidableEq C] in
theorem fair_ok (a : α) : Fair coll userEmail (.ok a : Except AppError α) s where
  conflict message h := by cases h
  handled h := by cases h

omit [DecidableEq C] in
theorem fair_taken (h : Registered coll s.db.committed userEmail) :
    Fair coll userEmail (.error UserService.emailTaken : Except AppError α) s where
  conflict message hm := ⟨(Except.error.inj hm).symm, h⟩
  handled hno := by cases Except.error.inj hno

omit [DecidableEq C] in
theorem Fair.mono {o : Except AppError α} (h : Fair coll userEmail o s)
    (hsub : s.db.committed ⊆ s'.db.committed) : Fair coll userEmail o s' where
  conflict message hm := ⟨(h.conflict message hm).1, (h.conflict message hm).2.mono hsub⟩
  handled := h.handled

omit [DecidableEq C] in
theorem Fair.map {o : Except AppError α} (h : Fair coll userEmail o s) (f : α → β) :
    Fair coll userEmail (f <$> o) s := by
  cases o with
  | ok a => exact fair_ok (f a)
  | error e =>
      exact ⟨fun message hm => h.conflict message (by rw [Except.error.inj hm]),
        fun hno => h.handled (by rw [Except.error.inj hno])⟩

/-- An operation; a commit must not lose rows. -/
theorem among_op {op : Op} {Q : Except AppError (Result op) → State C → Prop}
    (hcommit : op = .commit → ∀ s₀, Meanwhile c s s₀ →
      s₀.db.committed ⊆ s₀.db.current apply c)
    (hok : ∀ s₀ r s', Meanwhile c s s₀ → does coll c s₀ op r s' → Q (.ok r) s')
    (herr : ∀ s₀ e, Meanwhile c s s₀ → fails coll c s₀ op e → Q (.error e) s₀) :
    Among coll c (perform op) Q s := by
  have hspares : ∀ s₀ r s', Meanwhile c s s₀ → step coll c s₀ op r s' →
      Spares c s₀ ⟨op, r⟩ s' := by
    intro s₀ r s' hs₀ hstep
    have heffect := effect_of_step hstep
    refine ⟨fun d hd => heffect.session_ne hd, ?_⟩
    rcases heffect.committed with heq | ⟨hop, heq⟩
    · rw [heq]
      exact List.Subset.refl _
    · rw [heq]
      exact hcommit hop s₀ hs₀
  refine among_perform (fun s₀ r s' hs₀ hstep _ => ?_) fun s₀ e s' hs₀ hstep _ => ?_
  · exact ⟨hspares s₀ (.ok r) s' hs₀ hstep, hok s₀ r s' hs₀ hstep⟩
  · obtain ⟨hfails, rfl⟩ := hstep
    exact ⟨hspares s' (.error e) s' hs₀ ⟨hfails, rfl⟩, herr s' e hs₀ hfails⟩

/-- Looking for the email, in a new transaction. -/
theorem existsByEmail_among (hidle : s.db.session c = .idle) {f : Bool → UsersM β}
    {Q : Except AppError β → State C → Prop} (herr : ∀ s', Q (.error .serviceError) s')
    (hfound : ∀ s', Registered coll s'.db.committed userEmail →
      Among coll c (f true) Q s')
    (hfree : ¬ Registered coll s.db.committed userEmail →
      ∀ s', (s'.db.session c).writes = [] → Among coll c (f false) Q s') :
    Among coll c (UserRepository.existsByEmail userEmail >>= f) Q s := by
  unfold UserRepository.existsByEmail
  rw [Prog.bind_assoc]
  refine among_bind.mpr (among_op (by simp) ?_ ?_)
  · rintro s₀ count s' ⟨hsession, hsub⟩ ⟨hcount, rfl⟩
    have hview : s₀.db.view apply c = s₀.db.committed := by
      rw [Db.view, hsession, hidle]
      rfl
    rw [hview] at hcount
    have hwrites : ((s₀.db.read c).session c).writes = [] := by
      rw [Db.writes_read, hsession, hidle]
      rfl
    by_cases hzero : count = 0
    · subst hzero
      refine hfree (fun hreg => ?_) _ hwrites
      obtain ⟨row, hrow, hsame⟩ := hreg.mono hsub
      have hmem : row ∈ usersByEmail coll s₀.db.committed userEmail :=
        List.mem_filter.mpr ⟨hrow, hsame⟩
      rw [List.length_eq_zero_iff.mp hcount.symm] at hmem
      cases hmem
    · have hfoundTrue : (count != 0) = true := by simpa using hzero
      show Among coll c (f (count != 0)) Q _
      rw [hfoundTrue]
      refine hfound _ ?_
      obtain ⟨row, hrow⟩ := List.exists_mem_of_ne_nil (usersByEmail coll s₀.db.committed userEmail)
        fun hnil => hzero (by rw [hcount, hnil]; rfl)
      exact ⟨row, (List.mem_filter.mp hrow).1, (List.mem_filter.mp hrow).2⟩
  · intro s₀ e _ hfails
    obtain rfl : e = .serviceError := hfails
    exact herr s₀

/-- A signup that the unique key has refused finds the row that was in its way. -/
theorem afterFailure_among (hreg : Registered coll s.db.committed userEmail) :
    Among coll c (UserService.afterFailure userEmail .integrityError)
      (Fair coll userEmail) s := by
  refine among_bind.mpr (among_op (by simp) ?_ fun s₀ e _ hfails => hfails.elim)
  rintro s₀ _ s' ⟨hsession, hsub⟩ hdoes
  obtain rfl : s' = { s₀ with db := s₀.db.rollback c } := hdoes
  refine existsByEmail_among Db.session_rollback
    (fun s' => fair_error (by simp) (by simp))
    (fun s' hreg' => fair_taken hreg') fun hfree => ?_
  exact absurd (hreg.mono hsub) hfree

theorem create_among (hidle : s.db.session c = .idle) (payload : UserCreate) :
    Among coll c (UserService.create payload) (Fair coll payload.userEmail) s := by
  have hservice : ∀ s' : State C,
      Fair coll payload.userEmail (.error .serviceError : Except AppError User) s' :=
    fun s' => fair_error (by simp) (by simp)
  refine existsByEmail_among hidle hservice (fun s' hreg => fair_taken hreg) ?_
  intro _ s₁ hwrites
  refine among_bind.mpr (among_op (by simp) ?_ ?_)
  · rintro s₂ hash s₃ ⟨hsession, _⟩ hdoes
    obtain rfl : s₃ = s₂ := hdoes
    refine among_handle.mpr ?_
    unfold UserRepository.add
    rw [Prog.bind_assoc]
    refine among_bind.mpr (among_op (by simp) ?_ ?_)
    · rintro s₄ userId s₅ ⟨hsession', _⟩ ⟨_, _, _, rfl⟩
      dsimp only
      rw [Prog.bind_assoc]
      have hinserted : ∀ row, ((s₄.db.write c (.insert row)).session c).writes =
          [.insert row] := by
        intro row
        rw [Db.writes_write, hsession', hsession, hwrites]
        rfl
      refine among_bind.mpr (among_op (by simp) ?_ ?_)
      · rintro s₆ rows s₇ ⟨hsession'', _⟩ ⟨_, rfl⟩
        refine among_bind.mpr ?_
        match rows with
        | [] | _ :: _ :: _ => exact fair_error (by simp) (by simp)
        | [row] =>
            refine among_bind.mpr (among_op (fun _ s₈ hs₈ => ?_) ?_ ?_)
            · rw [Db.current, hs₈.1]
              show _ ⊆ List.foldl apply _ ((s₆.db.read c).session c).writes
              rw [Db.writes_read, hsession'', hinserted]
              exact List.subset_append_left _ _
            · exact fun s₈ _ s₉ _ _ => fair_ok row
            · rintro s₈ e _ hfails
              obtain rfl : e = .serviceError := hfails
              exact hservice s₈
      · rintro s₆ e _ hfails
        obtain rfl : e = .serviceError := hfails
        exact hservice s₆
    · rintro s₄ e ⟨hsession', hsub⟩ hfails
      have hwrites₄ : (s₄.db.session c).writes = [] := by
        rw [hsession', hsession, hwrites]
      cases e with
      | integrityError =>
          refine afterFailure_among ?_
          have hcurrent : s₄.db.current apply c = s₄.db.committed := by
            rw [Db.current, hwrites₄]
            rfl
          exact hcurrent ▸ hfails
      | serviceError => exact hservice s₄
      | _ => cases hfails
  · rintro s₂ e _ ⟨message, rfl⟩
    exact fair_error (by simp) (by simp)

/-- The same for the request. -/
theorem signup_among {Tok : Type} (d : Auth.Deps Tok) (hidle : s.db.session c = .idle)
    (payload : UserCreate) :
    Among coll c (serve d (.signup payload)) (Fair coll payload.userEmail) s := by
  have hend : ∀ {op : Op} (hop : op = .rollback ∨ op = .close)
      {o : Except AppError (Response Tok)} {s : State C},
      Fair coll payload.userEmail o s → Among coll c (perform op)
        (fun o' s' => Fair coll payload.userEmail (o'.bind fun _ => o) s') s := by
    intro op hop o s hfair
    refine among_op (by rintro rfl; simp at hop) ?_ ?_
    · rintro s₀ r s' ⟨_, hsub⟩ hdoes
      have hcommitted : s'.db.committed = s₀.db.committed := by
        rcases hop with rfl | rfl <;> (obtain rfl : s' = _ := hdoes; rfl)
      exact hfair.mono (hcommitted ▸ hsub)
    · intro s₀ e _ hfails
      rcases hop with rfl | rfl <;> exact hfails.elim
  refine Infrastructure.among_inSession (fun o s' h => hend (Or.inr rfl) h)
    (fun e s' h => hend (Or.inl rfl) h) ?_
  refine among_bind.mpr (Among.imp ?_ (create_among hidle payload))
  rintro (e | user) s' hfair <;> exact hfair.map Response.user

end Among

/-! ## One row is saved -/

section Race

variable {C Tok : Type} [DecidableEq C] {coll : Collation} {d : Auth.Deps Tok}
  {payload : C → UserCreate} {s : State C}
  {cfg : Config C Op Reply AppError (Response Tok) (State C)}
  {tr : List (Label C Op Reply)}

/-- How far the signup of `c` has come. -/
def stage (tr : List (Label C Op Reply)) (c : C) : Stage := (own c tr).foldl Stage.next .unsent

/-- The table has the rows of before and the row of the one signup that has saved it. -/
inductive Saved (t : List User) (tr : List (Label C Op Reply)) (t' : List User) : Prop where
  | nobody (hnobody : ∀ c row, stage tr c ≠ .saved row) (ht : t' = t)
  | one (c : C) (row : User) (hc : stage tr c = .saved row)
      (hothers : ∀ c' row', c' ≠ c → stage tr c' ≠ .saved row') (ht : t' = t ++ [row])

structure Race (coll : Collation) (payload : C → UserCreate) (t : List User)
    (tr : List (Label C Op Reply)) (s : State C) : Prop where
  indexed : Indexed coll s
  kept : ∀ c, stage tr c ≠ .lost
  writes : ∀ c, (s.db.session c).writes = (stage tr c).unsaved
  email : ∀ c row, stage tr c = .inserted row ∨ stage tr c = .saved row →
    row.userEmail = (payload c).userEmail
  saved : Saved t tr s.db.committed

theorem stage_append_self (tr : List (Label C Op Reply)) (c : C) (e : UsersEvent) :
    stage (tr ++ [.call c e]) c = (stage tr c).next e := by
  simp [stage]

theorem stage_append_ne {c c' : C} (h : c ≠ c') (tr : List (Label C Op Reply)) (e : UsersEvent) :
    stage (tr ++ [.call c e]) c' = stage tr c' := by
  simp [stage, own_call_ne h]

/-- An event that saves nothing leaves the saved rows as they are. -/
theorem Saved.snoc {t t' : List User} (h : Saved t tr t') {c : C} {e : UsersEvent}
    (hsame : ∀ row, (stage tr c).next e = .saved row ↔ stage tr c = .saved row) :
    Saved t (tr ++ [.call c e]) t' := by
  have hstage : ∀ c' row, stage (tr ++ [.call c e]) c' = .saved row ↔ stage tr c' = .saved row := by
    intro c' row
    by_cases hc : c = c'
    · subst hc
      rw [stage_append_self]
      exact hsame row
    · rw [stage_append_ne hc]
  cases h with
  | nobody hnobody ht =>
      exact .nobody (fun c' row hsaved => hnobody c' row ((hstage c' row).mp hsaved)) ht
  | one w row hw hothers ht =>
      exact .one w row ((hstage w row).mpr hw)
        (fun c' row' hne hsaved => hothers c' row' hne ((hstage c' row').mp hsaved)) ht

/-- The rows of signups with one email clash. -/
theorem Race.clash {t : List User} (h : Race coll payload t tr s)
    (hsame : ∀ c c', coll.same (payload c).userEmail (payload c').userEmail = true)
    {c c' : C} {row row' : User} (hrow : stage tr c = .inserted row)
    (hrow' : stage tr c' = .saved row') (hmem : row' ∈ s.db.committed) : False := by
  have hdistinct := h.indexed.current c
  rw [keys_current] at hdistinct
  have hpending : pending s c = [row.keys] := by
    rw [pending, h.writes, hrow]
    rfl
  rw [hpending] at hdistinct
  refine (distinct_append.mp hdistinct).2.2 _ (List.mem_map_of_mem hmem) _
    (List.mem_singleton.mpr rfl) (Or.inr ?_)
  show coll.same row'.userEmail row.userEmail = true
  rw [h.email c row (Or.inl hrow), h.email c' row' (Or.inr hrow')]
  exact hsame c' c

/-- What has to be said of the caller of a step. -/
theorem Race.snoc {t : List User} (h : Race coll payload t tr s) {c : C} {op : Op} {r : Reply op}
    {s' : State C} (hstep : step coll c s op r s') {x : Stage}
    (hx : (stage tr c).next ⟨op, r⟩ = x) (hkept : x ≠ .lost)
    (hwrites : (s'.db.session c).writes = x.unsaved)
    (hemail : ∀ row, x = .inserted row ∨ x = .saved row →
      row.userEmail = (payload c).userEmail)
    (hsaved : Saved t (tr ++ [.call c ⟨op, r⟩]) s'.db.committed) :
    Race coll payload t (tr ++ [.call c ⟨op, r⟩]) s' := by
  have heffect := effect_of_step hstep
  have hself : stage (tr ++ [.call c ⟨op, r⟩]) c = x := (stage_append_self tr c _).trans hx
  refine ⟨h.indexed.step heffect, fun c' => ?_, fun c' => ?_, fun c' row => ?_, hsaved⟩
  · by_cases hc : c = c'
    · rw [← hc, hself]
      exact hkept
    · rw [stage_append_ne hc]
      exact h.kept c'
  · by_cases hc : c = c'
    · rw [← hc, hself]
      exact hwrites
    · rw [stage_append_ne hc, heffect.session_ne (Ne.symm hc)]
      exact h.writes c'
  · by_cases hc : c = c'
    · rw [← hc, hself]
      exact hemail row
    · rw [stage_append_ne hc]
      exact h.email c' row

/-- A step that neither writes nor ends the transaction. -/
theorem Race.quiet {t : List User} (h : Race coll payload t tr s) {c : C} {op : Op} {r : Reply op}
    {s' : State C} (hstep : step coll c s op r s') (hx : (stage tr c).next ⟨op, r⟩ = stage tr c)
    (hwrites : (s'.db.session c).writes = (s.db.session c).writes)
    (hcommitted : s'.db.committed = s.db.committed) :
    Race coll payload t (tr ++ [.call c ⟨op, r⟩]) s' := by
  refine h.snoc hstep hx (h.kept c) (hwrites.trans (h.writes c)) (h.email c) ?_
  rw [hcommitted]
  exact h.saved.snoc fun row => by rw [hx]

/-- The end of a transaction takes back what is not saved. -/
theorem Race.ending {t : List User} (h : Race coll payload t tr s) {c : C} {op : Op}
    {r : Reply op} (hstep : step coll c s op r { s with db := s.db.rollback c })
    (hx : (stage tr c).next ⟨op, r⟩ = (stage tr c).close) :
    Race coll payload t (tr ++ [.call c ⟨op, r⟩]) { s with db := s.db.rollback c } := by
  have hclose : ∀ row, (stage tr c).close = .saved row ↔ stage tr c = .saved row := by
    intro row
    cases stage tr c <;> simp [Stage.close]
  refine h.snoc hstep hx ?_ ?_ (fun row => ?_) (h.saved.snoc fun row => by rw [hx, hclose])
  · have hkept := h.kept c
    cases hstage : stage tr c <;> simp_all [Stage.close]
  · rw [Db.session_rollback]
    cases stage tr c <;> rfl
  · rintro (hrow | hrow)
    · cases hstage : stage tr c <;> simp [hstage, Stage.close] at hrow
    · exact h.email c row (Or.inr ((hclose row).mp hrow))

/-- The commit of an inserted row is the first one. -/
theorem Race.committing {t : List User} (h : Race coll payload t tr s)
    (hsame : ∀ c c', coll.same (payload c).userEmail (payload c').userEmail = true)
    {c : C} {row : User} (hrow : stage tr c = .inserted row) :
    Race coll payload t (tr ++ [.call c ⟨.commit, .ok ()⟩])
      { s with db := s.db.commit apply c } := by
  have hx : (stage tr c).next ⟨.commit, .ok ()⟩ = .saved row := by
    rw [hrow]
    rfl
  have hcurrent : s.db.current apply c = s.db.committed ++ [row] := by
    rw [Db.current, h.writes, hrow]
    rfl
  have hstep : step coll c s .commit (.ok ()) { s with db := s.db.commit apply c } := rfl
  refine h.snoc hstep hx (by simp) ?_ ?_ ?_
  · rw [Db.session_commit]
    rfl
  · rintro row' (hrow' | hrow')
    · cases hrow'
    · cases hrow'
      exact h.email c row (Or.inl hrow)
  · show Saved t _ (s.db.current apply c)
    rw [hcurrent]
    cases h.saved with
    | one w row' hw _ ht =>
        exact (h.clash hsame hrow hw
          (ht ▸ List.mem_append_right _ (List.mem_singleton.mpr rfl))).elim
    | nobody hnobody ht =>
        refine .one c row ((stage_append_self tr c _).trans hx) (fun c' row' hne => ?_)
          (congrArg (· ++ [row]) ht)
        rw [stage_append_ne (Ne.symm hne)]
        exact hnobody c' row'

/-- A step of a signup. -/
theorem Race.step {t : List User} (h : Race coll payload t tr s)
    (hsame : ∀ c c', coll.same (payload c).userEmail (payload c').userEmail = true)
    {c : C} {op : Op} {r : Reply op} {s' : State C} (hstep : step coll c s op r s')
    (hallows : (stage tr c).Allows (payload c).userEmail ⟨op, r⟩) :
    Race coll payload t (tr ++ [.call c ⟨op, r⟩]) s' := by
  cases r with
  | error e =>
      have hstep' := hstep
      obtain ⟨hfails, rfl⟩ := hstep
      cases op with
      | rollback | close => exact hfails.elim
      | _ => exact h.quiet hstep' rfl rfl rfl
  | ok r =>
      have hstep' := hstep
      cases op with
      | selectById userId | selectByEmail userEmail | countByEmail userEmail =>
          obtain ⟨_, rfl⟩ := hstep
          exact h.quiet hstep' rfl (Db.writes_read c) rfl
      | hashPassword password | auth op =>
          obtain rfl : s' = s := hstep
          exact h.quiet hstep' rfl rfl rfl
      | insert userEmail userPasswordHash userNickname =>
          obtain ⟨hx, rfl⟩ := hallows
          obtain ⟨rfl, _, _, rfl⟩ := hstep
          refine h.snoc hstep' rfl (by simp [Stage.next]) ?_ ?_ (h.saved.snoc fun row => ?_)
          · rw [Db.writes_write, h.writes, hx]
            rfl
          · rintro row (hrow | hrow) <;> cases hrow
            rfl
          · rw [hx]
            simp [Stage.next]
      | update userId userNickname userIsActive => exact hallows.elim
      | commit =>
          obtain ⟨row, hrow⟩ := hallows
          obtain rfl : s' = _ := hstep
          exact h.committing hsame hrow
      | rollback | close =>
          obtain rfl : s' = _ := hstep
          exact h.ending hstep' rfl

/-- Throughout a run of signups with one email. -/
theorem race_run (hs : Indexed coll s) (hidle : ∀ c, s.db.session c = .idle)
    (hsame : ∀ c c', coll.same (payload c).userEmail (payload c').userEmail = true)
    (h : Run (sem coll) anyStep ⟨s, fun c => serve d (.signup (payload c))⟩ tr cfg) :
    Race coll payload s.db.committed tr cfg.state := by
  refine Run.inv (fun tr cfg => Race coll payload s.db.committed tr cfg.state) ?_ ?_ h
  · refine ⟨hs, fun c => by simp [stage], fun c => ?_, fun c row => by simp [stage],
      .nobody (fun c row => by simp [stage]) rfl⟩
    rw [hidle]
    rfl
  · intro tr cfg l cfg' hrun ih hl _
    have hlabel := hl
    cases hl with
    | env henv =>
        obtain rfl := henv
        have hstage : ∀ c, stage (tr ++ [.env]) c = stage tr c := fun c => by simp [stage]
        refine ⟨ih.indexed, fun c => ?_, fun c => ?_, fun c row => ?_, ?_⟩
        · rw [hstage]
          exact ih.kept c
        · rw [hstage]
          exact ih.writes c
        · rw [hstage]
          exact ih.email c row
        · cases ih.saved with
          | nobody hnobody ht => exact .nobody (fun c row => by rw [hstage]; exact hnobody c row) ht
          | one c row hc hothers ht =>
              exact .one c row (by rw [hstage]; exact hc)
                (fun c' row' hne => by rw [hstage]; exact hothers c' row' hne) ht
    | call _ hstep =>
        exact ih.step hsame hstep
          (hrun.track_step (Q := fun c => Stage.Allows (payload c).userEmail)
            (fun c => signup_track d (payload c)) hlabel)

/-! ## The outcome of a race -/

/-- A signup has ended, and not because of a failure that has nothing to do with the race. -/
def EndsRace {α : Type} (o : Except AppError α) : Prop :=
  (∃ a, o = .ok a) ∨ (∃ message, o = .error (.conflict message)) ∨ o = .error .integrityError

/-- A signup that ends in a conflict ends in this one, and then the email is taken. -/
theorem signup_outcome (hidle : ∀ c, s.db.session c = .idle)
    (h : Run (sem coll) anyStep ⟨s, fun c => serve d (.signup (payload c))⟩ tr cfg) {c : C}
    {o : Except AppError (Response Tok)} (ho : (cfg.pool c).outcome = some o) :
    Fair coll (payload c).userEmail o cfg.state := by
  obtain ⟨s', hfair, hmeanwhile⟩ := h.among_outcome compatible_signups
    (fun _ _ _ _ _ => trivial) (fun c => signup_among d (hidle c) (payload c)) ho
  exact hfair.mono hmeanwhile.2

/-- A signup that has ended has saved its row exactly if it has returned. -/
theorem saved_iff (hs : Indexed coll s) (hidle : ∀ c, s.db.session c = .idle)
    (hsame : ∀ c c', coll.same (payload c).userEmail (payload c').userEmail = true)
    (h : Run (sem coll) anyStep ⟨s, fun c => serve d (.signup (payload c))⟩ tr cfg) {c : C}
    {o : Except AppError (Response Tok)} (ho : (cfg.pool c).outcome = some o) :
    (∃ row, stage tr c = .saved row) ↔ ∃ a, o = .ok a := by
  have htells := h.hist_outcome (R := fun c past o => (past.foldl Stage.next .unsent).Tells o)
    (fun c => (signup_track d (payload c)).hist) ho
  exact htells.resolve_left ((race_run hs hidle hsame h).kept c)

/-- Signups with one email in any order: at most one row has the email, and no signup ends in
the exception of the database.  Once all have ended, for no other reason, exactly one of them
has returned if nobody had the email before, and its row is the only new one; if somebody had,
they have all ended in the conflict. -/
theorem racing_signups (hs : Indexed coll s) (hidle : ∀ c, s.db.session c = .idle)
    (hsame : ∀ c c', coll.same (payload c).userEmail (payload c').userEmail = true)
    (h : Run (sem coll) anyStep ⟨s, fun c => serve d (.signup (payload c))⟩ tr cfg) (c₀ : C) :
    (usersByEmail coll cfg.state.db.committed (payload c₀).userEmail).length ≤ 1 ∧
      (∀ c, (cfg.pool c).outcome ≠ some (.error .integrityError)) ∧
      ((∀ c, ∃ o, (cfg.pool c).outcome = some o ∧ EndsRace o) →
        (¬ Registered coll s.db.committed (payload c₀).userEmail →
          ∃ c row, (∃ response, (cfg.pool c).outcome = some (.ok response)) ∧
            row.userEmail = (payload c).userEmail ∧
            cfg.state.db.committed = s.db.committed ++ [row] ∧
            ∀ c', c' ≠ c → (cfg.pool c').outcome = some (.error UserService.emailTaken)) ∧
        (Registered coll s.db.committed (payload c₀).userEmail →
          cfg.state.db.committed = s.db.committed ∧
            ∀ c, (cfg.pool c).outcome = some (.error UserService.emailTaken))) := by
  have hrace := race_run hs hidle hsame h
  refine ⟨hrace.indexed.distinct.usersByEmail _,
    fun c hno => (signup_outcome hidle h hno).handled rfl,
    fun hends => ?_⟩
  -- a signup that has not saved its row ends in the conflict, and the email is taken
  have hloses : ∀ c, (∀ row, stage tr c ≠ .saved row) →
      (cfg.pool c).outcome = some (.error UserService.emailTaken) ∧
        Registered coll cfg.state.db.committed (payload c).userEmail := by
    intro c hunsaved
    obtain ⟨o, ho, hend⟩ := hends c
    rcases hend with hok | ⟨message, rfl⟩ | rfl
    · obtain ⟨row, hrow⟩ := (saved_iff hs hidle hsame h ho).mpr hok
      exact absurd hrow (hunsaved row)
    · obtain ⟨hmessage, hreg⟩ := (signup_outcome hidle h ho).conflict message rfl
      exact ⟨by rw [ho, hmessage], hreg⟩
    · exact absurd rfl (signup_outcome hidle h ho).handled
  cases hrace.saved with
  | nobody hnobody ht =>
      refine ⟨fun hfree => ?_, fun _ => ⟨ht, fun c => (hloses c (hnobody c)).1⟩⟩
      exact absurd (ht ▸ (hloses c₀ (hnobody c₀)).2) hfree
  | one w row hw hothers ht =>
      have hemail := hrace.email w row (Or.inr hw)
      refine ⟨fun _ => ⟨w, row, ?_, hemail, ht, fun c' hne =>
        (hloses c' fun row' => hothers c' row' hne).1⟩, fun htaken => ?_⟩
      · obtain ⟨o, ho, _⟩ := hends w
        obtain ⟨response, rfl⟩ := (saved_iff hs hidle hsame h ho).mp ⟨row, hw⟩
        exact ⟨response, ho⟩
      · -- the row of before and the new one clash
        obtain ⟨row', hrow', hclash⟩ := htaken
        have hdistinct := hrace.indexed.distinct
        rw [ht, List.map_append] at hdistinct
        refine absurd ?_ ((distinct_append.mp hdistinct).2.2 _ (List.mem_map_of_mem hrow') row.keys
          List.mem_cons_self)
        refine Or.inr (coll.trans hclash ?_)
        show coll.same _ row.userEmail = true
        rw [hemail]
        exact hsame c₀ w

end Race

/-! ## Two signups -/

section Samples

open Infrastructure (binaryCollation)

def joining : UserCreate where
  userEmail := "ann@green.kr"
  userPassword := "password"
  userNickname := "ann"
  password_fits := ⟨by decide, by decide, by decide⟩
  nickname_fits := ⟨by decide, by decide⟩

/-- A table of users, and nobody at work. -/
def usersState (t : List User) (nextUserId : Nat) : State Bool where
  db := { committed := t, session := fun _ => .idle }
  nextUserId := nextUserId

theorem indexed_usersState {t : List User} {nextUserId : Nat}
    (hdistinct : Distinct binaryCollation (t.map User.keys))
    (hbelow : ∀ row ∈ t, row.userId < nextUserId) :
    Indexed binaryCollation (usersState t nextUserId) :=
  indexed_of_idle (fun _ => rfl) hdistinct hbelow

def ann : User := newUser 1 "ann@green.kr" "hash" "ann"

/-- Both look for the email and find nothing; the second is refused. -/
theorem race_run_sample : ∃ tr cfg,
    Run (sem binaryCollation) anyStep
        ⟨usersState [] 1, fun _ : Bool => serve Auth.sample (.signup joining)⟩ tr cfg ∧
      (cfg.pool false).outcome = some (.ok (.user ann)) ∧
      (cfg.pool true).outcome = some (.error UserService.emailTaken) := by
  let looks : List UsersEvent :=
    [⟨.countByEmail "ann@green.kr", .ok (0 : Nat)⟩, ⟨.hashPassword "password", .ok "hash"⟩]
  let wins : List UsersEvent :=
    [⟨.insert "ann@green.kr" "hash" "ann", .ok (1 : Nat)⟩, ⟨.selectById 1, .ok [ann]⟩,
      ⟨.commit, .ok ()⟩, ⟨.close, .ok ()⟩]
  let loses : List UsersEvent :=
    [⟨.insert "ann@green.kr" "hash" "ann", .error .integrityError⟩, ⟨.rollback, .ok ()⟩,
      ⟨.countByEmail "ann@green.kr", .ok (1 : Nat)⟩, ⟨.rollback, .ok ()⟩, ⟨.close, .ok ()⟩]
  let tr : List (Label Bool Op Reply) :=
    looks.map (.call false) ++ looks.map (.call true) ++ wins.map (.call false) ++
      loses.map (.call true)
  have hchain : ∃ s, Chain (sem (C := Bool) binaryCollation) (usersState [] 1) tr s := by
    refine ⟨_, .call ⟨rfl, rfl⟩ (.call rfl (.call ⟨rfl, rfl⟩ (.call rfl
      (.call ⟨rfl, ?_, ?_, rfl⟩ (.call ⟨rfl, rfl⟩ (.call rfl (.call rfl
        (.call ⟨?_, rfl⟩ (.call rfl (.call ⟨rfl, rfl⟩ (.call rfl (.call rfl .nil))))))))))))⟩
    · rintro ⟨row, hrow, _⟩
      cases hrow
    · intro c hc w hw
      cases c with
      | false => exact absurd rfl hc
      | true => cases hw
    · exact ⟨ann, List.mem_cons_self, rfl⟩
  obtain ⟨s, hchain⟩ := hchain
  have hrun := Run.of_chain hchain
    (p := fun _ => serve Auth.sample (.signup joining))
    (q := fun c => if c then .raise UserService.emailTaken else .ret (.user ann)) ?_
  · exact ⟨_, _, hrun, rfl, rfl⟩
  · intro c
    cases c with
    | false =>
        simp only [tr, own_append, own_map_self, own_map_ne Bool.false_ne_true.symm,
          List.append_nil]
        exact .cons (.cons (.cons (.cons (.cons (.cons .nil)))))
    | true =>
        simp only [tr, own_append, own_map_self, own_map_ne Bool.false_ne_true,
          List.append_nil, List.nil_append]
        exact .cons (.cons (.cons (.cons (.cons (.cons (.cons .nil))))))

/-- The race of the two signups for one row. -/
theorem racing_signups_sample : ∃ tr cfg,
    Run (sem binaryCollation) anyStep
        ⟨usersState [] 1, fun _ : Bool => serve Auth.sample (.signup joining)⟩ tr cfg ∧
      (∃ row, cfg.state.db.committed = [row]) := by
  obtain ⟨tr, cfg, hrun, hwins, hloses⟩ := race_run_sample
  have hfree : ¬ Registered binaryCollation ([] : List User) "ann@green.kr" := by
    rintro ⟨row, hrow, _⟩
    cases hrow
  obtain ⟨_, _, hraces⟩ := racing_signups
    (indexed_usersState (t := []) .nil fun row hrow => by cases hrow) (fun _ => rfl)
    (fun _ _ => binaryCollation.refl _) hrun true
  obtain ⟨_, row, _, _, hrow, _⟩ := (hraces fun c => by
    cases c with
    | false => exact ⟨_, hwins, Or.inl ⟨_, rfl⟩⟩
    | true => exact ⟨_, hloses, Or.inr (Or.inl ⟨_, rfl⟩)⟩).1 hfree
  exact ⟨tr, cfg, hrun, row, hrow⟩

/-- Two signups with an email that somebody has: both end in the conflict, and neither
returns. -/
theorem taken_email : ∃ tr cfg,
    Run (sem binaryCollation) anyStep
        ⟨usersState [ann] 2, fun _ : Bool => serve Auth.sample (.signup joining)⟩ tr cfg ∧
      (∀ c, ∃ o, (cfg.pool c).outcome = some o ∧ EndsRace o) ∧
      ¬ ∃ c response, (cfg.pool c).outcome = some (.ok response) := by
  let finds : List UsersEvent :=
    [⟨.countByEmail "ann@green.kr", .ok (1 : Nat)⟩, ⟨.rollback, .ok ()⟩, ⟨.close, .ok ()⟩]
  let tr : List (Label Bool Op Reply) := finds.map (.call false) ++ finds.map (.call true)
  have hchain : ∃ s, Chain (sem (C := Bool) binaryCollation) (usersState [ann] 2) tr s :=
    ⟨_, .call ⟨rfl, rfl⟩ (.call rfl (.call rfl (.call ⟨rfl, rfl⟩ (.call rfl (.call rfl .nil)))))⟩
  obtain ⟨s, hchain⟩ := hchain
  have hrun := Run.of_chain hchain
    (p := fun _ => serve Auth.sample (.signup joining))
    (q := fun _ => .raise UserService.emailTaken) ?_
  · refine ⟨_, _, hrun, fun c => ⟨_, rfl, Or.inr (Or.inl ⟨_, rfl⟩)⟩, ?_⟩
    rintro ⟨c, response, hok⟩
    cases hok
  · intro c
    cases c with
    | false =>
        simp only [tr, own_append, own_map_self, own_map_ne Bool.false_ne_true.symm,
          List.append_nil]
        exact .cons (.cons (.cons .nil))
    | true =>
        simp only [tr, own_append, own_map_self, own_map_ne Bool.false_ne_true,
          List.nil_append]
        exact .cons (.cons (.cons .nil))

end Samples

end GreenCommunity.Users
