import GreenCommunity.Auth.Counters

/-!
# A refresh that breaks off

An exception in the middle of `refresh` is an execution that stops: before the failing
operation if that took no effect, after it if it took effect and only the reply was
lost.  `refresh` writes nothing until the pipeline that consumes the presented token,
and it stores the new token after that pipeline; `failed_refresh_free_iff` says that
the user pays for exactly the failures in between and after.
-/

namespace GreenCommunity.Auth

open GreenCommunity.Base
open GreenCommunity.Base.Redis

variable {Tok : Type} (d : Deps Tok)

/-! ## Grounds for a pipeline -/

/-- An operation that writes nothing. -/
def Reading : Op → Prop
  | .redis c => c.writes = []
  | .pipeline _ => False
  | _ => True

/-- A refresh of this token writes by the pipelines of the store, and on these grounds
it stores a new token or ends all sessions. -/
structure Grounds (token : Tok) (past : List AuthEvent) (e : AuthEvent) : Prop where
  writes : (∃ a : Act, e.op = .pipeline (a.cmds d)) ∨ Reading e.op
  saves : ∀ u j h, e.op = .pipeline ((Act.save u j h).cmds d) →
    ∃ v k ex r, did d (.rotate v k ex) r ∈ past
  revokes : ∀ u jtis, e.op = .pipeline ((Act.revokeAll u jtis).cmds d) →
    (∀ x ∈ past, ∀ cs, x.op ≠ .pipeline cs) ∧ ∃ j, ident d token = some (u, j) ∧
      ((∃ stored, (⟨.redis (.get (tokenKey u j)), stored⟩ : AuthEvent) ∈ past ∧
          stored ≠ some (hashToken d token)) ∨
        ∃ user, (⟨.getById u, user⟩ : AuthEvent) ∈ past ∧
          ∀ x, user = some x → x.userIsActive = false)

variable {d} {token : Tok} {past : List AuthEvent}

private theorem grounds_reading {e : AuthEvent} (h : Reading e.op) :
    Grounds d token past e where
  writes := Or.inr h
  saves u j t hop := by
    rw [hop] at h
    exact h.elim
  revokes u jtis hop := by
    rw [hop] at h
    exact h.elim

/-- A pipeline other than the two that need grounds. -/
private theorem grounds_act {a : Act} {r : Reply (.pipeline (a.cmds d))}
    (hsave : ∀ u j h, a = .save u j h → ∃ v k ex r, did d (.rotate v k ex) r ∈ past)
    (hrevoke : ∀ u jtis, a = .revokeAll u jtis →
      (∀ x ∈ past, ∀ cs, x.op ≠ .pipeline cs) ∧ ∃ j, ident d token = some (u, j) ∧
        ((∃ stored, (⟨.redis (.get (tokenKey u j)), stored⟩ : AuthEvent) ∈ past ∧
            stored ≠ some (hashToken d token)) ∨
          ∃ user, (⟨.getById u, user⟩ : AuthEvent) ∈ past ∧
            ∀ x, user = some x → x.userIsActive = false)) :
    Grounds d token past (did d a r) where
  writes := Or.inl ⟨a, rfl⟩
  saves u j h hop := by
    injection hop with hop
    exact hsave u j h (Act.cmds_inj hop)
  revokes u jtis hop := by
    injection hop with hop
    exact hrevoke u jtis (Act.cmds_inj hop)

section Walk

variable {α : Type}

/-- The logic of what follows, whatever the outcome. -/
private abbrev Grounded (d : Deps Tok) (token : Tok) (p : AuthM α) (past : List AuthEvent) :
    Prop :=
  p.Hist (Grounds d token) (fun _ _ => True) past

private theorem grounded_read {op : Op} {k : Reply op → AuthM α} (hop : Reading op)
    (hk : ∀ r, Grounded d token (k r) (past ++ [⟨op, r⟩])) :
    Grounded d token (.call op k) past :=
  fun r => ⟨grounds_reading hop, hk r⟩

/-- Ending all sessions on some grounds, and anything quiet behind it. -/
private theorem grounded_revokeAll {u : Nat} {j : String} {f : Nat → AuthM α}
    (hident : ident d token = some (u, j))
    (hgrounds : (∃ stored, (⟨.redis (.get (tokenKey u j)), stored⟩ : AuthEvent) ∈ past ∧
        stored ≠ some (hashToken d token)) ∨
      ∃ user, (⟨.getById u, user⟩ : AuthEvent) ∈ past ∧
        ∀ x, user = some x → x.userIsActive = false)
    (hpast : ∀ x ∈ past, ∀ cs, x.op ≠ .pipeline cs)
    (hf : ∀ n past', Grounded d token (f n) past') :
    Grounded d token (revokeAll u >>= f) past := by
  unfold revokeAll
  simp only [Prog.request_bind, Prog.call_bind, Prog.pure_eq, Prog.ret_bind]
  refine grounded_read rfl fun jtis r => ⟨grounds_act (a := .revokeAll u jtis) nofun ?_, hf _ _⟩
  rintro _ _ ⟨⟩
  refine ⟨?_, j, hident, ?_⟩
  · intro x hx cs
    rcases List.mem_append.mp hx with hx | hx
    · exact hpast x hx cs
    · rw [List.mem_singleton.mp hx]
      exact nofun
  · rcases hgrounds with ⟨stored, hmem, hne⟩ | ⟨user, hmem, hinactive⟩
    · exact Or.inl ⟨stored, List.mem_append_left _ hmem, hne⟩
    · exact Or.inr ⟨user, List.mem_append_left _ hmem, hinactive⟩

/-- Storing the new token after a rotation. -/
private theorem grounded_issue {u : Nat}
    (h : ∃ v k ex r, did d (.rotate v k ex) r ∈ past) :
    Grounded d token (issueTokens d u) past := by
  unfold issueTokens createAccessToken createRefreshToken createToken save
  simp only [Prog.request_bind, Prog.call_bind, Prog.pure_eq, Prog.ret_bind]
  refine grounded_read trivial fun _ => grounded_read trivial fun _ =>
    grounded_read trivial fun _ => grounded_read trivial fun j r =>
      ⟨grounds_act (a := .save u j _) ?_ nofun, trivial⟩
  rintro _ _ _ ⟨⟩
  obtain ⟨v, k, ex, r, hmem⟩ := h
  exact ⟨v, k, ex, r, by simp [hmem]⟩

/-- The rotation and what comes after it. -/
private theorem grounded_rotate {p : TokenPayload} {u : Nat} :
    Grounded d token
      (Prog.call .now fun now =>
        rotate p.userId p.jti (((p.expiresAt : Int) - now).tdiv second) >>= fun _ =>
          Prog.call (.log (.tokenRefreshed u)) fun _ => issueTokens d u) past := by
  unfold rotate
  simp only [Prog.request_bind, Prog.call_bind, Prog.pure_eq, Prog.ret_bind]
  refine grounded_read trivial fun now r => ⟨grounds_act (a := .rotate p.userId p.jti _) nofun
    nofun, ?_⟩
  refine grounded_read trivial fun _ => grounded_issue ?_
  exact ⟨p.userId, p.jti, _, r,
    List.mem_append_left _ (List.mem_append_right _ List.mem_cons_self)⟩

end Walk

theorem refresh_grounded (token : Tok) :
    (refresh d token).Hist (Grounds d token) (fun _ _ => True) [] := by
  simp only [refresh, decodeToken_refresh, verify, Prog.call_bind, Prog.request_bind,
    Prog.throw_eq, Prog.raise_bind, Prog.pure_eq]
  refine grounded_read trivial fun n => ?_
  cases hdec : decodes d token n with
  | none => trivial
  | some p =>
      have hident := ident_of_decodes hdec
      simp only [Prog.ret_bind]
      refine grounded_read rfl fun stored => ?_
      have hread : (⟨.redis (.get (tokenKey p.userId p.jti)), stored⟩ : AuthEvent) ∈
          [] ++ [⟨.now, n⟩] ++ [⟨.redis (.get (tokenKey p.userId p.jti)), stored⟩] := by simp
      cases stored with
      | none =>
          simp only [Prog.call_bind]
          refine grounded_read rfl fun used => ?_
          cases used with
          | true =>
              simp only [if_true, Prog.ret_bind, true_or]
              refine grounded_revokeAll hident (Or.inl ⟨none, ?_, by simp⟩) (by simp) fun _ _ => ?_
              · exact List.mem_append_left _ hread
              · exact grounded_read trivial fun _ => trivial
          | false => exact grounded_read trivial fun _ => trivial
      | some h =>
          by_cases hhash : hashToken d token = h
          · subst hhash
            simp only [verifyTokenHash, beq_self_eq_true, if_true, Prog.ret_bind]
            refine grounded_read trivial fun user => ?_
            cases user with
            | none =>
                refine grounded_revokeAll hident (Or.inr ⟨none, by simp, by simp⟩) (by simp) ?_
                exact fun _ _ => trivial
            | some user =>
                cases hactive : user.userIsActive with
                | false =>
                    simp only [hactive, Bool.not_false, if_true]
                    refine grounded_revokeAll hident (Or.inr ⟨some user, by simp, ?_⟩) (by simp) ?_
                    · rintro x ⟨⟩
                      exact hactive
                    · exact fun _ _ => trivial
                | true =>
                    simp only [hactive, Bool.not_true, Bool.false_eq_true, if_false]
                    exact grounded_rotate
          · simp only [verifyTokenHash, beq_iff_eq, hhash, if_false, Prog.ret_bind, or_true,
              if_true]
            refine grounded_revokeAll hident (Or.inl ⟨some h, hread, ?_⟩) (by simp) fun _ _ => ?_
            · exact fun heq => hhash (Option.some.inj heq).symm
            · exact grounded_read trivial fun _ => trivial

/-! ## The token store during a refresh -/

/-- The store's keys hold at the present instant of `s'` what they would hold then had
nothing happened since `s`. -/
def SameStore (s s' : State) : Prop :=
  ∀ k, SessionKey k → purge s'.clock s'.redis k = purge s'.clock s.redis k

/-- The pipeline that consumes a token took effect. -/
def Rotated (d : Deps Tok) (evs : List TimedEvent) : Prop :=
  ∃ s u j ex r, (s, did d (.rotate u j ex) r) ∈ evs

/-- The presented token is ACTIVE until `T`, was issued by this service, and its user
is active. -/
structure Presented (d : Deps Tok) (token : Tok) (u : Nat) (j : String) (T : WithTop Nat)
    (s : State) : Prop where
  names : ident d token = some (u, j)
  stored : s.redis (tokenKey u j) = some ⟨.str (hashToken d token), T⟩
  issued : j ∈ s.uuids
  user : ∃ user, getById s u = some user ∧ user.userIsActive = true

/-- What holds after some events of the refresh, as long as the token would be ACTIVE. -/
structure Meanwhile (d : Deps Tok) (token : Tok) (u : Nat) (j : String) (T : WithTop Nat)
    (s : State) (past : List TimedEvent) (s₁ : State) : Prop where
  later : s.clock ≤ s₁.clock
  users : s₁.users = s.users
  issued : j ∈ s₁.uuids
  drawn : ∀ k, (⟨.uuid4, k⟩ : AuthEvent) ∈ past.map Prod.snd → k ≠ j
  looked : ∀ v, (⟨.getById u, v⟩ : AuthEvent) ∈ past.map Prod.snd → v = getById s u
  read : ¬ Rotated d past → (s₁.clock : WithTop Nat) < T →
    ∀ v, (⟨.redis (.get (tokenKey u j)), v⟩ : AuthEvent) ∈ past.map Prod.snd →
      v = some (hashToken d token)
  kept : ¬ Rotated d past → (s₁.clock : WithTop Nat) < T → SameStore s s₁
  consumed : Rotated d past → s₁.token u j = none
  gentle : (s₁.clock : WithTop Nat) < T →
    ∀ s₀ v jtis r, (s₀, did d (.revokeAll v jtis) r) ∉ past

section Steps

variable {u : Nat} {j : String} {T : WithTop Nat} {s s₁ s₂ s₃ : State}
  {before : List TimedEvent} {e : AuthEvent}

/-- What is the same now is the same later. -/
theorem SameStore.passes (h : SameStore s s₁) (hp : Auth.passes s₁ s₂) : SameStore s s₂ := by
  intro k hk
  have hnow := h k hk
  have hredis : s₂.redis = s₁.redis := by rw [hp.2]
  rw [hredis, ← purge_purge hp.1 s₁.redis, ← purge_purge hp.1 s.redis]
  simp only [purge] at hnow ⊢
  rw [hnow]

theorem Reading.spares {op : Op} (h : Reading op) (key : String) : Spares key op := by
  cases op with
  | redis c =>
      have hwrites : c.writes = [] := h
      simp [Spares, hwrites]
  | pipeline cs => exact h.elim
  | now | uuid4 | getById _ | getByEmail _ | log _ => trivial

theorem SameStore.reading {op : Op} {r : Reply op} (h : SameStore s s₁) (hop : Reading op)
    (hstep : step d s₁ op r s₂) : SameStore s s₂ := by
  intro k hk
  have hkey := counter_spared (hop.spares k) hstep
  rw [State.counter, State.counter, step_clock hstep] at hkey
  rw [step_clock hstep, hkey]
  exact h k hk

/-- Reading leaves the token tables alone. -/
private theorem token_reading {op : Op} {r : Reply op} (h : Reading op)
    (hstep : step d s₁ op r s₂) : s₂.token u j = s₁.token u j :=
  counter_spared (h.spares (tokenKey u j)) hstep

theorem rotated_snoc : Rotated d (before ++ [(s₂, e)]) ↔
    Rotated d before ∨ ∃ v k ex r, e = did d (.rotate v k ex) r := by
  constructor
  · rintro ⟨s₀, v, k, ex, r, hmem⟩
    rcases List.mem_append.mp hmem with hmem | hmem
    · exact Or.inl ⟨s₀, v, k, ex, r, hmem⟩
    · cases List.mem_singleton.mp hmem
      exact Or.inr ⟨v, k, ex, r, rfl⟩
  · rintro (⟨s₀, v, k, ex, r, hmem⟩ | ⟨v, k, ex, r, rfl⟩)
    · exact ⟨s₀, v, k, ex, r, List.mem_append_left _ hmem⟩
    · exact ⟨s₂, v, k, ex, r, by simp⟩

private theorem mem_snoc {x : AuthEvent} :
    x ∈ (before ++ [(s₂, e)]).map Prod.snd ↔ x ∈ before.map Prod.snd ∨ x = e := by
  simp

/-- The passage of time before an event. -/
theorem Meanwhile.passes (h : Meanwhile d token u j T s before s₁) (hp : Auth.passes s₁ s₂) :
    Meanwhile d token u j T s before s₂ := by
  have hdue : (s₂.clock : WithTop Nat) < T → (s₁.clock : WithTop Nat) < T :=
    fun hlt => lt_of_le_of_lt (WithTop.coe_le_coe.mpr hp.1) hlt
  refine ⟨Nat.le_trans h.later hp.1, ?_, ?_, h.drawn, h.looked,
    fun hno hlt => h.read hno (hdue hlt), fun hno hlt => (h.kept hno (hdue hlt)).passes hp,
    fun hyes => ?_, fun hlt => h.gentle (hdue hlt)⟩
  · rw [hp.2]
    exact h.users
  · rw [hp.2]
    exact h.issued
  · by_contra hlive
    obtain ⟨x, hx⟩ := Option.ne_none_iff_exists'.mp hlive
    have hbefore := ((token_drift (drift_of_passes hp)).mp hx).1
    rw [h.consumed hyes] at hbefore
    cases hbefore

private theorem not_rotated {a : Act} (h : ∀ x ∈ before.map Prod.snd, ∀ cs, x.op ≠ .pipeline cs)
    {r : Reply (.pipeline (a.cmds d))} {s₀ : State} : (s₀, did d a r) ∉ before :=
  fun hmem => h _ (List.mem_map_of_mem hmem) _ rfl

/-- A reading event. -/
private theorem Meanwhile.reading (hp : Presented d token u j T s)
    (h : Meanwhile d token u j T s before s₂) (hop : Reading e.op)
    (hstep : step d s₂ e.op e.reply s₃) :
    Meanwhile d token u j T s (before ++ [(s₂, e)]) s₃ := by
  have hclock : s₃.clock = s₂.clock := step_clock hstep
  have hact : ∀ (a : Act) (r : Reply (.pipeline (a.cmds d))), e ≠ did d a r := by
    rintro a r rfl
    exact hop
  have hrotated : Rotated d (before ++ [(s₂, e)]) ↔ Rotated d before := by
    rw [rotated_snoc]
    exact or_iff_left fun ⟨v, k, ex, r, he⟩ => hact _ r he
  refine ⟨Nat.le_trans h.later (Nat.le_of_eq hclock.symm), (users_step hstep).trans h.users,
    uuids_step hstep h.issued, ?_, ?_, ?_, ?_, ?_, ?_⟩
  · intro k hk
    rcases mem_snoc.mp hk with hk | rfl
    · exact h.drawn k hk
    · rintro rfl
      exact hstep.1 h.issued
  · intro v hv
    rcases mem_snoc.mp hv with hv | rfl
    · exact h.looked v hv
    · rw [show v = getById s₂ u from hstep.1, getById, getById, h.users]
  · intro hno hlt v hv
    rw [hrotated] at hno
    rw [hclock] at hlt
    rcases mem_snoc.mp hv with hv | rfl
    · exact h.read hno hlt v hv
    · have hkey := h.kept hno hlt (tokenKey u j) (.token u j)
      have hlive : purge s₂.clock s.redis (tokenKey u j) =
          some ⟨.str (hashToken d token), T⟩ := purge_eq_some.mpr ⟨hp.stored, hlt⟩
      rw [hlive] at hkey
      have hreply : v = (exec s₂.clock s₂.redis (.get (tokenKey u j))).1 := hstep.1
      rw [hreply]
      simp [exec, Cmd.run, hkey]
  · intro hno hlt
    rw [hclock] at hlt
    exact (h.kept (fun hyes => hno (hrotated.mpr hyes)) hlt).reading hop hstep
  · intro hyes
    rw [token_reading hop hstep]
    exact h.consumed (hrotated.mp hyes)
  · intro hlt s₀ v jtis r hmem
    rw [hclock] at hlt
    rcases List.mem_append.mp hmem with hmem | hmem
    · exact h.gentle hlt s₀ v jtis r hmem
    · cases List.mem_singleton.mp hmem
      exact hact _ r rfl

section Acts

variable {a : Act} {r : Reply (.pipeline (a.cmds d))}

/-- A pipeline of the store, once the token is rotated or past its time: only its key
matters, and that nothing else was revoked before. -/
private theorem Meanwhile.acted (h : Meanwhile d token u j T s before s₂)
    (hstep : step d s₂ (.pipeline (a.cmds d)) r s₃)
    (hover : Rotated d (before ++ [(s₂, did d a r)]) ∨ ¬ (s₂.clock : WithTop Nat) < T)
    (hnone : Rotated d (before ++ [(s₂, did d a r)]) → s₃.token u j = none)
    (hact : (s₂.clock : WithTop Nat) < T → ∀ v jtis, a ≠ .revokeAll v jtis) :
    Meanwhile d token u j T s (before ++ [(s₂, did d a r)]) s₃ := by
  have hclock : s₃.clock = s₂.clock := step_clock hstep
  have hends : ¬ Rotated d (before ++ [(s₂, did d a r)]) →
      ¬ (s₃.clock : WithTop Nat) < T := by
    intro hno
    rw [hclock]
    exact hover.resolve_left hno
  refine ⟨Nat.le_trans h.later (Nat.le_of_eq hclock.symm), (users_step hstep).trans h.users,
    uuids_step (e := did d a r) hstep h.issued, ?_, ?_,
    fun hno hlt => absurd hlt (hends hno), fun hno hlt => absurd hlt (hends hno), hnone, ?_⟩
  · intro k hk
    rcases mem_snoc.mp hk with hk | hk
    · exact h.drawn k hk
    · cases hk
  · intro v hv
    rcases mem_snoc.mp hv with hv | hv
    · exact h.looked v hv
    · cases hv
  · intro hlt s₀ v jtis r' hmem
    rw [hclock] at hlt
    rcases List.mem_append.mp hmem with hmem | hmem
    · exact h.gentle hlt s₀ v jtis r' hmem
    · injection List.mem_singleton.mp hmem with _ he
      injection congrArg Event.op he with hcmds
      exact hact hlt v jtis (Act.cmds_inj hcmds).symm

/-- A token saved after the rotation is another one. -/
private theorem token_saved {v : Nat} {k t : String}
    {r : Reply (.pipeline ((Act.save v k t).cmds d))}
    (hstep : step d s₂ (.pipeline ((Act.save v k t).cmds d)) r s₃) (hk : k ≠ j)
    (hnone : s₂.token u j = none) : s₃.token u j = none := by
  by_contra hlive
  obtain ⟨x, hx⟩ := Option.ne_none_iff_exists'.mp hlive
  rcases (token_act (a := .save v k t) trivial hstep u j x).mp hx with
    ⟨t', hsave, _⟩ | ⟨_, _, hold⟩
  · cases hsave
    exact hk rfl
  · rw [hnone] at hold
    cases hold

/-- A rotation deletes the token's key. -/
private theorem token_rotated {ex : Nat} {r : Reply (.pipeline ((Act.rotate u j ex).cmds d))}
    (hex : (Act.rotate u j ex).Timed)
    (hstep : step d s₂ (.pipeline ((Act.rotate u j ex).cmds d)) r s₃) :
    s₃.token u j = none := by
  by_contra hlive
  obtain ⟨x, hx⟩ := Option.ne_none_iff_exists'.mp hlive
  rcases (token_act (a := .rotate u j ex) hex hstep u j x).mp hx with
    ⟨t', hsave, _⟩ | ⟨_, hkept, _⟩
  · cases hsave
  · exact hkept ⟨rfl, rfl⟩

/-- Neither ground for ending the sessions can be there while the token is due. -/
private theorem Meanwhile.overdue (hp : Presented d token u j T s)
    (h : Meanwhile d token u j T s before s₂) (hno : ¬ Rotated d before)
    (hwhy : (∃ stored, (⟨.redis (.get (tokenKey u j)), stored⟩ : AuthEvent) ∈
        before.map Prod.snd ∧ stored ≠ some (hashToken d token)) ∨
      ∃ user, (⟨.getById u, user⟩ : AuthEvent) ∈ before.map Prod.snd ∧
        ∀ x, user = some x → x.userIsActive = false) :
    ¬ (s₂.clock : WithTop Nat) < T := by
  intro hlt
  rcases hwhy with ⟨stored, hmem, hne⟩ | ⟨user, hmem, hinactive⟩
  · exact hne (h.read hno hlt stored hmem)
  · obtain ⟨x, hx, hactive⟩ := hp.user
    have huser := (h.looked user hmem).trans hx
    rw [hinactive x huser] at hactive
    cases hactive

/-- A pipeline of the store. -/
private theorem Meanwhile.act (hp : Presented d token u j T s)
    (h : Meanwhile d token u j T s before s₂)
    (hrule : Rule d (.refresh token) (before.map Prod.snd) a)
    (hgrounds : Grounds d token (before.map Prod.snd) (did d a r))
    (hstep : step d s₂ (.pipeline (a.cmds d)) r s₃) :
    Meanwhile d token u j T s (before ++ [(s₂, did d a r)]) s₃ := by
  cases a with
  | revoke v k =>
      obtain ⟨t, ht, _⟩ := hrule
      cases ht
  | save v k t =>
      obtain ⟨v', k', ex, r', hmem⟩ := hgrounds.saves v k t rfl
      obtain ⟨⟨s₀, e₀⟩, hbefore, rfl⟩ := List.mem_map.mp hmem
      have hrotated : Rotated d before := ⟨s₀, v', k', ex, r', hbefore⟩
      exact h.acted hstep (Or.inl (rotated_snoc.mpr (Or.inl hrotated)))
        (fun _ => token_saved hstep (h.drawn k hrule.1) (h.consumed hrotated)) fun _ => nofun
  | rotate v k ex =>
      obtain ⟨hex, _, t, ht, hident, _⟩ := hrule
      cases ht
      rw [hp.names] at hident
      cases hident
      exact h.acted hstep (Or.inl (rotated_snoc.mpr (Or.inr ⟨u, j, ex, r, rfl⟩)))
        (fun _ => token_rotated hex hstep) fun _ => nofun
  | revokeAll v jtis =>
      obtain ⟨hpast, k, hident, hwhy⟩ := hgrounds.revokes v jtis rfl
      rw [hp.names] at hident
      cases hident
      have hno : ¬ Rotated d before := fun ⟨s₀, v', k', ex, r', hmem⟩ => not_rotated hpast hmem
      have hlate := h.overdue hp hno hwhy
      refine h.acted hstep (Or.inr hlate) (fun hyes => ?_) fun hlt => absurd hlt hlate
      rcases rotated_snoc.mp hyes with hyes | ⟨v', k', ex, r', he⟩
      · exact absurd hyes hno
      · injection congrArg Event.op he with hcmds
        have hact := Act.cmds_inj (a := .revokeAll u jtis) (b := .rotate v' k' ex) hcmds
        cases hact

end Acts

end Steps

/-! ## What a failure costs -/

section Failure

variable {u : Nat} {j : String} {T : WithTop Nat} {s s' : State} {evs : List TimedEvent}
  {o : Option (Except AppError (Response Tok))}

theorem Presented.meanwhile (hp : Presented d token u j T s)
    (h : Exec (soloSem d passes) () s (serve d (.refresh token)) evs o s') :
    Meanwhile d token u j T s evs s' := by
  have hhist : (serve d (.refresh token)).Hist
      (fun past e => Allowed d (.refresh token) past e ∧ Grounds d token past e)
      (fun _ _ => True) [] := by
    refine ((Prog.hist_bind _ _ _).mpr ?_ : Prog.Hist _ _ (refresh d token >>= _) [])
    refine (refresh_hist.and (refresh_grounded token)).imp (fun _ _ hQ => hQ) ?_
    rintro past (e | issued) _ <;> trivial
  have hstart : Meanwhile d token u j T s [] s := by
    refine ⟨Nat.le_refl _, rfl, hp.issued, by simp, by simp, by simp, fun _ _ _ _ => rfl, ?_,
      by simp⟩
    rintro ⟨_, _, _, _, _, hmem⟩
    cases hmem
  refine h.inv (Meanwhile d token u j T s) ?_ [] hhist hstart
  rintro past s₁ s₂ s₃ e hI henv hstep ⟨hallowed, hgrounds⟩
  have hI₂ := hI.passes henv
  rcases hgrounds.writes with ⟨a, hop⟩ | hop
  · obtain ⟨op, r⟩ := e
    obtain rfl : op = _ := hop
    exact hI₂.act hp (hallowed.rule a rfl) hgrounds hstep
  · exact hI₂.reading hp hop hstep

/-- The user pays nothing: the token store is as it was, and presenting the token again
while it is due ends no session. -/
structure Free (d : Deps Tok) (token : Tok) (T : WithTop Nat) (s s' : State) : Prop where
  store : SameStore s s'
  retry : ∀ evs o s'', Exec (soloSem d passes) () s' (serve d (.refresh token)) evs o s'' →
    (s''.clock : WithTop Nat) < T → ∀ s₀ v jtis r, (s₀, did d (.revokeAll v jtis) r) ∉ evs

/-- After the rotation the token is gone. -/
private theorem not_free_of_rotated (hp : Presented d token u j T s)
    (h : Exec (soloSem d passes) () s (serve d (.refresh token)) evs o s')
    (hdue : (s'.clock : WithTop Nat) < T) (hrotated : Rotated d evs) :
    ¬ Free d token T s s' := by
  intro hfree
  have hgone := (hp.meanwhile h).consumed hrotated
  have hkey := hfree.store (tokenKey u j) (.token u j)
  have hlive : purge s'.clock s.redis (tokenKey u j) = some ⟨.str (hashToken d token), T⟩ :=
    purge_eq_some.mpr ⟨hp.stored, hdue⟩
  rw [State.token, hkey, hlive] at hgone
  cases hgone

/-- Before the rotation nothing has happened. -/
private theorem free_of_not_rotated (hp : Presented d token u j T s)
    (h : Exec (soloSem d passes) () s (serve d (.refresh token)) evs o s')
    (hdue : (s'.clock : WithTop Nat) < T) (hno : ¬ Rotated d evs) : Free d token T s s' := by
  have hafter := hp.meanwhile h
  have hstore := hafter.kept hno hdue
  refine ⟨hstore, fun evs' o' s'' hx hdue' => ?_⟩
  have hkey := hstore (tokenKey u j) (.token u j)
  have hlive : purge s'.clock s.redis (tokenKey u j) = some ⟨.str (hashToken d token), T⟩ :=
    purge_eq_some.mpr ⟨hp.stored, hdue⟩
  rw [hlive] at hkey
  have hp' : Presented d token u j T s' := by
    refine ⟨hp.names, (purge_eq_some.mp hkey).1, hafter.issued, ?_⟩
    rw [getById, hafter.users]
    exact hp.user
  exact (hp'.meanwhile hx).gentle hdue'

/-- A refresh of an ACTIVE token that breaks off, at whatever operation and whether or
not that operation took effect, costs the user nothing exactly if the rotation had not
taken effect. -/
theorem failed_refresh_free_iff (hp : Presented d token u j T s)
    (h : Exec (soloSem d passes) () s (serve d (.refresh token)) evs none s')
    (hdue : (s'.clock : WithTop Nat) < T) : Free d token T s s' ↔ ¬ Rotated d evs :=
  ⟨fun hfree hrotated => not_free_of_rotated hp h hdue hrotated hfree,
    free_of_not_rotated hp h hdue⟩

end Failure

/-! ## The new token is never stored -/

/-- The sample login's token is ACTIVE. -/
theorem presented_loggedIn :
    Presented sample loginToken 1 "j" ((0 + sample.settings.ttl : Nat) : WithTop Nat)
      loggedIn where
  names := ident_of_decodes decodes_loginToken
  stored := (purge_eq_some.mp token_loggedIn).1
  issued := List.mem_cons_self
  user := ⟨sampleUser, rfl, rfl⟩

/-- The sample refresh up to the rotation. -/
private theorem refresh_front : ∃ evs s',
    Exec (soloSem sample passes) () loggedIn (serve sample (.refresh loginToken)) evs none s' ∧
      evs.map Prod.snd = refreshFront sample loginToken loginPayload sampleUser 0 0 ∧
      (s'.clock : WithTop Nat) < ((0 + sample.settings.ttl : Nat) : WithTop Nat) := by
  have hfront := front_chain (d := sample) () (n := 0) loginToken loginPayload sampleUser
    rfl token_loggedIn rfl
  have hruns := @refresh_runs _ sample loginToken 0 0 0 0 "a₁" "a₂" _ decodes_loginToken
    sampleUser rfl (pipeline 0 loggedIn.redis _).1 (pipeline 0 loggedIn.redis _).1
  have hsame : (sem Unit sample).step = (soloSem sample passes).step := rfl
  obtain ⟨evs, hevents, hx⟩ := Exec.stopped (S := soloSem sample passes) (c := ()) passes_refl
    hruns (Chain.calls hsame hfront)
  exact ⟨evs, _, hx, hevents, by decide⟩

/-- The sample refresh up to the rotation, which has taken effect. -/
private theorem refresh_rotated : ∃ evs s',
    Exec (soloSem sample passes) () loggedIn (serve sample (.refresh loginToken)) evs none s' ∧
      Rotated sample evs ∧
      (s'.clock : WithTop Nat) < ((0 + sample.settings.ttl : Nat) : WithTop Nat) := by
  have hrotate : ∃ s' r, step sample { loggedIn with redis := purge 0 loggedIn.redis }
      (.pipeline ((Act.rotate 1 "j" (markerSeconds loginPayload 0)).cmds sample)) r s' ∧
      s'.clock = 0 := ⟨_, _, ⟨rfl, rfl⟩, rfl⟩
  obtain ⟨s', r, hstep, hclock⟩ := hrotate
  have hfront := front_chain (d := sample) () (n := 0) loginToken loginPayload sampleUser
    rfl token_loggedIn rfl
  have hchain : Chain (soloSem sample passes) loggedIn
      ((refreshFront sample loginToken loginPayload sampleUser 0 0 ++
        [did sample (.rotate 1 "j" (markerSeconds loginPayload 0)) r]).map (.call ())) s' := by
    rw [List.map_append]
    have hsame : (sem Unit sample).step = (soloSem sample passes).step := rfl
    exact Chain.append (Chain.calls hsame hfront) (.call hstep .nil)
  have hruns := @refresh_runs _ sample loginToken 0 0 0 0 "a₁" "a₂" _
    decodes_loginToken sampleUser rfl r (pipeline 0 loggedIn.redis _).1
  unfold refreshBack at hruns
  rw [List.append_cons] at hruns
  obtain ⟨evs, hevents, hx⟩ :=
    Exec.stopped (S := soloSem sample passes) (c := ()) passes_refl hruns hchain
  have hmem : did sample (.rotate 1 "j" (markerSeconds loginPayload 0)) r ∈
      evs.map Prod.snd := by
    rw [hevents]
    exact List.mem_append_right _ List.mem_cons_self
  obtain ⟨⟨s₀, e⟩, hx', rfl⟩ := List.mem_map.mp hmem
  refine ⟨evs, s', hx, ⟨s₀, 1, "j", _, r, hx'⟩, ?_⟩
  rw [hclock]
  decide

/-- Breaking off behind the last read is free, and behind the rotation it is not. -/
theorem failed_refresh_free_iff_sample :
    (∃ evs s', Exec (soloSem sample passes) () loggedIn (serve sample (.refresh loginToken))
        evs none s' ∧
      verified sample loginToken 1 "j" ∈ evs.map Prod.snd ∧
      Free sample loginToken ((0 + sample.settings.ttl : Nat) : WithTop Nat) loggedIn s') ∧
    ∃ evs s', Exec (soloSem sample passes) () loggedIn (serve sample (.refresh loginToken))
        evs none s' ∧
      Rotated sample evs ∧
      ¬ Free sample loginToken ((0 + sample.settings.ttl : Nat) : WithTop Nat) loggedIn s' := by
  obtain ⟨evs₁, s₁, hx₁, hevents, hdue₁⟩ := refresh_front
  obtain ⟨evs₂, s₂, hx₂, hrotated, hdue₂⟩ := refresh_rotated
  have hnot : ¬ Rotated sample evs₁ := by
    rintro ⟨s₀, u, j, ex, r, hmem⟩
    have hfront := List.mem_map_of_mem (f := Prod.snd) hmem
    rw [hevents] at hfront
    simp [refreshFront, verified] at hfront
  refine ⟨⟨evs₁, s₁, hx₁, ?_, (failed_refresh_free_iff presented_loggedIn hx₁ hdue₁).mpr hnot⟩,
    evs₂, s₂, hx₂, hrotated, fun hfree => ?_⟩
  · rw [hevents]
    simp [refreshFront, loginPayload]
  · exact (failed_refresh_free_iff presented_loggedIn hx₂ hdue₂).mp hfree hrotated

/-- The reply to the rotation is lost: the token is consumed and the user has no other. -/
theorem lost_rotation : ¬ ∀ evs s',
    Exec (soloSem sample passes) () loggedIn (serve sample (.refresh loginToken)) evs none s' →
      (s'.clock : WithTop Nat) < ((0 + sample.settings.ttl : Nat) : WithTop Nat) →
      Free sample loginToken ((0 + sample.settings.ttl : Nat) : WithTop Nat) loggedIn s' := by
  intro hall
  obtain ⟨evs, s', hx, hrotated, hdue⟩ := refresh_rotated
  exact not_free_of_rotated presented_loggedIn hx hdue hrotated (hall evs s' hx hdue)

end GreenCommunity.Auth
