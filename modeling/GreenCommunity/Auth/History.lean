import Mathlib.Data.List.Nodup
import GreenCommunity.Auth.Sequential

/-!
# The history of sessions

What a sequence of requests says about a session: which request issued it, and
which requests end it.  A request here takes no time, so each of its branches is a
path of events at one instant; `keeps_of_ended` and `session_of_issues` say what a
complete request does to the sessions, `refresh_branches` what a refresh answers.

The history speaks about sessions rather than texts: a request presents a session
if the token it presents decodes to the session's user and `jti`, so two texts
that decode alike stand for one token.
-/

namespace GreenCommunity.Auth

open GreenCommunity.Base
open GreenCommunity.Base.Redis

variable {Tok : Type} (d : Deps Tok)

/-- A request of the history. -/
abbrev Entered (Tok : Type) :=
  Served (Request Tok) Op Reply AppError (Response Tok) State

/-- Time passes and nothing else. -/
def passes (s s' : State) : Prop :=
  s.clock ≤ s'.clock ∧ s' = { s with clock := s'.clock }

theorem passes_refl (s : State) : passes s s := ⟨Nat.le_refl _, rfl⟩

theorem drift_of_passes {s s' : State} (h : passes s s') : drift s s' := by
  refine ⟨h.1, ?_⟩
  have huuids : s'.users = s.users := by rw [h.2]
  rw [huuids]
  exact h.2

/-- Requests that take no time. -/
abbrev instantSem : Sem Unit Op Reply State := soloSem d fun s s' => s' = s

/-! ## What the history says -/

/-- The request issued the refresh token `t`. -/
def Issues (t : Tok) (e : Entered Tok) : Prop :=
  ∃ issued, e.outcome = .ok (.tokens issued) ∧ issued.refreshToken = t

/-- The request was a refresh of the session, and it was accepted. -/
def Accepts (u : Nat) (j : String) (e : Entered Tok) : Prop :=
  ∃ token response, e.req = .refresh token ∧ ident d token = some (u, j) ∧
    e.outcome = .ok response

/-- The request was a logout from the session, with an unexpired token. -/
def LogsOut (u : Nat) (j : String) (e : Entered Tok) : Prop :=
  ∃ token p, e.req = .logout (some token) ∧ decodes d token e.start.clock = some p ∧
    p.userId = u ∧ p.jti = j

/-- Among the events is the log line of a compromise of the user. -/
def Alarm (u : Nat) (es : List AuthEvent) : Prop :=
  ∃ j state n, (⟨.log (.refreshTokenCompromiseDetected u j state n), ()⟩ : AuthEvent) ∈ es

/-- The request was a refresh of the user answered as a compromise. -/
def Compromises (u : Nat) (e : Entered Tok) : Prop :=
  (∃ token, e.req = .refresh token) ∧ Alarm u (e.events.map Prod.snd)

/-- The request ended every session of the user. -/
def RevokesAll (u : Nat) (e : Entered Tok) : Prop :=
  e.req = .logoutAll u ∨ Compromises u e

/-- The request ended the session. -/
def EndsSession (u : Nat) (j : String) (e : Entered Tok) : Prop :=
  Accepts d u j e ∨ LogsOut d u j e ∨ RevokesAll u e

/-- The JWT of the token is before its `exp`. -/
def Unexpired (t : Tok) (now : Nat) : Prop :=
  ∃ claims, d.jwtDecode t = some claims ∧ now < ticks claims.exp

/-- The owner of every active token is an active user. -/
def Owned (s : State) : Prop :=
  ∀ u j, (s.token u j).isSome → ∃ v, getById s u = some v ∧ v.userIsActive = true

/-- No two users share an id. -/
def DistinctUsers (s : State) : Prop :=
  (s.users.map User.userId).Nodup

/-- A state in which requests can begin: nothing has been rotated yet. -/
structure Orderly (s : State) : Prop where
  sound : Sound d [] s
  owned : Owned s
  distinct : DistinctUsers s

/-! ## The effect of a request -/

section Effects

variable {d} {s s' : State}

/-- Clock and users are kept and identifiers are only added. -/
structure Still (s s' : State) : Prop where
  clock : s'.clock = s.clock
  users : s'.users = s.users
  uuids : ∀ {j}, j ∈ s.uuids → j ∈ s'.uuids

theorem Still.refl (s : State) : Still s s := ⟨rfl, rfl, id⟩

theorem Still.trans {s'' : State} (h : Still s s') (h' : Still s' s'') : Still s s'' :=
  ⟨h'.clock.trans h.clock, h'.users.trans h.users, fun hj => h'.uuids (h.uuids hj)⟩

theorem still_step {e : AuthEvent} (h : step d s e.op e.reply s') : Still s s' := by
  refine ⟨step_clock h, ?_, uuids_step h⟩
  obtain ⟨op, r⟩ := e
  cases op with
  | log entry => rw [show s' = s from h]
  | now | getById | getByEmail | uuid4 | redis | pipeline => rw [h.2]

/-- Events in sequence at one instant. -/
abbrev Path (d : Deps Tok) (s : State) (es : List AuthEvent) (s' : State) : Prop :=
  Chain (instantSem d) s (es.map (.call ())) s'

theorem still_path : ∀ {es : List AuthEvent} {s : State}, Path d s es s' → Still s s' := by
  intro es
  induction es with
  | nil =>
      intro s h
      rw [chain_nil.mp h]
      exact .refl s
  | cons e es ih =>
      intro s h
      obtain ⟨s₁, hstep, hrest⟩ := chain_cons.mp h
      exact (still_step hstep).trans (ih hrest)

theorem path_idle : ∀ {es : List AuthEvent} {s : State}, (∀ e ∈ es, Idle d e.op) →
    Path d s es s' → SameTables s s' := by
  intro es
  induction es with
  | nil =>
      intro s _ h
      rw [chain_nil.mp h]
      exact .refl s
  | cons e es ih =>
      intro s hidle h
      obtain ⟨s₁, hstep, hrest⟩ := chain_cons.mp h
      exact ((hidle e (by simp)).1 _ _ _ hstep).trans
        (ih (fun e' he' => hidle e' (by simp [he'])) hrest)

theorem path_append {a b : List AuthEvent} :
    Path d s (a ++ b) s' ↔ ∃ s₁, Path d s a s₁ ∧ Path d s₁ b s' := by
  rw [Path, List.map_append, chain_append]

theorem path_cons {e : AuthEvent} {es : List AuthEvent} :
    Path d s (e :: es) s' ↔ ∃ s₁, step d s e.op e.reply s₁ ∧ Path d s₁ es s' :=
  chain_cons

theorem path_one {e : AuthEvent} : Path d s [e] s' ↔ step d s e.op e.reply s' := by
  constructor
  · intro h
    obtain ⟨s₁, hstep, hrest⟩ := chain_cons.mp h
    rwa [chain_nil.mp hrest]
  · exact fun h => .call h .nil

theorem token_act_of_not_kills {a : Act} {r : Reply (.pipeline (a.cmds d))} {u : Nat}
    {j : String} (ha : a.Timed) (h : step d s (.pipeline (a.cmds d)) r s')
    (hsave : ∀ t, a ≠ .save u j t) (hkills : ¬ a.Kills u j) :
    s'.token u j = s.token u j := by
  refine Option.ext fun x => ?_
  rw [token_act ha h]
  constructor
  · rintro (⟨t, ht, _⟩ | ⟨_, _, hx⟩)
    · exact absurd ht (hsave t)
    · exact hx
  · exact fun hx => Or.inr ⟨hsave, hkills, hx⟩

theorem token_act_of_kills {a : Act} {r : Reply (.pipeline (a.cmds d))} {u : Nat}
    {j : String} (ha : a.Timed) (h : step d s (.pipeline (a.cmds d)) r s')
    (hkills : a.Kills u j) : s'.token u j = none := by
  rw [Option.eq_none_iff_forall_not_mem]
  intro x hx
  rcases (token_act ha h u j x).mp hx with ⟨t, rfl, _⟩ | ⟨_, hk, _⟩
  · exact hkills
  · exact hk hkills

/-- Issuing adds one session under a new name and keeps the others. -/
structure Session (d : Deps Tok) (u : Nat) (j : String) (s s' : State) : Prop where
  fresh : j ∉ s.uuids
  spent : j ∈ s'.uuids
  token : s'.token u j = some ⟨.str (hashToken d (refreshJwt d u j s.clock)),
    ((s.clock + d.settings.ttl : Nat) : WithTop Nat)⟩
  kept : ∀ {v k}, ¬ (v = u ∧ k = j) → s'.token v k = s.token v k

theorem path_issue {u : Nat} {es : List AuthEvent} {j : String}
    {issued : IssuedTokens Tok} (hi : IssueTrace d u es j issued) (h : Path d s es s') :
    Session d u j s s' ∧ issued.refreshToken = refreshJwt d u j s.clock := by
  cases hi with
  | mk n₁ n₂ j₁ j r =>
      obtain ⟨s₁, hnow₁, h₁⟩ := path_cons.mp h
      obtain ⟨s₂, hdraw₁, h₂⟩ := path_cons.mp h₁
      obtain ⟨s₃, hnow₂, h₃⟩ := path_cons.mp h₂
      obtain ⟨s₄, hdraw, h₄⟩ := path_cons.mp h₃
      have hact := path_one.mp h₄
      obtain ⟨_, hs₁⟩ : n₁ = s.clock ∧ s₁ = s := hnow₁
      obtain ⟨_, hs₂⟩ : j₁ ∉ s₁.uuids ∧ s₂ = { s₁ with uuids := j₁ :: s₁.uuids } := hdraw₁
      obtain ⟨hn₂, hs₃⟩ : n₂ = s₂.clock ∧ s₃ = s₂ := hnow₂
      obtain ⟨hj, hs₄⟩ : j ∉ s₃.uuids ∧ s₄ = { s₃ with uuids := j :: s₃.uuids } := hdraw
      have hclock : s₄.clock = s.clock := by rw [hs₄, hs₃, hs₂, hs₁]
      have hnew : j ∉ j₁ :: s.uuids := by rwa [hs₃, hs₂, hs₁] at hj
      have hold : ∀ v k, s₄.token v k = s.token v k := by
        intro v k
        rw [hs₄, hs₃, hs₂, hs₁]
        rfl
      obtain rfl : n₂ = s.clock := by rw [hn₂, hs₂, hs₁]
      refine ⟨⟨fun hmem => hnew (List.mem_cons_of_mem _ hmem), ?_, ?_, ?_⟩, rfl⟩
      · refine uuids_step (e := did d _ r) hact ?_
        rw [hs₄]
        exact List.mem_cons_self
      · refine (token_act (a := .save u j _) trivial hact u j _).mpr
          (Or.inl ⟨_, rfl, ?_⟩)
        rw [hclock]
      · intro v k hk
        rw [← hold]
        refine token_act_of_not_kills (a := .save u j _) trivial hact ?_ id
        rintro t ⟨⟩
        exact hk ⟨rfl, rfl⟩

theorem ident_refreshJwt (u : Nat) (j : String) (n : Nat) :
    ident d (refreshJwt d u j n) = some (u, j) := by
  simp [ident, refreshJwt, d.jwtDecode_encode]

/-- A session other than the issued one is kept. -/
theorem kept_of_issue {u : Nat} {es : List AuthEvent} {j : String}
    {issued : IssuedTokens Tok} (hi : IssueTrace d u es j issued) (h : Path d s es s')
    {v : Nat} {k : String} (hne : ident d issued.refreshToken ≠ some (v, k)) :
    s'.token v k = s.token v k := by
  obtain ⟨hnew, hjwt⟩ := path_issue hi h
  refine hnew.kept ?_
  rintro ⟨rfl, rfl⟩
  exact hne (by rw [hjwt, ident_refreshJwt])

/-- A mass revocation ends the user's sessions and no others. -/
theorem path_revokeAll {u : Nat} {es : List AuthEvent} {jtis : List String}
    (hs : Indexed s) (hr : RevokeAllTrace d u es jtis) (h : Path d s es s') (v : Nat)
    (k : String) : s'.token v k = if v = u then none else s.token v k := by
  cases hr with
  | mk jtis r =>
      obtain ⟨s₁, hread, h⟩ := path_cons.mp h
      have hact := path_one.mp h
      have hsame : SameTables s s₁ :=
        (idle_read (d := d) (c := .smembers (indexKey u)) trivial rfl).1 _ _ _ hread
      by_cases hk : v = u ∧ k ∈ jtis
      · rw [if_pos hk.1]
        exact token_act_of_kills (a := .revokeAll u jtis) trivial hact hk
      · rw [token_act_of_not_kills (a := .revokeAll u jtis) trivial hact nofun hk,
          hsame.token]
        split
        · rename_i hv
          rw [← Option.not_isSome_iff_eq_none]
          intro hlive
          refine hk ⟨hv, hs.smembers hread ?_⟩
          rwa [← hv]
        · rfl

/-- What a verdict of the verification says about the tables. -/
def Verdict (d : Deps Tok) (token : Tok) (s : State) (u : Nat) (j : String) :
    TokenState → Prop
  | .active => ∃ t, s.token u j = some ⟨.str (hashToken d token), t⟩
  | .forged => ∃ h t, s.token u j = some ⟨.str h, t⟩ ∧ h ≠ hashToken d token
  | .reused => (∀ h t, s.token u j ≠ some ⟨.str h, t⟩) ∧ (s.used u j).isSome
  | .unknown => ∀ h t, s.token u j ≠ some ⟨.str h, t⟩

theorem stored_of_get {u : Nat} {j h : String}
    (hs : step d s (.redis (.get (tokenKey u j))) (some h) s') :
    ∃ t, s.token u j = some ⟨.str h, t⟩ := by
  have hreply := hs.1
  rw [State.token]
  cases hk : purge s.clock s.redis (tokenKey u j) with
  | none => simp [exec, Cmd.run, hk] at hreply
  | some e =>
      obtain ⟨value, t⟩ := e
      cases value with
      | set ms => simp [exec, Cmd.run, hk] at hreply
      | str h' =>
          simp only [exec, Cmd.run, hk, Option.bind_some, Option.some.injEq] at hreply
          exact ⟨t, by rw [hreply]⟩

theorem missing_of_get {u : Nat} {j : String}
    (hs : step d s (.redis (.get (tokenKey u j))) none s') (h : String) (t : WithTop Nat) :
    s.token u j ≠ some ⟨.str h, t⟩ := by
  intro hk
  have hreply := hs.1
  rw [State.token] at hk
  simp [exec, Cmd.run, hk] at hreply

theorem path_verify {token : Tok} {u : Nat} {j : String} {vs : List AuthEvent}
    {state : TokenState} (hv : VerifyTrace d token u j vs state) (h : Path d s vs s') :
    SameTables s s' ∧ Verdict d token s u j state := by
  have hidle : ∀ e ∈ vs, Idle d e.op := by
    cases hv <;> simp [verified, idle_read (d := d) (c := .get _) trivial rfl,
      idle_read (d := d) (c := .exists _) trivial rfl]
  refine ⟨path_idle hidle h, ?_⟩
  cases hv with
  | active => exact stored_of_get (path_one.mp h)
  | forged h' hne =>
      obtain ⟨t, ht⟩ := stored_of_get (path_one.mp h)
      exact ⟨h', t, ht, hne⟩
  | reused =>
      obtain ⟨s₁, hget, h⟩ := path_cons.mp h
      obtain ⟨hreply, _⟩ := path_one.mp h
      refine ⟨missing_of_get hget, ?_⟩
      have hsame : SameTables s s₁ :=
        (idle_read (d := d) (c := .get _) trivial rfl).1 _ _ _ hget
      rw [← hsame.used]
      exact hreply.symm
  | unknown =>
      obtain ⟨s₁, hget, _⟩ := path_cons.mp h
      exact missing_of_get hget

/-! ## What a request does to a session -/

theorem endsSession_refresh {token : Tok} {evs : List TimedEvent}
    {o : Except AppError (Response Tok)} {u : Nat} {j : String} :
    EndsSession d u j ⟨.refresh token, s, evs, o⟩ ↔
      (ident d token = some (u, j) ∧ ∃ response, o = .ok response) ∨
        Alarm u (evs.map Prod.snd) := by
  constructor
  · rintro (⟨_, response, ⟨⟩, hid, ho⟩ | ⟨_, _, hreq, _⟩ | hreq | ⟨_, halarm⟩)
    · exact Or.inl ⟨hid, response, ho⟩
    · cases hreq
    · cases hreq
    · exact Or.inr halarm
  · rintro (⟨hid, response, ho⟩ | halarm)
    · exact Or.inl ⟨token, response, rfl, hid, ho⟩
    · exact Or.inr (Or.inr (Or.inr ⟨⟨token, rfl⟩, halarm⟩))

theorem endsSession_logout {token : Tok} {evs : List TimedEvent}
    {o : Except AppError (Response Tok)} {u : Nat} {j : String} :
    EndsSession d u j ⟨.logout (some token), s, evs, o⟩ ↔
      ∃ p, decodes d token s.clock = some p ∧ p.userId = u ∧ p.jti = j := by
  constructor
  · rintro (⟨_, _, hreq, _⟩ | ⟨_, p, ⟨⟩, hp⟩ | hreq | ⟨⟨_, hreq⟩, _⟩)
    · cases hreq
    · exact ⟨p, hp⟩
    · cases hreq
    · cases hreq
  · exact fun ⟨p, hp⟩ => Or.inr (Or.inl ⟨token, p, rfl, hp⟩)

/-- A session survives a request, with its entry unchanged, unless the request
ended it. -/
def Keeps (d : Deps Tok) (e : Entered Tok) (s' : State) (u : Nat) (j : String) : Prop :=
  ∀ x, s'.token u j = some x ↔ e.start.token u j = some x ∧ ¬ EndsSession d u j e

theorem keeps_of_iff {e : Entered Tok} {u : Nat} {j : String} {Q : Prop}
    (hQ : EndsSession d u j e ↔ Q) (hdead : Q → s'.token u j = none)
    (hkept : ¬ Q → s'.token u j = e.start.token u j) : Keeps d e s' u j := by
  intro x
  rw [hQ]
  by_cases h : Q
  · simp [h, hdead h]
  · simp [h, hkept h]

/-- The owner of an active token is there and active. -/
private theorem no_inactive (howned : Owned s) {token : Tok} {n : Nat} {p : TokenPayload}
    {user : Option User} (huser : ∀ u, user = some u → u.userIsActive = false)
    {rs : List AuthEvent} :
    ¬ Path d s (⟨.now, n⟩ :: verified d token p.userId p.jti ::
      ⟨.getById p.userId, user⟩ :: rs) s' := by
  intro hp
  obtain ⟨s₁, hnow, h₁⟩ := path_cons.mp hp
  obtain ⟨s₂, hget, h₂⟩ := path_cons.mp h₁
  obtain ⟨s₃, ⟨huser', _⟩, _⟩ := path_cons.mp h₂
  obtain ⟨_, hs₁⟩ : n = s.clock ∧ s₁ = s := hnow
  have hlive : (s.token p.userId p.jti).isSome := by
    rw [← hs₁]
    exact live_of_get d hget
  obtain ⟨v, hv, hactive⟩ := howned _ _ hlive
  have hfound : user = some v := by
    rw [← hv]
    simpa [getById, (still_step hget).users, hs₁] using huser'
  have hinactive := huser v hfound
  rw [hactive] at hinactive
  cases hinactive

private theorem keeps_refresh {token : Tok} {es : List AuthEvent} {evs : List TimedEvent}
    {o : Except AppError (IssuedTokens Tok)} (h : RefreshTrace d token es o)
    (hes : evs.map Prod.snd = es) (hp : Path d s es s') (hs : Indexed s) (howned : Owned s)
    {u : Nat} {j : String}
    (hnew : ∀ issued, o = .ok issued → ident d issued.refreshToken ≠ some (u, j)) :
    Keeps d ⟨.refresh token, s, evs, o.map .tokens⟩ s' u j := by
  cases h with
  | invalid n hdec =>
      refine keeps_of_iff (Q := False) ?_ False.elim fun _ => ?_
      · simp [endsSession_refresh, hes, Alarm, Except.map]
      · exact (path_idle (by simp [idle_now]) hp).token u j
  | @compromised n p hdec vs rs state jtis hstate hv hr =>
      have hQ : EndsSession d u j ⟨.refresh token, s, evs, .error sessionExpired⟩ ↔
          u = p.userId := by
        have hvs : ¬ Alarm u vs := by cases hv <;> simp [Alarm, verified]
        have hrs : ¬ Alarm u rs := by cases hr; simp [Alarm]
        simp only [Alarm, not_exists] at hvs hrs
        simp [endsSession_refresh, hes, Alarm, hvs, hrs]
      rw [List.cons_append, List.cons_append, path_cons] at hp
      obtain ⟨s₁, hnow, hp⟩ := hp
      obtain ⟨_, rfl⟩ : n = s.clock ∧ s₁ = s := hnow
      obtain ⟨s₃, hp, hlog⟩ := path_append.mp hp
      obtain ⟨s₂, hverify, hrevoke⟩ := path_append.mp hp
      obtain rfl : s' = s₃ := path_one.mp hlog
      obtain ⟨hsame, _⟩ := path_verify hv hverify
      have hafter := path_revokeAll (hs.same hsame) hr hrevoke u j
      refine keeps_of_iff hQ (fun hu => by rw [hafter, if_pos hu]) fun hu => ?_
      rw [hafter, if_neg hu, hsame.token]
  | @notFound n p hdec vs hv =>
      refine keeps_of_iff (Q := False) ?_ False.elim fun _ => ?_
      · cases hv
        simp [endsSession_refresh, hes, Alarm, Except.map]
      · refine (path_idle ?_ hp).token u j
        cases hv
        simp [idle_now, idle_log, idle_read (d := d) (c := .get _) trivial rfl,
          idle_read (d := d) (c := .exists _) trivial rfl]
  | @inactive n p hdec user huser rs jtis hr =>
      exact absurd hp (no_inactive howned huser)
  | @rotated n n' p hdec user huser r is j' issued hi =>
      have hident := ident_of_decodes hdec
      have hQ : EndsSession d u j
            ⟨.refresh token, s, evs, .ok (.tokens issued)⟩ ↔ p.userId = u ∧ p.jti = j := by
        have his : ¬ Alarm u is := by cases hi; simp [Alarm]
        simp only [Alarm, not_exists] at his
        simp [endsSession_refresh, hes, Alarm, his, hident, verified]
      obtain ⟨s₁, hfront, hissue⟩ := path_append.mp hp
      obtain ⟨s₂, hreads, hrest⟩ := path_append (a := [_, _, _, _]) (b := [_, _]).mp hfront
      obtain ⟨s₃, hrotate, hlog⟩ := path_cons.mp hrest
      have hsame : SameTables s s₂ := path_idle (by
        simp [verified, idle_now, idle_getById, idle_read (d := d) (c := .get _) trivial rfl])
          hreads
      obtain rfl : s₁ = s₃ := path_one.mp hlog
      have hkept := kept_of_issue hi hissue (hnew issued rfl)
      have htimed : (Act.rotate p.userId p.jti (markerSeconds p n')).Timed := by
        show 0 < markerSeconds p n'
        unfold markerSeconds
        omega
      refine keeps_of_iff hQ ?_ fun hne => ?_
      · rintro ⟨rfl, rfl⟩
        rw [hkept]
        exact token_act_of_kills htimed hrotate ⟨rfl, rfl⟩
      · rw [hkept, token_act_of_not_kills htimed hrotate (by simp), hsame.token]
        rintro ⟨rfl, rfl⟩
        exact hne ⟨rfl, rfl⟩

theorem keeps_of_ended {req : Request Tok} {es : List AuthEvent} {evs : List TimedEvent}
    {o : Except AppError (Response Tok)} (h : Ended d req es o)
    (hes : evs.map Prod.snd = es) (hp : Path d s es s') (hs : Indexed s) (howned : Owned s)
    {u : Nat} {j : String}
    (hnew : ∀ t, Issues t ⟨req, s, evs, o⟩ → ident d t ≠ some (u, j)) :
    Keeps d ⟨req, s, evs, o⟩ s' u j := by
  have hissued : ∀ {o' : Except AppError (IssuedTokens Tok)}, o = o'.map .tokens →
      ∀ issued, o' = .ok issued → ident d issued.refreshToken ≠ some (u, j) := by
    rintro _ rfl issued rfl
    exact hnew _ ⟨issued, rfl, rfl⟩
  cases h with
  | refresh h => exact keeps_refresh h hes hp hs howned (hissued rfl)
  | login h =>
      refine keeps_of_iff (Q := False) ?_ nofun fun _ => ?_
      · simp [EndsSession, Accepts, LogsOut, RevokesAll, Compromises]
      · cases h with
        | refused hidle => exact (path_idle hidle hp).token u j
        | issued hidle email hread huser hi =>
            obtain ⟨s₁, hpre, hissue⟩ := path_append.mp hp
            rw [kept_of_issue hi hissue (hissued rfl _ rfl), (path_idle hidle hpre).token]
  | logout h =>
      cases h with
      | absent =>
          refine keeps_of_iff (Q := False) ?_ nofun fun _ => ?_
          · simp [EndsSession, Accepts, LogsOut, RevokesAll, Compromises]
          · rw [chain_nil.mp hp]
      | invalid token n hdec =>
          obtain ⟨hn, rfl⟩ : n = s.clock ∧ s' = s := path_one.mp hp
          refine keeps_of_iff (Q := False) ?_ nofun fun _ => rfl
          simp [endsSession_logout, ← hn, hdec]
      | @revoked token n p hdec r =>
          obtain ⟨s₁, hnow, h₁⟩ := path_cons.mp hp
          obtain ⟨s₂, hrevoke, hlog⟩ := path_cons.mp h₁
          obtain ⟨hn, hs₁⟩ : n = s.clock ∧ s₁ = s := hnow
          rw [hs₁] at hrevoke
          obtain rfl : s' = s₂ := path_one.mp hlog
          refine keeps_of_iff (Q := p.userId = u ∧ p.jti = j) ?_ ?_ fun hne => ?_
          · simp [endsSession_logout, ← hn, hdec]
          · rintro ⟨rfl, rfl⟩
            exact token_act_of_kills (a := .revoke p.userId p.jti) trivial hrevoke ⟨rfl, rfl⟩
          · refine token_act_of_not_kills (a := .revoke p.userId p.jti) trivial hrevoke
              nofun ?_
            rintro ⟨rfl, rfl⟩
            exact hne ⟨rfl, rfl⟩
  | @logoutAll v es jtis hr =>
      obtain ⟨s₁, hrevoke, hlog⟩ := path_append.mp hp
      obtain rfl : s' = s₁ := path_one.mp hlog
      have hafter := path_revokeAll hs hr hrevoke u j
      refine keeps_of_iff (Q := u = v) ?_ (fun hu => by rw [hafter, if_pos hu])
        fun hu => by rw [hafter, if_neg hu]
      simp [EndsSession, Accepts, LogsOut, RevokesAll, Compromises, eq_comm]

/-! ## What a request issues -/

theorem getById_of_mem (hd : DistinctUsers s) {v : User} (hv : v ∈ s.users) :
    getById s v.userId = some v := by
  cases hfind : getById s v.userId with
  | none =>
      have hne := List.find?_eq_none.mp hfind v hv
      simp at hne
  | some w =>
      have hid : w.userId = v.userId := by simpa using List.find?_some hfind
      rw [List.inj_on_of_nodup_map hd (List.mem_of_find?_eq_some hfind) hv hid]

theorem path_mem {es : List AuthEvent} {e : AuthEvent} :
    ∀ {s : State}, Path d s es s' → e ∈ es →
      ∃ s₁ s₂, Still s s₁ ∧ step d s₁ e.op e.reply s₂ := by
  induction es with
  | nil => exact nofun
  | cons e' es ih =>
      intro s h he
      obtain ⟨s₁, hstep, hrest⟩ := path_cons.mp h
      rcases List.mem_cons.mp he with rfl | he
      · exact ⟨s, s₁, .refl s, hstep⟩
      · obtain ⟨s₂, s₃, hstill, hstep'⟩ := ih hrest he
        exact ⟨s₂, s₃, (still_step hstep).trans hstill, hstep'⟩

/-- A request that issues a token creates its session for an active user. -/
theorem session_of_issues {req : Request Tok} {es : List AuthEvent}
    {evs : List TimedEvent} {o : Except AppError (Response Tok)} (h : Ended d req es o)
    (hp : Path d s es s') (hd : DistinctUsers s) {t : Tok}
    (ht : Issues t ⟨req, s, evs, o⟩) :
    ∃ u j s₁, Still s s₁ ∧ Session d u j s₁ s' ∧ t = refreshJwt d u j s.clock ∧
      ∃ v, getById s u = some v ∧ v.userIsActive = true := by
  obtain ⟨issued, ho, rfl⟩ := ht
  cases h with
  | logout | logoutAll => cases ho
  | login h =>
      cases h with
      | refused => cases ho
      | @issued pre hidle email user hread huser is j issued' hi =>
          cases ho
          obtain ⟨s₁, hpre, hissue⟩ := path_append.mp hp
          obtain ⟨hnew, hjwt⟩ := path_issue hi hissue
          have hstill := still_path hpre
          rw [hstill.clock] at hjwt
          obtain ⟨s₂, _, hstill', hreply, _⟩ := path_mem hpre hread
          have hmem : user ∈ s.users := by
            rw [← hstill'.users]
            exact List.mem_of_find?_eq_some hreply.symm
          exact ⟨user.userId, j, s₁, hstill, hnew, hjwt, user, getById_of_mem hd hmem, huser⟩
  | refresh h =>
      cases h with
      | invalid | compromised | notFound | inactive => cases ho
      | @rotated n n' p hdec user huser r is j issued' hi =>
          cases ho
          obtain ⟨s₁, hfront, hissue⟩ := path_append.mp hp
          obtain ⟨hnew, hjwt⟩ := path_issue hi hissue
          have hstill := still_path hfront
          rw [hstill.clock] at hjwt
          obtain ⟨s₂, _, hstill', hreply, _⟩ :=
            path_mem (e := ⟨.getById p.userId, some user⟩) hfront (by simp)
          have hmem : user ∈ s.users := by
            rw [← hstill'.users]
            exact List.mem_of_find?_eq_some hreply.symm
          exact ⟨user.userId, j, s₁, hstill, hnew, hjwt, user, getById_of_mem hd hmem, huser⟩

/-! ## What a refresh answers -/

theorem unexpired_of_decodes {token : Tok} {now : Nat} {p : TokenPayload}
    (h : decodes d token now = some p) : Unexpired d token now := by
  simp only [decodes, Option.bind_eq_some_iff] at h
  obtain ⟨claims, hclaims, h⟩ := h
  split at h
  · cases h
  · rename_i hok
    exact ⟨claims, hclaims, by omega⟩

section Answers

variable {t : Tok} {u n : Nat} {j : String} {es : List AuthEvent}
  {o : Except AppError (IssuedTokens Tok)} (ht : t = refreshJwt d u j n) (hn : n ≤ s.clock)
  (hentry : ∀ x, s.token u j = some x → x.value = .str (hashToken d t))
  (h : RefreshTrace d t es o) (hp : Path d s es s')

include ht hn hentry h hp

/-- The branches of a refresh of an issued token: it is accepted, or its session is
not active, or it has expired. -/
theorem refresh_branches (howned : Owned s) :
    (Unexpired d t s.clock ∧ (s.token u j).isSome ∧ (∃ issued, o = .ok issued) ∧
      ∀ v, ¬ Alarm v es) ∨
    (¬ (Unexpired d t s.clock ∧ (s.token u j).isSome) ∧ (∀ issued, o ≠ .ok issued) ∧
      ((s.used u j).isSome ∨ (∀ v, ¬ Alarm v es) ∧ SameTables s s')) := by
  have hident : ∀ {m p}, decodes d t m = some p → p.userId = u ∧ p.jti = j := by
    intro m p hdec
    have hid := ident_of_decodes hdec
    rw [ht, ident_refreshJwt] at hid
    cases hid
    exact ⟨rfl, rfl⟩
  have hmissing : (∀ h t, s.token u j ≠ some ⟨.str h, t⟩) → ¬ (s.token u j).isSome := by
    intro hnone hlive
    obtain ⟨⟨value, t⟩, hx⟩ := Option.isSome_iff_exists.mp hlive
    obtain rfl := hentry _ hx
    exact hnone _ _ hx
  cases h with
  | invalid m hdec =>
      obtain ⟨rfl, rfl⟩ : m = s.clock ∧ s' = s := path_one.mp hp
      refine Or.inr ⟨?_, by simp, Or.inr ⟨fun v => by simp [Alarm], .refl _⟩⟩
      rintro ⟨⟨claims, hclaims, hexp⟩, _⟩
      rw [ht, refreshJwt, d.jwtDecode_encode] at hclaims
      cases hclaims
      rw [ht, decodes_refreshJwt hn hexp] at hdec
      cases hdec
  | @compromised m p hdec vs rs state jtis hstate hv hr =>
      obtain ⟨rfl, rfl⟩ := hident hdec
      rw [List.cons_append, List.cons_append, path_cons] at hp
      obtain ⟨s₁, hnow, hp⟩ := hp
      obtain ⟨_, rfl⟩ : m = s.clock ∧ s₁ = s := hnow
      obtain ⟨s₃, hp, hlog⟩ := path_append.mp hp
      obtain ⟨s₂, hverify, hrevoke⟩ := path_append.mp hp
      obtain ⟨_, hverdict⟩ := path_verify hv hverify
      rcases hstate with rfl | rfl
      · exact Or.inr ⟨fun h => hmissing hverdict.1 h.2, by simp, Or.inl hverdict.2⟩
      · obtain ⟨h', t', hx, hne⟩ := hverdict
        have hvalue := hentry _ hx
        cases hvalue
        exact absurd rfl hne
  | @notFound m p hdec vs hv =>
      obtain ⟨rfl, rfl⟩ := hident hdec
      obtain ⟨s₁, hnow, hrest⟩ := path_cons.mp hp
      obtain ⟨_, hs₁⟩ : m = s.clock ∧ s₁ = s := hnow
      obtain ⟨s₂, hverify, hlog⟩ := path_append.mp hrest
      obtain rfl : s' = s₂ := path_one.mp hlog
      rw [hs₁] at hverify
      obtain ⟨hsame, hverdict⟩ := path_verify hv hverify
      refine Or.inr ⟨fun h => hmissing hverdict h.2, by simp, Or.inr ⟨fun v => ?_, hsame⟩⟩
      cases hv
      simp [Alarm]
  | @inactive m p hdec user huser rs jtis hr =>
      exact absurd hp (no_inactive howned huser)
  | @rotated m n' p hdec user huser r is j' issued hi =>
      obtain ⟨rfl, rfl⟩ := hident hdec
      obtain ⟨s₁, hnow, hrest⟩ := path_cons.mp hp
      obtain ⟨hm, hs₁⟩ : m = s.clock ∧ s₁ = s := hnow
      obtain ⟨s₂, hget, _⟩ := path_cons.mp hrest
      refine Or.inl ⟨?_, ?_, ⟨issued, rfl⟩, fun v => ?_⟩
      · rw [← hm]
        exact unexpired_of_decodes hdec
      · rw [← hs₁]
        exact live_of_get d hget
      · cases hi
        simp [Alarm, verified]

end Answers

end Effects

end GreenCommunity.Auth
