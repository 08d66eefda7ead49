import GreenCommunity.Auth.Tables

/-!
# Which operations a request issues, and in which order

Everything a request does to the session tables is one of four pipelines, and
each pipeline stands in a fixed place of its request: a refresh rotates only a
token whose hash it has read, a new token is saved under a `jti` that the same
request drew just before, a mass deletion covers the set that was read right
before it.  `Rule` lists these places.  The traces list the events of a complete
request, branch by branch.  `serve_hist` proves both of every request, in every
environment.
-/

namespace GreenCommunity.Auth

open GreenCommunity.Base
open GreenCommunity.Base.Redis

variable {Tok : Type} (d : Deps Tok)

/-- An operation that leaves the session tables alone. -/
def Quiet (op : Op) : Prop :=
  ∀ s r s', step d s op r s' → SameTables s s'

/-- A quiet operation that is none of the store's pipelines. -/
def Idle (op : Op) : Prop :=
  Quiet d op ∧ ∀ a : Act, op ≠ .pipeline (a.cmds d)

variable {d}

/-! ## Idle operations -/

private theorem idle_of_same {op : Op}
    (h : ∀ s r s', step d s op r s' → s'.clock = s.clock ∧ s'.redis = s.redis)
    (hop : ∀ cs, op ≠ .pipeline cs) : Idle d op := by
  refine ⟨fun s r s' hs => sameTables_of_keys fun k _ => ?_, fun a => hop _⟩
  obtain ⟨hclock, hredis⟩ := h s r s' hs
  rw [hclock, hredis]

theorem idle_now : Idle d .now :=
  idle_of_same (fun _ _ _ h => by rw [h.2]; exact ⟨rfl, rfl⟩) fun _ => nofun

theorem idle_uuid4 : Idle d .uuid4 :=
  idle_of_same (fun _ _ _ h => by rw [h.2]; exact ⟨rfl, rfl⟩) fun _ => nofun

theorem idle_getById (u : Nat) : Idle d (.getById u) :=
  idle_of_same (fun _ _ _ h => by rw [h.2]; exact ⟨rfl, rfl⟩) fun _ => nofun

theorem idle_getByEmail (e : String) : Idle d (.getByEmail e) :=
  idle_of_same (fun _ _ _ h => by rw [h.2]; exact ⟨rfl, rfl⟩) fun _ => nofun

theorem idle_log (e : LogEntry) : Idle d (.log e) :=
  idle_of_same (fun _ _ _ h => by rw [h]; exact ⟨rfl, rfl⟩) fun _ => nofun

/-- A command whose writes avoid the session keys. -/
theorem idle_redis {c : Cmd} (hc : c.Timed)
    (h : ∀ k, SessionKey k → k ∉ c.writes) : Idle d (.redis c) := by
  refine ⟨?_, fun a => nofun⟩
  rintro s r s' ⟨_, rfl⟩
  refine sameTables_of_keys fun k hk => ?_
  show purge s.clock (exec s.clock s.redis c).2 k = _
  rw [purge_exec _ hc]
  exact run_frame (h k hk) _ _

theorem idle_read {c : Cmd} (hc : c.Timed) (h : c.writes = []) :
    Idle d (.redis c) :=
  idle_redis hc fun k _ hk => by simp [h] at hk

theorem idle_hit {email clientIp key : String}
    (hkey : key ∈ rateLimitKeys d email clientIp) :
    Idle d (.pipeline (hitCmds key d.settings.loginRateLimitWindowSeconds)) := by
  constructor
  · rintro s r s' ⟨_, rfl⟩
    refine sameTables_of_keys fun k hk => ?_
    have htimed : ∀ c ∈ hitCmds key d.settings.loginRateLimitWindowSeconds,
        c.Timed := by
      simpa [hitCmds, Cmd.Timed] using
        Nat.lt_of_lt_of_le Nat.one_pos d.settings.loginRateLimitWindowSeconds_pos
    show purge s.clock (pipeline s.clock s.redis _).2 k = _
    rw [purge_pipeline _ htimed]
    refine effect_frame _ _ _ fun c hc => ?_
    have hne := rateLimitKey_ne hkey hk
    simp only [hitCmds, List.mem_cons, List.not_mem_nil, or_false] at hc
    rcases hc with rfl | rfl <;> simpa [Cmd.writes] using hne
  · intro a ha
    injection ha with ha
    cases a with
    | save | rotate | revoke =>
        simp [hitCmds, Act.cmds, saveCmds, rotateCmds, revokeCmds] at ha
    | revokeAll u jtis =>
        have hmem : Cmd.incr key ∈ revokeAllCmds u jtis := by
          rw [← show _ = revokeAllCmds u jtis from ha]
          exact List.mem_cons_self
        obtain ⟨keys, hkeys⟩ := mem_revokeAllCmds hmem
        cases hkeys

theorem idle_reset {email clientIp key : String}
    (hkey : key ∈ rateLimitKeys d email clientIp) :
    Idle d (.redis (.del [key])) :=
  idle_redis trivial fun k hk => by
    simpa [Cmd.writes] using rateLimitKey_ne hkey hk

/-! ## Decoding -/

variable (d)

/-- `decode_token(token, TokenType.REFRESH)` at a given instant. -/
def decodes (token : Tok) (now : Nat) : Option TokenPayload :=
  (d.jwtDecode token).bind fun claims =>
    if now < ticks claims.iat ∨ ticks claims.exp ≤ now ∨
        claims.type ≠ TokenType.refresh.value then none
    else claims.sub.toNat?.map fun userId =>
      { userId := userId
        tokenType := .refresh
        jti := claims.jti
        expiresAt := ticks claims.exp }

theorem decodeToken_refresh (token : Tok) :
    decodeToken d token .refresh = .call .now fun now =>
      match decodes d token now with
      | none => .raise invalidToken
      | some payload => .ret payload := by
  simp only [decodeToken, decodes, request, Prog.request_bind]
  congr 1
  funext now
  cases d.jwtDecode token with
  | none => rfl
  | some claims =>
      simp only [Option.bind_some]
      by_cases h₁ : now < ticks claims.iat
      · simp [h₁]
      by_cases h₂ : ticks claims.exp ≤ now
      · simp [h₁, h₂]
      by_cases h₃ : claims.type ≠ TokenType.refresh.value
      · simp [h₁, h₂, h₃]
      · simp only [h₁, h₂, h₃, if_false, or_self]
        cases claims.sub.toNat? <;> rfl

/-- The user and `jti` a token names, if it decodes. -/
def ident (token : Tok) : Option (Nat × String) :=
  (d.jwtDecode token).bind fun claims =>
    claims.sub.toNat?.map fun userId => (userId, claims.jti)

variable {d}

theorem ident_of_decodes {token : Tok} {now : Nat} {p : TokenPayload}
    (h : decodes d token now = some p) : ident d token = some (p.userId, p.jti) := by
  simp only [decodes, Option.bind_eq_some_iff] at h
  obtain ⟨claims, hclaims, h⟩ := h
  split at h
  · simp at h
  · obtain ⟨userId, huser, rfl⟩ := Option.map_eq_some_iff.mp h
    simp [ident, hclaims, huser]

/-! ## Rules -/

variable (d)

/-- The event of a pipeline. -/
abbrev did (a : Act) (r : Reply (.pipeline (a.cmds d))) : AuthEvent :=
  ⟨.pipeline (a.cmds d), r⟩

/-- The verification read that found the presented token's own hash. -/
def verified (token : Tok) (u : Nat) (j : String) : AuthEvent :=
  ⟨.redis (.get (tokenKey u j)), some (hashToken d token)⟩

/-- A read that found a hash found the token active. -/
theorem live_of_get {s s' : State} {u : Nat} {j h : String}
    (hs : step d s (.redis (.get (tokenKey u j))) (some h) s') :
    (s.token u j).isSome := by
  cases hk : s.token u j with
  | some e => rfl
  | none =>
      have hreply := hs.1
      rw [State.token] at hk
      simp [exec, Cmd.run, hk] at hreply

/-- Where a pipeline may stand in a request, given the request's earlier events. -/
def Rule (req : Request Tok) (past : List AuthEvent) : Act → Prop
  | .save u j _ =>
      ⟨.uuid4, j⟩ ∈ past ∧ (∀ e ∈ past, ∀ v k t, e.op ≠ .pipeline (saveCmds d v k t)) ∧
      ∀ token, req = .refresh token → ∃ v k user, ident d token = some (v, k) ∧
        verified d token v k ∈ past ∧ ⟨.getById v, some user⟩ ∈ past ∧ u = user.userId
  | .rotate u j ex =>
      0 < ex ∧ (∀ e ∈ past, e.op ≠ .uuid4 ∧ ∀ cs, e.op ≠ .pipeline cs) ∧
      ∃ token, req = .refresh token ∧ ident d token = some (u, j) ∧
        verified d token u j ∈ past
  | .revoke u j => ∃ token, req = .logout (some token) ∧ ident d token = some (u, j)
  | .revokeAll u jtis =>
      ∃ past', past = past' ++ [⟨.redis (.smembers (indexKey u)), jtis⟩]

/-- A pipeline of the store stands where the rule allows; the rest is quiet. -/
structure Obeys (rule : List AuthEvent → Act → Prop) (past : List AuthEvent)
    (e : AuthEvent) : Prop where
  rule : ∀ a : Act, e.op = .pipeline (a.cmds d) → rule past a
  quiet : (∀ a : Act, e.op ≠ .pipeline (a.cmds d)) → Quiet d e.op

/-- The events of a request. -/
abbrev Allowed (req : Request Tok) : List AuthEvent → AuthEvent → Prop :=
  Obeys d (Rule d req)

variable {d} {rule : List AuthEvent → Act → Prop} {past : List AuthEvent}

theorem Rule.timed {req : Request Tok} {a : Act} (h : Rule d req past a) : a.Timed := by
  cases a with
  | rotate u j ex => exact h.1
  | save | revoke | revokeAll => trivial

theorem obeys_idle {e : AuthEvent} (h : Idle d e.op) : Obeys d rule past e where
  rule a ha := absurd ha (h.2 a)
  quiet _ := h.1

theorem obeys_act {a : Act} {r : Reply (.pipeline (a.cmds d))} (h : rule past a) :
    Obeys d rule past (did d a r) where
  rule b hb := by
    injection hb with hb
    exact Act.cmds_inj hb ▸ h
  quiet hne := absurd rfl (hne a)

/-- What one event does to the tables: it is a pipeline in its place, or quiet. -/
theorem Obeys.cases {e : AuthEvent} {s s' : State} (h : Obeys d rule past e)
    (hs : step d s e.op e.reply s') :
    (∃ a r, e = did d a r ∧ rule past a ∧
      step d s (.pipeline (a.cmds d)) r s') ∨
    ((∀ a : Act, e.op ≠ .pipeline (a.cmds d)) ∧ SameTables s s') := by
  by_cases hop : ∃ a : Act, e.op = .pipeline (a.cmds d)
  · obtain ⟨a, ha⟩ := hop
    obtain ⟨op, r⟩ := e
    subst ha
    exact Or.inl ⟨a, r, rfl, h.rule a rfl, hs⟩
  · have hne := not_exists.mp hop
    exact Or.inr ⟨hne, h.quiet hne s e.reply s' hs⟩

/-! ## Clock and identifiers -/

theorem step_clock {s s' : State} {op : Op} {r : Reply op} (h : step d s op r s') :
    s'.clock = s.clock := by
  cases op with
  | log entry => rw [show s' = s from h]
  | now | getById | getByEmail => rw [h.2]
  | uuid4 | redis | pipeline => rw [h.2]

/-- Only `uuid4` touches the issued identifiers, and it draws a new one. -/
theorem step_uuids {s s' : State} {e : AuthEvent} (h : step d s e.op e.reply s') :
    (∃ j, e = ⟨.uuid4, j⟩ ∧ j ∉ s.uuids ∧ s'.uuids = j :: s.uuids) ∨
    ((∀ j, e ≠ ⟨.uuid4, j⟩) ∧ s'.uuids = s.uuids) := by
  obtain ⟨op, r⟩ := e
  cases op with
  | uuid4 => exact Or.inl ⟨r, rfl, h.1, by rw [h.2]⟩
  | log entry => exact Or.inr ⟨fun _ => nofun, by rw [show s' = s from h]⟩
  | now | getById | getByEmail | redis | pipeline =>
      exact Or.inr ⟨fun _ => nofun, by rw [h.2]⟩

end GreenCommunity.Auth
