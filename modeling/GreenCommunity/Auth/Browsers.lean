import GreenCommunity.Base.Expiry
import GreenCommunity.Base.Ghost
import GreenCommunity.Auth.History
import GreenCommunity.Auth.Interleaving
import GreenCommunity.Auth.Visits

/-!
# Browsers that play by the rules

A browser presents the refresh token of its own cookie, and waits for the answer, which
brings the next one.  What it has issued, rotated and revoked is in its own events, and
as UUIDs do not repeat, nobody else's events are about its tokens.  So its token is never
taken for one that has been used or forged, and it is found as long as it lives, unless all
sessions of its user are ended.
-/

namespace GreenCommunity.Auth

open GreenCommunity.Base
open GreenCommunity.Base.Redis
open GreenCommunity.Base.Prog

variable {Tok : Type} (d : Deps Tok)

/-! ## What a browser has done -/

/-- The pipeline is among the events. -/
def Did (es : List AuthEvent) (a : Act) : Prop := ∃ e ∈ es, e.op = .pipeline (a.cmds d)

def Draws (es : List AuthEvent) (j : String) : Prop := ⟨.uuid4, j⟩ ∈ es

/-- The pipeline uses the token up. -/
def Act.Spends : Act → Nat → String → Prop
  | .rotate u j _, v, k | .revoke u j, v, k => v = u ∧ k = j
  | _, _, _ => False

/-- The token was issued to the browser at the instant `n`, and has not been used up. -/
structure Held (es : List AuthEvent) (u : Nat) (j : String) (n : Nat) : Prop where
  saved : ∃ es₁ e es₂, es = es₁ ++ e :: es₂ ∧ ⟨.now, n⟩ ∈ es₁ ∧
    e.op = .pipeline ((Act.save u j (hashToken d (refreshJwt d u j n))).cmds d)
  kept : ∀ a : Act, a.Spends u j → ¬ Did d es a

def HeldToken (es : List AuthEvent) (token : Tok) : Prop :=
  ∃ u j n, token = refreshJwt d u j n ∧ Held d es u j n

/-- What the services may answer to a browser. -/
structure Faithful (es : List AuthEvent) (e : AuthEvent) : Prop where
  fresh : ∀ j, e = ⟨.uuid4, j⟩ → ¬ Draws es j
  ordered : ∀ n m, e = ⟨.now, m⟩ → ⟨.now, n⟩ ∈ es → n ≤ m
  stored : ∀ u j h stored, e = ⟨.redis (.get (tokenKey u j)), some stored⟩ →
    Did d es (.save u j h) → stored = h
  consumed : ∀ u j h, e = ⟨.redis (.exists (usedKey u j)), true⟩ →
    Did d es (.save u j h) → ∃ ex, Did d es (.rotate u j ex)

/-- The pipelines of a browser are about its own tokens. -/
def Owns (es : List AuthEvent) : Act → Prop
  | .save _ j _ => Draws es j ∧ ∀ v k, ¬ Did d es (.save v j k)
  | .rotate u j ex => (0 < ex ∧ ex ≤ d.settings.ttlSeconds) ∧ ∃ h, Did d es (.save u j h)
  | .revoke u j => ∃ h, Did d es (.save u j h)
  | .revokeAll _ _ => True

/-- The time by which every key is gone that is written now. -/
def Settings.longest (c : Settings) : Nat := max c.ttl (ticks c.loginRateLimitWindowSeconds)

/-- The operation leaves no key that it makes without an expiry. -/
def Brief : Op → Prop
  | .redis c => ∀ now, Pays now (now + d.settings.longest) none [c]
  | .pipeline cs => ∀ now, Pays now (now + d.settings.longest) none cs
  | _ => True

/-- What a browser guarantees: no alarm, and no miss of a token that it does not hold. -/
structure Honest (es : List AuthEvent) (e : AuthEvent) : Prop where
  brief : Brief d e.op
  owns : ∀ a : Act, e.op = .pipeline (a.cmds d) → Owns d es a
  quiet : (∀ a : Act, e.op ≠ .pipeline (a.cmds d)) → Quiet d e.op
  silent : ∀ u j state n, e.op ≠ .log (.refreshTokenCompromiseDetected u j state n)
  missing : ∀ u j, e.op = .log (.refreshTokenNotFound u j) → ∃ es₁ es₂ n,
    es = es₁ ++ ⟨.redis (.get (tokenKey u j)), none⟩ :: es₂ ∧ Held d es₁ u j n

/-- A line that says nothing about a stolen or a missing token. -/
def LogEntry.Ordinary : LogEntry → Prop
  | .refreshTokenCompromiseDetected _ _ _ _ | .refreshTokenNotFound _ _ => False
  | _ => True

/-- An operation that does nothing to a session and says nothing about one. -/
structure Calm (op : Op) : Prop where
  idle : Idle d op
  brief : Brief d op
  silent : ∀ u j state n, op ≠ .log (.refreshTokenCompromiseDetected u j state n)
  missing : ∀ u j, op ≠ .log (.refreshTokenNotFound u j)

/-- What is saved has been drawn, and what is used up has been saved. -/
structure Regular (es : List AuthEvent) : Prop where
  drawn : ∀ u j h, Did d es (.save u j h) → Draws es j
  spent : ∀ (a : Act) u j, a.Spends u j → Did d es a → ∃ h, Did d es (.save u j h)

/-- The browser has gone on, and the tokens that it held it still holds. -/
structure Goes (es es' : List AuthEvent) : Prop where
  regular : Regular d es'
  held : ∀ u j n, Held d es u j n → Held d es' u j n

section Events

variable {d} {es es' : List AuthEvent} {e : AuthEvent} {u n : Nat} {j h : String} {a : Act}

theorem did_snoc : Did d (es ++ [e]) a ↔ Did d es a ∨ e.op = .pipeline (a.cmds d) := by
  simp [Did, or_and_right, exists_or]

theorem Did.append (h : Did d es a) (es' : List AuthEvent) : Did d (es ++ es') a := by
  obtain ⟨e, he, hop⟩ := h
  exact ⟨e, List.mem_append_left _ he, hop⟩

theorem draws_snoc : Draws (es ++ [e]) j ↔ Draws es j ∨ e = ⟨.uuid4, j⟩ := by
  simp [Draws, eq_comm]

theorem Act.Spends.inj {a : Act} {v : Nat} {k : String} (h : a.Spends u j)
    (h' : a.Spends v k) : v = u ∧ k = j := by
  cases a with
  | rotate | revoke => exact ⟨h'.1.trans h.1.symm, h'.2.trans h.2.symm⟩
  | save | revokeAll => exact h.elim

theorem Honest.spends (h : Honest d es e) (ha : a.Spends u j)
    (hop : e.op = .pipeline (a.cmds d)) : ∃ h, Did d es (.save u j h) := by
  have howns := h.owns a hop
  cases a with
  | rotate v k ex =>
      obtain ⟨rfl, rfl⟩ := ha
      exact howns.2
  | revoke v k =>
      obtain ⟨rfl, rfl⟩ := ha
      exact howns
  | save | revokeAll => exact ha.elim

theorem regular_nil : Regular d [] where
  drawn _ _ _ := by
    rintro ⟨e, he, _⟩
    cases he
  spent _ _ _ _ := by
    rintro ⟨e, he, _⟩
    cases he

theorem Regular.snoc (h : Regular d es) (he : Honest d es e) : Regular d (es ++ [e]) where
  drawn u j k hdid := by
    rw [draws_snoc]
    rcases did_snoc.mp hdid with hdid | hop
    · exact Or.inl (h.drawn u j k hdid)
    · exact Or.inl (he.owns _ hop).1
  spent a u j hspends hdid := by
    obtain ⟨k, hk⟩ : ∃ k, Did d es (.save u j k) := by
      rcases did_snoc.mp hdid with hdid | hop
      · exact h.spent a u j hspends hdid
      · exact he.spends hspends hop
    exact ⟨k, hk.append _⟩

theorem Held.did (h : Held d es u j n) : Did d es (.save u j (hashToken d (refreshJwt d u j n))) := by
  obtain ⟨es₁, e, es₂, rfl, _, hop⟩ := h.saved
  exact ⟨e, List.mem_append_right _ List.mem_cons_self, hop⟩

theorem Held.now (h : Held d es u j n) : ⟨.now, n⟩ ∈ es := by
  obtain ⟨es₁, e, es₂, rfl, hnow, _⟩ := h.saved
  exact List.mem_append_left _ hnow

theorem Held.snoc (h : Held d es u j n)
    (hne : ∀ a : Act, a.Spends u j → e.op ≠ .pipeline (a.cmds d)) :
    Held d (es ++ [e]) u j n where
  saved := by
    obtain ⟨es₁, e', es₂, rfl, hnow, hop⟩ := h.saved
    exact ⟨es₁, e', es₂ ++ [e], by simp, hnow, hop⟩
  kept a ha hdid := by
    rcases did_snoc.mp hdid with hdid | hop
    · exact h.kept a ha hdid
    · exact hne a ha hop

theorem Goes.refl (h : Regular d es) : Goes d es es := ⟨h, fun _ _ _ hheld => hheld⟩

theorem Goes.trans {es'' : List AuthEvent} (h : Goes d es es') (h' : Goes d es' es'') :
    Goes d es es'' :=
  ⟨h'.regular, fun u j n hheld => h'.held u j n (h.held u j n hheld)⟩

theorem Goes.token (h : Goes d es es') {token : Tok} (ht : HeldToken d es token) :
    HeldToken d es' token := by
  obtain ⟨u, j, n, heq, hheld⟩ := ht
  exact ⟨u, j, n, heq, h.held u j n hheld⟩

/-- An event that uses no token up. -/
theorem Goes.snoc (h : Regular d es) (he : Honest d es e)
    (hne : ∀ (a : Act) u j, a.Spends u j → e.op ≠ .pipeline (a.cmds d)) :
    Goes d es (es ++ [e]) :=
  ⟨h.snoc he, fun u j _ hheld => hheld.snoc fun a => hne a u j⟩

theorem Calm.honest (hc : Calm d e.op) : Honest d es e where
  brief := hc.brief
  owns a ha := absurd ha (hc.idle.2 a)
  quiet _ := hc.idle.1
  silent := hc.silent
  missing u j hop := absurd hop (hc.missing u j)

theorem Calm.goes (hc : Calm d e.op) (h : Regular d es) : Goes d es (es ++ [e]) :=
  .snoc h hc.honest fun a _ _ _ => hc.idle.2 a

theorem calm_of_idle {op : Op} (h : Idle d op) (hbrief : Brief d op)
    (hop : ∀ entry, op ≠ .log entry) : Calm d op :=
  ⟨h, hbrief, fun _ _ _ _ => hop _, fun _ _ => hop _⟩

theorem calm_log {entry : LogEntry} (h : entry.Ordinary) : Calm d (.log entry) where
  idle := idle_log entry
  brief := trivial
  silent := by
    rintro u j state n ⟨⟩
    exact h
  missing := by
    rintro u j ⟨⟩
    exact h

/-- The pipelines of the store give every key that they make a time to live. -/
theorem brief_act (h : Owns d es a) : Brief d (.pipeline (a.cmds d)) := by
  intro now
  have httl : now + ticks d.settings.ttlSeconds ≤ now + d.settings.longest :=
    Nat.add_le_add_left (Nat.le_max_left _ _) now
  cases a with
  | save u j k => exact ⟨⟨_, rfl, httl⟩, Or.inl rfl, Or.inr rfl, httl, rfl⟩
  | rotate u j ex =>
      have hex : ticks ex ≤ ticks d.settings.ttlSeconds := Nat.mul_le_mul_left second h.1.2
      exact ⟨⟨ex, rfl, (Nat.add_le_add_left hex now).trans httl⟩, rfl⟩
  | revoke u j => exact rfl
  | revokeAll u jtis => exact pays_of_deletes fun _ hc => mem_revokeAllCmds hc

theorem honest_act {r : Reply (.pipeline (a.cmds d))} (h : Owns d es a) :
    Honest d es (did d a r) where
  brief := brief_act h
  owns _ hb := Act.cmds_inj (Op.pipeline.inj hb) ▸ h
  quiet hne := absurd rfl (hne a)
  silent _ _ _ _ := nofun
  missing _ _ := nofun

/-- A line about a token that has been looked for. -/
theorem honest_notFound {es₁ es₂ : List AuthEvent} {r : Unit}
    (h : es = es₁ ++ ⟨.redis (.get (tokenKey u j)), none⟩ :: es₂) (hheld : Held d es₁ u j n) :
    Honest d es ⟨.log (.refreshTokenNotFound u j), r⟩ where
  brief := trivial
  owns _ := nofun
  quiet _ := (idle_log _).1
  silent _ _ _ _ := nofun
  missing := by
    rintro _ _ ⟨⟩
    exact ⟨es₁, es₂, n, h, hheld⟩

/-- A pipeline that uses no token up. -/
theorem Goes.act {r : Reply (.pipeline (a.cmds d))} (h : Regular d es) (howns : Owns d es a)
    (ha : ∀ u j, ¬ a.Spends u j) : Goes d es (es ++ [did d a r]) := by
  refine .snoc h (honest_act howns) fun b u j hb hop => ?_
  rw [← Act.cmds_inj (Op.pipeline.inj hop)] at hb
  exact ha u j hb

theorem calm_now : Calm d .now := calm_of_idle idle_now trivial fun _ => nofun

theorem calm_getById (u : Nat) : Calm d (.getById u) :=
  calm_of_idle (idle_getById u) trivial fun _ => nofun

theorem calm_uuid4 : Calm d .uuid4 := calm_of_idle idle_uuid4 trivial fun _ => nofun

theorem calm_read {c : Cmd} (hc : c.Timed) (h : c.writes = []) : Calm d (.redis c) := by
  refine calm_of_idle (idle_read hc h) (fun now => ?_) fun _ => nofun
  cases c with
  | get | «exists» | smembers | ttl => exact rfl
  | del keys => exact rfl
  | set | sadd | srem | expire | incr => cases h

end Events

/-! ## The programs -/

section Programs

variable {d} {α β : Type} {es : List AuthEvent} {Q : Except AppError α → List AuthEvent → Prop}

/-- The program keeps to the rules, as long as the services do. -/
abbrev Does (d : Deps Tok) (p : AuthM α) (Q : Except AppError α → List AuthEvent → Prop)
    (es : List AuthEvent) : Prop :=
  p.Records (Faithful d) (Honest d) (fun es e => es ++ [e]) Q es

theorem does_bind {p : AuthM α} {f : α → AuthM β}
    {Q' : Except AppError β → List AuthEvent → Prop} (hp : Does d p Q es)
    (herr : ∀ e es', Q (.error e) es' → Q' (.error e) es')
    (hf : ∀ a es', Q (.ok a) es' → Does d (f a) Q' es') : Does d (p >>= f) Q' es := by
  refine among_bind.mpr (Among.imp ?_ hp)
  rintro (e | a) es' h
  · exact herr e es' h
  · exact hf a es' h

theorem does_calm {op : Op} {k : Reply op → AuthM α} (hc : Calm d op) (hr : Regular d es)
    (hk : ∀ r, Faithful d es ⟨op, r⟩ → Goes d es (es ++ [⟨op, r⟩]) →
      Does d (k r) Q (es ++ [⟨op, r⟩])) : Does d (.call op k) Q es :=
  (records_call op k).mpr fun r hA =>
    ⟨(show Calm d (⟨op, r⟩ : AuthEvent).op from hc).honest, hk r hA
      ((show Calm d (⟨op, r⟩ : AuthEvent).op from hc).goes hr)⟩

theorem does_of_every {p : AuthM α} (h : p.Every (Calm d)) (hr : Regular d es) :
    Does d p (fun _ es' => Goes d es es') es :=
  h.records (fun _ op r hop hgoes _ => ⟨(show Calm d (⟨op, r⟩ : AuthEvent).op from hop).honest,
    hgoes.trans ((show Calm d (⟨op, r⟩ : AuthEvent).op from hop).goes hgoes.regular)⟩) (.refl hr)

/-- The rest goes on from where the program began. -/
theorem Goes.does {p : AuthM α} {es' : List AuthEvent} (hg : Goes d es es')
    (h : Does d p (fun _ es'' => Goes d es' es'') es') : Does d p (fun _ es'' => Goes d es es'') es' :=
  h.imp fun _ _ hgoes => hg.trans hgoes

/-- New tokens are the browser's own. -/
theorem issueTokens_does (hr : Regular d es) (u : Nat) :
    Does d (issueTokens d u) (fun o es' => Goes d es es' ∧
      ∃ issued, o = .ok issued ∧ HeldToken d es' issued.refreshToken) es := by
  refine does_calm calm_now hr fun n₁ _ hg₁ => ?_
  refine does_calm calm_uuid4 hg₁.regular fun j₁ _ hg₂ => ?_
  refine does_calm calm_now hg₂.regular fun n₂ _ hg₃ => ?_
  refine does_calm calm_uuid4 hg₃.regular fun j hfaithful hg₄ => ?_
  have hgoes := ((hg₁.trans hg₂).trans hg₃).trans hg₄
  have hdraws := hfaithful.fresh j rfl
  have hnew : ∀ v k, ¬ Did d (es ++ [⟨.now, n₁⟩] ++ [⟨.uuid4, j₁⟩] ++ [⟨.now, n₂⟩] ++
      [⟨.uuid4, j⟩]) (.save v j k) := by
    intro v k hdid
    rcases did_snoc.mp hdid with hdid | hop
    · exact hdraws (hg₃.regular.drawn v j k hdid)
    · cases hop
  have howns : Owns d (es ++ [⟨.now, n₁⟩] ++ [⟨.uuid4, j₁⟩] ++ [⟨.now, n₂⟩] ++ [⟨.uuid4, j⟩])
      (.save u j (hashToken d (refreshJwt d u j n₂))) := ⟨draws_snoc.mpr (Or.inr rfl), hnew⟩
  refine (records_call _ _).mpr fun r _ => ?_
  refine ⟨honest_act (a := .save _ _ _) howns,
    hgoes.trans (.act (a := .save _ _ _) hg₄.regular howns fun _ _ => id), _, rfl, u, j, n₂, rfl,
    ⟨_, _, [], rfl, by simp, rfl⟩, fun a ha hdid => ?_⟩
  obtain ⟨k, hk⟩ : ∃ k, Did d (es ++ [⟨.now, n₁⟩] ++ [⟨.uuid4, j₁⟩] ++ [⟨.now, n₂⟩] ++
      [⟨.uuid4, j⟩]) (.save u j k) := by
    rcases did_snoc.mp hdid with hdid | hop
    · exact hg₄.regular.spent a u j ha hdid
    · rw [← Act.cmds_inj (a := .save _ _ _) (Op.pipeline.inj hop)] at ha
      exact ha.elim
  exact hnew u k hk

theorem revokeAll_does (hr : Regular d es) (u : Nat) :
    Does d (revokeAll u) (fun _ es' => Goes d es es') es := by
  refine does_calm (calm_read trivial rfl) hr fun jtis _ hg => ?_
  refine (records_call _ _).mpr fun r _ => ?_
  exact ⟨honest_act (a := .revokeAll u jtis) trivial,
    hg.trans (.act (a := .revokeAll u jtis) hg.regular trivial fun _ _ => id)⟩

/-- A token that is held is active, or it is missing. -/
theorem verify_does (hr : Regular d es) {u n : Nat} {j : String} (hheld : Held d es u j n) :
    Does d (verify d u j (refreshJwt d u j n)) (fun o es' => Goes d es es' ∧
      (o = .ok .active ∨ o = .ok .unknown ∧ ∃ es₁ es₂,
        es' = es₁ ++ ⟨.redis (.get (tokenKey u j)), none⟩ :: es₂ ∧ Held d es₁ u j n)) es := by
  simp only [verify, Prog.request_bind]
  refine does_calm (calm_read trivial rfl) hr fun stored hfaithful hg => ?_
  cases stored with
  | some stored =>
      have hstored := hfaithful.stored u j _ stored rfl hheld.did
      subst hstored
      simp only [verifyTokenHash, beq_self_eq_true, if_true]
      exact ⟨hg, Or.inl rfl⟩
  | none =>
      refine does_calm (calm_read trivial rfl) hg.regular fun used hfaithful' hg' => ?_
      cases used with
      | true =>
          obtain ⟨ex, hrotate⟩ := hfaithful'.consumed u j _ rfl (hg.held u j n hheld).did
          exact absurd hrotate ((hg.held u j n hheld).kept (.rotate u j ex) ⟨rfl, rfl⟩)
      | false =>
          exact ⟨hg.trans hg', Or.inr ⟨rfl, es, [⟨.redis (.exists (usedKey u j)), false⟩],
            by simp, hheld⟩⟩

/-- A marker lives no longer than a token. -/
theorem marker_le {n now : Nat} (h : n ≤ now) :
    (max ((((ticks ((n + d.settings.ttl) / second) : Nat) : Int) - now).tdiv second) 1).toNat ≤
      d.settings.ttlSeconds := by
  have hpos := d.settings.ttlSeconds_pos
  have hexp : ticks ((n + d.settings.ttl) / second) ≤ n + d.settings.ttl :=
    Nat.mul_div_le _ _
  have httl : d.settings.ttl = second * d.settings.ttlSeconds := rfl
  have hle : (((ticks ((n + d.settings.ttl) / second) : Nat) : Int) - now) ≤
      (second : Int) * d.settings.ttlSeconds := by
    rw [httl] at hexp ⊢
    omega
  have hdiv := Int.tdiv_le_tdiv (c := (second : Int)) (by decide) hle
  rw [Int.mul_tdiv_cancel_left _ (by decide)] at hdiv
  omega

/-- The identity of a token of one's own. -/
theorem decodes_own {u n now : Nat} {j : String} {p : TokenPayload}
    (h : decodes d (refreshJwt d u j n) now = some p) : p.userId = u ∧ p.jti = j := by
  have hident := ident_of_decodes h
  rw [ident_refreshJwt] at hident
  simpa [eq_comm] using hident

theorem decodes_expiresAt {u n now : Nat} {j : String} {p : TokenPayload}
    (h : decodes d (refreshJwt d u j n) now = some p) :
    p.expiresAt = ticks ((n + d.settings.ttl) / second) := by
  simp only [decodes, refreshJwt, d.jwtDecode_encode, Option.bind_some] at h
  split at h
  · cases h
  · obtain ⟨_, _, rfl⟩ := Option.map_eq_some_iff.mp h
    rfl

/-- The browser holds the new token, or still those that it held. -/
def Brings (d : Deps Tok) (es : List AuthEvent) (o : Except AppError (IssuedTokens Tok))
    (es' : List AuthEvent) : Prop :=
  Regular d es' ∧ match o with
    | .ok issued => HeldToken d es' issued.refreshToken
    | .error _ => Goes d es es'

theorem Goes.brings_error {es' : List AuthEvent} (hg : Goes d es es') (e : AppError) :
    Brings d es (.error e) es' :=
  ⟨hg.regular, hg⟩

/-- The old token is rotated, and a new one issued. -/
private theorem rotate_does {u v n ex : Nat} {j : String} (hr : Regular d es)
    (hheld : Held d es u j n) (hex : 0 < ex ∧ ex ≤ d.settings.ttlSeconds) (es₀ : List AuthEvent) :
    Does d (.call (.pipeline (rotateCmds u j ex)) fun _ =>
      .call (.log (.tokenRefreshed v)) fun _ => issueTokens d v) (Brings d es₀) es := by
  refine (records_call _ _).mpr fun r _ => ?_
  have hhonest : Honest d es (did d (.rotate u j ex) r) := honest_act ⟨hex, _, hheld.did⟩
  refine ⟨hhonest, does_calm (calm_log trivial) (hr.snoc hhonest) fun _ _ hg => ?_⟩
  refine (issueTokens_does hg.regular v).imp ?_
  rintro _ es' ⟨hg', issued, rfl, hnew⟩
  exact ⟨hg'.regular, hnew⟩

/-- A refresh brings a new token, or leaves all as it is. -/
theorem refresh_does (hr : Regular d es) {token : Tok} (htoken : HeldToken d es token) :
    Does d (refresh d token) (Brings d es) es := by
  obtain ⟨u, j, n, rfl, hheld⟩ := htoken
  simp only [refresh, decodeToken_refresh, Prog.call_bind, Prog.request_bind, Prog.throw_eq,
    Prog.raise_bind]
  refine does_calm calm_now hr fun now _ hg => ?_
  cases hdec : decodes d (refreshJwt d u j n) now with
  | none => exact hg.brings_error _
  | some p =>
      obtain ⟨rfl, rfl⟩ := decodes_own hdec
      simp only [Prog.ret_bind]
      refine does_bind (verify_does hg.regular (hg.held _ _ n hheld))
        (fun e es' h => (hg.trans h.1).brings_error e) fun state es₁ h => ?_
      obtain ⟨hg₁, hstate⟩ := h
      have hgone : ∀ {es' : List AuthEvent}, Goes d es es' →
          Does d (revokeAll p.userId >>= fun _ => (.raise sessionExpired : AuthM (IssuedTokens Tok)))
            (Brings d es) es' := fun hg' =>
        does_bind (revokeAll_does hg'.regular p.userId)
          (fun e _ h => (hg'.trans h).brings_error e)
          fun _ _ h => (hg'.trans h).brings_error _
      rcases hstate with ⟨⟨⟩⟩ | ⟨⟨⟨⟩⟩, es₂, es₃, heq, hmissed⟩
      · refine does_calm (calm_getById p.userId) hg₁.regular
          fun user _ hg₂ => ?_
        have hg₂' := (hg.trans hg₁).trans hg₂
        cases user with
        | none => exact hgone hg₂'
        | some user =>
            cases hactive : user.userIsActive with
            | false =>
                simp only [hactive, Bool.not_false, if_true]
                exact hgone hg₂'
            | true =>
                simp only [hactive, Bool.not_true, Bool.false_eq_true, if_false]
                refine does_calm calm_now hg₂.regular fun now' hfaithful hg₃ => ?_
                have hn := hfaithful.ordered n now' rfl (hg₂'.held _ _ n hheld).now
                have hmarker := marker_le (d := d) hn
                rw [← decodes_expiresAt hdec] at hmarker
                simp only [rotate, Prog.call_bind, Prog.request_bind, Prog.pure_eq,
                  Prog.ret_bind]
                exact rotate_does hg₃.regular ((hg₂'.trans hg₃).held _ _ n hheld)
                  ⟨by omega, hmarker⟩ _
      · refine (records_call _ _).mpr fun r _ => ?_
        have hhonest := honest_notFound (r := r) heq hmissed
        refine ⟨hhonest, ((hg.trans hg₁).trans (.snoc hg₁.regular hhonest ?_)).brings_error _⟩
        rintro _ _ _ _ ⟨⟩

theorem calm_hit {email clientIp key : String} (hkey : key ∈ rateLimitKeys d email clientIp) :
    Calm d (.pipeline (hitCmds key d.settings.loginRateLimitWindowSeconds)) :=
  calm_of_idle (idle_hit hkey) (fun now => ⟨Or.inl rfl, Or.inr rfl,
    Nat.add_le_add_left (Nat.le_max_right _ _) now, rfl⟩) fun _ => nofun

theorem calm_checkLoginRateLimit (email clientIp : String) :
    (checkLoginRateLimit d email clientIp).Every (Calm d) := by
  refine every_forM_mem fun key hkey => ?_
  refine every_bind ⟨calm_hit hkey, fun replies => ?_⟩
    fun result => ?_
  · show Prog.Every _ (if _ then _ else _)
    split
    · trivial
    · exact ⟨calm_read trivial rfl, fun _ => trivial⟩
  · split
    · exact ⟨calm_log trivial, fun _ => trivial⟩
    · trivial

theorem calm_resetLoginRateLimit (email clientIp : String) :
    (resetLoginRateLimit d email clientIp).Every (Calm d) :=
  every_forM_mem fun _ hkey =>
    ⟨calm_of_idle (idle_reset hkey) (fun _ => rfl) fun _ => nofun, fun _ => trivial⟩

/-- A login brings a token, and whatever it does the others are kept. -/
theorem login_does (hr : Regular d es) (email password clientIp : String) :
    Does d (login d email password clientIp) (fun o es' => Goes d es es' ∧
      ∀ issued, o = .ok issued → HeldToken d es' issued.refreshToken) es := by
  refine does_bind (does_of_every (calm_checkLoginRateLimit email clientIp) hr)
    (fun _ _ hg => ⟨hg, nofun⟩) fun _ es₁ hg₁ => ?_
  simp only [Prog.request_bind]
  refine does_calm (calm_of_idle (idle_getByEmail email) trivial fun _ => nofun) hg₁.regular
    fun user _ hg₂ => ?_
  have hg := hg₁.trans hg₂
  have hrefused : ∀ entry : LogEntry, entry.Ordinary →
      Does d (.call (.log entry) fun _ => (.raise badCredentials : AuthM (IssuedTokens Tok)))
        (fun o es' => Goes d es es' ∧
          ∀ issued, o = .ok issued → HeldToken d es' issued.refreshToken)
        (es₁ ++ [⟨.getByEmail email, user⟩]) := fun entry h =>
    does_calm (calm_log h) hg₂.regular fun _ _ hg₃ => ⟨hg.trans hg₃, nofun⟩
  cases user with
  | none => exact hrefused _ trivial
  | some user =>
      cases hpassword : verifyPassword d password user.userPasswordHash with
      | false =>
          simp only [Bool.not_false, if_true, Prog.throw_eq, Prog.raise_bind]
          exact hrefused _ trivial
      | true =>
          cases hactive : user.userIsActive with
          | false =>
              simp only [hactive, Bool.not_false, Bool.not_true, if_true, Bool.false_eq_true,
                if_false, Prog.throw_eq, Prog.raise_bind]
              exact hrefused _ trivial
          | true =>
              simp only [hactive, Bool.not_true, Bool.false_eq_true, if_false]
              refine does_bind (does_of_every (calm_resetLoginRateLimit email clientIp)
                hg₂.regular) (fun _ _ hg₃ => ⟨hg.trans hg₃, nofun⟩) fun _ es₃ hg₃ => ?_
              refine does_calm (calm_log trivial) hg₃.regular
                fun _ _ hg₄ => ?_
              refine (issueTokens_does hg₄.regular user.userId).imp ?_
              rintro _ es' ⟨hg₅, issued, rfl, hheld⟩
              refine ⟨((hg.trans hg₃).trans hg₄).trans hg₅, ?_⟩
              rintro _ ⟨⟩
              exact hheld

/-- A logout that fails leaves the token as it is. -/
theorem logout_does (hr : Regular d es) {token : Option Tok}
    (htoken : ∀ t, token = some t → HeldToken d es t) :
    Does d (logout d token) (fun o es' => Regular d es' ∧
      (∀ e, o = .error e → Goes d es es')) es := by
  cases token with
  | none =>
      refine ⟨hr, ?_⟩
      rintro _ ⟨⟩
  | some token =>
      obtain ⟨u, j, n, rfl, hheld⟩ := htoken token rfl
      simp only [logout, decodeToken_refresh]
      refine does_calm calm_now hr fun now _ hg => ?_
      dsimp only
      cases hdec : decodes d (refreshJwt d u j n) now with
      | none =>
          refine ⟨hg.regular, ?_⟩
          rintro _ ⟨⟩
      | some p =>
          obtain ⟨rfl, rfl⟩ := decodes_own hdec
          refine (records_call _ _).mpr fun r _ => ?_
          have hhonest := honest_act (a := .revoke p.userId p.jti) (r := r)
            ⟨_, (hg.held _ _ n hheld).did⟩
          refine ⟨hhonest, does_calm (calm_log trivial) (hg.regular.snoc hhonest)
            fun _ _ hg' => ⟨hg'.regular, ?_⟩⟩
          rintro _ ⟨⟩

theorem calm_decodeToken (token : Tok) (expectedType : TokenType) :
    (decodeToken d token expectedType).Every (Calm d) := by
  simp only [decodeToken, request, Prog.request_bind]
  refine ⟨calm_now, fun now => ?_⟩
  cases d.jwtDecode token with
  | none => trivial
  | some claims =>
      by_cases h₁ : now < ticks claims.iat
      · simp only [h₁, if_true]
        trivial
      by_cases h₂ : ticks claims.exp ≤ now
      · simp only [h₁, h₂, if_true, if_false]
        trivial
      simp only [h₁, h₂, if_false]
      split
      · trivial
      · cases claims.sub.toNat? <;> trivial

theorem calm_currentUser (credentials : Option Tok) :
    (currentUser d credentials).Every (Calm d) := by
  cases credentials with
  | none => trivial
  | some token =>
      refine every_bind (calm_decodeToken token .access) fun payload =>
        ⟨calm_getById payload.userId, fun user => ?_⟩
      cases user with
      | none => trivial
      | some user =>
          show Prog.Every _ (if _ then _ else _)
          split <;> trivial

theorem logoutAll_does (hr : Regular d es) (userId : Nat) :
    Does d (logoutAll userId) (fun _ es' => Goes d es es') es :=
  does_bind (revokeAll_does hr userId) (fun _ _ hg => hg) fun _ _ hg =>
    does_calm (calm_log trivial) hg.regular
      fun _ _ hg' => hg.trans hg'

end Programs

/-! ## Jars -/

section Jars

variable {d} {r : Routing} {es es' : List AuthEvent} {jar : Jar Tok}

/-- The cookies of the jar are refresh cookies, with tokens that the browser holds. -/
structure Carries (d : Deps Tok) (r : Routing) (es : List AuthEvent) (jar : Jar Tok) : Prop where
  own : ∀ c ∈ jar, c.key = refreshCookieName ∧ c.path = cookiePath r
  held : ∀ c ∈ jar, ∀ token, c.value = some token → HeldToken d es token

theorem carries_nil : Carries d r es [] where
  own _ hc := by cases hc
  held _ hc := by cases hc

theorem Carries.goes (h : Carries d r es jar) (hg : Goes d es es') : Carries d r es' jar :=
  ⟨h.own, fun c hc token ht => hg.token (h.held c hc token ht)⟩

/-- A new refresh cookie takes the place of the old one. -/
private theorem others_eq_nil (h : Carries d r es jar) {c : Cookie Tok}
    (hkey : c.key = refreshCookieName) (hpath : c.path = cookiePath r) :
    (jar.filter fun old => !(old.key == c.key && old.path == c.path)) = [] := by
  refine List.filter_eq_nil_iff.mpr fun old hold => ?_
  obtain ⟨hk, hp⟩ := h.own old hold
  simp [hk, hp, hkey, hpath]

theorem Carries.receive (h : Carries d r es jar) {token : Tok} (htoken : HeldToken d es' token) :
    Carries d r es' (jar.receive (refreshCookie d r token)) := by
  have hpos : (refreshCookie d r token).maxAge ≠ 0 := d.settings.ttlSeconds_pos.ne'
  rw [Jar.receive, others_eq_nil h rfl rfl, if_neg hpos]
  refine ⟨fun c hc => ?_, fun c hc t ht => ?_⟩
  · rw [List.mem_singleton.mp hc]
    exact ⟨rfl, rfl⟩
  · rw [List.mem_singleton.mp hc] at ht
    cases ht
    exact htoken

theorem Carries.clear (h : Carries d r es jar) :
    Carries d r es' (jar.receive (clearedCookie r)) := by
  rw [Jar.receive, others_eq_nil h rfl rfl]
  exact carries_nil

theorem Carries.sent (h : Carries d r es jar) {requestPath : String} {token : Tok}
    (ht : jar.refreshToken requestPath = some token) : HeldToken d es token := by
  obtain ⟨c, hc, hvalue⟩ := Option.bind_eq_some_iff.mp ht
  exact h.held c (List.mem_filter.mp (List.mem_of_find?_eq_some hc)).1 token hvalue

/-- The jar after a visit has what the browser holds then. -/
def Leaves (d : Deps Tok) (r : Routing) (jar : Jar Tok) (v : Visit Tok)
    (o : Except AppError (Option (Cookie Tok))) (es : List AuthEvent) : Prop :=
  Regular d es ∧ Carries d r es (jar.after v (match o with
    | .ok cookie => cookie
    | .error _ => none))

/-- A visit without a cookie changes nothing. -/
theorem Carries.failed (h : Carries d r es jar) (hg : Goes d es es') (v : Visit Tok)
    (e : AppError) : Leaves d r jar v (.error e) es' := by
  refine ⟨hg.regular, ?_⟩
  cases v with
  | forget => exact carries_nil
  | _ => exact h.goes hg

theorem Carries.brought (h : Carries d r es jar) (hr : Regular d es') {token : Tok}
    (htoken : HeldToken d es' token) {v : Visit Tok} (hv : v ≠ .forget) :
    Leaves d r jar v (.ok (some (refreshCookie d r token))) es' := by
  refine ⟨hr, ?_⟩
  cases v with
  | forget => exact absurd rfl hv
  | _ => exact h.receive htoken

theorem Carries.cleared (h : Carries d r es jar) (hr : Regular d es') (v : Visit Tok) :
    Leaves d r jar v (.ok (some (clearedCookie r))) es' := by
  refine ⟨hr, ?_⟩
  cases v with
  | forget => exact carries_nil
  | _ => exact h.clear

theorem visit_does (hr : Regular d es) (hjar : Carries d r es jar) (v : Visit Tok) :
    Does d (visit d r jar v) (Leaves d r jar v) es := by
  cases v with
  | login email password client =>
      rw [visit, Router.login, Prog.bind_assoc]
      refine does_bind (login_does hr email password (clientIp client))
        (fun e es' h => hjar.failed h.1 _ e) fun issued es' h => ?_
      exact hjar.brought h.1.regular (h.2 issued rfl) (by rintro ⟨⟩)
  | refresh =>
      rw [visit]
      cases hsent : jar.refreshToken (cookiePath r ++ "/refresh") with
      | none => exact hjar.failed (.refl hr) _ _
      | some token =>
          rw [Router.refresh, Prog.bind_assoc]
          refine does_bind (refresh_does hr (hjar.sent hsent))
            (fun e es' h => hjar.failed h.2 _ e) fun issued es' h => ?_
          exact hjar.brought h.1 h.2 (by rintro ⟨⟩)
  | logout =>
      rw [visit, Router.logout, Prog.bind_assoc]
      refine does_bind (logout_does hr fun t ht => hjar.sent ht)
        (fun e es' h => hjar.failed (h.2 e rfl) _ e) fun _ es' h => ?_
      exact hjar.cleared h.1 _
  | logoutAll credentials =>
      rw [visit, Router.logoutAll, Prog.bind_assoc]
      refine does_bind (does_of_every (calm_currentUser credentials) hr)
        (fun e es' hg => hjar.failed hg _ e) fun user es₁ hg₁ => ?_
      rw [Prog.bind_assoc]
      refine does_bind (logoutAll_does hg₁.regular user.userId)
        (fun e es' hg => hjar.failed (hg₁.trans hg) _ e) fun n es' hg => ?_
      exact hjar.cleared hg.regular _
  | forget => exact ⟨hr, carries_nil⟩

/-- A browser holds what is in its jar, and keeps to the rules. -/
theorem browse_does : ∀ (visits : List (Visit Tok)) {es : List AuthEvent} {jar : Jar Tok},
    Regular d es → Carries d r es jar → Does d (browse d r jar visits)
      (fun o es' => ∃ jar', o = .ok jar' ∧ Regular d es' ∧ Carries d r es' jar') es
  | [], es, jar, hr, hjar => ⟨jar, rfl, hr, hjar⟩
  | v :: visits, es, jar, hr, hjar => by
      refine among_bind.mpr (among_handle.mpr ((visit_does hr hjar v).imp ?_))
      rintro (e | cookie) es' ⟨hr', hjar'⟩
      · exact browse_does visits hr' hjar'
      · exact browse_does visits hr' hjar'

end Jars

/-! ## Many browsers -/

section Runs

variable {C : Type} [DecidableEq C] {init s s' : State} {tr : List (Label C Op Reply)}

/-- Somebody has ended all sessions of the user. -/
def RevokedAll (d : Deps Tok) (tr : List (Label C Op Reply)) (u : Nat) : Prop :=
  ∃ c jtis, Did d (own c tr) (.revokeAll u jtis)

/-- A token of the instant `n` is over, or all sessions of its user have been ended. -/
def Excused (d : Deps Tok) (tr : List (Label C Op Reply)) (s : State) (u n : Nat) : Prop :=
  RevokedAll d tr u ∨ n + d.settings.ttl ≤ s.clock

/-- The key of the token lives as long as the token. -/
def Lives (d : Deps Tok) (s : State) (u : Nat) (j : String) (n : Nat) : Prop :=
  ∃ h t, s.token u j = some ⟨.str h, t⟩ ∧ ((n + d.settings.ttl : Nat) : WithTop Nat) ≤ t

/-- The names of the sessions that there are have been drawn. -/
def Named (s : State) : Prop :=
  ∀ u j, (s.token u j).isSome ∨ (s.used u j).isSome → j ∈ s.uuids

/-- What the events of the browsers say about the services. -/
structure Apart (d : Deps Tok) (init : State) (tr : List (Label C Op Reply)) (s : State) :
    Prop where
  regular : ∀ c, Regular d (own c tr)
  once : ∀ c u v j h k, Did d (own c tr) (.save u j h) → Did d (own c tr) (.save v j k) → h = k
  token : ∀ u j e, s.token u j = some e →
    j ∈ init.uuids ∨ ∃ c h, Did d (own c tr) (.save u j h) ∧ e.value = .str h
  used : ∀ u j e, s.used u j = some e →
    j ∈ init.uuids ∨ ∃ c ex, Did d (own c tr) (.rotate u j ex)
  nows : ∀ c n, ⟨.now, n⟩ ∈ own c tr → n ≤ s.clock
  lives : ∀ c u j n, Held d (own c tr) u j n → Excused d tr s u n ∨ Lives d s u j n
  lost : ∀ c u j n es₁ es₂, own c tr = es₁ ++ ⟨.redis (.get (tokenKey u j)), none⟩ :: es₂ →
    Held d es₁ u j n → Excused d tr s u n

variable {d}

theorem did_own_snoc {c c' : C} {e : AuthEvent} {a : Act} :
    Did d (own c' (tr ++ [.call c e])) a ↔
      Did d (own c' tr) a ∨ c = c' ∧ e.op = .pipeline (a.cmds d) := by
  constructor
  · rintro ⟨f, hf, hop⟩
    rcases mem_own_snoc.mp hf with hf | ⟨rfl, rfl⟩
    · exact Or.inl ⟨f, hf, hop⟩
    · exact Or.inr ⟨rfl, hop⟩
  · rintro (⟨f, hf, hop⟩ | ⟨rfl, hop⟩)
    · exact ⟨f, mem_own_snoc.mpr (Or.inl hf), hop⟩
    · exact ⟨e, mem_own_snoc.mpr (Or.inr ⟨rfl, rfl⟩), hop⟩

theorem Did.later {c : C} {a : Act} (h : Did d (own c tr) a) (l : Label C Op Reply) :
    Did d (own c (tr ++ [l])) a := by
  rw [own_append]
  exact h.append _

theorem Excused.mono {u n : Nat} (h : Excused d tr s u n) (hclock : s.clock ≤ s'.clock)
    (l : Label C Op Reply) : Excused d (tr ++ [l]) s' u n := by
  rcases h with ⟨c, jtis, hdid⟩ | hover
  · exact Or.inl ⟨c, jtis, hdid.later l⟩
  · exact Or.inr (hover.trans hclock)

/-- A token that is held has been held before, or has just been issued. -/
theorem Held.before {es : List AuthEvent} {e : AuthEvent} {u n : Nat} {j : String}
    (h : Held d (es ++ [e]) u j n) :
    Held d es u j n ∨
      ⟨.now, n⟩ ∈ es ∧ e.op = .pipeline ((Act.save u j (hashToken d (refreshJwt d u j n))).cmds d) := by
  obtain ⟨es₁, f, es₂, heq, hnow, hop⟩ := h.saved
  rcases List.eq_nil_or_concat es₂ with rfl | ⟨es₃, g, rfl⟩
  · obtain ⟨rfl, hlast⟩ := List.append_inj' heq rfl
    cases hlast
    exact Or.inr ⟨hnow, hop⟩
  · rw [List.concat_eq_append, ← List.cons_append, ← List.append_assoc] at heq
    obtain ⟨rfl, _⟩ := List.append_inj' heq rfl
    exact Or.inl ⟨⟨es₁, f, es₃, rfl, hnow, hop⟩, fun a ha hdid => h.kept a ha (hdid.append _)⟩

theorem apart_init (hnamed : Named init) : Apart (C := C) d init [] init where
  regular _ := regular_nil
  once _ _ _ _ _ _ := by
    rintro ⟨e, he, _⟩
    cases he
  token u j e he := Or.inl (hnamed u j (Or.inl (by simp [he])))
  used u j e he := Or.inl (hnamed u j (Or.inr (by simp [he])))
  nows _ _ hn := by cases hn
  lives _ _ _ _ hheld := by
    obtain ⟨e, he, _⟩ := hheld.did
    cases he
  lost _ _ _ _ es₁ es₂ heq := by simp at heq

/-! ### The services answer as the browsers expect -/

/-- What is saved under a name belongs to the browser that has drawn it. -/
theorem Apart.owner (h : Apart d init tr s) (hdrawn : Drawn init tr s) {c c' : C} {u : Nat}
    {j k : String} (hsave : Did d (own c tr) (.save u j k)) (hdraws : Draws (own c' tr) j) :
    c = c' :=
  hdrawn.one ((h.regular c).drawn u j k hsave) hdraws

theorem Apart.faithful (h : Apart d init tr s) (hdrawn : Drawn init tr s) {c : C}
    {op : Op} {r : Reply op} (hs : step d s op r s') : Faithful d (own c tr) ⟨op, r⟩ where
  fresh := by
    rintro j ⟨⟩ hdraws
    exact hs.1 (hdrawn.mem hdraws)
  ordered := by
    rintro n m ⟨⟩ hn
    exact (h.nows c n hn).trans hs.1.ge
  stored := by
    rintro u j k stored ⟨⟩ hsave
    have hdraws := (h.regular c).drawn u j k hsave
    obtain ⟨t, ht⟩ := stored_of_get hs
    rcases h.token u j _ ht with hold | ⟨c', k', hsave', hvalue⟩
    · exact absurd hold (hdrawn.new hdraws)
    · obtain rfl := h.owner hdrawn hsave' hdraws
      cases hvalue
      exact h.once _ u u j _ k hsave' hsave
  consumed := by
    rintro u j k ⟨⟩ hsave
    have hdraws := (h.regular c).drawn u j k hsave
    have hlive : (s.used u j).isSome := hs.1.symm
    obtain ⟨e, he⟩ := Option.isSome_iff_exists.mp hlive
    rcases h.used u j e he with hold | ⟨c', ex, hrotate⟩
    · exact absurd hold (hdrawn.new hdraws)
    · obtain ⟨k', hsave'⟩ := (h.regular c').spent (.rotate u j ex) u j ⟨rfl, rfl⟩ hrotate
      obtain rfl := h.owner hdrawn hsave' hdraws
      exact ⟨ex, hrotate⟩

/-! ### Time passes -/

theorem Apart.drift (h : Apart d init tr s) (hdrift : drift s s') :
    Apart d init (tr ++ [.env]) s' where
  regular c := by simpa using h.regular c
  once c := by simpa using h.once c
  token u j e he := by simpa using h.token u j e ((token_drift hdrift).mp he).1
  used u j e he := by simpa using h.used u j e ((used_drift hdrift).mp he).1
  nows c n hn := (h.nows c n (by simpa using hn)).trans hdrift.1
  lives c u j n hheld := by
    rcases h.lives c u j n (by simpa using hheld) with hex | ⟨k, t, hlive, ht⟩
    · exact Or.inl (hex.mono hdrift.1 _)
    · by_cases hover : n + d.settings.ttl ≤ s'.clock
      · exact Or.inl (Or.inr hover)
      · have hclock : (s'.clock : WithTop Nat) < ((n + d.settings.ttl : Nat) : WithTop Nat) :=
          WithTop.coe_lt_coe.mpr (Nat.lt_of_not_le hover)
        exact Or.inr ⟨k, t, (token_drift hdrift).mpr ⟨hlive, hclock.trans_le ht⟩, ht⟩
  lost c u j n es₁ es₂ heq hheld :=
    (h.lost c u j n es₁ es₂ (by simpa using heq) hheld).mono hdrift.1 _

/-! ### A browser takes a step -/

/-- What an event does to the tables: it is a pipeline about tokens of one's own, or quiet. -/
theorem Honest.cases {es : List AuthEvent} {e : AuthEvent} (hh : Honest d es e)
    (hs : step d s e.op e.reply s') :
    (∃ a r, e = did d a r ∧ Owns d es a ∧ a.Timed ∧ step d s (.pipeline (a.cmds d)) r s') ∨
    ((∀ a : Act, e.op ≠ .pipeline (a.cmds d)) ∧ SameTables s s') := by
  have hobeys : Obeys d (Owns d) es e := ⟨hh.owns, hh.quiet⟩
  rcases hobeys.cases hs with ⟨a, r, he, howns, hstep⟩ | hquiet
  · refine Or.inl ⟨a, r, he, howns, ?_, hstep⟩
    cases a with
    | rotate u j ex => exact howns.1.1
    | save | revoke | revokeAll => trivial
  · exact Or.inr hquiet

theorem own_snoc_eq (c c' : C) (e : AuthEvent) : own c' (tr ++ [.call c e]) =
    if c = c' then own c' tr ++ [e] else own c' tr := by
  by_cases hc : c = c'
  · simp [hc]
  · simp [hc, own_call_ne hc]

section Step

variable {c : C} {e : AuthEvent} (h : Apart d init tr s) (hh : Honest d (own c tr) e)
  (hs : step d s e.op e.reply s')

include h hh

theorem regular_call (c' : C) : Regular d (own c' (tr ++ [.call c e])) := by
  rw [own_snoc_eq]
  split
  · rename_i hc
    exact (h.regular c').snoc (hc ▸ hh)
  · exact h.regular c'

/-- A name is saved once. -/
theorem once_call (c' : C) (u v : Nat) (j k k' : String)
    (hk : Did d (own c' (tr ++ [.call c e])) (.save u j k))
    (hk' : Did d (own c' (tr ++ [.call c e])) (.save v j k')) : k = k' := by
  rcases did_own_snoc.mp hk with hk | ⟨rfl, hop⟩ <;>
    rcases did_own_snoc.mp hk' with hk' | ⟨hc, hop'⟩
  · exact h.once c' u v j k k' hk hk'
  · subst hc
    exact absurd hk ((hh.owns _ hop').2 u k)
  · exact absurd hk' ((hh.owns _ hop).2 v k')
  · cases Act.cmds_inj (Op.pipeline.inj (hop.symm.trans hop'))
    rfl

include hs

theorem token_call (u : Nat) (j : String) (entry : Entry) (he : s'.token u j = some entry) :
    j ∈ init.uuids ∨
      ∃ c' k, Did d (own c' (tr ++ [.call c e])) (.save u j k) ∧ entry.value = .str k := by
  have hkept : s.token u j = some entry → j ∈ init.uuids ∨
      ∃ c' k, Did d (own c' (tr ++ [.call c e])) (.save u j k) ∧ entry.value = .str k :=
    fun he => (h.token u j entry he).imp_right fun ⟨c', k, hdid, hvalue⟩ =>
      ⟨c', k, hdid.later _, hvalue⟩
  rcases hh.cases hs with ⟨a, r, rfl, _, htimed, hstep⟩ | ⟨_, hsame⟩
  · rcases (token_act htimed hstep u j entry).mp he with ⟨k, rfl, rfl⟩ | ⟨_, _, he⟩
    · exact Or.inr ⟨c, k, did_own_snoc.mpr (Or.inr ⟨rfl, rfl⟩), rfl⟩
    · exact hkept he
  · exact hkept (hsame.token u j ▸ he)

theorem used_call (u : Nat) (j : String) (entry : Entry) (he : s'.used u j = some entry) :
    j ∈ init.uuids ∨ ∃ c' ex, Did d (own c' (tr ++ [.call c e])) (.rotate u j ex) := by
  have hkept : s.used u j = some entry → j ∈ init.uuids ∨
      ∃ c' ex, Did d (own c' (tr ++ [.call c e])) (.rotate u j ex) :=
    fun he => (h.used u j entry he).imp_right fun ⟨c', ex, hdid⟩ => ⟨c', ex, hdid.later _⟩
  rcases hh.cases hs with ⟨a, r, rfl, _, htimed, hstep⟩ | ⟨_, hsame⟩
  · rcases (used_act htimed hstep u j entry).mp he with ⟨ex, rfl, _⟩ | ⟨_, he⟩
    · exact Or.inr ⟨c, ex, did_own_snoc.mpr (Or.inr ⟨rfl, rfl⟩)⟩
    · exact hkept he
  · exact hkept (hsame.used u j ▸ he)

omit hh in
theorem nows_call (c' : C) (n : Nat) (hn : ⟨.now, n⟩ ∈ own c' (tr ++ [.call c e])) :
    n ≤ s'.clock := by
  rw [step_clock hs]
  rcases mem_own_snoc.mp hn with hn | ⟨_, rfl⟩
  · exact h.nows c' n hn
  · exact Nat.le_of_eq hs.1

variable (hdrawn : Drawn init tr s)

include hdrawn

/-- A pipeline that the browser has not used its token up with leaves the token alive,
unless it ends all sessions of the user. -/
theorem lives_call (c' : C) (u : Nat) (j : String) (n : Nat)
    (hheld : Held d (own c' (tr ++ [.call c e])) u j n) :
    Excused d (tr ++ [.call c e]) s' u n ∨ Lives d s' u j n := by
  have hclock := step_clock hs
  have hbefore : Held d (own c' tr) u j n ∨ c = c' ∧ ⟨.now, n⟩ ∈ own c' tr ∧
      e.op = .pipeline ((Act.save u j (hashToken d (refreshJwt d u j n))).cmds d) := by
    rw [own_snoc_eq] at hheld
    split at hheld
    · rename_i hc
      exact hheld.before.imp_right fun hnew => ⟨hc, hnew⟩
    · exact Or.inl hheld
  rcases hh.cases hs with ⟨a, r, rfl, howns, htimed, hstep⟩ | ⟨hop, hsame⟩
  · rcases hbefore with hbefore | ⟨rfl, hnow, hsave⟩
    · have hdraws := (h.regular c').drawn u j _ hbefore.did
      rcases h.lives c' u j n hbefore with hex | ⟨k, t, hlive, ht⟩
      · exact Or.inl (hex.mono hclock.ge _)
      · by_cases hall : ∃ jtis, a = .revokeAll u jtis
        · obtain ⟨jtis, rfl⟩ := hall
          exact Or.inl (Or.inl ⟨c, jtis, did_own_snoc.mpr (Or.inr ⟨rfl, rfl⟩)⟩)
        · refine Or.inr ⟨k, t, (token_act htimed hstep u j _).mpr (Or.inr ⟨?_, ?_, hlive⟩), ht⟩
          · rintro k' rfl
            obtain rfl := hdrawn.one howns.1 hdraws
            exact howns.2 u _ hbefore.did
          · intro hkills
            have hspends : a.Spends u j := by
              cases a with
              | save => exact hkills
              | rotate | revoke => exact hkills
              | revokeAll v jtis =>
                  obtain ⟨rfl, _⟩ := hkills
                  exact absurd ⟨jtis, rfl⟩ hall
            obtain ⟨k', hsave⟩ := hh.spends hspends rfl
            obtain rfl := h.owner hdrawn hsave hdraws
            exact hheld.kept a hspends (did_own_snoc.mpr (Or.inr ⟨rfl, rfl⟩))
    · cases Act.cmds_inj (Op.pipeline.inj hsave)
      refine Or.inr ⟨_, _, (token_act htimed hstep u j _).mpr (Or.inl ⟨_, rfl, rfl⟩), ?_⟩
      exact WithTop.coe_le_coe.mpr (Nat.add_le_add_right (h.nows c n hnow) _)
  · rcases hbefore with hbefore | ⟨_, _, hsave⟩
    · rcases h.lives c' u j n hbefore with hex | ⟨k, t, hlive, ht⟩
      · exact Or.inl (hex.mono hclock.ge _)
      · exact Or.inr ⟨k, t, (hsame.token u j).trans hlive, ht⟩
    · exact absurd hsave (hop _)

omit hh hdrawn in
/-- A token that is held is found. -/
theorem lost_call (c' : C) (u : Nat) (j : String) (n : Nat) (es₁ es₂ : List AuthEvent)
    (heq : own c' (tr ++ [.call c e]) = es₁ ++ ⟨.redis (.get (tokenKey u j)), none⟩ :: es₂)
    (hheld : Held d es₁ u j n) : Excused d (tr ++ [.call c e]) s' u n := by
  have hclock := step_clock hs
  have hkept : ∀ es₂, own c' tr = es₁ ++ ⟨.redis (.get (tokenKey u j)), none⟩ :: es₂ →
      Excused d (tr ++ [.call c e]) s' u n := fun es₂ heq =>
    (h.lost c' u j n es₁ es₂ heq hheld).mono hclock.ge _
  rw [own_snoc_eq] at heq
  split at heq
  · rcases List.eq_nil_or_concat es₂ with rfl | ⟨es₃, g, rfl⟩
    · obtain ⟨rfl, hlast⟩ := List.append_inj' heq rfl
      cases hlast
      rcases h.lives c' u j n hheld with hex | ⟨k, t, hlive, _⟩
      · exact hex.mono hclock.ge _
      · exact absurd hlive (missing_of_get hs k t)
    · rw [List.concat_eq_append, ← List.cons_append, ← List.append_assoc] at heq
      obtain ⟨heq, _⟩ := List.append_inj' heq rfl
      exact hkept es₃ heq
  · exact hkept es₂ heq

end Step

theorem Apart.call {c : C} {e : AuthEvent} (h : Apart d init tr s) (hdrawn : Drawn init tr s)
    (hh : Honest d (own c tr) e) (hs : step d s e.op e.reply s') :
    Apart d init (tr ++ [.call c e]) s' where
  regular := regular_call h hh
  once := once_call h hh
  token := token_call h hh hs
  used := used_call h hh hs
  nows := nows_call h hs
  lives := lives_call h hh hs hdrawn
  lost := lost_call h hs

end Runs

/-! ## No false alarm -/

section Alarms

variable {C : Type} [DecidableEq C] {r : Routing} {visits : C → List (Visit Tok)} {init : State}
  {tr : List (Label C Op Reply)} {cfg cfg' : Config C Op Reply AppError (Jar Tok) State}

variable {d}

/-- The record of a browser is the list of its events. -/
theorem recorded_events (c : C) (tr : List (Label C Op Reply)) :
    recorded (fun es e => es ++ [e]) [] c tr = own c tr := by
  suffices h : ∀ es es' : List AuthEvent, es.foldl (fun es e => es ++ [e]) es' = es' ++ es from
    (h _ _).trans (List.nil_append _)
  intro es
  induction es with
  | nil => simp
  | cons e es ih => simp [ih]

/-- In a run the browsers keep to the rules, and their tokens are kept apart. -/
theorem browsers_apart (hnamed : Named init)
    (h : Run (sem C d) anyStep ⟨init, fun c => browse d r [] (visits c)⟩ tr cfg) :
    Apart d init tr cfg.state ∧ ∀ c, ∃ Q, Does d (cfg.pool c) Q (own c tr) := by
  have hrecords := h.records_inv (A := fun _ => Faithful d) (G := Honest d)
    (I := fun tr cfg => Apart d init tr cfg.state ∧
      Run (sem C d) anyStep ⟨init, fun c => browse d r [] (visits c)⟩ tr cfg)
    ⟨apart_init hnamed, .nil⟩ ?_ ?_ fun c => browse_does (visits c) regular_nil carries_nil
  · obtain ⟨⟨hapart, _⟩, hdoes⟩ := hrecords
    exact ⟨hapart, fun c => ⟨_, recorded_events c tr ▸ hdoes c⟩⟩
  · rintro tr cfg c e cfg' ⟨hapart, hrun⟩ hl
    rw [recorded_events]
    cases hl with
    | call _ hs => exact hapart.faithful (drawn_run hrun) hs
  · rintro tr cfg l cfg' ⟨hapart, hrun⟩ hl hG
    refine ⟨?_, hrun.snoc hl trivial⟩
    rcases pool_step hl with ⟨rfl, hdrift⟩ | ⟨c, e, rfl, hs⟩
    · exact hapart.drift hdrift
    · have hh := hG c e rfl
      rw [recorded_events] at hh
      exact hapart.call (drawn_run hrun) hh hs

theorem honest_step (hnamed : Named init)
    (h : Run (sem C d) anyStep ⟨init, fun c => browse d r [] (visits c)⟩ tr cfg) {c : C}
    {e : AuthEvent} (hl : Step (sem C d) cfg (.call c e) cfg') : Honest d (own c tr) e := by
  obtain ⟨hapart, hdoes⟩ := browsers_apart hnamed h
  obtain ⟨Q, hdoes⟩ := hdoes c
  cases hl with
  | call hpool hs =>
      rw [hpool] at hdoes
      exact ((records_call _ _).mp hdoes _ (hapart.faithful (drawn_run h) hs)).1

/-- However the requests of the browsers interleave, no token is ever taken for one that was
used before or forged, and a token that is not found has been issued to its browser and
is over, or somebody has ended all sessions of its user. -/
theorem no_false_alarm (hnamed : Named init)
    (h : Run (sem C d) anyStep ⟨init, fun c => browse d r [] (visits c)⟩ tr cfg) {c : C}
    {e : AuthEvent} (hl : Step (sem C d) cfg (.call c e) cfg') :
    (∀ u j state n, e.op ≠ .log (.refreshTokenCompromiseDetected u j state n)) ∧
    ∀ u j, e.op = .log (.refreshTokenNotFound u j) → ∃ n,
      Did d (own c tr) (.save u j (hashToken d (refreshJwt d u j n))) ∧
      (RevokedAll d tr u ∨ n + d.settings.ttl ≤ cfg.state.clock) := by
  obtain ⟨hapart, _⟩ := browsers_apart hnamed h
  have hh := honest_step hnamed h hl
  refine ⟨hh.silent, fun u j hop => ?_⟩
  obtain ⟨es₁, es₂, n, heq, hheld⟩ := hh.missing u j hop
  exact ⟨n, heq ▸ hheld.did.append _, hapart.lost c u j n es₁ es₂ heq hheld⟩

end Alarms

/-! ## A browser of the sample user -/

def sampleRouting : Routing where
  apiV1Prefix := "/api/v1"
  cookieSecure := true
  cookieSamesite := .lax

/-- The tokens of the login in the first browser. -/
def sampleTokens : IssuedTokens Claims := issuedTokens sample 1 0 0 "a" "b"

/-- The second browser ends all sessions with the access token of the first. -/
def sampleVisits : Bool → List (Visit Claims)
  | true => [.login "a@b.c" "pw" none, .refresh]
  | false => [.logoutAll (some sampleTokens.accessToken)]

abbrev sampleBrowsers : Config Bool Op Reply AppError (Jar Claims) State :=
  ⟨freshState, fun c => browse sample sampleRouting [] (sampleVisits c)⟩

theorem named_freshState : Named freshState := fun u j h => by
  rcases h with h | h <;> simp [State.token, State.used, purge, freshState] at h

/-- The cookies of the first browser after its login. -/
def sampleJar : Jar Claims := [refreshCookie sample sampleRouting sampleTokens.refreshToken]

theorem sampleJar_sent :
    sampleJar.refreshToken (cookiePath sampleRouting ++ "/refresh") =
      some sampleTokens.refreshToken := by
  decide

private theorem login_visit
    {r : Replies (hitCmds (emailKey sample "a@b.c") sample.settings.loginRateLimitWindowSeconds)}
    {r' : Replies (hitCmds (ipKey (clientIp none)) sample.settings.loginRateLimitWindowSeconds)}
    (hr : r.1 = (1 : Int)) (hr' : r'.1 = (1 : Int))
    (q : Reply (.pipeline ((Act.save 1 "b" (hashToken sample (refreshJwt sample 1 "b" 0))).cmds
      sample))) :
    (browse sample sampleRouting [] (sampleVisits true)).Runs
      (loginFront sample "a@b.c" (clientIp none) sampleUser r r' ++
        issueEvents sample 1 0 0 "a" "b" q) (browse sample sampleRouting sampleJar [.refresh]) := by
  have hone : r.1 ≤ (sample.settings.loginRateLimitMaxAttempts : Int) := by
    rw [hr]
    decide
  have hone' : r'.1 ≤ (sample.settings.loginRateLimitMaxAttempts : Int) := by
    rw [hr']
    decide
  have hverified : verifyPassword sample "pw" sampleUser.userPasswordHash = true := by decide
  have hlogin : (visit sample sampleRouting [] (.login "a@b.c" "pw" none)).Runs
      (loginFront sample "a@b.c" (clientIp none) sampleUser r r' ++
        issueEvents sample 1 0 0 "a" "b" q)
      (.ret (some (refreshCookie sample sampleRouting sampleTokens.refreshToken))) :=
    visit_login_runs (login_runs hone hone' hverified rfl q)
  exact browse_runs hlogin

/-- What the new refresh token says. -/
def samplePayload : TokenPayload := { loginPayload with jti := "b" }

private theorem refresh_visit :
    (browse sample sampleRouting sampleJar [.refresh]).Runs (unknownEvents samplePayload 0)
      (.ret sampleJar) := by
  have hdec : decodes sample sampleTokens.refreshToken 0 = some samplePayload :=
    decodes_refreshJwt (Nat.le_refl 0) (by decide)
  exact browse_fails (visit_refresh_runs sampleJar_sent hdec)

private theorem logoutAll_visit (jtis : List String)
    (q : Reply (.pipeline ((Act.revokeAll 1 jtis).cmds sample))) :
    (browse sample sampleRouting [] (sampleVisits false)).Runs
      (allEvents sample sampleUser 0 jtis q) (.ret []) :=
  browse_runs (visit_logoutAll_runs sampleUser (Nat.le_refl 0) (by decide) rfl jtis q)

/-- No time passes in a chain of calls. -/
private theorem clock_chain {C : Type} {s s' : State} {tr : List (Label C Op Reply)}
    (h : Chain (sem C d) s tr s') (hcalls : .env ∉ tr) : s'.clock = s.clock := by
  induction h with
  | nil => rfl
  | env => exact absurd List.mem_cons_self hcalls
  | call hstep _ ih =>
      exact (ih fun hmem => hcalls (List.mem_cons_of_mem _ hmem)).trans
        (step_clock (d := d) hstep)

/-- The refresh of the first browser comes too late and is about to say so. -/
theorem late_refresh : ∃ tr cfg cfg', Run (sem Bool sample) anyStep sampleBrowsers tr cfg ∧
    Step (sem Bool sample) cfg (.call true ⟨.log (.refreshTokenNotFound 1 "b"), ()⟩) cfg' ∧
    cfg.state.clock = 0 := by
  obtain ⟨s₁, q, q', q'', hlogin, ⟨hone, hone'⟩, hclock₁, husers₁, hindex, hused₁⟩ :=
    login_chain (d := sample) (n := 0) true "a@b.c" (clientIp none) sampleUser "a" "b"
      (s := freshState) rfl rfl rfl (by decide) (by decide) (by decide)
  obtain ⟨s₂, jtis, q₃, hall, hclock₂, _, _, hused₂, hswept⟩ :=
    logoutAll_chain (d := sample) false s₁ 1
  have hsecond : Chain (sem Bool sample) s₁
      ((allEvents sample sampleUser 0 jtis q₃).map (.call false)) s₂ := by
    refine .call ⟨hclock₁.symm, rfl⟩ (.call ⟨?_, rfl⟩ hall)
    rw [getById, husers₁]
    decide
  obtain ⟨s₃, hlate⟩ := refresh_unknown_chain (d := sample) true (p := samplePayload)
    (hclock₂.trans hclock₁) (hswept "b" hindex) (by rw [hused₂, hused₁]; rfl)
  have hrun := Run.of_chain ((hlogin.append hsecond).append hlate) (p := sampleBrowsers.pool)
    (q := fun c => if c then .ret sampleJar else .ret []) ?_
  · obtain ⟨cfg₁, cfg₂, hrun₁, hl, _⟩ :=
      hrun.split (List.append_assoc _ [_, _, _] [_]).symm
    refine ⟨_, cfg₁, cfg₂, hrun₁, hl, clock_chain (d := sample) hrun₁.chain ?_⟩
    simp
  · intro c
    cases c with
    | false =>
        simp only [own_append, own_map_self, own_map_ne Bool.false_ne_true.symm, List.append_nil,
          List.nil_append]
        exact logoutAll_visit jtis q₃
    | true =>
        simp only [own_append, own_map_self, own_map_ne Bool.false_ne_true, List.append_nil]
        exact (login_visit hone hone' q'').append refresh_visit

/-- Nobody has taken the token for a stolen one, and the second browser has ended its
session. -/
theorem no_false_alarm_sample : ∃ tr cfg cfg' n,
    Run (sem Bool sample) anyStep sampleBrowsers tr cfg ∧
    Step (sem Bool sample) cfg (.call true ⟨.log (.refreshTokenNotFound 1 "b"), ()⟩) cfg' ∧
    Did sample (own true tr) (.save 1 "b" (hashToken sample (refreshJwt sample 1 "b" n))) ∧
    RevokedAll sample tr 1 := by
  obtain ⟨tr, cfg, cfg', hrun, hl, hclock⟩ := late_refresh
  obtain ⟨n, hdid, hlost⟩ := (no_false_alarm named_freshState hrun hl).2 1 "b" rfl
  refine ⟨tr, cfg, cfg', n, hrun, hl, hdid, hlost.resolve_right ?_⟩
  rw [hclock, Nat.le_zero, Nat.add_eq_zero_iff]
  exact fun h => absurd h.2 (by decide)

end GreenCommunity.Auth
