import GreenCommunity.Auth.Discipline
import GreenCommunity.Auth.Sample

/-!
# The events of a complete request

One inductive relation for each function of the service, with a constructor for
each of its branches: the events of the branch in order, and what it returns.
`serve_hist` proves that these are all the ways a request can end, and that on
the way there every event is allowed.
-/

namespace GreenCommunity.Auth

open GreenCommunity.Base
open GreenCommunity.Base.Redis

variable {Tok : Type} (d : Deps Tok)

/-! ## Traces -/

/-- The refresh token issued to `u` at the instant `now` under the name `j`. -/
def refreshJwt (u : Nat) (j : String) (now : Nat) : Tok :=
  d.jwtEncode
    { sub := toString u
      type := TokenType.refresh.value
      jti := j
      iat := now / second
      exp := (now + d.settings.ttl) / second }

/-- The tokens that `_issue_tokens` returns, by the replies it received. -/
def issuedTokens (u n₁ n₂ : Nat) (j₁ j : String) : IssuedTokens Tok where
  accessToken := d.jwtEncode
    { sub := toString u
      type := TokenType.access.value
      jti := j₁
      iat := n₁ / second
      exp := (n₁ + ticks (d.settings.accessTokenExpireMinutes * 60)) / second }
  refreshToken := refreshJwt d u j n₂
  expiresIn := d.settings.accessTokenExpireMinutes * 60

/-- `_issue_tokens`. -/
inductive IssueTrace (u : Nat) : List AuthEvent → String → IssuedTokens Tok → Prop where
  | mk (n₁ n₂ : Nat) (j₁ j : String)
      (r : Reply (.pipeline ((Act.save u j (hashToken d (refreshJwt d u j n₂))).cmds d))) :
      IssueTrace u
        [⟨.now, n₁⟩, ⟨.uuid4, j₁⟩, ⟨.now, n₂⟩, ⟨.uuid4, j⟩,
          did d (.save u j (hashToken d (refreshJwt d u j n₂))) r]
        j (issuedTokens d u n₁ n₂ j₁ j)

/-- `RefreshTokenStore.verify`. -/
inductive VerifyTrace (token : Tok) (u : Nat) (j : String) :
    List AuthEvent → TokenState → Prop where
  | active : VerifyTrace token u j [verified d token u j] .active
  | forged (h : String) (hne : h ≠ hashToken d token) :
      VerifyTrace token u j [⟨.redis (.get (tokenKey u j)), some h⟩] .forged
  | reused : VerifyTrace token u j
      [⟨.redis (.get (tokenKey u j)), none⟩, ⟨.redis (.exists (usedKey u j)), true⟩]
      .reused
  | unknown : VerifyTrace token u j
      [⟨.redis (.get (tokenKey u j)), none⟩, ⟨.redis (.exists (usedKey u j)), false⟩]
      .unknown

/-- `RefreshTokenStore.revoke_all`. -/
inductive RevokeAllTrace (u : Nat) : List AuthEvent → List String → Prop where
  | mk (jtis : List String) (r : Reply (.pipeline ((Act.revokeAll u jtis).cmds d))) :
      RevokeAllTrace u
        [⟨.redis (.smembers (indexKey u)), jtis⟩, did d (.revokeAll u jtis) r] jtis

/-- The life of the used marker of a token rotated at the instant `now`. -/
def markerSeconds (p : TokenPayload) (now : Nat) : Nat :=
  (max (((p.expiresAt : Int) - now).tdiv second) 1).toNat

/-- `AuthService.refresh`. -/
inductive RefreshTrace (token : Tok) :
    List AuthEvent → Except AppError (IssuedTokens Tok) → Prop where
  | invalid (n : Nat) (h : decodes d token n = none) :
      RefreshTrace token [⟨.now, n⟩] (.error invalidToken)
  | compromised (n : Nat) {p : TokenPayload} (h : decodes d token n = some p)
      {vs rs : List AuthEvent} {state : TokenState} {jtis : List String}
      (hstate : state = .reused ∨ state = .forged)
      (hv : VerifyTrace d token p.userId p.jti vs state)
      (hr : RevokeAllTrace d p.userId rs jtis) :
      RefreshTrace token
        (⟨.now, n⟩ :: vs ++ rs ++ [⟨.log (.refreshTokenCompromiseDetected p.userId p.jti
          state.value jtis.length), ()⟩])
        (.error sessionExpired)
  | notFound (n : Nat) {p : TokenPayload} (h : decodes d token n = some p)
      {vs : List AuthEvent} (hv : VerifyTrace d token p.userId p.jti vs .unknown) :
      RefreshTrace token
        (⟨.now, n⟩ :: vs ++ [⟨.log (.refreshTokenNotFound p.userId p.jti), ()⟩])
        (.error sessionExpired)
  | inactive (n : Nat) {p : TokenPayload} (h : decodes d token n = some p)
      {user : Option User} (huser : ∀ u, user = some u → u.userIsActive = false)
      {rs : List AuthEvent} {jtis : List String}
      (hr : RevokeAllTrace d p.userId rs jtis) :
      RefreshTrace token
        (⟨.now, n⟩ :: verified d token p.userId p.jti ::
          ⟨.getById p.userId, user⟩ :: rs)
        (.error sessionExpired)
  | rotated (n n' : Nat) {p : TokenPayload} (h : decodes d token n = some p)
      {user : User} (huser : user.userIsActive = true)
      (r : Reply (.pipeline ((Act.rotate p.userId p.jti (markerSeconds p n')).cmds d)))
      {is : List AuthEvent} {j : String} {issued : IssuedTokens Tok}
      (hi : IssueTrace d user.userId is j issued) :
      RefreshTrace token
        ([⟨.now, n⟩, verified d token p.userId p.jti, ⟨.getById p.userId, some user⟩,
          ⟨.now, n'⟩,
          did d (.rotate p.userId p.jti (markerSeconds p n')) r,
          ⟨.log (.tokenRefreshed user.userId), ()⟩] ++ is)
        (.ok issued)

/-- `AuthService.login`: idle events, and tokens for the user that was found. -/
inductive LoginTrace : List AuthEvent → Except AppError (IssuedTokens Tok) → Prop where
  | refused {pre : List AuthEvent} (h : ∀ e ∈ pre, Idle d e.op) (e : AppError) :
      LoginTrace pre (.error e)
  | issued {pre : List AuthEvent} (h : ∀ e ∈ pre, Idle d e.op) (email : String)
      {user : User} (hread : ⟨.getByEmail email, some user⟩ ∈ pre)
      (huser : user.userIsActive = true) {is : List AuthEvent} {j : String}
      {issued : IssuedTokens Tok} (hi : IssueTrace d user.userId is j issued) :
      LoginTrace (pre ++ is) (.ok issued)

/-- `AuthService.logout`. -/
inductive LogoutTrace : Option Tok → List AuthEvent → Prop where
  | absent : LogoutTrace none []
  | invalid (token : Tok) (n : Nat) (h : decodes d token n = none) :
      LogoutTrace (some token) [⟨.now, n⟩]
  | revoked (token : Tok) (n : Nat) {p : TokenPayload} (h : decodes d token n = some p)
      (r : Reply (.pipeline ((Act.revoke p.userId p.jti).cmds d))) :
      LogoutTrace (some token)
        [⟨.now, n⟩, did d (.revoke p.userId p.jti) r, ⟨.log (.logout p.userId), ()⟩]

/-- The complete requests. -/
inductive Ended : Request Tok → List AuthEvent → Except AppError (Response Tok) → Prop where
  | login {email password clientIp : String} {es : List AuthEvent}
      {o : Except AppError (IssuedTokens Tok)} (h : LoginTrace d es o) :
      Ended (.login email password clientIp) es (o.map .tokens)
  | refresh {token : Tok} {es : List AuthEvent}
      {o : Except AppError (IssuedTokens Tok)} (h : RefreshTrace d token es o) :
      Ended (.refresh token) es (o.map .tokens)
  | logout {token : Option Tok} {es : List AuthEvent} (h : LogoutTrace d token es) :
      Ended (.logout token) es (.ok .done)
  | logoutAll {u : Nat} {es : List AuthEvent} {jtis : List String}
      (h : RevokeAllTrace d u es jtis) :
      Ended (.logoutAll u) (es ++ [⟨.log (.logoutAll u jtis.length), ()⟩])
        (.ok (.revoked jtis.length))

/-! ## Spec lemmas -/

section Specs

variable {d} {req : Request Tok} {past : List AuthEvent}

/-- The post-condition that continues the earlier events by a trace. -/
abbrev after {α : Type} (past : List AuthEvent)
    (T : List AuthEvent → Except AppError α → Prop) :
    List AuthEvent → Except AppError α → Prop :=
  fun past' o => ∃ es, past' = past ++ es ∧ T es o

private theorem hist_idle {α : Type} {op : Op} {k : Reply op → AuthM α}
    {R : List AuthEvent → Except AppError α → Prop} (hop : Idle d op)
    (hk : ∀ r, (k r).Hist (Allowed d req) R (past ++ [⟨op, r⟩])) :
    Prog.Hist (Allowed d req) R (.call op k) past :=
  fun r => ⟨obeys_idle hop, hk r⟩

theorem issueTokens_hist {u : Nat}
    (hnew : ∀ e ∈ past, ∀ v k t, e.op ≠ .pipeline (saveCmds d v k t))
    (hsource : ∀ token, req = .refresh token → ∃ v k user,
      ident d token = some (v, k) ∧ verified d token v k ∈ past ∧
        ⟨.getById v, some user⟩ ∈ past ∧ u = user.userId) :
    (issueTokens d u).Hist (Allowed d req)
      (after past fun es o => ∃ j issued, IssueTrace d u es j issued ∧ o = .ok issued)
      past := by
  refine hist_idle idle_now fun n₁ => hist_idle idle_uuid4 fun j₁ =>
    hist_idle idle_now fun n₂ => hist_idle idle_uuid4 fun j r => ⟨?_, ?_⟩
  · refine obeys_act (a := .save u j _) ⟨by simp, ?_, ?_⟩
    · intro e he v k t
      simp only [List.append_assoc, List.mem_append, List.mem_singleton] at he
      rcases he with he | rfl | rfl | rfl | rfl
      · exact hnew e he v k t
      all_goals exact nofun
    · intro token htoken
      obtain ⟨v, k, user, hident, hread, huser, hu⟩ := hsource token htoken
      exact ⟨v, k, user, hident, by simp [hread], by simp [huser], hu⟩
  · exact ⟨_, by simp only [List.append_assoc, List.cons_append, List.nil_append]; rfl,
      j, _, .mk n₁ n₂ j₁ j r, rfl⟩

theorem verify_hist {u : Nat} {j : String} {token : Tok} :
    (verify d u j token).Hist (Allowed d req)
      (after past fun es o => ∃ st, VerifyTrace d token u j es st ∧ o = .ok st)
      past := by
  simp only [verify, Prog.request_bind]
  refine hist_idle (idle_read trivial rfl) fun stored => ?_
  cases stored with
  | some h =>
      by_cases hh : hashToken d token = h
      · subst hh
        simp only [verifyTokenHash, beq_self_eq_true, if_true]
        exact ⟨_, rfl, .active, .active, rfl⟩
      · simp only [verifyTokenHash, beq_iff_eq, hh, if_false]
        exact ⟨_, rfl, .forged, .forged h (Ne.symm hh), rfl⟩
  | none =>
      refine hist_idle (idle_read trivial rfl) fun present => ?_
      rw [List.append_assoc]
      cases present with
      | true => exact ⟨_, rfl, .reused, .reused, rfl⟩
      | false => exact ⟨_, rfl, .unknown, .unknown, rfl⟩

theorem revokeAll_hist {u : Nat} :
    (revokeAll u).Hist (Allowed d req)
      (after past fun es o => ∃ jtis, RevokeAllTrace d u es jtis ∧ o = .ok jtis.length)
      past := by
  refine hist_idle (idle_read trivial rfl) fun jtis r => ⟨?_, ?_⟩
  · exact obeys_act (a := .revokeAll u jtis) ⟨past, rfl⟩
  · exact ⟨_, by simp only [List.append_assoc, List.cons_append, List.nil_append]; rfl,
      jtis, .mk jtis r, rfl⟩

/-- Sequencing after a function that always returns. -/
private theorem hist_then {α β : Type} {p : AuthM α} {f : α → AuthM β}
    {T : List AuthEvent → α → Prop} {R : List AuthEvent → Except AppError β → Prop}
    (hp : p.Hist (Allowed d req) (after past fun es o => ∃ a, T es a ∧ o = .ok a) past)
    (hf : ∀ es a, T es a → (f a).Hist (Allowed d req) R (past ++ es)) :
    (p >>= f).Hist (Allowed d req) R past := by
  rw [Prog.hist_bind]
  refine hp.imp (fun _ _ h => h) ?_
  rintro _ _ ⟨es, rfl, a, ha, rfl⟩
  exact hf es a ha

/-- The branch of `refresh` that ends every session of the user. -/
private theorem compromised_hist {token : Tok} {n : Nat} {p : TokenPayload}
    (hdec : decodes d token n = some p) {vs : List AuthEvent} {state : TokenState}
    (hstate : state = .reused ∨ state = .forged)
    (hv : VerifyTrace d token p.userId p.jti vs state) :
    Prog.Hist (Allowed d req) (RefreshTrace d token)
      (revokeAll p.userId >>= fun revoked =>
        Prog.call (.log (.refreshTokenCompromiseDetected p.userId p.jti state.value
          revoked)) fun _ => .raise sessionExpired)
      (⟨.now, n⟩ :: vs) := by
  rw [Prog.hist_bind]
  refine revokeAll_hist.imp (fun _ _ h => h) ?_
  rintro _ _ ⟨rs, rfl, jtis, hr, rfl⟩
  refine hist_idle (idle_log _) fun _ => ?_
  exact .compromised n hdec hstate hv hr

/-- The branch of `refresh` for a user who is gone or inactive. -/
private theorem inactive_hist {token : Tok} {n : Nat} {p : TokenPayload}
    (hdec : decodes d token n = some p) {user : Option User}
    (huser : ∀ u, user = some u → u.userIsActive = false) :
    Prog.Hist (Allowed d req) (RefreshTrace d token)
      (revokeAll p.userId >>= fun _ => Prog.raise sessionExpired)
      [⟨.now, n⟩, verified d token p.userId p.jti, ⟨.getById p.userId, user⟩] := by
  rw [Prog.hist_bind]
  refine revokeAll_hist.imp (fun _ _ h => h) ?_
  rintro _ _ ⟨rs, rfl, jtis, hr, rfl⟩
  exact .inactive n hdec huser hr

/-- The branch of `refresh` that rotates the token and issues new ones. -/
private theorem rotated_hist {token : Tok} {n : Nat} {p : TokenPayload}
    (hdec : decodes d token n = some p) {user : User}
    (huser : user.userIsActive = true) (hid : req = .refresh token) :
    Prog.Hist (Allowed d req) (RefreshTrace d token)
      (Prog.call .now fun now =>
        rotate p.userId p.jti (((p.expiresAt : Int) - now).tdiv second) >>= fun _ =>
          Prog.call (.log (.tokenRefreshed user.userId)) fun _ =>
            issueTokens d user.userId)
      [⟨.now, n⟩, verified d token p.userId p.jti, ⟨.getById p.userId, some user⟩] := by
  have hident := ident_of_decodes hdec
  refine hist_idle idle_now fun n' => ?_
  simp only [rotate, Prog.call_bind, Prog.request_bind, Prog.pure_eq, Prog.ret_bind]
  intro r
  refine ⟨?_, hist_idle (idle_log _) fun _ => ?_⟩
  · refine obeys_act (a := .rotate p.userId p.jti _) ⟨by omega, ?_, token, hid, hident, by simp⟩
    simp [verified]
  · refine Prog.Hist.imp (fun _ _ h => h) ?_ (issueTokens_hist ?_ ?_)
    · rintro _ _ ⟨is, rfl, j, issued, hi, rfl⟩
      exact .rotated n n' hdec huser r hi
    · intro e he v k t
      simp only [List.cons_append, List.nil_append, List.mem_cons, List.not_mem_nil,
        or_false] at he
      rcases he with rfl | rfl | rfl | rfl | rfl | rfl <;>
        simp [verified, rotateCmds, saveCmds]
    · intro token' htoken
      cases hid.symm.trans htoken
      exact ⟨p.userId, p.jti, user, hident, by simp, by simp, rfl⟩

theorem refresh_hist {token : Tok} :
    (refresh d token).Hist (Allowed d (.refresh token)) (RefreshTrace d token) [] := by
  simp only [refresh, decodeToken_refresh, Prog.call_bind, Prog.request_bind,
    Prog.throw_eq, Prog.raise_bind]
  refine hist_idle idle_now fun n => ?_
  cases hdec : decodes d token n with
  | none => exact .invalid n hdec
  | some p =>
      simp only [Prog.ret_bind]
      refine hist_then (T := VerifyTrace d token p.userId p.jti) verify_hist ?_
      intro vs state hv
      cases state with
      | reused => exact compromised_hist hdec (Or.inl rfl) hv
      | forged => exact compromised_hist hdec (Or.inr rfl) hv
      | unknown => exact hist_idle (idle_log _) fun _ => .notFound n hdec hv
      | active =>
          cases hv
          refine hist_idle (idle_getById _) fun user => ?_
          cases user with
          | none => exact inactive_hist hdec (fun u hu => nomatch hu)
          | some user =>
              cases hactive : user.userIsActive with
              | false =>
                  simp only [hactive, Bool.not_false, if_true]
                  refine inactive_hist hdec ?_
                  rintro u ⟨⟩
                  exact hactive
              | true =>
                  simp only [hactive, Bool.not_true, Bool.false_eq_true, if_false]
                  exact rotated_hist hdec hactive rfl

/-- A program that leaves the session tables alone. -/
def IdleProg {α : Type} (d : Deps Tok) (p : AuthM α) : Prop :=
  ∀ (req : Request Tok) (past : List AuthEvent),
    p.Hist (Allowed d req) (after past fun es _ => ∀ e ∈ es, Idle d e.op) past

theorem idleProg_ret {α : Type} (a : α) : IdleProg d (.ret a : AuthM α) :=
  fun _ _ => ⟨[], by simp, by simp⟩

theorem idleProg_raise {α : Type} (e : AppError) : IdleProg d (.raise e : AuthM α) :=
  fun _ _ => ⟨[], by simp, by simp⟩

theorem idleProg_call {α : Type} {op : Op} {k : Reply op → AuthM α} (hop : Idle d op)
    (hk : ∀ r, IdleProg d (k r)) : IdleProg d (.call op k) := by
  intro req past
  refine hist_idle hop fun r => (hk r req _).imp (fun _ _ h => h) ?_
  rintro _ o ⟨es, rfl, hes⟩
  refine ⟨⟨op, r⟩ :: es, by simp, ?_⟩
  simpa using ⟨hop, hes⟩

theorem idleProg_bind {α β : Type} {p : AuthM α} {f : α → AuthM β}
    (hp : IdleProg d p) (hf : ∀ a, IdleProg d (f a)) : IdleProg d (p >>= f) := by
  intro req past
  rw [Prog.hist_bind]
  refine (hp req past).imp (fun _ _ h => h) ?_
  rintro _ o ⟨es, rfl, hes⟩
  cases o with
  | error e => exact ⟨es, rfl, hes⟩
  | ok a =>
      refine (hf a req _).imp (fun _ _ h => h) ?_
      rintro _ o ⟨es', rfl, hes'⟩
      refine ⟨es ++ es', by simp, ?_⟩
      intro e he
      rcases List.mem_append.mp he with he | he
      · exact hes e he
      · exact hes' e he

theorem idleProg_forM {α : Type} {f : α → AuthM Unit} :
    ∀ {l : List α}, (∀ a ∈ l, IdleProg d (f a)) → IdleProg d (l.forM f) := by
  intro l
  induction l with
  | nil => intro _; exact idleProg_ret ()
  | cons a l ih =>
      intro h
      exact idleProg_bind (h a (by simp)) fun _ => ih fun b hb => h b (by simp [hb])

theorem idleProg_checkLoginRateLimit (email clientIp : String) :
    IdleProg d (checkLoginRateLimit d email clientIp) := by
  refine idleProg_forM fun key hkey => ?_
  refine idleProg_bind (idleProg_call (idle_hit hkey) fun replies => ?_) fun result => ?_
  · show IdleProg d (if _ then _ else _)
    split
    · exact idleProg_ret _
    · exact idleProg_call (idle_read trivial rfl) fun ttl => idleProg_ret _
  · split
    · exact idleProg_call (idle_log _) fun _ => idleProg_raise _
    · exact idleProg_ret _

theorem idleProg_resetLoginRateLimit (email clientIp : String) :
    IdleProg d (resetLoginRateLimit d email clientIp) :=
  idleProg_forM fun _ hkey => idleProg_call (idle_reset hkey) fun _ => idleProg_ret _

private theorem refused_hist (hpast : ∀ e ∈ past, Idle d e.op) (entry : LogEntry) :
    Prog.Hist (Allowed d req) (LoginTrace d)
      (Prog.call (.log entry) fun _ => .raise badCredentials) past := by
  refine hist_idle (idle_log _) fun _ => .refused ?_ _
  intro e he
  rcases List.mem_append.mp he with he | he
  · exact hpast e he
  · rw [List.mem_singleton.mp he]
    exact idle_log _

private theorem issued_hist {email password clientIp : String} {user : User}
    (hpast : ∀ e ∈ past ++ [⟨.getByEmail email, some user⟩], Idle d e.op)
    (huser : user.userIsActive = true) :
    Prog.Hist (Allowed d (.login email password clientIp)) (LoginTrace d)
      (resetLoginRateLimit d email clientIp >>= fun _ =>
        Prog.call (.log (.loginSucceeded user.userId)) fun _ =>
          issueTokens d user.userId)
      (past ++ [⟨.getByEmail email, some user⟩]) := by
  rw [Prog.hist_bind]
  refine (idleProg_resetLoginRateLimit email clientIp _ _).imp (fun _ _ h => h) ?_
  rintro _ o ⟨es, rfl, hes⟩
  have hpre : ∀ e ∈ past ++ [⟨.getByEmail email, some user⟩] ++ es, Idle d e.op := by
    intro e he
    rcases List.mem_append.mp he with he | he
    · exact hpast e he
    · exact hes e he
  cases o with
  | error e => exact .refused hpre e
  | ok _ =>
      refine hist_idle (idle_log _) fun _ => ?_
      have hlogged : ∀ e ∈ past ++ [⟨.getByEmail email, some user⟩] ++ es ++
          [⟨.log (.loginSucceeded user.userId), ()⟩], Idle d e.op := by
        intro e he
        rcases List.mem_append.mp he with he | he
        · exact hpre e he
        · rw [List.mem_singleton.mp he]
          exact idle_log _
      refine Prog.Hist.imp (fun _ _ h => h) ?_ (issueTokens_hist ?_ ?_)
      rotate_left
      · exact fun e he v k t => (hlogged e he).2 (.save v k t)
      · exact fun token => nofun
      · rintro _ _ ⟨is, rfl, j, issued, hi, rfl⟩
        exact .issued hlogged email (by simp) huser hi

theorem login_hist {email password clientIp : String} :
    (login d email password clientIp).Hist (Allowed d (.login email password clientIp))
      (LoginTrace d) [] := by
  rw [login, Prog.hist_bind]
  refine (idleProg_checkLoginRateLimit email clientIp _ _).imp (fun _ _ h => h) ?_
  rintro es o ⟨_, rfl, hes⟩
  cases o with
  | error e => exact .refused hes e
  | ok _ =>
      simp only [Prog.request_bind]
      refine hist_idle (idle_getByEmail email) fun user => ?_
      have hread : ∀ e ∈ es ++ [⟨.getByEmail email, user⟩], Idle d e.op := by
        intro e he
        simp only [List.mem_append, List.mem_singleton] at he
        rcases he with he | rfl
        · exact hes e he
        · exact idle_getByEmail email
      cases user with
      | none => exact refused_hist hread _
      | some user =>
          cases hpassword : verifyPassword d password user.userPasswordHash with
          | false =>
              simp only [Bool.not_false, if_true, Prog.throw_eq, Prog.raise_bind]
              exact refused_hist hread _
          | true =>
              cases hactive : user.userIsActive with
              | false =>
                  simp only [hactive, Bool.not_false, Bool.not_true, if_true,
                    Bool.false_eq_true, if_false, Prog.throw_eq, Prog.raise_bind]
                  exact refused_hist hread _
              | true =>
                  simp only [hactive, Bool.not_true, Bool.false_eq_true, if_false]
                  exact issued_hist hread hactive

theorem logout_hist {token : Option Tok} :
    (logout d token).Hist (Allowed d (.logout token))
      (fun past o => LogoutTrace d token past ∧ o = .ok ()) [] := by
  cases token with
  | none => exact ⟨.absent, rfl⟩
  | some token =>
      simp only [logout, decodeToken_refresh]
      refine hist_idle idle_now fun n => ?_
      dsimp only
      cases hdec : decodes d token n with
      | none =>
          show LogoutTrace d (some token) _ ∧ _
          exact ⟨.invalid token n hdec, rfl⟩
      | some p =>
          show Prog.Hist _ _ (Prog.call _ _) _
          intro r
          refine ⟨?_, hist_idle (idle_log _) fun _ => ?_⟩
          · exact obeys_act (a := .revoke p.userId p.jti)
              ⟨token, rfl, ident_of_decodes hdec⟩
          · exact ⟨.revoked token n hdec r, rfl⟩

theorem logoutAll_hist {u : Nat} :
    (logoutAll u : AuthM Nat).Hist (Allowed d (.logoutAll u))
      (fun past o => ∃ es jtis, RevokeAllTrace d u es jtis ∧
        past = es ++ [⟨.log (.logoutAll u jtis.length), ()⟩] ∧ o = .ok jtis.length) [] := by
  rw [logoutAll, Prog.hist_bind]
  refine revokeAll_hist.imp (fun _ _ h => h) ?_
  rintro es _ ⟨_, rfl, jtis, h, rfl⟩
  exact hist_idle (idle_log _) fun _ => ⟨es, jtis, h, rfl, rfl⟩

private theorem hist_map {α β : Type} {p : AuthM α} {f : α → β}
    {R : List AuthEvent → Except AppError α → Prop}
    {R' : List AuthEvent → Except AppError β → Prop}
    (hp : p.Hist (Allowed d req) R past) (hR : ∀ es o, R es o → R' es (o.map f)) :
    (f <$> p).Hist (Allowed d req) R' past := by
  rw [map_eq_pure_bind, Prog.hist_bind]
  refine hp.imp (fun _ _ h => h) fun es o h => ?_
  cases o with
  | ok a => exact hR es _ h
  | error e => exact hR es _ h

/-- Every request follows the rules and ends in one of the traces. -/
theorem serve_hist (req : Request Tok) :
    (serve d req).Hist (Allowed d req) (Ended d req) [] := by
  cases req with
  | login email password clientIp => exact hist_map login_hist fun _ _ h => .login h
  | refresh token => exact hist_map refresh_hist fun _ _ h => .refresh h
  | logout token =>
      refine hist_map logout_hist ?_
      rintro es _ ⟨h, rfl⟩
      exact .logout h
  | logoutAll u =>
      refine hist_map logoutAll_hist ?_
      rintro _ _ ⟨es, jtis, h, rfl, rfl⟩
      exact Ended.logoutAll h

end Specs

/-! ## Traces that occur -/

section Occur

variable {d}

/-- The events of a successful refresh up to the rotation. -/
def refreshFront (d : Deps Tok) (token : Tok) (p : TokenPayload) (user : User)
    (n n' : Nat) : List AuthEvent :=
  [⟨.now, n⟩, verified d token p.userId p.jti, ⟨.getById p.userId, some user⟩, ⟨.now, n'⟩]

/-- The events of a successful refresh from the rotation on. -/
def refreshBack (d : Deps Tok) (p : TokenPayload) (user : User) (n' n₁ n₂ : Nat)
    (j₁ j : String)
    (r : Reply (.pipeline ((Act.rotate p.userId p.jti (markerSeconds p n')).cmds d)))
    (r' : Reply (.pipeline ((Act.save user.userId j
      (hashToken d (refreshJwt d user.userId j n₂))).cmds d))) : List AuthEvent :=
  [did d (.rotate p.userId p.jti (markerSeconds p n')) r,
    ⟨.log (.tokenRefreshed user.userId), ()⟩, ⟨.now, n₁⟩, ⟨.uuid4, j₁⟩, ⟨.now, n₂⟩,
    ⟨.uuid4, j⟩,
    did d (.save user.userId j (hashToken d (refreshJwt d user.userId j n₂))) r']

theorem refresh_runs {token : Tok} {n n' n₁ n₂ : Nat} {j₁ j : String} {p : TokenPayload}
    (hdec : decodes d token n = some p) (user : User) (huser : user.userIsActive = true)
    (r : Reply (.pipeline ((Act.rotate p.userId p.jti (markerSeconds p n')).cmds d)))
    (r' : Reply (.pipeline ((Act.save user.userId j
      (hashToken d (refreshJwt d user.userId j n₂))).cmds d))) :
    (serve d (.refresh token)).Runs
      (refreshFront d token p user n n' ++ refreshBack d p user n' n₁ n₂ j₁ j r r')
      (.ret (.tokens (issuedTokens d user.userId n₁ n₂ j₁ j))) := by
  have hverify : verifyTokenHash d token (hashToken d token) = true := by
    simp [verifyTokenHash]
  simp only [serve, refresh, decodeToken_refresh, Prog.call_bind, Prog.request_bind,
    Prog.throw_eq, Prog.raise_bind, map_eq_pure_bind, verify, bind_assoc]
  refine .cons ?_
  simp only [hdec, Prog.ret_bind]
  refine .cons ?_
  simp only [hverify]
  refine .cons ?_
  simp only [huser]
  exact .cons (.cons (.cons (.cons (.cons (.cons (.cons (.cons .nil)))))))

/-- The events of a mass revocation. -/
def logoutAllEvents (d : Deps Tok) (u : Nat) (jtis : List String)
    (r : Reply (.pipeline ((Act.revokeAll u jtis).cmds d))) : List AuthEvent :=
  [⟨.redis (.smembers (indexKey u)), jtis⟩, did d (.revokeAll u jtis) r,
    ⟨.log (.logoutAll u jtis.length), ()⟩]

theorem logoutAll_runs (u : Nat) (jtis : List String)
    (r : Reply (.pipeline ((Act.revokeAll u jtis).cmds d))) :
    (serve d (.logoutAll u)).Runs (logoutAllEvents d u jtis r)
      (.ret (.revoked jtis.length)) :=
  .cons (.cons (.cons .nil))

theorem save_mem_refreshBack {p : TokenPayload} {user : User} {n' n₁ n₂ : Nat}
    {j₁ j : String}
    (r : Reply (.pipeline ((Act.rotate p.userId p.jti (markerSeconds p n')).cmds d)))
    (r' : Reply (.pipeline ((Act.save user.userId j
      (hashToken d (refreshJwt d user.userId j n₂))).cmds d))) :
    did d (.save user.userId j (hashToken d (refreshJwt d user.userId j n₂))) r' ∈
      refreshBack d p user n' n₁ n₂ j₁ j r r' :=
  List.mem_of_getLast? rfl

/-- The verification read of an active token. -/
theorem step_get {s : State} {u : Nat} {j h : String} {t : WithTop Nat}
    (hk : s.token u j = some ⟨.str h, t⟩) :
    step d s (.redis (.get (tokenKey u j))) (some h)
      { s with redis := purge s.clock s.redis } := by
  rw [State.token] at hk
  exact ⟨by simp [exec, Cmd.run, hk], rfl⟩

/-- A token that was issued decodes to its owner and name until it expires. -/
theorem decodes_refreshJwt {u n now : Nat} {j : String} (hn : n ≤ now)
    (hexp : now < ticks ((n + d.settings.ttl) / second)) :
    decodes d (refreshJwt d u j n) now = some
      { userId := u
        tokenType := .refresh
        jti := j
        expiresAt := ticks ((n + d.settings.ttl) / second) } := by
  have hiat : ticks (n / second) ≤ now :=
    Nat.le_trans (Nat.mul_div_le n second) hn
  simp [decodes, refreshJwt, d.jwtDecode_encode, Nat.not_lt.mpr hiat,
    Nat.not_le.mpr hexp]

/-- A refresh of a token that is neither active nor marked. -/
def unknownEvents (p : TokenPayload) (n : Nat) : List AuthEvent :=
  [⟨.now, n⟩, ⟨.redis (.get (tokenKey p.userId p.jti)), none⟩,
    ⟨.redis (.exists (usedKey p.userId p.jti)), false⟩,
    ⟨.log (.refreshTokenNotFound p.userId p.jti), ()⟩]

theorem unknown_runs {token : Tok} {n : Nat} {p : TokenPayload}
    (hdec : decodes d token n = some p) :
    (refresh d token).Runs (unknownEvents p n) (.raise sessionExpired) := by
  simp only [refresh, decodeToken_refresh, Prog.call_bind, Prog.request_bind, Prog.throw_eq,
    Prog.raise_bind, verify]
  refine .cons ?_
  simp only [hdec, Prog.ret_bind]
  exact .cons (.cons (.cons .nil))

theorem refresh_unknown_runs {token : Tok} {n : Nat} {p : TokenPayload}
    (hdec : decodes d token n = some p) :
    (serve d (.refresh token)).Runs (unknownEvents p n) (.raise sessionExpired) :=
  Prog.Runs.map_raise Response.tokens (unknown_runs hdec)

theorem refresh_unknown_chain {C : Type} (c : C) {s : State} {p : TokenPayload} {n : Nat}
    (hn : s.clock = n) (htoken : s.token p.userId p.jti = none)
    (hused : s.used p.userId p.jti = none) :
    ∃ s', Chain (sem C d) s ((unknownEvents p n).map (.call c)) s' := by
  subst hn
  have hget : (none : Option String) =
      (exec s.clock s.redis (.get (tokenKey p.userId p.jti))).1 := by
    rw [State.token] at htoken
    simp [exec, Cmd.run, htoken]
  have hexists : false = (exec s.clock (purge s.clock s.redis)
      (.exists (usedKey p.userId p.jti))).1 := by
    rw [State.used] at hused
    simp [exec, Cmd.run, purge_purge, hused]
  exact ⟨_, .call ⟨rfl, rfl⟩ (.call ⟨hget, rfl⟩ (.call ⟨hexists, rfl⟩ (.call rfl .nil)))⟩

/-- A refresh of a token that was rotated. -/
def reusedEvents (d : Deps Tok) (p : TokenPayload) (n : Nat) (jtis : List String)
    (r : Reply (.pipeline ((Act.revokeAll p.userId jtis).cmds d))) : List AuthEvent :=
  [⟨.now, n⟩, ⟨.redis (.get (tokenKey p.userId p.jti)), none⟩,
    ⟨.redis (.exists (usedKey p.userId p.jti)), true⟩,
    ⟨.redis (.smembers (indexKey p.userId)), jtis⟩, did d (.revokeAll p.userId jtis) r,
    ⟨.log (.refreshTokenCompromiseDetected p.userId p.jti TokenState.reused.value
      jtis.length), ()⟩]

theorem refresh_reused_runs {token : Tok} {n : Nat} {p : TokenPayload}
    (hdec : decodes d token n = some p) (jtis : List String)
    (r : Reply (.pipeline ((Act.revokeAll p.userId jtis).cmds d))) :
    (serve d (.refresh token)).Runs (reusedEvents d p n jtis r) (.raise sessionExpired) := by
  simp only [serve, refresh, decodeToken_refresh, Prog.call_bind, Prog.request_bind,
    Prog.throw_eq, Prog.raise_bind, map_eq_pure_bind, verify, bind_assoc]
  refine .cons ?_
  simp only [hdec, Prog.ret_bind]
  exact .cons (.cons (.cons (.cons (.cons .nil))))

theorem refresh_reused_chain {C : Type} (c : C) {s : State} {p : TokenPayload} {n : Nat}
    (hn : s.clock = n) (htoken : s.token p.userId p.jti = none)
    (hused : (s.used p.userId p.jti).isSome) :
    ∃ s' jtis r, Chain (sem C d) s ((reusedEvents d p n jtis r).map (.call c)) s' := by
  subst hn
  have hget : (none : Option String) =
      (exec s.clock s.redis (.get (tokenKey p.userId p.jti))).1 := by
    rw [State.token] at htoken
    simp [exec, Cmd.run, htoken]
  have hexists : true = (exec s.clock (purge s.clock s.redis)
      (.exists (usedKey p.userId p.jti))).1 := by
    rw [State.used] at hused
    simp [exec, Cmd.run, purge_purge, hused]
  exact ⟨_, _, _, .call ⟨rfl, rfl⟩ (.call ⟨hget, rfl⟩ (.call ⟨hexists, rfl⟩
    (.call ⟨rfl, rfl⟩ (.call ⟨rfl, rfl⟩ (.call rfl .nil)))))⟩

/-! The pipelines among these events. -/

section Pipelines

variable {p : TokenPayload} {e : AuthEvent} {a : Act}

theorem act_of_unknown {n : Nat} (he : e ∈ unknownEvents p n) :
    e.op ≠ .pipeline (a.cmds d) := by
  simp only [unknownEvents, List.mem_cons, List.not_mem_nil, or_false] at he
  rcases he with rfl | rfl | rfl | rfl <;> exact nofun

theorem act_of_reused {n : Nat} {jtis : List String}
    {r : Reply (.pipeline ((Act.revokeAll p.userId jtis).cmds d))}
    (he : e ∈ reusedEvents d p n jtis r) (ha : e.op = .pipeline (a.cmds d)) :
    a = .revokeAll p.userId jtis := by
  simp only [reusedEvents, List.mem_cons, List.not_mem_nil, or_false] at he
  rcases he with rfl | rfl | rfl | rfl | rfl | rfl
  case inr.inr.inr.inr.inl =>
    injection ha with hcmds
    exact (Act.cmds_inj (a := .revokeAll p.userId jtis) hcmds).symm
  all_goals cases ha

theorem act_of_logoutAll {u : Nat} {jtis : List String}
    {r : Reply (.pipeline ((Act.revokeAll u jtis).cmds d))}
    (he : e ∈ logoutAllEvents d u jtis r) (ha : e.op = .pipeline (a.cmds d)) :
    a = .revokeAll u jtis := by
  simp only [logoutAllEvents, List.mem_cons, List.not_mem_nil, or_false] at he
  rcases he with rfl | rfl | rfl
  case inr.inl =>
    injection ha with hcmds
    exact (Act.cmds_inj (a := .revokeAll u jtis) hcmds).symm
  all_goals cases ha

theorem act_of_refresh {token : Tok} {user : User} {n n' n₁ n₂ : Nat} {j₁ j : String}
    {r : Reply (.pipeline ((Act.rotate p.userId p.jti (markerSeconds p n')).cmds d))}
    {r' : Reply (.pipeline ((Act.save user.userId j
      (hashToken d (refreshJwt d user.userId j n₂))).cmds d))}
    (he : e ∈ refreshFront d token p user n n' ++ refreshBack d p user n' n₁ n₂ j₁ j r r')
    (ha : e.op = .pipeline (a.cmds d)) :
    a = .rotate p.userId p.jti (markerSeconds p n') ∨
      a = .save user.userId j (hashToken d (refreshJwt d user.userId j n₂)) := by
  rcases List.mem_append.mp he with he | he
  · simp only [refreshFront, List.mem_cons, List.not_mem_nil, or_false] at he
    rcases he with rfl | rfl | rfl | rfl <;> cases ha
  · simp only [refreshBack, List.mem_cons, List.not_mem_nil, or_false] at he
    rcases he with rfl | rfl | rfl | rfl | rfl | rfl | rfl
    case inl =>
      injection ha with hcmds
      exact Or.inl (Act.cmds_inj (a := .rotate _ _ _) hcmds).symm
    case inr.inr.inr.inr.inr.inr =>
      injection ha with hcmds
      exact Or.inr (Act.cmds_inj (a := .save _ _ _) hcmds).symm
    all_goals cases ha

theorem not_smembers_of_refresh {token : Tok} {user : User} {n n' n₁ n₂ : Nat} {j₁ j k : String}
    {r : Reply (.pipeline ((Act.rotate p.userId p.jti (markerSeconds p n')).cmds d))}
    {r' : Reply (.pipeline ((Act.save user.userId j
      (hashToken d (refreshJwt d user.userId j n₂))).cmds d))}
    (he : e ∈ refreshFront d token p user n n' ++ refreshBack d p user n' n₁ n₂ j₁ j r r') :
    e.op ≠ .redis (.smembers k) := by
  simp only [refreshFront, refreshBack, List.mem_append, List.mem_cons, List.not_mem_nil,
    or_false] at he
  rcases he with (rfl | rfl | rfl | rfl) | rfl | rfl | rfl | rfl | rfl | rfl | rfl <;>
    exact nofun

end Pipelines

theorem token_purged (s : State) (u : Nat) (j : String) :
    State.token { s with redis := purge s.clock s.redis } u j = s.token u j :=
  congrFun (purge_purge (Nat.le_refl _) _) _

/-- The reads of a refresh of an active token, all at one instant. -/
theorem front_chain {C : Type} (c : C) (token : Tok) (p : TokenPayload) (user : User)
    {s : State} {t : WithTop Nat} {n : Nat} (hn : s.clock = n)
    (hk : s.token p.userId p.jti = some ⟨.str (hashToken d token), t⟩)
    (hu : getById s p.userId = some user) :
    Chain (sem C d) s ((refreshFront d token p user n n).map (.call c))
      { s with redis := purge n s.redis } := by
  subst hn
  exact .call ⟨rfl, rfl⟩ (.call (step_get (d := d) hk) (.call ⟨hu.symm, rfl⟩
    (.call ⟨rfl, rfl⟩ .nil)))

/-- The state `s'` after a refresh with the payload `p` in the state `s`, all at the instant
`n`. -/
structure Turned (d : Deps Tok) (s s' : State) (p : TokenPayload) (userId n : Nat)
    (j₁ j : String) : Prop where
  clock : s'.clock = n
  users : s'.users = s.users
  uuids : s'.uuids = j :: j₁ :: s.uuids
  token : s'.token userId j = some ⟨.str (hashToken d (refreshJwt d userId j n)),
    ((n + d.settings.ttl : Nat) : WithTop Nat)⟩
  gone : p.jti ≠ j → s'.token p.userId p.jti = none
  index : j ∈ s'.index userId
  marked : (s'.used p.userId p.jti).isSome
  unmarked : ∀ v k, ¬ (v = p.userId ∧ k = p.jti) → s'.used v k = s.used v k

/-- The rotation and the new tokens of a refresh, all at one instant. -/
theorem back_chain {C : Type} (c : C) (s : State) (p : TokenPayload) (user : User)
    (n' : Nat) {n : Nat} (hn : s.clock = n) (j₁ j : String) (h₁ : j₁ ∉ s.uuids)
    (h₂ : j ∉ j₁ :: s.uuids) :
    ∃ s' r r', Chain (sem C d) s
        ((refreshBack d p user n' n n j₁ j r r').map (.call c)) s' ∧
      Turned d s s' p user.userId n j₁ j := by
  subst hn
  have ha : (Act.rotate p.userId p.jti (markerSeconds p n')).Timed := by
    show 0 < (max (((p.expiresAt : Int) - n').tdiv second) 1).toNat
    omega
  have hb : (Act.save user.userId j (hashToken d (refreshJwt d user.userId j s.clock))).Timed :=
    trivial
  have hrotate : step d s
      (.pipeline ((Act.rotate p.userId p.jti (markerSeconds p n')).cmds d)) _ _ := ⟨rfl, rfl⟩
  let s₁ : State :=
    { s with
      redis := (pipeline s.clock s.redis (rotateCmds p.userId p.jti (markerSeconds p n'))).2
      uuids := j :: j₁ :: s.uuids }
  have hsave : step d s₁ (.pipeline ((Act.save user.userId j
      (hashToken d (refreshJwt d user.userId j s.clock))).cmds d)) _ _ := ⟨rfl, rfl⟩
  refine ⟨_, _, _, .call hrotate (.call rfl (.call ⟨rfl, rfl⟩ (.call ⟨h₁, rfl⟩
    (.call ⟨rfl, rfl⟩ (.call ⟨h₂, rfl⟩ (.call hsave .nil)))))), rfl, rfl, rfl, ?_, ?_, ?_, ?_,
    ?_⟩
  · exact (token_act hb hsave _ _ _).mpr (Or.inl ⟨_, rfl, rfl⟩)
  · intro hne
    by_contra hlive
    obtain ⟨e, he⟩ := Option.ne_none_iff_exists'.mp hlive
    rcases (token_act hb hsave _ _ _).mp he with ⟨t, ht, _⟩ | ⟨_, _, he⟩
    · injection ht with _ hj
      exact hne hj.symm
    · rcases (token_act ha hrotate _ _ _).mp he with ⟨t, ht, _⟩ | ⟨_, hkill, _⟩
      · cases ht
      · exact hkill ⟨rfl, rfl⟩
  · exact (index_act hb hsave _ _).mpr (Or.inl ⟨_, rfl⟩)
  · exact Option.isSome_iff_exists.mpr ⟨_, (used_act hb hsave _ _ _).mpr
      (Or.inr ⟨nofun, (used_act ha hrotate _ _ _).mpr (Or.inl ⟨_, rfl, rfl⟩)⟩)⟩
  · intro v k hne
    refine Option.ext fun e => (used_act hb hsave v k e).trans ⟨?_, fun he => ?_⟩
    · rintro (⟨_, ht, _⟩ | ⟨_, he⟩)
      · cases ht
      · rcases (used_act ha hrotate v k e).mp he with ⟨_, ht, _⟩ | ⟨_, he⟩
        · cases ht
          exact absurd ⟨rfl, rfl⟩ hne
        · exact he
    · refine Or.inr ⟨nofun, (used_act ha hrotate v k e).mpr (Or.inr ⟨?_, he⟩)⟩
      rintro _ ⟨⟩
      exact hne ⟨rfl, rfl⟩

/-- A mass revocation with nothing in between. -/
theorem logoutAll_chain {C : Type} (c : C) (s : State) (u : Nat) :
    ∃ s' jtis r, Chain (sem C d) s ((logoutAllEvents d u jtis r).map (.call c)) s' ∧
      s'.clock = s.clock ∧ s'.users = s.users ∧ s'.uuids = s.uuids ∧
      (∀ v k, s'.used v k = s.used v k) ∧ ∀ j ∈ s.index u, s'.token u j = none := by
  have htimed : (Act.revokeAll u (s.index u)).Timed := trivial
  have hread : step d s (.redis (.smembers (indexKey u))) _ _ := ⟨rfl, rfl⟩
  have hsame := (idle_read (d := d) (c := .smembers (indexKey u)) trivial rfl).1 _ _ _ hread
  have hdelete : step d { s with redis := (exec s.clock s.redis (.smembers (indexKey u))).2 }
      (.pipeline ((Act.revokeAll u (s.index u)).cmds d)) _ _ := ⟨rfl, rfl⟩
  refine ⟨_, s.index u, _, .call hread (.call hdelete (.call rfl .nil)), rfl, rfl, rfl, ?_, ?_⟩
  · intro v k
    refine Option.ext fun e => (used_act htimed hdelete v k e).trans ?_
    rw [hsame.used]
    refine ⟨fun h => (h.resolve_left ?_).2, fun h => Or.inr ⟨nofun, h⟩⟩
    rintro ⟨_, ht, _⟩
    cases ht
  · intro j hj
    by_contra hlive
    obtain ⟨e, he⟩ := Option.ne_none_iff_exists'.mp hlive
    rcases (token_act htimed hdelete u j e).mp he with ⟨_, ht, _⟩ | ⟨_, hkill, _⟩
    · cases ht
    · exact hkill ⟨rfl, hj⟩

end Occur

/-! ## A sample login -/

/-- The sample user has logged in. -/
def loggedIn : State :=
  { freshState with
    redis := (pipeline 0 freshState.redis (saveCmds sample 1 "j" "j")).2
    uuids := ["j"] }

/-- The refresh token of that login. -/
def loginToken : Claims := refreshJwt sample 1 "j" 0

theorem token_loggedIn :
    loggedIn.token 1 "j" = some ⟨.str "j", ((0 + sample.settings.ttl : Nat) : WithTop Nat)⟩ :=
  (token_act (d := sample) (a := .save 1 "j" "j") trivial
    (s := { freshState with uuids := ["j"] }) ⟨rfl, rfl⟩ 1 "j" _).mpr
    (Or.inl ⟨"j", rfl, rfl⟩)

theorem live_loggedIn {u : Nat} {j : String} (hj : (loggedIn.token u j).isSome) :
    j ∈ loggedIn.uuids := by
  obtain ⟨e, he⟩ := Option.isSome_iff_exists.mp hj
  rcases (token_act (d := sample) (a := .save 1 "j" "j") trivial
    (s := { freshState with uuids := ["j"] }) ⟨rfl, rfl⟩ u j e).mp he with
    ⟨t, ht, _⟩ | ⟨_, _, he⟩
  · cases ht
    exact List.mem_cons_self
  · cases he

def loginPayload : TokenPayload :=
  { userId := 1
    tokenType := .refresh
    jti := "j"
    expiresAt := ticks ((0 + sample.settings.ttl) / second) }

theorem decodes_loginToken : decodes sample loginToken 0 = some loginPayload :=
  decodes_refreshJwt (Nat.le_refl 0) (by decide)

end GreenCommunity.Auth
