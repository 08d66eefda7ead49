import GreenCommunity.Auth.Counters
import GreenCommunity.Auth.Router

/-!
# The events of complete visits

What a browser does from the first event of a visit to the last, with the replies it gets on
the way: a login that the limiter lets through, a mass logout with an access token, and a
refresh of a token that is gone.
-/

namespace GreenCommunity.Auth

open GreenCommunity.Base
open GreenCommunity.Base.Redis

variable {Tok : Type} {d : Deps Tok}

/-! ## A login -/

section Login

variable {email clientIp : String} {user : User} {n n₁ n₂ : Nat} {j₁ j : String}
  {r : Replies (hitCmds (emailKey d email) d.settings.loginRateLimitWindowSeconds)}
  {r' : Replies (hitCmds (ipKey clientIp) d.settings.loginRateLimitWindowSeconds)}

/-- A login, up to the new tokens. -/
def loginFront (d : Deps Tok) (email clientIp : String) (user : User)
    (r : Replies (hitCmds (emailKey d email) d.settings.loginRateLimitWindowSeconds))
    (r' : Replies (hitCmds (ipKey clientIp) d.settings.loginRateLimitWindowSeconds)) :
    List AuthEvent :=
  [⟨.pipeline (hitCmds (emailKey d email) d.settings.loginRateLimitWindowSeconds), r⟩,
    ⟨.pipeline (hitCmds (ipKey clientIp) d.settings.loginRateLimitWindowSeconds), r'⟩,
    ⟨.getByEmail email, some user⟩, ⟨.redis (.del [emailKey d email]), ()⟩,
    ⟨.redis (.del [ipKey clientIp]), ()⟩, ⟨.log (.loginSucceeded user.userId), ()⟩]

/-- The issuing of tokens. -/
def issueEvents (d : Deps Tok) (u n₁ n₂ : Nat) (j₁ j : String)
    (r : Reply (.pipeline ((Act.save u j (hashToken d (refreshJwt d u j n₂))).cmds d))) :
    List AuthEvent :=
  [⟨.now, n₁⟩, ⟨.uuid4, j₁⟩, ⟨.now, n₂⟩, ⟨.uuid4, j⟩,
    did d (.save u j (hashToken d (refreshJwt d u j n₂))) r]

theorem login_runs {password : String}
    (hr : r.1 ≤ (d.settings.loginRateLimitMaxAttempts : Int))
    (hr' : r'.1 ≤ (d.settings.loginRateLimitMaxAttempts : Int))
    (hverified : verifyPassword d password user.userPasswordHash = true)
    (hactive : user.userIsActive = true)
    (q : Reply (.pipeline ((Act.save user.userId j
      (hashToken d (refreshJwt d user.userId j n₂))).cmds d))) :
    (login d email password clientIp).Runs
      (loginFront d email clientIp user r r' ++ issueEvents d user.userId n₁ n₂ j₁ j q)
      (.ret (issuedTokens d user.userId n₁ n₂ j₁ j)) := by
  unfold login checkLoginRateLimit resetLoginRateLimit
  simp only [rateLimitKeys_eq, List.forM_eq_forM, List.forM_cons, List.forM_nil, bind_assoc,
    hit_bind]
  refine .cons ?_
  simp only [hr, if_true, Bool.not_true, Bool.false_eq_true, if_false, Prog.pure_eq,
    Prog.ret_bind, Prog.throw_eq, Prog.raise_bind, Prog.request_bind]
  refine .cons ?_
  simp only [hr', if_true, Prog.bind]
  refine .cons ?_
  simp only [hverified, hactive, Bool.not_true, Bool.false_eq_true, if_false]
  exact .cons (.cons (.cons (.cons (.cons (.cons (.cons (.cons .nil)))))))

/-- The attempt is counted, and the counters are gone once the password is right. -/
theorem loginFront_chain {C : Type} (c : C) (email clientIp : String) (user : User) {s : State}
    (hemail : CounterIs s (emailKey d email) none) (hip : CounterIs s (ipKey clientIp) none)
    (huser : getByEmail d s email = some user) :
    ∃ s' r r', Chain (sem C d) s ((loginFront d email clientIp user r r').map (.call c)) s' ∧
      (r.1 = (1 : Int) ∧ r'.1 = (1 : Int)) ∧ s'.clock = s.clock ∧ s'.users = s.users ∧
      s'.uuids = s.uuids ∧ SameTables s s' := by
  have hpos := d.settings.loginRateLimitWindowSeconds_pos
  have hne := emailKey_ne_ipKey (d := d) email clientIp
  have hkeys : ∀ key ∈ [emailKey d email, ipKey clientIp],
      key ∈ rateLimitKeys d email clientIp := fun _ h => h
  obtain ⟨s₁, r, hhit, husers₁, huuids₁⟩ : ∃ s₁ r, step d s
      (.pipeline (hitCmds (emailKey d email) d.settings.loginRateLimitWindowSeconds)) r s₁ ∧
      s₁.users = s.users ∧ s₁.uuids = s.uuids := ⟨_, _, ⟨rfl, rfl⟩, rfl, rfl⟩
  obtain ⟨s₂, r', hhit', husers₂, huuids₂⟩ : ∃ s₂ r', step d s₁
      (.pipeline (hitCmds (ipKey clientIp) d.settings.loginRateLimitWindowSeconds)) r' s₂ ∧
      s₂.users = s.users ∧ s₂.uuids = s.uuids := ⟨_, _, ⟨rfl, rfl⟩, husers₁, huuids₁⟩
  obtain ⟨s₃, hdel, husers₃, huuids₃⟩ : ∃ s₃, step d s₂ (.redis (.del [emailKey d email])) () s₃ ∧
      s₃.users = s.users ∧ s₃.uuids = s.uuids := ⟨_, ⟨rfl, rfl⟩, husers₂, huuids₂⟩
  obtain ⟨s₄, hdel', husers₄, huuids₄⟩ : ∃ s₄, step d s₃ (.redis (.del [ipKey clientIp])) () s₄ ∧
      s₄.users = s.users ∧ s₄.uuids = s.uuids := ⟨_, ⟨rfl, rfl⟩, husers₃, huuids₃⟩
  have hclock : s₄.clock = s.clock :=
    (step_clock hdel').trans ((step_clock hdel).trans ((step_clock hhit').trans
      (step_clock hhit)))
  obtain ⟨hr, _⟩ := hemail.hit hpos hhit
  obtain ⟨hr', _⟩ := (CounterIs.spared (spares_hit hne.symm _) hhit hip).hit hpos hhit'
  have hsame : SameTables s s₄ :=
    ((((idle_hit (hkeys _ (by simp))).1 _ _ _ hhit).trans
      ((idle_hit (hkeys _ (by simp))).1 _ _ _ hhit')).trans
      ((idle_reset (hkeys _ (by simp))).1 _ _ _ hdel)).trans
      ((idle_reset (hkeys _ (by simp))).1 _ _ _ hdel')
  have hlookup : step d s₂ (.getByEmail email) (some user) s₂ := by
    refine ⟨?_, rfl⟩
    rw [← huser, getByEmail, getByEmail, husers₂]
  exact ⟨s₄, r, r',
    .call hhit (.call hhit' (.call hlookup (.call hdel (.call hdel' (.call rfl .nil))))),
    ⟨hr, hr'⟩, hclock, husers₄, huuids₄, hsame⟩

/-- A first login, all at one instant. -/
theorem login_chain {C : Type} (c : C) (email clientIp : String) (user : User) (j₁ j : String)
    {s : State} (hn : s.clock = n)
    (hemail : CounterIs s (emailKey d email) none) (hip : CounterIs s (ipKey clientIp) none)
    (huser : getByEmail d s email = some user) (h₁ : j₁ ∉ s.uuids) (h₂ : j ∉ j₁ :: s.uuids) :
    ∃ s' r r' q, Chain (sem C d) s ((loginFront d email clientIp user r r' ++
        issueEvents d user.userId n n j₁ j q).map (.call c)) s' ∧
      (r.1 = (1 : Int) ∧ r'.1 = (1 : Int)) ∧ s'.clock = n ∧ s'.users = s.users ∧
      j ∈ s'.index user.userId ∧ ∀ v k, s'.used v k = s.used v k := by
  subst hn
  obtain ⟨s₁, r, r', hchain, hone, hclock, husers, huuids, hsame⟩ :=
    loginFront_chain c email clientIp user hemail hip huser
  have hb : (Act.save user.userId j (hashToken d (refreshJwt d user.userId j s.clock))).Timed :=
    trivial
  obtain ⟨s₂, q, hsave, husers₂, hclock₂⟩ : ∃ s₂ q, step d
      { s₁ with uuids := j :: j₁ :: s.uuids } (.pipeline ((Act.save user.userId j
        (hashToken d (refreshJwt d user.userId j s.clock))).cmds d)) q s₂ ∧
      s₂.users = s.users ∧ s₂.clock = s₁.clock := ⟨_, _, ⟨rfl, rfl⟩, husers, rfl⟩
  have hissue : Chain (sem C d) s₁
      ((issueEvents d user.userId s.clock s.clock j₁ j q).map (.call c)) s₂ := by
    refine .call ⟨hclock.symm, rfl⟩ (.call ⟨huuids ▸ h₁, rfl⟩ (.call ⟨hclock.symm, rfl⟩
      (.call ⟨?_, rfl⟩ (.call ?_ .nil))))
    · rw [huuids]
      exact h₂
    · rw [huuids]
      exact hsave
  refine ⟨s₂, r, r', q, ?_, hone, hclock₂.trans hclock, husers₂,
    (index_act hb hsave _ _).mpr (Or.inl ⟨_, rfl⟩), fun v k => ?_⟩
  · rw [List.map_append]
    exact hchain.append hissue
  · refine Option.ext fun e => (used_act hb hsave v k e).trans ?_
    rw [show State.used { s₁ with uuids := j :: j₁ :: s.uuids } v k = s₁.used v k from rfl,
      hsame.used]
    refine ⟨fun h => (h.resolve_left ?_).2, fun h => Or.inr ⟨nofun, h⟩⟩
    rintro ⟨_, ht, _⟩
    cases ht

end Login

/-! ## An access token -/

/-- The payload of an access token that `_issue_tokens` returned. -/
def accessPayload (d : Deps Tok) (u n : Nat) (j : String) : TokenPayload where
  userId := u
  tokenType := .access
  jti := j
  expiresAt := ticks ((n + ticks (d.settings.accessTokenExpireMinutes * 60)) / second)

theorem decodeToken_access {u n n₂ now : Nat} {j₁ j : String} (hn : n ≤ now)
    (hexp : now < (accessPayload d u n j₁).expiresAt) :
    (decodeToken d (issuedTokens d u n n₂ j₁ j).accessToken .access).Runs [⟨.now, now⟩]
      (.ret (accessPayload d u n j₁)) := by
  have hiat : ticks (n / second) ≤ now := Nat.le_trans (Nat.mul_div_le n second) hn
  unfold accessPayload at hexp
  simp only [decodeToken, issuedTokens, d.jwtDecode_encode, Prog.request_bind]
  refine .cons ?_
  simpa [Nat.not_lt.mpr hiat, Nat.not_le.mpr hexp, accessPayload] using Prog.Runs.nil

theorem currentUser_runs {user : User} {n n₂ now : Nat} {j₁ j : String} (hn : n ≤ now)
    (hexp : now < (accessPayload d user.userId n j₁).expiresAt)
    (hactive : user.userIsActive = true) :
    (currentUser d (some (issuedTokens d user.userId n n₂ j₁ j).accessToken)).Runs
      [⟨.now, now⟩, ⟨.getById user.userId, some user⟩] (.ret user) := by
  refine (decodeToken_access hn hexp).bind (.cons ?_)
  simpa [hactive, Prog.bind] using Prog.Runs.nil

/-- The events of a mass logout with that token. -/
def allEvents (d : Deps Tok) (user : User) (n : Nat) (jtis : List String)
    (q : Reply (.pipeline ((Act.revokeAll user.userId jtis).cmds d))) : List AuthEvent :=
  [⟨.now, n⟩, ⟨.getById user.userId, some user⟩] ++ logoutAllEvents d user.userId jtis q

/-! ## Visits -/

section Visits

variable {r : Routing} {jar : Jar Tok} {vs : List (Visit Tok)} {es : List AuthEvent}

/-- A visit that is answered. -/
theorem browse_runs {v : Visit Tok} {cookie : Option (Cookie Tok)}
    (h : (visit d r jar v).Runs es (.ret cookie)) :
    (browse d r jar (v :: vs)).Runs es (browse d r (jar.after v cookie) vs) :=
  (h.handle _).bind_left _

/-- A visit that fails: no cookie is set. -/
theorem browse_fails {v : Visit Tok} {e : AppError} (h : (visit d r jar v).Runs es (.raise e)) :
    (browse d r jar (v :: vs)).Runs es (browse d r (jar.after v none) vs) :=
  (h.handle _).bind_left _

/-- The login sets the cookie with the new refresh token. -/
theorem visit_login_runs {email password : String} {client : Option String}
    {tokens : IssuedTokens Tok}
    (h : (login d email password (clientIp client)).Runs es (.ret tokens)) :
    (visit d r jar (.login email password client)).Runs es
      (.ret (some (refreshCookie d r tokens.refreshToken))) :=
  (h.bind_left _).bind_left _

/-- The session ends everywhere, and the cookie is cleared. -/
theorem visit_logoutAll_runs (user : User) {n n₁ n₂ : Nat} {j₁ j : String}
    (hn : n₁ ≤ n) (hexp : n < (accessPayload d user.userId n₁ j₁).expiresAt)
    (hactive : user.userIsActive = true) (jtis : List String)
    (q : Reply (.pipeline ((Act.revokeAll user.userId jtis).cmds d))) :
    (visit d r jar (.logoutAll (some (issuedTokens d user.userId n₁ n₂ j₁ j).accessToken))).Runs
      (allEvents d user n jtis q) (.ret (some (clearedCookie r))) := by
  have hrevoked : (logoutAll user.userId).Runs (logoutAllEvents d user.userId jtis q)
      (.ret jtis.length) := .cons (.cons (.cons .nil))
  have hall : (Router.logoutAll d r (some
      (issuedTokens d user.userId n₁ n₂ j₁ j).accessToken)).Runs (allEvents d user n jtis q) _ :=
    (currentUser_runs hn hexp hactive).bind (hrevoked.bind_left _)
  exact hall.bind_left _

/-- A refresh with a token that is gone. -/
theorem visit_refresh_runs {token : Tok} {n : Nat} {p : TokenPayload}
    (hsent : jar.refreshToken (cookiePath r ++ "/refresh") = some token)
    (hdec : decodes d token n = some p) :
    (visit d r jar .refresh).Runs (unknownEvents p n) (.raise sessionExpired) := by
  simp only [visit, hsent, Router.refresh]
  exact ((unknown_runs hdec).bind_left _).bind_left _

end Visits

end GreenCommunity.Auth
