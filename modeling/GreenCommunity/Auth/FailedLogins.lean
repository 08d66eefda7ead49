import GreenCommunity.Auth.AccountLimit
import GreenCommunity.Base.TwoRuns

/-!
# Failed logins reveal nothing about accounts

Two runs of the same login requests at the same times, over users tables that need
have nothing in common, fail alike as long as they fail: with the same error at each
position, and with the same limiter afterwards.  Time passes and the users table may
change at any time.  `login` reads that table at one place, and every failure behind
that place raises one and the same error.
-/

namespace GreenCommunity.Auth

open GreenCommunity.Base
open GreenCommunity.Base.Redis

variable {Tok : Type} (d : Deps Tok)

/-! ## What an observer can compare -/

/-- A key of the login limiter. -/
def LimiterKey (key : String) : Prop :=
  ∃ email clientIp, key ∈ rateLimitKeys d email clientIp

/-- At every time that both states have reached, the limiter holds the same. -/
def SameLimiter (s t : State) : Prop :=
  ∀ now, s.clock ≤ now → t.clock ≤ now →
    AgreeOn (LimiterKey d) (purge now s.redis) (purge now t.redis)

/-- The operations happen at the same time. -/
def SameTime (s t : State) : Prop := s.clock = t.clock

variable {d} {s t s' t' : State}

theorem SameLimiter.symm (h : SameLimiter d s t) : SameLimiter d t s :=
  fun now ht hs k hk => (h now hs ht k hk).symm

theorem SameLimiter.drift (h : SameLimiter d s t) (hs : Auth.drift s s') :
    SameLimiter d s' t := by
  intro now hs' ht
  have hredis : s'.redis = s.redis := by rw [hs.2]
  rw [hredis]
  exact h now (Nat.le_trans hs.1 hs') ht

/-- Both states after time has passed in each run. -/
private theorem SameLimiter.drift_both (h : SameLimiter d s t) (hs : Auth.drift s s')
    (ht : Auth.drift t t') : SameLimiter d s' t' :=
  ((h.drift hs).symm.drift ht).symm

/-- A pipeline on limiter keys, at the same time in both runs. -/
theorem SameLimiter.pipeline {cs : List Cmd} {r r' : Replies cs} (h : SameLimiter d s t)
    (htime : SameTime s t) (hcs : ∀ c ∈ cs, ∀ k ∈ c.keys, LimiterKey d k)
    (hs : step d s (.pipeline cs) r s') (ht : step d t (.pipeline cs) r' t') :
    r = r' ∧ SameLimiter d s' t' := by
  obtain ⟨rfl, rfl⟩ := hs
  obtain ⟨rfl, rfl⟩ := ht
  have hnow := h s.clock (Nat.le_refl _) (Nat.le_of_eq htime.symm)
  obtain ⟨hreply, hafter⟩ := runAll_agree s.clock cs hcs hnow
  rw [SameTime] at htime
  refine ⟨by rw [Redis.pipeline, Redis.pipeline, ← htime]; exact hreply, ?_⟩
  intro now _ _ k hk
  simp only [purge, Redis.pipeline, ← htime]
  rw [hafter k hk]

/-- The same of a single command. -/
theorem SameLimiter.redis {c : Cmd} {r r' : c.Reply} (h : SameLimiter d s t)
    (htime : SameTime s t) (hc : ∀ k ∈ c.keys, LimiterKey d k)
    (hs : step d s (.redis c) r s') (ht : step d t (.redis c) r' t') :
    r = r' ∧ SameLimiter d s' t' := by
  obtain ⟨rfl, rfl⟩ := hs
  obtain ⟨rfl, rfl⟩ := ht
  have hnow := h s.clock (Nat.le_refl _) (Nat.le_of_eq htime.symm)
  obtain ⟨hreply, hafter⟩ := run_agree s.clock hc hnow
  rw [SameTime] at htime
  refine ⟨by rw [exec, exec, ← htime]; exact hreply, ?_⟩
  intro now _ _ k hk
  simp only [purge, exec, ← htime]
  rw [hafter k hk]

/-! ## Programs that fail alike -/

section Programs

variable {α : Type}

/-- What two login programs do alike where both fail. -/
abbrev FailsAlike (d : Deps Tok) (p p' : AuthM α) : Prop :=
  FailAlike (soloSem d drift) () (SameLimiter d) SameTime p p'

/-- Operations that do not touch the limiter may differ, and so may their replies. -/
theorem failsAlike_quiet {op op' : Op} {k : Reply op → AuthM α} {k' : Reply op' → AuthM α}
    (hop : ∀ s r s', step d s op r s' → s' = s)
    (hop' : ∀ s r s', step d s op' r s' → s' = s)
    (h : ∀ r r', FailsAlike d (k r) (k' r')) :
    FailsAlike d (.call op k) (.call op' k') := by
  refine failAlike_call ?_
  intro s t s₀ t₀ r r' s₁ t₁ hI hs ht _ hstep hstep'
  obtain rfl := hop _ _ _ hstep
  obtain rfl := hop' _ _ _ hstep'
  exact ⟨hI.drift_both hs ht, h r r'⟩

/-- The limiter is asked the same in both programs and answers the same. -/
theorem failsAlike_hit {key : String} {maxAttempts windowSeconds : Nat}
    (hkey : LimiterKey d key) {f f' : RateLimitResult → AuthM α}
    (h : ∀ result, FailsAlike d (f result) (f' result)) :
    FailsAlike d (hit key maxAttempts windowSeconds >>= f)
      (hit key maxAttempts windowSeconds >>= f') := by
  have hcmds : ∀ c ∈ hitCmds key windowSeconds, ∀ k ∈ c.keys, LimiterKey d k := by
    intro c hc k hk
    simp only [hitCmds, List.mem_cons, List.not_mem_nil, or_false] at hc
    rcases hc with rfl | rfl <;> simp only [Cmd.keys, List.mem_singleton] at hk <;>
      exact hk ▸ hkey
  have httl : ∀ k ∈ (Cmd.ttl key).keys, LimiterKey d k := by
    intro k hk
    simp only [Cmd.keys, List.mem_singleton] at hk
    exact hk ▸ hkey
  unfold hit
  simp only [Prog.request_bind, Prog.call_bind]
  refine failAlike_call ?_
  intro s t s₀ t₀ r r' s₁ t₁ hI hs ht htime hstep hstep'
  obtain ⟨rfl, hI₁⟩ := (hI.drift_both hs ht).pipeline htime hcmds hstep hstep'
  refine ⟨hI₁, ?_⟩
  split
  · exact h _
  · refine failAlike_call ?_
    intro s t s₀ t₀ r r' s₁ t₁ hI hs ht htime hstep hstep'
    obtain ⟨rfl, hI₁⟩ := (hI.drift_both hs ht).redis htime httl hstep hstep'
    exact ⟨hI₁, h _⟩

/-- A log line is followed by the same error. -/
private theorem failsAlike_refusal (entry entry' : LogEntry) (e : AppError) :
    FailsAlike (α := α) d (request (.log entry) >>= fun _ => throw e)
      (request (.log entry') >>= fun _ => throw e) := by
  simp only [Prog.request_bind, Prog.throw_eq]
  refine failsAlike_quiet ?_ ?_ fun _ _ => failAlike_raise e
  · exact fun s _ s' h => h
  · exact fun s _ s' h => h

/-- The limiter is asked about each key in turn. Induction on the keys. -/
private theorem failsAlike_hits (email clientIp : String) {f f' : Unit → AuthM α}
    (h : FailsAlike d (f ()) (f' ())) :
    FailsAlike d (checkLoginRateLimit d email clientIp >>= f)
      (checkLoginRateLimit d email clientIp >>= f') := by
  have hkeys : ∀ key ∈ rateLimitKeys d email clientIp, LimiterKey d key :=
    fun key hkey => ⟨email, clientIp, hkey⟩
  unfold checkLoginRateLimit
  generalize rateLimitKeys d email clientIp = keys at hkeys
  induction keys with
  | nil => exact h
  | cons key keys ih =>
      simp only [List.forM_eq_forM, List.forM_cons, bind_assoc]
      refine failsAlike_hit (hkeys key List.mem_cons_self) fun result => ?_
      have hrest := ih fun k hk => hkeys k (List.mem_cons_of_mem key hk)
      simp only [List.forM_eq_forM] at hrest
      split
      · simp only [bind_assoc, Prog.throw_eq, Prog.raise_bind]
        exact failsAlike_refusal _ _ _
      · simpa using hrest

end Programs

/-! ## Login -/

/-- Behind the limiter and the user lookup a login is refused with the one error, or
it does not fail. -/
theorem login_refused_or_succeeds (email password clientIp : String) :
    ∃ rest : Option User → AuthM (IssuedTokens Tok),
      login d email password clientIp =
        (checkLoginRateLimit d email clientIp >>= fun _ =>
          .call (.getByEmail email) rest) ∧
      ∀ user, (∃ entry, rest user = (request (.log entry) >>= fun _ => throw badCredentials)) ∨
        NeverFails (rest user) := by
  refine ⟨_, rfl, fun user => ?_⟩
  simp only [Prog.bind]
  cases user with
  | none => exact Or.inl ⟨_, rfl⟩
  | some user =>
      by_cases hok : verifyPassword d password user.userPasswordHash = true
      · by_cases hactive : user.userIsActive = true
        · right
          simp [hok, hactive, NeverFails, resetLoginRateLimit, rateLimitKeys, reset,
            issueTokens, createAccessToken, createRefreshToken, createToken, save]
        · exact Or.inl ⟨_, by simp [hok, hactive]; rfl⟩
      · exact Or.inl ⟨_, by simp [hok]; rfl⟩

/-- One login request over two users tables. -/
theorem failsAlike_login (email password clientIp : String) :
    FailsAlike d (login d email password clientIp) (login d email password clientIp) := by
  obtain ⟨rest, hlogin, hrest⟩ := login_refused_or_succeeds (d := d) email password clientIp
  rw [hlogin]
  refine failsAlike_hits email clientIp (failsAlike_quiet ?_ ?_ fun user user' => ?_)
  · exact fun _ _ _ h => h.2
  · exact fun _ _ _ h => h.2
  · rcases hrest user with ⟨entry, hrefused⟩ | hsucceeds
    · rcases hrest user' with ⟨entry', hrefused'⟩ | hsucceeds'
      · rw [hrefused, hrefused']
        exact failsAlike_refusal entry entry' badCredentials
      · exact failAlike_of_right _ hsucceeds'
    · exact failAlike_of_left hsucceeds _

/-- The request is a login. -/
def IsLogin (req : Request Tok) : Prop :=
  ∃ email password clientIp, req = .login email password clientIp

private theorem failsAlike_serve {req : Request Tok} (h : IsLogin req) :
    FailsAlike d (serve d req) (serve d req) := by
  obtain ⟨email, password, clientIp, rfl⟩ := h
  exact failAlike_map _ (failsAlike_login email password clientIp)

/-- Failed logins reveal nothing about accounts: over any two users tables and from
the same limiter, the same login requests at the same times, all of which fail in
both runs, end with the same errors and leave the same limiter. -/
theorem failed_logins_alike {log log' : List (Served (Request Tok) Op Reply AppError
      (Response Tok) State)} (hlimiter : SameLimiter d s t)
    (h : Serial (soloSem d drift) () drift (serve d) s log s')
    (h' : Serial (soloSem d drift) () drift (serve d) t log' t')
    (hlogins : ∀ x ∈ log, IsLogin x.req)
    (hfail : List.Forall₂ (BothFail SameTime) log log') :
    log.map Served.outcome = log'.map Served.outcome ∧ SameLimiter d s' t' :=
  Serial.fail_alike (fun hI hp => hI.drift hp) (fun hI hp => (hI.symm.drift hp).symm)
    (fun _ hreq => failsAlike_serve hreq) hlimiter h h' hfail hlogins

/-! ## A wrong password and an unknown account -/

private def tableState (users : List User) : State := { freshState with users := users }

/-- One guess at the address, whoever is registered. -/
private theorem sample_guess (users : List User) :
    ∃ evs s', Exec (soloSem sample drift) () (tableState users)
        (serve sample (.login "a@b.c" wrongPassword "1.2.3.4")) evs
        (some (.error badCredentials)) s' ∧ ∀ x ∈ evs, x.1.clock = 0 := by
  have hemail : CounterIs (tableState users) (emailKey sample "a@b.c") none := rfl
  have hip : CounterIs (tableState users) (ipKey "1.2.3.4") none := rfl
  obtain ⟨evs, s', hx, hguess⟩ := guess drift_refl hemail (show 0 + 1 ≤ 5 by decide) hip
  exact ⟨evs, s', hx, hguess.instant⟩

private theorem matched_of_instant {evs evs' : List TimedEvent}
    (h : ∀ x ∈ evs, x.1.clock = 0) (h' : ∀ x ∈ evs', x.1.clock = 0) :
    Matched SameTime evs evs' := by
  intro i x y hx hy
  rw [SameTime, h x (List.mem_of_getElem? hx), h' y (List.mem_of_getElem? hy)]

/-- A wrong password for the registered user, and the same login with nobody
registered. -/
theorem failed_logins_alike_sample :
    ∃ (log log' : List (Served (Request Claims) Op Reply AppError (Response Claims) State))
      (s' t' : State),
      log.map Served.req = [.login "a@b.c" wrongPassword "1.2.3.4"] ∧
      log.map Served.outcome = log'.map Served.outcome ∧ SameLimiter sample s' t' := by
  obtain ⟨evs, s', hx, hat⟩ := sample_guess [sampleUser]
  obtain ⟨evs', t', hx', hat'⟩ := sample_guess []
  have hboth : List.Forall₂ (BothFail SameTime)
      ([] ++ [⟨.login "a@b.c" wrongPassword "1.2.3.4", tableState [sampleUser], evs,
        .error badCredentials⟩] : List (Entered Claims))
      ([] ++ [⟨.login "a@b.c" wrongPassword "1.2.3.4", tableState [], evs',
        .error badCredentials⟩]) :=
    .cons ⟨rfl, matched_of_instant hat hat', ⟨_, rfl⟩, ⟨_, rfl⟩⟩ .nil
  refine ⟨_, _, s', t', rfl, failed_logins_alike ?_ (.serve .nil hx) (.serve .nil hx') ?_ hboth⟩
  · exact fun _ _ _ _ _ => rfl
  · intro x hmem
    rw [List.mem_singleton.mp hmem]
    exact ⟨_, _, _, rfl⟩

end GreenCommunity.Auth
