import GreenCommunity.Auth.AccountLimit
import GreenCommunity.Auth.LimiterHistory

/-!
# How many wrong passwords an address takes

The second axis of the login limiter counts the requests of a client IP, so that an
attacker cannot get round the limit by switching accounts.  A successful login deletes the
counters of both axes, that of the IP as well: `ip_limited` bounds the failed password
checks of a window as long as no login from the IP finds an account and its password, and
`own_account` gets round the limit with an account of its own.
-/

namespace GreenCommunity.Auth

open GreenCommunity.Base
open GreenCommunity.Base.Redis

variable {Tok C : Type}

/-- A login as it arrives. -/
structure LoginRequest where
  email : String
  password : String
  clientIp : String
  deriving DecidableEq

def LoginRequest.program (d : Deps Tok) (req : LoginRequest) : AuthM (IssuedTokens Tok) :=
  login d req.email req.password req.clientIp

/-- The hash a password is checked against: the account's, or a dummy. -/
def checkedHash : Option User → String
  | some user => user.userPasswordHash
  | none => dummyPasswordHash

abbrev lookup (req : LoginRequest) (found : Option User) : AuthEvent :=
  ⟨.getByEmail req.email, found⟩

/-- The request got as far as the password check and failed it. -/
def FailsVerification (d : Deps Tok) (req : LoginRequest) (events : List AuthEvent) : Prop :=
  ∃ found, lookup req found ∈ events ∧
    verifyPassword d req.password (checkedHash found) = false

/-- The lookup finds an active account, and the password is that of the account. -/
def Passes (d : Deps Tok) (req : LoginRequest) (found : Option User) : Prop :=
  ∃ user, found = some user ∧ verifyPassword d req.password user.userPasswordHash = true ∧
    user.userIsActive = true

/-- In the window that a counted attempt of the IP opens, no more requests of the IP fail at
the password check than the limit. -/
def IpLimited [DecidableEq C] (d : Deps Tok) (logins : C → LoginRequest) (ip : String)
    (tr : List (Label C Op Reply)) (log : List (Stroke C)) : Prop :=
  ∀ before c₀ t₀ n₀ after, log = before ++ .hit c₀ t₀ true n₀ :: after →
    ∀ cs : List C, cs.Nodup →
      (∀ c ∈ cs, (logins c).clientIp = ip ∧ FailsVerification d (logins c) (own c tr) ∧
        ∃ t fresh n, .hit c t fresh n ∈ (Stroke.hit c₀ t₀ true n₀ :: after) ∧
          t < t₀ + ticks d.settings.loginRateLimitWindowSeconds) →
      cs.length ≤ d.settings.loginRateLimitMaxAttempts

/-- No login from the IP finds an account of its own. -/
def noOwnAccount {ε α σ : Type} (d : Deps Tok) (logins : C → LoginRequest) (ip : String) :
    Guard C Op Reply ε α σ := fun _ _ l =>
  ∀ c found, l = .call c (lookup (logins c) found) → (logins c).clientIp = ip →
    ¬ Passes d (logins c) found

/-! ## What a login does to the counters of the IPs -/

section Login

variable {d : Deps Tok} {req : LoginRequest}

/-- The events of a login, as far as the counters of IPs go. -/
structure IpStep (d : Deps Tok) (req : LoginRequest) (past : List AuthEvent) (e : AuthEvent) :
    Prop where
  keyOp : ∀ ip, KeyOp d (ipKey ip) e.op
  /-- The account is looked up within the limit of the IP. -/
  within : ∀ found, e = lookup req found →
    ∀ r, ⟨hitOp d (ipKey req.clientIp), r⟩ ∈ past →
      r.1 ≤ (d.settings.loginRateLimitMaxAttempts : Int)
  /-- There is no hit behind the lookup. -/
  before : ∀ r, e = ⟨hitOp d (ipKey req.clientIp), r⟩ → ∀ found, lookup req found ∉ past
  /-- A counter is deleted behind a lookup that passes. -/
  passed : ∀ ip, e.op = .redis (.del [ipKey ip]) →
    ip = req.clientIp ∧ ∃ found, lookup req found ∈ past ∧ Passes d req found

/-- The operation is none of those that `IpStep` is about. -/
structure Beside (d : Deps Tok) (op : Op) : Prop where
  spares : ∀ ip, Spares (ipKey ip) op
  lookup : ∀ email, op ≠ .getByEmail email

theorem Beside.ipStep {op : Op} (h : Beside d op) {past : List AuthEvent} (r : Reply op) :
    IpStep d req past ⟨op, r⟩ where
  keyOp ip := Or.inr (Or.inr (h.spares ip))
  within found heq := absurd (congrArg Event.op heq) (h.lookup _)
  before r' heq := by
    have hop : op = hitOp d (ipKey req.clientIp) := congrArg Event.op heq
    subst hop
    exact absurd (h.spares req.clientIp) (by simp [Spares, hitCmds, Cmd.writes])
  passed ip heq := by
    have hop : op = .redis (.del [ipKey ip]) := heq
    subst hop
    exact absurd (h.spares ip) (by simp [Spares, Cmd.writes])

theorem beside_log (entry : LogEntry) : Beside d (.log entry) :=
  ⟨fun _ => trivial, by simp⟩

theorem beside_ttl (key : String) : Beside d (.redis (.ttl key)) :=
  ⟨fun _ => by simp [Spares, Cmd.writes], by simp⟩

theorem beside_now : Beside d .now := ⟨fun _ => trivial, by simp⟩

theorem beside_uuid4 : Beside d .uuid4 := ⟨fun _ => trivial, by simp⟩

theorem beside_emailHit (email : String) : Beside d (hitOp d (emailKey d email)) :=
  ⟨fun ip => spares_hit (emailKey_ne_ipKey email ip).symm _, by simp⟩

theorem beside_emailReset (email : String) : Beside d (.redis (.del [emailKey d email])) :=
  ⟨fun ip => spares_reset (emailKey_ne_ipKey email ip).symm, by simp⟩

theorem beside_save (u : Nat) (j h : String) : Beside d (.pipeline (saveCmds d u j h)) := by
  refine ⟨fun ip c hc => ?_, by simp⟩
  have hkey : ipKey ip ∈ rateLimitKeys d "" ip := by simp [rateLimitKeys_eq]
  have htoken := (rateLimitKey_ne hkey (.token u j)).symm
  have hindex := (rateLimitKey_ne hkey (.index u)).symm
  simp only [saveCmds, List.mem_cons, List.not_mem_nil, or_false] at hc
  rcases hc with rfl | rfl | rfl <;> simpa [Cmd.writes]

theorem hitOp_ne {key key' : String} (h : key ≠ key') : hitOp d key' ≠ hitOp d key := by
  intro heq
  simp only [hitCmds, Op.pipeline.injEq, List.cons.injEq, Cmd.incr.injEq] at heq
  exact h heq.1.symm

theorem hist_beside {α : Type} {op : Op} {k : Reply op → AuthM α} {past : List AuthEvent}
    {R : List AuthEvent → Except AppError α → Prop} (hop : Beside d op)
    (hk : ∀ r, (k r).Hist (IpStep d req) R (past ++ [⟨op, r⟩])) :
    (Prog.call op k).Hist (IpStep d req) R past :=
  fun r => ⟨hop.ipStep r, hk r⟩

/-- The resets and the tokens behind a lookup that passes. -/
theorem issued_ip {u : Nat} {past : List AuthEvent}
    (hpassed : ∃ found, lookup req found ∈ past ∧ Passes d req found) :
    Prog.Hist (IpStep d req) (fun _ _ => True)
      (resetLoginRateLimit d req.email req.clientIp >>= fun _ =>
        Prog.call (.log (.loginSucceeded u)) fun _ => issueTokens d u) past := by
  simp only [resetLoginRateLimit, reset, rateLimitKeys_eq, List.forM_eq_forM, List.forM_cons,
    List.forM_nil, issueTokens, createAccessToken, createRefreshToken, createToken, save,
    Prog.request_bind, Prog.pure_eq, Prog.ret_bind, Prog.call_bind]
  refine hist_beside (beside_emailReset _) fun _ => ?_
  refine fun r => ⟨⟨fun ip => keyOp_reset _ _, ?_, ?_, ?_⟩, ?_⟩
  · rintro found heq
    cases congrArg Event.op heq
  · rintro r' heq
    cases congrArg Event.op heq
  · intro ip heq
    have hip : ip = req.clientIp := by
      simp only [Op.redis.injEq, Cmd.del.injEq, List.cons.injEq, and_true] at heq
      exact (ipKey_inj.mp heq).symm
    obtain ⟨found, hmem, hpasses⟩ := hpassed
    exact ⟨hip, found, List.mem_append_left _ hmem, hpasses⟩
  · refine hist_beside (beside_log _) fun _ => hist_beside beside_now fun _ => ?_
    refine hist_beside beside_uuid4 fun _ => hist_beside beside_now fun _ => ?_
    exact hist_beside beside_uuid4 fun _ => hist_beside (beside_save _ _ _) fun _ => trivial

theorem login_ip (req : LoginRequest) :
    (req.program d).Hist (IpStep d req) (fun _ _ => True) [] := by
  unfold LoginRequest.program login checkLoginRateLimit
  simp only [rateLimitKeys_eq, List.forM_eq_forM, List.forM_cons, List.forM_nil, bind_assoc,
    hit_bind]
  refine hist_beside (beside_emailHit _) fun r => ?_
  by_cases hr : r.1 ≤ (d.settings.loginRateLimitMaxAttempts : Int)
  · simp only [hr, if_true, Bool.not_true, Bool.false_eq_true, if_false, Prog.pure_eq,
      Prog.ret_bind, Prog.throw_eq, Prog.raise_bind, Prog.request_bind]
    refine fun r' => ⟨⟨fun ip => keyOp_hit _ _, ?_, ?_, ?_⟩, ?_⟩
    · rintro found heq
      cases congrArg Event.op heq
    · rintro r₁ heq found hmem
      cases congrArg Event.op (List.mem_singleton.mp hmem)
    · rintro ip ⟨⟩
    · by_cases hr' : r'.1 ≤ (d.settings.loginRateLimitMaxAttempts : Int)
      · simp only [hr', if_true, Bool.not_false, Prog.bind]
        refine fun user => ⟨⟨fun ip => Or.inr (Or.inr trivial), ?_, ?_, ?_⟩, ?_⟩
        · intro found heq r₁ hmem
          simp only [List.nil_append, List.cons_append, List.mem_cons, List.not_mem_nil,
            or_false] at hmem
          rcases hmem with hmem | hmem
          · exact absurd (congrArg Event.op hmem) (hitOp_ne (emailKey_ne_ipKey _ _))
          · cases hmem
            exact hr'
        · rintro r₁ heq
          cases congrArg Event.op heq
        · rintro ip ⟨⟩
        · have hmem : lookup req user ∈
              ([⟨hitOp d (emailKey d req.email), r⟩, ⟨hitOp d (ipKey req.clientIp), r'⟩,
                lookup req user] : List AuthEvent) := by simp
          have hrefused : ∀ entry e, Prog.Hist (IpStep d req) (fun _ _ => True)
              (Prog.call (.log entry) fun _ => Prog.raise (α := IssuedTokens Tok) e)
              [⟨hitOp d (emailKey d req.email), r⟩, ⟨hitOp d (ipKey req.clientIp), r'⟩,
                lookup req user] :=
            fun entry e => hist_beside (beside_log entry) fun _ => trivial
          cases user with
          | none => exact hrefused _ _
          | some user =>
              simp only
              split
              · exact hrefused _ _
              · rename_i hverified
                split
                · exact hrefused _ _
                · rename_i hactive
                  refine issued_ip ⟨some user, hmem, user, rfl, ?_, ?_⟩
                  · simpa using hverified
                  · simpa using hactive
      · simp only [hr', if_false, Bool.not_false, if_true, Prog.bind]
        exact hist_beside (beside_ttl _) fun _ => hist_beside (beside_log _) fun _ => trivial
  · simp only [hr, if_false, Bool.not_false, if_true, Prog.throw_eq, Prog.raise_bind,
      Prog.request_bind]
    exact hist_beside (beside_ttl _) fun _ => hist_beside (beside_log _) fun _ => trivial

/-- What is known of the events of a login that has not ended. -/
structure IpTrace (d : Deps Tok) (req : LoginRequest) (events : List AuthEvent) : Prop where
  within : ∀ found, lookup req found ∈ events →
    ∀ r, ⟨hitOp d (ipKey req.clientIp), r⟩ ∈ events →
      r.1 ≤ (d.settings.loginRateLimitMaxAttempts : Int)
  passed : ∀ ip r, ⟨.redis (.del [ipKey ip]), r⟩ ∈ events →
    ip = req.clientIp ∧ ∃ found, lookup req found ∈ events ∧ Passes d req found

theorem IpTrace.step {past : List AuthEvent} {e : AuthEvent} (h : IpTrace d req past)
    (he : IpStep d req past e) : IpTrace d req (past ++ [e]) where
  within found hfound r hr := by
    rcases List.mem_append.mp hfound with hfound | hfound
    · rcases List.mem_append.mp hr with hr | hr
      · exact h.within found hfound r hr
      · exact absurd hfound (he.before r (List.mem_singleton.mp hr).symm found)
    · obtain rfl := List.mem_singleton.mp hfound
      rcases List.mem_append.mp hr with hr | hr
      · exact he.within found rfl r hr
      · cases congrArg Event.op (List.mem_singleton.mp hr)
  passed ip r hr := by
    obtain ⟨hip, found, hfound, hpasses⟩ : ip = req.clientIp ∧
        ∃ found, lookup req found ∈ past ∧ Passes d req found := by
      rcases List.mem_append.mp hr with hr | hr
      · exact h.passed ip r hr
      · exact he.passed ip (congrArg Event.op (List.mem_singleton.mp hr)).symm
    exact ⟨hip, found, List.mem_append_left _ hfound, hpasses⟩

end Login

/-! ## Runs of logins -/

section Runs

variable [DecidableEq C] {d : Deps Tok} {logins : C → LoginRequest} {ip : String} {s₀ : State}
  {tr : List (Label C Op Reply)}
  {cfg : Config C Op Reply AppError (IssuedTokens Tok) (Logged State (Stroke C))}
  {ok : Guard C Op Reply AppError (IssuedTokens Tok) (Logged State (Stroke C))}

abbrev loginsInit (d : Deps Tok) (logins : C → LoginRequest) (s₀ : State) :
    Config C Op Reply AppError (IssuedTokens Tok) (Logged State (Stroke C)) :=
  ⟨⟨s₀, []⟩, fun c => (logins c).program d⟩

theorem logins_trace (h : Run (limiterSem C d (ipKey ip)) ok (loginsInit d logins s₀) tr cfg)
    (c : C) : IpTrace d (logins c) (own c tr) :=
  h.own_inv (P := fun c => IpTrace d (logins c)) (fun c => login_ip (logins c))
    (fun _ => ⟨by simp, by simp⟩) (fun _ _ _ hpast he => hpast.step he) c

theorem logins_recorded (hfresh : s₀.counter (ipKey ip) = none)
    (h : Run (limiterSem C d (ipKey ip)) ok (loginsInit d logins s₀) tr cfg) :
    (∃ w, Recorded d (ipKey ip) cfg.state w) ∧ Noted d (ipKey ip) tr cfg.state.log :=
  recorded_run (fun c => login_ip (logins c)) (fun _ _ _ he => he.keyOp ip) hfresh h

/-- Within one window of the IP no more requests of the IP fail at the password check than the
limit, in every run in which no login from the IP finds an account of its own. -/
theorem ip_limited (d : Deps Tok) (logins : C → LoginRequest) (ip : String) (s₀ : State)
    (hfresh : s₀.counter (ipKey ip) = none)
    (h : Run (limiterSem C d (ipKey ip)) (noOwnAccount d logins ip) (loginsInit d logins s₀) tr
      cfg) : IpLimited d logins ip tr cfg.state.log := by
  obtain ⟨⟨w, hw⟩, hnoted⟩ := logins_recorded hfresh h
  -- nobody deletes the counter
  have hreset : ∀ c t, .reset c t ∉ cfg.state.log := by
    intro c t hmem
    obtain ⟨r, hr⟩ := hnoted.resets c t hmem
    obtain ⟨hip, found, hfound, hpasses⟩ := (logins_trace h c).passed ip r (mem_own.mpr hr)
    obtain ⟨tr₁, tr₂, htr⟩ := List.append_of_mem (mem_own.mp hfound)
    obtain ⟨_, _, _, _, hguard⟩ := h.split htr
    exact hguard c found rfl hip.symm hpasses
  intro before c₀ t₀ n₀ after hlog cs hcs hall
  have hwindow := hw.counts.firstWindow d.settings.loginRateLimitMaxAttempts after
    hlog fun c t hmem => hreset c t (by rw [hlog]; simp [hmem])
  refine Nat.le_trans (length_le_countP hcs _ fun c hc => ?_) hwindow.le
  obtain ⟨hip, ⟨found, hfound, _⟩, t, fresh, n, hin, ht⟩ := hall c hc
  refine ⟨_, hin, rfl, ?_⟩
  have hmem : Stroke.hit c t fresh n ∈ cfg.state.log := by
    rw [hlog]
    exact List.mem_append_right _ hin
  obtain ⟨r, hr, rfl⟩ := hnoted.strikes c t fresh n hmem
  subst hip
  have hwithin := (logins_trace h c).within found hfound r (mem_own.mpr hr)
  rw [Stroke.admittedBefore, Bool.and_eq_true]
  exact ⟨decide_eq_true hwithin, decide_eq_true ht⟩

end Runs

/-! ## An account of one's own -/

section Attempts

variable {d : Deps Tok} {req : LoginRequest} {c : C}

/-- What an attempt on an email nobody has tried does, up to the lookup. -/
structure Attempted (d : Deps Tok) (req : LoginRequest) (c : C) (w : Option Window)
    (x x' : Logged State (Stroke C)) : Prop where
  log : x'.log = x.log ++ [.hit c x.state.clock (x.state.counter (ipKey req.clientIp)).isNone
    (((Window.current (ticks d.settings.loginRateLimitWindowSeconds) x.state.clock
      w).attempts + 1 : Nat) : Int)]
  clock : x'.state.clock = x.state.clock
  users : x'.state.users = x.state.users
  counter : CounterIs x'.state (ipKey req.clientIp) (some (Window.current
    (ticks d.settings.loginRateLimitWindowSeconds) x.state.clock w).count)
  others : ∀ email, emailKey d email ≠ emailKey d req.email →
    CounterIs x.state (emailKey d email) none → CounterIs x'.state (emailKey d email) none

/-- The lookup finds what was there before. -/
theorem Attempted.lookup {x x' : Logged State (Stroke C)} {w : Option Window}
    (h : Attempted d req c w x x') :
    (limiterSem C d (ipKey req.clientIp)).step c x' (.getByEmail req.email)
      (getByEmail d x.state req.email) x' := by
  refine ⟨⟨?_, rfl⟩, (List.append_nil _).symm⟩
  rw [getByEmail, getByEmail, h.users]

/-- The hits of an attempt on both axes. -/
abbrev attemptHits (d : Deps Tok) (req : LoginRequest)
    (r : Reply (hitOp d (emailKey d req.email))) (r' : Reply (hitOp d (ipKey req.clientIp))) :
    List AuthEvent :=
  [⟨hitOp d (emailKey d req.email), r⟩, ⟨hitOp d (ipKey req.clientIp), r'⟩]

/-- The events of an attempt up to the lookup. -/
abbrev attemptEvents (d : Deps Tok) (req : LoginRequest)
    (r : Reply (hitOp d (emailKey d req.email))) (r' : Reply (hitOp d (ipKey req.clientIp)))
    (found : Option User) : List AuthEvent :=
  attemptHits d req r r' ++ [lookup req found]

/-- The events of an attempt that is refused on its IP. -/
abbrev refusedEvents (d : Deps Tok) (req : LoginRequest)
    (r : Reply (hitOp d (emailKey d req.email))) (r' : Reply (hitOp d (ipKey req.clientIp)))
    (ttl : Int) : List AuthEvent :=
  attemptHits d req r r' ++ [⟨.redis (.ttl (ipKey req.clientIp)), ttl⟩,
    ⟨.log (.loginRateLimited (ipKey req.clientIp) r'.1), ()⟩]

theorem attempt_chain {x : Logged State (Stroke C)} {w : Option Window}
    (hemail : CounterIs x.state (emailKey d req.email) none)
    (hip : CounterIs x.state (ipKey req.clientIp) w) :
    ∃ r r' x', Chain (limiterSem C d (ipKey req.clientIp)) x
        ((attemptHits d req r r').map (.call c)) x' ∧
      r.1 = (1 : Int) ∧
      r'.1 = (((Window.current (ticks d.settings.loginRateLimitWindowSeconds) x.state.clock
        w).attempts + 1 : Nat) : Int) ∧ Attempted d req c w x x' := by
  have hpos := d.settings.loginRateLimitWindowSeconds_pos
  have hne := emailKey_ne_ipKey (d := d) req.email req.clientIp
  obtain ⟨s₁, r, hstep₁, husers₁⟩ : ∃ s₁ r,
      step d x.state (hitOp d (emailKey d req.email)) r s₁ ∧ s₁.users = x.state.users :=
    ⟨_, _, ⟨rfl, rfl⟩, rfl⟩
  obtain ⟨s₂, r', hstep₂, husers₂⟩ : ∃ s₂ r',
      step d s₁ (hitOp d (ipKey req.clientIp)) r' s₂ ∧ s₂.users = x.state.users :=
    ⟨_, _, ⟨rfl, rfl⟩, husers₁⟩
  have hclock₁ : s₁.clock = x.state.clock := step_clock hstep₁
  have hclock₂ : s₂.clock = x.state.clock := (step_clock hstep₂).trans hclock₁
  have hspares := spares_hit hne.symm d.settings.loginRateLimitWindowSeconds
  obtain ⟨hr, _⟩ := hemail.hit hpos hstep₁
  obtain ⟨hr', hcounter⟩ := (CounterIs.spared hspares hstep₁ hip).hit hpos hstep₂
  have hbefore : s₁.counter (ipKey req.clientIp) = x.state.counter (ipKey req.clientIp) :=
    counter_spared hspares hstep₁
  rw [hclock₁] at hr' hcounter
  have hfirst : (limiterSem C d (ipKey req.clientIp)).step c x
      (hitOp d (emailKey d req.email)) r ⟨s₁, x.log⟩ := by
    refine ⟨hstep₁, ?_⟩
    rw [strokes_of_spares (e := ⟨_, r⟩) hspares, List.append_nil]
  have hsecond : (limiterSem C d (ipKey req.clientIp)).step c ⟨s₁, x.log⟩
      (hitOp d (ipKey req.clientIp)) r' ⟨s₂, x.log ++ [.hit c x.state.clock
        (x.state.counter (ipKey req.clientIp)).isNone r'.1]⟩ := by
    refine ⟨hstep₂, ?_⟩
    rw [strokes_hit, hbefore, hclock₁]
  refine ⟨r, r', ⟨s₂, x.log ++ [.hit c x.state.clock
      (x.state.counter (ipKey req.clientIp)).isNone r'.1]⟩, .call hfirst (.call hsecond .nil),
    hr, hr', ⟨?_, hclock₂, husers₂, hcounter, ?_⟩⟩
  · rw [hr']
  · intro email hemail' hnone
    refine CounterIs.spared (spares_hit (emailKey_ne_ipKey _ _) _) hstep₂ ?_
    exact CounterIs.spared (spares_hit hemail' _) hstep₁ hnone

/-- What the resets of a login that passed do. -/
structure Reset (d : Deps Tok) (req : LoginRequest) (c : C) (x x' : Logged State (Stroke C)) :
    Prop where
  log : x'.log = x.log ++ [.reset c x.state.clock]
  clock : x'.state.clock = x.state.clock
  users : x'.state.users = x.state.users
  counter : CounterIs x'.state (ipKey req.clientIp) none
  others : ∀ email, CounterIs x.state (emailKey d email) none →
    CounterIs x'.state (emailKey d email) none

theorem resets_chain (d : Deps Tok) (req : LoginRequest) (c : C) (x : Logged State (Stroke C)) :
    ∃ x', Chain (limiterSem C d (ipKey req.clientIp)) x
        ([⟨.redis (.del [emailKey d req.email]), ()⟩,
          ⟨.redis (.del [ipKey req.clientIp]), ()⟩].map (.call c)) x' ∧ Reset d req c x x' := by
  obtain ⟨s₁, hstep₁, husers₁⟩ : ∃ s₁,
      step d x.state (.redis (.del [emailKey d req.email])) () s₁ ∧
        s₁.users = x.state.users := ⟨_, ⟨rfl, rfl⟩, rfl⟩
  obtain ⟨s₂, hstep₂, husers₂⟩ : ∃ s₂,
      step d s₁ (.redis (.del [ipKey req.clientIp])) () s₂ ∧ s₂.users = x.state.users :=
    ⟨_, ⟨rfl, rfl⟩, husers₁⟩
  have hclock₁ : s₁.clock = x.state.clock := step_clock hstep₁
  have hspares := spares_reset (emailKey_ne_ipKey (d := d) req.email req.clientIp).symm
  have hfirst : (limiterSem C d (ipKey req.clientIp)).step c x
      (.redis (.del [emailKey d req.email])) () ⟨s₁, x.log⟩ := by
    refine ⟨hstep₁, ?_⟩
    rw [strokes_of_spares (e := ⟨_, ()⟩) hspares, List.append_nil]
  have hsecond : (limiterSem C d (ipKey req.clientIp)).step c ⟨s₁, x.log⟩
      (.redis (.del [ipKey req.clientIp])) () ⟨s₂, x.log ++ [.reset c x.state.clock]⟩ := by
    refine ⟨hstep₂, ?_⟩
    rw [strokes_reset, hclock₁]
  refine ⟨_, .call hfirst (.call hsecond .nil), rfl, (step_clock hstep₂).trans hclock₁, husers₂,
    counterIs_reset hstep₂, fun email hnone => ?_⟩
  refine CounterIs.spared (spares_reset (emailKey_ne_ipKey _ _)) hstep₂ ?_
  by_cases hemail : emailKey d email = emailKey d req.email
  · rw [hemail]
    exact counterIs_reset hstep₁
  · exact CounterIs.spared (spares_reset hemail) hstep₁ hnone

/-- An attempt within both limits gets to its lookup. -/
theorem attempt_runs {r : Reply (hitOp d (emailKey d req.email))}
    {r' : Reply (hitOp d (ipKey req.clientIp))}
    (hr : r.1 ≤ (d.settings.loginRateLimitMaxAttempts : Int))
    (hr' : r'.1 ≤ (d.settings.loginRateLimitMaxAttempts : Int)) (found : Option User) :
    ∃ q, (req.program d).Runs (attemptEvents d req r r' found) q := by
  unfold LoginRequest.program login checkLoginRateLimit
  simp only [rateLimitKeys_eq, List.forM_eq_forM, List.forM_cons, List.forM_nil, bind_assoc,
    hit_bind]
  refine Prog.exists_runs_cons ?_
  simp only [hr, if_true, Bool.not_true, Bool.false_eq_true, if_false, Prog.pure_eq,
    Prog.ret_bind, Prog.throw_eq, Prog.raise_bind, Prog.request_bind]
  refine Prog.exists_runs_cons ?_
  simp only [hr', if_true, Prog.bind]
  exact Prog.exists_runs_cons ⟨_, .nil⟩

/-- An attempt that passes goes on to the resets. -/
theorem passed_runs {r : Reply (hitOp d (emailKey d req.email))}
    {r' : Reply (hitOp d (ipKey req.clientIp))}
    (hr : r.1 ≤ (d.settings.loginRateLimitMaxAttempts : Int))
    (hr' : r'.1 ≤ (d.settings.loginRateLimitMaxAttempts : Int)) {found : Option User}
    (hpasses : Passes d req found) :
    ∃ q, (req.program d).Runs (attemptEvents d req r r' found ++
      [⟨.redis (.del [emailKey d req.email]), ()⟩,
        ⟨.redis (.del [ipKey req.clientIp]), ()⟩]) q := by
  obtain ⟨user, rfl, hverified, hactive⟩ := hpasses
  unfold LoginRequest.program login checkLoginRateLimit resetLoginRateLimit
  simp only [rateLimitKeys_eq, List.forM_eq_forM, List.forM_cons, List.forM_nil, bind_assoc,
    hit_bind]
  refine Prog.exists_runs_cons ?_
  simp only [hr, if_true, Bool.not_true, Bool.false_eq_true, if_false, Prog.pure_eq,
    Prog.ret_bind, Prog.throw_eq, Prog.raise_bind, Prog.request_bind]
  refine Prog.exists_runs_cons ?_
  simp only [hr', if_true, Prog.bind]
  refine Prog.exists_runs_cons ?_
  simp only [hverified, hactive, Bool.not_true, Bool.false_eq_true, if_false]
  exact Prog.exists_runs_cons (Prog.exists_runs_cons ⟨_, .nil⟩)

/-- An attempt within both limits. -/
theorem attempt (d : Deps Tok) (req : LoginRequest) (c : C) {x : Logged State (Stroke C)}
    {w : Option Window}
    (hemail : CounterIs x.state (emailKey d req.email) none)
    (hip : CounterIs x.state (ipKey req.clientIp) w)
    (hwithin : (Window.current (ticks d.settings.loginRateLimitWindowSeconds) x.state.clock
      w).attempts + 1 ≤ d.settings.loginRateLimitMaxAttempts) :
    ∃ es q x', Chain (limiterSem C d (ipKey req.clientIp)) x (es.map (.call c)) x' ∧
      (req.program d).Runs es q ∧ lookup req (getByEmail d x.state req.email) ∈ es ∧
      Attempted d req c w x x' := by
  obtain ⟨r, r', x', hchain, hr, hr', hattempted⟩ := attempt_chain (c := c) hemail hip
  have hone : r.1 ≤ (d.settings.loginRateLimitMaxAttempts : Int) := by
    rw [hr]
    exact Int.ofNat_le.mpr d.settings.loginRateLimitMaxAttempts_pos
  have hle : r'.1 ≤ (d.settings.loginRateLimitMaxAttempts : Int) := by
    rw [hr']
    exact Int.ofNat_le.mpr hwithin
  obtain ⟨q, hruns⟩ := attempt_runs hone hle (getByEmail d x.state req.email)
  exact ⟨attemptEvents d req r r' (getByEmail d x.state req.email), q, x',
    hchain.append (.call hattempted.lookup .nil), hruns, by simp, hattempted⟩

/-- An attempt over the limit of its IP. -/
theorem refused_attempt (d : Deps Tok) (req : LoginRequest) (c : C)
    {x : Logged State (Stroke C)} {w : Option Window}
    (hemail : CounterIs x.state (emailKey d req.email) none)
    (hip : CounterIs x.state (ipKey req.clientIp) w)
    (hover : d.settings.loginRateLimitMaxAttempts < (Window.current
      (ticks d.settings.loginRateLimitWindowSeconds) x.state.clock w).attempts + 1) :
    ∃ es message retryAfter x', Chain (limiterSem C d (ipKey req.clientIp)) x
        (es.map (.call c)) x' ∧
      (req.program d).Runs es (.raise (.rateLimited message retryAfter)) ∧
      Attempted d req c w x x' := by
  obtain ⟨r, r', x₁, hchain, hr, hr', hattempted⟩ := attempt_chain (c := c) hemail hip
  have hone : r.1 ≤ (d.settings.loginRateLimitMaxAttempts : Int) := by
    rw [hr]
    exact Int.ofNat_le.mpr d.settings.loginRateLimitMaxAttempts_pos
  have hnot : ¬ r'.1 ≤ (d.settings.loginRateLimitMaxAttempts : Int) := by
    rw [hr', not_le]
    exact Int.ofNat_lt.mpr hover
  obtain ⟨s, ttl, hstep, husers⟩ : ∃ s ttl, step d x₁.state
      (.redis (.ttl (ipKey req.clientIp))) ttl s ∧ s.users = x₁.state.users :=
    ⟨_, _, ⟨rfl, rfl⟩, rfl⟩
  have httl : (limiterSem C d (ipKey req.clientIp)).step c x₁
      (.redis (.ttl (ipKey req.clientIp))) ttl ⟨s, x₁.log⟩ :=
    ⟨hstep, (List.append_nil _).symm⟩
  have hwarn : (limiterSem C d (ipKey req.clientIp)).step c ⟨s, x₁.log⟩
      (.log (.loginRateLimited (ipKey req.clientIp) r'.1)) () ⟨s, x₁.log⟩ :=
    ⟨rfl, (List.append_nil _).symm⟩
  have hclock : s.clock = x₁.state.clock := step_clock hstep
  have hspares : ∀ key, Spares key (.redis (.ttl (ipKey req.clientIp))) := fun _ => by
    simp [Spares, Cmd.writes]
  exact ⟨refusedEvents d req r r' ttl, _, _, ⟨s, x₁.log⟩, hchain.append (.call httl (.call hwarn .nil)),
    refused_ip_runs hone hnot ttl, hattempted.log, hclock.trans hattempted.clock,
    husers.trans hattempted.users, (hattempted.counter).spared (hspares _) hstep,
    fun email hemail' hnone => (hattempted.others email hemail' hnone).spared (hspares _) hstep⟩

/-- An attempt within both limits that finds its account deletes the counter of the IP. -/
theorem passing_attempt (d : Deps Tok) (req : LoginRequest) (c : C)
    {x : Logged State (Stroke C)} {w : Option Window}
    (hemail : CounterIs x.state (emailKey d req.email) none)
    (hip : CounterIs x.state (ipKey req.clientIp) w)
    (hwithin : (Window.current (ticks d.settings.loginRateLimitWindowSeconds) x.state.clock
      w).attempts + 1 ≤ d.settings.loginRateLimitMaxAttempts)
    (hpasses : Passes d req (getByEmail d x.state req.email)) :
    ∃ es q x' x'', Chain (limiterSem C d (ipKey req.clientIp)) x (es.map (.call c)) x'' ∧
      (req.program d).Runs es q ∧ Attempted d req c w x x' ∧ Reset d req c x' x'' := by
  obtain ⟨r, r', x', hchain, hr, hr', hattempted⟩ := attempt_chain (c := c) hemail hip
  obtain ⟨x'', hresets, hreset⟩ := resets_chain d req c x'
  have hone : r.1 ≤ (d.settings.loginRateLimitMaxAttempts : Int) := by
    rw [hr]
    exact Int.ofNat_le.mpr d.settings.loginRateLimitMaxAttempts_pos
  have hle : r'.1 ≤ (d.settings.loginRateLimitMaxAttempts : Int) := by
    rw [hr']
    exact Int.ofNat_le.mpr hwithin
  obtain ⟨q, hruns⟩ := passed_runs hone hle hpasses
  refine ⟨_, q, x', x'', ?_, hruns, hattempted, hreset⟩
  rw [List.map_append]
  exact (hchain.append (.call hattempted.lookup .nil)).append hresets

end Attempts

/-- Two attempts in five minutes, and one account. -/
def twoAttempts : Deps Claims :=
  { sample with settings := { sampleSettings with
      loginRateLimitMaxAttempts := 2
      loginRateLimitMaxAttempts_pos := by decide } }

inductive Attempt where
  | first | own | second | third
  deriving DecidableEq

/-- Passwords for the accounts of others, and in between one for an account of one's own. -/
def ownAccount : Attempt → LoginRequest
  | .first => ⟨"a", wrongPassword, "ip"⟩
  | .own => ⟨"a@b.c", "pw", "ip"⟩
  | .second => ⟨"b", wrongPassword, "ip"⟩
  | .third => ⟨"c", wrongPassword, "ip"⟩

/-- Three wrong passwords in one window, with a limit of two: the login in between deletes the
counter of the IP. -/
theorem own_account : ∃ tr cfg, Run (limiterSem (Attempt) twoAttempts (ipKey "ip")) anyStep
    (loginsInit twoAttempts ownAccount freshState) tr cfg ∧
      ¬ IpLimited twoAttempts ownAccount "ip" tr cfg.state.log := by
  have hnone : ∀ email, CounterIs freshState (emailKey twoAttempts email) none := fun _ => rfl
  obtain ⟨es₀, q₀, x₀, hchain₀, hruns₀, hlookup₀, h₀⟩ :=
    attempt twoAttempts (ownAccount .first) Attempt.first
      (x := ⟨freshState, []⟩) (w := none) (hnone _) rfl (by decide)
  have hclock₀ : x₀.state.clock = 0 := h₀.clock
  -- the account is there when it is looked up
  have hpasses : Passes twoAttempts (ownAccount .own)
      (getByEmail twoAttempts x₀.state (ownAccount .own).email) := by
    have hfound : getByEmail twoAttempts x₀.state (ownAccount .own).email = some sampleUser := by
      rw [getByEmail, h₀.users]
      decide
    exact ⟨sampleUser, hfound, by decide, rfl⟩
  obtain ⟨es₁, q₁, x₁, y, hchain₁, hruns₁, h₁, hy⟩ :=
    passing_attempt twoAttempts (ownAccount .own) Attempt.own
      (h₀.others _ (by decide) (hnone _)) h₀.counter (by rw [hclock₀]; decide) hpasses
  have hclock₁ : x₁.state.clock = 0 := h₁.clock.trans hclock₀
  have hclock : y.state.clock = 0 := hy.clock.trans hclock₁
  obtain ⟨es₂, q₂, x₂, hchain₂, hruns₂, hlookup₂, h₂⟩ :=
    attempt twoAttempts (ownAccount .second) Attempt.second
      (hy.others _ (h₁.others _ (by decide) (h₀.others _ (by decide) (hnone _)))) hy.counter
      (by rw [hclock]; decide)
  have hclock₂ : x₂.state.clock = 0 := h₂.clock.trans hclock
  obtain ⟨es₃, q₃, x₃, hchain₃, hruns₃, hlookup₃, h₃⟩ :=
    attempt twoAttempts (ownAccount .third) Attempt.third
      (h₂.others _ (by decide) (hy.others _ (h₁.others _ (by decide)
        (h₀.others _ (by decide) (hnone _))))) h₂.counter (by rw [hclock, hclock₂]; decide)
  have hchain := ((hchain₀.append hchain₁).append hchain₂).append hchain₃
  let q (c : Attempt) :=
    if c = .first then q₀ else if c = .own then q₁ else if c = .second then q₂ else q₃
  have hrun := Run.of_chain (p := (loginsInit twoAttempts ownAccount freshState).pool)
    (q := q) hchain fun c => by
      cases c with
      | first => simpa [q, own_map_ne] using hruns₀
      | own => simpa [q, own_map_ne] using hruns₁
      | second => simpa [q, own_map_ne] using hruns₂
      | third => simpa [q, own_map_ne] using hruns₃
  -- the history of the IP
  have hlive₀ : (x₀.state.counter (ipKey "ip")).isNone = false := by
    have hcounter := h₀.counter
    rw [CounterIs, hclock₀] at hcounter
    rw [show ipKey "ip" = ipKey (ownAccount .first).clientIp from rfl, hcounter]
    rfl
  have hnone : (y.state.counter (ipKey "ip")).isNone = true := by
    rw [show ipKey "ip" = ipKey (ownAccount .own).clientIp from rfl,
      counterIs_none.mp hy.counter]
    rfl
  have hlive₂ : (x₂.state.counter (ipKey "ip")).isNone = false := by
    have hcounter := h₂.counter
    rw [CounterIs, hclock₂, hclock] at hcounter
    rw [show ipKey "ip" = ipKey (ownAccount .second).clientIp from rfl, hcounter]
    rfl
  have hlog : x₃.log = [.hit .first 0 true 1, .hit .own 0 false 2, .reset .own 0,
      .hit .second 0 true 1, .hit .third 0 false 2] := by
    rw [h₃.log, h₂.log, hy.log, h₁.log, h₀.log, hclock₀, hclock₁, hclock, hclock₂]
    simp only [ownAccount, hlive₀, hnone, hlive₂, List.nil_append, List.cons_append]
    rfl
  refine ⟨_, _, hrun, fun hlimited => ?_⟩
  have hthree := hlimited [] _ _ _ _ hlog [.first, .second, .third] (by decide) fun c hc => by
    simp only [List.mem_cons, List.not_mem_nil, or_false] at hc
    rcases hc with rfl | rfl | rfl
    · exact ⟨rfl, ⟨_, by simpa [own_map_ne] using hlookup₀, verifyPassword_wrong _⟩, 0, true, 1,
        by simp, by decide⟩
    · exact ⟨rfl, ⟨_, by simpa [own_map_ne] using hlookup₂, verifyPassword_wrong _⟩, 0, true, 1,
        by simp, by decide⟩
    · exact ⟨rfl, ⟨_, by simpa [own_map_ne] using hlookup₃, verifyPassword_wrong _⟩, 0, false, 2,
        by simp, by decide⟩
  exact absurd hthree (by decide)

/-- The same attempts, except that the login with one's own account comes from another
address. -/
def otherAddress : Attempt → LoginRequest
  | .first => ⟨"a", wrongPassword, "ip"⟩
  | .own => ⟨"a@b.c", "pw", "home"⟩
  | .second => ⟨"b", wrongPassword, "ip"⟩
  | .third => ⟨"c", wrongPassword, "ip"⟩

/-- Three wrong passwords in one window, with a limit of two: the third does not get to the
password check. -/
theorem ip_limited_sample : ∃ tr cfg message retryAfter,
    Run (limiterSem Attempt twoAttempts (ipKey "ip"))
      (noOwnAccount twoAttempts otherAddress "ip")
      (loginsInit twoAttempts otherAddress freshState) tr cfg ∧
    FailsVerification twoAttempts (otherAddress .first) (own .first tr) ∧
    FailsVerification twoAttempts (otherAddress .second) (own .second tr) ∧
    (cfg.pool .third).outcome = some (.error (.rateLimited message retryAfter)) ∧
    IpLimited twoAttempts otherAddress "ip" tr cfg.state.log := by
  have hnone : ∀ email, CounterIs freshState (emailKey twoAttempts email) none := fun _ => rfl
  obtain ⟨es₀, q₀, x₀, hchain₀, hruns₀, hlookup₀, h₀⟩ :=
    attempt twoAttempts (otherAddress .first) Attempt.first
      (x := ⟨freshState, []⟩) (w := none) (hnone _) rfl (by decide)
  have hclock₀ : x₀.state.clock = 0 := h₀.clock
  obtain ⟨es₁, q₁, x₁, hchain₁, hruns₁, hlookup₁, h₁⟩ :=
    attempt twoAttempts (otherAddress .second) Attempt.second
      (h₀.others _ (by decide) (hnone _)) h₀.counter (by rw [hclock₀]; decide)
  have hclock₁ : x₁.state.clock = 0 := h₁.clock.trans hclock₀
  obtain ⟨es₂, message, retryAfter, x₂, hchain₂, hruns₂, _⟩ :=
    refused_attempt twoAttempts (otherAddress .third) Attempt.third
      (h₁.others _ (by decide) (h₀.others _ (by decide) (hnone _))) h₁.counter
      (by rw [hclock₀, hclock₁]; decide)
  have hchain := (hchain₀.append hchain₁).append hchain₂
  let q (c : Attempt) :=
    if c = .first then q₀ else if c = .second then q₁ else if c = .third then
      .raise (.rateLimited message retryAfter) else (otherAddress c).program twoAttempts
  have hrun := Run.of_chain (p := (loginsInit twoAttempts otherAddress freshState).pool)
    (q := q) hchain fun c => by
      cases c with
      | first => simpa [q, own_map_ne] using hruns₀
      | own => simpa [q, own_map_ne] using .nil
      | second => simpa [q, own_map_ne] using hruns₁
      | third => simpa [q, own_map_ne] using hruns₂
  have hguarded := hrun.mono fun tr cfg l _ =>
    (show noOwnAccount twoAttempts otherAddress "ip" tr cfg l by
      rintro c found _ hip ⟨user, _, hverified, _⟩
      have hwrong : (otherAddress c).password = wrongPassword := by
        cases c with
        | own => exact absurd hip (by decide)
        | first | second | third => rfl
      rw [hwrong, verifyPassword_wrong] at hverified
      cases hverified)
  exact ⟨_, _, message, retryAfter, hguarded,
    ⟨_, by simpa [own_map_ne] using hlookup₀, verifyPassword_wrong _⟩,
    ⟨_, by simpa [own_map_ne] using hlookup₁, verifyPassword_wrong _⟩, rfl,
    ip_limited twoAttempts otherAddress "ip" freshState rfl hguarded⟩

end GreenCommunity.Auth
