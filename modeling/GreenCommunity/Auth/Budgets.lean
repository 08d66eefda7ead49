import GreenCommunity.Auth.AccountLimit
import GreenCommunity.Auth.LimiterHistory

/-!
# Whose budget a login spends

The limiter counts a login on its email first and then on its IP.  So a login that is
refused because the IP is over its limit has been counted on the email like any other, while
one refused on its email never gets to the IP.  `login_budgets` says what a login that fails
leaves in every counter, and what a sequence of them leaves in the counter of an email.
-/

namespace GreenCommunity.Auth

open GreenCommunity.Base
open GreenCommunity.Base.Redis

variable {Tok : Type}

/-- The limiter refused the request on this key. -/
def RefusedOn (key : String) (x : Entered Tok) : Prop :=
  ∃ n, (⟨.log (.loginRateLimited key n), ()⟩ : AuthEvent) ∈ x.events.map Prod.snd

/-- The counter of a key after a failed login with this email. -/
def spend (d : Deps Tok) (key : String) (w : Option Window) (x : Entered Tok) :
    Option Window :=
  match x.req with
  | .login email _ _ =>
      if emailKey d email = key then
        some (Window.current (ticks d.settings.loginRateLimitWindowSeconds) (hitAt x) w).count
      else w
  | _ => w

/-- The request is a login from the IP that fails. -/
def FailsFrom (ip : String) (x : Entered Tok) : Prop :=
  (∃ email password, x.req = .login email password ip) ∧ succeeded x = false

section Login

variable {d : Deps Tok} {email clientIp : String}

/-- An operation of a login behind its first hit: it leaves the counters of other emails alone,
and does not say that the email is over its limit. -/
structure Later (d : Deps Tok) (email : String) (op : Op) : Prop where
  spares : ∀ email', emailKey d email' ≠ emailKey d email → Spares (emailKey d email') op
  notRefused : ∀ n, op ≠ .log (.loginRateLimited (emailKey d email) n)

theorem later_log {entry : LogEntry}
    (h : ∀ n, entry ≠ .loginRateLimited (emailKey d email) n) : Later d email (.log entry) :=
  ⟨fun _ _ => trivial, fun n heq => h n (by simpa using heq)⟩

theorem later_ttl (key : String) : Later d email (.redis (.ttl key)) :=
  ⟨fun _ _ => by simp [Spares, Cmd.writes], by simp⟩

theorem later_ipHit : Later d email (hitOp d (ipKey clientIp)) :=
  ⟨fun email' _ => spares_hit (emailKey_ne_ipKey email' clientIp) _, by simp⟩

theorem later_emailReset : Later d email (.redis (.del [emailKey d email])) :=
  ⟨fun _ hne => spares_reset hne, by simp⟩

theorem later_ipReset : Later d email (.redis (.del [ipKey clientIp])) :=
  ⟨fun email' _ => spares_reset (emailKey_ne_ipKey email' clientIp), by simp⟩

theorem later_issue (u : Nat) : (issueTokens d u).Every (Later d email) := by
  unfold issueTokens createAccessToken createRefreshToken createToken save
  have hnow : Later d email .now := ⟨fun _ _ => trivial, by simp⟩
  have huuid : Later d email .uuid4 := ⟨fun _ _ => trivial, by simp⟩
  refine Prog.every_call hnow fun _ => Prog.every_call huuid fun _ => ?_
  refine Prog.every_call hnow fun _ => Prog.every_call huuid fun _ => ?_
  refine Prog.every_call ⟨fun email' _ => spares_save email' _ _ _, by simp⟩ fun _ => ?_
  exact Prog.every_ret _

theorem later_refused {α : Type} {entry : LogEntry} (e : AppError)
    (h : ∀ n, entry ≠ .loginRateLimited (emailKey d email) n) :
    (Prog.call (.log entry) fun _ => Prog.raise e : AuthM α).Every (Later d email) :=
  Prog.every_call (later_log h) fun _ => Prog.every_raise _

/-- A login hits its email first; refused there, it does not get to its IP. -/
def Spends (d : Deps Tok) (email : String) (past : List AuthEvent) : Prop :=
  (∃ n, (⟨.log (.loginRateLimited (emailKey d email) n), ()⟩ : AuthEvent) ∈ past) →
    ∀ e ∈ past, ∀ ip, Spares (ipKey ip) e.op

/-- The operation leaves the counters of other emails alone. -/
def SparesOthers (d : Deps Tok) (email : String) (op : Op) : Prop :=
  ∀ email', emailKey d email' ≠ emailKey d email → Spares (emailKey d email') op

theorem later_hist {α : Type} {p : AuthM α} {r : Reply (hitOp d (emailKey d email))}
    (h : p.Every (Later d email)) :
    p.Hist (fun _ e => SparesOthers d email e.op) (fun past _ => Spends d email past)
      [⟨hitOp d (emailKey d email), r⟩] := by
  refine Prog.hist_of_every h (fun _ _ he => he.spares) fun es _ hes => ?_
  rintro ⟨n, hmem⟩
  rcases List.mem_append.mp hmem with hmem | hmem
  · cases congrArg Event.op (List.mem_singleton.mp hmem)
  · exact absurd rfl ((hes _ hmem).notRefused n)

theorem login_spends (password : String) :
    (login d email password clientIp).Hist (fun _ e => SparesOthers d email e.op)
      (fun past _ => Spends d email past) [] := by
  have hip := emailKey_ne_ipKey (d := d) email clientIp
  unfold login checkLoginRateLimit resetLoginRateLimit
  simp only [rateLimitKeys_eq, List.forM_eq_forM, List.forM_cons, List.forM_nil, bind_assoc,
    hit_bind]
  refine fun r => ⟨fun email' hne => spares_hit hne _, ?_⟩
  by_cases hr : r.1 ≤ (d.settings.loginRateLimitMaxAttempts : Int)
  · simp only [hr, if_true, Bool.not_true, Bool.false_eq_true, if_false, Prog.pure_eq,
      Prog.ret_bind, Prog.throw_eq, Prog.raise_bind, Prog.request_bind]
    refine later_hist (Prog.every_call later_ipHit fun r' => ?_)
    by_cases hr' : r'.1 ≤ (d.settings.loginRateLimitMaxAttempts : Int)
    · simp only [hr', if_true, Bool.not_false, Prog.bind]
      refine Prog.every_call ⟨fun _ _ => trivial, by simp⟩ fun user => ?_
      cases user with
      | none => exact later_refused _ (by simp)
      | some user =>
          simp only
          split
          · exact later_refused _ (by simp)
          · split
            · exact later_refused _ (by simp)
            · refine Prog.every_call later_emailReset fun _ => ?_
              refine Prog.every_call later_ipReset fun _ => ?_
              exact Prog.every_call (later_log (by simp)) fun _ => later_issue _
    · simp only [hr', if_false, Bool.not_false, if_true, Prog.bind]
      refine Prog.every_call (later_ttl _) fun _ => later_refused _ fun n heq => ?_
      simp only [LogEntry.loginRateLimited.injEq] at heq
      exact hip heq.1.symm
  · simp only [hr, if_false, Bool.not_false, if_true, Prog.throw_eq, Prog.raise_bind,
      Prog.request_bind]
    refine fun ttl => ⟨fun _ _ => by simp [Spares, Cmd.writes], fun _ => ⟨fun _ _ => trivial, ?_⟩⟩
    rintro - e he ip
    simp only [List.nil_append, List.cons_append, List.mem_cons, List.not_mem_nil,
      or_false] at he
    rcases he with rfl | rfl | rfl
    · exact spares_hit (emailKey_ne_ipKey _ _).symm _
    · simp [Spares, Cmd.writes]
    · trivial

/-! ## What a failed login leaves -/

section Failed

variable {password : String} {s s' : State} {w : Option Window} {evs : List TimedEvent}
  {e : AppError}

theorem serve_spends (password : String) :
    (serve d (.login email password clientIp)).Hist (fun _ e => SparesOthers d email e.op)
      (fun past _ => Spends d email past) [] := by
  refine (Prog.hist_bind _ _ _).mpr ((login_spends password).imp (fun _ _ hQ => hQ) ?_)
  rintro past (e | issued) hm
  · exact hm
  · exact hm

/-- Nothing is written to the key of a counter that every event spares. -/
theorem counterIs_exec {α : Type} {key : String} {p : AuthM α}
    {o : Option (Except AppError α)} (hw : CounterIs s key w)
    (h : Exec (soloSem d passes) () s p evs o s')
    (hspares : ∀ x ∈ evs, Spares key x.2.op) : CounterIs s' key w := by
  induction h with
  | ret | raise | stop => exact hw
  | call hpass hstep _ ih =>
      refine ih ?_ fun x hx => hspares x (List.mem_cons_of_mem _ hx)
      exact (hw.passes hpass).spared (hspares _ List.mem_cons_self) hstep

/-- A failed login counts on its own email and on no other. -/
theorem failed_login_email
    (h : Exec (soloSem d passes) () s (serve d (.login email password clientIp)) evs
      (some (.error e)) s') (email' : String) (hw : CounterIs s (emailKey d email') w) :
    CounterIs s' (emailKey d email')
      (spend d (emailKey d email') w ⟨.login email password clientIp, s, evs, .error e⟩) := by
  show CounterIs _ _ (if emailKey d email = emailKey d email' then _ else w)
  by_cases hemail : emailKey d email = emailKey d email'
  · rw [if_pos hemail]
    rw [← hemail] at hw ⊢
    exact (meter_of_login hw h).refused rfl
  · rw [if_neg hemail]
    refine h.inv (fun _ s => CounterIs s (emailKey d email') w) ?_ [] (serve_spends password) hw
    intro past s s₀ s₁ e hcounter hpass hstep hspares
    exact (hcounter.passes hpass).spared (hspares email' (Ne.symm hemail)) hstep

/-- A login refused on its email does not count on any IP. -/
theorem refused_login_ip
    (h : Exec (soloSem d passes) () s (serve d (.login email password clientIp)) evs
      (some (.error e)) s')
    (hrefused : RefusedOn (emailKey d email)
      (⟨.login email password clientIp, s, evs, .error e⟩ : Entered Tok)) (ip : String)
    (hw : CounterIs s (ipKey ip) w) : CounterIs s' (ipKey ip) w := by
  have hspends : Spends d email (evs.map Prod.snd) := by
    simpa using h.post (serve_spends password)
  exact counterIs_exec hw h fun x hx => hspends hrefused _ (List.mem_map_of_mem hx) ip

end Failed

/-- A sequence of failed logins from one IP. -/
theorem failed_logins_email {ip : String} {init : State} {log : List (Entered Tok)}
    (h : Serial (soloSem d passes) () passes (serve d) init log s)
    (hall : ∀ x ∈ log, FailsFrom ip x) (email : String)
    (hw : CounterIs init (emailKey d email) w) :
    CounterIs s (emailKey d email) (log.foldl (spend d (emailKey d email)) w) := by
  refine Serial.inv (fun log s => (∀ x ∈ log, FailsFrom ip x) →
    CounterIs s (emailKey d email) (log.foldl (spend d (emailKey d email)) w)) (fun _ => hw) ?_
    ?_ h hall
  · exact fun log s s' ih hp hall => (ih hall).passes hp
  · intro log s s' req evs o _ ih hx hall
    obtain ⟨⟨email', password, rfl⟩, hfails⟩ := hall ⟨req, s, evs, o⟩ (by simp)
    rw [List.foldl_append]
    cases o with
    | ok a => cases hfails
    | error e =>
        exact failed_login_email hx email (ih fun x hx => hall x (List.mem_append_left _ hx))

/-- A failed login, also one refused because its IP is over the limit, counts once on its own
email and on no other; refused on its email it does not count on an IP; and in a sequence of
failed logins from one IP every one counts on its email. -/
theorem login_budgets (d : Deps Tok) :
    (∀ email password clientIp s s' evs e,
      Exec (soloSem d passes) () s (serve d (.login email password clientIp)) evs
        (some (.error e)) s' →
      (∀ email' w, CounterIs s (emailKey d email') w → CounterIs s' (emailKey d email')
        (spend d (emailKey d email') w ⟨.login email password clientIp, s, evs, .error e⟩)) ∧
      (RefusedOn (emailKey d email)
          (⟨.login email password clientIp, s, evs, .error e⟩ : Entered Tok) →
        ∀ ip w, CounterIs s (ipKey ip) w → CounterIs s' (ipKey ip) w)) ∧
    ∀ ip init log s, Serial (soloSem d passes) () passes (serve d) init log s →
      (∀ x ∈ log, FailsFrom ip x) → ∀ email w, CounterIs init (emailKey d email) w →
        CounterIs s (emailKey d email) (log.foldl (spend d (emailKey d email)) w) := by
  refine ⟨fun email password clientIp s s' evs e h => ⟨fun email' w => failed_login_email h email',
    fun hrefused ip w => refused_login_ip h hrefused ip⟩, ?_⟩
  exact fun ip init log s h hall email w => failed_logins_email h hall email

end Login

/-! ## An IP over its limit -/

/-- A Redis in which the IP has used up its window. -/
def usedUp : State :=
  { freshState with redis := fun key =>
      if key = ipKey "ip" then some (windowEntry ⟨5, 300000000⟩) else none }

/-- A login refused because its IP is over the limit. -/
private theorem refused_on_ip : ∃ s' evs e,
    Exec (soloSem sample passes) () usedUp (serve sample (.login "a" wrongPassword "ip")) evs
      (some (.error e)) s' ∧
    RefusedOn (ipKey "ip")
      (⟨.login "a" wrongPassword "ip", usedUp, evs, .error e⟩ : Entered Claims) ∧
    s'.counter (emailKey sample "a") = some (windowEntry ⟨1, 300000000⟩) := by
  have hpos := sample.settings.loginRateLimitWindowSeconds_pos
  have hemail : CounterIs usedUp (emailKey sample "a") none := by
    rw [counterIs_none]
    decide
  have hip : CounterIs usedUp (ipKey "ip") (some ⟨5, 300000000⟩) := by
    have hentry : usedUp.redis (ipKey "ip") = some (windowEntry ⟨5, 300000000⟩) := by
      simp [usedUp]
    refine purge_eq_some.mpr ⟨hentry, ?_⟩
    exact WithTop.coe_lt_coe.mpr (by decide)
  have hne := emailKey_ne_ipKey (d := sample) "a" "ip"
  obtain ⟨s₁, r, hstep₁⟩ : ∃ s₁ r, step sample usedUp (hitOp sample (emailKey sample "a")) r s₁ :=
    ⟨_, _, rfl, rfl⟩
  obtain ⟨s₂, r', hstep₂⟩ : ∃ s₂ r', step sample s₁ (hitOp sample (ipKey "ip")) r' s₂ :=
    ⟨_, _, rfl, rfl⟩
  obtain ⟨s₃, ttl, hstep₃⟩ : ∃ s₃ ttl, step sample s₂ (.redis (.ttl (ipKey "ip"))) ttl s₃ :=
    ⟨_, _, rfl, rfl⟩
  have hclock₁ : s₁.clock = 0 := step_clock hstep₁
  have hclock₂ : s₂.clock = 0 := (step_clock hstep₂).trans hclock₁
  have hclock₃ : s₃.clock = 0 := (step_clock hstep₃).trans hclock₂
  obtain ⟨hr, hcounter⟩ := hemail.hit hpos hstep₁
  obtain ⟨hr', _⟩ := (CounterIs.spared (spares_hit hne.symm _) hstep₁ hip).hit hpos hstep₂
  rw [hclock₁] at hr'
  have hle : r.1 ≤ (sample.settings.loginRateLimitMaxAttempts : Int) := by
    rw [hr]
    decide
  have hover : ¬ r'.1 ≤ (sample.settings.loginRateLimitMaxAttempts : Int) := by
    rw [hr']
    decide
  have hcounter := CounterIs.spared (by simp [Spares, Cmd.writes]) hstep₃
    (CounterIs.spared (spares_hit hne _) hstep₂ hcounter)
  have hchain : Chain (soloSem sample passes) usedUp
      ([⟨hitOp sample (emailKey sample "a"), r⟩, ⟨hitOp sample (ipKey "ip"), r'⟩,
        ⟨.redis (.ttl (ipKey "ip")), ttl⟩,
        ⟨.log (.loginRateLimited (ipKey "ip") r'.1), ()⟩].map (.call ())) s₃ :=
    .call hstep₁ (.call hstep₂ (.call hstep₃ (.call (show s₃ = s₃ from rfl) .nil)))
  obtain ⟨evs, hevents, _, hx⟩ := Exec.of_chain (P := fun _ => True) passes_refl
    (fun _ _ _ _ _ _ => trivial) (Prog.Runs.map_raise Response.tokens (refused_ip_runs hle hover ttl))
    rfl trivial hchain
  refine ⟨s₃, evs, _, hx, ⟨r'.1, ?_⟩, ?_⟩
  · rw [hevents]
    simp
  · rw [CounterIs, hclock₃] at hcounter
    exact hcounter

/-- The counter of an email that nobody has tried is at one when the request has been refused
on its IP. -/
theorem spent_on_refusal : ∃ s' evs e,
    Exec (soloSem sample passes) () usedUp (serve sample (.login "a" wrongPassword "ip")) evs
      (some (.error e)) s' ∧
    RefusedOn (ipKey "ip")
      (⟨.login "a" wrongPassword "ip", usedUp, evs, .error e⟩ : Entered Claims) ∧
    s'.counter (emailKey sample "a") ≠ usedUp.counter (emailKey sample "a") := by
  obtain ⟨s', evs, e, hx, hrefused, hcounter⟩ := refused_on_ip
  have hnone : usedUp.counter (emailKey sample "a") = none := by decide
  refine ⟨s', evs, e, hx, hrefused, ?_⟩
  rw [hcounter, hnone]
  simp

/-- The same request in the words of the theorem. -/
theorem login_budgets_sample : ∃ s' evs e,
    RefusedOn (ipKey "ip")
      (⟨.login "a" wrongPassword "ip", usedUp, evs, .error e⟩ : Entered Claims) ∧
    CounterIs s' (emailKey sample "a") (spend sample (emailKey sample "a") none
      ⟨.login "a" wrongPassword "ip", usedUp, evs, .error e⟩) := by
  obtain ⟨s', evs, e, hx, hrefused, _⟩ := refused_on_ip
  have hnone : CounterIs usedUp (emailKey sample "a") none := by
    rw [counterIs_none]
    decide
  exact ⟨s', evs, e, hrefused,
    ((login_budgets sample).1 "a" wrongPassword "ip" usedUp s' evs e hx).1 "a" none hnone⟩

end GreenCommunity.Auth
