import GreenCommunity.Auth.Counters

/-!
# How many wrong passwords an account takes

The limiter counts per key, and the key is the submitted email in Python's lower
case; the account is found by the collation of the users table.  `Tally` counts what
the limiter is for: the failed password checks on one account in each of its windows,
whatever spelling and IP they came with.

`account_limit_iff` says for which accounts the limit holds: exactly for those all of
whose spellings share one limiter key.
-/

namespace GreenCommunity.Auth

open GreenCommunity.Base
open GreenCommunity.Base.Redis

variable {Tok : Type} (d : Deps Tok)

/-! ## The windows of an account -/

/-- Where the window in progress ends, and how many of its attempts failed at the
password. -/
structure Tally where
  endsAt : Nat
  failed : Nat

/-- When the limiter counted the attempt. -/
def hitAt (x : Entered Tok) : Nat :=
  (x.events.head?.map fun y => y.1.clock).getD x.start.clock

/-- The attempt got as far as the password check and failed it. -/
def failedVerification (x : Entered Tok) : Bool :=
  match x.req with
  | .login _ password _ => x.events.any fun y =>
      match y.2 with
      | ⟨.getByEmail _, some user⟩ => !verifyPassword d password user.userPasswordHash
      | _ => false
  | _ => false

def succeeded (x : Entered Tok) : Bool :=
  match x.outcome with
  | .ok _ => true
  | .error _ => false

/-- One more attempt. A window lasts `window_seconds` from its first attempt, and a
successful login ends it. -/
def Tally.next (t : Option Tally) (x : Entered Tok) : Option Tally :=
  let window := (t.filter fun t => hitAt x < t.endsAt).getD
    ⟨hitAt x + ticks d.settings.loginRateLimitWindowSeconds, 0⟩
  if succeeded x then none
  else some { window with failed := window.failed + (failedVerification d x).toNat }

def tally (log : List (Entered Tok)) : Option Tally := log.foldl (Tally.next d) none

/-- The lookup of this email finds the account. -/
def Selects (users : List User) (user : User) (email : String) : Prop :=
  (users.find? fun u => d.sameEmail u.userEmail email) = some user

/-- A login attempt on the account, under any of its spellings. -/
def Attempts (users : List User) (user : User) (req : Request Tok) : Prop :=
  ∃ email password clientIp, req = .login email password clientIp ∧
    Selects d users user email

/-- In every sequence of attempts on the account, from counters that are not running,
no window has more failed password checks than the limit. -/
def AccountLimited (users : List User) (user : User) : Prop :=
  ∀ init log s, init.users = users →
    (∀ email, Selects d users user email → CounterIs init (emailKey d email) none) →
    Serial (soloSem d passes) () passes (serve d) init log s →
    (∀ x ∈ log, Attempts d users user x.req) →
    ∀ t, tally d log = some t → t.failed ≤ d.settings.loginRateLimitMaxAttempts

/-- All spellings of the account share a limiter key. -/
def OneKey (users : List User) (user : User) : Prop :=
  ∀ email email', Selects d users user email → Selects d users user email' →
    emailKey d email = emailKey d email'

/-! ## What a login does to the counter of its email -/

variable {d}

/-- The limiter's keys are not written by a pipeline of the token store. -/
theorem spares_save (email : String) (u : Nat) (j h : String) :
    Spares (emailKey d email) (.pipeline (saveCmds d u j h)) := by
  intro c hc
  have hkey : emailKey d email ∈ rateLimitKeys d email "" := by
    simp [rateLimitKeys_eq]
  have htoken := (rateLimitKey_ne hkey (.token u j)).symm
  have hindex := (rateLimitKey_ne hkey (.index u)).symm
  simp only [saveCmds, List.mem_cons, List.not_mem_nil, or_false] at hc
  rcases hc with rfl | rfl | rfl <;> simpa [Cmd.writes]

/-- The hit with which a login begins. -/
abbrev hitEvent (d : Deps Tok) (email : String)
    (r : Replies (hitCmds (emailKey d email) d.settings.loginRateLimitWindowSeconds)) :
    AuthEvent :=
  ⟨.pipeline (hitCmds (emailKey d email) d.settings.loginRateLimitWindowSeconds), r⟩

/-- The events of a login, as far as the counter of its email goes: it is hit first,
the account is looked up only if the hit was within the limit, and the key is deleted
exactly on success. -/
def Metered {α : Type} (d : Deps Tok) (email : String) (past : List AuthEvent)
    (o : Except AppError α) : Prop :=
  ∃ r rest, past = hitEvent d email r :: rest ∧
    ((∃ e ∈ rest, ∃ lookup, e.op = .getByEmail lookup) →
      r.1 ≤ d.settings.loginRateLimitMaxAttempts) ∧
    match o with
    | .ok _ => ∃ e ∈ rest, e.op = .redis (.del [emailKey d email])
    | .error _ => ∀ e ∈ rest, Spares (emailKey d email) e.op

section Metered

variable {α : Type} {email : String}
  {r : Replies (hitCmds (emailKey d email) d.settings.loginRateLimitWindowSeconds)}

/-- The first event is the hit; later ones spare the counter or delete it. -/
def MeteredStep (d : Deps Tok) (email : String) (past : List AuthEvent) (e : AuthEvent) :
    Prop :=
  if past = [] then ∃ r, e = hitEvent d email r
  else Spares (emailKey d email) e.op ∨ e.op = .redis (.del [emailKey d email])

private theorem hist_spared {op : Op} {k : Reply op → AuthM α} {rest : List AuthEvent}
    (hop : Spares (emailKey d email) op)
    (hk : ∀ r', (k r').Hist (MeteredStep d email) (Metered d email)
      (hitEvent d email r :: (rest ++ [⟨op, r'⟩]))) :
    (Prog.call op k).Hist (MeteredStep d email) (Metered d email)
      (hitEvent d email r :: rest) :=
  fun r' => ⟨Or.inl hop, hk r'⟩

/-- A refused attempt. -/
private theorem metered_error (rest : List AuthEvent) {e : AppError}
    (hrest : ∀ x ∈ rest, Spares (emailKey d email) x.op)
    (hread : (∃ x ∈ rest, ∃ lookup, x.op = .getByEmail lookup) →
      r.1 ≤ (d.settings.loginRateLimitMaxAttempts : Int)) :
    Metered (α := α) d email (hitEvent d email r :: rest) (.error e) :=
  ⟨r, rest, rfl, hread, hrest⟩

private theorem refused_metered {rest : List AuthEvent} (entry : LogEntry) (e : AppError)
    (hr : r.1 ≤ (d.settings.loginRateLimitMaxAttempts : Int))
    (hrest : ∀ x ∈ rest, Spares (emailKey d email) x.op) :
    Prog.Hist (α := α) (MeteredStep d email) (Metered d email)
      (Prog.call (.log entry) fun _ => Prog.raise e) (hitEvent d email r :: rest) := by
  refine hist_spared trivial fun _ => ?_
  refine metered_error (rest ++ [⟨.log entry, ()⟩]) ?_ fun _ => hr
  intro x hx
  rcases List.mem_append.mp hx with hx | hx
  · exact hrest x hx
  · rw [List.mem_singleton.mp hx]
    trivial

/-- A successful attempt: the reset, and what leaves the counter alone after it. -/
private theorem issued_metered {clientIp : String} {rest : List AuthEvent} {u : Nat}
    (hr : r.1 ≤ (d.settings.loginRateLimitMaxAttempts : Int)) :
    Prog.Hist (MeteredStep d email) (Metered d email)
      (resetLoginRateLimit d email clientIp >>= fun _ =>
        Prog.call (.log (.loginSucceeded u)) fun _ => issueTokens d u)
      (hitEvent d email r :: rest) := by
  have hip := emailKey_ne_ipKey (d := d) email clientIp
  simp only [resetLoginRateLimit, reset, rateLimitKeys_eq, List.forM_eq_forM, List.forM_cons,
    List.forM_nil, issueTokens, createAccessToken, createRefreshToken, createToken, save,
    Prog.request_bind, Prog.pure_eq, Prog.ret_bind, Prog.call_bind]
  intro r'
  refine ⟨Or.inr rfl, ?_⟩
  refine hist_spared (spares_reset hip) fun _ => hist_spared trivial fun _ => ?_
  refine hist_spared trivial fun _ => hist_spared trivial fun _ => ?_
  refine hist_spared trivial fun _ => hist_spared trivial fun _ => ?_
  refine hist_spared (spares_save _ _ _ _) fun _ => ?_
  exact ⟨r, _, rfl, fun _ => hr, ⟨.redis (.del [emailKey d email]), r'⟩, by simp, rfl⟩

end Metered

theorem login_metered (email password clientIp : String) :
    (login d email password clientIp).Hist (MeteredStep d email) (Metered d email) [] := by
  have hip := emailKey_ne_ipKey (d := d) email clientIp
  unfold login checkLoginRateLimit
  simp only [rateLimitKeys_eq, List.forM_eq_forM, List.forM_cons, List.forM_nil, bind_assoc,
    hit_bind]
  intro r
  refine ⟨⟨r, rfl⟩, ?_⟩
  by_cases hr : r.1 ≤ (d.settings.loginRateLimitMaxAttempts : Int)
  · simp only [hr, if_true, Bool.not_true, Bool.false_eq_true, if_false, Prog.pure_eq,
      Prog.ret_bind, Prog.throw_eq, Prog.raise_bind, Prog.request_bind]
    refine hist_spared (spares_hit hip _) fun r' => ?_
    by_cases hr' : r'.1 ≤ (d.settings.loginRateLimitMaxAttempts : Int)
    · simp only [hr', if_true, Bool.not_false, Prog.bind]
      refine hist_spared trivial fun user => ?_
      have hrest : ∀ x ∈ ([⟨.pipeline (hitCmds (ipKey clientIp) _), r'⟩,
          ⟨.getByEmail email, user⟩] : List AuthEvent), Spares (emailKey d email) x.op := by
        intro x hx
        simp only [List.mem_cons, List.not_mem_nil, or_false] at hx
        rcases hx with rfl | rfl
        · exact spares_hit hip _
        · trivial
      cases user with
      | none => exact refused_metered _ _ hr hrest
      | some user =>
          simp only
          split
          · exact refused_metered _ _ hr hrest
          · split
            · exact refused_metered _ _ hr hrest
            · exact issued_metered hr
    · simp only [hr', if_false, Bool.not_false, if_true, Prog.bind]
      refine hist_spared (by simp [Spares, Cmd.writes]) fun ttl => ?_
      refine hist_spared trivial fun _ => metered_error _ ?_ fun _ => hr
      simpa [Spares, Cmd.writes] using spares_hit hip _
  · simp only [hr, if_false, Bool.not_false, if_true, Prog.throw_eq, Prog.raise_bind,
      Prog.request_bind]
    refine hist_spared (by simp [Spares, Cmd.writes]) fun ttl => ?_
    refine hist_spared trivial fun _ => metered_error _ ?_ ?_
    · simp [Spares, Cmd.writes]
    · simp

/-! ## The counter over one attempt -/

/-- What one attempt does to the window of its key: it counts in the current one, and
a success ends it. -/
structure Meter (d : Deps Tok) (email : String) (s s' : State) (w : Option Window)
    (x : Entered Tok) : Prop where
  users : s'.users = s.users
  refused : succeeded x = false → CounterIs s' (emailKey d email)
    (some (Window.current (ticks d.settings.loginRateLimitWindowSeconds) (hitAt x) w).count)
  reset : succeeded x = true → CounterIs s' (emailKey d email) none
  within : failedVerification d x = true →
    (Window.current (ticks d.settings.loginRateLimitWindowSeconds) (hitAt x) w).attempts + 1 ≤
      d.settings.loginRateLimitMaxAttempts

/-- The states on the way of an attempt. -/
private structure OnTheWay (d : Deps Tok) (email : String) (s : State) (w : Option Window)
    (past : List TimedEvent) (s₁ : State) : Prop where
  users : s₁.users = s.users
  start : past = [] → CounterIs s₁ (emailKey d email) w
  counted : ∀ s₀ e rest, past = (s₀, e) :: rest →
    (∀ x ∈ rest, Spares (emailKey d email) x.2.op) →
    CounterIs s₁ (emailKey d email)
      (some (Window.current (ticks d.settings.loginRateLimitWindowSeconds) s₀.clock w).count)
  replied : ∀ s₀ r rest, past = (s₀, hitEvent d email r) :: rest →
    r.1 = (((Window.current (ticks d.settings.loginRateLimitWindowSeconds) s₀.clock
      w).attempts + 1 : Nat) : Int)
  deleted : (∃ x ∈ past, x.2.op = .redis (.del [emailKey d email])) →
    CounterIs s₁ (emailKey d email) none

/-- One event on the way, after the time that passed before it. -/
private theorem OnTheWay.step {email : String} {s s₁ s₂ s₃ : State} {w : Option Window}
    {past : List TimedEvent} {e : AuthEvent} (h : OnTheWay d email s w past s₁)
    (hw : Auth.passes s₁ s₂) (hstep : Auth.step d s₂ e.op e.reply s₃)
    (hallowed : MeteredStep d email (past.map Prod.snd) e) :
    OnTheWay d email s w (past ++ [(s₂, e)]) s₃ := by
  have husers : s₃.users = s.users := by
    rw [users_step hstep, hw.2, ← h.users]
  cases past with
  | nil =>
      obtain ⟨r, rfl⟩ := hallowed
      obtain ⟨hreply, hcount⟩ := ((h.start rfl).passes hw).hit
        d.settings.loginRateLimitWindowSeconds_pos hstep
      refine ⟨husers, by simp, ?_, ?_, ?_⟩
      · intro s₀ e rest hpast _
        cases hpast
        exact hcount
      · intro s₀ r' rest hpast
        cases hpast
        exact hreply
      · rintro ⟨x, hx, hdel⟩
        cases List.mem_singleton.mp hx
        cases hdel
  | cons first rest =>
      have hlater : Spares (emailKey d email) e.op ∨ e.op = .redis (.del [emailKey d email]) :=
        hallowed
      refine ⟨husers, by simp, ?_, ?_, ?_⟩
      · intro s₀ e₀ rest₀ hpast hspares
        cases hpast
        refine CounterIs.spared (hspares (s₂, e) (by simp)) hstep ?_
        refine CounterIs.passes (h.counted s₀ e₀ rest rfl fun x hx => ?_) hw
        exact hspares x (List.mem_append_left _ hx)
      · intro s₀ r rest₀ hpast
        cases hpast
        exact h.replied s₀ r rest rfl
      · intro hdel
        rcases hlater with hspares | hop
        · refine CounterIs.spared hspares hstep (CounterIs.passes (h.deleted ?_) hw)
          obtain ⟨x, hx, hop⟩ := hdel
          rcases List.mem_append.mp hx with hx | hx
          · exact ⟨x, hx, hop⟩
          · rw [List.mem_singleton.mp hx] at hop
            simp only at hop
            rw [hop] at hspares
            simp [Spares, Cmd.writes] at hspares
        · obtain ⟨op, r⟩ := e
          obtain rfl : op = _ := hop
          exact counterIs_reset hstep

/-- An attempt and the counter of its email. -/
theorem meter_of_login {email password clientIp : String} {s s' : State}
    {w : Option Window} {evs : List TimedEvent} {o : Except AppError (Response Tok)}
    (hw : CounterIs s (emailKey d email) w)
    (h : Exec (soloSem d passes) () s (serve d (.login email password clientIp)) evs (some o)
      s') :
    Meter d email s s' w ⟨.login email password clientIp, s, evs, o⟩ := by
  have hhist : (serve d (.login email password clientIp)).Hist (MeteredStep d email)
      (Metered d email) [] := by
    refine (Prog.hist_bind _ _ _).mpr ((login_metered email password clientIp).imp
      (fun _ _ hQ => hQ) ?_)
    rintro past (e | issued) hm
    · exact hm
    · exact hm
  have hway : OnTheWay d email s w evs s' := by
    refine h.inv (OnTheWay d email s w) ?_ [] hhist ⟨rfl, fun _ => hw, by simp, by simp, by simp⟩
    intro past s₁ s₂ s₃ e hI henv hstep hallowed
    exact hI.step henv hstep hallowed
  obtain ⟨r, rest, hevents, hread, hend⟩ := h.post hhist
  cases evs with
  | nil => simp at hevents
  | cons first evs =>
      obtain ⟨s₀, e₀⟩ := first
      simp only [List.nil_append, List.map_cons, List.cons.injEq] at hevents
      obtain ⟨rfl, rfl⟩ := hevents
      have hat : hitAt (⟨.login email password clientIp, s, (s₀, hitEvent d email r) :: evs,
          o⟩ : Entered Tok) = s₀.clock := rfl
      refine ⟨hway.users, ?_, ?_, ?_⟩
      · intro hfail
        cases o with
        | ok a => cases hfail
        | error e =>
            rw [hat]
            exact hway.counted s₀ _ evs rfl fun x hx => hend _ (List.mem_map_of_mem hx)
      · intro hok
        cases o with
        | error e => cases hok
        | ok a =>
            obtain ⟨e, he, hdel⟩ := hend
            obtain ⟨x, hx, rfl⟩ := List.mem_map.mp he
            exact hway.deleted ⟨x, List.mem_cons_of_mem _ hx, hdel⟩
      · intro hfailed
        have hreply := hway.replied s₀ r evs rfl
        have hlookup : ∃ e ∈ evs.map Prod.snd, ∃ lookup, e.op = .getByEmail lookup := by
          simp only [failedVerification, List.any_cons, Bool.false_or, List.any_eq_true] at hfailed
          obtain ⟨⟨s₁, e⟩, hx, hmatch⟩ := hfailed
          refine ⟨e, List.mem_map_of_mem hx, ?_⟩
          split at hmatch
          · exact ⟨_, congrArg Event.op ‹_›⟩
          · cases hmatch
        have hle := hread hlookup
        rw [hreply] at hle
        rw [hat]
        exact Int.ofNat_le.mp hle

/-! ## Sequences of attempts -/

/-- The tally follows the window: both end together, and no more attempts have failed
than were counted or than the limit lets through. -/
structure Follows (d : Deps Tok) (t : Option Tally) (w : Option Window) : Prop where
  closed : t = none → w = none
  runs : ∀ t', t = some t' → ∃ n, w = some ⟨n, t'.endsAt⟩ ∧ t'.failed ≤ n ∧
    t'.failed ≤ d.settings.loginRateLimitMaxAttempts

/-- The window a refused attempt counts in, in the tally. -/
theorem Follows.refused {t : Option Tally} {w : Option Window} {x : Entered Tok}
    (h : Follows d t w) (hrefused : succeeded x = false)
    (hwithin : failedVerification d x = true →
      (Window.current (ticks d.settings.loginRateLimitWindowSeconds) (hitAt x) w).attempts + 1 ≤
        d.settings.loginRateLimitMaxAttempts) :
    Follows d (Tally.next d t x)
      (some (Window.current (ticks d.settings.loginRateLimitWindowSeconds)
        (hitAt x) w).count) := by
  have hfailed : (failedVerification d x).toNat = 0 ∨
      (failedVerification d x).toNat = 1 ∧ failedVerification d x = true := by
    cases failedVerification d x
    · exact Or.inl rfl
    · exact Or.inr ⟨rfl, rfl⟩
  -- a new window in both
  have hnew : (failedVerification d x = true →
        0 + 1 ≤ d.settings.loginRateLimitMaxAttempts) →
      0 + (failedVerification d x).toNat ≤ 0 + 1 ∧
        0 + (failedVerification d x).toNat ≤ d.settings.loginRateLimitMaxAttempts := by
    intro hle
    rcases hfailed with hno | ⟨hone, hyes⟩
    · omega
    · have := hle hyes
      omega
  refine ⟨by simp [Tally.next, hrefused], fun t' ht' => ?_⟩
  simp only [Tally.next, hrefused, Bool.false_eq_true, if_false, Option.some.injEq] at ht'
  subst ht'
  cases t with
  | none =>
      obtain rfl := h.closed rfl
      obtain ⟨hle, hmax⟩ := hnew hwithin
      exact ⟨_, rfl, hle, hmax⟩
  | some t =>
      obtain ⟨n, rfl, hn, hmax⟩ := h.runs t rfl
      by_cases hlive : hitAt x < t.endsAt
      · simp only [Window.current, Option.filter, hlive, decide_true, if_true,
          Option.getD_some] at hwithin ⊢
        refine ⟨_, rfl, ?_, ?_⟩
        · show t.failed + (failedVerification d x).toNat ≤ n + 1
          rcases hfailed with hno | ⟨hone, _⟩ <;> omega
        · show t.failed + (failedVerification d x).toNat ≤ _
          rcases hfailed with hno | ⟨hone, hyes⟩
          · omega
          · have := hwithin hyes
            omega
      · simp only [Window.current, Option.filter, hlive, decide_false, Bool.false_eq_true,
          if_false, Option.getD_none] at hwithin ⊢
        obtain ⟨hle, hmax'⟩ := hnew hwithin
        exact ⟨_, rfl, hle, hmax'⟩

variable {users : List User} {user : User}

/-- What holds between the attempts. -/
structure Limited (d : Deps Tok) (users : List User) (user : User) (log : List (Entered Tok))
    (s : State) : Prop where
  table : s.users = users
  window : ∃ w, (∀ email, Selects d users user email → CounterIs s (emailKey d email) w) ∧
    Follows d (tally d log) w

theorem tally_snoc (log : List (Entered Tok)) (x : Entered Tok) :
    tally d (log ++ [x]) = Tally.next d (tally d log) x := by
  simp [tally]

theorem Limited.attempt {log : List (Entered Tok)} {s s' : State} {req : Request Tok}
    {evs : List TimedEvent} {o : Except AppError (Response Tok)} (hkey : OneKey d users user)
    (hreq : Attempts d users user req) (h : Limited d users user log s)
    (hx : Exec (soloSem d passes) () s (serve d req) evs (some o) s') :
    Limited d users user (log ++ [⟨req, s, evs, o⟩]) s' := by
  obtain ⟨email, password, clientIp, rfl, hselects⟩ := hreq
  obtain ⟨w, hcounter, hfollows⟩ := h.window
  have hmeter := meter_of_login (hcounter email hselects) hx
  refine ⟨hmeter.users.trans h.table, ?_⟩
  rw [tally_snoc]
  cases hok : succeeded (⟨.login email password clientIp, s, evs, o⟩ : Entered Tok) with
  | true =>
      refine ⟨none, fun email' hselects' => ?_, ⟨fun _ => rfl, ?_⟩⟩
      · rw [← hkey email email' hselects hselects']
        exact hmeter.reset hok
      · intro t' ht'
        simp [Tally.next, hok] at ht'
  | false =>
      refine ⟨_, fun email' hselects' => ?_, hfollows.refused hok hmeter.within⟩
      rw [← hkey email email' hselects hselects']
      exact hmeter.refused hok

/-- With one key for all spellings the limiter limits the account. -/
theorem accountLimited_of_oneKey (hkey : OneKey d users user) :
    AccountLimited d users user := by
  intro init log s husers hclear h hattempts t ht
  have hlimited : (∀ x ∈ log, Attempts d users user x.req) → Limited d users user log s := by
    refine Serial.inv (fun log s => (∀ x ∈ log, Attempts d users user x.req) →
      Limited d users user log s) ?_ ?_ ?_ h
    · exact fun _ => ⟨husers, none, hclear, ⟨fun _ => rfl, by simp [tally]⟩⟩
    · intro log s s' ih hp hall
      obtain ⟨husers', w, hcounter, hfollows⟩ := ih hall
      refine ⟨?_, w, fun email hselects => (hcounter email hselects).passes hp, hfollows⟩
      rw [hp.2]
      exact husers'
    · intro log s s' q evs o _ ih hx hall
      have hbefore := ih fun x hx' => hall x (List.mem_append_left _ hx')
      exact hbefore.attempt hkey (hall ⟨q, s, evs, o⟩ (by simp)) hx
  obtain ⟨_, w, _, hfollows⟩ := hlimited hattempts
  obtain ⟨n, _, _, hle⟩ := hfollows.runs t ht
  exact hle

/-! ## Guessing through several spellings -/

/-- No stored hash fits: passwords of more than 72 bytes are refused. -/
def wrongPassword : String := String.ofList (List.replicate 73 'a')

theorem verifyPassword_wrong (passwordHash : String) :
    verifyPassword d wrongPassword passwordHash = false := by
  have hlong : wrongPassword.utf8ByteSize > bcryptMaxPasswordBytes := by decide
  simp [verifyPassword, hlong]

/-- The trace of a guess that the limiter lets through, at an account or at none. -/
theorem guess_runs {email clientIp : String}
    {r : Replies (hitCmds (emailKey d email) d.settings.loginRateLimitWindowSeconds)}
    {r' : Replies (hitCmds (ipKey clientIp) d.settings.loginRateLimitWindowSeconds)}
    (hr : r.1 ≤ (d.settings.loginRateLimitMaxAttempts : Int))
    (hr' : r'.1 ≤ (d.settings.loginRateLimitMaxAttempts : Int)) (found : Option User) :
    (login d email wrongPassword clientIp).Runs
      [hitEvent d email r,
        ⟨.pipeline (hitCmds (ipKey clientIp) d.settings.loginRateLimitWindowSeconds), r'⟩,
        ⟨.getByEmail email, found⟩, ⟨.log (.loginFailedCredentials email), ()⟩]
      (.raise badCredentials) := by
  unfold login checkLoginRateLimit
  simp only [rateLimitKeys_eq, List.forM_eq_forM, List.forM_cons, List.forM_nil, bind_assoc,
    hit_bind]
  refine .cons ?_
  simp only [hr, if_true, Bool.not_true, Bool.false_eq_true, if_false, Prog.pure_eq,
    Prog.ret_bind, Prog.throw_eq, Prog.raise_bind, Prog.request_bind]
  refine .cons ?_
  simp only [hr', if_true, Prog.bind]
  refine .cons ?_
  cases found with
  | none => exact .cons .nil
  | some user =>
      simp only [verifyPassword_wrong, Bool.not_false, if_true]
      exact .cons .nil

/-- The trace of a login that is refused on its IP. -/
theorem refused_ip_runs {email password clientIp : String}
    {r : Replies (hitCmds (emailKey d email) d.settings.loginRateLimitWindowSeconds)}
    {r' : Replies (hitCmds (ipKey clientIp) d.settings.loginRateLimitWindowSeconds)}
    (hr : r.1 ≤ (d.settings.loginRateLimitMaxAttempts : Int))
    (hr' : ¬ r'.1 ≤ (d.settings.loginRateLimitMaxAttempts : Int)) (ttl : Int) :
    (login d email password clientIp).Runs
      [hitEvent d email r,
        ⟨.pipeline (hitCmds (ipKey clientIp) d.settings.loginRateLimitWindowSeconds), r'⟩,
        ⟨.redis (.ttl (ipKey clientIp)), ttl⟩,
        ⟨.log (.loginRateLimited (ipKey clientIp) r'.1), ()⟩]
      (.raise (.rateLimited "로그인 시도가 너무 많습니다. 잠시 후 다시 시도해주세요."
        (if ttl > 0 then ttl else d.settings.loginRateLimitWindowSeconds))) := by
  unfold login checkLoginRateLimit
  simp only [rateLimitKeys_eq, List.forM_eq_forM, List.forM_cons, List.forM_nil, bind_assoc,
    hit_bind]
  refine .cons ?_
  simp only [hr, if_true, Bool.not_true, Bool.false_eq_true, if_false, Prog.pure_eq,
    Prog.ret_bind, Prog.throw_eq, Prog.raise_bind, Prog.request_bind]
  refine .cons ?_
  simp only [hr', if_false, Bool.not_false, if_true, Prog.bind]
  exact .cons (.cons .nil)

/-- What a guess leaves, and the events of its execution. -/
structure Guess (d : Deps Tok) (email clientIp : String) (found : Option User) (s : State)
    (w : Option Window) (evs : List TimedEvent) (s' : State) : Prop where
  clock : s'.clock = s.clock
  users : s'.users = s.users
  counter : CounterIs s' (emailKey d email) (some (Window.current
    (ticks d.settings.loginRateLimitWindowSeconds) s.clock w).count)
  others : ∀ key w', key ≠ emailKey d email → key ≠ ipKey clientIp → CounterIs s key w' →
    CounterIs s' key w'
  nonempty : evs ≠ []
  instant : ∀ x ∈ evs, x.1.clock = s.clock
  lookup : (⟨.getByEmail email, found⟩ : AuthEvent) ∈ evs.map Prod.snd

/-- A guess from a state in which the limiter lets it through. -/
theorem guess {env : State → State → Prop} (henv : ∀ s, env s s) {email clientIp : String}
    {s : State} {w : Option Window} (hemail : CounterIs s (emailKey d email) w)
    (hwithin : (Window.current (ticks d.settings.loginRateLimitWindowSeconds) s.clock
      w).attempts + 1 ≤ d.settings.loginRateLimitMaxAttempts)
    (hip : CounterIs s (ipKey clientIp) none) :
    ∃ evs s', Exec (soloSem d env) () s (serve d (.login email wrongPassword clientIp)) evs
        (some (.error badCredentials)) s' ∧
      Guess d email clientIp (getByEmail d s email) s w evs s' := by
  have hpos := d.settings.loginRateLimitWindowSeconds_pos
  have hne := emailKey_ne_ipKey (d := d) email clientIp
  obtain ⟨s₁, r, hstep₁, hclock₁, husers₁⟩ : ∃ s₁ r,
      step d s (.pipeline (hitCmds (emailKey d email) d.settings.loginRateLimitWindowSeconds))
        r s₁ ∧ s₁.clock = s.clock ∧ s₁.users = s.users :=
    ⟨_, _, ⟨rfl, rfl⟩, rfl, rfl⟩
  obtain ⟨s₂, r', hstep₂, hclock₂, husers₂⟩ : ∃ s₂ r',
      step d s₁ (.pipeline (hitCmds (ipKey clientIp) d.settings.loginRateLimitWindowSeconds))
        r' s₂ ∧ s₂.clock = s₁.clock ∧ s₂.users = s.users :=
    ⟨_, _, ⟨rfl, rfl⟩, rfl, husers₁⟩
  obtain ⟨hr, hemail₁⟩ := hemail.hit hpos hstep₁
  obtain ⟨hr', _⟩ := (CounterIs.spared (spares_hit hne.symm _) hstep₁ hip).hit hpos hstep₂
  have hle : r.1 ≤ (d.settings.loginRateLimitMaxAttempts : Int) := by
    rw [hr]
    exact Int.ofNat_le.mpr hwithin
  have hle' : r'.1 ≤ (d.settings.loginRateLimitMaxAttempts : Int) := by
    rw [hr']
    exact Int.ofNat_le.mpr d.settings.loginRateLimitMaxAttempts_pos
  have hruns := guess_runs hle hle' (getByEmail d s email)
  have hlookup : step d s₂ (.getByEmail email) (getByEmail d s email) s₂ := by
    refine ⟨?_, rfl⟩
    rw [getByEmail, getByEmail, husers₂]
  have hchain : Chain (soloSem d env) s (List.map (Label.call ())
      [hitEvent d email r,
        ⟨.pipeline (hitCmds (ipKey clientIp) d.settings.loginRateLimitWindowSeconds), r'⟩,
        ⟨.getByEmail email, getByEmail d s email⟩,
        ⟨.log (.loginFailedCredentials email), ()⟩]) s₂ :=
    .call hstep₁ (.call hstep₂ (.call hlookup (.call (show s₂ = s₂ from rfl) .nil)))
  obtain ⟨evs, hevents, hat, hx⟩ := Exec.of_chain (P := fun s' => s'.clock = s.clock) henv
    (fun s₀ op r s₁ hs₀ hs₁ => (step_clock hs₁).trans hs₀)
    (Prog.Runs.map_raise Response.tokens hruns) rfl rfl hchain
  refine ⟨evs, s₂, hx, hclock₂.trans hclock₁, husers₂,
    CounterIs.spared (spares_hit hne _) hstep₂ hemail₁, ?_, ?_, hat, by simp [hevents]⟩
  · intro key w' hkey hkey' hc
    exact CounterIs.spared (spares_hit hkey' _) hstep₂
      (CounterIs.spared (spares_hit hkey _) hstep₁ hc)
  · rintro rfl
    simp at hevents

/-- The limiter counts the guess at the present instant. -/
theorem Guess.hitAt {email clientIp : String} {found : Option User} {s s' : State}
    {w : Option Window} {evs : List TimedEvent} {req : Request Tok}
    {o : Except AppError (Response Tok)} (h : Guess d email clientIp found s w evs s') :
    Auth.hitAt (⟨req, s, evs, o⟩ : Entered Tok) = s.clock := by
  cases evs with
  | nil => exact absurd rfl h.nonempty
  | cons first evs => exact h.instant first List.mem_cons_self

/-- A guess at an account fails at its password. -/
theorem Guess.failed {email clientIp : String} {user : User} {s s' : State}
    {w : Option Window} {evs : List TimedEvent} {o : Except AppError (Response Tok)}
    (h : Guess d email clientIp (some user) s w evs s') :
    failedVerification d (⟨.login email wrongPassword clientIp, s, evs, o⟩ : Entered Tok) =
      true := by
  obtain ⟨⟨s₀, e⟩, hx, rfl⟩ := List.mem_map.mp h.lookup
  refine List.any_eq_true.mpr ⟨_, hx, ?_⟩
  simp [verifyPassword_wrong]

/-- After some guesses under one spelling, each from its own IP. -/
private structure Guessed (d : Deps Tok) (users : List User) (email : String) (n : Nat)
    (log : List (Entered Tok)) (s : State) : Prop where
  clock : s.clock = 0
  table : s.users = users
  counter : ∃ w, CounterIs s (emailKey d email) w ∧
    (Window.current (ticks d.settings.loginRateLimitWindowSeconds) 0 w) =
      ⟨n, ticks d.settings.loginRateLimitWindowSeconds⟩
  tally : ((Auth.tally d log).filter fun t => 0 < t.endsAt).getD
      ⟨ticks d.settings.loginRateLimitWindowSeconds, 0⟩ =
    ⟨ticks d.settings.loginRateLimitWindowSeconds, n⟩
  others : ∀ key, key ≠ emailKey d email → (∀ i < n, key ≠ ipKey (toString i)) →
    CounterIs s key none

/-- The tally after one more failed attempt at time zero. -/
private theorem tally_guess {log : List (Entered Tok)} {n : Nat} {x : Entered Tok}
    (hat : hitAt x = 0) (hfailed : failedVerification d x = true)
    (hrefused : succeeded x = false)
    (h : ((tally d log).filter fun t => 0 < t.endsAt).getD
        ⟨ticks d.settings.loginRateLimitWindowSeconds, 0⟩ =
      ⟨ticks d.settings.loginRateLimitWindowSeconds, n⟩) :
    tally d (log ++ [x]) = some ⟨ticks d.settings.loginRateLimitWindowSeconds, n + 1⟩ := by
  rw [tally_snoc]
  simp [Tally.next, hat, hfailed, hrefused, h]

private theorem guessed_ip {users : List User} {email : String} {n : Nat}
    {log : List (Entered Tok)} {s : State} (h : Guessed d users email n log s) :
    CounterIs s (ipKey (toString n)) none := by
  refine h.others _ (emailKey_ne_ipKey email _).symm fun i hi heq => ?_
  have hin : n = i := Nat.repr_inj.mp (ipKey_inj.mp heq)
  omega

/-- Induction on the number of guesses. -/
private theorem guesses {users : List User} {user : User} {email : String}
    (hselects : Selects d users user email) {n : Nat}
    (hn : n ≤ d.settings.loginRateLimitMaxAttempts) :
    ∃ log s, Serial (soloSem d passes) () passes (serve d)
        { clock := 0, redis := fun _ => none, users := users, uuids := [] } log s ∧
      (∀ x ∈ log, Attempts d users user x.req) ∧ Guessed d users email n log s := by
  have hpos := ticks_pos d.settings.loginRateLimitWindowSeconds_pos
  induction n with
  | zero =>
      refine ⟨[], _, .nil, by simp, rfl, rfl, ⟨none, rfl, ?_⟩, rfl, fun _ _ _ => rfl⟩
      simp [Window.current]
  | succ n ih =>
      obtain ⟨log, s, h, hattempts, hguessed⟩ := ih (by omega)
      obtain ⟨w, hcounter, hcurrent⟩ := hguessed.counter
      rw [← hguessed.clock] at hcurrent
      have hwithin : (Window.current (ticks d.settings.loginRateLimitWindowSeconds) s.clock
          w).attempts + 1 ≤ d.settings.loginRateLimitMaxAttempts := by
        rw [hcurrent]
        exact hn
      obtain ⟨evs, s', hx, hguess⟩ :=
        guess passes_refl hcounter hwithin (guessed_ip hguessed)
      have hfound : getByEmail d s email = some user := by
        rw [getByEmail, hguessed.table]
        exact hselects
      rw [hfound] at hguess
      refine ⟨_, s', .serve h hx, ?_, hguess.clock.trans hguessed.clock,
        hguess.users.trans hguessed.table, ⟨_, hguess.counter, ?_⟩, ?_, ?_⟩
      · intro x hx'
        rcases List.mem_append.mp hx' with hx' | hx'
        · exact hattempts x hx'
        · rw [List.mem_singleton.mp hx']
          exact ⟨email, _, _, rfl, hselects⟩
      · rw [hcurrent]
        simp [Window.current, Window.count, Option.filter, hpos]
      · rw [tally_guess (hguess.hitAt.trans hguessed.clock) hguess.failed rfl hguessed.tally]
        simp [Option.filter, hpos]
      · intro key hkey hips
        exact hguess.others key none hkey (hips n (by omega))
          (hguessed.others key hkey fun i hi => hips i (by omega))

/-- Two spellings with different keys have two budgets. -/
theorem oneKey_of_accountLimited {users : List User} {user : User}
    (h : AccountLimited d users user) : OneKey d users user := by
  intro email email' hselects hselects'
  by_contra hkey
  obtain ⟨log, s, hrun, hattempts, hguessed⟩ :=
    guesses hselects (Nat.le_refl d.settings.loginRateLimitMaxAttempts)
  have hfresh : CounterIs s (emailKey d email') none :=
    hguessed.others _ (Ne.symm hkey) fun i _ => emailKey_ne_ipKey email' _
  obtain ⟨evs, s', hx, hguess⟩ := guess passes_refl hfresh
    (by simpa [Window.current] using d.settings.loginRateLimitMaxAttempts_pos)
    (guessed_ip hguessed)
  have hfound : getByEmail d s email' = some user := by
    rw [getByEmail, hguessed.table]
    exact hselects'
  rw [hfound] at hguess
  have htally := tally_guess
    (x := ⟨.login email' wrongPassword _, s, evs, .error badCredentials⟩)
    (hguess.hitAt.trans hguessed.clock) hguess.failed rfl hguessed.tally
  refine absurd (h _ _ _ ?_ ?_ (.serve hrun hx) ?_ _ htally) (Nat.not_succ_le_self _)
  · rfl
  · exact fun _ _ => rfl
  · intro x hx'
    rcases List.mem_append.mp hx' with hx' | hx'
    · exact hattempts x hx'
    · rw [List.mem_singleton.mp hx']
      exact ⟨email', _, _, rfl, hselects'⟩

/-- The limiter limits the failed passwords of an account, over all sequences of
attempts, exactly if all its spellings share a limiter key. -/
theorem account_limit_iff (d : Deps Tok) (users : List User) (user : User) :
    AccountLimited d users user ↔ OneKey d users user :=
  ⟨oneKey_of_accountLimited, accountLimited_of_oneKey⟩

/-! ## An account with two spellings -/

/-- A collation that takes `é` for `e`; `lower` does not. -/
def accentBlind : Deps Claims :=
  let fold (s : String) : List Char := s.toList.map fun c => if c = 'é' then 'e' else c
  { sample with sameEmail := fun a b => fold a == fold b }

def renee : User :=
  { userId := 1, userEmail := "renee@b.c", userPasswordHash := "pw", userIsActive := true }

/-- `renee@b.c` and `renée@b.c` find the same row and have different keys, so the
limit does not hold for this account. -/
theorem renee_unlimited : ¬ AccountLimited accentBlind [renee] renee := by
  intro h
  have hplain : Selects accentBlind [renee] renee "renee@b.c" := by
    unfold Selects
    decide
  have haccent : Selects accentBlind [renee] renee "renée@b.c" := by
    unfold Selects
    decide
  have hkey := oneKey_of_accountLimited h _ _ hplain haccent
  exact absurd hkey (by decide)

end GreenCommunity.Auth
