import GreenCommunity.Auth.Counters
import GreenCommunity.Auth.Sample
import GreenCommunity.Base.Logged

/-!
# The history of a limiter key

Any number of callers hit and reset limiter keys at arbitrary times.  `strokes` is the
history of one key: who hit it and when, whether the key was there, and the number the hit
got.  `fixed_window` says that this is the history of a limiter with fixed windows: the
first hits of each window are allowed and no other, the key always expires with the window
its first hit opened, and so it is never closed for longer than a window.
-/

namespace GreenCommunity.Auth

open GreenCommunity.Base
open GreenCommunity.Base.Redis

variable {Tok C : Type} {d : Deps Tok}

/-- A call of the limiter with the settings of the login. -/
inductive LimiterCall where
  | hit (key : String)
  | reset (key : String)
  deriving DecidableEq

def LimiterCall.program (d : Deps Tok) : LimiterCall → AuthM (Option RateLimitResult)
  | .hit key => do
    let result ← Auth.hit key d.settings.loginRateLimitMaxAttempts
      d.settings.loginRateLimitWindowSeconds
    return some result
  | .reset key => do
    Auth.reset key
    return none

/-- A hit on a limiter key of the login. -/
abbrev hitOp (d : Deps Tok) (key : String) : Op :=
  .pipeline (hitCmds key d.settings.loginRateLimitWindowSeconds)

/-- What an event is to the key. -/
def strokes (key : String) (c : C) (s : State) : AuthEvent → List (Stroke C)
  | ⟨.pipeline [.incr k, .expire _ _ _], r⟩ =>
      if k = key then [.hit c s.clock (s.counter key).isNone r.1] else []
  | ⟨.redis (.del ks), _⟩ => if key ∈ ks then [.reset c s.clock] else []
  | _ => []

/-- The pool of callers with the history of the key. -/
abbrev limiterSem (C : Type) (d : Deps Tok) (key : String) :
    Sem C Op Reply (Logged State (Stroke C)) :=
  (sem C d).logged (strokes key)

/-- The key expires with the window that the first hit since it was absent opened. -/
def ExpiresInTime (d : Deps Tok) (key : String) (x : Logged State (Stroke C)) : Prop :=
  ∀ entry, x.state.counter key = some entry →
    ∃ before c t hits, x.log = before ++ .hit c t true 1 :: hits ∧
      (∀ y ∈ hits, y.continues = true) ∧
      entry.expireAt = ((t + ticks d.settings.loginRateLimitWindowSeconds : Nat) : WithTop Nat)

/-- The answer to a hit is the number in the history, and it is allowed up to the limit. -/
def AnswersHit (d : Deps Tok) (log : List (Stroke C)) (c : C) (result : RateLimitResult) :
    Prop :=
  (∃ t fresh, .hit c t fresh result.current ∈ log) ∧
    (result.allowed = true ↔ result.current ≤ d.settings.loginRateLimitMaxAttempts)

/-! ## One step -/

/-- The key stands for the window that its history leaves. -/
structure Recorded (d : Deps Tok) (key : String) (x : Logged State (Stroke C))
    (w : Option Window) : Prop where
  counter : CounterIs x.state key w
  counts : Counts (ticks d.settings.loginRateLimitWindowSeconds) x.log w
  past : ∀ y ∈ x.log, y.time ≤ x.state.clock

theorem strokes_hit (key : String) (c : C) (s : State) (r : Reply (hitOp d key)) :
    strokes key c s ⟨hitOp d key, r⟩ =
      [.hit c s.clock (s.counter key).isNone r.1] := by
  show (if key = key then _ else _) = _
  exact if_pos rfl

theorem strokes_reset (key : String) (c : C) (s : State) (r : Reply (.redis (.del [key]))) :
    strokes key c s ⟨.redis (.del [key]), r⟩ = [.reset c s.clock] := by
  simp [strokes]

theorem strokes_of_spares {key : String} {c : C} {s : State} {e : AuthEvent}
    (hop : Spares key e.op) : strokes key c s e = [] := by
  unfold strokes
  split
  · rename_i k _ _ _ r
    have hne : k ≠ key := by
      rintro rfl
      exact hop (.incr k) (by simp) (by simp [Cmd.writes])
    simp [hne]
  · rename_i ks r
    have hnot : key ∉ ks := hop
    simp [hnot]
  · rfl

theorem Recorded.env {key : String} {x x' : Logged State (Stroke C)} {w : Option Window}
    (h : Recorded d key x w) (henv : (limiterSem C d key).env x x') :
    Recorded d key x' w := by
  obtain ⟨hdrift, hlog⟩ := henv
  refine ⟨h.counter.drifts hdrift, hlog ▸ h.counts, ?_⟩
  rw [hlog]
  exact fun y hy => Nat.le_trans (h.past y hy) hdrift.1

/-- The number of a hit, and the window it counts in. -/
theorem Recorded.hit {key : String} {x x' : Logged State (Stroke C)} {w : Option Window}
    {c : C} {r : Reply (hitOp d key)} (h : Recorded d key x w)
    (hstep : step d x.state (hitOp d key) r x'.state)
    (hlog : x'.log = x.log ++ strokes key c x.state ⟨hitOp d key, r⟩) :
    Recorded d key x' (some (Window.current (ticks d.settings.loginRateLimitWindowSeconds)
      x.state.clock w).count) := by
  have hlog : x'.log = x.log ++ [.hit c x.state.clock (x.state.counter key).isNone r.1] := by
    rw [hlog, strokes_hit]
  obtain ⟨hr, hcounter⟩ := h.counter.hit d.settings.loginRateLimitWindowSeconds_pos hstep
  have hclock : x'.state.clock = x.state.clock := step_clock hstep
  have hbefore := h.counter
  rw [CounterIs] at hbefore
  refine ⟨hcounter, ?_, ?_⟩
  · rw [hlog, hr, hbefore]
    unfold Window.current
    generalize hw : w.filter (fun w => decide (x.state.clock < w.endsAt)) = live
    cases live with
    | none =>
        refine .fresh h.counts h.past fun v hv => ?_
        have hover := Option.filter_eq_none_iff.mp hw v hv
        simpa using hover
    | some v =>
        obtain ⟨rfl, hlive⟩ := Option.filter_eq_some_iff.mp hw
        exact .next h.counts h.past (by simpa using hlive)
  · rw [hlog, hclock]
    intro y hy
    rcases List.mem_append.mp hy with hy | hy
    · exact h.past y hy
    · rw [List.mem_singleton.mp hy]
      exact Nat.le_refl _

theorem Recorded.reset {key : String} {x x' : Logged State (Stroke C)} {w : Option Window}
    {c : C} {r : Reply (.redis (.del [key]))} (h : Recorded d key x w)
    (hstep : step d x.state (.redis (.del [key])) r x'.state)
    (hlog : x'.log = x.log ++ strokes key c x.state ⟨_, r⟩) :
    Recorded d key x' none := by
  have hlog : x'.log = x.log ++ [.reset c x.state.clock] := by
    rw [hlog, strokes_reset]
  have hclock : x'.state.clock = x.state.clock := step_clock hstep
  refine ⟨counterIs_reset hstep, hlog ▸ .reset h.counts h.past, ?_⟩
  rw [hlog, hclock]
  intro y hy
  rcases List.mem_append.mp hy with hy | hy
  · exact h.past y hy
  · rw [List.mem_singleton.mp hy]
    exact Nat.le_refl _

theorem Recorded.spared {key : String} {x x' : Logged State (Stroke C)} {w : Option Window}
    {c : C} {e : AuthEvent} (h : Recorded d key x w) (hop : Spares key e.op)
    (hstep : step d x.state e.op e.reply x'.state)
    (hlog : x'.log = x.log ++ strokes key c x.state e) : Recorded d key x' w := by
  rw [strokes_of_spares hop, List.append_nil] at hlog
  refine ⟨h.counter.spared hop hstep, hlog ▸ h.counts, ?_⟩
  rw [hlog, step_clock hstep]
  exact h.past

/-- An operation that hits the key, resets it or leaves it alone. -/
def KeyOp (d : Deps Tok) (key : String) (op : Op) : Prop :=
  op = hitOp d key ∨ op = .redis (.del [key]) ∨ Spares key op

theorem keyOp_hit (key k : String) : KeyOp d key (hitOp d k) := by
  by_cases hk : key = k
  · subst hk
    exact Or.inl rfl
  · exact Or.inr (Or.inr (spares_hit hk _))

theorem keyOp_reset (key k : String) : KeyOp d key (.redis (.del [k])) := by
  by_cases hk : key = k
  · subst hk
    exact Or.inr (Or.inl rfl)
  · exact Or.inr (Or.inr (spares_reset hk))

theorem Recorded.step {key : String} {x x' : Logged State (Stroke C)} {w : Option Window}
    {c : C} {e : AuthEvent} (h : Recorded d key x w) (hop : KeyOp d key e.op)
    (hstep : step d x.state e.op e.reply x'.state)
    (hlog : x'.log = x.log ++ strokes key c x.state e) : ∃ w', Recorded d key x' w' := by
  obtain ⟨op, r⟩ := e
  rcases hop with rfl | rfl | hop
  · exact ⟨_, h.hit hstep hlog⟩
  · exact ⟨none, h.reset hstep hlog⟩
  · exact ⟨w, h.spared hop hstep hlog⟩

/-- What the history has to do with the events of the run. -/
structure Noted (d : Deps Tok) (key : String) (tr : List (Label C Op Reply))
    (log : List (Stroke C)) : Prop where
  hits : ∀ c r, .call c ⟨hitOp d key, r⟩ ∈ tr → ∃ t fresh, .hit c t fresh r.1 ∈ log
  strikes : ∀ c t fresh n, .hit c t fresh n ∈ log →
    ∃ r, .call c ⟨hitOp d key, r⟩ ∈ tr ∧ r.1 = n
  resets : ∀ c t, .reset c t ∈ log → ∃ r, .call c ⟨.redis (.del [key]), r⟩ ∈ tr

theorem Noted.step {key : String} {tr : List (Label C Op Reply)} {log : List (Stroke C)}
    {c : C} {s : State} {e : AuthEvent} (h : Noted d key tr log) (hop : KeyOp d key e.op) :
    Noted d key (tr ++ [.call c e]) (log ++ strokes key c s e) where
  hits c' r hmem := by
    rcases List.mem_append.mp hmem with hmem | hmem
    · obtain ⟨t, fresh, hin⟩ := h.hits c' r hmem
      exact ⟨t, fresh, List.mem_append_left _ hin⟩
    · cases List.mem_singleton.mp hmem
      rw [strokes_hit]
      exact ⟨_, _, List.mem_append_right _ (List.mem_singleton.mpr rfl)⟩
  strikes c' t fresh n hmem := by
    rcases List.mem_append.mp hmem with hmem | hmem
    · obtain ⟨r, hin, hr⟩ := h.strikes c' t fresh n hmem
      exact ⟨r, List.mem_append_left _ hin, hr⟩
    · obtain ⟨op, r⟩ := e
      rcases hop with rfl | rfl | hop
      · rw [strokes_hit] at hmem
        cases List.mem_singleton.mp hmem
        exact ⟨r, List.mem_append_right _ (List.mem_singleton.mpr rfl), rfl⟩
      · rw [strokes_reset] at hmem
        simp at hmem
      · rw [strokes_of_spares hop] at hmem
        simp at hmem
  resets c' t hmem := by
    rcases List.mem_append.mp hmem with hmem | hmem
    · obtain ⟨r, hin⟩ := h.resets c' t hmem
      exact ⟨r, List.mem_append_left _ hin⟩
    · obtain ⟨op, r⟩ := e
      rcases hop with rfl | rfl | hop
      · rw [strokes_hit] at hmem
        simp at hmem
      · rw [strokes_reset] at hmem
        cases List.mem_singleton.mp hmem
        exact ⟨r, List.mem_append_right _ (List.mem_singleton.mpr rfl)⟩
      · rw [strokes_of_spares hop] at hmem
        simp at hmem

/-- Throughout a run of programs that only hit, reset or spare the key, it stands for the
window that its history leaves. -/
theorem recorded_run {α : Type} [DecidableEq C] {key : String} {s₀ : State}
    {pool : C → AuthM α} {Q : C → List AuthEvent → AuthEvent → Prop}
    {R : C → List AuthEvent → Except AppError α → Prop}
    {ok : Guard C Op Reply AppError α (Logged State (Stroke C))}
    {tr : List (Label C Op Reply)}
    {cfg : Config C Op Reply AppError α (Logged State (Stroke C))}
    (hpool : ∀ c, (pool c).Hist (Q c) (R c) [])
    (hQ : ∀ c past e, Q c past e → KeyOp d key e.op) (hfresh : s₀.counter key = none)
    (h : Run (limiterSem C d key) ok ⟨⟨s₀, []⟩, pool⟩ tr cfg) :
    (∃ w, Recorded d key cfg.state w) ∧ Noted d key tr cfg.state.log := by
  refine Run.inv (fun tr cfg => (∃ w, Recorded d key cfg.state w) ∧
    Noted d key tr cfg.state.log) ?_ ?_ h
  · exact ⟨⟨none, counterIs_none.mpr hfresh, .nil, by simp⟩, by simp, by simp, by simp⟩
  · rintro tr cfg l cfg' hrun ⟨⟨w, hw⟩, hnoted⟩ hl -
    cases l with
    | env =>
        cases hl with
        | env henv =>
            refine ⟨⟨w, hw.env henv⟩, ?_⟩
            rw [henv.2]
            exact ⟨fun c r hmem => hnoted.hits c r (by simpa using hmem),
              fun c t fresh n hmem => by simpa using hnoted.strikes c t fresh n hmem,
              fun c t hmem => by simpa using hnoted.resets c t hmem⟩
    | call c e =>
        have hop : KeyOp d key e.op := hQ c _ e (hrun.hist_step hpool hl)
        cases hl with
        | @call _ op k r s' hpool hstep =>
            have hnext : ∃ w', Recorded d key s' w' :=
              Recorded.step (e := ⟨op, r⟩) hw hop hstep.1 hstep.2
            refine ⟨hnext, ?_⟩
            dsimp only
            rw [hstep.2]
            exact hnoted.step hop

/-! ## The calls of the limiter -/

/-- The operations of the limiter. -/
def LimiterOp (d : Deps Tok) (op : Op) : Prop :=
  (∃ key, op = .pipeline (hitCmds key d.settings.loginRateLimitWindowSeconds)) ∨
    (∃ key, op = .redis (.ttl key)) ∨ ∃ key, op = .redis (.del [key])

theorem LimiterOp.keyOp {op : Op} (h : LimiterOp d op) (key : String) : KeyOp d key op := by
  rcases h with ⟨k, rfl⟩ | ⟨k, rfl⟩ | ⟨k, rfl⟩
  · exact keyOp_hit key k
  · exact Or.inr (Or.inr (by simp [Spares, Cmd.writes]))
  · exact keyOp_reset key k

/-- The answer to a time to live. -/
def retryAfterOf (d : Deps Tok) (ttl : Int) : Int :=
  if ttl > 0 then ttl else d.settings.loginRateLimitWindowSeconds

/-- What a hit answers with: the number it got, and if that is refused the time to live it
read last. -/
structure AnswersWith (d : Deps Tok) (key : String) (past : List AuthEvent)
    (result : RateLimitResult) : Prop where
  current : ∃ r : Replies (hitCmds key d.settings.loginRateLimitWindowSeconds),
    ⟨.pipeline (hitCmds key d.settings.loginRateLimitWindowSeconds), r⟩ ∈ past ∧
      r.1 = result.current
  allowed : result.allowed = true ↔ result.current ≤ d.settings.loginRateLimitMaxAttempts
  refused : result.allowed = false → ∃ before ttl, past = before ++ [⟨.redis (.ttl key), ttl⟩] ∧
    result.retryAfter = retryAfterOf d ttl

def Answered (d : Deps Tok) (call : LimiterCall) (past : List AuthEvent)
    (o : Except AppError (Option RateLimitResult)) : Prop :=
  ∀ key result, call = .hit key → o = .ok (some result) → AnswersWith d key past result

theorem limiterCall_hist (call : LimiterCall) :
    (call.program d).Hist (fun _ e => LimiterOp d e.op) (Answered d call) [] := by
  cases call with
  | reset key =>
      refine fun r => ⟨Or.inr (Or.inr ⟨key, rfl⟩), ?_⟩
      rintro key' result ⟨⟩
  | hit key =>
      show Prog.Hist _ _ (Auth.hit _ _ _ >>= _) []
      rw [hit_bind]
      refine fun r => ⟨Or.inl ⟨key, rfl⟩, ?_⟩
      beta_reduce
      split
      · rename_i hr
        rintro key' result ⟨⟩ ⟨⟩
        exact ⟨⟨r, by simp, rfl⟩, by simpa using hr, by rintro ⟨⟩⟩
      · rename_i hr
        refine fun ttl => ⟨Or.inr (Or.inl ⟨key, rfl⟩), ?_⟩
        rintro key' result ⟨⟩ ⟨⟩
        exact ⟨⟨r, by simp, rfl⟩, by simpa using hr, fun _ => ⟨_, ttl, rfl, rfl⟩⟩

/-! ## Whole histories -/

section Histories

variable [DecidableEq C] {calls : C → LimiterCall} {key : String} {s₀ : State}
  {tr : List (Label C Op Reply)}
  {cfg : Config C Op Reply AppError (Option RateLimitResult) (Logged State (Stroke C))}

/-- The callers, the key and an empty history. -/
abbrev limiterInit (d : Deps Tok) (calls : C → LimiterCall) (s₀ : State) :
    Config C Op Reply AppError (Option RateLimitResult) (Logged State (Stroke C)) :=
  ⟨⟨s₀, []⟩, fun c => (calls c).program d⟩

/-- Throughout a run the key stands for the window its history leaves. -/
theorem limiter_recorded (hfresh : s₀.counter key = none)
    (h : Run (limiterSem C d key) anyStep (limiterInit d calls s₀) tr cfg) :
    (∃ w, Recorded d key cfg.state w) ∧ Noted d key tr cfg.state.log :=
  recorded_run (Q := fun _ _ e => LimiterOp d e.op) (R := fun c => Answered d (calls c))
    (fun c => limiterCall_hist (calls c)) (fun _ _ _ hop => hop.keyOp key) hfresh h

/-- Every answered hit is in the history. -/
theorem limiter_answers (hfresh : s₀.counter key = none)
    (h : Run (limiterSem C d key) anyStep (limiterInit d calls s₀) tr cfg) {c : C}
    (hcall : calls c = .hit key) {result : RateLimitResult}
    (hdone : (cfg.pool c).outcome = some (.ok (some result))) :
    AnswersHit d cfg.state.log c result := by
  have hanswered : Answered d (calls c) (own c tr) (.ok (some result)) :=
    h.hist_outcome (Q := fun _ _ e => LimiterOp d e.op) (R := fun c => Answered d (calls c))
      (fun c => limiterCall_hist (calls c)) hdone
  obtain ⟨⟨r, hmem, hr⟩, hallowed, _⟩ := hanswered key result hcall rfl
  obtain ⟨t, fresh, hin⟩ := (limiter_recorded hfresh h).2.hits c r (mem_own.mp hmem)
  exact ⟨⟨t, fresh, hr ▸ hin⟩, hallowed⟩

theorem limiter_expires (hfresh : s₀.counter key = none)
    (h : Run (limiterSem C d key) anyStep (limiterInit d calls s₀) tr cfg) :
    ExpiresInTime d key cfg.state := by
  obtain ⟨⟨w, hw⟩, _⟩ := limiter_recorded hfresh h
  intro entry hentry
  have hcounter := hw.counter
  rw [CounterIs, hentry] at hcounter
  obtain ⟨v, hv, rfl⟩ := Option.map_eq_some_iff.mp hcounter.symm
  obtain ⟨rfl, _⟩ := Option.filter_eq_some_iff.mp hv
  obtain ⟨before, c, t, hits, hlog, hhits, hend, _⟩ := hw.counts.opened v rfl
  exact ⟨before, c, t, hits, hlog, hhits, by rw [windowEntry, hend]⟩

/-- The limiter over every history of one of its keys: the key expires with its window, the
history is that of a limiter with fixed windows, and the callers are told so. -/
theorem fixed_window (d : Deps Tok) (calls : C → LimiterCall) (key : String) (s₀ : State)
    (hfresh : s₀.counter key = none) (tr : List (Label C Op Reply))
    (cfg : Config C Op Reply AppError (Option RateLimitResult) (Logged State (Stroke C)))
    (h : Run (limiterSem C d key) anyStep (limiterInit d calls s₀) tr cfg) :
    ExpiresInTime d key cfg.state ∧
      FixedWindow d.settings.loginRateLimitMaxAttempts
        (ticks d.settings.loginRateLimitWindowSeconds) cfg.state.log ∧
      ∀ c result, calls c = .hit key → (cfg.pool c).outcome = some (.ok (some result)) →
        AnswersHit d cfg.state.log c result := by
  obtain ⟨⟨w, hw⟩, _⟩ := limiter_recorded hfresh h
  refine ⟨limiter_expires hfresh h, ?_, fun c result hcall hdone =>
    limiter_answers hfresh h hcall hdone⟩
  exact hw.counts.fixedWindow (ticks_pos d.settings.loginRateLimitWindowSeconds_pos)
    d.settings.loginRateLimitMaxAttempts_pos

end Histories

/-! ## Two windows -/

section Sample

variable {key : String} {x : Logged State (Stroke C)} {w : Option Window}

/-- A hit, as the history has it. -/
theorem CounterIs.hit_step (d : Deps Tok) (h : CounterIs x.state key w) (c : C) {t : Nat}
    (ht : x.state.clock = t) :
    ∃ r x', (limiterSem C d key).step c x (hitOp d key) r x' ∧ x'.state.clock = t ∧
      r.1 = (((Window.current (ticks d.settings.loginRateLimitWindowSeconds) t
        w).attempts + 1 : Nat) : Int) ∧
      x'.log = x.log ++ [.hit c t (w.filter fun w => t < w.endsAt).isNone r.1] ∧
      CounterIs x'.state key (some (Window.current
        (ticks d.settings.loginRateLimitWindowSeconds) t w).count) := by
  subst ht
  obtain ⟨r, s, hstep⟩ : ∃ r s, step d x.state (hitOp d key) r s := ⟨_, _, rfl, rfl⟩
  obtain ⟨hr, hcounter⟩ := h.hit d.settings.loginRateLimitWindowSeconds_pos hstep
  refine ⟨r, ⟨s, x.log ++ strokes key c x.state ⟨hitOp d key, r⟩⟩, ⟨hstep, rfl⟩,
    step_clock hstep, hr, ?_, hcounter⟩
  rw [strokes_hit, show x.state.counter key = _ from h, Option.isNone_map]

/-- One attempt in five minutes. -/
def oneAttempt : Deps Claims :=
  { sample with settings := { sampleSettings with
      loginRateLimitMaxAttempts := 1
      loginRateLimitMaxAttempts_pos := Nat.le_refl 1 } }

/-- What is left of a refused hit. -/
theorem refused_hit_runs {n : Reply (hitOp oneAttempt "k")} (hn : n.1 = (2 : Int)) :
    ((LimiterCall.hit "k").program oneAttempt).Runs [⟨hitOp oneAttempt "k", n⟩]
      (.call (.redis (.ttl "k")) fun ttl =>
        .ret (some ⟨false, n.1, retryAfterOf oneAttempt ttl⟩)) := by
  show Prog.Runs (Auth.hit _ _ _ >>= _) _ _
  rw [hit_bind]
  have hrefused : ¬ n.1 ≤ ((1 : Nat) : Int) := by
    rw [hn]
    decide
  refine .cons ?_
  split
  · exact absurd ‹_› hrefused
  · exact .nil

inductive Turn where
  | first | refused | clears | afresh | later
  deriving DecidableEq

/-- Hits, and a reset in between. -/
def turns : Turn → LimiterCall
  | .clears => .reset "k"
  | .first | .refused | .afresh | .later => .hit "k"

/-- A window with a refused hit, ended by a reset; a hit after it; and a hit when the window
of that one is over. -/
theorem fixed_window_sample : ∃ tr cfg result,
    Run (limiterSem Turn oneAttempt "k") anyStep (limiterInit oneAttempt turns freshState)
      tr cfg ∧
    cfg.state.log = [.hit .first 0 true 1, .hit .refused 0 false 2, .reset .clears 0,
      .hit .afresh 0 true 1, .hit .later 300000000 true 1] ∧
    (cfg.pool .refused).outcome = some (.ok (some result)) ∧ result.allowed = false ∧
    ExpiresInTime oneAttempt "k" cfg.state ∧ FixedWindow 1 300000000 cfg.state.log ∧
    AnswersHit oneAttempt cfg.state.log .refused result := by
  obtain ⟨n₁, x₁, hfirst, hclock₁, hn₁, hlog₁, hcounter₁⟩ :=
    CounterIs.hit_step oneAttempt (x := ⟨freshState, []⟩) (t := 0) (w := none)
      (counterIs_none.mpr (show freshState.counter "k" = none from rfl)) Turn.first rfl
  obtain ⟨n₂, x₂, hsecond, hclock₂, hn₂, hlog₂, _⟩ :=
    hcounter₁.hit_step oneAttempt Turn.refused hclock₁
  -- the refused caller reads the time to live
  obtain ⟨ttl, s₃, httl⟩ : ∃ ttl s, step oneAttempt x₂.state (.redis (.ttl "k")) ttl s :=
    ⟨_, _, rfl, rfl⟩
  obtain ⟨s₄, hdel⟩ : ∃ s, step oneAttempt s₃ (.redis (.del ["k"])) () s := ⟨_, rfl, rfl⟩
  have hclock₃ : s₃.clock = 0 := (step_clock httl).trans hclock₂
  obtain ⟨n₅, x₅, hafresh, hclock₅, hn₅, hlog₅, hcounter₅⟩ :=
    CounterIs.hit_step oneAttempt (x := ⟨s₄, x₂.log ++ [.reset .clears 0]⟩)
      (counterIs_reset hdel) Turn.afresh ((step_clock hdel).trans hclock₃)
  have hdrift : drift x₅.state { x₅.state with clock := 300000000 } :=
    ⟨hclock₅ ▸ Nat.zero_le _, rfl⟩
  obtain ⟨n₆, x₆, hlater, _, hn₆, hlog₆, _⟩ :=
    CounterIs.hit_step oneAttempt (x := ⟨{ x₅.state with clock := 300000000 }, x₅.log⟩)
      (hcounter₅.drifts hdrift) Turn.later rfl
  have hrefused : (limiterSem Turn oneAttempt "k").step .refused x₂ (.redis (.ttl "k")) ttl
      ⟨s₃, x₂.log⟩ := ⟨httl, (List.append_nil _).symm⟩
  have hclears : (limiterSem Turn oneAttempt "k").step .clears ⟨s₃, x₂.log⟩
      (.redis (.del ["k"])) () ⟨s₄, x₂.log ++ [.reset .clears 0]⟩ := by
    refine ⟨hdel, ?_⟩
    rw [strokes_reset, hclock₃]
  have hwaits : (limiterSem Turn oneAttempt "k").env x₅
      ⟨{ x₅.state with clock := 300000000 }, x₅.log⟩ := ⟨hdrift, rfl⟩
  have hchain := Chain.call hfirst (.call hsecond (.call hrefused (.call hclears
    (.call hafresh (.env hwaits (.call hlater .nil))))))
  have hlog : x₆.log = [.hit .first 0 true 1, .hit .refused 0 false 2, .reset .clears 0,
      .hit .afresh 0 true 1, .hit .later 300000000 true 1] := by
    rw [hlog₆, hlog₅, hlog₂, hlog₁, hn₁, hn₂, hn₅, hn₆]
    rfl
  have hhit : ∀ n : Reply (hitOp oneAttempt "k"), ∃ q,
      ((LimiterCall.hit "k").program oneAttempt).Runs [⟨hitOp oneAttempt "k", n⟩] q :=
    fun _ => ⟨_, .cons .nil⟩
  obtain ⟨q₁, hruns₁⟩ := hhit n₁
  obtain ⟨q₅, hruns₅⟩ := hhit n₅
  obtain ⟨q₆, hruns₆⟩ := hhit n₆
  have hruns₂ := (refused_hit_runs hn₂).append (.cons (r := ttl) .nil)
  let q (c : Turn) :=
    if c = .first then q₁ else if c = .refused then
      .ret (some ⟨false, n₂.1, retryAfterOf oneAttempt ttl⟩)
    else if c = .clears then .ret none else if c = .afresh then q₅ else q₆
  have hrun := Run.of_chain (p := (limiterInit oneAttempt turns freshState).pool) (q := q)
    hchain fun c => by
      cases c with
      | first => exact hruns₁
      | refused => exact hruns₂
      | clears => exact .cons .nil
      | afresh => exact hruns₅
      | later => exact hruns₆
  obtain ⟨hexpires, hfixed, hanswers⟩ :=
    fixed_window oneAttempt turns "k" freshState rfl _ _ hrun
  exact ⟨_, _, _, hrun, hlog, rfl, rfl, hexpires, hfixed, hanswers .refused _ rfl rfl⟩

end Sample

end GreenCommunity.Auth
