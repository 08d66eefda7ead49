import GreenCommunity.Auth.LimiterHistory

/-!
# Retry-After

A refused hit reads the time to live of its key in a second command and answers with it as
the seconds to wait.  `Redis.remaining` rounds to the nearest second and the limiter
replaces what is not positive by the whole window, so the answer is `Right` only at some
moments: `retry_after_iff` says at which.
-/

namespace GreenCommunity.Auth

open GreenCommunity.Base
open GreenCommunity.Base.Redis

variable {Tok C : Type} {d : Deps Tok} {key : String}

/-- Hits on the key are refused for this long and not longer. -/
def BlockedFor (d : Deps Tok) (key : String) (s : State) (blocked : Nat) : Prop :=
  ∀ wait n s', step d { s with clock := s.clock + wait } (hitOp d key) n s' →
    (n.1 ≤ d.settings.loginRateLimitMaxAttempts ↔ blocked ≤ wait)

/-- What may happen between two hits on the key. -/
def NoHit (d : Deps Tok) (key : String) (tr : List (Label C Op Reply)) : Prop :=
  ∀ c e, .call c e ∈ tr → LimiterOp d e.op ∧ e.op ≠ hitOp d key

/-- The next hit is allowed if it comes `r` seconds later or more. -/
def LetsIn (C : Type) (d : Deps Tok) (key : String) (s : State) (r : Int) : Prop :=
  ∀ tr s₁ n s₂, Chain (sem C d) s tr s₁ → NoHit d key tr →
    s.clock + second * r ≤ s₁.clock → step d s₁ (hitOp d key) n s₂ →
      n.1 ≤ d.settings.loginRateLimitMaxAttempts

/-- `r` is the right number of seconds to answer with. -/
structure Right (C : Type) (d : Deps Tok) (key : String) (s : State) (r : Int) : Prop where
  letsIn : LetsIn C d key s r
  /-- It is less than a second too long. -/
  tight : ∀ blocked, BlockedFor d key s blocked → second * r < blocked + second

/-- The counter is still there and above the limit, and what remains of the window is
rounded up to a second or not at all, unless windows are one second long. -/
def Tells (d : Deps Tok) (key : String) (s : State) : Prop :=
  ∃ w : Window, s.counter key = some (windowEntry w) ∧
    d.settings.loginRateLimitMaxAttempts ≤ w.attempts ∧
    ((w.endsAt - s.clock) % second = 0 ∨ second / 2 ≤ (w.endsAt - s.clock) % second ∨
      d.settings.loginRateLimitWindowSeconds = 1)

/-! ## The window and the time to wait -/

/-- How long a window keeps its key blocked. -/
def blocking (d : Deps Tok) (now : Nat) (w : Option Window) : Nat :=
  match w with
  | some w => if d.settings.loginRateLimitMaxAttempts ≤ w.attempts then w.endsAt - now else 0
  | none => 0

section Window

variable {s s' : State} {w : Option Window} {n : Reply (hitOp d key)}

/-- A hit is refused if it falls in a window that is used up. -/
theorem CounterIs.allowed_iff (h : CounterIs s key w) (hstep : step d s (hitOp d key) n s') :
    n.1 ≤ d.settings.loginRateLimitMaxAttempts ↔ blocking d s.clock w = 0 := by
  have hmax := d.settings.loginRateLimitMaxAttempts_pos
  obtain ⟨hn, _⟩ := h.hit d.settings.loginRateLimitWindowSeconds_pos hstep
  have hcount : n.1 ≤ d.settings.loginRateLimitMaxAttempts ↔
      (Window.current (ticks d.settings.loginRateLimitWindowSeconds) s.clock w).attempts + 1 ≤
        d.settings.loginRateLimitMaxAttempts := by
    rw [hn]
    exact Int.ofNat_le
  rw [hcount]
  cases w with
  | none =>
      simp only [Window.current, blocking, Option.filter_none, Option.getD_none, iff_true]
      omega
  | some w =>
      unfold Window.current blocking
      by_cases hlive : s.clock < w.endsAt
      · simp only [Option.filter, hlive, decide_true, if_true, Option.getD_some]
        split <;> omega
      · simp only [Option.filter, hlive, decide_false, Bool.false_eq_true, if_false,
          Option.getD_none]
        split <;> omega

theorem blocking_later (now wait : Nat) (w : Option Window) :
    blocking d (now + wait) w = blocking d now w - wait := by
  unfold blocking
  split
  · split <;> omega
  · omega

theorem CounterIs.blockedFor_iff (h : CounterIs s key w) (blocked : Nat) :
    BlockedFor d key s blocked ↔ blocked = blocking d s.clock w := by
  have hwait : ∀ wait, CounterIs { s with clock := s.clock + wait } key w :=
    fun wait => h.passes ⟨Nat.le_add_right _ _, rfl⟩
  constructor
  · intro hblocked
    have hstep := fun wait => (hwait wait).allowed_iff (d := d) ⟨rfl, rfl⟩
    have hiff : ∀ wait, blocked ≤ wait ↔ blocking d s.clock w ≤ wait := by
      intro wait
      rw [← hblocked wait _ _ ⟨rfl, rfl⟩, hstep wait, blocking_later, Nat.sub_eq_zero_iff_le]
    exact Nat.le_antisymm ((hiff _).mpr (Nat.le_refl _)) ((hiff _).mp (Nat.le_refl _))
  · rintro rfl wait n s' hstep
    rw [(hwait wait).allowed_iff hstep, blocking_later, Nat.sub_eq_zero_iff_le]

/-- Between hits the window stays or is reset. -/
theorem CounterIs.chain {tr : List (Label C Op Reply)} (hc : Chain (sem C d) s tr s') :
    NoHit d key tr → CounterIs s key w →
      s.clock ≤ s'.clock ∧ (CounterIs s' key w ∨ CounterIs s' key none) := by
  have hcons : ∀ {l : Label C Op Reply} {tr}, NoHit d key (l :: tr) → NoHit d key tr :=
    fun h c e hmem => h c e (List.mem_cons_of_mem _ hmem)
  induction hc generalizing w with
  | nil => exact fun _ h => ⟨Nat.le_refl _, Or.inl h⟩
  | env hdrift _ ih =>
      intro hno h
      obtain ⟨hle, hend⟩ := ih (hcons hno) (h.drifts hdrift)
      exact ⟨Nat.le_trans hdrift.1 hle, hend⟩
  | @call s s₁ s₂ c op r tr hstep _ ih =>
      intro hno h
      have hstep : step d s op r s₁ := hstep
      have hclock : s₁.clock = s.clock := step_clock hstep
      have hnext : CounterIs s₁ key w ∨ CounterIs s₁ key none := by
        obtain ⟨hop, hnot⟩ := hno c ⟨op, r⟩ List.mem_cons_self
        rcases hop with ⟨k, rfl⟩ | ⟨k, rfl⟩ | ⟨k, rfl⟩
        · have hk : key ≠ k := by
            rintro rfl
            exact hnot rfl
          exact Or.inl (CounterIs.spared (spares_hit hk _) hstep h)
        · exact Or.inl (CounterIs.spared (by simp [Spares, Cmd.writes]) hstep h)
        · by_cases hk : k = key
          · subst hk
            exact Or.inr (counterIs_reset hstep)
          · exact Or.inl (CounterIs.spared (spares_reset (Ne.symm hk)) hstep h)
      rw [← hclock]
      rcases hnext with hnext | hnext
      · exact ih (hcons hno) hnext
      · obtain ⟨hle, hend⟩ := ih (hcons hno) hnext
        exact ⟨hle, Or.inr (hend.elim id id)⟩

theorem CounterIs.letsIn_iff (h : CounterIs s key w) {r : Int} (hr : 0 ≤ r) :
    LetsIn C d key s r ↔ blocking d s.clock w ≤ second * r := by
  constructor
  · intro hlets
    obtain ⟨wait, hwait⟩ := Int.eq_ofNat_of_zero_le hr
    have hlater : CounterIs { s with clock := s.clock + second * wait } key w :=
      h.passes ⟨Nat.le_add_right _ _, rfl⟩
    have hchain : Chain (sem C d) s [.env] { s with clock := s.clock + second * wait } :=
      .env ⟨Nat.le_add_right _ _, rfl⟩ .nil
    have hin := hlets [.env] _ _ _ hchain (by simp [NoHit]) (by simp [hwait]) ⟨rfl, rfl⟩
    rw [hlater.allowed_iff ⟨rfl, rfl⟩, blocking_later, Nat.sub_eq_zero_iff_le] at hin
    rw [hwait]
    exact_mod_cast hin
  · intro hle tr s₁ n s₂ hc hno htime hstep
    obtain ⟨hclock, hend⟩ := h.chain hc hno
    obtain ⟨wait, hwait⟩ := Nat.exists_eq_add_of_le hclock
    rcases hend with hend | hend
    · rw [hend.allowed_iff hstep, hwait, blocking_later]
      have hlong : (blocking d s.clock w : Int) ≤ wait := by
        rw [hwait] at htime
        push_cast at htime
        omega
      omega
    · exact (hend.allowed_iff hstep).mpr rfl

theorem windowEntry_attempts {v v' : Window} (h : windowEntry v = windowEntry v') :
    v.attempts = v'.attempts := by
  unfold windowEntry at h
  simp only [Entry.mk.injEq, Value.str.injEq] at h
  have hint := congrArg String.toInt? h.1
  exact Int.ofNat_inj.mp (by simpa using hint)

theorem windowEntry_endsAt {v v' : Window} (h : windowEntry v = windowEntry v') :
    v.endsAt = v'.endsAt := by
  unfold windowEntry at h
  simp only [Entry.mk.injEq] at h
  exact WithTop.coe_injective h.2

/-- What `TTL` rounds to, for a window of `w` seconds. -/
theorem rounded_iff {rem w : Nat} (hpos : 0 < rem) (hw : 1 ≤ w) (hrem : rem ≤ ticks w) :
    let r := if 0 < (rem / 1000 + 500) / 1000 then (rem / 1000 + 500) / 1000 else w
    (rem ≤ second * r ∧ second * r < rem + second) ↔
      rem % second = 0 ∨ second / 2 ≤ rem % second ∨ w = 1 := by
  intro r
  have hms : (rem / 1000 + 500) / 1000 = (rem + 500000) / 1000000 := by omega
  unfold ticks at hrem
  simp only [r, hms, second] at hrem ⊢
  split <;> omega

/-- The answer is a second at least. -/
theorem retryAfterOf_pos (d : Deps Tok) (ttl : Int) :
    ∃ r : Nat, retryAfterOf d ttl = r ∧ 1 ≤ r := by
  have hwindow := d.settings.loginRateLimitWindowSeconds_pos
  unfold retryAfterOf
  split
  · exact ⟨ttl.toNat, by omega, by omega⟩
  · exact ⟨_, rfl, hwindow⟩

theorem CounterIs.right_nat_iff (h : CounterIs s key w) (r : Nat) :
    Right C d key s r ↔
      blocking d s.clock w ≤ second * r ∧ second * r < blocking d s.clock w + second := by
  constructor
  · intro hright
    have hlets := (h.letsIn_iff (Int.natCast_nonneg r)).mp hright.letsIn
    have htight := hright.tight _ ((h.blockedFor_iff _).mpr rfl)
    exact ⟨by exact_mod_cast hlets, by exact_mod_cast htight⟩
  · rintro ⟨hlets, htight⟩
    refine ⟨(h.letsIn_iff (Int.natCast_nonneg r)).mpr (by exact_mod_cast hlets), ?_⟩
    intro blocked hblocked
    rw [(h.blockedFor_iff blocked).mp hblocked]
    exact_mod_cast htight

/-- Where nothing is blocked, an answer of a second is too long. -/
theorem CounterIs.not_right (h : CounterIs s key w) (hzero : blocking d s.clock w = 0) {r : Nat}
    (hpos : 1 ≤ r) : ¬ Right C d key s r := by
  intro hright
  have htight := ((h.right_nat_iff r).mp hright).2
  have hone : second * 1 ≤ second * r := Nat.mul_le_mul_left second hpos
  omega

/-- A counter that is gone blocks nothing. -/
theorem blocking_none {now : Nat} (hw : (w.filter fun v => now < v.endsAt) = none) :
    blocking d now w = 0 := by
  unfold blocking
  split
  · rename_i v
    have hover : ¬ now < v.endsAt := by simpa using hw
    split <;> omega
  · rfl

/-- The answer to the time to live of a counter is right in the states in which it tells. -/
theorem CounterIs.right_iff (h : CounterIs s key w)
    (hend : ∀ v, w = some v →
      v.endsAt ≤ s.clock + ticks d.settings.loginRateLimitWindowSeconds) :
    Right C d key s (retryAfterOf d (remaining s.clock (s.counter key))) ↔ Tells d key s := by
  have hwindow := d.settings.loginRateLimitWindowSeconds_pos
  obtain ⟨r, hr, hpos⟩ := retryAfterOf_pos d (remaining s.clock (s.counter key))
  rw [hr]
  have hcounter : s.counter key = _ := h
  cases hw : w.filter fun v => s.clock < v.endsAt with
  | none =>
      rw [hw, Option.map_none] at hcounter
      refine iff_of_false (h.not_right (blocking_none hw) hpos) ?_
      rintro ⟨v, hv, _⟩
      rw [hcounter] at hv
      cases hv
  | some v =>
      obtain ⟨rfl, hlive⟩ := Option.filter_eq_some_iff.mp hw
      have hlive : s.clock < v.endsAt := by simpa using hlive
      rw [hw, Option.map_some] at hcounter
      by_cases hmax : d.settings.loginRateLimitMaxAttempts ≤ v.attempts
      · have hrem := hend v rfl
        have hblocking : blocking d s.clock (some v) = v.endsAt - s.clock := by
          simp [blocking, hmax]
        have hvalue : r = if 0 < ((v.endsAt - s.clock) / 1000 + 500) / 1000 then
            ((v.endsAt - s.clock) / 1000 + 500) / 1000
            else d.settings.loginRateLimitWindowSeconds := by
          rw [hcounter] at hr
          have hremaining : remaining s.clock (some (windowEntry v)) =
              ((((v.endsAt - s.clock) / 1000 + 500) / 1000 : Nat) : Int) := rfl
          rw [retryAfterOf, hremaining] at hr
          split at hr <;> split <;> omega
        have hround := rounded_iff (show 0 < v.endsAt - s.clock by omega) hwindow
          (show v.endsAt - s.clock ≤ ticks d.settings.loginRateLimitWindowSeconds by omega)
        dsimp only at hround
        rw [h.right_nat_iff, hblocking, hvalue, hround]
        constructor
        · exact fun htells => ⟨v, hcounter, hmax, htells⟩
        · rintro ⟨v', hv', _, htells⟩
          rw [hcounter, Option.some.injEq] at hv'
          rwa [windowEntry_endsAt hv']
      · refine iff_of_false (h.not_right (by simp [blocking, hmax]) hpos) ?_
        rintro ⟨v', hv', hmax', _⟩
        rw [hcounter, Option.some.injEq] at hv'
        exact hmax (windowEntry_attempts hv' ▸ hmax')

end Window

/-! ## Refusals in a history -/

section Refusals

variable [DecidableEq C] {calls : C → LimiterCall} {s₀ : State} {tr : List (Label C Op Reply)}
  {cfg cfg' : Config C Op Reply AppError (Option RateLimitResult) State}
  {l : Label C Op Reply} {c : C} {result : RateLimitResult}

/-- The pool of callers. -/
abbrev callersInit (d : Deps Tok) (calls : C → LimiterCall) (s₀ : State) :
    Config C Op Reply AppError (Option RateLimitResult) State :=
  ⟨s₀, fun c => (calls c).program d⟩

/-- The step makes the call refuse with this result. -/
structure Refuses (cfg cfg' : Config C Op Reply AppError (Option RateLimitResult) State) (c : C)
    (result : RateLimitResult) : Prop where
  pending : (cfg.pool c).outcome = none
  done : (cfg'.pool c).outcome = some (.ok (some result))
  refused : result.allowed = false

/-- A window ends at most a window's length from now. -/
theorem endsAt_le (hfresh : s₀.counter key = none)
    (h : Run (sem C d) anyStep (callersInit d calls s₀) tr cfg) :
    ∃ w, CounterIs cfg.state key w ∧ ∀ v, w = some v →
      v.endsAt ≤ cfg.state.clock + ticks d.settings.loginRateLimitWindowSeconds := by
  obtain ⟨log, hlogged⟩ : ∃ log, Run (limiterSem C d key) anyStep (limiterInit d calls s₀) tr
      (cfg.withLog log) := h.logged []
  obtain ⟨⟨w, hw⟩, _⟩ := limiter_recorded hfresh hlogged
  refine ⟨w, hw.counter, fun v hv => ?_⟩
  obtain ⟨before, c, t, hits, hlog, _, hend, _⟩ := hw.counts.opened v hv
  have ht : t ≤ cfg.state.clock := hw.past (.hit c t true 1) (by rw [hlog]; simp)
  omega

/-- A refusal is the reply to `TTL`. -/
theorem Refuses.step (hr : Refuses cfg cfg' c result) (hcall : calls c = .hit key)
    (h : Run (sem C d) anyStep (callersInit d calls s₀) tr cfg)
    (hl : Step (sem C d) cfg l cfg') :
    result.retryAfter =
      retryAfterOf d (remaining cfg.state.clock (cfg.state.counter key)) := by
  have hanswered : Answered d (calls c) (own c (tr ++ [l])) (.ok (some result)) :=
    (h.snoc hl trivial).hist_outcome (Q := fun _ _ e => LimiterOp d e.op)
      (R := fun c => Answered d (calls c)) (fun c => limiterCall_hist (calls c)) hr.done
  obtain ⟨before, ttl, hpast, hretry⟩ := (hanswered key result hcall rfl).refused hr.refused
  have hpending := hr.pending
  have hdone := hr.done
  cases hl with
  | env => rw [hpending] at hdone; cases hdone
  | @call c' op k r s' hpool hstep =>
      by_cases hc : c' = c
      · subst hc
        rw [own_append, own_call_self] at hpast
        obtain ⟨_, hlast⟩ := List.append_inj' hpast rfl
        cases hlast
        rw [hretry, (show ttl = _ from hstep.1)]
        rfl
      · dsimp only at hdone
        rw [Function.update_of_ne (Ne.symm hc), hpending] at hdone
        cases hdone

/-- A refusal answers with the right number of seconds exactly if the state in which it read
the time to live tells it. -/
theorem retry_after_iff (d : Deps Tok) (calls : C → LimiterCall) (key : String) (s₀ : State)
    (hfresh : s₀.counter key = none)
    (h : Run (sem C d) anyStep (callersInit d calls s₀) tr cfg)
    (hl : Step (sem C d) cfg l cfg') (hcall : calls c = .hit key)
    (hr : Refuses cfg cfg' c result) :
    Right C d key cfg.state result.retryAfter ↔ Tells d key cfg.state := by
  obtain ⟨w, hw, hend⟩ := endsAt_le hfresh h
  rw [hr.step hcall h hl]
  exact hw.right_iff hend

end Refusals

/-! ## Two callers -/

private theorem oneAttempt_hit {s : State} {w : Option Window} (h : CounterIs s "k" w) :
    ∃ n s', step oneAttempt s (hitOp oneAttempt "k") n s' ∧ s'.clock = s.clock ∧
      n.1 = (((Window.current 300000000 s.clock w).attempts + 1 : Nat) : Int) ∧
      CounterIs s' "k" (some (Window.current 300000000 s.clock w).count) := by
  have hstep : step oneAttempt s (hitOp oneAttempt "k") _ _ := ⟨rfl, rfl⟩
  obtain ⟨hn, hcounter⟩ := h.hit oneAttempt.settings.loginRateLimitWindowSeconds_pos hstep
  exact ⟨_, _, hstep, step_clock hstep, hn, hcounter⟩

/-- Two callers hit the key at once, and the one refused reads the time to live later. -/
private theorem refusal (clock : Nat) (h : clock < 300000000) :
    ∃ tr cfg l cfg' result, Run (sem Bool oneAttempt) anyStep
        (callersInit oneAttempt (fun _ => .hit "k") freshState) tr cfg ∧
      Step (sem Bool oneAttempt) cfg l cfg' ∧ Refuses cfg cfg' true result ∧
      cfg.state.clock = clock ∧
      cfg.state.counter "k" = some (windowEntry ⟨2, 300000000⟩) := by
  obtain ⟨n, s₁, hstep, hclock, _, hcounter⟩ :=
    oneAttempt_hit (counterIs_none.mpr (show freshState.counter "k" = none from rfl))
  obtain ⟨n', s₂, hstep', hclock', hn', hcounter'⟩ := oneAttempt_hit hcounter
  have hzero : s₁.clock = 0 := hclock
  have hzero' : s₂.clock = 0 := hclock'.trans hzero
  rw [hzero] at hn' hcounter'
  have henv : (sem Bool oneAttempt).env s₂ { s₂ with clock := clock } :=
    ⟨hzero' ▸ Nat.zero_le _, rfl⟩
  have hchain : Chain (sem Bool oneAttempt) freshState
      [.call false ⟨hitOp oneAttempt "k", n⟩, .call true ⟨hitOp oneAttempt "k", n'⟩, .env]
      { s₂ with clock := clock } := .call hstep (.call hstep' (.env henv .nil))
  obtain ⟨p, hp⟩ : ∃ p, ((LimiterCall.hit "k").program oneAttempt).Runs
      [⟨hitOp oneAttempt "k", n⟩] p := ⟨_, .cons .nil⟩
  obtain ⟨q, hfalse, htrue⟩ : ∃ q : Bool → AuthM (Option RateLimitResult), q false = p ∧
      q true = .call (.redis (.ttl "k")) fun ttl =>
        .ret (some ⟨false, n'.1, retryAfterOf oneAttempt ttl⟩) :=
    ⟨fun c => if c then _ else p, rfl, rfl⟩
  have hrun := Run.of_chain (p := (callersInit oneAttempt (fun _ => .hit "k") freshState).pool)
      (q := q) hchain fun c => by
    cases c with
    | false => exact hfalse ▸ hp
    | true => exact htrue ▸ refused_hit_runs hn'
  have hlater : CounterIs { s₂ with clock := clock } "k" (some ⟨2, 300000000⟩) :=
    hcounter'.passes ⟨hzero' ▸ Nat.zero_le _, rfl⟩
  refine ⟨_, _, _, _,
    ⟨false, n'.1, retryAfterOf oneAttempt (exec clock s₂.redis (.ttl "k")).1⟩, hrun,
    .call htrue ⟨rfl, rfl⟩, ⟨by simp [htrue], by simp, rfl⟩, rfl, ?_⟩
  rw [CounterIs] at hlater
  rw [hlater]
  simp [h]

/-- With 1.4 seconds to go the answer is one second, and a hit one second later is refused
again. -/
theorem retry_too_early : ∃ tr cfg l cfg' result, Run (sem Bool oneAttempt) anyStep
      (callersInit oneAttempt (fun _ => .hit "k") freshState) tr cfg ∧
    Step (sem Bool oneAttempt) cfg l cfg' ∧ Refuses cfg cfg' true result ∧
    ¬ Right Bool oneAttempt "k" cfg.state result.retryAfter := by
  obtain ⟨tr, cfg, l, cfg', result, h, hl, hr, hclock, hcounter⟩ :=
    refusal 298600000 (by decide)
  refine ⟨tr, cfg, l, cfg', result, h, hl, hr, fun hright => ?_⟩
  obtain ⟨w, hw, hend⟩ := endsAt_le rfl h
  rw [hr.step rfl h hl] at hright
  obtain ⟨v, hv, _, htells⟩ := (hw.right_iff hend).mp hright
  rw [hcounter, Option.some.injEq] at hv
  rw [← windowEntry_endsAt hv, hclock] at htells
  revert htells
  decide

/-- With the whole window to go the answer is right. -/
theorem retry_after_sample : ∃ tr cfg l cfg' result, Run (sem Bool oneAttempt) anyStep
      (callersInit oneAttempt (fun _ => .hit "k") freshState) tr cfg ∧
    Step (sem Bool oneAttempt) cfg l cfg' ∧ Refuses cfg cfg' true result ∧
    Right Bool oneAttempt "k" cfg.state result.retryAfter := by
  obtain ⟨tr, cfg, l, cfg', result, h, hl, hr, hclock, hcounter⟩ := refusal 0 (by decide)
  refine ⟨tr, cfg, l, cfg', result, h, hl, hr, ?_⟩
  refine (retry_after_iff oneAttempt (fun _ => .hit "k") "k" freshState rfl h hl rfl hr).mpr ?_
  refine ⟨⟨2, 300000000⟩, hcounter, by decide, Or.inl ?_⟩
  rw [hclock]
  decide

end GreenCommunity.Auth
