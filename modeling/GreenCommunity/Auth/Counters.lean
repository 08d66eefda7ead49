import GreenCommunity.Base.FixedWindow
import GreenCommunity.Auth.History

/-!
# The counters of the login limiter

A limiter key holds the number of hits in the window in progress and expires with the
window.  `CounterIs` says that a key stands for a window: a hit counts in the window in
progress or opens a new one, and what leaves the key alone leaves the window alone.
-/

namespace GreenCommunity.Auth

open GreenCommunity.Base
open GreenCommunity.Base.Redis

variable {Tok : Type} {d : Deps Tok}

/-! ## Keys -/

def emailKey (d : Deps Tok) (email : String) : String :=
  s!"ratelimit:login:email:{d.lower email}"

def ipKey (clientIp : String) : String := s!"ratelimit:login:ip:{clientIp}"

theorem rateLimitKeys_eq (email clientIp : String) :
    rateLimitKeys d email clientIp = [emailKey d email, ipKey clientIp] := rfl

theorem emailKey_ne_ipKey (email clientIp : String) : emailKey d email ≠ ipKey clientIp := by
  intro h
  -- the texts part after `ratelimit:login:`
  have hchar := congrArg (fun key : String => key.toList[16]?) h
  unfold emailKey ipKey at hchar
  simp [Text.toString_text] at hchar

theorem ipKey_inj {a b : String} : ipKey a = ipKey b ↔ a = b := by
  rw [← String.toList_inj, ← @String.toList_inj a b]
  unfold ipKey
  simp only [Text.toString_text, String.toList_append, List.append_cancel_left_eq]

/-! ## Windows -/

/-- What Redis holds under the key of a window. -/
def windowEntry (w : Window) : Entry :=
  ⟨.str (toString (w.attempts : Int)), (w.endsAt : WithTop Nat)⟩

/-- The key as every command sees it at the present instant. -/
def State.counter (s : State) (key : String) : Option Entry :=
  purge s.clock s.redis key

/-- The key stands for the window, as long as the window lasts. -/
def CounterIs (s : State) (key : String) (w : Option Window) : Prop :=
  s.counter key = (w.filter fun w => s.clock < w.endsAt).map windowEntry

theorem counterIs_none {s : State} {key : String} :
    CounterIs s key none ↔ s.counter key = none := Iff.rfl

/-- The window is over or runs on while time passes. -/
theorem CounterIs.passes {s s' : State} {key : String} {w : Option Window}
    (h : CounterIs s key w) (hs : Auth.passes s s') : CounterIs s' key w := by
  have hlater : s'.counter key = purge s'.clock (purge s.clock s.redis) key := by
    rw [purge_purge hs.1, State.counter, hs.2]
  rw [CounterIs, State.counter] at h
  rw [CounterIs, hlater, purge, h]
  cases w with
  | none => rfl
  | some w =>
      have hcast : ((s'.clock : Nat) : WithTop Nat) < (w.endsAt : WithTop Nat) ↔
          s'.clock < w.endsAt := WithTop.coe_lt_coe
      by_cases hnow : s'.clock < w.endsAt
      · have hbefore : s.clock < w.endsAt := Nat.lt_of_le_of_lt hs.1 hnow
        simp [Option.filter, hnow, hbefore, windowEntry, hcast]
      · by_cases hbefore : s.clock < w.endsAt <;>
          simp [Option.filter, hnow, hbefore, windowEntry, hcast]

/-- Nobody else writes the key. -/
theorem CounterIs.drifts {s s' : State} {key : String} {w : Option Window}
    (h : CounterIs s key w) (hs : drift s s') : CounterIs s' key w := by
  have hpasses : Auth.passes s { s with clock := s'.clock } := ⟨hs.1, rfl⟩
  have hw := h.passes hpasses
  rw [CounterIs, State.counter] at hw ⊢
  rw [hs.2]
  exact hw

/-! ## Hits -/

/-- `INCR` and `EXPIRE NX` on a key without a value. -/
private theorem hit_absent (now windowSeconds : Nat) {key : String} {db : Keyspace}
    (h : db key = none) :
    (runAll now db (hitCmds key windowSeconds)).1.1 = (1 : Int) ∧
      effect now db (hitCmds key windowSeconds) key =
        some (windowEntry ⟨1, now + ticks windowSeconds⟩) := by
  constructor
  · simp [runAll, hitCmds, Cmd.run, h]
  · simp [hitCmds, Cmd.run, h, expiry, windowEntry]

/-- The same on the key of a window: the expiry stays. -/
private theorem hit_present (now windowSeconds : Nat) {key : String} {db : Keyspace}
    {w : Window} (h : db key = some (windowEntry w)) :
    (runAll now db (hitCmds key windowSeconds)).1.1 = (w.attempts + 1 : Int) ∧
      effect now db (hitCmds key windowSeconds) key = some (windowEntry w.count) := by
  constructor
  · simp [runAll, hitCmds, Cmd.run, h, windowEntry]
  · have htop : (w.endsAt : WithTop Nat) ≠ ⊤ := WithTop.coe_ne_top
    simp [hitCmds, Cmd.run, h, expiry, windowEntry, Window.count, htop]

/-- A hit counts in the current window. -/
theorem CounterIs.hit {s s' : State} {key : String} {w : Option Window}
    {windowSeconds : Nat} {r : Replies (hitCmds key windowSeconds)}
    (hpos : 0 < windowSeconds) (h : CounterIs s key w)
    (hstep : step d s (.pipeline (hitCmds key windowSeconds)) r s') :
    r.1 = (((Window.current (ticks windowSeconds) s.clock w).attempts + 1 : Nat) : Int) ∧
      CounterIs s' key
        (some (Window.current (ticks windowSeconds) s.clock w).count) := by
  obtain ⟨rfl, rfl⟩ := hstep
  have htimed : ∀ c ∈ hitCmds key windowSeconds, c.Timed := by
    intro c hc
    simp only [hitCmds, List.mem_cons, List.not_mem_nil, or_false] at hc
    rcases hc with rfl | rfl
    · trivial
    · exact hpos
  rw [CounterIs, State.counter, purge_pipeline s.redis htimed]
  rw [CounterIs, State.counter] at h
  unfold Window.current
  generalize hw : w.filter (fun w => decide (s.clock < w.endsAt)) = live at h
  cases live with
  | none =>
      obtain ⟨hreply, hafter⟩ := hit_absent s.clock windowSeconds h
      refine ⟨by simpa [Redis.pipeline] using hreply, ?_⟩
      have hlive : s.clock < s.clock + ticks windowSeconds :=
        Nat.lt_add_of_pos_right (ticks_pos hpos)
      simp [hafter, Option.filter, Window.count, hlive]
  | some w' =>
      obtain ⟨hreply, hafter⟩ := hit_present s.clock windowSeconds h
      refine ⟨by simpa [Redis.pipeline] using hreply, ?_⟩
      obtain ⟨rfl, hlive⟩ := Option.filter_eq_some_iff.mp hw
      have hlive : s.clock < w'.endsAt := by simpa using hlive
      simp [hafter, Option.filter, Window.count, hlive]

/-! ## What leaves a counter alone -/

/-- The operation does not write the key. -/
def Spares (key : String) : Op → Prop
  | .redis c => key ∉ c.writes
  | .pipeline cs => ∀ c ∈ cs, key ∉ c.writes
  | _ => True

/-- No operation writes the users table. -/
theorem users_step {s s' : State} {op : Op} {r : Reply op} (h : step d s op r s') :
    s'.users = s.users := by
  cases op with
  | log _ => rw [show s' = s from h]
  | _ => rw [h.2]

theorem counter_spared {s s' : State} {key : String} {op : Op} {r : Reply op}
    (hop : Spares key op) (hstep : step d s op r s') : s'.counter key = s.counter key := by
  have hclock : s'.clock = s.clock := step_clock hstep
  rw [State.counter, State.counter, hclock]
  cases op with
  | redis c =>
      obtain ⟨_, rfl⟩ := hstep
      have hafter := run_frame hop s.clock (purge s.clock s.redis)
      rw [← purge_purge (Nat.le_refl s.clock) s.redis]
      simp only [purge, exec] at hafter ⊢
      rw [hafter]
  | pipeline cs =>
      obtain ⟨_, rfl⟩ := hstep
      have hafter := effect_frame s.clock cs (purge s.clock s.redis) hop
      rw [← purge_purge (Nat.le_refl s.clock) s.redis, pipeline_snd]
      simp only [purge] at hafter ⊢
      rw [hafter]
  | now | getById _ | getByEmail _ => rw [hstep.2]
  | uuid4 => rw [hstep.2]
  | log _ => rw [show s' = s from hstep]

theorem CounterIs.spared {s s' : State} {key : String} {w : Option Window} {op : Op}
    {r : Reply op} (hop : Spares key op) (hstep : step d s op r s')
    (h : CounterIs s key w) : CounterIs s' key w := by
  rw [CounterIs, counter_spared hop hstep, step_clock hstep]
  exact h

theorem spares_reset {key key' : String} (h : key ≠ key') :
    Spares key (.redis (.del [key'])) := by
  simpa [Spares, Cmd.writes] using h

theorem spares_hit {key key' : String} (h : key ≠ key') (windowSeconds : Nat) :
    Spares key (.pipeline (hitCmds key' windowSeconds)) := by
  intro c hc
  simp only [hitCmds, List.mem_cons, List.not_mem_nil, or_false] at hc
  rcases hc with rfl | rfl <;> simpa [Cmd.writes] using h

/-- Deleting the key ends the window. -/
theorem counterIs_reset {s s' : State} {key : String} {r : Reply (.redis (.del [key]))}
    (hstep : step d s (.redis (.del [key])) r s') : CounterIs s' key none := by
  obtain ⟨_, rfl⟩ := hstep
  simp [counterIs_none, State.counter, exec, Cmd.run, purge]

end GreenCommunity.Auth
