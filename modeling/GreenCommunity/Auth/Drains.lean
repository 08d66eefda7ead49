import GreenCommunity.Auth.Browsers

/-!
# What authentication leaves in Redis

Anybody may try to log in, and every try leaves a counter, every login a token and an entry
in an index set, every refresh a marker.  None of them stays: each pipeline gives the keys
that it makes a time to live, and a marker gets no more than is left of its token.
-/

namespace GreenCommunity.Auth

open GreenCommunity.Base
open GreenCommunity.Base.Redis

variable {Tok : Type} {d : Deps Tok}

/-- Every key is gone before the longest time to live is over. -/
def Drains (d : Deps Tok) (s : State) : Prop := Expires (s.clock + d.settings.longest) s.redis

section Steps

variable {s s' : State}

theorem Drains.drift (h : Drains d s) (hdrift : drift s s') : Drains d s' := by
  have hredis : s'.redis = s.redis := by rw [hdrift.2]
  rw [Drains, hredis]
  exact h.mono (Nat.add_le_add_right hdrift.1 _)

theorem Drains.step (h : Drains d s) {op : Op} {r : Reply op} (hop : Brief d op)
    (hs : step d s op r s') : Drains d s' := by
  have hclock := step_clock hs
  rw [Drains, hclock]
  cases op with
  | log entry =>
      rw [show s' = s from hs]
      exact h
  | now | uuid4 | getById | getByEmail =>
      rw [hs.2]
      exact h
  | redis c =>
      rw [hs.2]
      exact exec_expires (hop s.clock) h
  | pipeline cs =>
      rw [hs.2]
      exact pipeline_expires (hop s.clock) h

/-- Once nobody has written anything for so long, nothing is left. -/
theorem Drains.empty (h : Drains d s) (hdrift : Auth.drift s s')
    (hlate : s.clock + d.settings.longest ≤ s'.clock) (k : String) :
    purge s'.clock s'.redis k = none := by
  have hredis : s'.redis = s.redis := by rw [hdrift.2]
  rw [hredis]
  exact Expires.purge_eq_none h hlate k

end Steps

section Runs

variable {C : Type} [DecidableEq C] {r : Routing} {visits : C → List (Visit Tok)} {init : State}
  {tr : List (Label C Op Reply)} {cfg : Config C Op Reply AppError (Jar Tok) State}

/-- At any time of any interleaving of browsers, all that Redis holds expires within the
longest time to live of a token or a counter. -/
theorem redis_drains (hnamed : Named init) (hdrains : Drains d init)
    (h : Run (sem C d) anyStep ⟨init, fun c => browse d r [] (visits c)⟩ tr cfg) :
    Drains d cfg.state ∧ ∀ s', drift cfg.state s' →
      cfg.state.clock + d.settings.longest ≤ s'.clock → ∀ k, purge s'.clock s'.redis k = none := by
  suffices hall : Drains d cfg.state from ⟨hall, fun s' hdrift hlate => hall.empty hdrift hlate⟩
  refine Run.inv (fun _ cfg => Drains d cfg.state) hdrains ?_ h
  intro tr cfg l cfg' hrun ih hl _
  rcases pool_step hl with ⟨_, hdrift⟩ | ⟨c, e, rfl, hs⟩
  · exact ih.drift hdrift
  · exact ih.step (honest_step hnamed hrun hl).brief hs

end Runs

/-- After a login, a mass logout and a refresh that finds nothing: the lifetime of a token
later Redis is empty. -/
theorem redis_drains_sample : ∃ tr cfg cfg',
    Run (sem Bool sample) anyStep sampleBrowsers tr cfg ∧
    Step (sem Bool sample) cfg (.call true ⟨.log (.refreshTokenNotFound 1 "b"), ()⟩) cfg' ∧
    ∀ k, purge (cfg.state.clock + sample.settings.longest) cfg.state.redis k = none := by
  obtain ⟨tr, cfg, cfg', hrun, hl, _⟩ := late_refresh
  have hdrains : Drains sample freshState := fun k e he => by cases he
  have hdrift : drift cfg.state
      { cfg.state with clock := cfg.state.clock + sample.settings.longest } :=
    ⟨Nat.le_add_right _ _, rfl⟩
  exact ⟨tr, cfg, cfg', hrun, hl,
    (redis_drains named_freshState hdrains hrun).2 _ hdrift (Nat.le_refl _)⟩

end GreenCommunity.Auth
