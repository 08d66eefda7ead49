import GreenCommunity.Base.Pool

/-!
# Runs with a log

A statement about the history of a run needs what the labels do not show: the states in
which the calls were made.  `Sem.logged` keeps a log beside the state, to which every call
adds what `note` makes of the caller, the state it met and the event.  The log does not
touch the run: every run is a run with a log (`Run.logged`).  A log of the labels themselves
makes the trace so far a part of the state (`Run.traced`).
-/

namespace GreenCommunity.Base

variable {C Op : Type} {Reply : Op → Type} {ε α σ ν : Type}

structure Logged (σ ν : Type) where
  state : σ
  log : List ν

def Sem.logged (S : Sem C Op Reply σ) (note : C → σ → Event Op Reply → List ν) :
    Sem C Op Reply (Logged σ ν) where
  step c x op r x' := S.step c x.state op r x'.state ∧ x'.log = x.log ++ note c x.state ⟨op, r⟩
  env x x' := S.env x.state x'.state ∧ x'.log = x.log

/-- The semantics that keeps its trace. -/
def Sem.traced (S : Sem C Op Reply σ) : Sem C Op Reply (Logged σ (Label C Op Reply)) where
  step c x op r x' := S.step c x.state op r x'.state ∧ x'.log = x.log ++ [.call c ⟨op, r⟩]
  env x x' := S.env x.state x'.state ∧ x'.log = x.log ++ [.env]

/-- The configuration with a log. -/
def Config.withLog (cfg : Config C Op Reply ε α σ) (log : List ν) :
    Config C Op Reply ε α (Logged σ ν) := ⟨⟨cfg.state, log⟩, cfg.pool⟩

variable [DecidableEq C] {S : Sem C Op Reply σ} {note : C → σ → Event Op Reply → List ν}
  {tr : List (Label C Op Reply)}

theorem Run.logged {init cfg : Config C Op Reply ε α σ} (h : Run S anyStep init tr cfg)
    (log₀ : List ν) :
    ∃ log, Run (S.logged note) anyStep (init.withLog log₀) tr (cfg.withLog log) := by
  induction h with
  | nil => exact ⟨log₀, .nil⟩
  | snoc _ hl _ ih =>
      obtain ⟨log, hrun⟩ := ih
      cases hl with
      | @call c op k r s' hpool hstep =>
          have hlogged : (S.logged note).step c ⟨_, log⟩ op r ⟨s', _⟩ := ⟨hstep, rfl⟩
          exact ⟨_, .snoc hrun (.call hpool hlogged) trivial⟩
      | @env s' henv =>
          have hlogged : (S.logged note).env ⟨_, log⟩ ⟨s', log⟩ := ⟨henv, rfl⟩
          exact ⟨log, .snoc hrun (.env hlogged) trivial⟩

/-- Every run is one that keeps its trace, under the same guard. -/
theorem Run.traced {ok : Guard C Op Reply ε α σ} {init cfg : Config C Op Reply ε α σ}
    (h : Run S ok init tr cfg) :
    Run S.traced (fun _ cfg l => ok cfg.state.log ⟨cfg.state.state, cfg.pool⟩ l)
      (init.withLog []) tr (cfg.withLog tr) := by
  induction h with
  | nil => exact .nil
  | @snoc tr cfg _ _ _ hl hok ih =>
      cases hl with
      | @call c op k r s' hpool hstep =>
          have htraced : S.traced.step c ⟨cfg.state, tr⟩ op r ⟨s', _⟩ := ⟨hstep, rfl⟩
          exact .snoc ih (.call hpool htraced) hok
      | @env s' henv =>
          have htraced : S.traced.env ⟨cfg.state, tr⟩ ⟨s', _⟩ := ⟨henv, rfl⟩
          exact .snoc ih (.env htraced) hok

end GreenCommunity.Base
