import GreenCommunity.Base.Serial

/-!
# Weakest preconditions

`p.wp S c Q s` says that every complete execution of `p` from `s`, alone and with
an environment that stands still, ends in an outcome and a state that `Q` accepts.
It is defined by recursion on the program, so that a handler is verified by
walking through its text: one rule for each way programs are put together, and for
an operation the obligation to consider every reply the step relation admits.
-/

namespace GreenCommunity.Base

variable {C Op : Type} {Reply : Op → Type} {ε α β σ : Type}

namespace Prog

variable (S : Sem C Op Reply σ) (c : C)

def wp : Prog Op Reply ε α → (Except ε α → σ → Prop) → σ → Prop
  | ret a, Q, s => Q (.ok a) s
  | raise e, Q, s => Q (.error e) s
  | call op k, Q, s => ∀ r s', S.step c s op r s' → (k r).wp Q s'

variable {S c} {Q Q' : Except ε α → σ → Prop} {s : σ}

@[simp] theorem wp_ret (a : α) :
    (ret a : Prog Op Reply ε α).wp S c Q s ↔ Q (.ok a) s := Iff.rfl

@[simp] theorem wp_raise (e : ε) :
    (raise e : Prog Op Reply ε α).wp S c Q s ↔ Q (.error e) s := Iff.rfl

theorem wp_call (op : Op) (k : Reply op → Prog Op Reply ε α) :
    (call op k).wp S c Q s ↔ ∀ r s', S.step c s op r s' → (k r).wp S c Q s' := Iff.rfl

/-- The consequence rule. -/
theorem wp_mono {p : Prog Op Reply ε α} (hQ : ∀ o s, Q o s → Q' o s) :
    ∀ {s : σ}, p.wp S c Q s → p.wp S c Q' s := by
  induction p with
  | ret a => intro s h; exact hQ _ _ h
  | raise e => intro s h; exact hQ _ _ h
  | call op k ih => intro s h r s' hs; exact ih r (h r s' hs)

/-- The sequencing rule. -/
theorem wp_bind {p : Prog Op Reply ε α} {f : α → Prog Op Reply ε β}
    {Q : Except ε β → σ → Prop} : ∀ {s : σ},
    (p >>= f).wp S c Q s ↔ p.wp S c (fun o s' => match o with
      | .ok a => (f a).wp S c Q s'
      | .error e => Q (.error e) s') s := by
  induction p with
  | ret a => intro s; rfl
  | raise e => intro s; rfl
  | call op k ih =>
      intro s
      simp only [call_bind, wp_call]
      exact forall_congr' fun r => forall_congr' fun s' => imp_congr_right fun _ => ih r

/-- The rule for exception handlers. -/
theorem wp_handle {p : Prog Op Reply ε α} {h : ε → Prog Op Reply ε α} : ∀ {s : σ},
    (p.handle h).wp S c Q s ↔ p.wp S c (fun o s' => match o with
      | .ok a => Q (.ok a) s'
      | .error e => (h e).wp S c Q s') s := by
  induction p with
  | ret a => intro s; rfl
  | raise e => intro s; rfl
  | call op k ih =>
      intro s
      simp only [handle, wp_call]
      exact forall_congr' fun r => forall_congr' fun s' => imp_congr_right fun _ => ih r

/-- The rule for `try … finally`: an exception of the last part replaces the
outcome of the body. -/
theorem wp_andFinally {p : Prog Op Reply ε α} {last : Prog Op Reply ε Unit} {s : σ}
    (h : p.wp S c (fun o s' => last.wp S c (fun o' s'' => Q (o'.bind fun _ => o) s'') s') s) :
    (p.andFinally last).wp S c Q s := by
  refine wp_bind.mpr (wp_handle.mpr (wp_mono ?_ h))
  intro o s' hlast
  cases o with
  | ok a =>
      refine wp_bind.mpr (wp_mono ?_ hlast)
      rintro (e | _) s'' hQ <;> exact hQ
  | error e =>
      refine wp_bind.mpr (wp_mono ?_ hlast)
      rintro (e' | _) s'' hQ <;> exact hQ

end Prog

/-- Executions meet the weakest precondition. -/
theorem Exec.wp {S : Sem C Op Reply σ} {c : C} (henv : ∀ s s', S.env s s' → s' = s)
    {p : Prog Op Reply ε α} {Q : Except ε α → σ → Prop} {s s' : σ}
    {evs : List (σ × Event Op Reply)} {o : Except ε α}
    (h : Exec S c s p evs (some o) s') : p.wp S c Q s → Q o s' := by
  generalize ho : some o = oo at h
  induction h with
  | ret | raise => cases ho; exact id
  | stop => cases ho
  | call hw h _ ih =>
      intro hwp
      obtain rfl := henv _ _ hw
      exact ih ho (hwp _ _ h)

end GreenCommunity.Base
