import GreenCommunity.Base.Wp

/-!
# Total correctness

`p.total S c Q s` says that `p`, started in `s` with nobody else about, is never left
without a reply and ends in an outcome and a state that `Q` accepts, whatever the replies.
Programs have no infinite branch, so nothing else is left to ask.  Two such statements
about one program meet in some outcome, which is how one refutes the other.
-/

namespace GreenCommunity.Base

variable {C Op : Type} {Reply : Op → Type} {ε α β σ : Type}

namespace Prog

variable (S : Sem C Op Reply σ) (c : C)

def total : Prog Op Reply ε α → (Except ε α → σ → Prop) → σ → Prop
  | ret a, Q, s => Q (.ok a) s
  | raise e, Q, s => Q (.error e) s
  | call op k, Q, s =>
      (∃ r s', S.step c s op r s') ∧ ∀ r s', S.step c s op r s' → (k r).total Q s'

variable {S c} {Q Q' : Except ε α → σ → Prop} {s : σ}

@[simp] theorem total_ret (a : α) :
    (ret a : Prog Op Reply ε α).total S c Q s ↔ Q (.ok a) s := Iff.rfl

@[simp] theorem total_raise (e : ε) :
    (raise e : Prog Op Reply ε α).total S c Q s ↔ Q (.error e) s := Iff.rfl

theorem total_call (op : Op) (k : Reply op → Prog Op Reply ε α) :
    (call op k).total S c Q s ↔
      (∃ r s', S.step c s op r s') ∧
        ∀ r s', S.step c s op r s' → (k r).total S c Q s' := Iff.rfl

/-- The consequence rule. -/
theorem total_mono {p : Prog Op Reply ε α} (hQ : ∀ o s, Q o s → Q' o s) :
    ∀ {s : σ}, p.total S c Q s → p.total S c Q' s := by
  induction p with
  | ret a => intro s h; exact hQ _ _ h
  | raise e => intro s h; exact hQ _ _ h
  | call op k ih => intro s h; exact ⟨h.1, fun r s' hs => ih r (h.2 r s' hs)⟩

/-- The sequencing rule. -/
theorem total_bind {p : Prog Op Reply ε α} {f : α → Prog Op Reply ε β}
    {Q : Except ε β → σ → Prop} : ∀ {s : σ},
    (p >>= f).total S c Q s ↔ p.total S c (fun o s' => match o with
      | .ok a => (f a).total S c Q s'
      | .error e => Q (.error e) s') s := by
  induction p with
  | ret a => intro s; rfl
  | raise e => intro s; rfl
  | call op k ih =>
      intro s
      simp only [call_bind, total_call]
      exact and_congr Iff.rfl
        (forall_congr' fun r => forall_congr' fun s' => imp_congr_right fun _ => ih r)

/-- The rule for exception handlers. -/
theorem total_handle {p : Prog Op Reply ε α} {h : ε → Prog Op Reply ε α} : ∀ {s : σ},
    (p.handle h).total S c Q s ↔ p.total S c (fun o s' => match o with
      | .ok a => Q (.ok a) s'
      | .error e => (h e).total S c Q s') s := by
  induction p with
  | ret a => intro s; rfl
  | raise e => intro s; rfl
  | call op k ih =>
      intro s
      simp only [handle, total_call]
      exact and_congr Iff.rfl
        (forall_congr' fun r => forall_congr' fun s' => imp_congr_right fun _ => ih r)

/-- The rule for `try … finally`: an exception of the last part replaces the outcome of
the body. -/
theorem total_andFinally {p : Prog Op Reply ε α} {last : Prog Op Reply ε Unit} {s : σ}
    (h : p.total S c (fun o s' =>
      last.total S c (fun o' s'' => Q (o'.bind fun _ => o) s'') s') s) :
    (p.andFinally last).total S c Q s := by
  refine total_bind.mpr (total_handle.mpr (total_mono ?_ h))
  intro o s' hlast
  cases o with
  | ok a =>
      refine total_bind.mpr (total_mono ?_ hlast)
      rintro (e | _) s'' hQ <;> exact hQ
  | error e =>
      refine total_bind.mpr (total_mono ?_ hlast)
      rintro (e' | _) s'' hQ <;> exact hQ

/-- Two postconditions of one program agree on some outcome. -/
theorem exists_of_total {p : Prog Op Reply ε α} :
    ∀ {s : σ}, p.total S c Q s → p.total S c Q' s → ∃ o s', Q o s' ∧ Q' o s' := by
  induction p with
  | ret a => exact fun h h' => ⟨_, _, h, h'⟩
  | raise e => exact fun h h' => ⟨_, _, h, h'⟩
  | call op k ih =>
      intro s h h'
      obtain ⟨r, s', hs⟩ := h.1
      exact ih r (h.2 r s' hs) (h'.2 r s' hs)

/-- What every execution meets can be added to the postcondition, where the operations do
no more than they may do otherwise. -/
theorem total_and_wp {T : Sem C Op Reply σ}
    (hstep : ∀ s op r s', S.step c s op r s' → T.step c s op r s') {p : Prog Op Reply ε α} :
    ∀ {s : σ}, p.total S c Q s → p.wp T c Q' s →
      p.total S c (fun o s' => Q o s' ∧ Q' o s') s := by
  induction p with
  | ret a => exact fun h h' => ⟨h, h'⟩
  | raise e => exact fun h h' => ⟨h, h'⟩
  | call op k ih =>
      intro s h h'
      exact ⟨h.1, fun r s' hs => ih r (h.2 r s' hs) (h' r s' (hstep _ _ _ _ hs))⟩

end Prog

/-- There is an execution, and it ends. -/
theorem Prog.exec_of_total {S : Sem C Op Reply σ} {c : C} (hrefl : ∀ s, S.env s s)
    {p : Prog Op Reply ε α} {Q : Except ε α → σ → Prop} : ∀ {s : σ}, p.total S c Q s →
      ∃ evs o s', Exec S c s p evs (some o) s' ∧ Q o s' := by
  induction p with
  | ret a => exact fun h => ⟨_, _, _, .ret, h⟩
  | raise e => exact fun h => ⟨_, _, _, .raise, h⟩
  | call op k ih =>
      intro s h
      obtain ⟨r, s', hs⟩ := h.1
      obtain ⟨evs, o, s'', hx, hQ⟩ := ih r (h.2 r s' hs)
      exact ⟨_, o, s'', .call (hrefl s) hs hx, hQ⟩

end GreenCommunity.Base
