import GreenCommunity.Base.Pool

/-!
# Summaries of a history

A proof about a program rarely needs all of its events.  `p.Track next Q R x` speaks
about a summary of them: `x` is the summary when the program begins, `next` adds an
event to it, `Q` holds of each event and the summary before it, and `R` of the outcome
and the summary at the end.  The summary of every caller of a run obeys the same rules.
-/

namespace GreenCommunity.Base

variable {C Op : Type} {Reply : Op → Type} {ε α β σ τ : Type}

namespace Prog

variable (next : τ → Event Op Reply → τ) (Q : τ → Event Op Reply → Prop)

def Track : Prog Op Reply ε α → (τ → Except ε α → Prop) → τ → Prop
  | ret a, R, x => R x (.ok a)
  | raise e, R, x => R x (.error e)
  | call op k, R, x => ∀ r, Q x ⟨op, r⟩ ∧ (k r).Track R (next x ⟨op, r⟩)

variable {next Q} {R R' : τ → Except ε α → Prop} {x : τ}

@[simp] theorem track_ret (a : α) :
    (ret a : Prog Op Reply ε α).Track next Q R x ↔ R x (.ok a) := Iff.rfl

@[simp] theorem track_raise (e : ε) :
    (raise e : Prog Op Reply ε α).Track next Q R x ↔ R x (.error e) := Iff.rfl

theorem track_call (op : Op) (k : Reply op → Prog Op Reply ε α) :
    (call op k).Track next Q R x ↔
      ∀ r, Q x ⟨op, r⟩ ∧ (k r).Track next Q R (next x ⟨op, r⟩) := Iff.rfl

/-- The consequence rule. -/
theorem Track.imp {p : Prog Op Reply ε α} (hR : ∀ x o, R x o → R' x o) :
    ∀ {x : τ}, p.Track next Q R x → p.Track next Q R' x := by
  induction p with
  | ret a => exact fun h => hR _ _ h
  | raise e => exact fun h => hR _ _ h
  | call op k ih => exact fun h r => ⟨(h r).1, ih r (h r).2⟩

/-- The sequencing rule. -/
theorem track_bind {p : Prog Op Reply ε α} {f : α → Prog Op Reply ε β}
    {R : τ → Except ε β → Prop} : ∀ {x : τ},
    (p >>= f).Track next Q R x ↔ p.Track next Q (fun x' o => match o with
      | .ok a => (f a).Track next Q R x'
      | .error e => R x' (.error e)) x := by
  induction p with
  | ret a => intro x; rfl
  | raise e => intro x; rfl
  | call op k ih =>
      intro x
      simp only [call_bind, track_call]
      exact forall_congr' fun r => and_congr Iff.rfl (ih r)

/-- The rule for exception handlers. -/
theorem track_handle {p : Prog Op Reply ε α} {h : ε → Prog Op Reply ε α} : ∀ {x : τ},
    (p.handle h).Track next Q R x ↔ p.Track next Q (fun x' o => match o with
      | .ok a => R x' (.ok a)
      | .error e => (h e).Track next Q R x') x := by
  induction p with
  | ret a => intro x; rfl
  | raise e => intro x; rfl
  | call op k ih =>
      intro x
      simp only [handle, track_call]
      exact forall_congr' fun r => and_congr Iff.rfl (ih r)

/-- Two properties of the end. -/
theorem Track.and {p : Prog Op Reply ε α} :
    ∀ {x : τ}, p.Track next Q R x → p.Track next Q R' x →
      p.Track next Q (fun x' o => R x' o ∧ R' x' o) x := by
  induction p with
  | ret a => exact fun h h' => ⟨h, h'⟩
  | raise e => exact fun h h' => ⟨h, h'⟩
  | call op k ih => exact fun h h' r => ⟨(h r).1, ih r (h r).2 (h' r).2⟩

/-- A program all of whose operations are admitted wherever they come, and keep a
property of the summary. -/
theorem Every.track {P : Op → Prop} {p : Prog Op Reply ε α} (h : p.Every P) {K : τ → Prop}
    (hQ : ∀ x op r, P op → K x → Q x ⟨op, r⟩ ∧ K (next x ⟨op, r⟩)) :
    ∀ {x : τ}, K x → p.Track next Q (fun x' _ => K x') x := by
  induction p with
  | ret a => exact fun hx => hx
  | raise e => exact fun hx => hx
  | call op k ih => exact fun hx r => ⟨(hQ _ op r h.1 hx).1, ih r (h.2 r) (hQ _ op r h.1 hx).2⟩

/-- Where every event is admitted. -/
theorem track_of_forall (p : Prog Op Reply ε α) (hQ : ∀ x e, Q x e) :
    ∀ {x : τ}, p.Track next Q (fun _ _ => True) x := by
  induction p with
  | ret a => exact trivial
  | raise e => exact trivial
  | call op k ih => exact fun r => ⟨hQ _ _, ih r⟩

/-- The rule for `try … finally`: an exception of the last part replaces the outcome of
the body. -/
theorem track_andFinally {p : Prog Op Reply ε α} {last : Prog Op Reply ε Unit}
    (h : p.Track next Q (fun x' o =>
      last.Track next Q (fun x'' o' => R x'' (o'.bind fun _ => o)) x') x) :
    (p.andFinally last).Track next Q R x := by
  refine track_bind.mpr (track_handle.mpr (Track.imp ?_ h))
  intro x' o hlast
  cases o with
  | ok a =>
      refine track_bind.mpr (Track.imp ?_ hlast)
      rintro x'' (e | _) hR <;> exact hR
  | error e =>
      refine track_bind.mpr (Track.imp ?_ hlast)
      rintro x'' (e' | _) hR <;> exact hR

/-- The logic of summaries within the logic of histories. -/
theorem Track.hist {p : Prog Op Reply ε α} {x₀ : τ} : ∀ {past : List (Event Op Reply)},
    p.Track next Q R (past.foldl next x₀) →
      p.Hist (fun past e => Q (past.foldl next x₀) e) (fun past o => R (past.foldl next x₀) o)
        past := by
  induction p with
  | ret a => exact fun h => h
  | raise e => exact fun h => h
  | call op k ih =>
      intro past h r
      refine ⟨(h r).1, ih r ?_⟩
      rw [List.foldl_append]
      exact (h r).2

end Prog

/-- The event that a caller issues is admitted by the summary of its own events. -/
theorem Run.track_step [DecidableEq C] {S : Sem C Op Reply σ} {ok : Guard C Op Reply ε α σ}
    {init cfg cfg' : Config C Op Reply ε α σ} {tr : List (Label C Op Reply)} {c : C}
    {e : Event Op Reply} {next : τ → Event Op Reply → τ}
    {Q : C → τ → Event Op Reply → Prop} {R : τ → Except ε α → Prop} {x₀ : τ}
    (h : Run S ok init tr cfg) (h0 : ∀ c, (init.pool c).Track next (Q c) R x₀)
    (hl : Step S cfg (.call c e) cfg') : Q c ((own c tr).foldl next x₀) e :=
  h.hist_step (Q := fun c past e => Q c (past.foldl next x₀) e) (fun c => (h0 c).hist) hl

end GreenCommunity.Base
