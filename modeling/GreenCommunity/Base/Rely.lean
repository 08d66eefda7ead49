import GreenCommunity.Base.Wp

/-!
# Programs among others

`p.Among S c R A G Q s` speaks about the program `p` of caller `c` where others act on
the shared state.  It relies on `R`: whatever happens between two operations of `p` takes
the state from one to the other by `R`.  It guarantees `G` of every step it takes itself,
and ends in an outcome and a state that `Q` accepts.  `A` is what may be assumed of its own
steps, which is how the guard of a run enters.

Programs whose guarantees are what the others rely on can be put in one pool: each of
them is, at any time of a run, somewhere in its own proof.
-/

namespace GreenCommunity.Base

variable {C Op : Type} {Reply : Op → Type} {ε α β σ : Type}

namespace Prog

variable (S : Sem C Op Reply σ) (c : C) (R : σ → σ → Prop) (A : σ → Event Op Reply → Prop)
  (G : σ → Event Op Reply → σ → Prop)

def Among : Prog Op Reply ε α → (Except ε α → σ → Prop) → σ → Prop
  | ret a, Q, s => Q (.ok a) s
  | raise e, Q, s => Q (.error e) s
  | call op k, Q, s => ∀ s₀, R s s₀ → ∀ r s', S.step c s₀ op r s' → A s₀ ⟨op, r⟩ →
      G s₀ ⟨op, r⟩ s' ∧ (k r).Among Q s'

variable {S c R A G} {Q Q' : Except ε α → σ → Prop} {s : σ}

@[simp] theorem among_ret (a : α) :
    (ret a : Prog Op Reply ε α).Among S c R A G Q s ↔ Q (.ok a) s := Iff.rfl

@[simp] theorem among_raise (e : ε) :
    (raise e : Prog Op Reply ε α).Among S c R A G Q s ↔ Q (.error e) s := Iff.rfl

theorem among_call (op : Op) (k : Reply op → Prog Op Reply ε α) :
    (call op k).Among S c R A G Q s ↔ ∀ s₀, R s s₀ → ∀ r s', S.step c s₀ op r s' →
      A s₀ ⟨op, r⟩ → G s₀ ⟨op, r⟩ s' ∧ (k r).Among S c R A G Q s' := Iff.rfl

/-- The consequence rule. -/
theorem Among.imp {p : Prog Op Reply ε α} (hQ : ∀ o s, Q o s → Q' o s) :
    ∀ {s : σ}, p.Among S c R A G Q s → p.Among S c R A G Q' s := by
  induction p with
  | ret a => exact fun h => hQ _ _ h
  | raise e => exact fun h => hQ _ _ h
  | call op k ih =>
      intro s h s₀ hs r s' hstep hA
      exact ⟨(h s₀ hs r s' hstep hA).1, ih r (h s₀ hs r s' hstep hA).2⟩

/-- Assuming more of the own steps. -/
theorem Among.weaken {A' : σ → Event Op Reply → Prop} (hA : ∀ s e, A' s e → A s e)
    {p : Prog Op Reply ε α} :
    ∀ {s : σ}, p.Among S c R A G Q s → p.Among S c R A' G Q s := by
  induction p with
  | ret a => exact fun h => h
  | raise e => exact fun h => h
  | call op k ih =>
      intro s h s₀ hs r s' hstep hA'
      obtain ⟨hG, hk⟩ := h s₀ hs r s' hstep (hA _ _ hA')
      exact ⟨hG, ih r hk⟩

/-- The sequencing rule. -/
theorem among_bind {p : Prog Op Reply ε α} {f : α → Prog Op Reply ε β}
    {Q : Except ε β → σ → Prop} : ∀ {s : σ},
    (p >>= f).Among S c R A G Q s ↔ p.Among S c R A G (fun o s' => match o with
      | .ok a => (f a).Among S c R A G Q s'
      | .error e => Q (.error e) s') s := by
  induction p with
  | ret a => intro s; rfl
  | raise e => intro s; rfl
  | call op k ih =>
      intro s
      simp only [call_bind, among_call]
      refine forall_congr' fun s₀ => imp_congr_right fun _ => forall_congr' fun r =>
        forall_congr' fun s' => imp_congr_right fun _ => imp_congr_right fun _ =>
          and_congr_right fun _ => ih r

/-- The rule for exception handlers. -/
theorem among_handle {p : Prog Op Reply ε α} {h : ε → Prog Op Reply ε α} : ∀ {s : σ},
    (p.handle h).Among S c R A G Q s ↔ p.Among S c R A G (fun o s' => match o with
      | .ok a => Q (.ok a) s'
      | .error e => (h e).Among S c R A G Q s') s := by
  induction p with
  | ret a => intro s; rfl
  | raise e => intro s; rfl
  | call op k ih =>
      intro s
      simp only [handle, among_call]
      refine forall_congr' fun s₀ => imp_congr_right fun _ => forall_congr' fun r =>
        forall_congr' fun s' => imp_congr_right fun _ => imp_congr_right fun _ =>
          and_congr_right fun _ => ih r

/-- The rule for `try … finally`: an exception of the last part replaces the
outcome of the body. -/
theorem among_andFinally {p : Prog Op Reply ε α} {last : Prog Op Reply ε Unit}
    (h : p.Among S c R A G (fun o s' =>
      last.Among S c R A G (fun o' s'' => Q (o'.bind fun _ => o) s'') s') s) :
    (p.andFinally last).Among S c R A G Q s := by
  refine among_bind.mpr (among_handle.mpr (Among.imp ?_ h))
  intro o s' hlast
  cases o with
  | ok a =>
      refine among_bind.mpr (Among.imp ?_ hlast)
      rintro (e | _) s'' hQ <;> exact hQ
  | error e =>
      refine among_bind.mpr (Among.imp ?_ hlast)
      rintro (e' | _) s'' hQ <;> exact hQ

/-- A program that only issues operations whose steps keep its word. -/
theorem Every.among {P : Op → Prop} {p : Prog Op Reply ε α} (h : p.Every P)
    (hG : ∀ s op r s', P op → S.step c s op r s' → A s ⟨op, r⟩ → G s ⟨op, r⟩ s')
    (hQ : ∀ o s, Q o s) : ∀ {s : σ}, p.Among S c R A G Q s := by
  induction p with
  | ret a => exact fun {s} => hQ _ s
  | raise e => exact fun {s} => hQ _ s
  | call op k ih =>
      intro s s₀ _ r s' hstep hA
      exact ⟨hG s₀ op r s' h.1 hstep hA, ih r (h.2 r)⟩

/-- A program that takes no step. -/
theorem among_of_never (hA : ∀ s e, ¬ A s e) (hQ : ∀ o s, Q o s) (p : Prog Op Reply ε α)
    (s : σ) : p.Among S c R A G Q s := by
  cases p with
  | ret a => exact hQ _ s
  | raise e => exact hQ _ s
  | call op k => exact fun s₀ _ r s' _ h => absurd h (hA s₀ _)

/-- A program that keeps its word among others keeps it alone. -/
theorem Among.wp {T : Sem C Op Reply σ} (hstep : T.step = S.step) (hrefl : ∀ s, R s s)
    (hA : ∀ s e, A s e) {p : Prog Op Reply ε α} :
    ∀ {s : σ}, p.Among S c R A G Q s → p.wp T c Q s := by
  induction p with
  | ret a => exact fun h => h
  | raise e => exact fun h => h
  | call op k ih =>
      intro s h r s' hs
      rw [hstep] at hs
      exact ih r (h s (hrefl s) r s' hs (hA s _)).2

end Prog

/-- What every program guarantees, and the environment, is what the others rely on. -/
structure Compatible (S : Sem C Op Reply σ) (R : C → σ → σ → Prop)
    (G : C → σ → Event Op Reply → σ → Prop) : Prop where
  refl : ∀ c s, R c s s
  trans : ∀ c {s s' s''}, R c s s' → R c s' s'' → R c s s''
  others : ∀ {c d s e s'}, d ≠ c → G c s e s' → R d s s'
  env : ∀ c {s s'}, S.env s s' → R c s s'

section Runs

open Prog

variable [DecidableEq C] {S : Sem C Op Reply σ} {ok : Guard C Op Reply ε α σ}
  {R : C → σ → σ → Prop} {A : C → σ → Event Op Reply → Prop}
  {G : C → σ → Event Op Reply → σ → Prop}
  {Q : C → Except ε α → σ → Prop} {init cfg : Config C Op Reply ε α σ}
  {tr : List (Label C Op Reply)}

/-- At any time of a run every program is somewhere in its proof, in a state from which the
others have come here. -/
theorem Run.among (hcompat : Compatible S R G)
    (hok : ∀ tr cfg c e, ok tr cfg (.call c e) → A c cfg.state e)
    (h0 : ∀ c, (init.pool c).Among S c (R c) (A c) (G c) (Q c) init.state)
    (h : Run S ok init tr cfg) (c : C) :
    ∃ s, (cfg.pool c).Among S c (R c) (A c) (G c) (Q c) s ∧ R c s cfg.state := by
  induction h generalizing c with
  | nil => exact ⟨init.state, h0 c, hcompat.refl c _⟩
  | snoc _ hl hstep ih =>
      cases hl with
      | env he =>
          obtain ⟨s, hs, hR⟩ := ih c
          exact ⟨s, hs, hcompat.trans c hR (hcompat.env c he)⟩
      | @call d op k r s' hpool hs' =>
          obtain ⟨sd, hd, hRd⟩ := ih d
          rw [hpool] at hd
          obtain ⟨hG, hnext⟩ := hd _ hRd r s' hs' (hok _ _ _ _ hstep)
          by_cases hcd : c = d
          · subst hcd
            exact ⟨s', by simpa using hnext, hcompat.refl c s'⟩
          · obtain ⟨s, hs, hR⟩ := ih c
            refine ⟨s, ?_, hcompat.trans c hR (hcompat.others hcd hG)⟩
            simpa [Function.update_of_ne hcd] using hs

/-- Every step of a program keeps its word. -/
theorem Run.among_step (hcompat : Compatible S R G)
    (hok : ∀ tr cfg c e, ok tr cfg (.call c e) → A c cfg.state e)
    (h0 : ∀ c, (init.pool c).Among S c (R c) (A c) (G c) (Q c) init.state)
    (h : Run S ok init tr cfg) {cfg' : Config C Op Reply ε α σ} {c : C} {e : Event Op Reply}
    (hl : Step S cfg (.call c e) cfg') (hstep : ok tr cfg (.call c e)) :
    G c cfg.state e cfg'.state := by
  obtain ⟨s, hs, hR⟩ := h.among hcompat hok h0 c
  cases hl with
  | call hpool hs' =>
      rw [hpool] at hs
      exact (hs _ hR _ _ hs' (hok _ _ _ _ hstep)).1

/-- An invariant that the guarantees keep, and under which they are given. -/
theorem Run.among_inv {I : σ → Prop} (hcompat : Compatible S R G)
    (hA : ∀ c s e, I s → A c s e) (hI : I init.state)
    (hkeep : ∀ c s op r s', I s → S.step c s op r s' → G c s ⟨op, r⟩ s' → I s')
    (henv : ∀ s s', I s → S.env s s' → I s')
    (h0 : ∀ c, (init.pool c).Among S c (R c) (A c) (G c) (Q c) init.state)
    (h : Run S anyStep init tr cfg) :
    Run S (fun _ cfg _ => I cfg.state) init tr cfg ∧ I cfg.state := by
  induction h with
  | nil => exact ⟨.nil, hI⟩
  | snoc _ hl _ ih =>
      refine ⟨.snoc ih.1 hl ih.2, ?_⟩
      cases hl with
      | env he => exact henv _ _ ih.2 he
      | call hpool hs' =>
          exact hkeep _ _ _ _ _ ih.2 hs' (ih.1.among_step hcompat
            (fun _ cfg c e hI => hA c cfg.state e hI) h0 (.call hpool hs') ih.2)

/-- A finished program has kept its word. -/
theorem Run.among_outcome (hcompat : Compatible S R G)
    (hok : ∀ tr cfg c e, ok tr cfg (.call c e) → A c cfg.state e)
    (h0 : ∀ c, (init.pool c).Among S c (R c) (A c) (G c) (Q c) init.state)
    (h : Run S ok init tr cfg) {c : C} {o : Except ε α}
    (ho : (cfg.pool c).outcome = some o) : ∃ s, Q c o s ∧ R c s cfg.state := by
  obtain ⟨s, hs, hR⟩ := h.among hcompat hok h0 c
  refine ⟨s, ?_, hR⟩
  cases hp : cfg.pool c with
  | call op k => simp [hp] at ho
  | ret a =>
      rw [hp] at hs ho
      cases ho
      exact hs
  | raise e =>
      rw [hp] at hs ho
      cases ho
      exact hs

end Runs

end GreenCommunity.Base
