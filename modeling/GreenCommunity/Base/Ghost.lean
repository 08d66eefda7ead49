import GreenCommunity.Base.Rely

/-!
# Records of a program's own events

What a program has done may be summed up in a record `x : τ` that only its own events
change, by `next`.  Such a record is the state of a semantics without any other callers,
so that the rules of `Among` speak about it: `p.Records A G next Q x` says that, as long as
the events of `p` meet the assumption `A`, they keep the guarantee `G`, and the outcome and
the record in the end are accepted by `Q`.  In a pool the record of every caller is that of
its own events.
-/

namespace GreenCommunity.Base

variable {C Op : Type} {Reply : Op → Type} {ε α β σ τ : Type}

/-- Every event only changes the record. -/
def ghost (next : τ → Event Op Reply → τ) : Sem Unit Op Reply τ where
  step _ x op r x' := x' = next x ⟨op, r⟩
  env x x' := x' = x

namespace Prog

variable (A G : τ → Event Op Reply → Prop) (next : τ → Event Op Reply → τ)

abbrev Records (p : Prog Op Reply ε α) (Q : Except ε α → τ → Prop) (x : τ) : Prop :=
  p.Among (ghost next) () (fun x x' => x' = x) A (fun x e _ => G x e) Q x

variable {A G next} {Q : Except ε α → τ → Prop} {x : τ}

theorem records_call (op : Op) (k : Reply op → Prog Op Reply ε α) :
    (call op k).Records A G next Q x ↔
      ∀ r, A x ⟨op, r⟩ → G x ⟨op, r⟩ ∧ (k r).Records A G next Q (next x ⟨op, r⟩) := by
  constructor
  · exact fun h r hA => h x rfl r _ rfl hA
  · rintro h _ rfl r _ rfl hA
    exact h r hA

theorem Records.imp {Q' : Except ε α → τ → Prop} {p : Prog Op Reply ε α}
    (h : p.Records A G next Q x) (hQ : ∀ o x, Q o x → Q' o x) : p.Records A G next Q' x :=
  Among.imp hQ h

/-- A program whose operations are always good and keep a property of the record. -/
theorem Every.records {P : Op → Prop} {p : Prog Op Reply ε α} (h : p.Every P)
    {K : τ → Prop} (hG : ∀ x op r, P op → K x → A x ⟨op, r⟩ → G x ⟨op, r⟩ ∧ K (next x ⟨op, r⟩)) :
    ∀ {x : τ}, K x → p.Records A G next (fun _ x' => K x') x := by
  induction p with
  | ret a => exact fun hx => hx
  | raise e => exact fun hx => hx
  | call op k ih =>
      intro x hx
      refine (records_call op k).mpr fun r hA => ?_
      obtain ⟨hg, hK⟩ := hG x op r h.1 hx hA
      exact ⟨hg, ih r (h.2 r) hK⟩

end Prog

section Runs

open Prog

variable [DecidableEq C] {S : Sem C Op Reply σ} {ok : Guard C Op Reply ε α σ}
  {init cfg : Config C Op Reply ε α σ} {tr : List (Label C Op Reply)}
  {A : C → τ → Event Op Reply → Prop} {G : τ → Event Op Reply → Prop}
  {next : τ → Event Op Reply → τ}
  {Q : C → Except ε α → τ → Prop} {x₀ : τ}

/-- The record of a caller in a run. -/
abbrev recorded (next : τ → Event Op Reply → τ) (x₀ : τ) (c : C)
    (tr : List (Label C Op Reply)) : τ :=
  (own c tr).foldl next x₀

/-- One step of a pool of programs that are in their proofs. -/
private theorem records_step {l : Label C Op Reply} {cfg' : Config C Op Reply ε α σ}
    (h : ∀ c, (cfg.pool c).Records (A c) G next (Q c) (recorded next x₀ c tr))
    (hl : Step S cfg l cfg') (hA : ∀ c e, l = .call c e → A c (recorded next x₀ c tr) e) :
    (∀ c e, l = .call c e → G (recorded next x₀ c tr) e) ∧
      ∀ c, (cfg'.pool c).Records (A c) G next (Q c) (recorded next x₀ c (tr ++ [l])) := by
  cases hl with
  | env _ => exact ⟨nofun, fun c => by simpa [recorded] using h c⟩
  | @call d op k r s' hpool _ =>
      have hd := h d
      rw [hpool] at hd
      obtain ⟨hG, hnext⟩ := (records_call op k).mp hd r (hA d _ rfl)
      refine ⟨?_, fun c => ?_⟩
      · rintro _ _ ⟨⟩
        exact hG
      · by_cases hcd : c = d
        · subst hcd
          simpa [recorded, List.foldl_append] using hnext
        · simpa [recorded, own_call_ne (Ne.symm hcd), Function.update_of_ne hcd] using h c

/-- At any time of a run every program is somewhere in its proof, with the record of its
own events. -/
theorem Run.records
    (hok : ∀ tr cfg c e, ok tr cfg (.call c e) → A c (recorded next x₀ c tr) e)
    (h0 : ∀ c, (init.pool c).Records (A c) G next (Q c) x₀) (h : Run S ok init tr cfg) (c : C) :
    (cfg.pool c).Records (A c) G next (Q c) (recorded next x₀ c tr) := by
  induction h generalizing c with
  | nil => exact h0 c
  | snoc _ hl hstep ih =>
      exact (records_step ih hl fun c e he => hok _ _ c e (he ▸ hstep)).2 c

/-- An invariant under which the programs get what they assume, and which their
guarantees keep. -/
theorem Run.records_inv {I : List (Label C Op Reply) → Config C Op Reply ε α σ → Prop}
    (hI : I [] init)
    (hA : ∀ tr cfg c e cfg', I tr cfg → Step S cfg (.call c e) cfg' →
      A c (recorded next x₀ c tr) e)
    (hkeep : ∀ tr cfg l cfg', I tr cfg → Step S cfg l cfg' →
      (∀ c e, l = .call c e → G (recorded next x₀ c tr) e) → I (tr ++ [l]) cfg')
    (h0 : ∀ c, (init.pool c).Records (A c) G next (Q c) x₀) (h : Run S ok init tr cfg) :
    I tr cfg ∧ ∀ c, (cfg.pool c).Records (A c) G next (Q c) (recorded next x₀ c tr) := by
  induction h with
  | nil => exact ⟨hI, h0⟩
  | snoc _ hl _ ih =>
      obtain ⟨hG, hnext⟩ := records_step ih.2 hl fun c e he => hA _ _ c e _ ih.1 (he ▸ hl)
      exact ⟨hkeep _ _ _ _ ih.1 hl hG, hnext⟩

/-- What is known of a program that has ended. -/
theorem Prog.Records.ended {A : τ → Event Op Reply → Prop} {p : Prog Op Reply ε α}
    {Q : Except ε α → τ → Prop} {x : τ} (h : p.Records A G next Q x) {o : Except ε α}
    (ho : p.outcome = some o) : Q o x := by
  cases p with
  | call op k => simp at ho
  | ret a | raise e =>
      cases ho
      exact h

theorem Run.records_outcome
    (hok : ∀ tr cfg c e, ok tr cfg (.call c e) → A c (recorded next x₀ c tr) e)
    (h0 : ∀ c, (init.pool c).Records (A c) G next (Q c) x₀) (h : Run S ok init tr cfg) {c : C}
    {o : Except ε α} (ho : (cfg.pool c).outcome = some o) : Q c o (recorded next x₀ c tr) :=
  (h.records hok h0 c).ended ho

end Runs

end GreenCommunity.Base
