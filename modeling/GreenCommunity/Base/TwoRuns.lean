import GreenCommunity.Base.Serial
import Mathlib.Data.List.Forall2

/-!
# Two runs side by side

A two-run statement compares executions of two programs from states that an
observer takes for the same: `I` relates such states and `M` the states that
events at the same position of the two executions meet, by which the two runs can
be given the same schedule.  `FailAlike` says that two programs, where both fail,
fail with the same exception and leave states that are again taken for the same.
It is proved by walking down both programs at once, with one rule for a step of
both; what a program does on the way to success is never compared.
-/

namespace GreenCommunity.Base

variable {C Op : Type} {Reply : Op → Type} {ε α β σ Q : Type}

/-- Events at the same position met related states. -/
def Matched (M : σ → σ → Prop) (evs evs' : List (σ × Event Op Reply)) : Prop :=
  ∀ (i : Nat) (x y : σ × Event Op Reply), evs[i]? = some x → evs'[i]? = some y → M x.1 y.1

theorem matched_cons {M : σ → σ → Prop} {x y : σ × Event Op Reply}
    {evs evs' : List (σ × Event Op Reply)} :
    Matched M (x :: evs) (y :: evs') ↔ M x.1 y.1 ∧ Matched M evs evs' := by
  constructor
  · intro h
    exact ⟨h 0 x y rfl rfl, fun i a b ha hb => h (i + 1) a b ha hb⟩
  · rintro ⟨hxy, h⟩ i a b ha hb
    cases i with
    | zero =>
        cases ha
        cases hb
        exact hxy
    | succ i => exact h i a b ha hb

section FailAlike

variable (S : Sem C Op Reply σ) (c : C) (I M : σ → σ → Prop)

/-- Where both programs fail, on matched schedules and from related states, they
fail alike. -/
def FailAlike (p p' : Prog Op Reply ε α) : Prop :=
  ∀ ⦃s t s' t' : σ⦄ ⦃evs evs' : List (σ × Event Op Reply)⦄ ⦃e e' : ε⦄, I s t →
    Exec S c s p evs (some (.error e)) s' → Exec S c t p' evs' (some (.error e')) t' →
    Matched M evs evs' → e = e' ∧ I s' t'

variable {S c I M}

theorem failAlike_raise (e : ε) : FailAlike (α := α) S c I M (.raise e) (.raise e) := by
  intro s t s' t' evs evs' e₁ e₂ hI h h' _
  obtain ⟨_, he, rfl⟩ := exec_raise.mp h
  obtain ⟨_, he', rfl⟩ := exec_raise.mp h'
  cases he
  cases he'
  exact ⟨rfl, hI⟩

/-- A program that never fails. -/
def NeverFails (p : Prog Op Reply ε α) : Prop :=
  p.Hist (fun _ _ => True) (fun _ o => ∃ a, o = .ok a) []

private theorem NeverFails.no_error {p : Prog Op Reply ε α} (hp : NeverFails p) {s s' : σ}
    {evs : List (σ × Event Op Reply)} {e : ε} :
    ¬ Exec S c s p evs (some (.error e)) s' := by
  intro h
  obtain ⟨a, ha⟩ := h.post hp
  cases ha

theorem failAlike_of_left {p : Prog Op Reply ε α} (hp : NeverFails p)
    (p' : Prog Op Reply ε α) : FailAlike S c I M p p' :=
  fun _ _ _ _ _ _ _ _ _ h _ _ => absurd h hp.no_error

theorem failAlike_of_right (p : Prog Op Reply ε α) {p' : Prog Op Reply ε α}
    (hp : NeverFails p') : FailAlike S c I M p p' :=
  fun _ _ _ _ _ _ _ _ _ _ h' _ => absurd h' hp.no_error

/-- One operation of each program. -/
theorem failAlike_call {op op' : Op} {k : Reply op → Prog Op Reply ε α}
    {k' : Reply op' → Prog Op Reply ε α}
    (h : ∀ s t s₀ t₀ r r' s₁ t₁, I s t → S.env s s₀ → S.env t t₀ → M s₀ t₀ →
      S.step c s₀ op r s₁ → S.step c t₀ op' r' t₁ →
      I s₁ t₁ ∧ FailAlike S c I M (k r) (k' r')) :
    FailAlike S c I M (.call op k) (.call op' k') := by
  intro s t s' t' evs evs' e e' hI hx hx' hM
  obtain ⟨s₀, r, s₁, rest, henv, hstep, hk, rfl⟩ := exec_call.mp hx
  obtain ⟨t₀, r', t₁, rest', henv', hstep', hk', rfl⟩ := exec_call.mp hx'
  obtain ⟨hM₀, hMrest⟩ := matched_cons.mp hM
  obtain ⟨hI₁, halike⟩ := h _ _ _ _ _ _ _ _ hI henv henv' hM₀ hstep hstep'
  exact halike hI₁ hk hk' hMrest

/-- Mapping the result does not change how a program fails. Induction on the program. -/
private theorem exec_map_error (g : α → β) {p : Prog Op Reply ε α} {e : ε} {s s' : σ}
    {evs : List (σ × Event Op Reply)} (h : Exec S c s (g <$> p) evs (some (.error e)) s') :
    Exec S c s p evs (some (.error e)) s' := by
  induction p generalizing s evs with
  | ret a => exact absurd (exec_ret.mp h).2.1 (by simp)
  | raise e' =>
      obtain ⟨rfl, he, rfl⟩ := exec_raise.mp h
      cases he
      exact exec_raise.mpr ⟨rfl, rfl, rfl⟩
  | call op k ih =>
      obtain ⟨s₀, r, s₁, rest, henv, hstep, hk, rfl⟩ := exec_call.mp h
      exact .call henv hstep (ih r hk)

theorem failAlike_map (g : α → β) {p p' : Prog Op Reply ε α} (h : FailAlike S c I M p p') :
    FailAlike S c I M (g <$> p) (g <$> p') :=
  fun _ _ _ _ _ _ _ _ hI hx hx' hM => h hI (exec_map_error g hx) (exec_map_error g hx') hM

end FailAlike

/-! ## Sequences of failing requests -/

/-- The same request on a matched schedule, failing in both runs. -/
structure BothFail (M : σ → σ → Prop) (x y : Served Q Op Reply ε α σ) : Prop where
  req : x.req = y.req
  matched : Matched M x.events y.events
  left : ∃ e, x.outcome = .error e
  right : ∃ e, y.outcome = .error e

private theorem forall₂_concat {α β : Type} {R : α → β → Prop} {xs : List α} {ys : List β}
    {x : α} {y : β} (h : List.Forall₂ R (xs ++ [x]) (ys ++ [y])) :
    List.Forall₂ R xs ys ∧ R x y := by
  rw [← List.forall₂_reverse_iff, List.reverse_append, List.reverse_append] at h
  obtain ⟨hxy, hrest⟩ := List.forall₂_cons.mp h
  exact ⟨List.forall₂_reverse_iff.mp hrest, hxy⟩

/-- Requests that fail alike one by one fail alike in sequence. Induction on the
first run; the second is taken apart at its last request. -/
theorem Serial.fail_alike {S : Sem C Op Reply σ} {c : C} {I M : σ → σ → Prop}
    {pause : σ → σ → Prop} {prog : Q → Prog Op Reply ε α}
    (hleft : ∀ {s t s'}, I s t → pause s s' → I s' t)
    (hright : ∀ {s t t'}, I s t → pause t t' → I s t') {asked : Q → Prop}
    (hprog : ∀ q, asked q → FailAlike S c I M (prog q) (prog q)) {s t s' t' : σ}
    {log log' : List (Served Q Op Reply ε α σ)} (hI : I s t)
    (h : Serial S c pause prog s log s') (h' : Serial S c pause prog t log' t')
    (hlog : List.Forall₂ (BothFail M) log log') (hasked : ∀ x ∈ log, asked x.req) :
    log.map Served.outcome = log'.map Served.outcome ∧ I s' t' := by
  induction h generalizing log' t' with
  | nil =>
      cases hlog
      generalize hnil : ([] : List (Served Q Op Reply ε α σ)) = log' at h'
      induction h' with
      | nil => exact ⟨rfl, hI⟩
      | pause _ hp ih =>
          obtain ⟨hout, hI'⟩ := ih hnil
          exact ⟨hout, hright hI' hp⟩
      | serve => simp at hnil
  | pause _ hp ih =>
      obtain ⟨hout, hI'⟩ := ih h' hlog hasked
      exact ⟨hout, hleft hI' hp⟩
  | @serve log s₁ s₂ q evs o _ hx ih =>
      generalize hlast : log ++ [(⟨q, s₁, evs, o⟩ : Served Q Op Reply ε α σ)] = whole at hlog
      induction h' with
      | nil =>
          cases hlog
          simp at hlast
      | pause _ hp ih' =>
          obtain ⟨hout, hI'⟩ := ih' hlog
          exact ⟨hout, hright hI' hp⟩
      | @serve log' t₁ t₂ q' evs' o' hrest hx' _ =>
          subst hlast
          obtain ⟨hinit, hboth⟩ := forall₂_concat hlog
          obtain ⟨hout, hI'⟩ := ih hrest hinit fun x hmem =>
            hasked x (List.mem_append_left _ hmem)
          have hq : asked q := hasked _ (List.mem_append_right _ List.mem_cons_self)
          obtain ⟨hreq, hmatched, ⟨e, he⟩, ⟨e', he'⟩⟩ := hboth
          simp only at hreq he he' hmatched
          subst hreq he he'
          obtain ⟨rfl, hI''⟩ := hprog q hq hI' hx hx' hmatched
          exact ⟨by rw [List.map_append, List.map_append, hout]; rfl, hI''⟩

end GreenCommunity.Base
