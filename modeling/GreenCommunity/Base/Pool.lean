import GreenCommunity.Base.Prog
import Mathlib.Logic.Function.Basic
import Mathlib.Logic.Relation

/-!
# Many programs, one shared state

A `Sem` says what each operation may reply and how it changes the shared state;
replies that the program cannot predict (a fresh identifier, a scan order) make
it a relation.  `Step` advances one program of a pool by one operation, or lets
the environment move.  A `Run` is a sequence of such steps with the list of its
labels; it carries a guard, a predicate on (labels so far, configuration, label)
that every step of the run satisfies.  The unguarded runs are those with the
trivial guard, and a condition on the steps of a run is a stronger guard.
-/

namespace GreenCommunity.Base

variable {C Op : Type} {Reply : Op → Type} {ε α β σ : Type}

/-- The meaning of the operations over a shared state, for callers `C`. -/
structure Sem (C Op : Type) (Reply : Op → Type) (σ : Type) where
  step : C → σ → (op : Op) → Reply op → σ → Prop
  env : σ → σ → Prop

/-- A shared state and what remains of every caller's program. -/
structure Config (C Op : Type) (Reply : Op → Type) (ε α σ : Type) where
  state : σ
  pool : C → Prog Op Reply ε α

/-- A step is an event of one caller or a move of the environment. -/
inductive Label (C Op : Type) (Reply : Op → Type) where
  | call (c : C) (e : Event Op Reply)
  | env

/-- The events of one caller, in order. -/
def own [DecidableEq C] (c : C) (tr : List (Label C Op Reply)) :
    List (Event Op Reply) :=
  tr.filterMap fun l => match l with
    | .call d e => if d = c then some e else none
    | .env => none

section Own

variable [DecidableEq C]

@[simp] theorem own_nil (c : C) :
    own c ([] : List (Label C Op Reply)) = [] := rfl

@[simp] theorem own_append (c : C) (tr tr' : List (Label C Op Reply)) :
    own c (tr ++ tr') = own c tr ++ own c tr' := by
  simp [own]

@[simp] theorem own_env (c : C) :
    own c ([.env] : List (Label C Op Reply)) = [] := rfl

@[simp] theorem own_call_self (c : C) (e : Event Op Reply) :
    own c [.call c e] = [e] := by
  simp [own]

theorem own_call_ne {c d : C} (h : d ≠ c) (e : Event Op Reply) :
    own c [.call d e] = [] := by
  simp [own, h]

@[simp] theorem own_map_self (c : C) (es : List (Event Op Reply)) :
    own c (es.map (.call c)) = es := by
  simp [own, List.filterMap_map]

theorem own_map_ne {c d : C} (h : d ≠ c) (es : List (Event Op Reply)) :
    own c (es.map (.call d)) = [] := by
  simp [own, h]

theorem mem_own {c : C} {e : Event Op Reply} {tr : List (Label C Op Reply)} :
    e ∈ own c tr ↔ .call c e ∈ tr := by
  simp only [own, List.mem_filterMap]
  constructor
  · rintro ⟨l, hl, he⟩
    cases l with
    | env => simp at he
    | call d f =>
        by_cases hd : d = c
        · simp only [hd, if_true, Option.some.injEq] at he
          rwa [← he, ← hd]
        · simp [hd] at he
  · intro h
    exact ⟨_, h, by simp⟩

theorem mem_own_snoc {c d : C} {e f : Event Op Reply}
    {tr : List (Label C Op Reply)} :
    e ∈ own c (tr ++ [.call d f]) ↔ e ∈ own c tr ∨ (d = c ∧ e = f) := by
  simp only [mem_own, List.mem_append, List.mem_singleton, Label.call.injEq]
  constructor
  · rintro (h | ⟨rfl, rfl⟩)
    · exact Or.inl h
    · exact Or.inr ⟨rfl, rfl⟩
  · rintro (h | ⟨rfl, rfl⟩)
    · exact Or.inl h
    · exact Or.inr ⟨rfl, rfl⟩

end Own

section Runs

variable [DecidableEq C] (S : Sem C Op Reply σ)

/-- One step of the pool. -/
inductive Step : Config C Op Reply ε α σ → Label C Op Reply →
    Config C Op Reply ε α σ → Prop where
  | call {cfg : Config C Op Reply ε α σ} {c : C} {op : Op}
      {k : Reply op → Prog Op Reply ε α} {r : Reply op} {s' : σ}
      (hpool : cfg.pool c = .call op k) (hstep : S.step c cfg.state op r s') :
      Step cfg (.call c ⟨op, r⟩) ⟨s', Function.update cfg.pool c (k r)⟩
  | env {cfg : Config C Op Reply ε α σ} {s' : σ} (h : S.env cfg.state s') :
      Step cfg .env ⟨s', cfg.pool⟩

/-- A guard on steps sees the labels so far, the configuration and the label. -/
abbrev Guard (C Op : Type) (Reply : Op → Type) (ε α σ : Type) :=
  List (Label C Op Reply) → Config C Op Reply ε α σ → Label C Op Reply → Prop

/-- The guard of the unrestricted runs. -/
def anyStep : Guard C Op Reply ε α σ := fun _ _ _ => True

/-- Runs from `init` all of whose steps satisfy the guard. -/
inductive Run (ok : Guard C Op Reply ε α σ) (init : Config C Op Reply ε α σ) :
    List (Label C Op Reply) → Config C Op Reply ε α σ → Prop where
  | nil : Run ok init [] init
  | snoc {tr : List (Label C Op Reply)} {cfg cfg' : Config C Op Reply ε α σ}
      {l : Label C Op Reply} (h : Run ok init tr cfg) (hl : Step S cfg l cfg')
      (hok : ok tr cfg l) : Run ok init (tr ++ [l]) cfg'

variable {S} {ok : Guard C Op Reply ε α σ} {init cfg : Config C Op Reply ε α σ}
  {tr : List (Label C Op Reply)}

/-- A property of (labels, configuration) that holds at the start and is kept by
every step holds throughout the run. -/
theorem Run.inv (I : List (Label C Op Reply) → Config C Op Reply ε α σ → Prop)
    (h0 : I [] init)
    (hs : ∀ tr cfg l cfg', Run S ok init tr cfg → I tr cfg → Step S cfg l cfg' →
      ok tr cfg l → I (tr ++ [l]) cfg')
    (h : Run S ok init tr cfg) : I tr cfg := by
  induction h with
  | nil => exact h0
  | snoc h hl hok ih => exact hs _ _ _ _ h ih hl hok

/-- Weakening the guard. -/
theorem Run.mono {ok' : Guard C Op Reply ε α σ}
    (hw : ∀ tr cfg l, ok tr cfg l → ok' tr cfg l) (h : Run S ok init tr cfg) :
    Run S ok' init tr cfg := by
  induction h with
  | nil => exact .nil
  | snoc _ hl hok ih => exact .snoc ih hl (hw _ _ _ hok)

/-- A run that goes on. -/
theorem Run.append {mid : Config C Op Reply ε α σ} {tr' : List (Label C Op Reply)}
    (h : Run S anyStep init tr mid) (h' : Run S anyStep mid tr' cfg) :
    Run S anyStep init (tr ++ tr') cfg := by
  induction h' with
  | nil => rwa [List.append_nil]
  | snoc _ hl _ ih =>
      rw [← List.append_assoc]
      exact .snoc ih hl trivial

/-- Where a guard says exactly which steps keep a property, the runs that the guard
admits are the runs through the property. -/
theorem Run.always_iff (I : List (Label C Op Reply) → Config C Op Reply ε α σ → Prop)
    (h0 : I [] init)
    (hs : ∀ tr cfg l cfg', Run S anyStep init tr cfg → I tr cfg → Step S cfg l cfg' →
      (I (tr ++ [l]) cfg' ↔ ok tr cfg l)) :
    Run S (fun tr cfg _ => I tr cfg) init tr cfg ∧ I tr cfg ↔ Run S ok init tr cfg := by
  constructor
  · rintro ⟨h, hend⟩
    induction h with
    | nil => exact .nil
    | snoc hrun hl hI ih =>
        exact .snoc (ih hI) hl
          ((hs _ _ _ _ (hrun.mono fun _ _ _ _ => trivial) hI hl).mp hend)
  · intro h
    induction h with
    | nil => exact ⟨.nil, h0⟩
    | snoc hrun hl hok ih =>
        exact ⟨.snoc ih.1 hl ih.2,
          (hs _ _ _ _ (hrun.mono fun _ _ _ _ => trivial) ih.2 hl).mpr hok⟩

/-- Two guards admit the same runs if they agree wherever an invariant holds that they
keep. -/
theorem Run.guard_iff {ok' : Guard C Op Reply ε α σ}
    (I : List (Label C Op Reply) → Config C Op Reply ε α σ → Prop) (h0 : I [] init)
    (hs : ∀ tr cfg l cfg', Run S anyStep init tr cfg → I tr cfg → Step S cfg l cfg' →
      (ok tr cfg l ↔ ok' tr cfg l) ∧ (ok tr cfg l → I (tr ++ [l]) cfg')) :
    Run S ok init tr cfg ↔ Run S ok' init tr cfg := by
  have hboth : ∀ {ok₁ ok₂ : Guard C Op Reply ε α σ},
      (∀ tr cfg l cfg', Run S anyStep init tr cfg → I tr cfg → Step S cfg l cfg' →
        ok₁ tr cfg l → ok₂ tr cfg l ∧ I (tr ++ [l]) cfg') →
      Run S ok₁ init tr cfg → Run S ok₂ init tr cfg ∧ I tr cfg := by
    intro ok₁ ok₂ hstep h
    induction h with
    | nil => exact ⟨.nil, h0⟩
    | snoc hrun hl hok ih =>
        obtain ⟨hok', hI⟩ := hstep _ _ _ _ (hrun.mono fun _ _ _ _ => trivial) ih.2 hl hok
        exact ⟨.snoc ih.1 hl hok', hI⟩
  constructor
  · exact fun h => (hboth (fun tr cfg l cfg' hrun hI hl hok =>
      ⟨(hs tr cfg l cfg' hrun hI hl).1.mp hok, (hs tr cfg l cfg' hrun hI hl).2 hok⟩) h).1
  · exact fun h => (hboth (fun tr cfg l cfg' hrun hI hl hok =>
      have hok' := (hs tr cfg l cfg' hrun hI hl).1.mpr hok
      ⟨hok', (hs tr cfg l cfg' hrun hI hl).2 hok'⟩) h).1

/-- A condition on the labels of a run is a guard of it. -/
theorem Run.labels {X : Label C Op Reply → Prop} (h : Run S ok init tr cfg)
    (hX : ∀ l ∈ tr, X l) : Run S (fun tr cfg l => ok tr cfg l ∧ X l) init tr cfg := by
  induction h with
  | nil => exact .nil
  | snoc _ hl hok ih =>
      exact .snoc (ih fun l hmem => hX l (List.mem_append_left _ hmem)) hl
        ⟨hok, hX _ (by simp)⟩

/-- A condition that holds at every step of an unrestricted run is a guard of it. -/
theorem Run.guarded (h : Run S anyStep init tr cfg)
    (hok : ∀ tr₁ l tr₂ cfg₁, tr = tr₁ ++ l :: tr₂ → Run S anyStep init tr₁ cfg₁ →
      ok tr₁ cfg₁ l) : Run S ok init tr cfg := by
  induction h with
  | nil => exact .nil
  | @snoc tr cfg cfg' l hrun hl _ ih =>
      refine .snoc (ih fun tr₁ l₁ tr₂ cfg₁ htr => hok tr₁ l₁ (tr₂ ++ [l]) cfg₁ ?_) hl
        (hok tr l [] cfg rfl hrun)
      rw [htr, List.append_assoc, List.cons_append]

/-- The run up to a label, and the step at that label. -/
theorem Run.split {tr₁ tr₂ : List (Label C Op Reply)} {l : Label C Op Reply}
    (h : Run S ok init tr cfg) (htr : tr = tr₁ ++ l :: tr₂) :
    ∃ cfg₁ cfg₂, Run S ok init tr₁ cfg₁ ∧ Step S cfg₁ l cfg₂ ∧ ok tr₁ cfg₁ l := by
  induction h generalizing tr₂ with
  | nil => simp at htr
  | @snoc tr cfg cfg' l' hrun hl hok ih =>
      rcases List.eq_nil_or_concat tr₂ with rfl | ⟨tr₃, l₃, rfl⟩
      · obtain ⟨rfl, hll⟩ := List.append_inj' htr rfl
        cases hll
        exact ⟨cfg, cfg', hrun, hl, hok⟩
      · rw [List.concat_eq_append, ← List.cons_append, ← List.append_assoc] at htr
        exact ih (List.append_inj' htr rfl).1

/-- What a logic proof about every program of the pool says about a run: the
remaining programs still satisfy it after their own events. -/
theorem Run.hist {Q : C → List (Event Op Reply) → Event Op Reply → Prop}
    {R : C → List (Event Op Reply) → Except ε α → Prop}
    (h : Run S ok init tr cfg)
    (h0 : ∀ c, (init.pool c).Hist (Q c) (R c) []) :
    ∀ c, (cfg.pool c).Hist (Q c) (R c) (own c tr) := by
  refine Run.inv (fun tr cfg => ∀ c, (cfg.pool c).Hist (Q c) (R c) (own c tr))
    h0 ?_ h
  intro tr cfg l cfg' _ ih hl _ c
  cases hl with
  | env _ => simpa using ih c
  | @call d op k r s' hpool _ =>
      by_cases hd : d = c
      · subst hd
        have hc := ih d
        rw [hpool] at hc
        simpa using (hc r).2
      · rw [own_append, own_call_ne hd, List.append_nil]
        simpa [Function.update_of_ne (Ne.symm hd)] using ih c

/-- The event a caller issues is admitted by the logic after its own events. -/
theorem Run.hist_step {Q : C → List (Event Op Reply) → Event Op Reply → Prop}
    {R : C → List (Event Op Reply) → Except ε α → Prop} {c : C}
    {e : Event Op Reply} {cfg' : Config C Op Reply ε α σ}
    (h : Run S ok init tr cfg) (h0 : ∀ c, (init.pool c).Hist (Q c) (R c) [])
    (hl : Step S cfg (.call c e) cfg') : Q c (own c tr) e := by
  have hc := h.hist h0 c
  cases hl with
  | call hpool _ =>
      rw [hpool] at hc
      exact (hc _).1

/-- What the events that the logic admits keep of a caller's own events holds throughout. -/
theorem Run.own_inv {P : C → List (Event Op Reply) → Prop}
    {Q : C → List (Event Op Reply) → Event Op Reply → Prop}
    {R : C → List (Event Op Reply) → Except ε α → Prop}
    (h : Run S ok init tr cfg) (h0 : ∀ c, (init.pool c).Hist (Q c) (R c) [])
    (hnil : ∀ c, P c []) (hP : ∀ c past e, P c past → Q c past e → P c (past ++ [e])) (c : C) :
    P c (own c tr) := by
  refine Run.inv (fun tr _ => P c (own c tr)) (hnil c) ?_ h
  intro tr cfg l cfg' hrun ih hl _
  cases l with
  | env => simpa using ih
  | call c' e =>
      by_cases hc : c' = c
      · subst hc
        rw [own_append, own_call_self]
        exact hP c' _ e ih (hrun.hist_step h0 hl)
      · rw [own_append, own_call_ne hc, List.append_nil]
        exact ih

/-- The result of a finished program satisfies its post-condition. -/
theorem Run.hist_outcome {Q : C → List (Event Op Reply) → Event Op Reply → Prop}
    {R : C → List (Event Op Reply) → Except ε α → Prop} {c : C} {o : Except ε α}
    (h : Run S ok init tr cfg) (h0 : ∀ c, (init.pool c).Hist (Q c) (R c) [])
    (ho : (cfg.pool c).outcome = some o) : R c (own c tr) o := by
  have hc := h.hist h0 c
  cases hp : cfg.pool c with
  | ret a =>
      rw [hp] at hc ho
      simp only [Prog.outcome_ret, Option.some.injEq] at ho
      subst ho
      exact hc
  | raise e =>
      rw [hp] at hc ho
      simp only [Prog.outcome_raise, Option.some.injEq] at ho
      subst ho
      exact hc
  | call op k => simp [hp] at ho

theorem ne_of_own_nil {c d : C} {e : Event Op Reply} (h : own c [.call d e] = []) : c ≠ d := by
  rintro rfl
  rw [own_call_self] at h
  cases h

/-- What only the steps of `c` change is as it was while `c` has no events. -/
theorem Run.unchanged {τ : Type} {f : Config C Op Reply ε α σ → τ} {c : C}
    (hf : ∀ cfg l cfg', Step S cfg l cfg' → own c [l] = [] → f cfg' = f cfg)
    (h : Run S ok init tr cfg) (hown : own c tr = []) : f cfg = f init := by
  induction h with
  | nil => rfl
  | snoc _ hl _ ih =>
      rw [own_append, List.append_eq_nil_iff] at hown
      exact (hf _ _ _ hl hown.2).trans (ih hown.1)

/-- A caller without events has not begun. -/
theorem Run.unbegun {c : C} (h : Run S ok init tr cfg) (hown : own c tr = []) :
    cfg.pool c = init.pool c := by
  refine h.unchanged (f := fun cfg => cfg.pool c) (fun cfg l cfg' hl hnone => ?_) hown
  cases hl with
  | env _ => rfl
  | call _ _ => exact Function.update_of_ne (ne_of_own_nil hnone) ..

/-- What is left of programs whose operations are all alike. -/
theorem Run.every {P : C → Op → Prop} (h : Run S ok init tr cfg)
    (h0 : ∀ c, (init.pool c).Every (P c)) : ∀ c, (cfg.pool c).Every (P c) := by
  induction h with
  | nil => exact h0
  | snoc _ hl _ ih =>
      cases hl with
      | env _ => exact ih
      | @call d op k r s' hpool _ =>
          intro c
          by_cases hc : c = d
          · subst hc
            have hall := ih c
            rw [hpool] at hall
            simpa using hall.2 r
          · simpa [Function.update_of_ne hc] using ih c

/-- The next operation is one of them. -/
theorem Step.every {P : Op → Prop} {cfg' : Config C Op Reply ε α σ} {c : C}
    {e : Event Op Reply} (hl : Step S cfg (.call c e) cfg') (h : (cfg.pool c).Every P) :
    P e.op := by
  cases hl with
  | call hpool _ =>
      rw [hpool] at h
      exact h.1

end Runs

/-! ## Runs from traces

A pool run is an interleaving of its programs' traces over a chain of states;
the two sides can be established separately. -/

/-- `p.Runs es q`: with the replies in `es`, the program `p` becomes `q`. -/
inductive Prog.Runs : Prog Op Reply ε α → List (Event Op Reply) →
    Prog Op Reply ε α → Prop where
  | nil {p : Prog Op Reply ε α} : Prog.Runs p [] p
  | cons {op : Op} {k : Reply op → Prog Op Reply ε α} {r : Reply op}
      {es : List (Event Op Reply)} {q : Prog Op Reply ε α}
      (h : Prog.Runs (k r) es q) : Prog.Runs (.call op k) (⟨op, r⟩ :: es) q

/-- A trace that begins with an operation of the program. -/
theorem Prog.exists_runs_cons {op : Op} {k : Reply op → Prog Op Reply ε α} {r : Reply op}
    {es : List (Event Op Reply)} (h : ∃ q, (k r).Runs es q) :
    ∃ q, (Prog.call op k).Runs (⟨op, r⟩ :: es) q := by
  obtain ⟨q, hq⟩ := h
  exact ⟨q, .cons hq⟩

theorem Prog.Runs.bind {p : Prog Op Reply ε α} {es es' : List (Event Op Reply)}
    {a : α} {f : α → Prog Op Reply ε β} {q : Prog Op Reply ε β}
    (h : p.Runs es (.ret a)) (h' : (f a).Runs es' q) : (p >>= f).Runs (es ++ es') q := by
  generalize hret : Prog.ret a = r at h
  induction h with
  | nil => subst hret; exact h'
  | cons _ ih => exact .cons (ih hret)

theorem Prog.Runs.append {p q q' : Prog Op Reply ε α} {es es' : List (Event Op Reply)}
    (h : p.Runs es q) (h' : q.Runs es' q') : p.Runs (es ++ es') q' := by
  induction h with
  | nil => exact h'
  | cons _ ih => exact .cons (ih h')

theorem Prog.Runs.bind_left {p q : Prog Op Reply ε α} {es : List (Event Op Reply)}
    (h : p.Runs es q) (f : α → Prog Op Reply ε β) : (p >>= f).Runs es (q >>= f) := by
  induction h with
  | nil => exact .nil
  | cons _ ih => exact .cons ih

theorem Prog.Runs.handle {p q : Prog Op Reply ε α} {es : List (Event Op Reply)}
    (h : p.Runs es q) (f : ε → Prog Op Reply ε α) :
    (p.handle f).Runs es (q.handle f) := by
  induction h with
  | nil => exact .nil
  | cons _ ih => exact .cons ih

/-- Mapping the result keeps the trace of a program that raises. -/
theorem Prog.Runs.map_raise (g : α → β) {p : Prog Op Reply ε α} {es : List (Event Op Reply)}
    {e : ε} (h : p.Runs es (.raise e)) : (g <$> p).Runs es (.raise e) := by
  generalize hq : Prog.raise e = q at h
  induction h with
  | nil => subst hq; exact .nil
  | cons _ ih => exact .cons (ih hq)

/-- States linked by labelled steps. -/
inductive Chain (S : Sem C Op Reply σ) : σ → List (Label C Op Reply) → σ → Prop where
  | nil {s : σ} : Chain S s [] s
  | call {s s₁ s₂ : σ} {c : C} {op : Op} {r : Reply op} {tr : List (Label C Op Reply)}
      (h : S.step c s op r s₁) (hc : Chain S s₁ tr s₂) :
      Chain S s (.call c ⟨op, r⟩ :: tr) s₂
  | env {s s₁ s₂ : σ} {tr : List (Label C Op Reply)}
      (h : S.env s s₁) (hc : Chain S s₁ tr s₂) : Chain S s (.env :: tr) s₂

theorem Chain.append {S : Sem C Op Reply σ} {s s₁ s₂ : σ}
    {tr tr' : List (Label C Op Reply)} (h : Chain S s tr s₁) (h' : Chain S s₁ tr' s₂) :
    Chain S s (tr ++ tr') s₂ := by
  induction h with
  | nil => exact h'
  | call hs _ ih => exact .call hs (ih h')
  | env hs _ ih => exact .env hs (ih h')

theorem chain_cons {S : Sem C Op Reply σ} {s s' : σ} {c : C} {e : Event Op Reply}
    {tr : List (Label C Op Reply)} :
    Chain S s (.call c e :: tr) s' ↔
      ∃ s₁, S.step c s e.op e.reply s₁ ∧ Chain S s₁ tr s' := by
  constructor
  · intro h
    cases h with
    | call h hc => exact ⟨_, h, hc⟩
  · rintro ⟨s₁, h, hc⟩
    exact .call h hc

theorem chain_nil {S : Sem C Op Reply σ} {s s' : σ} : Chain S s [] s' ↔ s' = s := by
  constructor
  · intro h
    cases h
    rfl
  · rintro rfl
    exact .nil

theorem chain_append {S : Sem C Op Reply σ} {s s' : σ} {tr tr' : List (Label C Op Reply)} :
    Chain S s (tr ++ tr') s' ↔ ∃ s₁, Chain S s tr s₁ ∧ Chain S s₁ tr' s' := by
  constructor
  · intro h
    induction tr generalizing s with
    | nil => exact ⟨s, .nil, h⟩
    | cons l tr ih =>
        cases h with
        | call hs hc =>
            obtain ⟨s₁, h₁, h₂⟩ := ih hc
            exact ⟨s₁, .call hs h₁, h₂⟩
        | env hs hc =>
            obtain ⟨s₁, h₁, h₂⟩ := ih hc
            exact ⟨s₁, .env hs h₁, h₂⟩
  · rintro ⟨s₁, h₁, h₂⟩
    exact h₁.append h₂

/-- A chain of calls does not depend on the environment. -/
theorem Chain.calls {S T : Sem C Op Reply σ} (hstep : S.step = T.step) {c : C}
    {es : List (Event Op Reply)} :
    ∀ {s s' : σ}, Chain S s (es.map (.call c)) s' → Chain T s (es.map (.call c)) s' := by
  induction es with
  | nil =>
      intro s s' h
      exact chain_nil.mpr (chain_nil.mp h)
  | cons e es ih =>
      intro s s' h
      obtain ⟨s₁, hs, hrest⟩ := chain_cons.mp h
      exact chain_cons.mpr ⟨s₁, hstep ▸ hs, ih hrest⟩

section Chains

variable [DecidableEq C] {S : Sem C Op Reply σ}

theorem Run.cons {init init' cfg : Config C Op Reply ε α σ} {l : Label C Op Reply}
    {tr : List (Label C Op Reply)} (hl : Step S init l init')
    (h : Run S anyStep init' tr cfg) : Run S anyStep init (l :: tr) cfg := by
  induction h with
  | nil => exact .snoc .nil hl trivial
  | snoc _ hl' _ ih => exact .snoc ih hl' trivial

/-- The states of a run are linked by its labels. -/
theorem Run.chain {ok : Guard C Op Reply ε α σ} {init cfg : Config C Op Reply ε α σ}
    {tr : List (Label C Op Reply)} (h : Run S ok init tr cfg) :
    Chain S init.state tr cfg.state := by
  induction h with
  | nil => exact .nil
  | snoc _ hl _ ih =>
      cases hl with
      | call _ hstep => exact ih.append (.call hstep .nil)
      | env henv => exact ih.append (.env henv .nil)

theorem Run.of_chain {s s' : σ} {tr : List (Label C Op Reply)} (hc : Chain S s tr s') :
    ∀ {p q : C → Prog Op Reply ε α}, (∀ c, (p c).Runs (own c tr) (q c)) →
      Run S anyStep ⟨s, p⟩ tr ⟨s', q⟩ := by
  induction hc with
  | nil =>
      intro p q h
      have hpq : p = q := by
        funext c
        have hnil := h c
        rw [own_nil] at hnil
        generalize p c = pc, q c = qc at hnil
        cases hnil
        rfl
      exact hpq ▸ .nil
  | env henv _ ih => intro p q h; exact .cons (.env henv) (ih h)
  | @call s s₁ s₂ c op r tr hstep _ ih =>
      intro p q h
      have hown : ∀ d, own d (.call c ⟨op, r⟩ :: tr) = own d [.call c ⟨op, r⟩] ++ own d tr :=
        fun d => own_append d [_] tr
      have hc := h c
      rw [hown, own_call_self] at hc
      generalize hp : p c = pc at hc
      cases hc with
      | @cons _ k _ _ _ hk =>
          refine .cons (.call hp hstep) (ih fun d => ?_)
          by_cases hd : c = d
          · subst hd
            simpa using hk
          · have hd' := h d
            rw [hown, own_call_ne hd, List.nil_append] at hd'
            simpa [Function.update_of_ne (Ne.symm hd)] using hd'

end Chains

end GreenCommunity.Base
