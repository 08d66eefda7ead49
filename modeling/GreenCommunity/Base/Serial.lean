import GreenCommunity.Base.Pool

/-!
# Programs that run one at a time

`Exec` is the meaning of one program that has the shared state to itself; the
environment may move before each of its operations, which is how time passes
during a request.  An execution may also stop before the program has ended, so
the executions of an aborted request are here too.  `Serial` is a sequence of
complete executions with pauses in between.
-/

namespace GreenCommunity.Base

variable {C Op : Type} {Reply : Op → Type} {ε α β σ Q : Type}

/-- `Exec S c s p evs o s'`: run alone from `s`, the program of caller `c` issues
the events `evs`, each paired with the state it met, and leaves `s'`.  `o` is the
outcome, or `none` if the program was stopped. -/
inductive Exec (S : Sem C Op Reply σ) (c : C) :
    σ → Prog Op Reply ε α → List (σ × Event Op Reply) → Option (Except ε α) →
      σ → Prop where
  | ret {s : σ} {a : α} : Exec S c s (.ret a) [] (some (.ok a)) s
  | raise {s : σ} {e : ε} : Exec S c s (.raise e) [] (some (.error e)) s
  | stop {s : σ} {p : Prog Op Reply ε α} : Exec S c s p [] none s
  | call {s s₀ s₁ s₂ : σ} {op : Op} {k : Reply op → Prog Op Reply ε α}
      {r : Reply op} {evs : List (σ × Event Op Reply)} {o : Option (Except ε α)}
      (hw : S.env s s₀) (h : S.step c s₀ op r s₁) (hk : Exec S c s₁ (k r) evs o s₂) :
      Exec S c s (.call op k) ((s₀, ⟨op, r⟩) :: evs) o s₂

section Inversion

variable {S : Sem C Op Reply σ} {c : C} {s s' : σ}
  {evs : List (σ × Event Op Reply)}

theorem exec_ret {a : α} {o : Except ε α} :
    Exec S c s (.ret a) evs (some o) s' ↔ evs = [] ∧ o = .ok a ∧ s' = s := by
  constructor
  · intro h
    cases h
    exact ⟨rfl, rfl, rfl⟩
  · rintro ⟨rfl, rfl, rfl⟩
    exact .ret

theorem exec_raise {e : ε} {o : Except ε α} :
    Exec S c s (.raise e) evs (some o) s' ↔ evs = [] ∧ o = .error e ∧ s' = s := by
  constructor
  · intro h
    cases h
    exact ⟨rfl, rfl, rfl⟩
  · rintro ⟨rfl, rfl, rfl⟩
    exact .raise

theorem exec_call {op : Op} {k : Reply op → Prog Op Reply ε α} {o : Except ε α} :
    Exec S c s (.call op k) evs (some o) s' ↔
      ∃ s₀ r s₁ evs', S.env s s₀ ∧ S.step c s₀ op r s₁ ∧
        Exec S c s₁ (k r) evs' (some o) s' ∧ evs = (s₀, ⟨op, r⟩) :: evs' := by
  constructor
  · intro h
    cases h with
    | call hw h hk => exact ⟨_, _, _, _, hw, h, hk, rfl⟩
  · rintro ⟨s₀, r, s₁, evs', hw, h, hk, rfl⟩
    exact .call hw h hk

end Inversion

/-- Every event of an execution is a step from the state it met. -/
theorem Exec.mem_step {S : Sem C Op Reply σ} {c : C} {s s' : σ}
    {p : Prog Op Reply ε α} {evs : List (σ × Event Op Reply)}
    {o : Option (Except ε α)} (h : Exec S c s p evs o s') {x : σ × Event Op Reply}
    (hx : x ∈ evs) : ∃ s₁, S.step c x.1 x.2.op x.2.reply s₁ := by
  induction h with
  | ret | raise | stop => simp at hx
  | call _ h _ ih =>
      rcases List.mem_cons.mp hx with rfl | hx
      · exact ⟨_, h⟩
      · exact ih hx

/-- Where the environment stands still, an execution is a chain of its events. -/
theorem Exec.chain {S : Sem C Op Reply σ} {c : C} (henv : ∀ s s', S.env s s' → s' = s)
    {s s' : σ} {p : Prog Op Reply ε α} {evs : List (σ × Event Op Reply)}
    {o : Option (Except ε α)} (h : Exec S c s p evs o s') :
    Chain S s ((evs.map Prod.snd).map (.call c)) s' := by
  induction h with
  | ret | raise | stop => exact .nil
  | call hw h _ ih =>
      obtain rfl := henv _ _ hw
      exact .call h ih

/-- What the logic of event histories proves of a program holds of each of its
executions: an invariant of (events so far, state) that every admitted event keeps
is kept throughout. -/
theorem Exec.inv {S : Sem C Op Reply σ} {c : C}
    {Q : List (Event Op Reply) → Event Op Reply → Prop}
    {R : List (Event Op Reply) → Except ε α → Prop}
    (I : List (σ × Event Op Reply) → σ → Prop)
    (hI : ∀ past s s₀ s₁ e, I past s → S.env s s₀ → S.step c s₀ e.op e.reply s₁ →
      Q (past.map Prod.snd) e → I (past ++ [(s₀, e)]) s₁)
    {s s' : σ} {p : Prog Op Reply ε α} {evs : List (σ × Event Op Reply)}
    {o : Option (Except ε α)} (h : Exec S c s p evs o s') :
    ∀ past : List (σ × Event Op Reply), p.Hist Q R (past.map Prod.snd) → I past s →
      I (past ++ evs) s' := by
  induction h with
  | ret | raise | stop => intro past _ h0; simpa using h0
  | @call s s₀ s₁ s₂ op k r evs o hw h hk ih =>
      intro past hp h0
      have hmap : (past ++ [(s₀, (⟨op, r⟩ : Event Op Reply))]).map Prod.snd =
          past.map Prod.snd ++ [⟨op, r⟩] := by simp
      have hnext := ih _ (hmap ▸ (hp r).2) (hI past _ _ _ ⟨op, r⟩ h0 hw h (hp r).1)
      simpa using hnext

/-- The events of a complete execution satisfy the program's post-condition. -/
theorem Exec.post {S : Sem C Op Reply σ} {c : C}
    {Q : List (Event Op Reply) → Event Op Reply → Prop}
    {R : List (Event Op Reply) → Except ε α → Prop} {s s' : σ}
    {p : Prog Op Reply ε α} {evs : List (σ × Event Op Reply)} {o : Except ε α}
    (h : Exec S c s p evs (some o) s') :
    ∀ {past : List (Event Op Reply)}, p.Hist Q R past →
      R (past ++ evs.map Prod.snd) o := by
  generalize ho : some o = oo at h
  induction h with
  | ret | raise => cases ho; intro past hp; simpa using hp
  | stop => cases ho
  | call hw h hk ih =>
      intro past hp
      have hnext := ih ho (hp _).2
      simpa using hnext

/-- An execution from a trace of the program and a chain of states; `P` is any
property of the states that the steps keep. -/
theorem Exec.of_chain {S : Sem C Op Reply σ} {c : C} {P : σ → Prop}
    (hrefl : ∀ s, S.env s s) (hP : ∀ s op r s', P s → S.step c s op r s' → P s')
    {p q : Prog Op Reply ε α} {es : List (Event Op Reply)} {o : Except ε α}
    (hruns : p.Runs es q) (ho : q.outcome = some o) :
    ∀ {s s' : σ}, P s → Chain S s (es.map (.call c)) s' →
      ∃ evs, evs.map Prod.snd = es ∧ (∀ x ∈ evs, P x.1) ∧ Exec S c s p evs (some o) s' := by
  induction hruns with
  | @nil p =>
      intro s s' _ hc
      cases hc
      refine ⟨[], rfl, by simp, ?_⟩
      cases p with
      | ret a => cases ho; exact .ret
      | raise e => cases ho; exact .raise
      | call op k => cases ho
  | @cons op k r es q _ ih =>
      intro s s' hs hc
      cases hc with
      | call hstep hrest =>
          obtain ⟨evs, hes, hall, hx⟩ := ih ho (hP _ _ _ _ hs hstep) hrest
          refine ⟨(s, ⟨op, r⟩) :: evs, by simp [hes], ?_, .call (hrefl s) hstep hx⟩
          simpa [hs] using hall

/-- The same of an execution that stops on the way, behind some of the events. -/
theorem Exec.stopped {S : Sem C Op Reply σ} {c : C} (hrefl : ∀ s, S.env s s)
    {p q : Prog Op Reply ε α} {es es' : List (Event Op Reply)} (hruns : p.Runs (es ++ es') q) :
    ∀ {s s' : σ}, Chain S s (es.map (.call c)) s' →
      ∃ evs, evs.map Prod.snd = es ∧ Exec S c s p evs none s' := by
  induction es generalizing p with
  | nil =>
      intro s s' hc
      obtain rfl := chain_nil.mp hc
      exact ⟨[], rfl, .stop⟩
  | cons e es ih =>
      intro s s' hc
      obtain ⟨s₁, hstep, hrest⟩ := chain_cons.mp hc
      cases hruns with
      | cons hk =>
          obtain ⟨evs, hes, hx⟩ := ih hk hrest
          exact ⟨(s, _) :: evs, by simp [hes], .call (hrefl s) hstep hx⟩

/-! ## Sequences of executions -/

/-- A request that has been served: the state it met, its events and its outcome. -/
structure Served (Q Op : Type) (Reply : Op → Type) (ε α σ : Type) where
  req : Q
  start : σ
  events : List (σ × Event Op Reply)
  outcome : Except ε α

/-- The state after requests were served one after another, with pauses. -/
inductive Serial (S : Sem C Op Reply σ) (c : C) (pause : σ → σ → Prop)
    (prog : Q → Prog Op Reply ε α) (init : σ) :
    List (Served Q Op Reply ε α σ) → σ → Prop where
  | nil : Serial S c pause prog init [] init
  | pause {log : List (Served Q Op Reply ε α σ)} {s s' : σ}
      (h : Serial S c pause prog init log s) (hp : pause s s') :
      Serial S c pause prog init log s'
  | serve {log : List (Served Q Op Reply ε α σ)} {s s' : σ} {q : Q}
      {evs : List (σ × Event Op Reply)} {o : Except ε α}
      (h : Serial S c pause prog init log s)
      (hx : Exec S c s (prog q) evs (some o) s') :
      Serial S c pause prog init (log ++ [⟨q, s, evs, o⟩]) s'

section Runs

variable {S : Sem C Op Reply σ} {c : C} {pause : σ → σ → Prop}
  {prog : Q → Prog Op Reply ε α} {init s : σ} {log : List (Served Q Op Reply ε α σ)}

/-- All events of a sequence of requests. -/
def allEvents (log : List (Served Q Op Reply ε α σ)) : List (σ × Event Op Reply) :=
  log.flatMap Served.events

theorem allEvents_snoc (q : Q) (s : σ) (evs : List (σ × Event Op Reply))
    (o : Except ε α) :
    allEvents (log ++ [⟨q, s, evs, o⟩]) = allEvents log ++ evs := by
  simp [allEvents]

/-- A property of (log, state) that holds at the start and is kept by every pause
and every request holds after every sequence of requests. -/
theorem Serial.inv (I : List (Served Q Op Reply ε α σ) → σ → Prop) (h0 : I [] init)
    (hp : ∀ log s s', I log s → pause s s' → I log s')
    (hs : ∀ log s s' q evs o, Serial S c pause prog init log s → I log s →
      Exec S c s (prog q) evs (some o) s' → I (log ++ [⟨q, s, evs, o⟩]) s')
    (h : Serial S c pause prog init log s) : I log s := by
  induction h with
  | nil => exact h0
  | pause _ hpause ih => exact hp _ _ _ ih hpause
  | serve h hx ih => exact hs _ _ _ _ _ _ h ih hx

/-- The run up to a request of the log, and the request's execution. -/
theorem Serial.split {log₁ log₂ : List (Served Q Op Reply ε α σ)}
    {e : Served Q Op Reply ε α σ} (h : Serial S c pause prog init log s)
    (hlog : log = log₁ ++ e :: log₂) :
    ∃ s', Serial S c pause prog init log₁ e.start ∧
      Exec S c e.start (prog e.req) e.events (some e.outcome) s' := by
  induction h generalizing log₂ with
  | nil => simp at hlog
  | pause _ _ ih => exact ih hlog
  | @serve log s s' q evs o h hx ih =>
      rcases List.eq_nil_or_concat log₂ with rfl | ⟨log₃, e₃, rfl⟩
      · obtain ⟨rfl, hlast⟩ := List.append_inj' hlog rfl
        cases hlast
        exact ⟨s', h, hx⟩
      · rw [List.concat_eq_append, ← List.cons_append, ← List.append_assoc] at hlog
        exact ih (List.append_inj' hlog rfl).1

end Runs

end GreenCommunity.Base
