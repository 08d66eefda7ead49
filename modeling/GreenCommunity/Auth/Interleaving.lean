import GreenCommunity.Auth.Index
import GreenCommunity.Auth.Traces

/-!
# Interleaved requests

Any number of requests run at once, each operation of each being one step.  The
facts that carry every result below: a `jti` is drawn by one request and saved by
it once, so an active token was issued before, and a token that a pipeline has
deleted stays deleted for the rest of the run.

-/

namespace GreenCommunity.Auth

open GreenCommunity.Base
open GreenCommunity.Base.Redis

variable {Tok C : Type} [DecidableEq C] (d : Deps Tok) (req : C → Request Tok)

/-- The pool at the start: every request before its first operation. -/
abbrev start (init : State) : Config C Op Reply AppError (Response Tok) State :=
  ⟨init, fun c => serve d (req c)⟩

/-- The active tokens of a state were issued under identifiers drawn before. -/
def Known (s : State) : Prop :=
  ∀ u j, (s.token u j).isSome → j ∈ s.uuids

/-- The `jti` has been issued: before the run, or by a `save` in it. -/
def Issued (init : State) (tr : List (Label C Op Reply)) (j : String) : Prop :=
  j ∈ init.uuids ∨ ∃ c u t r, .call c (did d (.save u j t) r) ∈ tr

section Invariants

variable {d req} {ok : Guard C Op Reply AppError (Response Tok) State} {init : State}
  {tr : List (Label C Op Reply)}
  {cfg cfg' : Config C Op Reply AppError (Response Tok) State} {l : Label C Op Reply}

omit [DecidableEq C] in
theorem Issued.append {j : String} (h : Issued d init tr j)
    (tr' : List (Label C Op Reply)) : Issued d init (tr ++ tr') j := by
  rcases h with h | ⟨c, u, t, r, h⟩
  · exact Or.inl h
  · exact Or.inr ⟨c, u, t, r, List.mem_append_left tr' h⟩

/-- A pipeline of a run obeys its rule. -/
theorem rule_of_step {c : C} {a : Act} {r : Reply (.pipeline (a.cmds d))}
    (h : Run (sem C d) ok (start d req init) tr cfg)
    (hl : Step (sem C d) cfg (.call c (did d a r)) cfg') :
    Rule d (req c) (own c tr) a :=
  (h.hist_step (fun c => serve_hist (req c)) hl).rule a rfl

/-- A step is the passage of time, a quiet event, or a pipeline in its place. -/
theorem request_step (h : Run (sem C d) ok (start d req init) tr cfg)
    (hl : Step (sem C d) cfg l cfg') :
    drift cfg.state cfg'.state ∧ l = .env ∨
    (SameTables cfg.state cfg'.state ∧
      ∃ c e, l = .call c e ∧ ∀ a : Act, e.op ≠ .pipeline (a.cmds d)) ∨
    ∃ c a r, l = .call c (did d a r) ∧ Rule d (req c) (own c tr) a ∧
      step d cfg.state (.pipeline (a.cmds d)) r cfg'.state := by
  rcases pool_step hl with ⟨rfl, hdrift⟩ | ⟨c, e, rfl, hstep⟩
  · exact Or.inl ⟨hdrift, rfl⟩
  · have hobeys := h.hist_step (fun c => serve_hist (req c)) hl
    rcases hobeys.cases hstep with ⟨a, r, rfl, ha, hs⟩ | ⟨hop, hsame⟩
    · exact Or.inr (Or.inr ⟨c, a, r, rfl, ha, hs⟩)
    · exact Or.inr (Or.inl ⟨hsame, c, e, rfl, hop⟩)

/-! ## Identifiers -/

/-- Identifiers drawn in the run are new and belong to one request each. -/
structure Drawn (init : State) (tr : List (Label C Op Reply)) (s : State) : Prop where
  old : ∀ {j}, j ∈ init.uuids → j ∈ s.uuids
  mem : ∀ {c j}, (⟨.uuid4, j⟩ : AuthEvent) ∈ own c tr → j ∈ s.uuids
  new : ∀ {c j}, (⟨.uuid4, j⟩ : AuthEvent) ∈ own c tr → j ∉ init.uuids
  one : ∀ {c c' j}, (⟨.uuid4, j⟩ : AuthEvent) ∈ own c tr →
    (⟨.uuid4, j⟩ : AuthEvent) ∈ own c' tr → c = c'

theorem drawn_run {α : Type} {ok : Guard C Op Reply AppError α State} {p : C → AuthM α}
    {cfg : Config C Op Reply AppError α State} (h : Run (sem C d) ok ⟨init, p⟩ tr cfg) :
    Drawn init tr cfg.state := by
  refine Run.inv (fun tr cfg => Drawn init tr cfg.state) ?_ ?_ h
  · exact ⟨id, by simp, by simp, by simp⟩
  · intro tr cfg l cfg' _ ih hl _
    rcases pool_step hl with ⟨rfl, _, hs⟩ | ⟨c, e, rfl, hstep⟩
    · have huuids : cfg'.state.uuids = cfg.state.uuids := by rw [hs]
      constructor <;> simp only [own_append, own_env, List.append_nil, huuids]
      · exact ih.old
      · exact ih.mem
      · exact ih.new
      · exact ih.one
    · rcases step_uuids hstep with ⟨j, rfl, hnew, huuids⟩ | ⟨hne, huuids⟩
      · constructor
        · intro k hk
          rw [huuids]
          exact List.mem_cons_of_mem j (ih.old hk)
        · intro c' k hk
          rw [huuids]
          rcases mem_own_snoc.mp hk with hk | ⟨_, hjk⟩
          · exact List.mem_cons_of_mem j (ih.mem hk)
          · cases hjk
            exact List.mem_cons_self
        · intro c' k hk
          rcases mem_own_snoc.mp hk with hk | ⟨_, hjk⟩
          · exact ih.new hk
          · cases hjk
            exact fun hold => hnew (ih.old hold)
        · intro c₁ c₂ k h₁ h₂
          rcases mem_own_snoc.mp h₁ with h₁ | ⟨hc₁, hk₁⟩ <;>
            rcases mem_own_snoc.mp h₂ with h₂ | ⟨hc₂, hk₂⟩
          · exact ih.one h₁ h₂
          · cases hk₂
            exact absurd (ih.mem h₁) hnew
          · cases hk₁
            exact absurd (ih.mem h₂) hnew
          · rw [← hc₁, hc₂]
      · have hown : ∀ {c' k}, (⟨.uuid4, k⟩ : AuthEvent) ∈ own c' (tr ++ [.call c e]) →
            (⟨.uuid4, k⟩ : AuthEvent) ∈ own c' tr := by
          intro c' k hk
          rcases mem_own_snoc.mp hk with hk | ⟨_, hk⟩
          · exact hk
          · exact absurd hk.symm (hne k)
        constructor
        · rw [huuids]
          exact ih.old
        · intro c' k hk
          rw [huuids]
          exact ih.mem (hown hk)
        · exact fun hk => ih.new (hown hk)
        · exact fun h₁ h₂ => ih.one (hown h₁) (hown h₂)

/-- A `jti` is saved under at most once: when a `save` runs, it is new. -/
theorem save_new {c : C} {u : Nat} {j t : String}
    {r : Reply (.pipeline ((Act.save u j t).cmds d))}
    (h : Run (sem C d) ok (start d req init) tr cfg)
    (hl : Step (sem C d) cfg (.call c (did d (.save u j t) r)) cfg') :
    ¬ Issued d init tr j := by
  obtain ⟨hdraw, honce, _⟩ := rule_of_step h hl
  rintro (hold | ⟨c', v, t', r', hmem⟩)
  · exact (drawn_run h).new hdraw hold
  · obtain ⟨tr₁, tr₂, htr⟩ := List.append_of_mem hmem
    obtain ⟨cfg₁, cfg₂, hrun, hstep, _⟩ := h.split htr
    have hdraw' : (⟨.uuid4, j⟩ : AuthEvent) ∈ own c' tr := by
      rw [htr, own_append]
      exact List.mem_append_left _ (rule_of_step hrun hstep).1
    have hc : c' = c := (drawn_run h).one hdraw' hdraw
    exact honce _ (mem_own.mpr (hc ▸ hmem)) v j t' rfl

/-! ## Active tokens -/

/-- An active token has been issued. -/
theorem issued_of_live (hknown : Known init)
    (h : Run (sem C d) ok (start d req init) tr cfg) :
    ∀ {u j}, (cfg.state.token u j).isSome → Issued d init tr j := by
  refine Run.inv (fun tr cfg => ∀ {u j}, (cfg.state.token u j).isSome →
    Issued d init tr j) (fun hj => Or.inl (hknown _ _ hj)) ?_ h
  intro tr cfg l cfg' hrun ih hl _ u j hj
  rcases request_step hrun hl with ⟨hdrift, _⟩ | ⟨hsame, _⟩ | ⟨c, a, r, rfl, ha, hs⟩
  · obtain ⟨e, he⟩ := Option.isSome_iff_exists.mp hj
    have he := ((token_drift hdrift).mp he).1
    exact (ih (by simp [he] : (cfg.state.token u j).isSome)).append _
  · rw [hsame.token] at hj
    exact (ih hj).append _
  · obtain ⟨e, he⟩ := Option.isSome_iff_exists.mp hj
    rcases (token_act ha.timed hs u j e).mp he with ⟨t, rfl, _⟩ | ⟨_, _, he⟩
    · exact Or.inr ⟨c, u, t, r, by simp⟩
    · exact (ih (by simp [he] : (cfg.state.token u j).isSome)).append _

/-- A step does not bring back a token that was issued before. -/
theorem dead_step {u : Nat} {j : String}
    (h : Run (sem C d) ok (start d req init) tr cfg) (hl : Step (sem C d) cfg l cfg')
    (hissued : Issued d init tr j) (hdead : cfg.state.token u j = none) :
    cfg'.state.token u j = none := by
  by_contra hlive
  obtain ⟨e, he⟩ := Option.ne_none_iff_exists'.mp hlive
  rcases request_step h hl with ⟨hdrift, _⟩ | ⟨hsame, _⟩ | ⟨c, a, r, rfl, ha, hs⟩
  · have hbefore := ((token_drift hdrift).mp he).1
    rw [hdead] at hbefore
    cases hbefore
  · rw [hsame.token, hdead] at he
    cases he
  · rcases (token_act ha.timed hs u j e).mp he with ⟨t, rfl, _⟩ | ⟨_, _, he⟩
    · exact save_new h hl hissued
    · rw [hdead] at he
      cases he

/-- The verification read finds the token active. -/
theorem verified_live {c : C} {token : Tok} {u : Nat} {j : String}
    (hl : Step (sem C d) cfg (.call c (verified d token u j)) cfg') :
    (cfg.state.token u j).isSome := by
  cases hl with
  | call _ hstep => exact live_of_get d hstep

/-- A token that a request has verified was issued. -/
theorem issued_of_verified (hknown : Known init)
    (h : Run (sem C d) ok (start d req init) tr cfg) {c : C} {token : Tok} {u : Nat}
    {j : String} (hread : verified d token u j ∈ own c tr) : Issued d init tr j := by
  obtain ⟨tr₁, tr₂, htr⟩ := List.append_of_mem (mem_own.mp hread)
  obtain ⟨cfg₁, cfg₂, hrun, hstep, _⟩ := h.split htr
  rw [htr]
  exact (issued_of_live hknown hrun (verified_live hstep)).append _

/-- A token that a pipeline has deleted stays deleted. -/
theorem dead_after {tr₁ tr₂ : List (Label C Op Reply)} {c : C} {a : Act}
    {r : Reply (.pipeline (a.cmds d))} {u : Nat} {j : String}
    (h : Run (sem C d) ok (start d req init) tr cfg)
    (htr : tr = tr₁ ++ .call c (did d a r) :: tr₂) (hkill : a.Kills u j)
    (hissued : Issued d init tr₁ j) : cfg.state.token u j = none := by
  refine Run.inv (fun tr cfg => ∀ tr₂, tr = tr₁ ++ .call c (did d a r) :: tr₂ →
    cfg.state.token u j = none) ?_ ?_ h tr₂ htr
  · intro tr₂ hnil
    simp at hnil
  · intro tr cfg l cfg' hrun ih hl _ tr₂ htr
    rcases List.eq_nil_or_concat tr₂ with rfl | ⟨tr₃, l₃, rfl⟩
    · obtain ⟨rfl, hlast⟩ := List.append_inj' htr rfl
      cases hlast
      have ha := (rule_of_step hrun hl).timed
      cases hl with
      | call _ hstep =>
          by_contra hlive
          obtain ⟨e, he⟩ := Option.ne_none_iff_exists'.mp hlive
          rcases (token_act ha hstep u j e).mp he with ⟨t, rfl, _⟩ | ⟨_, hn, _⟩
          · exact hkill
          · exact hn hkill
    · rw [List.concat_eq_append, ← List.cons_append, ← List.append_assoc] at htr
      obtain ⟨rfl, _⟩ := List.append_inj' htr rfl
      exact dead_step hrun hl (hissued.append _) (ih tr₃ rfl)

/-- How a finished refresh ended: it rotated its token, or it was rejected. -/
theorem refresh_ended (h : Run (sem C d) ok (start d req init) tr cfg) {c : C}
    {token : Tok} (hc : req c = .refresh token)
    {o : Except AppError (Response Tok)} (ho : (cfg.pool c).outcome = some o) :
    (∃ message, o = .error (.unauthorized message)) ∨
    (∃ response u j ex r, o = .ok response ∧ ident d token = some (u, j) ∧
      verified d token u j ∈ own c tr ∧ .call c (did d (.rotate u j ex) r) ∈ tr) := by
  have hended := h.hist_outcome (fun c => serve_hist (req c)) ho
  rw [hc] at hended
  generalize hes : own c tr = es at hended
  cases hended with
  | refresh htrace =>
      cases htrace with
      | invalid => exact Or.inl ⟨_, rfl⟩
      | compromised => exact Or.inl ⟨_, rfl⟩
      | notFound => exact Or.inl ⟨_, rfl⟩
      | inactive => exact Or.inl ⟨_, rfl⟩
      | rotated n n' hdec huser r hi =>
          refine Or.inr ⟨_, _, _, _, r, rfl, ident_of_decodes hdec, ?_, mem_own.mp ?_⟩ <;>
            simp [hes]

end Invariants

theorem known_loggedIn : Known loggedIn := fun _ _ => live_loggedIn

end GreenCommunity.Auth
