import GreenCommunity.Auth.Interleaving

/-!
# A refresh token is used once

`refresh` verifies a token, looks the user up and rotates in separate steps.  Two
calls that have both verified a token before either rotates it will both rotate
and both return tokens.  This is the only way: once a token is rotated, no later
verification finds it.
-/

namespace GreenCommunity.Auth

open GreenCommunity.Base
open GreenCommunity.Base.Redis

variable {Tok C : Type} [DecidableEq C] (d : Deps Tok) (req : C → Request Tok)

/-- At most one of the calls presenting a token returns tokens; when one has, every
other one that has finished was rejected. -/
def SingleUse (cfg : Config C Op Reply AppError (Response Tok) State) : Prop :=
  ∀ token c c', req c = .refresh token → req c' = .refresh token → c ≠ c' →
    ∀ response, (cfg.pool c).outcome = some (.ok response) →
    ∀ o, (cfg.pool c').outcome = some o →
      ∃ message, o = .error (.unauthorized message)

/-- No call rotates a token that another call presenting it has rotated since this
call's verification read. -/
def NoRotationSinceRead : Guard C Op Reply AppError (Response Tok) State :=
  fun tr _ l => ∀ c token u j ex r, req c = .refresh token →
    ident d token = some (u, j) → l = .call c (did d (.rotate u j ex) r) →
    ∀ tr₁ c' ex' r' tr₂, c' ≠ c → req c' = .refresh token →
      tr = tr₁ ++ .call c' (did d (.rotate u j ex') r') :: tr₂ →
      verified d token u j ∉ own c tr₁

variable {d req} {ok : Guard C Op Reply AppError (Response Tok) State} {init : State}
  {tr : List (Label C Op Reply)}
  {cfg cfg' : Config C Op Reply AppError (Response Tok) State}

/-- A call rotates only if nobody rotated before, or if it read the token before
that rotation. -/
theorem read_before_rotation (hknown : Known init)
    (h : Run (sem C d) ok (start d req init) tr cfg) {tr₁ tr₂ : List (Label C Op Reply)}
    {c c' : C} {token : Tok} {u : Nat} {j : String} {ex : Nat}
    {r : Reply (.pipeline ((Act.rotate u j ex).cmds d))} (hcc : c' ≠ c)
    (htr : tr = tr₁ ++ .call c' (did d (.rotate u j ex) r) :: tr₂)
    (hread : verified d token u j ∈ own c tr) : verified d token u j ∈ own c tr₁ := by
  have hsplit : own c tr = own c tr₁ ++ own c tr₂ := by
    rw [htr, List.append_cons, own_append, own_append, own_call_ne hcc, List.append_nil]
  rw [hsplit] at hread
  rcases List.mem_append.mp hread with hread | hread
  · exact hread
  · -- the read stands after the rotation, where the token is gone
    obtain ⟨tr₃, tr₄, rfl⟩ := List.append_of_mem (mem_own.mp hread)
    have hafter : tr = (tr₁ ++ .call c' (did d (.rotate u j ex) r) :: tr₃) ++
        .call c (verified d token u j) :: tr₄ := by
      rw [htr, List.append_assoc, List.cons_append]
    obtain ⟨cfg₁, cfg₂, hrun, hstep, _⟩ := h.split hafter
    obtain ⟨cfg₃, cfg₄, hrun₁, hrotate, _⟩ := h.split htr
    obtain ⟨_, _, token', _, _, hread'⟩ := rule_of_step hrun₁ hrotate
    have hdead := dead_after hrun rfl ⟨rfl, rfl⟩ (issued_of_verified hknown hrun₁ hread')
    have hlive := verified_live hstep
    simp [hdead] at hlive

/-- Under the guard, two calls that rotated one token are the same call. -/
theorem rotator_unique (hknown : Known init)
    (h : Run (sem C d) (NoRotationSinceRead d req) (start d req init) tr cfg) :
    ∀ {token u j c c' ex ex' r r'}, req c = .refresh token → req c' = .refresh token →
      ident d token = some (u, j) → .call c (did d (.rotate u j ex) r) ∈ tr →
      .call c' (did d (.rotate u j ex') r') ∈ tr → c = c' := by
  refine Run.inv (fun tr _ => ∀ {token u j c c' ex ex' r r'}, req c = .refresh token →
    req c' = .refresh token → ident d token = some (u, j) →
    .call c (did d (.rotate u j ex) r) ∈ tr →
    .call c' (did d (.rotate u j ex') r') ∈ tr → c = c') (by simp) ?_ h
  intro tr cfg l cfg' hrun ih hl hok
  -- a rotation by `c` as the last step, after one by `c'`
  have hlast : ∀ {token u j c c' ex ex' r r'}, req c = .refresh token →
      req c' = .refresh token → ident d token = some (u, j) →
      l = .call c (did d (.rotate u j ex) r) →
      .call c' (did d (.rotate u j ex') r') ∈ tr → c = c' := by
    intro token u j c c' ex ex' r r' hc hc' hident hlabel hmem
    by_contra hne
    subst hlabel
    obtain ⟨_, _, token', htoken', _, hread⟩ := rule_of_step hrun hl
    cases hc.symm.trans htoken'
    obtain ⟨tr₁, tr₂, htr⟩ := List.append_of_mem hmem
    exact hok c token u j ex r hc hident rfl tr₁ c' ex' r' tr₂ (Ne.symm hne) hc' htr
      (read_before_rotation hknown hrun (Ne.symm hne) htr hread)
  intro token u j c c' ex ex' r r' hc hc' hident hmem hmem'
  rcases List.mem_append.mp hmem with hmem | hmem <;>
    rcases List.mem_append.mp hmem' with hmem' | hmem'
  · exact ih hc hc' hident hmem hmem'
  · exact (hlast hc' hc hident (List.mem_singleton.mp hmem').symm hmem).symm
  · exact hlast hc hc' hident (List.mem_singleton.mp hmem).symm hmem'
  · have hlabel := (List.mem_singleton.mp hmem).trans (List.mem_singleton.mp hmem').symm
    injection hlabel

theorem refresh_single_use (hknown : Known init)
    (h : Run (sem C d) (NoRotationSinceRead d req) (start d req init) tr cfg) :
    SingleUse req cfg := by
  intro token c c' hc hc' hne response ho o ho'
  rcases refresh_ended h hc' ho' with hrejected | ⟨_, u', j', ex', r', _, hident', _, hmem'⟩
  · exact hrejected
  · rcases refresh_ended h hc ho with ⟨_, hm⟩ | ⟨_, u, j, ex, r, _, hident, _, hmem⟩
    · cases hm
    · cases hident.symm.trans hident'
      exact absurd (rotator_unique hknown h hc hc' hident hmem hmem') hne

/-! ## Runs of the sample user -/

/-- One of two calls refreshes, then the other presents the same token and is rejected. -/
theorem refresh_single_use_sample :
    ∃ tr cfg response, Run (sem Bool sample) anyStep
        (start sample (fun _ => .refresh loginToken) loggedIn) tr cfg ∧
      (cfg.pool false).outcome = some (.ok response) ∧
      (cfg.pool true).outcome = some (.error sessionExpired) ∧
      SingleUse (fun _ : Bool => .refresh loginToken) cfg := by
  have hfront := front_chain (d := sample) false loginToken loginPayload sampleUser
    rfl token_loggedIn rfl
  obtain ⟨s, r, r', hback, hrotated⟩ := back_chain (d := sample) false
    { loggedIn with redis := purge 0 loggedIn.redis } loginPayload sampleUser 0
    rfl "a₁" "a₂" (by decide) (by decide)
  obtain ⟨s', jtis, q, hreplay⟩ := refresh_reused_chain (d := sample) true
    hrotated.clock (hrotated.gone (by decide)) hrotated.marked
  have hrun := Run.of_chain ((hfront.append hback).append hreplay)
    (p := fun _ => serve sample (.refresh loginToken))
    (q := fun c => if c then .raise sessionExpired
      else .ret (.tokens (issuedTokens sample 1 0 0 "a₁" "a₂"))) ?_
  · refine ⟨_, _, _, hrun, rfl, rfl, refresh_single_use known_loggedIn (hrun.guarded ?_)⟩
    -- only the first call rotates
    have hfalse : ∀ {c u j ex q'}, Label.call c (did sample (.rotate u j ex) q') ∈
        (refreshFront sample loginToken loginPayload sampleUser 0 0).map (Label.call false) ++
          (refreshBack sample loginPayload sampleUser 0 0 0 "a₁" "a₂" r r').map
            (.call false) ++ (reusedEvents sample loginPayload 0 jtis q).map (.call true) →
          c = false := by
      intro c u j ex q' hmem
      rw [← List.map_append] at hmem
      rcases List.mem_append.mp hmem with hmem | hmem
      · obtain ⟨e, _, he⟩ := List.mem_map.mp hmem
        injection he with hc
        exact hc.symm
      · obtain ⟨e, he, heq⟩ := List.mem_map.mp hmem
        injection heq with _ heq
        cases act_of_reused he (congrArg Event.op heq)
    intro tr₁ l tr₂ cfg₁ htr _ c token u j ex q' _ _ hl tr₃ c' ex' q'' tr₄ hne _ htr₁
    have hmem : l ∈ tr₁ ++ l :: tr₂ := by simp
    have hmem' : Label.call c' (did sample (.rotate u j ex') q'') ∈ tr₁ ++ l :: tr₂ := by
      simp [htr₁]
    rw [← htr] at hmem hmem'
    subst hl
    exact absurd ((hfalse hmem').trans (hfalse hmem).symm) hne
  · intro c
    cases c with
    | false =>
        simp only [own_append, own_map_self, own_map_ne Bool.false_ne_true.symm, List.append_nil]
        exact refresh_runs decodes_loginToken sampleUser rfl r r'
    | true =>
        simp only [own_append, own_map_self, own_map_ne Bool.false_ne_true, List.nil_append]
        exact refresh_reused_runs decodes_loginToken jtis q

/-- Two refreshes of one token: both verify it, then both rotate it. -/
theorem refresh_race :
    ¬ ∀ tr cfg, Run (sem Bool sample) anyStep
      (start sample (fun _ => .refresh loginToken) loggedIn) tr cfg →
        SingleUse (fun _ : Bool => .refresh loginToken) cfg := by
  intro h
  have hfront := front_chain (d := sample) false loginToken loginPayload sampleUser
    rfl token_loggedIn rfl
  have hfront' := front_chain (d := sample) true loginToken loginPayload sampleUser
    rfl ((token_purged _ _ _).trans token_loggedIn) rfl
  obtain ⟨s₁, r, r', hback, hclock, _, huuids, _⟩ := back_chain (d := sample) false
    { loggedIn with redis := purge 0 (purge 0 loggedIn.redis) } loginPayload sampleUser 0
    rfl "a₁" "a₂" (by decide) (by decide)
  obtain ⟨s₂, q, q', hback', _⟩ := back_chain (d := sample) true s₁ loginPayload sampleUser 0
    hclock "b₁" "b₂" (by rw [huuids]; decide) (by rw [huuids]; decide)
  have hchain := ((hfront.append hfront').append hback).append hback'
  have hrun := Run.of_chain hchain
    (p := fun _ => serve sample (.refresh loginToken)) (q := fun c => .ret (.tokens
      (if c then issuedTokens sample 1 0 0 "b₁" "b₂"
        else issuedTokens sample 1 0 0 "a₁" "a₂"))) ?_
  · obtain ⟨message, hm⟩ := h _ _ hrun loginToken false true rfl rfl nofun _ rfl _ rfl
    cases hm
  · intro c
    cases c with
    | false =>
        simp only [own_append, own_map_self, own_map_ne Bool.false_ne_true.symm,
          List.append_nil]
        exact refresh_runs decodes_loginToken sampleUser rfl r r'
    | true =>
        simp only [own_append, own_map_self, own_map_ne Bool.false_ne_true,
          List.append_nil, List.nil_append]
        exact refresh_runs decodes_loginToken sampleUser rfl q q'

end GreenCommunity.Auth
