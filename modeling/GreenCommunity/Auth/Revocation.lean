import GreenCommunity.Auth.Interleaving
import GreenCommunity.Auth.Sequential
import Mathlib.Data.Fin.VecNotation
import Mathlib.Logic.Relation

/-!
# The end of a session is final

`logout` deletes one token and a `revoke_all` deletes those its `SMEMBERS` saw.
`Ends` says which sessions such a pipeline is meant to end: the token that was
logged out, every token issued to the user before the mass revocation began, and
in either case all that was obtained from them by rotation (`Descends`).

Three places in the order of the steps are wrong.  A `save` for the user between
the `SMEMBERS` and the deletion stays active, and leaves the index with the set.
A logout of a token that was renewed before does not know of the newer one.  And a
refresh that verified a token before its session ended can save a new one
afterwards.  In every run that keeps clear of these (`EndsCleanly`) the index stays
complete, so that a mass revocation leaves no active token of the user, and no
refresh that starts later accepts a token of an ended session.
-/

namespace GreenCommunity.Auth

open GreenCommunity.Base
open GreenCommunity.Base.Redis

variable {Tok C : Type} [DecidableEq C] (d : Deps Tok) (req : C → Request Tok)

/-- A refresh presenting the token `p` saved the token `q`. -/
def Renewed (tr : List (Label C Op Reply)) (p q : Nat × String) : Prop :=
  ∃ c token t r, req c = .refresh token ∧ ident d token = some p ∧
    .call c (did d (.save q.1 q.2 t) r) ∈ tr

/-- The token `q` was obtained from `p` by rotations. -/
def Descends (tr : List (Label C Op Reply)) : Nat × String → Nat × String → Prop :=
  Relation.ReflTransGen (Renewed d req tr)

/-- The step after `tr` ends the session of the token `p`. -/
inductive Ends (init : State) (tr : List (Label C Op Reply)) :
    Label C Op Reply → Nat × String → Prop where
  /-- A logout that presented the token. -/
  | logout {c : C} {u : Nat} {j : String} {r : Reply (.pipeline ((Act.revoke u j).cmds d))}
      (hissued : Issued d init tr j) : Ends init tr (.call c (did d (.revoke u j) r)) (u, j)
  /-- A mass revocation that began after the token was issued. -/
  | revokeAll {tr₁ tr₂ : List (Label C Op Reply)} {c : C} {u : Nat} {j : String}
      {jtis : List String} {r : Reply (.pipeline ((Act.revokeAll u jtis).cmds d))}
      (hread : tr = tr₁ ++ .call c ⟨.redis (.smembers (indexKey u)), jtis⟩ :: tr₂)
      (hissued : Issued d init tr₁ j) :
      Ends init tr (.call c (did d (.revokeAll u jtis) r)) (u, j)

/-- No refresh that starts after a session has ended accepts a token of it. -/
def EndIsFinal (init : State) (tr : List (Label C Op Reply))
    (cfg : Config C Op Reply AppError (Response Tok) State) : Prop :=
  ∀ tr₁ l tr₂ p q, tr = tr₁ ++ l :: tr₂ → Ends d init tr₁ l p → Descends d req tr p q →
    ∀ c token, own c (tr₁ ++ [l]) = [] → req c = .refresh token →
      ident d token = some q → ∀ response, (cfg.pool c).outcome ≠ some (.ok response)

/-- The pipeline is sent to end the session of the token. -/
def Act.Stops : Act → Nat × String → Prop
  | .revoke u j, q => q = (u, j)
  | .revokeAll u _, q => q.1 = u
  | _, _ => False

/-- The step keeps clear of the three wrong places. -/
structure EndsCleanly (tr : List (Label C Op Reply)) (l : Label C Op Reply) : Prop where
  /-- No token of the user is saved between the `SMEMBERS` and the deletion. -/
  alone : ∀ {c u jtis r tr₁ tr₂}, l = .call c (did d (.revokeAll u jtis) r) →
    tr = tr₁ ++ .call c ⟨.redis (.smembers (indexKey u)), jtis⟩ :: tr₂ →
      ∀ {c' j t r'}, .call c' (did d (.save u j t) r') ∉ tr₂
  /-- A token that is logged out has not been renewed. -/
  unrenewed : ∀ {c u j r}, l = .call c (did d (.revoke u j) r) →
    ∀ q, ¬ Renewed d req tr (u, j) q
  /-- No session ends between the verification of its token and the `save`. -/
  current : ∀ {c u j t r token q}, l = .call c (did d (.save u j t) r) →
    req c = .refresh token → ident d token = some q →
      ∀ {tr₁ c' a r' tr₂}, tr = tr₁ ++ .call c' (did d a r') :: tr₂ → a.Stops q →
        verified d token q.1 q.2 ∉ own c tr₁

variable {d req} {ok : Guard C Op Reply AppError (Response Tok) State} {init : State}
  {tr : List (Label C Op Reply)}
  {cfg cfg' : Config C Op Reply AppError (Response Tok) State} {l : Label C Op Reply}

omit [DecidableEq C] in
/-- A step that is no `save` of a descendant adds no descendants. -/
theorem Descends.of_snoc {p q : Nat × String}
    (hnew : ∀ q', Descends d req tr p q' → ∀ q'', ¬ Renewed d req [l] q' q'')
    (h : Descends d req (tr ++ [l]) p q) : Descends d req tr p q := by
  induction h with
  | refl => exact .refl
  | tail _ hedge ih =>
      obtain ⟨c, token, t, r, hc, hident, hmem⟩ := hedge
      rcases List.mem_append.mp hmem with hmem | hmem
      · exact ih.tail ⟨c, token, t, r, hc, hident, hmem⟩
      · exact absurd ⟨c, token, t, r, hc, hident, hmem⟩ (hnew _ ih _)

omit [DecidableEq C] in
theorem Ends.issued {p : Nat × String} (h : Ends d init tr l p) : Issued d init tr p.2 := by
  cases h with
  | logout hissued => exact hissued
  | revokeAll hread hissued =>
      rw [hread]
      exact hissued.append _

omit [DecidableEq C] in
/-- Every descendant of an issued token has been issued. -/
theorem Descends.issued {p q : Nat × String} (hp : Issued d init tr p.2)
    (h : Descends d req tr p q) : Issued d init tr q.2 := by
  cases h with
  | refl => exact hp
  | tail _ hedge =>
      obtain ⟨c, _, t, r, _, _, hmem⟩ := hedge
      exact Or.inr ⟨c, _, t, r, hmem⟩

/-! ## The index -/

/-- The user of a renewed token is the user of the new one. -/
theorem Renewed.user (h : Run (sem C d) ok (start d req init) tr cfg) {p q : Nat × String}
    (hrenewed : Renewed d req tr p q) : q.1 = p.1 := by
  obtain ⟨c, token, t, r, hc, hident, hmem⟩ := hrenewed
  obtain ⟨tr₁, tr₂, htr⟩ := List.append_of_mem hmem
  obtain ⟨cfg₁, cfg₂, hrun, hl, _⟩ := h.split htr
  obtain ⟨_, _, hsource⟩ := rule_of_step hrun hl
  obtain ⟨v, k, user, hident', _, hfound, huser⟩ := hsource token hc
  cases hident.symm.trans hident'
  obtain ⟨tr₃, tr₄, htr₁⟩ := List.append_of_mem (mem_own.mp hfound)
  obtain ⟨cfg₃, cfg₄, _, hl, _⟩ := hrun.split htr₁
  cases hl with
  | call _ hstep =>
      have hrow : getById cfg₃.state v = some user := hstep.1.symm
      have hid := List.find?_some hrow
      rw [huser]
      simpa using hid

theorem Descends.user (h : Run (sem C d) ok (start d req init) tr cfg) {p q : Nat × String}
    (hq : Descends d req tr p q) : q.1 = p.1 := by
  induction hq with
  | refl => rfl
  | tail _ hedge ih => exact (hedge.user h).trans ih

theorem bounded_requests (hbounded : Bounded d init)
    (h : Run (sem C d) ok (start d req init) tr cfg) : Bounded d cfg.state := by
  refine Run.inv (fun _ cfg => Bounded d cfg.state) hbounded ?_ h
  intro tr cfg l cfg' hrun hb hl _
  have hclock : ∀ c e, l = .call c e → cfg'.state.clock = cfg.state.clock := by
    rintro c e rfl
    cases hl with
    | call _ hstep => exact step_clock hstep
  rcases request_step hrun hl with ⟨hdrift, _⟩ | ⟨hsame, c, e, hlabel, _⟩ | ⟨c, a, r, _, ha, hs⟩
  · exact hb.drift hdrift
  · exact hb.same hsame (hclock c e hlabel)
  · exact hb.act ha.timed hs

/-- A token that is active after a step was active before, or the step has saved it. -/
theorem live_before (h : Run (sem C d) ok (start d req init) tr cfg)
    (hl : Step (sem C d) cfg l cfg') {u : Nat} {j : String}
    (hj : (cfg'.state.token u j).isSome) :
    (cfg.state.token u j).isSome ∨ ∃ c t r, l = .call c (did d (.save u j t) r) := by
  obtain ⟨e, he⟩ := Option.isSome_iff_exists.mp hj
  rcases request_step h hl with ⟨hdrift, _⟩ | ⟨hsame, _⟩ | ⟨c, a, r, rfl, ha, hs⟩
  · exact Or.inl (by simp [((token_drift hdrift).mp he).1])
  · exact Or.inl (by rwa [hsame.token] at hj)
  · rcases (token_act ha.timed hs u j e).mp he with ⟨t, rfl, _⟩ | ⟨_, _, he⟩
    · exact Or.inr ⟨c, t, r, rfl⟩
    · exact Or.inl (by simp [he])

/-- The index is complete, and a set that was read covers the active tokens of the user as
long as none is saved. -/
structure Covered (d : Deps Tok) (tr : List (Label C Op Reply)) (s : State) : Prop where
  indexed : Indexed s
  read : ∀ {c u jtis tr₁ tr₂},
    tr = tr₁ ++ .call c ⟨.redis (.smembers (indexKey u)), jtis⟩ :: tr₂ →
      (∀ {c' j t r'}, .call c' (did d (.save u j t) r') ∉ tr₂) →
        ∀ {j}, (s.token u j).isSome → j ∈ jtis

/-- What the rule of a mass deletion says of the history. -/
theorem exists_read {c : C} {u : Nat} {jtis : List String}
    (hrule : Rule d (req c) (own c tr) (.revokeAll u jtis)) :
    ∃ tr₁ tr₂, tr = tr₁ ++ .call c ⟨.redis (.smembers (indexKey u)), jtis⟩ :: tr₂ := by
  obtain ⟨past, hpast⟩ := hrule
  exact List.append_of_mem (mem_own.mp (by simp [hpast]))

theorem Covered.step (h : Run (sem C d) ok (start d req init) tr cfg)
    (hl : Step (sem C d) cfg l cfg') (hbounded : Bounded d cfg.state)
    (hok : EndsCleanly d req tr l) (hcovered : Covered d tr cfg.state) :
    Covered d (tr ++ [l]) cfg'.state := by
  refine ⟨?_, ?_⟩
  · rcases request_step h hl with ⟨hdrift, _⟩ | ⟨hsame, _⟩ | ⟨c, a, r, rfl, ha, hs⟩
    · exact hcovered.indexed.drift hdrift
    · exact hcovered.indexed.same hsame
    · refine hcovered.indexed.act ha.timed hs hbounded fun u j hdrop hj => ?_
      refine Act.kills_of_drops hdrop ?_
      rintro v jtis rfl rfl
      obtain ⟨tr₁, tr₂, htr⟩ := exists_read ha
      exact hcovered.read htr (hok.alone rfl htr) hj
  · intro c u jtis tr₁ tr₂ htr hnone j hj
    rcases List.eq_nil_or_concat tr₂ with rfl | ⟨tr₃, l₃, rfl⟩
    · obtain ⟨rfl, hlast⟩ := List.append_inj' htr rfl
      cases hlast
      cases hl with
      | call _ hstep =>
          refine hcovered.indexed.smembers (d := d) hstep ?_
          rwa [(idle_read (d := d) (c := .smembers (indexKey u)) trivial rfl).1 _ _ _ hstep
            |>.token] at hj
    · rw [List.concat_eq_append] at htr hnone
      rw [← List.cons_append, ← List.append_assoc] at htr
      obtain ⟨rfl, hlast⟩ := List.append_inj' htr rfl
      cases hlast
      rcases live_before h hl hj with hj | ⟨c', t, r, rfl⟩
      · exact hcovered.read rfl (fun hmem => hnone (List.mem_append_left _ hmem)) hj
      · exact absurd (List.mem_append_right _ (List.mem_singleton.mpr rfl)) hnone

theorem covered_run (hindexed : Indexed init) (hbounded : Bounded d init)
    (h : Run (sem C d) (fun tr _ l => EndsCleanly d req tr l) (start d req init) tr cfg) :
    Covered d tr cfg.state := by
  refine Run.inv (fun tr cfg => Covered d tr cfg.state) ⟨hindexed, fun htr => ?_⟩ ?_ h
  · simp at htr
  · exact fun tr cfg l cfg' hrun ih hl hok =>
      ih.step hrun hl (bounded_requests hbounded hrun) hok

/-! ## Ended sessions -/

/-- What holds after the session of `p` has ended at the prefix `tr₁ ++ [l]`: its
descendants are those of the prefix, none is active and none was verified since. -/
structure Over (d : Deps Tok) (req : C → Request Tok) (p : Nat × String)
    (tr₁ : List (Label C Op Reply)) (l : Label C Op Reply)
    (tr₂ : List (Label C Op Reply)) (s : State) : Prop where
  frozen : ∀ {q}, Descends d req (tr₁ ++ l :: tr₂) p q → Descends d req tr₁ p q
  dead : ∀ {q}, Descends d req tr₁ p q → s.token q.1 q.2 = none
  unread : ∀ {q c token}, Descends d req tr₁ p q → verified d token q.1 q.2 ∉ own c tr₂

omit [DecidableEq C] in
/-- A pipeline that ends a session is no `save`. -/
private theorem Ends.not_save {p q q' : Nat × String} (h : Ends d init tr l p) :
    ¬ Renewed d req [l] q q' := by
  rintro ⟨c, token, t, r, _, _, hmem⟩
  have hl := List.mem_singleton.mp hmem
  cases h with
  | logout =>
      injection hl with _ he
      injection congrArg Event.op he with hcmds
      exact nomatch Act.cmds_inj (a := .save q'.1 q'.2 t) (b := .revoke _ _) hcmds
  | revokeAll =>
      injection hl with _ he
      injection congrArg Event.op he with hcmds
      exact nomatch Act.cmds_inj (a := .save q'.1 q'.2 t) (b := .revokeAll _ _) hcmds

/-- The pipeline is sent to end the session of every descendant: a token that is logged out
has none. -/
theorem Ends.stops {p q : Nat × String} (h : Run (sem C d) ok (start d req init) tr cfg)
    (hends : Ends d init tr l p) (hok : EndsCleanly d req tr l) (hq : Descends d req tr p q) :
    ∃ c a r, l = .call c (did d a r) ∧ a.Stops q := by
  cases hends with
  | @logout c u j r _ =>
      refine ⟨c, .revoke u j, r, rfl, ?_⟩
      rcases hq.cases_head with rfl | ⟨q', hrenewed, _⟩
      · rfl
      · exact absurd hrenewed (hok.unrenewed rfl q')
  | @revokeAll _ _ c u j jtis r _ _ => exact ⟨c, .revokeAll u jtis, r, rfl, hq.user h⟩

/-- The ending step leaves none of them active. -/
theorem dead_of_stops {c : C} {a : Act} {r : Reply (.pipeline (a.cmds d))} {q : Nat × String}
    (h : Run (sem C d) ok (start d req init) tr cfg)
    (hl : Step (sem C d) cfg (.call c (did d a r)) cfg') (hcovered : Covered d tr cfg.state)
    (hok : EndsCleanly d req tr (.call c (did d a r))) (hstops : a.Stops q) :
    cfg'.state.token q.1 q.2 = none := by
  have hrule := rule_of_step h hl
  cases hl with
  | call _ hstep =>
      by_contra hlive
      obtain ⟨e, he⟩ := Option.ne_none_iff_exists'.mp hlive
      rcases (token_act hrule.timed hstep q.1 q.2 e).mp he with ⟨t, rfl, _⟩ | ⟨_, hkill, hbefore⟩
      · exact hstops
      cases a with
      | save | rotate => exact hstops
      | revoke u j =>
          cases hstops
          exact hkill ⟨rfl, rfl⟩
      | revokeAll u jtis =>
          obtain rfl : q.1 = u := hstops
          obtain ⟨tr₁, tr₂, htr⟩ := exists_read hrule
          exact hkill ⟨rfl, hcovered.read htr (hok.alone rfl htr)
            (Option.isSome_iff_exists.mpr ⟨e, hbefore⟩)⟩

/-- The ending step itself. -/
theorem over_of_ends {p : Nat × String}
    (h : Run (sem C d) ok (start d req init) tr cfg) (hl : Step (sem C d) cfg l cfg')
    (hends : Ends d init tr l p) (hcovered : Covered d tr cfg.state)
    (hok : EndsCleanly d req tr l) : Over d req p tr l [] cfg'.state where
  frozen hq := hq.of_snoc fun _ _ _ => hends.not_save
  dead hq := by
    obtain ⟨c, a, r, rfl, hstops⟩ := hends.stops h hok hq
    exact dead_of_stops h hl hcovered hok hstops
  unread _ := by simp

/-- Later steps keep a session over. -/
theorem Over.step {p : Nat × String} {tr₁ tr₂ : List (Label C Op Reply)}
    {l' : Label C Op Reply}
    (h : Run (sem C d) ok (start d req init) (tr₁ ++ l :: tr₂) cfg)
    (hl : Step (sem C d) cfg l' cfg') (hends : Ends d init tr₁ l p)
    (hstops : ∀ {q}, Descends d req tr₁ p q → ∃ c a r, l = .call c (did d a r) ∧ a.Stops q)
    (hok : EndsCleanly d req (tr₁ ++ l :: tr₂) l')
    (hover : Over d req p tr₁ l tr₂ cfg.state) :
    Over d req p tr₁ l (tr₂ ++ [l']) cfg'.state := by
  have hassoc : tr₁ ++ l :: (tr₂ ++ [l']) = (tr₁ ++ l :: tr₂) ++ [l'] := by simp
  refine ⟨fun hq => ?_, fun hq => ?_, fun {q c token} hq hread => ?_⟩
  · rw [hassoc] at hq
    refine hover.frozen (hq.of_snoc ?_)
    -- a `save` from a descendant would have verified it before the end or after
    rintro q' hq' q'' ⟨c, token, t, r, hc, hident, hmem⟩
    have hlabel := List.mem_singleton.mp hmem
    subst hlabel
    obtain ⟨_, _, hsource⟩ := rule_of_step h hl
    obtain ⟨v, k, user, hident', hread, _⟩ := hsource token hc
    cases hident.symm.trans hident'
    obtain ⟨c', a, r', rfl, hstop⟩ := hstops (hover.frozen hq')
    rw [List.append_cons, own_append, own_append] at hread
    rcases List.mem_append.mp hread with hread | hread
    · rcases List.mem_append.mp hread with hread | hread
      · exact hok.current rfl hc hident rfl hstop hread
      · injection List.mem_singleton.mp (mem_own.mp hread) with _ he
        injection congrArg Event.op he
    · exact hover.unread (hover.frozen hq') hread
  · have hissued : Issued d init (tr₁ ++ l :: tr₂) _ := (hq.issued hends.issued).append _
    exact dead_step h hl hissued (hover.dead hq)
  · rw [own_append] at hread
    rcases List.mem_append.mp hread with hread | hread
    · exact hover.unread hq hread
    · have hlabel := List.mem_singleton.mp (mem_own.mp hread)
      subst hlabel
      have hlive := verified_live hl
      simp [hover.dead hq] at hlive

theorem over_run {p : Nat × String} {tr₁ tr₂ : List (Label C Op Reply)}
    (hindexed : Indexed init) (hbounded : Bounded d init)
    (h : Run (sem C d) (fun tr _ l => EndsCleanly d req tr l) (start d req init) tr cfg)
    (htr : tr = tr₁ ++ l :: tr₂) (hends : Ends d init tr₁ l p) :
    Over d req p tr₁ l tr₂ cfg.state := by
  obtain ⟨cfg₁, cfg₂, hrun₁, _, hok₁⟩ := h.split htr
  refine Run.inv (fun tr cfg => ∀ tr₂, tr = tr₁ ++ l :: tr₂ →
    Over d req p tr₁ l tr₂ cfg.state) ?_ ?_ h tr₂ htr
  · intro tr₂ hnil
    simp at hnil
  · intro tr cfg l' cfg' hrun ih hl hok tr₂ htr
    rcases List.eq_nil_or_concat tr₂ with rfl | ⟨tr₃, l₃, rfl⟩
    · obtain ⟨rfl, hlast⟩ := List.append_inj' htr rfl
      cases hlast
      exact over_of_ends hrun hl hends (covered_run hindexed hbounded hrun) hok
    · rw [List.concat_eq_append, ← List.cons_append, ← List.append_assoc] at htr
      obtain ⟨rfl, hlast⟩ := List.append_inj' htr rfl
      cases hlast
      rw [List.concat_eq_append]
      exact (ih tr₃ rfl).step hrun hl hends (fun hq => hends.stops hrun₁ hok₁ hq) hok

/-- In every run that keeps clear of the wrong places, from a state with a complete index, the
end of a session is final. -/
theorem session_end_final (hindexed : Indexed init) (hbounded : Bounded d init)
    (h : Run (sem C d) (fun tr _ l => EndsCleanly d req tr l) (start d req init) tr cfg) :
    EndIsFinal d req init tr cfg := by
  intro tr₁ l tr₂ p q htr hends hq c token hlater hc hident response ho
  have hover := over_run hindexed hbounded h htr hends
  rw [htr] at hq
  rcases refresh_ended h hc ho with ⟨_, hm⟩ | ⟨_, u, j, _, _, _, hident', hread, _⟩
  · cases hm
  · cases hident.symm.trans hident'
    rw [htr, List.append_cons, own_append, hlater, List.nil_append] at hread
    exact hover.unread (hover.frozen hq) hread

/-! ## Runs of the sample user -/

/-- The user refreshes the login's token, ends all sessions, and presents the new token. -/
def lateRequest : Fin 3 → Request Claims
  | 0 => .refresh loginToken
  | 1 => .logoutAll 1
  | 2 => .refresh (refreshJwt sample 1 "a₂" 0)

/-- What stands behind an element that is not in the first part. -/
private theorem subset_of_split {α : Type} {xs ys xs' ys' : List α} {x : α}
    (h : xs ++ ys = xs' ++ x :: ys') (hx : x ∉ xs) : ys' ⊆ ys := by
  rcases List.append_eq_append_iff.mp h with ⟨zs, _, hys⟩ | ⟨zs, hxs, hys⟩
  · rw [hys]
    exact fun y hy => List.mem_append_right _ (List.mem_cons_of_mem x hy)
  · cases zs with
    | nil =>
        rw [List.nil_append] at hys
        rw [← hys]
        exact List.subset_cons_self x ys'
    | cons z zs =>
        rw [List.cons_append, List.cons.injEq] at hys
        exact absurd (by simp [hxs, hys.1]) hx

/-- First tokens are rotated and saved, and behind that there are only mass revocations. -/
private theorem endsCleanly_of_parts {front back tr' : List (Label C Op Reply)}
    (hread : ∀ c u jtis, .call c ⟨.redis (.smembers (indexKey u)), jtis⟩ ∉ front)
    (hfront : ∀ c a r, .call c (did d a r) ∈ front →
      (∃ u j ex, a = .rotate u j ex) ∨ ∃ u j t, a = .save u j t)
    (hback : ∀ c a r, .call c (did d a r) ∈ back → ∃ u jtis, a = .revokeAll u jtis)
    (htr : front ++ back = tr ++ l :: tr') : EndsCleanly d req tr l := by
  refine ⟨?_, ?_, ?_⟩
  · rintro c u jtis r tr₁ tr₂ rfl rfl c' j t r' hsave
    rw [List.append_assoc, List.cons_append] at htr
    obtain ⟨_, _, ha⟩ := hback _ _ _ (subset_of_split htr (hread c u jtis)
      (List.mem_append_left _ hsave))
    cases ha
  · rintro c u j r rfl
    have hmem := htr.symm ▸ List.mem_append_right tr (List.mem_cons_self (l := tr'))
    rcases List.mem_append.mp hmem with hmem | hmem
    · rcases hfront _ _ _ hmem with ⟨_, _, _, ha⟩ | ⟨_, _, _, ha⟩ <;> cases ha
    · obtain ⟨_, _, ha⟩ := hback _ _ _ hmem
      cases ha
  · rintro c u j t r token p rfl _ _ tr₁ c' a r' tr₂ rfl hstops
    rw [List.append_assoc, List.cons_append] at htr
    by_cases hmem : Label.call c' (did d a r') ∈ front
    · rcases hfront _ _ _ hmem with ⟨_, _, _, rfl⟩ | ⟨_, _, _, rfl⟩ <;> exact hstops.elim
    · obtain ⟨_, _, ha⟩ := hback _ _ _ (subset_of_split htr hmem
        (List.mem_append_right _ List.mem_cons_self))
      cases ha

/-- One after the other: the refresh that presents the new token is rejected. -/
theorem session_end_final_sample :
    ∃ tr cfg response, Run (sem (Fin 3) sample) anyStep (start sample lateRequest loggedIn) tr cfg ∧
      (cfg.pool 0).outcome = some (.ok response) ∧
      (∃ n, (cfg.pool 1).outcome = some (.ok (.revoked n))) ∧
      (cfg.pool 2).outcome = some (.error sessionExpired) ∧
      EndIsFinal sample lateRequest loggedIn tr cfg := by
  let late : TokenPayload := { loginPayload with jti := "a₂" }
  have hfront := front_chain (d := sample) (n := 0) (0 : Fin 3) loginToken loginPayload
    sampleUser rfl token_loggedIn rfl
  obtain ⟨s₁, q, q', hback, hrotated⟩ := back_chain (d := sample) (n := 0) (0 : Fin 3)
    { loggedIn with redis := purge 0 loggedIn.redis } loginPayload sampleUser 0 rfl "a₁" "a₂"
    (by decide) (by decide)
  obtain ⟨s₂, jtis, r, hrevoke, hclock, _, _, hused, hswept⟩ := logoutAll_chain (d := sample)
    (1 : Fin 3) s₁ 1
  have hunmarked : s₂.used late.userId late.jti = none := by
    rw [hused, hrotated.unmarked late.userId late.jti (by decide)]
    rfl
  obtain ⟨s₃, hlate⟩ := refresh_unknown_chain (d := sample) (2 : Fin 3) (p := late)
    (hclock.trans hrotated.clock) (hswept "a₂" hrotated.index) hunmarked
  have hdec : decodes sample (refreshJwt sample 1 "a₂" 0) 0 = some late :=
    decodes_refreshJwt (Nat.le_refl 0) (by decide)
  have hrun := Run.of_chain ((hfront.append hback).append (hrevoke.append hlate))
    (p := fun c => serve sample (lateRequest c))
    (q := ![.ret (.tokens (issuedTokens sample 1 0 0 "a₁" "a₂")), .ret (.revoked jtis.length),
      .raise sessionExpired]) ?_
  · refine ⟨_, _, _, hrun, rfl, ⟨_, rfl⟩, rfl, session_end_final sound_loggedIn.indexed
      sound_loggedIn.bounded (hrun.guarded ?_)⟩
    rw [← List.map_append]
    intro tr₁ l tr₂ cfg₁ htr _
    refine endsCleanly_of_parts (fun c u jtis' hmem => ?_) (fun c a q'' hmem => ?_)
      (fun c a q'' hmem => ?_) htr
    · obtain ⟨e, he, heq⟩ := List.mem_map.mp hmem
      injection heq with _ heq
      exact not_smembers_of_refresh he (congrArg Event.op heq)
    · obtain ⟨e, he, heq⟩ := List.mem_map.mp hmem
      injection heq with _ heq
      rcases act_of_refresh he (congrArg Event.op heq) with rfl | rfl
      · exact Or.inl ⟨_, _, _, rfl⟩
      · exact Or.inr ⟨_, _, _, rfl⟩
    · refine ⟨1, jtis, ?_⟩
      rcases List.mem_append.mp hmem with hmem | hmem
      all_goals
        obtain ⟨e, he, heq⟩ := List.mem_map.mp hmem
        injection heq with _ heq
      · exact act_of_logoutAll he (congrArg Event.op heq)
      · exact absurd (congrArg Event.op heq) (act_of_unknown he)
  · intro c
    obtain rfl | rfl | rfl : c = 0 ∨ c = 1 ∨ c = 2 := by decide +revert
    · simp only [own_append, own_map_self, List.append_nil,
        own_map_ne (show (1 : Fin 3) ≠ 0 by decide),
        own_map_ne (show (2 : Fin 3) ≠ 0 by decide)]
      exact refresh_runs decodes_loginToken sampleUser rfl q q'
    · simp only [own_append, own_map_self, List.append_nil, List.nil_append,
        own_map_ne (show (0 : Fin 3) ≠ 1 by decide),
        own_map_ne (show (2 : Fin 3) ≠ 1 by decide)]
      exact logoutAll_runs 1 jtis r
    · simp only [own_append, own_map_self, List.nil_append,
        own_map_ne (show (0 : Fin 3) ≠ 2 by decide),
        own_map_ne (show (1 : Fin 3) ≠ 2 by decide)]
      exact refresh_unknown_runs hdec

/-- The user ends all sessions between the verification and the rotation. -/
theorem session_survives_logoutAll :
    ¬ ∀ tr cfg, Run (sem (Fin 3) sample) anyStep (start sample lateRequest loggedIn) tr cfg →
      EndIsFinal sample lateRequest loggedIn tr cfg := by
  intro h
  let late : TokenPayload := { loginPayload with jti := "a₂" }
  have hfront := front_chain (d := sample) (n := 0) (0 : Fin 3) loginToken loginPayload
    sampleUser rfl token_loggedIn rfl
  obtain ⟨s₁, jtis, r, hrevoke, hclock₁, husers₁, huuids₁, _⟩ := logoutAll_chain (d := sample)
    (1 : Fin 3) { loggedIn with redis := purge 0 loggedIn.redis } 1
  obtain ⟨s₂, q, q', hback, hclock₂, husers₂, huuids₂, htoken₂⟩ := back_chain (d := sample)
    (n := 0) (0 : Fin 3) s₁ loginPayload sampleUser 0 hclock₁ "a₁" "a₂"
    (by rw [huuids₁]; decide) (by rw [huuids₁]; decide)
  have huser₂ : getById s₂ 1 = some sampleUser := by rw [getById, husers₂, husers₁]; rfl
  have hlate := front_chain (d := sample) (n := 0) (2 : Fin 3)
    (refreshJwt sample 1 "a₂" 0) late sampleUser hclock₂ htoken₂ huser₂
  obtain ⟨s₃, v, v', hlate', _⟩ := back_chain (d := sample) (n := 0) (2 : Fin 3)
    { s₂ with redis := purge 0 s₂.redis } late sampleUser 0
    hclock₂ "b₁" "b₂" (by rw [huuids₂, huuids₁]; decide) (by rw [huuids₂, huuids₁]; decide)
  have hdec : decodes sample (refreshJwt sample 1 "a₂" 0) 0 = some late :=
    decodes_refreshJwt (Nat.le_refl 0) (by decide)
  have hrun := Run.of_chain (hfront.append (hrevoke.append (hback.append (hlate.append hlate'))))
    (p := fun c => serve sample (lateRequest c))
    (q := ![.ret (.tokens (issuedTokens sample 1 0 0 "a₁" "a₂")), .ret (.revoked jtis.length),
      .ret (.tokens (issuedTokens sample 1 0 0 "b₁" "b₂"))]) ?_
  · have hissued : Issued sample loggedIn ((refreshFront sample loginToken loginPayload
        sampleUser 0 0).map (Label.call (0 : Fin 3))) "j" := Or.inl List.mem_cons_self
    refine h _ _ hrun
      ((refreshFront sample loginToken loginPayload sampleUser 0 0).map (.call 0) ++
        [.call 1 ⟨.redis (.smembers (indexKey 1)), jtis⟩])
      (.call 1 (did sample (.revokeAll 1 jtis) r)) _ (1, "j") (1, "a₂")
      (by simp only [List.append_assoc, List.cons_append, List.nil_append]; rfl)
      (.revokeAll rfl hissued) (.single ⟨0, loginToken, "a₂", q', rfl,
        ident_of_decodes decodes_loginToken, ?_⟩) 2 (refreshJwt sample 1 "a₂" 0) ?_ rfl
      (ident_of_decodes hdec) _ rfl
    · exact List.mem_append_right _ (List.mem_append_right _ (List.mem_append_left _
        (List.mem_map_of_mem (save_mem_refreshBack q q'))))
    · simp only [own_append, own_map_ne (show (0 : Fin 3) ≠ 2 by decide),
        own_call_ne (show (1 : Fin 3) ≠ 2 by decide), List.append_nil]
  · intro c
    obtain rfl | rfl | rfl : c = 0 ∨ c = 1 ∨ c = 2 := by decide +revert
    · simp only [own_append, own_map_self, List.append_nil, List.nil_append,
        own_map_ne (show (1 : Fin 3) ≠ 0 by decide),
        own_map_ne (show (2 : Fin 3) ≠ 0 by decide)]
      exact refresh_runs decodes_loginToken sampleUser rfl q q'
    · simp only [own_append, own_map_self, List.append_nil, List.nil_append,
        own_map_ne (show (0 : Fin 3) ≠ 1 by decide),
        own_map_ne (show (2 : Fin 3) ≠ 1 by decide)]
      exact logoutAll_runs 1 jtis r
    · simp only [own_append, own_map_self, List.nil_append,
        own_map_ne (show (0 : Fin 3) ≠ 2 by decide),
        own_map_ne (show (1 : Fin 3) ≠ 2 by decide)]
      exact refresh_runs hdec sampleUser rfl v v'

end GreenCommunity.Auth
