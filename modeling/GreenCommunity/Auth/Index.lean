import GreenCommunity.Auth.Discipline
import GreenCommunity.Auth.Sample

/-!
# The index set covers every active token

`revoke_all` finds a user's tokens through the index set, so an active token
outside it can no longer be revoked in bulk.  `Indexed` says that there is none
and that the set outlives each of its tokens.  Every pipeline and the passage of
time keep it, with one exception: the deletion pipeline of a `revoke_all` drops
the whole set but deletes only the tokens its `SMEMBERS` saw.
-/

namespace GreenCommunity.Auth

open GreenCommunity.Base
open GreenCommunity.Base.Redis

variable {Tok : Type} {d : Deps Tok}

/-- Every active token is in its user's index set, which expires no earlier. -/
structure Indexed (s : State) : Prop where
  mem : ∀ {u j e}, s.token u j = some e → j ∈ s.index u
  outlives : ∀ {u j e}, s.token u j = some e → e.expireAt ≤ s.indexExpiry u

/-- No active token has more than a full life ahead of it. -/
def Bounded (d : Deps Tok) (s : State) : Prop :=
  ∀ u j e, s.token u j = some e →
    e.expireAt ≤ ((s.clock + d.settings.ttl : Nat) : WithTop Nat)

/-- The set of a later `SMEMBERS` covers every active token of the user. -/
theorem Indexed.smembers {s s' : State} (h : Indexed s) {u : Nat}
    {jtis : List String} (hs : step d s (.redis (.smembers (indexKey u))) jtis s')
    {j : String} (hj : (s.token u j).isSome) : j ∈ jtis := by
  obtain ⟨e, he⟩ := Option.isSome_iff_exists.mp hj
  rw [hs.1]
  exact h.mem he

section Steps

variable {s s' : State}

theorem Indexed.same (hsame : SameTables s s') (h : Indexed s) : Indexed s' where
  mem {u j e} he := by
    rw [hsame.index]
    exact h.mem (by rwa [hsame.token] at he)
  outlives {u j e} he := by
    rw [hsame.indexExpiry]
    exact h.outlives (by rwa [hsame.token] at he)

theorem Bounded.same (hsame : SameTables s s') (hclock : s'.clock = s.clock)
    (h : Bounded d s) : Bounded d s' := by
  intro u j e he
  rw [hclock]
  rw [hsame.token] at he
  exact h u j e he

theorem Indexed.drift (hd : drift s s') (h : Indexed s) : Indexed s' := by
  have hset : ∀ {u j e}, s'.token u j = some e →
      s.token u j = some e ∧ s'.index u = s.index u ∧
        s'.indexExpiry u = s.indexExpiry u := by
    intro u j e he
    obtain ⟨he, hlt⟩ := (token_drift hd).mp he
    exact ⟨he, index_drift hd (lt_of_lt_of_le hlt (h.outlives he))⟩
  constructor
  · intro u j e he
    obtain ⟨he, hindex, _⟩ := hset he
    rw [hindex]
    exact h.mem he
  · intro u j e he
    obtain ⟨he, _, hexpiry⟩ := hset he
    rw [hexpiry]
    exact h.outlives he

theorem Bounded.drift (hd : drift s s') (h : Bounded d s) : Bounded d s' := by
  intro u j e he
  have hle := h u j e ((token_drift hd).mp he).1
  have hclock : s.clock + d.settings.ttl ≤ s'.clock + d.settings.ttl :=
    Nat.add_le_add_right hd.1 _
  exact le_trans hle (WithTop.coe_le_coe.mpr hclock)

variable {a : Act} {r : Reply (.pipeline (a.cmds d))} (ha : a.Timed)
  (hs : step d s (.pipeline (a.cmds d)) r s')

include ha hs

theorem Bounded.act (h : Bounded d s) : Bounded d s' := by
  intro u j e he
  rw [step_clock hs]
  rcases (token_act ha hs u j e).mp he with ⟨t, _, rfl⟩ | ⟨_, _, he⟩
  · exact le_refl _
  · exact h u j e he

/-- A pipeline that deletes every active token it takes out of the index keeps
the index complete. -/
theorem Indexed.act (h : Indexed s) (hb : Bounded d s)
    (hcover : ∀ u j, a.Drops u j → (s.token u j).isSome → a.Kills u j) :
    Indexed s' := by
  have hmem : ∀ {u j e}, s'.token u j = some e → j ∈ s'.index u := by
    intro u j e he
    rw [index_act ha hs]
    rcases (token_act ha hs u j e).mp he with ⟨t, rfl, _⟩ | ⟨_, hkill, he⟩
    · exact Or.inl ⟨t, rfl⟩
    · refine Or.inr ⟨fun hdrop => hkill (hcover u j hdrop ?_), h.mem he⟩
      simp [he]
  refine ⟨hmem, ?_⟩
  intro u j e he
  rw [indexExpiry_act ha hs (hmem he)]
  rcases (token_act ha hs u j e).mp he with ⟨t, rfl, rfl⟩ | ⟨_, _, he⟩
  · rw [if_pos (show (Act.save u j t).Renews u from rfl)]
  · split
    · exact hb u j e he
    · exact h.outlives he

/-- Conversely, a complete index after the pipeline shows that it did. -/
theorem Indexed.covered (h : Indexed s') {u : Nat} {j : String} (hdrop : a.Drops u j)
    (hj : (s.token u j).isSome) : a.Kills u j := by
  obtain ⟨e, he⟩ := Option.isSome_iff_exists.mp hj
  by_contra hkill
  have hsave : ∀ t, a ≠ .save u j t := by
    rintro t rfl
    exact hdrop
  have hlive := (token_act ha hs u j e).mpr (Or.inr ⟨hsave, hkill, he⟩)
  rcases (index_act ha hs u j).mp (h.mem hlive) with ⟨t, ht⟩ | ⟨hndrop, _⟩
  · exact hsave t ht
  · exact hndrop hdrop

end Steps

/-- Only a mass deletion can take a token out of the index without deleting it. -/
theorem Act.kills_of_drops {a : Act} {u : Nat} {j : String} (h : a.Drops u j)
    (hall : ∀ v jtis, a = .revokeAll v jtis → v = u → j ∈ jtis) : a.Kills u j := by
  cases a with
  | save => exact h
  | rotate | revoke => exact h
  | revokeAll v jtis => exact ⟨h, hall v jtis rfl h.symm⟩

/-! ## Concurrent calls of the store -/

/-- A call of `RefreshTokenStore`. -/
inductive StoreCall where
  | save (userId : Nat) (jti tokenHash : String)
  | rotate (userId : Nat) (jti : String) (remainingTtlSeconds : Int)
  | revoke (userId : Nat) (jti : String)
  | revokeAll (userId : Nat)

/-- The program of a call. -/
def StoreCall.prog (d : Deps Tok) : StoreCall → AuthM Unit
  | .save userId jti tokenHash => Auth.save d userId jti tokenHash
  | .rotate userId jti remaining => Auth.rotate userId jti remaining
  | .revoke userId jti => Auth.revoke userId jti
  | .revokeAll userId => (fun _ => ()) <$> Auth.revokeAll userId

/-- Store calls set markers with a positive time to live. -/
theorem StoreCall.hist (call : StoreCall) :
    (call.prog d).Hist (Obeys d fun _ a => a.Timed) (fun _ _ => True) [] := by
  have hone : ∀ (a : Act), a.Timed →
      Prog.Hist (Obeys d fun _ a => a.Timed) (fun _ _ => True)
        (Prog.call (.pipeline (a.cmds d)) fun _ => .ret () : AuthM Unit) [] :=
    fun a ha r => ⟨obeys_act ha, trivial⟩
  cases call with
  | save u j t => exact hone (.save u j t) trivial
  | rotate u j remaining =>
      exact hone (.rotate u j _) (by show 0 < (max remaining 1).toNat; omega)
  | revoke u j => exact hone (.revoke u j) trivial
  | revokeAll u =>
      intro jtis
      refine ⟨obeys_idle (idle_read trivial rfl), fun r => ⟨?_, trivial⟩⟩
      exact obeys_act (a := .revokeAll u jtis) trivial

section Runs

variable {C : Type} [DecidableEq C] {call : C → StoreCall}
  {ok : Guard C Op Reply AppError Unit State} {init : State}
  {tr : List (Label C Op Reply)} {cfg cfg' : Config C Op Reply AppError Unit State}
  {l : Label C Op Reply}

/-- Every step of a pool of store calls is a pipeline with positive times, a quiet
event, or the passage of time. -/
theorem store_step (h : Run (sem C d) ok ⟨init, fun c => (call c).prog d⟩ tr cfg)
    (hl : Step (sem C d) cfg l cfg') :
    drift cfg.state cfg'.state ∨
    (SameTables cfg.state cfg'.state ∧ cfg'.state.clock = cfg.state.clock) ∨
    ∃ c a r, l = .call c (did d a r) ∧ a.Timed ∧
      step d cfg.state (.pipeline (a.cmds d)) r cfg'.state := by
  rcases pool_step hl with ⟨_, hdrift⟩ | ⟨c, e, rfl, hstep⟩
  · exact Or.inl hdrift
  · have hobeys := h.hist_step (fun c => (call c).hist) hl
    rcases hobeys.cases hstep with ⟨a, r, rfl, ha, hs⟩ | ⟨_, hsame⟩
    · exact Or.inr (Or.inr ⟨c, a, r, rfl, ha, hs⟩)
    · exact Or.inr (Or.inl ⟨hsame, step_clock hstep⟩)

theorem bounded_run (h : Run (sem C d) ok ⟨init, fun c => (call c).prog d⟩ tr cfg)
    (h0 : Bounded d init) : Bounded d cfg.state := by
  refine Run.inv (fun _ cfg => Bounded d cfg.state) h0 ?_ h
  intro tr cfg l cfg' hrun hb hl _
  rcases store_step hrun hl with hdrift | ⟨hsame, hclock⟩ | ⟨c, a, r, rfl, ha, hs⟩
  · exact hb.drift hdrift
  · exact hb.same hsame hclock
  · exact hb.act ha hs

/-- Whenever a `revoke_all` runs its deletion pipeline, the set it has read still
contains every active token of the user. -/
def SnapshotCurrent {α : Type} (d : Deps Tok) : Guard C Op Reply AppError α State :=
  fun _ cfg l => ∀ c u jtis r, l = .call c (did d (.revokeAll u jtis) r) →
    ∀ j, (cfg.state.token u j).isSome → j ∈ jtis

/-- A run through states with a complete index. -/
def StaysIndexed {α : Type} : Guard C Op Reply AppError α State :=
  fun _ cfg _ => Indexed cfg.state

/-- The index set covers every active token in every state of a run exactly when
no deletion pipeline of the run deletes by a stale set. -/
theorem indexed_iff_snapshotCurrent (hindexed : Indexed init) (hbounded : Bounded d init) :
    Run (sem C d) StaysIndexed ⟨init, fun c => (call c).prog d⟩ tr cfg ∧
        Indexed cfg.state ↔
      Run (sem C d) (SnapshotCurrent d) ⟨init, fun c => (call c).prog d⟩ tr cfg := by
  constructor
  · rintro ⟨h, hend⟩
    induction h with
    | nil => exact .nil
    | @snoc tr cfg cfg' l hrun hl hok ih =>
        refine .snoc (ih hok) hl ?_
        rintro c u jtis r rfl j hj
        cases hl with
        | call _ hstep =>
            exact (hend.covered (a := .revokeAll u jtis) trivial hstep rfl hj).2
  · intro h
    induction h with
    | nil => exact ⟨.nil, hindexed⟩
    | @snoc tr cfg cfg' l hrun hl hok ih =>
        refine ⟨.snoc ih.1 hl ih.2, ?_⟩
        rcases store_step hrun hl with hdrift | ⟨hsame, _⟩ | ⟨c, a, r, rfl, ha, hs⟩
        · exact ih.2.drift hdrift
        · exact ih.2.same hsame
        · refine ih.2.act ha hs (bounded_run hrun hbounded) fun u j hdrop hj => ?_
          refine Act.kills_of_drops hdrop ?_
          rintro v jtis rfl rfl
          exact hok c v jtis r rfl j hj

end Runs

theorem token_fresh (u : Nat) (j : String) : freshState.token u j = none := rfl

theorem indexed_fresh : Indexed freshState where
  mem h := by simp [token_fresh] at h
  outlives h := by simp [token_fresh] at h

theorem bounded_fresh : Bounded d freshState := by
  intro u j e h
  simp [token_fresh] at h

theorem snapshotCurrent_act {C α : Type} {tr : List (Label C Op Reply)}
    {cfg : Config C Op Reply AppError α State} {c : C} {a : Act}
    {r : Reply (.pipeline (a.cmds d))}
    (h : ∀ u jtis, a = .revokeAll u jtis → ∀ j, (cfg.state.token u j).isSome → j ∈ jtis) :
    SnapshotCurrent d tr cfg (.call c (did d a r)) := by
  intro c' u jtis r' hl
  injection hl with _ he
  injection congrArg Event.op he with hcmds
  exact h u jtis (Act.cmds_inj hcmds)

/-- Somebody logs in, logs out everywhere and logs in again. -/
def threeCalls : Fin 3 → StoreCall
  | 0 => .save 1 "a" "h"
  | 1 => .revokeAll 1
  | 2 => .save 1 "b" "h"

/-- The mass deletion has read the first token and deletes it, and the second token is saved
afterwards. -/
theorem indexed_around_revoke : ∃ tr cfg,
    Run (sem (Fin 3) sample) (SnapshotCurrent sample)
      ⟨freshState, fun c => (threeCalls c).prog sample⟩ tr cfg ∧
    (∀ c, (cfg.pool c).outcome = some (.ok ())) ∧ cfg.state.token 1 "a" = none ∧
    (cfg.state.token 1 "b").isSome ∧ Indexed cfg.state := by
  obtain ⟨r₁, s₁, hfirst⟩ : ∃ r s, step sample freshState
      (.pipeline ((Act.save 1 "a" "h").cmds sample)) r s := ⟨_, _, rfl, rfl⟩
  obtain ⟨s₂, hread⟩ : ∃ s, step sample s₁ (.redis (.smembers (indexKey 1))) (s₁.index 1) s :=
    ⟨_, rfl, rfl⟩
  obtain ⟨r₃, s₃, hdelete⟩ : ∃ r s, step sample s₂
      (.pipeline ((Act.revokeAll 1 (s₁.index 1)).cmds sample)) r s := ⟨_, _, rfl, rfl⟩
  obtain ⟨r₄, s₄, hsecond⟩ : ∃ r s, step sample s₃
      (.pipeline ((Act.save 1 "b" "h").cmds sample)) r s := ⟨_, _, rfl, rfl⟩
  have hsame := (idle_read (d := sample) (c := .smembers (indexKey 1)) trivial rfl).1 _ _ _ hread
  have hsave : ∀ j, (Act.save 1 j "h").Timed := fun _ => trivial
  have hdel : (Act.revokeAll 1 (s₁.index 1)).Timed := trivial
  have hfound : "a" ∈ s₁.index 1 :=
    (index_act (hsave "a") hfirst 1 "a").mpr (Or.inl ⟨"h", rfl⟩)
  have hcurrent : ∀ j, (s₂.token 1 j).isSome → j ∈ s₁.index 1 := by
    intro j hj
    obtain ⟨e, he⟩ := Option.isSome_iff_exists.mp hj
    rw [hsame.token] at he
    rcases (token_act (hsave "a") hfirst 1 j e).mp he with ⟨t, ht, _⟩ | ⟨_, _, he⟩
    · injection ht with _ hj
      exact hj ▸ hfound
    · simp [token_fresh] at he
  let p₀ : Fin 3 → AuthM Unit := fun c => (threeCalls c).prog sample
  let p₁ := Function.update p₀ 0 (.ret ())
  let p₂ := Function.update p₁ 1 (.call (.pipeline (revokeAllCmds 1 (s₁.index 1))) fun _ => .ret ())
  let p₃ := Function.update p₂ 1 (.ret ())
  let p₄ := Function.update p₃ 2 (.ret ())
  have hstep₁ : Step (sem (Fin 3) sample) ⟨freshState, p₀⟩
      (.call 0 (did sample (.save 1 "a" "h") r₁)) ⟨s₁, p₁⟩ :=
    .call (k := fun _ => .ret ()) rfl hfirst
  have hnext : (⟨s₁, p₁⟩ : Config (Fin 3) Op Reply AppError Unit State).pool 1 =
      .call (.redis (.smembers (indexKey 1))) fun jtis =>
        .call (.pipeline (revokeAllCmds 1 jtis)) fun _ => .ret () := rfl
  have hstep₂ : Step (sem (Fin 3) sample) ⟨s₁, p₁⟩
      (.call 1 ⟨.redis (.smembers (indexKey 1)), s₁.index 1⟩) ⟨s₂, p₂⟩ := by
    have hcall := Step.call (S := sem (Fin 3) sample) hnext hread
    exact hcall
  have hstep₃ : Step (sem (Fin 3) sample) ⟨s₂, p₂⟩
      (.call 1 (did sample (.revokeAll 1 (s₁.index 1)) r₃)) ⟨s₃, p₃⟩ :=
    .call (k := fun _ => .ret ()) rfl hdelete
  have hstep₄ : Step (sem (Fin 3) sample) ⟨s₃, p₃⟩
      (.call 2 (did sample (.save 1 "b" "h") r₄)) ⟨s₄, p₄⟩ :=
    .call (k := fun _ => .ret ()) rfl hsecond
  have hrun := Run.snoc (Run.snoc (Run.snoc (Run.snoc .nil hstep₁ (snapshotCurrent_act nofun))
      hstep₂ nofun)
    hstep₃ (snapshotCurrent_act (by rintro u jtis ⟨⟩; exact hcurrent)))
    hstep₄ (snapshotCurrent_act nofun)
  refine ⟨_, _, hrun, ?_, ?_, ?_,
    ((indexed_iff_snapshotCurrent indexed_fresh bounded_fresh).mpr hrun).2⟩
  · intro c
    obtain rfl | rfl | rfl : c = 0 ∨ c = 1 ∨ c = 2 := by decide +revert
    all_goals rfl
  · by_contra hlive
    obtain ⟨e, he⟩ := Option.ne_none_iff_exists'.mp hlive
    rcases (token_act (hsave "b") hsecond 1 "a" e).mp he with ⟨t, ht, _⟩ | ⟨_, _, he⟩
    · injection ht with _ hj
      exact absurd hj (by decide)
    · rcases (token_act hdel hdelete 1 "a" e).mp he with ⟨t, ht, _⟩ | ⟨_, hkill, _⟩
      · cases ht
      · exact hkill ⟨rfl, hfound⟩
  · exact Option.isSome_iff_exists.mpr
      ⟨_, (token_act (hsave "b") hsecond 1 "b" _).mpr (Or.inl ⟨"h", rfl, rfl⟩)⟩

/-- One `save` from an empty Redis. -/
def savedState : State :=
  { freshState with redis := (pipeline 0 freshState.redis (saveCmds sample 1 "a" "h")).2 }

/-- A `save` between the `SMEMBERS` and the deletion pipeline of a `revoke_all`. -/
def escapeCall : Bool → StoreCall
  | false => .revokeAll 1
  | true => .save 1 "a" "h"

def escapedState : State :=
  { savedState with redis := (pipeline 0 savedState.redis (revokeAllCmds 1 [])).2 }

theorem token_escapes_index :
    ¬ ∀ tr cfg, Run (sem Bool sample) anyStep
      ⟨freshState, fun c => (escapeCall c).prog sample⟩ tr cfg → Indexed cfg.state := by
  intro h
  have hsave : step sample freshState (.pipeline ((Act.save 1 "a" "h").cmds sample))
      (pipeline 0 freshState.redis (saveCmds sample 1 "a" "h")).1 savedState := ⟨rfl, rfl⟩
  have hdel : step sample savedState (.pipeline ((Act.revokeAll 1 []).cmds sample))
      (pipeline 0 savedState.redis (revokeAllCmds 1 [])).1 escapedState := ⟨rfl, rfl⟩
  have hsmembers : step sample freshState (.redis (.smembers (indexKey 1))) []
      freshState := ⟨rfl, rfl⟩
  have hchain : Chain (sem Bool sample) freshState
      [.call false ⟨.redis (.smembers (indexKey 1)), []⟩,
        .call true (did sample (.save 1 "a" "h") _),
        .call false (did sample (.revokeAll 1 []) _)] escapedState :=
    .call hsmembers (.call hsave (.call hdel .nil))
  have hrun := h _ _ (Run.of_chain hchain (q := fun _ => .ret ()) fun c => by
    cases c with
    | false => exact .cons (.cons .nil)
    | true => exact .cons .nil)
  have htimed : ∀ u jtis, (Act.revokeAll u jtis).Timed := fun _ _ => trivial
  have hborn := (token_act (a := .save 1 "a" "h") trivial hsave 1 "a" _).mpr
    (Or.inl ⟨"h", rfl, rfl⟩)
  have hlive := (token_act (htimed 1 []) hdel 1 "a" _).mpr
    (Or.inr ⟨nofun, by simp [Act.Kills], hborn⟩)
  rcases (index_act (htimed 1 []) hdel 1 "a").mp (hrun.mem hlive) with ⟨t, ht⟩ | ⟨hdrop, _⟩
  · cases ht
  · exact hdrop rfl

end GreenCommunity.Auth
