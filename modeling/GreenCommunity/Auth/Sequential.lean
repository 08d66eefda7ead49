import GreenCommunity.Auth.Index
import GreenCommunity.Auth.Traces
import GreenCommunity.Base.Serial

/-!
# Requests served one at a time

With one request at a time nothing comes between a read of a request and its
writes, so the hazards of interleaving are gone: the index stays complete, a
token is rotated once, and a used marker stands for exactly one rotation.  `Sound`
collects these facts about the state and the events so far; `sound_serial` proves
them of every sequence of requests, with time passing between requests and, if the
environment lets it, between the operations of a request.
-/

namespace GreenCommunity.Auth

open GreenCommunity.Base
open GreenCommunity.Base.Redis

variable {Tok : Type} (d : Deps Tok)

/-- An event and the state it met. -/
abbrev TimedEvent := State × AuthEvent

/-- Requests served alone, with the environment `env` between their operations. -/
def soloSem (env : State → State → Prop) : Sem Unit Op Reply State where
  step _ s op r s' := step d s op r s'
  env := env

/-- The token was rotated and its marker expires at `T`. -/
structure Marker (s : State) (u : Nat) (j : String) (T : Nat) : Prop where
  dead : s.token u j = none
  spent : j ∈ s.uuids
  used : ∀ x, s.used u j = some x ↔ x = ⟨.str "1", (T : WithTop Nat)⟩ ∧ s.clock < T

/-- What holds between requests and throughout each of them. -/
structure Sound (evs : List TimedEvent) (s : State) : Prop where
  indexed : Indexed s
  bounded : Bounded d s
  known : ∀ {u j}, (s.token u j).isSome → j ∈ s.uuids
  marked : ∀ {sR u j ex r}, (sR, did d (.rotate u j ex) r) ∈ evs →
    Marker s u j (sR.clock + ticks ex)
  rotated : ∀ {u j}, (s.used u j).isSome →
    ∃ sR ex r, (sR, did d (.rotate u j ex) r) ∈ evs

/-- What a request's own events `past`, after the earlier events `evs`, say about
the state. -/
structure Inside (evs past : List TimedEvent) (s : State) : Prop where
  snapshot : ∀ {past' s₀ u jtis}, past = past' ++
    [(s₀, ⟨.redis (.smembers (indexKey u)), jtis⟩)] →
      ∀ {j}, (s.token u j).isSome → j ∈ jtis
  drawn : ∀ {j}, (⟨.uuid4, j⟩ : AuthEvent) ∈ past.map Prod.snd → j ∈ s.uuids
  fresh : ∀ {sR u j ex r}, (⟨.uuid4, j⟩ : AuthEvent) ∈ past.map Prod.snd →
    (sR, did d (.rotate u j ex) r) ∉ evs ++ past
  read : ∀ {token u j}, verified d token u j ∈ past.map Prod.snd →
    j ∈ s.uuids ∧ ∀ {sR ex r}, (sR, did d (.rotate u j ex) r) ∉ evs

variable {d} {evs past : List TimedEvent} {s s' : State}

/-! ## The passage of time -/

theorem live_of_drift {u : Nat} {j : String} (h : drift s s')
    (hj : (s'.token u j).isSome) : (s.token u j).isSome := by
  obtain ⟨e, he⟩ := Option.isSome_iff_exists.mp hj
  simp [((token_drift h).mp he).1]

theorem uuids_drift (h : drift s s') : s'.uuids = s.uuids := by
  rw [h.2]

theorem Marker.drift {u : Nat} {j : String} {T : Nat} (h : Auth.drift s s')
    (hm : Marker s u j T) : Marker s' u j T where
  dead := by
    by_contra hlive
    obtain ⟨e, he⟩ := Option.ne_none_iff_exists'.mp hlive
    have hbefore := ((token_drift h).mp he).1
    rw [hm.dead] at hbefore
    cases hbefore
  spent := by
    rw [uuids_drift h]
    exact hm.spent
  used x := by
    have hcast : (s'.clock : WithTop Nat) < (T : WithTop Nat) ↔ s'.clock < T :=
      WithTop.coe_lt_coe
    rw [used_drift h, hm.used]
    constructor
    · rintro ⟨⟨rfl, _⟩, hlt⟩
      exact ⟨rfl, hcast.mp hlt⟩
    · rintro ⟨rfl, hlt⟩
      exact ⟨⟨rfl, Nat.lt_of_le_of_lt h.1 hlt⟩, hcast.mpr hlt⟩

theorem Sound.drift (h : Auth.drift s s') (hs : Sound d evs s) : Sound d evs s' where
  indexed := hs.indexed.drift h
  bounded := hs.bounded.drift h
  known hj := by
    rw [uuids_drift h]
    exact hs.known (live_of_drift h hj)
  marked hmem := (hs.marked hmem).drift h
  rotated hj := by
    obtain ⟨x, hx⟩ := Option.isSome_iff_exists.mp hj
    exact hs.rotated (Option.isSome_iff_exists.mpr ⟨x, ((used_drift h).mp hx).1⟩)

theorem Inside.drift (h : Auth.drift s s') (hi : Inside d evs past s) :
    Inside d evs past s' where
  snapshot hpast _ hj := hi.snapshot hpast (live_of_drift h hj)
  drawn hj := by
    rw [uuids_drift h]
    exact hi.drawn hj
  fresh := hi.fresh
  read hread := by
    rw [uuids_drift h]
    exact hi.read hread

/-! ## Events -/

theorem uuids_step {e : AuthEvent} (h : step d s e.op e.reply s') {j : String}
    (hj : j ∈ s.uuids) : j ∈ s'.uuids := by
  rcases step_uuids h with ⟨k, _, _, huuids⟩ | ⟨_, huuids⟩
  · rw [huuids]
    exact List.mem_cons_of_mem k hj
  · rwa [huuids]

/-- A marker outlives every event but a `save` under its `jti` and a second
rotation. -/
theorem Marker.act {u : Nat} {j : String} {T : Nat} {a : Act}
    {r : Reply (.pipeline (a.cmds d))} (ha : a.Timed)
    (h : step d s (.pipeline (a.cmds d)) r s') (hsave : ∀ v t, a ≠ .save v j t)
    (hrotate : ∀ ex, a ≠ .rotate u j ex) (hm : Marker s u j T) : Marker s' u j T where
  dead := by
    by_contra hlive
    obtain ⟨e, he⟩ := Option.ne_none_iff_exists'.mp hlive
    rcases (token_act ha h u j e).mp he with ⟨t, rfl, _⟩ | ⟨_, _, he⟩
    · exact hsave u t rfl
    · rw [hm.dead] at he
      cases he
  spent := uuids_step (e := did d a r) h hm.spent
  used x := by
    rw [used_act ha h, step_clock h, ← hm.used]
    exact ⟨fun hx => (hx.resolve_left fun ⟨ex, hex, _⟩ => hrotate ex hex).2,
      fun hx => Or.inr ⟨hrotate, hx⟩⟩

theorem Marker.same {u : Nat} {j : String} {T : Nat} {e : AuthEvent}
    (hsame : SameTables s s') (h : step d s e.op e.reply s') (hm : Marker s u j T) :
    Marker s' u j T where
  dead := by
    rw [hsame.token]
    exact hm.dead
  spent := uuids_step h hm.spent
  used x := by
    rw [hsame.used, step_clock h]
    exact hm.used x

/-- The marker of a rotation that has just run. -/
theorem marker_of_rotate {u : Nat} {j : String} {ex : Nat}
    {r : Reply (.pipeline ((Act.rotate u j ex).cmds d))} (hex : 0 < ex)
    (h : step d s (.pipeline ((Act.rotate u j ex).cmds d)) r s') (hj : j ∈ s.uuids) :
    Marker s' u j (s.clock + ticks ex) where
  dead := by
    by_contra hlive
    obtain ⟨e, he⟩ := Option.ne_none_iff_exists'.mp hlive
    rcases (token_act (a := .rotate u j ex) hex h u j e).mp he with ⟨_, ht, _⟩ | ⟨_, hk, _⟩
    · cases ht
    · exact hk ⟨rfl, rfl⟩
  spent := uuids_step (e := did d (.rotate u j ex) r) h hj
  used x := by
    rw [used_act (a := .rotate u j ex) hex h, step_clock h]
    constructor
    · rintro (⟨ex', hex', rfl⟩ | ⟨hne, _⟩)
      · cases hex'
        exact ⟨rfl, Nat.lt_add_of_pos_right (ticks_pos hex)⟩
      · exact absurd rfl (hne ex)
    · rintro ⟨rfl, _⟩
      exact Or.inl ⟨ex, rfl, rfl⟩

/-- The event list grows; the marker of an old rotation needs an argument, the
rest of `Sound` is about the state. -/
private theorem mem_snoc_rotate {sR s₀ : State} {u : Nat} {j : String} {ex : Nat}
    {r : Reply (.pipeline ((Act.rotate u j ex).cmds d))} {e : AuthEvent}
    (h : (sR, did d (.rotate u j ex) r) ∈ evs ++ [(s₀, e)]) :
    (sR, did d (.rotate u j ex) r) ∈ evs ∨ (sR = s₀ ∧ e = did d (.rotate u j ex) r) := by
  rcases List.mem_append.mp h with h | h
  · exact Or.inl h
  · have heq := List.mem_singleton.mp h
    injection heq with hs he
    exact Or.inr ⟨hs, he.symm⟩

/-- A quiet event keeps everything. -/
private theorem Sound.quiet {e : AuthEvent} (hsame : SameTables s s')
    (h : step d s e.op e.reply s') (hop : ∀ a : Act, e.op ≠ .pipeline (a.cmds d))
    (hs : Sound d evs s) : Sound d (evs ++ [(s, e)]) s' where
  indexed := hs.indexed.same hsame
  bounded := hs.bounded.same hsame (step_clock h)
  known hj := uuids_step h (hs.known (by rwa [hsame.token] at hj))
  marked hmem := by
    rcases mem_snoc_rotate hmem with hmem | ⟨_, rfl⟩
    · exact (hs.marked hmem).same hsame h
    · exact absurd rfl (hop _)
  rotated hj := by
    rw [hsame.used] at hj
    obtain ⟨sR, ex, r, hmem⟩ := hs.rotated hj
    exact ⟨sR, ex, r, List.mem_append_left _ hmem⟩

/-- A pipeline in its place keeps everything. -/
private theorem Sound.act {req : Request Tok} {a : Act}
    {r : Reply (.pipeline (a.cmds d))}
    (hrule : Rule d req (past.map Prod.snd) a)
    (h : step d s (.pipeline (a.cmds d)) r s') (hs : Sound d (evs ++ past) s)
    (hi : Inside d evs past s) : Sound d (evs ++ past ++ [(s, did d a r)]) s' := by
  have ha := hrule.timed
  -- an identifier of the pipeline's own token was never rotated
  have hrotate : ∀ {sR u j ex r'}, (sR, did d (.rotate u j ex) r') ∈ evs ++ past →
      (∀ v t, a ≠ .save v j t) ∧ ∀ ex', a ≠ .rotate u j ex' := by
    intro sR u j ex r' hmem
    constructor
    · rintro v t rfl
      exact hi.fresh hrule.1 hmem
    · rintro ex' rfl
      obtain ⟨_, hfirst, token, _, _, hread⟩ := hrule
      rcases List.mem_append.mp hmem with hmem | hmem
      · exact (hi.read hread).2 hmem
      · exact (hfirst _ (List.mem_map_of_mem hmem)).2 _ rfl
  refine ⟨hs.indexed.act ha h hs.bounded ?_, hs.bounded.act ha h, ?_, ?_, ?_⟩
  · intro u j hdrop hj
    refine Act.kills_of_drops hdrop ?_
    rintro v jtis rfl rfl
    obtain ⟨past', hpast⟩ := hrule
    rcases List.eq_nil_or_concat past with rfl | ⟨init, ⟨s₀, e₀⟩, rfl⟩
    · simp at hpast
    · rw [List.concat_eq_append] at hpast hi
      rw [List.map_append] at hpast
      obtain ⟨_, hlast⟩ := List.append_inj' hpast rfl
      simp only [List.map_cons, List.map_nil, List.cons.injEq, and_true] at hlast
      subst hlast
      exact hi.snapshot rfl hj
  · intro u j hj
    obtain ⟨e, he⟩ := Option.isSome_iff_exists.mp hj
    refine uuids_step (e := did d a r) h ?_
    rcases (token_act ha h u j e).mp he with ⟨t, rfl, _⟩ | ⟨_, _, he⟩
    · exact hi.drawn hrule.1
    · exact hs.known (Option.isSome_iff_exists.mpr ⟨e, he⟩)
  · intro sR u j ex r' hmem
    rcases mem_snoc_rotate hmem with hmem | ⟨rfl, he⟩
    · obtain ⟨hsave, hrot⟩ := hrotate hmem
      exact (hs.marked hmem).act ha h hsave hrot
    · injection congrArg Event.op he with hcmds
      obtain rfl := Act.cmds_inj hcmds
      obtain ⟨hex, _, token, _, _, hread⟩ := hrule
      exact marker_of_rotate hex h (hi.read hread).1
  · intro u j hj
    obtain ⟨x, hx⟩ := Option.isSome_iff_exists.mp hj
    rcases (used_act ha h u j x).mp hx with ⟨ex, rfl, _⟩ | ⟨_, hx⟩
    · exact ⟨s, ex, r, by simp⟩
    · obtain ⟨sR, ex, r', hmem⟩ := hs.rotated (Option.isSome_iff_exists.mpr ⟨x, hx⟩)
      exact ⟨sR, ex, r', List.mem_append_left _ hmem⟩

/-- The facts about the request's own events, after one more event. -/
private theorem Inside.step {req : Request Tok} {e : AuthEvent}
    (hallowed : Allowed d req (past.map Prod.snd) e) (h : step d s e.op e.reply s')
    (hs : Sound d (evs ++ past) s) (hi : Inside d evs past s) :
    Inside d evs (past ++ [(s, e)]) s' := by
  have hmap : (past ++ [(s, e)]).map Prod.snd = past.map Prod.snd ++ [e] := by simp
  refine ⟨?_, ?_, ?_, ?_⟩
  · intro past' s₀ u jtis hpast j hj
    obtain ⟨rfl, hlast⟩ := List.append_inj' hpast rfl
    cases hlast
    have hsame : SameTables s s' := (idle_read (c := .smembers (indexKey u)) trivial rfl).1 _ _ _ h
    rw [hsame.token] at hj
    exact hs.indexed.smembers h hj
  · intro j hj
    rw [hmap, List.mem_append, List.mem_singleton] at hj
    rcases hj with hj | rfl
    · exact uuids_step h (hi.drawn hj)
    · obtain ⟨_, rfl⟩ := h
      exact List.mem_cons_self
  · intro sR u j ex r hj hmem
    rw [hmap, List.mem_append, List.mem_singleton] at hj
    rw [← List.append_assoc] at hmem
    rcases mem_snoc_rotate hmem with hold | ⟨_, rfl⟩
    · rcases hj with hj | rfl
      · exact hi.fresh hj hold
      · exact h.1 (hs.marked hold).spent
    · rcases hj with hj | hj
      · exact ((hallowed.rule _ rfl).2.1 _ hj).1 rfl
      · cases hj
  · intro token u j hread
    rw [hmap, List.mem_append, List.mem_singleton] at hread
    rcases hread with hread | rfl
    · exact ⟨uuids_step h (hi.read hread).1, (hi.read hread).2⟩
    · have hlive := live_of_get d h
      refine ⟨uuids_step h (hs.known hlive), fun hmem => ?_⟩
      have hdead := (hs.marked (List.mem_append_left _ hmem)).dead
      simp [hdead] at hlive

/-- One event of a request, after the time that passed before it. -/
theorem sound_step {req : Request Tok} {s₀ s₁ : State} {e : AuthEvent}
    (hdrift : Auth.drift s s₀) (h : step d s₀ e.op e.reply s₁)
    (hallowed : Allowed d req (past.map Prod.snd) e) (hs : Sound d (evs ++ past) s)
    (hi : Inside d evs past s) :
    Sound d (evs ++ past ++ [(s₀, e)]) s₁ ∧ Inside d evs (past ++ [(s₀, e)]) s₁ := by
  have hs₀ := hs.drift hdrift
  have hi₀ := hi.drift hdrift
  refine ⟨?_, hi₀.step hallowed h hs₀⟩
  rcases hallowed.cases h with ⟨a, r, rfl, hrule, hstep⟩ | ⟨hop, hsame⟩
  · exact hs₀.act hrule hstep hi₀
  · exact hs₀.quiet hsame h hop

/-! ## Sequences of requests -/

section Serial

variable {env pause : State → State → Prop} (henv : ∀ s s', env s s' → drift s s')
  (hpause : ∀ s s', pause s s' → drift s s') {init : State}
  {log : List (Served (Request Tok) Op Reply AppError (Response Tok) State)}

/-- What one request does: everything stays sound, at every event of it too, and a
mass revocation leaves the user without an active token. -/
structure Executed (d : Deps Tok) (evs evs' : List TimedEvent) (s' : State) : Prop where
  sound : Sound d (evs ++ evs') s'
  inside : Inside d evs evs' s'
  at_event : ∀ {s₀ e}, (s₀, e) ∈ evs' → ∃ pre, Sound d (evs ++ pre) s₀
  cleared : ∀ {sP u jtis r}, (sP, did d (.revokeAll u jtis) r) ∈ evs' →
    (∀ v k t, ∀ x ∈ evs', x.2.op ≠ .pipeline (saveCmds d v k t)) →
    ∀ k, s'.token u k = none

/-- No active token of the user comes into being without a `save`. -/
private theorem none_of_step {req : Request Tok} {s₀ s₁ : State} {e : AuthEvent} {u : Nat}
    (hdrift : Auth.drift s s₀) (h : step d s₀ e.op e.reply s₁)
    (hallowed : Allowed d req (past.map Prod.snd) e)
    (hsave : ∀ v k t, e.op ≠ .pipeline (saveCmds d v k t))
    (hnone : ∀ k, s.token u k = none) : ∀ k, s₁.token u k = none := by
  intro k
  by_contra hlive
  obtain ⟨x, hx⟩ := Option.ne_none_iff_exists'.mp hlive
  have hbefore : s₀.token u k = some x := by
    rcases hallowed.cases h with ⟨a, r, rfl, hrule, hstep⟩ | ⟨_, hsame⟩
    · rcases (token_act hrule.timed hstep u k x).mp hx with ⟨t, rfl, _⟩ | ⟨_, _, hx⟩
      · exact absurd rfl (hsave u k t)
      · exact hx
    · rwa [hsame.token] at hx
  have hold := ((token_drift hdrift).mp hbefore).1
  rw [hnone] at hold
  cases hold

include henv in
theorem executed {req : Request Tok} {o : Option (Except AppError (Response Tok))}
    {evs' : List TimedEvent} (hs : Sound d evs s)
    (h : Exec (soloSem d env) () s (serve d req) evs' o s') : Executed d evs evs' s' := by
  refine h.inv (fun past s => Executed d evs past s) ?_ [] (serve_hist req)
    ⟨by simpa using hs, ⟨by simp, by simp, by simp, by simp⟩, by simp, by simp⟩
  intro past s s₀ s₁ e hx hw hstep hallowed
  have hdrift := henv _ _ hw
  obtain ⟨hsound, hinside⟩ := sound_step hdrift hstep hallowed hx.sound hx.inside
  refine ⟨by rwa [← List.append_assoc], hinside, ?_, ?_⟩
  · intro s₂ e₂ hmem
    rcases List.mem_append.mp hmem with hmem | hmem
    · exact hx.at_event hmem
    · cases List.mem_singleton.mp hmem
      exact ⟨past, hx.sound.drift hdrift⟩
  · intro sP u jtis r hmem hsave
    have hlast : ∀ v k t, e.op ≠ .pipeline (saveCmds d v k t) :=
      fun v k t => hsave v k t (s₀, e) (by simp)
    rcases List.mem_append.mp hmem with hmem | hmem
    · refine none_of_step hdrift hstep hallowed hlast (hx.cleared hmem ?_)
      exact fun v k t x hxmem => hsave v k t x (List.mem_append_left _ hxmem)
    · cases List.mem_singleton.mp hmem
      -- the pipeline itself: what was active was in the set read just before
      intro k
      by_contra hlive
      obtain ⟨x, hxlive⟩ := Option.ne_none_iff_exists'.mp hlive
      have hafter := hsound.indexed.mem hxlive
      rcases (index_act (a := .revokeAll u jtis) trivial hstep u k).mp hafter with
        ⟨t, ht⟩ | ⟨hdrop, _⟩
      · cases ht
      · exact hdrop rfl

include henv hpause in
theorem sound_serial (h0 : Sound d [] init)
    (h : Serial (soloSem d env) () pause (serve d) init log s) :
    Sound d (allEvents log) s := by
  refine Serial.inv (fun log s => Sound d (allEvents log) s) h0 ?_ ?_ h
  · exact fun log s s' hs hw => hs.drift (hpause _ _ hw)
  · intro log s s' q evs o _ hs hx
    rw [allEvents_snoc]
    exact (executed henv hs hx).sound

end Serial

theorem sound_loggedIn : Sound sample [] loggedIn := by
  have hsave : step sample { freshState with uuids := ["j"] }
      (.pipeline ((Act.save 1 "j" "j").cmds sample))
      (pipeline 0 freshState.redis (saveCmds sample 1 "j" "j")).1 loggedIn := ⟨rfl, rfl⟩
  have hfresh : ∀ u j, ({ freshState with uuids := ["j"] } : State).token u j = none :=
    fun _ _ => rfl
  have hindexed : Indexed { freshState with uuids := ["j"] } :=
    ⟨fun he => (by simp [hfresh] at he), fun he => (by simp [hfresh] at he)⟩
  have hbounded : Bounded sample { freshState with uuids := ["j"] } :=
    fun u j e he => by simp [hfresh] at he
  refine ⟨hindexed.act (a := .save 1 "j" "j") trivial hsave hbounded (fun _ _ h => h.elim),
    hbounded.act (a := .save 1 "j" "j") trivial hsave, live_loggedIn, by simp, ?_⟩
  intro u j hj
  obtain ⟨x, hx⟩ := Option.isSome_iff_exists.mp hj
  rcases (used_act (a := .save 1 "j" "j") trivial hsave u j x).mp hx with ⟨_, ht, _⟩ | ⟨_, hx⟩
  · cases ht
  · cases hx

end GreenCommunity.Auth
