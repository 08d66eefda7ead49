import GreenCommunity.Auth.History
import GreenCommunity.Auth.ReuseDetection

/-!
# Which refresh tokens are accepted

Requests are served one at a time and take no time; any amount of time passes in
between.  Then the three key families implement one table of sessions: a token is
accepted exactly while its JWT is unexpired and nothing in the history since its
issue has ended its session.
-/

namespace GreenCommunity.Auth

open GreenCommunity.Base
open GreenCommunity.Base.Redis

variable {Tok : Type} (d : Deps Tok)

/-- What the key families say about the sessions of the history. -/
structure Ledger (log : List (Entered Tok)) (s : State) : Prop where
  sound : Sound d (allEvents log) s
  owned : Owned s
  distinct : DistinctUsers s
  issued : ∀ {log₁ e log₂ t u j}, log = log₁ ++ e :: log₂ → Issues t e →
    ident d t = some (u, j) →
      t = refreshJwt d u j e.start.clock ∧ j ∈ s.uuids ∧ e.start.clock ≤ s.clock ∧
      ∀ x, s.token u j = some x ↔
        x = ⟨.str (hashToken d t),
          ((e.start.clock + d.settings.ttl : Nat) : WithTop Nat)⟩ ∧
        s.clock < e.start.clock + d.settings.ttl ∧ ∀ e' ∈ log₂, ¬ EndsSession d u j e'

variable {d} {s s' : State} {log : List (Entered Tok)}

theorem Orderly.ledger (h : Orderly d s) : Ledger d [] s where
  sound := h.sound
  owned := h.owned
  distinct := h.distinct
  issued hlog := by simp at hlog

theorem Ledger.passes (h : passes s s') (hl : Ledger d log s) : Ledger d log s' := by
  have hdrift := drift_of_passes h
  have husers : s'.users = s.users := by rw [h.2]
  refine ⟨hl.sound.drift hdrift, ?_, ?_, ?_⟩
  · intro u j hj
    have howner := hl.owned u j (live_of_drift hdrift hj)
    rwa [getById, ← husers] at howner
  · rw [DistinctUsers, husers]
    exact hl.distinct
  · intro log₁ e log₂ t u j hlog ht hid
    obtain ⟨hjwt, hj, hclock, htoken⟩ := hl.issued hlog ht hid
    refine ⟨hjwt, by rwa [uuids_drift hdrift], Nat.le_trans hclock h.1, fun x => ?_⟩
    have hcast : (s'.clock : WithTop Nat) <
          ((e.start.clock + d.settings.ttl : Nat) : WithTop Nat) ↔
        s'.clock < e.start.clock + d.settings.ttl := WithTop.coe_lt_coe
    rw [token_drift hdrift, htoken]
    constructor
    · rintro ⟨⟨rfl, _, hends⟩, hlt⟩
      exact ⟨rfl, hcast.mp hlt, hends⟩
    · rintro ⟨rfl, hlt, hends⟩
      exact ⟨⟨rfl, Nat.lt_of_le_of_lt h.1 hlt, hends⟩, hcast.mpr hlt⟩

/-- A request seen as a whole. -/
theorem Exec.ended {req : Request Tok} {evs : List TimedEvent}
    {o : Except AppError (Response Tok)}
    (h : Exec (instantSem d) () s (serve d req) evs (some o) s') :
    Ended d req (evs.map Prod.snd) o ∧ Path d s (evs.map Prod.snd) s' :=
  ⟨by simpa using h.post (serve_hist req), h.chain fun _ _ => id⟩

theorem Ledger.serve {req : Request Tok} {evs : List TimedEvent}
    {o : Except AppError (Response Tok)} (hl : Ledger d log s)
    (h : Exec (instantSem d) () s (serve d req) evs (some o) s') :
    Ledger d (log ++ [⟨req, s, evs, o⟩]) s' := by
  obtain ⟨hended, hpath⟩ := Exec.ended h
  have hstill := still_path hpath
  have hevents : evs.map Prod.snd = evs.map Prod.snd := rfl
  refine ⟨?_, ?_, ?_, ?_⟩
  · rw [allEvents_snoc]
    refine (executed ?_ hl.sound h).sound
    rintro s _ rfl
    exact drift_refl _
  · intro u j hj
    rw [getById, hstill.users]
    by_cases hnew : ∃ t, Issues t ⟨req, s, evs, o⟩ ∧ ident d t = some (u, j)
    · obtain ⟨t, ht, hid⟩ := hnew
      obtain ⟨_, _, _, _, _, rfl, howner⟩ := session_of_issues hended hpath hl.distinct ht
      rw [ident_refreshJwt] at hid
      cases hid
      exact howner
    · have hkeeps := keeps_of_ended hended hevents hpath hl.sound.indexed hl.owned
        fun t ht hid => hnew ⟨t, ht, hid⟩
      obtain ⟨x, hx⟩ := Option.isSome_iff_exists.mp hj
      refine hl.owned u j (Option.isSome_iff_exists.mpr ⟨x, ((hkeeps x).mp hx).1⟩)
  · rw [DistinctUsers, hstill.users]
    exact hl.distinct
  · intro log₁ e log₂ t u j hlog ht hid
    rcases List.eq_nil_or_concat log₂ with rfl | ⟨log₃, e₃, rfl⟩
    · -- the request that has just been served
      obtain ⟨_, hlast⟩ := List.append_inj' hlog rfl
      cases hlast
      obtain ⟨u', j', s₁, hstill₁, hnew, hjwt, _⟩ :=
        session_of_issues hended hpath hl.distinct ht
      rw [hjwt, ident_refreshJwt] at hid
      cases hid
      refine ⟨hjwt, hnew.spent, Nat.le_of_eq hstill.clock.symm, fun x => ?_⟩
      have hlt : s'.clock < s.clock + d.settings.ttl := by
        have hpos := d.settings.ttl_pos
        have hclock := hstill.clock
        omega
      rw [hnew.token, hstill₁.clock, ← hjwt]
      simp [hlt, eq_comm]
    · rw [List.concat_eq_append, ← List.cons_append, ← List.append_assoc] at hlog
      obtain ⟨hold, hlast⟩ := List.append_inj' hlog rfl
      cases hlast
      obtain ⟨hjwt, hj, hclock, htoken⟩ := hl.issued hold ht hid
      have hkeeps := keeps_of_ended (u := u) (j := j) hended hevents hpath
        hl.sound.indexed hl.owned (by
          intro t' ht' hid'
          obtain ⟨_, _, s₁, hstill₁, hnew, rfl, _⟩ :=
            session_of_issues hended hpath hl.distinct ht'
          rw [ident_refreshJwt] at hid'
          cases hid'
          exact hnew.fresh (hstill₁.uuids hj))
      refine ⟨hjwt, hstill.uuids hj, by rw [hstill.clock]; exact hclock, fun x => ?_⟩
      rw [hkeeps, htoken, hstill.clock]
      simp only [List.concat_eq_append, List.mem_append, List.mem_singleton]
      constructor
      · rintro ⟨⟨rfl, hlt, hends⟩, hend⟩
        refine ⟨rfl, hlt, ?_⟩
        rintro e' (he' | rfl)
        · exact hends e' he'
        · exact hend
      · rintro ⟨rfl, hlt, hends⟩
        exact ⟨⟨rfl, hlt, fun e' he' => hends e' (Or.inl he')⟩, hends _ (Or.inr rfl)⟩

/-! ## Rotations -/

section Rotations

variable {u : Nat} {j : String} {ex : Nat}
  {r : Reply (.pipeline ((Act.rotate u j ex).cmds d))}

private theorem not_rotate {e : AuthEvent} (h : Idle d e.op) :
    did d (.rotate u j ex) r ≠ e := by
  rintro rfl
  exact h.2 _ rfl

private theorem did_ne {a b : Act} {r' : Reply (.pipeline (b.cmds d))}
    {r : Reply (.pipeline (a.cmds d))} (h : a ≠ b) : did d a r ≠ did d b r' := by
  intro heq
  injection congrArg Event.op heq with hcmds
  exact h (Act.cmds_inj hcmds)

private theorem issue_not_rotate {v : Nat} {is : List AuthEvent} {k : String}
    {issued : IssuedTokens Tok} (hi : IssueTrace d v is k issued) :
    did d (.rotate u j ex) r ∉ is := by
  cases hi
  simp only [List.mem_cons, List.not_mem_nil, or_false, not_or]
  exact ⟨nofun, nofun, nofun, nofun, did_ne nofun⟩

private theorem verify_not_rotate {token : Tok} {v : Nat} {k : String}
    {vs : List AuthEvent} {state : TokenState} (hv : VerifyTrace d token v k vs state) :
    did d (.rotate u j ex) r ∉ vs := by
  cases hv <;> simp [verified]

private theorem revokeAll_not_rotate {v : Nat} {rs : List AuthEvent} {jtis : List String}
    (hr : RevokeAllTrace d v rs jtis) : did d (.rotate u j ex) r ∉ rs := by
  cases hr
  simp only [List.mem_cons, List.not_mem_nil, or_false, not_or]
  exact ⟨nofun, did_ne nofun⟩

/-- Only an accepted refresh rotates. -/
theorem accepts_of_rotate {e : Entered Tok}
    (h : Ended d e.req (e.events.map Prod.snd) e.outcome)
    (hmem : did d (.rotate u j ex) r ∈ e.events.map Prod.snd) : Accepts d u j e := by
  obtain ⟨req, s, evs, o⟩ := e
  dsimp only at h hmem
  generalize evs.map Prod.snd = es at h hmem
  cases h with
  | login h =>
      cases h with
      | refused hidle => exact absurd rfl (not_rotate (hidle _ hmem))
      | issued hidle email hread huser hi =>
          rcases List.mem_append.mp hmem with hmem | hmem
          · exact absurd rfl (not_rotate (hidle _ hmem))
          · exact absurd hmem (issue_not_rotate hi)
  | logout h =>
      cases h with
      | absent => cases hmem
      | invalid => simp at hmem
      | revoked token n hdec r' =>
          simp only [List.mem_cons, List.not_mem_nil, or_false] at hmem
          rcases hmem with hmem | hmem | hmem
          · cases hmem
          · exact absurd hmem (did_ne nofun)
          · cases hmem
  | logoutAll hr =>
      rcases List.mem_append.mp hmem with hmem | hmem
      · exact absurd hmem (revokeAll_not_rotate hr)
      · simp at hmem
  | @refresh token _ o h =>
      cases h with
      | invalid => simp at hmem
      | compromised n hdec hstate hv hr =>
          have hvs := verify_not_rotate (r := r) hv
          have hrs := revokeAll_not_rotate (r := r) hr
          simp [hvs, hrs] at hmem
      | notFound n hdec hv =>
          have hvs := verify_not_rotate (r := r) hv
          simp [hvs] at hmem
      | inactive n hdec huser hr =>
          have hrs := revokeAll_not_rotate (r := r) hr
          simp [hrs, verified] at hmem
      | @rotated n n' p hdec user huser r' is j' issued hi =>
          have his := issue_not_rotate (r := r) hi
          rcases List.mem_append.mp hmem with hmem | hmem
          · simp only [List.mem_cons, List.not_mem_nil, or_false] at hmem
            rcases hmem with hmem | hmem | hmem | hmem | hmem | hmem
            · cases hmem
            · cases hmem
            · cases hmem
            · cases hmem
            · injection congrArg Event.op hmem with hcmds
              cases Act.cmds_inj (a := .rotate u j ex)
                (b := .rotate p.userId p.jti (markerSeconds p n')) hcmds
              exact ⟨token, _, rfl, ident_of_decodes hdec, rfl⟩
            · cases hmem
          · exact absurd hmem his

theorem rotate_of_accepts {e : Entered Tok}
    (h : Ended d e.req (e.events.map Prod.snd) e.outcome) (hacc : Accepts d u j e) :
    ∃ ex r, did d (.rotate u j ex) r ∈ e.events.map Prod.snd := by
  obtain ⟨token, response, hreq, hid, ho⟩ := hacc
  rw [hreq, ho] at h
  generalize hes : e.events.map Prod.snd = es at h
  generalize hok : (Except.ok response : Except AppError (Response Tok)) = o at h
  cases h with
  | refresh h =>
      cases h with
      | invalid | compromised | notFound | inactive => cases hok
      | @rotated n n' p hdec user huser r is j' issued hi =>
          have hid' := ident_of_decodes hdec
          rw [hid] at hid'
          cases hid'
          exact ⟨markerSeconds p n', r, by simp⟩

end Rotations

/-! ## Acceptance -/

section Main

variable {init : State}

theorem ended_of_mem (h : Serial (instantSem d) () passes (serve d) init log s)
    {e : Entered Tok} (he : e ∈ log) :
    Ended d e.req (e.events.map Prod.snd) e.outcome := by
  obtain ⟨log₁, log₂, hlog⟩ := List.append_of_mem he
  obtain ⟨s₁, _, hx⟩ := h.split hlog
  exact (Exec.ended hx).1

variable (h0 : Orderly d init)

include h0

theorem ledger_serial (h : Serial (instantSem d) () passes (serve d) init log s) :
    Ledger d log s := by
  refine Serial.inv (fun log s => Ledger d log s) h0.ledger ?_ ?_ h
  · exact fun log s s' hl hp => hl.passes hp
  · exact fun log s s' q evs o _ hl hx => hl.serve hx

/-- The acceptances of a session come after its issue. -/
theorem accepts_after {log₁ log₂ : List (Entered Tok)} {issue e : Entered Tok} {t : Tok}
    {u : Nat} {j : String}
    (h : Serial (instantSem d) () passes (serve d) init (log₁ ++ issue :: log₂) s)
    (ht : Issues t issue) (hid : ident d t = some (u, j))
    (he : e ∈ log₁ ++ issue :: log₂) (hacc : Accepts d u j e) : e ∈ log₂ := by
  by_contra hlate
  obtain ⟨s₁, hserial, hx⟩ := h.split rfl
  have hl := ledger_serial h0 (hserial.serve hx)
  have hmem : e ∈ log₁ ++ [issue] := by
    simp only [List.mem_append, List.mem_cons, List.not_mem_nil, or_false] at he ⊢
    tauto
  obtain ⟨ex, r, hrotate⟩ := rotate_of_accepts (ended_of_mem h he) hacc
  obtain ⟨⟨sR, _⟩, hR, rfl⟩ := List.mem_map.mp hrotate
  have hdead := (hl.sound.marked (List.mem_flatMap.mpr ⟨e, hmem, hR⟩)).dead
  -- the issue left the session active
  obtain ⟨_, _, _, htoken⟩ := hl.issued (show log₁ ++ [issue] = log₁ ++ issue :: [] from rfl) ht hid
  have hclock := (still_path (Exec.ended hx).2).clock
  have hlt : s₁.clock < issue.start.clock + d.settings.ttl := by
    rw [hclock]
    exact Nat.lt_add_of_pos_right d.settings.ttl_pos
  have hlive := (htoken _).mpr ⟨rfl, hlt, by simp⟩
  rw [hdead] at hlive
  cases hlive

/-- A used marker is the trace of an acceptance. -/
theorem accepts_of_used (h : Serial (instantSem d) () passes (serve d) init log s)
    {u : Nat} {j : String} (hused : (s.used u j).isSome) : ∃ e ∈ log, Accepts d u j e := by
  obtain ⟨sR, ex, r, hmem⟩ := (ledger_serial h0 h).sound.rotated hused
  obtain ⟨e, he, hR⟩ := List.mem_flatMap.mp hmem
  exact ⟨e, he, accepts_of_rotate (ended_of_mem h he) (List.mem_map.mpr ⟨_, hR, rfl⟩)⟩

omit h0 in
private theorem map_eq_ok {α β : Type} {f : α → β} {x : Except AppError α} {b : β}
    (h : x.map f = .ok b) : ∃ a, x = .ok a ∧ f a = b := by
  cases x with
  | ok a => exact ⟨a, rfl, Except.ok.inj h⟩
  | error e => cases h

/-- The refresh of an issued token.  It is accepted exactly if the JWT is unexpired
and since its issue no request accepted it, logged it out or revoked everything of
the user.  It is answered as a compromise only if it was accepted before.  And if it
is not accepted and never was, every session stays as it is. -/
theorem refresh_accepted_iff {log₁ log₂ : List (Entered Tok)} {issue : Entered Tok}
    {t : Tok} {u : Nat} {j : String} {evs : List TimedEvent}
    {o : Except AppError (Response Tok)}
    (h : Serial (instantSem d) () passes (serve d) init (log₁ ++ issue :: log₂) s)
    (ht : Issues t issue) (hid : ident d t = some (u, j))
    (hx : Exec (instantSem d) () s (serve d (.refresh t)) evs (some o) s') :
    ((∃ response, o = .ok response) ↔ Unexpired d t s.clock ∧
      ∀ e ∈ log₂, ¬ Accepts d u j e ∧ ¬ LogsOut d u j e ∧ ¬ RevokesAll u e) ∧
    ((∃ v, Alarm v (evs.map Prod.snd)) → ∃ e ∈ log₂, Accepts d u j e) ∧
    ((∀ response, o ≠ .ok response) → (∀ e ∈ log₂, ¬ Accepts d u j e) →
      SameTables s s') := by
  have hl := ledger_serial h0 h
  obtain ⟨hended, hpath⟩ := Exec.ended hx
  obtain ⟨hjwt, _, hclock, htoken⟩ := hl.issued rfl ht hid
  have hentry : ∀ x, s.token u j = some x → x.value = .str (hashToken d t) := by
    intro x hxs
    obtain ⟨rfl, _⟩ := (htoken x).mp hxs
    rfl
  have hused : (s.used u j).isSome → ∃ e ∈ log₂, Accepts d u j e := by
    intro hmark
    obtain ⟨e, he, hacc⟩ := accepts_of_used h0 h hmark
    exact ⟨e, accepts_after h0 h ht hid he hacc, hacc⟩
  -- the token's key lives exactly as long as its session
  have hlive : Unexpired d t s.clock →
      ((s.token u j).isSome ↔ ∀ e ∈ log₂, ¬ EndsSession d u j e) := by
    rintro ⟨claims, hclaims, hexp⟩
    rw [hjwt, refreshJwt, d.jwtDecode_encode] at hclaims
    cases hclaims
    have hlt : s.clock < issue.start.clock + d.settings.ttl :=
      Nat.lt_of_lt_of_le hexp (Nat.mul_div_le _ second)
    simp [Option.isSome_iff_exists, htoken, hlt]
  have hends : (∀ e ∈ log₂, ¬ EndsSession d u j e) ↔
      ∀ e ∈ log₂, ¬ Accepts d u j e ∧ ¬ LogsOut d u j e ∧ ¬ RevokesAll u e := by
    simp only [EndsSession, not_or]
  generalize hes : evs.map Prod.snd = es at hended hpath
  generalize hreq : Request.refresh t = req at hended
  cases hended with
  | login | logout | logoutAll => cases hreq
  | refresh hr =>
      cases hreq
      rcases refresh_branches hjwt hclock hentry hr hpath hl.owned with
        ⟨hexp, hactive, ⟨issued, rfl⟩, halarm⟩ | ⟨hrefused, ho, hafter⟩
      · refine ⟨⟨fun _ => ⟨hexp, hends.mp ((hlive hexp).mp hactive)⟩, fun _ => ⟨_, rfl⟩⟩,
          ?_, ?_⟩
        · rintro ⟨v, hv⟩
          exact absurd hv (halarm v)
        · exact fun hne => absurd rfl (hne _)
      · refine ⟨⟨?_, ?_⟩, ?_, ?_⟩
        · rintro ⟨response, hok⟩
          obtain ⟨issued, hissued, _⟩ := map_eq_ok hok
          exact absurd hissued (ho issued)
        · rintro ⟨hexp, hkept⟩
          exact absurd ⟨hexp, (hlive hexp).mpr (hends.mpr hkept)⟩ hrefused
        · rintro ⟨v, hv⟩
          rcases hafter with hmark | ⟨halarm, _⟩
          · exact hused hmark
          · exact absurd hv (halarm v)
        · intro _ hnever
          rcases hafter with hmark | ⟨_, hsame⟩
          · obtain ⟨e, he, hacc⟩ := hused hmark
            exact absurd hacc (hnever e he)
          · exact hsame

end Main

theorem orderly_loggedIn : Orderly sample loggedIn where
  sound := sound_loggedIn
  owned u j hj := by
    obtain ⟨e, he⟩ := Option.isSome_iff_exists.mp hj
    rcases (token_act (d := sample) (a := .save 1 "j" "j") trivial
      (s := { freshState with uuids := ["j"] }) ⟨rfl, rfl⟩ u j e).mp he with
      ⟨t, ht, _⟩ | ⟨_, _, he⟩
    · cases ht
      exact ⟨sampleUser, rfl, rfl⟩
    · cases he
  distinct := by simp [DistinctUsers, loggedIn, freshState]

/-- The sample user refreshes the login's token and then the token got for it. -/
theorem refresh_accepted_iff_sample :
    ∃ issue s evs response s', Serial (instantSem sample) () passes (serve sample) loggedIn
        [issue] s ∧
      Issues (refreshJwt sample 1 "a₂" 0) issue ∧
      Exec (instantSem sample) () s (serve sample (.refresh (refreshJwt sample 1 "a₂" 0)))
        evs (some (.ok response)) s' ∧
      ((∃ response', (Except.ok response : Except AppError (Response Claims)) = .ok response') ↔
        Unexpired sample (refreshJwt sample 1 "a₂" 0) s.clock ∧
        ∀ e ∈ ([] : List (Entered Claims)),
          ¬ Accepts sample 1 "a₂" e ∧ ¬ LogsOut sample 1 "a₂" e ∧ ¬ RevokesAll 1 e) := by
  have hrefl : ∀ s, (instantSem sample).env s s := fun _ => rfl
  have hfront := front_chain (d := sample) () loginToken loginPayload sampleUser
    rfl token_loggedIn rfl
  obtain ⟨s₁, r, r', hback, hclock, husers, huuids, htoken⟩ := back_chain (d := sample) ()
    { loggedIn with redis := purge 0 loggedIn.redis } loginPayload sampleUser 0
    rfl "a₁" "a₂" (by decide) (by decide)
  obtain ⟨evs₁, _, _, hexec₁⟩ := Exec.of_chain (P := fun _ => True) hrefl
    (fun _ _ _ _ _ _ => trivial)
    (refresh_runs decodes_loginToken sampleUser rfl r r')
    rfl trivial (.calls (S := sem Unit sample) (T := instantSem sample) rfl
      (by rw [List.map_append]; exact hfront.append hback))
  have hdec : decodes sample (refreshJwt sample 1 "a₂" 0) 0 = some
      { loginPayload with jti := "a₂" } :=
    decodes_refreshJwt (Nat.le_refl 0) (by decide)
  have hfront' := front_chain (d := sample) () (refreshJwt sample 1 "a₂" 0)
    { loginPayload with jti := "a₂" } sampleUser hclock htoken
    (by rw [getById, husers]; rfl)
  obtain ⟨s₂, q, q', hback', _⟩ := back_chain (d := sample) ()
    { s₁ with redis := purge 0 s₁.redis } { loginPayload with jti := "a₂" } sampleUser 0
    hclock "b₁" "b₂" (by rw [huuids]; decide) (by rw [huuids]; decide)
  obtain ⟨evs₂, _, _, hexec₂⟩ := Exec.of_chain (P := fun _ => True) hrefl
    (fun _ _ _ _ _ _ => trivial) (refresh_runs hdec sampleUser rfl q q')
    rfl trivial (.calls (S := sem Unit sample) (T := instantSem sample) rfl
      (by rw [List.map_append]; exact hfront'.append hback'))
  have hlog : Serial (instantSem sample) () passes (serve sample) loggedIn ([] ++ _ :: []) s₁ :=
    .serve .nil hexec₁
  have hissues : Issues (refreshJwt sample 1 "a₂" 0)
      ⟨.refresh loginToken, loggedIn, evs₁, .ok (.tokens
        (issuedTokens sample 1 0 0 "a₁" "a₂"))⟩ := ⟨_, rfl, rfl⟩
  exact ⟨_, s₁, evs₂, _, s₂, hlog, hissues, hexec₂,
    (refresh_accepted_iff orderly_loggedIn hlog hissues
      (ident_refreshJwt 1 "a₂" 0) hexec₂).1⟩

end GreenCommunity.Auth
