import GreenCommunity.Auth.Sequential
import GreenCommunity.Auth.Sample

/-!
# How long a used marker lasts

A rotated token that comes back is recognised by its used marker.  The marker
lives for the whole seconds that the token had left when `refresh` read the
clock, counted from the later instant of the rotation.  The token itself is
accepted until its `exp`, so the fraction of a second that was cut off is a
window in which a reused token is answered as unknown.
-/

namespace GreenCommunity.Auth

open GreenCommunity.Base
open GreenCommunity.Base.Redis

variable {Tok : Type} (d : Deps Tok)

/-- The store answered REUSED: the warning of a detected compromise says so. -/
def AnsweredReused (p : TokenPayload) (evs : List TimedEvent) : Prop :=
  ∃ s revoked, (s, (⟨.log (.refreshTokenCompromiseDetected p.userId p.jti
    TokenState.reused.value revoked), ()⟩ : AuthEvent)) ∈ evs

/-- In every sequence of requests, a token that a refresh rotated and that is
presented again before its `exp` is answered REUSED, and all sessions of its user
are gone. -/
def ReuseDetected (init : State) : Prop :=
  ∀ log s, Serial (soloSem d drift) () drift (serve d) init log s →
    ∀ first ∈ log, ∀ token response, first.req = .refresh token →
      first.outcome = .ok response →
    ∀ evs o s', Exec (soloSem d drift) () s (serve d (.refresh token)) evs (some o) s' →
    ∀ sD n p, evs.head? = some (sD, (⟨.now, n⟩ : AuthEvent)) → decodes d token n = some p →
      AnsweredReused p evs ∧ ∀ j, s'.token p.userId j = none

variable {d}

theorem decodes_unique {token : Tok} {n n' : Nat} {p p' : TokenPayload}
    (h : decodes d token n = some p) (h' : decodes d token n' = some p') : p = p' := by
  simp only [decodes, Option.bind_eq_some_iff] at h h'
  obtain ⟨claims, hclaims, h⟩ := h
  obtain ⟨claims', hclaims', h'⟩ := h'
  cases hclaims.symm.trans hclaims'
  split at h
  · simp at h
  · split at h'
    · simp at h'
    · exact Option.some.inj (h.symm.trans h')

private theorem exists_timed (evs : List TimedEvent) {e : AuthEvent}
    (h : e ∈ evs.map Prod.snd) : ∃ s, (s, e) ∈ evs := by
  obtain ⟨⟨s, e'⟩, hmem, rfl⟩ := List.mem_map.mp h
  exact ⟨s, hmem⟩

/-- The rotation of an accepted refresh, with the instant its lifetime was
computed at. -/
theorem rotation_of_accepted {s s' : State} {token : Tok} {evs : List TimedEvent}
    {response : Response Tok} {n : Nat} {p : TokenPayload}
    (h : Exec (soloSem d drift) () s (serve d (.refresh token)) evs (some (.ok response)) s')
    (hp : decodes d token n = some p) :
    ∃ sN sR r, (sN, (⟨.now, sN.clock⟩ : AuthEvent)) ∈ evs ∧
      (sR, did d (.rotate p.userId p.jti (markerSeconds p sN.clock)) r) ∈ evs := by
  have hended := h.post (serve_hist _)
  generalize hes : [] ++ evs.map Prod.snd = es at hended
  rw [List.nil_append] at hes
  generalize ho : (Except.ok response : Except AppError (Response Tok)) = o at hended
  cases hended with
  | refresh htrace =>
      cases htrace with
      | invalid | compromised | notFound | inactive => cases ho
      | rotated n₀ n' hdec huser r hi =>
          cases decodes_unique hdec hp
          obtain ⟨sN, hN⟩ := exists_timed evs (e := ⟨.now, n'⟩) (by simp [hes])
          obtain ⟨sR, hR⟩ := exists_timed evs
            (e := did d (.rotate p.userId p.jti (markerSeconds p n')) r) (by simp [hes])
          obtain ⟨_, hnow, _⟩ := h.mem_step hN
          have hclock : n' = sN.clock := hnow
          subst hclock
          exact ⟨sN, sR, r, hN, hR⟩

section Marked

variable (d) {s s' : State} {u : Nat} {j : String} {T : Nat}

/-- A rotated token's key is gone: the read finds nothing. -/
theorem Marker.missing (hm : Marker s u j T) (t : String) :
    ¬ step d s (.redis (.get (tokenKey u j))) (some t) s' := by
  intro hstep
  have hlive := live_of_get d hstep
  simp [hm.dead] at hlive

/-- `EXISTS` is answered by whether the marker is still there. -/
theorem Marker.found {b : Bool} (hm : Marker s u j T)
    (hstep : step d s (.redis (.exists (usedKey u j))) b s') : b = true ↔ s.clock < T := by
  have hb : b = (s.used u j).isSome := hstep.1
  rw [hb, Option.isSome_iff_exists]
  constructor
  · rintro ⟨x, hused⟩
    exact ((hm.used x).mp hused).2
  · exact fun hlt => ⟨_, (hm.used _).mpr ⟨rfl, hlt⟩⟩

end Marked

private theorem revokeAll_not_save {e : AuthEvent} {u v : Nat} {jtis : List String}
    {r : Reply (.pipeline ((Act.revokeAll u jtis).cmds d))} {k t : String}
    (he : e = did d (.revokeAll u jtis) r) : e.op ≠ .pipeline (saveCmds d v k t) := by
  subst he
  intro hsave
  injection hsave with hcmds
  exact nomatch Act.cmds_inj (a := .revokeAll u jtis) (b := .save v k t) hcmds

/-- Where the store answered REUSED, the warning says so and every session of the user
has ended: nothing is saved after the pipeline that deletes them. -/
theorem reused_ends {evs₀ evs : List TimedEvent} {s' : State} {token : Tok} {n : Nat}
    {p : TokenPayload} {vs rs : List AuthEvent} {jtis : List String}
    (hx : Executed d evs₀ evs s') (hv : VerifyTrace d token p.userId p.jti vs .reused)
    (hr : RevokeAllTrace d p.userId rs jtis)
    (hes : evs.map Prod.snd = ⟨.now, n⟩ :: vs ++ rs ++
      [⟨.log (.refreshTokenCompromiseDetected p.userId p.jti TokenState.reused.value
        jtis.length), ()⟩]) :
    AnsweredReused p evs ∧ ∀ j, s'.token p.userId j = none := by
  constructor
  · obtain ⟨sL, hL⟩ := exists_timed evs (e := ⟨.log (.refreshTokenCompromiseDetected
      p.userId p.jti TokenState.reused.value jtis.length), ()⟩) (by simp [hes])
    exact ⟨sL, jtis.length, hL⟩
  · cases hv with
    | reused =>
        cases hr with
        | mk jtis r =>
            obtain ⟨sP, hP⟩ := exists_timed evs (e := did d (.revokeAll p.userId jtis) r)
              (by simp [hes])
            refine hx.cleared hP fun v k t x hmem hsave => ?_
            have hop := List.mem_map_of_mem (f := Prod.snd) hmem
            simp only [hes, List.cons_append, List.nil_append, List.mem_cons,
              List.not_mem_nil, or_false] at hop
            -- no other event of the refresh is a pipeline
            rcases hop with hop | hop | hop | hop | hop | hop
            · rw [hop] at hsave
              cases hsave
            · rw [hop] at hsave
              cases hsave
            · rw [hop] at hsave
              cases hsave
            · rw [hop] at hsave
              cases hsave
            · exact revokeAll_not_save hop hsave
            · rw [hop] at hsave
              cases hsave

/-- A refresh of a rotated token, before its `exp`, asks for the used marker; it
answers REUSED and ends every session exactly if it finds it. -/
theorem refresh_of_rotated {evs₀ evs : List TimedEvent} {s s' sR : State} {token : Tok}
    {o : Except AppError (Response Tok)} {sD : State} {n ex : Nat} {p : TokenPayload}
    {r : Reply (.pipeline ((Act.rotate p.userId p.jti ex).cmds d))}
    (hs : Sound d evs₀ s) (hrotate : (sR, did d (.rotate p.userId p.jti ex) r) ∈ evs₀)
    (h : Exec (soloSem d drift) () s (serve d (.refresh token)) evs (some o) s')
    (hhead : evs.head? = some (sD, (⟨.now, n⟩ : AuthEvent)))
    (hdec : decodes d token n = some p) :
    ∃ sX b, (sX, (⟨.redis (.exists (usedKey p.userId p.jti)), b⟩ : AuthEvent)) ∈ evs ∧
      (AnsweredReused p evs ∧ (∀ j, s'.token p.userId j = none) ↔
        sX.clock < sR.clock + ticks ex) := by
  have hx := executed (fun _ _ h => h) hs h
  have hmarker : ∀ {s₀ e}, (s₀, e) ∈ evs →
      Marker s₀ p.userId p.jti (sR.clock + ticks ex) := by
    intro s₀ e hmem
    obtain ⟨pre, hpre⟩ := hx.at_event hmem
    exact hpre.marked (List.mem_append_left _ hrotate)
  have hgone : ∀ {t}, (⟨.redis (.get (tokenKey p.userId p.jti)), some t⟩ : AuthEvent) ∉
      evs.map Prod.snd := by
    intro t hmem
    obtain ⟨sG, hG⟩ := exists_timed _ hmem
    obtain ⟨_, hstep⟩ := h.mem_step hG
    exact (hmarker hG).missing d t hstep
  have hexists : ∀ {b}, (⟨.redis (.exists (usedKey p.userId p.jti)), b⟩ : AuthEvent) ∈
      evs.map Prod.snd → ∃ sX, (sX, (⟨.redis (.exists (usedKey p.userId p.jti)), b⟩ :
        AuthEvent)) ∈ evs ∧ (b = true ↔ sX.clock < sR.clock + ticks ex) := by
    intro b hmem
    obtain ⟨sX, hX⟩ := exists_timed _ hmem
    obtain ⟨_, hstep⟩ := h.mem_step hX
    exact ⟨sX, hX, (hmarker hX).found d hstep⟩
  have hended := h.post (serve_hist _)
  generalize hes : [] ++ evs.map Prod.snd = es at hended
  rw [List.nil_append] at hes
  have hfirst : es.head? = some ⟨.now, n⟩ := by rw [← hes, List.head?_map, hhead]; rfl
  rw [hes] at hgone hexists
  cases hended with
  | refresh htrace =>
      cases htrace with
      | invalid n₀ hinvalid =>
          cases hfirst
          cases hinvalid.symm.trans hdec
      | @compromised n₀ p₀ hdec₀ vs rs state jtis hstate hv hr =>
          cases decodes_unique hdec₀ hdec
          rcases hstate with rfl | rfl
          · obtain ⟨sX, hX, hb⟩ := hexists (b := true) (by cases hv; simp)
            exact ⟨sX, true, hX, fun _ => hb.mp rfl, fun _ => reused_ends hx hv hr hes⟩
          · cases hv with
            | forged t => exact absurd (by simp) (hgone (t := t))
      | @notFound n₀ p₀ hdec₀ vs hv =>
          cases decodes_unique hdec₀ hdec
          cases hv with
          | unknown =>
              obtain ⟨sX, hX, hb⟩ := hexists (b := false) (by simp)
              refine ⟨sX, false, hX, ?_, fun hlt => nomatch hb.mpr hlt⟩
              rintro ⟨⟨sL, revoked, hL⟩, _⟩
              have hlog := List.mem_map_of_mem (f := Prod.snd) hL
              rw [hes] at hlog
              simp at hlog
      | @inactive n₀ p₀ hdec₀ =>
          cases decodes_unique hdec₀ hdec
          exact absurd (by simp [verified]) (hgone (t := hashToken d token))
      | @rotated n₀ n' p₀ hdec₀ =>
          cases decodes_unique hdec₀ hdec
          exact absurd (by simp [verified]) (hgone (t := hashToken d token))

/-- A reused token is detected, and its user's sessions are ended, exactly if the
marker is asked for before the whole seconds that were left at the rotation (at
least one) have passed since. -/
theorem reuse_detected_iff {init s s' : State} (h0 : Sound d [] init)
    {log : List (Served (Request Tok) Op Reply AppError (Response Tok) State)}
    (hlog : Serial (soloSem d drift) () drift (serve d) init log s)
    {first : Served (Request Tok) Op Reply AppError (Response Tok) State}
    (hfirst : first ∈ log) {token : Tok} {response : Response Tok}
    (hreq : first.req = .refresh token) (hok : first.outcome = .ok response)
    {evs : List TimedEvent} {o : Except AppError (Response Tok)}
    (hagain : Exec (soloSem d drift) () s (serve d (.refresh token)) evs (some o) s')
    {sD : State} {n : Nat} {p : TokenPayload}
    (hhead : evs.head? = some (sD, (⟨.now, n⟩ : AuthEvent)))
    (hdec : decodes d token n = some p) :
    ∃ sN sR r sX b, (sN, (⟨.now, sN.clock⟩ : AuthEvent)) ∈ first.events ∧
      (sR, did d (.rotate p.userId p.jti (markerSeconds p sN.clock)) r) ∈ first.events ∧
      (sX, (⟨.redis (.exists (usedKey p.userId p.jti)), b⟩ : AuthEvent)) ∈ evs ∧
      (AnsweredReused p evs ∧ (∀ j, s'.token p.userId j = none) ↔
        sX.clock < sR.clock + ticks (max (((p.expiresAt : Int) - sN.clock).tdiv second)
          1).toNat) := by
  obtain ⟨log₁, log₂, rfl⟩ := List.append_of_mem hfirst
  obtain ⟨s₁, _, hexec⟩ := hlog.split rfl
  rw [hreq, hok] at hexec
  obtain ⟨sN, sR, r, hN, hR⟩ := rotation_of_accepted hexec hdec
  have hmem : (sR, did d (.rotate p.userId p.jti (markerSeconds p sN.clock)) r) ∈
      allEvents (log₁ ++ first :: log₂) := by
    simp only [allEvents, List.mem_flatMap]
    exact ⟨first, hfirst, hR⟩
  have hsound := sound_serial (fun _ _ h => h) (fun _ _ h => h) h0 hlog
  obtain ⟨sX, b, hX, hiff⟩ := refresh_of_rotated hsound hmem hagain hhead hdec
  exact ⟨sN, sR, r, sX, b, hN, hR, hX, hiff⟩

/-! ## A marker that ends before its token -/

/-- Ten and a half seconds before the login's token expires. -/
def rotationTime : Nat := 1209589500000

/-- Three tenths of a second before it expires. -/
def reuseTime : Nat := 1209599700000

/-- A refresh at the first instant, and the same token again at the second. -/
theorem late_reuse : ∃ log s first response evs o s' sD,
    Serial (soloSem sample drift) () drift (serve sample) loggedIn log s ∧
    first ∈ log ∧ first.req = .refresh loginToken ∧ first.outcome = .ok response ∧
    Exec (soloSem sample drift) () s (serve sample (.refresh loginToken)) evs (some o) s' ∧
    evs.head? = some (sD, (⟨.now, reuseTime⟩ : AuthEvent)) ∧
    decodes sample loginToken reuseTime = some loginPayload ∧
    ¬ AnsweredReused loginPayload evs := by
  have hrefl : ∀ s, (soloSem sample drift).env s s := drift_refl
  have hclock : ∀ n s op r s', s.clock = n → (soloSem sample drift).step () s op r s' →
      s'.clock = n := fun n s op r s' hn h => (step_clock h).trans hn
  have hwait : drift loggedIn { loggedIn with clock := rotationTime } :=
    ⟨Nat.zero_le _, rfl⟩
  have hdec : decodes sample loginToken rotationTime = some loginPayload :=
    decodes_refreshJwt (Nat.zero_le _) (by decide)
  have htoken := (token_drift hwait).mpr ⟨token_loggedIn, by decide⟩
  have hfront := front_chain (d := sample) () (n := rotationTime) loginToken loginPayload
    sampleUser rfl htoken rfl
  obtain ⟨s₁, r, r', hback, hclock₁, _⟩ := back_chain (d := sample) ()
    { loggedIn with clock := rotationTime, redis := purge rotationTime loggedIn.redis }
    loginPayload sampleUser rotationTime (n := rotationTime) rfl "a₁" "a₂" (by decide)
    (by decide)
  obtain ⟨evs₁, hes₁, hstates₁, hexec₁⟩ := Exec.of_chain (P := fun s => s.clock = rotationTime)
    hrefl (hclock _) (refresh_runs hdec sampleUser rfl r r')
    rfl rfl (by rw [List.map_append]; exact hfront.append hback)
  -- the marker lasts ten seconds
  have hsound := (executed (fun _ _ h => h) (sound_loggedIn.drift hwait)
    hexec₁).sound
  obtain ⟨sR, hR⟩ := exists_timed evs₁
    (e := did sample (.rotate 1 "j" (markerSeconds loginPayload rotationTime)) r)
    (by rw [hes₁]; exact List.mem_append_right _ List.mem_cons_self)
  have hmarker := hsound.marked (List.mem_append_right _ hR)
  have hwait' : drift s₁ { s₁ with clock := reuseTime } :=
    ⟨hclock₁ ▸ (by decide : rotationTime ≤ reuseTime), rfl⟩
  have hafter := hmarker.drift hwait'
  have hused : State.used { s₁ with clock := reuseTime } 1 "j" = none := by
    by_contra hne
    obtain ⟨x, hx⟩ := Option.ne_none_iff_exists'.mp hne
    have hlt := ((hafter.used x).mp hx).2
    rw [hstates₁ _ hR] at hlt
    exact absurd hlt (by decide : ¬ reuseTime <
      rotationTime + ticks (markerSeconds loginPayload rotationTime))
  have hdec' : decodes sample loginToken reuseTime = some loginPayload :=
    decodes_refreshJwt (Nat.zero_le _) (by decide)
  obtain ⟨s₂, hunknown⟩ := refresh_unknown_chain (d := sample) () (p := loginPayload)
    (n := reuseTime) rfl hafter.dead hused
  obtain ⟨evs₂, hes₂, _, hexec₂⟩ := Exec.of_chain (P := fun s => s.clock = reuseTime)
    hrefl (hclock _) (refresh_unknown_runs hdec') rfl rfl hunknown
  have hstart : Serial (soloSem sample drift) () drift (serve sample) loggedIn [] loggedIn :=
    .nil
  have hlog := ((hstart.pause hwait).serve hexec₁).pause hwait'
  cases evs₂ with
  | nil => cases hes₂
  | cons x rest =>
      obtain ⟨sD, e⟩ := x
      have he : e = ⟨.now, reuseTime⟩ := (List.cons.inj hes₂).1
      subst he
      refine ⟨_, _, _, _, _, _, s₂, sD, hlog, List.mem_cons_self, rfl, rfl, hexec₂, rfl,
        hdec', ?_⟩
      rintro ⟨sL, revoked, hL⟩
      have hmem := List.mem_map_of_mem (f := Prod.snd) hL
      rw [hes₂] at hmem
      simp [unknownEvents] at hmem

theorem reuse_undetected : ¬ ReuseDetected sample loggedIn := by
  intro h
  obtain ⟨log, s, first, response, evs, o, s', sD, hlog, hfirst, hreq, hok, hexec, hhead,
    hdec, hnot⟩ := late_reuse
  exact hnot (h log s hlog first hfirst loginToken response hreq hok evs o s' hexec sD _ _
    hhead hdec).1

/-- The late reuse of the sample run asks for the marker when it is gone. -/
theorem reuse_detected_iff_sample : ∃ (first : Served (Request Claims) Op Reply AppError
      (Response Claims) State) (evs : List TimedEvent) (s' sN sR sX : State) (r : _) (b : _),
    (sN, (⟨.now, sN.clock⟩ : AuthEvent)) ∈ first.events ∧
    (sR, did sample (.rotate 1 "j" (markerSeconds loginPayload sN.clock)) r) ∈
      first.events ∧
    (sX, (⟨.redis (.exists (usedKey 1 "j")), b⟩ : AuthEvent)) ∈ evs ∧
    (AnsweredReused loginPayload evs ∧ (∀ j, s'.token 1 j = none) ↔
      sX.clock < sR.clock + ticks (max (((loginPayload.expiresAt : Int) - sN.clock).tdiv
        second) 1).toNat) ∧
    ¬ AnsweredReused loginPayload evs := by
  obtain ⟨log, s, first, response, evs, o, s', sD, hlog, hfirst, hreq, hok, hexec, hhead,
    hdec, hnot⟩ := late_reuse
  obtain ⟨sN, sR, r, sX, b, hN, hR, hX, hiff⟩ := reuse_detected_iff sound_loggedIn hlog
    hfirst hreq hok hexec hhead hdec
  exact ⟨first, evs, s', sN, sR, sX, r, b, hN, hR, hX, hiff, hnot⟩

end GreenCommunity.Auth
