import GreenCommunity.Likes.Scanning
import GreenCommunity.Likes.Traces

/-!
# Toggles during a sync

Likes and unlikes go on while syncs run.  A sync reads a key early, commits the rows at the
end and then deletes every key it has processed, whatever the keys hold by then.  A toggle
that comes to a pair after a sync has read its key is lost, and so is one that the sync has
compared with an outdated row.  Where every commit and every deletion comes in time, each
pair ends where its last toggle put it.
-/

namespace GreenCommunity.Likes

open GreenCommunity.Base
open GreenCommunity.Base.Prog
open GreenCommunity.Infrastructure (among_oneOrNone among_inSession every_inSession
  every_oneOrNone every_perform)

/-! ## The programs among each other -/

section Programs

variable {C : Type} [DecidableEq C] {init : State C} {c : C} {x : World C}
  {scans : (String → Option String) → String → List String → Prop}

theorem silent_error {op : Op} {e : AppError} :
    Silent (.call c ⟨op, .error e⟩ : Label C Op Reply) := by
  intro p u
  cases op <;> exact ⟨rfl, fun _ => rfl⟩

/-- One operation, seen together with the trace. What fails leaves all as it is. -/
theorem among_traced {A : World C → LikesEvent → Prop} {op : Op}
    {Q : Except AppError (Result op) → World C → Prop}
    (hok : ∀ x₀ r s', Relies init c x x₀ → does scans c x₀.state op r s' →
      A x₀ ⟨op, .ok r⟩ → Keeps init c x₀ ⟨op, .ok r⟩
        ⟨s', x₀.log ++ [.call c ⟨op, .ok r⟩]⟩ ∧ Q (.ok r) ⟨s', x₀.log ++ [.call c ⟨op, .ok r⟩]⟩)
    (herr : ∀ e x', Q (.error e) x') :
    (perform op).Among (sem scans).traced c (Relies init c) A (Keeps init c) Q x := by
  refine Infrastructure.among_perform ?_ ?_
  · rintro x₀ r ⟨s', log⟩ hr ⟨hs, hlog⟩ hA
    dsimp only at hlog
    subst hlog
    exact hok x₀ r s' hr hs hA
  · rintro x₀ e ⟨s', log⟩ _ ⟨⟨_, hs⟩, hlog⟩ _
    dsimp only at hs hlog
    subst hs hlog
    exact ⟨keeps_silent silent_error rfl rfl (fun _ _ => rfl) id, herr e _⟩

/-- The operations of likes and unlikes. -/
def Op.OfToggle : Op → Prop
  | .set key value => (∃ p u, key = likeKey p u) ∧ (value = "0" ∨ value = "1")
  | .get _ | .selectPost _ | .selectLike _ _ | .rollback | .close => True
  | _ => False

theorem keeps_of_toggle {op : Op} {r : Reply op} {x' : World C} (hop : op.OfToggle)
    (hstep : (sem scans).traced.step c x op r x') : Keeps init c x ⟨op, r⟩ x' := by
  obtain ⟨s', log⟩ := x'
  obtain ⟨hs, hlog⟩ := hstep
  dsimp only at hs hlog
  subst hlog
  cases r with
  | error e =>
      obtain ⟨_, rfl⟩ := hs
      exact keeps_silent silent_error rfl rfl (fun _ _ => rfl) id
  | ok r =>
      cases op with
      | get key =>
          obtain ⟨rfl, rfl⟩ := hs
          exact keeps_get key
      | set key value =>
          obtain ⟨⟨p, u, rfl⟩, hvalue⟩ := hop
          obtain rfl := hs
          exact keeps_set hvalue
      | selectPost _ | selectLike _ _ =>
          obtain ⟨_, rfl⟩ := hs
          exact keeps_silent (fun _ _ => ⟨rfl, fun _ => rfl⟩) rfl rfl
            (fun _ hd => Db.session_read_ne hd) Locked.read
      | rollback | close =>
          obtain rfl := hs
          exact keeps_silent (fun _ _ => ⟨rfl, fun _ => rfl⟩) rfl rfl
            (fun _ hd => Db.session_rollback_ne hd) Locked.rollback
      | _ => exact hop.elim

theorem getLike_every (p u : Nat) : (getLike p u).Every Op.OfToggle := by
  refine every_bind (every_perform trivial) fun status => ?_
  cases status with
  | some _ => exact every_ret _
  | none => exact every_bind (every_perform trivial) fun _ =>
      every_bind every_oneOrNone fun _ => every_ret _

theorem likePost_every (p u : Nat) : (likePost p u).Every Op.OfToggle := by
  refine every_bind (every_bind (every_perform trivial) fun _ => every_oneOrNone) fun post => ?_
  have hlike : (do
      let existingLike ← getLike p u
      if existingLike then return ()
      addLike p u : LikesM Unit).Every Op.OfToggle := by
    refine every_bind (getLike_every p u) fun existing => ?_
    cases existing with
    | true => exact every_ret _
    | false => exact every_perform ⟨⟨p, u, rfl⟩, Or.inr rfl⟩
  cases post with
  | none => exact every_raise _
  | some _ => exact hlike

theorem unlikePost_every (p u : Nat) : (unlikePost p u).Every Op.OfToggle := by
  refine every_bind (getLike_every p u) fun like => ?_
  cases like with
  | false => exact every_ret _
  | true => exact every_perform ⟨⟨p, u, rfl⟩, Or.inl rfl⟩

/-- A toggle guarantees what every program does. -/
theorem toggle_among {A : World C → LikesEvent → Prop} {body : LikesM Unit}
    (hbody : body.Every Op.OfToggle) :
    (inSession body).Among (sem scans).traced c (Relies init c) A (Keeps init c)
      (fun _ _ => True) x :=
  Every.among (every_inSession (every_perform trivial) (every_perform trivial) hbody)
    (fun _ _ _ _ hop hstep _ => keeps_of_toggle hop hstep) fun _ _ => trivial

/-! ### The sync -/

variable {req : C → Request}

/-- What is assumed of the steps of a sync. -/
def TimelyAt (req : C → Request) (c : C) (x : World C) (e : LikesEvent) : Prop :=
  Timely req x.log x.state c e

/-- Autoflush: the change is sent, or the sync ends. -/
theorem flush_toggles {unsent : Option Change} {busy : Option String}
    {Q : Except AppError Unit → World C → Prop} (h : Scanning init c x unsent busy)
    (hQ : ∀ x', Scanning init c x' none busy → Onward c x x' → Q (.ok ()) x')
    (herr : ∀ e x', Q (.error e) x') :
    (flush unsent).Among (sem scans).traced c (Relies init c) (TimelyAt req c)
      (Keeps init c) Q x := by
  match unsent, h with
  | none, h => exact hQ x h fun _ _ => Or.inl rfl
  | some (.add p u), h =>
      refine among_traced ?_ herr
      rintro x₀ _ _ hr ⟨hfree, hnone, rfl⟩ _
      have hsilent : Silent (.call c ⟨.insertLike p u, .ok ()⟩ : Label C Op Reply) :=
        fun _ _ => ⟨rfl, fun _ => rfl⟩
      have h := h.meanwhile hr
      exact ⟨keeps_silent hsilent rfl rfl (fun _ hd => Db.session_write_ne hd)
          fun hlocked => hlocked.insert hfree hnone,
        hQ _ (h.insert hfree hnone hsilent) (hr.2.onward.trans (onward_silent hsilent))⟩
  | some (.delete like), h =>
      refine among_traced ?_ herr
      intro x₀ _ s' hr hs _
      have hsilent : Silent (.call c ⟨.deleteLike like, .ok ()⟩ : Label C Op Reply) :=
        fun _ _ => ⟨rfl, fun _ => rfl⟩
      have h := h.meanwhile hr
      have hon : Onward c x ⟨s', _⟩ := hr.2.onward.trans (onward_silent hsilent)
      simp only [does] at hs
      split at hs
      · rename_i hmem
        obtain ⟨hfree, rfl⟩ := hs
        exact ⟨keeps_silent hsilent rfl rfl (fun _ hd => Db.session_write_ne hd)
          fun hlocked => hlocked.delete hmem hfree, hQ _ (h.delete hmem hfree hsilent) hon⟩
      · rename_i hmem
        obtain rfl := hs
        exact ⟨keeps_silent hsilent rfl rfl (fun _ _ => rfl) id,
          hQ _ (h.gone hmem hsilent) hon⟩

/-- The loop over the keys of the scan. -/
theorem scanKeys_toggles (hsync : req c = .sync) {keys : List String}
    (hkeys : ∀ key ∈ keys, "post_like:".toList <+: key.toList) :
    ∀ {x : World C} {unsent : Option Change} {done : List String},
      Scanning init c x unsent none → AllRead c x done →
      (scanKeys keys unsent done).Among (sem scans).traced c (Relies init c) (TimelyAt req c)
        (Keeps init c) (fun o x' => match o with
          | .ok (unsent', done') => Scanning init c x' unsent' none ∧ AllRead c x' done'
          | .error _ => True) x := by
  induction keys with
  | nil => exact fun h hread => ⟨h, hread⟩
  | cons key keys ih =>
      intro x unsent done h hread
      rw [scanKeys]
      rcases splitKey_cases key with ⟨⟨p, u⟩, hsplit⟩ | ⟨e, hsplit⟩
      · rw [hsplit, ret_bind]
        refine among_bind.mpr (among_traced ?_ fun _ _ => trivial)
        rintro x₀ r _ hr ⟨rfl, rfl⟩ htimely
        have h := h.meanwhile hr
        -- a key that is there is the key of the pair that it is taken apart into
        have hlive : ∀ v, x₀.state.redis key = some v →
            key = likeKey p u ∧ (v = "0" ∨ v = "1") := by
          intro v hv
          obtain ⟨p', u', rfl, hval⟩ := h.kept.values hv (hkeys key List.mem_cons_self)
          rw [splitKey_likeKey] at hsplit
          cases hsplit
          exact ⟨rfl, hval⟩
        have hget := h.get (fun v hv => (hlive v hv).1) fun v t hv hopen =>
          htimely.get hsync p u v t (by rw [hv, (hlive v hv).1]) hopen
        have hdone := (hread.onward hr.2.onward).get key
        have hlooked := looked_get (c := c) hlive
        refine ⟨keeps_get key, among_bind.mpr (flush_toggles hget (fun x₁ h₁ hon₁ => ?_)
          fun _ _ => trivial)⟩
        refine among_bind.mpr (among_traced ?_ fun _ _ => trivial)
        rintro x₂ rows _ hr₂ ⟨hrows, rfl⟩ _
        have hsilent : Silent (.call c ⟨.selectLike p u, .ok rows⟩ : Label C Op Reply) :=
          fun _ _ => ⟨rfl, fun _ => rfl⟩
        have hon₂ := hon₁.trans hr₂.2.onward
        refine ⟨keeps_silent hsilent rfl rfl (fun _ hd => Db.session_read_ne hd) Locked.read,
          among_bind.mpr (among_oneOrNone (fun hlen => ?_) fun _ => trivial)⟩
        exact ih (fun key' hkey' => hkeys key' (List.mem_cons_of_mem _ hkey'))
          ((h₁.meanwhile hr₂).select (hlooked.onward hon₂) hrows hlen hsilent)
          (hdone.onward (hon₂.trans (onward_silent hsilent)))
      · rw [hsplit]
        trivial

/-- The whole sync. -/
theorem scanLikeToDb_toggles
    (hscans : ∀ redis stem keys, scans redis stem keys → ∀ key ∈ keys,
      stem.toList <+: key.toList)
    (hsync : req c = .sync) (h : Scanning init c x none none) :
    scanLikeToDb.Among (sem scans).traced c (Relies init c) (TimelyAt req c) (Keeps init c)
      (fun _ _ => True) x := by
  refine among_bind.mpr (among_traced ?_ fun _ _ => trivial)
  rintro x₀ keys _ hr ⟨hscan, rfl⟩ _
  have hsilent : Silent (.call c ⟨.scanIter "post_like:", .ok keys⟩ : Label C Op Reply) :=
    fun _ _ => ⟨rfl, fun _ => rfl⟩
  refine ⟨keeps_silent hsilent rfl rfl (fun _ _ => rfl) id, among_bind.mpr (Among.imp ?_
    (scanKeys_toggles hsync (hscans _ _ _ hscan) ((h.meanwhile hr).scan hsilent) nofun))⟩
  rintro (e | ⟨unsent, done⟩) x₁ hloop
  · trivial
  obtain ⟨h₁, hread₁⟩ := hloop
  refine among_bind.mpr (flush_toggles h₁ (fun x₂ h₂ hon₂ => ?_) fun _ _ => trivial)
  refine among_bind.mpr (among_traced ?_ fun _ _ => trivial)
  rintro x₃ _ _ hr₃ rfl htimely
  have hsilent : Silent (.call c ⟨.commit, .ok ()⟩ : Label C Op Reply) :=
    fun _ _ => ⟨rfl, fun _ => rfl⟩
  obtain ⟨hkeeps, hwritten⟩ := (h₂.meanwhile hr₃).commit (htimely.commit rfl)
  have hon₃ := hon₂.trans hr₃.2.onward
  refine ⟨hkeeps, ?_⟩
  dsimp only
  split
  · refine among_traced ?_ fun _ _ => trivial
    rintro x₄ _ _ hr₄ rfl htimely₄
    have hread₄ := hread₁.onward (hon₃.trans ((onward_silent hsilent).trans hr₄.2.onward))
    exact ⟨(hwritten.meanwhile hr₄).del hread₄ (htimely₄.del done rfl), trivial⟩
  · trivial

end Programs

/-! ## Every run -/

section Runs

variable {C : Type} [DecidableEq C]

/-- The requests of the callers, before any of them has begun. -/
def start (req : C → Request) (init : State C) : Config C Op Reply AppError Unit (State C) :=
  ⟨init, fun c => serve (req c)⟩

variable {scans : (String → Option String) → String → List String → Prop}
  {req : C → Request} {init : State C}
  {tr : List (Label C Op Reply)} {cfg : Config C Op Reply AppError Unit (State C)}

theorem serve_toggles
    (hscans : ∀ redis stem keys, scans redis stem keys → ∀ key ∈ keys,
      stem.toList <+: key.toList)
    (hs : Stored init) (hidle : ∀ c, init.db.session c = .idle) (c : C) :
    (serve (req c)).Among (sem scans).traced c (Relies init c) (TimelyAt req c)
      (Keeps init c) (fun _ _ => True) ⟨init, []⟩ := by
  have hend : ∀ {op : Op} {x : World C}, op = .rollback ∨ op = .close →
      ∀ {r : Reply op} {x'}, (sem scans).traced.step c x op r x' →
        Keeps init c x ⟨op, r⟩ x' := by
    rintro _ x (rfl | rfl) r x' hstep
    · exact keeps_of_toggle trivial hstep
    · exact keeps_of_toggle trivial hstep
  cases hreq : req c with
  | like p u => exact toggle_among (likePost_every p u)
  | unlike p u => exact toggle_among (unlikePost_every p u)
  | sync =>
      refine among_inSession (fun o x _ => ?_) (fun e x _ => ?_)
        (scanLikeToDb_toggles hscans hreq (scanning_init hs hidle))
      · exact Infrastructure.among_perform
          (fun _ _ _ _ hstep _ => ⟨hend (Or.inr rfl) hstep, trivial⟩)
          (fun _ _ _ _ hstep _ => ⟨hend (Or.inr rfl) hstep, trivial⟩)
      · exact Infrastructure.among_perform
          (fun _ _ _ _ hstep _ => ⟨hend (Or.inl rfl) hstep, trivial⟩)
          (fun _ _ _ _ hstep _ => ⟨hend (Or.inl rfl) hstep, trivial⟩)

/-- In every run in which the syncs come in time, every pair is where its last toggle put it. -/
theorem nothing_lost
    (hscans : ∀ redis stem keys, scans redis stem keys → ∀ key ∈ keys,
      stem.toList <+: key.toList)
    (hs : Stored init) (hidle : ∀ c, init.db.session c = .idle)
    (h : Run (sem scans) (InTime req) (start req init) tr cfg) :
    NothingLost init tr cfg.state := by
  have hserve : ∀ c, (serve (req c)).Among (sem scans).traced c (Relies init c)
      (TimelyAt req c) (Keeps init c) (fun _ _ => True) ⟨init, []⟩ :=
    serve_toggles hscans hs hidle
  suffices hkept : Upheld init ⟨cfg.state, tr⟩ from hkept.toggles
  refine Run.inv (fun _ cfg => Upheld init cfg.state) (upheld_init hs hidle) ?_ h.traced
  intro tr cfg l cfg' hrun hk hl hok
  cases hl with
  | env henv => exact hk.env henv
  | @call c op k r x' hpool hstep =>
      exact (hrun.among_step compatible_toggles (fun _ _ _ _ hguard => hguard _ _ rfl) hserve
        (.call hpool hstep) hok).1 hk

end Runs

/-! ## Toggles between the steps of a sync -/

/-- The user's like waits in Redis; nothing is in the table. -/
def likedState : State Bool where
  redis key := if key = likeKey 1 1 then some "1" else none
  db := { committed := { posts := [⟨1, .published, none⟩], postsLike := [] }
          session := fun _ => .idle }
  nextLikeId := 1

theorem fullScan_likedState : FullScan likedState.redis "post_like:" [likeKey 1 1] := by
  refine ⟨?_, fun key _ hlive => ?_⟩
  · rintro key hkey
    rw [List.mem_singleton.mp hkey]
    exact ⟨stem_likeKey 1 1, by simp [likedState]⟩
  · by_contra hne
    simp only [List.mem_singleton] at hne
    simp [likedState, hne] at hlive

theorem stored_likedState : Stored likedState where
  values {key v} hv _ := by
    simp only [likedState] at hv
    split at hv
    · rename_i hkey
      cases hv
      exact ⟨1, 1, hkey, Or.inr rfl⟩
    · cases hv
  keyed := ⟨by simp [likedState], by simp [likedState], by simp [likedState]⟩

/-- The sync and an unlike of the same user. -/
def unlikeDuringSync : Bool → Request
  | false => .sync
  | true => .unlike 1 1

/-- The sync and a like of another user. -/
def likeDuringSync : Bool → Request
  | false => .sync
  | true => .like 1 2

/-- The like between the front and the back of the sync. -/
def betweenSync : List (Label Bool Op Reply) :=
  (syncFront 1 1).map (.call false) ++ (likeEvents 1 2).map (.call true) ++
    (syncBack 1 1).map (.call false)

/-- The pair that is toggled is not the one that the sync has read. -/
theorem inTime_betweenSync {tr₁ tr₂ : List (Label Bool Op Reply)} {l : Label Bool Op Reply}
    {cfg₁ : Config Bool Op Reply AppError Unit (State Bool)}
    (htr : betweenSync = tr₁ ++ l :: tr₂)
    (hchain : Chain (sem FullScan) likedState tr₁ cfg₁.state) :
    InTime likeDuringSync tr₁ cfg₁ l := by
  have hread : ∀ p u, ∀ l ∈ betweenSync, look false p u l ≠ none → p = 1 ∧ u = 1 := by
    intro p u
    simp only [betweenSync, syncFront, syncBack, likeEvents, List.map_cons, List.map_nil,
      List.cons_append, List.nil_append, List.forall_mem_cons, look, likeKey_inj]
    simp +contextual
  have htoggle : ∀ l ∈ betweenSync, toggle 1 1 l = none := by
    simp [betweenSync, syncFront, syncBack, likeEvents, toggle]
  have hnever : ∀ p u, lastReading false p u tr₁ ≠ .overtaken := by
    intro p u
    refine not_overtaken fun l₁ hl₁ l₂ hl₂ hlook => ?_
    obtain ⟨rfl, rfl⟩ := hread p u l₁ (htr ▸ List.mem_append_left _ hl₁) hlook
    exact htoggle l₂ (htr ▸ List.mem_append_left _ hl₂)
  have hmem : l ∈ betweenSync := htr ▸ by simp
  rintro c e rfl
  refine ⟨fun hsync p u v t he hopen => ?_, fun he w _ => ?_, fun keys he p u _ _ => ?_⟩
  · subst he
    obtain ⟨rfl, hkey, rfl⟩ : c = false ∧ likeKey p u = likeKey 1 1 ∧ v = "1" := by
      simpa [betweenSync, syncFront, syncBack, likeEvents] using hmem
    rw [hkey] at htr
    have hsplit : [.call false ⟨.scanIter "post_like:", .ok [likeKey 1 1]⟩] ++
        .call false ⟨.get (likeKey 1 1), .ok (some "1")⟩ :: betweenSync.drop 2 =
          tr₁ ++ .call false ⟨.get (likeKey 1 1), .ok (some "1")⟩ :: tr₂ := htr
    obtain ⟨rfl, _, _⟩ := (List.append_cons_inj_of_notMem (by simp)
      (by simp [betweenSync, syncFront, syncBack, likeEvents])).mp hsplit
    obtain ⟨s₁, ⟨_, rfl⟩, hnil⟩ := chain_cons.mp hchain
    rw [chain_nil.mp hnil] at hopen
    simp [likedState, Session.idle] at hopen
  · subst he
    obtain rfl : c = false := by
      simpa [betweenSync, syncFront, syncBack, likeEvents] using hmem
    exact hnever _ _
  · subst he
    obtain ⟨rfl, _⟩ : c = false ∧ keys = [likeKey 1 1] := by
      simpa [betweenSync, syncFront, syncBack, likeEvents] using hmem
    exact hnever p u

/-- The other user likes the post between the steps of the sync. -/
theorem nothing_lost_sample : ∃ tr cfg,
    Run (sem FullScan) (InTime likeDuringSync) (start likeDuringSync likedState) tr cfg ∧
      (∀ c, (cfg.pool c).outcome = some (.ok ())) ∧ lastToggle tr 1 2 = some true ∧
      cfg.state.db.committed.liked 1 1 = true ∧ NothingLost likedState tr cfg.state := by
  have hget : some "1" = likedState.redis (likeKey 1 1) := by simp [likedState]
  have hnone : none = likedState.redis (likeKey 1 2) := by simp [likedState]
  have hchain : ∃ s, Chain (sem FullScan) likedState
      betweenSync s ∧ s.db.committed.liked 1 1 = true := by
    refine ⟨_, .append (.append
      (.call ⟨fullScan_likedState, rfl⟩ (.call ⟨hget, rfl⟩ (.call ⟨rfl, rfl⟩ .nil)))
      (.call ⟨rfl, rfl⟩ (.call ⟨hnone, rfl⟩ (.call ⟨rfl, rfl⟩ (.call rfl (.call rfl .nil))))))
      (.call ⟨?_, rfl, rfl⟩ (.call rfl (.call rfl (.call rfl .nil)))), rfl⟩
    intro c' hc w hw
    cases c' with
    | false => exact absurd rfl hc
    | true => exact nomatch hw
  obtain ⟨s, hchain, hliked⟩ := hchain
  have hrun := Run.of_chain hchain (p := fun c => serve (likeDuringSync c))
    (q := fun _ => .ret ()) ?_
  · have htimely : Run (sem FullScan) (InTime likeDuringSync) (start likeDuringSync likedState)
        _ _ := hrun.guarded fun _ _ _ _ htr hrun₁ => inTime_betweenSync htr hrun₁.chain
    refine ⟨_, _, htimely, fun _ => rfl, ?_, hliked, nothing_lost
      (fun _ _ _ hscan key hkey => (hscan.1 key hkey).1) stored_likedState (fun _ => rfl) htimely⟩
    simp [lastToggle, toggle, betweenSync, syncFront, syncBack, likeEvents]
  · intro c
    cases c with
    | false =>
        simp only [betweenSync, own_append, own_map_self,
          own_map_ne Bool.false_ne_true.symm, List.append_nil]
        exact sync_runs 1 1
    | true =>
        simp only [betweenSync, own_append, own_map_self, own_map_ne Bool.false_ne_true,
          List.append_nil, List.nil_append]
        exact like_runs 1 2

/-- The unlike comes after the sync has read the like: the row is written and the
unlike's key is deleted. -/
theorem unlike_lost :
    ¬ ∀ tr cfg, Run (sem FullScan) anyStep (start unlikeDuringSync likedState) tr cfg →
      (∀ c, (cfg.pool c).outcome = some (.ok ())) →
        NothingLost likedState tr cfg.state := by
  intro h
  have hchain : ∃ s, Chain (sem FullScan) likedState
      ((syncFront 1 1).map (.call false) ++ (unlikeEvents 1 1).map (.call true) ++
        (syncBack 1 1).map (.call false)) s ∧ effective s 1 1 = true := by
    have hget : some "1" = likedState.redis (likeKey 1 1) := by simp [likedState]
    refine ⟨_, .append (.append
      (.call ⟨fullScan_likedState, rfl⟩ (.call ⟨hget, rfl⟩ (.call ⟨rfl, rfl⟩ .nil)))
      (.call ⟨hget, rfl⟩ (.call rfl (.call rfl .nil))))
      (.call ⟨?_, rfl, rfl⟩ (.call rfl (.call rfl (.call rfl .nil)))), ?_⟩
    · intro c' hc w hw
      cases c' with
      | false => exact absurd rfl hc
      | true => exact nomatch hw
    · rw [effective_of_none (by simp)]
      rfl
  obtain ⟨s, hchain, heff⟩ := hchain
  have hrun := Run.of_chain hchain (p := fun c => serve (unlikeDuringSync c))
    (q := fun _ => .ret ()) ?_
  · have hlost := h _ _ hrun (fun _ => rfl) 1 1
    rw [heff] at hlost
    simp [lastToggle, toggle, syncFront, syncBack, unlikeEvents] at hlost
  · intro c
    cases c with
    | false =>
        simp only [own_append, own_map_self, own_map_ne Bool.false_ne_true.symm,
          List.append_nil]
        exact sync_runs 1 1
    | true =>
        simp only [own_append, own_map_self, own_map_ne Bool.false_ne_true,
          List.append_nil, List.nil_append]
        exact unlike_runs 1 1

end GreenCommunity.Likes
