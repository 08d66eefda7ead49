import Mathlib.Data.Set.Insert
import GreenCommunity.Likes.Sync
import GreenCommunity.Likes.Traces

/-!
# The like store is a set

Run one at a time, liking, unliking and the sync job implement a plain set of
(post, user) pairs: liking inserts, unliking removes, and the sync changes nothing
but where the pairs are kept.  That includes syncs that an exception ends at any
operation, and every order and repetition in which a `SCAN` can yield the keys.
-/

namespace GreenCommunity.Likes

open GreenCommunity.Base
open GreenCommunity.Base.Prog
open GreenCommunity.Infrastructure (wp_oneOrNone)

/-- One caller, and nothing happens between its operations. -/
def soloSem : Sem Unit Op Reply (State Unit) where
  step := step FullScan
  env s s' := s' = s

/-- Like keys have the values that the service writes, the table has its keys, and
no transaction is open. -/
structure Good (s : State Unit) : Prop where
  values : ∀ {key v}, s.redis key = some v → "post_like:".toList <+: key.toList →
    ∃ p u, key = likeKey p u ∧ (v = "0" ∨ v = "1")
  keyed : s.db.committed.Keyed s.nextLikeId
  idle : s.db.session () = .idle

/-! ## Operations -/

section Ops

variable {s : State Unit} {op : Op}

theorem wp_perform {Q : Except AppError (Result op) → State Unit → Prop}
    (hok : ∀ r s', does FullScan () s op r s' → Q (.ok r) s')
    (herr : ∀ e, fails () s op e → Q (.error e) s) :
    (perform op).wp soloSem () Q s := by
  refine Infrastructure.wp_perform hok ?_
  rintro e s' ⟨hfail, rfl⟩
  exact herr e hfail

/-- The session has read at most what is committed, and written nothing. -/
structure Clean (s : State Unit) : Prop where
  fresh : s.db.Fresh ()
  writes : (s.db.session ()).writes = []

theorem Clean.view (h : Clean s) : s.db.view Tables.apply () = s.db.committed := by
  rw [h.fresh.view_eq, Db.current, h.writes]
  rfl

theorem Clean.read (h : Clean s) : Clean { s with db := s.db.read () } :=
  ⟨h.fresh.read, by simpa using h.writes⟩

theorem Good.clean (h : Good s) : Clean s :=
  ⟨Db.fresh_of_idle h.idle, by rw [h.idle]; rfl⟩

/-- What the session wrapper leaves of the body's final state. -/
def State.closed (s : State Unit) : State Unit := { s with db := s.db.rollback () }

theorem closed_closed (s : State Unit) : s.closed.closed = s.closed := by
  simp [State.closed, Db.rollback]

theorem wp_inSession {α : Type} {body : LikesM α}
    {Q : Except AppError α → State Unit → Prop}
    (h : body.wp soloSem () (fun o s' => Q o s'.closed) s) :
    (inSession body).wp soloSem () Q s := by
  refine Infrastructure.wp_inSession closed_closed ?_ ?_ h
  · intro Q s hQ
    refine wp_perform ?_ nofun
    rintro _ _ rfl
    exact hQ
  · intro Q s hQ
    refine wp_perform ?_ nofun
    rintro _ _ rfl
    exact hQ

end Ops

/-! ## Reading a pair -/

section Reads

variable {s : State Unit}

/-- The shared state is untouched; the session may have read. -/
structure Kept (s s' : State Unit) : Prop where
  redis : s'.redis = s.redis
  committed : s'.db.committed = s.db.committed
  nextLikeId : s'.nextLikeId = s.nextLikeId
  clean : Clean s'

theorem Clean.kept (h : Clean s) : Kept s s := ⟨rfl, rfl, rfl, h⟩

theorem Kept.trans {s' s'' : State Unit} (h : Kept s s') (h' : Kept s' s'') : Kept s s'' :=
  ⟨h'.redis.trans h.redis, h'.committed.trans h.committed,
    h'.nextLikeId.trans h.nextLikeId, h'.clean⟩

theorem Kept.effective {s' : State Unit} (h : Kept s s') (p u : Nat) :
    effective s' p u = effective s p u := by
  simp [Likes.effective, h.redis, h.committed]

/-- `get_like` returns the state of the pair. -/
theorem getLike_wp (h : Clean s)
    (hk : (s.db.committed.postsLike.map fun row => (row.postId, row.userId)).Nodup)
    (p u : Nat) :
    (getLike p u).wp soloSem () (fun o s' => Kept s s' ∧
      ∀ b, o = .ok b → b = effective s p u) s := by
  refine wp_bind.mpr (wp_perform ?_ fun e _ => ⟨h.kept, nofun⟩)
  rintro r s' ⟨hr, hs⟩
  rw [hr, hs]
  cases hv : s.redis (likeKey p u) with
  | some v =>
      refine ⟨h.kept, ?_⟩
      rintro b ⟨⟩
      exact (effective_of_some hv).symm
  | none =>
      refine wp_bind.mpr (wp_perform ?_ fun e _ => ⟨h.kept, nofun⟩)
      rintro rows s'' ⟨hrows, hread⟩
      rw [hrows, hread, h.view]
      have hrows := likesOf_of_unique hk p u
      refine wp_bind.mpr (wp_oneOrNone hrows ⟨⟨rfl, rfl, rfl, h.read⟩, ?_⟩)
      rintro b ⟨⟩
      rw [effective_of_none hv]
      rcases hrows with hrows | ⟨row, hrows⟩ <;> simp [Tables.liked, hrows]

end Reads

/-! ## Liking and unliking -/

section Toggles

variable {s : State Unit}

/-- The Redis value of a pair's state. -/
def status (b : Bool) : String := if b then "1" else "0"

/-- The pair has its new state and nothing else has changed. -/
structure Toggled (s s' : State Unit) (p u : Nat) (b : Bool) : Prop where
  committed : s'.db.committed = s.db.committed
  nextLikeId : s'.nextLikeId = s.nextLikeId
  redis : ∀ {key v}, s'.redis key = some v →
    s.redis key = some v ∨ key = likeKey p u ∧ v = status b
  effective : ∀ q w, effective s' q w = if q = p ∧ w = u then b else effective s q w

/-- A toggle that has no effect because the pair is in that state already. -/
theorem Kept.toggled {s' : State Unit} (h : Kept s s') {p u : Nat} {b : Bool}
    (hb : b = Likes.effective s p u) : Toggled s s' p u b where
  committed := h.committed
  nextLikeId := h.nextLikeId
  redis hv := Or.inl (h.redis ▸ hv)
  effective q w := by
    rw [h.effective]
    split
    · rename_i hqw
      rw [hqw.1, hqw.2, hb]
    · rfl

theorem toggled_set {s' : State Unit} (h : Kept s s') (p u : Nat) (b : Bool) :
    Toggled s
      { s' with redis := Function.update s'.redis (likeKey p u) (some (status b)) } p u b where
  committed := h.committed
  nextLikeId := h.nextLikeId
  redis {key v} hv := by
    dsimp only at hv
    by_cases hk : key = likeKey p u
    · subst hk
      rw [Function.update_self, Option.some.injEq] at hv
      exact Or.inr ⟨rfl, hv.symm⟩
    · rw [Function.update_of_ne hk, h.redis] at hv
      exact Or.inl hv
  effective q w := by
    by_cases hqw : q = p ∧ w = u
    · obtain ⟨rfl, rfl⟩ := hqw
      rw [if_pos ⟨rfl, rfl⟩, effective_of_some (Function.update_self ..)]
      cases b <;> decide
    · rw [if_neg hqw, ← h.effective q w]
      have hne : likeKey q w ≠ likeKey p u := by simpa using hqw
      simp [Likes.effective, Function.update_of_ne hne]

/-- What the toggles establish. -/
def Toggles (s : State Unit) (p u : Nat) (b : Bool) (o : Except AppError Unit)
    (s' : State Unit) : Prop :=
  (o = .ok () → Toggled s s' p u b) ∧ (∀ e, o = .error e → Kept s s')

theorem toggles_of_kept {s' : State Unit} (h : Kept s s') {p u : Nat} {b : Bool}
    (e : AppError) : Toggles s p u b (.error e) s' :=
  ⟨nofun, fun _ _ => h⟩

theorem set_wp {s' : State Unit} (h : Kept s s') (p u : Nat) (b : Bool) :
    (perform (.set (likeKey p u) (status b))).wp soloSem ()
      (Toggles s p u b) s' := by
  refine wp_perform ?_ fun e _ => toggles_of_kept h e
  rintro _ _ rfl
  exact ⟨fun _ => toggled_set h p u b, nofun⟩

theorem unlikePost_wp (h : Clean s) (hk : s.db.committed.Keyed s.nextLikeId) (p u : Nat) :
    (unlikePost p u).wp soloSem () (Toggles s p u false) s := by
  refine wp_bind.mpr (wp_mono ?_ (getLike_wp h hk.unique p u))
  rintro (e | like) s' ⟨hkept, hlike⟩
  · exact toggles_of_kept hkept e
  · have heff := hlike like rfl
    cases like with
    | false => exact ⟨fun _ => hkept.toggled heff, nofun⟩
    | true => exact set_wp hkept p u false

theorem likePost_wp (h : Clean s) (hk : s.db.committed.Keyed s.nextLikeId) (p u : Nat) :
    (likePost p u).wp soloSem () (Toggles s p u true) s := by
  have hrest : ∀ {s' : State Unit}, Kept s s' →
      (getLike p u >>= fun existingLike =>
        if existingLike then pure () else addLike p u).wp soloSem ()
        (Toggles s p u true) s' := by
    intro s' hkept
    have hk' : (s'.db.committed.postsLike.map fun row => (row.postId, row.userId)).Nodup := by
      rw [hkept.committed]
      exact hk.unique
    refine wp_bind.mpr (wp_mono ?_ (getLike_wp hkept.clean hk' p u))
    rintro (e | like) s'' ⟨hkept', hlike⟩
    · exact toggles_of_kept (hkept.trans hkept') e
    · have heff := hlike like rfl
      rw [hkept.effective] at heff
      cases like with
      | true => exact ⟨fun _ => (hkept.trans hkept').toggled heff, nofun⟩
      | false => exact set_wp (hkept.trans hkept') p u true
  refine wp_bind.mpr (wp_bind.mpr (wp_perform ?_ fun e _ => toggles_of_kept h.kept e))
  rintro rows s' ⟨hrows, hs⟩
  have hkept : Kept s s' := by
    rw [hs]
    exact ⟨rfl, rfl, rfl, h.read⟩
  match rows with
  | [] => exact toggles_of_kept hkept _
  | [post] => exact hrest hkept
  | _ :: _ :: _ => exact toggles_of_kept hkept _

end Toggles

/-! ## The sync -/

theorem Good.stored {s : State Unit} (hs : Good s) : Stored s := ⟨hs.values, hs.keyed⟩

theorem scanLikeToDb_wp {s : State Unit} (hs : Good s) :
    scanLikeToDb.wp soloSem () (fun o s' => Synced s s' ∧ (o = .ok () → Drained s')) s := by
  have hsync := scanLikeToDb_among (fun _ _ _ => FullScan.covers) hs.stored hs.idle
  have hstep : soloSem.step = (sem FullScan).step := rfl
  exact hsync.wp hstep Unnoticed.refl fun _ _ => trivial

/-! ## Requests -/

/-- A request of the history. -/
abbrev Entered := Served Request Op Reply AppError Unit (State Unit)

/-- The set of pairs: liking inserts, unliking removes; a request that raises and
the sync do nothing. -/
def likesAfter (likes : Set (Nat × Nat)) (req : Request) (o : Except AppError Unit) :
    Set (Nat × Nat) :=
  match req, o with
  | .like p u, .ok _ => insert (p, u) likes
  | .unlike p u, .ok _ => likes \ {(p, u)}
  | _, _ => likes

def abstractLikes (init : State Unit) (log : List Entered) : Set (Nat × Nat) :=
  log.foldl (fun likes e => likesAfter likes e.req e.outcome)
    {x | effective init x.1 x.2 = true}

/-- The store holds the set. -/
structure Holds (s : State Unit) (likes : Set (Nat × Nat)) : Prop extends Good s where
  mem : ∀ p u, effective s p u = true ↔ (p, u) ∈ likes

section Requests

variable {s s' : State Unit} {likes : Set (Nat × Nat)}

theorem effective_closed (p u : Nat) : effective s.closed p u = effective s p u := rfl

theorem Kept.holds (h : Kept s s') (hs : Holds s likes) : Holds s'.closed likes where
  values hv hstem := hs.values (h.redis ▸ hv) hstem
  keyed := by
    show s'.db.committed.Keyed s'.nextLikeId
    rw [h.committed, h.nextLikeId]
    exact hs.keyed
  idle := Db.session_rollback
  mem p u := by rw [effective_closed, h.effective, hs.mem]

theorem Toggled.holds {p u : Nat} {b : Bool} {likes' : Set (Nat × Nat)}
    (h : Toggled s s' p u b) (hs : Holds s likes)
    (hlikes : ∀ q w, (q, w) ∈ likes' ↔ if q = p ∧ w = u then b = true else (q, w) ∈ likes) :
    Holds s'.closed likes' where
  values hv hstem := by
    rcases h.redis hv with hv | ⟨rfl, rfl⟩
    · exact hs.values hv hstem
    · exact ⟨p, u, rfl, by cases b <;> simp [status]⟩
  keyed := by
    show s'.db.committed.Keyed s'.nextLikeId
    rw [h.committed, h.nextLikeId]
    exact hs.keyed
  idle := Db.session_rollback
  mem q w := by
    rw [effective_closed, h.effective, hlikes]
    split
    · rfl
    · exact hs.mem q w

theorem Synced.holds (h : Synced s s') (hs : Holds s likes) : Holds s'.closed likes where
  values hv hstem := hs.values (h.redis hv) hstem
  keyed := h.keyed
  idle := Db.session_rollback
  mem p u := by rw [effective_closed, h.effective, hs.mem]

theorem others_holds (h : others s s') (hs : Holds s likes) : Holds s' likes := by
  obtain ⟨posts, rfl⟩ := h
  exact ⟨⟨hs.values, hs.keyed.posts posts, hs.idle⟩, hs.mem⟩

/-- Every request acts on the store as on the set. -/
theorem serve_wp (hs : Holds s likes) (req : Request) :
    (serve req).wp soloSem () (fun o s' => Holds s' (likesAfter likes req o) ∧
      (req = .sync → o = .ok () → Drained s')) s := by
  have hclean := hs.clean
  cases req with
  | like p u =>
      refine wp_inSession (wp_mono ?_ (likePost_wp hclean hs.keyed p u))
      rintro (e | _) s' ⟨hok, herr⟩
      · exact ⟨(herr e rfl).holds hs, nofun⟩
      · refine ⟨(hok rfl).holds hs fun q w => ?_, nofun⟩
        simp only [likesAfter, Set.mem_insert_iff, Prod.mk.injEq]
        split <;> simp_all
  | unlike p u =>
      refine wp_inSession (wp_mono ?_ (unlikePost_wp hclean hs.keyed p u))
      rintro (e | _) s' ⟨hok, herr⟩
      · exact ⟨(herr e rfl).holds hs, nofun⟩
      · refine ⟨(hok rfl).holds hs fun q w => ?_, nofun⟩
        simp only [likesAfter, Set.mem_sdiff, Set.mem_singleton_iff, Prod.mk.injEq]
        split <;> simp_all
  | sync =>
      refine wp_inSession (wp_mono ?_ (scanLikeToDb_wp hs.toGood))
      rintro o s' ⟨hsynced, hdrained⟩
      refine ⟨?_, fun _ ho key hstem => hdrained ho key hstem⟩
      cases o <;> exact hsynced.holds hs

/-- `get_like` in a session of its own, with services that answer. -/
theorem getLike_returns (hs : Good s) (p u : Nat) :
    ∃ evs b s', Exec soloSem () s (inSession (getLike p u)) evs (some (.ok b)) s' := by
  have hclose : ∀ s : State Unit, soloSem.step () s .close (.ok ()) s.closed := fun _ => rfl
  have hget : soloSem.step () s (.get (likeKey p u)) (.ok (s.redis (likeKey p u))) s :=
    ⟨rfl, rfl⟩
  cases hv : s.redis (likeKey p u) with
  | some v =>
      rw [hv] at hget
      exact ⟨_, _, _, .call rfl hget (.call rfl (hclose s) .ret)⟩
  | none =>
      rw [hv] at hget
      have hselect : soloSem.step () s (.selectLike p u)
          (.ok (s.db.committed.likesOf p u)) { s with db := s.db.read () } :=
        ⟨by rw [hs.clean.view], rfl⟩
      rcases hs.keyed.likesOf p u with hrows | ⟨row, hrows⟩
      · rw [hrows] at hselect
        exact ⟨_, _, _, .call rfl hget (.call rfl hselect (.call rfl (hclose _) .ret))⟩
      · rw [hrows] at hselect
        exact ⟨_, _, _, .call rfl hget (.call rfl hselect (.call rfl (hclose _) .ret))⟩

end Requests

section Main

variable {init s : State Unit} {log : List Entered}

theorem abstractLikes_snoc (e : Entered) :
    abstractLikes init (log ++ [e]) =
      likesAfter (abstractLikes init log) e.req e.outcome := by
  simp [abstractLikes]

/-- The last request was a sync that completed. -/
def EndsInSync (log : List Entered) : Prop :=
  ∃ log' e, log = log' ++ [e] ∧ e.req = .sync ∧ e.outcome = .ok ()

theorem holds_serial (h0 : Good init) (h : Serial soloSem () others serve init log s) :
    Holds s (abstractLikes init log) ∧ (EndsInSync log → Drained s) := by
  refine Serial.inv (fun log s => Holds s (abstractLikes init log) ∧
    (EndsInSync log → Drained s)) ⟨⟨h0, fun _ _ => Iff.rfl⟩, ?_⟩ ?_ ?_ h
  · rintro ⟨log', e, hlog, _⟩
    simp at hlog
  · rintro log s s' ⟨hs, hdrained⟩ ⟨posts, rfl⟩
    exact ⟨others_holds ⟨posts, rfl⟩ hs, hdrained⟩
  · rintro log s s' req evs o _ ⟨hs, _⟩ hx
    rw [abstractLikes_snoc]
    obtain ⟨hholds, hdrained⟩ := hx.wp (fun _ _ => id) (serve_wp hs req)
    refine ⟨hholds, ?_⟩
    rintro ⟨log', e, hlog, hreq, ho⟩
    obtain ⟨_, hlast⟩ := List.append_inj' hlog rfl
    cases hlast
    exact hdrained hreq ho

/-- After any sequence of likes, unlikes and syncs: no pair has two rows, `get_like`
returns membership in the set, and after a completed sync Redis holds no like and
the table is the set. -/
theorem like_store_is_set (h0 : Good init) (h : Serial soloSem () others serve init log s) :
    (s.db.committed.postsLike.map fun row => (row.postId, row.userId)).Nodup ∧
    (∀ p u, (∃ evs b s', Exec soloSem () s (inSession (getLike p u)) evs (some (.ok b)) s') ∧
      ∀ evs b s', Exec soloSem () s (inSession (getLike p u)) evs (some (.ok b)) s' →
        (b = true ↔ (p, u) ∈ abstractLikes init log)) ∧
    (EndsInSync log → (∀ key, "post_like:".toList <+: key.toList → s.redis key = none) ∧
      ∀ p u, (∃ row ∈ s.db.committed.postsLike, row.postId = p ∧ row.userId = u) ↔
        (p, u) ∈ abstractLikes init log) := by
  obtain ⟨hs, hdrained⟩ := holds_serial h0 h
  refine ⟨hs.keyed.unique, fun p u => ⟨getLike_returns hs.toGood p u, ?_⟩, fun hsync => ?_⟩
  · intro evs b s' hx
    have hwp := wp_inSession (Q := fun o s' => ∀ b, o = .ok b → b = effective s p u)
      (wp_mono (fun _ _ hpost => hpost.2) (getLike_wp hs.clean hs.keyed.unique p u))
    rw [hx.wp (fun _ _ => id) hwp b rfl, hs.mem]
  · refine ⟨hdrained hsync, fun p u => ?_⟩
    rw [← liked_iff, ← hs.mem p u, effective_of_none (hdrained hsync _ (stem_likeKey p u))]

end Main

/-! ## A sample history -/

/-- One published post, nobody likes it. -/
def sampleState : State Unit where
  redis _ := none
  db := { committed := { posts := [⟨1, .published, none⟩], postsLike := [] }
          session := fun _ => .idle }
  nextLikeId := 1

theorem good_sampleState : Good sampleState where
  values hv := by cases hv
  keyed := ⟨by simp [sampleState], by simp [sampleState], by simp [sampleState]⟩
  idle := rfl

/-- The executions of traces with nothing in between. -/
private theorem served_of_chain {req : Request} {es : List LikesEvent} {s s' : State Unit}
    (hruns : (serve req).Runs es (.ret ())) (hchain : Chain soloSem s (es.map (.call ())) s') :
    ∃ evs, Exec soloSem () s (serve req) evs (some (.ok ())) s' := by
  obtain ⟨evs, _, _, hx⟩ := Exec.of_chain (P := fun _ => True) (fun _ => rfl)
    (fun _ _ _ _ h _ => h) hruns rfl trivial hchain
  exact ⟨evs, hx⟩

/-- The user likes the post, a sync runs, and the user takes the like back. -/
theorem like_store_is_set_sample : ∃ log s unliked s',
    Serial soloSem () others serve sampleState log s ∧
    (s.redis (likeKey 1 1) = none ∧ ∃ row ∈ s.db.committed.postsLike,
      row.postId = 1 ∧ row.userId = 1) ∧
    Serial soloSem () others serve sampleState (log ++ [unliked]) s' ∧
    ∃ evs s'', Exec soloSem () s' (inSession (getLike 1 1)) evs (some (.ok false)) s'' := by
  have hunset : none = sampleState.redis (likeKey 1 1) := rfl
  obtain ⟨s₁, hlike, hredis, htables, hsession⟩ : ∃ s,
      Chain soloSem sampleState ((likeEvents 1 1).map (.call ())) s ∧
      s.redis = Function.update sampleState.redis (likeKey 1 1) (some "1") ∧
      s.db.committed = sampleState.db.committed ∧ s.db.session () = .idle :=
    ⟨_, .call ⟨by decide, rfl⟩ (.call ⟨hunset, rfl⟩ (.call ⟨by decide, rfl⟩
      (.call rfl (.call rfl .nil)))), rfl, rfl, by simp⟩
  obtain ⟨s₂, hsync, hunset, htable, hsession⟩ : ∃ s,
      Chain soloSem s₁ ((syncFront 1 1 ++ syncBack 1 1).map (.call ())) s ∧
      none = s.redis (likeKey 1 1) ∧
      s.db.committed.postsLike = [⟨s₁.nextLikeId, 1, 1⟩] ∧ s.db.session () = .idle := by
    have hscan : FullScan s₁.redis "post_like:" [likeKey 1 1] := by
      refine ⟨fun key hkey => ?_, fun key _ hlive => ?_⟩
      · rw [List.mem_singleton.mp hkey]
        exact ⟨stem_likeKey 1 1, by simp [hredis]⟩
      · by_contra hne
        rw [List.mem_singleton] at hne
        simp [hredis, Function.update_of_ne hne, sampleState] at hlive
    have hget : some "1" = s₁.redis (likeKey 1 1) := by simp [hredis]
    have hnone : [] = (s₁.db.view Tables.apply ()).likesOf 1 1 := by
      simp [Db.view, hsession, htables, Session.idle, sampleState, Tables.likesOf]
    refine ⟨_, .call ⟨hscan, rfl⟩ (.call ⟨hget, rfl⟩ (.call ⟨hnone, rfl⟩ (.call ⟨?_, ?_, rfl⟩
      (.call rfl (.call rfl (.call rfl .nil)))))), by simp, ?_, by simp⟩
    · exact fun c hc => absurd rfl hc
    · simp [Db.current, Db.read, hsession, htables, Session.idle, sampleState, Tables.likesOf]
    · simp [Db.current, Db.read, Db.write, hsession, htables, Session.idle, sampleState,
        Tables.apply]
  obtain ⟨s₃, hunlike⟩ : ∃ s,
      Chain soloSem s₂ ((unlikeRowEvents ⟨s₁.nextLikeId, 1, 1⟩ 1 1).map (.call ())) s := by
    have hlike : [⟨s₁.nextLikeId, 1, 1⟩] = (s₂.db.view Tables.apply ()).likesOf 1 1 := by
      simp [Db.view, hsession, htable, Session.idle, Tables.likesOf]
    exact ⟨_, .call ⟨hunset, rfl⟩ (.call ⟨hlike, rfl⟩ (.call rfl (.call rfl .nil)))⟩
  obtain ⟨evs₁, h₁⟩ := served_of_chain (like_runs 1 1) hlike
  obtain ⟨evs₂, h₂⟩ := served_of_chain (sync_runs 1 1) hsync
  obtain ⟨evs₃, h₃⟩ := served_of_chain (unlikeRow_runs _ 1 1) hunlike
  have hlog : Serial soloSem () others serve sampleState _ s₂ := .serve (.serve .nil h₁) h₂
  obtain ⟨hnone, hrow⟩ := (like_store_is_set good_sampleState hlog).2.2 ⟨_, _, rfl, rfl, rfl⟩
  obtain ⟨⟨evs, b, s'', hx⟩, hmem⟩ :=
    (like_store_is_set good_sampleState (hlog.serve h₃)).2.1 1 1
  obtain rfl : b = false := by
    rw [← Bool.not_eq_true, hmem evs b s'' hx]
    simp [abstractLikes, likesAfter]
  refine ⟨_, _, _, _, hlog, ⟨hnone _ (stem_likeKey 1 1), (hrow 1 1).mpr ?_⟩, hlog.serve h₃,
    evs, s'', hx⟩
  simp [abstractLikes, likesAfter]

end GreenCommunity.Likes
