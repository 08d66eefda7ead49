import GreenCommunity.Likes.Counts
import GreenCommunity.Likes.LostToggles

/-!
# Reads during a sync

A request opens its snapshot when it looks up its user and asks Redis for likes later.  In
between a sync may commit the rows and delete their keys: Redis then has nothing and the
snapshot does not have the rows yet, so the request misses what both stores together never
lost.  A read goes wrong exactly where its last look at Redis finds no key for rows on which
its snapshot and the committed table differ.
-/

namespace GreenCommunity.Likes

open GreenCommunity.Base
open GreenCommunity.Base.Prog
open GreenCommunity.Infrastructure (among_oneOrNone among_inSession)

/-! ## Readers -/

inductive Read where
  | getLike (postId userId : Nat)
  | countLikes (postId : Nat)
  | unlike (postId userId : Nat)
  deriving DecidableEq, Repr

inductive Value where
  | liked (b : Bool)
  | count (n : Int)
  | done
  deriving DecidableEq, Repr

def Read.call : Read → LikesM Value
  | .getLike postId userId => do return .liked (← Likes.getLike postId userId)
  | .countLikes postId => do return .count (← Likes.countLikes postId)
  | .unlike postId userId => do
      unlikePost postId userId
      return .done

/-- A request reads its user before anything else, in the same session. -/
def reading (caller : Nat) (read : Read) : LikesM Value :=
  inSession (do
    let _ ← getCurrentUser caller
    read.call)

def syncing : LikesM Value := do
  postLikeSync
  return .done

/-- A sync and a reader, before either has begun. -/
def startReading (caller : Nat) (read : Read) (init : State Bool) :
    Config Bool Op Reply AppError Value (State Bool) where
  state := init
  pool
    | false => syncing
    | true => reading caller read

/-- The reader takes back the like. -/
def undoes (p u : Nat) : Label Bool Op Reply → Bool
  | .call true ⟨.set key _, .ok _⟩ => key == likeKey p u
  | _ => false

/-- What a reader that returned `v` has found out; an unlike shows it by what it does. -/
def Read.shown (tr : List (Label Bool Op Reply)) : Read → Value → Value
  | .getLike _ _, v => v
  | .countLikes _, v => v
  | .unlike p u, _ => .liked (tr.any (undoes p u))

/-- What Redis and a table say together. -/
noncomputable def Read.valueAt (redis : String → Option String) (t : Tables) : Read → Value
  | .getLike p u => .liked (seen redis t p u)
  | .countLikes p => .count {u | seen redis t p u = true}.ncard
  | .unlike p u => .liked (seen redis t p u)

/-! ## The last look at Redis -/

def Read.Looks : Read → Event Op Reply → Prop
  | .getLike p u, e => ∃ r, e = ⟨.get (likeKey p u), .ok r⟩
  | .countLikes p, e => LastLook p e
  | .unlike p u, e => ∃ r, e = ⟨.get (likeKey p u), .ok r⟩

/-- How many rows of a post have no Redis key. -/
def unkeyed (redis : String → Option String) (t : Tables) (p : Nat) : Nat :=
  ((t.likers p).filter fun u => (redis (likeKey p u)).isNone).length

/-- Where Redis has no key, two tables say the same. -/
def Read.Agree (redis : String → Option String) (t t' : Tables) : Read → Prop
  | .getLike p u => redis (likeKey p u) = none → t.liked p u = t'.liked p u
  | .countLikes p => unkeyed redis t p = unkeyed redis t' p
  | .unlike p u => redis (likeKey p u) = none → t.liked p u = t'.liked p u

/-- The reader looks at Redis only while its snapshot agrees with the committed table. -/
def LooksInTime (read : Read) : Guard Bool Op Reply AppError Value (State Bool) :=
  fun _ cfg l => ∀ e, l = .call true e → read.Looks e →
    read.Agree cfg.state.redis (cfg.state.db.view Tables.apply true) cfg.state.db.committed

/-- The reader looks at Redis only while its snapshot does not. -/
def LooksTooLate (read : Read) : Guard Bool Op Reply AppError Value (State Bool) :=
  fun _ cfg l => ∀ e, l = .call true e → read.Looks e →
    ¬ read.Agree cfg.state.redis (cfg.state.db.view Tables.apply true) cfg.state.db.committed

/-- The sync does not run. -/
def NoSync : Guard Bool Op Reply AppError Value (State Bool) :=
  fun _ _ l => ∀ e, l ≠ .call false e

section Agree

variable {redis : String → Option String} {t t' : Tables} {p u : Nat}

theorem seen_eq_iff : seen redis t p u = seen redis t' p u ↔
    (redis (likeKey p u) = none → t.liked p u = t'.liked p u) := by
  unfold seen
  cases redis (likeKey p u) <;> simp

/-- The users who like a post are those whose key says so and those with a row and no key. -/
theorem ncard_seen (ht : (t.postsLike.map fun row => (row.postId, row.userId)).Nodup)
    (hkeys : {u | (redis (likeKey p u)).isSome}.Finite) :
    {u | seen redis t p u = true}.ncard =
      {u | redis (likeKey p u) = some "1"}.ncard + unkeyed redis t p := by
  have hrows : {u | redis (likeKey p u) = none ∧ u ∈ t.likers p} =
      ↑((t.likers p).filter fun u => (redis (likeKey p u)).isNone).toFinset := by
    ext u
    simp [and_comm]
  have hsplit : {u | seen redis t p u = true} = {u | redis (likeKey p u) = some "1"} ∪
      {u | redis (likeKey p u) = none ∧ u ∈ t.likers p} := by
    ext u
    simp only [Set.mem_ofPred_eq, Set.mem_union, mem_likers, seen]
    cases redis (likeKey p u) <;> simp
  have hdisjoint : Disjoint {u | redis (likeKey p u) = some "1"}
      {u | redis (likeKey p u) = none ∧ u ∈ t.likers p} := by
    rw [Set.disjoint_left]
    rintro u hu ⟨hnone, _⟩
    rw [Set.mem_ofPred_eq, hnone] at hu
    cases hu
  have hfinite : {u | redis (likeKey p u) = some "1"}.Finite :=
    hkeys.subset fun u hu => by
      rw [Set.mem_ofPred_eq] at hu ⊢
      simp [hu]
  have hnodup : ((t.likers p).filter fun u => (redis (likeKey p u)).isNone).Nodup :=
    (nodup_likers ht).filter _
  rw [hsplit, Set.ncard_union_eq hdisjoint hfinite (hrows ▸ Finset.finite_toSet _), hrows,
    Set.ncard_coe_finset, List.toFinset_card_of_nodup hnodup, unkeyed]

/-- Two tables give a reader the same value exactly if they agree where Redis has no key. -/
theorem valueAt_eq_iff {read : Read}
    (ht : (t.postsLike.map fun row => (row.postId, row.userId)).Nodup)
    (ht' : (t'.postsLike.map fun row => (row.postId, row.userId)).Nodup)
    (hkeys : ∀ p, read = .countLikes p → {u | (redis (likeKey p u)).isSome}.Finite) :
    read.valueAt redis t = read.valueAt redis t' ↔ read.Agree redis t t' := by
  cases read with
  | getLike p u | unlike p u => simp only [Read.valueAt, Read.Agree, Value.liked.injEq, seen_eq_iff]
  | countLikes p =>
      simp only [Read.valueAt, Read.Agree, Value.count.injEq, ncard_seen ht (hkeys p rfl),
        ncard_seen ht' (hkeys p rfl)]
      omega

end Agree

/-! ## A reader among others -/

section Among

variable {C : Type} [DecidableEq C] {c : C} {t : Tables} {p u : Nat}
  {scans : (String → Option String) → String → List String → Prop}
  {R : State C → State C → Prop} {A : State C → Event Op Reply → Prop}
  {G : State C → Event Op Reply → State C → Prop} {P : State C → Prop} {s : State C}

/-- `get_like` returns the state of the pair as Redis has it when asked. -/
theorem getLike_among (hP : ReadsRows c t R G P) (hs : P s) :
    (getLike p u).Among (sem scans) c R A G (fun o s' => P s' ∧ ∀ b, o = .ok b →
      ∃ s₁ r, P s₁ ∧ A s₁ ⟨.get (likeKey p u), .ok r⟩ ∧ b = seen s₁.redis t p u) s := by
  refine among_bind.mpr (among_perform ?_ fun s₀ e hR _ =>
    ⟨hP.stay s₀ _ rfl, hP.rely hs hR, by simp⟩)
  rintro _ r s₁ hR ⟨hr, rfl⟩ hA
  have hs₁ := hP.rely hs hR
  refine ⟨hP.stay s₁ _ rfl, ?_⟩
  cases hv : s₁.redis (likeKey p u) with
  | some v =>
      rw [hv] at hr
      subst hr
      refine ⟨hs₁, ?_⟩
      rintro b ⟨⟩
      exact ⟨s₁, _, hs₁, hA, by simp [seen, hv]⟩
  | none =>
      rw [hv] at hr
      subst hr
      refine among_bind.mpr (among_perform ?_ fun s₂ e hR _ =>
        ⟨hP.stay s₂ _ rfl, hP.rely hs₁ hR, by simp⟩)
      rintro s₂ rows _ hR' ⟨hrows, rfl⟩ _
      have hs₂ := hP.rely hs₁ hR'
      rw [likesOf_congr (hP.view hs₂)] at hrows
      refine ⟨hP.reading s₂ _ rfl, among_bind.mpr (among_oneOrNone (fun hlen => ?_)
        fun _ => ⟨hP.read hs₂, by simp⟩)⟩
      refine ⟨hP.read hs₂, ?_⟩
      rintro b ⟨⟩
      refine ⟨s₁, _, hs₁, hA, ?_⟩
      simp only [seen, hv, Tables.liked, hrows]
      cases t.likesOf p u <;> rfl

/-- The user lookup opens the snapshot. -/
theorem getCurrentUser_among {P₀ : State C → Prop} {caller : Nat}
    (hrely : ∀ {s s'}, P₀ s → R s s' → P₀ s')
    (hread : ∀ {s}, P₀ s → P { s with db := s.db.read c })
    (hstay : ∀ s e, e.op.isRead = true → G s e s)
    (hreading : ∀ s e, e.op.isRead = true → G s e { s with db := s.db.read c }) (hs : P₀ s) :
    (getCurrentUser caller).Among (sem scans) c R A G
      (fun o s' => ∀ user, o = .ok user → P s') s := by
  refine among_bind.mpr (among_perform ?_ fun s₀ e hR _ => ⟨hstay s₀ _ rfl, ?_⟩)
  · rintro s₀ rows _ hR ⟨_, rfl⟩ _
    have hs' := hread (hrely hs hR)
    refine ⟨hreading s₀ _ rfl, among_bind.mpr (among_oneOrNone (fun _ => ?_) fun _ => ?_)⟩
    · dsimp only
      split
      · rintro user ⟨⟩
      · split
        · rintro user ⟨⟩
        · exact fun _ _ => hs'
    · rintro user ⟨⟩
  · rintro user ⟨⟩

end Among

/-! ## A reader and a sync -/

/-- A reader's step, as the sync sees it. -/
structure ReaderStep (read : Read) (s : State Bool) (e : Event Op Reply) (s' : State Bool) :
    Prop where
  unnoticed : Unnoticed false s s'
  quiet : ∀ p u, read = .unlike p u → undoes p u (.call true e) = false

section Reader

variable {scans : (String → Option String) → String → List String → Prop} {read : Read}
  {R : State Bool → State Bool → Prop} {A : State Bool → Event Op Reply → Prop}
  {s : State Bool} {V : Value → Prop} {caller : Nat}

theorem readerStep_same {s' : State Bool} (hu : Unnoticed false s s') {e : Event Op Reply}
    (he : ∀ key value, e.op ≠ .set key value) : ReaderStep read s e s' where
  unnoticed := hu
  quiet p u _ := by
    obtain ⟨op, r⟩ := e
    cases op with
    | set key value => exact absurd rfl (he key value)
    | _ => rfl

theorem readerStep_stay (s : State Bool) (e : Event Op Reply) (he : e.op.isRead = true) :
    ReaderStep read s e s :=
  readerStep_same (.refl s) fun key value h => by
    rw [h] at he
    cases he

theorem readerStep_reading (s : State Bool) (e : Event Op Reply) (he : e.op.isRead = true) :
    ReaderStep read s e { s with db := s.db.read true } := by
  have hu : Unnoticed false s { s with db := s.db.read true } :=
    ⟨rfl, rfl, Db.session_read_ne Bool.false_ne_true, rfl⟩
  refine readerStep_same hu fun key value h => ?_
  rw [h] at he
  cases he

/-- What a call has found out when it returns; an unlike that returns without a `SET`
has found no like. -/
def Read.Told (V : Value → Prop) : Read → Value → Prop
  | .getLike _ _, v => V v
  | .countLikes _, v => V v
  | .unlike _ _, _ => V (.liked false)

/-- The snapshot is open, and with it an admitted look at Redis leads to a value in `V`. -/
def Opened (read : Read) (R : State Bool → State Bool → Prop)
    (A : State Bool → Event Op Reply → Prop) (V : Value → Prop) (s : State Bool) : Prop :=
  ∃ t P, ReadsRows true t R (ReaderStep read) P ∧
    (t.postsLike.map fun row => (row.postId, row.userId)).Nodup ∧ P s ∧
    ∀ s e, P s → A s e → read.Looks e →
      (∀ p, read = .countLikes p → {u | (s.redis (likeKey p u)).isSome}.Finite) →
      V (read.valueAt s.redis t)

theorem Opened.mono {A' : State Bool → Event Op Reply → Prop} (h : Opened read R A V s)
    (hA : ∀ s e, A' s e → A s e) : Opened read R A' V s := by
  obtain ⟨t, P, hP, ht, hs, hV⟩ := h
  exact ⟨t, P, hP, ht, hs, fun s e hs hA' => hV s e hs (hA s e hA')⟩

/-- A call whose look at Redis leads to a value in `V`. -/
theorem Read.call_among
    (hscans : ∀ redis stem keys, scans redis stem keys → Covers redis stem keys)
    (hset : ∀ p u, read = .unlike p u → V (.liked true) →
      ∀ s, ¬ A s ⟨.set (likeKey p u) "0", .ok ()⟩) (hs : Opened read R A V s) :
    read.call.Among (sem scans) true R A (ReaderStep read)
      (fun o _ => ∀ v, o = .ok v → read.Told V v) s := by
  obtain ⟨t, P, hP, ht, hs, hV⟩ := hs
  cases read with
  | getLike p u =>
      refine among_bind.mpr (Among.imp ?_ (getLike_among hP hs))
      rintro (e | b) s' ⟨_, hb⟩
      · exact nofun
      · obtain ⟨s₁, r, hs₁, hA, rfl⟩ := hb b rfl
        rintro v ⟨⟩
        exact hV s₁ _ hs₁ hA ⟨r, rfl⟩ nofun
  | countLikes p =>
      refine among_bind.mpr (Among.imp ?_ (countLikes_among hP hscans (nodup_likers ht) hs))
      rintro (e | n) s' ⟨_, hn⟩
      · exact nofun
      · obtain ⟨s₁, e, hs₁, hA, hlook, hfinite, rfl⟩ := hn n rfl
        rintro v ⟨⟩
        refine hV s₁ e hs₁ hA hlook ?_
        rintro p' ⟨⟩
        exact hfinite
  | unlike p u =>
      refine among_bind.mpr (among_bind.mpr (Among.imp ?_ (getLike_among hP hs)))
      rintro (e | b) s' ⟨_, hb⟩
      · exact nofun
      · obtain ⟨s₁, r, hs₁, hA, rfl⟩ := hb b rfl
        have hvalue := hV s₁ _ hs₁ hA ⟨r, rfl⟩ nofun
        cases hseen : seen s₁.redis t p u with
        | false =>
            rintro v ⟨⟩
            simpa [Read.valueAt, hseen, Read.Told] using hvalue
        | true =>
            refine among_perform ?_ fun s₀ e _ _ => ⟨?_, nofun⟩
            · intro s₀ r' _ _ _ hA'
              simp only [Read.valueAt, hseen] at hvalue
              exact absurd hA' (hset p u rfl hvalue s₀)
            · exact ⟨.refl s₀, fun _ _ _ => rfl⟩

/-- The request around a call: the user lookup opens the snapshot. -/
theorem reading_among {P₀ : State Bool → Prop}
    (hscans : ∀ redis stem keys, scans redis stem keys → Covers redis stem keys)
    (hrely : ∀ {s s'}, P₀ s → R s s' → P₀ s')
    (hopen : ∀ {s}, P₀ s → Opened read R A V { s with db := s.db.read true })
    (hset : ∀ p u, read = .unlike p u → V (.liked true) →
      ∀ s, ¬ A s ⟨.set (likeKey p u) "0", .ok ()⟩) (hs : P₀ s) :
    (reading caller read).Among (sem scans) true R A (ReaderStep read)
      (fun o _ => ∀ v, o = .ok v → read.Told V v) s := by
  have hend : ∀ {op : Op} (s : State Bool), op = .rollback ∨ op = .close →
      ∀ r s', does scans true s op r s' → Unnoticed false s s' := by
    rintro op s (rfl | rfl) r s' rfl
    · exact ⟨rfl, rfl, Db.session_rollback_ne Bool.false_ne_true, rfl⟩
    · exact ⟨rfl, rfl, Db.session_rollback_ne Bool.false_ne_true, rfl⟩
  refine among_inSession (fun o s' hQ => ?_) (fun e s' hQ => ?_) (among_bind.mpr
    (Among.imp ?_ (getCurrentUser_among hrely hopen readerStep_stay readerStep_reading hs)))
  · refine among_perform (fun s₀ r s₁ _ hdoes _ =>
      ⟨readerStep_same (hend s₀ (Or.inr rfl) r s₁ hdoes) nofun, hQ⟩) nofun
  · refine among_perform (fun s₀ r s₁ _ hdoes _ =>
      ⟨readerStep_same (hend s₀ (Or.inl rfl) r s₁ hdoes) nofun, nofun⟩) nofun
  · rintro (e | user) s' huser
    · exact nofun
    · exact Read.call_among hscans hset (huser user rfl)

end Reader

/-! ## Runs -/

section Runs

variable {scans : (String → Option String) → String → List String → Prop} {read : Read}
  {caller : Nat} {init : State Bool} {tr : List (Label Bool Op Reply)}
  {cfg : Config Bool Op Reply AppError Value (State Bool)}
  {ok : Guard Bool Op Reply AppError Value (State Bool)} {R : State Bool → State Bool → Prop}
  {A : Bool → State Bool → Event Op Reply → Prop} {V : Value → Prop} {v : Value}

/-- What the two programs rely on, where `R` is what the reader does. -/
def relies (R : State Bool → State Bool → Prop) : Bool → State Bool → State Bool → Prop
  | false => Unnoticed false
  | true => R

def keeps (R : State Bool → State Bool → Prop) (read : Read) :
    Bool → State Bool → Event Op Reply → State Bool → Prop
  | false => fun s _ s' => R s s'
  | true => ReaderStep read

theorem compatible (hrefl : ∀ s, R s s) (htrans : ∀ {s s' s''}, R s s' → R s' s'' → R s s'')
    (henv : ∀ {s s'}, others s s' → R s s') :
    Compatible (sem scans) (relies R) (keeps R read) where
  refl
    | false => Unnoticed.refl
    | true => hrefl
  trans
    | false => Unnoticed.trans
    | true => htrans
  others {c d s e s'} hdc h := by
    cases c with
    | false =>
        cases d with
        | false => exact absurd rfl hdc
        | true => exact h
    | true =>
        cases d with
        | false => exact h.unnoticed
        | true => exact absurd rfl hdc
  env c {s s'} h := by
    cases c with
    | false =>
        obtain ⟨posts, rfl⟩ := h
        exact ⟨rfl, rfl, rfl, rfl⟩
    | true => exact henv h

/-- What the two programs have come to when they end. -/
def ends (read : Read) (V : Value → Prop) : Bool → Except AppError Value → State Bool → Prop
  | false, _, _ => True
  | true, o, _ => ∀ v, o = .ok v → read.Told V v

/-- Reader and sync keep their words from the start on. -/
theorem start_among (caller : Nat) {P₀ : State Bool → Prop}
    (hscans : ∀ redis stem keys, scans redis stem keys → Covers redis stem keys)
    (hsync : syncing.Among (sem scans) false (Unnoticed false) (A false)
      (fun s _ s' => R s s') (fun _ _ => True) init)
    (hrely : ∀ {s s'}, P₀ s → R s s' → P₀ s') (h0 : P₀ init)
    (hopen : ∀ {s}, P₀ s → Opened read R (A true) V { s with db := s.db.read true })
    (hset : ∀ p u, read = .unlike p u → V (.liked true) →
      ∀ s, ¬ A true s ⟨.set (likeKey p u) "0", .ok ()⟩) (c : Bool) :
    ((startReading caller read init).pool c).Among (sem scans) c (relies R c) (A c)
      (keeps R read c) (ends read V c) (startReading caller read init).state := by
  cases c with
  | false => exact hsync
  | true => exact reading_among hscans hrely hopen hset h0

/-- The reader finds out something in `V` if every admitted look at Redis leads there. -/
theorem shown_of_run (P₀ : State Bool → Prop)
    (hscans : ∀ redis stem keys, scans redis stem keys → Covers redis stem keys)
    (hcompat : Compatible (sem scans) (relies R) (keeps R read))
    (hok : ∀ tr cfg c e, ok tr cfg (.call c e) → A c cfg.state e)
    (hsync : syncing.Among (sem scans) false (Unnoticed false) (A false)
      (fun s _ s' => R s s') (fun _ _ => True) init)
    (hrely : ∀ {s s'}, P₀ s → R s s' → P₀ s') (h0 : P₀ init)
    (hopen : ∀ {s}, P₀ s → Opened read R (A true) V { s with db := s.db.read true })
    (h : Run (sem scans) ok (startReading caller read init) tr cfg)
    (hv : (cfg.pool true).outcome = some (.ok v)) : V (read.shown tr v) := by
  cases read with
  | getLike p u | countLikes p =>
      have hstart := start_among caller hscans hsync hrely h0 hopen nofun
      obtain ⟨_, htold, _⟩ := h.among_outcome hcompat hok hstart hv
      exact htold v rfl
  | unlike p u =>
      cases hany : tr.any (undoes p u) with
      | true =>
          -- a run in which the call finds no like has no step that undoes one
          simp only [Read.shown, hany]
          by_contra hnot
          have hstart := start_among caller hscans hsync hrely h0 hopen
            fun _ _ _ hliked => absurd hliked hnot
          obtain ⟨l, hl, hundoes⟩ := List.any_eq_true.mp hany
          obtain ⟨tr₁, tr₂, htr⟩ := List.append_of_mem hl
          obtain ⟨cfg₁, cfg₂, hrun, hstep, hguard⟩ := h.split htr
          match l, hundoes, hstep, hguard with
          | .call true e, hundoes, hstep, hguard =>
              have hquiet := (hrun.among_step hcompat hok hstart hstep hguard).quiet p u rfl
              rw [hquiet] at hundoes
              cases hundoes
      | false =>
          -- in a run without such a step the call ends only where it finds no like
          have hquiet : ∀ l ∈ tr, undoes p u l = false := by
            intro l hl
            by_contra hne
            rw [Bool.not_eq_false] at hne
            exact absurd (List.any_eq_true.mpr ⟨l, hl, hne⟩) (by simp [hany])
          have hstart := start_among caller
            (A := fun c s e => A c s e ∧ undoes p u (.call c e) = false) hscans
            (hsync.weaken fun _ _ => And.left) hrely h0
            (fun hs => (hopen hs).mono fun _ _ => And.left)
            (fun q w hread _ s hA => by
              cases hread
              simp [undoes] at hA)
          obtain ⟨_, htold, _⟩ := (h.labels hquiet).among_outcome hcompat
            (fun tr cfg c e hg => ⟨hok tr cfg c e hg.1, hg.2⟩) hstart hv
          simpa [Read.shown, Read.Told, hany] using htold v rfl

end Runs

/-! ## Where both stores together say the same throughout -/

section Steady

variable {scans : (String → Option String) → String → List String → Prop} {read : Read}
  {caller : Nat} {init s s' : State Bool} {session : Session Tables Write} {t : Tables}

/-- The pairs are in the state that they had at first, and the reader's session is as
given. -/
structure Steady (init : State Bool) (session : Session Tables Write) (s : State Bool) :
    Prop extends Stored s where
  session : s.db.session true = session
  effective : ∀ p u, effective s p u = effective init p u

theorem Steady.carried (h : Steady init session s) (hc : Carried false s s') :
    Steady init session s' where
  values hv := h.values (hc.redis hv)
  keyed := hc.keyed h.keyed
  session := (hc.session true Bool.false_ne_true.symm).trans h.session
  effective p u := (hc.effective p u).trans (h.effective p u)

theorem Steady.unnoticed (h : Steady init session s) (hu : Unnoticed true s s') :
    Steady init session s' where
  values hv := h.values (hu.redis ▸ hv)
  keyed := by
    rw [hu.nextLikeId]
    exact h.keyed.congr hu.postsLike
  session := hu.session.trans h.session
  effective p u := (effective_congr hu.redis hu.postsLike p u).trans (h.effective p u)

/-- The first read opens the snapshot, and the later ones keep it. -/
theorem Steady.selected (h : Steady init session s) (hwrites : session.writes = []) :
    Steady init ⟨some (session.snapshot.getD s.db.committed), []⟩
      { s with db := s.db.read true } where
  values := h.values
  keyed := h.keyed
  session := by
    simp only [Db.read, Function.update_self, h.session, hwrites]
  effective := h.effective

theorem Steady.view (h : Steady init ⟨some t, []⟩ s) : s.db.view Tables.apply true = t := by
  rw [Db.view, h.session]
  rfl

theorem valueAt_congr {redis redis' : String → Option String} {t t' : Tables}
    (h : ∀ p u, seen redis t p u = seen redis' t' p u) :
    read.valueAt redis t = read.valueAt redis' t' := by
  cases read <;> simp only [Read.valueAt, h]

/-- What a reader finds out if nobody writes. -/
noncomputable def Read.truth (init : State Bool) (read : Read) : Value :=
  read.valueAt init.redis init.db.committed

theorem Steady.truth (h : Steady init session s) :
    read.valueAt s.redis s.db.committed = read.truth init :=
  valueAt_congr h.effective

/-- With a snapshot of unique pairs, the reader finds out the truth exactly if the snapshot
agrees with the committed table where Redis has no key. -/
theorem Steady.agree_iff (h : Steady init ⟨some t, []⟩ s)
    (ht : (t.postsLike.map fun row => (row.postId, row.userId)).Nodup)
    (hkeys : ∀ p, read = .countLikes p → {u | (s.redis (likeKey p u)).isSome}.Finite) :
    read.valueAt s.redis t = read.truth init ↔
      read.Agree s.redis (s.db.view Tables.apply true) s.db.committed := by
  rw [← h.truth, h.view]
  exact valueAt_eq_iff ht h.keyed.unique hkeys

/-- A reader with an open snapshot among the steps of a sync. -/
theorem Steady.readsRows : ReadsRows true t (Carried false) (ReaderStep read)
    (Steady init ⟨some t, []⟩) where
  rely := Steady.carried
  redis _ hc := hc.redis
  read h := h.selected rfl
  view h := by rw [h.view]
  values h := h.values
  stay := readerStep_stay
  reading := readerStep_reading

/-- The sync among readers. -/
theorem syncing_among
    (hscans : ∀ redis stem keys, scans redis stem keys → Covers redis stem keys)
    (hs : Stored s) (hidle : s.db.session false = .idle) :
    syncing.Among (sem scans) false (Unnoticed false) (fun _ _ => True)
      (fun s _ s' => Carried false s s') (fun _ _ => True) s := by
  refine among_bind.mpr (Among.imp (Q := fun _ _ => True) ?_ (among_inSession ?_ ?_
    (Among.imp (fun _ _ _ => trivial) (scanLikeToDb_among hscans hs hidle))))
  · rintro (e | _) s' _ <;> trivial
  · refine fun o s' _ => among_perform ?_ nofun
    rintro s₀ _ _ _ rfl _
    exact ⟨carried_rollback, trivial⟩
  · refine fun e s' _ => among_perform ?_ nofun
    rintro s₀ _ _ _ rfl _
    exact ⟨carried_rollback, trivial⟩

end Steady

section Main

variable {scans : (String → Option String) → String → List String → Prop} {read : Read}
  {caller : Nat} {init : State Bool} {tr : List (Label Bool Op Reply)}
  {cfg : Config Bool Op Reply AppError Value (State Bool)}
  {ok : Guard Bool Op Reply AppError Value (State Bool)} {V : Value → Prop} {v : Value}

/-- A sync beside the reader: a guard on the looks at Redis decides what the reader finds
out. -/
theorem shown_beside_sync {A : State Bool → Event Op Reply → Prop}
    (hscans : ∀ redis stem keys, scans redis stem keys → Covers redis stem keys)
    (hs : Stored init) (hidle : ∀ c, init.db.session c = .idle)
    (hok : ∀ tr cfg e, ok tr cfg (.call true e) → A cfg.state e)
    (hV : ∀ t s e, Steady init ⟨some t, []⟩ s →
      (t.postsLike.map fun row => (row.postId, row.userId)).Nodup → A s e → read.Looks e →
      (∀ p, read = .countLikes p → {u | (s.redis (likeKey p u)).isSome}.Finite) →
      V (read.valueAt s.redis t))
    (h : Run (sem scans) ok (startReading caller read init) tr cfg)
    (hv : (cfg.pool true).outcome = some (.ok v)) : V (read.shown tr v) := by
  have hcompat : Compatible (sem scans) (relies (Carried false))
      (keeps (Carried false) read) := by
    refine compatible Carried.refl Carried.trans ?_
    rintro s _ ⟨posts, rfl⟩
    exact carried_of_unsynced ⟨rfl, rfl, Nat.le_refl _⟩ fun _ _ => rfl
  refine shown_of_run (A := fun c s e => c = true → A s e) (Steady init .idle) hscans
    hcompat ?_ ((syncing_among hscans hs (hidle false)).weaken fun _ _ _ => trivial)
    Steady.carried ⟨hs, hidle true, fun _ _ => rfl⟩ ?_ h hv
  · rintro tr cfg c e hguard rfl
    exact hok tr cfg e hguard
  · intro s h₀
    refine ⟨s.db.committed, Steady init ⟨some s.db.committed, []⟩, Steady.readsRows,
      h₀.keyed.unique, h₀.selected rfl, fun s' e hsteady hA => ?_⟩
    exact hV _ s' e hsteady h₀.keyed.unique (hA rfl)

/-- No sync beside the reader. -/
theorem shown_alone
    (hscans : ∀ redis stem keys, scans redis stem keys → Covers redis stem keys)
    (hs : Stored init) (hidle : ∀ c, init.db.session c = .idle)
    (h : Run (sem scans) NoSync (startReading caller read init) tr cfg)
    (hv : (cfg.pool true).outcome = some (.ok v)) : read.shown tr v = read.truth init := by
  have hcompat : Compatible (sem scans) (relies (Unnoticed true))
      (keeps (Unnoticed true) read) := by
    refine compatible Unnoticed.refl Unnoticed.trans ?_
    rintro s _ ⟨posts, rfl⟩
    exact ⟨rfl, rfl, rfl, rfl⟩
  refine shown_of_run (A := fun c _ _ => c = true) (V := (· = read.truth init))
    (Steady init .idle) hscans hcompat ?_ (among_of_never nofun (fun _ _ => trivial) _ _)
    Steady.unnoticed ⟨hs, hidle true, fun _ _ => rfl⟩ ?_ h hv
  · intro tr cfg c e hguard
    cases c with
    | false => exact absurd rfl (hguard e)
    | true => rfl
  · intro s h₀
    refine ⟨s.db.committed, fun s' => Steady init ⟨some s.db.committed, []⟩ s' ∧
      s'.db.committed.postsLike = s.db.committed.postsLike, ?_, h₀.keyed.unique,
      ⟨h₀.selected rfl, rfl⟩, fun s' e hsteady _ _ _ => ?_⟩
    · exact {
        rely := fun h hu => ⟨h.1.unnoticed hu, hu.postsLike.trans h.2⟩
        redis := fun _ hu _ _ hv => hu.redis ▸ hv
        read := fun h => ⟨h.1.selected rfl, h.2⟩
        view := fun h => by rw [h.1.view]
        values := fun h => h.1.values
        stay := readerStep_stay
        reading := readerStep_reading }
    · rw [← hsteady.1.truth]
      refine valueAt_congr fun p u => ?_
      unfold seen
      rw [liked_congr hsteady.2]

/-- A reader beside a sync finds out the same as without one if it looks at Redis while its
snapshot agrees with the committed table on the rows without a key, and something else if
it looks when they disagree. -/
theorem reads_during_sync
    (hscans : ∀ redis stem keys, scans redis stem keys → Covers redis stem keys)
    (hs : Stored init) (hidle : ∀ c, init.db.session c = .idle) (caller : Nat) (read : Read) :
    (∀ tr cfg v, Run (sem scans) NoSync (startReading caller read init) tr cfg →
      (cfg.pool true).outcome = some (.ok v) → read.shown tr v = read.truth init) ∧
    (∀ tr cfg v, Run (sem scans) (LooksInTime read) (startReading caller read init) tr cfg →
      (cfg.pool true).outcome = some (.ok v) → read.shown tr v = read.truth init) ∧
    (∀ tr cfg v, Run (sem scans) (LooksTooLate read) (startReading caller read init) tr cfg →
      (cfg.pool true).outcome = some (.ok v) → read.shown tr v ≠ read.truth init) := by
  refine ⟨fun tr cfg v h hv => shown_alone hscans hs hidle h hv,
    fun tr cfg v h hv => ?_, fun tr cfg v h hv => ?_⟩
  · refine shown_beside_sync (V := (· = read.truth init)) (A := fun s e => read.Looks e →
      read.Agree s.redis (s.db.view Tables.apply true) s.db.committed) hscans hs hidle
      (fun tr cfg e hguard => hguard e rfl) ?_ h hv
    exact fun t s e hsteady ht hA hlook hkeys => (hsteady.agree_iff ht hkeys).mpr (hA hlook)
  · refine shown_beside_sync (V := (· ≠ read.truth init)) (A := fun s e => read.Looks e →
      ¬ read.Agree s.redis (s.db.view Tables.apply true) s.db.committed) hscans hs hidle
      (fun tr cfg e hguard => hguard e rfl) ?_ h hv
    exact fun t s e hsteady ht hA hlook hkeys htruth =>
      hA hlook ((hsteady.agree_iff ht hkeys).mp htruth)

end Main

/-! ## A stale read -/

/-- The lookup that opens the snapshot. -/
def lookup : LikesEvent := ⟨.selectUser 1, .ok [⟨1, true⟩]⟩

theorem sync_ends (p u : Nat) : syncing.Runs (syncFront p u ++ syncBack p u) (.ret .done) := by
  rw [← List.append_nil (syncFront p u ++ syncBack p u)]
  exact (sync_runs p u).bind .nil

/-- The key of a like is there until it is deleted. -/
theorem live_of_chain {C : Type} [DecidableEq C] {s s' : State C} {key : String}
    {tr : List (Label C Op Reply)} (h : Chain (sem FullScan) s tr s')
    (hdel : ∀ c keys r, Label.call c ⟨.del keys, r⟩ ∉ tr) (hlive : (s.redis key).isSome) :
    (s'.redis key).isSome := by
  induction h with
  | nil => exact hlive
  | env henv _ ih =>
      obtain ⟨posts, rfl⟩ := henv
      exact ih (fun c keys r hmem => hdel c keys r (List.mem_cons_of_mem _ hmem)) hlive
  | @call s s₁ s₂ c op r tr hs _ ih =>
      refine ih (fun c keys r hmem => hdel c keys r (List.mem_cons_of_mem _ hmem)) ?_
      cases r with
      | error e =>
          obtain ⟨_, rfl⟩ := hs
          exact hlive
      | ok r =>
          cases op with
          | del keys => exact absurd List.mem_cons_self (hdel c keys (.ok r))
          | get _ | scanIter _ | mget _ | selectUser _ | selectPost _ | selectLike _ _
          | countRows _ | selectUserIds _ _ =>
              obtain ⟨_, rfl⟩ := hs
              exact hlive
          | set key' value =>
              obtain rfl := hs
              by_cases hkey : key = key'
              · simp [hkey]
              · simpa [Function.update_of_ne hkey] using hlive
          | insertLike p u =>
              obtain ⟨_, _, rfl⟩ := hs
              exact hlive
          | deleteLike like =>
              simp only [sem, step, does] at hs
              split at hs
              · obtain ⟨_, rfl⟩ := hs
                exact hlive
              · rw [hs]
                exact hlive
          | commit | rollback | close =>
              obtain rfl := hs
              exact hlive

/-- The request opens its snapshot, the sync begins, the request asks Redis, and the sync
goes on to its end. -/
def lookBetween : List (Label Bool Op Reply) :=
  [lookup].map (.call true) ++ (syncFront 1 1).map (.call false) ++
    ([⟨.get (likeKey 1 1), .ok (some "1")⟩, ⟨.close, .ok ()⟩] : List LikesEvent).map
      (.call true) ++ (syncBack 1 1).map (.call false)

/-- A look at Redis in the middle of a sync, before the key is deleted. -/
theorem reads_during_sync_sample : ∃ cfg v,
    Run (sem FullScan) (LooksInTime (.getLike 1 1))
      (startReading 1 (.getLike 1 1) likedState) lookBetween cfg ∧
      (∀ c, (cfg.pool c).outcome.isSome) ∧ (cfg.pool true).outcome = some (.ok v) ∧
      Read.shown lookBetween (.getLike 1 1) v = Read.truth likedState (.getLike 1 1) := by
  have hget : some "1" = likedState.redis (likeKey 1 1) := by simp [likedState]
  have hchain : ∃ s, Chain (sem FullScan) likedState lookBetween s := by
    refine ⟨_, .append (.append (.append (.call ⟨Or.inr ⟨_, rfl, rfl⟩, rfl⟩ .nil)
      (.call ⟨fullScan_likedState, rfl⟩ (.call ⟨hget, rfl⟩ (.call ⟨rfl, rfl⟩ .nil))))
      (.call ⟨hget, rfl⟩ (.call rfl .nil)))
      (.call ⟨?_, rfl, rfl⟩ (.call rfl (.call rfl (.call rfl .nil))))⟩
    intro c' hc w hw
    cases c' with
    | false => exact absurd rfl hc
    | true => simp [likedState, Db.rollback, Session.idle] at hw
  obtain ⟨s, hchain⟩ := hchain
  have hrun := Run.of_chain hchain (p := (startReading 1 (.getLike 1 1) likedState).pool)
    (q := fun c => if c then .ret (.liked true) else .ret .done) ?_
  · have hguarded : Run (sem FullScan) (LooksInTime (.getLike 1 1))
        (startReading 1 (.getLike 1 1) likedState) _ _ := hrun.guarded ?_
    · refine ⟨_, _, hguarded, fun c => by cases c <;> rfl, rfl, ?_⟩
      exact (reads_during_sync (fun _ _ _ => FullScan.covers) stored_likedState
        (fun _ => rfl) 1 (.getLike 1 1)).2.1 _ _ _ hguarded rfl
    · rintro tr₁ l tr₂ cfg₁ htr hrun₁ e rfl ⟨r, rfl⟩
      -- the look comes before the deletion
      have hmem : .call true ⟨.get (likeKey 1 1), .ok r⟩ ∈ lookBetween := by simp [htr]
      obtain rfl : r = some "1" := by
        simpa [lookBetween, lookup, syncFront, syncBack] using hmem
      have hsplit : lookBetween.take 4 ++
          .call true ⟨.get (likeKey 1 1), .ok (some "1")⟩ :: lookBetween.drop 5 =
            tr₁ ++ .call true ⟨.get (likeKey 1 1), .ok (some "1")⟩ :: tr₂ := htr
      obtain ⟨rfl, _, _⟩ := (List.append_cons_inj_of_notMem
        (by simp [lookBetween, lookup, syncFront])
        (by simp [lookBetween, lookup, syncFront, syncBack])).mp hsplit
      have hlive : (cfg₁.state.redis (likeKey 1 1)).isSome := live_of_chain hrun₁.chain
        (by simp [lookBetween, lookup, syncFront, syncBack]) (by simp [likedState])
      intro hnone
      simp [hnone] at hlive
  · intro c
    cases c with
    | false =>
        simp only [lookBetween, own_append, own_map_self, own_map_ne Bool.false_ne_true.symm,
          List.append_nil, List.nil_append]
        exact sync_ends 1 1
    | true =>
        simp only [lookBetween, own_append, own_map_self, own_map_ne Bool.false_ne_true,
          List.append_nil]
        exact .cons (.cons (.cons .nil))

/-- The request opens its snapshot, the sync runs from its first step to its last, and then
the request asks Redis: the like is in neither place. -/
theorem like_unseen :
    ¬ ∀ tr cfg v, Run (sem FullScan) anyStep (startReading 1 (.getLike 1 1) likedState) tr cfg →
      (cfg.pool true).outcome = some (.ok v) →
        Read.shown tr (.getLike 1 1) v = Read.truth likedState (.getLike 1 1) := by
  intro h
  have hscan : FullScan likedState.redis "post_like:" [likeKey 1 1] := fullScan_likedState
  have hchain : ∃ s, Chain (sem FullScan) likedState
      ([lookup].map (.call true) ++ (syncFront 1 1 ++ syncBack 1 1).map (.call false) ++
        ([⟨.get (likeKey 1 1), .ok none⟩, ⟨.selectLike 1 1, .ok []⟩,
          ⟨.close, .ok ()⟩] : List LikesEvent).map (.call true)) s := by
    refine ⟨_, .append (.append (.call ⟨Or.inr ⟨_, rfl, rfl⟩, rfl⟩ .nil)
      (.call ⟨hscan, rfl⟩ (.call ⟨by simp [likedState], rfl⟩ (.call ⟨rfl, rfl⟩
        (.call ⟨?_, rfl, rfl⟩ (.call rfl (.call rfl (.call rfl .nil))))))))
      (.call ⟨by simp, rfl⟩ (.call ⟨rfl, rfl⟩ (.call rfl .nil)))⟩
    intro c' hc w hw
    cases c' with
    | false => exact absurd rfl hc
    | true => simp [likedState, Db.read, Session.idle] at hw
  obtain ⟨s, hchain⟩ := hchain
  have hrun := Run.of_chain hchain (p := (startReading 1 (.getLike 1 1) likedState).pool)
    (q := fun c => if c then .ret (.liked false) else .ret .done) ?_
  · have hstale := h _ _ _ hrun rfl
    simp [Read.shown, Read.truth, Read.valueAt, seen, likedState] at hstale
  · intro c
    cases c with
    | false =>
        simp only [own_append, own_map_self, own_map_ne Bool.false_ne_true.symm,
          List.append_nil, List.nil_append]
        exact sync_ends 1 1
    | true =>
        simp only [own_append, own_map_self, own_map_ne Bool.false_ne_true, List.append_nil]
        exact .cons (.cons (.cons (.cons .nil)))

end GreenCommunity.Likes
