import Mathlib.Data.List.Chain
import Mathlib.Data.List.Induction
import Mathlib.Data.List.Perm.Subperm

/-!
# Fixed windows

A counter with a fixed window: the hit that finds the counter absent opens a window of the
given length, every other hit counts in the window in progress, and a reset ends it.
`Counts` are the histories of such a counter.  `FixedWindow` is what a limiter that admits
the first `limit` hits of a window is for: nobody is admitted more often than twice the
limit in the length of a window, and a window ends however often it is hit.
-/

namespace GreenCommunity.Base

structure Window where
  attempts : Nat
  endsAt : Nat
  deriving DecidableEq

/-- The window that a hit at `now` counts in: the one in progress, or a new one. -/
def Window.current (length now : Nat) (w : Option Window) : Window :=
  (w.filter fun w => now < w.endsAt).getD ⟨0, now + length⟩

/-- A window with one more attempt. -/
def Window.count (w : Window) : Window := { w with attempts := w.attempts + 1 }

/-! ## Histories -/

/-- What a caller did to the counter and when. A hit is `fresh` if it found the counter
absent, and `current` is the number it got. -/
inductive Stroke (C : Type) where
  | hit (caller : C) (time : Nat) (fresh : Bool) (current : Int)
  | reset (caller : C) (time : Nat)

variable {C : Type}

def Stroke.time : Stroke C → Nat
  | .hit _ time _ _ => time
  | .reset _ time => time

def Stroke.caller : Stroke C → C
  | .hit caller _ _ _ => caller
  | .reset caller _ => caller

/-- A hit that found the counter there. -/
def Stroke.continues : Stroke C → Bool
  | .hit _ _ fresh _ => !fresh
  | .reset _ _ => false

def Stroke.admitted (limit : Nat) : Stroke C → Bool
  | .hit _ _ _ current => decide (current ≤ limit)
  | .reset _ _ => false

/-- The histories of a counter with windows of this length, and the window in progress or
the last one that was. -/
inductive Counts (length : Nat) : List (Stroke C) → Option Window → Prop where
  | nil : Counts length [] none
  | fresh {log : List (Stroke C)} {w : Option Window} {c : C} {t : Nat}
      (h : Counts length log w) (ht : ∀ x ∈ log, x.time ≤ t)
      (hover : ∀ v, w = some v → v.endsAt ≤ t) :
      Counts length (log ++ [.hit c t true 1]) (some ⟨1, t + length⟩)
  | next {log : List (Stroke C)} {n e : Nat} {c : C} {t : Nat}
      (h : Counts length log (some ⟨n, e⟩)) (ht : ∀ x ∈ log, x.time ≤ t) (hlive : t < e) :
      Counts length (log ++ [.hit c t false (n + 1 : Nat)]) (some ⟨n + 1, e⟩)
  | reset {log : List (Stroke C)} {w : Option Window} {c : C} {t : Nat}
      (h : Counts length log w) (ht : ∀ x ∈ log, x.time ≤ t) :
      Counts length (log ++ [.reset c t]) none

section Counts

variable {length : Nat} {log : List (Stroke C)} {w : Option Window}

/-- All that has happened happened before the window ends. -/
theorem Counts.time_lt (hpos : 0 < length) (h : Counts length log w) :
    ∀ v, w = some v → ∀ x ∈ log, x.time < v.endsAt := by
  induction h with
  | nil => exact nofun
  | fresh _ ht _ _ =>
      rintro v ⟨⟩ x hx
      rcases List.mem_append.mp hx with hx | hx
      · have hle := ht x hx
        dsimp only
        omega
      · rw [List.mem_singleton.mp hx]
        simp only [Stroke.time]
        omega
  | next _ ht hlive ih =>
      rintro v ⟨⟩ x hx
      rcases List.mem_append.mp hx with hx | hx
      · have hle := ht x hx
        dsimp only
        omega
      · rw [List.mem_singleton.mp hx]
        exact hlive
  | reset => exact nofun

/-- The window in progress: the fresh hit that opened it and the hits since. -/
theorem Counts.opened (h : Counts length log w) : ∀ v, w = some v →
    ∃ before c t hits, log = before ++ .hit c t true 1 :: hits ∧
      (∀ x ∈ hits, x.continues = true) ∧ v.endsAt = t + length ∧
      v.attempts = hits.length + 1 := by
  induction h with
  | nil => exact nofun
  | @fresh log w c t _ _ _ _ =>
      rintro v ⟨⟩
      exact ⟨log, c, t, [], rfl, by simp, rfl, rfl⟩
  | @next log n e c t _ _ _ ih =>
      rintro v ⟨⟩
      obtain ⟨before, c', t', hits, rfl, hhits, hend, hn⟩ := ih _ rfl
      refine ⟨before, c', t', hits ++ [.hit c t false (n + 1 : Nat)], by simp, ?_, hend, ?_⟩
      · intro x hx
        rcases List.mem_append.mp hx with hx | hx
        · exact hhits x hx
        · rw [List.mem_singleton.mp hx]
          rfl
      · simp only [List.length_append, List.length_singleton] at hn ⊢
        omega
  | reset => exact nofun

/-- A hit that continues comes right behind another hit and gets the next number. -/
def Follows (x y : Stroke C) : Prop :=
  ∀ c t k, y = .hit c t false k → ∃ c' t' fresh j, x = .hit c' t' fresh j ∧ k = j + 1

/-- The last stroke of a window in progress is a hit, and its number is that of the
attempts. -/
theorem Counts.getLast (h : Counts length log w) : ∀ v, w = some v →
    ∃ c t fresh, log.getLast? = some (.hit c t fresh (v.attempts : Int)) := by
  cases h with
  | nil => exact nofun
  | fresh =>
      rintro v ⟨⟩
      exact ⟨_, _, _, List.getLast?_concat⟩
  | next =>
      rintro v ⟨⟩
      exact ⟨_, _, _, List.getLast?_concat⟩
  | reset => exact nofun

theorem Counts.isChain (h : Counts length log w) : log.IsChain Follows := by
  have hsnoc : ∀ {log : List (Stroke C)} {x : Stroke C}, log.IsChain Follows →
      (∀ y ∈ log.getLast?, Follows y x) → (log ++ [x]).IsChain Follows := by
    intro log x hlog hx
    refine hlog.append (List.isChain_singleton x) fun y hy z hz => ?_
    obtain rfl : x = z := by simpa using hz
    exact hx y hy
  induction h with
  | nil => exact .nil
  | fresh _ _ _ ih => exact hsnoc ih fun y _ => by rintro c t k ⟨⟩
  | reset _ _ ih => exact hsnoc ih fun y _ => by rintro c t k ⟨⟩
  | @next log n e c t h _ _ ih =>
      refine hsnoc ih fun y hy => ?_
      obtain ⟨c', t', fresh, hlast⟩ := h.getLast _ rfl
      obtain rfl : Stroke.hit c' t' fresh (n : Int) = y := by simpa [hlast] using hy
      rintro c t k ⟨⟩
      exact ⟨c', t', fresh, n, rfl, by simp⟩

theorem Counts.fresh_current (h : Counts length log w) :
    ∀ c t k, Stroke.hit c t true k ∈ log → k = 1 := by
  induction h with
  | nil => simp
  | fresh _ _ _ ih | next _ _ _ ih | reset _ _ ih =>
      intro c t k hmem
      rcases List.mem_append.mp hmem with hmem | hmem
      · exact ih c t k hmem
      · simp at hmem <;> exact hmem.2.2

/-- Behind a fresh hit the numbers go up one by one. -/
theorem current_of_chain : ∀ {hits : List (Stroke C)} {c : C} {t : Nat} {fresh : Bool}
    {k : Int}, (Stroke.hit c t fresh k :: hits).IsChain Follows →
      (∀ x ∈ hits, x.continues = true) → ∀ (i : Nat) (x : Stroke C),
      (Stroke.hit c t fresh k :: hits)[i]? = some x →
        ∃ c' t' fresh', x = .hit c' t' fresh' (k + i) := by
  intro hits
  induction hits with
  | nil =>
      intro c t fresh k _ _ i x hx
      cases i with
      | zero =>
          cases hx
          exact ⟨c, t, fresh, by simp⟩
      | succ i => simp at hx
  | cons y hits ih =>
      intro c t fresh k hchain hhits i x hx
      obtain ⟨hfollows, hrest⟩ := List.isChain_cons_cons.mp hchain
      cases i with
      | zero =>
          cases hx
          exact ⟨c, t, fresh, by simp⟩
      | succ i =>
          cases y with
          | reset c' t' => exact absurd (hhits _ List.mem_cons_self) (by simp [Stroke.continues])
          | hit c' t' fresh' k' =>
              have hfalse : fresh' = false := by
                simpa [Stroke.continues] using hhits _ List.mem_cons_self
              obtain ⟨_, _, _, j, hprev, hk⟩ := hfollows c' t' k' (by rw [hfalse])
              cases hprev
              obtain ⟨c₂, t₂, fresh₂, hx'⟩ :=
                ih hrest (fun z hz => hhits z (List.mem_cons_of_mem _ hz)) i x (by simpa using hx)
              refine ⟨c₂, t₂, fresh₂, ?_⟩
              rw [hx', hk]
              congr 1
              push_cast
              omega

/-- There is one way to cut a history before its last stroke that does not continue. -/
theorem cut_unique {before before' hits hits' : List (Stroke C)} {a a' : Stroke C}
    (h : before ++ a :: hits = before' ++ a' :: hits')
    (ha : a.continues = false) (ha' : a'.continues = false)
    (hhits : ∀ x ∈ hits, x.continues = true) (hhits' : ∀ x ∈ hits', x.continues = true) :
    before = before' ∧ a = a' ∧ hits = hits' := by
  induction hits using List.reverseRecOn generalizing hits' with
  | nil =>
      rcases List.eq_nil_or_concat hits' with rfl | ⟨hits', x, rfl⟩
      · obtain ⟨rfl, hlast⟩ := List.append_inj' h rfl
        cases hlast
        exact ⟨rfl, rfl, rfl⟩
      · rw [List.concat_eq_append, ← List.cons_append, ← List.append_assoc] at h
        obtain ⟨_, hlast⟩ := List.append_inj' h rfl
        cases hlast
        have hx := hhits' a (by simp)
        rw [ha] at hx
        cases hx
  | append_singleton hits x ih =>
      rw [← List.cons_append, ← List.append_assoc] at h
      rcases List.eq_nil_or_concat hits' with rfl | ⟨hits', y, rfl⟩
      · obtain ⟨_, hlast⟩ := List.append_inj' h rfl
        cases hlast
        have hx := hhits a' (by simp)
        rw [ha'] at hx
        cases hx
      · rw [List.concat_eq_append, ← List.cons_append, ← List.append_assoc] at h
        obtain ⟨hinit, hlast⟩ := List.append_inj' h rfl
        cases hlast
        obtain ⟨rfl, rfl, rfl⟩ := ih hinit (fun z hz => hhits z (by simp [hz]))
          (fun z hz => hhits' z (by simp [hz]))
        exact ⟨rfl, rfl, by simp⟩

/-- A stroke is the last of a history or in the history before the last. -/
theorem snoc_split {before after : List (Stroke C)} {x y : Stroke C}
    (h : log ++ [x] = before ++ y :: after) :
    (after = [] ∧ log = before ∧ x = y) ∨
      ∃ after', after = after' ++ [x] ∧ log = before ++ y :: after' := by
  rcases List.eq_nil_or_concat after with rfl | ⟨after', z, rfl⟩
  · obtain ⟨rfl, hlast⟩ := List.append_inj' h rfl
    cases hlast
    exact Or.inl ⟨rfl, rfl, rfl⟩
  · rw [List.concat_eq_append, ← List.cons_append, ← List.append_assoc] at h
    obtain ⟨hlog, hlast⟩ := List.append_inj' h rfl
    cases hlast
    exact Or.inr ⟨after', List.concat_eq_append, hlog⟩

/-- A hit that continues belongs to a window that a fresh hit opened. -/
theorem Counts.begins (h : Counts length log w) : ∀ before c t k after,
    log = before ++ .hit c t false k :: after →
      ∃ before' c' t' hits, before = before' ++ .hit c' t' true 1 :: hits ∧
        (∀ x ∈ hits, x.continues = true) ∧ t < t' + length := by
  induction h with
  | nil => simp
  | fresh _ _ _ ih | reset _ _ ih =>
      intro before c t k after heq
      rcases snoc_split heq with ⟨_, _, hx⟩ | ⟨after', _, hlog⟩
      · cases hx
      · exact ih before c t k after' hlog
  | @next log n e c t h _ hlive ih =>
      intro before c' t' k after heq
      rcases snoc_split heq with ⟨_, rfl, hx⟩ | ⟨after', _, hlog⟩
      · cases hx
        obtain ⟨before', c₀, t₀, hits, hlog, hhits, hend, _⟩ := h.opened _ rfl
        refine ⟨before', c₀, t₀, hits, hlog, hhits, ?_⟩
        dsimp only at hend
        omega
      · exact ih before c' t' k after' hlog

/-! ## The limiter -/

/-- The stroke is an admitted hit in the span of this length from `a` on. -/
def Stroke.admittedIn (limit length a : Nat) (x : Stroke C) : Bool :=
  x.admitted limit && decide (a ≤ x.time) && decide (x.time ≤ a + length)

/-- A limiter of `limit` hits in windows of this length. -/
structure FixedWindow (limit length : Nat) (log : List (Stroke C)) : Prop where
  /-- Every hit belongs to a window, and a hit that opens one finds the counter absent. -/
  begins : ∀ before c t k after, log = before ++ .hit c t false k :: after →
    ∃ before' c' t' hits, before = before' ++ .hit c' t' true 1 :: hits ∧
      ∀ x ∈ hits, x.continues = true
  /-- The first `limit` hits of a window are admitted, and no other. -/
  first : ∀ before c t k hits after, log = before ++ (.hit c t true k :: hits) ++ after →
    (∀ x ∈ hits, x.continues = true) → ∀ (i : Nat) (x : Stroke C),
      (Stroke.hit c t true k :: hits)[i]? = some x → (x.admitted limit = true ↔ i < limit)
  /-- A span of this length without a reset. -/
  span : ∀ a, (∀ c t, .reset c t ∈ log → ¬ (a ≤ t ∧ t ≤ a + length)) →
    log.countP (Stroke.admittedIn limit length a) ≤ 2 * limit
  /-- However many hits there were in a window, the first hit behind its end is admitted. -/
  reopens : ∀ before c t k hits c' t' fresh k' after,
    log = before ++ .hit c t true k :: (hits ++ .hit c' t' fresh k' :: after) →
      (∀ x ∈ hits, x.continues = true) → t + length ≤ t' →
        fresh = true ∧ (Stroke.hit c' t' fresh k').admitted limit = true

variable {limit : Nat}

theorem Counts.first (h : Counts length log w) {before hits after : List (Stroke C)} {c : C}
    {t : Nat} {k : Int} (hlog : log = before ++ (.hit c t true k :: hits) ++ after)
    (hhits : ∀ x ∈ hits, x.continues = true) (i : Nat) (x : Stroke C)
    (hx : (Stroke.hit c t true k :: hits)[i]? = some x) :
    x.admitted limit = true ↔ i < limit := by
  have hone : k = 1 := h.fresh_current c t k (by simp [hlog])
  have hchain : (Stroke.hit c t true k :: hits).IsChain Follows :=
    h.isChain.infix ⟨before, after, hlog.symm⟩
  obtain ⟨c', t', fresh', rfl⟩ := current_of_chain hchain hhits i x hx
  rw [hone, Stroke.admitted, decide_eq_true_iff]
  omega

theorem Counts.reopens (hlimit : 0 < limit) (h : Counts length log w)
    {before hits after : List (Stroke C)} {c c' : C} {t t' : Nat} {k k' : Int} {fresh : Bool}
    (hlog : log = before ++ .hit c t true k :: (hits ++ .hit c' t' fresh k' :: after))
    (hhits : ∀ x ∈ hits, x.continues = true) (hlate : t + length ≤ t') :
    fresh = true ∧ (Stroke.hit c' t' fresh k').admitted limit = true := by
  have hcut : log = (before ++ .hit c t true k :: hits) ++ .hit c' t' fresh k' :: after := by
    simpa using hlog
  cases fresh with
  | true =>
      have hone : k' = 1 := h.fresh_current c' t' k' (by simp [hlog])
      rw [hone, Stroke.admitted, decide_eq_true_iff]
      exact ⟨rfl, by omega⟩
  | false =>
      obtain ⟨before', c₀, t₀, hits', heq, hhits', htime⟩ := h.begins _ c' t' k' after hcut
      obtain ⟨_, hfirst, _⟩ := cut_unique heq rfl rfl hhits hhits'
      cases hfirst
      omega

theorem countP_admittedIn_snoc (a : Nat) (x : Stroke C) :
    (log ++ [x]).countP (Stroke.admittedIn limit length a) =
      log.countP (Stroke.admittedIn limit length a) +
        (Stroke.admittedIn limit length a x).toNat := by
  rw [List.countP_append, List.countP_singleton]
  cases Stroke.admittedIn limit length a x <;> rfl

theorem countP_admittedIn_early {a : Nat} (h : ∀ x ∈ log, x.time < a) :
    log.countP (Stroke.admittedIn limit length a) = 0 := by
  refine List.countP_eq_zero.mpr fun x hx => ?_
  have hlt := h x hx
  simp only [Stroke.admittedIn, Bool.and_eq_true, decide_eq_true_eq]
  omega

/-- How many hits of the span from `a` on are admitted as long as the history has not left
the span: none before a window has begun, `limit` at most where the window in progress ends
within the span, and as many again in the next one. -/
def SpanCount (limit length a : Nat) (log : List (Stroke C)) : Option Window → Prop
  | none => log.countP (Stroke.admittedIn limit length a) = 0
  | some v =>
      log.countP (Stroke.admittedIn limit length a) ≤ limit + min v.attempts limit ∧
      (v.endsAt ≤ a + length →
        log.countP (Stroke.admittedIn limit length a) ≤ min v.attempts limit)

theorem SpanCount.le_twice {a : Nat} (h : SpanCount limit length a log w) :
    log.countP (Stroke.admittedIn limit length a) ≤ 2 * limit := by
  cases w with
  | none =>
      have hzero : log.countP (Stroke.admittedIn limit length a) = 0 := h
      omega
  | some v =>
      have hle := h.1
      omega

/-- An admitted hit is one of the first `limit` of its window. -/
theorem admittedIn_hit (a : Nat) (c : C) (t : Nat) (first : Bool) {n : Nat} {k : Int}
    (hk : k = n + 1) :
    min n limit + (Stroke.admittedIn limit length a (.hit c t first k)).toNat ≤
      min (n + 1) limit := by
  cases hadmitted : Stroke.admittedIn limit length a (.hit c t first k) with
  | false =>
      simp only [Bool.toNat_false]
      omega
  | true =>
      simp only [Stroke.admittedIn, Stroke.admitted, Bool.and_eq_true,
        decide_eq_true_eq] at hadmitted
      simp only [Bool.toNat_true]
      omega

/-- A stroke within the span is counted, a later one is not. -/
theorem spanCount_snoc {a : Nat} {x : Stroke C} {w' : Option Window}
    (ht : ∀ y ∈ log, y.time ≤ x.time)
    (ih : log.countP (Stroke.admittedIn limit length a) ≤ 2 * limit ∧
      ((∀ y ∈ log, y.time ≤ a + length) → SpanCount limit length a log w))
    (hstep : x.time ≤ a + length → SpanCount limit length a log w →
      SpanCount limit length a (log ++ [x]) w') :
    (log ++ [x]).countP (Stroke.admittedIn limit length a) ≤ 2 * limit ∧
      ((∀ y ∈ log ++ [x], y.time ≤ a + length) →
        SpanCount limit length a (log ++ [x]) w') := by
  by_cases hin : x.time ≤ a + length
  · have hnext := hstep hin (ih.2 fun y hy => Nat.le_trans (ht y hy) hin)
    exact ⟨hnext.le_twice, fun _ => hnext⟩
  · have hout : Stroke.admittedIn limit length a x = false := by
      simp [Stroke.admittedIn, hin]
    refine ⟨?_, fun hall => absurd (hall x (by simp)) hin⟩
    rw [countP_admittedIn_snoc, hout]
    exact ih.1

theorem Counts.spanCount (hpos : 0 < length) (h : Counts length log w) (a : Nat)
    (hreset : ∀ c t, .reset c t ∈ log → ¬ (a ≤ t ∧ t ≤ a + length)) :
    log.countP (Stroke.admittedIn limit length a) ≤ 2 * limit ∧
      ((∀ x ∈ log, x.time ≤ a + length) → SpanCount limit length a log w) := by
  induction h with
  | nil => simp [SpanCount]
  | @fresh log w c t h ht hover ih =>
      refine spanCount_snoc ht (ih fun c' t' hmem => hreset c' t' (by simp [hmem]))
        fun hin hspan => ?_
      have hnew : min 0 limit + (Stroke.admittedIn limit length a (.hit c t true 1)).toNat ≤
          min 1 limit := admittedIn_hit a c t true rfl
      have hold : log.countP (Stroke.admittedIn limit length a) ≤ limit ∧
          (t ≤ a → log.countP (Stroke.admittedIn limit length a) = 0) := by
        cases w with
        | none =>
            have hzero : log.countP (Stroke.admittedIn limit length a) = 0 := hspan
            omega
        | some v =>
            have hend := hover v rfl
            have hle := hspan.2 (Nat.le_trans hend hin)
            refine ⟨by omega, fun hta => countP_admittedIn_early fun x hx => ?_⟩
            have hlt := h.time_lt hpos v rfl x hx
            omega
      simp only [SpanCount, countP_admittedIn_snoc]
      omega
  | @next log n e c t h ht hlive ih =>
      refine spanCount_snoc ht (ih fun c' t' hmem => hreset c' t' (by simp [hmem]))
        fun _ hspan => ?_
      have hnew : min n limit +
          (Stroke.admittedIn limit length a (.hit c t false (n + 1 : Nat))).toNat ≤
            min (n + 1) limit := admittedIn_hit a c t false (Int.natCast_succ n)
      simp only [SpanCount, countP_admittedIn_snoc] at hspan ⊢
      omega
  | @reset log w c t h ht ih =>
      refine spanCount_snoc ht (ih fun c' t' hmem => hreset c' t' (by simp [hmem]))
        fun hin _ => ?_
      have hearly : t < a := by
        have hnot := hreset c t (by simp)
        simp only [Stroke.time] at hin
        omega
      refine countP_admittedIn_early fun x hx => ?_
      rcases List.mem_append.mp hx with hx | hx
      · exact Nat.lt_of_le_of_lt (ht x hx) hearly
      · rw [List.mem_singleton.mp hx]
        exact hearly

/-! ## The first window -/

/-- The stroke is an admitted hit before the instant `b`. -/
def Stroke.admittedBefore (limit b : Nat) (x : Stroke C) : Bool :=
  x.admitted limit && decide (x.time < b)

/-- The history since `a` is still in the window that began then, or has left it. -/
def FirstWindow (limit length a : Nat) (log : List (Stroke C)) (w : Option Window) : Prop :=
  ∃ v, w = some v ∧
    ((v.endsAt = a + length ∧
        log.countP (Stroke.admittedBefore limit (a + length)) ≤ min v.attempts limit) ∨
      (log.countP (Stroke.admittedBefore limit (a + length)) ≤ limit ∧
        ∃ x ∈ log, a + length ≤ x.time))

theorem countP_admittedBefore_snoc (b : Nat) (x : Stroke C) :
    (log ++ [x]).countP (Stroke.admittedBefore limit b) =
      log.countP (Stroke.admittedBefore limit b) +
        (Stroke.admittedBefore limit b x).toNat := by
  rw [List.countP_append, List.countP_singleton]
  cases Stroke.admittedBefore limit b x <;> rfl

theorem admittedBefore_late (limit : Nat) {b : Nat} {x : Stroke C} (h : b ≤ x.time) :
    (Stroke.admittedBefore limit b x).toNat = 0 := by
  simp [Stroke.admittedBefore, Nat.not_lt.mpr h]

/-- The number of a hit that is admitted is within the limit. -/
theorem admittedBefore_toNat_le (limit b n : Nat) (c : C) (t : Nat) (fresh : Bool) :
    min n limit +
        (Stroke.admittedBefore limit b (.hit c t fresh (n + 1 : Nat))).toNat ≤
      min (n + 1) limit := by
  cases hadmitted : Stroke.admittedBefore limit b (.hit c t fresh (n + 1 : Nat)) with
  | false =>
      simp only [Bool.toNat_false]
      omega
  | true =>
      simp only [Stroke.admittedBefore, Stroke.admitted, Bool.and_eq_true,
        decide_eq_true_eq] at hadmitted
      simp only [Bool.toNat_true]
      omega

/-- Without resets no more than `limit` hits are admitted in the window that a fresh hit
opens. -/
theorem Counts.firstWindow (limit : Nat) (h : Counts length log w) {before : List (Stroke C)}
    {c : C}
    {t : Nat} {k : Int} : ∀ after, log = before ++ .hit c t true k :: after →
      (∀ c' t', .reset c' t' ∉ after) →
        FirstWindow limit length t (.hit c t true k :: after) w := by
  induction h with
  | nil => simp
  | @fresh log w c' t' h ht hover ih =>
      intro after hlog hreset
      refine ⟨_, rfl, ?_⟩
      rcases snoc_split hlog with ⟨rfl, _, hx⟩ | ⟨after', rfl, hlog'⟩
      · cases hx
        refine Or.inl ⟨rfl, ?_⟩
        have hle := admittedBefore_toNat_le limit (t + length) 0 c t true
        rw [Nat.zero_min, Nat.zero_add] at hle
        rw [List.countP_singleton]
        cases hadmitted : Stroke.admittedBefore limit (t + length) (.hit c t true 1) <;>
          simp_all
      · -- the window is over
        obtain ⟨v, hv, hwindow⟩ := ih after' hlog' fun c' t' hmem =>
          hreset c' t' (List.mem_append_left _ hmem)
        have hend := hover v hv
        have hlate : t + length ≤ t' := by
          rcases hwindow with ⟨hends, _⟩ | ⟨_, x, hx, hlate⟩
          · omega
          · refine Nat.le_trans hlate (ht x ?_)
            rw [hlog']
            exact List.mem_append_right _ hx
        have hout := admittedBefore_late limit
          (show t + length ≤ (Stroke.hit c' t' true 1).time from hlate)
        rw [← List.cons_append, countP_admittedBefore_snoc]
        refine Or.inr ⟨?_, .hit c' t' true 1, by simp, hlate⟩
        rcases hwindow with ⟨_, hle⟩ | ⟨hle, _⟩ <;> omega
  | @next log n e c' t' h ht hlive ih =>
      intro after hlog hreset
      refine ⟨_, rfl, ?_⟩
      rcases snoc_split hlog with ⟨_, _, hx⟩ | ⟨after', rfl, hlog'⟩
      · cases hx
      · obtain ⟨v, hv, hwindow⟩ := ih after' hlog' fun c' t' hmem =>
          hreset c' t' (List.mem_append_left _ hmem)
        cases hv
        rw [← List.cons_append, countP_admittedBefore_snoc]
        have hle := admittedBefore_toNat_le limit (t + length) n c' t' false
        rcases hwindow with ⟨hends, hcount⟩ | ⟨hcount, x, hx, hlate⟩
        · refine Or.inl ⟨hends, ?_⟩
          dsimp only at hcount ⊢
          omega
        · have hpast : x.time ≤ t' := by
            refine ht x ?_
            rw [hlog']
            exact List.mem_append_right _ hx
          have hout := admittedBefore_late limit
            (show t + length ≤ (Stroke.hit c' t' false (n + 1 : Nat)).time from
              Nat.le_trans hlate hpast)
          exact Or.inr ⟨by omega, x, List.mem_append_left _ hx, hlate⟩
  | @reset log w c' t' h ht ih =>
      intro after hlog hreset
      rcases snoc_split hlog with ⟨_, _, hx⟩ | ⟨after', rfl, _⟩
      · cases hx
      · exact absurd (by simp) (hreset c' t')

theorem FirstWindow.le {a : Nat} (h : FirstWindow limit length a log w) :
    log.countP (Stroke.admittedBefore limit (a + length)) ≤ limit := by
  obtain ⟨v, _, ⟨_, hle⟩ | ⟨hle, _⟩⟩ := h <;> omega

/-- As many callers as had a stroke of a kind. -/
theorem length_le_countP {cs : List C} (hcs : cs.Nodup) (p : Stroke C → Bool)
    (h : ∀ c ∈ cs, ∃ x ∈ log, x.caller = c ∧ p x = true) : cs.length ≤ log.countP p := by
  have hsub : cs ⊆ (log.filter p).map Stroke.caller := by
    intro c hc
    obtain ⟨x, hx, rfl, hp⟩ := h c hc
    exact List.mem_map_of_mem (List.mem_filter.mpr ⟨hx, hp⟩)
  have hle := (hcs.subperm hsub).length_le
  rwa [List.length_map, ← List.countP_eq_length_filter] at hle

/-! ## A fixed-window counter makes a limiter -/

/-- A fixed-window counter makes a limiter. -/
theorem Counts.fixedWindow (hpos : 0 < length) (hlimit : 0 < limit)
    (h : Counts length log w) : FixedWindow limit length log where
  begins before c t k after hlog := by
    obtain ⟨before', c', t', hits, heq, hhits, _⟩ := h.begins before c t k after hlog
    exact ⟨before', c', t', hits, heq, hhits⟩
  first _ _ _ _ _ _ hlog hhits i x hx := h.first hlog hhits i x hx
  span a hreset := (h.spanCount hpos a hreset).1
  reopens _ _ _ _ _ _ _ _ _ _ hlog hhits hlate := h.reopens hlimit hlog hhits hlate

end Counts

end GreenCommunity.Base
