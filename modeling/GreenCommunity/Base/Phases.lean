import GreenCommunity.Base.Pool

/-!
# Programs that go through phases

A handler reads first, then writes, then commits.  A `Phases` numbers the operations:
`op` may be issued up to the phase `enter op`, and afterwards the program is in the
phase `leave op`.  Where the two differ the operation is issued at most once.

`p.Stays ph n m` says that `p`, begun in the phase `n`, keeps to the numbering and
ends in the phase `m` at the latest.  It is proved along the text of a program, and in
every run of a pool the events of each caller are then in order.
-/

namespace GreenCommunity.Base

variable {C Op : Type} {Reply : Op → Type} {ε α β σ : Type}

structure Phases (Op : Type) where
  enter : Op → Nat
  leave : Op → Nat
  le : ∀ op, enter op ≤ leave op

namespace Prog

variable (ph : Phases Op)

def Stays : Prog Op Reply ε α → Nat → Nat → Prop
  | ret _, n, m => n ≤ m
  | raise _, n, m => n ≤ m
  | call op k, n, m =>
      n ≤ ph.enter op ∧ ph.leave op ≤ m ∧ ∀ r, (k r).Stays (ph.leave op) m

variable {ph} {n n' m m' : Nat}

@[simp] theorem stays_ret (a : α) :
    (ret a : Prog Op Reply ε α).Stays ph n m ↔ n ≤ m := Iff.rfl

@[simp] theorem stays_raise (e : ε) :
    (raise e : Prog Op Reply ε α).Stays ph n m ↔ n ≤ m := Iff.rfl

/-- A program may begin earlier and end later. -/
theorem Stays.weaken {p : Prog Op Reply ε α} (hn : n' ≤ n) (hm : m ≤ m') :
    p.Stays ph n m → p.Stays ph n' m' := by
  induction p generalizing n n' with
  | ret a => exact fun h => Nat.le_trans (Nat.le_trans hn h) hm
  | raise e => exact fun h => Nat.le_trans (Nat.le_trans hn h) hm
  | call op k ih =>
      rintro ⟨henter, hleave, hk⟩
      exact ⟨Nat.le_trans hn henter, Nat.le_trans hleave hm, fun r => ih r (Nat.le_refl _) (hk r)⟩

/-- The sequencing rule. -/
theorem Stays.bind {p : Prog Op Reply ε α} {f : α → Prog Op Reply ε β} (hm : m ≤ m')
    (h : p.Stays ph n m) (hf : ∀ a, (f a).Stays ph m m') : (p >>= f).Stays ph n m' := by
  induction p generalizing n with
  | ret a => exact (hf a).weaken h (Nat.le_refl _)
  | raise e => exact Nat.le_trans h hm
  | call op k ih =>
      obtain ⟨henter, hleave, hk⟩ := h
      exact ⟨henter, Nat.le_trans hleave hm, fun r => ih r (hk r)⟩

/-- The rule for exception handlers. -/
theorem Stays.handle {p : Prog Op Reply ε α} {g : ε → Prog Op Reply ε α} (hm : m ≤ m')
    (h : p.Stays ph n m) (hg : ∀ e, (g e).Stays ph m m') : (p.handle g).Stays ph n m' := by
  induction p generalizing n with
  | ret a => exact Nat.le_trans h hm
  | raise e => exact (hg e).weaken h (Nat.le_refl _)
  | call op k ih =>
      obtain ⟨henter, hleave, hk⟩ := h
      exact ⟨henter, Nat.le_trans hleave hm, fun r => ih r (hk r)⟩

/-- The rule for `try … finally`. -/
theorem Stays.andFinally {p : Prog Op Reply ε α} {last : Prog Op Reply ε Unit}
    (hm : m ≤ m') (h : p.Stays ph n m) (hlast : last.Stays ph m m') :
    (p.andFinally last).Stays ph n m' := by
  have hthen : ∀ {γ : Type} {f : Unit → Prog Op Reply ε γ} {n : Nat}, n ≤ m →
      (∀ u, (f u).Stays ph m' m') → (last >>= f).Stays ph n m' :=
    fun hn hf => (Stays.bind (Nat.le_refl _) hlast hf).weaken hn (Nat.le_refl _)
  induction p generalizing n with
  | ret a => exact hthen h fun _ => Nat.le_refl m'
  | raise e =>
      have hraise : ((last >>= fun _ => (raise e : Prog Op Reply ε α)) >>= fun a =>
          last >>= fun _ => ret a).Stays ph n m' := by
        rw [bind_assoc]
        exact hthen h fun _ => Nat.le_refl m'
      exact hraise
  | call op k ih =>
      obtain ⟨henter, hleave, hk⟩ := h
      exact ⟨henter, Nat.le_trans hleave hm, fun r => ih r (hk r)⟩

end Prog

/-- In every run the events of a caller are in the order of the phases. -/
theorem Run.ordered [DecidableEq C] {S : Sem C Op Reply σ} {ok : Guard C Op Reply ε α σ}
    {init cfg : Config C Op Reply ε α σ} {tr : List (Label C Op Reply)} {ph : Phases Op}
    (h : Run S ok init tr cfg) (h0 : ∀ c, ∃ n m, (init.pool c).Stays ph n m) (c : C) :
    (own c tr).Pairwise fun e e' => ph.leave e.op ≤ ph.enter e'.op := by
  suffices (own c tr).Pairwise (fun e e' => ph.leave e.op ≤ ph.enter e'.op) ∧
      ∃ n m, (cfg.pool c).Stays ph n m ∧ ∀ e ∈ own c tr, ph.leave e.op ≤ n from this.1
  refine Run.inv (fun tr cfg => (own c tr).Pairwise
      (fun e e' => ph.leave e.op ≤ ph.enter e'.op) ∧
    ∃ n m, (cfg.pool c).Stays ph n m ∧ ∀ e ∈ own c tr, ph.leave e.op ≤ n) ?_ ?_ h
  · obtain ⟨n, m, h⟩ := h0 c
    exact ⟨.nil, n, m, h, by simp⟩
  · rintro tr cfg l cfg' _ ⟨hpair, n, m, hstays, hpast⟩ hl _
    cases hl with
    | env _ =>
        rw [own_append, own_env, List.append_nil]
        exact ⟨hpair, n, m, hstays, hpast⟩
    | @call d op k r s' hpool _ =>
        by_cases hd : d = c
        · subst hd
          rw [hpool] at hstays
          obtain ⟨henter, hleave, hk⟩ := hstays
          rw [own_append, own_call_self]
          refine ⟨?_, ph.leave op, m, by simpa using hk r, ?_⟩
          · rw [List.pairwise_append]
            refine ⟨hpair, List.pairwise_singleton _ _, fun e he e' he' => ?_⟩
            rw [List.mem_singleton.mp he']
            exact Nat.le_trans (hpast e he) henter
          · intro e he
            rcases List.mem_append.mp he with he | he
            · exact Nat.le_trans (Nat.le_trans (hpast e he) henter) (ph.le op)
            · obtain rfl := List.mem_singleton.mp he
              exact Nat.le_refl _
        · rw [own_append, own_call_ne hd, List.append_nil]
          refine ⟨hpair, n, m, ?_, hpast⟩
          simpa [Function.update_of_ne (Ne.symm hd)] using hstays

/-- Two events in order come one after the other. -/
theorem Run.before [DecidableEq C] {ph : Phases Op} {c : C}
    {tr : List (Label C Op Reply)} {e : Event Op Reply}
    (h : (own c (tr ++ [.call c e])).Pairwise fun e e' => ph.leave e.op ≤ ph.enter e'.op)
    {e' : Event Op Reply} (he : e' ∈ own c tr) : ph.leave e'.op ≤ ph.enter e.op := by
  rw [own_append, own_call_self, List.pairwise_append] at h
  exact h.2.2 e' he e (List.mem_singleton.mpr rfl)

end GreenCommunity.Base
