import Mathlib.Logic.Function.Basic
import Mathlib.Data.List.Basic

/-!
# Programs that issue atomic operations

A request handler talks to shared services — a cache, a database, a clock —
through single operations, and everything it computes in between is private.
`Prog` keeps exactly that: a tree whose nodes are operations and whose branches
are the possible replies.  One definition of a handler then serves the
sequential reading (run the tree alone) and the concurrent reading (advance many
trees against one shared state, see `Base.Pool`).

`Hist` is the program logic of the private part.  It speaks about the list of
events a program has issued so far and about nothing else, so a fact proved with
it holds of the program in every environment.
-/

namespace GreenCommunity.Base

variable {Op : Type} {Reply : Op → Type} {ε α β γ : Type}

/-- A program over operations `Op`: it returns, raises, or issues one operation
and continues with the reply. -/
inductive Prog (Op : Type) (Reply : Op → Type) (ε α : Type) where
  | ret (a : α) : Prog Op Reply ε α
  | raise (e : ε) : Prog Op Reply ε α
  | call (op : Op) (k : Reply op → Prog Op Reply ε α) : Prog Op Reply ε α

/-- One operation together with the reply it received. -/
structure Event (Op : Type) (Reply : Op → Type) where
  op : Op
  reply : Reply op

namespace Prog

/-- Sequencing: an exception skips the continuation. -/
def bind : Prog Op Reply ε α → (α → Prog Op Reply ε β) → Prog Op Reply ε β
  | ret a, f => f a
  | raise e, _ => raise e
  | call op k, f => call op fun r => (k r).bind f

/-- Exception handling: the handler takes over where the body raises. -/
def handle : Prog Op Reply ε α → (ε → Prog Op Reply ε α) → Prog Op Reply ε α
  | ret a, _ => ret a
  | raise e, h => h e
  | call op k, h => call op fun r => (k r).handle h

/-- `try … finally`: the last part runs however the body ends. -/
def andFinally (p : Prog Op Reply ε α) (last : Prog Op Reply ε Unit) :
    Prog Op Reply ε α :=
  (p.handle fun e => last.bind fun _ => raise e).bind fun a => last.bind fun _ => ret a

instance : Monad (Prog Op Reply ε) where
  pure := ret
  bind := bind

instance : MonadExcept ε (Prog Op Reply ε) where
  throw := raise
  tryCatch := handle

/-- The program that issues `op` and returns its reply. -/
def request (op : Op) : Prog Op Reply ε (Reply op) := call op ret

@[simp] theorem pure_eq (a : α) :
    (pure a : Prog Op Reply ε α) = ret a := rfl

@[simp] theorem throw_eq (e : ε) :
    (throw e : Prog Op Reply ε α) = raise e := rfl

@[simp] theorem ret_bind (a : α) (f : α → Prog Op Reply ε β) :
    (ret a >>= f) = f a := rfl

@[simp] theorem raise_bind (e : ε) (f : α → Prog Op Reply ε β) :
    (raise e >>= f) = raise e := rfl

@[simp] theorem call_bind (op : Op) (k : Reply op → Prog Op Reply ε α)
    (f : α → Prog Op Reply ε β) :
    (call op k >>= f) = call op fun r => k r >>= f := rfl

@[simp] theorem request_bind (op : Op) (f : Reply op → Prog Op Reply ε β) :
    (request op >>= f) = call op f := rfl

theorem bind_ret (p : Prog Op Reply ε α) : (p >>= ret) = p := by
  induction p with
  | ret a => rfl
  | raise e => rfl
  | call op k ih =>
      rw [call_bind]
      congr 1
      funext r
      exact ih r

theorem bind_assoc (p : Prog Op Reply ε α) (f : α → Prog Op Reply ε β)
    (g : β → Prog Op Reply ε γ) :
    ((p >>= f) >>= g) = (p >>= fun a => f a >>= g) := by
  induction p with
  | ret a => rfl
  | raise e => rfl
  | call op k ih =>
      simp only [call_bind]
      congr 1
      funext r
      exact ih r

instance : LawfulMonad (Prog Op Reply ε) :=
  LawfulMonad.mk' (Prog Op Reply ε) (fun p => bind_ret p) (fun _ _ => rfl)
    (fun p f g => bind_assoc p f g)

/-- What a program has come to: the result of a finished program, `none` while
operations remain. -/
def outcome : Prog Op Reply ε α → Option (Except ε α)
  | ret a => some (.ok a)
  | raise e => some (.error e)
  | call _ _ => none

@[simp] theorem outcome_ret (a : α) :
    (ret a : Prog Op Reply ε α).outcome = some (.ok a) := rfl

@[simp] theorem outcome_raise (e : ε) :
    (raise e : Prog Op Reply ε α).outcome = some (.error e) := rfl

@[simp] theorem outcome_call (op : Op) (k : Reply op → Prog Op Reply ε α) :
    (call op k).outcome = none := rfl

/-! ## A logic of event histories -/

section Hist

variable (Q : List (Event Op Reply) → Event Op Reply → Prop)

/-- `p.Hist Q R past`: having issued the events `past`, the program only issues
events that `Q` admits after the events before them, and `R` relates the events
of a finished program to its outcome. -/
def Hist (R : List (Event Op Reply) → Except ε α → Prop) :
    Prog Op Reply ε α → List (Event Op Reply) → Prop
  | ret a, past => R past (.ok a)
  | raise e, past => R past (.error e)
  | call op k, past =>
      ∀ r, Q past ⟨op, r⟩ ∧ (k r).Hist R (past ++ [⟨op, r⟩])

variable {Q} {R R' : List (Event Op Reply) → Except ε α → Prop}

@[simp] theorem hist_ret (a : α) (past : List (Event Op Reply)) :
    (ret a).Hist Q R past ↔ R past (.ok a) := Iff.rfl

@[simp] theorem hist_raise (e : ε) (past : List (Event Op Reply)) :
    (raise e).Hist Q R past ↔ R past (.error e) := Iff.rfl

@[simp] theorem hist_call (op : Op) (k : Reply op → Prog Op Reply ε α)
    (past : List (Event Op Reply)) :
    (call op k).Hist Q R past ↔
      ∀ r, Q past ⟨op, r⟩ ∧ (k r).Hist Q R (past ++ [⟨op, r⟩]) := Iff.rfl

/-- The consequence rule. -/
theorem Hist.imp {Q' : List (Event Op Reply) → Event Op Reply → Prop}
    (hQ : ∀ past e, Q past e → Q' past e)
    (hR : ∀ past o, R past o → R' past o) {p : Prog Op Reply ε α} :
    ∀ {past : List (Event Op Reply)}, p.Hist Q R past → p.Hist Q' R' past := by
  induction p with
  | ret a => intro past h; exact hR past _ h
  | raise e => intro past h; exact hR past _ h
  | call op k ih =>
      intro past h r
      exact ⟨hQ past _ (h r).1, ih r (h r).2⟩

/-- Two proofs about one program. -/
theorem Hist.and {Q' : List (Event Op Reply) → Event Op Reply → Prop} {p : Prog Op Reply ε α} :
    ∀ {past : List (Event Op Reply)}, p.Hist Q R past → p.Hist Q' R' past →
      p.Hist (fun past e => Q past e ∧ Q' past e) (fun past o => R past o ∧ R' past o) past := by
  induction p with
  | ret a => intro past h h'; exact ⟨h, h'⟩
  | raise e => intro past h h'; exact ⟨h, h'⟩
  | call op k ih =>
      intro past h h' r
      exact ⟨⟨(h r).1, (h' r).1⟩, ih r (h r).2 (h' r).2⟩

/-- The sequencing rule: the post-condition of the first program is the
pre-condition of the rest. -/
theorem hist_bind {S : List (Event Op Reply) → Except ε β → Prop}
    (p : Prog Op Reply ε α) (f : α → Prog Op Reply ε β) :
    ∀ past : List (Event Op Reply),
      (p >>= f).Hist Q S past ↔
        p.Hist Q (fun past' o => match o with
          | .ok a => (f a).Hist Q S past'
          | .error e => S past' (.error e)) past := by
  induction p with
  | ret a => intro past; rfl
  | raise e => intro past; rfl
  | call op k ih =>
      intro past
      simp only [call_bind, hist_call]
      exact forall_congr' fun r => and_congr Iff.rfl (ih r _)

/-! ### Programs all of whose operations are alike -/

/-- Every operation the program can issue satisfies `P`. -/
def Every (P : Op → Prop) : Prog Op Reply ε α → Prop
  | ret _ => True
  | raise _ => True
  | call op k => P op ∧ ∀ r, (k r).Every P

variable {P : Op → Prop}

theorem Every.imp {Q : Op → Prop} (hPQ : ∀ op, P op → Q op) {p : Prog Op Reply ε α}
    (h : p.Every P) : p.Every Q := by
  induction p with
  | ret a => trivial
  | raise e => trivial
  | call op k ih => exact ⟨hPQ op h.1, fun r => ih r (h.2 r)⟩

theorem every_ret (a : α) : (ret a : Prog Op Reply ε α).Every P := trivial

theorem every_raise (e : ε) : (raise e : Prog Op Reply ε α).Every P := trivial

theorem every_call {op : Op} {k : Reply op → Prog Op Reply ε α} (hop : P op)
    (hk : ∀ r, (k r).Every P) : (call op k).Every P := ⟨hop, hk⟩

theorem every_bind {p : Prog Op Reply ε α} {f : α → Prog Op Reply ε β}
    (hp : p.Every P) (hf : ∀ a, (f a).Every P) : (p >>= f).Every P := by
  induction p with
  | ret a => exact hf a
  | raise e => trivial
  | call op k ih => exact ⟨hp.1, fun r => ih r (hp.2 r)⟩

theorem every_true (p : Prog Op Reply ε α) : p.Every fun _ => True := by
  induction p with
  | ret a => trivial
  | raise e => trivial
  | call op k ih => exact ⟨trivial, ih⟩

theorem every_handle {p : Prog Op Reply ε α} {h : ε → Prog Op Reply ε α} (hp : p.Every P)
    (hh : ∀ e, (h e).Every P) : (p.handle h).Every P := by
  induction p with
  | ret a => trivial
  | raise e => exact hh e
  | call op k ih => exact ⟨hp.1, fun r => ih r (hp.2 r)⟩

theorem every_andFinally {p : Prog Op Reply ε α} {last : Prog Op Reply ε Unit}
    (hp : p.Every P) (hlast : last.Every P) : (p.andFinally last).Every P :=
  every_bind (every_handle hp fun e => every_bind hlast fun _ => every_raise e) fun a =>
    every_bind hlast fun _ => every_ret a

theorem every_forM_mem {γ : Type} {f : γ → Prog Op Reply ε Unit} :
    ∀ {cs : List γ}, (∀ c ∈ cs, (f c).Every P) → (cs.forM f).Every P
  | [], _ => trivial
  | c :: _, hf => every_bind (hf c List.mem_cons_self) fun _ =>
      every_forM_mem fun c' hc' => hf c' (List.mem_cons_of_mem c hc')

theorem every_forM {γ : Type} {f : γ → Prog Op Reply ε Unit} (hf : ∀ c, (f c).Every P)
    (cs : List γ) : (cs.forM f).Every P :=
  every_forM_mem fun c _ => hf c

theorem every_mapM {γ : Type} {f : γ → Prog Op Reply ε α} (hf : ∀ c, (f c).Every P)
    (cs : List γ) : (cs.mapM f).Every P := by
  induction cs with
  | nil => exact every_ret []
  | cons c cs ih =>
      rw [List.mapM_cons]
      exact every_bind (hf c) fun a => every_bind ih fun as => every_ret (a :: as)

/-- Such a program in the logic of histories. Induction on the program. -/
theorem hist_of_every {p : Prog Op Reply ε α} {past : List (Event Op Reply)}
    (hp : p.Every P) (hQ : ∀ past e, P e.op → Q past e)
    (hR : ∀ es o, (∀ e ∈ es, P e.op) → R (past ++ es) o) : p.Hist Q R past := by
  induction p generalizing past with
  | ret a => simpa using hR [] (.ok a) (by simp)
  | raise e => simpa using hR [] (.error e) (by simp)
  | call op k ih =>
      intro r
      refine ⟨hQ past ⟨op, r⟩ hp.1, ih r (hp.2 r) fun es o hes => ?_⟩
      have hall : ∀ e ∈ (⟨op, r⟩ :: es : List (Event Op Reply)), P e.op := by
        intro e he
        rcases List.mem_cons.mp he with rfl | he
        · exact hp.1
        · exact hes e he
      simpa using hR _ o hall

end Hist

end Prog

end GreenCommunity.Base
