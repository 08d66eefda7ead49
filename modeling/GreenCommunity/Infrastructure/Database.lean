import GreenCommunity.Base.Phases
import GreenCommunity.Base.Rely
import GreenCommunity.Base.Total
import GreenCommunity.Base.Track
import GreenCommunity.Core.Exceptions

/-!
# Database sessions

What every repository shares: an operation that may fail and then raises, the
reading of at most one row, and the session a request runs in.  `get_db` rolls back
when the body raises and closes in any case; it never commits.
-/

namespace GreenCommunity.Infrastructure

open GreenCommunity.Base
open GreenCommunity.Base.Prog

variable {C Op σ α : Type} {Result Reply : Op → Type}

/-- The reply of an operation that may fail. -/
abbrev Answer (Result : Op → Type) (op : Op) : Type := Except AppError (Result op)

/-- Issue one operation; its failure is an exception here. -/
def perform (op : Op) : Prog Op (Answer Result) AppError (Result op) :=
  .call op fun
    | .ok r => .ret r
    | .error e => .raise e

/-- `Result.one_or_none`, `Result.scalar_one_or_none`. -/
def oneOrNone : List α → Prog Op Reply AppError (Option α)
  | [] => return none
  | [row] => return some row
  | _ => throw .multipleResultsFound

/-- `Session.refresh` of a row, from the rows that it selects. -/
def refreshed : List α → Prog Op Reply AppError α
  | [row] => return row
  | _ => throw .invalidRequestError

/-- The value to send for a column, if it is not the loaded one. -/
def changed [DecidableEq α] (loaded value : α) : Option α :=
  if value = loaded then none else some value

/-- `get_db` around a request. -/
def inSession (rollback close : Prog Op Reply AppError Unit)
    (body : Prog Op Reply AppError α) : Prog Op Reply AppError α :=
  (body.handle fun e => do
    rollback
    throw e).andFinally close

/-- A `DATETIME` column keeps whole seconds: MySQL rounds the microseconds. -/
def datetime (micros : Nat) : Nat := (micros + 500000) / 1000000

section Wp

variable {c : C} {s : σ}

theorem wp_perform {S : Sem C Op (Answer Result) σ} {op : Op}
    {Q : Except AppError (Result op) → σ → Prop}
    (hok : ∀ r s', S.step c s op (.ok r) s' → Q (.ok r) s')
    (herr : ∀ e s', S.step c s op (.error e) s' → Q (.error e) s') :
    (perform op).wp S c Q s := by
  rintro (e | r) s' hs
  · exact herr e s' hs
  · exact hok r s' hs

variable {S : Sem C Op Reply σ}

/-- Rows of a list of at most one come back as they are. -/
theorem wp_oneOrNone {rows : List α} {Q : Except AppError (Option α) → σ → Prop}
    (h : rows = [] ∨ ∃ row, rows = [row]) (hQ : Q (.ok rows.head?) s) :
    (oneOrNone rows).wp S c Q s := by
  rcases h with rfl | ⟨row, rfl⟩ <;> exact hQ

/-- The session wrapper: `closed` is what rolling back and closing make of a state. -/
theorem wp_inSession {rollback close : Prog Op Reply AppError Unit} {closed : σ → σ}
    (hclosed : ∀ s, closed (closed s) = closed s)
    (hrollback : ∀ {Q : Except AppError Unit → σ → Prop} {s}, Q (.ok ()) (closed s) →
      rollback.wp S c Q s)
    (hclose : ∀ {Q : Except AppError Unit → σ → Prop} {s}, Q (.ok ()) (closed s) →
      close.wp S c Q s)
    {body : Prog Op Reply AppError α} {Q : Except AppError α → σ → Prop}
    (h : body.wp S c (fun o s' => Q o (closed s')) s) :
    (inSession rollback close body).wp S c Q s := by
  refine wp_andFinally (wp_handle.mpr (wp_mono ?_ h))
  rintro (e | a) s' hQ
  · refine wp_bind.mpr (hrollback (hclose ?_))
    rwa [hclosed]
  · exact hclose hQ

/-- The same for total correctness. -/
theorem total_inSession {rollback close : Prog Op Reply AppError Unit} {closed : σ → σ}
    (hclosed : ∀ s, closed (closed s) = closed s)
    (hrollback : ∀ {Q : Except AppError Unit → σ → Prop} {s}, Q (.ok ()) (closed s) →
      rollback.total S c Q s)
    (hclose : ∀ {Q : Except AppError Unit → σ → Prop} {s}, Q (.ok ()) (closed s) →
      close.total S c Q s)
    {body : Prog Op Reply AppError α} {Q : Except AppError α → σ → Prop}
    (h : body.total S c (fun o s' => Q o (closed s')) s) :
    (inSession rollback close body).total S c Q s := by
  refine total_andFinally (total_handle.mpr (total_mono ?_ h))
  rintro (e | a) s' hQ
  · refine total_bind.mpr (hrollback (hclose ?_))
    rwa [hclosed]
  · exact hclose hQ

end Wp

section Among

variable {c : C} {s : σ} {R : σ → σ → Prop}

theorem among_perform {S : Sem C Op (Answer Result) σ}
    {A : σ → Event Op (Answer Result) → Prop}
    {G : σ → Event Op (Answer Result) → σ → Prop} {op : Op}
    {Q : Except AppError (Result op) → σ → Prop}
    (hok : ∀ s₀ r s', R s s₀ → S.step c s₀ op (.ok r) s' → A s₀ ⟨op, .ok r⟩ →
      G s₀ ⟨op, .ok r⟩ s' ∧ Q (.ok r) s')
    (herr : ∀ s₀ e s', R s s₀ → S.step c s₀ op (.error e) s' → A s₀ ⟨op, .error e⟩ →
      G s₀ ⟨op, .error e⟩ s' ∧ Q (.error e) s') :
    (perform op).Among S c R A G Q s := by
  rintro s₀ hs (e | r) s' hstep hA
  · exact herr s₀ e s' hs hstep hA
  · exact hok s₀ r s' hs hstep hA

variable {S : Sem C Op Reply σ} {A : σ → Event Op Reply → Prop}
  {G : σ → Event Op Reply → σ → Prop}

/-- More than one row is an exception. -/
theorem among_oneOrNone {rows : List α} {Q : Except AppError (Option α) → σ → Prop}
    (hok : rows.length ≤ 1 → Q (.ok rows.head?) s)
    (herr : 1 < rows.length → Q (.error .multipleResultsFound) s) :
    (oneOrNone rows).Among S c R A G Q s :=
  match rows with
  | [] => hok (by simp)
  | [_] => hok (by simp)
  | _ :: _ :: _ => herr (by simp)

/-- The session wrapper: what the body establishes outlives the two last operations. -/
theorem among_inSession {rollback close : Prog Op Reply AppError Unit}
    {body : Prog Op Reply AppError α} {Q : Except AppError α → σ → Prop}
    (hend : ∀ (o : Except AppError α) s', Q o s' →
      close.Among S c R A G (fun o' s'' => Q (o'.bind fun _ => o) s'') s')
    (hrollback : ∀ e s', Q (.error e) s' →
      rollback.Among S c R A G (fun o' s'' => Q (o'.bind fun _ => .error e) s'') s')
    (h : body.Among S c R A G Q s) :
    (inSession rollback close body).Among S c R A G Q s := by
  refine among_andFinally (among_handle.mpr (Among.imp ?_ h))
  rintro (e | a) s' hQ
  · refine among_bind.mpr (Among.imp ?_ (hrollback e s' hQ))
    rintro (e' | _) s'' hQ' <;> exact hend _ _ hQ'
  · exact hend _ _ hQ

end Among

section Stays

variable {ph : Phases Op} {n m k : Nat}

theorem stays_perform {op : Op} (henter : n ≤ ph.enter op)
    (hleave : ph.leave op ≤ m) :
    (perform op : Prog Op (Answer Result) AppError (Result op)).Stays ph n m :=
  ⟨henter, hleave, fun r => by cases r <;> exact hleave⟩

theorem stays_oneOrNone {rows : List α} (h : n ≤ m) :
    (oneOrNone rows : Prog Op Reply AppError (Option α)).Stays ph n m :=
  match rows with
  | [] => h
  | [_] => h
  | _ :: _ :: _ => h

theorem stays_inSession {rollback close : Prog Op Reply AppError Unit}
    {body : Prog Op Reply AppError α} (hm : m ≤ k) (hbody : body.Stays ph n m)
    (hrollback : rollback.Stays ph m k) (hclose : close.Stays ph k k) :
    (inSession rollback close body).Stays ph n k := by
  refine .andFinally (Nat.le_refl k) (.handle hm hbody fun e => ?_) hclose
  exact .bind (Nat.le_refl k) hrollback fun _ => Nat.le_refl k

end Stays

section Every

variable {P : Op → Prop}

theorem every_perform {op : Op} (h : P op) :
    (perform op : Prog Op (Answer Result) AppError (Result op)).Every P :=
  every_call h fun r => by cases r <;> trivial

theorem every_oneOrNone {rows : List α} :
    (oneOrNone rows : Prog Op Reply AppError (Option α)).Every P :=
  match rows with
  | [] => trivial
  | [_] => trivial
  | _ :: _ :: _ => trivial

theorem every_refreshed {rows : List α} :
    (refreshed rows : Prog Op Reply AppError α).Every P :=
  match rows with
  | [] => trivial
  | [_] => trivial
  | _ :: _ :: _ => trivial

theorem every_inSession {rollback close : Prog Op Reply AppError Unit}
    {body : Prog Op Reply AppError α} (hrollback : rollback.Every P) (hclose : close.Every P)
    (hbody : body.Every P) : (inSession rollback close body).Every P :=
  every_andFinally (every_handle hbody fun e => every_bind hrollback fun _ => every_raise e)
    hclose

end Every

section Track

variable {τ : Type} {next : τ → Event Op Reply → τ} {Q : τ → Event Op Reply → Prop} {x : τ}

theorem track_perform {next : τ → Event Op (Answer Result) → τ}
    {Q : τ → Event Op (Answer Result) → Prop} {op : Op}
    {R : τ → Except AppError (Result op) → Prop} (hQ : ∀ r, Q x ⟨op, r⟩)
    (hok : ∀ r, R (next x ⟨op, .ok r⟩) (.ok r))
    (herr : ∀ e, R (next x ⟨op, .error e⟩) (.error e)) :
    (perform op).Track next Q R x := by
  rintro (e | r)
  · exact ⟨hQ _, herr e⟩
  · exact ⟨hQ _, hok r⟩

/-- The session wrapper, where rolling back and closing keep what the body establishes. -/
theorem track_inSession_of {rollback close : Prog Op Reply AppError Unit}
    {body : Prog Op Reply AppError α} {R : τ → Except AppError α → Prop}
    (hrollback : ∀ x e, R x (.error e) →
      rollback.Track next Q (fun x' o' => R x' (o'.bind fun _ => .error e)) x)
    (hclose : ∀ x o, R x o → close.Track next Q (fun x' o' => R x' (o'.bind fun _ => o)) x)
    (hbody : body.Track next Q R x) : (inSession rollback close body).Track next Q R x := by
  refine track_andFinally (track_handle.mpr (Track.imp ?_ hbody))
  rintro x' (e | a) hR
  · refine track_bind.mpr (Track.imp ?_ (hrollback x' e hR))
    rintro x'' (e' | _) hR' <;> exact hclose _ _ hR'
  · exact hclose _ _ hR

theorem track_inSession {rollback close : Prog Op Reply AppError Unit}
    {body : Prog Op Reply AppError α} (hbody : body.Track next Q (fun _ _ => True) x)
    (hrollback : ∀ x, rollback.Track next Q (fun _ _ => True) x)
    (hclose : ∀ x, close.Track next Q (fun _ _ => True) x) :
    (inSession rollback close body).Track next Q (fun _ _ => True) x :=
  track_inSession_of (fun x _ _ => hrollback x) (fun x _ _ => hclose x) hbody

end Track

end GreenCommunity.Infrastructure
