import GreenCommunity.Users.Service

/-!
# Updates of a profile

An update sets the nickname if it was sent, also to NULL, which the column does not take.
-/

namespace GreenCommunity.Users

open GreenCommunity.Base
open GreenCommunity.Base.Prog
open GreenCommunity.Infrastructure (Collation changed)

/-- The row with the value that was sent. -/
def UserUpdate.patch (payload : UserUpdate) (row : User) : User :=
  { row with userNickname := payload.userNickname.join.getD row.userNickname }

def healthyStep (coll : Collation) (c : Unit) (s : State Unit) (op : Op) :
    Reply op → State Unit → Prop
  | .ok r, s' => does coll c s op r s'
  | .error e, s' => (fails coll c s op e ∧ e = .integrityError) ∧ s' = s

/-- The semantics of a request that nothing goes wrong around. -/
def healthy (coll : Collation) : Sem Unit Op Reply (State Unit) where
  step := healthyStep coll
  env s s' := s' = s

section Updates

variable {coll : Collation} {s : State Unit} {user : User}

theorem total_commit {Q : Except AppError Unit → State Unit → Prop}
    (hok : ∀ s', s'.db.committed = s.db.current apply () → Q (.ok ()) s') :
    (perform .commit).total (healthy coll) () Q s := by
  refine ⟨⟨.ok (), _, rfl⟩, ?_⟩
  rintro (e | _) s' hs
  · obtain ⟨⟨rfl, hno⟩, _⟩ := hs
    cases hno
  · obtain rfl : s' = _ := hs
    exact hok _ rfl

end Updates

end GreenCommunity.Users
