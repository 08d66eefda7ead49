import Mathlib.Logic.Basic

/-!
# Text comparison in the database

MySQL compares text columns under the collation of the deployment,
`utf8mb4_0900_ai_ci`, which takes case and accents for the same.  All that is used of
it is that it is an equivalence; it need not agree with Python's `==`.
-/

namespace GreenCommunity.Infrastructure

structure Collation where
  same : String → String → Bool
  refl : ∀ a, same a a = true
  symm : ∀ {a b}, same a b = true → same b a = true
  trans : ∀ {a b c}, same a b = true → same b c = true → same a c = true

namespace Collation

variable (coll : Collation)

theorem same_comm (a b : String) : coll.same a b = coll.same b a :=
  Bool.eq_iff_iff.mpr ⟨coll.symm, coll.symm⟩

end Collation

/-- The finest collation: texts are the same if they are equal. -/
def binaryCollation : Collation where
  same a b := a == b
  refl a := beq_self_eq_true a
  symm h := by simpa using (beq_iff_eq.mp h).symm
  trans h h' := by
    rw [beq_iff_eq] at h h' ⊢
    exact h.trans h'

end GreenCommunity.Infrastructure
