import Mathlib.Data.List.Basic
import Mathlib.Data.List.DropRight
import Std.Data.String

/-!
# Texts

A flat keyspace is addressed by formatted text such as `stem:12:name`.  Two such
keys are equal only if their parts are, because a decimal numeral contains no
colon and a text is determined by what stands before and after its first colon.

Before that, what Python takes for white space.
-/

namespace GreenCommunity.Base.Text

/-- `str.isspace`, of a single character. -/
def isSpace (char : Char) : Bool :=
  [0x85, 0xA0, 0x1680, 0x2028, 0x2029, 0x202F, 0x205F, 0x3000].contains char.toNat ||
    (9 ≤ char.toNat && char.toNat ≤ 13) || (28 ≤ char.toNat && char.toNat ≤ 32) ||
    (0x2000 ≤ char.toNat && char.toNat ≤ 0x200A)

/-- `str.strip` -/
def strip (text : String) : String :=
  String.ofList ((text.toList.dropWhile isSpace).rdropWhile isSpace)

/-- Interpolation inserts a string as it is. -/
theorem toString_text (s : String) : toString s = s := rfl

/-- A list is cut at the first occurrence of a separator in one way only. -/
theorem cut_inj {α : Type} {c : α} :
    ∀ {x y z w : List α}, c ∉ x → c ∉ y → x ++ c :: z = y ++ c :: w →
      x = y ∧ z = w := by
  intro x
  induction x with
  | nil =>
      intro y z w _ hy h
      cases y with
      | nil => simpa using h
      | cons b y =>
          simp only [List.nil_append, List.cons_append, List.cons.injEq] at h
          exact absurd (h.1 ▸ List.mem_cons_self) hy
  | cons a x ih =>
      intro y z w hx hy h
      cases y with
      | nil =>
          simp only [List.nil_append, List.cons_append, List.cons.injEq] at h
          exact absurd (h.1 ▸ List.mem_cons_self) hx
      | cons b y =>
          simp only [List.cons_append, List.cons.injEq] at h
          obtain ⟨hxy, hzw⟩ := ih (fun hc => hx (List.mem_cons_of_mem a hc))
            (fun hc => hy (List.mem_cons_of_mem b hc)) h.2
          exact ⟨by rw [h.1, hxy], hzw⟩

theorem notMem_toDigits {c : Char} (hc : c.isDigit = false) (n : Nat) :
    c ∉ Nat.toDigits 10 n := by
  intro h
  have hdigit := Nat.isDigit_of_mem_toDigits (by decide) (by decide) h
  exact absurd hdigit (by simp [hc])

theorem colon_notMem_toDigits (n : Nat) : ':' ∉ Nat.toDigits 10 n :=
  notMem_toDigits (by decide) n

/-- The numeral of an integer has digits and a minus sign only. -/
theorem notMem_int {c : Char} (hc : c.isDigit = false) (hminus : c ≠ '-') (n : Int) :
    c ∉ (toString n).toList := by
  rw [Int.toString_eq_repr, Int.repr_eq_if]
  split
  · rw [Nat.toList_repr]
    exact notMem_toDigits hc _
  · rw [String.toList_append, Nat.toList_repr, List.mem_append, not_or]
    exact ⟨by simpa using hminus, notMem_toDigits hc _⟩

theorem toDigits_inj {m n : Nat} :
    Nat.toDigits 10 m = Nat.toDigits 10 n ↔ m = n := by
  constructor
  · intro h
    have hparsed := congrArg (fun digits => Nat.ofDigitChars 10 digits 0) h
    simpa using hparsed
  · rintro rfl
    rfl

/-- Two keys `stem`, number, colon, rest agree only part by part. -/
theorem numbered_inj {stem a b : List Char} {m n : Nat} :
    stem ++ (Nat.toDigits 10 m ++ ':' :: a) = stem ++ (Nat.toDigits 10 n ++ ':' :: b) ↔
      m = n ∧ a = b := by
  rw [List.append_cancel_left_eq]
  constructor
  · intro h
    obtain ⟨hm, hab⟩ :=
      cut_inj (colon_notMem_toDigits m) (colon_notMem_toDigits n) h
    exact ⟨toDigits_inj.mp hm, hab⟩
  · rintro ⟨rfl, rfl⟩
    rfl

end GreenCommunity.Base.Text
