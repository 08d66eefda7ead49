import Mathlib.Algebra.Order.Group.Nat
import Mathlib.Data.List.Basic

/-!
# Pages

The query parameters and the response format that all listings share, and what it takes
for the pages of a listing to be complete: each page is a slice of the same sorted rows,
and the total is their number.
-/

namespace GreenCommunity.Common

/-- The page and its size, as the request validation admits them. -/
structure PageParams where
  page : Nat
  size : Nat
  page_pos : 1 ≤ page
  size_pos : 1 ≤ size
  size_le : size ≤ 100

def PageParams.offset (params : PageParams) : Nat := (params.page - 1) * params.size

def PageParams.limit (params : PageParams) : Nat := params.size

structure PageResponse (α : Type) where
  items : List α
  total : Nat
  page : Nat
  size : Nat
  totalPages : Nat
  deriving DecidableEq, Repr

def PageResponse.create {α : Type} (items : List α) (total : Nat) (params : PageParams) :
    PageResponse α where
  items := items
  total := total
  page := params.page
  size := params.size
  totalPages := if total ≠ 0 then (total + params.size - 1) / params.size else 0

/-! ## Complete listings -/

section Complete

variable {α R : Type} {size : Nat}

/-- The items of the pages from the first to the last, where `response` answers for
each page of one size. -/
def allItems (response : Nat → PageResponse α) : List α :=
  (List.range (response 1).totalPages).flatMap fun p => (response (p + 1)).items

/-- The pages show every matching row once, the newest first; `row` is the row that an
item shows. -/
structure Complete (row : α → R) (newer : R → R → Prop) (matching : List R) (size : Nat)
    (response : Nat → PageResponse α) : Prop where
  total : ∀ p, 1 ≤ p → (response p).total = matching.length
  totalPages : ∀ p, 1 ≤ p → (response p).totalPages = (response 1).totalPages
  once : ((allItems response).map row).Perm matching
  order : ((allItems response).map row).Pairwise newer
  full : ∀ p, 1 ≤ p → p < (response 1).totalPages → (response p).items.length = size
  last : 0 < (response 1).totalPages →
    1 ≤ (response (response 1).totalPages).items.length ∧
      (response (response 1).totalPages).items.length ≤ size
  later : ∀ p, (response 1).totalPages < p → (response p).items = []

/-- The rounded-up number of pages is enough, and one less is not. -/
theorem pages_bounds {total pages : Nat} (hsize : 1 ≤ size)
    (hpages : pages = if total ≠ 0 then (total + size - 1) / size else 0) :
    total ≤ pages * size ∧ (0 < pages → (pages - 1) * size < total) := by
  by_cases htotal : total = 0
  · simp [hpages, htotal]
  · rw [if_pos htotal] at hpages
    have hdiv := Nat.div_add_mod (total + size - 1) size
    have hmod := Nat.mod_lt (total + size - 1) hsize
    rw [← hpages, Nat.mul_comm] at hdiv
    refine ⟨by omega, fun hpos => ?_⟩
    rw [Nat.sub_mul, Nat.one_mul]
    have hle : 1 * size ≤ pages * size := Nat.mul_le_mul_right size hpos
    omega

/-- Slices of one list, one after the other. -/
theorem flatMap_slices (rows : List α) (size n : Nat) :
    ((List.range n).flatMap fun p => (rows.drop (p * size)).take size) =
      rows.take (n * size) := by
  induction n with
  | zero => simp
  | succ n ih =>
      rw [List.range_succ, List.flatMap_append, ih, List.flatMap_singleton, Nat.succ_mul,
        List.take_add]

variable {rows : List α} {response : Nat → PageResponse α}

/-- Every page is a slice of the same rows. -/
def Slices (rows : List α) (size : Nat) (response : Nat → PageResponse α) : Prop :=
  ∀ params : PageParams, params.size = size →
    response params.page =
      .create ((rows.drop params.offset).take params.limit) rows.length params

/-- If the rows behind a page are determined, there is one list behind all pages. -/
theorem slices_of_pages {spec : List α → Prop} (hpos : 1 ≤ size) (hle : size ≤ 100)
    (hone : ∀ rows rows', spec rows → spec rows' → rows' = rows)
    (h : ∀ params : PageParams, params.size = size → ∃ rows, spec rows ∧
      response params.page =
        .create ((rows.drop params.offset).take params.limit) rows.length params) :
    ∃ rows, spec rows ∧ Slices rows size response := by
  obtain ⟨rows, hrows, _⟩ := h ⟨1, size, Nat.le_refl 1, hpos, hle⟩ rfl
  refine ⟨rows, hrows, fun params hsize => ?_⟩
  obtain ⟨rows', hrows', hpage⟩ := h params hsize
  rwa [hone rows rows' hrows hrows'] at hpage

theorem Slices.page (h : Slices rows size response) (hpos : 1 ≤ size) (hle : size ≤ 100) {p : Nat}
    (hp : 1 ≤ p) :
    response p = ⟨(rows.drop ((p - 1) * size)).take size, rows.length, p, size,
      if rows.length ≠ 0 then (rows.length + size - 1) / size else 0⟩ :=
  h ⟨p, size, hp, hpos, hle⟩ rfl

theorem Slices.allItems_eq (h : Slices rows size response) (hpos : 1 ≤ size)
    (hle : size ≤ 100) : allItems response = rows := by
  have hpage : ∀ p, (response (p + 1)).items = (rows.drop (p * size)).take size := fun p => by
    rw [h.page hpos hle (Nat.succ_pos p)]
    rfl
  simp only [allItems, hpage]
  rw [flatMap_slices, List.take_of_length_le]
  exact (pages_bounds hpos (by rw [h.page hpos hle (Nat.le_refl 1)])).1

/-- Slices of sorted rows are a complete listing of them. -/
theorem Slices.complete (h : Slices rows size response) (hpos : 1 ≤ size) (hle : size ≤ 100)
    {row : α → R} {newer : R → R → Prop} {matching : List R}
    (hperm : (rows.map row).Perm matching) (hsorted : (rows.map row).Pairwise newer) :
    Complete row newer matching size response := by
  have hall := h.allItems_eq hpos hle
  have hlength : rows.length = matching.length := by simpa using hperm.length_eq
  have hpages : ∀ p, 1 ≤ p → (response p).totalPages =
      if rows.length ≠ 0 then (rows.length + size - 1) / size else 0 := fun p hp => by
    rw [h.page hpos hle hp]
  have hitems : ∀ p, 1 ≤ p →
      (response p).items = (rows.drop ((p - 1) * size)).take size := fun p hp => by
    rw [h.page hpos hle hp]
  obtain ⟨henough, hless⟩ := pages_bounds hpos (hpages 1 (Nat.le_refl 1))
  generalize hcount : (response 1).totalPages = pages at henough hless
  refine ⟨fun p hp => ?_, fun p hp => ?_, by rwa [hall], by rwa [hall], fun p hp hlt => ?_,
    fun hpages => ?_, fun p hlt => ?_⟩
  · rw [h.page hpos hle hp]
    exact hlength
  · rw [hpages p hp, hpages 1 (Nat.le_refl 1)]
  · -- a page before the last ends where the last begins, or before
    rw [hcount] at hlt
    have hend : p * size ≤ (pages - 1) * size := Nat.mul_le_mul_right size (by omega)
    have hstart : p * size = (p - 1) * size + size := by
      rw [← Nat.succ_mul]
      congr 1
      omega
    have hrows := hless (by omega)
    rw [hitems p hp]
    simp only [List.length_take, List.length_drop]
    omega
  · rw [hcount] at hpages ⊢
    have hend : pages * size = (pages - 1) * size + size := by
      rw [← Nat.succ_mul]
      congr 1
      omega
    have hrows := hless hpages
    rw [hitems pages hpages]
    simp only [List.length_take, List.length_drop]
    omega
  · rw [hcount] at hlt
    have hstart : pages * size ≤ (p - 1) * size := Nat.mul_le_mul_right size (by omega)
    rw [hitems p (by omega), List.drop_eq_nil_of_le (by omega), List.take_nil]

end Complete

end GreenCommunity.Common
