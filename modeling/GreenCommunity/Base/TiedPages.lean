import Mathlib.Data.List.Sort
import Mathlib.Data.List.Nodup
import Mathlib.Data.List.Pairwise
import Mathlib.Data.List.Lattice
import Mathlib.Order.Basic

/-!
# Pages of rows that a sort key leaves tied

Each page of a listing is a slice of the rows sorted by a key, the greatest first, and
rows of one key come in any order, another one for each page.  A row may then take any
of the places from the number of rows of greater keys up to the number of rows of keys
no less than its own.  The pages show every row once, whatever the orders, exactly if
all those places are on one page.
-/

namespace GreenCommunity.Base

/-- The slice of the rows that is page `p`, counted from 0. -/
def pageOf {R : Type} (rows : List R) (size p : Nat) : List R :=
  (rows.drop (p * size)).take size

section Places

variable {R : Type} {size : Nat}

/-- A row is on the page of its place. -/
theorem mem_pageOf (hsize : 0 < size) {rows : List R} {row : R} {p : Nat} :
    row ∈ pageOf rows size p ↔
      ∃ before after, rows = before ++ row :: after ∧ before.length / size = p := by
  constructor
  · intro hrow
    obtain ⟨before, after, hpage⟩ := List.append_of_mem hrow
    refine ⟨rows.take (p * size) ++ before, after ++ (rows.drop (p * size)).drop size, ?_, ?_⟩
    · have hrest := List.take_append_drop size (rows.drop (p * size))
      rw [show (rows.drop (p * size)).take size = before ++ row :: after from hpage] at hrest
      calc rows = rows.take (p * size) ++ rows.drop (p * size) :=
            (List.take_append_drop _ _).symm
        _ = rows.take (p * size) ++ (before ++ row :: after ++
              (rows.drop (p * size)).drop size) := congrArg _ hrest.symm
        _ = _ := by simp only [List.append_assoc, List.cons_append]
    · have hlength := congrArg List.length hpage
      simp only [pageOf, List.length_take, List.length_drop, List.length_append,
        List.length_cons] at hlength
      have hfull : (rows.take (p * size)).length = p * size := by
        rw [List.length_take]
        omega
      rw [List.length_append, hfull, Nat.add_comm, Nat.add_mul_div_right _ _ hsize]
      rw [Nat.div_eq_of_lt (by omega), Nat.zero_add]
  · rintro ⟨before, after, rfl, rfl⟩
    have hdiv := Nat.div_add_mod before.length size
    have hmod := Nat.mod_lt before.length hsize
    rw [Nat.mul_comm] at hdiv
    rw [pageOf, List.drop_append_of_le_length (by omega), List.take_append]
    refine List.mem_append_right _ ?_
    obtain ⟨n, hn⟩ : ∃ n, size - (before.drop (before.length / size * size)).length = n + 1 :=
      ⟨size - (before.drop (before.length / size * size)).length - 1, by
        rw [List.length_drop]
        omega⟩
    rw [hn, List.take_succ_cons]
    exact List.mem_cons_self

end Places

section Tied

variable {R K : Type} [LinearOrder K] (key : R → K)

/-- An order of the rows that sorting by the key admits, the greatest first. -/
def Admits (rows sorted : List R) : Prop :=
  sorted.Perm rows ∧ sorted.Pairwise fun row row' => key row' ≤ key row

/-- How many rows come before `row` in any order. -/
def ahead (rows : List R) (row : R) : Nat := rows.countP fun row' => key row < key row'

/-- How many rows may come before `row`, or are `row`. -/
def upTo (rows : List R) (row : R) : Nat := rows.countP fun row' => key row ≤ key row'

/-- The places that a row may take are on one page. -/
def Unsplit (rows : List R) (size : Nat) : Prop :=
  ∀ row ∈ rows, ahead key rows row / size = (upTo key rows row - 1) / size

variable {key} {rows sorted : List R} {size pages : Nat}

/-- There is an order by every key. -/
theorem exists_admits (key : R → K) (rows : List R) : ∃ sorted, Admits key rows sorted := by
  let le : R → R → Prop := fun row row' => key row' ≤ key row
  have htotal : Std.Total le := ⟨fun row row' => le_total (key row') (key row)⟩
  have htrans : IsTrans R le := ⟨fun _ _ _ h h' => le_trans h' h⟩
  exact ⟨rows.insertionSort le, List.perm_insertionSort le rows,
    List.pairwise_insertionSort le rows⟩

theorem place_bounds {before after : List R} {row : R}
    (h : Admits key rows (before ++ row :: after)) :
    ahead key rows row ≤ before.length ∧ before.length < upTo key rows row := by
  obtain ⟨hperm, hsorted⟩ := h
  obtain ⟨_, hrest, hcross⟩ := List.pairwise_append.mp hsorted
  have hafter := (List.pairwise_cons.mp hrest).1
  rw [ahead, upTo, ← hperm.countP_eq, ← hperm.countP_eq, List.countP_append,
    List.countP_append]
  constructor
  · have hnone : (row :: after).countP (fun row' => key row < key row') = 0 := by
      rw [List.countP_eq_zero]
      rintro row' hrow'
      rcases List.mem_cons.mp hrow' with rfl | hrow'
      · simp
      · simpa using hafter row' hrow'
    rw [hnone]
    exact List.countP_le_length
  · have hall : before.countP (fun row' => key row ≤ key row') = before.length := by
      rw [List.countP_eq_length]
      intro row' hrow'
      simpa using hcross row' hrow' row List.mem_cons_self
    have hself : 0 < (row :: after).countP fun row' => key row ≤ key row' :=
      List.countP_pos_iff.mpr ⟨row, List.mem_cons_self, by simp⟩
    omega

theorem ahead_lt_upTo {row : R} (hrow : row ∈ rows) :
    ahead key rows row < upTo key rows row := by
  have hsplit : ∀ l : List R, ahead key l row ≤ upTo key l row := fun l =>
    List.countP_mono_left fun row' _ h => by
      simp only [decide_eq_true_eq] at h ⊢
      exact h.le
  obtain ⟨before, after, rfl⟩ := List.append_of_mem hrow
  have hbefore := hsplit before
  have hafter := hsplit after
  simp only [ahead, upTo, List.countP_append, List.countP_cons] at hbefore hafter ⊢
  simp
  omega

/-- Unless pages split equal rows, a row is on one page in every order. -/
theorem Unsplit.mem_pageOf (hunsplit : Unsplit key rows size) (hsize : 0 < size)
    (hsorted : Admits key rows sorted) {row : R} {p : Nat} :
    row ∈ pageOf sorted size p ↔ row ∈ rows ∧ ahead key rows row / size = p := by
  have hplace : ∀ before after, sorted = before ++ row :: after → row ∈ rows →
      before.length / size = ahead key rows row / size := by
    rintro before after rfl hrow
    obtain ⟨hlow, hhigh⟩ := place_bounds hsorted
    have hle := Nat.div_le_div_right hlow (c := size)
    have hge := Nat.div_le_div_right (c := size)
      (show before.length ≤ upTo key rows row - 1 by omega)
    have hone := hunsplit row hrow
    omega
  rw [Base.mem_pageOf hsize]
  constructor
  · rintro ⟨before, after, rfl, rfl⟩
    have hrow : row ∈ rows := hsorted.1.subset (by simp)
    exact ⟨hrow, (hplace before after rfl hrow).symm⟩
  · rintro ⟨hrow, rfl⟩
    obtain ⟨before, after, hsplit⟩ := List.append_of_mem (hsorted.1.symm.subset hrow)
    exact ⟨before, after, hsplit, hplace before after hsplit hrow⟩

/-- The rows by their keys: greater ones, equal ones and smaller ones. -/
theorem three_way (row : R) (rows : List R) :
    ((rows.filter fun row' => key row < key row') ++
      ((rows.filter fun row' => key row' = key row) ++
        rows.filter fun row' => key row' < key row)).Perm rows := by
  have hsplit := List.filter_append_perm (fun row' => key row < key row') rows
  refine (List.Perm.append_left _ ?_).trans hsplit
  have hrest := List.filter_append_perm (fun row' => key row' = key row)
    (rows.filter fun row' => !decide (key row < key row'))
  simp only [List.filter_filter] at hrest
  refine (List.Perm.of_eq ?_).trans hrest
  congr 1
  · refine List.filter_congr fun row' _ => ?_
    by_cases h : key row' = key row <;> simp [h]
  · refine List.filter_congr fun row' _ => ?_
    rcases lt_trichotomy (key row') (key row) with h | h | h
    · simp [h, h.ne, h.le]
    · simp [h]
    · simp [h, h.ne', h.not_gt]

/-- An order with the equal rows in any order of their own. -/
theorem admits_of_ties (row : R) {ties : List R}
    (hties : ties.Perm (rows.filter fun row' => key row' = key row)) :
    ∃ newer older, newer.length = ahead key rows row ∧
      newer.length + ties.length = upTo key rows row ∧
      Admits key rows (newer ++ (ties ++ older)) := by
  obtain ⟨newer, hnewer, hsorted⟩ :=
    exists_admits key (rows.filter fun row' => key row < key row')
  obtain ⟨older, holder, hsorted'⟩ :=
    exists_admits key (rows.filter fun row' => key row' < key row)
  have hnew : ∀ row' ∈ newer, key row < key row' := fun row' h => by
    simpa using (List.mem_filter.mp (hnewer.subset h)).2
  have hold : ∀ row' ∈ older, key row' < key row := fun row' h => by
    simpa using (List.mem_filter.mp (holder.subset h)).2
  have htie : ∀ row' ∈ ties, key row' = key row := fun row' h => by
    simpa using (List.mem_filter.mp (hties.subset h)).2
  have hperm := (hnewer.append (hties.append holder)).trans (three_way row rows)
  refine ⟨newer, older, ?_, ?_, hperm, ?_⟩
  · rw [hnewer.length_eq, ahead, List.countP_eq_length_filter]
  · rw [upTo, ← hperm.countP_eq, List.countP_append, List.countP_append,
      List.countP_eq_length.mpr fun row' h => by simpa using (hnew row' h).le,
      List.countP_eq_length.mpr fun row' h => by simpa using (htie row' h).ge,
      List.countP_eq_zero.mpr fun row' h => by simpa using hold row' h]
    rfl
  · refine List.pairwise_append.mpr ⟨hsorted, ?_, ?_⟩
    · refine List.pairwise_append.mpr ⟨?_, hsorted', ?_⟩
      · exact List.pairwise_of_forall_mem_list fun row' h row'' h' =>
          ((htie row'' h').trans (htie row' h).symm).le
      · intro row' h row'' h'
        exact ((hold row'' h').trans_eq (htie row' h).symm).le
    · intro row' h row'' h'
      rcases List.mem_append.mp h' with h' | h'
      · exact ((htie row'' h').trans_lt (hnew row' h)).le
      · exact ((hold row'' h').trans (hnew row' h)).le

variable (key)

/-- A row takes the first and the last of its places in some orders. -/
theorem exists_places {row : R} (hrow : row ∈ rows) :
    (∃ before after, before.length = ahead key rows row ∧
      Admits key rows (before ++ row :: after)) ∧
    ∃ before after, before.length = upTo key rows row - 1 ∧
      Admits key rows (before ++ row :: after) := by
  have hmem : row ∈ rows.filter fun row' => key row' = key row := by simpa using hrow
  obtain ⟨left, right, hties⟩ := List.append_of_mem hmem
  constructor
  · have hfirst : (row :: (left ++ right)).Perm
        (rows.filter fun row' => key row' = key row) := by
      rw [hties]
      exact List.perm_middle.symm
    obtain ⟨newer, older, hlength, _, hadmits⟩ := admits_of_ties row hfirst
    exact ⟨newer, _, hlength, hadmits⟩
  · have hlast : (left ++ right ++ [row]).Perm
        (rows.filter fun row' => key row' = key row) := by
      rw [hties]
      exact (List.perm_append_singleton _ _).trans List.perm_middle.symm
    obtain ⟨newer, older, _, hlength, hadmits⟩ := admits_of_ties row hlast
    refine ⟨newer ++ (left ++ right), older, ?_, by simpa using hadmits⟩
    simp only [List.length_append, List.length_singleton] at hlength ⊢
    omega

/-- Without repetitions a row is on one page only. -/
theorem eq_of_mem_pages {page : Nat → List R} {ps : List Nat} (h : (ps.flatMap page).Nodup)
    {p p' : Nat} (hp : p ∈ ps) (hp' : p' ∈ ps) (row : R) (hrow : row ∈ page p)
    (hrow' : row ∈ page p') : p = p' := by
  by_contra hne
  have hsymm : Std.Symm (Function.onFun List.Disjoint page) :=
    ⟨fun _ _ h => List.Disjoint.symm h⟩
  exact (List.nodup_flatMap.mp h).2.forall hp hp' hne hrow hrow'

/-- The pages of independently chosen orders show every row once, whatever the orders,
exactly if no page boundary splits rows of one key. -/
theorem pages_perm_iff (hnodup : rows.Nodup) (hsize : 0 < size)
    (hpages : rows.length ≤ pages * size) :
    (∀ sorted : Nat → List R, (∀ p, Admits key rows (sorted p)) →
        ((List.range pages).flatMap fun p => pageOf (sorted p) size p).Perm rows) ↔
      Unsplit key rows size := by
  constructor
  · -- the row on the first of its places for one page, on the last for the others
    intro hall row hrow
    obtain ⟨⟨before, after, hfirst, hadmits⟩, before', after', hlast, hadmits'⟩ :=
      exists_places key hrow
    have hlt : ahead key rows row < upTo key rows row := ahead_lt_upTo hrow
    have hupTo : upTo key rows row ≤ rows.length := List.countP_le_length
    have hin : ∀ n, n < upTo key rows row → n / size ∈ List.range pages := fun n hn =>
      List.mem_range.mpr ((Nat.div_lt_iff_lt_mul hsize).mpr (by omega))
    have hperm := hall (fun p => if p = ahead key rows row / size then before ++ row :: after
      else before' ++ row :: after') fun p => by split <;> assumption
    by_contra hne
    refine hne (eq_of_mem_pages (hperm.nodup_iff.mpr hnodup) (hin _ hlt)
      (hin (upTo key rows row - 1) (by omega)) row ?_ ?_)
    · rw [if_pos rfl]
      exact (mem_pageOf hsize).mpr ⟨before, after, rfl, by rw [hfirst]⟩
    · rw [if_neg (Ne.symm hne)]
      exact (mem_pageOf hsize).mpr ⟨before', after', rfl, by rw [hlast]⟩
  · intro hunsplit sorted hadmits
    have hsorted : ∀ p, (sorted p).Nodup := fun p => (hadmits p).1.nodup_iff.mpr hnodup
    refine (List.perm_ext_iff_of_nodup (List.nodup_flatMap.mpr ⟨fun p _ => ?_, ?_⟩)
      hnodup).mpr fun row => ?_
    · exact ((hsorted p).drop).take
    · refine List.Pairwise.imp ?_ List.nodup_range
      intro p p' hne row hrow hrow'
      have hp := (hunsplit.mem_pageOf hsize (hadmits p)).mp hrow
      have hp' := (hunsplit.mem_pageOf hsize (hadmits p')).mp hrow'
      exact hne (hp.2.symm.trans hp'.2)
    · simp only [List.mem_flatMap, List.mem_range]
      constructor
      · rintro ⟨p, _, hrow⟩
        exact ((hunsplit.mem_pageOf hsize (hadmits p)).mp hrow).1
      · intro hrow
        refine ⟨ahead key rows row / size, ?_,
          (hunsplit.mem_pageOf hsize (hadmits _)).mpr ⟨hrow, rfl⟩⟩
        have hlt : ahead key rows row < upTo key rows row := ahead_lt_upTo hrow
        have hupTo : upTo key rows row ≤ rows.length := List.countP_le_length
        exact (Nat.div_lt_iff_lt_mul hsize).mpr (by omega)

end Tied

/-! ## Without an order

`LIMIT` alone returns any of the rows. -/

section Limit

variable {R : Type} {p : R → Bool} {rows : List R} {n : Nat}

/-- One of the first `n` rows is of a kind, whatever the order, exactly if there is such a
row and fewer than `n` others. -/
theorem exists_mem_take_iff :
    (∀ chosen : List R, chosen.Perm rows → ∃ row ∈ chosen.take n, p row = true) ↔
      (∃ row ∈ rows, p row = true) ∧ (rows.countP fun row => !p row) < n := by
  constructor
  · intro hall
    have hperm : ((rows.filter fun row => !p row) ++ rows.filter p).Perm rows :=
      List.perm_append_comm.trans (List.filter_append_perm p rows)
    obtain ⟨row, hrow, hp⟩ := hall _ hperm
    refine ⟨⟨row, hperm.subset (List.mem_of_mem_take hrow), hp⟩, ?_⟩
    by_contra hmany
    rw [List.countP_eq_length_filter] at hmany
    rw [List.take_append_of_le_length (by omega)] at hrow
    have hother := (List.mem_filter.mp (List.mem_of_mem_take hrow)).2
    simp [hp] at hother
  · rintro ⟨⟨row, hrow, hp⟩, hfew⟩ chosen hperm
    by_contra hnone
    push Not at hnone
    -- the others do not fill the limit, so everything is returned
    have hall : (chosen.take n).countP (fun row => !p row) = (chosen.take n).length :=
      List.countP_eq_length.mpr fun row hrow => by simpa using hnone row hrow
    have hle := (List.take_sublist n chosen).countP_le (p := fun row => !p row)
    rw [hperm.countP_eq] at hle
    have hshort : chosen.length ≤ n := by
      rw [List.length_take] at hall
      omega
    rw [List.take_of_length_le hshort] at hnone
    exact hnone row (hperm.symm.subset hrow) hp

end Limit

end GreenCommunity.Base
