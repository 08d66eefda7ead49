import Mathlib.Data.List.Nodup

/-!
# Rows with a primary key

A table is a list of rows, and `key` reads the primary key of a row.  `updateAt`
rewrites the row with a given key, which is what an `UPDATE … WHERE key = …` does.
-/

namespace GreenCommunity.Base

variable {R K : Type} [DecidableEq K] {key : R → K}

def updateAt (key : R → K) (k : K) (f : R → R) (rows : List R) : List R :=
  rows.map fun row => if key row = k then f row else row

variable {k : K} {f : R → R} {rows : List R} {row row' : R}

theorem mem_updateAt :
    row ∈ updateAt key k f rows ↔
      (∃ old ∈ rows, key old = k ∧ row = f old) ∨ (row ∈ rows ∧ key row ≠ k) := by
  simp only [updateAt, List.mem_map]
  constructor
  · rintro ⟨old, hold, rfl⟩
    by_cases hk : key old = k
    · exact Or.inl ⟨old, hold, hk, if_pos hk⟩
    · rw [if_neg hk]
      exact Or.inr ⟨hold, hk⟩
  · rintro (⟨old, hold, hk, rfl⟩ | ⟨hrow, hk⟩)
    · exact ⟨old, hold, if_pos hk⟩
    · exact ⟨row, hrow, if_neg hk⟩

/-- The keys do not change, if the update leaves the key alone. -/
theorem map_key_updateAt (hf : ∀ row, key (f row) = key row) :
    (updateAt key k f rows).map key = rows.map key := by
  rw [updateAt, List.map_map]
  refine List.map_congr_left fun row _ => ?_
  simp only [Function.comp_apply]
  split
  · exact hf row
  · rfl

/-- Only what becomes of the rows with the key matters. -/
theorem updateAt_congr {g : R → R} (h : ∀ row ∈ rows, key row = k → f row = g row) :
    updateAt key k f rows = updateAt key k g rows := by
  refine List.map_congr_left fun row hrow => ?_
  split
  · exact h row hrow ‹_›
  · rfl

theorem updateAt_self (h : ∀ row ∈ rows, key row = k → f row = row) :
    updateAt key k f rows = rows := by
  refine (List.map_congr_left fun row hrow => ?_).trans (List.map_id rows)
  split
  · exact h row hrow ‹_›
  · rfl

/-! ## The row of a key -/

/-- The row with the key, if there is one. -/
def rowAt (key : R → K) (k : K) (rows : List R) : Option R :=
  rows.find? fun row => key row = k

theorem rowAt_eq_some (h : rowAt key k rows = some row) : row ∈ rows ∧ key row = k :=
  ⟨List.mem_of_find?_eq_some h, by simpa using List.find?_some h⟩

theorem rowAt_of_mem (h : row ∈ rows) : ∃ row', rowAt key (key row) rows = some row' := by
  rw [← Option.isSome_iff_exists, rowAt, List.find?_isSome]
  exact ⟨row, h, by simp⟩

theorem rowAt_append {rows' : List R} :
    rowAt key k (rows ++ rows') = (rowAt key k rows).or (rowAt key k rows') :=
  List.find?_append

theorem rowAt_updateAt (hf : ∀ row, key (f row) = key row) (k' : K) :
    rowAt key k' (updateAt key k f rows) =
      if k' = k then (rowAt key k' rows).map f else rowAt key k' rows := by
  induction rows with
  | nil => simp [rowAt, updateAt]
  | cons row rows ih =>
      simp only [rowAt, updateAt, List.map_cons, List.find?_cons] at ih ⊢
      by_cases hrow : key row = k' <;> by_cases hk : k' = k <;>
        by_cases hrk : key row = k <;> simp_all

theorem rowAt_of_nodup (h : (rows.map key).Nodup) (hrow : row ∈ rows) :
    rowAt key (key row) rows = some row := by
  obtain ⟨row', hat⟩ : ∃ row', rowAt key (key row) rows = some row' := rowAt_of_mem hrow
  obtain ⟨hrow', hkey⟩ := rowAt_eq_some hat
  rw [hat, List.inj_on_of_nodup_map h hrow' hrow hkey]

/-! ## Rows that stay -/

/-- No row has been lost, whatever has become of it. -/
def Kept (key : R → K) (rows rows' : List R) : Prop :=
  ∀ row ∈ rows, ∃ row' ∈ rows', key row' = key row

omit [DecidableEq K] in
theorem Kept.refl (rows : List R) : Kept key rows rows := fun row hrow => ⟨row, hrow, rfl⟩

omit [DecidableEq K] in
theorem Kept.trans {rows' rows'' : List R} (h : Kept key rows rows')
    (h' : Kept key rows' rows'') : Kept key rows rows'' := by
  intro row hrow
  obtain ⟨row', hrow', heq⟩ := h row hrow
  obtain ⟨row'', hrow'', heq'⟩ := h' row' hrow'
  exact ⟨row'', hrow'', heq'.trans heq⟩

omit [DecidableEq K] in
theorem Kept.append (rows rows' : List R) : Kept key rows (rows ++ rows') :=
  fun row hrow => ⟨row, List.mem_append_left _ hrow, rfl⟩

theorem Kept.updateAt {K' : Type} {key' : R → K'} (hf : ∀ row, key' (f row) = key' row) :
    Kept key' rows (updateAt key k f rows) := by
  intro row hrow
  by_cases hk : key row = k
  · exact ⟨f row, mem_updateAt.mpr (Or.inl ⟨row, hrow, hk, rfl⟩), hf row⟩
  · exact ⟨row, mem_updateAt.mpr (Or.inr ⟨hrow, hk⟩), rfl⟩

/-! ## Keys without duplicates -/

omit [DecidableEq K] in
/-- The rows that a query by primary key returns. -/
theorem filter_key (h : (rows.map key).Nodup) (p : R → Bool)
    (hp : ∀ row, p row = true → key row = k) :
    rows.filter p = [] ∨ ∃ row, rows.filter p = [row] := by
  have hnodup : ((rows.filter p).map key).Nodup := h.sublist (List.filter_sublist.map _)
  match hrows : rows.filter p with
  | [] => exact Or.inl rfl
  | [row] => exact Or.inr ⟨row, rfl⟩
  | row :: row' :: rest =>
      have hkey : ∀ r ∈ rows.filter p, key r = k := fun r hr => hp r (List.mem_filter.mp hr).2
      rw [hrows] at hnodup hkey
      have heq : key row = key row' := (hkey row (by simp)).trans (hkey row' (by simp)).symm
      simp [heq] at hnodup

/-- Updating some of the rows, each from what it was. -/
theorem foldl_updateAt [DecidableEq R] {g : R → R → R} (hg : ∀ b row, key (g b row) = key row)
    (h : (rows.map key).Nodup) {batch : List R} (hsub : ∀ b ∈ batch, b ∈ rows)
    (hbatch : batch.Nodup) :
    batch.foldl (fun rows b => updateAt key (key b) (g b) rows) rows =
      rows.map fun row => if row ∈ batch then g row row else row := by
  have hmap : ∀ (batch rows : List R),
      batch.foldl (fun rows b => updateAt key (key b) (g b) rows) rows =
        rows.map fun row =>
          batch.foldl (fun row b => if key row = key b then g b row else row) row := by
    intro batch
    induction batch with
    | nil => exact fun rows => (List.map_id rows).symm
    | cons b batch ih =>
        intro rows
        rw [List.foldl_cons, ih, updateAt, List.map_map]
        rfl
  -- a row meets the update for its key once, and no other
  have hrow : ∀ (batch : List R), batch.Nodup → (∀ b ∈ batch, b ∈ rows) →
      ∀ row ∈ rows, ∀ row', key row' = key row → (row ∈ batch → row' = row) →
        batch.foldl (fun row b => if key row = key b then g b row else row) row' =
          if row ∈ batch then g row row else row' := by
    intro batch
    induction batch with
    | nil => intro _ _ row _ row' _ _; simp
    | cons b batch ih =>
        intro hnodup hsub row hmem row' hkey heq
        have hb : b ∉ batch := (List.nodup_cons.mp hnodup).1
        have hrest : batch.Nodup := (List.nodup_cons.mp hnodup).2
        have hsub' : ∀ b ∈ batch, b ∈ rows := fun b hb => hsub b (List.mem_cons_of_mem _ hb)
        rw [List.foldl_cons]
        by_cases hrb : row = b
        · subst hrb
          rw [if_pos hkey, heq List.mem_cons_self,
            ih hrest hsub' row hmem _ (hg row row) fun hin => absurd hin hb]
          simp [hb]
        · have hne : key row' ≠ key b := fun hk =>
            hrb (List.inj_on_of_nodup_map h hmem (hsub b List.mem_cons_self) (hkey.symm.trans hk))
          rw [if_neg hne, ih hrest hsub' row hmem row' hkey
            fun hin => heq (List.mem_cons_of_mem _ hin)]
          simp [hrb]
  rw [hmap]
  exact List.map_congr_left fun row hmem => hrow batch hbatch hsub row hmem row rfl fun _ => rfl

end GreenCommunity.Base
