/-
# Row-major tables

A table read row by row into a list, and the index of a cell in it.

The index of the cell in row `r` and column `c` is `r * cols + c`.  It is below the number of cells
exactly for the cells of the table, different cells have different indices, and writing a cell is
writing at its index.
-/
import Mathlib.Data.List.Range
import Mathlib.Logic.Function.Basic

universe u

namespace RowMajor

variable {α : Type u}

/-- The cells of a table of `rows` rows and `cols` columns, row by row. -/
def toList (rows cols : Nat) (f : Nat → Nat → α) : List α :=
  (List.range rows).flatMap fun r => (List.range cols).map fun c => f r c

theorem toList_succ (rows cols : Nat) (f : Nat → Nat → α) :
    toList (rows + 1) cols f = toList rows cols f ++ (List.range cols).map (f rows) := by
  rw [toList, List.range_succ, List.flatMap_append, List.flatMap_singleton]
  rfl

theorem length_toList (rows cols : Nat) (f : Nat → Nat → α) :
    (toList rows cols f).length = rows * cols := by
  induction rows with
  | zero => simp [toList]
  | succ rows ih =>
      rw [toList_succ, List.length_append, ih, List.length_map, List.length_range, Nat.succ_mul]

theorem map_toList {β : Type u} (g : α → β) (rows cols : Nat) (f : Nat → Nat → α) :
    (toList rows cols f).map g = toList rows cols fun r c => g (f r c) := by
  simp [toList, List.map_flatMap, Function.comp_def]

theorem mem_toList {rows cols : Nat} {f : Nat → Nat → α} {x : α} (h : x ∈ toList rows cols f) :
    ∃ r c, f r c = x := by
  obtain ⟨r, -, hr⟩ := List.mem_flatMap.mp h
  obtain ⟨c, -, hc⟩ := List.mem_map.mp hr
  exact ⟨r, c, hc⟩

/-- The index of a cell is inside. -/
theorem index_lt {rows cols r c : Nat} (hr : r < rows) (hc : c < cols) :
    r * cols + c < rows * cols := by
  calc r * cols + c < r * cols + cols := Nat.add_lt_add_left hc _
    _ = (r + 1) * cols := (Nat.succ_mul r cols).symm
    _ ≤ rows * cols := Nat.mul_le_mul_right cols hr

/-- Every index inside is the index of a cell. -/
theorem exists_cell {rows cols i : Nat} (h : i < rows * cols) :
    ∃ r c, r < rows ∧ c < cols ∧ r * cols + c = i := by
  have hcols : 0 < cols := Nat.pos_of_mul_pos_left (Nat.zero_lt_of_lt h)
  refine ⟨i / cols, i % cols, Nat.div_lt_of_lt_mul ?_, Nat.mod_lt i hcols, ?_⟩
  · rwa [Nat.mul_comm]
  · rw [Nat.mul_comm]
    exact Nat.div_add_mod i cols

/-- Row `r`, column `c` is at index `r * cols + c`. -/
theorem getElem?_toList {rows cols r c : Nat} (f : Nat → Nat → α) (hr : r < rows) (hc : c < cols) :
    (toList rows cols f)[r * cols + c]? = some (f r c) := by
  induction rows with
  | zero => exact absurd hr (Nat.not_lt_zero r)
  | succ rows ih =>
      rw [toList_succ]
      by_cases hlast : r < rows
      · have hin : r * cols + c < (toList rows cols f).length := by
          rw [length_toList]
          exact index_lt hlast hc
        rw [List.getElem?_append_left hin, ih hlast]
      · obtain rfl : r = rows := by omega
        have hout : (toList r cols f).length ≤ r * cols + c := by
          rw [length_toList]
          exact Nat.le_add_right _ _
        rw [List.getElem?_append_right hout, length_toList, Nat.add_sub_cancel_left]
        simp [hc]

/-- Different cells have different indices. -/
theorem index_inj {cols r c r' c' : Nat} (hc : c < cols) (hc' : c' < cols)
    (h : r * cols + c = r' * cols + c') : r = r' ∧ c = c' := by
  have hcols : 0 < cols := Nat.zero_lt_of_lt hc
  have hrow : ∀ q k, k < cols → (q * cols + k) / cols = q := by
    intro q k hk
    rw [Nat.add_comm, Nat.add_mul_div_right _ _ hcols, Nat.div_eq_of_lt hk, Nat.zero_add]
  have hr : r = r' := by
    rw [← hrow r c hc, h, hrow r' c' hc']
  subst hr
  exact ⟨rfl, Nat.add_left_cancel h⟩

/-- Writing a cell is writing at its index. -/
theorem set_toList {rows cols r c : Nat} (f : Nat → Nat → α) (hr : r < rows) (hc : c < cols)
    (x : α) : (toList rows cols f).set (r * cols + c) x =
      toList rows cols (Function.update f r (Function.update (f r) c x)) := by
  apply List.ext_getElem?
  intro i
  by_cases hi : i < rows * cols
  · obtain ⟨r', c', hr', hc', rfl⟩ := exists_cell hi
    rw [getElem?_toList _ hr' hc']
    by_cases hsame : r' = r ∧ c' = c
    · obtain ⟨rfl, rfl⟩ := hsame
      rw [List.getElem?_set_self (by rwa [length_toList]), Function.update_self,
        Function.update_self]
    · have hindex : r * cols + c ≠ r' * cols + c' := by
        intro h
        obtain ⟨rfl, rfl⟩ := index_inj hc hc' h
        exact hsame ⟨rfl, rfl⟩
      have hother : Function.update f r (Function.update (f r) c x) r' c' = f r' c' := by
        by_cases hrow : r' = r
        · subst hrow
          rw [Function.update_self, Function.update_of_ne fun hcol => hsame ⟨rfl, hcol⟩]
        · rw [Function.update_of_ne hrow]
      rw [List.getElem?_set_ne hindex, getElem?_toList f hr' hc', hother]
  · rw [List.getElem?_eq_none (by rw [List.length_set, length_toList]; omega),
      List.getElem?_eq_none (by rw [length_toList]; omega)]

end RowMajor
