/-
# Order statistics

An element has rank `i` in a list if at most `i` elements are smaller and more than `i` are not
greater: it stands at position `i` when the list is sorted.  The rank does not depend on the order of
the list, it determines the element, and it grows with it.

Positions count from 0.  An insertion sort has at each position an element of that rank, so a
nearest-rank percentile is an order statistic whichever way the list was sorted.
-/
import Mathlib.Data.List.Sort
import Mathlib.Order.Lattice

universe u

namespace OrderStatistics

variable {α : Type u} [LinearOrder α]

/-- `x` stands at position `i` of the sorted list. -/
structure HasRank (l : List α) (i : Nat) (x : α) : Prop where
  mem : x ∈ l
  below : l.countP (· < x) ≤ i
  notAbove : i < l.countP (· ≤ x)

variable {l l' : List α} {i j : Nat} {x y : α}

theorem HasRank.perm (h : HasRank l i x) (hperm : l.Perm l') : HasRank l' i x where
  mem := hperm.mem_iff.mp h.mem
  below := hperm.countP_eq _ ▸ h.below
  notAbove := hperm.countP_eq _ ▸ h.notAbove

/-- A higher rank is held by no smaller element. -/
theorem HasRank.le (hx : HasRank l i x) (hy : HasRank l j y) (hij : i ≤ j) : x ≤ y := by
  by_contra hlt
  have hlt : y < x := not_le.mp hlt
  have hmono : l.countP (· ≤ y) ≤ l.countP (· < x) := by
    apply List.countP_mono_left
    intro z _ hz
    rw [decide_eq_true_eq] at hz ⊢
    exact hz.trans_lt hlt
  have hbelow := hx.below
  have hnotAbove := hy.notAbove
  omega

theorem HasRank.unique (hx : HasRank l i x) (hy : HasRank l i y) : x = y :=
  le_antisymm (hx.le hy le_rfl) (hy.le hx le_rfl)

/-- At least as many elements as there are positions from `i` on are not smaller. -/
theorem HasRank.countP_ge (h : HasRank l i x) : l.length ≤ l.countP (x ≤ ·) + i := by
  have hsplit := List.length_eq_countP_add_countP (· < x) (l := l)
  have hsame : l.countP (fun z => ¬decide (z < x) = true) = l.countP (x ≤ ·) := by
    apply List.countP_congr
    intro z _
    simp
  have hbelow := h.below
  omega

theorem hasRank_of_pairwise (h : l.Pairwise (· ≤ ·)) (hi : l[i]? = some x) : HasRank l i x := by
  obtain ⟨hlt, hget⟩ := List.getElem?_eq_some_iff.mp hi
  have hsplit : l.take i ++ x :: l.drop (i + 1) = l := by
    rw [← hget, ← List.drop_eq_getElem_cons hlt, List.take_append_drop]
  have hcount : ∀ p : α → Bool,
      l.countP p = (l.take i).countP p + (x :: l.drop (i + 1)).countP p := by
    intro p
    rw [← List.countP_append, hsplit]
  have hlen : (l.take i).length = i := List.length_take_of_le hlt.le
  rw [← hsplit, List.pairwise_append] at h
  obtain ⟨-, hafter, hbefore⟩ := h
  refine ⟨List.mem_of_getElem? hi, ?_, ?_⟩
  · -- nothing from position `i` on is smaller
    have hnone : (x :: l.drop (i + 1)).countP (· < x) = 0 := by
      rw [List.countP_eq_zero]
      intro z hz
      rw [decide_eq_true_eq, not_lt]
      rcases List.mem_cons.mp hz with rfl | hz
      · exact le_rfl
      · exact (List.pairwise_cons.mp hafter).1 z hz
    rw [hcount, hnone, Nat.add_zero]
    exact List.countP_le_length.trans hlen.le
  · -- everything up to it is not greater
    have hall : (l.take i).countP (· ≤ x) = i := by
      rw [List.countP_eq_length.mpr ?_, hlen]
      intro z hz
      rw [decide_eq_true_eq]
      exact hbefore z hz x List.mem_cons_self
    have hpos : 0 < (x :: l.drop (i + 1)).countP (· ≤ x) := by
      rw [List.countP_pos_iff]
      exact ⟨x, List.mem_cons_self, by simp⟩
    rw [hcount, hall]
    omega

/-- What stands at a position of the sorted list has that rank. -/
theorem hasRank_insertionSort (hi : (l.insertionSort (· ≤ ·))[i]? = some x) : HasRank l i x :=
  (hasRank_of_pairwise (l.pairwise_insertionSort (· ≤ ·)) hi).perm (l.perm_insertionSort (· ≤ ·))

end OrderStatistics
