/-
# A total and its bands

A machine counter of everything, and one counter for each of finitely many bands.  Both are
incremented modulo the word size and decremented down to zero, so that an error of the one is never
made good by the other.
-/
import Mathlib.Algebra.Order.BigOperators.Group.Finset
import Mathlib.Algebra.BigOperators.Group.Finset.Piecewise
import Mathlib.Data.Fintype.Basic

universe u

namespace Bands

variable {β : Type u} [Fintype β] {total size : Nat} {bands : β → Nat}

def Agree (total : Nat) (bands : β → Nat) : Prop := total = ∑ b, bands b

theorem Agree.le (h : Agree total bands) (b : β) : bands b ≤ total := by
  rw [h]
  exact Finset.single_le_sum (fun _ _ => Nat.zero_le _) (Finset.mem_univ b)

/-- No count is left when the total is zero. -/
theorem Agree.eq_zero (h : Agree total bands) (hzero : total = 0) (b : β) : bands b = 0 :=
  Nat.le_zero.mp (hzero ▸ h.le b)

theorem agree_zero : Agree 0 (fun _ : β => 0) := by
  simp [Agree]

variable [DecidableEq β]

theorem sum_update (bands : β → Nat) (b : β) (v : Nat) :
    (∑ x, Function.update bands b v x) + bands b = (∑ x, bands x) + v := by
  rw [Finset.sum_update_of_mem (Finset.mem_univ b), Finset.sdiff_singleton_eq_erase,
    ← Finset.add_sum_erase Finset.univ bands (Finset.mem_univ b)]
  omega

/-- **Counting one more.**  A total that wraps takes a band with it only if that band holds all. -/
theorem Agree.add_iff (h : Agree total bands) (hlt : total < size) (b : β) :
    Agree ((total + 1) % size) (Function.update bands b ((bands b + 1) % size)) ↔
      (total + 1 = size → bands b + 1 = size) := by
  have hsum := sum_update bands b ((bands b + 1) % size)
  have hband := h.le b
  unfold Agree at h ⊢
  by_cases hwrap : total + 1 = size
  · have htotal : (total + 1) % size = 0 := by rw [hwrap, Nat.mod_self]
    by_cases hall : bands b + 1 = size
    · have hzero : (bands b + 1) % size = 0 := by rw [hall, Nat.mod_self]
      rw [hzero] at hsum ⊢
      rw [htotal]
      exact iff_of_true (by omega) fun _ => hall
    · rw [Nat.mod_eq_of_lt (show bands b + 1 < size by omega)] at hsum ⊢
      rw [htotal]
      exact iff_of_false (by omega) fun hcond => hall (hcond hwrap)
  · rw [Nat.mod_eq_of_lt (show bands b + 1 < size by omega)] at hsum ⊢
    rw [Nat.mod_eq_of_lt (show total + 1 < size by omega)]
    exact iff_of_true (by omega) fun hcond => absurd hcond hwrap

/-- **Counting one off.**  A band that is empty keeps the count that the total loses. -/
theorem Agree.sub_iff (h : Agree total bands) (b : β) :
    Agree (total - 1) (Function.update bands b (bands b - 1)) ↔ (0 < total → 0 < bands b) := by
  have hsum := sum_update bands b (bands b - 1)
  have hband := h.le b
  unfold Agree at h ⊢
  by_cases hempty : bands b = 0
  · rw [hempty] at hsum ⊢
    constructor
    · intro _ hpos
      omega
    · intro hcond
      omega
  · exact iff_of_true (by omega) fun _ => by omega

end Bands
