/-
# A counter that wraps, read modulo a length

A counter counts modulo `M` and its values are taken modulo `n` to go through `n` places in turn.
Consecutive values name different places until the counter wraps; there the order starts again at
place 0, which is the next one only when `n` divides `M`.
-/
import Mathlib.Data.Nat.ModEq

namespace WrappedCycle

/-- The place named by the `i`-th value from `c` on. -/
def place (M n c i : Nat) : Nat := (c + i) % M % n

/-- No two of the `k` values from `c` on name the same place. -/
def Distinct (M n c k : Nat) : Prop := ∀ i j, i < j → j < k → place M n c i ≠ place M n c j

variable {M n c k : Nat}

/-- Of fewer than `n` steps none but the empty one comes back. -/
theorem mod_ne_of_lt {a i j : Nat} (hlt : i < j) (hnear : j < i + n) : (a + i) % n ≠ (a + j) % n := by
  intro heq
  have hdvd : n ∣ a + j - (a + i) := (Nat.modEq_iff_dvd' (by omega)).mp heq
  have hle := Nat.le_of_dvd (by omega) hdvd
  omega

/-- Before the counter wraps. -/
theorem distinct_of_le (hk : k ≤ n) (hfits : c + k ≤ M) : Distinct M n c k := by
  intro i j hlt hj
  unfold place
  rw [Nat.mod_eq_of_lt (show c + i < M by omega), Nat.mod_eq_of_lt (show c + j < M by omega)]
  exact mod_ne_of_lt hlt (by omega)

/-- Past a wrap that goes unnoticed. -/
theorem distinct_of_dvd (hk : k ≤ n) (hdvd : n ∣ M) : Distinct M n c k := by
  intro i j hlt hj
  unfold place
  rw [Nat.mod_mod_of_dvd _ hdvd, Nat.mod_mod_of_dvd _ hdvd]
  exact mod_ne_of_lt hlt (by omega)

/-- Past a wrap when the places before it are still ahead. -/
theorem distinct_of_le_mod (hc : c < M) (hk : k ≤ n) (hahead : k ≤ M % n) : Distinct M n c k := by
  intro i j hlt hj
  have hdecomp : n * (M / n) + M % n = M := Nat.div_add_mod M n
  have hless : M % n < n := Nat.mod_lt _ (by omega)
  have hbefore : ∀ i, i < k → c + i < M → M ≤ c + k → place M n c i = c + i - n * (M / n) := by
    intro i hi hlow hwrap
    have hvalue : c + i = c + i - n * (M / n) + n * (M / n) := by omega
    unfold place
    rw [Nat.mod_eq_of_lt hlow, hvalue, Nat.add_mul_mod_self_left, Nat.add_sub_cancel]
    exact Nat.mod_eq_of_lt (by omega)
  have hafter : ∀ i, i < k → M ≤ c + i → place M n c i = c + i - M := by
    intro i hi hhigh
    unfold place
    rw [Nat.mod_eq_sub_mod hhigh, Nat.mod_eq_of_lt (show c + i - M < M by omega)]
    exact Nat.mod_eq_of_lt (by omega)
  by_cases hwrap : c + k ≤ M
  · exact distinct_of_le hk hwrap i j hlt hj
  · rcases Nat.lt_or_ge (c + j) M with hlow | hhigh
    · rw [hbefore i (by omega) (by omega) (by omega), hbefore j hj hlow (by omega)]
      omega
    · rw [hafter j hj hhigh]
      rcases Nat.lt_or_ge (c + i) M with hlow' | hhigh'
      · rw [hbefore i (by omega) hlow' (by omega)]
        omega
      · rw [hafter i (by omega) hhigh']
        omega

/-- Across a wrap that does not divide, two values `M % n` apart name the same place. -/
theorem not_distinct (hc : c < M) (hwrap : M < c + k) (hndvd : ¬n ∣ M) (hpast : M % n < k) :
    ¬Distinct M n c k := by
  have hdecomp : n * (M / n) + M % n = M := Nat.div_add_mod M n
  have hpos : 0 < M % n := Nat.pos_of_ne_zero fun h => hndvd (Nat.dvd_of_mod_eq_zero h)
  have hle : M % n ≤ M := Nat.mod_le ..
  intro hdistinct
  rcases Nat.lt_or_ge (M - c) (M % n) with hlate | hearly
  · -- the first value is past the last multiple of `n`
    apply hdistinct 0 (M % n) hpos hpast
    unfold place
    have hlast : (c + M % n) % M = M % n - (M - c) := by
      rw [Nat.mod_eq_sub_mod (by omega), Nat.mod_eq_of_lt (by omega)]
      omega
    have hfirst : c + 0 = M % n - (M - c) + n * (M / n) := by omega
    rw [hlast, Nat.mod_eq_of_lt (show c + 0 < M by omega), hfirst, Nat.add_mul_mod_self_left]
  · -- the last multiple of `n` and the wrap are among the values
    apply hdistinct (M - c - M % n) (M - c) (by omega) (by omega)
    unfold place
    have hlast : (c + (M - c)) % M = 0 := by
      rw [Nat.add_sub_cancel' hc.le, Nat.mod_self]
    have hmultiple : c + (M - c - M % n) = n * (M / n) := by omega
    rw [hlast, hmultiple, Nat.mod_eq_of_lt (show n * (M / n) < M by omega), Nat.mul_mod_right,
      Nat.zero_mod]

/-- **When consecutive values name different places.** -/
theorem distinct_iff (hc : c < M) (hk : k ≤ n) :
    Distinct M n c k ↔ c + k ≤ M ∨ n ∣ M ∨ k ≤ M % n := by
  constructor
  · intro hdistinct
    by_contra hnone
    rw [not_or, not_or] at hnone
    obtain ⟨hwrap, hndvd, hpast⟩ := hnone
    exact not_distinct hc (by omega) hndvd (by omega) hdistinct
  · rintro (hfits | hdvd | hahead)
    · exact distinct_of_le hk hfits
    · exact distinct_of_dvd hk hdvd
    · exact distinct_of_le_mod hc hk hahead

end WrappedCycle
