/-
# Exponential moving averages and their products

What an exponential moving average has learned from a constant observation, and what a product of
three of them says of it.  An average that starts at 1 and has moved to `1 + x` with a weight `w`
stands at `1 + w * x`; averages compound to one such value, whose weight may pass 1.
-/
import Mathlib.Algebra.Order.Field.Basic
import Mathlib.Tactic.FieldSimp
import Mathlib.Tactic.Linarith
import Mathlib.Tactic.Positivity
import Mathlib.Tactic.Ring

namespace Ema

variable {K : Type*} [Field K]

/-- One observation, at the learning rate `α`. -/
def observe (α value observation : K) : K := α * observation + (1 - α) * value

/-- The average after a list of observations. -/
def average (α value : K) (observations : List K) : K := observations.foldl (observe α) value

/-- The weight of a value that was observed `k` times in a row. -/
def weight (α : K) (k : Nat) : K := 1 - (1 - α) ^ k

@[simp] theorem average_nil (α value : K) : average α value [] = value := rfl

@[simp] theorem average_concat (α value : K) (observations : List K) (o : K) :
    average α value (observations ++ [o]) = observe α (average α value observations) o := by
  unfold average
  rw [List.foldl_append]
  rfl

theorem average_replicate (α r : K) (k : Nat) :
    average α 1 (List.replicate k r) = 1 + weight α k * (r - 1) := by
  induction k with
  | zero => simp [weight]
  | succ k ih =>
      rw [List.replicate_succ', average_concat, ih]
      unfold observe weight
      ring

/-! ## The compound of three averages -/

/-- The weight with which three averages, each with a weight of its own, compound. -/
def compoundWeight (x t a d : K) : K :=
  t + a + d + x * (t * a + t * d + a * d) + x ^ 2 * (t * a * d)

theorem compound_eq (x t a d : K) :
    (1 + t * x) * (1 + a * x) * (1 + d * x) = 1 + compoundWeight x t a d * x := by
  unfold compoundWeight
  ring

variable [LinearOrder K] [IsStrictOrderedRing K]

theorem weight_nonneg {α : K} (hpos : 0 < α) (hle : α ≤ 1) (k : Nat) : 0 ≤ weight α k :=
  sub_nonneg.mpr (pow_le_one₀ (sub_nonneg.mpr hle) (sub_le_self 1 hpos.le))

theorem weight_le_one {α : K} (hle : α ≤ 1) (k : Nat) : weight α k ≤ 1 :=
  sub_le_self 1 (pow_nonneg (sub_nonneg.mpr hle) k)

/-- A lower bound of the value and of the observation is one of the next value. -/
theorem le_observe {α a value o : K} (hpos : 0 ≤ α) (hle : α ≤ 1) (hvalue : a ≤ value)
    (ho : a ≤ o) : a ≤ observe α value o := by
  have hrest : 0 ≤ 1 - α := sub_nonneg.mpr hle
  calc a = α * a + (1 - α) * a := by ring
    _ ≤ α * o + (1 - α) * value :=
        add_le_add (mul_le_mul_of_nonneg_left ho hpos) (mul_le_mul_of_nonneg_left hvalue hrest)

theorem observe_le {α b value o : K} (hpos : 0 ≤ α) (hle : α ≤ 1) (hvalue : value ≤ b)
    (ho : o ≤ b) : observe α value o ≤ b := by
  have hrest : 0 ≤ 1 - α := sub_nonneg.mpr hle
  calc α * o + (1 - α) * value ≤ α * b + (1 - α) * b :=
        add_le_add (mul_le_mul_of_nonneg_left ho hpos) (mul_le_mul_of_nonneg_left hvalue hrest)
    _ = b := by ring

/-- In the closed interval that some values span. -/
def Spanned (value : K) (values : List K) : Prop :=
  (∃ lo ∈ values, lo ≤ value) ∧ ∃ hi ∈ values, value ≤ hi

/-- An average does not leave what its start and its observations span. -/
theorem average_spanned {α : K} (hpos : 0 ≤ α) (hle : α ≤ 1) (value : K)
    (observations : List K) :
    Spanned (average α value observations) (value :: observations) := by
  induction observations using List.reverseRecOn with
  | nil => exact ⟨⟨value, by simp, le_rfl⟩, ⟨value, by simp, le_rfl⟩⟩
  | append_singleton observations o ih =>
      obtain ⟨⟨lo, hlo, hlole⟩, ⟨hi, hhi, hlehi⟩⟩ := ih
      have hmem : ∀ x ∈ value :: observations, x ∈ value :: (observations ++ [o]) :=
        fun x hx => List.mem_append_left [o] hx
      have hlast : o ∈ value :: (observations ++ [o]) := by simp
      rw [average_concat]
      constructor
      · rcases le_total lo o with h | h
        · exact ⟨lo, hmem lo hlo, le_observe hpos hle hlole h⟩
        · exact ⟨o, hlast, le_observe hpos hle (h.trans hlole) le_rfl⟩
      · rcases le_total o hi with h | h
        · exact ⟨hi, hmem hi hhi, observe_le hpos hle hlehi h⟩
        · exact ⟨o, hlast, observe_le hpos hle (hlehi.trans h) le_rfl⟩

/-- An average of positive values is positive. -/
theorem average_pos {α : K} (hpos : 0 < α) (hle : α ≤ 1) {observations : List K}
    (h : ∀ o ∈ observations, 0 < o) : 0 < average α 1 observations := by
  induction observations using List.reverseRecOn with
  | nil => exact zero_lt_one
  | append_singleton observations o ih =>
      rw [average_concat]
      have hrest := ih fun o' ho' => h o' (List.mem_append_left _ ho')
      have hlast := mul_pos hpos (h o (List.mem_append_right _ (List.mem_singleton_self o)))
      exact add_pos_of_pos_of_nonneg hlast (mul_nonneg (sub_nonneg.mpr hle) hrest.le)

/-- Averages on one side of 1 compound to a value on that side. -/
theorem compoundWeight_nonneg {x t a d : K} (hx : -1 < x) (ht : 0 ≤ t) (ht' : t ≤ 1)
    (ha : 0 ≤ a) (ha' : a ≤ 1) (hd : 0 ≤ d) (hd' : d ≤ 1) : 0 ≤ compoundWeight x t a d := by
  rcases le_or_gt 0 x with hpos | hneg
  · unfold compoundWeight
    positivity
  · -- all three averages lie between 0 and 1, and so does their product
    have hfactor : ∀ w : K, 0 ≤ w → w ≤ 1 → 0 ≤ 1 + w * x ∧ 1 + w * x ≤ 1 := by
      intro w hw hw'
      have hle := mul_nonpos_of_nonneg_of_nonpos hw hneg.le
      have hge : x ≤ w * x := by
        have hscaled := mul_le_mul_of_nonpos_right hw' hneg.le
        linarith
      exact ⟨by linarith, by linarith⟩
    obtain ⟨ht₀, ht₁⟩ := hfactor t ht ht'
    obtain ⟨ha₀, ha₁⟩ := hfactor a ha ha'
    obtain ⟨hd₀, hd₁⟩ := hfactor d hd hd'
    have hcompound : (1 + t * x) * (1 + a * x) * (1 + d * x) ≤ 1 :=
      mul_le_one₀ (mul_le_one₀ ht₁ ha₀ ha₁) hd₀ hd₁
    rw [compound_eq] at hcompound
    by_contra hlt
    have hpos := mul_pos_of_neg_of_neg (not_le.mp hlt) hneg
    linarith

/-- A value that has moved away from 1 with a positive weight is on the side of `1 + x`, and passes
it exactly when the weight passes 1. -/
theorem between_iff {x w : K} (hw : 0 ≤ w) (hx : x ≠ 0) :
    min 1 (1 + x) ≤ 1 + w * x ∧ 1 + w * x ≤ max 1 (1 + x) ↔ w ≤ 1 := by
  rcases lt_or_gt_of_ne hx with hneg | hpos
  · have hle := mul_nonpos_of_nonneg_of_nonpos hw hneg.le
    rw [min_eq_right (by linarith), max_eq_left (by linarith)]
    constructor
    · rintro ⟨hge, -⟩
      by_contra hlt
      have hpassed := mul_lt_mul_of_neg_right (not_le.mp hlt) hneg
      linarith
    · intro hone
      have hscaled := mul_le_mul_of_nonpos_right hone hneg.le
      exact ⟨by linarith, by linarith⟩
  · have hge := mul_nonneg hw hpos.le
    rw [min_eq_left (by linarith), max_eq_right (by linarith)]
    constructor
    · rintro ⟨-, hle⟩
      by_contra hlt
      have hpassed := mul_lt_mul_of_pos_right (not_le.mp hlt) hpos
      linarith
    · intro hone
      have hscaled := mul_le_mul_of_nonneg_right hone hpos.le
      exact ⟨by linarith, by linarith⟩

end Ema
