/-
# IEEE floats: rounding

What the rounding of a mantissa at an exponent depends on and what it keeps.  It depends on the
magnitude alone, so that a magnitude the format represents is not rounded at all; the result is
canonical and has the sign it was given.  From this come the laws of the operations that programs
use without thinking of them: products of small integers are exact, and sums, products and
differences of numbers that are not negative are not negative where they are numbers.

`round_mul_pow` is the key: mantissas and exponents that stand for the same magnitude are rounded
alike.  `Full.round_eq` says that a mantissa and an exponent as the format has them are left alone,
and `canonical_round` that rounding makes nothing else but these and zeros.

The second half is about values: `exists_value_ofNat`, `exists_value_normalize` and
`exists_value_sub` find the value of an operation whose exact result fits, and `value_mul_natCast`
that of a product of small integers.  `Wider` compares two formats; converting from the narrower to
the wider one and back changes nothing.
-/
import FatpBalancer.Lib.Ieee

namespace Ieee

open Float.Model

open Float.Model.UnpackedFloat

variable {S : Format}

/-! ## Shifting

A right shift keeps in two residual bits whether something was lost, and whether it was half a unit
or more.  A magnitude that fits loses nothing. -/

/-- A mantissa without residual bits. -/
def whole (m : Nat) : ExtendedMantissa := ⟨m, false, false⟩

/-- One place at a time. -/
theorem shiftRight_succ (em : ExtendedMantissa) (k : Nat) :
    em >>> (k + 1) = (em >>> k).shiftRightOne := rfl

/-- No place. -/
theorem shiftRight_zero (em : ExtendedMantissa) : em >>> 0 = em := rfl

/-- Shifts add up. -/
theorem shiftRight_add (em : ExtendedMantissa) (j k : Nat) : em >>> (j + k) = (em >>> j) >>> k := by
  induction k with
  | zero => rfl
  | succ k ih => rw [← Nat.add_assoc, shiftRight_succ, shiftRight_succ, ih]

/-- What is left of the mantissa is the quotient. -/
theorem shiftRight_mantissa (em : ExtendedMantissa) (k : Nat) :
    (em >>> k).mantissa = em.mantissa / 2 ^ k := by
  induction k with
  | zero => rw [shiftRight_zero, Nat.pow_zero, Nat.div_one]
  | succ k ih =>
      rw [shiftRight_succ, ExtendedMantissa.shiftRightOne, ih, Nat.div_div_eq_div_mul, Nat.pow_succ]

/-- Shifting out zeros leaves no residual bits. -/
theorem whole_shiftRight (m k : Nat) : whole (m * 2 ^ k) >>> k = whole m := by
  induction k generalizing m with
  | zero => rw [shiftRight_zero, Nat.pow_zero, Nat.mul_one]
  | succ k ih =>
      have hmul : m * 2 ^ (k + 1) = m * 2 * 2 ^ k := by ring
      rw [shiftRight_succ, hmul, ih]
      simp [whole, ExtendedMantissa.shiftRightOne]

/-- Shifting to the exponent the number already has. -/
theorem shiftToExponent_exact (m : Nat) (e t : Int) :
    shiftToExponent m e .exact t = (whole m >>> (t - e).toNat, e + (t - e).toNat) := rfl

/-- Nothing lost, nothing rounded. -/
theorem roundedMantissa_whole (m : Nat) : (whole m).roundedMantissa = m := rfl

/-- Rounding keeps the mantissa or adds one. -/
theorem roundedMantissa_bounds (em : ExtendedMantissa) :
    em.mantissa ≤ em.roundedMantissa ∧ em.roundedMantissa ≤ em.mantissa + 1 := by
  obtain ⟨m, r, s⟩ := em
  cases r <;> cases s <;>
    simp [ExtendedMantissa.roundedMantissa, ExtendedMantissa.accuracy, Accuracy.roundToNearestEven]
  omega

/-- The total exponent is that of the magnitude, however it is split. -/
theorem totalExponent_mul_pow {m : Nat} (hm : 0 < m) (k : Nat) (e : Int) :
    totalExponent (m * 2 ^ k) e = totalExponent m (e + k) := by
  have hlog : (m * 2 ^ k).log2 = m.log2 + k := by
    induction k with
    | zero => rw [Nat.pow_zero, Nat.mul_one, Nat.add_zero]
    | succ k ih =>
        have hmul : m * 2 ^ (k + 1) = 2 * (m * 2 ^ k) := by ring
        rw [hmul, Nat.log2_two_mul (by positivity), ih, Nat.add_assoc]
  unfold totalExponent
  rw [hlog]
  push_cast
  ring

/-! ## Rounding

`roundWithAccuracy` in two parts: the shift to the target exponent, and `finish`, which repairs a
mantissa that has become too large. -/

/-- The last part of rounding: a mantissa that rounding made too large is shifted once more. -/
def finish (S : Format) (s : Sign) (r : Nat) (e : Int) : UnpackedFloat :=
  if h : (shiftToTargetExponent S r e .exact).1.mantissa = 0 then .zero s
  else
    .finite s (shiftToTargetExponent S r e .exact).1.mantissa (shiftToTargetExponent S r e .exact).2
      (Nat.pos_of_ne_zero h)

theorem roundWithAccuracy_eq (S : Format) (s : Sign) (m : Nat) (e : Int) (a : Accuracy) :
    roundWithAccuracy S s m e a =
      finish S s (shiftToTargetExponent S m e a).1.roundedMantissa
        (shiftToTargetExponent S m e a).2 := rfl

/-- Without a shift up the exact rounding is the whole of it. -/
theorem round_of_le {s : Sign} {m : Nat} {e : Int} (h : e ≤ S.targetExponent (totalExponent m e)) :
    UnpackedFloat.round S s m e = roundWithAccuracy S s m e .exact := by
  have hnone : (e - S.targetExponent (totalExponent m e)).toNat = 0 := by omega
  unfold UnpackedFloat.round decreaseExponent
  dsimp only
  rw [hnone, Nat.shiftLeft_zero, Nat.cast_zero, Int.sub_zero]

/-- The mantissa moved from one exponent to another, up or down. -/
def moved (m : Nat) (e t : Int) : ExtendedMantissa :=
  whole (m * 2 ^ (e - t).toNat) >>> (t - e).toNat

/-- Rounding moves the mantissa to the target exponent and finishes there. -/
theorem round_eq {s : Sign} {m : Nat} {e t : Int} (hm : 0 < m)
    (ht : S.targetExponent (totalExponent m e) = t) :
    UnpackedFloat.round S s m e = finish S s (moved m e t).roundedMantissa t := by
  unfold moved
  rcases le_total e t with hle | hge
  · have hnone : (e - t).toNat = 0 := by omega
    have hto : e + (t - e).toNat = t := by omega
    rw [round_of_le (ht ▸ hle), roundWithAccuracy_eq, shiftToTargetExponent, ht,
      shiftToExponent_exact, hnone, Nat.pow_zero, Nat.mul_one, hto]
  · obtain ⟨k, rfl⟩ : ∃ k : Nat, e = t + k := ⟨(e - t).toNat, by omega⟩
    have hk : (t + (k : Int) - t).toNat = k := by omega
    have hnone : (t - (t + (k : Int))).toNat = 0 := by omega
    have htotal := totalExponent_mul_pow hm k t
    unfold UnpackedFloat.round decreaseExponent
    dsimp only
    rw [ht, hk, Nat.shiftLeft_eq, Int.add_sub_cancel, roundWithAccuracy_eq, shiftToTargetExponent,
      htotal, ht, shiftToExponent_exact, hnone, Int.sub_self]
    simp

/-- Moving mantissa and exponent against each other changes nothing in what is moved. -/
theorem moved_mul_pow (m k : Nat) (e t : Int) : moved (m * 2 ^ k) e t = moved m (e + k) t := by
  unfold moved
  rcases le_total t e with hle | hge
  · -- both go down
    have hup : (t - e).toNat = 0 ∧ (t - (e + k)).toNat = 0 := by omega
    have hdown : (e + k - t).toNat = k + (e - t).toNat := by omega
    rw [hup.1, hup.2, hdown, Nat.pow_add, Nat.mul_assoc]
  · have hdown : (e - t).toNat = 0 := by omega
    rw [hdown, Nat.pow_zero, Nat.mul_one]
    rcases le_total t (e + k) with hle' | hge'
    · -- the zeros that go out on the left never come in on the right
      have hup : (t - (e + k)).toNat = 0 := by omega
      have hk : k = (e + k - t).toNat + (t - e).toNat := by omega
      rw [hup, shiftRight_zero]
      nth_rewrite 1 [hk]
      rw [Nat.pow_add, ← Nat.mul_assoc, whole_shiftRight]
    · have hdown' : (e + k - t).toNat = 0 := by omega
      have hup : (t - e).toNat = k + (t - (e + k)).toNat := by omega
      rw [hup, shiftRight_add, whole_shiftRight, hdown', Nat.pow_zero, Nat.mul_one]

/-- **Rounding sees the magnitude alone**: the point may be moved first. -/
theorem round_mul_pow {s : Sign} {m : Nat} (hm : 0 < m) (k : Nat) (e : Int) :
    UnpackedFloat.round S s (m * 2 ^ k) e = UnpackedFloat.round S s m (e + k) := by
  have hpos : 0 < m * 2 ^ k := by positivity
  rw [round_eq hpos rfl, round_eq hm rfl, totalExponent_mul_pow hm, moved_mul_pow]

/-- Equal magnitudes are rounded alike. -/
theorem round_congr {s : Sign} {m m' : Nat} {e e' : Int} (hm : 0 < m) (hm' : 0 < m')
    (h : magnitude m e = magnitude m' e') :
    UnpackedFloat.round S s m e = UnpackedFloat.round S s m' e' := by
  rcases le_total e e' with hle | hle
  · obtain ⟨k, rfl⟩ : ∃ k : Nat, e' = e + k := ⟨(e' - e).toNat, by omega⟩
    rw [← magnitude_mul_pow] at h
    rw [magnitude_inj h, round_mul_pow hm']
  · obtain ⟨k, rfl⟩ : ∃ k : Nat, e = e' + k := ⟨(e - e').toNat, by omega⟩
    rw [← magnitude_mul_pow] at h
    rw [← magnitude_inj h, round_mul_pow hm]

/-! ## Floats that are not rounded

A number whose mantissa has the format's width, at an exponent that the format has, is its own
rounding. -/

/-- A full mantissa has the width of the format. -/
theorem Full.log2_lt {m : Nat} {e : Int} (h : Full S m e) (hm : 0 < m) : m.log2 < S.mantissaBits :=
  (Nat.log2_lt hm.ne').mpr h.1

/-- The target exponent of a full mantissa is its own. -/
theorem Full.targetExponent_eq {m : Nat} {e : Int} (h : Full S m e) (hm : 0 < m) :
    S.targetExponent (totalExponent m e) = e := by
  have hlog := h.log2_lt hm
  obtain ⟨hlt, hmin, hfull⟩ := h
  unfold Format.targetExponent totalExponent
  rcases hfull with hfull | rfl
  · have hbits := (log2_add_one_eq_iff hm hlt).mpr hfull
    omega
  · omega

/-- A mantissa that is within its bits is finished as it is. -/
theorem finish_of_le {s : Sign} {r : Nat} {e : Int}
    (h : S.targetExponent (totalExponent r e) ≤ e) :
    finish S s r e = if hr : r = 0 then .zero s else .finite s r e (Nat.pos_of_ne_zero hr) := by
  have hnone : (S.targetExponent (totalExponent r e) - e).toNat = 0 := by omega
  unfold finish
  simp only [shiftToTargetExponent, shiftToExponent_exact, hnone, shiftRight_zero, whole,
    Nat.cast_zero, Int.add_zero]

/-- **What the format represents is not rounded.** -/
theorem Full.round_eq {s : Sign} {m : Nat} {e : Int} (h : Full S m e) (hm : 0 < m) :
    UnpackedFloat.round S s m e = .finite s m e hm := by
  have htarget := h.targetExponent_eq hm
  rw [Ieee.round_eq hm htarget]
  unfold moved
  rw [Int.sub_self, Int.toNat_zero, Nat.pow_zero, Nat.mul_one, shiftRight_zero,
    roundedMantissa_whole, finish_of_le htarget.le, dif_neg hm.ne']

/-! ## What rounding makes

The result is canonical, with an exponent that may still be too large for the format.  It can be zero
only where the exponent lies below the least one. -/

/-- What is finished is a zero or a finite number. -/
theorem finish_cases (S : Format) (s : Sign) (r : Nat) (e : Int) :
    finish S s r e = .zero s ∨ ∃ m e' hm, finish S s r e = .finite s m e' hm := by
  unfold finish
  split
  · exact .inl rfl
  · next h => exact .inr ⟨_, _, Nat.pos_of_ne_zero h, rfl⟩

theorem finish_of_lt {s : Sign} {r : Nat} {e : Int} (hlt : r < 2 ^ S.mantissaBits)
    (hmin : S.minExponent ≤ e) :
    finish S s r e = if hr : r = 0 then .zero s else .finite s r e (Nat.pos_of_ne_zero hr) := by
  have hlog : r.log2 < S.mantissaBits := by
    rcases Nat.eq_zero_or_pos r with rfl | hr
    · rw [Nat.log2_zero, Format.mantissaBits]
      omega
    · exact (Nat.log2_lt hr.ne').mpr hlt
  apply finish_of_le
  unfold Format.targetExponent totalExponent
  omega

/-- One bit too many takes one more shift. -/
theorem finish_pow {s : Sign} {e : Int} (hmin : S.minExponent ≤ e) :
    finish S s (2 ^ S.mantissaBits) e =
      .finite s (2 ^ S.mantissaBitsWithoutImplicit) (e + 1)
        (Nat.two_pow_pos _) := by
  have htarget : S.targetExponent (totalExponent (2 ^ S.mantissaBits) e) = e + 1 := by
    unfold Format.targetExponent totalExponent
    rw [Nat.log2_two_pow]
    omega
  have hone : (e + 1 - e).toNat = 1 := by omega
  have hhalf : (whole (2 ^ S.mantissaBits) >>> 1).mantissa = 2 ^ S.mantissaBitsWithoutImplicit := by
    rw [shiftRight_mantissa, whole, pow_mantissaBits, Nat.pow_one, Nat.mul_div_cancel_left _ two_pos]
  have hpos : 0 < 2 ^ S.mantissaBitsWithoutImplicit := Nat.two_pow_pos _
  unfold finish
  simp only [shiftToTargetExponent, htarget, shiftToExponent_exact, hone, hhalf, hpos.ne',
    dite_false, Nat.cast_one]

/-- The finished float is canonical. -/
theorem canonical_finish {s : Sign} {r : Nat} {e : Int} (hle : r ≤ 2 ^ S.mantissaBits)
    (hmin : S.minExponent ≤ e)
    (hfull : 2 ^ S.mantissaBitsWithoutImplicit ≤ r ∨ e = S.minExponent) :
    Canonical S (finish S s r e) := by
  have hpow := pow_mantissaBits S
  rcases Nat.lt_or_eq_of_le hle with hlt | rfl
  · rw [finish_of_lt hlt hmin]
    split
    · trivial
    · exact ⟨hlt, hmin, hfull⟩
  · have hpos : 0 < 2 ^ S.mantissaBitsWithoutImplicit := by positivity
    rw [finish_pow hmin]
    exact ⟨by omega, by omega, .inl le_rfl⟩

theorem finish_ne_zero {s s' : Sign} {r : Nat} {e : Int} (hpos : 0 < r)
    (hle : r ≤ 2 ^ S.mantissaBits) (hmin : S.minExponent ≤ e) : finish S s r e ≠ .zero s' := by
  rcases Nat.lt_or_eq_of_le hle with hlt | rfl
  · rw [finish_of_lt hlt hmin, dif_neg hpos.ne']
    exact fun heq => by cases heq
  · rw [finish_pow hmin]
    exact fun heq => by cases heq

/-- The mantissa at the target exponent has its bits, unless the exponent is the least. -/
theorem moved_bounds {m : Nat} {e t : Int} (hm : 0 < m)
    (ht : S.targetExponent (totalExponent m e) = t) :
    (moved m e t).mantissa < 2 ^ S.mantissaBits ∧ S.minExponent ≤ t ∧
      (2 ^ S.mantissaBitsWithoutImplicit ≤ (moved m e t).mantissa ∨ t = S.minExponent) := by
  have hlow := Nat.log2_self_le hm.ne'
  have hhigh := Nat.lt_log2_self (n := m)
  have hmantissa : (moved m e t).mantissa = m * 2 ^ (e - t).toNat / 2 ^ (t - e).toNat :=
    shiftRight_mantissa ..
  have hbits : S.mantissaBits = 1 + S.mantissaBitsWithoutImplicit := rfl
  unfold Format.targetExponent totalExponent at ht
  rw [hmantissa]
  refine ⟨?_, by omega, ?_⟩
  · rw [Nat.div_lt_iff_lt_mul (by positivity), ← Nat.pow_add]
    calc
      m * 2 ^ (e - t).toNat < 2 ^ (m.log2 + 1) * 2 ^ (e - t).toNat :=
        Nat.mul_lt_mul_of_pos_right hhigh (by positivity)
      _ = 2 ^ (m.log2 + 1 + (e - t).toNat) := (Nat.pow_add ..).symm
      _ ≤ 2 ^ (S.mantissaBits + (t - e).toNat) := Nat.pow_le_pow_right two_pos (by omega)
  · rcases eq_or_ne t S.minExponent with heq | hne
    · exact .inr heq
    · left
      rw [Nat.le_div_iff_mul_le (by positivity), ← Nat.pow_add]
      calc
        2 ^ (S.mantissaBitsWithoutImplicit + (t - e).toNat) ≤ 2 ^ (m.log2 + (e - t).toNat) :=
          Nat.pow_le_pow_right two_pos (by omega)
        _ = 2 ^ m.log2 * 2 ^ (e - t).toNat := Nat.pow_add ..
        _ ≤ m * 2 ^ (e - t).toNat := Nat.mul_le_mul_right _ hlow

/-- **Rounding makes canonical floats.** -/
theorem canonical_round {s : Sign} {m : Nat} {e : Int} (hm : 0 < m) :
    Canonical S (UnpackedFloat.round S s m e) := by
  rw [round_eq hm rfl]
  obtain ⟨hlt, hmin, hfull⟩ := moved_bounds (S := S) (e := e) hm rfl
  have hbounds := roundedMantissa_bounds (moved m e (S.targetExponent (totalExponent m e)))
  exact canonical_finish (by omega) hmin (hfull.imp_left fun h => h.trans hbounds.1)

/-- Before overflow is looked at, rounding makes a finite number or a zero. -/
theorem round_cases (S : Format) (s : Sign) {m : Nat} (hm : 0 < m) (e : Int) :
    UnpackedFloat.round S s m e = .zero s ∨
      ∃ m' e' hm', UnpackedFloat.round S s m e = .finite s m' e' hm' := by
  rw [round_eq hm rfl]
  exact finish_cases ..

/-- From the least exponent up nothing is rounded to zero. -/
theorem round_ne_zero {s s' : Sign} {m : Nat} {e : Int} (hm : 0 < m) (he : S.minExponent ≤ e) :
    UnpackedFloat.round S s m e ≠ .zero s' := by
  rw [round_eq hm rfl]
  generalize ht : S.targetExponent (totalExponent m e) = t
  obtain ⟨hlt, hmin, hfull⟩ := moved_bounds hm ht
  have hbounds := roundedMantissa_bounds (moved m e t)
  have hpos : 0 < (moved m e t).mantissa := by
    rcases hfull with hfull | rfl
    · exact lt_of_lt_of_le (by positivity) hfull
    · have hnone : (S.minExponent - e).toNat = 0 := by omega
      rw [moved, hnone, shiftRight_zero, whole]
      positivity
  exact finish_ne_zero (by omega) (by omega) hmin

/-! ## Operations

The operations normalise an exact result, so that what holds of rounding holds of them. -/

/-- An exact result, normalised, is canonical. -/
theorem canonical_normalize {n e : Int} {z : Sign} :
    Canonical S (UnpackedFloat.normalize S n e z) := by
  unfold UnpackedFloat.normalize
  split
  · next h => exact canonical_round (by rw [compare_lt_iff_lt] at h; omega)
  · trivial
  · next h => exact canonical_round (by rw [compare_gt_iff_gt] at h; omega)

/-- So is a sum. -/
theorem canonical_add {u v : UnpackedFloat} (hu : Canonical S u) (hv : Canonical S v) :
    Canonical S (UnpackedFloat.add S u v) := by
  cases u with
  | notANumber => trivial
  | infinity s =>
      cases v with
      | infinity s' => cases s <;> cases s' <;> trivial
      | _ => trivial
  | zero s =>
      cases v with
      | zero s' => cases s <;> cases s' <;> trivial
      | finite => exact hv
      | _ => trivial
  | finite =>
      cases v with
      | zero => exact hu
      | finite => exact canonical_normalize
      | _ => trivial

/-- So is a difference. -/
theorem canonical_sub {u v : UnpackedFloat} (hu : Canonical S u) (hv : Canonical S v) :
    Canonical S (UnpackedFloat.sub S u v) := by
  cases u with
  | notANumber => trivial
  | infinity s =>
      cases v with
      | infinity s' => cases s <;> cases s' <;> trivial
      | _ => trivial
  | zero s =>
      cases v with
      | zero s' => cases s <;> cases s' <;> trivial
      | finite => exact hv
      | _ => trivial
  | finite =>
      cases v with
      | zero => exact hu
      | finite => exact canonical_normalize
      | _ => trivial

/-- The exponent of a product of canonical floats is not above its target. -/
theorem mul_le_targetExponent {m m' : Nat} {e e' : Int} (hm : 0 < m) (hm' : 0 < m')
    (h : Full S m e) (h' : Full S m' e') :
    e + e' ≤ S.targetExponent (totalExponent (m * m') (e + e')) := by
  have hpos : m * m' ≠ 0 := by positivity
  have hbits := S.hm
  have hleast := minExponent_eq S
  have hlog : ∀ x, 2 ^ S.mantissaBitsWithoutImplicit ≤ x → x ≤ m * m' →
      S.mantissaBitsWithoutImplicit ≤ (m * m').log2 :=
    fun x hx hle => (Nat.le_log2 hpos).mpr (hx.trans hle)
  obtain ⟨-, hmin, hfull⟩ := h
  obtain ⟨-, hmin', hfull'⟩ := h'
  unfold Format.targetExponent totalExponent
  rw [Format.mantissaBits]
  rcases hfull with hfull | rfl
  · have := hlog m hfull (Nat.le_mul_of_pos_right m hm')
    omega
  · rcases hfull' with hfull' | rfl
    · have := hlog m' hfull' (Nat.le_mul_of_pos_left m' hm)
      omega
    · omega

/-- So is a product. -/
theorem canonical_mul {u v : UnpackedFloat} (hu : Canonical S u) (hv : Canonical S v) :
    Canonical S (UnpackedFloat.mul S u v) := by
  cases u with
  | notANumber => trivial
  | infinity => cases v <;> trivial
  | zero => cases v <;> trivial
  | finite s m e hm =>
      cases v with
      | finite s' m' e' hm' =>
          rw [UnpackedFloat.mul, ← round_of_le (mul_le_targetExponent hm hm' hu hv)]
          exact canonical_round (by positivity)
      | _ => trivial

/-! ## Signs

A result is given the sign of the exact value, and an exact zero the positive one, except where both
operands are negative zeros. -/

/-- A number that is not negative. -/
def Nonneg : UnpackedFloat → Prop
  | .infinity .positive | .zero _ | .finite .positive .. => True
  | _ => False

/-- Not negative means a value that is at least zero; a negative zero is not negative. -/
theorem nonneg_iff {u : UnpackedFloat} : Nonneg u ↔ ∃ a, value u = some a ∧ fin 0 ≤ a := by
  cases u with
  | notANumber => exact iff_of_false id nofun
  | infinity s =>
      cases s
      case positive => exact iff_of_true trivial ⟨⊤, rfl, le_top⟩
      case negative =>
        refine iff_of_false id fun ⟨a, ha, hle⟩ => ?_
        obtain rfl := Option.some.inj ha
        exact absurd (bot_lt_fin 0) (not_lt.mpr hle)
  | zero s => exact iff_of_true trivial ⟨fin 0, rfl, le_rfl⟩
  | finite s m e hm =>
      have hpos := magnitude_pos hm e
      rw [value_finite]
      cases s
      case positive =>
        exact iff_of_true trivial ⟨_, rfl, (fin_lt_fin.mpr hpos).le⟩
      case negative =>
        refine iff_of_false id fun ⟨a, ha, hle⟩ => ?_
        obtain rfl := Option.some.inj ha
        exact absurd (fin_lt_fin.mpr (neg_lt_zero.mpr hpos)) (not_lt.mpr hle)

/-- Rounding with the positive sign makes nothing negative. -/
theorem nonneg_round {m : Nat} {e : Int} (hm : 0 < m) :
    Nonneg (UnpackedFloat.round S .positive m e) := by
  rcases round_cases S .positive hm e with hzero | ⟨m', e', hm', hfinite⟩
  · rw [hzero]
    trivial
  · rw [hfinite]
    trivial

/-- Nor does an overflow. -/
theorem nonneg_overflow {u : UnpackedFloat} (h : Nonneg u) : Nonneg (overflow S u) := by
  cases u with
  | finite s m e hm =>
      cases s
      case positive =>
        rw [overflow]
        split <;> trivial
      case negative => exact absurd h id
  | _ => exact h

theorem value_overflow_ne_zero {u : UnpackedFloat} (h : ∀ s, u ≠ .zero s) :
    value (overflow S u) ≠ some (fin 0) := by
  cases u with
  | notANumber => exact nofun
  | infinity s => exact value_infinity_ne s 0
  | zero s => exact absurd rfl (h s)
  | finite s m e hm =>
      have hpos := magnitude_pos hm e
      rw [overflow]
      split
      · exact value_infinity_ne s 0
      · rw [value_finite]
        intro hzero
        have hsigned := fin_inj hzero
        cases s
        case positive => exact hpos.ne' hsigned
        case negative => exact hpos.ne' (neg_eq_zero.mp hsigned)

/-- A product of numbers that are not negative, unless one is zero and the other infinite. -/
theorem nonneg_mul {u v : UnpackedFloat} (hu : Canonical S u) (hv : Canonical S v) (h : Nonneg u)
    (h' : Nonneg v) (hleft : value u ≠ some ⊤ ∨ value v ≠ some (fin 0))
    (hright : value u ≠ some (fin 0) ∨ value v ≠ some ⊤) : Nonneg (UnpackedFloat.mul S u v) := by
  cases u with
  | notANumber => exact absurd h id
  | infinity s =>
      cases s
      case negative => exact absurd h id
      case positive =>
        cases v with
        | notANumber => exact absurd h' id
        | zero s' => exact absurd rfl (hleft.resolve_left fun hne => hne rfl)
        | infinity s' => cases s' <;> exact h'
        | finite s' m' e' hm' => cases s' <;> exact h'
  | zero s =>
      cases v with
      | notANumber => exact absurd h' id
      | zero s' => trivial
      | infinity s' =>
          cases s'
          case negative => exact absurd h' id
          case positive => exact absurd rfl (hright.resolve_left fun hne => hne rfl)
      | finite s' m' e' hm' => trivial
  | finite s m e hm =>
      cases s
      case negative => exact absurd h id
      case positive =>
        cases v with
        | notANumber => exact absurd h' id
        | zero s' => trivial
        | infinity s' => cases s' <;> exact h'
        | finite s' m' e' hm' =>
            cases s'
            case negative => exact absurd h' id
            case positive =>
              rw [UnpackedFloat.mul, ← round_of_le (mul_le_targetExponent hm hm' hu hv)]
              exact nonneg_round (by positivity)

/-- The mantissa of a float at a lower exponent, with its sign. -/
def atExponent (s : Sign) (m : Nat) (e t : Int) : Int := s.apply (m <<< (e - t).toNat : Nat)

theorem atExponent_value {s : Sign} {m : Nat} {e t : Int} (h : t ≤ e) :
    (atExponent s m e t : Rat) * 2 ^ t = signed s (magnitude m e) := by
  obtain ⟨k, rfl⟩ : ∃ k : Nat, e = t + k := ⟨(e - t).toNat, by omega⟩
  have hk : (t + (k : Int) - t).toNat = k := by omega
  rw [← magnitude_mul_pow, atExponent, hk, Nat.shiftLeft_eq]
  cases s
  case positive => rfl
  case negative => simp [Sign.apply, signed, magnitude]

/-- A sum of finite numbers is the normalised exact sum. -/
theorem add_finite {s s' : Sign} {m m' : Nat} {e e' : Int} (hm : 0 < m) (hm' : 0 < m') :
    UnpackedFloat.add S (.finite s m e hm) (.finite s' m' e' hm') =
      UnpackedFloat.normalize S
        (atExponent s m e (min e e') + atExponent s' m' e' (min e e')) (min e e')
        .positive := rfl

/-- And a difference the normalised exact difference. -/
theorem sub_finite {s s' : Sign} {m m' : Nat} {e e' : Int} (hm : 0 < m) (hm' : 0 < m') :
    UnpackedFloat.sub S (.finite s m e hm) (.finite s' m' e' hm') =
      UnpackedFloat.normalize S
        (atExponent s m e (min e e') - atExponent s' m' e' (min e e')) (min e e')
        .positive := rfl

/-- An exact result that is not negative is normalised to one that is not. -/
theorem nonneg_normalize {n e : Int} (h : 0 ≤ n) :
    Nonneg (UnpackedFloat.normalize S n e .positive) := by
  unfold UnpackedFloat.normalize
  split
  · next hlt => exact absurd (compare_lt_iff_lt.mp hlt) (not_lt.mpr h)
  · trivial
  · next hgt =>
      rw [compare_gt_iff_gt] at hgt
      exact nonneg_round (by omega)

/-- A positive mantissa from the least exponent up is not rounded to zero. -/
theorem normalize_ne_zero {n e : Int} {z s : Sign} (h : 0 < n) (he : S.minExponent ≤ e) :
    UnpackedFloat.normalize S n e z ≠ .zero s := by
  unfold UnpackedFloat.normalize
  split
  · next hlt => exact absurd (compare_lt_iff_lt.mp hlt) (not_lt.mpr h.le)
  · next heq => exact absurd (compare_eq_iff_eq.mp heq) h.ne'
  · exact round_ne_zero (by omega) he

/-- Sums of numbers that are not negative are not negative. -/
theorem nonneg_add {u v : UnpackedFloat} (h : Nonneg u) (h' : Nonneg v) :
    Nonneg (UnpackedFloat.add S u v) := by
  cases u with
  | notANumber => exact absurd h id
  | infinity s =>
      cases s
      case negative => exact absurd h id
      case positive =>
        cases v with
        | notANumber => exact absurd h' id
        | infinity s' => cases s' <;> exact h'
        | _ => trivial
  | zero s =>
      cases v with
      | notANumber => exact absurd h' id
      | zero s' => cases s <;> cases s' <;> trivial
      | infinity s' => exact h'
      | finite s' m' e' hm' => exact h'
  | finite s m e hm =>
      cases v with
      | notANumber => exact absurd h' id
      | zero s' => exact h
      | infinity s' => exact h'
      | finite s' m' e' hm' =>
          cases s
          case negative => exact absurd h id
          case positive =>
            cases s'
            case negative => exact absurd h' id
            case positive =>
              rw [add_finite]
              exact nonneg_normalize (add_nonneg (Int.natCast_nonneg _) (Int.natCast_nonneg _))

/-- A finite float that is not negative has the positive sign. -/
theorem sign_eq_positive {s : Sign} {m : Nat} {e : Int} (hm : 0 < m)
    (h : 0 ≤ signed s (magnitude m e)) : s = .positive := by
  have hpos := magnitude_pos hm e
  cases s
  case positive => rfl
  case negative =>
    rw [signed] at h
    linarith

/-- The difference of two finite numbers, the greater first, is not negative, and zero only when they
are equal. -/
theorem nonneg_sub {u v : UnpackedFloat} (hu : Canonical S u) (hv : Canonical S v) {p q : Rat}
    (hp : value u = some (fin p)) (hq : value v = some (fin q)) (hle : q ≤ p) :
    Nonneg (UnpackedFloat.sub S u v) ∧ (q < p → ∀ s, UnpackedFloat.sub S u v ≠ .zero s) := by
  cases u with
  | notANumber => cases hp
  | infinity s => exact absurd hp (value_infinity_ne s p)
  | zero s =>
      obtain rfl := fin_inj hp
      cases v with
      | notANumber => cases hq
      | infinity s' => exact absurd hq (value_infinity_ne s' q)
      | zero s' =>
          obtain rfl := fin_inj hq
          refine ⟨?_, fun hlt => absurd hlt (lt_irrefl _)⟩
          cases s <;> cases s' <;> trivial
      | finite s' m' e' hm' =>
          rw [value_finite] at hq
          obtain rfl := fin_inj hq
          have hpos := magnitude_pos hm' e'
          cases s'
          case negative => exact ⟨trivial, fun _ _ heq => by cases heq⟩
          case positive =>
            rw [signed] at hle
            linarith
  | finite s m e hm =>
      rw [value_finite] at hp
      obtain rfl := fin_inj hp
      cases v with
      | notANumber => cases hq
      | infinity s' => exact absurd hq (value_infinity_ne s' q)
      | zero s' =>
          obtain rfl := fin_inj hq
          obtain rfl := sign_eq_positive hm hle
          exact ⟨trivial, fun _ _ heq => by cases heq⟩
      | finite s' m' e' hm' =>
          rw [value_finite] at hq
          obtain rfl := fin_inj hq
          -- at the lower exponent the difference is one of integers
          have hpow : (0 : Rat) < 2 ^ min e e' := zpow_pos two_pos _
          rw [← atExponent_value (min_le_left e e'), ← atExponent_value (min_le_right e e')] at hle
          rw [← atExponent_value (min_le_left e e'), ← atExponent_value (min_le_right e e'),
            mul_lt_mul_iff_left₀ hpow, Int.cast_lt, sub_finite]
          rw [mul_le_mul_iff_left₀ hpow, Int.cast_le] at hle
          refine ⟨nonneg_normalize (by omega), fun hlt s => normalize_ne_zero (by omega) ?_⟩
          exact le_min hu.2.1 hv.2.1

/-! ## Small integers

An integer below two to the width of the mantissa is represented exactly, so arithmetic on such
integers is exact as long as the results stay among them. -/

/-- The format has room for the integers that its mantissa holds. -/
structure HoldsIntegers (S : Format) : Prop where
  exponentBits : 2 ≤ S.exponentBits
  mantissaBits : S.mantissaBitsWithoutImplicit ≤ S.exponentBias

/-- A positive integer of few enough bits is represented. -/
theorem exists_full_natCast (hS : HoldsIntegers S) {n : Nat} (hn : 0 < n)
    (hlt : n < 2 ^ S.mantissaBits) : ∃ m e, 0 < m ∧ Full S m e ∧ magnitude m e = n ∧ e ≤ 0 := by
  have hlow := Nat.log2_self_le hn.ne'
  have hhigh := Nat.lt_log2_self (n := n)
  have hbits : n.log2 < S.mantissaBits := (Nat.log2_lt hn.ne').mpr hlt
  rw [Format.mantissaBits] at hbits
  obtain ⟨k, hk⟩ : ∃ k : Nat, S.mantissaBitsWithoutImplicit = n.log2 + k :=
    ⟨S.mantissaBitsWithoutImplicit - n.log2, by omega⟩
  have hbias : 1 ≤ S.exponentBias := S.hm.trans_le hS.mantissaBits
  refine ⟨n * 2 ^ k, -k, by positivity, ⟨?_, ?_, .inl ?_⟩, ?_, by omega⟩
  · rw [Format.mantissaBits, hk, ← Nat.add_assoc, Nat.pow_add, Nat.add_comm 1]
    exact Nat.mul_lt_mul_of_pos_right hhigh (by positivity)
  · rw [minExponent_eq]
    omega
  · rw [hk, Nat.pow_add]
    exact Nat.mul_le_mul_right _ hlow
  · rw [magnitude_mul_pow, Int.add_left_neg, magnitude_natCast]

/-- The codes of the exponent, counted by its bias. -/
theorem pow_exponentBits (S : Format) : 2 ^ S.exponentBits = 2 * S.exponentBias + 2 := by
  obtain ⟨k, hk⟩ : ∃ k, S.exponentBits = k + 1 := ⟨S.exponentBits - 1, by have := S.he; omega⟩
  have hpos : 1 ≤ 2 ^ k := Nat.one_le_two_pow
  rw [Format.exponentBias, hk, Nat.add_sub_cancel, Nat.pow_succ]
  omega

/-- An integer that is represented has room below the greatest exponent. -/
theorem overflow_of_nonpos (hS : HoldsIntegers S) {s : Sign} {m : Nat} {e : Int} (hm : 0 < m)
    (he : e ≤ 0) : overflow S (.finite s m e hm) = .finite s m e hm := by
  have hcapacity := pow_exponentBits S
  have hroom := hS.mantissaBits
  apply if_neg
  unfold biased
  omega

/-- **Small integers are exact.** -/
theorem value_round_natCast (hS : HoldsIntegers S) {m : Nat} {e : Int} (hm : 0 < m) {n : Nat}
    (h : magnitude m e = n) (hlt : n < 2 ^ S.mantissaBits) :
    value (overflow S (UnpackedFloat.round S .positive m e)) = some (fin n) := by
  have hn : 0 < n := by
    have hpos := magnitude_pos hm e
    rw [h] at hpos
    exact_mod_cast hpos
  obtain ⟨m', e', hm', hfull, hvalue, he'⟩ := exists_full_natCast hS hn hlt
  rw [round_congr hm hm' (h.trans hvalue.symm), hfull.round_eq hm', overflow_of_nonpos hS hm' he',
    value_finite, signed, hvalue]

/-- A small integer has itself as its value. -/
theorem value_ofNat (hS : HoldsIntegers S) {n : Nat} (hlt : n < 2 ^ S.mantissaBits) :
    value (overflow S (UnpackedFloat.ofNat S n)) = some (fin n) := by
  rcases Nat.eq_zero_or_pos n with rfl | hn
  · rfl
  · have hpos : compare (n : Int) 0 = .gt := compare_gt_iff_gt.mpr (by omega)
    rw [UnpackedFloat.ofNat, UnpackedFloat.ofInt, UnpackedFloat.normalize, hpos]
    exact value_round_natCast hS hn (magnitude_natCast n) hlt

/-- The finished float is finite when the exponent is not too large. -/
theorem exists_value_finish {s : Sign} {r : Nat} {e : Int} (hle : r ≤ 2 ^ S.mantissaBits)
    (hmin : S.minExponent ≤ e) (hroom : biased S (e + 1) + 1 < 2 ^ S.exponentBits) :
    ∃ q, value (overflow S (finish S s r e)) = some (fin q) := by
  rcases Nat.lt_or_eq_of_le hle with hlt | rfl
  · have hroom' : ¬2 ^ S.exponentBits ≤ biased S e + 1 := by
      unfold biased at hroom ⊢
      omega
    rw [finish_of_lt hlt hmin]
    split
    · exact ⟨0, rfl⟩
    · exact ⟨_, by rw [overflow, if_neg hroom', value_finite]⟩
  · rw [finish_pow hmin, overflow, if_neg (not_le.mpr hroom)]
    exact ⟨_, value_finite ..⟩

/-- What is not too large is rounded to a finite float. -/
theorem exists_value_round (hbias : 0 < S.exponentBias) {s : Sign} {m : Nat} {e : Int}
    (hm : 0 < m) (hlog : m.log2 + e < S.exponentBias) :
    ∃ q, value (overflow S (UnpackedFloat.round S s m e)) = some (fin q) := by
  rw [round_eq hm rfl]
  generalize ht : S.targetExponent (totalExponent m e) = t
  obtain ⟨hbits, hmin, -⟩ := moved_bounds hm ht
  have hbounds := roundedMantissa_bounds (moved m e t)
  refine exists_value_finish (by omega) hmin ?_
  have hcapacity := pow_exponentBits S
  have hmin' := minExponent_eq S
  unfold Format.targetExponent totalExponent Format.mantissaBits at ht
  unfold biased
  omega

/-- The leading bit of a magnitude. -/
theorem log2_add_lt {m k : Nat} {e : Int} (hm : 0 < m) (h : magnitude m e < 2 ^ k) :
    m.log2 + e < k := by
  have hlow : (2 : Rat) ^ m.log2 ≤ m := by exact_mod_cast Nat.log2_self_le hm.ne'
  have hpow : (2 : Rat) ^ ((m.log2 : Int) + e) < 2 ^ (k : Int) := by
    rw [zpow_add₀ two_ne_zero, zpow_natCast, zpow_natCast]
    exact (mul_le_mul_of_nonneg_right hlow (zpow_pos two_pos e).le).trans_lt h
  exact (zpow_lt_zpow_iff_right₀ one_lt_two).mp hpow

/-- An integer that is not too large is finite. -/
theorem exists_value_ofNat {n : Nat} (hlt : n < 2 ^ S.exponentBias) :
    ∃ q, value (overflow S (UnpackedFloat.ofNat S n)) = some (fin q) := by
  rcases Nat.eq_zero_or_pos n with rfl | hn
  · exact ⟨0, rfl⟩
  · have hpos : compare (n : Int) 0 = .gt := compare_gt_iff_gt.mpr (by omega)
    have hlog : n.log2 < S.exponentBias := (Nat.log2_lt hn.ne').mpr hlt
    rw [UnpackedFloat.ofNat, UnpackedFloat.ofInt, UnpackedFloat.normalize, hpos]
    dsimp only
    rw [Int.toNat_natCast]
    exact exists_value_round (by omega) hn (by omega)

/-- A positive mantissa at an exponent, the two not too large, is finite. -/
theorem exists_value_normalize (hbias : 0 < S.exponentBias) {n e : Int} (hn : 0 ≤ n)
    (hlt : (n : Rat) * 2 ^ e < 2 ^ S.exponentBias) :
    ∃ q, value (overflow S (UnpackedFloat.normalize S n e .positive)) = some (fin q) := by
  rcases hn.eq_or_lt with rfl | hpos
  · exact ⟨0, rfl⟩
  · obtain ⟨m, rfl⟩ : ∃ m : Nat, n = m := ⟨n.toNat, by omega⟩
    have hm : 0 < m := by omega
    rw [UnpackedFloat.normalize, compare_gt_iff_gt.mpr hpos]
    exact exists_value_round hbias hm (log2_add_lt hm (by exact_mod_cast hlt))

/-- The difference of two positive numbers, the greater first and no more than 1, is finite. -/
theorem exists_value_sub (hbias : 0 < S.exponentBias) {u v : UnpackedFloat} {p q : Rat}
    (hp : value u = some (fin p)) (hq : value v = some (fin q)) (hpos : 0 < q) (hle : q ≤ p)
    (hone : p ≤ 1) :
    ∃ r, value (overflow S (UnpackedFloat.sub S u v)) = some (fin r) := by
  cases u with
  | notANumber => cases hp
  | infinity s => exact absurd hp (value_infinity_ne s p)
  | zero s =>
      obtain rfl := fin_inj hp
      exact absurd hpos (not_lt.mpr hle)
  | finite s m e hm =>
      cases v with
      | notANumber => cases hq
      | infinity s' => exact absurd hq (value_infinity_ne s' q)
      | zero s' =>
          obtain rfl := fin_inj hq
          exact absurd hpos (lt_irrefl _)
      | finite s' m' e' hm' =>
          rw [value_finite] at hp hq
          obtain rfl := fin_inj hp
          obtain rfl := fin_inj hq
          have hpow : (0 : Rat) < 2 ^ min e e' := zpow_pos two_pos _
          have hdifference : (((atExponent s m e (min e e') - atExponent s' m' e' (min e e') : Int)) :
              Rat) * 2 ^ min e e' = signed s (magnitude m e) - signed s' (magnitude m' e') := by
            rw [Int.cast_sub, sub_mul, atExponent_value (min_le_left e e'),
              atExponent_value (min_le_right e e')]
          have hbound : (1 : Rat) ≤ 2 ^ S.exponentBias := one_le_pow₀ one_le_two
          -- the exact difference lies between 0 and 1, far from overflow
          rw [sub_finite]
          apply exists_value_normalize hbias
          · have hnonneg := sub_nonneg.mpr hle
            rw [← hdifference] at hnonneg
            exact_mod_cast nonneg_of_mul_nonneg_left hnonneg hpow
          · rw [hdifference]
            linarith

/-- The product of two finite floats is a number. -/
theorem value_mul_ne_none {u v : UnpackedFloat} {p q : Rat} (hp : value u = some (fin p))
    (hq : value v = some (fin q)) : UnpackedFloat.mul S u v ≠ .notANumber := by
  cases u with
  | notANumber => cases hp
  | infinity s => exact absurd hp (value_infinity_ne s p)
  | zero s =>
      cases v with
      | notANumber => cases hq
      | infinity s' => exact absurd hq (value_infinity_ne s' q)
      | _ => exact nofun
  | finite s m e hm =>
      cases v with
      | notANumber => cases hq
      | infinity s' => exact absurd hq (value_infinity_ne s' q)
      | zero s' => exact nofun
      | finite s' m' e' hm' =>
          rw [UnpackedFloat.mul, roundWithAccuracy_eq]
          rcases finish_cases S (s * s') _ _ with hzero | ⟨m₁, e₁, hm₁, hfinite⟩
          · rw [hzero]
            exact nofun
          · rw [hfinite]
            exact nofun

/-- A quotient of finite numbers that are not zero is a number. -/
theorem div_finite_ne_notANumber {s s' : Sign} {m m' : Nat} {e e' : Int} (hm : 0 < m)
    (hm' : 0 < m') :
    UnpackedFloat.div S (.finite s m e hm) (.finite s' m' e' hm') ≠ .notANumber := by
  unfold UnpackedFloat.div
  dsimp only
  rw [roundWithAccuracy_eq]
  rcases finish_cases S (s / s') _ _ with hzero | ⟨m₁, e₁, hm₁, hfinite⟩
  · rw [hzero]
    exact nofun
  · rw [hfinite]
    exact nofun

/-- The float nearest to a rational number. -/
def ofRat (S : Format) (q : Rat) : UnpackedFloat :=
  if h : q.num = 0 then .zero .positive
  else
    UnpackedFloat.div S
      (.finite (if 0 < q.num then .positive else .negative) q.num.natAbs 0 (Int.natAbs_pos.mpr h))
      (.finite .positive q.den 0 q.den_pos)

/-- Rounding a rational gives a number. -/
theorem ofRat_ne_notANumber (S : Format) (q : Rat) : ofRat S q ≠ .notANumber := by
  unfold ofRat
  split
  · exact nofun
  · exact div_finite_ne_notANumber _ _

/-- Magnitudes multiply. -/
theorem magnitude_mul (m m' : Nat) (e e' : Int) :
    magnitude (m * m') (e + e') = magnitude m e * magnitude m' e' := by
  unfold magnitude
  rw [zpow_add₀ two_ne_zero]
  push_cast
  ring

/-- **The product of floats that hold integers**, if it is small. -/
theorem value_mul_natCast (hS : HoldsIntegers S) {u v : UnpackedFloat} (hu : Canonical S u)
    (hv : Canonical S v) {a b : Nat} (ha : value u = some (fin a)) (hb : value v = some (fin b))
    (hlt : a * b < 2 ^ S.mantissaBits) :
    value (overflow S (UnpackedFloat.mul S u v)) = some (fin (a * b : Nat)) := by
  cases u with
  | notANumber => cases ha
  | infinity s => exact absurd ha (value_infinity_ne s _)
  | zero s =>
      have hzero : a = 0 := by exact_mod_cast (fin_inj ha).symm
      cases v with
      | notANumber => cases hb
      | infinity s' => exact absurd hb (value_infinity_ne s' _)
      | _ =>
          rw [hzero, Nat.zero_mul]
          rfl
  | finite s m e hm =>
      rw [value_finite] at ha
      have hleft := fin_inj ha
      obtain rfl := sign_eq_positive hm (hleft ▸ Nat.cast_nonneg a)
      cases v with
      | notANumber => cases hb
      | infinity s' => exact absurd hb (value_infinity_ne s' _)
      | zero s' =>
          have hzero : b = 0 := by exact_mod_cast (fin_inj hb).symm
          rw [hzero, Nat.mul_zero]
          rfl
      | finite s' m' e' hm' =>
          rw [value_finite] at hb
          have hright := fin_inj hb
          obtain rfl := sign_eq_positive hm' (hright ▸ Nat.cast_nonneg b)
          rw [UnpackedFloat.mul, ← round_of_le (mul_le_targetExponent hm hm' hu hv)]
          apply value_round_natCast hS (by positivity) _ hlt
          rw [magnitude_mul, Nat.cast_mul]
          exact congrArg₂ _ hleft hright

/-! ## Conversions

`float` to `double` is exact and back again is the identity; an integer goes to either format by one
rounding. -/

/-- A float rounded to another format. -/
def convert (S : Format) : UnpackedFloat → UnpackedFloat
  | .finite s m e _ => UnpackedFloat.round S s m e
  | u => u

/-- What is converted is canonical. -/
theorem canonical_convert (S : Format) (u : UnpackedFloat) : Canonical S (convert S u) := by
  cases u with
  | finite s m e hm => exact canonical_round hm
  | _ => trivial

/-- The second format represents the floats of the first. -/
structure Wider (S T : Format) : Prop where
  mantissaBits : S.mantissaBitsWithoutImplicit ≤ T.mantissaBitsWithoutImplicit
  least : T.minExponent + T.mantissaBitsWithoutImplicit ≤ S.minExponent
  greatest : 2 ^ S.exponentBits + T.exponentBias + T.mantissaBitsWithoutImplicit ≤
    2 ^ T.exponentBits + S.exponentBias + S.mantissaBitsWithoutImplicit

/-- A magnitude of the narrower format in the wider one. -/
theorem Wider.exists_full {T : Format} (hT : Wider S T) {m : Nat} {e : Int} (hm : 0 < m)
    (h : Full S m e) : ∃ m' e', 0 < m' ∧ Full T m' e' ∧ magnitude m' e' = magnitude m e ∧ e' ≤ e := by
  have hlow := Nat.log2_self_le hm.ne'
  have hhigh := Nat.lt_log2_self (n := m)
  have hbits := h.log2_lt hm
  have hwide := hT.mantissaBits
  have hleast := hT.least
  have hmin := h.2.1
  rw [Format.mantissaBits] at hbits
  obtain ⟨k, hk⟩ : ∃ k : Nat, T.mantissaBitsWithoutImplicit = m.log2 + k :=
    ⟨T.mantissaBitsWithoutImplicit - m.log2, by omega⟩
  refine ⟨m * 2 ^ k, e - k, by positivity, ⟨?_, by omega, .inl ?_⟩, ?_, by omega⟩
  · rw [Format.mantissaBits, hk, ← Nat.add_assoc, Nat.pow_add, Nat.add_comm 1]
    exact Nat.mul_lt_mul_of_pos_right hhigh (by positivity)
  · rw [hk, Nat.pow_add]
    exact Nat.mul_le_mul_right _ hlow
  · rw [magnitude_mul_pow, Int.sub_add_cancel]

/-- **A float survives the way to a wider format and back.** -/
theorem Wider.convert_convert {T : Format} (hT : Wider S T) {u : UnpackedFloat}
    (hu : Canonical S u) (hsmall : overflow S u = u) :
    convert S (overflow T (convert T u)) = u := by
  cases u with
  | finite s m e hm =>
      obtain ⟨m', e', hm', hfull, hvalue, hle⟩ := hT.exists_full hm hu
      have hfits : ¬2 ^ S.exponentBits ≤ biased S e + 1 := by
        intro hlarge
        rw [overflow, if_pos hlarge] at hsmall
        cases hsmall
      have hfits' : ¬2 ^ T.exponentBits ≤ biased T e' + 1 := by
        have hgreatest := hT.greatest
        have hmin := hfull.2.1
        have hmin' := hu.2.1
        rw [minExponent_eq] at hmin hmin'
        unfold biased at hfits ⊢
        omega
      rw [convert, round_congr hm hm' hvalue.symm, hfull.round_eq hm', overflow, if_neg hfits',
        convert, round_congr hm' hm hvalue]
      exact Full.round_eq hu hm
  | _ => rfl

/-- An integer is rounded as a magnitude with a sign. -/
theorem ofInt_apply (s : Sign) {n : Nat} (hn : 0 < n) :
    UnpackedFloat.ofInt S (s.apply n) = UnpackedFloat.round S s n 0 := by
  unfold UnpackedFloat.ofInt UnpackedFloat.normalize
  cases s
  case positive =>
    have hpos : compare (Sign.positive.apply n) 0 = .gt :=
      compare_gt_iff_gt.mpr (by simp [Sign.apply, hn])
    rw [hpos]
    rfl
  case negative =>
    have hneg : compare (Sign.negative.apply n) 0 = .lt :=
      compare_lt_iff_lt.mpr (by simp [Sign.apply, hn])
    rw [hneg]
    simp [Sign.apply]

/-- The integer a float holds; the negative zero is none. -/
def integer : UnpackedFloat → Option Int
  | .zero .positive => some 0
  | .finite s m e _ =>
      if 0 ≤ e then some (s.apply (m * 2 ^ e.toNat : Nat))
      else if m % 2 ^ (-e).toNat = 0 then some (s.apply (m / 2 ^ (-e).toNat : Nat))
      else none
  | _ => none

/-- The integer of a finite float. -/
theorem integer_finite {s : Sign} {m : Nat} {e : Int} {hm : 0 < m} {n : Int}
    (h : integer (.finite s m e hm) = some n) :
    ∃ k : Nat, 0 < k ∧ n = s.apply k ∧ magnitude m e = magnitude k 0 := by
  unfold integer at h
  dsimp only at h
  split_ifs at h with he hdvd
  · obtain rfl := Option.some.inj h
    refine ⟨_, by positivity, rfl, ?_⟩
    rw [magnitude_mul_pow, Int.zero_add, Int.toNat_of_nonneg he]
  · obtain rfl := Option.some.inj h
    obtain ⟨k, hk⟩ := Nat.dvd_of_mod_eq_zero hdvd
    have hdiv : m / 2 ^ (-e).toNat = k := by
      rw [hk, Nat.mul_div_cancel_left _ (by positivity)]
    have hpos : 0 < k := Nat.pos_of_ne_zero (by rintro rfl; omega)
    refine ⟨k, hpos, by rw [hdiv], ?_⟩
    have hzero : e + (-e).toNat = 0 := by omega
    rw [hk, Nat.mul_comm, magnitude_mul_pow, hzero]

/-- **An integer is converted as an integer.** -/
theorem convert_of_integer {u : UnpackedFloat} {n : Int} (h : integer u = some n) :
    convert S u = UnpackedFloat.ofInt S n := by
  cases u with
  | notANumber => cases h
  | infinity => cases h
  | zero s =>
      cases s
      case negative => cases h
      case positive =>
        obtain rfl := Option.some.inj h
        rfl
  | finite s m e hm =>
      obtain ⟨k, hk, rfl, hvalue⟩ := integer_finite h
      rw [convert, ofInt_apply s hk, round_congr hm hk hvalue]

end Ieee
