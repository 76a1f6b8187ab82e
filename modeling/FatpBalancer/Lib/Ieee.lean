/-
# IEEE floats: values, comparisons and bit patterns

Facts about the model of binary floating point that Lean's own floats are built on.  An unpacked
float is given its value, a rational number or one of two infinities, and none for what is not a
number; on canonical floats the comparisons are those of the values.  Packing a canonical float into
its format and unpacking it again loses nothing but exponents that are too large, which become
infinite.

* `value` and `Canonical` are the two notions: what a float stands for, and the form in which the
  format has it.  `compare_eq` is their meeting: canonical floats are in the order of their values,
  with the zeros equal and what is not a number apart.
* `unpack_pack` and `unpack_cases` go between bit patterns and unpacked floats, in both directions.

Rounding is in `Lib.IeeeRounding`.
-/
import Mathlib

namespace Ieee

open Float.Model

open Float.Model.UnpackedFloat

/-! ## Values

Magnitudes are rationals, so that two mantissas at different exponents can be compared at all. -/

/-- The rationals with two infinities. -/
abbrev Extended : Type := WithBot (WithTop Rat)

/-- The value of a mantissa at an exponent. -/
def magnitude (m : Nat) (e : Int) : Rat := m * 2 ^ e

/-- The number with a sign and a magnitude. -/
def signed : Sign → Rat → Rat
  | .positive, q => q
  | .negative, q => -q

/-- A finite value. -/
abbrev fin (q : Rat) : Extended := ((q : WithTop Rat) : WithBot (WithTop Rat))

/-- What a float stands for; `none` for what is not a number. -/
def value : UnpackedFloat → Option Extended
  | .notANumber => none
  | .infinity .positive => some ⊤
  | .infinity .negative => some ⊥
  | .zero _ => some (fin 0)
  | .finite s m e _ => some (fin (signed s (magnitude m e)))

theorem magnitude_pos {m : Nat} (hm : 0 < m) (e : Int) : 0 < magnitude m e :=
  mul_pos (Nat.cast_pos.mpr hm) (zpow_pos two_pos e)

/-- Moving the point. -/
theorem magnitude_mul_pow (m k : Nat) (e : Int) : magnitude (m * 2 ^ k) e = magnitude m (e + k) := by
  unfold magnitude
  rw [zpow_add₀ two_ne_zero, zpow_natCast]
  push_cast
  ring

theorem magnitude_natCast (n : Nat) : magnitude n 0 = n := by
  rw [magnitude, zpow_zero, mul_one]

theorem magnitude_lt_iff {m m' : Nat} {e : Int} : magnitude m e < magnitude m' e ↔ m < m' := by
  unfold magnitude
  rw [mul_lt_mul_iff_left₀ (zpow_pos two_pos e), Nat.cast_lt]

theorem magnitude_inj {m m' : Nat} {e : Int} (h : magnitude m e = magnitude m' e) : m = m' := by
  have hlt : ∀ k l, ¬magnitude k e < magnitude l e ↔ ¬k < l := fun _ _ =>
    not_congr magnitude_lt_iff
  have hle := (hlt m m').mp h.not_lt
  have hge := (hlt m' m).mp h.symm.not_lt
  omega

/-! ## Canonical floats

Each magnitude has one canonical form, and the exponents of two canonical floats are in the order of
their magnitudes unless they are equal. -/

variable {S : Format}

/-- The mantissa has no more bits than the format, and no fewer unless the exponent is the least. -/
def Full (S : Format) (m : Nat) (e : Int) : Prop :=
  m < 2 ^ S.mantissaBits ∧ S.minExponent ≤ e ∧
    (2 ^ S.mantissaBitsWithoutImplicit ≤ m ∨ e = S.minExponent)

/-- A float as the format represents it, up to exponents that are too large. -/
def Canonical (S : Format) : UnpackedFloat → Prop
  | .finite _ m e _ => Full S m e
  | _ => True

theorem pow_mantissaBits (S : Format) :
    2 ^ S.mantissaBits = 2 * 2 ^ S.mantissaBitsWithoutImplicit := by
  rw [Format.mantissaBits, Nat.pow_add, Nat.pow_one]

/-- The least exponent by the bias. -/
theorem minExponent_eq (S : Format) :
    S.minExponent = 1 - (S.exponentBias + S.mantissaBitsWithoutImplicit) := by
  have hpos : 1 ≤ 2 ^ (S.exponentBits - 1) := Nat.one_le_two_pow
  rw [Format.minExponent, Format.mantissaBits, Format.exponentBias, Nat.cast_sub hpos]
  push_cast
  ring

/-- The higher of two exponents has the greater magnitude. -/
theorem Full.magnitude_lt {m m' : Nat} {e e' : Int} (h : Full S m e) (h' : Full S m' e')
    (hlt : e < e') : magnitude m e < magnitude m' e' := by
  obtain ⟨hm, hmin, -⟩ := h
  obtain ⟨-, -, hfull⟩ := h'
  have hfull' : 2 ^ S.mantissaBitsWithoutImplicit ≤ m' := hfull.resolve_right (by omega)
  obtain ⟨k, rfl⟩ : ∃ k : Nat, e' = e + (k + 1 : Nat) := ⟨(e' - e - 1).toNat, by omega⟩
  rw [← magnitude_mul_pow, magnitude_lt_iff]
  calc
    m < 2 * 2 ^ S.mantissaBitsWithoutImplicit := pow_mantissaBits S ▸ hm
    _ ≤ 2 * m' := Nat.mul_le_mul_left 2 hfull'
    _ = m' * 2 ^ 1 := by ring
    _ ≤ m' * 2 ^ (k + 1) := Nat.mul_le_mul_left m' (Nat.pow_le_pow_right two_pos (by omega))

/-- Magnitudes of full mantissas compare by the exponents first. -/
theorem Full.compare_eq {m m' : Nat} {e e' : Int} (h : Full S m e) (h' : Full S m' e') :
    (compare e e').then (compare m m') = compare (magnitude m e) (magnitude m' e') := by
  rcases lt_trichotomy e e' with hlt | rfl | hlt
  · rw [compare_lt_iff_lt.mpr hlt, compare_lt_iff_lt.mpr (h.magnitude_lt h' hlt)]
    rfl
  · rw [compare_eq_iff_eq.mpr rfl, Ordering.eq_then]
    rcases lt_trichotomy m m' with hlt | rfl | hlt
    · rw [compare_lt_iff_lt.mpr hlt, compare_lt_iff_lt.mpr (magnitude_lt_iff.mpr hlt)]
    · rw [compare_eq_iff_eq.mpr rfl, compare_eq_iff_eq.mpr rfl]
    · rw [compare_gt_iff_gt.mpr hlt, compare_gt_iff_gt.mpr (magnitude_lt_iff.mpr hlt)]
  · rw [compare_gt_iff_gt.mpr hlt, compare_gt_iff_gt.mpr (h'.magnitude_lt h hlt)]
    rfl

/-! ## Comparisons

The model compares signs first, then exponents, then mantissas. -/

theorem fin_lt_fin {p q : Rat} : fin p < fin q ↔ p < q := by
  rw [WithBot.coe_lt_coe, WithTop.coe_lt_coe]

theorem fin_le_fin {p q : Rat} : fin p ≤ fin q ↔ p ≤ q := by
  rw [WithBot.coe_le_coe, WithTop.coe_le_coe]

theorem fin_lt_top (q : Rat) : fin q < ⊤ := WithBot.coe_lt_coe.mpr (WithTop.coe_lt_top q)

theorem bot_lt_fin (q : Rat) : (⊥ : Extended) < fin q := WithBot.bot_lt_coe _

/-- What lies between two rationals is a rational. -/
theorem exists_fin {a : Extended} {p q : Rat} (hp : fin p ≤ a) (hq : a ≤ fin q) :
    ∃ r, a = fin r := by
  induction a using WithBot.recBotCoe with
  | bot => exact absurd (bot_lt_fin p) (not_lt.mpr hp)
  | coe a =>
      induction a using WithTop.recTopCoe with
      | top => exact absurd (fin_lt_top q) (not_lt.mpr hq)
      | coe r => exact ⟨r, rfl⟩

theorem compare_fin (p q : Rat) : compare (fin p) (fin q) = compare p q := by
  rcases lt_trichotomy p q with hlt | rfl | hlt
  · rw [compare_lt_iff_lt.mpr hlt, compare_lt_iff_lt.mpr (fin_lt_fin.mpr hlt)]
  · rw [compare_eq_iff_eq.mpr rfl, compare_eq_iff_eq.mpr rfl]
  · rw [compare_gt_iff_gt.mpr hlt, compare_gt_iff_gt.mpr (fin_lt_fin.mpr hlt)]

theorem compare_neg (p q : Rat) : compare (-p) (-q) = (compare p q).swap := by
  rcases lt_trichotomy p q with hlt | rfl | hlt
  · rw [compare_lt_iff_lt.mpr hlt, compare_gt_iff_gt.mpr (neg_lt_neg hlt)]
    rfl
  · rw [compare_eq_iff_eq.mpr rfl, compare_eq_iff_eq.mpr rfl]
    rfl
  · rw [compare_gt_iff_gt.mpr hlt, compare_lt_iff_lt.mpr (neg_lt_neg hlt)]
    rfl

theorem value_finite (s : Sign) (m : Nat) (e : Int) (hm : 0 < m) :
    value (.finite s m e hm) = some (fin (signed s (magnitude m e))) := by
  cases s <;> rfl

theorem value_zero (s : Sign) : value (.zero s) = some (fin 0) := rfl

theorem fin_inj {p q : Rat} (h : some (fin p) = some (fin q)) : p = q :=
  WithTop.coe_injective (WithBot.coe_injective (Option.some.inj h))

theorem value_infinity_ne (s : Sign) (q : Rat) : value (.infinity s) ≠ some (fin q) := by
  intro h
  cases s
  case positive => exact (fin_lt_top q).ne' (Option.some.inj h)
  case negative => exact (bot_lt_fin q).ne (Option.some.inj h)

/-- Two finite floats compare as their values. -/
theorem compare_finite {s s' : Sign} {m m' : Nat} {e e' : Int} {hm : 0 < m} {hm' : 0 < m'}
    (h : Full S m e) (h' : Full S m' e') :
    UnpackedFloat.compare (.finite s m e hm) (.finite s' m' e' hm') =
      some (compare (signed s (magnitude m e)) (signed s' (magnitude m' e'))) := by
  have hpos := magnitude_pos hm e
  have hpos' := magnitude_pos hm' e'
  cases s <;> cases s'
  case negative.negative =>
    rw [UnpackedFloat.compare, h.compare_eq h', signed, signed, compare_neg]
  case negative.positive =>
    rw [UnpackedFloat.compare, signed, signed, compare_lt_iff_lt.mpr (by linarith)]
  case positive.negative =>
    rw [UnpackedFloat.compare, signed, signed, compare_gt_iff_gt.mpr (by linarith)]
  case positive.positive => rw [UnpackedFloat.compare, h.compare_eq h', signed, signed]

/-- **Canonical floats compare as their values**, and what is not a number with nothing. -/
theorem compare_eq {u v : UnpackedFloat} (hu : Canonical S u) (hv : Canonical S v) :
    u.compare v = (value u).bind fun a => (value v).map (compare a) := by
  cases u with
  | notANumber => cases v <;> rfl
  | infinity s =>
      cases v with
      | notANumber => cases s <;> rfl
      | infinity s' => cases s <;> cases s' <;> rfl
      | zero s' => cases s <;> rfl
      | finite s' m' e' hm' => cases s <;> cases s' <;> rfl
  | zero s =>
      cases v with
      | notANumber => rfl
      | infinity s' => cases s' <;> rfl
      | zero s' => rfl
      | finite s' m' e' hm' =>
          have hpos := magnitude_pos hm' e'
          rw [value_finite, value_zero, Option.bind_some, Option.map_some, compare_fin]
          cases s'
          case negative => rw [signed, compare_gt_iff_gt.mpr (by linarith)]; rfl
          case positive => rw [signed, compare_lt_iff_lt.mpr hpos]; rfl
  | finite s m e hm =>
      have hpos := magnitude_pos hm e
      cases v with
      | notANumber => cases s <;> rfl
      | infinity s' => cases s <;> cases s' <;> rfl
      | zero s' =>
          rw [value_finite, value_zero, Option.bind_some, Option.map_some, compare_fin]
          cases s
          case negative => rw [signed, compare_lt_iff_lt.mpr (by linarith)]; rfl
          case positive => rw [signed, compare_gt_iff_gt.mpr hpos]; rfl
      | finite s' m' e' hm' =>
          rw [value_finite, value_finite, Option.bind_some, Option.map_some, compare_fin]
          exact compare_finite hu hv

theorem lt_iff {u v : UnpackedFloat} (hu : Canonical S u) (hv : Canonical S v) :
    u.lt v = true ↔ ∃ a b, value u = some a ∧ value v = some b ∧ a < b := by
  rw [UnpackedFloat.lt, compare_eq hu hv, beq_iff_eq]
  simp [Option.bind_eq_some_iff, compare_lt_iff_lt]

theorem beq_iff {u v : UnpackedFloat} (hu : Canonical S u) (hv : Canonical S v) :
    u.beq v = true ↔ ∃ a, value u = some a ∧ value v = some a := by
  rw [UnpackedFloat.beq, compare_eq hu hv, beq_iff_eq]
  simp [Option.bind_eq_some_iff]

/-! ## Bit patterns

Sign, exponent and mantissa, from the top. -/

/-- A pattern with the greatest exponent is infinite or not a number, one with exponent 0 is zero or
has no implicit bit, and the others have one. -/
theorem unpack_packComponents (s : Sign) (e : BitVec S.exponentBits)
    (m : BitVec S.mantissaBitsWithoutImplicit) :
    UnpackedFloat.unpack S (packComponents S s e m) =
      if e = -1#_ then if m = 0#_ then .infinity s else .notANumber
      else if e = 0#_ then
        if h : m = 0#_ then .zero s
        else .finite s m.toNat S.minExponent (by simpa [BitVec.toNat_pos, BitVec.pos_iff_ne_zero])
      else .finite s (2 ^ S.mantissaBitsWithoutImplicit + m.toNat)
        (e.toNat - (S.exponentBias + S.mantissaBitsWithoutImplicit))
        (Nat.add_pos_left (Nat.two_pow_pos _) _) := by
  have hmin : S.minExponent =
      ((0#S.exponentBits).toNat : Int) - (S.exponentBias + S.mantissaBitsWithoutImplicit) + 1 := by
    rw [minExponent_eq, BitVec.toNat_zero]
    omega
  have himplicit : (1#1 ++ m).toNat = 2 ^ S.mantissaBitsWithoutImplicit + m.toNat := by
    rw [BitVec.toNat_append, ← Nat.shiftLeft_add_eq_or_of_lt m.isLt, Nat.shiftLeft_eq]
    simp
  unfold UnpackedFloat.unpack
  simp only [unpackSign_packComponents, unpackExponent_packComponents,
    unpackMantissa_packComponents, Sign.ofBitVec_toBitVec, himplicit]
  split_ifs with h1 h2 h3 h4
  · rfl
  · rfl
  · rfl
  · subst h3
    simp only [hmin]
  · rfl

/-! ## Packing

The implicit bit of the mantissa is dropped, and the exponent biased; the least exponent stands for
subnormal floats too. -/

/-- The exponent as the format stores it. -/
def biased (S : Format) (e : Int) : Nat :=
  (e + S.exponentBias + S.mantissaBitsWithoutImplicit).toNat

/-- Exponents that are too large become infinite. -/
def overflow (S : Format) : UnpackedFloat → UnpackedFloat
  | .finite s m e hm =>
      if 2 ^ S.exponentBits ≤ biased S e + 1 then .infinity s else .finite s m e hm
  | u => u

theorem toNat_allOnes (w : Nat) : (-1#w).toNat = 2 ^ w - 1 := by
  rw [BitVec.neg_one_eq_allOnes, BitVec.toNat_allOnes]

theorem zero_ne_allOnes (S : Format) : 0#S.exponentBits ≠ -1#_ := by
  intro h
  have hnat := congrArg BitVec.toNat h
  have hpow : 2 ^ 1 ≤ 2 ^ S.exponentBits := Nat.pow_le_pow_right two_pos S.he
  rw [toNat_allOnes, BitVec.toNat_zero] at hnat
  omega

theorem ofNat_ne_zero {w n : Nat} (hpos : 0 < n) (hlt : n < 2 ^ w) : BitVec.ofNat w n ≠ 0#w := by
  intro h
  have hnat := congrArg BitVec.toNat h
  rw [BitVec.toNat_ofNat, Nat.mod_eq_of_lt hlt, BitVec.toNat_zero] at hnat
  omega

/-- A mantissa with all its bits has the leading one. -/
theorem log2_add_one_eq_iff {m : Nat} (hm : 0 < m) (hlt : m < 2 ^ S.mantissaBits) :
    m.log2 + 1 = S.mantissaBits ↔ 2 ^ S.mantissaBitsWithoutImplicit ≤ m := by
  have hhigh : m.log2 < S.mantissaBits := (Nat.log2_lt hm.ne').mpr hlt
  rw [← Nat.le_log2 hm.ne']
  rw [Format.mantissaBits] at hhigh ⊢
  omega

theorem pack_finite (s : Sign) {m : Nat} (e : Int) (hm : 0 < m) (hlt : m < 2 ^ S.mantissaBits) :
    UnpackedFloat.pack S (.finite s m e hm) =
      if 2 ^ S.exponentBits ≤ biased S e + 1 then packComponents S s (-1#_) 0#_
      else if 2 ^ S.mantissaBitsWithoutImplicit ≤ m then
        packComponents S s (BitVec.ofNat _ (biased S e)) (BitVec.ofNat _ m)
      else packComponents S s 0#_ (BitVec.ofNat _ m) := by
  unfold UnpackedFloat.pack
  exact if_congr Iff.rfl rfl (if_congr (log2_add_one_eq_iff hm hlt) rfl rfl)

/-- **A full finite float comes back as it was**, or infinite. -/
theorem unpack_pack_finite {s : Sign} {m : Nat} {e : Int} (hm : 0 < m) (h : Full S m e) :
    UnpackedFloat.unpack S (UnpackedFloat.pack S (.finite s m e hm)) =
      overflow S (.finite s m e hm) := by
  obtain ⟨hlt, hmin, hfull⟩ := h
  have hpow := pow_mantissaBits S
  have hbiased : (biased S e : Int) = e + S.exponentBias + S.mantissaBitsWithoutImplicit :=
    Int.toNat_of_nonneg (by rw [minExponent_eq] at hmin; omega)
  rw [pack_finite s e hm hlt, overflow]
  split_ifs with hlarge hnormal
  · rw [unpack_packComponents, if_pos rfl, if_pos rfl]
  · rw [not_le] at hlarge
    have hexponent : (BitVec.ofNat S.exponentBits (biased S e)).toNat = biased S e := by
      rw [BitVec.toNat_ofNat, Nat.mod_eq_of_lt (by omega)]
    have hones : BitVec.ofNat S.exponentBits (biased S e) ≠ -1#_ := by
      intro h
      have hnat := congrArg BitVec.toNat h
      rw [hexponent, toNat_allOnes] at hnat
      omega
    have hzero : BitVec.ofNat S.exponentBits (biased S e) ≠ 0#_ :=
      ofNat_ne_zero (by rw [minExponent_eq] at hmin; omega) (by omega)
    have hmantissa : 2 ^ S.mantissaBitsWithoutImplicit +
        (BitVec.ofNat S.mantissaBitsWithoutImplicit m).toNat = m := by
      rw [BitVec.toNat_ofNat, Nat.mod_eq_sub_mod hnormal, Nat.mod_eq_of_lt (by omega)]
      omega
    rw [unpack_packComponents, if_neg hones, if_neg hzero]
    simp only [hexponent, hmantissa, hbiased]
    congr 1
    ring
  · have hsubnormal : m < 2 ^ S.mantissaBitsWithoutImplicit := not_le.mp hnormal
    have hmantissa : (BitVec.ofNat S.mantissaBitsWithoutImplicit m).toNat = m := by
      rw [BitVec.toNat_ofNat, Nat.mod_eq_of_lt hsubnormal]
    rw [unpack_packComponents, if_neg (zero_ne_allOnes S), if_pos rfl,
      dif_neg (ofNat_ne_zero hm hsubnormal)]
    simp only [hmantissa, hfull.resolve_left hnormal]

theorem unpack_pack {u : UnpackedFloat} (h : Canonical S u) :
    UnpackedFloat.unpack S (UnpackedFloat.pack S u) = overflow S u := by
  cases u with
  | notANumber => exact unpack_packedNaN
  | infinity s =>
      have hpack : UnpackedFloat.pack S (.infinity s) = packComponents S s (-1#_) 0#_ := rfl
      rw [hpack, unpack_packComponents, if_pos rfl, if_pos rfl]
      rfl
  | zero s =>
      have hpack : UnpackedFloat.pack S (.zero s) = packComponents S s 0#_ 0#_ := rfl
      rw [hpack, unpack_packComponents, if_neg (zero_ne_allOnes S), if_pos rfl, dif_pos rfl]
      rfl
  | finite s m e hm => exact unpack_pack_finite hm h

/-- Nothing but what is not a number is packed as such. -/
theorem value_unpack_pack {u : UnpackedFloat} (h : u ≠ .notANumber) :
    value (UnpackedFloat.unpack S (UnpackedFloat.pack S u)) ≠ none := by
  cases u with
  | notANumber => exact absurd rfl h
  | infinity s =>
      rw [unpack_pack (u := .infinity s) trivial]
      cases s <;> exact Option.some_ne_none _
  | zero s =>
      rw [unpack_pack (u := .zero s) trivial]
      exact Option.some_ne_none _
  | finite s m e hm =>
      unfold UnpackedFloat.pack
      dsimp only
      split_ifs with hlarge hnormal
      · rw [packedInfinity, unpack_packComponents, if_pos rfl]
        cases s <;> exact Option.some_ne_none _
      · have hones : BitVec.ofNat S.exponentBits
            (e + S.exponentBias + S.mantissaBitsWithoutImplicit).toNat ≠ -1#_ := by
          intro heq
          have hnat := congrArg BitVec.toNat heq
          rw [BitVec.toNat_ofNat, Nat.mod_eq_of_lt (by omega), toNat_allOnes] at hnat
          omega
        rw [unpack_packComponents, if_neg hones]
        split_ifs
        · exact Option.some_ne_none _
        · rw [value_finite]
          exact Option.some_ne_none _
        · rw [value_finite]
          exact Option.some_ne_none _
      · rw [unpack_packComponents, if_neg (zero_ne_allOnes S), if_pos rfl]
        split_ifs
        · exact Option.some_ne_none _
        · rw [value_finite]
          exact Option.some_ne_none _

theorem biased_minExponent (S : Format) : biased S S.minExponent = 1 := by
  have hmin := minExponent_eq S
  unfold biased
  omega

theorem biased_sub (S : Format) (n : Nat) :
    biased S (n - (S.exponentBias + S.mantissaBitsWithoutImplicit)) = n := by
  unfold biased
  omega

/-- A stored exponent that is neither the least nor the greatest. -/
theorem toNat_bounds {w : Nat} {e : BitVec w} (hones : e ≠ -1#w) (hzero : e ≠ 0#w) :
    0 < e.toNat ∧ e.toNat + 1 < 2 ^ w := by
  have hpos : e.toNat ≠ 0 := fun h => hzero (BitVec.eq_of_toNat_eq h)
  have hne : e.toNat ≠ 2 ^ w - 1 := fun h =>
    hones (BitVec.eq_of_toNat_eq (by rw [h, toNat_allOnes]))
  have := e.isLt
  omega

/-- What is unpacked is canonical, and small enough. -/
theorem unpack_cases (hwide : 2 ≤ S.exponentBits) (b : BitVec S.numBits) :
    Canonical S (UnpackedFloat.unpack S b) ∧
      overflow S (UnpackedFloat.unpack S b) = UnpackedFloat.unpack S b := by
  rw [← packComponents_unpackSign_unpackExponent_unpackMantissa b, unpack_packComponents]
  generalize Sign.ofBitVec (unpackSign b) = s
  generalize unpackExponent b = e
  generalize unpackMantissa b = m
  have hpow := pow_mantissaBits S
  have hm := m.isLt
  have hmin := minExponent_eq S
  have hcapacity : 2 ^ 2 ≤ 2 ^ S.exponentBits := Nat.pow_le_pow_right two_pos hwide
  split_ifs with hones hzero hsub hzero
  · exact ⟨trivial, rfl⟩
  · exact ⟨trivial, rfl⟩
  · exact ⟨trivial, rfl⟩
  · exact ⟨⟨by omega, le_rfl, .inr rfl⟩, if_neg (by rw [biased_minExponent]; omega)⟩
  · obtain ⟨hpos, hlt⟩ := toNat_bounds hones hsub
    exact ⟨⟨by omega, by omega, .inl (by omega)⟩, if_neg (by rw [biased_sub]; omega)⟩

end Ieee
