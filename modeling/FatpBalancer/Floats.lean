/-
# Single and double precision

The floats of the source are the IEEE formats `binary32` and `binary64`, and `FloatOps` is
instantiated with them.  The statements about policies and matrices do not need all of the standard.
What they use of it is collected in three classes: what the comparisons say of the values, what the
operations do to signs, and which integers are exact.

* `FloatValue`: every float has a value in the rationals with two infinities, or none, and `<` and
  `==` compare these.  `key` is the order a loop over scores sees.
* `FloatSigns`: what the operations do to numbers that are not negative, for the statements about
  the cells of the matrix.
* `FloatIntegers`: integers below a limit are exact and so are their products, for the statements
  about queue depths and costs.

The binary formats are instances of all three, exact rationals of the first two, so that a statement
made with these holds of the source's arithmetic and of the idealised one.  The binary formats come
from the model of IEEE arithmetic in the core library; `Lib.Ieee` and `Lib.IeeeRounding` have what
is proved of it.
-/
import FatpBalancer.JsonLite
import FatpBalancer.Lib.IeeeRounding

universe u v

namespace FatpBalancer

open Ieee

open Float.Model (UnpackedFloat)

/-! ## What floats promise

The classes, and what follows from them without a look at the format. -/

/-- Floats stand for rationals and infinities, and compare as what they stand for.  Literals and
products of integers are numbers. -/
class FloatValue (F : Type u) [FloatOps F] where
  value : F → Option Extended
  lt_iff : ∀ x y, FloatOps.lt x y = true ↔ ∃ a b, value x = some a ∧ value y = some b ∧ a < b
  eq_iff : ∀ x y, FloatOps.eq x y = true ↔ ∃ a, value x = some a ∧ value y = some a
  value_lit : ∀ q, value (FloatOps.lit q) ≠ none
  value_ofUInt64_mul : ∀ m n, value (FloatOps.ofUInt64 m * FloatOps.ofUInt64 n) ≠ none

/-- The operations on numbers that are not negative. -/
class FloatSigns (F : Type u) [FloatOps F] [FloatValue F] : Prop where
  value_zero : FloatValue.value (FloatOps.lit 0 : F) = some (fin 0)
  value_one : FloatValue.value (FloatOps.lit 1 : F) = some (fin 1)
  /-- unless one is zero and the other infinite -/
  mul : ∀ (x y : F) a b, FloatValue.value x = some a → FloatValue.value y = some b → fin 0 ≤ a →
    fin 0 ≤ b → ¬(a = ⊤ ∧ b = fin 0) → ¬(a = fin 0 ∧ b = ⊤) →
    ∃ c, FloatValue.value (x * y) = some c ∧ fin 0 ≤ c
  add : ∀ (x y : F) a b, FloatValue.value x = some a → FloatValue.value y = some b → fin 0 ≤ a →
    fin 0 ≤ b → ∃ c, FloatValue.value (x + y) = some c ∧ fin 0 ≤ c
  /-- the complement of a rate -/
  one_sub : ∀ (x : F) q, FloatValue.value x = some (fin q) → 0 < q → q ≤ 1 →
    ∃ p, FloatValue.value (FloatOps.lit 1 - x) = some (fin p) ∧ 0 ≤ p ∧ (q < 1 → p ≠ 0)

/-- Integers below a limit are exact, and so are their products. -/
class FloatIntegers (F : Type u) [FloatOps F] [FloatValue F] where
  limit : Nat
  value_ofUInt64 : ∀ n, n < limit → FloatValue.value (FloatOps.ofUInt64 n : F) = some (fin n)
  value_mul : ∀ (x y : F) (a b : Nat), FloatValue.value x = some (fin a) →
    FloatValue.value y = some (fin b) → a * b < limit →
    FloatValue.value (x * y) = some (fin (a * b : Nat))

namespace FloatValue

variable {F : Type u} [FloatOps F] [FloatValue F]

/-- Floats in the order of their values; what is not a number comes last. -/
def key (x : F) : WithTop Extended := value x

theorem key_of_value {x : F} {a : Extended} (h : value x = some a) : key x = a := h

/-- Below a number the order is that of the comparison. -/
theorem key_lt_key_iff {x y : F} (hy : value y ≠ none) :
    key x < key y ↔ FloatOps.lt x y = true := by
  rw [lt_iff]
  obtain ⟨b, hb⟩ := Option.ne_none_iff_exists'.mp hy
  rw [key_of_value hb]
  cases hx : value x with
  | none =>
      have htop : key x = ⊤ := hx
      rw [htop]
      exact iff_of_false not_top_lt (by simp)
  | some a =>
      rw [key_of_value hx, WithTop.coe_lt_coe]
      simp [hb]

theorem key_eq_key_iff {x y : F} (hy : value y ≠ none) :
    key x = key y ↔ FloatOps.eq x y = true := by
  rw [eq_iff]
  obtain ⟨b, hb⟩ := Option.ne_none_iff_exists'.mp hy
  have hkey : key x = key y ↔ value x = value y := Iff.rfl
  rw [hkey, hb]
  simp

theorem key_le_key_iff {x y : F} (hx : value x ≠ none) :
    key x ≤ key y ↔ FloatOps.lt y x = false := by
  rw [← not_lt, key_lt_key_iff hx, Bool.not_eq_true]

/-- A comparison that holds is one of numbers. -/
theorem ne_none_of_lt {x y : F} (h : FloatOps.lt x y = true) : value x ≠ none ∧ value y ≠ none := by
  obtain ⟨a, b, ha, hb, -⟩ := (lt_iff x y).mp h
  exact ⟨by simp [ha], by simp [hb]⟩

end FloatValue

namespace FloatSigns

variable {F : Type u} [FloatOps F] [FloatValue F] [FloatSigns F]

/-- `x >= 0`, which what is not a number fails. -/
theorem zero_le_iff {x : F} :
    FloatOps.le (FloatOps.lit 0) x = true ↔ ∃ a, FloatValue.value x = some a ∧ fin 0 ≤ a := by
  rw [FloatOps.le, Bool.or_eq_true, FloatValue.lt_iff, FloatValue.eq_iff, value_zero]
  constructor
  · rintro (⟨a, b, ha, hb, hlt⟩ | ⟨a, ha, hx⟩)
    · obtain rfl := Option.some.inj ha
      exact ⟨b, hb, hlt.le⟩
    · exact ⟨a, hx, (Option.some.inj ha).le⟩
  · rintro ⟨a, ha, hle⟩
    rcases hle.lt_or_eq with hlt | rfl
    · exact .inl ⟨fin 0, a, rfl, ha, hlt⟩
    · exact .inr ⟨fin 0, rfl, ha⟩

theorem zero_le_one : FloatOps.le (FloatOps.lit 0) (FloatOps.lit 1 : F) = true :=
  zero_le_iff.mpr ⟨fin 1, value_one, fin_le_fin.mpr (by decide)⟩

/-- A rate in (0, 1] is a rational one. -/
theorem exists_rate {alpha : F} (hpos : FloatOps.lt (FloatOps.lit 0) alpha = true)
    (hle : FloatOps.le alpha (FloatOps.lit 1) = true) :
    ∃ p, FloatValue.value alpha = some (fin p) ∧ 0 < p ∧ p ≤ 1 := by
  obtain ⟨z, a, hz, ha, hlt⟩ := (FloatValue.lt_iff _ _).mp hpos
  rw [value_zero] at hz
  obtain rfl := Option.some.inj hz
  have hone : a ≤ fin 1 := by
    rw [FloatOps.le, Bool.or_eq_true, FloatValue.lt_iff, FloatValue.eq_iff, value_one, ha] at hle
    rcases hle with ⟨b, c, hb, hc, hbc⟩ | ⟨b, hb, hc⟩
    · obtain rfl := Option.some.inj hb
      obtain rfl := Option.some.inj hc
      exact hbc.le
    · obtain rfl := Option.some.inj hb
      exact (Option.some.inj hc).ge
  obtain ⟨p, rfl⟩ := exists_fin hlt.le hone
  exact ⟨p, ha, fin_lt_fin.mp hlt, fin_le_fin.mp hone⟩

/-- **An average of what is not negative is not negative**, unless the rate is 1 and the old value
infinite: zero times infinity is no number. -/
theorem emaStep_nonneg {alpha observation old : F}
    (hpos : FloatOps.lt (FloatOps.lit 0) alpha = true)
    (hle : FloatOps.le alpha (FloatOps.lit 1) = true)
    (hobservation : FloatOps.le (FloatOps.lit 0) observation = true)
    (hold : FloatOps.le (FloatOps.lit 0) old = true)
    (hfinite : FloatOps.lt alpha (FloatOps.lit 1) = true ∨ FloatValue.value old ≠ some ⊤) :
    FloatOps.le (FloatOps.lit 0) (emaStep alpha observation old) = true := by
  obtain ⟨p, hp, hppos, hpone⟩ := exists_rate hpos hle
  obtain ⟨a, ha, hazero⟩ := zero_le_iff.mp hobservation
  obtain ⟨b, hb, hbzero⟩ := zero_le_iff.mp hold
  -- the complement of the rate is zero where the rate is 1, and else the infinite stays infinite
  obtain ⟨q, hq, hqzero, hqne⟩ := one_sub alpha p hp hppos hpone
  obtain ⟨x, hx, hxzero⟩ := mul alpha observation (fin p) a hp ha (fin_le_fin.mpr hppos.le) hazero
    (fun h => (fin_lt_top p).ne h.1) (fun h => (fin_lt_fin.mpr hppos).ne' h.1)
  have hproduct : ¬(fin q = fin 0 ∧ b = ⊤) := by
    rintro ⟨hzero, rfl⟩
    rcases hfinite with hlt | hne
    · obtain ⟨c, d, hc, hd, hcd⟩ := (FloatValue.lt_iff _ _).mp hlt
      rw [hp] at hc
      rw [value_one] at hd
      obtain rfl := Option.some.inj hc
      obtain rfl := Option.some.inj hd
      exact hqne (fin_lt_fin.mp hcd) (fin_inj (congrArg some hzero))
    · exact hne hb
  obtain ⟨y, hy, hyzero⟩ := mul (FloatOps.lit 1 - alpha) old (fin q) b hq hb
    (fin_le_fin.mpr hqzero) hbzero (fun h => (fin_lt_top q).ne h.1) hproduct
  exact zero_le_iff.mpr (add _ _ x y hx hy hxzero hyzero)

end FloatSigns

/-! ## Exact arithmetic

Every rational is a number, and every operation is exact. -/

instance : FloatValue Rat where
  value q := some (fin q)
  lt_iff x y := by
    show decide (x < y) = true ↔ _
    simp
  eq_iff x y := by
    show decide (x = y) = true ↔ _
    simp [eq_comm]
  value_lit _ := nofun
  value_ofUInt64_mul _ _ := nofun

instance : FloatSigns Rat where
  value_zero := rfl
  value_one := rfl
  mul x y a b ha hb hx hy _ _ := by
    obtain rfl := Option.some.inj ha
    obtain rfl := Option.some.inj hb
    rw [fin_le_fin] at hx hy
    exact ⟨_, rfl, fin_le_fin.mpr (mul_nonneg hx hy)⟩
  add x y a b ha hb hx hy := by
    obtain rfl := Option.some.inj ha
    obtain rfl := Option.some.inj hb
    rw [fin_le_fin] at hx hy
    exact ⟨_, rfl, fin_le_fin.mpr (add_nonneg hx hy)⟩
  one_sub x q hq hpos hle := by
    obtain rfl := fin_inj hq
    refine ⟨1 - x, rfl, sub_nonneg.mpr hle, fun hlt => (sub_pos.mpr hlt).ne'⟩

/-! ## Binary floats

A binary float is packed from the unpacked form, on which the operations work; packing and unpacking
are inverse on what is canonical. -/

/-- A type of floats whose operations are those of an IEEE format on what its bits stand for. -/
class BinaryFloat (F : Type u) [FloatOps F] where
  format : Float.Model.Format
  holdsIntegers : HoldsIntegers format
  mantissaBits : format.mantissaBits ≤ 64
  exponentBias : 64 ≤ format.exponentBias
  unpack : F → UnpackedFloat
  pack : UnpackedFloat → F
  unpack_cases : ∀ x, Canonical format (unpack x) ∧ overflow format (unpack x) = unpack x
  unpack_pack : ∀ u, unpack (pack u) = UnpackedFloat.unpack format (UnpackedFloat.pack format u)
  pack_unpack : ∀ x, pack (unpack x) = x
  lit_eq : ∀ q, FloatOps.lit q = pack (ofRat format q)
  value_one : Ieee.value (unpack (FloatOps.lit 1)) = some (fin 1)
  lt_eq : ∀ x y, FloatOps.lt x y = (unpack x).lt (unpack y)
  eq_eq : ∀ x y, FloatOps.eq x y = (unpack x).beq (unpack y)
  ofUInt64_eq : ∀ n, FloatOps.ofUInt64 n = pack (UnpackedFloat.ofNat format (n % 2 ^ 64))
  ofInt64_eq : ∀ n, FloatOps.ofInt64 n = pack (UnpackedFloat.ofInt format (n.bmod (2 ^ 64)))
  add_eq : ∀ x y : F, x + y = pack (UnpackedFloat.add format (unpack x) (unpack y))
  sub_eq : ∀ x y : F, x - y = pack (UnpackedFloat.sub format (unpack x) (unpack y))
  mul_eq : ∀ x y : F, x * y = pack (UnpackedFloat.mul format (unpack x) (unpack y))

namespace BinaryFloat

variable {F : Type u} [FloatOps F] [BinaryFloat F]

theorem unpack_pack_of_canonical {u : UnpackedFloat} (h : Canonical (format F) u) :
    unpack (pack u : F) = overflow (format F) u := by
  rw [unpack_pack, Ieee.unpack_pack h]

/-- What is unpacked is canonical. -/
theorem canonical (x : F) : Canonical (format F) (unpack x) := (unpack_cases x).1

/-- A converted integer is canonical. -/
theorem canonical_ofNat (S : Float.Model.Format) (n : Nat) :
    Canonical S (UnpackedFloat.ofNat S n) := canonical_normalize

theorem exists_value_ofUInt64 (n : Nat) :
    ∃ q, Ieee.value (unpack (FloatOps.ofUInt64 n : F)) = some (fin q) := by
  have hlt : n % 2 ^ 64 < 2 ^ (format F).exponentBias :=
    (Nat.mod_lt n (by decide)).trans_le (Nat.pow_le_pow_right two_pos exponentBias)
  rw [ofUInt64_eq, unpack_pack_of_canonical (canonical_ofNat ..)]
  exact exists_value_ofNat hlt

instance : FloatValue F where
  value x := Ieee.value (unpack x)
  lt_iff x y := by
    rw [lt_eq]
    exact Ieee.lt_iff (canonical x) (canonical y)
  eq_iff x y := by
    rw [eq_eq]
    exact Ieee.beq_iff (canonical x) (canonical y)
  value_lit q := by
    rw [lit_eq, unpack_pack]
    exact value_unpack_pack (ofRat_ne_notANumber _ _)
  value_ofUInt64_mul m n := by
    obtain ⟨p, hp⟩ := exists_value_ofUInt64 (F := F) m
    obtain ⟨q, hq⟩ := exists_value_ofUInt64 (F := F) n
    rw [mul_eq, unpack_pack]
    exact value_unpack_pack (value_mul_ne_none hp hq)

/-- The value of a float is that of its unpacked form. -/
theorem value_eq (x : F) : FloatValue.value x = Ieee.value (unpack x) := rfl

/-- What is packed from a canonical float that is not negative is not negative. -/
theorem nonneg_pack {u : UnpackedFloat} (hu : Canonical (format F) u) (h : Nonneg u) :
    ∃ c, FloatValue.value (pack u : F) = some c ∧ fin 0 ≤ c := by
  rw [value_eq, unpack_pack_of_canonical hu]
  exact nonneg_iff.mp (nonneg_overflow h)

instance : FloatSigns F where
  value_zero := by
    have hzero : ofRat (format F) 0 = .zero .positive := rfl
    rw [value_eq, lit_eq, hzero, unpack_pack_of_canonical (u := .zero .positive) trivial]
    rfl
  value_one := value_one
  mul x y a b ha hb hx hy hleft hright := by
    have hleft' : Ieee.value (unpack x) ≠ some ⊤ ∨ Ieee.value (unpack y) ≠ some (fin 0) := by
      rw [← value_eq, ← value_eq, ha, hb]
      exact (not_and_or.mp hleft).imp (mt Option.some.inj) (mt Option.some.inj)
    have hright' : Ieee.value (unpack x) ≠ some (fin 0) ∨ Ieee.value (unpack y) ≠ some ⊤ := by
      rw [← value_eq, ← value_eq, ha, hb]
      exact (not_and_or.mp hright).imp (mt Option.some.inj) (mt Option.some.inj)
    rw [mul_eq]
    exact nonneg_pack (canonical_mul (canonical x) (canonical y)) (nonneg_mul (canonical x)
      (canonical y) (nonneg_iff.mpr ⟨a, ha, hx⟩) (nonneg_iff.mpr ⟨b, hb, hy⟩) hleft' hright')
  add x y a b ha hb hx hy := by
    rw [add_eq]
    exact nonneg_pack (canonical_add (canonical x) (canonical y))
      (nonneg_add (nonneg_iff.mpr ⟨a, ha, hx⟩) (nonneg_iff.mpr ⟨b, hb, hy⟩))
  one_sub x q hq hpos hle := by
    have hcanonical := canonical_sub (canonical (FloatOps.lit 1 : F)) (canonical x)
    have hbias : 0 < (format F).exponentBias := lt_of_lt_of_le (by decide) exponentBias
    obtain ⟨hnonneg, hzero⟩ := nonneg_sub (canonical _) (canonical x) value_one hq hle
    obtain ⟨p, hp⟩ := exists_value_sub hbias (value_one (F := F)) hq hpos hle le_rfl
    have hvalue : FloatValue.value (FloatOps.lit 1 - x) = some (fin p) := by
      rw [sub_eq, value_eq, unpack_pack_of_canonical hcanonical, hp]
    obtain ⟨c, hc, hle'⟩ := nonneg_iff.mp (nonneg_overflow (S := format F) hnonneg)
    rw [hp] at hc
    obtain rfl := Option.some.inj hc
    refine ⟨p, hvalue, fin_le_fin.mp hle', ?_⟩
    rintro hlt rfl
    exact value_overflow_ne_zero (hzero hlt) hp

instance : FloatIntegers F where
  limit := 2 ^ (format F).mantissaBits
  value_ofUInt64 n hn := by
    have hlt : n < 2 ^ 64 := hn.trans_le (Nat.pow_le_pow_right two_pos mantissaBits)
    rw [ofUInt64_eq, value_eq, unpack_pack_of_canonical (canonical_ofNat ..), Nat.mod_eq_of_lt hlt]
    exact value_ofNat holdsIntegers hn
  value_mul x y a b ha hb hlt := by
    rw [mul_eq, value_eq, unpack_pack_of_canonical (canonical_mul (canonical x) (canonical y))]
    exact value_mul_natCast holdsIntegers (canonical x) (canonical y) ha hb hlt

end BinaryFloat

/-! ## The two formats

`binary32` and `binary64` meet the assumptions of the section above. -/

/-- `float`. -/
instance : FloatOps Float32 where
  lit q := .ofModel (.pack (ofRat .binary32 q))
  lt := Float32.lt
  eq := Float32.beq
  ofUInt64 n := (UInt64.ofNat n).toFloat32
  ofInt64 n := .ofModel (.ofInt64 (Int64.ofInt n))
  toUInt64 x := x.toUInt64.toNat

/-- `double`. -/
instance : FloatOps Float where
  lit q := .ofModel (.pack (ofRat .binary64 q))
  lt := Float.lt
  eq := Float.beq
  ofUInt64 n := (UInt64.ofNat n).toFloat
  ofInt64 n := .ofModel (.ofInt64 (Int64.ofInt n))
  toUInt64 x := x.toUInt64.toNat

instance : BinaryFloat Float32 where
  format := .binary32
  holdsIntegers := ⟨by decide, by decide⟩
  mantissaBits := by decide
  exponentBias := by decide
  unpack x := x.toModel.unpack
  pack u := .ofModel (.pack u)
  unpack_cases _ := Ieee.unpack_cases (by decide) _
  unpack_pack _ := rfl
  pack_unpack x := by
    apply Float32.toBits_inj.mp
    exact congrArg UInt32.ofBitVec (UnpackedFloat.pack_unpack_of_valid x.toModel.valid)
  lit_eq _ := rfl
  value_one := by decide +kernel
  lt_eq _ _ := Bool.decide_coe _
  eq_eq _ _ := rfl
  ofUInt64_eq _ := rfl
  ofInt64_eq n := by
    show Float32.ofModel (.pack (UnpackedFloat.ofInt _ (Int64.ofInt n).toInt)) = _
    rw [Int64.toInt_ofInt]
    rfl
  add_eq _ _ := rfl
  sub_eq _ _ := rfl
  mul_eq _ _ := rfl

instance : BinaryFloat Float where
  format := .binary64
  holdsIntegers := ⟨by decide, by decide⟩
  mantissaBits := by decide
  exponentBias := by decide
  unpack x := x.toModel.unpack
  pack u := .ofModel (.pack u)
  unpack_cases _ := Ieee.unpack_cases (by decide) _
  unpack_pack _ := rfl
  pack_unpack x := by
    apply Float.toBits_inj.mp
    exact congrArg UInt64.ofBitVec (UnpackedFloat.pack_unpack_of_valid x.toModel.valid)
  lit_eq _ := rfl
  value_one := by decide +kernel
  lt_eq _ _ := Bool.decide_coe _
  eq_eq _ _ := rfl
  ofUInt64_eq _ := rfl
  ofInt64_eq n := by
    show Float.ofModel (.pack (UnpackedFloat.ofInt _ (Int64.ofInt n).toInt)) = _
    rw [Int64.toInt_ofInt]
    rfl
  add_eq _ _ := rfl
  sub_eq _ _ := rfl
  mul_eq _ _ := rfl

/-! ## Casts

The source keeps learned values in `float` and writes them to JSON as `double`; the way back gives
the same float. -/

namespace BinaryFloat

variable {F : Type u} {G : Type v} [FloatOps F] [BinaryFloat F] [FloatOps G] [BinaryFloat G]

/-- The nearest float of another format. -/
def cast (G : Type v) [FloatOps G] [BinaryFloat G] (x : F) : G :=
  pack (convert (format G) (unpack x))

theorem cast_cast (hwider : Wider (format F) (format G)) (x : F) : cast F (cast G x) = x := by
  obtain ⟨hcanonical, hsmall⟩ := unpack_cases x
  unfold cast
  rw [unpack_pack_of_canonical (canonical_convert ..), hwider.convert_convert hcanonical hsmall,
    pack_unpack]

theorem ofInt64_of_integer {x : G} {n : Int} (h : integer (unpack x) = some n)
    (hge : -2 ^ 63 ≤ n) (hlt : n < 2 ^ 63) : FloatOps.ofInt64 n = cast F x := by
  rw [ofInt64_eq, Int.bmod_eq_of_le (by omega) (by omega), cast, convert_of_integer h]

end BinaryFloat

/-- A double that holds a 64-bit integer. -/
instance : DoubleOps Float where
  wholeInt64 d := (integer d.toModel.unpack).filter fun n => decide (-2 ^ 63 ≤ n ∧ n < 2 ^ 63)

instance : FloatCasts Float32 Float where
  toDouble := BinaryFloat.cast Float
  toFloat := BinaryFloat.cast Float32
  toFloat_toDouble := BinaryFloat.cast_cast ⟨by decide, by decide, by decide⟩
  ofInt64_wholeInt64 d n h := by
    obtain ⟨hinteger, hrange⟩ := Option.filter_eq_some_iff.mp h
    obtain ⟨hge, hlt⟩ := of_decide_eq_true hrange
    exact BinaryFloat.ofInt64_of_integer hinteger hge hlt

end FatpBalancer
