import Mathlib
import Dissect.Settings.Check

/-!
Shares of a whole.

A number that is divided by itself gives one, or no number at all, and neither lies below a ratio.
So a share of everything is never found too small. A ratio of a count, in turn, is never below zero,
since neither rounding nor storing a number changes its sign.
-/

namespace Dissect.Decimal

open Float.Model Float.Model.UnpackedFloat

/-- One, with the full mantissa. -/
def unit : UnpackedFloat := .finite .positive (2 ^ 52) (-52) (by decide)

lemma unpack_pack_unit : (Float.Model.pack unit).unpack = unit := rfl

lemma unpack_pack_notANumber : (Float.Model.pack .notANumber).unpack = .notANumber := rfl

lemma unpack_one : (1.0 : Float).toModel.unpack = unit := by
  have hone : (1.0 : Float).toModel = Float.Model.pack unit := by decide +kernel
  rw [hone, unpack_pack_unit]

lemma divCore_self {m : ℕ} (e : ℤ) (hm : 0 < m) :
    divCore Format.binary64 m e m e = (2 ^ 53, -53, .exact) := by
  have htarget : min (e - e) (Format.binary64.targetExponent
      (totalExponent m e - totalExponent m e)) = -53 := by
    rw [sub_self, sub_self]
    rfl
  have hshift : (e - e - -53).toNat = 53 := by
    rw [sub_self]
    rfl
  simp only [divCore, htarget, hshift, Nat.shiftLeft_eq, Nat.mul_div_cancel_left _ hm,
    Nat.mul_mod_right, accuracyOfFraction, if_true]

/-- A number divided by itself is one, unless it is zero or not finite. -/
lemma div_self_cases (x : UnpackedFloat) :
    UnpackedFloat.div Format.binary64 x x = .notANumber ∨
      UnpackedFloat.div Format.binary64 x x = unit := by
  cases x with
  | infinity s => exact .inl rfl
  | notANumber => exact .inl rfl
  | zero s => exact .inl rfl
  | finite s m e hm =>
    right
    have hsign : s / s = .positive := by cases s <;> rfl
    simp only [UnpackedFloat.div, divCore_self e hm, hsign]
    rfl

/-- One is not below what does not exceed one. -/
lemma not_unit_lt {x : UnpackedFloat} (h : x.le unit) : ¬UnpackedFloat.lt unit x := by
  unfold UnpackedFloat.le UnpackedFloat.lt at *
  cases x with
  | infinity s => cases s <;> simp_all [UnpackedFloat.compare, unit]
  | notANumber => simp [UnpackedFloat.compare, unit]
  | zero s => simp [UnpackedFloat.compare, unit]
  | finite s m e hm =>
    cases s with
    | negative => simp [UnpackedFloat.compare, unit]
    | positive =>
      have hswap : (compare (-52) e).then (compare (2 ^ 52) m) =
          ((compare e (-52)).then (compare m (2 ^ 52))).swap := by
        rw [Ordering.swap_then, ← Std.OrientedCmp.eq_swap, ← Std.OrientedCmp.eq_swap]
      simp only [UnpackedFloat.compare, unit, hswap] at h ⊢
      revert h
      rcases (compare e (-52)).then (compare m (2 ^ 52)) <;> simp

lemma le_iff_unpack {x y : Float} : x ≤ y ↔ x.toModel.unpack.le y.toModel.unpack :=
  decide_eq_true_iff

lemma lt_iff_unpack {x y : Float} : x < y ↔ x.toModel.unpack.lt y.toModel.unpack :=
  decide_eq_true_iff

lemma unpack_div (x y : Float) :
    (x / y).toModel.unpack = (Float.Model.pack
      (UnpackedFloat.div Format.binary64 x.toModel.unpack y.toModel.unpack)).unpack :=
  rfl

/-- The share of everything is not below a ratio. -/
lemma not_div_self_lt {r : Float} (hr : Settings.isRatio r) (x : Float) : ¬x / x < r := by
  have hle : r ≤ 1.0 := by
    rw [Settings.isRatio, Bool.and_eq_true, decide_eq_true_eq, decide_eq_true_eq] at hr
    exact hr.2
  rw [le_iff_unpack, unpack_one] at hle
  rw [lt_iff_unpack, unpack_div]
  rcases div_self_cases x.toModel.unpack with hdiv | hdiv
  · rw [hdiv, unpack_pack_notANumber]
    simp [UnpackedFloat.lt, UnpackedFloat.compare]
  · rw [hdiv, unpack_pack_unit]
    exact not_unit_lt hle

/-! ### Shares of a count -/

/-- The number does not lie below zero, or is none. -/
inductive NotNegative : UnpackedFloat → Prop where
  | notANumber : NotNegative .notANumber
  | zero (s : Sign) : NotNegative (.zero s)
  | infinity : NotNegative (.infinity .positive)
  | finite {m : ℕ} {e : ℤ} (hm : 0 < m) : NotNegative (.finite .positive m e hm)

/-- The sign bit is kept in front of the others. -/
lemma unpackSign_packComponents (s : Sign) (e : BitVec Format.binary64.exponentBits)
    (m : BitVec Format.binary64.mantissaBitsWithoutImplicit) :
    unpackSign (packComponents Format.binary64 s e m) = s.toBitVec := by
  simp only [unpackSign, packComponents, BitVec.extractLsb]
  rw [BitVec.extractLsb'_append_eq_of_le (by decide),
    BitVec.extractLsb'_append_eq_of_le (by decide)]
  cases s <;> rfl

namespace NotNegative

variable {x y : UnpackedFloat}

lemma not_lt (h : NotNegative x) (s : Sign) : ¬UnpackedFloat.lt x (.zero s) := by
  cases h <;> exact Bool.false_ne_true

lemma of_le {s : Sign} (h : UnpackedFloat.le (.zero s) x) : NotNegative x := by
  cases x with
  | notANumber => exact .notANumber
  | zero s => exact .zero s
  | infinity s =>
    cases s with
    | negative => exact absurd h Bool.false_ne_true
    | positive => exact .infinity
  | finite s m e hm =>
    cases s with
    | negative => exact absurd h Bool.false_ne_true
    | positive => exact .finite hm

lemma round (m : ℕ) (e : ℤ) (a : Accuracy) :
    NotNegative (roundWithAccuracy Format.binary64 .positive m e a) := by
  unfold roundWithAccuracy
  dsimp only
  split
  · exact .zero _
  · exact .finite _

lemma mul (hx : NotNegative x) (hy : NotNegative y) :
    NotNegative (UnpackedFloat.mul Format.binary64 x y) := by
  cases hx <;> cases hy <;>
    first | exact .notANumber | exact .zero _ | exact .infinity | exact .round _ _ _

lemma ofNat (n : ℕ) : NotNegative (UnpackedFloat.ofNat Format.binary64 n) := by
  unfold UnpackedFloat.ofNat UnpackedFloat.ofInt UnpackedFloat.normalize
  split
  · next h =>
    have := Int.compare_eq_lt.mp h
    omega
  · exact .zero _
  · exact .round _ _ _

lemma ofScientific (n : ℕ) :
    NotNegative (UnpackedFloat.ofScientific Format.binary64 n 0) := by
  unfold UnpackedFloat.ofScientific
  split_ifs
  · exact .zero _
  · exact .infinity
  · exact .zero _
  · exact .mul (.finite _) (.finite _)
  · omega

lemma unpack {b : BitVec Format.binary64.numBits} (h : unpackSign b = 0#1) :
    NotNegative (UnpackedFloat.unpack Format.binary64 b) := by
  simp only [UnpackedFloat.unpack, h, Sign.ofBitVec, if_true]
  split_ifs
  · exact .infinity
  · exact .notANumber
  · exact .zero _
  · exact .finite _
  · exact .finite _

/-- What is stored of a number has its sign. -/
lemma unpack_pack (hx : NotNegative x) : NotNegative (Float.Model.pack x).unpack := by
  cases hx with
  | notANumber => exact .notANumber
  | zero s => cases s <;> exact .zero _
  | infinity => exact .infinity
  | finite hm =>
    refine .unpack ?_
    simp only [Float.Model.pack, UnpackedFloat.pack, packedInfinity]
    split_ifs <;> exact unpackSign_packComponents .positive _ _

end NotNegative

lemma unpack_mul (x y : Float) :
    (x * y).toModel.unpack = (Float.Model.pack
      (UnpackedFloat.mul Format.binary64 x.toModel.unpack y.toModel.unpack)).unpack :=
  rfl

lemma unpack_toFloat (w : UInt64) : w.toFloat.toModel.unpack =
    (Float.Model.pack (UnpackedFloat.ofNat Format.binary64 w.toNat)).unpack :=
  rfl

/-- A count is not below zero. -/
lemma notNegative_ofNat (n : ℕ) : NotNegative (Float.ofNat n).toModel.unpack := by
  have hten : NotNegative (Float.exactlyRepresentablePowersOfTen[0]).toModel.unpack := by
    refine .unpack ?_
    decide +kernel
  by_cases hn : n < 2 ^ 53
  · have hfast : Float.ofNat n = n.toUInt64.toFloat * Float.exactlyRepresentablePowersOfTen[0] := by
      simp only [Float.ofNat, OfScientific.ofScientific, Float.ofScientific, hn]
      rfl
    rw [hfast, unpack_mul, unpack_toFloat]
    exact ((NotNegative.ofNat _).unpack_pack.mul hten).unpack_pack
  · have hslow : Float.ofNat n = Float.ofModel (Float.Model.ofScientific n 0) := by
      simp only [Float.ofNat, OfScientific.ofScientific, Float.ofScientific, hn]
      rfl
    rw [hslow]
    exact (NotNegative.ofScientific n).unpack_pack

lemma unpack_of_isZero {x : Float} (h : x.toModel = Float.Model.pack (.zero .positive)) :
    x.toModel.unpack = .zero .positive := by
  rw [h]
  rfl

/-- A ratio of a count is not below zero. -/
lemma not_mul_lt_zero {r : Float} (hr : Settings.isRatio r) (n : ℕ) :
    ¬Float.ofNat n * r < Float.ofNat 0 := by
  have hle : 0.0 ≤ r := by
    rw [Settings.isRatio, Bool.and_eq_true, decide_eq_true_eq, decide_eq_true_eq] at hr
    exact hr.1
  rw [le_iff_unpack, unpack_of_isZero (by decide +kernel)] at hle
  rw [lt_iff_unpack, unpack_mul, unpack_of_isZero (x := Float.ofNat 0) (by decide +kernel)]
  exact ((notNegative_ofNat n).mul (.of_le hle)).unpack_pack.not_lt _

end Dissect.Decimal
