import Mathlib
import Dissect.Proofs.Decimal.Ratio

/-!
Bounds on the exponents of floating-point numbers.

A number overflows when its exponent is too large to be stored. Rounding raises an exponent by one
at most above what the digits ask for, and a divisor that is not small raises it by one at most, so
a number that starts low stays finite through a few divisions. A number with digits enough is stored
with its own exponent, which bounds the powers of ten from below.
-/

namespace Dissect.Decimal

open Float.Model Float.Model.UnpackedFloat

/-! ### Exponents -/

/-- The number is zero, or finite with an exponent that is not above a bound. -/
inductive Low (b : ℤ) : UnpackedFloat → Prop
  | zero (s : Sign) : Low b (.zero s)
  | finite {s : Sign} {m : ℕ} {e : ℤ} (hm : 0 < m) (he : e ≤ b) : Low b (.finite s m e hm)

namespace Low

variable {b : ℤ} {x y : UnpackedFloat}

lemma isFinite (h : Low b x) : x.isFinite := by cases h <;> rfl

lemma isNaN_eq (h : Low b x) : x.isNaN = false := by cases h <;> rfl

lemma neg (h : Low b x) : Low b x.neg := by
  cases h with
  | zero s => exact .zero _
  | finite hm he => exact .finite hm he

end Low

lemma shift_mantissa (em : ExtendedMantissa) (k : ℕ) :
    (em >>> k).mantissa = em.mantissa / 2 ^ k := by
  induction k with
  | zero => simp [HShiftRight.hShiftRight, Nat.repeat]
  | succ k ih =>
    change (em >>> k).mantissa / 2 = _
    rw [ih, Nat.div_div_eq_div_mul, pow_succ]

lemma roundedMantissa_le (em : ExtendedMantissa) : em.roundedMantissa ≤ em.mantissa + 1 := by
  obtain ⟨m, r, s⟩ := em
  cases r <;> cases s <;>
    simp [ExtendedMantissa.roundedMantissa, ExtendedMantissa.accuracy,
      Accuracy.roundToNearestEven]
  omega

lemma le_roundedMantissa (em : ExtendedMantissa) : em.mantissa ≤ em.roundedMantissa := by
  obtain ⟨m, r, s⟩ := em
  cases r <;> cases s <;>
    simp [ExtendedMantissa.roundedMantissa, ExtendedMantissa.accuracy,
      Accuracy.roundToNearestEven]

lemma targetExponent_binary64 (t : ℤ) :
    Format.binary64.targetExponent t = max (t - 53) (-1074) := rfl

/-- What a mantissa is shifted to. -/
lemma shiftToTargetExponent_eq (m : ℕ) (e : ℤ) (a : Accuracy) :
    ∃ k : ℕ, (shiftToTargetExponent Format.binary64 m e a).1.mantissa = m / 2 ^ k ∧
      (shiftToTargetExponent Format.binary64 m e a).2 = e + k ∧
      (k : ℤ) = max 0 (max (totalExponent m e - 53) (-1074) - e) := by
  refine ⟨_, ?_, rfl, ?_⟩
  · rw [shiftToTargetExponent, shiftToExponent, shift_mantissa]
    rcases a with _ | _ | _ | _ <;> rfl
  · rw [targetExponent_binary64]
    omega

lemma log2_div_pow {m k : ℕ} (h : m / 2 ^ k ≠ 0) : (m / 2 ^ k).log2 + k = m.log2 := by
  have hle : 2 ^ k ≤ m := by
    by_contra hlt
    exact h (Nat.div_eq_of_lt (Nat.not_le.mp hlt))
  have hm : m ≠ 0 := fun hm => by simp [hm] at h
  have hk : k ≤ m.log2 := (Nat.le_log2 hm).mpr hle
  rw [Nat.log2_eq_log_two, Nat.log2_eq_log_two, Nat.log_div_base_pow, Nat.sub_add_cancel]
  rwa [← Nat.log2_eq_log_two]

lemma div_pow_ne_zero {m k : ℕ} (hm : m ≠ 0) (hk : k ≤ m.log2) : m / 2 ^ k ≠ 0 :=
  (Nat.div_pos ((Nat.le_log2 hm).mp hk) (by positivity)).ne'

lemma log2_pow_mul {n : ℕ} (hn : 0 < n) (k : ℕ) : (2 ^ k * n).log2 = k + n.log2 := by
  have hcancel : 2 ^ k * n / 2 ^ k = n := Nat.mul_div_cancel_left _ (by positivity)
  have heq := log2_div_pow (m := 2 ^ k * n) (k := k) (by omega)
  rw [hcancel] at heq
  omega

lemma log2_le_of_le_succ {m n : ℕ} (h : m ≤ n + 1) : m.log2 ≤ n.log2 + 1 := by
  rcases Nat.eq_zero_or_pos m with rfl | hm
  · simp
  · have hlt : m < 2 ^ (n.log2 + 2) := by
      have hn : n < 2 ^ (n.log2 + 1) := Nat.lt_log2_self
      rw [pow_succ]
      omega
    exact Nat.le_of_lt_succ ((Nat.log2_lt hm.ne').mpr hlt)

/-- Rounding shifts a mantissa to the digits that are kept, adds one at most, and shifts again where
that has carried into one digit more. -/
lemma round_eq (s : Sign) (m : ℕ) (e : ℤ) (a : Accuracy) :
    ∃ k r k' : ℕ, (k : ℤ) = max 0 (max (totalExponent m e - 53) (-1074) - e) ∧
      m / 2 ^ k ≤ r ∧ r ≤ m / 2 ^ k + 1 ∧
      (k' : ℤ) = max 0 (max (totalExponent r (e + k) - 53) (-1074) - (e + k)) ∧
      roundWithAccuracy Format.binary64 s m e a = if h : r / 2 ^ k' = 0 then .zero s
        else .finite s (r / 2 ^ k') (e + k + k') (Nat.pos_of_ne_zero h) := by
  obtain ⟨k, hmantissa, hexponent, hk⟩ := shiftToTargetExponent_eq m e a
  have hle := le_roundedMantissa (shiftToTargetExponent Format.binary64 m e a).1
  have hge := roundedMantissa_le (shiftToTargetExponent Format.binary64 m e a).1
  rw [hmantissa] at hle hge
  unfold roundWithAccuracy
  dsimp only
  generalize (shiftToTargetExponent Format.binary64 m e a).1.roundedMantissa = r at hle hge ⊢
  rw [hexponent]
  obtain ⟨k', hmantissa', hexponent', hk'⟩ := shiftToTargetExponent_eq r (e + k) .exact
  refine ⟨k, r, k', hk, hle, hge, hk', ?_⟩
  simp only [hmantissa', hexponent']

/-- Rounding raises the exponent by one at most above the one that the format asks for. -/
lemma low_round {b e : ℤ} {m : ℕ} (s : Sign) (a : Accuracy) (he : e ≤ b)
    (htotal : totalExponent m e - 52 ≤ b) (hb : -1074 ≤ b) :
    Low b (roundWithAccuracy Format.binary64 s m e a) := by
  obtain ⟨k, r, k', hk, -, hge, hk', heq⟩ := round_eq s m e a
  have hlog := log2_le_of_le_succ hge
  rw [heq]
  split_ifs with hzero
  · exact .zero s
  · refine .finite _ ?_
    unfold totalExponent at *
    by_cases hquotient : m / 2 ^ k = 0
    · rw [hquotient] at hlog
      simp only [Nat.log2_zero] at hlog
      omega
    · have hshift := log2_div_pow hquotient
      omega

lemma log2_quotient_le {m k n : ℕ} (hn : 0 < n) (h : (m <<< k) / n ≠ 0) :
    ((m <<< k) / n).log2 + n.log2 ≤ m.log2 + k := by
  have hlt : 2 ^ (((m <<< k) / n).log2 + n.log2) < 2 ^ (m.log2 + k + 1) := by
    calc 2 ^ (((m <<< k) / n).log2 + n.log2)
        = 2 ^ ((m <<< k) / n).log2 * 2 ^ n.log2 := pow_add _ _ _
      _ ≤ (m <<< k) / n * n := Nat.mul_le_mul (Nat.log2_self_le h) (Nat.log2_self_le hn.ne')
      _ ≤ m <<< k := Nat.div_mul_le_self _ _
      _ = m * 2 ^ k := Nat.shiftLeft_eq _ _
      _ < 2 ^ (m.log2 + 1) * 2 ^ k := Nat.mul_lt_mul_of_pos_right Nat.lt_log2_self (by positivity)
      _ = 2 ^ (m.log2 + k + 1) := by rw [← pow_add]; congr 1; omega
  exact Nat.le_of_lt_succ ((Nat.pow_lt_pow_iff_right (by omega)).mp hlt)

/-- The number is finite and not below one half. -/
inductive High : UnpackedFloat → Prop
  | finite {s : Sign} {m : ℕ} {e : ℤ} (hm : 0 < m) (he : 1 ≤ totalExponent m e) :
      High (.finite s m e hm)

lemma High.isFinite {x : UnpackedFloat} (h : High x) : x.isFinite := by cases h; rfl

instance : DecidablePred High
  | .finite _ m e hm => decidable_of_iff (1 ≤ totalExponent m e)
      ⟨.finite hm, fun h => by cases h; assumption⟩
  | .zero _ => isFalse nofun
  | .infinity _ => isFalse nofun
  | .notANumber => isFalse nofun

/-- The mantissa has no more digits than the format keeps. -/
def Fits : UnpackedFloat → Prop
  | .finite _ m _ _ => m < 2 ^ 53
  | _ => True

/-- A quotient by a number that is not small is not much above the dividend. -/
lemma Low.div {b : ℤ} {x y : UnpackedFloat} (hx : Low b x) (hfits : Fits x) (hy : High y)
    (hb : -1074 ≤ b) : Low (b + 1) (UnpackedFloat.div Format.binary64 x y) := by
  obtain ⟨hn, hone⟩ := hy
  cases hx with
  | zero s => exact .zero _
  | @finite s m e hm he =>
    have hlog : m.log2 < 53 := (Nat.log2_lt hm.ne').mpr hfits
    simp only [UnpackedFloat.div, divCore, targetExponent_binary64]
    refine low_round _ _ ?_ ?_ (by omega)
    · unfold totalExponent at *
      omega
    · rename_i n f
      generalize hk : (e - f - min (e - f) _).toNat = k
      unfold totalExponent at *
      by_cases hquotient : (m <<< k) / n = 0
      · rw [hquotient, Nat.log2_zero]
        omega
      · have hle := log2_quotient_le hn hquotient
        omega

/-! ### Stored numbers -/

lemma fits_unpack (x : Float.Model) : Fits x.unpack := by
  unfold Float.Model.unpack UnpackedFloat.unpack
  dsimp only
  split_ifs
  · trivial
  · trivial
  · trivial
  · exact lt_of_lt_of_le (BitVec.isLt _) (by decide)
  · exact BitVec.isLt _

/-- The exponent of what is stored. -/
lemma low_unpack {b : ℤ} {v : BitVec Format.binary64.numBits} (hb : -1074 ≤ b)
    (h : ((unpackExponent v).toNat : ℤ) - 1075 ≤ b) (hfinite : unpackExponent v ≠ -1#_) :
    Low b (UnpackedFloat.unpack Format.binary64 v) := by
  unfold UnpackedFloat.unpack
  dsimp only
  rw [if_neg hfinite]
  split_ifs with hzero hmantissa
  · exact .zero _
  · refine .finite _ ?_
    rw [hzero]
    exact hb
  · exact .finite _ h

/-- The exponent field of a number that is not too large. -/
def exponentField (m : ℕ) (e : ℤ) : BitVec Format.binary64.exponentBits :=
  if m.log2 = 52 then BitVec.ofNat _ (e + 1075).toNat else 0#_

lemma toNat_exponentField {m : ℕ} {e : ℤ} (hm : m.log2 = 52) (he : e ≤ 971) :
    (exponentField m e).toNat = (e + 1075).toNat := by
  rw [exponentField, if_pos hm, BitVec.toNat_ofNat]
  exact Nat.mod_eq_of_lt (show _ < 2 ^ 11 by omega)

lemma toNat_exponentField_le (m : ℕ) {e : ℤ} (he : e ≤ 971) :
    (exponentField m e).toNat ≤ (e + 1075).toNat := by
  by_cases hm : m.log2 = 52
  · exact (toNat_exponentField hm he).le
  · rw [exponentField, if_neg hm]
    exact Nat.zero_le _

lemma ne_neg_one_of_toNat_lt {v : BitVec Format.binary64.exponentBits} (h : v.toNat < 2047) :
    v ≠ -1#_ := by
  rintro rfl
  exact absurd h (by decide)

lemma pack_finite {s : Sign} {m : ℕ} {e : ℤ} (hm : 0 < m) (he : e ≤ 971) :
    UnpackedFloat.pack Format.binary64 (.finite s m e hm) =
      packComponents Format.binary64 s (exponentField m e) (BitVec.ofNat _ m) := by
  have hbiased : (e + Format.binary64.exponentBias +
      Format.binary64.mantissaBitsWithoutImplicit).toNat = (e + 1075).toNat := by
    congr 1
    change e + 1023 + 52 = e + 1075
    ring
  have hbits : m.log2 + 1 = Format.binary64.mantissaBits ↔ m.log2 = 52 := Nat.succ_inj
  unfold UnpackedFloat.pack exponentField
  dsimp only
  rw [hbiased, if_neg (show ¬2 ^ 11 ≤ (e + 1075).toNat + 1 by omega)]
  simp only [hbits]
  split_ifs <;> rfl

/-- What is stored of a number is finite, unless its exponent is too large. -/
lemma Low.unpack_pack {b : ℤ} {x : UnpackedFloat} (h : Low b x) (hlow : -1074 ≤ b)
    (hhigh : b ≤ 971) : Low b (Float.Model.pack x).unpack := by
  cases h with
  | zero s => cases s <;> exact .zero _
  | @finite s m e hm he =>
    change Low b (UnpackedFloat.unpack Format.binary64 (UnpackedFloat.pack Format.binary64 _))
    have hle := toNat_exponentField_le m (he.trans hhigh)
    rw [pack_finite hm (he.trans hhigh)]
    refine low_unpack hlow ?_ ?_
    · rw [unpackExponent_packComponents]
      omega
    · rw [unpackExponent_packComponents]
      exact ne_neg_one_of_toNat_lt (by omega)

/-- A number that is finite or too large is stored as such, and never as no number. -/
lemma isNaN_unpack_pack {x : UnpackedFloat} (h : x.isNaN = false) :
    (Float.Model.pack x).unpack.isNaN = false := by
  cases x with
  | notANumber => cases h
  | infinity s => cases s <;> rfl
  | zero s => cases s <;> rfl
  | finite s m e hm =>
    by_cases he : e ≤ 971
    · have hlow : Low 971 (.finite s m e hm) := .finite hm he
      exact (hlow.unpack_pack (by omega) le_rfl).isNaN_eq
    · have hinfinite : UnpackedFloat.pack Format.binary64 (.finite s m e hm) =
          packedInfinity Format.binary64 s := by
        unfold UnpackedFloat.pack
        dsimp only
        refine if_pos ?_
        change 2 ^ 11 ≤ (e + 1023 + 52).toNat + 1
        omega
      change (UnpackedFloat.unpack Format.binary64 (UnpackedFloat.pack Format.binary64 _)).isNaN = _
      rw [hinfinite]
      cases s <;> rfl

/-! ### Operations -/

lemma low_ofNat {n : ℕ} (hn : n < 2 ^ 64) : Low 12 (UnpackedFloat.ofNat Format.binary64 n) := by
  unfold UnpackedFloat.ofNat UnpackedFloat.ofInt UnpackedFloat.normalize
  split
  · next h =>
    have := Int.compare_eq_lt.mp h
    omega
  · exact .zero _
  · next h =>
    have hpos := Int.compare_eq_gt.mp h
    have hlog : n.log2 < 64 := (Nat.log2_lt (by omega)).mpr hn
    unfold UnpackedFloat.round decreaseExponent
    dsimp only
    rw [Int.toNat_natCast]
    generalize (0 - Format.binary64.targetExponent (totalExponent n 0)).toNat = k
    have hshift : (n <<< k).log2 = k + n.log2 := by
      rw [Nat.shiftLeft_eq, mul_comm]
      exact log2_pow_mul (by omega) k
    refine low_round _ _ (by omega) ?_ (by omega)
    rw [totalExponent, hshift]
    push_cast
    omega

/-- A word is a small number. -/
lemma low_toFloat (w : UInt64) : Low 12 w.toFloat.toModel.unpack := by
  rw [unpack_toFloat]
  exact (low_ofNat w.toNat_lt).unpack_pack (by omega) (by omega)

lemma Low.float_div {b : ℤ} {x y : Float} (hx : Low b x.toModel.unpack) (hy : High y.toModel.unpack)
    (hlow : -1074 ≤ b) (hhigh : b + 1 ≤ 971) : Low (b + 1) (x / y).toModel.unpack := by
  rw [unpack_div]
  exact (hx.div (fits_unpack _) hy hlow).unpack_pack (by omega) hhigh

/-- The exponent of a finite number fits. -/
lemma low_of_isFinite {x : Float} (h : x.isFinite) : Low 971 x.toModel.unpack := by
  have hfinite : (UnpackedFloat.unpack Format.binary64 x.toModel.toBits.toBitVec).isFinite := h
  change Low 971 (UnpackedFloat.unpack Format.binary64 x.toModel.toBits.toBitVec)
  generalize x.toModel.toBits.toBitVec = v at hfinite ⊢
  change BitVec Format.binary64.numBits at v
  have hexponent : unpackExponent v ≠ -1#_ := by
    intro heq
    unfold UnpackedFloat.unpack at hfinite
    dsimp only at hfinite
    rw [if_pos heq] at hfinite
    split_ifs at hfinite <;> cases hfinite
  refine low_unpack (by omega) ?_ hexponent
  have hlt : (unpackExponent v).toNat < 2 ^ 11 := BitVec.isLt _
  have hne : (unpackExponent v).toNat ≠ 2047 := fun heq =>
    hexponent (BitVec.eq_of_toNat_eq (heq.trans rfl))
  omega

lemma isFinite_neg {x : Float} (h : x.isFinite) : (-x).isFinite :=
  ((low_of_isFinite h).neg.unpack_pack (by omega) le_rfl).isFinite

lemma isNaN_round (s : Sign) (m : ℕ) (e : ℤ) (a : Accuracy) :
    (roundWithAccuracy Format.binary64 s m e a).isNaN = false := by
  obtain ⟨k, r, k', -, -, -, -, heq⟩ := round_eq s m e a
  rw [heq]
  split_ifs <;> rfl

lemma Low.isNaN_mul {b : ℤ} {x y : UnpackedFloat} (hx : Low b x) (hy : Low b y) :
    (UnpackedFloat.mul Format.binary64 x y).isNaN = false := by
  cases hx <;> cases hy
  · rfl
  · rfl
  · rfl
  · exact isNaN_round _ _ _ _

/-- A product of finite numbers is finite or too large. -/
lemma isFinite_mul {x y : Float} (hx : x.isFinite) (hy : y.isFinite) (h : (x * y).isInf = false) :
    (x * y).isFinite := by
  have hnumber : (x * y).toModel.unpack.isNaN = false := by
    rw [unpack_mul]
    exact isNaN_unpack_pack ((low_of_isFinite hx).isNaN_mul (low_of_isFinite hy))
  have hinf : (x * y).toModel.unpack.isInf = false := h
  change (x * y).toModel.unpack.isFinite
  cases hval : (x * y).toModel.unpack with
  | notANumber => rw [hval] at hnumber; cases hnumber
  | infinity s => rw [hval] at hinf; cases hinf
  | zero s => rfl
  | finite s m e hm => rfl

/-! ### Numbers with all their digits -/

/-- A number with digits enough is rounded to the digits that the format keeps. -/
lemma round_normal {m : ℕ} {e : ℤ} (s : Sign) (a : Accuracy) (hm : 52 ≤ m.log2)
    (he : -1074 ≤ m.log2 + e - 52) :
    ∃ m' e', ∃ h : 0 < m', roundWithAccuracy Format.binary64 s m e a = .finite s m' e' h ∧
      m'.log2 = 52 ∧ m.log2 + e - 52 ≤ e' ∧ e' ≤ m.log2 + e - 51 := by
  obtain ⟨k, r, k', hk, hle, hge, hk', heq⟩ := round_eq s m e a
  unfold totalExponent at hk hk'
  have hm0 : m ≠ 0 := by rintro rfl; simp at hm
  have hquotient : m / 2 ^ k ≠ 0 := div_pow_ne_zero hm0 (by omega)
  -- the first shift leaves the digits that are kept, and rounding may carry into one more
  have hlog : (m / 2 ^ k).log2 = 52 := by
    have := log2_div_pow hquotient
    omega
  have hr0 : r ≠ 0 := ((Nat.pos_of_ne_zero hquotient).trans_le hle).ne'
  have hrlow : 52 ≤ r.log2 :=
    (Nat.le_log2 hr0).mpr (le_trans ((Nat.le_log2 hquotient).mp hlog.ge) hle)
  have hrhigh : r.log2 ≤ 53 := (log2_le_of_le_succ hge).trans (by omega)
  have hquotient' : r / 2 ^ k' ≠ 0 := div_pow_ne_zero hr0 (by omega)
  have hlog' := log2_div_pow hquotient'
  rw [heq, dif_neg hquotient']
  exact ⟨_, _, _, rfl, by omega, by omega, by omega⟩

/-- The leading digit is not stored, and stands again in front of what is. -/
lemma le_log2_append {n : ℕ} (v : BitVec n) : n ≤ (1#1 ++ v).toNat.log2 := by
  have hle : 2 ^ n ≤ (1#1 ++ v).toNat := by
    rw [BitVec.toNat_append, BitVec.toNat_ofNat, Nat.shiftLeft_eq]
    exact (by simp : 2 ^ n ≤ 1 % 2 ^ 1 * 2 ^ n).trans Nat.left_le_or
  exact (Nat.le_log2 (Nat.pos_iff_ne_zero.mp (lt_of_lt_of_le (by positivity) hle))).mpr hle

lemma high_unpack {v : BitVec Format.binary64.numBits} (h : 1023 ≤ (unpackExponent v).toNat)
    (hfinite : unpackExponent v ≠ -1#_) : High (UnpackedFloat.unpack Format.binary64 v) := by
  have hzero : unpackExponent v ≠ 0#_ := by
    intro heq
    rw [heq] at h
    exact absurd h (by decide)
  unfold UnpackedFloat.unpack
  dsimp only
  rw [if_neg hfinite, if_neg hzero]
  refine .finite _ ?_
  have hdigits : 52 ≤ (1#1 ++ unpackMantissa v).toNat.log2 := le_log2_append _
  change 1 ≤ ((1#1 ++ unpackMantissa v).toNat.log2 : ℤ) + 1 + ((unpackExponent v).toNat - 1075)
  omega

/-- A number with all the digits that the format keeps is stored with its exponent. -/
lemma high_unpack_pack {s : Sign} {m : ℕ} {e : ℤ} (hm : 0 < m) (hlog : m.log2 = 52)
    (hlow : -52 ≤ e) (hhigh : e ≤ 971) : High (Float.Model.pack (.finite s m e hm)).unpack := by
  change High (UnpackedFloat.unpack Format.binary64 (UnpackedFloat.pack Format.binary64 _))
  have hfield := toNat_exponentField hlog hhigh
  rw [pack_finite hm hhigh]
  refine high_unpack ?_ ?_
  · rw [unpackExponent_packComponents]
    omega
  · rw [unpackExponent_packComponents]
    exact ne_neg_one_of_toNat_lt (by omega)

/-- A power of ten is rounded once. -/
lemma ofScientific_one {n : ℕ} (h : n ≤ 2048) :
    UnpackedFloat.ofScientific Format.binary64 1 n =
      roundWithAccuracy Format.binary64 .positive (2 ^ 53 * 10 ^ n) (-53) .exact := by
  have hhigh : ¬(n : ℤ) > 2 ^ Format.binary64.exponentBits := by
    change ¬(n : ℤ) > 2 ^ 11
    omega
  have hlow : ¬(n : ℤ) < -(2 ^ Format.binary64.exponentBits + (Nat.log2 1 : ℕ)) := by
    change ¬(n : ℤ) < -(2 ^ 11 + (0 : ℕ))
    omega
  rw [UnpackedFloat.ofScientific, dif_neg (by omega), if_neg hhigh, if_neg hlow,
    if_pos (by omega)]
  rfl

end Dissect.Decimal
