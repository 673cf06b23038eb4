import Mathlib
import Dissect.Json.Print
import Dissect.Json.Read
import Dissect.Json.Record
import Dissect.Proofs.Decimal.Finite
import Dissect.Proofs.Numeral

/-!
Numbers in documents.

The text of a number is read up to what does not go on with it, so it is read alike wherever it
stands. A whole number is read as the word it is, as long as it fits, and no word that is read is
larger. A floating-point number that is read is finite: scaling by powers of ten starts from a word,
divides four times at most, and refuses a product that is too large.
-/

namespace Dissect.Json

open Numeral (digits digitLower)

/-! ### Texts of numbers -/

/-- What stands behind a number does not go on with it. -/
def EndsNumber (after : List Char) : Prop :=
  ∀ c ∈ after.head?, isDigit c = false ∧ c ≠ '.' ∧ c ≠ 'e' ∧ c ≠ 'E'

variable {cs ds rest after : List Char}

lemma readDigits_append (hafter : EndsNumber after) (h : readDigits cs = some (ds, rest)) :
    readDigits (cs ++ after) = some (ds, rest ++ after) := by
  have hnone : after.takeWhile isDigit = [] ∧ after.dropWhile isDigit = after := by
    rcases after with _ | ⟨c, after⟩
    · exact ⟨rfl, rfl⟩
    · have hc := (hafter c rfl).1
      simp [hc]
  have htake : (cs ++ after).takeWhile isDigit = cs.takeWhile isDigit := by
    rw [List.takeWhile_append, hnone.1, List.append_nil]
    split_ifs with hlength
    · exact ((List.takeWhile_prefix isDigit).eq_of_length hlength).symm
    · rfl
  have hdrop : (cs ++ after).dropWhile isDigit = cs.dropWhile isDigit ++ after := by
    rw [List.dropWhile_append, hnone.2]
    split_ifs with hempty
    · rw [List.isEmpty_iff.mp hempty, List.nil_append]
    · rfl
  unfold readDigits at h ⊢
  dsimp only at h ⊢
  rw [htake, hdrop]
  split_ifs at h ⊢
  cases h
  rfl

lemma readWhole_append (hafter : EndsNumber after) (h : readWhole cs = some (ds, rest)) :
    readWhole (cs ++ after) = some (ds, rest ++ after) := by
  unfold readWhole at h ⊢
  split at h
  · next ds' rest' hdigits =>
    rw [readDigits_append hafter hdigits]
    dsimp only
    split_ifs at h ⊢
    cases h
    rfl
  · cases h

lemma readFraction_append {fraction : Option (List Char)} (hafter : EndsNumber after)
    (h : readFraction cs = some (fraction, rest)) :
    readFraction (cs ++ after) = some (fraction, rest ++ after) := by
  unfold readFraction at h
  split at h
  · next cs =>
    obtain ⟨⟨ds, rest⟩, hdigits, heq⟩ := Option.map_eq_some_iff.mp h
    cases heq
    rw [List.cons_append, readFraction, readDigits_append hafter hdigits]
    rfl
  · next hpoint =>
    cases h
    unfold readFraction
    split
    · next cs' heq =>
      rcases cs with _ | ⟨c, cs⟩
      · rw [List.nil_append] at heq
        exact absurd rfl (hafter '.' (by rw [heq]; rfl)).2.1
      · obtain ⟨rfl, -⟩ := List.cons.inj heq
        exact absurd rfl (hpoint cs)
    · rfl

lemma readPower_append {power : Option (Bool × List Char)} (hafter : EndsNumber after)
    (h : readPower cs = some (power, rest)) :
    readPower (cs ++ after) = some (power, rest ++ after) := by
  rcases cs with _ | ⟨c, cs⟩
  · cases h
    rw [List.nil_append]
    rcases after with _ | ⟨c, after⟩
    · rfl
    · have hc := hafter c rfl
      simp [readPower, hc.2.2]
  · rw [List.cons_append]
    unfold readPower at h ⊢
    dsimp only at h ⊢
    split_ifs at h ⊢ with hc
    · have hdigits {down : Bool} {cs : List Char}
          (h : (readDigits cs).map (fun p => (some (down, p.1), p.2)) = some (power, rest)) :
          (readDigits (cs ++ after)).map (fun p => (some (down, p.1), p.2)) =
            some (power, rest ++ after) := by
        obtain ⟨⟨ds, rest⟩, hdigits, heq⟩ := Option.map_eq_some_iff.mp h
        cases heq
        rw [readDigits_append hafter hdigits]
        rfl
      rcases cs with _ | ⟨d, cs⟩
      · simp [readDigits] at h
      · rw [List.cons_append]
        split at h
        · next heq =>
          obtain ⟨rfl, rfl⟩ := List.cons.inj heq
          exact hdigits h
        · next heq =>
          obtain ⟨rfl, rfl⟩ := List.cons.inj heq
          exact hdigits h
        · next hdown hup =>
          split
          · next heq =>
            obtain ⟨rfl, rfl⟩ := List.cons.inj heq
            exact absurd rfl (hdown _)
          · next heq =>
            obtain ⟨rfl, rfl⟩ := List.cons.inj heq
            exact absurd rfl (hup _)
          · exact hdigits h
    · cases h
      rfl

/-- A number behind its sign. -/
def readUnsigned (negative : Bool) (cs : List Char) : Option (NumberSource × List Char) := do
  let (whole, cs) ← readWhole cs
  let (fraction, cs) ← readFraction cs
  let (power, cs) ← readPower cs
  return ({ negative, whole, fraction, power }, cs)

lemma readNumber_of_head?_ne (h : cs.head? ≠ some '-') : readNumber cs = readUnsigned false cs := by
  unfold readNumber
  split
  next heq =>
  split at heq
  · exact absurd rfl h
  · cases heq
    rfl

lemma readUnsigned_append {negative : Bool} {n : NumberSource} (hafter : EndsNumber after)
    (h : readUnsigned negative cs = some (n, rest)) :
    readUnsigned negative (cs ++ after) = some (n, rest ++ after) := by
  obtain ⟨⟨whole, cs₁⟩, hwhole, h⟩ := Option.bind_eq_some_iff.mp h
  obtain ⟨⟨fraction, cs₂⟩, hfraction, h⟩ := Option.bind_eq_some_iff.mp h
  obtain ⟨⟨power, cs₃⟩, hpower, h⟩ := Option.bind_eq_some_iff.mp h
  cases h
  refine Option.bind_eq_some_iff.mpr ⟨_, readWhole_append hafter hwhole, ?_⟩
  refine Option.bind_eq_some_iff.mpr ⟨_, readFraction_append hafter hfraction, ?_⟩
  exact Option.bind_eq_some_iff.mpr ⟨_, readPower_append hafter hpower, rfl⟩

lemma exists_digit_of_readUnsigned {negative : Bool} {n : NumberSource}
    (h : readUnsigned negative cs = some (n, rest)) : ∃ c cs', cs = c :: cs' ∧ isDigit c := by
  obtain ⟨⟨whole, cs₁⟩, hwhole, -⟩ := Option.bind_eq_some_iff.mp h
  unfold readWhole readDigits at hwhole
  rcases cs with _ | ⟨c, cs⟩
  · simp at hwhole
  · by_cases hc : isDigit c
    · exact ⟨c, cs, rfl, hc⟩
    · simp [hc] at hwhole

/-- A number starts with its sign or with a digit. -/
lemma exists_head_of_readNumber {n : NumberSource} (h : readNumber cs = some (n, rest)) :
    ∃ c cs', cs = c :: cs' ∧ (c = '-' ∨ isDigit c) := by
  by_cases hminus : cs.head? = some '-'
  · obtain ⟨cs', rfl⟩ := List.head?_eq_some_iff.mp hminus
    exact ⟨'-', cs', rfl, .inl rfl⟩
  · rw [readNumber_of_head?_ne hminus] at h
    obtain ⟨c, cs', rfl, hc⟩ := exists_digit_of_readUnsigned h
    exact ⟨c, cs', rfl, .inr hc⟩

/-- A number is read the same way in front of characters that do not go on with it. -/
lemma readNumber_append {n : NumberSource} (hafter : EndsNumber after)
    (h : readNumber cs = some (n, rest)) : readNumber (cs ++ after) = some (n, rest ++ after) := by
  by_cases hminus : cs.head? = some '-'
  · obtain ⟨cs', rfl⟩ := List.head?_eq_some_iff.mp hminus
    exact readUnsigned_append hafter h
  · obtain ⟨c, cs', rfl, -⟩ := exists_head_of_readNumber h
    rw [readNumber_of_head?_ne hminus] at h
    rw [readNumber_of_head?_ne (by simpa using hminus)]
    exact readUnsigned_append hafter h

/-! ### Whole numbers -/

/-- There is room for all the digits of a number. -/
lemma lt_pow_log2 (n : ℕ) : n < 10 ^ (n.log2 + 1) :=
  lt_of_lt_of_le Nat.lt_log2_self (Nat.pow_le_pow_left (by omega) _)

lemma isDigit_digitLower : ∀ d < 10, isDigit (digitLower d) := by decide

lemma isDigit_of_mem_digits {n : ℕ} {c : Char} (h : c ∈ digits 10 digitLower n) : isDigit c := by
  obtain ⟨d, hd, rfl⟩ := Numeral.mem_digitsAux (by omega) h
  exact isDigit_digitLower d hd

/-- The first digit of a number is not zero, unless the number is. -/
lemma exists_first_digit {fuel n : ℕ} (hn : n ≠ 0) (hfuel : n < 10 ^ fuel) :
    ∃ d cs, Numeral.digitsAux 10 digitLower fuel n [] = digitLower d :: cs ∧ d < 10 ∧ d ≠ 0 := by
  induction fuel generalizing n with
  | zero => omega
  | succ fuel ih =>
    rw [Numeral.digitsAux]
    split_ifs with hdiv
    · exact ⟨n % 10, [], rfl, by omega, by omega⟩
    · obtain ⟨d, cs, heq, hd⟩ := ih hdiv (by omega)
      rw [Numeral.digitsAux_append, heq]
      exact ⟨d, _, rfl, hd⟩

lemma readDigits_digits (n : ℕ) :
    readDigits (digits 10 digitLower n) = some (digits 10 digitLower n, []) := by
  have hall : ∀ c ∈ digits 10 digitLower n, isDigit c := fun c hc => isDigit_of_mem_digits hc
  have hne := Numeral.digits_ne_nil 10 digitLower n
  simp [readDigits, List.takeWhile_eq_self_iff.mpr hall, List.dropWhile_eq_nil_iff.mpr hall, hne]

/-- A whole number as it is written. -/
def wordSource (n : ℕ) : NumberSource :=
  { negative := false, whole := digits 10 digitLower n, fraction := none, power := none }

/-- The digits of a number are read as the number in front of the point. -/
lemma readNumber_digits (n : ℕ) :
    readNumber (digits 10 digitLower n) = some (wordSource n, []) := by
  have hzero : ¬((digits 10 digitLower n).head? = some '0' ∧
      1 < (digits 10 digitLower n).length) := by
    rintro ⟨hhead, hlength⟩
    rcases eq_or_ne n 0 with rfl | hn
    · exact absurd hlength (by decide)
    · have hdigit : ∀ d < 10, d ≠ 0 → digitLower d ≠ '0' := by decide
      obtain ⟨d, cs, heq, hlt, hne⟩ := exists_first_digit hn (lt_pow_log2 n)
      rw [digits, heq] at hhead
      exact hdigit d hlt hne (by simpa using hhead)
  have hwhole : readWhole (digits 10 digitLower n) = some (digits 10 digitLower n, []) := by
    rw [readWhole, readDigits_digits]
    simpa using hzero
  have hminus : (digits 10 digitLower n).head? ≠ some '-' := by
    intro hhead
    exact absurd (isDigit_of_mem_digits (List.mem_of_mem_head? hhead)) (by decide)
  rw [readNumber_of_head?_ne hminus, readUnsigned, hwhole]
  rfl

/-! ### Words -/

lemma gatherWhole_of_valueBelow? {acc n : ℕ}
    (h : Numeral.valueBelow? UInt64.size 10 Numeral.decimalValue? acc ds = some n) :
    gatherWhole acc ds = (n, 0) := by
  induction ds generalizing acc with
  | nil =>
    obtain rfl := Option.some.inj h
    rfl
  | cons d ds ih =>
    rw [Numeral.valueBelow?] at h
    split at h
    · next v hv =>
      dsimp only at h
      split_ifs at h with hlt
      rw [gatherWhole, digitValue, hv, Option.getD_some, if_pos hlt, ih h]
    · cases h

lemma gatherWhole_digits {n : ℕ} (hn : n < UInt64.size) :
    gatherWhole 0 (digits 10 digitLower n) = (n, 0) :=
  gatherWhole_of_valueBelow? (Numeral.valueBelow?_digitsAux (by decide) (lt_pow_log2 n) hn)

lemma gatherWhole_lt {acc : ℕ} (hacc : acc < UInt64.size) (ds : List Char) :
    (gatherWhole acc ds).1 < UInt64.size := by
  induction ds generalizing acc with
  | nil => exact hacc
  | cons d ds ih =>
    rw [gatherWhole]
    split_ifs with hnext
    · exact ih hnext
    · exact hacc

lemma nat?_wordSource {n : ℕ} (hn : n < UInt64.size) :
    (Source.number (wordSource n)).nat? = some n := by
  have hvalue : (wordSource n).value? = some (.word n) := by
    rw [NumberSource.value?, wordSource]
    dsimp only
    rw [gatherWhole_digits hn]
    rfl
  rw [Source.nat?, hvalue]

lemma eq_gatherWhole_of_value? {n : NumberSource} {m : ℕ} (h : n.value? = some (.word m)) :
    m = (gatherWhole 0 n.whole).1 := by
  unfold NumberSource.value? at h
  dsimp only at h
  split at h
  · split at h
    · obtain ⟨x, -, hx⟩ := Option.map_eq_some_iff.mp h
      cases hx
    · split_ifs at h
      cases Option.some.inj h
  · split_ifs at h with hword hnegative
    · cases Option.some.inj h
    · rw [Bool.and_eq_true, Option.isNone_iff_eq_none] at hword
      rw [hword.1] at h
      exact (Number.word.inj (Option.some.inj h)).symm
    · obtain ⟨x, -, hx⟩ := Option.map_eq_some_iff.mp h
      cases hx

/-- No word that is read is larger than 64 bits. -/
theorem lt_of_nat?_eq_some {source : Source} {n : ℕ} (h : source.nat? = some n) :
    n < UInt64.size := by
  unfold Source.nat? at h
  split at h
  · split at h
    · next m hvalue =>
      obtain rfl := Option.some.inj h
      rw [eq_gatherWhole_of_value? hvalue]
      exact gatherWhole_lt (by decide) _
    · cases h
  · cases h

/-! ### Powers of ten -/

open Decimal
open Float.Model Float.Model.UnpackedFloat

lemma powerOfTen_eq {n : ℕ} (h : 22 < n) :
    (powerOfTen n).toModel.unpack =
      (Float.Model.pack (UnpackedFloat.ofScientific Format.binary64 1 n)).unpack := by
  rw [powerOfTen, Float.ofScientific, dif_neg (by omega)]
  rfl

/-- The powers of ten that are used are not small, and not too large. -/
lemma high_powerOfTen {n : ℕ} (h : n ≤ 308) : High (powerOfTen n).toModel.unpack := by
  -- the first powers are products, and the last one is close to the largest number
  have hends : ∀ n ∈ 308 :: List.range 23, High (powerOfTen n).toModel.unpack := by
    decide +kernel
  by_cases hn : n ∈ 308 :: List.range 23
  · exact hends n hn
  · simp only [List.mem_cons, List.mem_range, not_or, not_lt] at hn
    have hpos : 0 < 10 ^ n := by positivity
    have hlog := log2_pow_mul hpos 53
    have hlow : 52 ≤ (10 ^ n).log2 :=
      (Nat.le_log2 hpos.ne').mpr
        (le_trans (by norm_num) (Nat.pow_le_pow_right (by omega) hn.2))
    have hhigh : (10 ^ n).log2 < 1021 :=
      (Nat.log2_lt hpos.ne').mpr
        (lt_of_le_of_lt (Nat.pow_le_pow_right (by omega) (show n ≤ 307 by omega))
          (by decide +kernel))
    obtain ⟨m, e, hm, heq, hdigits, hle, hge⟩ :=
      round_normal (m := 2 ^ 53 * 10 ^ n) (e := -53) .positive .exact (by omega) (by omega)
    rw [powerOfTen_eq (by omega), ofScientific_one (by omega), heq]
    exact high_unpack_pack hm hdigits (by omega) (by omega)

lemma isFinite_powerOfTen {n : ℕ} (h : n ≤ 308) : (powerOfTen n).isFinite :=
  (high_powerOfTen h).isFinite

/-! ### Scaled numbers -/

/-- What is left after scaling is finite; what would be too large is refused. -/
lemma isFinite_scale {b : ℤ} {fuel : ℕ} {x y : Float} {power : ℤ}
    (hx : Low b x.toModel.unpack) (hlow : -1074 ≤ b) (hhigh : b + fuel ≤ 971)
    (h : scale fuel x power = some y) : y.isFinite := by
  induction fuel generalizing b x power with
  | zero =>
    obtain rfl : x = y := by simpa [scale] using h
    exact hx.isFinite
  | succ fuel ih =>
    rw [scale] at h
    dsimp only at h
    push_cast at hhigh
    split_ifs at h with hsmall hpos hinf hzero
    · obtain rfl := Option.some.inj h
      exact isFinite_mul hx.isFinite (isFinite_powerOfTen hsmall) (by simpa using hinf)
    · obtain rfl := Option.some.inj h
      exact (hx.float_div (high_powerOfTen hsmall) hlow (by omega)).isFinite
    · obtain rfl := Option.some.inj h
      exact hx.isFinite
    · exact ih (hx.float_div (high_powerOfTen le_rfl) hlow (by omega)) (by omega) (by omega) h

lemma isFinite_signed {x : Float} (negative : Bool) (h : x.isFinite) :
    (signed negative x).isFinite := by
  cases negative
  · exact h
  · exact isFinite_neg h

/-- **A number that is read is finite.** -/
theorem isFinite_value {n : NumberSource} {x : Float} (h : n.value? = some (.float x)) :
    x.isFinite := by
  have hscaled {m : ℕ} {power : ℤ} (h : ((scale 4 (UInt64.ofNat m).toFloat power).map fun x =>
      Number.float (signed n.negative x)) = some (.float x)) : x.isFinite := by
    obtain ⟨y, hy, heq⟩ := Option.map_eq_some_iff.mp h
    obtain rfl := Number.float.inj heq
    exact isFinite_signed _ (isFinite_scale (low_toFloat _) (by omega) (by omega) hy)
  unfold NumberSource.value? at h
  dsimp only at h
  split at h
  · split at h
    · exact hscaled h
    · split_ifs at h
      obtain rfl := Number.float.inj (Option.some.inj h)
      exact isFinite_signed _ (by decide +kernel)
  · split_ifs at h
    · obtain rfl := Number.float.inj (Option.some.inj h)
      exact isFinite_neg (low_toFloat _).isFinite
    · cases h
    · exact hscaled h

/-- A value that is read as a number is finite. -/
theorem isFinite_float {source : Source} {x : Float} (h : source.float? = some x) :
    x.isFinite := by
  unfold Source.float? at h
  split at h
  · split at h
    · obtain rfl := Option.some.inj h
      exact (low_toFloat _).isFinite
    · next hvalue =>
      obtain rfl := Option.some.inj h
      exact isFinite_value hvalue
    · cases h
  · cases h

/-! ### Texts of floating-point numbers -/

/-- What is read of the text of a floating-point number. -/
def floatSource (x : Float) : NumberSource :=
  match readNumber (Decimal.write numberStyle x).toList with
  | some (n, _) => n
  | none => { negative := false, whole := [], fraction := none, power := none }

/-- The text of a floating-point number is read as that number. -/
def Recovers (x : Float) : Prop :=
  (Source.read? (Decimal.write numberStyle x)).bind Source.float? = some x

instance (x : Float) : Decidable (Recovers x) := inferInstanceAs (Decidable (_ = _))

lemma mem_dropZeros {ds : List Char} {c : Char} (h : c ∈ Decimal.dropZeros ds) : c ∈ ds := by
  rw [Decimal.dropZeros, List.mem_reverse] at h
  exact List.mem_reverse.mp ((List.dropWhile_sublist _).mem h)

/-- A character of the text of a number. -/
def IsNumberChar (c : Char) : Prop := isDigit c ∨ c = '-' ∨ c = '+' ∨ c = '.' ∨ c = 'e'

lemma isNumberChar_zero : IsNumberChar '0' := .inl rfl

lemma isNumberChar_of_mem_writeDigits {ds : List Char} (hds : ∀ c ∈ ds, isDigit c) (point : ℤ) :
    ∀ c ∈ Decimal.writeDigits numberStyle ds point, IsNumberChar c := by
  have hdigits {ds' : List Char} (hsub : ds' ⊆ ds) : ∀ c ∈ ds', IsNumberChar c :=
    fun c hc => .inl (hds c (hsub hc))
  have hzeros (n : ℕ) : ∀ c ∈ List.replicate n '0', IsNumberChar c := fun c hc => by
    rw [List.eq_of_mem_replicate hc]
    exact .inl rfl
  have hpoint : IsNumberChar '.' := .inr (.inr (.inr (.inl rfl)))
  have hmark (power : ℤ) :
      ∀ c ∈ 'e' :: (if power < 0 then ['-'] else numberStyle.risingMark.toList) ++
        digits 10 digitLower power.natAbs, IsNumberChar c := by
    have hsign : ∀ c ∈ 'e' :: (if power < 0 then ['-'] else numberStyle.risingMark.toList),
        IsNumberChar c := by
      split_ifs <;> simp [IsNumberChar, numberStyle]
    exact List.forall_mem_append.mpr ⟨hsign, fun c hc => .inl (isDigit_of_mem_digits hc)⟩
  unfold Decimal.writeDigits
  dsimp only
  split
  · split_ifs
    · refine List.forall_mem_append.mpr ⟨?_, hdigits (List.Subset.refl _)⟩
      exact List.forall_mem_cons.mpr
        ⟨isNumberChar_zero, List.forall_mem_cons.mpr ⟨hpoint, hzeros _⟩⟩
    · refine List.forall_mem_append.mpr
        ⟨List.forall_mem_append.mpr ⟨hdigits (List.Subset.refl _), hzeros _⟩, ?_⟩
      simp [numberStyle, isNumberChar_zero, hpoint]
    · refine List.forall_mem_append.mpr ⟨hdigits (List.take_subset _ _), ?_⟩
      exact List.forall_mem_cons.mpr ⟨hpoint, hdigits (List.drop_subset _ _)⟩
  · have hall := hmark (point - 1)
    generalize ('e' :: (if point - 1 < 0 then ['-'] else numberStyle.risingMark.toList)) ++
      digits 10 digitLower (point - 1).natAbs = mark at hall
    split
    · exact List.forall_mem_cons.mpr ⟨.inl (hds _ (by simp)), hall⟩
    · next d rest _ =>
      refine List.forall_mem_append.mpr ⟨?_, hall⟩
      refine List.forall_mem_cons.mpr ⟨.inl (hds _ (by simp)), ?_⟩
      exact List.forall_mem_cons.mpr ⟨hpoint, hdigits (List.subset_cons_self d rest)⟩
    · exact hall

lemma isNumberChar_of_mem_write (x : Float) :
    ∀ c ∈ (Decimal.write numberStyle x).toList, IsNumberChar c := by
  have hsign : ∀ c ∈ (if Decimal.isNegative x then ['-'] else []), IsNumberChar c := by
    split_ifs <;> simp [IsNumberChar]
  unfold Decimal.write
  dsimp only
  split
  · rw [String.toList_ofList]
    refine List.forall_mem_append.mpr ⟨hsign, ?_⟩
    simp [numberStyle, IsNumberChar, isDigit]
  · rw [String.toList_ofList]
    refine List.forall_mem_append.mpr ⟨hsign, isNumberChar_of_mem_writeDigits ?_ _⟩
    exact fun c hc => isDigit_of_mem_digits (mem_dropZeros hc)

lemma IsNumberChar.not_isBlank {c : Char} (h : IsNumberChar c) : isBlank c = false := by
  by_contra hblank
  rw [Bool.not_eq_false, isBlank] at hblank
  simp only [Bool.or_eq_true, beq_iff_eq] at hblank
  unfold IsNumberChar at h
  rcases hblank with ((rfl | rfl) | rfl) | rfl <;> exact absurd h (by decide)

lemma skipBlanks_cons {c : Char} (h : isBlank c = false) (cs : List Char) :
    skipBlanks (c :: cs) = c :: cs := by
  simp [skipBlanks, h]

lemma skipBlanks_of_isNumberChar (h : ∀ c ∈ cs, IsNumberChar c) : skipBlanks cs = cs := by
  rcases cs with _ | ⟨c, cs⟩
  · rfl
  · exact skipBlanks_cons (h c (by simp)).not_isBlank cs

lemma suffix_of_readDigits (h : readDigits cs = some (ds, rest)) : rest <:+ cs := by
  unfold readDigits at h
  dsimp only at h
  split_ifs at h
  cases h
  exact List.dropWhile_suffix _

lemma suffix_of_readWhole (h : readWhole cs = some (ds, rest)) : rest <:+ cs := by
  unfold readWhole at h
  split at h
  · next hdigits =>
    split_ifs at h
    cases h
    exact suffix_of_readDigits hdigits
  · cases h

lemma suffix_of_readFraction {fraction : Option (List Char)}
    (h : readFraction cs = some (fraction, rest)) : rest <:+ cs := by
  unfold readFraction at h
  split at h
  · obtain ⟨⟨ds, rest⟩, hdigits, heq⟩ := Option.map_eq_some_iff.mp h
    cases heq
    exact (suffix_of_readDigits hdigits).trans (List.suffix_cons _ _)
  · cases h
    exact List.suffix_rfl

lemma suffix_of_readPower {power : Option (Bool × List Char)}
    (h : readPower cs = some (power, rest)) : rest <:+ cs := by
  have hdigits {down : Bool} {cs : List Char}
      (h : (readDigits cs).map (fun p => (some (down, p.1), p.2)) = some (power, rest)) :
      rest <:+ cs := by
    obtain ⟨⟨ds, rest⟩, hdigits, heq⟩ := Option.map_eq_some_iff.mp h
    cases heq
    exact suffix_of_readDigits hdigits
  unfold readPower at h
  split at h
  · next c cs =>
    split_ifs at h
    · refine List.IsSuffix.trans ?_ (List.suffix_cons c cs)
      split at h
      · exact (hdigits h).trans (List.suffix_cons _ _)
      · exact (hdigits h).trans (List.suffix_cons _ _)
      · exact hdigits h
    · cases h
      exact List.suffix_rfl
  · cases h
    exact List.suffix_rfl

lemma suffix_of_readNumber {n : NumberSource} (h : readNumber cs = some (n, rest)) :
    rest <:+ cs := by
  have hunsigned {negative : Bool} {cs : List Char}
      (h : readUnsigned negative cs = some (n, rest)) : rest <:+ cs := by
    obtain ⟨⟨whole, cs₁⟩, hwhole, h⟩ := Option.bind_eq_some_iff.mp h
    obtain ⟨⟨fraction, cs₂⟩, hfraction, h⟩ := Option.bind_eq_some_iff.mp h
    obtain ⟨⟨power, cs₃⟩, hpower, h⟩ := Option.bind_eq_some_iff.mp h
    cases h
    exact (suffix_of_readPower hpower).trans
      ((suffix_of_readFraction hfraction).trans (suffix_of_readWhole hwhole))
  by_cases hminus : cs.head? = some '-'
  · obtain ⟨cs', rfl⟩ := List.head?_eq_some_iff.mp hminus
    exact (hunsigned h).trans (List.suffix_cons _ _)
  · rw [readNumber_of_head?_ne hminus] at h
    exact hunsigned h

lemma readNumber_of_readValue {n : NumberSource} {fuel : ℕ}
    (h : readValue fuel cs = some (.number n, rest)) : readNumber cs = some (n, rest) := by
  rcases fuel with _ | fuel
  · simp [readValue] at h
  · unfold readValue at h
    split at h
    · cases h
    · cases h
    · cases h
    · obtain ⟨_, -, heq⟩ := Option.map_eq_some_iff.mp h
      cases heq
    · split at h
      · cases h
      · obtain ⟨_, -, heq⟩ := Option.map_eq_some_iff.mp h
        cases heq
    · split at h
      · cases h
      · obtain ⟨_, -, heq⟩ := Option.map_eq_some_iff.mp h
        cases heq
    · obtain ⟨⟨n, rest⟩, hnumber, heq⟩ := Option.map_eq_some_iff.mp h
      cases heq
      exact hnumber

/-- **A number that is recovered is read from its text as a whole.** -/
lemma Recovers.readNumber {x : Float} (h : Recovers x) :
    Json.readNumber (Decimal.write numberStyle x).toList = some (floatSource x, []) ∧
      (Source.number (floatSource x)).float? = some x := by
  obtain ⟨source, hread, hvalue⟩ := Option.bind_eq_some_iff.mp h
  have hchars := isNumberChar_of_mem_write x
  rw [Source.read?, skipBlanks_of_isNumberChar hchars] at hread
  split at hread
  · next source rest hsource =>
    split_ifs at hread with hempty
    cases hread
    obtain ⟨n, rfl⟩ : ∃ n, source = .number n := by
      cases source <;> simp_all [Source.float?]
    have hnumber := readNumber_of_readValue hsource
    -- nothing blank can stand behind the number
    obtain rfl : rest = [] := by
      have hrest : ∀ c ∈ rest, IsNumberChar c :=
        fun c hc => hchars c ((suffix_of_readNumber hnumber).mem hc)
      rw [skipBlanks_of_isNumberChar hrest] at hempty
      exact List.isEmpty_iff.mp hempty
    have hfloat : floatSource x = n := by rw [floatSource, hnumber]
    rw [hfloat]
    exact ⟨hnumber, hvalue⟩
  · cases hread

-- A number with many digits may be missed: its digits are read as a word, and then divided.
example : Recovers 0.7 ∧ ¬Recovers 0.9830571047624649 := by decide +kernel

end Dissect.Json
