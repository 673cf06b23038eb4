import Mathlib
import Dissect.Numeral

/-!
Numbers that are written and read back.

The digits of a number have that number as their value, zeros in front do not change a value, and so
a word that is written in base sixteen reads back as itself.
-/

namespace Dissect.Numeral

section

variable {bound base : ℕ} {value? : Char → Option ℕ}

lemma valueBelow?_append (cs ds : List Char) (acc : ℕ) :
    valueBelow? bound base value? acc (cs ++ ds) =
      (valueBelow? bound base value? acc cs).bind fun v =>
        valueBelow? bound base value? v ds := by
  induction cs generalizing acc with
  | nil => rfl
  | cons c cs ih =>
    rw [List.cons_append, valueBelow?, valueBelow?]
    rcases value? c with _ | d
    · rfl
    · by_cases hd : acc * base + d < bound
      · simp only [hd, if_true, ih]
      · simp only [hd, if_false, Option.bind_none]

lemma valueBelow?_singleton {c : Char} {d acc : ℕ} (hc : value? c = some d)
    (hd : acc * base + d < bound) :
    valueBelow? bound base value? acc [c] = some (acc * base + d) := by
  simp [valueBelow?, hc, hd]

lemma valueBelow?_zeros (hz : value? '0' = some 0) (hb : 0 < bound) (k : ℕ) (cs : List Char) :
    valueBelow? bound base value? 0 (List.replicate k '0' ++ cs) =
      valueBelow? bound base value? 0 cs := by
  induction k with
  | zero => simp
  | succ k ih => simpa [List.replicate_succ, valueBelow?, hz, hb] using ih

/-- Digits are put in front of what is there. -/
lemma digitsAux_append (digit : ℕ → Char) (fuel n : ℕ) (acc : List Char) :
    digitsAux base digit fuel n acc = digitsAux base digit fuel n [] ++ acc := by
  induction fuel generalizing n acc with
  | zero => rfl
  | succ fuel ih =>
    simp only [digitsAux]
    split
    · rfl
    · rw [ih, ih (n / base) [digit (n % base)], List.append_assoc]
      rfl

/-- The value of the digits of a number is the number. -/
lemma valueBelow?_digitsAux {digit : ℕ → Char} (hdigit : ∀ d < base, value? (digit d) = some d)
    {fuel n : ℕ} (hfuel : n < base ^ fuel) (hn : n < bound) :
    valueBelow? bound base value? 0 (digitsAux base digit fuel n []) = some n := by
  induction fuel generalizing n with
  | zero =>
    obtain rfl : n = 0 := by simpa using hfuel
    rfl
  | succ fuel ih =>
    have hbase : 0 < base := by
      by_contra h
      obtain rfl : base = 0 := by omega
      simp at hfuel
    have hlast := hdigit (n % base) (Nat.mod_lt n hbase)
    have hsum : n / base * base + n % base = n := Nat.div_add_mod' n base
    rw [digitsAux]
    split
    · rename_i hz
      have hmod : n % base = n := by rw [hz] at hsum; omega
      rw [valueBelow?_singleton hlast (by omega), hmod]
      simp
    · have hdiv : n / base < base ^ fuel := by
        refine Nat.div_lt_of_lt_mul ?_
        rw [← Nat.pow_succ']
        exact hfuel
      have hle : n / base ≤ n := Nat.div_le_self n base
      rw [digitsAux_append, valueBelow?_append, ih hdiv (by omega), Option.bind_some,
        valueBelow?_singleton hlast (by omega), hsum]

lemma digitsAux_of_lt {digit : ℕ → Char} {fuel n : ℕ} (hn : n < base) :
    digitsAux base digit (fuel + 1) n [] = [digit n] := by
  rw [digitsAux, Nat.mod_eq_of_lt hn, if_pos (Nat.div_eq_of_lt hn)]

/-- The digits of a number are those that the library writes. -/
lemma digitsAux_eq_toDigits {digit : ℕ → Char} (hbase : 1 < base)
    (hdigit : ∀ d < base, digit d = Nat.digitChar d) {fuel n : ℕ} (hfuel : n < base ^ (fuel + 1)) :
    digitsAux base digit (fuel + 1) n [] = Nat.toDigits base n := by
  induction fuel generalizing n with
  | zero =>
    have hn : n < base := by simpa using hfuel
    rw [digitsAux_of_lt hn, hdigit n hn, Nat.toDigits_of_lt_base hn]
  | succ fuel ih =>
    by_cases hn : n < base
    · rw [digitsAux_of_lt hn, hdigit n hn, Nat.toDigits_of_lt_base hn]
    · have hlast : n % base < base := Nat.mod_lt n (by omega)
      have hpos : 0 < n / base := Nat.div_pos (by omega) (by omega)
      have hdiv : n / base < base ^ (fuel + 1) := by
        refine Nat.div_lt_of_lt_mul ?_
        rw [← Nat.pow_succ']
        exact hfuel
      rw [digitsAux, if_neg (by omega), digitsAux_append, ih hdiv, hdigit _ hlast,
        ← Nat.toDigits_of_lt_base hlast, Nat.toDigits_append_toDigits hbase hpos hlast,
        Nat.div_add_mod]

lemma mem_digitsAux {digit : ℕ → Char} (hbase : 0 < base) {fuel n : ℕ} {c : Char}
    (hc : c ∈ digitsAux base digit fuel n []) : ∃ d < base, c = digit d := by
  induction fuel generalizing n with
  | zero => simp [digitsAux] at hc
  | succ fuel ih =>
    have hlast : n % base < base := Nat.mod_lt n hbase
    rw [digitsAux] at hc
    split at hc
    · exact ⟨_, hlast, by simpa using hc⟩
    · rw [digitsAux_append, List.mem_append] at hc
      rcases hc with hc | hc
      · exact ih hc
      · exact ⟨_, hlast, by simpa using hc⟩

end

lemma hexValue?_digitUpper : ∀ d < 16, hexValue? (digitUpper d) = some d := by decide

lemma digits_ne_nil (base : ℕ) (digit : ℕ → Char) (n : ℕ) : digits base digit n ≠ [] := by
  rw [digits, digitsAux]
  split
  · simp
  · rw [digitsAux_append]
    simp

lemma digitLower_eq_digitChar : ∀ d < 16, digitLower d = Nat.digitChar d := by decide

lemma hex_eq_toDigits (n : ℕ) : hex n = String.ofList (Nat.toDigits 16 n) := by
  have hfuel : n < 16 ^ (n.log2 + 1) :=
    lt_of_lt_of_le Nat.lt_log2_self (Nat.pow_le_pow_left (by omega) _)
  rw [hex, digits, digitsAux_eq_toDigits (by omega) digitLower_eq_digitChar hfuel]

/-- The digits that are written hold no sign. -/
lemma plus_not_mem_padded (width n : ℕ) : '+' ∉ padded width (digits 16 digitUpper n) := by
  rw [padded, List.mem_append, not_or]
  refine ⟨fun h => absurd (List.eq_of_mem_replicate h) (by decide), fun h => ?_⟩
  obtain ⟨d, hd, hc⟩ := mem_digitsAux (by omega) h
  have hvalue := hexValue?_digitUpper d hd
  have hnone : hexValue? '+' = none := by decide
  rw [← hc, hnone] at hvalue
  simp at hvalue

lemma valueBelow?_padded {width n : ℕ} (hn : n < 2 ^ 64) :
    valueBelow? UInt64.size 16 hexValue? 0 (padded width (digits 16 digitUpper n)) = some n := by
  have hfuel : n < 16 ^ (n.log2 + 1) :=
    lt_of_lt_of_le Nat.lt_log2_self (Nat.pow_le_pow_left (by omega) _)
  rw [padded, valueBelow?_zeros (by decide) (by decide), digits]
  exact valueBelow?_digitsAux hexValue?_digitUpper hfuel hn

/-- A literal in base sixteen is its digits, unless a sign follows the marker. -/
lemma read?_marked {cs : List Char} (h : '+' ∉ cs) :
    read? ("0x" ++ String.ofList cs) = word? 16 hexValue? cs := by
  have htext : ("0x" ++ String.ofList cs).toList = '0' :: 'x' :: cs := by simp
  rw [read?, htext]
  split
  · rename_i ds hds
    simp_all
  · rename_i ds hds
    simp_all
  · rename_i hds
    exact absurd rfl (hds cs)

/-- **A word that is written in base sixteen reads back.** -/
lemma read?_hexUpper (width : ℕ) (a : UInt64) : read? (hexUpper width a.toNat) = some a := by
  have hne : padded width (digits 16 digitUpper a.toNat) ≠ [] := by
    rw [padded]
    exact List.append_ne_nil_of_right_ne_nil _ (digits_ne_nil 16 digitUpper a.toNat)
  have hempty : (padded width (digits 16 digitUpper a.toNat)).isEmpty = false := by
    simpa using hne
  rw [hexUpper, read?_marked (plus_not_mem_padded width a.toNat), word?, hempty,
    valueBelow?_padded a.toNat_lt]
  simp

end Dissect.Numeral
