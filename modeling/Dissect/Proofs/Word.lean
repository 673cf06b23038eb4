import Mathlib
import Dissect.Word

/-!
Sums of 64-bit words as sums of natural numbers.
-/

namespace Dissect.Word

lemma toNat_add_of_lt {a b : UInt64} (h : a.toNat + b.toNat < 2 ^ 64) :
    (a + b).toNat = a.toNat + b.toNat := by
  rw [UInt64.toNat_add]
  exact Nat.mod_eq_of_lt h

lemma toNat_ofNat_of_lt {n : ℕ} (h : n < 2 ^ 64) : (UInt64.ofNat n).toNat = n := by
  rw [UInt64.toNat_ofNat']
  exact Nat.mod_eq_of_lt h

lemma toNat_add_ofNat {a : UInt64} {n : ℕ} (h : a.toNat + n < 2 ^ 64) :
    (a + UInt64.ofNat n).toNat = a.toNat + n := by
  have hn : (UInt64.ofNat n).toNat = n := toNat_ofNat_of_lt (by omega)
  rw [toNat_add_of_lt (by omega), hn]

lemma toNat_addSaturating (a b : UInt64) :
    (addSaturating a b).toNat = min (a.toNat + b.toNat) (2 ^ 64 - 1) := by
  unfold addSaturating
  split
  · rename_i h
    have h' : a.toNat + b.toNat < 2 ^ 64 := h
    rw [toNat_add_of_lt h']
    omega
  · rename_i h
    have h' : ¬a.toNat + b.toNat < 2 ^ 64 := h
    have htop : (0xFFFFFFFFFFFFFFFF : UInt64).toNat = 2 ^ 64 - 1 := rfl
    rw [htop]
    omega

/-- A number is taken off again from a sum, unless the sum has wrapped around. -/
lemma toNat_subSaturating_add (a b : UInt64) :
    (subSaturating (a + b) a).toNat = if a.toNat + b.toNat < 2 ^ 64 then b.toNat else 0 := by
  have ha := a.toNat_lt
  have hb := b.toNat_lt
  by_cases h : a.toNat + b.toNat < 2 ^ 64
  · have hsum := toNat_add_of_lt h
    have hle : a ≤ a + b := UInt64.le_iff_toNat_le.mpr (by omega)
    rw [subSaturating, if_pos hle, if_pos h, UInt64.toNat_sub_of_le _ _ hle]
    omega
  · have hsum : (a + b).toNat = a.toNat + b.toNat - 2 ^ 64 := by
      rw [UInt64.toNat_add]
      omega
    have hlt : ¬a ≤ a + b := fun hle => by
      have := UInt64.le_iff_toNat_le.mp hle
      omega
    rw [subSaturating, if_neg hlt, if_neg h]
    rfl

lemma toNat_ofInt (i : ℤ) : ((ofInt i).toNat : ℤ) = i % 2 ^ 64 := by
  have hpos : 0 ≤ i % (UInt64.size : ℕ) := Int.emod_nonneg i (by decide)
  have hlt : i % (UInt64.size : ℕ) < (UInt64.size : ℕ) := Int.emod_lt_of_pos i (by decide)
  have hsize : ((UInt64.size : ℕ) : ℤ) = 2 ^ 64 := rfl
  rw [ofInt, toNat_ofNat_of_lt (by omega), Int.toNat_of_nonneg hpos, hsize]

/-- A field of a word is read with its sign. -/
lemma signed_toNat {n : ℕ} (v : BitVec n) (hn : 0 < n) : signed n v.toNat = v.toInt := by
  have hhalf : 2 * 2 ^ (n - 1) = 2 ^ n := by rw [← pow_succ', Nat.sub_add_cancel hn]
  rw [signed, BitVec.toInt_eq_toNat_cond, Nat.one_shiftLeft, Nat.one_shiftLeft]
  by_cases h : v.toNat < 2 ^ (n - 1)
  · rw [if_pos h, if_pos (by omega)]
  · rw [if_neg h, if_neg (by omega)]

end Dissect.Word
