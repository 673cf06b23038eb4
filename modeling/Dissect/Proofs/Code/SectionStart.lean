import Dissect.Proofs.Code.LinearSweep
import Dissect.Settings.Check

/-!
The function at the start of a section.

Settings are checked before they are used, and the check is exact: it passes settings whose lengths,
ratios and limits make sense. It asks for an instruction in each function but not for a function in
each section. Settings that pass it therefore find the function at the start of every section, or
nothing at all in any of them.
-/

namespace Dissect

/-! ### Checked settings -/

namespace Settings

/-- Settings that are accepted. -/
structure Acceptable (s : Settings) : Prop where
  minLength_pos : 0 < s.texts.minLength
  lengths_le : s.texts.minLength ≤ s.texts.maxLength
  ratios : ∀ r ∈ s.ratios, 0.0 ≤ r.2 ∧ r.2 ≤ 1.0
  maxInstructions_pos : 0 < s.sweep.maxInstructions
  maxFileSize_pos : 0 < s.limits.maxFileSize

lemma find?_ratios_eq_none_iff {s : Settings} :
    (s.ratios.find? fun r => !isRatio r.2) = none ↔ ∀ r ∈ s.ratios, 0.0 ≤ r.2 ∧ r.2 ≤ 1.0 := by
  simp only [List.find?_eq_none, Bool.not_eq_true, Bool.not_eq_false', isRatio, Bool.and_eq_true,
    decide_eq_true_eq]

/-- **The check accepts exactly these settings.** -/
lemma fault?_eq_none_iff {s : Settings} : s.fault? = none ↔ s.Acceptable := by
  constructor
  · intro h
    rcases hratios : s.ratios.find? fun r => !isRatio r.2 with _ | r
    · simp only [fault?, hratios] at h
      split_ifs at h with hmin hmax hinstructions hsize
      exact ⟨by omega, by omega, find?_ratios_eq_none_iff.mp hratios, by omega, by omega⟩
    · simp only [fault?, hratios] at h
      split_ifs at h
  · intro h
    have hmin := h.minLength_pos
    have hmax := h.lengths_le
    have hinstructions := h.maxInstructions_pos
    have hsize := h.maxFileSize_pos
    rw [fault?, if_neg (by omega), if_neg (by omega), find?_ratios_eq_none_iff.mpr h.ratios]
    simp only
    rw [if_neg (by omega), if_neg (by omega)]

end Settings

/-! ### The first function -/

namespace Sweep

section

variable {settings : SweepSettings} {code : Bytes} {base span : UInt64} (mode : Mode)

/-- The sweep starts at the start of the code, with a range that is not empty. -/
lemma exists_head?_bounds (hspan : 1 ≤ span)
    (hfit : base.toNat + max code.length span.toNat < 2 ^ 64)
    (hfunctions : 0 < settings.maxFunctions) :
    ∃ limit, base < limit ∧
      (bounds (Word.addSaturating base span) (seeds settings mode code base)).head? =
        some (base, limit) := by
  obtain ⟨n, hn⟩ := Nat.exists_eq_succ_of_ne_zero hfunctions.ne'
  have hpairwise : (seeds settings mode code base).Pairwise (· < ·) :=
    pairwise_seeds settings mode code base
  rw [seeds_eq settings (by omega), starts, hn, Nat.succ_eq_add_one,
    List.take_succ_cons] at hpairwise ⊢
  generalize List.take n _ = later at hpairwise ⊢
  cases later with
  | nil =>
    refine ⟨_, ?_, rfl⟩
    have hpos : 1 ≤ span.toNat := UInt64.le_iff_toNat_le.mp hspan
    rw [UInt64.lt_iff_toNat_lt, Word.toNat_addSaturating]
    omega
  | cons a later => exact ⟨a, (List.pairwise_cons.mp hpairwise).1 a (by simp), rfl⟩

/-- Code that is not empty has an instruction at its start. -/
lemma exists_head?_instructionsAt (hcode : code ≠ []) {limit : UInt64} (hlimit : base < limit)
    (hinstructions : 0 < settings.maxInstructions) :
    ∃ i, (instructionsAt settings mode code base base limit).head? = some i ∧
      i.address = base := by
  obtain ⟨n, hn⟩ := Nat.exists_eq_succ_of_ne_zero hinstructions.ne'
  obtain ⟨i, hi⟩ : ∃ i, mode.decode code base = some i :=
    Option.ne_none_iff_exists'.mp (decode_eq_none_iff.not.mpr hcode)
  refine ⟨i, ?_, (takes_of_decode hi).address_eq⟩
  by_cases hreturn : i.isReturn <;> simp [instructionsAt, hn, decodeUpTo, hlimit, hi, hreturn]

lemma exists_head?_functions (hcode : code ≠ []) (hspan : 1 ≤ span)
    (hfit : base.toNat + max code.length span.toNat < 2 ^ 64)
    (hinstructions : 0 < settings.maxInstructions) (hfunctions : 0 < settings.maxFunctions) :
    ∃ f i, (functions settings mode code base span).head? = some f ∧ f.start = base ∧
      f.instructions.head? = some i ∧ i.address = base := by
  obtain ⟨limit, hlimit, hbounds⟩ := exists_head?_bounds mode hspan hfit hfunctions
  obtain ⟨i, hi, haddress⟩ := exists_head?_instructionsAt mode hcode hlimit hinstructions
  obtain ⟨ps, hps⟩ := List.head?_eq_some_iff.mp hbounds
  have hne : instructionsAt settings mode code base base limit ≠ [] := by
    intro hnil
    simp [hnil] at hi
  refine ⟨.ofInstructions base (instructionsAt settings mode code base base limit), i, ?_, rfl, hi,
    haddress⟩
  rw [functions, hps]
  simp [hne]

end

lemma functions_eq_nil {settings : SweepSettings} (hfunctions : settings.maxFunctions = 0)
    (mode : Mode) (code : Bytes) (base span : UInt64) :
    functions settings mode code base span = [] := by
  rw [functions, seeds, hfunctions, List.take_zero]
  rfl

/-- **Checked settings show the start of a section, unless they show nothing.** If they allow for
one function, the first function that is found starts with the first byte of the code. If they allow
for none, no function is found in any code. -/
theorem functions_head?_iff (s : Settings) (mode : Mode) (code : Bytes) (base span : UInt64)
    (hchecked : s.fault? = none) (hcode : code ≠ []) (hspan : 1 ≤ span)
    (hfit : base.toNat + max code.length span.toNat < 2 ^ 64) :
    (0 < s.sweep.maxFunctions ↔
      ∃ f i, (functions s.sweep mode code base span).head? = some f ∧ f.start = base ∧
        f.instructions.head? = some i ∧ i.address = base) ∧
    (s.sweep.maxFunctions = 0 ↔ functions s.sweep mode code base span = []) := by
  have hinstructions := (Settings.fault?_eq_none_iff.mp hchecked).maxInstructions_pos
  have hfound := exists_head?_functions mode hcode hspan hfit hinstructions
  refine ⟨⟨hfound, ?_⟩, fun hnone => functions_eq_nil hnone mode code base span, ?_⟩
  · rintro ⟨f, i, hf, -⟩
    by_contra hnone
    rw [functions_eq_nil (by omega)] at hf
    cases hf
  · intro hnil
    by_contra hsome
    obtain ⟨f, i, hf, -⟩ := hfound (by omega)
    rw [hnil] at hf
    cases hf

theorem functions_head?_iff_usual :
    ∃ f, (functions {} .bits32 [0x90, 0xC3] 0x1000 2).head? = some f ∧ f.start = 0x1000 := by
  obtain ⟨hfound, -⟩ := functions_head?_iff {} .bits32 [0x90, 0xC3] 0x1000 2 (by decide +kernel)
    (by simp) (by decide) (by decide)
  obtain ⟨f, i, hf, hstart, -⟩ := hfound.mp (by decide)
  exact ⟨f, hf, hstart⟩

/-- Settings with no function for each section. -/
def noFunctions : Settings := { sweep := { maxFunctions := 0 } }

theorem noFunctions_hides : noFunctions.fault? = none ∧
    functions noFunctions.sweep .bits32 [0xC3] 0x1000 1 = [] := by
  decide +kernel

end Sweep

end Dissect
