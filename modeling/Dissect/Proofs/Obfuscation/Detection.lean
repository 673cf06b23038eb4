import Mathlib
import Dissect.Proofs.Decimal.Ratio
import Dissect.Proofs.Obfuscation.Junk
import Dissect.Proofs.Obfuscation.Techniques

/-!
The probe for junk and the removal of junk.

A list with nothing to reduce gives the probe no reason to answer yes: none of its instructions is
junk, no two of them cancel, and a ratio of their number is never below zero. Where the probe does
answer yes, a reduction can therefore be made, so that the removal shortens the list; and what the
removal leaves has nothing to reduce, so that the probe answers no.
-/

namespace Dissect

variable {settings : ObfuscationSettings} {is : List Instruction} {fs : List Function}

namespace Junk

lemma hasPair_of_isChain (h : is.IsChain fun i j => ¬cancels i j) : hasPair is = false := by
  fun_induction hasPair is with
  | case1 i j rest ih =>
    obtain ⟨hij, hrest⟩ := List.isChain_cons_cons.mp h
    rw [ih hrest, Bool.or_false, Bool.eq_false_iff]
    exact hij
  | case2 => rfl

/-- Nothing in a list that cannot be reduced looks like junk. -/
lemma isJunky_of_normal (hr : Settings.isRatio settings.nopRatio) (h : Normal is) :
    Probe.isJunky settings is = false := by
  obtain ⟨hjunk, hchain⟩ := normal_iff.mp h
  have hnops : is.countP isNop = 0 := by
    refine List.countP_eq_zero.mpr fun i hi hnop => hjunk i hi ?_
    rw [isJunk, hnop, Bool.true_or]
  have hxors : is.any isSelfXor = false := by
    refine List.any_eq_false.mpr fun i hi hxor => hjunk i hi ?_
    rw [isJunk, hxor, Bool.or_true]
  have hshare := Decimal.not_mul_lt_zero hr is.length
  rw [Probe.isJunky, hnops, hxors, hasPair_of_isChain hchain, decide_eq_false hshare]
  rfl

lemma length_remove_le (is : List Instruction) : (remove is).length ≤ is.length :=
  (reaches_remove is).sublist.length_le

/-- The removal takes something away where the probe sees junk. -/
lemma length_remove_lt (hr : Settings.isRatio settings.nopRatio)
    (h : Probe.isJunky settings is) : (remove is).length < is.length := by
  refine lt_of_le_of_ne (length_remove_le is) fun hlength => ?_
  have hsame : remove is = is := (reaches_remove is).sublist.eq_of_length hlength
  have hnot := isJunky_of_normal hr (normal_remove is)
  rw [hsame, h] at hnot
  cases hnot

lemma junkCode_map_clean (hr : Settings.isRatio settings.nopRatio) (fs : List Function) :
    Probe.junkCode settings (fs.map clean) = false := by
  rw [Probe.junkCode, List.any_map]
  exact List.any_eq_false.mpr fun f _ hjunky =>
    Bool.false_ne_true ((isJunky_of_normal hr (normal_remove f.instructions)).symm.trans hjunky)

end Junk

namespace Technique

/-- What is removed and what is left make up what was there. -/
lemma junkCount_add (fs : List Function) :
    junkCount fs + ((fs.map Junk.clean).map (·.instructions.length)).sum =
      (fs.map (·.instructions.length)).sum := by
  induction fs with
  | nil => rfl
  | cons f fs ih =>
    have hle := Junk.length_remove_le f.instructions
    have hclean : (Junk.clean f).instructions = Junk.remove f.instructions := rfl
    simp only [junkCount, List.map_cons, List.sum_cons, hclean] at ih ⊢
    omega

lemma junkCount_pos (hr : Settings.isRatio settings.nopRatio)
    (h : Probe.junkCode settings fs) : 0 < junkCount fs := by
  obtain ⟨f, hf, hjunky⟩ := List.any_eq_true.mp h
  have hlt := Junk.length_remove_lt hr hjunky
  induction fs with
  | nil => cases hf
  | cons g fs ih =>
    rw [junkCount]
    rcases List.mem_cons.mp hf with rfl | hf
    · omega
    · have := ih (List.any_eq_true.mpr ⟨f, hf, hjunky⟩) hf
      omega

/-- What the removal of junk gives where the probe sees junk: each function without its junk, fewer
instructions in all, and nothing for the probe to see. -/
structure Removes (settings : ObfuscationSettings) (fs gs : List Function) : Prop where
  functions : gs.map (fun g => (g.name, g.start, g.instructions)) =
    fs.map fun f => (f.name, f.start, Junk.remove f.instructions)
  fewer : (gs.map (·.instructions.length)).sum < (fs.map (·.instructions.length)).sum
  clean : Probe.junkCode settings gs = false

lemma exists_removes (hr : Settings.isRatio settings.nopRatio) {x : Findings}
    (h : Probe.junkCode settings x.functions) :
    (junkRemoval.apply x).step.success ∧ ∃ gs,
      (junkRemoval.apply x).improved.functions = some gs ∧ Removes settings x.functions gs := by
  have hpos := junkCount_pos hr h
  have hadd := junkCount_add x.functions
  refine ⟨by simpa [junkRemoval] using hpos, x.functions.map Junk.clean, if_pos hpos, ?_, ?_, ?_⟩
  · rw [List.map_map]
    rfl
  · omega
  · exact Junk.junkCode_map_clean hr x.functions

end Technique

namespace Probe

lemma mem_detect_junkCode {x : Findings} :
    .junkCode ∈ detect settings x ↔ junkCode settings x.functions := by
  simp [detect, answers]

end Probe

namespace Deobfuscation

variable {detected : List Obfuscation} {x : Findings} {ts : List Technique}

/-- Techniques that give no functions leave those of the file in place. -/
lemma latest_functions (h : ∀ t ∈ ts, ∀ y, (t.apply y).improved.functions = none) :
    latest (·.functions) (entries detected x ts) = none := by
  have htrace := isTrace_entries detected x ts
  have hnone : ∀ e ∈ entries detected x ts, e.outcome.improved.functions = none := by
    intro e he
    have hmem : e.technique ∈ (entries detected x ts).map (·.technique) :=
      List.mem_map_of_mem he
    rw [htrace.techniques] at hmem
    obtain ⟨before, after, hsplit⟩ := List.append_of_mem he
    rw [htrace.entry before e after hsplit]
    exact h _ (List.mem_of_mem_filter hmem) _
  rw [latest, List.getLast?_eq_none_iff, List.filterMap_eq_nil_iff]
  intro e he
  rw [hnone e he, ite_self]

/-- The last technique for something detected has the last entry. -/
lemma run_append_singleton (ts : List Technique) {t : Technique}
    (h : t.handles ∈ Probe.detect settings x) :
    run settings (ts ++ [t]) x = report (Probe.detect settings x)
      (entries (Probe.detect settings x) x ts ++
        [entryAfter x (entries (Probe.detect settings x) x ts) t]) := by
  rw [run_eq_report, entries_append_singleton, own, if_pos h]

/-- With the usual techniques, the removal of junk comes last and sees the functions of the file:
no other technique gives any. -/
lemma exists_run_usual (h : .junkCode ∈ Probe.detect settings x) :
    ∃ es, latest (·.functions) es = none ∧
      run settings (Technique.usual settings) x =
        report (Probe.detect settings x) (es ++ [entryAfter x es .junkRemoval]) := by
  let before : List Technique := [.unpacking, .stringDecryption settings.maxXorCandidates,
    .flowSimplification settings.simplifyAbove]
  refine ⟨entries (Probe.detect settings x) x before, latest_functions fun t ht y => ?_,
    run_append_singleton before h⟩
  simp only [before, List.mem_cons, List.not_mem_nil, or_false] at ht
  rcases ht with rfl | rfl | rfl
  · rfl
  · simp only [Technique.stringDecryption]
    split <;> rfl
  · rfl

/-- **Junk that is detected is removed.** For a ratio as threshold, the removal succeeds on all
functions in which the probe sees junk, takes out at least one instruction and leaves functions in
which the probe sees none. So a run with the usual techniques ends with a successful removal once
junk is detected, and junk is not detected again in the functions that it gives. -/
theorem run_removes_junkCode (settings : ObfuscationSettings)
    (hr : Settings.isRatio settings.nopRatio) (x : Findings) :
    (Probe.junkCode settings x.functions →
      (Technique.junkRemoval.apply x).step.success ∧ ∃ gs,
        (Technique.junkRemoval.apply x).improved.functions = some gs ∧
          Technique.Removes settings x.functions gs) ∧
    (.junkCode ∈ Probe.detect settings x →
      let d := run settings (Technique.usual settings) x
      (∃ step, d.steps.getLast? = some step ∧ step.technique = Technique.junkRemoval.name ∧
        step.success) ∧
      ∃ gs, d.improved.functions = some gs ∧ Technique.Removes settings x.functions gs ∧
        ∀ y : Findings, y.functions = gs → .junkCode ∉ Probe.detect settings y) := by
  refine ⟨Technique.exists_removes hr, fun hdetected => ?_⟩
  obtain ⟨es, hlatest, hrun⟩ := exists_run_usual hdetected
  have hview : (viewAfter x es).functions = x.functions := by
    simp only [viewAfter, hlatest, Option.getD_none]
  have hjunk := Probe.mem_detect_junkCode.mp hdetected
  rw [← hview] at hjunk
  obtain ⟨hsuccess, gs, hgs, hremoves⟩ := Technique.exists_removes hr hjunk
  rw [hview] at hremoves
  intro d
  refine ⟨⟨_, ?_, rfl, hsuccess⟩, gs, ?_, hremoves, fun y hy hagain => ?_⟩
  · simp only [d, hrun, report, List.map_append, List.map_cons, List.map_nil,
      List.getLast?_concat]
    rfl
  · simp only [d, hrun, report, improvement]
    rw [latest_append_of_success (e := entryAfter x es .junkRemoval) hsuccess, hlatest]
    simp only [entryAfter, hgs, Option.some_or]
  · rw [Probe.mem_detect_junkCode, hy, hremoves.clean] at hagain
    cases hagain

/-- A push and a pop that only the removal of what stands between them brings together. -/
theorem run_removes_junkCode_hidden :
    let settings : ObfuscationSettings := {}
    let f := Function.ofInstructions 0x1000 [
      ⟨0x1000, "push", ["eax"], [0x50], .memory⟩, ⟨0x1001, "nop", [], [0x90], .unknown⟩,
      ⟨0x1002, "pop", ["eax"], [0x58], .memory⟩, ⟨0x1003, "ret", [], [0xC3], .controlFlow⟩]
    let x : Findings := ⟨{}, [], [f]⟩
    Settings.isRatio settings.nopRatio ∧ .junkCode ∈ Probe.detect settings x ∧
      ∃ gs, (run settings (Technique.usual settings) x).improved.functions = some gs ∧
        gs.map (fun g => g.instructions.map (·.mnemonic)) = [["ret"]] ∧
        .junkCode ∉ Probe.detect settings { x with functions := gs } := by
  intro settings f x
  have hr : Settings.isRatio settings.nopRatio := by decide +kernel
  have hdetected : .junkCode ∈ Probe.detect settings x := by decide +kernel
  obtain ⟨-, gs, hgs, hremoves, hagain⟩ := (run_removes_junkCode settings hr x).2 hdetected
  refine ⟨hr, hdetected, gs, hgs, ?_, hagain { x with functions := gs } rfl⟩
  have hfunctions := congrArg (List.map fun p => p.2.2.map (·.mnemonic)) hremoves.functions
  rw [List.map_map, List.map_map] at hfunctions
  exact hfunctions.trans (by decide +kernel)

end Deobfuscation

end Dissect
