import Mathlib
import Dissect.Proofs.Code.Flow
import Dissect.Proofs.Code.LinearSweep
import Dissect.Proofs.Obfuscation.Junk

/-!
Where the jumps of a function land when junk is removed.

A jump keeps its target when the function is cleaned. If the instruction there is kept, the graph of
the cleaned function has the edge of the jump. If it is junk, control would go on to the first
instruction behind it that is kept, but no block starts at the old address any more, so the jump has
no edge at all.
-/

namespace Dissect

namespace Sweep

/-! ### Addresses of a sweep -/

variable {mode : Mode} {limit address : UInt64} {budget : ℕ} {rest : Bytes}

/-- In code that fits into the address space, no two instructions have the same address. -/
lemma nodup_decodeUpTo (hfit : rest.length ≤ 2 ^ 64) :
    ((decodeUpTo mode limit budget address rest).map (·.address)).Nodup := by
  induction budget generalizing address rest with
  | zero => simp [decodeUpTo]
  | succ budget ih =>
    rw [decodeUpTo]
    split
    · rcases hdecode : mode.decode rest address with _ | first
      · simp
      · have htakes := takes_of_decode hdecode
        have hpos := htakes.pos
        have hle := htakes.le_length
        have hrest : (rest.drop first.bytes.length).length = rest.length - first.bytes.length :=
          List.length_drop
        simp only
        split
        · simp
        · rw [List.map_cons, List.nodup_cons]
          refine ⟨fun hmem => ?_, ih (by omega)⟩
          obtain ⟨i, hi, hsame⟩ := List.mem_map.mp hmem
          obtain ⟨d, hd, haddress, -⟩ := exists_offset_of_mem_decodeUpTo hi
          rw [haddress, Instruction.next, UInt64.add_assoc, ← UInt64.ofNat_add] at hsame
          have hzero : UInt64.ofNat (first.bytes.length + d) = 0 := by simpa using hsame
          have hmod := congrArg UInt64.toNat hzero
          rw [UInt64.toNat_ofNat', Nat.mod_eq_of_lt (by omega), UInt64.toNat_zero] at hmod
          omega
    · simp

lemma nodup_of_mem_functions {settings : SweepSettings} {code : Bytes} {base span : UInt64}
    (hfit : code.length ≤ 2 ^ 64) {f : Function} (hf : f ∈ functions settings mode code base span) :
    (f.instructions.map (·.address)).Nodup := by
  obtain ⟨p, -, -, rfl⟩ := mem_functions hf
  exact nodup_decodeUpTo (by rw [List.length_drop]; omega)

end Sweep

/-! ### Jumps of the cleaned function -/

/-- The kind of the edge of a jump. -/
def Instruction.jumpKind (i : Instruction) : EdgeKind :=
  if i.isPlainJump then .unconditional else .taken

namespace Junk

/-- The first instruction that is kept, from an index on. -/
def landing (is : List Instruction) (k : ℕ) : Option Instruction :=
  (is.drop k).find? (· ∈ remove is)

/-- The graph of the function has the edge of a jump, from the block that the jump is in to the one
that starts where it lands. -/
def Lands (f : Function) (j s : Instruction) : Prop :=
  ∃ g, f.graph = some g ∧ ∃ (n k l : ℕ) (b c : Block), f.instructions[n]? = some j ∧
    g.blocks[k]? = some b ∧ b.first ≤ n ∧ n < b.stop ∧
    g.blocks[l]? = some c ∧ c.start = s.address ∧ ⟨k, l, j.jumpKind⟩ ∈ g.edges

variable {f : Function} {is : List Instruction} {i j s t : Instruction}

lemma mem_remove_of_isControlFlow (hi : i ∈ is) (hflow : i.isControlFlow) : i ∈ remove is := by
  have hmem : i ∈ is.filter (·.isControlFlow) := List.mem_filter.mpr ⟨hi, hflow⟩
  rw [← (reaches_remove is).filter_isControlFlow] at hmem
  exact (List.mem_filter.mp hmem).1

lemma nodup_remove (hd : (is.map (·.address)).Nodup) : ((remove is).map (·.address)).Nodup :=
  hd.sublist ((reaches_remove is).sublist.map _)

/-- A jump to an instruction that is kept lands there. -/
lemma lands_of_mem (hd : (f.instructions.map (·.address)).Nodup) (hj : j ∈ f.instructions)
    (hjump : j.isJump) (htarget : j.target? = some t.address)
    (ht : t ∈ remove f.instructions) : Lands (clean f) j t := by
  have hflow := Graph.isControlFlow_of_isJump hjump
  obtain ⟨n, hn⟩ := List.mem_iff_getElem?.mp (mem_remove_of_isControlFlow hj hflow)
  obtain ⟨k, hk⟩ := List.mem_iff_getElem?.mp ht
  obtain ⟨m, b, hb, hfirst, hstop⟩ := Graph.exists_block (List.getElem?_eq_some_iff.mp hn).1
  have hlast := (Graph.isBlock_of_getElem hb).last_of_controlFlow hn hflow hfirst hstop
  obtain ⟨l, c, hc, hck, hedge⟩ := Graph.jump_edge (nodup_remove hd) hb hn hk hlast hjump htarget
  obtain ⟨t', ht', hstart⟩ := (Graph.isBlock_of_getElem hc).start_eq
  obtain rfl : t = t' := by
    rw [← hck, hk] at ht'
    exact Option.some.inj ht'
  refine ⟨.build f.start (remove f.instructions), rfl, n, m, l, b, c, hn, ?_, hfirst, hstop, ?_,
    hstart.symm, ?_⟩
  · rwa [Graph.build_blocks]
  · rwa [Graph.build_blocks]
  · rwa [Graph.build_edges]

/-- A jump that lands anywhere has a target that is kept. -/
lemma mem_of_lands (hd : (f.instructions.map (·.address)).Nodup) (ht : t ∈ f.instructions)
    (hjump : j.isJump) (htarget : j.target? = some t.address) (h : Lands (clean f) j s) :
    t ∈ remove f.instructions := by
  obtain ⟨g, hg, n, k, l, b, c, hn, hb, hfirst, hstop, hc, -, hedge⟩ := h
  obtain rfl : Graph.build f.start (remove f.instructions) = g := Option.some.inj hg
  rw [Graph.build_blocks] at hb
  rw [Graph.build_edges, Graph.mem_edgesOf] at hedge
  obtain ⟨b', hb', hedge⟩ := hedge
  obtain rfl : b = b' := Option.some.inj (hb.symm.trans hb')
  obtain ⟨i, hi, -, hcases⟩ := Graph.mem_edgesFrom.mp hedge
  -- the jump ends its block, so the edge is that of the jump
  have hlast := (Graph.isBlock_of_getElem hb).last_of_controlFlow hn
    (Graph.isControlFlow_of_isJump hjump) hfirst hstop
  obtain rfl : j = i := by
    rw [← hlast, Nat.add_sub_cancel] at hi
    exact Option.some.inj (hn.symm.trans hi)
  rcases hcases with ⟨-, ⟨a, ha, hat⟩, -⟩ | ⟨-, -, -, -, hkind⟩
  · obtain rfl : t.address = a := Option.some.inj (htarget.symm.trans ha)
    obtain ⟨c', hc', hstart⟩ := Graph.blockAt?_some hat
    obtain ⟨t', ht', haddress⟩ := (Graph.isBlock_of_getElem hc').start_eq
    have hkept := List.mem_of_getElem? ht'
    have hsame : t' = t := List.inj_on_of_nodup_map hd ((reaches_remove _).sublist.mem hkept) ht
      (haddress.trans hstart)
    rwa [← hsame]
  · simp only [Instruction.jumpKind] at hkind
    split at hkind <;> split at hkind <;> simp at hkind

lemma landing_of_mem {k : ℕ} (hk : is[k]? = some t) (ht : t ∈ remove is) :
    landing is k = some t := by
  obtain ⟨hlt, rfl⟩ := List.getElem?_eq_some_iff.mp hk
  rw [landing, List.drop_eq_getElem_cons hlt, List.find?_cons_of_pos (by simpa using ht)]

/-- **A jump keeps its edge exactly when its target is kept.** If the target of a jump is taken out
of a function, the jump does not land at the first instruction behind it that is kept, nor anywhere
else. -/
theorem lands_clean_iff (settings : SweepSettings) (mode : Mode) (code : Bytes)
    (base span : UInt64) (hfit : code.length ≤ 2 ^ 64) (f : Function)
    (hf : f ∈ Sweep.functions settings mode code base span) (j t s : Instruction) (k : ℕ)
    (hj : j ∈ f.instructions) (hjump : j.isJump) (hk : f.instructions[k]? = some t)
    (htarget : j.target? = some t.address) (hs : landing f.instructions k = some s) :
    (Lands (clean f) j s ↔ t ∈ remove f.instructions) ∧
      (t ∉ remove f.instructions → ∀ s', ¬Lands (clean f) j s') := by
  have hd := Sweep.nodup_of_mem_functions hfit hf
  have hkept : ∀ s', Lands (clean f) j s' → t ∈ remove f.instructions := fun s' h =>
    mem_of_lands hd (List.mem_of_getElem? hk) hjump htarget h
  refine ⟨⟨hkept s, fun ht => ?_⟩, fun ht s' h => ht (hkept s' h)⟩
  obtain rfl : t = s := Option.some.inj ((landing_of_mem hk ht).symm.trans hs)
  exact lands_of_mem hd hj hjump htarget ht

/-- Code with junk in front of a loop: the loop is kept. -/
theorem lands_clean_iff_loop :
    let f : Function := .ofInstructions 0x1000 [
      ⟨0x1000, "nop", [], [0x90], .unknown⟩,
      ⟨0x1001, "cmp", ["eax", "0x01"], [0x83, 0xF8, 0x01], .arithmetic⟩,
      ⟨0x1004, "jne", ["0x00001001"], [0x75, 0xFB], .controlFlow⟩,
      ⟨0x1006, "ret", [], [0xC3], .controlFlow⟩]
    f ∈ Sweep.functions {} .bits32 [0x90, 0x83, 0xF8, 0x01, 0x75, 0xFB, 0xC3] 0x1000 7 ∧
      Lands (clean f) f.instructions[2] f.instructions[1] := by
  intro f
  have hf : f ∈ Sweep.functions {} .bits32 [0x90, 0x83, 0xF8, 0x01, 0x75, 0xFB, 0xC3] 0x1000 7 := by
    decide +kernel
  have h := lands_clean_iff {} .bits32 [0x90, 0x83, 0xF8, 0x01, 0x75, 0xFB, 0xC3] 0x1000 7
    (by decide) f hf f.instructions[2] f.instructions[1] f.instructions[1] 1 (by decide)
    (by decide) rfl (by decide) (by decide)
  exact ⟨hf, h.1.mpr (by decide)⟩

/-- A jump to junk in front of a return: the jump is kept, and lands nowhere. -/
theorem not_lands_clean :
    let f : Function := .ofInstructions 0x1000 [
      ⟨0x1000, "jmp", ["0x00001002"], [0xEB, 0x00], .controlFlow⟩,
      ⟨0x1002, "nop", [], [0x90], .unknown⟩,
      ⟨0x1003, "ret", [], [0xC3], .controlFlow⟩]
    f ∈ Sweep.functions {} .bits32 [0xEB, 0x00, 0x90, 0xC3] 0x1000 4 ∧
      f.instructions[0].isJump ∧ f.instructions[0].target? = some f.instructions[1].address ∧
      landing f.instructions 1 = some f.instructions[2] ∧
      ¬Lands (clean f) f.instructions[0] f.instructions[2] := by
  intro f
  refine ⟨by decide +kernel, by decide, by decide, by decide, fun h => ?_⟩
  have hkept : f.instructions[1] ∈ remove f.instructions :=
    mem_of_lands (by decide) (by decide) (by decide) (by decide) h
  exact absurd hkept (by decide)

end Junk

end Dissect
