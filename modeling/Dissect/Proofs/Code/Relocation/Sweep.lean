import Dissect.Proofs.Code.LinearSweep
import Dissect.Proofs.Code.Relocation.Graph

/-!
Code sections at another address.

The functions found in code do not depend on where the code is loaded: at another base they are the
same functions with the same graphs, moved by the distance between the bases.
-/

namespace Dissect

/-- A function moved by `k`. The functions it calls get the names that go with their new addresses,
and the order of these. -/
def Function.relocate (mode : Mode) (k : UInt64) (f : Function) : Function where
  name := functionName (f.start + k)
  start := f.start + k
  stop := f.stop + k
  instructions := f.instructions.map (·.relocate mode k)
  graph := f.graph.map (·.relocate mode k)
  called := Text.sortedSet
    (f.graph.elim [] fun g => (g.relocate mode k).calls.map (·.name))

variable {mode : Mode} {k base : UInt64} {n : ℕ}

lemma withGraph_relocate {start : UInt64} {is : List Instruction}
    (h : MovableCode mode k base n is) :
    (Function.ofInstructions (start + k) (is.map (·.relocate mode k))).withGraph =
      ((Function.ofInstructions start is).withGraph).relocate mode k := by
  have hstop : ((is.map (·.relocate mode k)).getLast?.map (·.next)).getD (start + k) =
      (is.getLast?.map (·.next)).getD start + k := by
    rw [List.getLast?_map]
    cases is.getLast? <;> simp
  simp only [Function.withGraph, Function.attach, Function.ofInstructions, hstop,
    Graph.build_relocate h, Function.relocate, Option.map_some, Option.elim_some, List.nil_append]

namespace Sweep

variable {settings : SweepSettings} {code : Bytes} {span : UInt64}

/-! ### Start addresses and limits -/

lemma seeds_relocate (settings : SweepSettings) (hm : Movable mode k base n)
    (hcode : code.length ≤ n) :
    seeds settings mode code (base + k) = (seeds settings mode code base).map (· + k) := by
  have hspace := space_le mode
  have hcomm : ∀ o : ℕ, base + k + UInt64.ofNat o = base + UInt64.ofNat o + k := by
    intro o
    exact add_right_comm base k _
  have hbefore : base.toNat + code.length < 2 ^ 64 := by
    have := hm.fits
    omega
  have hafter : (base + k).toNat + code.length < 2 ^ 64 := by
    have := hm.after
    omega
  rw [seeds_eq settings hbefore, seeds_eq settings hafter]
  simp only [starts, hcomm, List.map_take, List.map_cons, List.map_map, Function.comp_def]

lemma bounds_relocate (k stop : UInt64) (as : List UInt64) :
    bounds (stop + k) (as.map (· + k)) =
      (bounds stop as).map fun p => (p.1 + k, p.2 + k) := by
  fun_induction bounds stop as with
  | case1 => rfl
  | case2 s => rfl
  | case3 s t rest ih => simpa [bounds] using ih

lemma addSaturating_relocate (hm : Movable mode k base n) (hspan : span.toNat ≤ n) :
    Word.addSaturating (base + k) span = Word.addSaturating base span + k := by
  have hsize : UInt64.size = 2 ^ 64 := rfl
  have hbefore : base.toNat + span.toNat < UInt64.size := by
    have := hm.fits
    omega
  have hafter : (base + k).toNat + span.toNat < UInt64.size := by
    have := hm.after
    have := space_le mode
    omega
  rw [Word.addSaturating, Word.addSaturating, if_pos hbefore, if_pos hafter, add_right_comm]

lemma within_stop (hm : Movable mode k base n) (hspan : span.toNat ≤ n) :
    Within base n (Word.addSaturating base span) := by
  have := hm.fits
  rw [Within, Word.toNat_addSaturating]
  omega

lemma within_of_isStart (hcode : code.length ≤ n) {a : UInt64} (ha : IsStart mode code base a) :
    Within base n a := by
  obtain ⟨o, ho, hao⟩ := ha.exists_offset
  exact ⟨by omega, by omega⟩

/-- A start address and the limit that goes with it lie in the window of the section. -/
lemma within_of_mem_bounds (hm : Movable mode k base n) (hcode : code.length ≤ n)
    (hspan : span.toNat ≤ n) {p : UInt64 × UInt64}
    (hp : p ∈ bounds (Word.addSaturating base span) (seeds settings mode code base)) :
    IsStart mode code base p.1 ∧ Within base n p.2 := by
  have hfit : base.toNat + code.length < 2 ^ 64 := by
    have := hm.fits
    omega
  obtain ⟨hstart, hlimit⟩ := mem_bounds hp
  refine ⟨isStart_of_mem_seeds hfit hstart, ?_⟩
  rcases hlimit with hlater | hstop
  · exact within_of_isStart hcode (isStart_of_mem_seeds hfit hlater)
  · rw [hstop]
    exact within_stop hm hspan

/-! ### Instructions -/

/-- Decoding at moved addresses gives the moved instructions, as long as what is left of the code
stays in the window. -/
lemma decodeUpTo_relocate (hm : Movable mode k base n) {limit start : UInt64} {rest : Bytes}
    (budget : ℕ) (hlimit : Within base n limit) (hstart : base.toNat ≤ start.toNat)
    (hrest : start.toNat + rest.length ≤ base.toNat + n) :
    decodeUpTo mode (limit + k) budget (start + k) rest =
      (decodeUpTo mode limit budget start rest).map (·.relocate mode k) := by
  induction budget generalizing start rest with
  | zero => rfl
  | succ budget ih =>
    have hlt := hm.add_lt_add_iff (a := start) ⟨hstart, by omega⟩ hlimit
    by_cases hbelow : start < limit
    · simp only [decodeUpTo, if_pos hbelow, if_pos (hlt.mpr hbelow), decode_relocate]
      rcases hi : mode.decode rest start with _ | i
      · rfl
      · simp only [Option.map_some, Instruction.relocate_isReturn, Instruction.relocate_next,
          Instruction.relocate_bytes]
        by_cases hret : i.isReturn
        · simp [hret]
        · have htakes := takes_of_decode hi
          have hlen := htakes.le_length
          have hnext : i.next.toNat = start.toNat + i.bytes.length := by
            have := hm.fits
            rw [Instruction.next, htakes.address_eq]
            exact Word.toNat_add_ofNat (by omega)
          have hdrop := List.length_drop (l := rest) (i := i.bytes.length)
          have htail : decodeUpTo mode (limit + k) budget (i.next + k) (rest.drop i.bytes.length) =
              (decodeUpTo mode limit budget i.next (rest.drop i.bytes.length)).map
                (·.relocate mode k) := ih (by omega) (by omega)
          simp [hret, htail]
    · simp only [decodeUpTo, if_neg hbelow, if_neg (fun h => hbelow (hlt.mp h)), List.map_nil]

lemma instructionsAt_relocate (hm : Movable mode k base n) (hcode : code.length ≤ n)
    {start limit : UInt64} (hstart : IsStart mode code base start)
    (hlimit : Within base n limit) :
    instructionsAt settings mode code (base + k) (start + k) (limit + k) =
      (instructionsAt settings mode code base start limit).map (·.relocate mode k) := by
  obtain ⟨o, ho, hso⟩ := hstart.exists_offset
  have hbase : base.toNat ≤ start.toNat := by omega
  have hplace : (start - base).toNat = start.toNat - base.toNat :=
    UInt64.toNat_sub_of_le _ _ (UInt64.le_iff_toNat_le.mpr hbase)
  rw [instructionsAt, instructionsAt, add_sub_add_right_eq_sub, hplace]
  refine decodeUpTo_relocate hm _ hlimit hbase ?_
  rw [List.length_drop]
  omega

lemma movableCode_instructionsAt (hm : Movable mode k base n) (hcode : code.length ≤ n)
    {start limit : UInt64} (hstart : IsStart mode code base start)
    (hlimit : Within base n limit) :
    MovableCode mode k base n (instructionsAt settings mode code base start limit) := by
  have hfit : base.toNat + code.length < 2 ^ 64 := by
    have := hm.fits
    omega
  have hsweep : IsSweep mode code base settings.maxInstructions start limit _ :=
    isSweep_instructionsAt hfit hstart
  refine ⟨hm, fun i hi => ⟨?_, ?_⟩, fun i hi h t ht => target?_lt (hsweep.decoded i hi) h ht⟩
  · exact UInt64.le_iff_toNat_le.mp (hsweep.base_le i hi)
  · have h1 := UInt64.lt_iff_toNat_lt.mp (hsweep.below i hi)
    have h2 := hlimit.2
    omega

/-- **Disassembly is independent of position.** At two bases that leave room for the code, the
functions with their graphs differ by the move from the one base to the other: addresses and what
jumps and calls name move, and all else is the same. -/
theorem functions_relocate (settings : SweepSettings) (mode : Mode) (code : Bytes)
    (base span k : UInt64)
    (hbefore : base.toNat + max code.length span.toNat < mode.space)
    (hafter : (base + k).toNat + max code.length span.toNat < mode.space) :
    (functions settings mode code (base + k) span).map Function.withGraph =
      ((functions settings mode code base span).map Function.withGraph).map
        (·.relocate mode k) := by
  have hm : Movable mode k base (max code.length span.toNat) := ⟨hbefore, hafter⟩
  have hcode : code.length ≤ max code.length span.toNat := le_max_left _ _
  have hspan : span.toNat ≤ max code.length span.toNat := le_max_right _ _
  simp only [functions, addSaturating_relocate hm hspan, seeds_relocate settings hm hcode,
    bounds_relocate, List.filterMap_map, List.map_filterMap]
  refine List.filterMap_congr fun p hp => ?_
  obtain ⟨hstart, hlimit⟩ := within_of_mem_bounds hm hcode hspan hp
  have hmove : MovableCode mode k base _ (instructionsAt settings mode code base p.1 p.2) :=
    movableCode_instructionsAt hm hcode hstart hlimit
  simp only [Function.comp_apply, instructionsAt_relocate hm hcode hstart hlimit,
    List.isEmpty_map]
  split
  · rfl
  · simp [withGraph_relocate hmove]

/-- A loop with a call that goes down past address zero: moved up, it does not go past it. The loop
has two ways out, and each of them is a choice. -/
theorem functions_relocate_loop :
    let settings : SweepSettings := { maxInstructions := 8, maxFunctions := 4 }
    let code : Bytes :=
      [0xE8, 0xF0, 0xEF, 0xFF, 0xFF, 0x83, 0xF8, 0x01, 0x74, 0x02, 0x75, 0xF4, 0xC3]
    let before := (functions settings .bits32 code 0x1000 16).map Function.withGraph
    let after := (functions settings .bits32 code 0x401000 16).map Function.withGraph
    before.map (·.called) = [["sub_fffffff5"]] ∧ after.map (·.called) = [["sub_3ffff5"]] ∧
      before.map (fun f => f.graph.map (·.loops)) = [some [⟨0, 3, [0, 1, 2]⟩]] ∧
      before.map (fun f => f.graph.map (·.choices)) = [some [1, 2]] ∧
      after = before.map (·.relocate .bits32 0x400000) := by
  intro settings code before after
  have h := functions_relocate settings .bits32 code 0x1000 16 0x400000 (by decide) (by decide)
  exact ⟨by decide +kernel, by decide +kernel, by decide +kernel, by decide +kernel, h⟩

end Sweep

end Dissect
