import Dissect.Proofs.Code.LinearSweep

/-!
Code that is longer than the range of addresses it covers.

Start addresses are looked for in all of the code. A sweep ends at the next one, and only the last
sweep ends at the end of the range. So a sweep can leave the range when the start address after it
lies behind the end, and this module tells exactly when it does.
-/

namespace Dissect.Sweep

/-! ### Sweeps with a later limit -/

section

variable {mode : Mode} {code : Bytes} {base start limit limit' : UInt64} {budget : ℕ}
  {is js : List Instruction} {i : Instruction}

/-- What is decoded up to a limit is decoded first on the way to a later one. -/
lemma decodeUpTo_prefix (hle : limit ≤ limit') (budget : ℕ) (address : UInt64) (rest : Bytes) :
    decodeUpTo mode limit budget address rest <+: decodeUpTo mode limit' budget address rest := by
  induction budget generalizing address rest with
  | zero => exact List.prefix_refl _
  | succ budget ih =>
    by_cases hlimit : address < limit
    · have hlimit' : address < limit' := UInt64.lt_of_lt_of_le hlimit hle
      rcases hi : mode.decode rest address with _ | i
      · simp [decodeUpTo, hlimit, hlimit', hi]
      · by_cases hret : i.isReturn
        · simp [decodeUpTo, hlimit, hlimit', hi, hret]
        · simp only [decodeUpTo, hlimit, hlimit', hi, hret, if_true, if_false,
            Bool.false_eq_true]
          exact List.cons_prefix_cons.mpr ⟨rfl, ih i.next _⟩
    · simp [decodeUpTo, hlimit]

/-- An instruction of a path stands where the instructions in front of it end. -/
lemma IsPath.address_eq (h : IsPath mode code base start limit (is ++ i :: js)) :
    i.address = (Function.ofInstructions start is).stop := by
  rcases hlast : is.getLast? with _ | j
  · rw [List.getLast?_eq_none_iff] at hlast
    subst hlast
    exact h.first i rfl
  · have hstep : i.address.toNat = j.address.toNat + j.bytes.length :=
      (List.isChain_append.mp h.consecutive).2.2 j hlast i rfl
    have hlt := i.address.toNat_lt
    simp only [Function.ofInstructions, hlast, Option.map_some, Option.getD_some, Instruction.next]
    rw [← UInt64.toNat_inj, Word.toNat_add_ofNat (by omega), hstep]

/-- What has not stopped a sweep that goes on after some of its instructions. -/
lemma IsSweep.goes_on (h : IsSweep mode code base budget start limit (is ++ i :: js)) :
    (∀ j, is.getLast? = some j → ¬j.isReturn) ∧ is.length < budget ∧
      (Function.ofInstructions start is).stop < limit ∧
      (Function.ofInstructions start is).stop.toNat ≠ base.toNat + code.length := by
  have hi : i ∈ is ++ i :: js := by simp
  have haddr := h.address_eq
  refine ⟨fun j hj => h.return_last j ?_, ?_, ?_, ?_⟩
  · rw [List.dropLast_append_of_ne_nil (by simp)]
    exact List.mem_append_left _ (List.mem_of_getLast? hj)
  · have hlen := h.length_le
    simp only [List.length_append, List.length_cons] at hlen
    omega
  · rw [← haddr]
    exact h.below i hi
  · rw [← haddr]
    have htakes := takes_of_decode (h.decoded i hi)
    have hpos := htakes.pos
    have hlen := htakes.le_length
    rw [List.length_drop] at hlen
    omega

/-- A sweep to a later limit adds nothing below the first one. -/
lemma IsSweep.limit_le (his : IsSweep mode code base budget start limit is)
    (h : IsSweep mode code base budget start limit' (is ++ i :: js)) : limit ≤ i.address := by
  obtain ⟨hret, hlen, -, hend⟩ := h.goes_on
  rw [h.address_eq]
  rcases his.maximal with ⟨j, hj, hjr⟩ | hlimit | hcode | hbudget
  · exact absurd hjr (hret j hj)
  · exact hlimit
  · exact absurd hcode hend
  · omega

/-- The sweep of a function leaves the range that ends at `stop` on its way to the start address of
the next one: it is not over when it comes to the end, and has not come to the next function. -/
def Overruns (settings : SweepSettings) (mode : Mode) (code : Bytes)
    (base stop start next : UInt64) : Prop :=
  let is := instructionsAt settings mode code base start stop
  stop < next ∧ ¬is.getLast?.any (·.isReturn) ∧ is.length < settings.maxInstructions ∧
    (Function.ofInstructions start is).stop < next

instance (settings : SweepSettings) (mode : Mode) (code : Bytes) (base stop start next : UInt64) :
    Decidable (Overruns settings mode code base stop start next) :=
  inferInstanceAs (Decidable (_ ∧ _))

end

/-! ### One function -/

section

variable {settings : SweepSettings} {mode : Mode} {code : Bytes} {base span stop s t : UInt64}

lemma toNat_le_of_isStart {a : UInt64} (ha : IsStart mode code base a) :
    a.toNat ≤ base.toNat + code.length := by
  obtain ⟨o, ho, hao⟩ := ha.exists_offset
  omega

/-- A function between two start addresses stays in the range exactly when it does not overrun. -/
lemma below_iff_not_overruns (hcode : base.toNat + code.length < 2 ^ 64)
    (hs : IsStart mode code base s) (ht : IsStart mode code base t) :
    (∀ i ∈ instructionsAt settings mode code base s t, i.address < stop) ↔
      ¬Overruns settings mode code base stop s t := by
  have hsweep (limit : UInt64) : IsSweep mode code base settings.maxInstructions s limit
      (instructionsAt settings mode code base s limit) := isSweep_instructionsAt hcode hs
  by_cases hlt : stop < t
  · obtain ⟨ys, hys⟩ : instructionsAt settings mode code base s stop <+:
        instructionsAt settings mode code base s t :=
      decodeUpTo_prefix (UInt64.le_of_lt hlt) _ _ _
    have hshort := hsweep stop
    have hlong := hsweep t
    rw [← hys] at hlong
    constructor
    · rintro hbelow ⟨-, hret, hlen, hnext⟩
      -- nothing was added, so the longer sweep was stopped where the shorter one was
      cases ys with
      | nil =>
        rw [List.append_nil] at hlong
        have hend := toNat_le_of_isStart ht
        rcases hlong.maximal with ⟨j, hj, hjr⟩ | hlimit | hcodeEnd | hbudget
        · simp [hj, hjr] at hret
        · exact absurd hnext (UInt64.not_lt.mpr hlimit)
        · have hnext' := UInt64.lt_iff_toNat_lt.mp hnext
          omega
        · omega
      | cons i ys =>
        have hi := hbelow i (by simp [← hys])
        exact absurd hi (UInt64.not_lt.mpr (hshort.limit_le hlong))
    · intro hover
      cases ys with
      | nil =>
        rw [← hys, List.append_nil]
        exact hshort.below
      | cons i ys =>
        obtain ⟨hret, hlen, hnext, -⟩ := hlong.goes_on
        refine absurd ⟨hlt, ?_, hlen, hnext⟩ hover
        rw [Option.any_eq_true]
        rintro ⟨j, hj, hjr⟩
        exact hret j hj hjr
  · have hle : t ≤ stop := UInt64.not_lt.mp hlt
    constructor
    · exact fun _ hover => hlt hover.1
    · exact fun _ i hi => UInt64.lt_of_lt_of_le ((hsweep t).below i hi) hle

/-! ### All functions -/

lemma mem_bounds_iff {as : List UInt64} {p : UInt64 × UInt64} :
    p ∈ bounds stop as ↔ p ∈ as.zip as.tail ∨ ∃ s, as.getLast? = some s ∧ p = (s, stop) := by
  fun_induction bounds stop as with
  | case1 => simp
  | case2 s => simp
  | case3 s t rest ih =>
    rw [List.mem_cons, ih, List.getLast?_cons_cons]
    simp [or_assoc]

lemma forall_instructions {P : Instruction → Prop} :
    (∀ f ∈ functions settings mode code base span, ∀ i ∈ f.instructions, P i) ↔
      ∀ p ∈ bounds (Word.addSaturating base span) (seeds settings mode code base),
        ∀ i ∈ instructionsAt settings mode code base p.1 p.2, P i := by
  have hflat : (functions settings mode code base span).flatMap (·.instructions) =
      (bounds (Word.addSaturating base span) (seeds settings mode code base)).flatMap fun p =>
        instructionsAt settings mode code base p.1 p.2 :=
    flatMap_instructions _ Prod.fst _
  have hmem := congrArg (fun is => ∀ i ∈ is, P i) hflat
  simp only [List.mem_flatMap] at hmem
  constructor
  · intro h p hp i hi
    exact hmem.mp (fun j ⟨f, hf, hj⟩ => h f hf j hj) i ⟨p, hp, hi⟩
  · intro h f hf i hi
    exact hmem.mpr (fun j ⟨p, hp, hj⟩ => h p hp j hj) i ⟨f, hf, hi⟩

lemma mem_zip_tail {as : List UInt64} {p : UInt64 × UInt64} (hp : p ∈ as.zip as.tail) :
    p.1 ∈ as ∧ p.2 ∈ as :=
  ⟨(List.of_mem_zip hp).1, List.mem_of_mem_tail (List.of_mem_zip hp).2⟩

/-- Only functions that overrun have instructions behind the end of the range. -/
lemma below_iff (hcode : base.toNat + code.length < 2 ^ 64) :
    (∀ f ∈ functions settings mode code base span, ∀ i ∈ f.instructions,
        i.address < Word.addSaturating base span) ↔
      ∀ p ∈ (seeds settings mode code base).zip (seeds settings mode code base).tail,
        ¬Overruns settings mode code base (Word.addSaturating base span) p.1 p.2 := by
  rw [forall_instructions]
  constructor
  · intro h p hp
    obtain ⟨h1, h2⟩ := mem_zip_tail hp
    rw [← below_iff_not_overruns hcode (isStart_of_mem_seeds hcode h1)
      (isStart_of_mem_seeds hcode h2)]
    exact h p (mem_bounds_iff.mpr (.inl hp))
  · intro h p hp
    rcases mem_bounds_iff.mp hp with hzip | ⟨s, hs, rfl⟩
    · obtain ⟨h1, h2⟩ := mem_zip_tail hzip
      rw [below_iff_not_overruns hcode (isStart_of_mem_seeds hcode h1)
        (isStart_of_mem_seeds hcode h2)]
      exact h p hzip
    · have hstart := isStart_of_mem_seeds hcode (List.mem_of_getLast? hs)
      exact (isSweep_instructionsAt hcode hstart).below

lemma base_le_address (hcode : base.toNat + code.length < 2 ^ 64) :
    ∀ f ∈ functions settings mode code base span, ∀ i ∈ f.instructions, base ≤ i.address := by
  rw [forall_instructions]
  intro p hp
  exact (isSweep_instructionsAt hcode (isStart_of_mem_bounds hcode hp)).base_le

end

/-- **Instructions stay in the range of addresses unless a function overruns it.** All of them stand
at or behind the base. They all stand in front of the end of the range exactly when no function
goes over it on its way to the start address of the next one, as when the code is not longer than
the range. -/
theorem functions_withinSpan_iff (settings : SweepSettings) (mode : Mode) (code : Bytes)
    (base span : UInt64) (hfit : base.toNat + max code.length span.toNat < 2 ^ 64) :
    let ss := seeds settings mode code base
    let Within (i : Instruction) := base ≤ i.address ∧ i.address.toNat < base.toNat + span.toNat
    ((∀ f ∈ functions settings mode code base span, ∀ i ∈ f.instructions, Within i) ↔
      ∀ p ∈ ss.zip ss.tail, ¬Overruns settings mode code base (base + span) p.1 p.2) ∧
    (code.length ≤ span.toNat →
      ∀ f ∈ functions settings mode code base span, ∀ i ∈ f.instructions, Within i) := by
  intro ss Within
  have hcode : base.toNat + code.length < 2 ^ 64 := by omega
  have hspan : base.toNat + span.toNat < 2 ^ 64 := by omega
  have hstop : (base + span).toNat = base.toNat + span.toNat := Word.toNat_add_of_lt hspan
  have hsum : Word.addSaturating base span = base + span := if_pos hspan
  have hiff : (∀ f ∈ functions settings mode code base span, ∀ i ∈ f.instructions, Within i) ↔
      ∀ p ∈ ss.zip ss.tail, ¬Overruns settings mode code base (base + span) p.1 p.2 := by
    rw [← hsum, ← below_iff hcode, hsum]
    refine forall₂_congr fun f hf => forall₂_congr fun i hi => ?_
    have hbase := base_le_address hcode f hf i hi
    simp only [Within, hbase, true_and, UInt64.lt_iff_toNat_lt, hstop]
  refine ⟨hiff, fun hlen => hiff.mpr fun p hp hover => ?_⟩
  -- all start addresses lie in the code, so none lies behind the end
  have hnext := toNat_le_of_isStart (isStart_of_mem_seeds hcode (mem_zip_tail hp).2)
  have hlt := UInt64.lt_iff_toNat_lt.mp hover.1
  omega

/-- A prologue behind the end of the range, after a return in front of it. -/
theorem functions_withinSpan_iff_returned :
    let code : Bytes := [0x55, 0x8B, 0xEC, 0xC3, 0x90, 0x55, 0x8B, 0xEC, 0xC3]
    seeds {} .bits32 code 0x1000 = [0x1000, 0x1005] ∧
      ∀ f ∈ functions {} .bits32 code 0x1000 4, ∀ i ∈ f.instructions,
        0x1000 ≤ i.address ∧ i.address.toNat < (0x1000 : UInt64).toNat + (4 : UInt64).toNat := by
  intro code
  have hss : seeds {} .bits32 code 0x1000 = [0x1000, 0x1005] := by decide +kernel
  have h := functions_withinSpan_iff {} .bits32 code 0x1000 4 (by simp [code])
  refine ⟨hss, h.1.mpr ?_⟩
  simp only [hss, List.tail_cons, List.zip_cons_cons, List.zip_nil_right,
    List.forall_mem_singleton]
  decide +kernel

/-- Of two prologues behind the end of the range, the first one is swept up to the second one. -/
theorem functions_outside_span :
    let code : Bytes := [0xC3, 0x55, 0x8B, 0xEC, 0x55, 0x8B, 0xEC]
    let fs := functions {} .bits32 code 0x1000 1
    (0x1000 : UInt64).toNat + max code.length (1 : UInt64).toNat < 2 ^ 64 ∧
      fs.map (·.instructions.map (·.address)) = [[0x1000], [0x1001, 0x1002]] ∧
      ¬∀ f ∈ fs, ∀ i ∈ f.instructions,
        0x1000 ≤ i.address ∧ i.address.toNat < (0x1000 : UInt64).toNat + (1 : UInt64).toNat := by
  intro code fs
  exact ⟨by simp [code], by decide +kernel, by decide +kernel⟩

end Dissect.Sweep
