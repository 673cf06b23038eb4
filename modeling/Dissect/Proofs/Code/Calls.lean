import Dissect.Proofs.Code.Blocks
import Dissect.Proofs.Code.CallEncoding
import Dissect.Proofs.Code.LinearSweep
import Dissect.Proofs.Obfuscation.Junk
import Dissect.Proofs.Text.Sorted

/-!
The calls of a function, as they are reported and as they stand in its graph.

The report and the graph read the operand of a call separately. Both look at the calls alone, one
after the other, so they agree on the direct ones, and junk in between makes no difference. In code
that has been decoded every call has an operand which is an address or a register.
-/

namespace Dissect

namespace Call

variable {table : SignatureTable} {lookback : ℕ} {caller : String} {is : List Instruction}
  {i : Instruction} {c : Call}

/-! ### One call after the other -/

/-- The report of one more instruction at the end. -/
lemma inInstructions_snoc (is : List Instruction) (i : Instruction) :
    inInstructions table lookback caller (is ++ [i]) =
      inInstructions table lookback caller is ++
        (ofInstruction? table lookback caller is i).toList := by
  have hfront : is.zipIdx.filterMap
        (fun p => ofInstruction? table lookback caller ((is ++ [i]).take p.2) p.1) =
      is.zipIdx.filterMap fun p => ofInstruction? table lookback caller (is.take p.2) p.1 := by
    refine List.filterMap_congr fun p hp => ?_
    have hlt := List.snd_lt_of_mem_zipIdx hp
    rw [List.take_append_of_le_length (by omega)]
  simp only [inInstructions, List.zipIdx_append, List.filterMap_append, hfront]
  rcases h : ofInstruction? table lookback caller is i with _ | c <;> simp [h]

/-- What is reported of a call apart from its signature and its arguments. -/
structure Outlines (caller : String) (i : Instruction) (c : Call) : Prop where
  isCall : i.isCall
  address : c.address = i.address
  caller : c.caller = caller
  resolved : i.operands.head?.map resolve = some (c.name, c.type)

lemma outlines_of_some {before : List Instruction}
    (h : ofInstruction? table lookback caller before i = some c) : Outlines caller i c := by
  unfold ofInstruction? at h
  split at h
  · next hcall =>
    obtain ⟨operand, hoperand, rfl⟩ := Option.map_eq_some_iff.mp h
    exact ⟨hcall, rfl, rfl, by rw [hoperand]; rfl⟩
  · cases h

lemma exists_ofInstruction? (hcall : i.isCall) (hoperand : i.operands ≠ [])
    (before : List Instruction) :
    ∃ c, ofInstruction? table lookback caller before i = some c := by
  obtain ⟨operand, rest, hoperands⟩ := List.exists_cons_of_ne_nil hoperand
  simp [ofInstruction?, hcall, hoperands]

/-- The calls that have an operand are reported, each once and in order. -/
lemma forall₂_inInstructions :
    List.Forall₂ (Outlines caller) (is.filter fun i => i.isCall && !i.operands.isEmpty)
      (inInstructions table lookback caller is) := by
  induction is using List.reverseRecOn with
  | nil => exact .nil
  | append_singleton is i ih =>
    rw [List.filter_append, inInstructions_snoc]
    refine List.rel_append ih ?_
    by_cases hcall : i.isCall && !i.operands.isEmpty
    · obtain ⟨c, hc⟩ : ∃ c, ofInstruction? table lookback caller is i = some c := by
        simp only [Bool.and_eq_true, Bool.not_eq_true', List.isEmpty_eq_false_iff] at hcall
        exact exists_ofInstruction? hcall.1 hcall.2 is
      simpa [hcall, hc] using outlines_of_some hc
    · have hnone : ofInstruction? table lookback caller is i = none := by
        rcases hoperands : i.operands with _ | ⟨operand, rest⟩
        · simp [ofInstruction?, hoperands]
        · simpa [ofInstruction?, hoperands] using hcall
      simp [hcall, hnone]

/-! ### Direct calls -/

/-- The direct ones of the calls that are reported, by address and name. -/
def directCalls (cs : List Call) : List (UInt64 × String) :=
  (cs.filter (·.type == .direct)).map fun c => (c.address, c.name)

/-- An operand is resolved to a direct call exactly when it is an address. -/
lemma resolve_direct_iff {operand name : String} :
    resolve operand = (name, .direct) ↔
      ∃ t, Numeral.read? operand = some t ∧ name = functionName t := by
  unfold resolve
  rcases Numeral.read? operand with _ | t
  · simp only [reduceCtorEq, false_and, exists_false, iff_false]
    split_ifs <;> simp
  · simp [eq_comm]

lemma Outlines.of_target? (h : Outlines caller i c) {t : UInt64} (ht : i.target? = some t) :
    c.type = .direct ∧ c.name = functionName t := by
  obtain ⟨operand, hoperand, hread⟩ := Option.bind_eq_some_iff.mp ht
  have hresolved := h.resolved
  rw [hoperand, Option.map_some, resolve_direct_iff.mpr ⟨t, hread, rfl⟩, Option.some.injEq,
    Prod.mk.injEq] at hresolved
  exact ⟨hresolved.2.symm, hresolved.1.symm⟩

lemma Outlines.type_ne_direct (h : Outlines caller i c) (ht : i.target? = none) :
    c.type ≠ .direct := by
  obtain ⟨operand, hoperand, hresolve⟩ := Option.map_eq_some_iff.mp h.resolved
  intro htype
  rw [htype] at hresolve
  obtain ⟨t, hread, -⟩ := resolve_direct_iff.mp hresolve
  rw [Instruction.target?, hoperand, Option.bind_some, hread] at ht
  cases ht

lemma directCalls_of_forall₂ {js : List Instruction} {cs : List Call}
    (h : List.Forall₂ (Outlines caller) js cs) :
    directCalls cs = js.filterMap fun j => j.target?.map fun t => (j.address, functionName t) := by
  induction h with
  | nil => rfl
  | @cons j c js cs hj _ ih =>
    unfold directCalls at ih ⊢
    rcases ht : j.target? with _ | t
    · have htype := hj.type_ne_direct ht
      simp [ht, htype, ih]
    · obtain ⟨htype, hname⟩ := hj.of_target? ht
      simp [ht, htype, hname, hj.address, ih]

/-- **The direct calls of the report are the calls of the graph.** -/
lemma directCalls_inInstructions :
    directCalls (inInstructions table lookback caller is) =
      (Graph.callsOf is).map fun c => (c.address, c.name) := by
  rw [directCalls_of_forall₂ forall₂_inInstructions, Graph.callsOf, List.filterMap_filter,
    List.filterMap_filter, List.map_filterMap]
  refine List.filterMap_congr fun i _ => ?_
  -- a call without an operand has no target either
  rcases hoperands : i.operands with _ | ⟨operand, rest⟩
  · simp [Instruction.target?, hoperands]
  · by_cases hcall : i.isCall
    · simp [hcall, Function.comp_def]
    · simp [hcall]

lemma filter_isCall_remove (is : List Instruction) :
    (Junk.remove is).filter (·.isCall) = is.filter (·.isCall) := by
  have hflow : ∀ js : List Instruction,
      (js.filter (·.isControlFlow)).filter (·.isCall) = js.filter (·.isCall) := by
    intro js
    rw [List.filter_filter]
    refine List.filter_congr fun j _ => ?_
    by_cases hcall : j.isCall <;> simp [Instruction.isControlFlow, hcall]
  rw [← hflow, (Junk.reaches_remove is).filter_isControlFlow, hflow]

/-- Junk does not call anything. -/
lemma callsOf_remove (is : List Instruction) :
    Graph.callsOf (Junk.remove is) = Graph.callsOf is := by
  rw [Graph.callsOf, filter_isCall_remove, Graph.callsOf]

/-! ### Calls in decoded code -/

/-- The report of a decoded call says what its encoding says. -/
structure Reports (mode : Mode) (caller : String) (i : Instruction) (c : Call) : Prop where
  address : c.address = i.address
  caller : c.caller = caller
  encoded : (∃ e : RelativeBranch mode, e.opcode = .call ∧ i.bytes = e.bytes) ∨
    ∃ e : RegisterCall mode, i.bytes = e.bytes
  direct : ∀ e : RelativeBranch mode, e.opcode = .call → i.bytes = e.bytes →
    c.type = .direct ∧ c.name = functionName (e.target i.address)
  indirect : ∀ e : RegisterCall mode, i.bytes = e.bytes →
    c.type = .indirect ∧ c.name = "indirect_call_" ++ e.registerName

lemma resolve_register (wide : Bool) (index : ℕ) :
    resolve (Decoder.register wide index) =
      ("indirect_call_" ++ Decoder.register wide index, .indirect) := by
  have hnames : ∀ wide : Bool, ∀ n < 16, Decoder.isRegister
      ((if wide then Decoder.registers64 else Decoder.registers32).getD n "") := by decide
  have hregister : Decoder.isRegister (Decoder.register wide index) :=
    hnames wide (index % 16) (Nat.mod_lt _ (by omega))
  rw [resolve, Decoder.read?_register]
  simp only [hregister, if_true]

section

variable {mode : Mode} {data : Bytes}

lemma operands_ne_nil (hi : mode.decode data i.address = some i) (hcall : i.isCall) :
    i.operands ≠ [] := by
  rcases exists_encoding_of_isCall hi hcall with ⟨e, -, hbytes⟩ | ⟨e, hbytes⟩
  · rw [eq_instruction_of_bytes hi hbytes]
    simp [RelativeBranch.instruction]
  · rw [eq_registerCall_of_bytes hi hbytes]
    simp [RegisterCall.instruction]

lemma reports_of_outlines (hi : mode.decode data i.address = some i) (h : Outlines caller i c) :
    Reports mode caller i c where
  address := h.address
  caller := h.caller
  encoded := exists_encoding_of_isCall hi h.isCall
  direct e _ hbytes := by
    have htarget := target?_relativeBranch e i.address
    rw [← eq_instruction_of_bytes hi hbytes] at htarget
    exact h.of_target? htarget
  indirect e hbytes := by
    have hoperands : i.operands = [e.registerName] :=
      congrArg Instruction.operands (eq_registerCall_of_bytes hi hbytes)
    have hresolved := h.resolved
    rw [hoperands, List.head?_cons, Option.map_some, RegisterCall.registerName, resolve_register,
      Option.some.injEq, Prod.mk.injEq] at hresolved
    exact ⟨hresolved.2.symm, hresolved.1.symm⟩

end

lemma forall₂_reports {mode : Mode} {f : Function} (table : SignatureTable) (lookback : ℕ)
    (hdecoded : ∀ i ∈ f.instructions, ∃ data, mode.decode data i.address = some i) :
    List.Forall₂ (Reports mode f.name) (f.instructions.filter (·.isCall))
      (inFunction table lookback f) := by
  have hcalls : f.instructions.filter (fun i => i.isCall && !i.operands.isEmpty) =
      f.instructions.filter (·.isCall) := by
    refine List.filter_congr fun i hi => ?_
    by_cases hcall : i.isCall
    · obtain ⟨data, hdata⟩ := hdecoded i hi
      simp [hcall, operands_ne_nil hdata hcall]
    · simp [hcall]
  have houtlines : List.Forall₂ (Outlines f.name) _ (inFunction table lookback f) :=
    forall₂_inInstructions
  rw [hcalls] at houtlines
  have hfound : ∀ i ∈ f.instructions.filter (·.isCall),
      ∃ data, mode.decode data i.address = some i :=
    fun i hi => hdecoded i (List.mem_of_mem_filter hi)
  refine ((List.forall₂_and_left _ _).mpr ⟨hfound, houtlines⟩).imp ?_
  rintro i c ⟨⟨data, hdata⟩, h⟩
  exact reports_of_outlines hdata h

/-- **The report and the graph agree on direct calls, and decoded calls are all told apart.** For
any instructions the direct calls of the report are those of the graph, their names are what a new
function calls, and junk makes no difference to either. A decoded instruction is of the kind of
control flow exactly when it jumps, calls or returns, and interrupts are of the system kind. Each
call that is found in code is reported once: as a direct one if it is relative, as an indirect one
if it goes through a register, and there is no third encoding. -/
theorem reports_agree (table : SignatureTable) (lookback : ℕ) :
    (∀ f : Function, let g := Graph.build f.start f.instructions
      directCalls (inFunction table lookback f) = g.calls.map (fun c => (c.address, c.name)) ∧
      (f.called = [] → (f.attach g).called.Pairwise (· < ·) ∧
        ∀ name, name ∈ (f.attach g).called ↔
          name ∈ (directCalls (inFunction table lookback f)).map (·.2)) ∧
      directCalls (inFunction table lookback (Junk.clean f)) =
        directCalls (inFunction table lookback f) ∧
      ∃ g', (Junk.clean f).graph = some g' ∧ g'.calls = g.calls) ∧
    (∀ (mode : Mode) (data : Bytes) (address : UInt64) (i : Instruction),
      mode.decode data address = some i →
      (i.kind = .controlFlow ↔ i.isJump ∨ i.isCall ∨ i.isReturn) ∧
      (i.isInterrupt → i.kind = .system)) ∧
    ∀ (settings : SweepSettings) (mode : Mode) (code : Bytes) (base span : UInt64),
      ∀ f ∈ Sweep.functions settings mode code base span,
        List.Forall₂ (Reports mode f.name) (f.instructions.filter (·.isCall))
          (inFunction table lookback f) := by
  refine ⟨?_, fun mode data address i hi => ⟨kind_eq_controlFlow_iff hi, kind_eq_system hi⟩,
    fun settings mode code base span f hf =>
      forall₂_reports table lookback (Sweep.exists_decode_of_mem hf)⟩
  intro f g
  have hdirect : directCalls (inFunction table lookback f) =
      (Graph.callsOf f.instructions).map fun c => (c.address, c.name) := directCalls_inInstructions
  refine ⟨by rw [hdirect, Graph.build_calls],
    fun hfresh => ⟨Text.pairwise_sortedSet _, fun name => ?_⟩, ?_, _, rfl, ?_⟩
  · simp [Function.attach, Text.mem_sortedSet, hfresh, hdirect, g, Graph.build_calls]
  · rw [hdirect, ← callsOf_remove]
    exact directCalls_inInstructions
  · rw [Graph.build_calls, Graph.build_calls]
    exact callsOf_remove f.instructions

/-- A call to an address, junk, a call through a register, an interrupt and a return. -/
def mixedCalls : Bytes := [0xE8, 0x04, 0, 0, 0, 0x90, 0x41, 0xFF, 0xD0, 0xCD, 0x2D, 0xC3]

theorem reports_agree_mixedCalls :
    ∃ f ∈ Sweep.functions {} .bits64 mixedCalls 0x1000 12,
      (inFunction [] 10 f).map (fun c => (c.name, c.type)) =
        [("sub_1009", .direct), ("indirect_call_r8", .indirect)] ∧
      List.Forall₂ (Reports .bits64 f.name) (f.instructions.filter (·.isCall))
        (inFunction [] 10 f) ∧
      (∀ name, name ∈ (f.attach (Graph.build f.start f.instructions)).called ↔
        name ∈ (directCalls (inFunction [] 10 f)).map (·.2)) ∧
      ∃ i ∈ f.instructions, i.isInterrupt ∧ i.kind = .system := by
  obtain ⟨hgraph, hkind, hsweep⟩ := reports_agree [] 10
  have hfound : ∃ f ∈ Sweep.functions {} .bits64 mixedCalls 0x1000 12, f.called = [] ∧
      (inFunction [] 10 f).map (fun c => (c.name, c.type)) =
        [("sub_1009", .direct), ("indirect_call_r8", .indirect)] ∧
      ∃ i ∈ f.instructions, i.isInterrupt ∧
        Mode.bits64.decode [0xCD, 0x2D] 0x1009 = some i := by decide +kernel
  obtain ⟨f, hf, hfresh, hcalls, i, hi, hint, hdecode⟩ := hfound
  exact ⟨f, hf, hcalls, hsweep {} .bits64 mixedCalls 0x1000 12 f hf, ((hgraph f).2.1 hfresh).2,
    i, hi, hint, (hkind .bits64 _ _ i hdecode).2 hint⟩

end Call

end Dissect
