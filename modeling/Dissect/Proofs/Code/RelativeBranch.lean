import Mathlib
import Dissect.Code.Call
import Dissect.Proofs.Code.Relocation.Instruction
import Dissect.Proofs.Code.SelfDelimiting
import Dissect.Proofs.Image.Writing

/-!
Jumps and calls relative to the address after them.

Such an instruction is encoded as an opcode and a displacement with a sign. The decoder writes its
target as a text, from which everyone who asks for it has to read it back: the graph of a function,
and the names of the functions that are called.
-/

namespace Dissect

/-- The opcodes of jumps and calls with a displacement. -/
inductive RelativeOpcode
  | shortBranch (condition : Fin 16)
  | shortJump
  | nearBranch (condition : Fin 16)
  | nearJump
  | call
  deriving DecidableEq, Fintype

namespace RelativeOpcode

def bytes : RelativeOpcode → Bytes
  | shortBranch c => [UInt8.ofNat (0x70 + c)]
  | shortJump => [0xEB]
  | nearBranch c => [0x0F, UInt8.ofNat (0x80 + c)]
  | nearJump => [0xE9]
  | call => [0xE8]

/-- Number of bytes of the displacement. -/
def width : RelativeOpcode → ℕ
  | shortBranch _ | shortJump => 1
  | nearBranch _ | nearJump | call => 4

def mnemonic : RelativeOpcode → String
  | shortBranch c | nearBranch c => Decoder.conditions.getD c ""
  | shortJump | nearJump => "jmp"
  | call => "call"

end RelativeOpcode

/-- A relative jump or call in a mode of the processor. -/
structure RelativeBranch (mode : Mode) where
  /-- A byte in front that extends the instruction. -/
  extension : Option UInt8 := none
  opcode : RelativeOpcode
  displacement : Field opcode.width
  extension_valid : ∀ b ∈ extension, mode = .bits64 ∧ Decoder.isExtension b

/-- The encoding of a relative jump or call. -/
def RelativeBranch.bytes {mode : Mode} (e : RelativeBranch mode) : Bytes :=
  e.extension.toList ++ e.opcode.bytes ++ e.displacement.write .little

/-! ### Decoding -/

namespace Decoder

variable {mode : Mode} {ext : Extension} {address : UInt64} {start n : ℕ} {rest : Bytes} {f : Form}

lemma constant?_write (v : Field n) (rest : Bytes) :
    constant? n (v.write .little ++ rest) = some v.toNat := by
  have hle : n ≤ (v.write .little ++ rest).length := by simp
  rw [constant?, if_pos hle, List.take_left' (v.length_write .little), v.value_write]

/-- What a relative jump or call says. -/
def relativeForm (mode : Mode) (address : UInt64) (start : ℕ) (o : RelativeOpcode)
    (v : Field o.width) : Form where
  length := start + o.width
  mnemonic := o.mnemonic
  operands := [targetText mode (address + UInt64.ofNat (start + o.width)) v.toInt]
  kind := .controlFlow

lemma relative?_write (mode : Mode) (address : UInt64) (o : RelativeOpcode) (v : Field o.width)
    (rest : Bytes) (start : ℕ) :
    relative? mode address o.mnemonic start o.width (v.write .little ++ rest) =
      some (relativeForm mode address start o v) := by
  have hwidth : 0 < 8 * o.width := by cases o <;> simp [RelativeOpcode.width]
  rw [relative?, constant?_write, Option.map_some, Word.signed_toNat v hwidth]
  rfl

lemma opcode?_of_short {op : UInt8} {l : Layout} (hop : op ≠ 0x0F)
    (hl : layout? shortOpcodes op.toNat = some l) :
    opcode? mode ext address start op rest = l.form? mode ext address start op.toNat rest := by
  rw [opcode?.eq_def, if_neg hop, hl, Option.bind_some]

/-- The opcode is decoded wherever its displacement follows. -/
lemma exists_opcode?_write (mode : Mode) (ext : Extension) (address : UInt64) (start : ℕ)
    (o : RelativeOpcode) (v : Field o.width) (rest : Bytes) :
    ∃ op tail, o.bytes = op :: tail ∧ isExtension op = false ∧
      opcode? mode ext address start op (tail ++ (v.write .little ++ rest)) =
        some (relativeForm mode address (start + tail.length) o v) := by
  have hwrite := relative?_write mode address o v rest
  cases o with
  | shortBranch c =>
    have htable : ∀ c : Fin 16, isExtension (UInt8.ofNat (0x70 + c)) = false ∧
        UInt8.ofNat (0x70 + c) ≠ 0x0F ∧
        layout? shortOpcodes (UInt8.ofNat (0x70 + c)).toNat = some (.branch 1) ∧
        condition (UInt8.ofNat (0x70 + c)).toNat = (RelativeOpcode.shortBranch c).mnemonic := by
      decide
    obtain ⟨hext, hlong, hlayout, hname⟩ := htable c
    refine ⟨_, [], rfl, hext, ?_⟩
    rw [List.nil_append, opcode?_of_short hlong hlayout, Layout.form?, hname]
    exact hwrite start
  | nearBranch c =>
    have htable : ∀ c : Fin 16,
        layout? longOpcodes (UInt8.ofNat (0x80 + c)).toNat = some (.branch 4) ∧
        condition (UInt8.ofNat (0x80 + c)).toNat = (RelativeOpcode.nearBranch c).mnemonic := by
      decide
    obtain ⟨hlayout, hname⟩ := htable c
    refine ⟨0x0F, [UInt8.ofNat (0x80 + c)], rfl, by decide, ?_⟩
    rw [opcode?.eq_def, if_pos rfl]
    simp only [List.singleton_append, hlayout, Option.bind_some, Layout.form?, hname]
    exact hwrite (start + 1)
  | shortJump =>
    refine ⟨0xEB, [], rfl, by decide, ?_⟩
    rw [List.nil_append, opcode?_of_short (l := .relative 1 "jmp") (by decide) (by decide)]
    exact hwrite start
  | nearJump =>
    refine ⟨0xE9, [], rfl, by decide, ?_⟩
    rw [List.nil_append, opcode?_of_short (l := .relative 4 "jmp") (by decide) (by decide)]
    exact hwrite start
  | call =>
    refine ⟨0xE8, [], rfl, by decide, ?_⟩
    rw [List.nil_append, opcode?_of_short (l := .relative 4 "call") (by decide) (by decide)]
    exact hwrite start

lemma form?_relativeBranch (e : RelativeBranch mode) (rest : Bytes) :
    form? mode address (e.bytes ++ rest) =
      some (relativeForm mode address (e.extension.toList ++ e.opcode.bytes).length e.opcode
        e.displacement) := by
  obtain ⟨extension, opcode, displacement, hvalid⟩ := e
  cases extension with
  | none =>
    obtain ⟨op, tail, hbytes, hext, hop⟩ :=
      exists_opcode?_write mode {} address 1 opcode displacement rest
    simp only [RelativeBranch.bytes, Option.toList_none, List.nil_append, hbytes, List.cons_append,
      List.append_assoc, form?, hext, Bool.and_false, Bool.false_eq_true, if_false, hop,
      List.length_cons, Nat.add_comm 1]
  | some b =>
    obtain ⟨rfl, hb⟩ := hvalid b rfl
    obtain ⟨op, tail, hbytes, -, hop⟩ :=
      exists_opcode?_write .bits64 (.ofByte b) address 2 opcode displacement rest
    simp only [RelativeBranch.bytes, Option.toList_some, hbytes, List.cons_append, List.nil_append,
      List.append_assoc, form?, beq_self_eq_true, hb, Bool.and_self, if_true, hop,
      List.length_cons, Nat.add_comm 2]

end Decoder

/-- The instruction of a relative jump or call at an address. -/
def RelativeBranch.instruction {mode : Mode} (e : RelativeBranch mode) (address : UInt64) :
    Instruction where
  address := address
  mnemonic := e.opcode.mnemonic
  operands := [Decoder.targetText mode (address + UInt64.ofNat e.bytes.length) e.displacement.toInt]
  bytes := e.bytes
  kind := .controlFlow

section

variable {mode : Mode} {address : UInt64}

lemma decode_relativeBranch (e : RelativeBranch mode) (rest : Bytes) :
    mode.decode (e.bytes ++ rest) address = some (e.instruction address) := by
  have hlength : e.bytes.length =
      (e.extension.toList ++ e.opcode.bytes).length + e.opcode.width := by
    rw [RelativeBranch.bytes, List.length_append, Field.length_write]
  rw [decode_of_form (Decoder.form?_relativeBranch e rest)]
  simp only [Decoder.relativeForm, ← hlength, List.take_left, RelativeBranch.instruction]

/-- Where a relative jump or call goes. -/
def RelativeBranch.target (e : RelativeBranch mode) (address : UInt64) : UInt64 :=
  Decoder.target mode (address + UInt64.ofNat e.bytes.length) e.displacement.toInt

lemma toNat_relativeTarget (e : RelativeBranch mode) (address : UInt64) :
    ((e.target address).toNat : ℤ) =
      (address.toNat + e.bytes.length + e.displacement.toInt) % mode.space := by
  -- the address after the instruction wraps around, which the target does not show
  have hnext : ((address + UInt64.ofNat e.bytes.length).toNat : ℤ) =
      (address.toNat + e.bytes.length) % 2 ^ 64 := by
    rw [UInt64.toNat_add, UInt64.toNat_ofNat', Nat.add_mod_mod]
    push_cast
    rfl
  have hdvd : (mode.space : ℤ) ∣ 2 ^ 64 := by cases mode <;> decide
  rw [RelativeBranch.target, Decoder.toNat_target, hnext, Int.add_emod,
    Int.emod_emod_of_dvd _ hdvd, ← Int.add_emod]

lemma target?_relativeBranch (e : RelativeBranch mode) (address : UInt64) :
    (e.instruction address).target? = some (e.target address) := by
  simp only [Instruction.target?, RelativeBranch.instruction, List.head?_cons, Option.bind_some,
    Decoder.targetText_eq, Numeral.read?_hexUpper]
  rfl

end

/-! ### Literal targets -/

namespace Decoder

variable {mode : Mode} {ext : Extension} {address : UInt64} {start op n size : ℕ} {rest : Bytes}
  {f : Form} {l : Layout}

/-- Number of bytes of a displacement. -/
def Layout.displacement? : Layout → Option ℕ
  | .relative size _ | .branch size => some size
  | _ => none

lemma Layout.extra_of_displacement? (h : l.displacement? = some size) (wide : Bool) :
    l.extra wide = size := by
  cases l <;> simp_all [displacement?, extra]

/-- A jump or call with a literal as its operand has a displacement. -/
lemma Layout.exists_displacement? (h : l.form? mode ext address start op rest = some f)
    (hnamed : l.wellNamed) (htransfers : transfers f.mnemonic)
    (hread : (f.operands.head?.bind Numeral.read?).isSome) :
    ∃ size, l.displacement? = some size := by
  cases l with
  | relative size m => exact ⟨size, rfl⟩
  | branch size => exact ⟨size, rfl⟩
  | stack m =>
    obtain rfl := Option.some.inj h
    simp [wellNamed, htransfers] at hnamed
  | plain m kind =>
    obtain rfl := Option.some.inj h
    simp_all [wellNamed, Form.plain]
  | constant size m kind =>
    obtain ⟨c, -, rfl⟩ := Option.map_eq_some_iff.mp h
    simp [wellNamed, htransfers] at hnamed
  | pair m kind reversed =>
    obtain ⟨p, -, rfl⟩ := Option.map_eq_some_iff.mp h
    simp [wellNamed, htransfers] at hnamed
  | moveConstant =>
    obtain ⟨c, -, rfl⟩ := Option.map_eq_some_iff.mp h
    have hmov : ¬transfers "mov" := by decide
    exact absurd htransfers hmov
  | withConstant size =>
    simp only [form?, withConstant?, Option.bind_eq_bind, Option.bind_eq_some_iff] at h
    obtain ⟨p, -, c, -, h⟩ := h
    obtain rfl := Option.some.inj h
    exact absurd htransfers (not_transfers_constantGroup p.1)
  | throughRegister =>
    simp only [form?, throughRegister?, Option.bind_eq_bind, Option.bind_eq_some_iff] at h
    obtain ⟨p, -, m, -, h⟩ := h
    obtain rfl := Option.some.inj h
    simp [read?_register] at hread

lemma exists_relativeOpcode_short {op : UInt8} (hl : layout? shortOpcodes op.toNat = some l)
    (hsize : l.displacement? = some size) :
    ∃ o : RelativeOpcode, o.bytes = [op] ∧ o.width = size := by
  have htable : ∀ n < 256, ∀ size ∈ (layout? shortOpcodes n).bind Layout.displacement?,
      ∃ o : RelativeOpcode, o.bytes = [UInt8.ofNat n] ∧ o.width = size := by decide +kernel
  have hop := htable op.toNat op.toNat_lt size (by simp [hl, hsize])
  rwa [UInt8.ofNat_toNat] at hop

lemma exists_relativeOpcode_long {op : UInt8} (hl : layout? longOpcodes op.toNat = some l)
    (hsize : l.displacement? = some size) :
    ∃ o : RelativeOpcode, o.bytes = [0x0F, op] ∧ o.width = size := by
  have htable : ∀ n < 256, ∀ size ∈ (layout? longOpcodes n).bind Layout.displacement?,
      ∃ o : RelativeOpcode, o.bytes = [0x0F, UInt8.ofNat n] ∧ o.width = size := by decide +kernel
  have hop := htable op.toNat op.toNat_lt size (by simp [hl, hsize])
  rwa [UInt8.ofNat_toNat] at hop

/-- The displacement of a jump or call with a literal as its operand stands behind its opcode. -/
lemma Layout.exists_field (h : l.form? mode ext address start op rest = some f)
    (hnamed : l.wellNamed) (htransfers : transfers f.mnemonic)
    (hread : (f.operands.head?.bind Numeral.read?).isSome) :
    ∃ (size : ℕ) (v : Field size), l.displacement? = some size ∧ f.length = start + size ∧
      rest.take size = v.write .little := by
  obtain ⟨size, hsize⟩ := Layout.exists_displacement? h hnamed htransfers hread
  obtain ⟨hlength, hle⟩ := Layout.length_form? h
  rw [Layout.extra_of_displacement? hsize] at hlength hle
  obtain ⟨v, hv⟩ := Field.exists_write .little (List.length_take_of_le hle)
  exact ⟨size, v, hsize, hlength, hv.symm⟩

/-- The bytes of a jump or call with a literal as its operand, from its opcode on. -/
lemma exists_relative_of_opcode? {op : UInt8}
    (h : opcode? mode ext address start op rest = some f) (htransfers : transfers f.mnemonic)
    (hread : (f.operands.head?.bind Numeral.read?).isSome) :
    ∃ (o : RelativeOpcode) (v : Field o.width),
      op :: rest.take (f.length - start) = o.bytes ++ v.write .little := by
  obtain ⟨l, -, hl, hf⟩ | ⟨op', rest', l, rfl, rfl, hl, hf⟩ := of_opcode? h
  · have hnamed := wellNamed_of_layout? (by decide) hl
    obtain ⟨size, v, hsize, hlength, hv⟩ := Layout.exists_field hf hnamed htransfers hread
    obtain ⟨o, hbytes, rfl⟩ := exists_relativeOpcode_short hl hsize
    refine ⟨o, v, ?_⟩
    rw [hbytes, hlength, Nat.add_sub_cancel_left, hv, List.singleton_append]
  · have hnamed := wellNamed_of_layout? (by decide) hl
    obtain ⟨size, v, hsize, hlength, hv⟩ := Layout.exists_field hf hnamed htransfers hread
    obtain ⟨o, hbytes, rfl⟩ := exists_relativeOpcode_long hl hsize
    refine ⟨o, v, ?_⟩
    rw [hbytes, hlength, show start + 1 + o.width - start = o.width + 1 by omega,
      List.take_succ_cons, hv, List.cons_append, List.singleton_append]

end Decoder

section

variable {mode : Mode} {address : UInt64} {data : Bytes} {i : Instruction}

/-- The bytes of a known instruction: one that extends it, if it has one, its opcode, and those that
the opcode asks for. -/
lemma exists_opcode_of_decode (hi : mode.decode data address = some i) (hdb : i.mnemonic ≠ "db") :
    ∃ (extension : Option UInt8) (ext : Decoder.Extension) (start : ℕ) (op : UInt8) (rest : Bytes)
      (f : Decoder.Form),
      (∀ b ∈ extension, mode = .bits64 ∧ Decoder.isExtension b) ∧
      Decoder.opcode? mode ext address start op rest = some f ∧
      f.mnemonic = i.mnemonic ∧ f.operands = i.operands ∧
      i.bytes = extension.toList ++ op :: rest.take (f.length - start) := by
  obtain ⟨f, hf, rfl⟩ := exists_form_of_decode hi hdb
  obtain ⟨b, rest, rfl, hop⟩ | ⟨b, op, rest, rfl, hmode, hb, hop⟩ := Decoder.of_form? hf
  · obtain ⟨n, hn⟩ := Nat.exists_eq_add_of_le' (Decoder.opcode?_length hop).1
    refine ⟨none, {}, 1, b, rest, f, by simp, hop, rfl, rfl, ?_⟩
    simp only [hn, List.take_succ_cons, Nat.add_sub_cancel, Option.toList_none, List.nil_append]
  · obtain ⟨n, hn⟩ := Nat.exists_eq_add_of_le' (Decoder.opcode?_length hop).1
    refine ⟨some b, .ofByte b, 2, op, rest, f, by simpa using ⟨hmode, hb⟩, hop, rfl, rfl, ?_⟩
    simp only [hn, List.take_succ_cons, Nat.add_sub_cancel, Option.toList_some, List.cons_append,
      List.nil_append]

lemma exists_relativeBranch (hi : mode.decode data address = some i) (hjump : i.isJump ∨ i.isCall)
    (htarget : i.target?.isSome) : ∃ e : RelativeBranch mode, i.bytes = e.bytes := by
  have htransfers : transfers i.mnemonic := by
    simpa [transfers, Instruction.isJump, Instruction.isCall] using hjump
  have hdb : i.mnemonic ≠ "db" := by
    rintro hdb
    rw [hdb] at htransfers
    exact absurd htransfers (by decide)
  obtain ⟨extension, ext, start, op, rest, f, hvalid, hop, hname, hoperands, hbytes⟩ :=
    exists_opcode_of_decode hi hdb
  rw [← hname] at htransfers
  rw [Instruction.target?, ← hoperands] at htarget
  obtain ⟨o, v, hcode⟩ := Decoder.exists_relative_of_opcode? hop htransfers htarget
  refine ⟨⟨extension, o, v, hvalid⟩, ?_⟩
  rw [hbytes, hcode, RelativeBranch.bytes, List.append_assoc]

/-- The bytes of a relative jump or call are decoded to nothing else. -/
lemma eq_instruction_of_bytes {e : RelativeBranch mode} (hi : mode.decode data address = some i)
    (hbytes : i.bytes = e.bytes) : i = e.instruction address := by
  obtain ⟨rest, rfl⟩ := (takes_of_decode hi).starts
  rw [hbytes, decode_relativeBranch] at hi
  exact (Option.some.inj hi).symm

end

/-! ### Names of what is called -/

/-- The instruction is a call of the function at an address, by its name, wherever it is looked
at. -/
structure CallsByName (i : Instruction) (t : UInt64) (name : String) : Prop where
  resolve : i.operands.map Call.resolve = [(name, .direct)]
  reported : ∀ table lookback caller before, ∃ c,
    Call.ofInstruction? table lookback caller before i = some c ∧ c.address = i.address ∧
      c.name = name ∧ c.type = .direct
  listed : ∀ function before after, (Graph.build function (before ++ i :: after)).calls =
    Graph.callsOf before ++ ⟨i.address, t, name⟩ :: Graph.callsOf after

lemma callsByName {i : Instruction} {operand : String} {t : UInt64} (hcall : i.isCall)
    (hoperands : i.operands = [operand]) (hread : Numeral.read? operand = some t) :
    CallsByName i t (functionName t) := by
  have hresolve : Call.resolve operand = (functionName t, .direct) := by
    rw [Call.resolve, hread]
  have htarget : i.target? = some t := by
    rw [Instruction.target?, hoperands, List.head?_cons, Option.bind_some, hread]
  refine ⟨by rw [hoperands, List.map_singleton, hresolve], fun table lookback caller before => ?_,
    fun function before after => ?_⟩
  · simp only [Call.ofInstruction?, hcall, if_true, hoperands, List.head?_cons, Option.map_some,
      hresolve, Option.some.injEq, exists_eq_left', and_self]
  · have hcalls : (Graph.build function (before ++ i :: after)).calls =
        Graph.callsOf (before ++ i :: after) := by
      simp [Graph.build]
    rw [hcalls]
    simp [Graph.callsOf, hcall, htarget]

/-- **Relative targets survive as texts.** A relative jump or call, with any bytes behind it, is
decoded to an instruction whose operand reads as the address after it plus the displacement, around
the end of the address space, and a call has the name of the function there. No other jump or call
has a literal as its operand. Every word that is written in base sixteen reads back. -/
theorem target?_iff_relative (mode : Mode) (address : UInt64) :
    (∀ (e : RelativeBranch mode) (rest : Bytes), ∃ i t,
      mode.decode (e.bytes ++ rest) address = some i ∧ i.bytes = e.bytes ∧
      i.mnemonic = e.opcode.mnemonic ∧ i.target? = some t ∧
      (t.toNat : ℤ) = (address.toNat + i.bytes.length + e.displacement.toInt) % mode.space ∧
      (i.isCall → CallsByName i t ("sub_" ++ String.ofList (Nat.toDigits 16 t.toNat)))) ∧
    (∀ data i, mode.decode data address = some i →
      ((i.isJump ∨ i.isCall) ∧ i.target?.isSome ↔
        ∃ e : RelativeBranch mode, i.bytes = e.bytes)) ∧
    ∀ width (a : UInt64), Numeral.read? (Numeral.hexUpper width a.toNat) = some a := by
  refine ⟨fun e rest => ?_, fun data i hi => ⟨fun ⟨hjump, htarget⟩ => ?_, ?_⟩,
    Numeral.read?_hexUpper⟩
  · refine ⟨_, _, decode_relativeBranch e rest, rfl, rfl, target?_relativeBranch e address,
      toNat_relativeTarget e address, fun hcall => ?_⟩
    rw [← Numeral.hex_eq_toDigits]
    exact callsByName hcall rfl (target?_relativeBranch e address)
  · exact exists_relativeBranch hi hjump htarget
  · rintro ⟨e, hbytes⟩
    obtain rfl := eq_instruction_of_bytes hi hbytes
    have htransfers : ∀ o : RelativeOpcode,
        Text.startsWith o.mnemonic "j" ∨ o.mnemonic = "call" := by decide
    refine ⟨?_, by rw [target?_relativeBranch]; rfl⟩
    simpa [Instruction.isJump, Instruction.isCall, RelativeBranch.instruction] using
      htransfers e.opcode

-- a jump back over the start of the address space
example : (Mode.bits32.decode [0xEB, 0x80] 0x10).bind (·.target?) = some 0xFFFFFF92 := by decide

end Dissect
