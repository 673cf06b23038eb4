import Dissect.Proofs.Code.RelativeBranch

/-!
The instructions that call, jump and return, by their encoding.

The decoder tells the kind of an instruction beside its mnemonic, and both tell control flow in the
same way. A call has one of two encodings: the opcode `E8` with a displacement, or the opcode `FF`
with an operand byte that names a register. Everything else that looks like a call is data.
-/

namespace Dissect

/-! ### Kinds -/

section

variable {mode : Mode} {address : UInt64} {data : Bytes} {i : Instruction}

/-- What is decoded is a byte of data, or stands in the tables with its kind. -/
lemma kind_of_decode (hi : mode.decode data address = some i) :
    i.mnemonic = "db" ∧ i.kind = .unknown ∨
      ∃ r ∈ Decoder.shortOpcodes ++ Decoder.longOpcodes, (i.mnemonic, i.kind) ∈ r.layout.kinds := by
  cases data with
  | nil => simp [Mode.decode] at hi
  | cons b rest =>
    rcases hf : Decoder.form? mode address (b :: rest) with _ | f
    · simp only [Mode.decode, hf, Option.some.injEq] at hi
      subst hi
      exact .inl ⟨rfl, rfl⟩
    · rw [decode_of_form hf] at hi
      obtain rfl := Option.some.inj hi
      exact .inr (Decoder.form?_kind hf)

/-- The mnemonics of the tables and their kinds agree on what control flow is. -/
lemma kinds_agree : ∀ r ∈ Decoder.shortOpcodes ++ Decoder.longOpcodes, ∀ p ∈ r.layout.kinds,
    (p.2 = .controlFlow ↔
      Text.startsWith p.1 "j" ∨ p.1 = "call" ∨ Text.startsWith p.1 "ret") ∧
    (p.1 = "int" ∨ p.1 = "int3" → p.2 = .system) := by
  decide

lemma kind_eq_controlFlow_iff (hi : mode.decode data address = some i) :
    i.kind = .controlFlow ↔ i.isJump ∨ i.isCall ∨ i.isReturn := by
  have hcall : i.isCall ↔ i.mnemonic = "call" := by simp [Instruction.isCall]
  rw [hcall]
  rcases kind_of_decode hi with ⟨hdb, hkind⟩ | ⟨r, hr, hmem⟩
  · simp [Instruction.isJump, Instruction.isReturn, hdb, hkind, Text.startsWith]
  · exact (kinds_agree r hr _ hmem).1

lemma kind_eq_system (hi : mode.decode data address = some i) (hint : i.isInterrupt) :
    i.kind = .system := by
  have hname : i.mnemonic = "int" ∨ i.mnemonic = "int3" := by
    simpa [Instruction.isInterrupt] using hint
  rcases kind_of_decode hi with ⟨hdb, -⟩ | ⟨r, hr, hmem⟩
  · simp [hdb] at hname
  · exact (kinds_agree r hr _ hmem).2 hname

end

/-! ### Calls through a register -/

/-- A call of the address in a register, in a mode of the processor. -/
structure RegisterCall (mode : Mode) where
  /-- A byte in front that extends the instruction. -/
  extension : Option UInt8 := none
  /-- The low bits of the register's number. -/
  register : Fin 8
  extension_valid : ∀ b ∈ extension, mode = .bits64 ∧ Decoder.isExtension b

namespace RegisterCall

variable {mode : Mode}

/-- The operand byte whose middle field selects calls. -/
def operandByte (register : Fin 8) : UInt8 := UInt8.ofNat (0xD0 + register)

def bytes (e : RegisterCall mode) : Bytes :=
  e.extension.toList ++ [0xFF, operandByte e.register]

/-- The name of the register, as wide as an address. The lowest bit of the extension is the highest
one of its number. -/
def registerName (e : RegisterCall mode) : String :=
  Decoder.register (mode == .bits64)
    (e.register + if e.extension.any (·.toNat.testBit 0) then 8 else 0)

def instruction (e : RegisterCall mode) (address : UInt64) : Instruction where
  address := address
  mnemonic := "call"
  operands := [e.registerName]
  bytes := e.bytes
  kind := .controlFlow

lemma operandByte_fields : ∀ r : Fin 8, 0xC0 ≤ operandByte r ∧
    (operandByte r).toNat / 8 % 8 = 2 ∧ (operandByte r).toNat % 8 = r := by
  decide

lemma exists_operandByte {b : UInt8} (hpair : 0xC0 ≤ b) (hcall : b.toNat / 8 % 8 = 2) :
    ∃ r, b = operandByte r := by
  have hlow : 0xC0 ≤ b.toNat := UInt8.le_iff_toNat_le.mp hpair
  have hhigh := b.toNat_lt
  refine ⟨⟨b.toNat % 8, Nat.mod_lt _ (by omega)⟩, ?_⟩
  rw [← UInt8.toNat_inj, operandByte, UInt8.toNat_ofNat']
  simp only
  omega

end RegisterCall

namespace Decoder

open RegisterCall (operandByte)

variable {mode : Mode} {ext : Extension} {address : UInt64} {start : ℕ} {rest : Bytes} {f : Form}

lemma opcode?_operandByte (r : Fin 8) (rest : Bytes) :
    opcode? mode ext address start 0xFF (operandByte r :: rest) =
      some ⟨start + 1, "call", [register (mode == .bits64) (extended r ext.base)],
        .controlFlow⟩ := by
  obtain ⟨hpair, hcall, hlow⟩ := RegisterCall.operandByte_fields r
  have hgroup : registerGroup? (extended 2 ext.reg) = some "call" := by cases ext.reg <;> rfl
  rw [opcode?_of_short (l := .throughRegister) (by decide) (by decide)]
  simp [Layout.form?, throughRegister?, registerPair?, hpair, hcall, hlow, hgroup]

lemma form?_registerCall (e : RegisterCall mode) (rest : Bytes) :
    form? mode address (e.bytes ++ rest) =
      some ⟨e.bytes.length, "call", [e.registerName], .controlFlow⟩ := by
  obtain ⟨extension, r, hvalid⟩ := e
  cases extension with
  | none =>
    have hext : isExtension 0xFF = false := by decide
    simp [RegisterCall.bytes, RegisterCall.registerName, form?, hext, opcode?_operandByte, extended]
  | some b =>
    obtain ⟨rfl, hb⟩ := hvalid b rfl
    simp [RegisterCall.bytes, RegisterCall.registerName, form?, hb, opcode?_operandByte, extended,
      Extension.ofByte]

/-- The two layouts of calls. -/
lemma layout_of_call {op : UInt8} {l : Layout} (hl : layout? shortOpcodes op.toNat = some l)
    (hcall : "call" ∈ l.mnemonics) :
    l.displacement?.isSome ∨ op = 0xFF ∧ l = .throughRegister := by
  have htable : ∀ r ∈ shortOpcodes, "call" ∈ r.layout.mnemonics →
      r.layout.displacement?.isSome ∨
        r.first = 0xFF ∧ r.last = 0xFF ∧ r.layout = .throughRegister := by decide
  obtain ⟨r, hr, hfirst, hlast, rfl⟩ := exists_opcodes hl
  refine (htable r hr hcall).imp_right fun ⟨h1, h2, hlayout⟩ => ⟨?_, hlayout⟩
  rw [h1] at hfirst
  rw [h2] at hlast
  exact UInt8.toNat_inj.mp (le_antisymm hlast hfirst)

/-- A displacement can be read back from the operand. -/
lemma Layout.read?_of_displacement? {op : ℕ} {l : Layout}
    (h : l.form? mode ext address start op rest = some f) (hl : l.displacement?.isSome) :
    (f.operands.head?.bind Numeral.read?).isSome := by
  cases l with
  | relative size m =>
    obtain ⟨c, -, rfl⟩ := Option.map_eq_some_iff.mp h
    simp [targetText_eq, Numeral.read?_hexUpper]
  | branch size =>
    obtain ⟨c, -, rfl⟩ := Option.map_eq_some_iff.mp h
    simp [targetText_eq, Numeral.read?_hexUpper]
  | _ => simp [displacement?] at hl

lemma exists_operandByte_of_throughRegister? (h : throughRegister? mode ext start rest = some f)
    (hcall : f.mnemonic = "call") : ∃ r bs, rest = operandByte r :: bs := by
  simp only [throughRegister?, Option.bind_eq_bind, Option.bind_eq_some_iff] at h
  obtain ⟨p, hp, m, hm, h⟩ := h
  obtain rfl := Option.some.inj h
  obtain rfl : m = "call" := hcall
  obtain ⟨b, bs, rfl, hb⟩ := of_registerPair? hp
  have hfield : b.toNat / 8 % 8 = 2 := by
    simp only [registerPair?, hb, if_true, Option.some.injEq] at hp
    subst hp
    have hmod : extended (b.toNat / 8 % 8) ext.reg % 8 = b.toNat / 8 % 8 := by
      unfold extended
      split <;> omega
    unfold registerGroup? at hm
    rw [hmod] at hm
    split at hm <;> simp_all
  obtain ⟨r, rfl⟩ := RegisterCall.exists_operandByte hb hfield
  exact ⟨r, bs, rfl⟩

/-- A call without a literal operand goes through the register that its operand byte names. -/
lemma exists_register_of_opcode? {op : UInt8}
    (h : opcode? mode ext address start op rest = some f) (hcall : f.mnemonic = "call")
    (hread : ¬(f.operands.head?.bind Numeral.read?).isSome) :
    ∃ r : Fin 8, op :: rest.take (f.length - start) = [0xFF, operandByte r] := by
  obtain ⟨l, -, hl, hf⟩ | ⟨op', rest', l, rfl, rfl, hl, hf⟩ := of_opcode? h
  · have hname := Layout.mnemonic_mem hf
    rw [hcall] at hname
    rcases layout_of_call hl hname with hsome | ⟨rfl, rfl⟩
    · exact absurd (Layout.read?_of_displacement? hf hsome) hread
    · obtain ⟨r, bs, rfl⟩ := exists_operandByte_of_throughRegister? hf hcall
      refine ⟨r, ?_⟩
      rw [(of_throughRegister? hf).1, Nat.add_sub_cancel_left]
      rfl
  · have hname := Layout.mnemonic_mem hf
    rw [hcall] at hname
    have htable : ∀ r ∈ longOpcodes, "call" ∉ r.layout.mnemonics := by decide
    obtain ⟨r, hr, -, -, rfl⟩ := exists_opcodes hl
    exact absurd hname (htable r hr)

end Decoder

section

variable {mode : Mode} {address : UInt64} {data : Bytes} {i : Instruction}

lemma decode_registerCall (e : RegisterCall mode) (rest : Bytes) :
    mode.decode (e.bytes ++ rest) address = some (e.instruction address) := by
  rw [decode_of_form (Decoder.form?_registerCall e rest)]
  simp only [List.take_left, RegisterCall.instruction]

/-- The bytes of a call through a register are decoded to nothing else. -/
lemma eq_registerCall_of_bytes {e : RegisterCall mode} (hi : mode.decode data address = some i)
    (hbytes : i.bytes = e.bytes) : i = e.instruction address := by
  obtain ⟨rest, rfl⟩ := (takes_of_decode hi).starts
  rw [hbytes, decode_registerCall] at hi
  exact (Option.some.inj hi).symm

lemma exists_registerCall (hi : mode.decode data address = some i) (hcall : i.isCall)
    (htarget : ¬i.target?.isSome) : ∃ e : RegisterCall mode, i.bytes = e.bytes := by
  have hcall : i.mnemonic = "call" := by simpa [Instruction.isCall] using hcall
  obtain ⟨extension, ext, start, op, rest, f, hvalid, hop, hname, hoperands, hbytes⟩ :=
    exists_opcode_of_decode hi (by simp [hcall])
  rw [Instruction.target?, ← hoperands] at htarget
  obtain ⟨r, hcode⟩ := Decoder.exists_register_of_opcode? hop (hname.trans hcall) htarget
  refine ⟨⟨extension, r, hvalid⟩, ?_⟩
  rw [hbytes, hcode, RegisterCall.bytes]

/-- **A call is relative or goes through a register.** -/
lemma exists_encoding_of_isCall (hi : mode.decode data address = some i) (hcall : i.isCall) :
    (∃ e : RelativeBranch mode, e.opcode = .call ∧ i.bytes = e.bytes) ∨
      ∃ e : RegisterCall mode, i.bytes = e.bytes := by
  by_cases htarget : i.target?.isSome
  · obtain ⟨e, hbytes⟩ := exists_relativeBranch hi (.inr hcall) htarget
    have hopcodes : ∀ o : RelativeOpcode, o.mnemonic = "call" → o = .call := by decide
    obtain rfl := eq_instruction_of_bytes hi hbytes
    exact .inl ⟨e, hopcodes _ (by
      simpa [Instruction.isCall, RelativeBranch.instruction] using hcall), hbytes⟩
  · exact .inr (exists_registerCall hi hcall htarget)

end

end Dissect
