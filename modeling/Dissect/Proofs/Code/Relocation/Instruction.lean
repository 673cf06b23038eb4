import Dissect.Proofs.Code.Decoding
import Dissect.Proofs.Numeral
import Dissect.Proofs.Word

/-!
Instructions at another address.

Of what the decoder reads, only the displacement of a jump or call depends on the address: its
target moves with the instruction. Everything else stays as it is.
-/

namespace Dissect

/-- Number of addresses. -/
def Mode.space : Mode → ℕ
  | .bits32 => 2 ^ 32
  | .bits64 => 2 ^ 64

/-- An address moved by `k`, around the end of the address space. -/
def Mode.move (mode : Mode) (k a : UInt64) : UInt64 :=
  match mode with
  | .bits32 => (a + k) % 0x100000000
  | .bits64 => a + k

/-- A literal operand moved by `k`; any other one stays. -/
def Mode.moveOperand (mode : Mode) (k : UInt64) (operand : String) : String :=
  match Numeral.read? operand with
  | some a => Numeral.hexUpper 8 (mode.move k a).toNat
  | none => operand

/-- The mnemonic of a jump or a call. -/
def transfers (mnemonic : String) : Bool := Text.startsWith mnemonic "j" || mnemonic == "call"

/-- The operands of an instruction moved by `k`: those of jumps and calls move. -/
def Mode.moveOperands (mode : Mode) (k : UInt64) (mnemonic : String) (operands : List String) :
    List String :=
  if transfers mnemonic then operands.map (mode.moveOperand k) else operands

/-- An instruction moved by `k`. -/
def Instruction.relocate (mode : Mode) (k : UInt64) (i : Instruction) : Instruction :=
  { i with
    address := i.address + k
    operands := mode.moveOperands k i.mnemonic i.operands }

variable {mode : Mode} {k : UInt64}

namespace Instruction

variable (mode : Mode) (k : UInt64) (i : Instruction)

@[simp] lemma relocate_address : (i.relocate mode k).address = i.address + k := rfl
@[simp] lemma relocate_bytes : (i.relocate mode k).bytes = i.bytes := rfl
@[simp] lemma relocate_isJump : (i.relocate mode k).isJump = i.isJump := rfl
@[simp] lemma relocate_isPlainJump : (i.relocate mode k).isPlainJump = i.isPlainJump := rfl
@[simp] lemma relocate_isBranch : (i.relocate mode k).isBranch = i.isBranch := rfl
@[simp] lemma relocate_isCall : (i.relocate mode k).isCall = i.isCall := rfl
@[simp] lemma relocate_isReturn : (i.relocate mode k).isReturn = i.isReturn := rfl
@[simp] lemma relocate_isControlFlow : (i.relocate mode k).isControlFlow = i.isControlFlow := rfl

@[simp] lemma relocate_next : (i.relocate mode k).next = i.next + k := by
  rw [next, next, relocate_address, relocate_bytes, add_right_comm]

end Instruction

/-! ### Targets -/

lemma toNat_move (mode : Mode) (k a : UInt64) :
    (mode.move k a).toNat = (a.toNat + k.toNat) % mode.space := by
  cases mode with
  | bits64 => exact UInt64.toNat_add a k
  | bits32 =>
    have hsize : (0x100000000 : UInt64).toNat = 2 ^ 32 := rfl
    rw [Mode.move, UInt64.toNat_mod, UInt64.toNat_add, hsize]
    exact Nat.mod_mod_of_dvd _ (by decide)

lemma moveOperand_hexUpper (mode : Mode) (k a : UInt64) :
    mode.moveOperand k (Numeral.hexUpper 8 a.toNat) = Numeral.hexUpper 8 (mode.move k a).toNat := by
  rw [Mode.moveOperand, Numeral.read?_hexUpper]

namespace Decoder

/-- Where a relative jump goes. -/
def target (mode : Mode) (next : UInt64) (displacement : ℤ) : UInt64 :=
  Word.ofInt ((next.toNat + displacement) % mode.space)

lemma toNat_target (mode : Mode) (next : UInt64) (displacement : ℤ) :
    ((target mode next displacement).toNat : ℤ) = (next.toNat + displacement) % mode.space := by
  rw [target, Word.toNat_ofInt]
  cases mode <;> simp only [Mode.space, Nat.cast_pow, Nat.cast_ofNat] <;> omega

lemma targetText_eq (mode : Mode) (next : UInt64) (displacement : ℤ) :
    targetText mode next displacement =
      Numeral.hexUpper 8 (target mode next displacement).toNat := by
  have htarget := toNat_target mode next displacement
  have hword := Word.toNat_ofInt ((next.toNat : ℤ) + displacement)
  cases mode with
  | bits64 =>
    simp only [Mode.space, Nat.cast_pow, Nat.cast_ofNat] at htarget
    rw [targetText, show (target .bits64 next displacement).toNat = _ by
      exact_mod_cast htarget.trans hword.symm]
  | bits32 =>
    have hsize : (0x100000000 : UInt64).toNat = 2 ^ 32 := rfl
    simp only [Mode.space, Nat.cast_pow, Nat.cast_ofNat] at htarget
    simp only [targetText, UInt64.toNat_mod, hsize]
    congr 1
    omega

/-- The target of a relative jump moves with the address after it. -/
lemma move_target (mode : Mode) (k next : UInt64) (displacement : ℤ) :
    mode.move k (target mode next displacement) = target mode (next + k) displacement := by
  have h1 := toNat_target mode next displacement
  have h2 := toNat_target mode (next + k) displacement
  have h3 := toNat_move mode k (target mode next displacement)
  rw [← UInt64.toNat_inj]
  rw [UInt64.toNat_add] at h2
  cases mode <;> simp only [Mode.space, Nat.cast_pow, Nat.cast_ofNat] at h1 h2 h3 <;> omega

lemma moveOperand_targetText (mode : Mode) (k next : UInt64) (displacement : ℤ) :
    mode.moveOperand k (targetText mode next displacement) =
      targetText mode (next + k) displacement := by
  rw [targetText_eq, targetText_eq, moveOperand_hexUpper, move_target]

/-! ### Forms -/

/-- What a decoded encoding says after a move by `k`. -/
def Form.relocate (mode : Mode) (k : UInt64) (f : Form) : Form :=
  { f with operands := mode.moveOperands k f.mnemonic f.operands }

lemma relocate_eq_self {f : Form} (h : ¬transfers f.mnemonic) : f.relocate mode k = f := by
  simp [Form.relocate, Mode.moveOperands, h]

lemma map_relocate_eq_self {o : Option Form} (h : ∀ f, o = some f → f.relocate mode k = f) :
    o.map (Form.relocate mode k) = o := by
  cases o with
  | none => rfl
  | some f => rw [Option.map_some, h f rfl]

lemma relative?_relocate {address : UInt64} {mnemonic : String} {start n : ℕ} {rest : Bytes}
    (h : transfers mnemonic) :
    relative? mode (address + k) mnemonic start n rest =
      (relative? mode address mnemonic start n rest).map (Form.relocate mode k) := by
  rw [relative?, relative?, Option.map_map, add_right_comm]
  congr 1
  funext d
  simp [Form.relocate, Mode.moveOperands, h, moveOperand_targetText]

/-- No register reads as a literal. -/
lemma read?_register (wide : Bool) (index : ℕ) : Numeral.read? (register wide index) = none := by
  have hnames : ∀ wide : Bool, ∀ n < 16,
      Numeral.read? ((if wide then registers64 else registers32).getD n "") = none := by decide
  exact hnames wide (index % 16) (Nat.mod_lt _ (by omega))

lemma moveOperand_register (wide : Bool) (index : ℕ) :
    mode.moveOperand k (register wide index) = register wide index := by
  rw [Mode.moveOperand, read?_register]

lemma transfers_condition (op : ℕ) : transfers (condition op) := by
  have hnames : ∀ n < 16, transfers (conditions.getD n "") := by decide
  exact hnames (op % 16) (Nat.mod_lt _ (by omega))

lemma not_transfers_constantGroup (reg : ℕ) :
    ¬transfers (constantGroup.getD (reg % 8) ("", .unknown)).1 := by
  have hnames : ∀ n < 8, ¬transfers (constantGroup.getD n ("", .unknown)).1 := by decide
  exact hnames (reg % 8) (Nat.mod_lt _ (by omega))

/-- Jumps and calls are named so, and nothing else is. -/
def Layout.wellNamed : Layout → Bool
  | .stack m | .constant _ m _ | .pair m _ _ | .plain m _ => !transfers m
  | .relative _ m => transfers m
  | .branch _ | .withConstant _ | .moveConstant | .throughRegister => true

lemma wellNamed_of_layout? {table : List Opcodes} {op : ℕ} {l : Layout}
    (htable : ∀ r ∈ table, r.layout.wellNamed) (h : layout? table op = some l) : l.wellNamed := by
  obtain ⟨r, hr, -, -, rfl⟩ := exists_opcodes h
  exact htable r hr

/-- An opcode with what follows it reads the same at another address, but for its target. -/
lemma Layout.form?_relocate {ext : Extension} {address : UInt64} {start op : ℕ} {rest : Bytes}
    {l : Layout} (h : l.wellNamed) :
    l.form? mode ext (address + k) start op rest =
      (l.form? mode ext address start op rest).map (Form.relocate mode k) := by
  cases l with
  | relative size m => exact relative?_relocate h
  | branch size => exact relative?_relocate (transfers_condition op)
  | stack m =>
    refine (map_relocate_eq_self fun f hf => ?_).symm
    obtain rfl := Option.some.inj hf
    exact relocate_eq_self (by simpa [Layout.wellNamed] using h)
  | plain m kind =>
    refine (map_relocate_eq_self fun f hf => ?_).symm
    obtain rfl := Option.some.inj hf
    exact relocate_eq_self (by simpa [Layout.wellNamed, Form.plain] using h)
  | constant size m kind =>
    refine (map_relocate_eq_self fun f hf => ?_).symm
    obtain ⟨c, -, rfl⟩ := Option.map_eq_some_iff.mp hf
    exact relocate_eq_self (by simpa [Layout.wellNamed] using h)
  | pair m kind reversed =>
    refine (map_relocate_eq_self fun f hf => ?_).symm
    obtain ⟨p, -, rfl⟩ := Option.map_eq_some_iff.mp hf
    exact relocate_eq_self (by simpa [Layout.wellNamed] using h)
  | moveConstant =>
    refine (map_relocate_eq_self fun f hf => ?_).symm
    obtain ⟨c, -, rfl⟩ := Option.map_eq_some_iff.mp hf
    have hmov : ¬transfers "mov" := by decide
    exact relocate_eq_self hmov
  | withConstant size =>
    refine (map_relocate_eq_self fun f hf => ?_).symm
    simp only [Layout.form?, withConstant?, Option.bind_eq_bind, Option.bind_eq_some_iff] at hf
    obtain ⟨p, -, c, -, hf⟩ := hf
    obtain rfl := Option.some.inj hf
    exact relocate_eq_self (not_transfers_constantGroup p.1)
  | throughRegister =>
    refine (map_relocate_eq_self fun f hf => ?_).symm
    simp only [Layout.form?, throughRegister?, Option.bind_eq_bind, Option.bind_eq_some_iff] at hf
    obtain ⟨p, -, m, -, hf⟩ := hf
    obtain rfl := Option.some.inj hf
    simp [Form.relocate, Mode.moveOperands, moveOperand_register]

lemma opcode?_relocate {ext : Extension} {address : UInt64} {start : ℕ} {op : UInt8}
    {rest : Bytes} :
    opcode? mode ext (address + k) start op rest =
      (opcode? mode ext address start op rest).map (Form.relocate mode k) := by
  have htable : ∀ {table : List Opcodes} {start op : ℕ} {rest : Bytes},
      (∀ r ∈ table, r.layout.wellNamed) →
      (layout? table op).bind (·.form? mode ext (address + k) start op rest) =
        ((layout? table op).bind (·.form? mode ext address start op rest)).map
          (Form.relocate mode k) := by
    intro table start op rest h
    rcases hl : layout? table op with _ | l
    · rfl
    · exact Layout.form?_relocate (wellNamed_of_layout? h hl)
  unfold opcode?
  split
  · cases rest with
    | nil => rfl
    | cons op' rest => exact htable (by decide)
  · exact htable (by decide)

lemma form?_relocate {address : UInt64} {data : Bytes} :
    form? mode (address + k) data =
      (form? mode address data).map (Form.relocate mode k) := by
  cases data with
  | nil => rfl
  | cons b rest =>
    by_cases hext : mode == .bits64 && isExtension b
    · cases rest with
      | nil => simp [form?, hext]
      | cons op rest => simpa [form?, hext] using opcode?_relocate
    · simpa [form?, hext] using opcode?_relocate

end Decoder

/-- **Decoding does not depend on the address**, but for the targets of jumps and calls, which move
with it. -/
lemma decode_relocate (mode : Mode) (k address : UInt64) (data : Bytes) :
    mode.decode data (address + k) =
      (mode.decode data address).map (Instruction.relocate mode k) := by
  cases data with
  | nil => rfl
  | cons b rest =>
    rcases hf : Decoder.form? mode address (b :: rest) with _ | f
    · have hraw : ¬transfers (Instruction.rawByte address b).mnemonic := by
        simp [Instruction.rawByte, transfers, Text.startsWith]
      simp only [Mode.decode, Decoder.form?_relocate, hf, Option.map_none, Option.map_some,
        Instruction.relocate, Mode.moveOperands, hraw]
      rfl
    · simp only [Mode.decode, Decoder.form?_relocate, hf, Option.map_some]
      rfl

lemma read?_moveOperand (mode : Mode) (k : UInt64) (operand : String) :
    Numeral.read? (mode.moveOperand k operand) = (Numeral.read? operand).map (mode.move k) := by
  rcases h : Numeral.read? operand with _ | a
  · simp [Mode.moveOperand, h]
  · simp [Mode.moveOperand, h, Numeral.read?_hexUpper]

/-- The target of a jump or call moves with it. -/
lemma target?_relocate (mode : Mode) (k : UInt64) {i : Instruction} (h : i.isJump ∨ i.isCall) :
    (i.relocate mode k).target? = i.target?.map (mode.move k) := by
  have htransfers : transfers i.mnemonic := by
    simpa [transfers, Instruction.isJump, Instruction.isCall] using h
  simp only [Instruction.target?, Instruction.relocate, Mode.moveOperands, htransfers, if_true]
  cases i.operands with
  | nil => rfl
  | cons operand operands => exact read?_moveOperand mode k operand

/-- A target lies in the address space, since a move by nothing leaves it where it is. -/
lemma target?_lt {data : Bytes} {address t : UInt64} {i : Instruction}
    (hi : mode.decode data address = some i) (h : i.isJump ∨ i.isCall) (ht : i.target? = some t) :
    t.toNat < mode.space := by
  have hself : i.relocate mode 0 = i := by
    have hzero := decode_relocate mode 0 address data
    rw [UInt64.add_zero, hi] at hzero
    exact (Option.some.inj hzero).symm
  have hmove := target?_relocate mode 0 h
  rw [hself, ht, Option.map_some, Option.some.injEq] at hmove
  have hnat := toNat_move mode 0 t
  rw [← hmove] at hnat
  rw [hnat]
  exact Nat.mod_lt _ (by cases mode <;> decide)

end Dissect
