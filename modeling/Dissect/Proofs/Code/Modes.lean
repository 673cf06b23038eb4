import Mathlib
import Dissect.Proofs.Code.SelfDelimiting

/-!
The 32-bit and the 64-bit mode side by side.

Both modes read the same tables. A mode has its own names for registers and its own targets of
jumps, but how many bytes an opcode takes, its mnemonic and its kind are told from the opcode and
the bytes behind it alone. The byte that extends an instruction in 64-bit mode therefore puts one
byte in front of what the 32-bit mode reads, with a single exception: a wide extension makes the
constant that is moved into a register twice as long.
-/

namespace Dissect

namespace Decoder

variable {mode mode' : Mode} {ext ext' : Extension} {address address' : UInt64} {start op n : ℕ}
  {rest : Bytes}

/-- The second form has the mnemonic and the kind of the first one and is `n` bytes longer. -/
structure Form.Lengthens (n : ℕ) (f g : Form) : Prop where
  length_eq : g.length = f.length + n
  mnemonic_eq : g.mnemonic = f.mnemonic
  kind_eq : g.kind = f.kind

/-! ### Layouts -/

lemma rel_map {α : Type} {f g : α → Form} (o : Option α) (h : ∀ a, (f a).Lengthens n (g a)) :
    Option.Rel (Form.Lengthens n) (o.map f) (o.map g) := by
  cases o with
  | none => exact .none
  | some a => exact .some (h a)

lemma rel_bind {α : Type} {r : α → α → Prop} {o o' : Option α} {f g : α → Option Form}
    (ho : Option.Rel r o o') (h : ∀ a b, r a b → Option.Rel (Form.Lengthens n) (f a) (g b)) :
    Option.Rel (Form.Lengthens n) (o.bind f) (o'.bind g) := by
  cases ho with
  | none => exact .none
  | some hab => exact h _ _ hab

lemma exists_iff_of_rel {r : Form → Form → Prop} {o o' : Option Form} (h : Option.Rel r o o') :
    (∃ g, o' = some g) ↔ ∃ f, o = some f := by
  cases h <;> simp

lemma extended_mod (low : ℕ) (high : Bool) : extended low high % 8 = low % 8 := by
  cases high <;> simp [extended]

/-- An extension changes the high bits of register numbers only. -/
lemma rel_registerPair? (ext ext' : Extension) (rest : Bytes) :
    Option.Rel (fun p q : ℕ × ℕ => q.1 % 8 = p.1 % 8) (registerPair? ext rest)
      (registerPair? ext' rest) := by
  cases rest with
  | nil => exact .none
  | cons b rest =>
    simp only [registerPair?]
    split
    · exact .some (by simp only [extended_mod])
    · exact .none

/-- A layout that asks for as many bytes under both extensions reads the same instruction. -/
lemma Layout.rel_form? (l : Layout) (hextra : l.extra ext'.wide = l.extra ext.wide) :
    Option.Rel (Form.Lengthens n) (l.form? mode ext address start op rest)
      (l.form? mode' ext' address' (start + n) op rest) := by
  cases l with
  | stack m => exact .some ⟨rfl, rfl, rfl⟩
  | plain m kind => exact .some ⟨rfl, rfl, rfl⟩
  | constant size m kind => exact rel_map _ fun c => ⟨Nat.add_right_comm .., rfl, rfl⟩
  | relative size m => exact rel_map _ fun d => ⟨Nat.add_right_comm .., rfl, rfl⟩
  | branch size => exact rel_map _ fun d => ⟨Nat.add_right_comm .., rfl, rfl⟩
  | moveConstant =>
    have hsize : (if ext'.wide then 8 else 4) = if ext.wide then 8 else 4 := hextra
    simp only [form?, moveConstant?, hsize]
    exact rel_map _ fun c => ⟨Nat.add_right_comm .., rfl, rfl⟩
  | pair m kind reversed =>
    simp only [form?, pair?, Option.map_eq_bind]
    exact rel_bind (rel_registerPair? ext ext' rest) fun p q _ =>
      .some ⟨Nat.add_right_comm .., rfl, rfl⟩
  | withConstant size =>
    simp only [form?, withConstant?, Option.bind_eq_bind]
    refine rel_bind (rel_registerPair? ext ext' rest) fun p q hreg => ?_
    cases constant? size (rest.drop 1) with
    | none => exact .none
    | some c =>
      simp only [hreg]
      exact .some ⟨by dsimp only; omega, rfl, rfl⟩
  | throughRegister =>
    simp only [form?, throughRegister?, Option.bind_eq_bind]
    refine rel_bind (rel_registerPair? ext ext' rest) fun p q hreg => ?_
    have hgroup : registerGroup? q.1 = registerGroup? p.1 := by simp only [registerGroup?, hreg]
    rw [hgroup]
    cases registerGroup? p.1 with
    | none => exact .none
    | some m => exact .some ⟨Nat.add_right_comm .., rfl, rfl⟩

/-! ### Opcodes -/

lemma layout?_eq_moveConstant_iff {op : ℕ} :
    layout? shortOpcodes op = some .moveConstant ↔ 0xB8 ≤ op ∧ op ≤ 0xBF := by
  constructor
  · have htable : ∀ r ∈ shortOpcodes, r.layout = .moveConstant →
        0xB8 ≤ r.first ∧ r.last ≤ 0xBF := by decide
    intro h
    obtain ⟨r, hr, hfirst, hlast, hlayout⟩ := exists_opcodes h
    obtain ⟨h1, h2⟩ := htable r hr hlayout
    exact ⟨h1.trans hfirst, hlast.trans h2⟩
  · rintro ⟨hfirst, hlast⟩
    interval_cases op <;> rfl

/-- Only the constant that is moved into a register depends on the width. -/
lemma Layout.extra_eq {l : Layout} (h : l ≠ .moveConstant) (wide wide' : Bool) :
    l.extra wide = l.extra wide' := by
  cases l <;> first | rfl | exact absurd rfl h

/-- The opcode moves a constant into a register. -/
def isMove (op : UInt8) : Bool := 0xB8 ≤ op && op ≤ 0xBF

lemma isMove_iff {op : UInt8} :
    isMove op ↔ layout? shortOpcodes op.toNat = some .moveConstant := by
  rw [layout?_eq_moveConstant_iff, isMove, Bool.and_eq_true, decide_eq_true_eq, decide_eq_true_eq]
  exact and_congr UInt8.le_iff_toNat_le UInt8.le_iff_toNat_le

lemma rel_layout? {table : List Opcodes}
    (h : ∀ l, layout? table op = some l → l.extra ext'.wide = l.extra ext.wide) :
    Option.Rel (Form.Lengthens n)
      ((layout? table op).bind (·.form? mode ext address start op rest))
      ((layout? table op).bind (·.form? mode' ext' address' (start + n) op rest)) := by
  cases hl : layout? table op with
  | none => exact .none
  | some l => exact l.rel_form? (h l hl)

/-- Any two extensions read the same instruction, unless one of them makes a moved constant
longer. -/
lemma rel_opcode? {op : UInt8} (h : isMove op → ext'.wide = ext.wide) :
    Option.Rel (Form.Lengthens n) (opcode? mode ext address start op rest)
      (opcode? mode' ext' address' (start + n) op rest) := by
  unfold opcode?
  split
  · cases rest with
    | nil => exact .none
    | cons op' rest =>
      -- no opcode of two bytes moves a constant
      have htable : ∀ r ∈ longOpcodes, r.layout ≠ .moveConstant := by decide
      simp only [Nat.add_right_comm start n 1]
      refine rel_layout? fun l hl => ?_
      obtain ⟨r, hr, -, -, rfl⟩ := exists_opcodes hl
      exact Layout.extra_eq (htable r hr) _ _
  · refine rel_layout? fun l hl => ?_
    by_cases hmove : l = .moveConstant
    · rw [h (isMove_iff.mpr (hmove ▸ hl))]
    · exact Layout.extra_eq hmove _ _

lemma opcode?_of_isMove {op : UInt8} (h : isMove op) :
    opcode? mode ext address start op rest = moveConstant? ext start op.toNat rest := by
  have hlong : op ≠ 0x0F := by
    rintro rfl
    exact absurd h (by decide)
  simp only [opcode?, if_neg hlong, isMove_iff.mp h, Option.bind_some, Layout.form?]

/-! ### The byte that extends an instruction -/

variable {b r : UInt8}

lemma isExtension_iff : isExtension b ↔ 0x40 ≤ b ∧ b ≤ 0x4F := by simp [isExtension]

/-- Without an extension, both modes read the same instruction. -/
lemma rel_form? (hb : ¬isExtension b) (rest : Bytes) (address address' : UInt64) :
    Option.Rel (Form.Lengthens 0) (form? .bits32 address (b :: rest))
      (form? .bits64 address' (b :: rest)) := by
  simp only [form?, hb, Bool.and_false, Bool.false_eq_true, if_false]
  exact rel_opcode? fun _ => rfl

/-- The byte is a wide extension of the move of a constant. -/
def widensMove (r : UInt8) (s : Bytes) : Bool := r.toNat.testBit 3 && s.head?.any isMove

/-- An extension puts a byte in front of an instruction; before the move of a constant, a wide one
also asks for four bytes more. -/
lemma rel_form?_extension (hr : isExtension r) (s : Bytes) (address address' : UInt64) :
    Option.Rel (Form.Lengthens (if widensMove r s then 1 + 4 else 1))
      (if widensMove r s → 8 ≤ s.tail.length then form? .bits32 address s else none)
      (form? .bits64 address' (r :: s)) := by
  cases s with
  | nil => simp [form?, widensMove, hr]
  | cons op rest =>
    have hnarrow : form? .bits32 address (op :: rest) = opcode? .bits32 {} address 1 op rest := rfl
    have hwide : form? .bits64 address' (r :: op :: rest) =
        opcode? .bits64 (.ofByte r) address' 2 op rest := by simp [form?, hr]
    rw [hnarrow, hwide]
    by_cases hmove : widensMove r (op :: rest)
    · obtain ⟨hbit, hop⟩ : r.toNat.testBit 3 ∧ isMove op := by simpa [widensMove] using hmove
      have hext : (Extension.ofByte r).wide = true := hbit
      rw [opcode?_of_isMove hop, opcode?_of_isMove hop]
      simp only [hmove, if_true, true_imp_iff, List.tail_cons, moveConstant?, hext, constant?]
      by_cases hlong : 8 ≤ rest.length
      · have hshort : 4 ≤ rest.length := by omega
        simp only [hlong, hshort, if_true, Bool.false_eq_true, if_false, Option.map_some]
        exact .some ⟨rfl, rfl, rfl⟩
      · simp only [hlong, if_false]
        exact .none
    · have hnot : r.toNat.testBit 3 → ¬isMove op := by
        simpa [widensMove] using hmove
      simp only [hmove]
      refine rel_opcode? fun hop => ?_
      exact Bool.eq_false_iff.mpr fun hext => hnot hext hop

lemma form?_extension_iff (hr : isExtension r) (s : Bytes) (address address' : UInt64) :
    (∃ g, form? .bits64 address' (r :: s) = some g) ↔
      (∃ f, form? .bits32 address s = some f) ∧ (widensMove r s → 8 ≤ s.tail.length) := by
  rw [exists_iff_of_rel (rel_form?_extension hr s address address')]
  split
  · next hlong => exact (and_iff_left hlong).symm
  · next hlong => exact iff_of_false (by simp) fun h => hlong h.2

lemma lengthens_extension {s : Bytes} {f g : Form} (hr : isExtension r)
    (hf : form? .bits32 address s = some f) (hg : form? .bits64 address' (r :: s) = some g) :
    f.Lengthens (if widensMove r s then 1 + 4 else 1) g := by
  obtain ⟨-, hlong⟩ := (form?_extension_iff hr s address address').mp ⟨g, hg⟩
  have hrel := rel_form?_extension hr s address address'
  rw [if_pos hlong, hf, hg] at hrel
  cases hrel with
  | some hfg => exact hfg

end Decoder

/-! ### Decoded instructions -/

/-- The bytes start with an instruction that is not a byte of data. -/
def Mode.Knows (mode : Mode) (data : Bytes) (address : UInt64) : Prop :=
  ∃ i, mode.decode data address = some i ∧ i.mnemonic ≠ "db"

/-- The second instruction has the mnemonic and the kind of the first one and is `n` bytes
longer. -/
structure Instruction.Lengthens (n : ℕ) (i j : Instruction) : Prop where
  length_eq : j.bytes.length = i.bytes.length + n
  mnemonic_eq : j.mnemonic = i.mnemonic
  kind_eq : j.kind = i.kind

variable {mode : Mode} {data data' : Bytes} {address address' : UInt64} {i j : Instruction}

lemma Mode.knows_iff :
    mode.Knows data address ↔ ∃ f, Decoder.form? mode address data = some f := by
  constructor
  · rintro ⟨i, hi, hdb⟩
    obtain ⟨f, hf, -⟩ := exists_form_of_decode hi hdb
    exact ⟨f, hf⟩
  · rintro ⟨f, hf⟩
    exact ⟨_, decode_of_form hf, Decoder.form?_mnemonic_ne hf⟩

/-- Forms that agree give instructions that agree. -/
lemma lengthens_of_form {f g : Decoder.Form} {n : ℕ} {mode' : Mode}
    (hf : Decoder.form? mode address data = some f)
    (hg : Decoder.form? mode' address' data' = some g) (hfg : f.Lengthens n g)
    (hi : mode.decode data address = some i) (hj : mode'.decode data' address' = some j) :
    i.Lengthens n j := by
  rw [decode_of_form hf] at hi
  rw [decode_of_form hg] at hj
  obtain rfl := Option.some.inj hi
  obtain rfl := Option.some.inj hj
  refine ⟨?_, hfg.mnemonic_eq, hfg.kind_eq⟩
  rw [List.length_take_of_le (Decoder.form?_length hf).2.1,
    List.length_take_of_le (Decoder.form?_length hg).2.1, hfg.length_eq]

/-- **The two modes agree up to the extension.** Where the first byte is no extension, both modes
decode instructions of the same length, mnemonic and kind, at any addresses. An extension is part of
an instruction just when the bytes behind it start with one in 32-bit mode and, if it is wide and a
constant is moved into a register, the constant has eight bytes; it adds itself to the length, and
in that case the four bytes more. -/
theorem decode_bits64_agrees (address address' : UInt64) :
    (∀ b rest, ¬(0x40 ≤ b ∧ b ≤ 0x4F) →
      ∃ i j, Mode.bits32.decode (b :: rest) address = some i ∧
        Mode.bits64.decode (b :: rest) address' = some j ∧ i.Lengthens 0 j) ∧
    ∀ r s, 0x40 ≤ r ∧ r ≤ 0x4F →
      (Mode.bits64.Knows (r :: s) address' ↔ Mode.bits32.Knows s address ∧
        (Decoder.widensMove r s → 8 ≤ s.tail.length)) ∧
      ∀ j, Mode.bits64.decode (r :: s) address' = some j → j.mnemonic ≠ "db" →
        ∃ i, Mode.bits32.decode s address = some i ∧
          i.Lengthens (if Decoder.widensMove r s then 1 + 4 else 1) j := by
  refine ⟨fun b rest hb => ?_, fun r s hr => ?_⟩
  · have hrel := Decoder.rel_form? (mt Decoder.isExtension_iff.mp hb) rest address address'
    generalize hf : Decoder.form? .bits32 address (b :: rest) = f at hrel
    generalize hg : Decoder.form? .bits64 address' (b :: rest) = g at hrel
    cases hrel with
    | none =>
      refine ⟨.rawByte address b, .rawByte address' b, ?_, ?_, rfl, rfl, rfl⟩
      · simp only [Mode.decode, hf]
      · simp only [Mode.decode, hg]
    | some hfg =>
      have hi := decode_of_form hf
      have hj := decode_of_form hg
      exact ⟨_, _, hi, hj, lengthens_of_form hf hg hfg hi hj⟩
  · have hext := Decoder.isExtension_iff.mpr hr
    have hiff := Decoder.form?_extension_iff hext s address address'
    refine ⟨by rw [Mode.knows_iff, Mode.knows_iff, hiff], fun j hj hdb => ?_⟩
    obtain ⟨g, hg, -⟩ := exists_form_of_decode hj hdb
    obtain ⟨⟨f, hf⟩, -⟩ := hiff.mp ⟨g, hg⟩
    have hi := decode_of_form hf
    exact ⟨_, hi, lengthens_of_form hf hg (Decoder.lengthens_extension hext hf hg) hi hj⟩

/-- A wide move behind its extension, and the same bytes without the last one. -/
theorem decode_bits64_agrees_wide :
    let s : Bytes := [0xB8, 1, 2, 3, 4, 5, 6, 7, 8]
    (0x40 ≤ (0x48 : UInt8) ∧ (0x48 : UInt8) ≤ 0x4F) ∧ Decoder.widensMove 0x48 s ∧
      Mode.bits64.Knows (0x48 :: s) 0x1000 ∧ ¬Mode.bits64.Knows (0x48 :: s.dropLast) 0x1000 ∧
      ∃ i, Mode.bits32.decode s 0 = some i ∧ ∃ j, Mode.bits64.decode (0x48 :: s) 0x1000 = some j ∧
        i.Lengthens 5 j := by
  intro s
  obtain ⟨-, hext⟩ := decode_bits64_agrees 0 0x1000
  have hr : 0x40 ≤ (0x48 : UInt8) ∧ (0x48 : UInt8) ≤ 0x4F := by decide
  obtain ⟨hiff, hlengthens⟩ := hext 0x48 s hr
  obtain ⟨hcut, -⟩ := hext 0x48 s.dropLast hr
  have hknown : Mode.bits64.Knows (0x48 :: s) 0x1000 := hiff.mpr ⟨⟨_, rfl, by decide⟩, by decide⟩
  obtain ⟨j, hj, hdb⟩ := hknown
  obtain ⟨i, hi, hij⟩ := hlengthens j hj hdb
  exact ⟨hr, by decide, ⟨j, hj, hdb⟩, fun h => absurd ((hcut.mp h).2 (by decide)) (by decide),
    i, hi, j, hj, hij⟩

end Dissect
