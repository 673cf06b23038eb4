import Mathlib
import Dissect.Code.Decoder

/-!
What the decoder takes off the front of a byte string.

The layout of an opcode fixes how many bytes follow it. An instruction keeps the bytes it was
decoded from, at least one and at most as many as the longest encoding of the mode has.
-/

namespace Dissect.Decoder

variable {mode : Mode} {ext : Extension} {address : UInt64} {start op n : ℕ} {rest : Bytes}
  {mnemonic : String} {kind : InstructionKind} {f : Form}

/-! ### Lengths of forms -/

/-- The number of bytes after an opcode. -/
def Layout.extra (wide : Bool) : Layout → ℕ
  | .stack _ | .plain _ _ => 0
  | .constant size _ _ | .relative size _ | .branch size => size
  | .pair _ _ _ | .throughRegister => 1
  | .withConstant size => 1 + size
  | .moveConstant => if wide then 8 else 4

lemma le_length_of_constant? {bs : Bytes} {c : ℕ} (h : constant? n bs = some c) :
    n ≤ bs.length := by
  unfold constant? at h
  split at h
  · assumption
  · simp at h

/-- A byte that names two registers is there. -/
lemma of_registerPair? {p : ℕ × ℕ} (h : registerPair? ext rest = some p) :
    ∃ b bs, rest = b :: bs ∧ 0xC0 ≤ b := by
  cases rest with
  | nil => simp [registerPair?] at h
  | cons b bs =>
    refine ⟨b, bs, rfl, ?_⟩
    by_contra hb
    simp [registerPair?, hb] at h

lemma of_withConstant? (h : withConstant? ext start n rest = some f) :
    f.length = start + 1 + n ∧ 1 + n ≤ rest.length ∧ ∃ b bs, rest = b :: bs ∧ 0xC0 ≤ b := by
  simp only [withConstant?, Option.bind_eq_bind, Option.bind_eq_some_iff] at h
  obtain ⟨p, hp, c, hc, h⟩ := h
  have hlen := le_length_of_constant? hc
  obtain rfl := Option.some.inj h
  obtain ⟨b, bs, rfl, hb⟩ := of_registerPair? hp
  refine ⟨rfl, ?_, b, bs, rfl, hb⟩
  simp only [List.length_drop, List.length_cons] at hlen ⊢
  omega

lemma of_throughRegister? (h : throughRegister? mode ext start rest = some f) :
    f.length = start + 1 ∧ 1 ≤ rest.length := by
  simp only [throughRegister?, Option.bind_eq_bind, Option.bind_eq_some_iff] at h
  obtain ⟨p, hp, m, -, h⟩ := h
  obtain rfl := Option.some.inj h
  obtain ⟨b, bs, rfl, -⟩ := of_registerPair? hp
  exact ⟨rfl, by simp⟩

/-- An encoding is as long as its opcode and what the layout asks for, all of which is there. -/
lemma Layout.length_form? {l : Layout} (h : l.form? mode ext address start op rest = some f) :
    f.length = start + l.extra ext.wide ∧ l.extra ext.wide ≤ rest.length := by
  cases l with
  | stack m =>
    obtain rfl := Option.some.inj h
    exact ⟨rfl, Nat.zero_le _⟩
  | plain m k =>
    obtain rfl := Option.some.inj h
    exact ⟨rfl, Nat.zero_le _⟩
  | constant size m k =>
    obtain ⟨c, hc, rfl⟩ := Option.map_eq_some_iff.mp h
    exact ⟨rfl, le_length_of_constant? hc⟩
  | relative size m =>
    obtain ⟨c, hc, rfl⟩ := Option.map_eq_some_iff.mp h
    exact ⟨rfl, le_length_of_constant? hc⟩
  | branch size =>
    obtain ⟨c, hc, rfl⟩ := Option.map_eq_some_iff.mp h
    exact ⟨rfl, le_length_of_constant? hc⟩
  | moveConstant =>
    obtain ⟨c, hc, rfl⟩ := Option.map_eq_some_iff.mp h
    exact ⟨rfl, le_length_of_constant? hc⟩
  | pair m k reversed =>
    obtain ⟨p, hp, rfl⟩ := Option.map_eq_some_iff.mp h
    obtain ⟨b, bs, rfl, -⟩ := of_registerPair? hp
    exact ⟨rfl, by simp [Layout.extra]⟩
  | withConstant size =>
    obtain ⟨h1, h2, -⟩ := of_withConstant? h
    exact ⟨by rw [h1, Layout.extra]; omega, h2⟩
  | throughRegister => exact of_throughRegister? h

/-! ### The tables -/

lemma exists_opcodes {table : List Opcodes} {l : Layout} (h : layout? table op = some l) :
    ∃ r ∈ table, r.first ≤ op ∧ op ≤ r.last ∧ r.layout = l := by
  obtain ⟨r, hr, rfl⟩ := Option.map_eq_some_iff.mp h
  have hop := List.find?_some hr
  simp only [Bool.and_eq_true, decide_eq_true_eq] at hop
  exact ⟨r, List.mem_of_find?_eq_some hr, hop.1, hop.2, rfl⟩

lemma extra_le_of_short {l : Layout} (h : layout? shortOpcodes op = some l) (wide : Bool) :
    l.extra wide ≤ if wide then 8 else 5 := by
  have htable : ∀ r ∈ shortOpcodes, ∀ wide, r.layout.extra wide ≤ if wide then 8 else 5 := by
    decide
  obtain ⟨r, hr, -, -, rfl⟩ := exists_opcodes h
  exact htable r hr wide

lemma extra_le_of_long {l : Layout} (h : layout? longOpcodes op = some l) (wide : Bool) :
    l.extra wide ≤ 4 := by
  have htable : ∀ r ∈ longOpcodes, ∀ wide, r.layout.extra wide ≤ 4 := by decide
  obtain ⟨r, hr, -, -, rfl⟩ := exists_opcodes h
  exact htable r hr wide

/-- What an opcode decodes to, by whether it has a second byte. -/
lemma of_opcode? {op : UInt8} (h : opcode? mode ext address start op rest = some f) :
    (∃ (l : Layout), op ≠ 0x0F ∧ layout? shortOpcodes op.toNat = some l ∧
      l.form? mode ext address start op.toNat rest = some f) ∨
    ∃ (op' : UInt8) (rest' : Bytes) (l : Layout), op = 0x0F ∧ rest = op' :: rest' ∧
      layout? longOpcodes op'.toNat = some l ∧
      l.form? mode ext address (start + 1) op'.toNat rest' = some f := by
  unfold opcode? at h
  split at h
  · rename_i hop
    cases rest with
    | nil => simp at h
    | cons op' rest' =>
      obtain ⟨l, hl, hf⟩ := Option.bind_eq_some_iff.mp h
      exact .inr ⟨op', rest', l, hop, rfl, hl, hf⟩
  · rename_i hop
    obtain ⟨l, hl, hf⟩ := Option.bind_eq_some_iff.mp h
    exact .inl ⟨l, hop, hl, hf⟩

lemma opcode?_length {op : UInt8} (h : opcode? mode ext address start op rest = some f) :
    start ≤ f.length ∧ f.length ≤ start + rest.length ∧
      f.length ≤ start + if ext.wide then 8 else 5 := by
  obtain ⟨l, -, hl, hf⟩ | ⟨op', rest', l, -, rfl, hl, hf⟩ := of_opcode? h
  · have h1 := Layout.length_form? hf
    have h2 := extra_le_of_short hl ext.wide
    omega
  · have h1 := Layout.length_form? hf
    have h2 := extra_le_of_long hl ext.wide
    rw [List.length_cons]
    split <;> omega

/-- Only the move of a constant is as long as a wide encoding can be. -/
lemma opcode?_longest_wide {op : UInt8} (h : opcode? mode ext address start op rest = some f)
    (hw : ext.wide = true) (hlen : f.length = start + 8) : 0x80 ≤ op := by
  obtain ⟨l, -, hl, hf⟩ | ⟨op', rest', l, -, rfl, hl, hf⟩ := of_opcode? h
  · have htable : ∀ r ∈ shortOpcodes, r.layout.extra true = 8 → 0x80 ≤ r.first := by decide
    obtain ⟨r, hr, hfirst, -, rfl⟩ := exists_opcodes hl
    obtain ⟨h1, -⟩ := Layout.length_form? hf
    rw [hw] at h1
    exact UInt8.le_iff_toNat_le.mpr (le_trans (htable r hr (by omega)) hfirst)
  · obtain ⟨h1, -⟩ := Layout.length_form? hf
    have h2 := extra_le_of_long hl ext.wide
    omega

/-- In a narrow encoding of the greatest length, a byte that is not ASCII follows the opcode. -/
lemma opcode?_longest_narrow {op : UInt8} (h : opcode? mode ext address start op rest = some f)
    (hw : ext.wide = false) (hlen : f.length = start + 5) :
    ∃ c bs, rest = c :: bs ∧ 0x80 ≤ c := by
  obtain ⟨l, -, hl, hf⟩ | ⟨op', rest', l, -, rfl, hl, hf⟩ := of_opcode? h
  · have htable : ∀ r ∈ shortOpcodes, r.layout.extra false = 5 →
        r.layout = .withConstant 4 := by decide
    obtain ⟨r, hr, -, -, rfl⟩ := exists_opcodes hl
    obtain ⟨h1, -⟩ := Layout.length_form? hf
    rw [hw] at h1
    rw [htable r hr (by omega)] at hf
    obtain ⟨-, -, b, bs, rfl, hb⟩ := of_withConstant? hf
    exact ⟨b, bs, rfl, le_trans (b := 0xC0) (by decide) hb⟩
  · have htable : ∀ r ∈ longOpcodes, r.layout.extra false = 4 → 0x80 ≤ r.first := by decide
    obtain ⟨r, hr, hfirst, -, rfl⟩ := exists_opcodes hl
    obtain ⟨h1, -⟩ := Layout.length_form? hf
    rw [hw] at h1
    have h2 := le_trans (htable r hr (by omega)) hfirst
    exact ⟨op', rest', rfl, UInt8.le_iff_toNat_le.mpr h2⟩

/-- What a form is decoded from: an opcode at the front, or after a byte that extends it. -/
lemma of_form? {data : Bytes} (h : form? mode address data = some f) :
    (∃ b rest, data = b :: rest ∧ opcode? mode {} address 1 b rest = some f) ∨
    ∃ b op rest, data = b :: op :: rest ∧ mode = .bits64 ∧ isExtension b ∧
      opcode? mode (.ofByte b) address 2 op rest = some f := by
  cases data with
  | nil => simp [form?] at h
  | cons b rest =>
    by_cases hext : mode == .bits64 && isExtension b
    · have hmode := hext
      simp only [Bool.and_eq_true, beq_iff_eq] at hmode
      cases rest with
      | nil => simp [form?, hext] at h
      | cons op rest =>
        refine .inr ⟨b, op, rest, rfl, hmode.1, hmode.2, ?_⟩
        simpa [form?, hext] using h
    · exact .inl ⟨b, rest, rfl, by simpa [form?, hext] using h⟩

end Decoder

/-- Length of the longest encoding. -/
def Mode.maxLength : Mode → ℕ
  | .bits32 => 6
  | .bits64 => 10

namespace Decoder

variable {mode : Mode} {address : UInt64} {data : Bytes} {f : Form}

lemma form?_length (h : form? mode address data = some f) :
    0 < f.length ∧ f.length ≤ data.length ∧ f.length ≤ mode.maxLength := by
  have hmode : 6 ≤ mode.maxLength := by cases mode <;> decide
  obtain ⟨b, rest, rfl, hop⟩ | ⟨b, op, rest, rfl, rfl, -, hop⟩ := of_form? h
  · obtain ⟨h1, h2, h3⟩ := opcode?_length hop
    simp only [List.length_cons, Bool.false_eq_true, if_false] at *
    omega
  · obtain ⟨h1, h2, h3⟩ := opcode?_length hop
    simp only [List.length_cons, Mode.maxLength]
    split at h3 <;> omega

lemma form?_longest (h : form? mode address data = some f) (hlen : f.length = mode.maxLength) :
    ∃ b c bs, data = b :: c :: bs ∧ 0x80 ≤ c := by
  obtain ⟨b, rest, rfl, hop⟩ | ⟨b, op, rest, rfl, rfl, -, hop⟩ := of_form? h
  · have h1 := (opcode?_length hop).2.2
    simp only [Bool.false_eq_true, if_false] at h1
    have h6 : f.length = 1 + 5 := by cases mode <;> simp only [Mode.maxLength] at hlen <;> omega
    obtain ⟨c, bs, rfl, hc⟩ := opcode?_longest_narrow hop rfl h6
    exact ⟨b, c, bs, rfl, hc⟩
  · have h1 := (opcode?_length hop).2.2
    simp only [Mode.maxLength] at hlen
    have hw : (Extension.ofByte b).wide = true := by
      by_contra hw
      simp only [hw] at h1
      simp at h1
      omega
    exact ⟨b, op, rest, rfl, opcode?_longest_wide hop hw hlen⟩

end Decoder

/-! ### Decoded instructions -/

section Decode

variable {mode : Mode} {address : UInt64} {data : Bytes} {i : Instruction}

/-- What decoding takes off the front of a byte string. -/
structure Takes (mode : Mode) (data : Bytes) (address : UInt64) (i : Instruction) : Prop where
  address_eq : i.address = address
  bytes_eq : i.bytes = data.take i.bytes.length
  pos : 0 < i.bytes.length
  le_length : i.bytes.length ≤ data.length
  le_max : i.bytes.length ≤ mode.maxLength
  longest : i.bytes.length = mode.maxLength → ∃ b c bs, data = b :: c :: bs ∧ 0x80 ≤ c

lemma takes_of_decode (h : mode.decode data address = some i) : Takes mode data address i := by
  cases data with
  | nil => simp [Mode.decode] at h
  | cons b rest =>
    rcases hf : Decoder.form? mode address (b :: rest) with _ | f
    · simp only [Mode.decode, hf, Option.some.injEq] at h
      subst h
      have hmode : 6 ≤ mode.maxLength := by cases mode <;> decide
      have hone : (Instruction.rawByte address b).bytes.length = 1 := rfl
      exact ⟨rfl, rfl, by omega, by simp [hone], by omega, fun h => by omega⟩
    · simp only [Mode.decode, hf, Option.some.injEq] at h
      subst h
      obtain ⟨h1, h2, h3⟩ := Decoder.form?_length hf
      have hlen : ((b :: rest).take f.length).length = f.length := by
        rw [List.length_take]
        omega
      refine ⟨rfl, ?_, ?_, ?_, ?_, ?_⟩ <;> simp only [hlen]
      · exact h1
      · exact h2
      · exact h3
      · exact Decoder.form?_longest hf

lemma decode_eq_none_iff : mode.decode data address = none ↔ data = [] := by
  cases data with
  | nil => simp [Mode.decode]
  | cons b rest => rcases hf : Decoder.form? mode address (b :: rest) <;> simp [Mode.decode, hf]

end Decode

end Dissect
