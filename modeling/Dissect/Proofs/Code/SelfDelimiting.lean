import Mathlib
import Dissect.Proofs.Code.Decoding

/-!
An instruction says where it ends.

A layout reads a fixed number of bytes behind the opcode and looks at no others, so an instruction
that has been decoded stays the same whatever bytes come after it. Only a byte that was not decoded
can become part of an instruction when there are more bytes. A sweep from the start of a byte string
takes at least one byte at a time, and leaves none out.
-/

namespace Dissect

namespace Decoder

variable {mode : Mode} {ext : Extension} {address : UInt64} {start op n : ℕ} {rest : Bytes}
  {f : Form}

/-! ### The bytes that are read -/

lemma constant?_take (n : ℕ) (bs : Bytes) : constant? n (bs.take n) = constant? n bs := by
  unfold constant?
  by_cases hn : n ≤ bs.length
  · have htake : n ≤ (bs.take n).length := by
      rw [List.length_take]
      omega
    rw [if_pos hn, if_pos htake, List.take_take, Nat.min_self]
  · have htake : ¬n ≤ (bs.take n).length := by
      rw [List.length_take]
      omega
    rw [if_neg hn, if_neg htake]

lemma registerPair?_take (ext : Extension) (n : ℕ) (bs : Bytes) :
    registerPair? ext (bs.take (1 + n)) = registerPair? ext bs := by
  cases bs with
  | nil => rw [List.take_nil]
  | cons b bs => rw [Nat.add_comm, List.take_succ_cons, registerPair?, registerPair?]

/-- A layout looks at no bytes behind those that it asks for. -/
lemma Layout.form?_take (l : Layout) :
    l.form? mode ext address start op (rest.take (l.extra ext.wide)) =
      l.form? mode ext address start op rest := by
  cases l with
  | stack m => rfl
  | plain m kind => rfl
  | constant size m kind => simp only [form?, constantOnly?, extra, constant?_take]
  | relative size m => simp only [form?, relative?, extra, constant?_take]
  | branch size => simp only [form?, relative?, extra, constant?_take]
  | moveConstant => simp only [form?, moveConstant?, extra, constant?_take]
  | pair m kind reversed =>
    simp only [form?, pair?, extra]
    rw [registerPair?_take ext 0]
  | throughRegister =>
    simp only [form?, throughRegister?, extra]
    rw [registerPair?_take ext 0]
  | withConstant size =>
    have hdrop : (rest.take (1 + size)).drop 1 = (rest.drop 1).take size := by
      rw [List.drop_take, Nat.add_sub_cancel_left]
    simp only [form?, withConstant?, extra]
    rw [registerPair?_take, hdrop, constant?_take]

/-- A form is decoded also from its own bytes with others behind them. -/
lemma Layout.form?_append {l : Layout} (h : l.form? mode ext address start op rest = some f)
    (more : Bytes) :
    l.form? mode ext address start op (rest.take (f.length - start) ++ more) = some f := by
  obtain ⟨hlength, hle⟩ := Layout.length_form? h
  have hextra : f.length - start = l.extra ext.wide := by omega
  have hown : (rest.take (l.extra ext.wide) ++ more).take (l.extra ext.wide) =
      rest.take (l.extra ext.wide) := List.take_left' (List.length_take_of_le hle)
  rw [hextra, ← Layout.form?_take, hown, Layout.form?_take, h]

lemma opcode?_append {op : UInt8} (h : opcode? mode ext address start op rest = some f)
    (more : Bytes) :
    opcode? mode ext address start op (rest.take (f.length - start) ++ more) = some f := by
  obtain ⟨l, hop, hl, hf⟩ | ⟨op', rest', l, rfl, rfl, hl, hf⟩ := of_opcode? h
  · simp only [opcode?, if_neg hop, hl, Option.bind_some]
    exact Layout.form?_append hf more
  · have hlength : start + 1 ≤ f.length := by
      have := (Layout.length_form? hf).1
      omega
    -- the second byte of the opcode is one of those behind the first
    have htake : (op' :: rest').take (f.length - start) ++ more =
        op' :: (rest'.take (f.length - (start + 1)) ++ more) := by
      rw [show f.length - start = f.length - (start + 1) + 1 by omega, List.take_succ_cons,
        List.cons_append]
    simp only [htake, opcode?, if_true, hl, Option.bind_some]
    exact Layout.form?_append hf more

lemma form?_append {data : Bytes} (h : form? mode address data = some f) (more : Bytes) :
    form? mode address (data.take f.length ++ more) = some f := by
  cases data with
  | nil => simp [form?] at h
  | cons b rest =>
    obtain ⟨hpos, -, -⟩ := form?_length h
    have htake : (b :: rest).take f.length ++ more = b :: (rest.take (f.length - 1) ++ more) := by
      rw [show f.length = f.length - 1 + 1 by omega, List.take_succ_cons, List.cons_append,
        Nat.add_sub_cancel]
    rw [htake]
    by_cases hext : mode == .bits64 && isExtension b
    · cases rest with
      | nil => simp [form?, hext] at h
      | cons op rest =>
        simp only [form?, hext, if_true] at h
        have hlength := (opcode?_length h).1
        have hrest : (op :: rest).take (f.length - 1) ++ more =
            op :: (rest.take (f.length - 2) ++ more) := by
          rw [show f.length - 1 = f.length - 2 + 1 by omega, List.take_succ_cons,
            List.cons_append]
        simp only [hrest, form?, hext, if_true]
        exact opcode?_append h more
    · simp only [form?, hext, Bool.false_eq_true, if_false] at h ⊢
      exact opcode?_append h more

/-! ### Names -/

/-- The mnemonics of the instructions that have a layout. -/
def Layout.mnemonics : Layout → List String
  | .stack m | .constant _ m _ | .relative _ m | .pair m _ _ | .plain m _ => [m]
  | .branch _ => conditions
  | .withConstant _ => constantGroup.map (·.1)
  | .moveConstant => ["mov"]
  | .throughRegister => ["call", "jmp"]

/-- The mnemonics of the instructions that have a layout, each with its kind. -/
def Layout.kinds : Layout → List (String × InstructionKind)
  | .stack m => [(m, .memory)]
  | .constant _ m kind | .pair m kind _ | .plain m kind => [(m, kind)]
  | .relative _ m => [(m, .controlFlow)]
  | .branch _ => conditions.map (·, .controlFlow)
  | .withConstant _ => constantGroup
  | .moveConstant => [("mov", .memory)]
  | .throughRegister => ["call", "jmp"].map (·, .controlFlow)

lemma Layout.map_kinds (l : Layout) : l.kinds.map (·.1) = l.mnemonics := by
  cases l <;> rfl

lemma condition_mem (op : ℕ) : condition op ∈ conditions := by
  have hlt : op % 16 < conditions.length := Nat.mod_lt op (by decide)
  rw [condition, List.getD_eq_getElem _ _ hlt]
  exact List.getElem_mem hlt

lemma constantGroup_mem (reg : ℕ) :
    constantGroup.getD (reg % 8) ("", .unknown) ∈ constantGroup := by
  have hlt : reg % 8 < constantGroup.length := Nat.mod_lt reg (by decide)
  rw [List.getD_eq_getElem _ _ hlt]
  exact List.getElem_mem hlt

lemma registerGroup?_mem {reg : ℕ} {m : String} (h : registerGroup? reg = some m) :
    m ∈ ["call", "jmp"] := by
  unfold registerGroup? at h
  split at h <;> simp_all

lemma Layout.kind_mem {l : Layout} (h : l.form? mode ext address start op rest = some f) :
    (f.mnemonic, f.kind) ∈ l.kinds := by
  cases l with
  | stack m =>
    obtain rfl := Option.some.inj h
    exact List.mem_singleton_self _
  | plain m kind =>
    obtain rfl := Option.some.inj h
    exact List.mem_singleton_self _
  | constant size m kind =>
    obtain ⟨c, -, rfl⟩ := Option.map_eq_some_iff.mp h
    exact List.mem_singleton_self _
  | relative size m =>
    obtain ⟨c, -, rfl⟩ := Option.map_eq_some_iff.mp h
    exact List.mem_singleton_self _
  | branch size =>
    obtain ⟨c, -, rfl⟩ := Option.map_eq_some_iff.mp h
    exact List.mem_map_of_mem (condition_mem op)
  | moveConstant =>
    obtain ⟨c, -, rfl⟩ := Option.map_eq_some_iff.mp h
    exact List.mem_singleton_self _
  | pair m kind reversed =>
    obtain ⟨p, -, rfl⟩ := Option.map_eq_some_iff.mp h
    exact List.mem_singleton_self _
  | withConstant size =>
    simp only [form?, withConstant?, Option.bind_eq_bind, Option.bind_eq_some_iff] at h
    obtain ⟨p, -, c, -, h⟩ := h
    obtain rfl := Option.some.inj h
    exact constantGroup_mem p.1
  | throughRegister =>
    simp only [form?, throughRegister?, Option.bind_eq_bind, Option.bind_eq_some_iff] at h
    obtain ⟨p, -, m, hm, h⟩ := h
    obtain rfl := Option.some.inj h
    exact List.mem_map_of_mem (registerGroup?_mem hm)

lemma Layout.mnemonic_mem {l : Layout} (h : l.form? mode ext address start op rest = some f) :
    f.mnemonic ∈ l.mnemonics := by
  rw [← Layout.map_kinds]
  exact List.mem_map_of_mem (Layout.kind_mem h)

lemma opcode?_kind {op : UInt8} (h : opcode? mode ext address start op rest = some f) :
    ∃ r ∈ shortOpcodes ++ longOpcodes, (f.mnemonic, f.kind) ∈ r.layout.kinds := by
  obtain ⟨l, -, hl, hf⟩ | ⟨op', rest', l, -, -, hl, hf⟩ := of_opcode? h
  · obtain ⟨r, hr, -, -, rfl⟩ := exists_opcodes hl
    exact ⟨r, List.mem_append_left _ hr, Layout.kind_mem hf⟩
  · obtain ⟨r, hr, -, -, rfl⟩ := exists_opcodes hl
    exact ⟨r, List.mem_append_right _ hr, Layout.kind_mem hf⟩

/-- A known instruction is one of those in the tables. -/
lemma form?_kind {data : Bytes} (h : form? mode address data = some f) :
    ∃ r ∈ shortOpcodes ++ longOpcodes, (f.mnemonic, f.kind) ∈ r.layout.kinds := by
  obtain ⟨b, rest, -, hop⟩ | ⟨b, op, rest, -, -, -, hop⟩ := of_form? h
  · exact opcode?_kind hop
  · exact opcode?_kind hop

/-- No known instruction is named like a byte of data. -/
lemma form?_mnemonic_ne {data : Bytes} (h : form? mode address data = some f) :
    f.mnemonic ≠ "db" := by
  have htables : ∀ r ∈ shortOpcodes ++ longOpcodes, ∀ p ∈ r.layout.kinds, p.1 ≠ "db" := by decide
  obtain ⟨r, hr, hmem⟩ := form?_kind h
  exact htables r hr _ hmem

end Decoder

/-! ### One instruction -/

section

variable {mode : Mode} {data : Bytes} {address : UInt64} {i : Instruction}

lemma Takes.starts (h : Takes mode data address i) : i.bytes <+: data :=
  h.bytes_eq ▸ List.take_prefix _ _

/-- An instruction that is not a byte of data comes from a known form. -/
lemma exists_form_of_decode (h : mode.decode data address = some i) (hdb : i.mnemonic ≠ "db") :
    ∃ f, Decoder.form? mode address data = some f ∧
      i = ⟨address, f.mnemonic, f.operands, data.take f.length, f.kind⟩ := by
  cases data with
  | nil => simp [Mode.decode] at h
  | cons b rest =>
    rcases hf : Decoder.form? mode address (b :: rest) with _ | f
    · simp only [Mode.decode, hf, Option.some.injEq] at h
      exact absurd (h ▸ rfl) hdb
    · simp only [Mode.decode, hf, Option.some.injEq] at h
      exact ⟨f, rfl, h.symm⟩

lemma decode_of_form {f : Decoder.Form} (h : Decoder.form? mode address data = some f) :
    mode.decode data address =
      some ⟨address, f.mnemonic, f.operands, data.take f.length, f.kind⟩ := by
  cases data with
  | nil => simp [Decoder.form?] at h
  | cons b rest => simp only [Mode.decode, h]

/-- A byte of data stands for bytes that no known form begins with. -/
lemma mnemonic_eq_db_iff (h : mode.decode data address = some i) :
    i.mnemonic = "db" ↔ Decoder.form? mode address data = none := by
  constructor
  · intro hdb
    by_contra hknown
    obtain ⟨f, hf⟩ := Option.ne_none_iff_exists'.mp hknown
    rw [decode_of_form hf] at h
    obtain rfl := Option.some.inj h
    exact Decoder.form?_mnemonic_ne hf hdb
  · intro hnone
    by_contra hdb
    obtain ⟨f, hf, -⟩ := exists_form_of_decode h hdb
    rw [hnone] at hf
    cases hf

/-- An instruction is decoded also from its own bytes with others behind them. -/
lemma decode_bytes_append (h : mode.decode data address = some i) (hdb : i.mnemonic ≠ "db")
    (more : Bytes) : mode.decode (i.bytes ++ more) address = some i := by
  obtain ⟨f, hf, rfl⟩ := exists_form_of_decode h hdb
  have hle := (Decoder.form?_length hf).2.1
  have hown : (data.take f.length ++ more).take f.length = data.take f.length :=
    List.take_left' (List.length_take_of_le hle)
  rw [decode_of_form (Decoder.form?_append hf more), hown]

end

/-! ### The sweep over a byte string -/

/-- The instructions of a byte string, one after the other until no byte is left. -/
inductive Swept (mode : Mode) : Bytes → UInt64 → List Instruction → Prop where
  | done {address : UInt64} : Swept mode [] address []
  | next {data : Bytes} {address : UInt64} {i : Instruction} {is : List Instruction}
      (hi : mode.decode data address = some i)
      (his : Swept mode (data.drop i.bytes.length) i.next is) : Swept mode data address (i :: is)

namespace Swept

variable {mode : Mode} {data : Bytes} {address : UInt64} {is js : List Instruction}

lemma flatMap_bytes (h : Swept mode data address is) : is.flatMap (·.bytes) = data := by
  induction h with
  | done => rfl
  | @next data address i is hi _ ih =>
    rw [List.flatMap_cons, ih, (takes_of_decode hi).bytes_eq, List.length_take,
      Nat.min_eq_left (takes_of_decode hi).le_length, List.take_append_drop]

lemma unique (his : Swept mode data address is) (hjs : Swept mode data address js) : is = js := by
  induction his generalizing js with
  | done =>
    cases hjs with
    | done => rfl
    | next hj _ => simp [Mode.decode] at hj
  | next hi _ ih =>
    cases hjs with
    | done => simp [Mode.decode] at hi
    | next hj hjs =>
      obtain rfl := Option.some.inj (hi.symm.trans hj)
      rw [ih hjs]

end Swept

/-- Every instruction takes a byte, so a sweep has at most as many instructions as bytes. -/
lemma swept_decodeFrom {mode : Mode} {data : Bytes} {address : UInt64} {count : ℕ}
    (hcount : data.length ≤ count) :
    Swept mode data address (mode.decodeFrom count data address) := by
  induction count generalizing data address with
  | zero =>
    obtain rfl := List.eq_nil_of_length_eq_zero (Nat.le_zero.mp hcount)
    exact .done
  | succ count ih =>
    rw [Mode.decodeFrom]
    rcases hi : mode.decode data address with _ | i
    · obtain rfl := decode_eq_none_iff.mp hi
      exact .done
    · have hpos := (takes_of_decode hi).pos
      refine .next hi (ih ?_)
      rw [List.length_drop]
      omega

/-- **The decoder is self-delimiting.** At the start of any bytes there is an instruction of at most
as many bytes as the mode allows, and unless it is a byte of data it stays what it is whatever comes
behind its own bytes. So a sweep over the bytes ends, in one way only, and leaves out no byte. -/
theorem decode_isSelfDelimiting (mode : Mode) (data : Bytes) (address : UInt64)
    (hdata : data ≠ []) :
    (∃ i, mode.decode data address = some i ∧ i.address = address ∧ i.bytes ≠ [] ∧
      i.bytes <+: data ∧ i.bytes.length ≤ mode.maxLength ∧
      (i.mnemonic = "db" ↔ Decoder.form? mode address data = none) ∧
      (i.mnemonic ≠ "db" → ∀ more, mode.decode (i.bytes ++ more) address = some i) ∧
      ∀ more, mode.decode (data ++ more) address ≠ some i → i.mnemonic = "db") ∧
    (∀ is, Swept mode data address is ↔ is = mode.decodeAll data address) ∧
    (mode.decodeAll data address).flatMap (·.bytes) = data := by
  have hswept : Swept mode data address (mode.decodeAll data address) := swept_decodeFrom le_rfl
  refine ⟨?_, fun is => ⟨fun h => h.unique hswept, fun h => h ▸ hswept⟩, hswept.flatMap_bytes⟩
  obtain ⟨i, hi⟩ := Option.ne_none_iff_exists'.mp (decode_eq_none_iff.not.mpr hdata)
  have htakes := takes_of_decode hi
  refine ⟨i, hi, htakes.address_eq, List.ne_nil_of_length_pos htakes.pos, htakes.starts,
    htakes.le_max, mnemonic_eq_db_iff hi, decode_bytes_append hi, fun more => ?_⟩
  contrapose!
  intro hdb
  obtain ⟨tail, htail⟩ := htakes.starts
  rw [← htail, List.append_assoc]
  exact decode_bytes_append hi hdb _

/-- A longest instruction, and a push that is cut short behind it. -/
theorem decode_isSelfDelimiting_cut :
    let data : Bytes := [0x48, 0xB8, 1, 2, 3, 4, 5, 6, 7, 8, 0x68, 9]
    data ≠ [] ∧ (Mode.bits64.decodeAll data 0).map (fun i => (i.mnemonic, i.bytes.length)) =
        [("mov", 10), ("db", 1), ("db", 1)] ∧
      (Mode.bits64.decodeAll data 0).flatMap (·.bytes) = data := by
  intro data
  have hdata : data ≠ [] := by decide
  exact ⟨hdata, by decide, (decode_isSelfDelimiting .bits64 data 0 hdata).2.2⟩

end Dissect
