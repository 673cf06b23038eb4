import Dissect.Obfuscation.Probe
import Dissect.Proofs.Code.Arguments
import Dissect.Proofs.Code.Calls
import Dissect.Proofs.Code.Flow
import Dissect.Proofs.Numeral

/-!
The literals that operands can be.

A literal is `0x` and hexadecimal digits, or decimal digits alone, whose value is a word. These are
what is read as an address, together with one form that is no literal: after `0x`, the digits may
have a plus sign. Blocks, edges, calls and probes go by the same reading, so that they take an
operand for an address in exactly these cases.
-/

namespace Dissect

namespace Numeral

/-! ### Digits -/

/-- A character is a digit of a base up to sixteen, in one of the two cases. -/
def IsDigit (base : ℕ) (c : Char) (d : ℕ) : Prop :=
  d < base ∧ ("0123456789abcdef".toList[d]? = some c ∨ "0123456789ABCDEF".toList[d]? = some c)

instance (base : ℕ) (c : Char) (d : ℕ) : Decidable (IsDigit base c d) :=
  inferInstanceAs (Decidable (_ ∧ _))

/-- One or more characters are the digits of a number, the most significant one first. -/
def Denotes (base : ℕ) (cs : List Char) (n : ℕ) : Prop :=
  cs ≠ [] ∧ ∃ ds, List.Forall₂ (IsDigit base) cs ds ∧ Nat.ofDigits base ds.reverse = n

section

variable {c : Char} {d : ℕ}

lemma ofNat_add_of_le {k : ℕ} (h : k ≤ c.toNat) : Char.ofNat (k + (c.toNat - k)) = c := by
  rw [Nat.add_sub_cancel' h, Char.ofNat_toNat]

lemma le_iff_toNat_le {a b : Char} : a ≤ b ↔ a.toNat ≤ b.toNat := UInt32.le_iff_toNat_le

lemma isDigit_iff {base : ℕ} (hbase : base ≤ 16) :
    IsDigit base c d ↔ d < base ∧ (c = digitLower d ∨ c = digitUpper d) := by
  have hdigits : ∀ d < 16, "0123456789abcdef".toList[d]? = some (digitLower d) ∧
      "0123456789ABCDEF".toList[d]? = some (digitUpper d) := by decide
  refine and_congr_right fun hd => ?_
  obtain ⟨hlower, hupper⟩ := hdigits d (by omega)
  simp only [hlower, hupper, Option.some.injEq, eq_comm]

lemma hexValue?_eq_some_iff : hexValue? c = some d ↔ IsDigit 16 c d := by
  rw [isDigit_iff le_rfl]
  constructor
  · intro h
    simp only [hexValue?, le_iff_toNat_le, Char.reduceToNat] at h
    split_ifs at h with hnumber hlower hupper
    · obtain rfl := Option.some.inj h
      refine ⟨by omega, .inl ?_⟩
      rw [digitLower, if_pos (by omega), ofNat_add_of_le hnumber.1]
    · obtain rfl := Option.some.inj h
      refine ⟨by omega, .inl ?_⟩
      rw [digitLower, if_neg (by omega), ofNat_add_of_le (by omega)]
    · obtain rfl := Option.some.inj h
      refine ⟨by omega, .inr ?_⟩
      rw [digitUpper, if_neg (by omega), ofNat_add_of_le (by omega)]
  · have hlower : ∀ d < 16, hexValue? (digitLower d) = some d := by decide
    rintro ⟨hd, rfl | rfl⟩
    · exact hlower d hd
    · exact hexValue?_digitUpper d hd

/-- Decimal digits are the hexadecimal ones below ten. -/
lemma decimalValue?_eq_some_iff : decimalValue? c = some d ↔ IsDigit 10 c d := by
  have hhex : decimalValue? c = some d ↔ hexValue? c = some d ∧ d < 10 := by
    simp only [decimalValue?, hexValue?, le_iff_toNat_le, Char.reduceToNat]
    split_ifs with hnumber hlower hupper
    · simp only [Option.some.injEq]
      omega
    · simp only [Option.some.injEq, false_iff]
      omega
    · simp only [Option.some.injEq, false_iff]
      omega
    · simp
  rw [hhex, hexValue?_eq_some_iff, IsDigit, IsDigit]
  constructor
  · exact fun h => ⟨h.2, h.1.2⟩
  · exact fun h => ⟨⟨by omega, h.2⟩, h.1⟩

end

/-! ### Numbers -/

section

variable {bound base : ℕ} {value? : Char → Option ℕ} {cs : List Char} {n : ℕ}

lemma le_foldl (hbase : 0 < base) (ds : List ℕ) (acc : ℕ) :
    acc ≤ ds.foldl (fun m d => m * base + d) acc := by
  induction ds generalizing acc with
  | nil => exact le_rfl
  | cons d ds ih =>
    calc acc ≤ acc * base + d := (Nat.le_mul_of_pos_right acc hbase).trans (Nat.le_add_right _ _)
      _ ≤ _ := ih _

/-- Reading goes on as long as the value of the digits stays below the bound. -/
lemma valueBelow?_eq_some_iff (hbase : 0 < base)
    (hvalue : ∀ c d, value? c = some d ↔ IsDigit base c d) {acc : ℕ} (hacc : acc < bound) :
    valueBelow? bound base value? acc cs = some n ↔
      n < bound ∧ ∃ ds, List.Forall₂ (IsDigit base) cs ds ∧
        ds.foldl (fun m d => m * base + d) acc = n := by
  induction cs generalizing acc with
  | nil =>
    simp only [valueBelow?, Option.some.injEq, List.forall₂_nil_left_iff, exists_eq_left,
      List.foldl_nil]
    constructor
    · rintro rfl
      exact ⟨hacc, rfl⟩
    · exact fun h => h.2
  | cons c cs ih =>
    simp only [List.forall₂_cons_left_iff]
    rcases hc : value? c with _ | d
    · simp only [valueBelow?, hc, reduceCtorEq, false_iff, not_and]
      rintro - ⟨_, ⟨d, ds, hd, -, rfl⟩, -⟩
      rw [(hvalue c d).mpr hd] at hc
      cases hc
    · have hd := (hvalue c d).mp hc
      have honly : ∀ e, IsDigit base c e → e = d := by
        intro e he
        rw [(hvalue c e).mpr he] at hc
        exact Option.some.inj hc
      rw [valueBelow?, hc]
      by_cases hnext : acc * base + d < bound
      · simp only [hnext, if_true, ih hnext]
        refine and_congr_right fun _ => ⟨?_, ?_⟩
        · rintro ⟨ds, hds, hn⟩
          exact ⟨d :: ds, ⟨d, ds, hd, hds, rfl⟩, hn⟩
        · rintro ⟨_, ⟨e, ds, he, hds, rfl⟩, hn⟩
          rw [honly e he] at hn
          exact ⟨ds, hds, hn⟩
      · simp only [hnext, if_false, reduceCtorEq, false_iff, not_and]
        rintro hn ⟨_, ⟨e, ds, he, -, rfl⟩, rfl⟩
        rw [honly e he, List.foldl_cons] at hn
        exact hnext ((le_foldl hbase ds _).trans_lt hn)

lemma foldl_eq_ofDigits (ds : List ℕ) :
    ds.foldl (fun m d => m * base + d) 0 = Nat.ofDigits base ds.reverse := by
  rw [Nat.ofDigits_eq_foldr, List.foldr_reverse]
  simp only [Nat.cast_id, Nat.add_comm, Nat.mul_comm]

lemma word?_eq_some_iff (hbase : 0 < base)
    (hvalue : ∀ c d, value? c = some d ↔ IsDigit base c d) {v : UInt64} :
    word? base value? cs = some v ↔ Denotes base cs v.toNat := by
  rw [word?, Denotes]
  rcases hempty : cs.isEmpty with _ | _
  · have hne : cs ≠ [] := by simpa using hempty
    simp only [Bool.false_eq_true, if_false, Option.map_eq_some_iff,
      valueBelow?_eq_some_iff hbase hvalue (by decide : 0 < UInt64.size), foldl_eq_ofDigits]
    constructor
    · rintro ⟨n, ⟨hn, hds⟩, rfl⟩
      rw [UInt64.toNat_ofNat_of_lt' hn]
      exact ⟨hne, hds⟩
    · rintro ⟨-, hds⟩
      exact ⟨v.toNat, ⟨v.toNat_lt, hds⟩, UInt64.ofNat_toNat⟩
  · have hnil : cs = [] := by simpa using hempty
    simp [hnil]

lemma Denotes.not_mem (h : Denotes base cs n) {c : Char} (hc : ∀ d, ¬IsDigit base c d) :
    c ∉ cs := by
  obtain ⟨-, ds, hds, -⟩ := h
  induction hds with
  | nil => simp
  | cons hd _ ih =>
    rw [List.mem_cons, not_or]
    exact ⟨fun heq => hc _ (heq ▸ hd), ih⟩

end

/-! ### Literals -/

/-- The texts that are literals, with their values. -/
inductive Literal : String → UInt64 → Prop where
  | hexadecimal {cs : List Char} {v : UInt64} (h : Denotes 16 cs v.toNat) :
      Literal ("0x" ++ String.ofList cs) v
  | decimal {cs : List Char} {v : UInt64} (h : Denotes 10 cs v.toNat) :
      Literal (String.ofList cs) v

/-- A hexadecimal literal but for a plus sign in front of its digits. -/
inductive SignedLiteral : String → UInt64 → Prop where
  | plus {cs : List Char} {v : UInt64} (h : Denotes 16 cs v.toNat) :
      SignedLiteral ("0x+" ++ String.ofList cs) v

section

variable {s : String} {v w : UInt64} {cs : List Char}

lemma word?_hex_iff : word? 16 hexValue? cs = some v ↔ Denotes 16 cs v.toNat :=
  word?_eq_some_iff (by omega) fun _ _ => hexValue?_eq_some_iff

lemma word?_decimal_iff : word? 10 decimalValue? cs = some v ↔ Denotes 10 cs v.toNat :=
  word?_eq_some_iff (by omega) fun _ _ => decimalValue?_eq_some_iff

lemma not_isDigit_plus (d : ℕ) : ¬IsDigit 16 '+' d := by
  rw [← hexValue?_eq_some_iff]
  simp [hexValue?]

lemma not_isDigit_x (d : ℕ) : ¬IsDigit 10 'x' d := by
  rw [← decimalValue?_eq_some_iff]
  simp [decimalValue?]

lemma read?_signed (cs : List Char) :
    read? ("0x+" ++ String.ofList cs) = word? 16 hexValue? cs := by
  have htext : ("0x+" ++ String.ofList cs).toList = '0' :: 'x' :: '+' :: cs := by simp
  rw [read?, htext]
  rfl

lemma read?_unmarked (h : 'x' ∉ cs) :
    read? (String.ofList cs) = word? 10 decimalValue? cs := by
  rw [read?, String.toList_ofList]
  split
  · simp at h
  · simp at h
  · rfl

/-- **What is read is a literal, or one with a sign.** -/
lemma read?_eq_some_iff : read? s = some v ↔ Literal s v ∨ SignedLiteral s v := by
  constructor
  · intro h
    have htext : String.ofList s.toList = s := String.ofList_toList
    unfold read? at h
    split at h
    · rename_i cs hcs
      obtain rfl : "0x+" ++ String.ofList cs = s := by
        rw [← htext, hcs]
        simp [← String.toList_inj]
      exact .inr (.plus (word?_hex_iff.mp h))
    · rename_i cs _ hcs
      obtain rfl : "0x" ++ String.ofList cs = s := by
        rw [← htext, hcs]
        simp [← String.toList_inj]
      exact .inl (.hexadecimal (word?_hex_iff.mp h))
    · rw [← htext]
      exact .inl (.decimal (word?_decimal_iff.mp h))
  · rintro ((h | h) | h)
    · rw [read?_marked (h.not_mem not_isDigit_plus)]
      exact word?_hex_iff.mpr h
    · rw [read?_unmarked (h.not_mem not_isDigit_x)]
      exact word?_decimal_iff.mpr h
    · obtain ⟨hcs⟩ := h
      rw [read?_signed]
      exact word?_hex_iff.mpr hcs

/-- The sign is no digit, and neither is the marker in base ten. -/
lemma SignedLiteral.not_literal (h : SignedLiteral s v) : ¬Literal s w := by
  rcases h with ⟨hcs⟩
  rename_i cs
  intro h
  generalize htext : "0x+" ++ String.ofList cs = s at h
  rcases h with h | h
  · rename_i ds
    obtain rfl : '+' :: cs = ds := by simpa [← String.toList_inj] using htext
    exact h.not_mem not_isDigit_plus (by simp)
  · rename_i ds
    obtain rfl : '0' :: 'x' :: '+' :: cs = ds := by simpa [← String.toList_inj] using htext
    exact h.not_mem not_isDigit_x (by simp)

end

end Numeral

/-! ### Operands -/

namespace Instruction

/-- The first operand of an instruction is a literal of the given value, or one with a sign. -/
def Names (i : Instruction) (a : UInt64) : Prop :=
  ∃ operand, i.operands.head? = some operand ∧
    (Numeral.Literal operand a ∨ Numeral.SignedLiteral operand a)

lemma target?_eq_some_iff {i : Instruction} {a : UInt64} : i.target? = some a ↔ i.Names a := by
  simp only [target?, Option.bind_eq_some_iff, Numeral.read?_eq_some_iff, Names]

end Instruction

namespace Graph

/-- The graph takes for addresses what instructions name, and nothing else. -/
structure FollowsNames (g : Graph) (is : List Instruction) : Prop where
  starts : ∀ j ∈ is, (∃ b ∈ g.blocks, b.start = j.address) ↔
    (∃ i, is[0]? = some i ∧ i.address = j.address) ∨
    (∃ i ∈ is, (i.isJump ∨ i.isCall) ∧ i.Names j.address) ∨
    ∃ (n : ℕ) (i k : Instruction), is[n]? = some i ∧ i.isControlFlow ∧ is[n + 1]? = some k ∧
      k.address = j.address
  jumps : ∀ e ∈ g.edges, e.kind = .unconditional ∨ e.kind = .taken →
    ∃ b c i, g.blocks[e.source]? = some b ∧ g.blocks[e.target]? = some c ∧
      is[b.stop - 1]? = some i ∧ i.isJump ∧ i.Names c.start
  calls : ∀ c, c ∈ g.calls ↔ ∃ i ∈ is, i.isCall ∧ i.Names c.target ∧ c.address = i.address ∧
    c.name = functionName c.target

lemma followsNames_build (start : UInt64) (is : List Instruction) :
    (build start is).FollowsNames is where
  starts j hj := by
    rw [build_blocks, exists_block_start_iff hj, leader_iff]
    simp only [Instruction.target?_eq_some_iff]
  jumps e he hkind := by
    rw [build_edges] at he
    rw [build_blocks]
    obtain ⟨b, hb, he⟩ := mem_edgesOf.mp he
    obtain ⟨i, hi, -, ⟨hjump, ⟨a, ha, hat⟩, -⟩ | ⟨-, -, -, -, hnext⟩⟩ := mem_edgesFrom.mp he
    · obtain ⟨c, hc, rfl⟩ := blockAt?_some hat
      exact ⟨b, c, i, hb, hc, hi, hjump, Instruction.target?_eq_some_iff.mp ha⟩
    · split_ifs at hnext <;> simp [hnext] at hkind
  calls c := by
    rw [build_calls, callsOf, List.mem_filterMap]
    simp only [List.mem_filter, Option.map_eq_some_iff, Instruction.target?_eq_some_iff]
    constructor
    · rintro ⟨i, ⟨hi, hcall⟩, a, ha, rfl⟩
      exact ⟨i, hi, hcall, ha, rfl, rfl⟩
    · rintro ⟨i, hi, hcall, ha, haddress, hname⟩
      exact ⟨i, ⟨hi, hcall⟩, c.target, ha, by rw [← haddress, ← hname]⟩

end Graph

/-- A call is reported as a direct one if it names an address. -/
lemma Call.follows_names {table : SignatureTable} {lookback : ℕ} {caller : String}
    {is : List Instruction} {c : Call} (hc : c ∈ inInstructions table lookback caller is) :
    ∃ i ∈ is, i.isCall ∧ c.address = i.address ∧ (c.type = .direct ↔ ∃ a, i.Names a) ∧
      ∀ a, i.Names a → c.name = functionName a := by
  obtain ⟨k, i, hi, hsome⟩ := mem_inInstructions.mp hc
  have h := outlines_of_some hsome
  simp only [← Instruction.target?_eq_some_iff]
  refine ⟨i, List.mem_of_getElem? hi, h.isCall, h.address, ⟨fun htype => ?_, ?_⟩,
    fun a ha => (h.of_target? ha).2⟩
  · by_contra hnone
    exact h.type_ne_direct (Option.eq_none_iff_forall_ne_some.mpr (not_exists.mp hnone)) htype
  · rintro ⟨a, ha⟩
    exact (h.of_target? ha).1

lemma Probe.isWatchful_iff {i : Instruction} :
    isWatchful i ↔ i.mnemonic = "rdtsc" ∨
      i.mnemonic = "int" ∧ ∃ a ∈ debuggerInterrupts, i.Names a := by
  simp only [← Instruction.target?_eq_some_iff]
  rcases ht : i.target? with _ | a <;> simp [isWatchful, ht]

namespace Numeral

/-- **Reading accepts literals, and else only literals with a sign.** So reading and the grammar of
literals differ on the texts that are literals but for the sign, and nowhere else. All that takes
operands for addresses goes by what is accepted: the blocks, jumps and calls of a graph, the calls
that are reported as direct ones, and the interrupts that a debugger changes. -/
theorem read?_eq_some_iff_literal (s : String) (is : List Instruction) :
    (∀ v, read? s = some v ↔ Literal s v ∨ SignedLiteral s v) ∧
    ((∀ v, read? s = some v ↔ Literal s v) ↔ ∀ v, ¬SignedLiteral s v) ∧
    (∀ start, (Graph.build start is).FollowsNames is) ∧
    (∀ table lookback caller, ∀ c ∈ Call.inInstructions table lookback caller is,
      ∃ i ∈ is, i.isCall ∧ c.address = i.address ∧ (c.type = .direct ↔ ∃ a, i.Names a) ∧
        ∀ a, i.Names a → c.name = functionName a) ∧
    ∀ i ∈ is, Probe.isWatchful i ↔ i.mnemonic = "rdtsc" ∨
      i.mnemonic = "int" ∧ ∃ a ∈ Probe.debuggerInterrupts, i.Names a := by
  refine ⟨fun v => read?_eq_some_iff, ⟨fun h v hsigned => ?_, fun h v => ?_⟩,
    fun start => Graph.followsNames_build start is,
    fun table lookback caller c hc => Call.follows_names hc,
    fun i _ => Probe.isWatchful_iff⟩
  · exact hsigned.not_literal ((h v).mp (read?_eq_some_iff.mpr (.inr hsigned)))
  · simp [read?_eq_some_iff, h v]

/-- A sign in front of the digits is passed over. -/
theorem read?_plus_ten : read? "0x+10" = some 16 ∧ ∀ v, ¬Literal "0x+10" v := by
  have hdigits : Denotes 16 ['1', '0'] (16 : UInt64).toNat :=
    ⟨by simp, [1, 0], .cons (by decide) (.cons (by decide) .nil), by decide⟩
  have hsigned : SignedLiteral "0x+10" 16 := .plus hdigits
  exact ⟨by decide, fun v => hsigned.not_literal⟩

end Numeral

end Dissect
