import Dissect.Proofs.Code.Blocks

/-!
The graph of a function and the steps that control can take between its instructions.

A step goes on to the next instruction or to the target of a jump. The edges of the graph are the
steps from the last instruction of a block to the first one of a block, with their kinds, and every
other step stays inside a block.
-/

namespace Dissect.Graph

/-- Control can go from the instruction at one index to that at another. -/
inductive Step (is : List Instruction) : ℕ → ℕ → EdgeKind → Prop where
  | next {n : ℕ} {i : Instruction} (hi : is[n]? = some i) (hn : n + 1 < is.length)
      (hj : ¬i.isPlainJump) (hr : ¬i.isReturn) :
      Step is n (n + 1) (if i.isBranch then .notTaken else .fallThrough)
  | jump {n k : ℕ} {i j : Instruction} (hi : is[n]? = some i) (hk : is[k]? = some j)
      (hj : i.isJump) (ht : i.target? = some j.address) :
      Step is n k (if i.isPlainJump then .unconditional else .taken)

/-! ### Mnemonics -/

lemma isJump_of_isPlainJump {i : Instruction} (h : i.isPlainJump) : i.isJump := by
  have hm : i.mnemonic = "jmp" := by simpa [Instruction.isPlainJump] using h
  simp [Instruction.isJump, hm, Text.startsWith]

/-- The mnemonics of jumps and of returns differ in their first letter. -/
lemma not_isReturn_of_isJump {i : Instruction} (h : i.isJump) : ¬i.isReturn := by
  intro hr
  obtain ⟨t, ht⟩ := List.isPrefixOf_iff_prefix.mp h
  obtain ⟨u, hu⟩ := List.isPrefixOf_iff_prefix.mp hr
  rw [← ht] at hu
  simp at hu

lemma isControlFlow_of_isJump {i : Instruction} (h : i.isJump) : i.isControlFlow := by
  simp [Instruction.isControlFlow, h]

/-! ### Blocks by address -/

lemma blockAt?_some {blocks : List Block} {a : UInt64} {k : ℕ} (h : blockAt? blocks a = some k) :
    ∃ b, blocks[k]? = some b ∧ b.start = a := by
  obtain ⟨⟨b, l⟩, hl, rfl⟩ := Option.map_eq_some_iff.mp h
  have hmem := List.mem_of_getLast? hl
  obtain ⟨hzip, hstart⟩ := List.mem_filter.mp hmem
  exact ⟨b, List.mem_zipIdx_iff_getElem?.mp hzip, by simpa using hstart⟩

/-- Of blocks that start at different addresses, the one that starts at a given address is found. -/
lemma blockAt?_eq {blocks : List Block} {a : UInt64} {k : ℕ} {b : Block}
    (hb : blocks[k]? = some b) (ha : b.start = a)
    (hu : ∀ (l : ℕ) (c : Block), blocks[l]? = some c → c.start = a → l = k) :
    blockAt? blocks a = some k := by
  have hmem : (b, k) ∈ blocks.zipIdx.filter fun b => b.1.start == a := by
    rw [List.mem_filter]
    exact ⟨List.mem_zipIdx_iff_getElem?.mpr hb, by simpa using ha⟩
  rcases hk : blockAt? blocks a with _ | l
  · have hnil : (blocks.zipIdx.filter fun b => b.1.start == a) = [] := by
      simpa [blockAt?, List.getLast?_eq_none_iff] using hk
    rw [hnil] at hmem
    simp at hmem
  · obtain ⟨c, hc, hca⟩ := blockAt?_some hk
    rw [hu l c hc hca]

/-! ### Edges -/

lemma mem_jumpEdge {blocks : List Block} {k : ℕ} {kind : EdgeKind} {target : Option UInt64}
    {e : Edge} :
    e ∈ ((target.bind (blockAt? blocks)).map (⟨k, ·, kind⟩)).toList ↔
      e.source = k ∧ (∃ a, target = some a ∧ blockAt? blocks a = some e.target) ∧
        e.kind = kind := by
  obtain ⟨source, t, d⟩ := e
  simp only [Option.mem_toList, Option.map_eq_some_iff, Option.bind_eq_some_iff, Edge.mk.injEq]
  constructor
  · rintro ⟨l, h, rfl, rfl, rfl⟩
    exact ⟨rfl, h, rfl⟩
  · rintro ⟨rfl, h, rfl⟩
    exact ⟨t, h, rfl, rfl, rfl⟩

lemma mem_nextEdge {k n : ℕ} {kind : EdgeKind} {e : Edge} :
    e ∈ ((if k + 1 < n then some (k + 1) else none).map (⟨k, ·, kind⟩)).toList ↔
      e.source = k ∧ e.target = k + 1 ∧ k + 1 < n ∧ e.kind = kind := by
  obtain ⟨source, t, d⟩ := e
  by_cases h : k + 1 < n
  · simp [h, eq_comm]
  · simp [h]

/-- The edges from a block, read off its last instruction: one for a jump that goes to a block, one
for going on to the next block. -/
lemma mem_edgesFrom {is : List Instruction} {blocks : List Block} {k : ℕ} {b : Block} {e : Edge} :
    e ∈ edgesFrom is blocks k b ↔ ∃ i, is[b.stop - 1]? = some i ∧ e.source = k ∧
      ((i.isJump ∧ (∃ a, i.target? = some a ∧ blockAt? blocks a = some e.target) ∧
          e.kind = if i.isPlainJump then .unconditional else .taken) ∨
        (¬i.isPlainJump ∧ ¬i.isReturn ∧ e.target = k + 1 ∧ k + 1 < blocks.length ∧
          e.kind = if i.isBranch then .notTaken else .fallThrough)) := by
  rcases hi : is[b.stop - 1]? with _ | i
  · simp [edgesFrom, hi]
  simp only [edgesFrom, hi, Option.some.injEq, exists_eq_left']
  by_cases hp : i.isPlainJump
  · rw [if_pos hp, mem_jumpEdge]
    simp [hp, isJump_of_isPlainJump hp]
  by_cases hj : i.isJump
  · have hr := not_isReturn_of_isJump hj
    have hb : i.isBranch := by simp [Instruction.isBranch, hj, hp]
    rw [if_neg hp, if_pos hb, List.mem_append, mem_jumpEdge, mem_nextEdge]
    simp [hp, hj, hr, hb, and_or_left]
  · have hb : ¬i.isBranch := by simp [Instruction.isBranch, hj]
    rw [if_neg hp, if_neg hb]
    by_cases hr : i.isReturn
    · simp [hj, hr]
    · rw [if_neg hr, mem_nextEdge]
      simp [hp, hj, hr, hb]

lemma mem_edgesOf {is : List Instruction} {blocks : List Block} {e : Edge} :
    e ∈ edgesOf is blocks ↔
      ∃ b, blocks[e.source]? = some b ∧ e ∈ edgesFrom is blocks e.source b := by
  simp only [edgesOf, List.mem_flatMap, Prod.exists, List.mem_zipIdx_iff_getElem?]
  constructor
  · rintro ⟨b, k, hb, he⟩
    obtain ⟨-, -, rfl, -⟩ := mem_edgesFrom.mp he
    exact ⟨b, hb, he⟩
  · rintro ⟨b, hb, he⟩
    exact ⟨b, e.source, hb, he⟩

lemma build_edges (start : UInt64) (is : List Instruction) :
    (build start is).edges = edgesOf is (blocksOf is) := by
  cases is <;> rfl

/-! ### Steps and edges -/

/-- The graph has the steps of a function: each one stays in a block or has its edge, and each edge
is a step from the end of a block to the start of a block. -/
structure Simulates (is : List Instruction) (g : Graph) : Prop where
  step : ∀ n k kind, Step is n k kind →
    (∃ b ∈ g.blocks, b.first ≤ n ∧ k = n + 1 ∧ n + 1 < b.stop) ∨
    ∃ (s t : ℕ) (b c : Block), g.blocks[s]? = some b ∧ g.blocks[t]? = some c ∧
      b.first ≤ n ∧ n + 1 = b.stop ∧ k = c.first ∧ ⟨s, t, kind⟩ ∈ g.edges
  edge : ∀ e ∈ g.edges, ∃ b c, g.blocks[e.source]? = some b ∧ g.blocks[e.target]? = some c ∧
    Step is (b.stop - 1) c.first e.kind

section Distinct

variable {is : List Instruction}

lemma index_unique (hd : (is.map (·.address)).Nodup) {n k : ℕ} {i j : Instruction}
    (hi : is[n]? = some i) (hj : is[k]? = some j) (h : i.address = j.address) : n = k := by
  have hn : n < (is.map (·.address)).length := by
    rw [List.length_map]
    exact (List.getElem?_eq_some_iff.mp hi).1
  refine (List.getElem?_inj hn hd).mp ?_
  simp [hi, hj, h]

/-- With different addresses for all instructions, a block is found by its start. -/
lemma blockAt?_start (hd : (is.map (·.address)).Nodup) {k : ℕ} {b : Block}
    (hb : (blocksOf is)[k]? = some b) : blockAt? (blocksOf is) b.start = some k := by
  refine blockAt?_eq hb rfl fun l c hc hs => ?_
  have hB := isBlock_of_getElem hb
  have hC := isBlock_of_getElem hc
  obtain ⟨i, hi, hia⟩ := hB.start_eq
  obtain ⟨j, hj, hja⟩ := hC.start_eq
  have hfirst : c.first = b.first := index_unique hd hj hi (by rw [hia, hja, hs])
  have h1 := hB.first_lt
  have h2 := hC.first_lt
  exact block_unique (n := b.first) hc hb ⟨by omega, by omega⟩ ⟨le_rfl, h1⟩

/-- A step to the next instruction that leaves its block has an edge. -/
lemma next_edge {n s : ℕ} {i : Instruction} {b : Block} (hb : (blocksOf is)[s]? = some b)
    (hi : is[n]? = some i) (hn : n + 1 < is.length) (hlast : n + 1 = b.stop)
    (hj : ¬i.isPlainJump) (hr : ¬i.isReturn) :
    ∃ c, (blocksOf is)[s + 1]? = some c ∧ n + 1 = c.first ∧
      ⟨s, s + 1, if i.isBranch then .notTaken else .fallThrough⟩ ∈ edgesOf is (blocksOf is) := by
  have hnext := block_next hb
  rcases hc : (blocksOf is)[s + 1]? with _ | c
  · simp only [hc, Option.map_none, Option.getD_none] at hnext
    omega
  · simp only [hc, Option.map_some, Option.getD_some] at hnext
    have hs := (List.getElem?_eq_some_iff.mp hc).1
    refine ⟨c, rfl, by omega, mem_edgesOf.mpr ⟨b, hb, mem_edgesFrom.mpr ?_⟩⟩
    rw [← hlast]
    exact ⟨i, hi, rfl, .inr ⟨hj, hr, rfl, hs, rfl⟩⟩

/-- A jump to an instruction of the function has an edge, from the end of its block to the start of
that of its target. -/
lemma jump_edge (hd : (is.map (·.address)).Nodup) {n k s : ℕ} {i j : Instruction} {b : Block}
    (hb : (blocksOf is)[s]? = some b) (hi : is[n]? = some i) (hk : is[k]? = some j)
    (hlast : n + 1 = b.stop) (hj : i.isJump) (ht : i.target? = some j.address) :
    ∃ t c, (blocksOf is)[t]? = some c ∧ k = c.first ∧
      ⟨s, t, if i.isPlainJump then .unconditional else .taken⟩ ∈ edgesOf is (blocksOf is) := by
  obtain ⟨t, c, hc, h1, h2⟩ := exists_block (List.getElem?_eq_some_iff.mp hk).1
  have hC := isBlock_of_getElem hc
  have hlead : Leader is j.address := .target (List.mem_of_getElem? hi) (.inl hj) ht
  have hfirst : k = c.first := hC.first_of_leader hk hlead h1 h2
  -- the target is found by its address
  obtain ⟨j', hj', hstart⟩ := hC.start_eq
  obtain rfl : j = j' := by
    rw [← hfirst, hk] at hj'
    simpa using hj'
  have hfound := blockAt?_start hd hc
  rw [← hstart] at hfound
  refine ⟨t, c, hc, hfirst, mem_edgesOf.mpr ⟨b, hb, mem_edgesFrom.mpr ?_⟩⟩
  rw [← hlast]
  exact ⟨i, hi, rfl, .inl ⟨hj, ⟨_, ht, hfound⟩, rfl⟩⟩

/-- An edge is a step, also where addresses repeat. -/
lemma step_of_edge {e : Edge} (he : e ∈ edgesOf is (blocksOf is)) :
    ∃ b c, (blocksOf is)[e.source]? = some b ∧ (blocksOf is)[e.target]? = some c ∧
      Step is (b.stop - 1) c.first e.kind := by
  obtain ⟨b, hb, he⟩ := mem_edgesOf.mp he
  obtain ⟨i, hi, -, ⟨hj, ⟨a, ha, hat⟩, hkind⟩ | ⟨hp, hr, ht, hlt, hkind⟩⟩ := mem_edgesFrom.mp he
  · obtain ⟨c, hc, rfl⟩ := blockAt?_some hat
    obtain ⟨j, hfirst, hja⟩ := (isBlock_of_getElem hc).start_eq
    rw [hkind]
    exact ⟨b, c, hb, hc, .jump hi hfirst hj (by rw [ha, hja])⟩
  · have hc := List.getElem?_eq_getElem hlt
    have hnext := block_next hb
    simp only [hc, Option.map_some, Option.getD_some] at hnext
    have hB := isBlock_of_getElem hb
    have hC := isBlock_of_getElem hc
    have h1 := hB.first_lt
    have h2 := hC.first_lt
    have h3 := hC.stop_le
    have hfirst : ((blocksOf is)[e.source + 1]).first = b.stop - 1 + 1 := by omega
    refine ⟨b, _, hb, by rw [ht, hc], ?_⟩
    rw [hkind, hfirst]
    exact .next hi (by omega) hp hr

end Distinct

/-- **The graph simulates the instructions.** Where all instructions have different addresses, no
step is lost and no edge is invented. -/
theorem build_simulates (start : UInt64) (is : List Instruction)
    (hd : (is.map (·.address)).Nodup) : Simulates is (build start is) := by
  constructor
  · rw [build_blocks, build_edges]
    intro n k kind h
    cases h with
    | next hi hn hj hr =>
      obtain ⟨s, b, hb, h1, h2⟩ := exists_block (by omega : n < is.length)
      rcases Nat.lt_or_ge (n + 1) b.stop with hin | hout
      · exact .inl ⟨b, List.mem_of_getElem? hb, h1, rfl, hin⟩
      · have hlast : n + 1 = b.stop := by omega
        obtain ⟨c, hc, hfirst, he⟩ := next_edge hb hi hn hlast hj hr
        exact .inr ⟨s, s + 1, b, c, hb, hc, h1, hlast, hfirst, he⟩
    | jump hi hk hj ht =>
      obtain ⟨s, b, hb, h1, h2⟩ := exists_block (List.getElem?_eq_some_iff.mp hi).1
      have hflow := isControlFlow_of_isJump hj
      have hlast := (isBlock_of_getElem hb).last_of_controlFlow hi hflow h1 h2
      obtain ⟨t, c, hc, hfirst, he⟩ := jump_edge hd hb hi hk hlast hj ht
      exact .inr ⟨s, t, b, c, hb, hc, h1, hlast, hfirst, he⟩
  · rw [build_blocks, build_edges]
    exact fun e he => step_of_edge he

/-- A loop that a conditional jump closes. -/
theorem build_simulates_loop :
    let is : List Instruction := [
      ⟨0x1000, "cmp", ["eax", "0x01"], [0x83, 0xF8, 0x01], .arithmetic⟩,
      ⟨0x1003, "jne", ["0x00001000"], [0x75, 0xFB], .controlFlow⟩,
      ⟨0x1005, "ret", [], [0xC3], .controlFlow⟩]
    Step is 1 0 .taken ∧ Simulates is (build 0x1000 is) := by
  intro is
  have hstep : Step is 1 0 (if is[1].isPlainJump then .unconditional else .taken) :=
    .jump rfl rfl (by decide) (by decide)
  exact ⟨hstep, build_simulates 0x1000 is (by decide)⟩

end Dissect.Graph
