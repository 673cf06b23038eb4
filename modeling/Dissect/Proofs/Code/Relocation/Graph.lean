import Dissect.Proofs.Code.Flow
import Dissect.Proofs.Code.Relocation.Instruction

/-!
Graphs at another address.

A move of all instructions by one distance keeps which addresses are equal and which is the lower
one, as long as none of them leaves the address space. All that the graph is made of follows from
these comparisons, so its blocks move and everything else in it stays.
-/

namespace Dissect

/-- A block moved by `k`. -/
def Block.relocate (k : UInt64) (b : Block) : Block :=
  { b with start := b.start + k, last := b.last + k }

/-- A call moved by `k`, with the name of the function at the new target. -/
def DirectCall.relocate (mode : Mode) (k : UInt64) (c : DirectCall) : DirectCall where
  address := c.address + k
  target := mode.move k c.target
  name := functionName (mode.move k c.target)

/-- A graph moved by `k`. -/
def Graph.relocate (mode : Mode) (k : UInt64) (g : Graph) : Graph :=
  { g with
    function := g.function + k
    blocks := g.blocks.map (·.relocate k)
    calls := g.calls.map (·.relocate mode k) }

/-! ### Addresses that can be moved -/

/-- The addresses from `base` on to `n` after it stay in the address space when they move by `k`. -/
structure Movable (mode : Mode) (k base : UInt64) (n : ℕ) : Prop where
  before : base.toNat + n < mode.space
  after : (base + k).toNat + n < mode.space

/-- The address lies between `base` and `n` after it. -/
def Within (base : UInt64) (n : ℕ) (a : UInt64) : Prop :=
  base.toNat ≤ a.toNat ∧ a.toNat ≤ base.toNat + n

variable {mode : Mode} {k base : UInt64} {n : ℕ}

lemma space_le (mode : Mode) : mode.space ≤ 2 ^ 64 := by cases mode <;> decide

namespace Movable

variable {a b : UInt64}

lemma fits (hm : Movable mode k base n) : base.toNat + n < 2 ^ 64 :=
  lt_of_lt_of_le hm.before (space_le mode)

lemma toNat_add (hm : Movable mode k base n) (ha : Within base n a) :
    (a + k).toNat = (base + k).toNat + (a.toNat - base.toNat) := by
  obtain ⟨h1, h2⟩ := ha
  have h3 := hm.after
  have h4 := space_le mode
  have h5 := hm.fits
  rw [UInt64.toNat_add] at h3 ⊢
  rw [UInt64.toNat_add]
  omega

lemma add_lt_add_iff (hm : Movable mode k base n) (ha : Within base n a) (hb : Within base n b) :
    a + k < b + k ↔ a < b := by
  rw [UInt64.lt_iff_toNat_lt, UInt64.lt_iff_toNat_lt, hm.toNat_add ha, hm.toNat_add hb]
  have := ha.1
  have := hb.1
  omega

lemma toNat_add_lt (hm : Movable mode k base n) (ha : Within base n a) :
    (a + k).toNat < mode.space := by
  have h1 := hm.after
  have h2 := ha.2
  rw [hm.toNat_add ha]
  omega

/-- A target is an address of the window after the move just when it was before. -/
lemma move_eq_iff (hm : Movable mode k base n) (ha : Within base n a) {t : UInt64}
    (ht : t.toNat < mode.space) : mode.move k t = a + k ↔ t = a := by
  have h1 := hm.toNat_add_lt ha
  have h2 := hm.before
  have h3 := ha.2
  have hmove := toNat_move mode k t
  have hadd := UInt64.toNat_add a k
  rw [← UInt64.toNat_inj, ← UInt64.toNat_inj]
  cases mode <;> simp only [Mode.space] at * <;> omega

end Movable

/-- Instructions that can be moved by `k`: they lie in a window of addresses that can, and what they
jump to and call are addresses. -/
structure MovableCode (mode : Mode) (k base : UInt64) (n : ℕ) (is : List Instruction) : Prop where
  movable : Movable mode k base n
  within : ∀ i ∈ is, Within base n i.address
  target_lt : ∀ i ∈ is, i.isJump ∨ i.isCall → ∀ t, i.target? = some t → t.toNat < mode.space

namespace Graph

variable {is : List Instruction}

/-! ### Blocks -/

lemma leader_relocate (h : MovableCode mode k base n is) {a : UInt64} (ha : Within base n a) :
    Leader (is.map (·.relocate mode k)) (a + k) ↔ Leader is a := by
  rw [leader_iff, leader_iff]
  refine or_congr ?_ (or_congr ?_ ?_)
  · simp
  · simp only [List.mem_map, exists_exists_and_eq_and, Instruction.relocate_isJump,
      Instruction.relocate_isCall]
    refine exists_congr fun i => and_congr_right fun hi => and_congr_right fun hk => ?_
    rw [target?_relocate mode k hk, Option.map_eq_some_iff]
    constructor
    · rintro ⟨t, ht, hta⟩
      rwa [← (h.movable.move_eq_iff ha (h.target_lt i hi hk t ht)).mp hta]
    · intro ht
      exact ⟨a, ht, (h.movable.move_eq_iff ha (h.target_lt i hi hk a ht)).mpr rfl⟩
  · refine exists_congr fun m => ?_
    simp

/-- The ranges of blocks depend on which addresses lead and on where control flow is. -/
lemma rangesFrom_relocate {leads leads' : UInt64 → Bool}
    (h : ∀ i ∈ is, leads' (i.address + k) = leads i.address) (start : Option ℕ) (first : ℕ) :
    rangesFrom leads' start first (is.map (·.relocate mode k)) =
      rangesFrom leads start first is := by
  induction is generalizing start first with
  | nil => rfl
  | cons i is ih =>
    have htail : ∀ j ∈ is, leads' (j.address + k) = leads j.address :=
      fun j hj => h j (List.mem_cons_of_mem i hj)
    simp only [List.map_cons, rangesFrom, Instruction.relocate_address,
      Instruction.relocate_isControlFlow, h i List.mem_cons_self, ih htail]

lemma addressAt_relocate {m : ℕ} (hm : m < is.length) :
    addressAt (is.map (·.relocate mode k)) m = addressAt is m + k := by
  simp [addressAt, hm]

lemma blocksOf_relocate (h : MovableCode mode k base n is) :
    blocksOf (is.map (·.relocate mode k)) = (blocksOf is).map (·.relocate k) := by
  have hleads : ∀ i ∈ is, (leaders (is.map (·.relocate mode k))).contains (i.address + k) =
      (leaders is).contains i.address := by
    intro i hi
    rw [Bool.eq_iff_iff, List.contains_iff_mem, List.contains_iff_mem, mem_leaders, mem_leaders]
    exact leader_relocate h (h.within i hi)
  obtain ⟨htiles, -⟩ := runs_leaders is
  simp only [blocksOf, rangesFrom_relocate hleads, List.map_map]
  refine List.map_congr_left fun r hr => ?_
  obtain ⟨m, hm⟩ := List.mem_iff_getElem?.mp hr
  obtain ⟨-, h1, h2⟩ := htiles.bounds hm
  have hfirst : r.1 < is.length := by omega
  have hlast : r.2 - 1 < is.length := by omega
  simp [Block.relocate, addressAt_relocate hfirst, addressAt_relocate hlast]

lemma within_start (h : MovableCode mode k base n is) {b : Block} (hb : b ∈ blocksOf is) :
    Within base n b.start := by
  obtain ⟨i, hi, hstart⟩ := (isBlock_of_mem hb).start_eq
  rw [← hstart]
  exact h.within i (List.mem_of_getElem? hi)

/-! ### Edges and loops -/

lemma blockAt?_relocate (hm : Movable mode k base n) {blocks : List Block}
    (hb : ∀ b ∈ blocks, Within base n b.start) {t : UInt64} (ht : t.toNat < mode.space) :
    blockAt? (blocks.map (·.relocate k)) (mode.move k t) = blockAt? blocks t := by
  have hsame : ∀ b ∈ blocks.zipIdx,
      ((b.1.relocate k).start == mode.move k t) = (b.1.start == t) := by
    intro b hmem
    have hstart := hb b.1 (List.fst_mem_of_mem_zipIdx hmem)
    rw [Bool.eq_iff_iff, beq_iff_eq, beq_iff_eq, eq_comm, @eq_comm _ b.1.start]
    exact hm.move_eq_iff hstart ht
  simp only [blockAt?, List.zipIdx_map, List.filter_map, Function.comp_def, Prod.map_fst,
    List.getLast?_map, Option.map_map, Prod.map_snd, id_eq]
  rw [List.filter_congr hsame]

lemma edgesFrom_relocate (h : MovableCode mode k base n is) {blocks : List Block}
    (hb : ∀ b ∈ blocks, Within base n b.start) (index : ℕ) (b : Block) :
    edgesFrom (is.map (·.relocate mode k)) (blocks.map (·.relocate k)) index (b.relocate k) =
      edgesFrom is blocks index b := by
  have hstop : (b.relocate k).stop = b.stop := rfl
  simp only [edgesFrom, hstop, List.getElem?_map, List.length_map]
  rcases hi : is[b.stop - 1]? with _ | i
  · rfl
  by_cases hj : i.isJump
  · have htarget : (i.relocate mode k).target?.bind (blockAt? (blocks.map (·.relocate k))) =
        i.target?.bind (blockAt? blocks) := by
      rw [target?_relocate mode k (.inl hj)]
      rcases ht : i.target? with _ | t
      · rfl
      · exact blockAt?_relocate h.movable hb
          (h.target_lt i (List.mem_of_getElem? hi) (.inl hj) t ht)
    simp [htarget]
  · have hp : ¬i.isPlainJump := fun hp => hj (isJump_of_isPlainJump hp)
    have hbranch : ¬i.isBranch := by simp [Instruction.isBranch, hj]
    simp [hp, hbranch]

lemma edgesOf_relocate (h : MovableCode mode k base n is) {blocks : List Block}
    (hb : ∀ b ∈ blocks, Within base n b.start) :
    edgesOf (is.map (·.relocate mode k)) (blocks.map (·.relocate k)) = edgesOf is blocks := by
  simp only [edgesOf, List.zipIdx_map, List.flatMap_map, Prod.map_fst, Prod.map_snd, id_eq,
    edgesFrom_relocate h hb]

lemma startAt_relocate {blocks : List Block} {m : ℕ} {b : Block} (hb : blocks[m]? = some b) :
    startAt (blocks.map (·.relocate k)) m = b.start + k := by
  simp [startAt, hb, Block.relocate]

/-- The edges of a function lead back after a move just when they do before. -/
lemma loopsOf_relocate (h : MovableCode mode k base n is) :
    loopsOf ((blocksOf is).map (·.relocate k)) (edgesOf is (blocksOf is)) =
      loopsOf (blocksOf is) (edgesOf is (blocksOf is)) := by
  have hback : ∀ e ∈ (edgesOf is (blocksOf is)).zipIdx,
      leadsBack ((blocksOf is).map (·.relocate k)) e.1 = leadsBack (blocksOf is) e.1 := by
    intro e he
    obtain ⟨b, c, hb, hc, -⟩ := step_of_edge (List.fst_mem_of_mem_zipIdx he)
    have hlt := h.movable.add_lt_add_iff (within_start h (List.mem_of_getElem? hc))
      (within_start h (List.mem_of_getElem? hb))
    simp only [leadsBack, startAt_relocate hb, startAt_relocate hc, hlt]
    simp [startAt, hb, hc]
  simp only [loopsOf, List.filter_congr hback]

/-! ### Calls -/

lemma callsOf_relocate (mode : Mode) (k : UInt64) (is : List Instruction) :
    callsOf (is.map (·.relocate mode k)) = (callsOf is).map (·.relocate mode k) := by
  simp only [callsOf, List.filter_map, List.filterMap_map, List.map_filterMap, Function.comp_def,
    Instruction.relocate_isCall]
  refine List.filterMap_congr fun i hi => ?_
  have hcall : i.isCall := by simpa using (List.mem_filter.mp hi).2
  rw [target?_relocate mode k (.inr hcall), Option.map_map, Option.map_map]
  rfl

/-- The graph of moved instructions is the moved graph. -/
lemma build_relocate (h : MovableCode mode k base n is) (start : UInt64) :
    build (start + k) (is.map (·.relocate mode k)) = (build start is).relocate mode k := by
  have hedges := edgesOf_relocate h fun b hb => within_start h hb
  have hempty : (is.map (·.relocate mode k)).isEmpty = is.isEmpty := List.isEmpty_map
  by_cases hnil : is.isEmpty
  · simp [build, hnil, relocate]
  · simp only [build, hempty, hnil, blocksOf_relocate h, hedges, loopsOf_relocate h,
      callsOf_relocate, List.length_map, relocate]
    rfl

end Graph

end Dissect
