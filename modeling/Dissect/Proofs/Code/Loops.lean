import Mathlib
import Dissect.Proofs.Code.Flow
import Dissect.Proofs.Code.LinearSweep
import Dissect.Proofs.Obfuscation.Junk

/-!
The loops of a function.

An edge leads back when the block it goes to starts at the lower address. Where addresses rise along
the instructions they also rise along the blocks, so that such an edge goes to the lower index. The
indices cannot rise all the way round a cycle: either it stays in one block, or one of its edges
leads back.
-/

namespace Dissect.Graph

/-- The addresses rise along the instructions. -/
def Rising (is : List Instruction) : Prop := is.Pairwise fun i j => i.address < j.address

instance (is : List Instruction) : Decidable (Rising is) :=
  inferInstanceAs (Decidable (is.Pairwise fun i j => i.address < j.address))

/-- A closed walk along the edges of a graph. -/
structure IsCycle (g : Graph) (c : List Edge) : Prop where
  ne_nil : c ≠ []
  mem_edges : ∀ e ∈ c, e ∈ g.edges
  joined : c.IsChain fun e f => e.target = f.source
  closed : ∀ first last, c.head? = some first → c.getLast? = some last →
    last.target = first.source

/-- The loops of a graph are its edges to lower blocks, and all cycles through several blocks are
among them. -/
structure HasLoops (g : Graph) : Prop where
  /-- The loops stand in the order of their edges. -/
  ordered : (g.loops.map (·.backEdge)).Pairwise (· < ·)
  mem_iff : ∀ l, l ∈ g.loops ↔ ∃ e, g.edges[l.backEdge]? = some e ∧ e.target < e.source ∧
    l.header = e.target ∧ l.body = List.Ico e.target (e.source + 1)
  cycle : ∀ c, IsCycle g c → (∃ e ∈ c, ∃ f ∈ c, e.source ≠ f.source) →
    ∃ l ∈ g.loops, ∃ e ∈ c, g.edges[l.backEdge]? = some e
  selfLoop : g.loops = [] → ∀ c, IsCycle g c → ∃ k, ∀ e ∈ c, e.source = k ∧ e.target = k

variable {is : List Instruction} {b c : Block} {k l : ℕ} {e : Edge}

/-! ### Addresses and indices of blocks -/

lemma start_lt_start (h : Rising is) (hb : (blocksOf is)[k]? = some b)
    (hc : (blocksOf is)[l]? = some c) (hkl : k < l) : b.start < c.start := by
  have hB := isBlock_of_getElem hb
  obtain ⟨i, hi, hib⟩ := hB.start_eq
  obtain ⟨j, hj, hjc⟩ := (isBlock_of_getElem hc).start_eq
  have hstop : b.stop ≤ c.first := by
    have hr : ((blocksOf is).map range)[k]? = some (range b) := by simp [hb]
    have hs : ((blocksOf is).map range)[l]? = some (range c) := by simp [hc]
    exact tiles_blocksOf.stop_le hr hs hkl
  obtain ⟨hfirst, rfl⟩ := List.getElem?_eq_some_iff.mp hi
  obtain ⟨hfirst', rfl⟩ := List.getElem?_eq_some_iff.mp hj
  have hlt : b.first < c.first := hB.first_lt.trans_le hstop
  rw [← hib, ← hjc]
  exact List.pairwise_iff_getElem.mp h b.first c.first hfirst hfirst' hlt

lemma start_lt_iff (h : Rising is) (hb : (blocksOf is)[k]? = some b)
    (hc : (blocksOf is)[l]? = some c) : c.start < b.start ↔ l < k := by
  refine ⟨fun hlt => ?_, start_lt_start h hc hb⟩
  by_contra hle
  rcases Nat.eq_or_lt_of_le (Nat.le_of_not_lt hle) with rfl | hkl
  · obtain rfl := Option.some.inj (hb.symm.trans hc)
    exact UInt64.lt_irrefl _ hlt
  · exact UInt64.lt_irrefl _ (UInt64.lt_trans hlt (start_lt_start h hb hc hkl))

/-- With rising addresses, the edges that lead back are those to a lower block. -/
lemma leadsBack_iff (h : Rising is) (he : e ∈ edgesOf is (blocksOf is)) :
    leadsBack (blocksOf is) e ↔ e.target < e.source := by
  obtain ⟨b, c, hb, hc, -⟩ := step_of_edge he
  rw [← start_lt_iff h hb hc]
  simp [leadsBack, startAt, hb, hc]

/-! ### The list of loops -/

lemma build_loops (start : UInt64) (is : List Instruction) :
    (build start is).loops = loopsOf (blocksOf is) (edgesOf is (blocksOf is)) := by
  cases is <;> rfl

lemma ordered_loopsOf (blocks : List Block) (edges : List Edge) :
    ((loopsOf blocks edges).map (·.backEdge)).Pairwise (· < ·) := by
  have hindices : (loopsOf blocks edges).map (·.backEdge) =
      (edges.zipIdx.filter fun e => leadsBack blocks e.1).map Prod.snd := by
    rw [loopsOf, List.map_map]
    rfl
  have hsub : ((edges.zipIdx.filter fun e => leadsBack blocks e.1).map Prod.snd).Sublist
      (List.range' 0 edges.length) := by
    rw [← List.zipIdx_map_snd 0 edges]
    exact List.filter_sublist.map _
  rw [hindices]
  exact List.Pairwise.sublist hsub List.pairwise_lt_range'

lemma mem_loopsOf (h : Rising is) {m : Loop} :
    m ∈ loopsOf (blocksOf is) (edgesOf is (blocksOf is)) ↔
      ∃ e, (edgesOf is (blocksOf is))[m.backEdge]? = some e ∧ e.target < e.source ∧
        m.header = e.target ∧ m.body = List.Ico e.target (e.source + 1) := by
  simp only [loopsOf, List.mem_map, List.mem_filter, Prod.exists, List.mem_zipIdx_iff_getElem?]
  constructor
  · rintro ⟨e, n, ⟨he, hback⟩, rfl⟩
    have hlt := (leadsBack_iff h (List.mem_of_getElem? he)).mp hback
    refine ⟨e, he, hlt, rfl, ?_⟩
    rw [Nat.min_eq_right hlt.le, Nat.max_eq_left hlt.le]
    rfl
  · rintro ⟨e, he, hlt, hheader, hbody⟩
    refine ⟨e, m.backEdge, ⟨he, (leadsBack_iff h (List.mem_of_getElem? he)).mpr hlt⟩, ?_⟩
    obtain ⟨header, backEdge, body⟩ := m
    obtain rfl : header = e.target := hheader
    obtain rfl : body = List.Ico e.target (e.source + 1) := hbody
    rw [Nat.min_eq_right hlt.le, Nat.max_eq_left hlt.le]
    rfl

/-! ### Cycles -/

/-- Along edges none of which goes to a lower block, the blocks lie between the first and the last
one. -/
lemma between_of_forward {c : List Edge} {first last : Edge}
    (hjoined : c.IsChain fun e f => e.target = f.source) (hforward : ∀ e ∈ c, e.source ≤ e.target)
    (hfirst : c.head? = some first) (hlast : c.getLast? = some last) :
    ∀ e ∈ c, first.source ≤ e.source ∧ e.target ≤ last.target := by
  induction c generalizing first with
  | nil => simp at hfirst
  | cons e c ih =>
    obtain rfl : e = first := by simpa using hfirst
    cases c with
    | nil =>
      obtain rfl : e = last := by simpa using hlast
      simp
    | cons f c =>
      obtain ⟨hef, hjoined⟩ := List.isChain_cons_cons.mp hjoined
      obtain ⟨he, hforward⟩ := List.forall_mem_cons.mp hforward
      have hlater := ih hjoined hforward rfl (by simpa using hlast)
      have hf := hlater f List.mem_cons_self
      have hf' := hforward f List.mem_cons_self
      refine List.forall_mem_cons.mpr ⟨⟨le_rfl, by omega⟩, fun e' he' => ?_⟩
      have := hlater e' he'
      omega

/-- A cycle without an edge to a lower block stays in one block. -/
lemma IsCycle.eq_of_forward {g : Graph} {c : List Edge} (h : IsCycle g c)
    (hforward : ∀ e ∈ c, e.source ≤ e.target) : ∃ k, ∀ e ∈ c, e.source = k ∧ e.target = k := by
  obtain ⟨first, hfirst⟩ := Option.ne_none_iff_exists'.mp (mt List.head?_eq_none_iff.mp h.ne_nil)
  obtain ⟨last, hlast⟩ := Option.ne_none_iff_exists'.mp (mt List.getLast?_eq_none_iff.mp h.ne_nil)
  have hclosed := h.closed first last hfirst hlast
  refine ⟨first.source, fun e he => ?_⟩
  have hbetween := between_of_forward h.joined hforward hfirst hlast e he
  have hle := hforward e he
  omega

/-! ### Graphs of functions -/

lemma hasLoops_build (h : Rising is) (start : UInt64) : HasLoops (build start is) := by
  have hmem : ∀ m, m ∈ (build start is).loops ↔
      ∃ e, (build start is).edges[m.backEdge]? = some e ∧ e.target < e.source ∧
        m.header = e.target ∧ m.body = List.Ico e.target (e.source + 1) := by
    intro m
    rw [build_loops, build_edges]
    exact mem_loopsOf h
  -- an edge to a lower block is that of a loop
  have hloop : ∀ e ∈ (build start is).edges, e.target < e.source →
      ∃ l ∈ (build start is).loops, (build start is).edges[l.backEdge]? = some e := by
    intro e he hlt
    obtain ⟨n, hn⟩ := List.mem_iff_getElem?.mp he
    exact ⟨⟨e.target, n, _⟩, (hmem _).mpr ⟨e, hn, hlt, rfl, rfl⟩, hn⟩
  refine ⟨?_, hmem, fun c hc hmany => ?_, fun hnone c hc => hc.eq_of_forward fun e he => ?_⟩
  · rw [build_loops]
    exact ordered_loopsOf _ _
  · by_contra hno
    push Not at hno
    obtain ⟨k, hk⟩ := hc.eq_of_forward fun e he => by
      by_contra hlt
      obtain ⟨m, hm, hedge⟩ := hloop e (hc.mem_edges e he) (by omega)
      exact hno m hm e he hedge
    obtain ⟨e, he, f, hf, hne⟩ := hmany
    exact hne ((hk e he).1.trans (hk f hf).1.symm)
  · by_contra hlt
    obtain ⟨m, hm, -⟩ := hloop e (hc.mem_edges e he) (by omega)
    rw [hnone] at hm
    cases hm

/-- **Loops are found by the layout, and no cycle through several blocks is missed.** Where the
addresses rise, the loops are the edges to lower blocks, in the order of the edges; each cycle
through several blocks has one of them, so that without a loop each cycle stays in one block.
Addresses rise in every function that a sweep finds, and still do when junk has been removed. -/
theorem loops_eq_backEdges :
    (∀ start is, Rising is → HasLoops (build start is)) ∧
    (∀ is, Rising is → Rising (Junk.remove is)) ∧
    ∀ settings mode code base span, base.toNat + code.length < 2 ^ 64 →
      ∀ f ∈ Sweep.functions settings mode code base span, Rising f.instructions := by
  refine ⟨fun start is h => hasLoops_build h start, fun is h => ?_, ?_⟩
  · exact List.Pairwise.sublist (Junk.reaches_remove is).sublist h
  · intro settings mode code base span hfit f hf
    exact (List.pairwise_flatMap.mp (Sweep.pairwise_instructions hfit)).1 f hf

/-- A loop over two blocks, left in its middle. -/
theorem loops_eq_backEdges_twoBlocks :
    let is : List Instruction := [
      ⟨0x1000, "cmp", ["eax", "0x01"], [0x83, 0xF8, 0x01], .arithmetic⟩,
      ⟨0x1003, "je", ["0x00001007"], [0x74, 0x02], .controlFlow⟩,
      ⟨0x1005, "jmp", ["0x00001000"], [0xEB, 0xF9], .controlFlow⟩,
      ⟨0x1007, "ret", [], [0xC3], .controlFlow⟩]
    let g := build 0x1000 is
    let c : List Edge := [⟨0, 1, .notTaken⟩, ⟨1, 0, .unconditional⟩]
    Rising is ∧ g.loops = [⟨0, 2, [0, 1]⟩] ∧ IsCycle g c ∧
      ∃ l ∈ g.loops, ∃ e ∈ c, g.edges[l.backEdge]? = some e := by
  intro is g c
  have hrising : Rising is := by decide +kernel
  have hcycle : IsCycle g c := ⟨by decide, by decide +kernel, by decide, by
    rintro first last ⟨⟩ ⟨⟩
    rfl⟩
  have hloops := loops_eq_backEdges.1 0x1000 is hrising
  exact ⟨hrising, by decide +kernel, hcycle, hloops.cycle c hcycle (by decide)⟩

end Dissect.Graph
