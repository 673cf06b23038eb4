import Mathlib
import Dissect.Code.Graph

/-!
How the instructions of a function are cut into blocks.

A block starts at each instruction whose address leads, and nowhere else: the instruction after one
with control flow leads too, so a block that is closed early is followed at once by the next one.
The blocks therefore lie end to end over the whole function.
-/

namespace Dissect.Graph

/-- Control can come to the address from elsewhere, or has to come to it anew. -/
inductive Leader (is : List Instruction) : UInt64 → Prop where
  | first {i : Instruction} (hi : is[0]? = some i) : Leader is i.address
  | target {i : Instruction} {a : UInt64} (hi : i ∈ is) (hk : i.isJump ∨ i.isCall)
      (ht : i.target? = some a) : Leader is a
  | after {n : ℕ} {i j : Instruction} (hi : is[n]? = some i) (hc : i.isControlFlow)
      (hj : is[n + 1]? = some j) : Leader is j.address

lemma mem_targetsFrom {is : List Instruction} {a : UInt64} :
    a ∈ targetsFrom is ↔
      (∃ i ∈ is, (i.isJump ∨ i.isCall) ∧ i.target? = some a) ∨
      ∃ (n : ℕ) (i j : Instruction), is[n]? = some i ∧ i.isControlFlow ∧ is[n + 1]? = some j ∧
        j.address = a := by
  induction is with
  | nil => simp [targetsFrom]
  | cons x rest ih =>
    have hhead : a ∈ (if x.isJump || x.isCall then x.target?.toList else []) ↔
        (x.isJump ∨ x.isCall) ∧ x.target? = some a := by
      split <;> simp_all
    have hnext : a ∈ (if x.isControlFlow then (rest.head?.map (·.address)).toList else []) ↔
        x.isControlFlow ∧ ∃ j, rest[0]? = some j ∧ j.address = a := by
      split <;> simp_all [List.head?_eq_getElem?]
    rw [targetsFrom, List.mem_append, List.mem_append, hhead, hnext, ih]
    constructor
    · rintro ((h | ⟨hc, j, hj, ha⟩) | ⟨i, hi, h⟩ | ⟨n, i, j, hi, h⟩)
      · exact .inl ⟨x, by simp, h⟩
      · exact .inr ⟨0, x, j, by simp, hc, by simpa using hj, ha⟩
      · exact .inl ⟨i, by simp [hi], h⟩
      · exact .inr ⟨n + 1, i, j, by simpa using hi, by simpa using h⟩
    · rintro (⟨i, hi, h⟩ | ⟨n, i, j, hi, hc, hj, ha⟩)
      · rcases List.mem_cons.mp hi with rfl | hi
        · exact .inl (.inl h)
        · exact .inr (.inl ⟨i, hi, h⟩)
      · cases n with
        | zero =>
          obtain rfl : x = i := by simpa using hi
          exact .inl (.inr ⟨hc, j, by simpa using hj, ha⟩)
        | succ n => exact .inr (.inr ⟨n, i, j, by simpa using hi, hc, by simpa using hj, ha⟩)

lemma leader_iff {is : List Instruction} {a : UInt64} :
    Leader is a ↔ (∃ i, is[0]? = some i ∧ i.address = a) ∨
      (∃ i ∈ is, (i.isJump ∨ i.isCall) ∧ i.target? = some a) ∨
      ∃ (n : ℕ) (i j : Instruction), is[n]? = some i ∧ i.isControlFlow ∧ is[n + 1]? = some j ∧
        j.address = a := by
  constructor
  · intro h
    cases h with
    | first hi => exact .inl ⟨_, hi, rfl⟩
    | target hi hk ht => exact .inr (.inl ⟨_, hi, hk, ht⟩)
    | after hi hc hj => exact .inr (.inr ⟨_, _, _, hi, hc, hj, rfl⟩)
  · rintro (⟨i, hi, rfl⟩ | ⟨i, hi, hk, ht⟩ | ⟨n, i, j, hi, hc, hj, rfl⟩)
    · exact .first hi
    · exact .target hi hk ht
    · exact .after hi hc hj

lemma mem_leaders {is : List Instruction} {a : UInt64} : a ∈ leaders is ↔ Leader is a := by
  rw [leaders, List.mem_append, mem_targetsFrom, leader_iff]
  simp [List.head?_eq_getElem?]

/-! ### Ranges that lie end to end -/

/-- The ranges lie end to end from one index to another, and none of them is empty. -/
def Tiles : ℕ → ℕ → List (ℕ × ℕ) → Prop
  | lo, hi, [] => lo = hi
  | lo, hi, r :: rs => r.1 = lo ∧ lo < r.2 ∧ Tiles r.2 hi rs

lemma Tiles.le {lo hi : ℕ} {rs : List (ℕ × ℕ)} (h : Tiles lo hi rs) : lo ≤ hi := by
  induction rs generalizing lo with
  | nil => exact le_of_eq h
  | cons r rs ih =>
    have := ih h.2.2
    have := h.2.1
    omega

lemma Tiles.bounds {lo hi k : ℕ} {rs : List (ℕ × ℕ)} {r : ℕ × ℕ} (h : Tiles lo hi rs)
    (hr : rs[k]? = some r) : lo ≤ r.1 ∧ r.1 < r.2 ∧ r.2 ≤ hi := by
  induction rs generalizing lo k with
  | nil => simp at hr
  | cons s rs ih =>
    obtain ⟨h1, h2, h3⟩ := h
    cases k with
    | zero =>
      obtain rfl : s = r := by simpa using hr
      have := h3.le
      omega
    | succ k =>
      have := ih h3 (by simpa using hr)
      omega

/-- A range ends where the next one starts, and the last one at the end. -/
lemma Tiles.next {lo hi k : ℕ} {rs : List (ℕ × ℕ)} {r : ℕ × ℕ} (h : Tiles lo hi rs)
    (hr : rs[k]? = some r) : ((rs[k + 1]?).map Prod.fst).getD hi = r.2 := by
  induction rs generalizing lo k with
  | nil => simp at hr
  | cons t rs ih =>
    obtain ⟨-, -, h3⟩ := h
    cases k with
    | zero =>
      obtain rfl : t = r := by simpa using hr
      cases rs with
      | nil => exact h3.symm
      | cons u rs => exact h3.1
    | succ k => exact ih h3 (by simpa using hr)

/-- Each index is in some range. -/
lemma Tiles.exists_range {lo hi n : ℕ} {rs : List (ℕ × ℕ)} (h : Tiles lo hi rs) (hlo : lo ≤ n)
    (hhi : n < hi) : ∃ (k : ℕ) (r : ℕ × ℕ), rs[k]? = some r ∧ r.1 ≤ n ∧ n < r.2 := by
  induction rs generalizing lo with
  | nil =>
    have : lo = hi := h
    omega
  | cons r rs ih =>
    obtain ⟨h1, h2, h3⟩ := h
    rcases Nat.lt_or_ge n r.2 with hn | hn
    · exact ⟨0, r, by simp, by omega, hn⟩
    · obtain ⟨k, s, hs, h4⟩ := ih h3 hn
      exact ⟨k + 1, s, by simpa using hs, h4⟩

/-- No index is in two ranges. -/
lemma Tiles.unique {lo hi n k l : ℕ} {rs : List (ℕ × ℕ)} {r s : ℕ × ℕ} (h : Tiles lo hi rs)
    (hr : rs[k]? = some r) (hs : rs[l]? = some s) (hrn : r.1 ≤ n ∧ n < r.2)
    (hsn : s.1 ≤ n ∧ n < s.2) : k = l := by
  induction rs generalizing lo k l with
  | nil => simp at hr
  | cons t rs ih =>
    obtain ⟨-, -, h3⟩ := h
    cases k with
    | zero =>
      obtain rfl : t = r := by simpa using hr
      cases l with
      | zero => rfl
      | succ l =>
        have := h3.bounds (k := l) (r := s) (by simpa using hs)
        omega
    | succ k =>
      cases l with
      | zero =>
        obtain rfl : t = s := by simpa using hs
        have := h3.bounds (k := k) (r := r) (by simpa using hr)
        omega
      | succ l => exact congrArg (· + 1) (ih h3 (by simpa using hr) (by simpa using hs))

/-- Ranges follow each other in the order of the list. -/
lemma Tiles.stop_le {lo hi k l : ℕ} {rs : List (ℕ × ℕ)} {r s : ℕ × ℕ} (h : Tiles lo hi rs)
    (hr : rs[k]? = some r) (hs : rs[l]? = some s) (hkl : k < l) : r.2 ≤ s.1 := by
  induction rs generalizing lo k l with
  | nil => simp at hr
  | cons t rs ih =>
    obtain ⟨-, -, h3⟩ := h
    obtain ⟨l, rfl⟩ := Nat.exists_eq_succ_of_ne_zero (Nat.ne_of_gt (Nat.zero_lt_of_lt hkl))
    cases k with
    | zero =>
      obtain rfl : t = r := by simpa using hr
      exact (h3.bounds (k := l) (r := s) (by simpa using hs)).1
    | succ k => exact ih h3 (by simpa using hr) (by simpa using hs) (by omega)

/-! ### The ranges of the blocks -/

section Ranges

variable {leads : UInt64 → Bool} {is : List Instruction}

/-- The instruction at an index has an address that leads. -/
def Cut (leads : UInt64 → Bool) (is : List Instruction) (n : ℕ) : Prop :=
  ∃ i, is[n]? = some i ∧ leads i.address

/-- A range from one address that leads to just before the next. -/
structure IsRun (leads : UInt64 → Bool) (is : List Instruction) (r : ℕ × ℕ) : Prop where
  lead : Cut leads is r.1
  inner : ∀ n, r.1 < n → n < r.2 → ¬Cut leads is n
  stop : r.2 = is.length ∨ Cut leads is r.2

/-- What holds when the pass has come to index `i` with the block that starts at `start` in
progress. -/
def Open (leads : UInt64 → Bool) (is : List Instruction) : Option ℕ → ℕ → Prop
  | none, i => i = is.length ∨ Cut leads is i
  | some s, i => s < i ∧ Cut leads is s ∧ ∀ n, s < n → n < i → ¬Cut leads is n

/-- The instruction after one with control flow leads. -/
def Marked (leads : UInt64 → Bool) (is : List Instruction) : Prop :=
  ∀ n i, is[n]? = some i → i.isControlFlow → n + 1 = is.length ∨ Cut leads is (n + 1)

lemma rangesFrom_cons_lead {x : Instruction} (h : leads x.address) (start : Option ℕ) (i : ℕ)
    (xs : List Instruction) :
    rangesFrom leads start i (x :: xs) = (start.map (·, i)).toList ++
      if x.isControlFlow then (i, i + 1) :: rangesFrom leads none (i + 1) xs
      else rangesFrom leads (some i) (i + 1) xs := by
  rw [rangesFrom, if_pos h]
  by_cases hc : x.isControlFlow <;> simp [hc]

lemma rangesFrom_cons_inner {x : Instruction} (h : ¬leads x.address) (s i : ℕ)
    (xs : List Instruction) :
    rangesFrom leads (some s) i (x :: xs) =
      if x.isControlFlow then (s, i + 1) :: rangesFrom leads none (i + 1) xs
      else rangesFrom leads (some s) (i + 1) xs := by
  rw [rangesFrom, if_neg h]
  by_cases hc : x.isControlFlow <;> simp [hc]

/-- The ranges tile the function from an index on, and each of them is a run. -/
def Runs (leads : UInt64 → Bool) (is : List Instruction) (lo : ℕ) (rs : List (ℕ × ℕ)) : Prop :=
  Tiles lo is.length rs ∧ ∀ r ∈ rs, IsRun leads is r

lemma Runs.cons {lo stop : ℕ} {rs : List (ℕ × ℕ)} (h : Runs leads is stop rs) (hlt : lo < stop)
    (hr : IsRun leads is (lo, stop)) : Runs leads is lo ((lo, stop) :: rs) :=
  ⟨⟨rfl, hlt, h.1⟩, List.forall_mem_cons.mpr ⟨hr, h.2⟩⟩

/-- An instruction that does not lead leaves the block in progress open. -/
lemma Open.succ {s i : ℕ} (ho : Open leads is (some s) i) (hi : ¬Cut leads is i) :
    Open leads is (some s) (i + 1) := by
  obtain ⟨hs, hlead, hinner⟩ := ho
  refine ⟨by omega, hlead, fun n h1 h2 => ?_⟩
  rcases Nat.lt_or_ge n i with hn | hn
  · exact hinner n h1 hn
  · obtain rfl : n = i := by omega
    exact hi

/-- What the pass does with an instruction of the block that starts at `s`: control flow closes the
block. -/
lemma runs_of_open (hm : Marked leads is) {x : Instruction} {xs : List Instruction} {s i : ℕ}
    (hx : is[i]? = some x) (hs : Open leads is (some s) (i + 1))
    (hrest : ∀ start, Open leads is start (i + 1) →
      Runs leads is (start.getD (i + 1)) (rangesFrom leads start (i + 1) xs)) :
    Runs leads is s (if x.isControlFlow then (s, i + 1) :: rangesFrom leads none (i + 1) xs
      else rangesFrom leads (some s) (i + 1) xs) := by
  by_cases hc : x.isControlFlow
  · have hnext := hm i x hx hc
    rw [if_pos hc]
    exact (hrest none hnext).cons hs.1 ⟨hs.2.1, hs.2.2, hnext⟩
  · rw [if_neg hc]
    exact hrest (some s) hs

/-- From any point on, the pass tiles the rest of the function with runs. -/
lemma runs_rangesFrom (hm : Marked leads is) (xs : List Instruction) (start : Option ℕ) (i : ℕ)
    (hxs : is.drop i = xs) (hi : i ≤ is.length) (ho : Open leads is start i) :
    Runs leads is (start.getD i) (rangesFrom leads start i xs) := by
  induction xs generalizing start i with
  | nil =>
    have hlen : i = is.length := le_antisymm hi (List.drop_eq_nil_iff.mp hxs)
    have hnil : Runs leads is i [] := ⟨hlen, by simp⟩
    cases start with
    | none => exact hnil
    | some s => exact hnil.cons ho.1 ⟨ho.2.1, ho.2.2, .inl hlen⟩
  | cons x xs ih =>
    have hx : is[i]? = some x := by
      have := congrArg List.head? hxs
      simpa [List.head?_drop] using this
    have hlt : i < is.length := (List.getElem?_eq_some_iff.mp hx).1
    have hdrop : is.drop (i + 1) = xs := by
      have := congrArg List.tail hxs
      simpa [List.tail_drop] using this
    have hrest := fun start => ih start (i + 1) hdrop hlt
    by_cases hl : leads x.address
    · -- the instruction opens a block and closes the one in progress
      have hcut : Cut leads is i := ⟨x, hx, hl⟩
      have hopen : Open leads is (some i) (i + 1) := ⟨by omega, hcut, fun n h1 h2 => by omega⟩
      have htail := runs_of_open hm hx hopen hrest
      rw [rangesFrom_cons_lead hl]
      cases start with
      | none => exact htail
      | some s => exact htail.cons ho.1 ⟨ho.2.1, ho.2.2, .inr hcut⟩
    · have hncut : ¬Cut leads is i := by
        rintro ⟨y, hy, hly⟩
        rw [hx] at hy
        obtain rfl : x = y := by simpa using hy
        exact hl hly
      cases start with
      | none => exact absurd (ho.resolve_left (by omega)) hncut
      | some s =>
        rw [rangesFrom_cons_inner hl]
        exact runs_of_open hm hx (ho.succ hncut) hrest

end Ranges

/-! ### The blocks of a function -/

section Blocks

variable {is : List Instruction}

lemma cut_leaders {n : ℕ} :
    Cut (leaders is).contains is n ↔ ∃ i, is[n]? = some i ∧ Leader is i.address := by
  simp [Cut, mem_leaders]

lemma marked_leaders : Marked (leaders is).contains is := by
  intro n i hi hc
  rcases hj : is[n + 1]? with _ | j
  · have h1 := (List.getElem?_eq_some_iff.mp hi).1
    have h2 := List.getElem?_eq_none_iff.mp hj
    exact .inl (by omega)
  · exact .inr (cut_leaders.mpr ⟨j, hj, .after hi hc hj⟩)

/-- The indices of a block. -/
def range (b : Block) : ℕ × ℕ := (b.first, b.stop)

lemma map_range_blocksOf :
    (blocksOf is).map range = rangesFrom (leaders is).contains none 0 is := by
  simp [blocksOf, range, Function.comp_def]

lemma runs_leaders (is : List Instruction) :
    Runs (leaders is).contains is 0 (rangesFrom (leaders is).contains none 0 is) := by
  have ho : Open (leaders is).contains is none 0 := by
    cases is with
    | nil => exact .inl rfl
    | cons x xs => exact .inr (cut_leaders.mpr ⟨x, rfl, .first rfl⟩)
  exact runs_rangesFrom marked_leaders is none 0 rfl (Nat.zero_le _) ho

/-- The blocks lie end to end over the whole function. -/
lemma tiles_blocksOf : Tiles 0 is.length ((blocksOf is).map range) := by
  rw [map_range_blocksOf]
  exact (runs_leaders is).1

/-- What a block of a function is: instructions of which the first alone has an address that
leads, up to the next such one. -/
structure IsBlock (is : List Instruction) (b : Block) : Prop where
  first_lt : b.first < b.stop
  stop_le : b.stop ≤ is.length
  start_eq : ∃ i, is[b.first]? = some i ∧ i.address = b.start
  last_eq : ∃ i, is[b.stop - 1]? = some i ∧ i.address = b.last
  inner : ∀ n i, b.first < n → n < b.stop → is[n]? = some i → ¬Leader is i.address
  stop : b.stop = is.length ∨ ∃ i, is[b.stop]? = some i ∧ Leader is i.address

lemma isBlock_of_mem {b : Block} (hb : b ∈ blocksOf is) : IsBlock is b := by
  have hr : range b ∈ rangesFrom (leaders is).contains none 0 is := by
    rw [← map_range_blocksOf]
    exact List.mem_map_of_mem hb
  obtain ⟨htiles, hruns⟩ := runs_leaders is
  obtain ⟨k, hk⟩ := List.mem_iff_getElem?.mp hr
  obtain ⟨-, h1, h2⟩ : _ ∧ b.first < b.stop ∧ b.stop ≤ is.length := htiles.bounds hk
  have hrun := hruns _ hr
  obtain ⟨r, -, rfl⟩ := List.mem_map.mp hb
  have haddr : ∀ n, n < is.length → ∃ i, is[n]? = some i ∧ i.address = addressAt is n := by
    intro n hn
    exact ⟨is[n], List.getElem?_eq_getElem hn, by simp [addressAt, hn]⟩
  refine ⟨h1, h2, haddr _ (by omega), haddr _ (by omega), fun n i h3 h4 hi hl => ?_, ?_⟩
  · exact hrun.inner n h3 h4 (cut_leaders.mpr ⟨i, hi, hl⟩)
  · exact hrun.stop.imp_right cut_leaders.mp

lemma isBlock_of_getElem {b : Block} {k : ℕ} (hb : (blocksOf is)[k]? = some b) : IsBlock is b :=
  isBlock_of_mem (List.mem_of_getElem? hb)

/-- An instruction with control flow is the last one of its block. -/
lemma IsBlock.last_of_controlFlow {b : Block} (hb : IsBlock is b) {n : ℕ} {i : Instruction}
    (hi : is[n]? = some i) (hc : i.isControlFlow) (h1 : b.first ≤ n) (h2 : n < b.stop) :
    n + 1 = b.stop := by
  by_contra hne
  have hlt : n + 1 < is.length := by
    have := hb.stop_le
    omega
  have hj : is[n + 1]? = some is[n + 1] := List.getElem?_eq_getElem hlt
  exact hb.inner (n + 1) _ (by omega) (by omega) hj (.after hi hc hj)

/-- An instruction whose address leads is the first one of its block. -/
lemma IsBlock.first_of_leader {b : Block} (hb : IsBlock is b) {n : ℕ} {i : Instruction}
    (hi : is[n]? = some i) (hl : Leader is i.address) (h1 : b.first ≤ n) (h2 : n < b.stop) :
    n = b.first := by
  by_contra hne
  exact hb.inner n i (by omega) h2 hi hl

lemma exists_block {n : ℕ} (hn : n < is.length) :
    ∃ (k : ℕ) (b : Block), (blocksOf is)[k]? = some b ∧ b.first ≤ n ∧ n < b.stop := by
  obtain ⟨k, r, hr, h1, h2⟩ := tiles_blocksOf.exists_range (Nat.zero_le n) hn
  obtain ⟨b, hb, rfl⟩ : ∃ b, (blocksOf is)[k]? = some b ∧ range b = r := by simpa using hr
  exact ⟨k, b, hb, h1, h2⟩

lemma block_unique {n k l : ℕ} {b c : Block} (hb : (blocksOf is)[k]? = some b)
    (hc : (blocksOf is)[l]? = some c) (hbn : b.first ≤ n ∧ n < b.stop)
    (hcn : c.first ≤ n ∧ n < c.stop) : k = l := by
  have hr : ((blocksOf is).map range)[k]? = some (range b) := by simp [hb]
  have hs : ((blocksOf is).map range)[l]? = some (range c) := by simp [hc]
  exact tiles_blocksOf.unique hr hs hbn hcn

/-- A block ends where the next one starts, and the last one at the end of the function. -/
lemma block_next {k : ℕ} {b : Block} (hb : (blocksOf is)[k]? = some b) :
    (((blocksOf is)[k + 1]?).map (·.first)).getD is.length = b.stop := by
  have hr : ((blocksOf is).map range)[k]? = some (range b) := by simp [hb]
  simpa [range, Function.comp_def] using tiles_blocksOf.next hr

/-- Blocks start at addresses that lead. -/
lemma leader_start {k : ℕ} {b : Block} (hb : (blocksOf is)[k]? = some b) : Leader is b.start := by
  have hB := isBlock_of_getElem hb
  obtain ⟨i, hi, hstart⟩ := hB.start_eq
  rw [← hstart]
  cases k with
  | zero =>
    obtain ⟨bs, hbs⟩ : ∃ bs, blocksOf is = b :: bs := by
      simpa [← List.head?_eq_getElem?, List.head?_eq_some_iff] using hb
    have htiles : Tiles 0 is.length ((blocksOf is).map range) := tiles_blocksOf
    rw [hbs] at htiles
    have hzero : b.first = 0 := htiles.1
    rw [hzero] at hi
    exact .first hi
  | succ k =>
    -- the block in front ends here, and not at the end of the function
    have hk : k < (blocksOf is).length := by
      have := (List.getElem?_eq_some_iff.mp hb).1
      omega
    have ha := List.getElem?_eq_getElem hk
    have hnext := block_next ha
    rw [hb, Option.map_some, Option.getD_some] at hnext
    have hfirst := hB.first_lt
    have hstop := hB.stop_le
    obtain ⟨j, hj, hlead⟩ := (isBlock_of_getElem ha).stop.resolve_left (by omega)
    rw [← hnext, hi] at hj
    exact Option.some.inj hj ▸ hlead

/-- A block starts at the address of an instruction if it leads. -/
lemma exists_block_start_iff {j : Instruction} (hj : j ∈ is) :
    (∃ b ∈ blocksOf is, b.start = j.address) ↔ Leader is j.address := by
  constructor
  · rintro ⟨b, hb, hstart⟩
    obtain ⟨k, hk⟩ := List.mem_iff_getElem?.mp hb
    exact hstart ▸ leader_start hk
  · intro hlead
    obtain ⟨n, hn⟩ := List.mem_iff_getElem?.mp hj
    obtain ⟨k, b, hb, h1, h2⟩ := exists_block (List.getElem?_eq_some_iff.mp hn).1
    have hB := isBlock_of_getElem hb
    obtain ⟨i, hi, hstart⟩ := hB.start_eq
    rw [← hB.first_of_leader hn hlead h1 h2, hn] at hi
    exact ⟨b, List.mem_of_getElem? hb, by rw [← hstart, Option.some.inj hi]⟩

lemma build_blocks (start : UInt64) (is : List Instruction) :
    (build start is).blocks = blocksOf is := by
  cases is <;> rfl

lemma build_calls (start : UInt64) (is : List Instruction) :
    (build start is).calls = callsOf is := by
  cases is <;> rfl

/-- **The blocks partition the function.** They lie end to end and none is empty, so that each
instruction is in exactly one of them; only the last instruction of a block has control flow and
only the address of the first one leads; and a block ends at control flow or before an address that
leads. -/
theorem blocks_partition (start : UInt64) (is : List Instruction) :
    let blocks := (build start is).blocks
    Tiles 0 is.length (blocks.map range) ∧
    (∀ n < is.length, ∃! k : ℕ, ∃ b, blocks[k]? = some b ∧ b.first ≤ n ∧ n < b.stop) ∧
    (∀ b ∈ blocks, ∀ n i, b.first ≤ n → n + 1 < b.stop → is[n]? = some i → ¬i.isControlFlow) ∧
    (∀ b ∈ blocks, ∀ n i, b.first < n → n < b.stop → is[n]? = some i → ¬Leader is i.address) ∧
    ∀ k b, blocks[k]? = some b → k + 1 < blocks.length →
      (∃ i, is[b.stop - 1]? = some i ∧ i.isControlFlow) ∨
        ∃ i, is[b.stop]? = some i ∧ Leader is i.address := by
  simp only [build_blocks]
  refine ⟨tiles_blocksOf, fun n hn => ?_, fun b hb n i h1 h2 hi hc => ?_,
    fun b hb => (isBlock_of_mem hb).inner, fun k b hb hk => .inr ?_⟩
  · obtain ⟨k, b, hb, hbn⟩ := exists_block hn
    refine ⟨k, ⟨b, hb, hbn⟩, ?_⟩
    rintro l ⟨c, hc, hcn⟩
    exact block_unique hc hb hcn hbn
  · have := (isBlock_of_mem hb).last_of_controlFlow hi hc h1 (by omega)
    omega
  · -- a block that is followed by another does not reach the end of the function
    have hc := List.getElem?_eq_getElem hk
    have hnext := block_next hb
    rw [hc] at hnext
    simp only [Option.map_some, Option.getD_some] at hnext
    have hblock := isBlock_of_getElem hc
    refine (isBlock_of_getElem hb).stop.resolve_left ?_
    have h1 := hblock.first_lt
    have h2 := hblock.stop_le
    omega

end Blocks

end Dissect.Graph
