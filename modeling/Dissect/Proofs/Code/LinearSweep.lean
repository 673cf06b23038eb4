import Dissect.Code.Sweep
import Dissect.Proofs.Code.Decoding
import Dissect.Proofs.Word

/-!
The sweep over a code section.

A sweep decodes one instruction after the other, from a start address to the next one. The address
of an instruction and its place in the code differ by the base, and every instruction takes at least
one byte, so addresses rise along a sweep and from each sweep to the next.
-/

namespace Dissect.Sweep

/-! ### One sweep -/

/-- Instructions that stand one after the other in the code from `start` on, each below `limit`,
with no return before the last one. -/
structure IsPath (mode : Mode) (code : Bytes) (base start limit : UInt64)
    (is : List Instruction) : Prop where
  first : ∀ i, is.head? = some i → i.address = start
  consecutive : is.IsChain fun i j => j.address.toNat = i.address.toNat + i.bytes.length
  below : ∀ i ∈ is, i.address < limit
  base_le : ∀ i ∈ is, base ≤ i.address
  nonempty : ∀ i ∈ is, i.bytes ≠ []
  bytes_eq : ∀ i ∈ is, i.bytes = code.slice (i.address.toNat - base.toNat) i.bytes.length
  decoded : ∀ i ∈ is,
    mode.decode (code.drop (i.address.toNat - base.toNat)) i.address = some i
  return_last : ∀ i ∈ is.dropLast, ¬i.isReturn

/-- A path that only a return, `limit`, the end of the code or the end of the budget stops. -/
structure IsSweep (mode : Mode) (code : Bytes) (base : UInt64) (budget : ℕ) (start limit : UInt64)
    (is : List Instruction) : Prop extends IsPath mode code base start limit is where
  length_le : is.length ≤ budget
  maximal : (∃ i, is.getLast? = some i ∧ i.isReturn) ∨
    limit ≤ (Function.ofInstructions start is).stop ∨
    (Function.ofInstructions start is).stop.toNat = base.toNat + code.length ∨
    is.length = budget

lemma stop_cons (start : UInt64) (i : Instruction) (is : List Instruction) :
    (Function.ofInstructions start (i :: is)).stop = (Function.ofInstructions i.next is).stop := by
  cases is with
  | nil => rfl
  | cons j is => simp [Function.ofInstructions, List.getLast?_cons]

section

variable {mode : Mode} {code : Bytes} {base : UInt64} {budget : ℕ} {start limit : UInt64}

lemma IsPath.nil : IsPath mode code base start limit [] := by
  constructor <;> simp

/-- An instruction in front of a path that starts where it ends. -/
lemma IsPath.cons {i : Instruction} {is : List Instruction}
    (hpath : IsPath mode code base i.next limit is)
    (hdecode : mode.decode (code.drop (start.toNat - base.toNat)) start = some i)
    (hbase : base ≤ start) (hlimit : start < limit) (hret : i.isReturn → is = [])
    (hnext : i.next.toNat = i.address.toNat + i.bytes.length) :
    IsPath mode code base start limit (i :: is) := by
  have htakes := takes_of_decode hdecode
  have haddr := htakes.address_eq
  have hne : i.bytes ≠ [] := List.ne_nil_of_length_pos htakes.pos
  have hbytes : i.bytes = code.slice (i.address.toNat - base.toNat) i.bytes.length := by
    rw [haddr]
    exact htakes.bytes_eq
  rw [← haddr] at hdecode hbase hlimit
  constructor
  · simpa using haddr
  · cases is with
    | nil => exact .singleton i
    | cons j is =>
      rw [List.isChain_cons_cons]
      refine ⟨?_, hpath.consecutive⟩
      rw [hpath.first j rfl, hnext]
  · simpa [hlimit] using hpath.below
  · simpa [hbase] using hpath.base_le
  · simpa [hne] using hpath.nonempty
  · exact List.forall_mem_cons.mpr ⟨hbytes, hpath.bytes_eq⟩
  · exact List.forall_mem_cons.mpr ⟨hdecode, hpath.decoded⟩
  · cases is with
    | nil => simp
    | cons j is =>
      rw [List.dropLast_cons_cons]
      exact List.forall_mem_cons.mpr ⟨fun h => by simpa using hret h, hpath.return_last⟩

lemma IsSweep.nil (h : limit ≤ start ∨ start.toNat = base.toNat + code.length ∨ budget = 0) :
    IsSweep mode code base budget start limit [] :=
  ⟨.nil, Nat.zero_le _, .inr (h.imp_right (Or.imp_right Eq.symm))⟩

/-- What stops a sweep stops it also with one more instruction in front. -/
lemma IsSweep.maximal_cons {i : Instruction} {is : List Instruction}
    (h : IsSweep mode code base budget i.next limit is) :
    (∃ j, (i :: is).getLast? = some j ∧ j.isReturn) ∨
    limit ≤ (Function.ofInstructions start (i :: is)).stop ∨
    (Function.ofInstructions start (i :: is)).stop.toNat = base.toNat + code.length ∨
    (i :: is).length = budget + 1 := by
  rw [stop_cons]
  rcases h.maximal with ⟨j, hj, hjr⟩ | h | h | h
  · refine .inl ⟨j, ?_, hjr⟩
    cases is with
    | nil => simp at hj
    | cons k is => rw [List.getLast?_cons_cons, hj]
  · exact .inr (.inl h)
  · exact .inr (.inr (.inl h))
  · exact .inr (.inr (.inr (by simp [h])))

/-- Decoding from a place in the code is a sweep from its address. -/
lemma isSweep_decodeUpTo (hfit : base.toNat + code.length < 2 ^ 64) {offset : ℕ}
    (hoffset : offset ≤ code.length) (hstart : start.toNat = base.toNat + offset) :
    IsSweep mode code base budget start limit
      (decodeUpTo mode limit budget start (code.drop offset)) := by
  induction budget generalizing start offset with
  | zero => exact .nil (.inr (.inr rfl))
  | succ budget ih =>
    have hplace : start.toNat - base.toNat = offset := by omega
    have hbase : base ≤ start := UInt64.le_iff_toNat_le.mpr (by omega)
    rw [decodeUpTo]
    split
    · rename_i hlimit
      rcases hi : mode.decode (code.drop offset) start with _ | i
      · have hend : code.length ≤ offset := List.drop_eq_nil_iff.mp (decode_eq_none_iff.mp hi)
        exact .nil (.inr (.inl (by omega)))
      · have htakes := takes_of_decode hi
        have hlen := htakes.le_length
        rw [List.length_drop] at hlen
        have hnext : i.next.toNat = i.address.toNat + i.bytes.length := by
          rw [Instruction.next, htakes.address_eq]
          exact Word.toNat_add_ofNat (by omega)
        have hdecode := hi
        rw [← hplace] at hdecode
        by_cases hret : i.isReturn
        · simp only [hret, if_true]
          have hpath := IsPath.nil.cons hdecode hbase hlimit (fun _ => rfl) hnext
          exact ⟨hpath, by simp, .inl ⟨i, rfl, hret⟩⟩
        · simp only [hret, Bool.false_eq_true, if_false, List.drop_drop]
          have hrest : IsSweep mode code base budget i.next limit
              (decodeUpTo mode limit budget i.next (code.drop (offset + i.bytes.length))) :=
            ih (by omega) (by rw [hnext, htakes.address_eq]; omega)
          have hpath := hrest.toIsPath.cons hdecode hbase hlimit (fun h => absurd h hret) hnext
          exact ⟨hpath, by simpa using hrest.length_le, hrest.maximal_cons⟩
    · rename_i hlimit
      exact .nil (.inl (UInt64.not_lt.mp hlimit))

/-- Also where addresses wrap around, an instruction of a sweep is decoded from the bytes at some
distance from the start, and its address has that distance too. -/
lemma exists_offset_of_mem_decodeUpTo {rest : Bytes} {i : Instruction}
    (hi : i ∈ decodeUpTo mode limit budget start rest) :
    ∃ d < rest.length, i.address = start + UInt64.ofNat d ∧
      mode.decode (rest.drop d) i.address = some i := by
  induction budget generalizing start rest with
  | zero => simp [decodeUpTo] at hi
  | succ budget ih =>
    rw [decodeUpTo] at hi
    split at hi
    · rcases hdecode : mode.decode rest start with _ | first
      · simp [hdecode] at hi
      · have htakes := takes_of_decode hdecode
        have hpos := htakes.pos
        have hle := htakes.le_length
        have hcases : i = first ∨
            i ∈ decodeUpTo mode limit budget first.next (rest.drop first.bytes.length) := by
          simp only [hdecode] at hi
          split at hi
          · exact .inl (List.mem_singleton.mp hi)
          · exact List.mem_cons.mp hi
        rcases hcases with rfl | hlater
        · exact ⟨0, by omega, by simp [htakes.address_eq], by rw [htakes.address_eq]; exact hdecode⟩
        · obtain ⟨d, hd, haddress, hi⟩ := ih hlater
          rw [List.length_drop] at hd
          rw [List.drop_drop] at hi
          refine ⟨first.bytes.length + d, by omega, ?_, hi⟩
          rw [haddress, Instruction.next, htakes.address_eq, UInt64.ofNat_add, UInt64.add_assoc]
    · simp at hi

/-- Addresses rise along a path. -/
lemma IsPath.pairwise {is : List Instruction} (h : IsPath mode code base start limit is) :
    is.Pairwise fun i j => i.address < j.address := by
  have : IsTrans Instruction fun i j => i.address < j.address := ⟨fun _ _ _ => UInt64.lt_trans⟩
  refine List.IsChain.pairwise (h.consecutive.imp_of_mem_imp fun i j hi _ hij => ?_)
  have hpos := List.length_pos_of_ne_nil (h.nonempty i hi)
  exact UInt64.lt_iff_toNat_lt.mpr (by omega)

lemma IsPath.start_le {is : List Instruction} (h : IsPath mode code base start limit is) :
    ∀ i ∈ is, start ≤ i.address := by
  have hpair := h.pairwise
  cases is with
  | nil => simp
  | cons j is =>
    have hj : j.address = start := h.first j rfl
    intro i hi
    rcases List.mem_cons.mp hi with rfl | hi
    · exact UInt64.le_of_eq hj.symm
    · have := List.rel_of_pairwise_cons hpair hi
      rw [hj] at this
      exact UInt64.le_of_lt this

/-- A path ends with the bytes of its last instruction. -/
lemma IsPath.stop_eq {is : List Instruction} (h : IsPath mode code base start limit is)
    (hfit : base.toNat + code.length < 2 ^ 64) {i : Instruction} (hi : is.getLast? = some i) :
    (Function.ofInstructions start is).stop.toNat = i.address.toNat + i.bytes.length := by
  have hmem := List.mem_of_getLast? hi
  have hlen := (takes_of_decode (h.decoded i hmem)).le_length
  have hpos := (takes_of_decode (h.decoded i hmem)).pos
  have hbase := UInt64.le_iff_toNat_le.mp (h.base_le i hmem)
  rw [List.length_drop] at hlen
  simp only [Function.ofInstructions, hi, Option.map_some, Option.getD_some, Instruction.next]
  exact Word.toNat_add_ofNat (by omega)

end

/-! ### Start addresses -/

/-- A function can start at the address: at the base, or where the code has the first bytes of a
function. -/
def IsStart (mode : Mode) (code : Bytes) (base a : UInt64) : Prop :=
  a = base ∨ ∃ o, (∃ p ∈ prologues mode, p <+: code.drop o) ∧ a.toNat = base.toNat + o

section

variable {mode : Mode} {code : Bytes} {base : UInt64}

lemma startsFunction_iff {bs : Bytes} :
    startsFunction mode bs ↔ ∃ p ∈ prologues mode, p <+: bs := by
  simp [startsFunction]

lemma prologues_head {p : Bytes} (hp : p ∈ prologues mode) : ∃ b bs, p = b :: bs ∧ b < 0x80 := by
  cases mode <;> simp only [prologues, List.mem_cons, List.not_mem_nil, or_false] at hp
  · rcases hp with rfl | rfl
    all_goals exact ⟨_, _, rfl, by decide⟩
  · rcases hp with rfl | rfl | rfl
    all_goals exact ⟨_, _, rfl, by decide⟩

lemma not_startsFunction_nil : ¬startsFunction mode [] := by
  rw [startsFunction_iff]
  rintro ⟨p, hp, hprefix⟩
  obtain ⟨b, bs, rfl, -⟩ := prologues_head hp
  simp at hprefix

lemma mem_prologueOffsets {o n : ℕ} {bs : Bytes} :
    o ∈ prologueOffsets mode n bs ↔ ∃ m, o = n + m ∧ startsFunction mode (bs.drop m) := by
  induction bs generalizing n with
  | nil => simp [prologueOffsets, not_startsFunction_nil]
  | cons b bs ih =>
    have hsplit : (∃ m, o = n + m ∧ startsFunction mode ((b :: bs).drop m)) ↔
        (o = n ∧ startsFunction mode (b :: bs)) ∨
          ∃ m, o = n + 1 + m ∧ startsFunction mode (bs.drop m) := by
      constructor
      · rintro ⟨_ | m, ho, hm⟩
        · exact .inl ⟨ho, hm⟩
        · exact .inr ⟨m, by omega, hm⟩
      · rintro (⟨ho, hm⟩ | ⟨m, ho, hm⟩)
        · exact ⟨0, ho, hm⟩
        · exact ⟨m + 1, by omega, hm⟩
    rw [hsplit, prologueOffsets, ← ih]
    split <;> simp_all

lemma pairwise_prologueOffsets (mode : Mode) (n : ℕ) (bs : Bytes) :
    (prologueOffsets mode n bs).Pairwise (· < ·) := by
  induction bs generalizing n with
  | nil => simp [prologueOffsets]
  | cons b bs ih =>
    rw [prologueOffsets]
    split
    · refine List.pairwise_cons.mpr ⟨fun o ho => ?_, ih (n + 1)⟩
      obtain ⟨m, rfl, -⟩ := mem_prologueOffsets.mp ho
      omega
    · exact ih (n + 1)

lemma lt_length_of_startsFunction {o : ℕ} (h : startsFunction mode (code.drop o)) :
    o < code.length := by
  by_contra hge
  rw [List.drop_eq_nil_of_le (by omega)] at h
  exact not_startsFunction_nil h

lemma IsStart.exists_offset {a : UInt64} (h : IsStart mode code base a) :
    ∃ o ≤ code.length, a.toNat = base.toNat + o := by
  rcases h with rfl | ⟨o, hp, ho⟩
  · exact ⟨0, Nat.zero_le _, rfl⟩
  · exact ⟨o, le_of_lt (lt_length_of_startsFunction (startsFunction_iff.mpr hp)), ho⟩

lemma mem_insertAddress {a b : UInt64} {as : List UInt64} :
    b ∈ insertAddress a as ↔ b = a ∨ b ∈ as := by
  fun_induction insertAddress a as <;> simp_all [or_left_comm]

lemma pairwise_insertAddress (a : UInt64) {as : List UInt64} (h : as.Pairwise (· < ·)) :
    (insertAddress a as).Pairwise (· < ·) := by
  fun_induction insertAddress a as with
  | case1 => exact List.pairwise_singleton _ _
  | case2 b bs hlt =>
    refine List.pairwise_cons.mpr ⟨fun c hc => ?_, h⟩
    rcases List.mem_cons.mp hc with rfl | hc
    · exact hlt
    · exact UInt64.lt_trans hlt (List.rel_of_pairwise_cons h hc)
  | case3 => exact h
  | case4 b bs hlt hne ih =>
    obtain ⟨hb, hbs⟩ := List.pairwise_cons.mp h
    refine List.pairwise_cons.mpr ⟨fun c hc => ?_, ih hbs⟩
    rcases mem_insertAddress.mp hc with rfl | hc
    · exact UInt64.lt_of_le_of_ne (UInt64.not_lt.mp hlt) (Ne.symm hne)
    · exact hb c hc

lemma insertAddress_of_lt {a : UInt64} {as : List UInt64} (h : ∀ b ∈ as, a < b) :
    insertAddress a as = a :: as := by
  cases as with
  | nil => rfl
  | cons b bs => rw [insertAddress, if_pos (h b List.mem_cons_self)]

/-- Addresses that rise already are left as they are. -/
lemma foldr_insertAddress {as : List UInt64} (h : as.Pairwise (· < ·)) :
    as.foldr insertAddress [] = as := by
  induction as with
  | nil => rfl
  | cons a as ih =>
    obtain ⟨ha, has⟩ := List.pairwise_cons.mp h
    rw [List.foldr_cons, ih has, insertAddress_of_lt ha]

/-- All start addresses, before the list is cut. -/
def starts (mode : Mode) (code : Bytes) (base : UInt64) : List UInt64 :=
  base :: ((prologueOffsets mode 0 code).filter (0 < ·)).map fun o => base + UInt64.ofNat o

lemma toNat_start (hfit : base.toNat + code.length < 2 ^ 64) {o : ℕ} (ho : o < code.length) :
    (base + UInt64.ofNat o).toNat = base.toNat + o :=
  Word.toNat_add_ofNat (by omega)

lemma mem_starts (hfit : base.toNat + code.length < 2 ^ 64) {a : UInt64} :
    a ∈ starts mode code base ↔ IsStart mode code base a := by
  simp only [starts, IsStart, List.mem_cons, List.mem_map, List.mem_filter, decide_eq_true_eq,
    mem_prologueOffsets, ← startsFunction_iff, zero_add]
  constructor
  · rintro (h | ⟨o, ⟨⟨m, rfl, hm⟩, -⟩, rfl⟩)
    · exact .inl h
    · exact .inr ⟨o, hm, toNat_start hfit (lt_length_of_startsFunction hm)⟩
  · rintro (h | ⟨o, ho, ha⟩)
    · exact .inl h
    · have hlt := lt_length_of_startsFunction ho
      have hoa : base + UInt64.ofNat o = a := by
        rw [← UInt64.toNat_inj, toNat_start hfit hlt, ha]
      rcases Nat.eq_zero_or_pos o with rfl | hpos
      · exact .inl (by simpa using hoa.symm)
      · exact .inr ⟨o, ⟨⟨o, rfl, ho⟩, hpos⟩, hoa⟩

lemma pairwise_starts (hfit : base.toNat + code.length < 2 ^ 64) :
    (starts mode code base).Pairwise (· < ·) := by
  have hlt : ∀ o ∈ prologueOffsets mode 0 code, o < code.length := by
    intro o ho
    obtain ⟨m, rfl, hm⟩ := mem_prologueOffsets.mp ho
    rw [zero_add]
    exact lt_length_of_startsFunction hm
  refine List.pairwise_cons.mpr ⟨fun a ha => ?_, ?_⟩
  · obtain ⟨o, ho, rfl⟩ := List.mem_map.mp ha
    obtain ⟨ho, hpos⟩ := List.mem_filter.mp ho
    rw [UInt64.lt_iff_toNat_lt, toNat_start hfit (hlt o ho)]
    have : 0 < o := by simpa using hpos
    omega
  · refine List.pairwise_map.mpr (List.Pairwise.imp_of_mem ?_
      ((pairwise_prologueOffsets mode 0 code).filter _))
    intro m n hm hn hmn
    have h1 := hlt m (List.mem_filter.mp hm).1
    have h2 := hlt n (List.mem_filter.mp hn).1
    rw [UInt64.lt_iff_toNat_lt, toNat_start hfit h1, toNat_start hfit h2]
    omega

/-- Where addresses do not pass the largest one, they are found in their order. -/
lemma seeds_eq (settings : SweepSettings) (hfit : base.toNat + code.length < 2 ^ 64) :
    seeds settings mode code base = (starts mode code base).take settings.maxFunctions := by
  have hsorted : (starts mode code base).Pairwise (· < ·) := pairwise_starts hfit
  have hoffsets := pairwise_prologueOffsets mode 0 code
  change List.take _ _ = _
  congr 1
  unfold starts at hsorted ⊢
  rcases hfound : prologueOffsets mode 0 code with _ | ⟨o, os⟩
  · rfl
  rw [hfound] at hsorted hoffsets
  have hos : os.filter (0 < ·) = os := by
    refine List.filter_eq_self.mpr fun p hp => ?_
    have := List.rel_of_pairwise_cons hoffsets hp
    simpa using Nat.zero_lt_of_lt this
  -- only the base can be found twice, if the code starts as a function does
  rcases Nat.eq_zero_or_pos o with rfl | hpos
  · rw [List.filter_cons_of_neg (by simp), hos] at hsorted ⊢
    have hzero : base + UInt64.ofNat 0 = base := UInt64.add_zero base
    rw [List.foldr_cons, List.map_cons, hzero, foldr_insertAddress hsorted, insertAddress,
      if_neg (UInt64.lt_irrefl base), if_pos rfl]
  · rw [List.filter_cons_of_pos (by simpa using hpos), hos] at hsorted ⊢
    exact foldr_insertAddress hsorted

lemma pairwise_seeds (settings : SweepSettings) (mode : Mode) (code : Bytes) (base : UInt64) :
    (seeds settings mode code base).Pairwise (· < ·) := by
  refine List.Pairwise.take ?_
  generalize base :: (prologueOffsets mode 0 code).map _ = as
  induction as with
  | nil => exact .nil
  | cons a as ih => exact pairwise_insertAddress a ih

end

/-! ### Start addresses with their limits -/

section

variable {stop : UInt64} {as : List UInt64}

lemma map_fst_bounds (stop : UInt64) (as : List UInt64) :
    (bounds stop as).map Prod.fst = as := by
  fun_induction bounds stop as <;> simp_all

lemma getElem?_bounds (k : ℕ) :
    (bounds stop as)[k]? = as[k]?.map fun s => (s, as[k + 1]?.getD stop) := by
  induction as generalizing k with
  | nil => simp [bounds]
  | cons s as ih =>
    cases as with
    | nil => cases k <;> simp [bounds]
    | cons t as =>
      cases k with
      | zero => simp [bounds]
      | succ k => simpa [bounds] using ih k

lemma mem_bounds {p : UInt64 × UInt64} (hp : p ∈ bounds stop as) :
    p.1 ∈ as ∧ (p.2 ∈ as ∨ p.2 = stop) := by
  obtain ⟨k, hk⟩ := List.mem_iff_getElem?.mp hp
  rw [getElem?_bounds, Option.map_eq_some_iff] at hk
  obtain ⟨s, hs, rfl⟩ := hk
  refine ⟨List.mem_of_getElem? hs, ?_⟩
  rcases ht : as[k + 1]? with _ | t
  · exact .inr (by simp)
  · exact .inl (by simpa using List.mem_of_getElem? ht)

/-- The limit of a start address is not above any later start address. -/
lemma pairwise_bounds (h : as.Pairwise (· < ·)) :
    (bounds stop as).Pairwise fun p q => p.2 ≤ q.1 := by
  fun_induction bounds stop as with
  | case1 => exact .nil
  | case2 s => exact List.pairwise_singleton _ _
  | case3 s t rest ih =>
    have hrest := (List.pairwise_cons.mp h).2
    refine List.pairwise_cons.mpr ⟨fun q hq => ?_, ih hrest⟩
    rcases List.mem_cons.mp (mem_bounds hq).1 with heq | hmem
    · exact UInt64.le_of_eq heq.symm
    · exact UInt64.le_of_lt (List.rel_of_pairwise_cons hrest hmem)

end

/-! ### All functions of a section -/

section

variable {settings : SweepSettings} {mode : Mode} {code : Bytes} {base span : UInt64}

lemma isSweep_instructionsAt (hfit : base.toNat + code.length < 2 ^ 64) {s limit : UInt64}
    (hs : IsStart mode code base s) :
    IsSweep mode code base settings.maxInstructions s limit
      (instructionsAt settings mode code base s limit) := by
  obtain ⟨o, ho, hso⟩ := hs.exists_offset
  have hoffset : (s - base).toNat = o := by
    rw [UInt64.toNat_sub_of_le _ _ (UInt64.le_iff_toNat_le.mpr (by omega))]
    omega
  rw [instructionsAt, hoffset]
  exact isSweep_decodeUpTo hfit ho hso

/-- An instruction reaches over a later start address by less than its length, and by two bytes less
than the longest encoding has: its second byte is then none that a function starts with. -/
lemma IsPath.overlap {start limit a : UInt64} {is : List Instruction} {i : Instruction}
    (h : IsPath mode code base start limit is) (hi : i ∈ is) (ha : IsStart mode code base a)
    (hlt : i.address < a) :
    i.address.toNat + i.bytes.length + 2 ≤ a.toNat + mode.maxLength := by
  have htakes := takes_of_decode (h.decoded i hi)
  have hbase := UInt64.le_iff_toNat_le.mp (h.base_le i hi)
  have hlt := UInt64.lt_iff_toNat_lt.mp hlt
  have hmax := htakes.le_max
  obtain ⟨o, ⟨p, hp, hprefix⟩, hao⟩ := ha.resolve_left (by rintro rfl; omega)
  by_cases hlen : i.bytes.length = mode.maxLength
  · obtain ⟨b, c, bs, hdrop, hc⟩ := htakes.longest hlen
    have hne : a.toNat ≠ i.address.toNat + 1 := by
      intro hsucc
      have hplace : code.drop o = c :: bs := by
        have := congrArg (List.drop 1) hdrop
        rw [List.drop_drop] at this
        rw [show o = i.address.toNat - base.toNat + 1 by omega, this]
        rfl
      obtain ⟨d, ds, rfl, hd⟩ := prologues_head hp
      rw [hplace, List.cons_prefix_cons] at hprefix
      obtain ⟨rfl, -⟩ := hprefix
      exact absurd hd (UInt8.not_lt.mpr hc)
    omega
  · omega

lemma isStart_of_mem_seeds (hfit : base.toNat + code.length < 2 ^ 64) {a : UInt64}
    (ha : a ∈ seeds settings mode code base) : IsStart mode code base a := by
  rw [seeds_eq settings hfit] at ha
  exact (mem_starts hfit).mp (List.mem_of_mem_take ha)

lemma isStart_of_mem_bounds (hfit : base.toNat + code.length < 2 ^ 64) {stop : UInt64}
    {p : UInt64 × UInt64} (hp : p ∈ bounds stop (seeds settings mode code base)) :
    IsStart mode code base p.1 :=
  isStart_of_mem_seeds hfit (mem_bounds hp).1

/-- Functions without instructions are left out and nothing else. -/
lemma flatMap_instructions {α : Type} (ps : List α) (start : α → UInt64)
    (is : α → List Instruction) :
    (ps.filterMap fun p =>
        if (is p).isEmpty then none else some (Function.ofInstructions (start p) (is p))).flatMap
      (·.instructions) = ps.flatMap is := by
  induction ps with
  | nil => rfl
  | cons p ps ih =>
    rw [List.flatMap_cons, ← ih]
    rcases hp : is p with _ | ⟨i, rest⟩
    · simp [hp]
    · simp [hp, Function.ofInstructions]

/-- The sweeps from all start addresses, also the empty ones. -/
def sweeps (settings : SweepSettings) (mode : Mode) (code : Bytes) (base span : UInt64) :
    List (List Instruction) :=
  (bounds (Word.addSaturating base span) (seeds settings mode code base)).map fun p =>
    instructionsAt settings mode code base p.1 p.2

lemma length_sweeps :
    (sweeps settings mode code base span).length = (seeds settings mode code base).length := by
  have h := congrArg List.length
    (map_fst_bounds (Word.addSaturating base span) (seeds settings mode code base))
  simpa [sweeps] using h

lemma isSweep_sweeps (hfit : base.toNat + code.length < 2 ^ 64) {k : ℕ} {s : UInt64}
    {is : List Instruction} (hs : (seeds settings mode code base)[k]? = some s)
    (his : (sweeps settings mode code base span)[k]? = some is) :
    IsSweep mode code base settings.maxInstructions s
      ((seeds settings mode code base)[k + 1]?.getD (Word.addSaturating base span)) is := by
  simp only [sweeps, List.getElem?_map, getElem?_bounds, hs, Option.map_some,
    Option.some.injEq] at his
  subst his
  exact isSweep_instructionsAt hfit (isStart_of_mem_seeds hfit (List.mem_of_getElem? hs))

lemma functions_eq_filterMap :
    functions settings mode code base span =
      ((seeds settings mode code base).zip (sweeps settings mode code base span)).filterMap
        fun (s, is) => if is.isEmpty then none else some (.ofInstructions s is) := by
  have hfst := map_fst_bounds (Word.addSaturating base span) (seeds settings mode code base)
  have hzip : (seeds settings mode code base).zip (sweeps settings mode code base span) =
      (bounds (Word.addSaturating base span) (seeds settings mode code base)).map fun p =>
        (p.1, instructionsAt settings mode code base p.1 p.2) := by
    rw [← List.zip_map', hfst, sweeps]
  rw [hzip, List.filterMap_map]
  rfl

lemma mem_functions {f : Function} (hf : f ∈ functions settings mode code base span) :
    ∃ p ∈ bounds (Word.addSaturating base span) (seeds settings mode code base),
      instructionsAt settings mode code base p.1 p.2 ≠ [] ∧
        f = .ofInstructions p.1 (instructionsAt settings mode code base p.1 p.2) := by
  obtain ⟨p, hp, hpf⟩ := List.mem_filterMap.mp hf
  refine ⟨p, hp, ?_⟩
  simp only at hpf
  split at hpf
  · simp at hpf
  · rename_i hne
    exact ⟨by simpa using hne, (Option.some.inj hpf).symm⟩

lemma exists_decode_of_mem {f : Function} (hf : f ∈ functions settings mode code base span) :
    ∀ i ∈ f.instructions, ∃ data, mode.decode data i.address = some i := by
  obtain ⟨p, -, -, rfl⟩ := mem_functions hf
  intro i hi
  obtain ⟨d, -, -, hdecode⟩ := exists_offset_of_mem_decodeUpTo hi
  exact ⟨_, hdecode⟩

/-- The instructions of a sweep lie below all those of later ones. -/
lemma pairwise_instructions (hfit : base.toNat + code.length < 2 ^ 64) :
    ((functions settings mode code base span).flatMap (·.instructions)).Pairwise
      fun i j => i.address < j.address := by
  have hflat : (functions settings mode code base span).flatMap (·.instructions) =
      (bounds (Word.addSaturating base span) (seeds settings mode code base)).flatMap fun p =>
        instructionsAt settings mode code base p.1 p.2 :=
    flatMap_instructions _ Prod.fst _
  rw [hflat, List.pairwise_flatMap]
  refine ⟨fun p hp => ?_, ?_⟩
  · exact (isSweep_instructionsAt hfit (isStart_of_mem_bounds hfit hp)).pairwise
  · refine (pairwise_bounds (pairwise_seeds settings mode code base)).imp_of_mem
      fun hp hq hpq i hi j hj => ?_
    have h1 := (isSweep_instructionsAt hfit (isStart_of_mem_bounds hfit hp)).below i hi
    have h2 := (isSweep_instructionsAt hfit (isStart_of_mem_bounds hfit hq)).start_le j hj
    exact UInt64.lt_of_lt_of_le h1 (UInt64.le_trans hpq h2)

/-- The instructions of a function start below every later function. -/
lemma pairwise_functions (hfit : base.toNat + code.length < 2 ^ 64) :
    (functions settings mode code base span).Pairwise
      fun f g => ∀ i ∈ f.instructions, i.address < g.start := by
  refine List.pairwise_filterMap.mpr
    ((pairwise_bounds (pairwise_seeds settings mode code base)).imp_of_mem
      fun {p q} hp hq hpq f hf g hg i hi => ?_)
  simp only at hf hg
  split at hf
  · simp at hf
  split at hg
  · simp at hg
  obtain rfl := Option.some.inj hf
  obtain rfl := Option.some.inj hg
  have h1 := (isSweep_instructionsAt hfit (isStart_of_mem_bounds hfit hp)).below i hi
  exact UInt64.lt_of_lt_of_le h1 hpq

/-- A function ends with its last instruction, which can reach over the start of the next one. -/
lemma stop_overlap (hfit : base.toNat + code.length < 2 ^ 64) {f g : Function}
    (hf : f ∈ functions settings mode code base span)
    (hg : g ∈ functions settings mode code base span)
    (hfg : ∀ i ∈ f.instructions, i.address < g.start) :
    ∃ i, f.instructions.getLast? = some i ∧ f.stop.toNat < g.start.toNat + i.bytes.length ∧
      f.stop.toNat + 2 ≤ g.start.toNat + mode.maxLength := by
  obtain ⟨p, hp, hne, rfl⟩ := mem_functions hf
  obtain ⟨q, hq, -, rfl⟩ := mem_functions hg
  have hsweep : IsSweep mode code base settings.maxInstructions p.1 p.2
      (instructionsAt settings mode code base p.1 p.2) :=
    isSweep_instructionsAt hfit (isStart_of_mem_bounds hfit hp)
  have hlast := List.getLast?_eq_some_getLast hne
  have hmem := List.mem_of_getLast? hlast
  have hlt := hfg _ hmem
  have hstop := hsweep.stop_eq hfit hlast
  have hover := hsweep.overlap hmem (isStart_of_mem_bounds hfit hq) hlt
  refine ⟨_, hlast, ?_, ?_⟩
  · rw [hstop]
    have := UInt64.lt_iff_toNat_lt.mp hlt
    omega
  · rw [hstop]
    exact hover

end

/-- **The functions of a section are its sweeps.** The start addresses are the base and the places
of prologues, in order and cut to the greatest number of functions; each is swept up to the next
one, and the sweeps that are not empty are the functions. So addresses rise over all functions, and
a function reaches into the next one by less than its last instruction. -/
theorem functions_linearSweep (settings : SweepSettings) (mode : Mode) (code : Bytes)
    (base span : UInt64) (hfit : base.toNat + code.length < 2 ^ 64) :
    let ss := seeds settings mode code base
    let fs := functions settings mode code base span
    (∃ all : List UInt64, all.Pairwise (· < ·) ∧ (∀ a, a ∈ all ↔ IsStart mode code base a) ∧
      ss = all.take settings.maxFunctions) ∧
    (∃ sweeps : List (List Instruction), sweeps.length = ss.length ∧
      (∀ (k : ℕ) (s : UInt64) (is : List Instruction), ss[k]? = some s → sweeps[k]? = some is →
        IsSweep mode code base settings.maxInstructions s
          (ss[k + 1]?.getD (Word.addSaturating base span)) is) ∧
      fs = (ss.zip sweeps).filterMap fun (s, is) =>
        if is.isEmpty then none else some (Function.ofInstructions s is)) ∧
    (fs.flatMap (·.instructions)).Pairwise (fun i j => i.address < j.address) ∧
    ∀ (k : ℕ) (f g : Function), fs[k]? = some f → fs[k + 1]? = some g →
      ∃ i, f.instructions.getLast? = some i ∧ f.stop.toNat < g.start.toNat + i.bytes.length ∧
        f.stop.toNat + 2 ≤ g.start.toNat + mode.maxLength := by
  refine ⟨⟨starts mode code base, pairwise_starts hfit, fun _ => mem_starts hfit,
      seeds_eq settings hfit⟩,
    ⟨sweeps settings mode code base span, length_sweeps, fun _ _ _ => isSweep_sweeps hfit,
      functions_eq_filterMap⟩, pairwise_instructions hfit, fun k f g hf hg => ?_⟩
  refine stop_overlap hfit (List.mem_of_getElem? hf) (List.mem_of_getElem? hg) ?_
  obtain ⟨hk, rfl⟩ := List.getElem?_eq_some_iff.mp hf
  obtain ⟨hk', rfl⟩ := List.getElem?_eq_some_iff.mp hg
  exact List.pairwise_iff_getElem.mp (pairwise_functions hfit) k (k + 1) hk hk' (by omega)

/-- A prologue inside the constant of a long move: the first function ends eight bytes after the
second one starts. -/
theorem functions_linearSweep_overlapping :
    let settings : SweepSettings := { maxInstructions := 4, maxFunctions := 4 }
    let code : Bytes := [0x48, 0xB8, 0x48, 0x8B, 0xEC, 0xC3, 0x90, 0x90, 0x90, 0x90, 0xC3]
    let fs := functions settings .bits64 code 0x1000 11
    fs.map (fun f => (f.start, f.stop)) = [(0x1000, 0x100A), (0x1002, 0x1006)] ∧
      (fs.flatMap (·.instructions)).Pairwise fun i j => i.address < j.address := by
  intro settings code fs
  have h := functions_linearSweep settings .bits64 code 0x1000 11 (by decide)
  exact ⟨by decide +kernel, h.2.2.1⟩

/-! ### The end of the address space -/

section

variable {settings : SweepSettings} {mode : Mode} {code : Bytes} {base span : UInt64}

/-- Decoding stays behind the base as long as the code ends in the address space. -/
lemma passesZero_eq_false (hfit : base.toNat + code.length < 2 ^ 64) {offset budget : ℕ}
    {start limit : UInt64} (hoffset : offset ≤ code.length)
    (hstart : start.toNat = base.toNat + offset) :
    passesZero mode base limit budget start (code.drop offset) = false := by
  induction budget generalizing start offset with
  | zero => rfl
  | succ budget ih =>
    have hbase : ¬start < base := by
      rw [UInt64.lt_iff_toNat_lt]
      omega
    rw [passesZero, if_neg hbase]
    split
    · rcases hi : mode.decode (code.drop offset) start with _ | i
      · rfl
      · have htakes := takes_of_decode hi
        have hlen := htakes.le_length
        rw [List.length_drop] at hlen
        have hnext : i.next.toNat = start.toNat + i.bytes.length := by
          rw [Instruction.next, htakes.address_eq]
          exact Word.toNat_add_ofNat (by omega)
        have hrest : passesZero mode base limit budget i.next
            (code.drop (offset + i.bytes.length)) = false := ih (by omega) (by omega)
        simp [List.drop_drop, hrest]
    · rfl

lemma overflows_eq_false (settings : SweepSettings) (mode : Mode) (span : UInt64)
    (hfit : base.toNat + code.length < 2 ^ 64) :
    overflows settings mode code base span = false := by
  have hsize : UInt64.size = 2 ^ 64 := rfl
  rw [overflows, Bool.or_eq_false_iff, List.any_eq_false, List.any_eq_false]
  refine ⟨fun o ho => ?_, fun ⟨start, limit⟩ hp => ?_⟩
  · obtain ⟨m, rfl, hm⟩ := mem_prologueOffsets.mp ho
    have hlt := lt_length_of_startsFunction hm
    rw [decide_eq_true_eq, hsize]
    omega
  · have hstart : IsStart mode code base start := isStart_of_mem_bounds hfit hp
    obtain ⟨o, ho, hso⟩ := hstart.exists_offset
    have hoffset : (start - base).toNat = o := by
      rw [UInt64.toNat_sub_of_le _ _ (UInt64.le_iff_toNat_le.mpr (by omega))]
      omega
    simp only [hoffset, passesZero_eq_false hfit ho hso, Bool.false_eq_true, not_false_eq_true]

/-- Nothing overflows in an image whose code ends in the address space. -/
lemma overflowsIn_eq_false {data : Bytes} {image : Image} (settings : SweepSettings)
    (hfit : ∀ s ∈ image.codeSections,
      (image.imageBase + s.virtualAddress).toNat + (s.data data).length < 2 ^ 64) :
    overflowsIn settings data image = false := by
  unfold overflowsIn
  cases Decoder.mode? image.architecture with
  | none => rfl
  | some mode =>
    rw [List.any_eq_false]
    intro s hs
    rw [overflows_eq_false settings mode s.span (hfit s hs)]
    exact Bool.false_ne_true

end

end Dissect.Sweep
