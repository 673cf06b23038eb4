import Mathlib
import Dissect.Proofs.Image.Acceptance
import Dissect.Proofs.Image.MachO.Placement

/-!
Universal files.

A universal file starts with a table of the images in it. One of them is read: the first one for a
64-bit processor, or else the first one for a 32-bit processor. It is read as if it stood alone, and
then moved to its place.
-/

namespace Dissect.MachO

open Reader

/-! ### The table -/

/-- An entry of the table: a processor, and where the image for it starts. -/
structure Entry where
  cpu : ℕ
  offset : ℕ
  deriving DecidableEq, Repr

def Entry.isWide (e : Entry) : Bool := e.cpu == 0x01000007 || e.cpu == 0x0100000C
def Entry.isNarrow (e : Entry) : Bool := e.cpu == 7 || e.cpu == 12

/-- The entries have twenty bytes each and stand behind the magic number and their count. -/
def entryAt (d : Bytes) (k : ℕ) : Entry where
  cpu := ByteOrder.big.value (d.slice (8 + 20 * k) 4)
  offset := ByteOrder.big.value (d.slice (8 + 20 * k + 8) 4)

def table (d : Bytes) : List Entry :=
  (List.range (ByteOrder.big.value (d.slice 4 4))).map (entryAt d)

/-- Where the image to read starts, if there is one. -/
def chosen (d : Bytes) : Option ℕ :=
  (((table d).find? (·.isWide)).or ((table d).find? (·.isNarrow))).map (·.offset)

/-- The table is there up to the first entry for a 64-bit processor, or all of it. -/
def HasTable (d : Bytes) : Prop :=
  8 + 20 * min ((table d).findIdx (·.isWide) + 1) (table d).length ≤ d.length

lemma reads_slice : ∃ f, Reads readSlice 20 f ∧
    ∀ (order : ByteOrder) (bs : Bytes),
      f order bs = (order.value (bs.slice 0 4), order.value (bs.slice 8 4)) := by
  unfold readSlice
  refine ⟨_, reads_u32.bind fun cpu => reads_u32.bind fun _ => reads_u32.bind fun offset =>
    reads_u32.bind fun _ => reads_u32.bind fun _ => reads_pure _, ?_⟩
  intro order bs
  simp [Bytes.slice, List.drop_drop]

lemma run_readSlice {d : Bytes} {k : ℕ} (h : 8 + 20 * k + 20 ≤ d.length) :
    readSlice.run ⟨d, 8 + 20 * k, .big⟩ =
      .ok (((entryAt d k).cpu, (entryAt d k).offset), ⟨d, 8 + 20 * (k + 1), .big⟩) := by
  obtain ⟨f, hf, heq⟩ := reads_slice
  have hnext : Cursor.advance ⟨d, 8 + 20 * k, .big⟩ 20 = ⟨d, 8 + 20 * (k + 1), .big⟩ := by
    simp only [Cursor.advance]
    congr 1
  rw [hf.ok _ (.inr h), heq, hnext]
  simp only [Cursor.next]
  rw [Bytes.slice_slice (by decide), Bytes.slice_slice (by decide)]
  rfl

/-- What the loop over the entries answers when `second` has been passed. -/
def choose (second : Option ℕ) (es : List Entry) : Option ℕ :=
  ((es.find? (·.isWide)).map (·.offset)).or
    (second.or ((es.find? (·.isNarrow)).map (·.offset)))

/-- One entry: a 64-bit processor ends the loop, the first 32-bit one is kept. -/
lemma choose_cons (second : Option ℕ) (e : Entry) (es : List Entry) :
    choose second (e :: es) =
      if e.isWide then some e.offset
      else if e.isNarrow then choose (second <|> some e.offset) es
      else choose second es := by
  unfold choose
  by_cases hwide : e.isWide
  · simp [List.find?_cons, hwide]
  · by_cases hnarrow : e.isNarrow
    · cases second <;> simp [hwide, hnarrow]
    · simp [hwide, hnarrow]

/-- The loop from an entry on; it stops at the first one for a 64-bit processor, so nothing behind
that one has to be there. -/
lemma runAt_chooseSlice {d : Bytes} (second : Option ℕ) (n k : ℕ)
    (h : 8 + 20 * (k + min (((List.range' k n).map (entryAt d)).findIdx (·.isWide) + 1) n) ≤
      d.length) :
    (chooseSlice second n).runAt d (8 + 20 * k) .big =
      .ok (choose second ((List.range' k n).map (entryAt d))) := by
  induction n generalizing second k with
  | zero => exact congrArg Except.ok (Option.or_none).symm
  | succ n ih =>
    rw [List.range'_succ, List.map_cons] at h ⊢
    have hread := run_readSlice (d := d) (k := k) (by omega)
    rw [choose_cons]
    unfold runAt
    rw [chooseSlice, run_bind_of_ok hread]
    by_cases hwide : (entryAt d k).isWide
    · have hcpu : (entryAt d k).cpu = 0x01000007 ∨ (entryAt d k).cpu = 0x0100000C := by
        simpa [Entry.isWide] using hwide
      rw [if_pos hwide]
      simp only [hcpu, if_true]
      rfl
    · have hcpu : ¬((entryAt d k).cpu = 0x01000007 ∨ (entryAt d k).cpu = 0x0100000C) := by
        simpa [Entry.isWide] using hwide
      -- the entry is passed, so one more has to be there unless it was the last
      rw [List.findIdx_cons, Bool.not_eq_true _ |>.mp hwide, cond_false] at h
      have hrest (second : Option ℕ) := ih second (k + 1) (by omega)
      rw [if_neg hwide]
      simp only [hcpu, if_false]
      by_cases hnarrow : (entryAt d k).isNarrow
      · have hcpu' : (entryAt d k).cpu = 7 ∨ (entryAt d k).cpu = 12 := by
          simpa [Entry.isNarrow] using hnarrow
        rw [if_pos hnarrow, if_pos hcpu']
        exact hrest _
      · have hcpu' : ¬((entryAt d k).cpu = 7 ∨ (entryAt d k).cpu = 12) := by
          simpa [Entry.isNarrow] using hnarrow
        rw [if_neg hnarrow, if_neg hcpu']
        exact hrest _

lemma choose_none (es : List Entry) :
    choose none es =
      ((es.find? (·.isWide)).or (es.find? (·.isNarrow))).map (·.offset) := by
  unfold choose
  cases es.find? (·.isWide) <;> simp

/-- The loop over the table finds the entry to read. -/
lemma sliceOffset_eq {d : Bytes} (h : HasTable d) :
    sliceOffset d = match chosen d with
      | some offset => .ok offset
      | none => .error (.invalidHeader .noSlice) := by
  unfold HasTable table at h
  rw [List.length_map, List.length_range, List.range_eq_range'] at h
  have hfour : Cursor.Has ⟨d, 0, .big⟩ 4 := .inr (by simp only; omega)
  have hcount : Cursor.Has ⟨d, 4, .big⟩ 4 := .inr (by simp only; omega)
  have hchoice := runAt_chooseSlice none (ByteOrder.big.value (d.slice 4 4)) 0 (by simpa using h)
  rw [choose_none, ← List.range_eq_range'] at hchoice
  change _ = Except.ok (chosen d) at hchoice
  have hrun : (u32 >>= fun _ => u32 >>= fun count => chooseSlice none count).runAt d 0 .big =
      .ok (chosen d) := by
    unfold runAt
    rw [run_bind_of_ok (reads_u32.ok _ hfour)]
    change ((u32 >>= fun count => chooseSlice none count).run ⟨d, 4, .big⟩).map Prod.fst = _
    rw [run_bind_of_ok (reads_u32.ok _ hcount)]
    exact hchoice
  unfold sliceOffset
  change ((u32 >>= fun _ => u32 >>= fun count => chooseSlice none count).runAt d 0 .big >>= _) = _
  rw [hrun]
  cases chosen d <;> rfl

/-- Offsets are fields of four bytes. -/
lemma chosen_lt {d : Bytes} {o : ℕ} (h : chosen d = some o) : o < 2 ^ 32 := by
  have hentry (k : ℕ) : (entryAt d k).offset < 2 ^ 32 :=
    ByteOrder.big.value_slice_lt d (8 + 20 * k + 8) 4
  obtain ⟨e, he, rfl⟩ := Option.map_eq_some_iff.mp h
  have hmem : e ∈ table d := by
    rcases Option.or_eq_some_iff.mp he with hwide | ⟨-, hnarrow⟩
    · exact List.mem_of_find?_eq_some hwide
    · exact List.mem_of_find?_eq_some hnarrow
  obtain ⟨k, -, rfl⟩ := List.mem_map.mp hmem
  exact hentry k

/-! ### The image in the file -/

def universalBytes : Bytes := [0xCA, 0xFE, 0xBA, 0xBE]

lemma magicAt_zero {d : Bytes} (h : 4 ≤ d.length) :
    magicAt d 0 = .ok (ByteOrder.big.value (d.take 4)) := by
  have hc : Cursor.Has ⟨d, 0, .big⟩ 4 := .inr (by simpa using h)
  exact congrArg (Except.map Prod.fst) (reads_u32.ok _ hc)

lemma value_eq_universalMagic {bs : Bytes} (hlen : bs.length = 4) :
    ByteOrder.big.value bs = universalMagic ↔ bs = universalBytes := by
  constructor
  · intro h
    have hrev : bs.reverse = [0xBE, 0xBA, 0xFE, 0xCA] :=
      Pe.leastFirst_inj (by simpa using hlen) h
    have hbs := congrArg List.reverse hrev
    rwa [List.reverse_reverse] at hbs
  · rintro rfl
    rfl

/-- A file that is not universal holds one image, from its start on. -/
lemma parse_eq_thinAt {d : Bytes} (h : d.take 4 ≠ universalBytes) : parse d = thinAt d 0 := by
  by_cases hlen : 4 ≤ d.length
  · have hmagic := magicAt_zero hlen
    have hne : ByteOrder.big.value (d.take 4) ≠ universalMagic :=
      mt (value_eq_universalMagic (by simpa using hlen)).mp h
    unfold parse
    rw [hmagic]
    change (if _ then _ else _) = _
    rw [if_neg hne]
  · have hmagic : ∃ e, magicAt d 0 = .error e := by
      obtain ⟨e, he, -⟩ := reads_u32.error ⟨d, 0, .big⟩ (by
        simp only [Cursor.has_iff (show 0 < 4 by decide)]
        omega)
      exact ⟨e, congrArg (Except.map Prod.fst) he⟩
    obtain ⟨e, he⟩ := hmagic
    simp [parse, thinAt, he, bind, Except.bind]

/-- The image with one more fact, where it starts; facts are in the order of their names. -/
def withOffset (o : ℕ) (i : Image) : Image :=
  { i with
    facts := i.facts.orderedInsert (fun a b => a.1 ≤ b.1)
      ("fat_slice_offset", Numeral.hexMarked o) }

/-- The new fact comes after the first one. -/
lemma withOffset_assemble (o : ℕ) (order : ByteOrder) (header : Header) (found : Commands) :
    withOffset o (assemble order header found) =
      { assemble order header found with
        facts := (assemble order header found).facts.take 1 ++
          [("fat_slice_offset", Numeral.hexMarked o)] ++
          (assemble order header found).facts.drop 1 } := by
  have hfirst : ¬("fat_slice_offset" : String) ≤ "endianness" := by decide
  have hsecond : ("fat_slice_offset" : String) ≤ "filetype" := by decide
  simp [withOffset, assemble, List.orderedInsert, hfirst, hsecond]

/-- The image as it is in a universal file in which it starts at `o`. -/
def ofSlice (o : ℕ) (i : Image) : Image := withOffset o (movedImage o i)

/-- Reading in place is reading the rest of the file and moving what is found. -/
lemma thinAt_drop {d : Bytes} {o : ℕ} (ho : o < 2 ^ 32) :
    thinAt d o = (thinAt (d.drop o) 0).map (movedImage o) := by
  by_cases hlen : o ≤ d.length
  · have hfront : (d.take o).length = o := by simpa using hlen
    have h := thinAt_behind (d.take o) (by omega) (d.drop o)
    rwa [List.take_append_drop, hfront] at h
  · -- behind the end of the file, both readings miss all four bytes of the magic number
    have hnil : d.drop o = [] := List.drop_eq_nil_of_le (by omega)
    have hmagic : magicAt d o = .error (.truncated 4 0) := by
      have hbytes : (bytes 4).run ⟨d, o, .big⟩ = .error (.truncated 4 0) := by
        have hzero : Cursor.remaining ⟨d, o, .big⟩ = 0 :=
          Nat.sub_eq_zero_of_le (Nat.le_of_not_le hlen)
        rw [run_bytes, if_neg (by simp only; omega), hzero]
      unfold magicAt runAt u32 number
      rw [run_get_bind, run_bind_of_error hbytes]
      rfl
    have hnone : thinAt d o = .error (.truncated 4 0) := by
      simp [thinAt, hmagic, bind, Except.bind]
    rw [hnone, hnil]
    rfl

lemma parse_of_universal {d : Bytes} (hmagic : d.take 4 = universalBytes) :
    parse d = sliceOffset d >>= fun o => (thinAt d o).map fun i =>
      { i with
        facts := i.facts.take 1 ++ [("fat_slice_offset", Numeral.hexMarked o)] ++
          i.facts.drop 1 } := by
  have hlen : 4 ≤ d.length := by
    have h := congrArg List.length hmagic
    simp only [List.length_take, universalBytes, List.length_cons, List.length_nil] at h
    omega
  unfold parse
  rw [magicAt_zero hlen, hmagic]
  change (sliceOffset d >>= _) = _
  rcases sliceOffset d with e | o
  · rfl
  · change (thinAt d o >>= _) = (thinAt d o).map _
    rcases thinAt d o with e | i <;> rfl

lemma parse_eq_ofSlice {d : Bytes} {o : ℕ} (hmagic : d.take 4 = universalBytes)
    (ho : sliceOffset d = .ok o) (hlt : o < 2 ^ 32)
    (hthin : (d.drop o).take 4 ≠ universalBytes) :
    parse d = (parse (d.drop o)).map (ofSlice o) := by
  rw [parse_of_universal hmagic, ho, parse_eq_thinAt hthin]
  change (thinAt d o).map _ = _
  rw [thinAt_drop hlt]
  rcases h : thinAt (d.drop o) 0 with e | i
  · rfl
  · obtain ⟨order, header, c, rfl⟩ := exists_assemble h
    have hfacts := withOffset_assemble o order header
      ((commandsFrom 0 header.commandCount c {}).moved o)
    exact congrArg Except.ok hfacts.symm

/-- **A universal file is read as its image alone, moved to its place.** The image is the first one
for a 64-bit processor, or else the first one for a 32-bit processor; without either, the header is
invalid. It is read as if its part of the file stood alone, with the same failure if it cannot be
read. Its sections are moved by where it starts, and so have the same data in the whole file. -/
theorem parse_universal (d : Bytes) (hmagic : d.take 4 = [0xCA, 0xFE, 0xBA, 0xBE])
    (htable : HasTable d) :
    (chosen d = none → parse d = .error (.invalidHeader .noSlice)) ∧
    ∀ o, chosen d = some o → sliceOffset d = .ok o ∧
      ((d.drop o).take 4 ≠ [0xCA, 0xFE, 0xBA, 0xBE] →
        parse d = (parse (d.drop o)).map (ofSlice o) ∧
        ∀ i, parse (d.drop o) = .ok i →
          (ofSlice o i).sections = i.sections.map (Section.moved o) ∧
          ∀ s ∈ i.sections, (s.moved o).rawOffset.toNat = s.rawOffset.toNat + o ∧
            (s.moved o).data d = s.data (d.drop o)) := by
  have hoffset := sliceOffset_eq htable
  refine ⟨fun hnone => ?_, fun o ho => ?_⟩
  · rw [parse_of_universal hmagic, hoffset, hnone]
    rfl
  · rw [ho] at hoffset
    have hlt := chosen_lt ho
    refine ⟨hoffset, fun hthin => ⟨parse_eq_ofSlice hmagic hoffset hlt hthin, fun i hi => ?_⟩⟩
    refine ⟨rfl, fun s hs => ?_⟩
    rw [parse_eq_thinAt hthin] at hi
    have hnear := near_of_thinAt hi s hs
    exact ⟨hnear.toNat_moved hlt, hnear.data_moved hlt d⟩

/-- An image for a 32-bit processor that is not there, and one for a 64-bit processor with one
section that is cut off in its data. -/
def universalFile : Bytes :=
  [0xCA, 0xFE, 0xBA, 0xBE, 0, 0, 0, 2] ++
    [0, 0, 0, 7, 0, 0, 0, 3, 0, 0, 16, 0, 0, 0, 0, 1, 0, 0, 0, 0] ++
    [1, 0, 0, 7, 0, 0, 0, 3, 0, 0, 0, 48, 0, 0, 0, 188, 0, 0, 0, 0] ++
    [0xCF, 0xFA, 0xED, 0xFE, 7, 0, 0, 1, 3, 0, 0, 0, 2, 0, 0, 0, 1, 0, 0, 0, 152, 0, 0, 0] ++
    List.replicate 8 0 ++ [0x19, 0, 0, 0, 152, 0, 0, 0] ++
    Bytes.ofAscii "__TEXT" ++ List.replicate 46 0 ++ [5, 0, 0, 0, 1, 0, 0, 0] ++
    List.replicate 4 0 ++
    Bytes.ofAscii "__text" ++ List.replicate 34 0 ++ [8, 0, 0, 0, 0, 0, 0, 0, 184, 0, 0, 0] ++
    List.replicate 12 0 ++ [0, 4, 0, 0x80] ++ List.replicate 12 0 ++ [0x90, 0x90, 0xC3]

theorem parse_universal_universalFile :
    chosen universalFile = some 48 ∧ ∃ i, parse (universalFile.drop 48) = .ok i ∧
      parse universalFile = .ok (ofSlice 48 i) ∧
      i.sections.map (fun s => (s.moved 48).data universalFile) = [[0x90, 0x90, 0xC3]] := by
  have hchosen : chosen universalFile = some 48 := by decide +kernel
  have htable : 8 + 20 * min ((table universalFile).findIdx (·.isWide) + 1)
      (table universalFile).length ≤ universalFile.length := by decide +kernel
  have hdata : (parse (universalFile.drop 48)).toOption.map
      (fun i => i.sections.map fun s => (s.moved 48).data universalFile) =
        some [[0x90, 0x90, 0xC3]] := by decide +kernel
  obtain ⟨-, h⟩ := parse_universal universalFile rfl htable
  obtain ⟨-, h⟩ := h 48 hchosen
  obtain ⟨hparse, -⟩ := h (by decide)
  rcases hi : parse (universalFile.drop 48) with e | i
  · rw [hi] at hdata
    cases hdata
  · rw [hi] at hparse hdata
    exact ⟨hchosen, i, rfl, hparse, Option.some.inj hdata⟩

end Dissect.MachO
