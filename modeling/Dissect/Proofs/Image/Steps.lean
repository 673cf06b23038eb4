import Mathlib
import Dissect.Proofs.Image.Reading
import Dissect.Proofs.Word

/-!
Scripted readings.

A step reads what stands under the cursor, or fails because the file ends too early. A step that
fails leaves no trace: the cursor stays, and all further steps are answered as if it had not been
there. No run of steps brings the cursor to a position that is too large for a word, and the end of
a field is found in words as it is in numbers.
-/

namespace Dissect

/-! ### Numbers in bytes -/

namespace ByteOrder

lemma leastFirst_eq_ofDigits (bs : Bytes) :
    leastFirst bs = Nat.ofDigits 256 (bs.map (·.toNat)) := by
  induction bs with
  | nil => rfl
  | cons b bs ih => rw [leastFirst, List.map_cons, Nat.ofDigits_cons, ih]

/-- Bytes in reverse are the same number in the other byte order. -/
lemma value_swap_reverse (order : ByteOrder) (bs : Bytes) :
    order.swap.value bs.reverse = order.value bs := by
  cases order <;> simp [swap, value]

end ByteOrder

namespace Bytes

lemma slice_reverse {d : Bytes} {k n : ℕ} (h : k + n ≤ d.length) :
    Bytes.slice d.reverse (d.length - (k + n)) n = (d.slice k n).reverse := by
  have hfront : d.length - (d.length - (k + n)) - n = k := by omega
  calc Bytes.slice d.reverse (d.length - (k + n)) n
      = ((d.take (d.length - (d.length - (k + n)))).drop
          (d.length - (d.length - (k + n)) - n)).reverse := by
        rw [slice, List.drop_reverse, List.take_reverse, List.length_take]
        congr 3
        omega
    _ = ((d.take (k + n)).drop k).reverse := by
        rw [hfront]
        congr 3
        omega
    _ = (d.slice k n).reverse := by rw [slice, List.drop_take, Nat.add_sub_cancel_left]

end Bytes

namespace Cursor

/-- The cursor in the file with all its bytes in reverse, in front of the next `n` bytes. -/
def mirror (c : Cursor) (n : ℕ) : Cursor where
  data := c.data.reverse
  offset := c.data.length - (c.offset + n)
  order := c.order.swap

end Cursor

namespace ReadStep

/-! ### What a step is to answer -/

/-- The number of bytes that a step reads; none for a step that only moves the cursor. -/
def size? : ReadStep → Option ℕ
  | u8 => some 1
  | u16 => some 2
  | u32 => some 4
  | u64 => some 8
  | word wide => some (if wide then 8 else 4)
  | bytes n => some n
  | skip n => some n
  | seek _ => none

/-- The step asks for a number. -/
def isNumber : ReadStep → Bool
  | u8 | u16 | u32 | u64 | word _ => true
  | bytes _ | skip _ | seek _ => false

/-- The bytes of a number, least significant first, as digits. -/
def digitsOf (bs : Bytes) : ByteOrder → List ℕ
  | .little => bs.map (·.toNat)
  | .big => (bs.map (·.toNat)).reverse

/-- What a step gives for the bytes that it reads. -/
def valueOf (order : ByteOrder) (bs : Bytes) : ReadStep → ReadValue
  | u8 | u16 | u32 | u64 | word _ => .number (Nat.ofDigits 256 (digitsOf bs order))
  | bytes _ => .bytes bs
  | skip _ | seek _ => .nothing

/-- The answers to a step at a cursor. -/
inductive Answer (c : Cursor) : ReadStep → Except ParseError ReadValue × Cursor → Prop
  | read {s : ReadStep} {n : ℕ} (size : s.size? = some n) (inside : c.offset + n ≤ c.data.length) :
      Answer c s (.ok (s.valueOf c.order (c.data.slice c.offset n)),
        { c with offset := c.offset + n })
  | truncated {s : ReadStep} {n : ℕ} (size : s.size? = some n)
      (outside : c.data.length < c.offset + n) :
      Answer c s (.error (.truncated n (c.data.length - c.offset)), c)
  | moved (offset : ℕ) : Answer c (.seek offset) (.ok .nothing, { c with offset := offset })

/-- Answers to steps, each at the cursor that the one before it has left. -/
inductive Transcript : Cursor → List ReadStep → List (Except ParseError ReadValue × Cursor) → Prop
  | nil (c : Cursor) : Transcript c [] []
  | cons {c c' : Cursor} {s : ReadStep} {ss : List ReadStep} {a : Except ParseError ReadValue}
      {answers : List (Except ParseError ReadValue × Cursor)} (first : Answer c s (a, c'))
      (rest : Transcript c' ss answers) : Transcript c (s :: ss) ((a, c') :: answers)

/-- A word that a step is given. -/
def operand : ReadStep → ℕ
  | u8 | u16 | u32 | u64 | word _ => 0
  | bytes n | skip n | seek n => n

/-- What a scripted reading is to be. -/
structure IsAtomic (c : Cursor) (steps : List ReadStep) : Prop where
  answers : Transcript c steps (runAll c steps)
  /-- A step that fails could have been left out. -/
  failed : ∀ before s after, steps = before ++ s :: after →
    ∀ e c', (runAll c steps)[before.length]? = some (.error e, c') →
      runAll c (before ++ after) = (runAll c steps).eraseIdx before.length
  /-- Words stay words, and no end of a field is cut. -/
  words : c.offset < 2 ^ 64 → c.data.length < 2 ^ 64 → (∀ s ∈ steps, s.operand < 2 ^ 64) →
    ∀ a ∈ runAll c steps, a.2.offset < 2 ^ 64 ∧
      ∀ n < 2 ^ 64, a.2.offset + n ≤ c.data.length ↔ ∃ stop,
        Word.addChecked (.ofNat a.2.offset) (.ofNat n) = some stop ∧ stop.toNat ≤ c.data.length
  /-- A number reads the same from the other side, in the other byte order. -/
  reversed : ∀ (s : ReadStep) (n k : ℕ), s.isNumber → s.size? = some n → k + n ≤ c.data.length →
    (s.run (Cursor.mirror { c with offset := k } n)).1 = (s.run { c with offset := k }).1

/-! ### One step -/

variable {c : Cursor} {s : ReadStep} {n : ℕ}

lemma value_eq_ofDigits (order : ByteOrder) (bs : Bytes) :
    order.value bs = Nat.ofDigits 256 (digitsOf bs order) := by
  cases order <;> simp [ByteOrder.value, digitsOf, ByteOrder.leastFirst_eq_ofDigits]

lemma run_map {α : Type} (f : α → ReadValue) (r : Reader α) (hs : s.reader = f <$> r) :
    s.run c = ((r.step c).1.map f, (r.step c).2) := by
  rw [run, hs, Reader.step_map]

lemma step_number (n : ℕ) (c : Cursor) :
    (Reader.number n).step c =
      (((Reader.bytes n).step c).1.map c.order.value, ((Reader.bytes n).step c).2) := by
  rw [Reader.number, Reader.step_get_bind, bind_pure_comp, Reader.step_map]

lemma step_skip (n : ℕ) (c : Cursor) :
    (Reader.skip n).step c =
      (((Reader.bytes n).step c).1.map fun _ => (), ((Reader.bytes n).step c).2) := by
  rw [Reader.skip, bind_pure_comp, Reader.step_map]

/-- A step that reads takes its bytes, or fails as they do, and leaves the cursor where they do. -/
lemma run_of_size (h : s.size? = some n) :
    s.run c = (((Reader.bytes n).step c).1.map (s.valueOf c.order),
      ((Reader.bytes n).step c).2) := by
  have hnumber (n : ℕ) (hs : s.reader = ReadValue.number <$> Reader.number n)
      (hv : ∀ bs, s.valueOf c.order bs = .number (Nat.ofDigits 256 (digitsOf bs c.order))) :
      s.run c = (((Reader.bytes n).step c).1.map (s.valueOf c.order),
        ((Reader.bytes n).step c).2) := by
    rw [run_map _ _ hs, step_number]
    rcases (Reader.bytes n).step c with ⟨e | bs, c'⟩
    · rfl
    · simp [Except.map, hv, value_eq_ofDigits]
  cases s with
  | seek offset => simp [size?] at h
  | bytes m =>
    obtain rfl : m = n := by simpa [size?] using h
    exact run_map ReadValue.bytes (Reader.bytes m) rfl
  | skip m =>
    obtain rfl : m = n := by simpa [size?] using h
    rw [run_map _ (Reader.skip m) rfl, step_skip]
    rcases (Reader.bytes m).step c with ⟨e | bs, c'⟩ <;> rfl
  | _ =>
    simp only [size?, Option.some.injEq] at h
    subst h
    exact hnumber _ rfl fun _ => rfl

lemma run_of_inside (h : s.size? = some n) (hle : c.offset + n ≤ c.data.length) :
    s.run c = (.ok (s.valueOf c.order (c.next n)), c.advance n) := by
  rw [run_of_size h, Reader.step_bytes, if_pos hle]
  rfl

lemma run_of_outside (h : s.size? = some n) (hlt : c.data.length < c.offset + n) :
    s.run c = (.error (.truncated n c.remaining), c) := by
  rw [run_of_size h, Reader.step_bytes, if_neg (by omega)]
  rfl

lemma run_seek (c : Cursor) (offset : ℕ) :
    (seek offset).run c = (.ok .nothing, { c with offset := offset }) :=
  rfl

lemma size?_eq_none_iff : s.size? = none ↔ ∃ offset, s = .seek offset := by
  cases s <;> simp [size?]

/-- Every step is answered. -/
lemma answer_run (c : Cursor) (s : ReadStep) : Answer c s (s.run c) := by
  rcases hs : s.size? with _ | n
  · obtain ⟨offset, rfl⟩ := size?_eq_none_iff.mp hs
    rw [run_seek]
    exact .moved offset
  · rcases Nat.lt_or_ge c.data.length (c.offset + n) with hlt | hle
    · rw [run_of_outside hs hlt]
      exact .truncated hs hlt
    · rw [run_of_inside hs hle]
      exact .read hs hle

/-- A step that fails leaves the cursor where it was. -/
lemma Answer.cursor_of_error {e : ParseError} {c' : Cursor} (h : Answer c s (.error e, c')) :
    c' = c := by
  cases h
  rfl

lemma Answer.data_eq {a : Except ParseError ReadValue × Cursor} (h : Answer c s a) :
    a.2.data = c.data := by
  cases h <;> rfl

lemma Answer.offset_lt {a : Except ParseError ReadValue × Cursor} (h : Answer c s a)
    (hoffset : c.offset < 2 ^ 64) (hdata : c.data.length < 2 ^ 64) (hs : s.operand < 2 ^ 64) :
    a.2.offset < 2 ^ 64 := by
  cases h with
  | read size inside => exact lt_of_le_of_lt inside hdata
  | truncated size outside => exact hoffset
  | moved offset => exact hs

/-- The end of a field is found in words. -/
lemma inside_iff_addChecked {o n len : ℕ} (ho : o < 2 ^ 64) (hn : n < 2 ^ 64)
    (hlen : len < 2 ^ 64) :
    o + n ≤ len ↔ ∃ stop, Word.addChecked (.ofNat o) (.ofNat n) = some stop ∧ stop.toNat ≤ len := by
  have hsize : UInt64.size = 2 ^ 64 := rfl
  have hsum : (UInt64.ofNat o).toNat + (UInt64.ofNat n).toNat = o + n := by
    rw [Word.toNat_ofNat_of_lt ho, Word.toNat_ofNat_of_lt hn]
  rw [Word.addChecked, hsum, hsize]
  constructor
  · intro hle
    refine ⟨_, if_pos (by omega), ?_⟩
    rw [Word.toNat_add_of_lt (by omega), hsum]
    exact hle
  · rintro ⟨stop, hstop, hle⟩
    by_cases hlt : o + n < 2 ^ 64
    · rw [if_pos hlt, Option.some.injEq] at hstop
      rwa [← hstop, Word.toNat_add_of_lt (by omega), hsum] at hle
    · rw [if_neg hlt] at hstop
      cases hstop

/-- A number reads the same from the other side. -/
lemma run_mirror (hnumber : s.isNumber) (h : s.size? = some n)
    (hle : c.offset + n ≤ c.data.length) : (s.run (c.mirror n)).1 = (s.run c).1 := by
  have hinside : (c.mirror n).offset + n ≤ (c.mirror n).data.length := by
    simp only [Cursor.mirror, List.length_reverse]
    omega
  have hvalue : (c.mirror n).order.value ((c.mirror n).next n) = c.order.value (c.next n) := by
    simp only [Cursor.mirror, Cursor.next]
    rw [Bytes.slice_reverse hle, ByteOrder.value_swap_reverse]
  rw [value_eq_ofDigits, value_eq_ofDigits] at hvalue
  rw [run_of_inside h hinside, run_of_inside h hle]
  cases s <;> simp_all [isNumber, valueOf]

/-! ### Whole runs -/

/-- The cursor after some steps. -/
def cursorAfter (c : Cursor) (steps : List ReadStep) : Cursor :=
  steps.foldl (fun c s => (s.run c).2) c

lemma runAll_append (c : Cursor) (steps more : List ReadStep) :
    runAll c (steps ++ more) = runAll c steps ++ runAll (cursorAfter c steps) more := by
  induction steps generalizing c with
  | nil => rfl
  | cons s steps ih =>
    rw [List.cons_append, runAll, runAll, ih, List.cons_append]
    rfl

@[simp] lemma length_runAll (c : Cursor) (steps : List ReadStep) :
    (runAll c steps).length = steps.length := by
  induction steps generalizing c with
  | nil => rfl
  | cons s steps ih => rw [runAll, List.length_cons, List.length_cons, ih]

lemma transcript_runAll (c : Cursor) (steps : List ReadStep) :
    Transcript c steps (runAll c steps) := by
  induction steps generalizing c with
  | nil => exact .nil c
  | cons s steps ih => exact .cons (answer_run c s) (ih _)

/-- The steps behind one that fails do not notice it. -/
lemma runAll_of_failed (before after : List ReadStep) {e : ParseError} {c' : Cursor}
    (h : (runAll c (before ++ s :: after))[before.length]? = some (.error e, c')) :
    runAll c (before ++ after) = (runAll c (before ++ s :: after)).eraseIdx before.length := by
  have hlength := length_runAll c before
  rw [runAll_append, List.getElem?_append_right (by omega), hlength, Nat.sub_self, runAll,
    List.getElem?_cons_zero, Option.some.injEq] at h
  have hanswer := answer_run (cursorAfter c before) s
  rw [h] at hanswer
  have hstay : (s.run (cursorAfter c before)).2 = cursorAfter c before := by
    rw [h]
    exact hanswer.cursor_of_error
  rw [runAll_append, runAll_append, List.eraseIdx_append_of_length_le (by omega), hlength,
    Nat.sub_self, runAll, hstay, List.eraseIdx_cons_zero]

/-- Words stay words along a run. -/
lemma Transcript.offset_lt {steps : List ReadStep}
    {answers : List (Except ParseError ReadValue × Cursor)} (h : Transcript c steps answers)
    (hoffset : c.offset < 2 ^ 64) (hdata : c.data.length < 2 ^ 64)
    (hsteps : ∀ s ∈ steps, s.operand < 2 ^ 64) : ∀ a ∈ answers, a.2.offset < 2 ^ 64 := by
  induction h with
  | nil c => simp
  | cons first rest ih =>
    obtain ⟨hs, hss⟩ := List.forall_mem_cons.mp hsteps
    have hnext := first.offset_lt hoffset hdata hs
    have hsame := first.data_eq
    refine List.forall_mem_cons.mpr ⟨hnext, ih hnext ?_ hss⟩
    rwa [hsame]

/-- **Steps are atomic over whole runs.** Whatever the file, the position, the byte order and the
steps, a step reads what stands under the cursor and moves past it, or says how many bytes are
missing and does nothing at all. -/
theorem runAll_isAtomic (c : Cursor) (steps : List ReadStep) : IsAtomic c steps where
  answers := transcript_runAll c steps
  failed before s after hsteps e c' h := by
    subst hsteps
    exact runAll_of_failed before after h
  words hoffset hdata hsteps a ha := by
    have hlt := (transcript_runAll c steps).offset_lt hoffset hdata hsteps a ha
    exact ⟨hlt, fun n hn => inside_iff_addChecked hlt hn hdata⟩
  reversed s n k hnumber hsize hle := run_mirror hnumber hsize hle

end ReadStep

end Dissect
