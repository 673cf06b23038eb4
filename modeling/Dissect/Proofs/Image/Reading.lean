import Mathlib
import Dissect.Image.Cursor

/-!
Readings of records of fixed size.

A reading is fixed when it takes the same number of bytes wherever it starts, and gives a value that
depends on these bytes and on the byte order alone. It then fails only where the file ends too
early, and gives the same value in every file in which the same bytes stand under the cursor.
-/

namespace Dissect

/-! ### Slices -/

namespace Bytes

variable {d : Bytes} {k n : ℕ}

lemma length_slice (h : k + n ≤ d.length) : (d.slice k n).length = n := by
  rw [slice, List.length_take, List.length_drop]
  omega

lemma slice_append (h : k + n ≤ d.length) (e : Bytes) :
    Bytes.slice (d ++ e) k n = d.slice k n := by
  unfold slice
  rw [List.drop_append_of_le_length (by omega), List.take_append_of_le_length]
  rw [List.length_drop]
  omega

lemma take_slice (m : ℕ) : (d.slice k (n + m)).take n = d.slice k n := by
  simp [slice, List.take_take]

lemma drop_slice (m : ℕ) : (d.slice k (n + m)).drop n = d.slice (k + n) m := by
  simp [slice, List.drop_take, List.drop_drop]

lemma slice_slice {i j : ℕ} (h : i + j ≤ n) :
    Bytes.slice (d.slice k n) i j = d.slice (k + i) j := by
  unfold slice
  rw [List.drop_take, List.drop_drop, List.take_take, min_eq_left (by omega)]

end Bytes

/-! ### Cursors -/

namespace Cursor

variable {c : Cursor} {n m : ℕ}

/-- The next `n` bytes are all in the file. Nothing is always there, also past the end. -/
def Has (c : Cursor) (n : ℕ) : Prop := n = 0 ∨ c.offset + n ≤ c.data.length

/-- The next `n` bytes, as far as the file holds them. -/
def next (c : Cursor) (n : ℕ) : Bytes := c.data.slice c.offset n

def advance (c : Cursor) (n : ℕ) : Cursor := { c with offset := c.offset + n }

/-- The cursor in a file that goes on with more bytes. -/
def extend (c : Cursor) (e : Bytes) : Cursor := { c with data := c.data ++ e }

@[simp] lemma advance_zero (c : Cursor) : c.advance 0 = c := rfl

lemma advance_advance (c : Cursor) (n m : ℕ) : (c.advance n).advance m = c.advance (n + m) := by
  simp [advance, Nat.add_assoc]

@[simp] lemma extend_offset (c : Cursor) (e : Bytes) : (c.extend e).offset = c.offset := rfl
@[simp] lemma extend_order (c : Cursor) (e : Bytes) : (c.extend e).order = c.order := rfl

lemma has_iff (hn : 0 < n) : c.Has n ↔ c.offset + n ≤ c.data.length := by
  unfold Has
  omega

lemma has_add : c.Has (n + m) ↔ c.Has n ∧ (c.advance n).Has m := by
  simp only [Has, advance]
  omega

lemma Has.extend (h : c.Has n) (e : Bytes) : (c.extend e).Has n := by
  simp only [Has, Cursor.extend, List.length_append] at h ⊢
  omega

lemma Has.next_extend (h : c.Has n) (e : Bytes) : (c.extend e).next n = c.next n := by
  rcases h with rfl | h
  · simp [next, Bytes.slice]
  · exact Bytes.slice_append h e

end Cursor

namespace Reader

variable {α β : Type} {r : Reader α} {g : α → Reader β} {c c' : Cursor} {a : α} {n m : ℕ}

/-! ### Sequences of readings -/

lemma step_bind_of_ok (h : r.step c = (.ok a, c')) (g : α → Reader β) :
    (r >>= g).step c = (g a).step c' := by
  rw [step] at h
  rw [step, ExceptT.run_bind, StateT.run_bind, h]
  rfl

lemma step_bind_of_error {e : ParseError} (h : r.step c = (.error e, c')) (g : α → Reader β) :
    (r >>= g).step c = (.error e, c') := by
  rw [step] at h
  rw [step, ExceptT.run_bind, StateT.run_bind, h]
  rfl

lemma step_map (k : α → β) (r : Reader α) (c : Cursor) :
    (k <$> r).step c = ((r.step c).1.map k, (r.step c).2) := by
  rw [map_eq_pure_bind]
  rcases h : r.step c with ⟨e | a, c'⟩
  · exact step_bind_of_error h _
  · exact step_bind_of_ok h _

lemma step_get_bind (g : Cursor → Reader β) : (get >>= g).step c = (g c).step c := rfl

/-- The bytes are read, or none of them is. -/
lemma step_bytes (n : ℕ) (c : Cursor) :
    (bytes n).step c = if c.offset + n ≤ c.data.length then (.ok (c.next n), c.advance n)
      else (.error (.truncated n c.remaining), c) := by
  unfold bytes
  rw [step_get_bind]
  by_cases h : c.offset + n ≤ c.data.length
  · rw [if_pos h, if_pos h]
    rfl
  · rw [if_neg h, if_neg h]
    rfl

lemma run_eq_ok_iff : r.run c = .ok (a, c') ↔ r.step c = (.ok a, c') := by
  unfold run
  rcases r.step c with ⟨e | b, c₁⟩ <;> simp

lemma run_eq_error_iff {e : ParseError} : r.run c = .error e ↔ ∃ c', r.step c = (.error e, c') := by
  unfold run
  rcases r.step c with ⟨e' | b, c₁⟩ <;> simp

lemma run_bind_of_ok (h : r.run c = .ok (a, c')) (g : α → Reader β) :
    (r >>= g).run c = (g a).run c' := by
  rw [run, step_bind_of_ok (run_eq_ok_iff.mp h), run]

lemma run_bind_of_error {e : ParseError} (h : r.run c = .error e) (g : α → Reader β) :
    (r >>= g).run c = .error e := by
  obtain ⟨c', h⟩ := run_eq_error_iff.mp h
  exact run_eq_error_iff.mpr ⟨c', step_bind_of_error h g⟩

lemma run_bytes (n : ℕ) (c : Cursor) :
    (bytes n).run c = if c.offset + n ≤ c.data.length then .ok (c.next n, c.advance n)
      else .error (.truncated n c.remaining) := by
  rw [run, step_bytes]
  by_cases h : c.offset + n ≤ c.data.length
  · rw [if_pos h, if_pos h]
  · rw [if_neg h, if_neg h]

lemma run_get_bind (g : Cursor → Reader β) : (get >>= g).run c = (g c).run c := rfl

lemma run_seek_bind (offset : ℕ) (g : Unit → Reader β) :
    (seek offset >>= g).run c = (g ()).run { c with offset := offset } := rfl

/-- A sequence succeeds when both of its parts do. -/
lemma run_bind_eq_ok {b : β} :
    (r >>= g).run c = .ok (b, c') ↔ ∃ a c₁, r.run c = .ok (a, c₁) ∧ (g a).run c₁ = .ok (b, c') := by
  rcases h : r.run c with e | ⟨a, c₁⟩
  · simp [run_bind_of_error h]
  · rw [run_bind_of_ok h]
    constructor
    · exact fun hg => ⟨a, c₁, rfl, hg⟩
    · rintro ⟨_, _, ⟨⟩, hg⟩
      exact hg

end Reader

/-- What an error says about the end of a file is so. -/
def ParseError.Honest (d : Bytes) : ParseError → Prop
  | .truncated needed present => ∃ offset, d.length < offset + needed ∧ present = d.length - offset
  | .outOfBounds offset => d.length < offset
  | _ => True

namespace Reader

variable {α β : Type} {r : Reader α} {g : α → Reader β} {c c' : Cursor} {a : α} {n m : ℕ}

/-! ### Fixed readings -/

/-- The reading takes `n` bytes, of which `f` gives the value. -/
structure Reads (r : Reader α) (n : ℕ) (f : ByteOrder → Bytes → α) : Prop where
  ok : ∀ c : Cursor, c.Has n → r.run c = .ok (f c.order (c.next n), c.advance n)
  error : ∀ c : Cursor, ¬c.Has n → ∃ e, r.run c = .error e ∧ e.isStructural ∧ e.Honest c.data

/-- The reading takes `n` bytes. -/
def Fixed (r : Reader α) (n : ℕ) : Prop := ∃ f, Reads r n f

variable {f : ByteOrder → Bytes → α} {h : α → ByteOrder → Bytes → β}

/-- What is known of a reading that has succeeded. -/
lemma Reads.of_run (hr : Reads r n f) (hrun : r.run c = .ok (a, c')) :
    c.Has n ∧ a = f c.order (c.next n) ∧ c' = c.advance n := by
  by_cases hc : c.Has n
  · cases (hr.ok c hc).symm.trans hrun
    exact ⟨hc, rfl, rfl⟩
  · obtain ⟨e, he, -⟩ := hr.error c hc
    rw [hrun] at he
    cases he

lemma reads_pure (a : α) : Reads (pure a) 0 fun _ _ => a where
  ok _ _ := rfl
  error _ hc := absurd (.inl rfl) hc

lemma reads_bytes (hn : 0 < n) : Reads (bytes n) n fun _ bs => bs where
  ok c hc := by rw [run_bytes, if_pos ((Cursor.has_iff hn).mp hc)]
  error c hc := by
    rw [Cursor.has_iff hn] at hc
    rw [run_bytes, if_neg hc]
    exact ⟨_, rfl, rfl, c.offset, Nat.lt_of_not_le hc, rfl⟩

lemma Reads.bind (hr : Reads r n f) (hg : ∀ a, Reads (g a) m (h a)) :
    Reads (r >>= g) (n + m) fun order bs => h (f order (bs.take n)) order (bs.drop n) where
  ok c hc := by
    obtain ⟨hn, hm⟩ := Cursor.has_add.mp hc
    rw [run_bind_of_ok (hr.ok c hn), (hg _).ok _ hm, Cursor.advance_advance]
    simp only [Cursor.next, Bytes.take_slice, Bytes.drop_slice]
    rfl
  error c hc := by
    by_cases hn : c.Has n
    · rw [run_bind_of_ok (hr.ok c hn)]
      exact (hg _).error _ fun hm => hc (Cursor.has_add.mpr ⟨hn, hm⟩)
    · obtain ⟨e, he, hsays⟩ := hr.error c hn
      exact ⟨e, run_bind_of_error he g, hsays⟩

lemma reads_number (hn : 0 < n) : Reads (number n) n fun order bs => order.value bs where
  ok c hc := by
    unfold number
    rw [run_get_bind, run_bind_of_ok ((reads_bytes hn).ok c hc)]
    rfl
  error c hc := by
    obtain ⟨e, he, hsays⟩ := (reads_bytes hn).error c hc
    refine ⟨e, ?_, hsays⟩
    unfold number
    rw [run_get_bind, run_bind_of_error he]

/-- The start of a record is no further condition on it, unless it is empty. -/
lemma Reads.record (hr : Reads r n f) (hn : 0 < n) : Reads (record r) n f where
  ok c hc := by
    have hle := (Cursor.has_iff hn).mp hc
    unfold Reader.record
    rw [run_get_bind, if_neg (by omega)]
    exact hr.ok c hc
  error c hc := by
    unfold Reader.record
    rw [run_get_bind]
    by_cases hlt : c.data.length < c.offset
    · rw [if_pos hlt]
      exact ⟨_, rfl, rfl, hlt⟩
    · rw [if_neg hlt]
      exact hr.error c hc

lemma reads_skip (hn : 0 < n) : Reads (skip n) n fun _ _ => () :=
  (reads_bytes hn).bind fun _ => reads_pure ()

lemma reads_u16 : Reads u16 2 fun order bs => order.value bs := reads_number (by decide)
lemma reads_u32 : Reads u32 4 fun order bs => order.value bs := reads_number (by decide)

lemma Fixed.bind (hr : Fixed r n) (hg : ∀ a, Fixed (g a) m) : Fixed (r >>= g) (n + m) := by
  obtain ⟨f, hf⟩ := hr
  choose h hh using hg
  exact ⟨_, hf.bind hh⟩

lemma fixed_pure (a : α) : Fixed (pure a) 0 := ⟨_, reads_pure a⟩
lemma fixed_bytes (hn : 0 < n) : Fixed (bytes n) n := ⟨_, reads_bytes hn⟩
lemma fixed_skip (hn : 0 < n) : Fixed (skip n) n := ⟨_, reads_skip hn⟩
lemma fixed_u16 : Fixed u16 2 := ⟨_, reads_u16⟩
lemma fixed_u32 : Fixed u32 4 := ⟨_, reads_u32⟩
lemma fixed_u64 : Fixed u64 8 := ⟨_, reads_number (by decide)⟩

/-- The number of bytes of an address. -/
def wordSize (wide : Bool) : ℕ := if wide then 8 else 4

lemma fixed_word (wide : Bool) : Fixed (word wide) (wordSize wide) :=
  ⟨_, reads_number (by cases wide <;> decide)⟩

/-- A field that only wide records have, at their end. -/
lemma fixed_wideEnd (wide : Bool) (a : α) :
    Fixed (if wide then u32 >>= fun _ => pure a else pure a) (if wide then 4 else 0) := by
  cases wide with
  | false => exact fixed_pure a
  | true => exact fixed_u32.bind fun _ => fixed_pure a

/-! ### What readings give -/

variable {P : α → Prop} {Q : β → Prop}

/-- Whatever the reading gives has a property. -/
def Yields (r : Reader α) (P : α → Prop) : Prop :=
  ∀ (c c' : Cursor) (a : α), r.run c = .ok (a, c') → P a

lemma yields_pure {a : α} (h : P a) : Yields (pure a) P := by
  intro c c' b hb
  cases hb
  exact h

lemma Yields.bind (hr : Yields r P) (hg : ∀ a, P a → Yields (g a) Q) : Yields (r >>= g) Q := by
  intro c c' b h
  obtain ⟨a, c₁, h₁, h₂⟩ := run_bind_eq_ok.mp h
  exact hg a (hr c c₁ a h₁) c₁ c' b h₂

/-- A reading of which nothing needs to be known. -/
lemma Yields.after (hg : ∀ a, Yields (g a) Q) : Yields (r >>= g) Q :=
  Yields.bind (P := fun _ => True) (fun _ _ _ _ => trivial) fun a _ => hg a

lemma Yields.runAt {d : Bytes} {offset : ℕ} {order : ByteOrder} (hr : Yields r P)
    (h : r.runAt d offset order = .ok a) : P a := by
  unfold Reader.runAt at h
  rcases hrun : r.run ⟨d, offset, order⟩ with e | ⟨b, c'⟩ <;> rw [hrun] at h
  · cases h
  · cases h
    exact hr _ _ _ hrun

end Reader

namespace ByteOrder

lemma leastFirst_lt (bs : Bytes) : leastFirst bs < 256 ^ bs.length := by
  induction bs with
  | nil => simp [leastFirst]
  | cons b bs ih =>
    have hb := b.toNat_lt
    rw [leastFirst, List.length_cons, pow_succ]
    omega

lemma value_lt (order : ByteOrder) (bs : Bytes) : order.value bs < 256 ^ bs.length := by
  cases order with
  | little => exact leastFirst_lt bs
  | big => simpa [value] using leastFirst_lt bs.reverse

/-- The value of a field, also of one that the end of the file cuts. -/
lemma value_slice_lt (order : ByteOrder) (d : Bytes) (k n : ℕ) :
    order.value (d.slice k n) < 256 ^ n :=
  lt_of_lt_of_le (order.value_lt _) (Nat.pow_le_pow_right (by decide) (List.length_take_le _ _))

end ByteOrder

lemma Reader.yields_number {n : ℕ} (hn : 0 < n) : Yields (number n) (· < 256 ^ n) := by
  intro c c' a h
  obtain ⟨-, rfl, -⟩ := (reads_number hn).of_run h
  exact c.order.value_slice_lt c.data c.offset n

end Dissect
