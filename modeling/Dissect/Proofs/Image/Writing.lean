import Mathlib
import Dissect.Image.Name
import Dissect.Proofs.Image.Reading
import Dissect.Proofs.Text.Utf8

/-!
Records that are written and read back.

A field is a number that fits into its bytes, or a short name padded with zero bytes. A record is
its fields one after the other, so a reading gives back a record when each of its parts gives back a
field.
-/

namespace Dissect

/-! ### Bytes in a file -/

namespace Bytes

variable {d bs bs' : Bytes} {k n : ℕ}

/-- The bytes stand at a position of the file. -/
def HasAt (d : Bytes) (k : ℕ) (bs : Bytes) : Prop := bs <+: d.drop k

instance : Decidable (d.HasAt k bs) := inferInstanceAs (Decidable (bs <+: d.drop k))

lemma hasAt_append (front bs rest : Bytes) : HasAt (front ++ (bs ++ rest)) front.length bs := by
  rw [HasAt, List.drop_left]
  exact List.prefix_append _ _

lemma HasAt.le (h : d.HasAt k bs) (hbs : bs ≠ []) : k + bs.length ≤ d.length := by
  have hlen := h.length_le
  have hpos := List.length_pos_of_ne_nil hbs
  rw [List.length_drop] at hlen
  omega

/-- What stands behind each other in a file. -/
lemma hasAt_append_iff : d.HasAt k (bs ++ bs') ↔ d.HasAt k bs ∧ d.HasAt (k + bs.length) bs' := by
  constructor
  · rintro ⟨rest, hrest⟩
    refine ⟨⟨bs' ++ rest, by rw [← hrest, List.append_assoc]⟩, rest, ?_⟩
    rw [← List.drop_drop, ← hrest, List.append_assoc, List.drop_left]
  · rintro ⟨⟨rest, hrest⟩, hbs'⟩
    rw [HasAt, ← List.drop_drop, ← hrest, List.drop_left] at hbs'
    obtain ⟨rest', rfl⟩ := hbs'
    exact ⟨rest', by rw [← hrest, List.append_assoc]⟩

/-- What stands in a part of a file stands in the file. -/
lemma HasAt.of_slice {i j : ℕ} (h : HasAt (d.slice i j) k bs) : d.HasAt (i + k) bs := by
  have hpart : (d.slice i j).drop k <+: d.drop (i + k) := by
    rw [slice, List.drop_take, List.drop_drop]
    exact List.take_prefix _ _
  exact h.trans hpart

end Bytes

/-! ### Numbers -/

namespace ByteOrder

lemma length_bytesLeastFirst (n v : ℕ) : (bytesLeastFirst n v).length = n := by
  induction n generalizing v with
  | zero => rfl
  | succ n ih => simp [bytesLeastFirst, ih]

lemma leastFirst_bytesLeastFirst (n v : ℕ) : leastFirst (bytesLeastFirst n v) = v % 256 ^ n := by
  induction n generalizing v with
  | zero => simp [bytesLeastFirst, leastFirst, Nat.mod_one]
  | succ n ih =>
    have hb : (UInt8.ofNat v).toNat = v % 256 := UInt8.toNat_ofNat'
    rw [bytesLeastFirst, leastFirst, ih, hb, pow_succ', Nat.mod_mul]

@[simp] lemma length_encode (order : ByteOrder) (n v : ℕ) : (order.encode n v).length = n := by
  cases order <;> simp [encode, length_bytesLeastFirst]

lemma bytesLeastFirst_leastFirst (bs : Bytes) :
    bytesLeastFirst bs.length (leastFirst bs) = bs := by
  induction bs with
  | nil => rfl
  | cons b bs ih =>
    have hb := b.toNat_lt
    have hlow : UInt8.ofNat (b.toNat + 256 * leastFirst bs) = b := by
      rw [← UInt8.toNat_inj, UInt8.toNat_ofNat']
      omega
    have hhigh : (b.toNat + 256 * leastFirst bs) / 256 = leastFirst bs := by omega
    rw [List.length_cons, leastFirst, bytesLeastFirst, hlow, hhigh, ih]

lemma encode_value (order : ByteOrder) (bs : Bytes) :
    order.encode bs.length (order.value bs) = bs := by
  cases order with
  | little => exact bytesLeastFirst_leastFirst bs
  | big =>
    have hreverse := bytesLeastFirst_leastFirst bs.reverse
    rw [List.length_reverse] at hreverse
    rw [encode, value, hreverse, List.reverse_reverse]

lemma value_encode (order : ByteOrder) (n v : ℕ) :
    order.value (order.encode n v) = v % 256 ^ n := by
  cases order <;> simp [encode, value, leastFirst_bytesLeastFirst]

end ByteOrder

/-- A number that fits into `n` bytes. -/
abbrev Field (n : ℕ) := BitVec (8 * n)

namespace Field

variable {n : ℕ}

def write (order : ByteOrder) (v : Field n) : Bytes := order.encode n v.toNat

@[simp] lemma length_write (order : ByteOrder) (v : Field n) : (v.write order).length = n :=
  order.length_encode n _

lemma value_write (order : ByteOrder) (v : Field n) : order.value (v.write order) = v.toNat := by
  have hlt : v.toNat < 256 ^ n := by
    have h := v.isLt
    rwa [pow_mul] at h
  rw [write, ByteOrder.value_encode, Nat.mod_eq_of_lt hlt]

/-- Bytes are the writing of a field. -/
lemma exists_write (order : ByteOrder) {bs : Bytes} (h : bs.length = n) :
    ∃ v : Field n, v.write order = bs := by
  subst h
  refine ⟨BitVec.ofNat _ (order.value bs), ?_⟩
  have hmod : (BitVec.ofNat (8 * bs.length) (order.value bs)).toNat =
      order.value bs % 256 ^ bs.length := by
    rw [BitVec.toNat_ofNat, pow_mul]
    norm_num
  rw [write, hmod, ← order.value_encode, order.encode_value, order.encode_value]

/-- A count that fits into a field. -/
lemma toNat_ofNat {k : ℕ} (h : k < 2 ^ (8 * n)) : (BitVec.ofNat (8 * n) k).toNat = k := by
  rw [BitVec.toNat_ofNat, Nat.mod_eq_of_lt h]

/-- A field of eight bytes as a field as wide as the addresses of a file. -/
def asWord (wide : Bool) (v : Field 8) : Field (Reader.wordSize wide) := v.setWidth _

/-- The number is not too large for an address of the file. -/
def Fits (wide : Bool) (v : Field 8) : Prop := wide = false → v.toNat < 2 ^ 32

instance (wide : Bool) (v : Field 8) : Decidable (Fits wide v) :=
  inferInstanceAs (Decidable (_ → _))

lemma Fits.toNat_asWord {wide : Bool} {v : Field 8} (h : Fits wide v) :
    (v.asWord wide).toNat = v.toNat := by
  rw [asWord, BitVec.toNat_setWidth, Nat.mod_eq_of_lt]
  cases wide with
  | false => exact h rfl
  | true => exact v.isLt

/-- One of the bits of the mask is set in the field. -/
def meets (v mask : Field n) : Bool := v &&& mask != 0

lemma and_twoPow_eq_zero {w : ℕ} {a : BitVec w} {i : ℕ} (hi : i < w) :
    a &&& BitVec.twoPow w i = 0 ↔ a.getLsbD i = false := by
  rw [BitVec.and_twoPow]
  cases h : a.getLsbD i with
  | false => simp
  | true =>
    have hne : BitVec.twoPow w i ≠ 0 := fun h0 => by
      have hbit := congrArg (BitVec.getLsbD · i) h0
      simp [hi] at hbit
    simpa using hne

lemma meets_eq_testBit {v mask : Field n} {i : ℕ} (hi : i < 8 * n)
    (hmask : mask = BitVec.twoPow (8 * n) i) : v.meets mask = v.toNat.testBit i := by
  rw [BitVec.testBit_toNat, meets, hmask, Bool.eq_iff_iff, bne_iff_ne, ne_eq,
    and_twoPow_eq_zero hi, Bool.not_eq_false]

lemma meets_or (v mask mask' : Field n) :
    v.meets (mask ||| mask') = (v.meets mask || v.meets mask') := by
  rw [Bool.eq_iff_iff, Bool.or_eq_true]
  simp only [meets, bne_iff_ne, ne_eq]
  rw [BitVec.and_or_distrib_left, ← not_and_or]
  exact not_congr BitVec.or_eq_zero_iff

end Field

/-! ### Names -/

/-- A name that fits into `n` bytes: ASCII without zero characters, and without white space at its
ends. -/
structure FieldName (n : ℕ) where
  text : String
  ascii : ∀ c ∈ text.toList, 0 < c.toNat ∧ c.toNat < 128
  length_le : text.toList.length ≤ n
  first_not_blank : ∀ c, text.toList.head? = some c → ¬Text.isBlank c
  last_not_blank : ∀ c, text.toList.getLast? = some c → ¬Text.isBlank c

namespace Utf8

lemma decodeLossy_ofAscii {s : String} (h : ∀ c ∈ s.toList, c.toNat < 128) :
    decodeLossy (Bytes.ofAscii s) = s := by
  have hbyte : ∀ c ∈ s.toList, (UInt8.ofNat c.toNat).toNat = c.toNat := fun c hc =>
    toNat_byte ((h c hc).trans (by decide))
  rw [decodeLossy_of_ascii fun b hb => ?_, Bytes.ofAscii, List.map_map]
  · refine (congrArg String.ofList (List.map_congr_left fun c hc => ?_)).trans
      (by rw [List.map_id, String.ofList_toList])
    rw [Function.comp_apply, hbyte c hc, Char.ofNat_toNat, id]
  · obtain ⟨c, hc, rfl⟩ := List.mem_map.mp hb
    rw [hbyte c hc]
    exact h c hc

end Utf8

lemma Text.trim_eq_self {cs : List Char} (hfirst : ∀ c, cs.head? = some c → ¬isBlank c)
    (hlast : ∀ c, cs.getLast? = some c → ¬isBlank c) : trim cs = cs := by
  have hkeep (cs : List Char) (h : ∀ c, cs.head? = some c → ¬isBlank c) :
      cs.dropWhile isBlank = cs := by
    cases cs with
    | nil => rfl
    | cons c cs => rw [List.dropWhile_cons_of_neg (h c rfl)]
  unfold trim
  rw [hkeep cs hfirst, hkeep cs.reverse (by simpa using hlast), List.reverse_reverse]

lemma Bytes.ne_zero_of_mem_ofAscii {s : String}
    (h : ∀ c ∈ s.toList, 0 < c.toNat ∧ c.toNat < 128) : ∀ b ∈ ofAscii s, b ≠ 0 := by
  intro b hb
  obtain ⟨c, hc, rfl⟩ := List.mem_map.mp hb
  obtain ⟨hpos, hlt⟩ := h c hc
  intro h0
  have h := congrArg UInt8.toNat h0
  rw [UInt8.toNat_ofNat'] at h
  change c.toNat % 256 = 0 at h
  omega

namespace FieldName

variable {n : ℕ}

def write (name : FieldName n) : Bytes :=
  Bytes.ofAscii name.text ++ List.replicate (n - name.text.toList.length) 0

@[simp] lemma length_write (name : FieldName n) : name.write.length = n := by
  have h := name.length_le
  simp only [write, Bytes.ofAscii, List.length_append, List.length_map, List.length_replicate]
  omega

lemma untilZero_write (name : FieldName n) : name.write.untilZero = Bytes.ofAscii name.text := by
  have hbytes := Bytes.ne_zero_of_mem_ofAscii name.ascii
  unfold Bytes.untilZero write
  rw [List.takeWhile_append_of_pos (by simpa using hbytes)]
  -- a name of full length has no padding to stop at
  cases n - name.text.toList.length <;> simp [List.replicate_succ]

/-- A name is read back without its padding. -/
lemma fixedName_write (name : FieldName n) : Image.fixedName name.write = name.text := by
  have hascii : ∀ c ∈ name.text.toList, c.toNat < 128 := fun c hc => (name.ascii c hc).2
  unfold Image.fixedName
  rw [name.untilZero_write, Utf8.decodeLossy_ofAscii hascii,
    Text.trim_eq_self name.first_not_blank name.last_not_blank, String.ofList_toList]

end FieldName

/-- Past the end of the file there is nothing to decode either. -/
lemma Image.nameAt_eq_decodeLossy (d : Bytes) (k n : ℕ) :
    nameAt d k n = Utf8.decodeLossy (d.slice k n).untilZero := by
  unfold nameAt
  by_cases h : d[k]?.isNone
  · have hslice : d.slice k n = [] := by
      rw [Option.isNone_iff_eq_none, List.getElem?_eq_none_iff] at h
      rw [Bytes.slice, List.drop_eq_nil_of_le h, List.take_nil]
    rw [if_pos h, hslice]
    rfl
  · rw [if_neg h]

/-- A name is read up to the byte that ends it, whatever comes behind. -/
lemma Image.nameAt_of_hasAt {text : String} {d : Bytes} {k n : ℕ}
    (hascii : ∀ c ∈ text.toList, 0 < c.toNat ∧ c.toNat < 128) (hlen : text.toList.length ≤ n)
    (h : d.HasAt k (Bytes.ofAscii text ++ [0])) : nameAt d k n = text := by
  obtain ⟨rest, hrest⟩ := h
  have hbytes := Bytes.ne_zero_of_mem_ofAscii hascii
  have hlen : (Bytes.ofAscii text).length ≤ n := by simpa [Bytes.ofAscii] using hlen
  have huntil : (d.slice k n).untilZero = Bytes.ofAscii text := by
    unfold Bytes.slice Bytes.untilZero
    rw [← hrest, List.append_assoc, List.take_append, List.take_of_length_le hlen,
      List.takeWhile_append_of_pos (by simpa using hbytes)]
    -- a name of the greatest length is ended by that
    cases n - (Bytes.ofAscii text).length <;> simp
  rw [nameAt_eq_decodeLossy, huntil, Utf8.decodeLossy_ofAscii fun c hc => (hascii c hc).2]

/-- A name that is ended by a zero byte: ASCII without zero characters, shorter than `n` bytes. -/
structure EndedName (n : ℕ) where
  text : String
  ascii : ∀ c ∈ text.toList, 0 < c.toNat ∧ c.toNat < 128
  length_lt : text.toList.length < n

namespace EndedName

variable {n : ℕ}

def write (name : EndedName n) : Bytes := Bytes.ofAscii name.text ++ [0]

lemma write_ne_nil (name : EndedName n) : name.write ≠ [] := by simp [write]

lemma nameAt_of_hasAt {name : EndedName n} {d : Bytes} {k : ℕ} (h : d.HasAt k name.write) :
    Image.nameAt d k n = name.text :=
  Image.nameAt_of_hasAt name.ascii name.length_lt.le h

end EndedName

/-! ### Records -/

namespace Reader

variable {α β : Type} {r : Reader α} {g : α → Reader β} {order : ByteOrder} {bs bs' : Bytes}
  {a : α} {b : β} {n : ℕ}

/-- In the given byte order, the reading takes exactly these bytes and gives this value, wherever
they stand in a file. -/
def Decodes (r : Reader α) (order : ByteOrder) (bs : Bytes) (a : α) : Prop :=
  ∀ front rest : Bytes, r.run ⟨front ++ (bs ++ rest), front.length, order⟩ =
    .ok (a, ⟨front ++ (bs ++ rest), front.length + bs.length, order⟩)

lemma decodes_pure (a : α) : Decodes (pure a) order [] a := fun _ _ => rfl

lemma decodes_bytes (bs : Bytes) : Decodes (bytes bs.length) order bs bs := by
  intro front rest
  have hrest : (front ++ (bs ++ rest)).drop front.length = bs ++ rest := List.drop_left
  have hlen : front.length + bs.length ≤ (front ++ (bs ++ rest)).length := by
    simp only [List.length_append]
    omega
  rw [run_bytes, if_pos hlen, Cursor.next, Bytes.slice, hrest, List.take_left]
  rfl

lemma Decodes.bind (hr : Decodes r order bs a) (hg : Decodes (g a) order bs' b) :
    Decodes (r >>= g) order (bs ++ bs') b := by
  intro front rest
  have h₁ := hr front (bs' ++ rest)
  have h₂ := hg (front ++ bs) rest
  simp only [List.append_assoc, List.length_append] at h₁ h₂ ⊢
  rw [run_bind_of_ok h₁, h₂, Nat.add_assoc]

lemma Decodes.record (hr : Decodes r order bs a) : Decodes (record r) order bs a := by
  intro front rest
  unfold Reader.record
  rw [run_get_bind, if_neg (by simp)]
  exact hr front rest

lemma decodes_name (name : FieldName n) : Decodes (bytes n) order name.write name.write := by
  have h : Decodes (bytes name.write.length) order name.write name.write := decodes_bytes _
  rwa [name.length_write] at h

lemma decodes_number (v : Field n) : Decodes (number n) order (v.write order) v.toNat := by
  intro front rest
  have h : Decodes (bytes (v.write order).length) order (v.write order) _ := decodes_bytes _
  rw [Field.length_write] at h
  unfold number
  rw [run_get_bind, run_bind_of_ok (h front rest)]
  simp only [Field.value_write]
  rfl

lemma decodes_skip (v : Field n) : Decodes (skip n) order (v.write order) () := by
  intro front rest
  have h : Decodes (bytes (v.write order).length) order (v.write order) _ := decodes_bytes _
  rw [Field.length_write] at h
  unfold skip
  rw [run_bind_of_ok (h front rest)]
  rfl

lemma decodes_u16 (v : Field 2) : Decodes u16 order (v.write order) v.toNat := decodes_number v

lemma decodes_u32 (v : Field 4) : Decodes u32 order (v.write order) v.toNat := decodes_number v

lemma decodes_word (wide : Bool) (v : Field (wordSize wide)) :
    Decodes (word wide) order (v.write order) v.toNat := decodes_number v

/-- A number that fits is read back from a field as wide as the addresses of the file. -/
lemma decodes_asWord {wide : Bool} {v : Field 8} (h : v.Fits wide) :
    Decodes (word wide) order ((v.asWord wide).write order) v.toNat := by
  have hword : Decodes (word wide) order _ _ := decodes_word wide (v.asWord wide)
  rwa [h.toNat_asWord] at hword

/-- A reading of bytes that stand at some position of a file. -/
lemma Decodes.run_of_hasAt {d : Bytes} {k : ℕ} (hr : Decodes r order bs a) (h : d.HasAt k bs)
    (hbs : bs ≠ []) : r.run ⟨d, k, order⟩ = .ok (a, ⟨d, k + bs.length, order⟩) := by
  have hle := h.le hbs
  obtain ⟨rest, hrest⟩ := h
  have hd : d = d.take k ++ (bs ++ rest) := by rw [hrest, List.take_append_drop]
  have hk : (d.take k).length = k := List.length_take_of_le (by omega)
  have hrun := hr (d.take k) rest
  rwa [hk, ← hd] at hrun

lemma Decodes.runAt_of_hasAt {d : Bytes} {k : ℕ} (hr : Decodes r order bs a) (h : d.HasAt k bs)
    (hbs : bs ≠ []) : r.runAt d k order = .ok a := by
  rw [runAt, hr.run_of_hasAt h hbs]
  rfl

lemma decodes_wideEnd (wide : Bool) (v : Field 4) (a : α) :
    Decodes (if wide then u32 >>= fun _ => pure a else pure a) order
      [if wide then v.write order else []].flatten a := by
  cases wide with
  | false => exact decodes_pure a
  | true => exact (decodes_u32 v).bind (decodes_pure a)

end Reader

end Dissect
