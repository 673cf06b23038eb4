import Mathlib
import Dissect.Proofs.Image.Acceptance
import Dissect.Proofs.Image.Records
import Dissect.Proofs.Word

/-!
Where the headers of a portable executable have their fields.

A file that can be read is read at fixed distances from the start of its headers. The width of the
optional header decides where the image base stands, and where the data directories start. Of the
directories there are as many as the header counts, at most sixteen, and no more than fit into its
size; if the end of the file cuts one of these, there are none.
-/

namespace Dissect

/-! ### Addresses in sections -/

namespace Section

/-- The address lies in the section's range of memory, which may go on past the largest address. -/
def Covers (s : Section) (rva : ℕ) : Prop :=
  s.virtualAddress.toNat ≤ rva ∧ rva < s.virtualAddress.toNat + s.virtualSize.toNat

instance (s : Section) (rva : ℕ) : Decidable (s.Covers rva) := inferInstanceAs (Decidable (_ ∧ _))

lemma containsRva_iff {s : Section} {rva : UInt64} : s.containsRva rva ↔ s.Covers rva.toNat := by
  unfold containsRva Covers
  rw [Bool.and_eq_true, decide_eq_true_iff, decide_eq_true_iff, UInt64.le_iff_toNat_le,
    UInt64.lt_iff_toNat_lt]
  refine and_congr_right fun hle => ?_
  rw [UInt64.toNat_sub_of_le _ _ (UInt64.le_iff_toNat_le.mpr hle)]
  omega

end Section

/-- The section that an address lies in. -/
lemma Image.sectionContaining_eq (i : Image) (rva : UInt64) :
    i.sectionContaining rva = i.sections.find? fun s => s.Covers rva.toNat := by
  refine congrArg (List.find? · i.sections) (funext fun s => ?_)
  rw [Bool.eq_iff_iff, Section.containsRva_iff, decide_eq_true_iff]

namespace Pe

open Reader

variable {d : Bytes}

/-! ### Fields by their position -/

/-- The number in `n` bytes of the file, as far as they are there. -/
def numberAt (d : Bytes) (k n : ℕ) : ℕ := ByteOrder.little.value (d.slice k n)

lemma numberAt_lt (d : Bytes) (k n : ℕ) : numberAt d k n < 256 ^ n :=
  ByteOrder.little.value_slice_lt d k n

/-- Addresses have 64 bits. -/
def Wide (d : Bytes) : Prop := optionalMagic d = 0x20B

instance : DecidablePred Wide := fun _ => inferInstanceAs (Decidable (_ = _))

/-- Where execution starts, counted from the image base. -/
def entryField (d : Bytes) : ℕ := numberAt d (start d + 40) 4

/-- Where the image is loaded. -/
def baseField (d : Bytes) : ℕ :=
  if Wide d then numberAt d (start d + 48) 8 else numberAt d (start d + 52) 4

/-- Where the data directories start. -/
def directoryStart (d : Bytes) : ℕ := start d + 24 + if Wide d then 112 else 96

/-- The number of data directories that the header counts and has room for. -/
def directoryCount (d : Bytes) : ℕ :=
  min (min (numberAt d (directoryStart d - 4) 4) 16)
    ((start d + 24 + optionalSize d - directoryStart d) / 8)

/-- Address and size of the data directory at a position. -/
def directoryAt (d : Bytes) (k : ℕ) : ℕ × ℕ := (numberAt d k 4, numberAt d (k + 4) 4)

/-- All data directories; none if the end of the file cuts one of them. -/
def directoryList (d : Bytes) : List (ℕ × ℕ) :=
  if directoryStart d + 8 * directoryCount d ≤ d.length then
    (List.range (directoryCount d)).map fun j => directoryAt d (directoryStart d + 8 * j)
  else []

lemma entryField_lt (d : Bytes) : entryField d < 2 ^ 32 := numberAt_lt d _ 4

lemma baseField_lt (d : Bytes) : baseField d < 2 ^ 64 := by
  unfold baseField
  split
  · exact numberAt_lt d _ 8
  · exact (numberAt_lt d _ 4).trans (by decide)

lemma baseField_lt_of_not_wide (h : ¬Wide d) : baseField d < 2 ^ 32 := by
  rw [baseField, if_neg h]
  exact numberAt_lt d _ 4

/-! ### The data directories -/

/-- One directory, if the file holds it. -/
lemma run_directory (d : Bytes) (k : ℕ) (g : ℕ → ℕ → Reader (List (ℕ × ℕ))) :
    (k + 8 ≤ d.length → (u32 >>= fun rva => u32 >>= fun size => g rva size).run ⟨d, k, .little⟩ =
      (g (directoryAt d k).1 (directoryAt d k).2).run ⟨d, k + 8, .little⟩) ∧
    (d.length < k + 8 → ∃ e,
      (u32 >>= fun rva => u32 >>= fun size => g rva size).run ⟨d, k, .little⟩ = .error e) := by
  have hpair : Reads (u32 >>= fun rva => u32 >>= fun size => pure (rva, size)) 8 _ :=
    reads_u32.bind fun rva => reads_u32.bind fun size => reads_pure (rva, size)
  have hassoc : (u32 >>= fun rva => u32 >>= fun size => g rva size) =
      ((u32 >>= fun rva => u32 >>= fun size => pure (rva, size)) >>= fun p => g p.1 p.2) := by
    simp only [bind_assoc, pure_bind]
  rw [hassoc]
  constructor
  · intro h
    rw [run_bind_of_ok (hpair.ok _ (.inr h))]
    simp [Cursor.next, Cursor.advance, directoryAt, numberAt, Bytes.slice, List.take_take,
      List.drop_take, List.drop_drop]
  · intro h
    obtain ⟨e, he, -⟩ := hpair.error ⟨d, k, .little⟩ (by
      rw [Cursor.has_iff (by decide)]
      exact Nat.not_le.mpr h)
    exact ⟨e, run_bind_of_error he _⟩

/-- The table has the directories that are counted and that end before the limit. -/
lemma run_directoryTable (d : Bytes) (limit count k : ℕ) {m : ℕ}
    (hm : m = min count ((limit - k) / 8)) (hk : k ≤ d.length) :
    (k + 8 * m ≤ d.length → ∃ c, (readDirectoryTable limit count).run ⟨d, k, .little⟩ =
      .ok ((List.range m).map fun j => directoryAt d (k + 8 * j), c)) ∧
    (d.length < k + 8 * m → ∃ e,
      (readDirectoryTable limit count).run ⟨d, k, .little⟩ = .error e) := by
  induction count generalizing k m with
  | zero =>
    rw [Nat.zero_min] at hm
    subst hm
    exact ⟨fun _ => ⟨_, rfl⟩, fun h => absurd h (by omega)⟩
  | succ count ih =>
    unfold readDirectoryTable
    rw [run_get_bind]
    dsimp only
    by_cases hlimit : limit < k + 8
    · rw [if_pos hlimit]
      have hzero : m = 0 := by omega
      subst hzero
      exact ⟨fun _ => ⟨_, rfl⟩, fun h => absurd h (by omega)⟩
    · rw [if_neg hlimit]
      obtain ⟨hthere, hcut⟩ := run_directory d k fun rva size => do
        let rest ← readDirectoryTable limit count
        return (rva, size) :: rest
      obtain ⟨m, rfl⟩ : ∃ m', m = m' + 1 := ⟨m - 1, by omega⟩
      by_cases hlen : k + 8 ≤ d.length
      · obtain ⟨hok, herror⟩ := ih (k + 8) (m := m) (by omega) hlen
        rw [hthere hlen]
        constructor
        · intro h
          obtain ⟨c, hc⟩ := hok (by omega)
          refine ⟨c, ?_⟩
          have hlist : (List.range (m + 1)).map (fun j => directoryAt d (k + 8 * j)) =
              directoryAt d k :: (List.range m).map fun j => directoryAt d (k + 8 + 8 * j) := by
            rw [List.range_succ_eq_map, List.map_cons, List.map_map]
            refine congrArg _ (List.map_congr_left fun j _ => ?_)
            change directoryAt d (k + 8 * (j + 1)) = directoryAt d (k + 8 + 8 * j)
            rw [Nat.mul_succ, Nat.add_assoc, Nat.add_comm 8]
          rw [run_bind_of_ok hc, hlist]
          rfl
        · intro h
          obtain ⟨e, he⟩ := herror (by omega)
          exact ⟨e, run_bind_of_error he _⟩
      · exact ⟨fun h => absurd h (by omega), fun _ => hcut (by omega)⟩

/-- The count stands in front of the table. -/
lemma run_directories (d : Bytes) (wide : Bool) (limit k : ℕ) {p : ℕ}
    (hp : p = k + (if wide then 32 else 16) + 8) :
    (p ≤ d.length → (readDirectories wide limit).run ⟨d, k, .little⟩ =
      (readDirectoryTable limit (min (numberAt d (p - 4) 4) 16)).run ⟨d, p, .little⟩) ∧
    (d.length < p → ∃ e, (readDirectories wide limit).run ⟨d, k, .little⟩ = .error e) := by
  have hcount : Reads (skip (if wide then 32 else 16) >>= fun _ => skip 4 >>= fun _ => u32) _ _ :=
    (reads_skip (by split <;> decide)).bind fun _ =>
      (reads_skip (by decide)).bind fun _ => reads_u32
  have hassoc : readDirectories wide limit =
      ((skip (if wide then 32 else 16) >>= fun _ => skip 4 >>= fun _ => u32) >>= fun count =>
        readDirectoryTable limit (min count 16)) := by
    simp only [readDirectories, bind_assoc]
  rw [hassoc]
  constructor
  · intro h
    rw [run_bind_of_ok (hcount.ok _ (.inr (by simp only; omega)))]
    simp only [Cursor.next, Cursor.advance, Bytes.drop_slice, hp, numberAt]
    rfl
  · intro h
    obtain ⟨e, he, -⟩ := hcount.error ⟨d, k, .little⟩ (by
      rw [Cursor.has_iff (by omega)]
      simp only
      omega)
    exact ⟨e, run_bind_of_error he _⟩

/-- The directories are found if the file holds their count and all of them. -/
lemma run_directories_eq (d : Bytes) :
    let found := (readDirectories (decide (Wide d)) (start d + 24 + optionalSize d)).run
      ⟨d, start d + 24 + 72, .little⟩
    (∃ c, found = .ok (directoryList d, c)) ∨ (∃ e, found = .error e) ∧ directoryList d = [] := by
  obtain ⟨htable, hshort⟩ := run_directories d (decide (Wide d)) (start d + 24 + optionalSize d)
    (start d + 24 + 72) (p := directoryStart d) (by
      unfold directoryStart
      split <;> simp_all)
  unfold directoryList
  by_cases hstart : directoryStart d ≤ d.length
  · obtain ⟨hok, herror⟩ := run_directoryTable d (start d + 24 + optionalSize d)
      (min (numberAt d (directoryStart d - 4) 4) 16) (directoryStart d)
      (m := directoryCount d) rfl hstart
    rw [htable hstart]
    by_cases hall : directoryStart d + 8 * directoryCount d ≤ d.length
    · rw [if_pos hall]
      exact .inl (hok hall)
    · rw [if_neg hall]
      exact .inr ⟨herror (by omega), rfl⟩
  · rw [if_neg (by omega)]
    exact .inr ⟨hshort (by omega), rfl⟩

/-! ### The optional header -/

/-- Where the fields of an optional header stand that was read. -/
lemma optionalFields_of_run {c c' : Cursor} {o : OptionalHeader}
    (h : readOptionalFields.run c = .ok (o, c')) :
    o.magic = c.order.value (c.data.slice c.offset 2) ∧
    o.entryRva = c.order.value (c.data.slice (c.offset + 16) 4) ∧
    o.imageBase = (if o.magic = magic64 then c.order.value (c.data.slice (c.offset + 24) 8)
      else c.order.value (c.data.slice (c.offset + 28) 4)) ∧
    o.directories = [] ∧ c' = c.advance 72 := by
  obtain ⟨tail, htail, heq⟩ := reads_optionalFields
  rw [heq] at h
  obtain ⟨magic, c₁, h₁, h₂⟩ := run_bind_eq_ok.mp h
  obtain ⟨-, rfl, rfl⟩ := reads_u16.of_run h₁
  split at h₂
  · cases h₂
  obtain ⟨f, hf, hfields⟩ := htail (c.order.value (c.next 2))
  obtain ⟨-, rfl, rfl⟩ := hf.of_run h₂
  obtain ⟨hmagic, hentry, hbase, hdirectories⟩ :=
    hfields (c.advance 2).order ((c.advance 2).next 70)
  have hslice {i j : ℕ} (hij : i + j ≤ 70) : Bytes.slice ((c.advance 2).next 70) i j =
      c.data.slice (c.offset + 2 + i) j := Bytes.slice_slice hij
  rw [hslice (by decide)] at hentry
  rw [hslice (by decide), hslice (by decide)] at hbase
  refine ⟨hmagic, hentry, ?_, hdirectories, Cursor.advance_advance c 2 70⟩
  rw [hmagic]
  exact hbase

/-- The directories are those that are found behind the other fields. -/
lemma optionalHeader_of_run {size : ℕ} {c c' : Cursor} {o : OptionalHeader}
    (h : (readOptionalHeader size).run c = .ok (o, c')) :
    ∃ fields, readOptionalFields.run c = .ok (fields, c') ∧
      ((∃ ds c'', (readDirectories fields.isWide (c.offset + size)).run c' = .ok (ds, c'') ∧
        o = { fields with directories := ds }) ∨
      (∃ e, (readDirectories fields.isWide (c.offset + size)).run c' = .error e) ∧ o = fields) := by
  unfold readOptionalHeader at h
  rw [run_get_bind] at h
  obtain ⟨fields, c₁, hfields, h⟩ := run_bind_eq_ok.mp h
  rw [run_get_bind] at h
  split at h
  · next ds c'' hds =>
    cases h
    exact ⟨fields, hfields, .inl ⟨ds, c'', hds, rfl⟩⟩
  · next e he =>
    cases h
    exact ⟨_, hfields, .inr ⟨⟨e, he⟩, rfl⟩⟩

/-- The fields of an optional header that starts at the end of the file header. -/
lemma optionalHeader_fields {o : OptionalHeader} {c : Cursor}
    (h : (readOptionalHeader (optionalSize d)).run ⟨d, start d + 24, .little⟩ = .ok (o, c)) :
    o.entryRva = entryField d ∧ o.imageBase = baseField d ∧ o.directories = directoryList d := by
  obtain ⟨fields, hrun, hdirectories⟩ := optionalHeader_of_run h
  obtain ⟨hmagic, hentry, hbase, hnone, rfl⟩ := optionalFields_of_run hrun
  have hwide : fields.isWide = decide (Wide d) := by
    rw [OptionalHeader.isWide, hmagic]
    rfl
  have hbase : fields.imageBase = baseField d := by
    rw [hbase, hmagic]
    rfl
  rw [hwide] at hdirectories
  rcases hdirectories with ⟨ds, c', hds, rfl⟩ | ⟨⟨e, he⟩, rfl⟩
  · refine ⟨hentry, hbase, ?_⟩
    rcases run_directories_eq d with ⟨c'', hfound⟩ | ⟨⟨e, herror⟩, -⟩
    · exact (Prod.mk.inj (Except.ok.inj (hds.symm.trans hfound))).1
    · cases hds.symm.trans herror
  · refine ⟨hentry, hbase, hnone.trans ?_⟩
    rcases run_directories_eq d with ⟨c'', hfound⟩ | ⟨-, hempty⟩
    · cases he.symm.trans hfound
    · exact hempty.symm

/-! ### All headers -/

/-- The optional header of a file that can be read: the one behind the file header, or none. -/
lemma optional_of_header {h : Header} (hd : header d = .ok h) :
    optionalSize d < 2 ∧ h.optional = {} ∨
    2 ≤ optionalSize d ∧ ∃ c, (readOptionalHeader (optionalSize d)).run
      ⟨d, start d + 24, .little⟩ = .ok (h.optional, c) := by
  obtain ⟨f, hf, hsize⟩ := reads_fileHeader
  unfold header runAt at hd
  rcases hrun : readHeader.run ⟨d, 0, .little⟩ with e | ⟨h', c'⟩ <;> rw [hrun] at hd
  · cases hd
  cases hd
  unfold readHeader at hrun
  obtain ⟨magic, c₁, h₁, hrun⟩ := run_bind_eq_ok.mp hrun
  obtain ⟨-, -, hc₁⟩ := reads_u16.of_run h₁
  subst hc₁
  split at hrun
  · cases hrun
  rw [run_seek_bind] at hrun
  obtain ⟨position, c₂, h₂, hrun⟩ := run_bind_eq_ok.mp hrun
  obtain ⟨-, hposition, hc₂⟩ := reads_u32.of_run h₂
  change position = start d at hposition
  subst hposition hc₂
  rw [run_seek_bind] at hrun
  obtain ⟨found, c₃, h₃, hrun⟩ := run_bind_eq_ok.mp hrun
  obtain ⟨-, -, hc₃⟩ := reads_u32.of_run h₃
  change c₃ = ⟨d, start d + 4, .little⟩ at hc₃
  subst hc₃
  split at hrun
  · cases hrun
  obtain ⟨file, c₄, h₄, hrun⟩ := run_bind_eq_ok.mp hrun
  obtain ⟨-, hfile, hc₄⟩ := hf.of_run h₄
  change c₄ = ⟨d, start d + 24, .little⟩ at hc₄
  subst hc₄
  have hoptional : file.optionalSize = optionalSize d := by
    have hslice : Bytes.slice (d.slice (start d + 4) 20) 16 2 = d.slice (start d + 20) 2 :=
      Bytes.slice_slice (by decide)
    rw [hfile, hsize]
    exact congrArg ByteOrder.little.value hslice
  dsimp only at hrun
  split at hrun
  · cases hrun
    exact .inl ⟨by omega, rfl⟩
  · obtain ⟨optional, c₅, h₅, hrun⟩ := run_bind_eq_ok.mp hrun
    cases hrun
    rw [hoptional] at h₅
    exact .inr ⟨by omega, _, h₅⟩

/-- The data directories of a file that can be read. -/
lemma directories_of_header {h : Header} (hd : header d = .ok h) :
    h.optional.directories = directoryList d := by
  rcases optional_of_header hd with ⟨hsize, hoptional⟩ | ⟨-, c, hrun⟩
  · -- without an optional header there is no room for directories
    have hcount : directoryCount d = 0 := by
      unfold directoryCount directoryStart
      split <;> omega
    simp [hoptional, directoryList, hcount]
  · exact (optionalHeader_fields hrun).2.2

/-- An image comes from headers that can be read. -/
lemma exists_header_of_parse {i : Image} (hi : parse d = .ok i) :
    ∃ h, header d = .ok h ∧ i = imageOf d h := by
  unfold parse at hi
  rcases hd : header d with e | h <;> rw [hd] at hi
  · cases hi
  · cases hi
    exact ⟨h, rfl, rfl⟩

end Pe

end Dissect
