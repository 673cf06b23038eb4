import Mathlib
import Dissect.Image.Parse
import Dissect.Proofs.Image.Reading
import Dissect.Proofs.Image.Records

/-!
Which files can be read.

Only the fixed headers decide. The tables behind them, and the names, directories, imports and load
commands that those tables lead to, may hold anything: what cannot be read there is left out.
-/

namespace Dissect

open Reader

/-! ### Well-formed headers -/

namespace Pe

/-- Where the file says that its headers start. -/
def start (d : Bytes) : ℕ := ByteOrder.little.value (d.slice 0x3C 4)

/-- The size that the file header gives for the optional header. -/
def optionalSize (d : Bytes) : ℕ := ByteOrder.little.value (d.slice (start d + 20) 2)

/-- The number that tells the width of the optional header. -/
def optionalMagic (d : Bytes) : ℕ := ByteOrder.little.value (d.slice (start d + 24) 2)

/-- The headers of a portable executable are there, and signed as such. -/
def WellFormed (d : Bytes) : Prop :=
  0x40 ≤ d.length ∧ start d + 24 ≤ d.length ∧ d.slice (start d) 4 = [0x50, 0x45, 0, 0] ∧
    (optionalSize d < 2 ∨
      (optionalMagic d = 0x10B ∨ optionalMagic d = 0x20B) ∧ start d + 24 + 72 ≤ d.length)

instance : DecidablePred WellFormed := fun _ => inferInstanceAs (Decidable (_ ∧ _))

end Pe

namespace Elf

/-- Class and byte order are known, and the header of the class is there. -/
def WellFormed (d : Bytes) : Prop :=
  (d[4]? = some 1 ∧ 52 ≤ d.length ∨ d[4]? = some 2 ∧ 64 ≤ d.length) ∧
    (d[5]? = some 1 ∨ d[5]? = some 2)

instance : DecidablePred WellFormed := fun _ => inferInstanceAs (Decidable (_ ∧ _))

end Elf

namespace MachO

/-- The header that goes with the first four bytes is there. -/
def WellFormed (d : Bytes) : Prop :=
  (d.take 4 = [0xFE, 0xED, 0xFA, 0xCE] ∨ d.take 4 = [0xCE, 0xFA, 0xED, 0xFE]) ∧ 28 ≤ d.length ∨
    (d.take 4 = [0xFE, 0xED, 0xFA, 0xCF] ∨ d.take 4 = [0xCF, 0xFA, 0xED, 0xFE]) ∧ 32 ≤ d.length

instance : DecidablePred WellFormed := fun _ => inferInstanceAs (Decidable (_ ∨ _))

end MachO

namespace Image

/-- The fixed headers of the announced format are well formed. -/
def WellFormed (d : Bytes) : Prop :=
  match Format.detect d with
  | .pe => Pe.WellFormed d
  | .elf => Elf.WellFormed d
  | .machO => MachO.WellFormed d
  | .zip | .unknown => False

/-- The byte at a position belongs to the fixed headers of the announced format. -/
def InHeaders (d : Bytes) (n : ℕ) : Prop :=
  match Format.detect d with
  | .pe => n < 0x40 ∨ Pe.start d ≤ n ∧ n < Pe.start d + 24 + 72
  | .elf => n < 64
  | .machO => n < 32
  | .zip | .unknown => n < 4

/-- Two files of the same length that differ behind the fixed headers only. -/
def SameHeaders (d d' : Bytes) : Prop :=
  d'.length = d.length ∧ ∀ n, InHeaders d n → d'[n]? = d[n]?

end Image

/-! ### Announced formats -/

section Detect

variable {d : Bytes}

lemma of_detect_pe (h : Format.detect d = .pe) :
    ∃ x y rest, d = 0x4D :: 0x5A :: x :: y :: rest := by
  unfold Format.detect at h
  split at h <;> simp_all

lemma of_detect_elf (h : Format.detect d = .elf) :
    ∃ rest, d = 0x7F :: 0x45 :: 0x4C :: 0x46 :: rest := by
  unfold Format.detect at h
  split at h <;> simp_all

lemma of_detect_machO (h : Format.detect d = .machO) :
    ∃ rest, d = 0xFE :: 0xED :: 0xFA :: 0xCE :: rest ∨ d = 0xCE :: 0xFA :: 0xED :: 0xFE :: rest ∨
      d = 0xFE :: 0xED :: 0xFA :: 0xCF :: rest ∨ d = 0xCF :: 0xFA :: 0xED :: 0xFE :: rest := by
  unfold Format.detect at h
  split at h <;> simp_all

end Detect

/-! ### When a reading succeeds -/

/-- There is a result exactly under a condition; otherwise the file is malformed, and does end where
the error says so. -/
structure Succeeds {α : Type} (x : Except ParseError α) (d : Bytes) (P : Prop) : Prop where
  ok : P → ∃ a, x = .ok a
  error : ¬P → ∃ e, x = .error e ∧ e.isStructural ∧ e.Honest d

namespace Succeeds

variable {α β : Type} {d : Bytes} {x : Except ParseError α} {r s t : Reader α} {g : α → Reader β}
  {c : Cursor} {P Q : Prop} {n : ℕ} {f : ByteOrder → Bytes → α}

lemma congr (hx : Succeeds x d P) (h : P ↔ Q) : Succeeds x d Q := propext h ▸ hx

lemma of_error {e : ParseError} (h : x = .error e) (he : e.isStructural) (hd : e.Honest d) :
    Succeeds x d False :=
  ⟨False.elim, fun _ => ⟨e, h, he, hd⟩⟩

lemma map (hx : Succeeds x d P) (k : α → β) : Succeeds (x.map k) d P where
  ok h := by
    obtain ⟨a, rfl⟩ := hx.ok h
    exact ⟨k a, rfl⟩
  error h := by
    obtain ⟨e, rfl, he⟩ := hx.error h
    exact ⟨e, rfl, he⟩

lemma of_fixed (hr : Fixed r n) : Succeeds (r.run c) c.data (c.Has n) where
  ok hc := ⟨_, hr.choose_spec.ok c hc⟩
  error hc := hr.choose_spec.error c hc

lemma bind (hr : Reads r n f)
    (hg : Succeeds ((g (f c.order (c.next n))).run (c.advance n)) c.data P) :
    Succeeds ((r >>= g).run c) c.data (c.Has n ∧ P) where
  ok := by
    rintro ⟨hc, hP⟩
    rw [run_bind_of_ok (hr.ok c hc)]
    exact hg.ok hP
  error h := by
    by_cases hc : c.Has n
    · rw [run_bind_of_ok (hr.ok c hc)]
      exact hg.error fun hP => h ⟨hc, hP⟩
    · obtain ⟨e, he, hs⟩ := hr.error c hc
      exact ⟨e, run_bind_of_error he g, hs⟩

/-- What comes after a reading and always succeeds does not matter. -/
lemma bind_total (hr : Succeeds (r.run c) d P) (hg : ∀ a c', ∃ p, (g a).run c' = .ok p) :
    Succeeds ((r >>= g).run c) d P where
  ok h := by
    obtain ⟨⟨a, c'⟩, hp⟩ := hr.ok h
    rw [run_bind_of_ok hp]
    exact hg a c'
  error h := by
    obtain ⟨e, he, hs⟩ := hr.error h
    exact ⟨e, run_bind_of_error he g, hs⟩

lemma seek {g : Unit → Reader β} {offset : ℕ}
    (hg : Succeeds ((g ()).run { c with offset := offset }) d P) :
    Succeeds ((Reader.seek offset >>= g).run c) d P := hg

lemma get {g : Cursor → Reader β} (hg : Succeeds ((g c).run c) d P) :
    Succeeds ((MonadState.get >>= g).run c) d P := hg

/-- A check that throws. -/
lemma guard {e : ParseError} [Decidable Q] (ht : t.run c = .error e) (he : e.isStructural)
    (hd : e.Honest d) (hr : Succeeds (r.run c) d P) :
    Succeeds ((if Q then t else r).run c) d (¬Q ∧ P) where
  ok h := by
    rw [if_neg h.1]
    exact hr.ok h.2
  error h := by
    by_cases hQ : Q
    · rw [if_pos hQ]
      exact ⟨e, ht, he, hd⟩
    · rw [if_neg hQ]
      exact hr.error fun hP => h ⟨hQ, hP⟩

/-- A part that may be left out. -/
lemma ite [Decidable Q] (hr : ∃ p, r.run c = .ok p) (hs : Succeeds (s.run c) d P) :
    Succeeds ((if Q then r else s).run c) d (Q ∨ P) where
  ok h := by
    by_cases hQ : Q
    · rw [if_pos hQ]
      exact hr
    · rw [if_neg hQ]
      exact hs.ok (h.resolve_left hQ)
  error h := by
    rw [if_neg fun hQ => h (.inl hQ)]
    exact hs.error fun hP => h (.inr hP)

end Succeeds

/-! ### Portable executables -/

namespace Pe

lemma leastFirst_inj {a b : Bytes} (hlen : a.length = b.length)
    (h : ByteOrder.leastFirst a = ByteOrder.leastFirst b) : a = b := by
  induction a generalizing b with
  | nil => exact (List.length_eq_zero_iff.mp hlen.symm).symm
  | cons x xs ih =>
    cases b with
    | nil => simp at hlen
    | cons y ys =>
      simp only [ByteOrder.leastFirst] at h
      have hx := x.toNat_lt
      have hy := y.toNat_lt
      have hxy : x = y := UInt8.toNat.inj (by omega)
      rw [hxy, ih (by simpa using hlen) (by omega)]

lemma signature_iff {bs : Bytes} (hlen : bs.length = 4) :
    ByteOrder.little.value bs = signature ↔ bs = [0x50, 0x45, 0, 0] := by
  constructor
  · intro h
    exact leastFirst_inj hlen h
  · rintro rfl
    rfl

lemma succeeds_optionalFields {c : Cursor} :
    Succeeds (readOptionalFields.run c) c.data
      (c.Has 72 ∧ (c.order.value (c.next 2) = 0x10B ∨ c.order.value (c.next 2) = 0x20B)) := by
  obtain ⟨tail, htail, heq⟩ := optionalFields_eq
  rw [heq]
  refine Succeeds.congr (.bind reads_u16 (.guard rfl rfl trivial (.of_fixed (htail _)))) ?_
  have hsplit : c.Has 72 ↔ c.Has 2 ∧ (c.advance 2).Has 70 :=
    Cursor.has_add (n := 2) (m := 70)
  rw [hsplit, magic32, magic64]
  tauto

lemma succeeds_optionalHeader {c : Cursor} (size : ℕ) :
    Succeeds ((readOptionalHeader size).run c) c.data
      (c.Has 72 ∧ (c.order.value (c.next 2) = 0x10B ∨ c.order.value (c.next 2) = 0x20B)) := by
  refine .get (.bind_total succeeds_optionalFields fun fields c' => ?_)
  rw [run_get_bind]
  split <;> exact ⟨_, rfl⟩

lemma succeeds_header (d : Bytes) :
    Succeeds (readHeader.run ⟨d, 0, .little⟩) d
      (ByteOrder.little.value (d.slice 0 2) = dosMagic ∧ WellFormed d) := by
  obtain ⟨f, hf, hsize⟩ := reads_fileHeader
  unfold readHeader
  refine Succeeds.congr (.bind reads_u16 <| .guard rfl rfl trivial <| .seek <|
    .bind reads_u32 <| .seek <| .bind reads_u32 <| .guard rfl rfl trivial <| .bind hf <|
    .ite ⟨_, rfl⟩ <| .bind_total (succeeds_optionalHeader _) fun _ _ => ⟨_, rfl⟩) ?_
  -- the positions of the fields, counted from the start of the headers
  have hstart : ByteOrder.little.value (d.slice 0x3C 4) = start d := rfl
  have hsizeAt : Bytes.slice (d.slice (start d + 4) 20) 16 2 = d.slice (start d + 20) 2 :=
    Bytes.slice_slice (by decide)
  simp (disch := decide) only [Cursor.next, Cursor.advance, hsize, hstart, hsizeAt,
    Cursor.has_iff, not_not]
  unfold WellFormed optionalSize optionalMagic
  constructor
  · rintro ⟨-, hdos, hstub, hsig, hfound, hfile, hopt⟩
    refine ⟨hdos, by omega, by omega, (signature_iff (Bytes.length_slice hsig)).mp hfound, ?_⟩
    exact hopt.imp_right And.symm
  · rintro ⟨hdos, hstub, hfile, hfound, hopt⟩
    have hsig : start d + 4 ≤ d.length := by omega
    refine ⟨by omega, hdos, by omega, hsig, (signature_iff (Bytes.length_slice hsig)).mpr hfound,
      by omega, ?_⟩
    exact hopt.imp_right And.symm

lemma succeeds_parse {d : Bytes} (h : Format.detect d = .pe) :
    Succeeds (parse d) d (WellFormed d) := by
  obtain ⟨x, y, rest, rfl⟩ := of_detect_pe h
  refine (((succeeds_header _).map Prod.fst).map (imageOf _)).congr (and_iff_right ?_)
  have hmagic : Bytes.slice (0x4D :: 0x5A :: x :: y :: rest) 0 2 = [0x4D, 0x5A] := rfl
  rw [hmagic]
  decide

end Pe

/-! ### Executable and linkable format -/

namespace Elf

lemma succeeds_fields (d : Bytes) (wide : Bool) (order : ByteOrder) :
    Succeeds ((readFields wide order).runAt d 16 order) d
      (if wide then 64 ≤ d.length else 52 ≤ d.length) := by
  have h := Succeeds.of_fixed (c := ⟨d, 16, order⟩) (fixed_fields wide order)
  refine (h.map Prod.fst).congr ?_
  cases wide <;> simp [Cursor.Has]

/-- The byte order is looked at once the class is known. -/
lemma succeeds_order (d : Bytes) (wide : Bool) (b : UInt8) :
    Succeeds (orderOf? b.toNat >>= fun order => (readFields wide order).runAt d 16 order) d
      ((b = 1 ∨ b = 2) ∧ if wide then 64 ≤ d.length else 52 ≤ d.length) := by
  by_cases h1 : b = 1
  · subst h1
    exact (succeeds_fields d wide .little).congr (by simp)
  by_cases h2 : b = 2
  · subst h2
    exact (succeeds_fields d wide .big).congr (by simp)
  have herror : orderOf? b.toNat = .error (.invalidHeader (.elfEncoding b.toNat)) := by
    unfold orderOf?
    split
    · next hb => exact absurd (UInt8.toNat.inj hb) h1
    · next hb => exact absurd (UInt8.toNat.inj hb) h2
    · rfl
  rw [herror]
  exact (Succeeds.of_error rfl rfl (by trivial)).congr (by simp [h1, h2])

/-- The header, once its first sixteen bytes are there: class and byte order stand in the fifth and
the sixth of them, whatever comes behind. -/
lemma header_eq {d : Bytes} (h : Format.detect d = .elf) (hlen : 16 ≤ d.length) :
    ∃ x y, d[4]? = some x ∧ d[5]? = some y ∧ ∀ e,
      header (d ++ e) = (wideOf? x.toNat >>= fun wide => orderOf? y.toNat >>= fun order =>
        (readFields wide order).runAt (d ++ e) 16 order) := by
  obtain ⟨rest, rfl⟩ := of_detect_elf h
  match rest with
  | [] | [_] => simp at hlen
  | x :: y :: rest =>
    refine ⟨x, y, rfl, rfl, fun e => ?_⟩
    have hident : (Reader.bytes 16).runAt
        ((0x7F :: 0x45 :: 0x4C :: 0x46 :: x :: y :: rest) ++ e) 0 .little =
        .ok (0x7F :: 0x45 :: 0x4C :: 0x46 :: x :: y :: (rest ++ e).take 10) := by
      rw [runAt, run_bytes, if_pos]
      · rfl
      · simp only [List.length_append] at hlen ⊢
        omega
    unfold header
    rw [hident]
    rfl

lemma succeeds_header {d : Bytes} (h : Format.detect d = .elf) :
    Succeeds (header d) d (WellFormed d) := by
  by_cases hlen : 16 ≤ d.length
  · obtain ⟨x, y, hclass, horder, hheader⟩ := header_eq h hlen
    specialize hheader []
    rw [List.append_nil] at hheader
    rw [hheader]
    unfold WellFormed
    rw [hclass, horder]
    by_cases h1 : x = 1
    · subst h1
      exact (succeeds_order d false y).congr (by simp [and_comm])
    by_cases h2 : x = 2
    · subst h2
      exact (succeeds_order d true y).congr (by simp [and_comm])
    have herror : wideOf? x.toNat = .error (.invalidHeader (.elfClass x.toNat)) := by
      unfold wideOf?
      split
      · next hx => exact absurd (UInt8.toNat.inj hx) h1
      · next hx => exact absurd (UInt8.toNat.inj hx) h2
      · rfl
    rw [herror]
    exact (Succeeds.of_error rfl rfl (by trivial)).congr (by simp [h1, h2])
  · have herror : header d = .error (.truncated 16 d.length) := by
      unfold header
      rw [runAt, run_bytes, if_neg (by simpa using hlen)]
      rfl
    refine (Succeeds.of_error herror rfl ⟨0, by omega, rfl⟩).congr ⟨False.elim, ?_⟩
    rintro ⟨⟨-, h⟩ | ⟨-, h⟩, -⟩ <;> omega

lemma succeeds_parse {d : Bytes} (h : Format.detect d = .elf) :
    Succeeds (parse d) d (WellFormed d) := (succeeds_header h).map (imageOf d)

end Elf

/-! ### Mach-O -/

namespace MachO

lemma succeeds_imageAt (d : Bytes) (base : ℕ) (layout : Layout) :
    Succeeds (imageAt d base layout) d
      (base + (if layout.wide then 32 else 28) ≤ d.length) := by
  have h := Succeeds.of_fixed (c := ⟨d, base, layout.order⟩) (fixed_header layout.wide)
  have hpos : 0 < if layout.wide then 32 else 28 := by split <;> decide
  exact (h.map _).congr (Cursor.has_iff hpos)

lemma format_of_imageAt {d : Bytes} {base : ℕ} {layout : Layout} {i : Image}
    (h : imageAt d base layout = .ok i) : i.format = .machO := by
  unfold imageAt at h
  rcases hr : (readHeader layout.wide).run ⟨d, base, layout.order⟩ with e | ⟨header, c⟩
  · rw [hr] at h
    cases h
  · rw [hr] at h
    cases h
    rfl

/-- A file that announces a layout is read from its start. -/
lemma parse_eq_imageAt {w x y z : UInt8} {layout : Layout}
    (hlayout : layout? (ByteOrder.big.value [w, x, y, z]) = .ok layout)
    (huniversal : ByteOrder.big.value [w, x, y, z] ≠ universalMagic) (rest : Bytes) :
    parse (w :: x :: y :: z :: rest) = imageAt (w :: x :: y :: z :: rest) 0 layout := by
  have hmagic : magicAt (w :: x :: y :: z :: rest) 0 = .ok (ByteOrder.big.value [w, x, y, z]) := by
    have hc : Cursor.Has ⟨w :: x :: y :: z :: rest, 0, .big⟩ 4 := .inr (by simp)
    exact congrArg (Except.map Prod.fst) (reads_u32.ok _ hc)
  unfold parse thinAt
  rw [hmagic]
  change (if _ then _ else _) = _
  rw [if_neg huniversal]
  change (layout? _ >>= _) = _
  rw [hlayout]
  rfl

lemma parse_of_detect {d : Bytes} (h : Format.detect d = .machO) :
    ∃ layout, (∀ e, parse (d ++ e) = imageAt (d ++ e) 0 layout) ∧
      (0 + (if layout.wide then 32 else 28) ≤ d.length ↔ WellFormed d) := by
  obtain ⟨rest, rfl | rfl | rfl | rfl⟩ := of_detect_machO h
  · exact ⟨⟨false, .big⟩, fun e => parse_eq_imageAt rfl (by decide) (rest ++ e),
      by simp [WellFormed]⟩
  · exact ⟨⟨false, .little⟩, fun e => parse_eq_imageAt rfl (by decide) (rest ++ e),
      by simp [WellFormed]⟩
  · exact ⟨⟨true, .big⟩, fun e => parse_eq_imageAt rfl (by decide) (rest ++ e),
      by simp [WellFormed]⟩
  · exact ⟨⟨true, .little⟩, fun e => parse_eq_imageAt rfl (by decide) (rest ++ e),
      by simp [WellFormed]⟩

lemma succeeds_parse {d : Bytes} (h : Format.detect d = .machO) :
    Succeeds (parse d) d (WellFormed d) := by
  obtain ⟨layout, hparse, hiff⟩ := parse_of_detect h
  have hself := hparse []
  rw [List.append_nil] at hself
  rw [hself]
  exact (succeeds_imageAt d 0 layout).congr hiff

end MachO

/-! ### All formats -/

namespace Image

variable {d d' : Bytes}

lemma parse_of_detect_unknown (h : Format.detect d = .unknown) :
    parse d = .error .unknownFormat := by
  rw [parse, h]
  rfl

lemma parse_of_detect_zip (h : Format.detect d = .zip) :
    parse d = .error (.unsupportedFormat .zip) := by
  rw [parse, h]
  rfl

/-- A file of a format with headers can be read, or is malformed. -/
lemma succeeds_parse (hu : Format.detect d ≠ .unknown) (hz : Format.detect d ≠ .zip) :
    Succeeds (parse d) d (WellFormed d) := by
  unfold parse WellFormed
  rcases h : Format.detect d
  · exact Pe.succeeds_parse h
  · exact Elf.succeeds_parse h
  · exact MachO.succeeds_parse h
  · exact absurd h hz
  · exact absurd h hu

lemma format_of_parse {i : Image} (h : parse d = .ok i) : i.format = Format.detect d := by
  unfold parse at h
  rcases hf : Format.detect d <;> rw [hf] at h
  · rcases hh : Pe.header d with e | hd <;> simp [parseAs, Pe.parse, hh, Except.map] at h
    rw [← h]
    rfl
  · rcases hh : Elf.header d with e | hd <;> simp [parseAs, Elf.parse, hh, Except.map] at h
    rw [← h]
    rfl
  · obtain ⟨layout, hparse, -⟩ := MachO.parse_of_detect hf
    have hself := hparse []
    rw [List.append_nil] at hself
    exact MachO.format_of_imageAt (hself.symm.trans h)
  · cases h
  · cases h

/-! ### What the headers leave open -/

lemma detect_take (d : Bytes) : Format.detect (d.take 4) = Format.detect d := by
  match d with
  | [] | [_] | [_, _] | [_, _, _] => rfl
  | w :: x :: y :: z :: rest =>
    change Format.detect [w, x, y, z] = _
    unfold Format.detect
    grind

lemma slice_congr {k n : ℕ} (h : ∀ i, k ≤ i → i < k + n → d'[i]? = d[i]?) :
    Bytes.slice d' k n = d.slice k n := by
  refine List.ext_getElem? fun i => ?_
  simp only [Bytes.slice, List.getElem?_take, List.getElem?_drop]
  split
  · exact h (k + i) (by omega) (by omega)
  · rfl

lemma SameHeaders.take_eq (h : SameHeaders d d') : d'.take 4 = d.take 4 := by
  refine slice_congr (k := 0) fun i _ hi => h.2 i ?_
  unfold InHeaders
  split <;> omega

lemma SameHeaders.detect_eq (h : SameHeaders d d') : Format.detect d' = Format.detect d := by
  rw [← detect_take d', h.take_eq, detect_take]

lemma wellFormed_pe_congr (hlen : d'.length = d.length)
    (h : ∀ n, n < 0x40 ∨ Pe.start d ≤ n ∧ n < Pe.start d + 24 + 72 → d'[n]? = d[n]?) :
    Pe.WellFormed d' ↔ Pe.WellFormed d := by
  have hstart : Pe.start d' = Pe.start d := by
    rw [Pe.start, Pe.start, slice_congr fun i h1 h2 => h i (by omega)]
  have hslice {k n : ℕ} (hk : k + n ≤ 24 + 72) :
      Bytes.slice d' (Pe.start d + k) n = d.slice (Pe.start d + k) n :=
    slice_congr fun i h1 h2 => h i (by omega)
  have hsize : Pe.optionalSize d' = Pe.optionalSize d := by
    rw [Pe.optionalSize, Pe.optionalSize, hstart, hslice (by decide)]
  have hmagic : Pe.optionalMagic d' = Pe.optionalMagic d := by
    rw [Pe.optionalMagic, Pe.optionalMagic, hstart, hslice (by decide)]
  have hsigned : Bytes.slice d' (Pe.start d) 4 = d.slice (Pe.start d) 4 :=
    hslice (k := 0) (by decide)
  rw [Pe.WellFormed, Pe.WellFormed, hlen, hstart, hsize, hmagic, hsigned]

lemma SameHeaders.wellFormed_iff (h : SameHeaders d d') : WellFormed d' ↔ WellFormed d := by
  have htake := h.take_eq
  obtain ⟨hlen, hsame⟩ := h
  unfold WellFormed
  rw [SameHeaders.detect_eq ⟨hlen, hsame⟩]
  unfold InHeaders at hsame
  rcases hf : Format.detect d <;> simp only [hf] at hsame ⊢
  · exact wellFormed_pe_congr hlen hsame
  · rw [Elf.WellFormed, Elf.WellFormed, hlen, hsame 4 (by decide), hsame 5 (by decide)]
  · rw [MachO.WellFormed, MachO.WellFormed, hlen, htake]

lemma exists_parse_iff : (∃ i, parse d = .ok i) ↔ WellFormed d := by
  by_cases hu : Format.detect d = .unknown
  · simp [parse_of_detect_unknown hu, WellFormed, hu]
  by_cases hz : Format.detect d = .zip
  · simp [parse_of_detect_zip hz, WellFormed, hz]
  have h := succeeds_parse hu hz
  refine ⟨fun ⟨i, hi⟩ => ?_, h.ok⟩
  by_contra hn
  obtain ⟨e, he, -⟩ := h.error hn
  simp [hi] at he

lemma error_of_parse {e : ParseError} (hu : Format.detect d ≠ .unknown)
    (hz : Format.detect d ≠ .zip) (h : parse d = .error e) : e.isStructural ∧ e.Honest d := by
  have hn : ¬WellFormed d := by
    rw [← exists_parse_iff, h]
    simp
  obtain ⟨e', he, hs⟩ := (succeeds_parse hu hz).error hn
  rw [h] at he
  cases he
  exact hs

lemma honest_of_parse {e : ParseError} (h : parse d = .error e) : e.Honest d := by
  by_cases hu : Format.detect d = .unknown
  · rw [parse_of_detect_unknown hu] at h
    cases h
    trivial
  by_cases hz : Format.detect d = .zip
  · rw [parse_of_detect_zip hz] at h
    cases h
    trivial
  exact (error_of_parse hu hz h).2

/-- A field is read exactly when it lies in the file. -/
lemma run_bytes_eq_ok_iff {d bs : Bytes} {offset n : ℕ} {order : ByteOrder} {c : Cursor} :
    (Reader.bytes n).run ⟨d, offset, order⟩ = .ok (bs, c) ↔
      offset + n ≤ d.length ∧ bs = d.slice offset n ∧ c = ⟨d, offset + n, order⟩ := by
  rw [run_bytes]
  by_cases h : offset + n ≤ d.length
  · rw [if_pos h]
    constructor
    · rintro ⟨⟩
      exact ⟨h, rfl, rfl⟩
    · rintro ⟨-, rfl, rfl⟩
      rfl
  · rw [if_neg h]
    exact ⟨nofun, fun hread => absurd hread.1 h⟩

/-- **Only the fixed headers decide whether a file can be read.** A file without a known format, or
with one that has no headers to read, is refused as such; any other is read exactly when its headers
are well formed, and is malformed otherwise. What stands behind the headers has no part in this. No
field is read that the file does not hold, and an error that says where the file ends is right. -/
theorem parse_acceptance (d : Bytes) :
    (parse d = .error .unknownFormat ↔ Format.detect d = .unknown) ∧
    (parse d = .error (.unsupportedFormat .zip) ↔ Format.detect d = .zip) ∧
    (Format.detect d ≠ .unknown ∧ Format.detect d ≠ .zip →
      ((∃ i, parse d = .ok i ∧ i.format = Format.detect d) ↔ WellFormed d) ∧
      (¬WellFormed d → ∃ e, parse d = .error e ∧ e.isStructural)) ∧
    (∀ d', SameHeaders d d' → ((∃ i, parse d' = .ok i) ↔ ∃ i, parse d = .ok i)) ∧
    (∀ e, parse d = .error e → e.Honest d) ∧
    ∀ offset order n bs c, (Reader.bytes n).run ⟨d, offset, order⟩ = .ok (bs, c) ↔
      offset + n ≤ d.length ∧ bs = d.slice offset n ∧ c = ⟨d, offset + n, order⟩ := by
  refine ⟨⟨fun h => ?_, parse_of_detect_unknown⟩, ⟨fun h => ?_, parse_of_detect_zip⟩, ?_, ?_,
    fun e => honest_of_parse, fun offset order n bs c => run_bytes_eq_ok_iff⟩
  · by_contra hu
    by_cases hz : Format.detect d = .zip
    · simp [parse_of_detect_zip hz] at h
    · exact absurd (error_of_parse hu hz h).1 (by decide)
  · by_contra hz
    by_cases hu : Format.detect d = .unknown
    · simp [parse_of_detect_unknown hu] at h
    · exact absurd (error_of_parse hu hz h).1 (by decide)
  · rintro ⟨hu, hz⟩
    refine ⟨?_, fun hn => ?_⟩
    · rw [← exists_parse_iff]
      exact exists_congr fun i => and_iff_left_of_imp format_of_parse
    · obtain ⟨e, he, hs, -⟩ := (succeeds_parse hu hz).error hn
      exact ⟨e, he, hs⟩
  · intro d' h
    rw [exists_parse_iff, exists_parse_iff, h.wellFormed_iff]

-- the shortest files of each format, of which the last byte is needed
example : (parse ([0x4D, 0x5A] ++ .replicate 58 0 ++ [0x40, 0, 0, 0, 0x50, 0x45, 0, 0] ++
    .replicate 20 0)).isOk := by decide +kernel

example : (parse ([0x7F, 0x45, 0x4C, 0x46, 1, 1] ++ .replicate 46 0)).isOk ∧
    (parse ([0x7F, 0x45, 0x4C, 0x46, 2, 2] ++ .replicate 58 0)).isOk := by decide +kernel

example : (parse ([0xFE, 0xED, 0xFA, 0xCE] ++ .replicate 24 0)).isOk ∧
    (parse ([0xCF, 0xFA, 0xED, 0xFE] ++ .replicate 28 0)).isOk := by decide +kernel

example : (parse ([0xFE, 0xED, 0xFA, 0xCE] ++ .replicate 23 0)) = .error (.truncated 4 3) := by
  decide +kernel

end Image

end Dissect
