import Mathlib
import Dissect.Strings.Extract
import Dissect.Proofs.Decimal.Ratio
import Dissect.Proofs.Strings.Runs
import Dissect.Proofs.Text.Sorted

/-!
Extraction finds the texts of a file and nothing else.

A text is said here in the bytes of the file, without a scan: printable characters in a row, in one
of the two encodings, with none before or behind that would make it longer. Both lists, the texts
and their places, are those of an accepted length that are no dump of hexadecimal digits. The other
tests of a text never fail: a run of printable characters has no control character, and its share of
printable characters is one.
-/

namespace Dissect.Strings

namespace Encoding

/-- The number of bytes of a unit. -/
def width : Encoding → ℕ
  | ascii => 1
  | utf16 => 2

/-- The unit that starts at a position. -/
def unitAt? (data : Bytes) : Encoding → ℕ → Option ℕ
  | ascii, i => data[i]?.map (·.toNat)
  | utf16, i => do
    let low ← data[i]?
    let high ← data[i + 1]?
    return low.toNat + 256 * high.toNat

/-- The characters of 16-bit units. Two units of the range of surrogates are one character, and such
a unit alone is none. -/
def chars16? : List ℕ → Option (List Char)
  | [] => some []
  | u :: us =>
    if u < 0xD800 ∨ 0xE000 ≤ u then (chars16? us).map (Char.ofNat u :: ·)
    else match us with
      | [] => none
      | v :: us =>
        if u < 0xDC00 ∧ 0xDC00 ≤ v ∧ v < 0xE000 then
          (chars16? us).map (Char.ofNat (0x10000 + 0x400 * (u - 0xD800) + (v - 0xDC00)) :: ·)
        else none

/-- The text that a byte string holds. -/
def decode? : Encoding → Bytes → Option String
  | ascii, bs =>
    if ∀ b ∈ bs, b < 0x80 then some (String.ofList (bs.map fun b => Char.ofNat b.toNat)) else none
  | utf16, bs => if 2 ∣ bs.length then (chars16? (units16 bs)).map String.ofList else none

end Encoding

/-- A text of a byte string: printable characters in a row from an aligned position on, with no
further one on either side. -/
structure IsText (data : Bytes) (enc : Encoding) (start : ℕ) (text : String) : Prop where
  aligned : enc.width ∣ start
  ne_empty : text ≠ ""
  units : ∀ i c, text.toList[i]? = some c →
    enc.unitAt? data (start + enc.width * i) = some c.toNat ∧ isPrintable c.toNat
  left : ∀ u, enc.width ≤ start → enc.unitAt? data (start - enc.width) = some u → ¬isPrintable u
  right : ∀ u, enc.unitAt? data (start + enc.width * text.length) = some u → ¬isPrintable u

/-- The texts that are worth a report. -/
structure Accepts (settings : TextSettings) (text : String) : Prop where
  min_le : settings.minLength ≤ text.length
  le_max : text.length ≤ settings.maxLength
  not_dump : ¬(8 ≤ text.length ∧ ∀ c ∈ text.toList, isHexDigit c)

/-- The accepted texts of a byte string. -/
def texts (settings : TextSettings) (data : Bytes) : Set String :=
  {text | Accepts settings text ∧ ∃ enc start, IsText data enc start text}

/-- What the two lists of a file are to hold. -/
structure IsExtraction (settings : TextSettings) (data : Bytes) (image : Option Image)
    (values : List String) (places : List Occurrence) : Prop where
  mem_values : ∀ text, text ∈ values ↔ text ∈ texts settings data ∨
    ∃ i ∈ image, ∃ s ∈ i.sections, isTextSection i.format s.name ∧
      text ∈ texts settings (s.data data)
  increasing : values.Pairwise (· < ·)
  mem_places : ∀ enc start text,
    (∃ o ∈ places, o.encoding = enc ∧ o.offset = start ∧ o.value = text) ↔
      Accepts settings text ∧ IsText data enc start text
  sorted : places.Pairwise fun o p => o.offset ≤ p.offset
  inside : ∀ o ∈ places, o.offset + o.length ≤ data.length
  decoded : ∀ o ∈ places, o.encoding.decode? (data.slice o.offset o.length) = some o.value

/-! ### Units -/

namespace Encoding

/-- The units of a byte string. -/
def units (data : Bytes) : Encoding → List ℕ
  | ascii => data.map (·.toNat)
  | utf16 => units16 data

lemma width_pos (enc : Encoding) : 0 < enc.width := by cases enc <;> decide

lemma getElem?_units16 (data : Bytes) (i : ℕ) :
    (units16 data)[i]? = utf16.unitAt? data (2 * i) := by
  induction data using units16.induct generalizing i with
  | case1 low high rest ih =>
    rcases i with _ | i
    · rfl
    · rw [units16, List.getElem?_cons_succ, ih]
      rfl
  | case2 data hshort =>
    rcases data with _ | ⟨low, _ | ⟨high, rest⟩⟩
    · rfl
    · rcases i with _ | i <;> simp [units16, unitAt?]
    · exact (hshort low high rest rfl).elim

lemma getElem?_units (enc : Encoding) (data : Bytes) (i : ℕ) :
    (enc.units data)[i]? = enc.unitAt? data (enc.width * i) := by
  cases enc with
  | ascii => simp [units, unitAt?, width]
  | utf16 => exact getElem?_units16 data i

lemma width_mul_length_units (enc : Encoding) (data : Bytes) :
    enc.width * (enc.units data).length ≤ data.length := by
  cases enc with
  | ascii => simp [units, width]
  | utf16 =>
    show 2 * (units16 data).length ≤ data.length
    induction data using units16.induct with
    | case1 low high rest ih =>
      simp only [units16, List.length_cons]
      omega
    | case2 data hshort => simp [units16.eq_2 data hshort]

lemma units_drop (enc : Encoding) (data : Bytes) (k : ℕ) :
    enc.units (data.drop (enc.width * k)) = (enc.units data).drop k := by
  refine List.ext_getElem? fun i => ?_
  rw [List.getElem?_drop, getElem?_units, getElem?_units]
  cases enc <;> simp [unitAt?, width, Nat.mul_add, Nat.add_assoc]

lemma units_take (enc : Encoding) (data : Bytes) (n : ℕ) :
    enc.units (data.take (enc.width * n)) = (enc.units data).take n := by
  refine List.ext_getElem? fun i => ?_
  rw [List.getElem?_take, getElem?_units, getElem?_units]
  cases enc with
  | ascii =>
    simp only [unitAt?, width, one_mul, List.getElem?_take]
    split <;> rfl
  | utf16 =>
    have hboth : 2 * i + 1 < 2 * n ↔ i < n := by omega
    have hlow : 2 * i < 2 * n ↔ i < n := by omega
    simp only [unitAt?, width, List.getElem?_take, hboth, hlow]
    split <;> rfl

lemma chars16?_of_lt {us : List ℕ} (h : ∀ u ∈ us, u < 0xD800) :
    chars16? us = some (us.map Char.ofNat) := by
  induction us with
  | nil => rfl
  | cons u us ih =>
    obtain ⟨hu, hus⟩ := List.forall_mem_cons.mp h
    unfold chars16?
    rw [if_pos (.inl hu), ih hus]
    rfl

/-- The units of ASCII characters are decoded one by one. -/
lemma decode?_of_units {enc : Encoding} {bs : Bytes} (hwhole : enc.width ∣ bs.length)
    (h : ∀ u ∈ enc.units bs, u < 0x80) : enc.decode? bs = some (textOf (enc.units bs)) := by
  cases enc with
  | ascii =>
    have hbytes : ∀ b ∈ bs, b < 0x80 := fun b hb => h b.toNat (List.mem_map_of_mem hb)
    simp [decode?, units, textOf, if_pos hbytes, Function.comp_def]
  | utf16 =>
    have heven : 2 ∣ bs.length := hwhole
    have hchars : chars16? (units16 bs) = some ((units16 bs).map Char.ofNat) :=
      chars16?_of_lt fun u hu => (h u hu).trans (by decide)
    rw [decode?, if_pos heven, hchars]
    rfl

end Encoding

lemma lt_of_isPrintable {u : ℕ} (h : isPrintable u) : u < 0x80 := by
  rw [isPrintable, Bool.and_eq_true, decide_eq_true_eq, decide_eq_true_eq] at h
  omega

lemma toNat_ofNat {u : ℕ} (h : u < 0x80) : (Char.ofNat u).toNat = u := by
  rw [Char.ofNat, dif_pos (.inl (h.trans (by decide)))]
  rfl

/-- The character of a printable unit has its code. -/
lemma getElem?_toList_textOf {run : List ℕ} (h : ∀ u ∈ run, isPrintable u) {i : ℕ} {c : Char}
    (hc : (textOf run).toList[i]? = some c) : run[i]? = some c.toNat ∧ isPrintable c.toNat := by
  rw [textOf, String.toList_ofList, List.getElem?_map, Option.map_eq_some_iff] at hc
  obtain ⟨u, hu, rfl⟩ := hc
  have hprint := h u (List.mem_of_getElem? hu)
  rw [toNat_ofNat (lt_of_isPrintable hprint)]
  exact ⟨hu, hprint⟩

lemma textOf_map_toNat (text : String) : textOf (text.toList.map Char.toNat) = text := by
  have hid : Char.ofNat ∘ Char.toNat = id := funext Char.ofNat_toNat
  rw [textOf, List.map_map, hid, List.map_id, String.ofList_toList]

@[simp] lemma length_textOf (run : List ℕ) : (textOf run).length = run.length := by
  rw [textOf, ← String.length_toList, String.toList_ofList, List.length_map]

/-! ### Texts are runs -/

variable {settings : TextSettings} {data : Bytes} {enc : Encoding} {start : ℕ} {text : String}

lemma IsText.printable (h : IsText data enc start text) :
    ∀ c ∈ text.toList, isPrintable c.toNat := by
  intro c hc
  obtain ⟨i, hi⟩ := List.getElem?_of_mem hc
  exact (h.units i c hi).2

lemma IsText.isRun {k : ℕ} (h : IsText data enc (enc.width * k) text) :
    IsRun (enc.units data) k (text.toList.map Char.toNat) where
  ne_nil := by simpa using h.ne_empty
  inside i hi := by
    rw [List.length_map] at hi
    have hc := List.getElem?_eq_getElem hi
    rw [enc.getElem?_units, Nat.mul_add, (h.units i _ hc).1, List.getElem?_map, hc]
    rfl
  printable u hu := by
    obtain ⟨c, hc, rfl⟩ := List.mem_map.mp hu
    exact h.printable c hc
  left u hpos hu := by
    rw [enc.getElem?_units, Nat.mul_sub, mul_one] at hu
    exact h.left u (Nat.le_mul_of_pos_right _ hpos) hu
  right u hu := by
    rw [enc.getElem?_units, Nat.mul_add, List.length_map, String.length_toList] at hu
    exact h.right u hu

lemma IsRun.isText {k : ℕ} {run : List ℕ} (h : IsRun (enc.units data) k run) :
    IsText data enc (enc.width * k) (textOf run) where
  aligned := ⟨k, rfl⟩
  ne_empty := by
    have hne := h.ne_nil
    intro hempty
    have hlength := length_textOf run
    rw [hempty] at hlength
    exact hne (List.length_eq_zero_iff.mp hlength.symm)
  units i c hc := by
    obtain ⟨hu, hprint⟩ := getElem?_toList_textOf h.printable hc
    have hi := (List.getElem?_eq_some_iff.mp hu).1
    rw [← Nat.mul_add, ← enc.getElem?_units, h.inside i hi]
    exact ⟨hu, hprint⟩
  left u hle hu := by
    have hk : 0 < k := Nat.pos_of_ne_zero fun hzero => by
      have := enc.width_pos
      simp [hzero] at hle
      omega
    refine h.left u hk ?_
    rwa [enc.getElem?_units, Nat.mul_sub, mul_one]
  right u hu := by
    refine h.right u ?_
    rwa [enc.getElem?_units, Nat.mul_add, ← length_textOf]

lemma isText_iff : IsText data enc start text ↔
    ∃ k run, IsRun (enc.units data) k run ∧ enc.width * k = start ∧ textOf run = text := by
  constructor
  · intro h
    obtain ⟨k, rfl⟩ := h.aligned
    exact ⟨k, _, h.isRun, rfl, textOf_map_toNat text⟩
  · rintro ⟨k, run, h, rfl, rfl⟩
    exact h.isText

/-- Of the tests of a text, those of its length and of hexadecimal digits are the only ones that a
run of printable characters can fail. -/
lemma IsText.isValid_iff (h : IsText data enc start text)
    (hratio : Settings.isRatio settings.minPrintableRatio) :
    isValid settings text ↔ Accepts settings text := by
  have hprint := h.printable
  have hall : text.toList.filter (fun c => isPrintable c.toNat) = text.toList :=
    List.filter_eq_self.mpr hprint
  obtain ⟨c, hc⟩ := List.exists_mem_of_ne_nil text.toList (by simpa using h.ne_empty)
  have hrange := hprint c hc
  rw [isPrintable, Bool.and_eq_true, decide_eq_true_eq, decide_eq_true_eq] at hrange
  have hcontrol : (text.toList.all fun c => c.toNat < 0x20) = false :=
    List.all_eq_false.mpr ⟨c, hc, by simp; omega⟩
  have hlast : (text.toList.all fun c => c.toNat == 0xFF) = false :=
    List.all_eq_false.mpr ⟨c, hc, by simp; omega⟩
  have hshare := Decimal.not_div_self_lt hratio (Float.ofNat text.toList.length)
  simp only [isValid, hall, hcontrol, hlast, hshare]
  simp only [String.length_toList, Bool.and_false, Bool.not_false, Bool.and_true, decide_false,
    Bool.and_eq_true, Bool.not_eq_true', decide_eq_true_eq]
  constructor
  · rintro ⟨⟨hmin, hmax⟩, hdump⟩
    refine ⟨hmin, hmax, ?_⟩
    rintro ⟨hlong, hhex⟩
    simp [hlong, List.all_eq_true.mpr hhex] at hdump
  · rintro ⟨hmin, hmax, hdump⟩
    refine ⟨⟨hmin, hmax⟩, ?_⟩
    simpa using hdump

/-! ### The lists -/

/-- The runs of a byte string in an encoding. -/
def Encoding.runs (data : Bytes) (least : ℕ) : Encoding → List (ℕ × String)
  | ascii => asciiRuns data least
  | utf16 => utf16Runs data least

lemma mem_runs {least : ℕ} (hleast : 1 ≤ least) :
    (start, text) ∈ enc.runs data least ↔ IsText data enc start text ∧ least ≤ text.length := by
  have hpieces : (start, text) ∈ enc.runs data least ↔ ∃ p ∈ pieces (enc.units data),
      (p.2 ≠ [] ∧ least ≤ p.2.length) ∧ enc.width * p.1 = start ∧ textOf p.2 = text := by
    cases enc with
    | ascii =>
      simp [Encoding.runs, asciiRuns_eq, kept, Encoding.units, Encoding.width, and_assoc]
    | utf16 =>
      have hlong : ∀ p : ℕ × List ℕ, least ≤ p.2.length ↔ p.2 ≠ [] ∧ least ≤ p.2.length := by
        intro p
        refine (and_iff_right_of_imp fun hle => ?_).symm
        rw [← List.length_pos_iff]
        omega
      simp [Encoding.runs, utf16Runs, Encoding.units, Encoding.width, and_assoc, ← hlong]
  rw [hpieces, isText_iff]
  constructor
  · rintro ⟨⟨k, run⟩, hmem, ⟨hne, hlong⟩, hstart, rfl⟩
    exact ⟨⟨k, run, (mem_pieces hne).mp hmem, hstart, rfl⟩, by simpa using hlong⟩
  · rintro ⟨⟨k, run, hrun, hstart, rfl⟩, hlong⟩
    exact ⟨(k, run), (mem_pieces hrun.ne_nil).mpr hrun, ⟨hrun.ne_nil, by simpa using hlong⟩,
      hstart, rfl⟩

/-- A run that passes the tests is an accepted text. -/
lemma mem_runs_and_isValid (hmin : 1 ≤ settings.minLength)
    (hratio : Settings.isRatio settings.minPrintableRatio) :
    (start, text) ∈ enc.runs data settings.minLength ∧ isValid settings text ↔
      Accepts settings text ∧ IsText data enc start text := by
  rw [mem_runs hmin]
  constructor
  · rintro ⟨⟨htext, -⟩, hvalid⟩
    exact ⟨(htext.isValid_iff hratio).mp hvalid, htext⟩
  · rintro ⟨haccepts, htext⟩
    exact ⟨⟨htext, haccepts.min_le⟩, (htext.isValid_iff hratio).mpr haccepts⟩

/-- What passes the tests among the runs of a byte string, in whichever encoding. -/
lemma exists_mem_runs_and_isValid (hmin : 1 ≤ settings.minLength)
    (hratio : Settings.isRatio settings.minPrintableRatio) :
    (∃ start, (start, text) ∈ runs data settings.minLength) ∧ isValid settings text ↔
      text ∈ texts settings data := by
  have hruns : (∃ start, (start, text) ∈ runs data settings.minLength) ↔
      ∃ enc : Encoding, ∃ start, (start, text) ∈ enc.runs data settings.minLength := by
    simp only [runs, List.mem_append, exists_or]
    constructor
    · rintro (h | h)
      · exact ⟨.ascii, h⟩
      · exact ⟨.utf16, h⟩
    · rintro ⟨_ | _, h⟩
      · exact .inl h
      · exact .inr h
  simp only [hruns, texts, Set.mem_ofPred_eq, ← exists_and_left, ← exists_and_right,
    mem_runs_and_isValid hmin hratio]

lemma mem_values (hmin : 1 ≤ settings.minLength)
    (hratio : Settings.isRatio settings.minPrintableRatio) {image : Option Image} :
    text ∈ values settings data image ↔ text ∈ texts settings data ∨
      ∃ i ∈ image, ∃ s ∈ i.sections, isTextSection i.format s.name ∧
        text ∈ texts settings (s.data data) := by
  have hparts : text ∈ values settings data image ↔
      ∃ part ∈ scannedParts data image, text ∈ texts settings part := by
    simp only [← exists_mem_runs_and_isValid hmin hratio, values, List.mem_filter,
      Text.mem_sortedSet, List.mem_flatMap, List.mem_map, Prod.exists, exists_eq_right,
      ← and_assoc, exists_and_right]
  rw [hparts]
  cases image with
  | none => simp [scannedParts]
  | some i => simp [scannedParts, and_assoc]

lemma mem_occurrences (hmin : 1 ≤ settings.minLength)
    (hratio : Settings.isRatio settings.minPrintableRatio) {o : Occurrence} :
    o ∈ occurrences settings data ↔ ∃ enc start text,
      (Accepts settings text ∧ IsText data enc start text) ∧
        occurrence data.toArray enc (start, text) = o := by
  have hmem : o ∈ occurrences settings data ↔ ∃ enc : Encoding, ∃ start text,
      ((start, text) ∈ enc.runs data settings.minLength ∧ isValid settings text) ∧
        occurrence data.toArray enc (start, text) = o := by
    simp only [occurrences, List.mem_mergeSort, List.mem_filter, List.mem_append, List.mem_map,
      Prod.exists]
    constructor
    · rintro ⟨⟨start, text, hrun, rfl⟩ | ⟨start, text, hrun, rfl⟩, hvalid⟩
      · exact ⟨.ascii, start, text, ⟨hrun, hvalid⟩, rfl⟩
      · exact ⟨.utf16, start, text, ⟨hrun, hvalid⟩, rfl⟩
    · rintro ⟨enc, start, text, ⟨hrun, hvalid⟩, rfl⟩
      cases enc with
      | ascii => exact ⟨.inl ⟨start, text, hrun, rfl⟩, hvalid⟩
      | utf16 => exact ⟨.inr ⟨start, text, hrun, rfl⟩, hvalid⟩
  simp only [hmem, mem_runs_and_isValid hmin hratio]

lemma length_occurrence (bytes : Array UInt8) (enc : Encoding) (run : ℕ × String) :
    (occurrence bytes enc run).length = enc.width * run.2.length := by
  cases enc <;> simp [occurrence, Encoding.width]

lemma IsText.stop_le (h : IsText data enc start text) :
    start + enc.width * text.length ≤ data.length := by
  obtain ⟨k, run, hrun, rfl, rfl⟩ := isText_iff.mp h
  calc enc.width * k + enc.width * (textOf run).length
      = enc.width * (k + run.length) := by rw [length_textOf, Nat.mul_add]
    _ ≤ enc.width * (enc.units data).length := Nat.mul_le_mul_left _ hrun.stop_le
    _ ≤ data.length := enc.width_mul_length_units data

/-- The bytes of a text are the text. -/
lemma IsText.decode?_slice (h : IsText data enc start text) :
    enc.decode? (data.slice start (enc.width * text.length)) = some text := by
  have hstop := h.stop_le
  obtain ⟨k, run, hrun, rfl, rfl⟩ := isText_iff.mp h
  rw [length_textOf] at hstop ⊢
  have hunits : enc.units (data.slice (enc.width * k) (enc.width * run.length)) = run := by
    rw [Bytes.slice, enc.units_take, enc.units_drop]
    exact hrun.take_drop
  have hlength : (data.slice (enc.width * k) (enc.width * run.length)).length =
      enc.width * run.length := by
    rw [Bytes.slice, List.length_take, List.length_drop]
    omega
  rw [Encoding.decode?_of_units (by rw [hlength]; exact dvd_mul_right _ _)]
  · rw [hunits]
  · rw [hunits]
    exact fun u hu => lt_of_isPrintable (hrun.printable u hu)

lemma pairwise_occurrences (settings : TextSettings) (data : Bytes) :
    (occurrences settings data).Pairwise fun o p => o.offset ≤ p.offset := by
  have : Std.Total fun o p : Occurrence => o.offset ≤ p.offset :=
    ⟨fun o p => le_total o.offset p.offset⟩
  have : IsTrans Occurrence fun o p => o.offset ≤ p.offset := ⟨fun _ _ _ => le_trans⟩
  exact List.pairwise_mergeSort' _ _

/-- **Extraction is exact.** For a file of any bytes, the texts and their places are those that
stand in the file, and the two lists agree. The texts are in strictly increasing order, the places
in the order of the file, and the bytes of each place are its text. -/
theorem isExtraction_values_occurrences (settings : TextSettings) (hmin : 1 ≤ settings.minLength)
    (hratio : Settings.isRatio settings.minPrintableRatio) (data : Bytes) (image : Option Image) :
    IsExtraction settings data image (values settings data image) (occurrences settings data) ∧
      ∀ text, text ∈ values settings data none ↔
        text ∈ (occurrences settings data).map (·.value) := by
  have hplace : ∀ o, o ∈ occurrences settings data ↔ _ := fun o => mem_occurrences hmin hratio
  refine ⟨⟨fun text => mem_values hmin hratio, (Text.pairwise_sortedSet _).filter _,
    fun enc start text => ?_, pairwise_occurrences settings data, fun o ho => ?_,
    fun o ho => ?_⟩, fun text => ?_⟩
  · constructor
    · rintro ⟨o, ho, rfl, rfl, rfl⟩
      obtain ⟨enc, start, text, h, rfl⟩ := (hplace o).mp ho
      exact h
    · intro h
      exact ⟨_, (hplace _).mpr ⟨enc, start, text, h, rfl⟩, rfl, rfl, rfl⟩
  · obtain ⟨enc, start, text, ⟨-, htext⟩, rfl⟩ := (hplace o).mp ho
    rw [length_occurrence]
    exact htext.stop_le
  · obtain ⟨enc, start, text, ⟨-, htext⟩, rfl⟩ := (hplace o).mp ho
    rw [length_occurrence]
    exact htext.decode?_slice
  · rw [mem_values hmin hratio, List.mem_map]
    constructor
    · rintro (⟨haccepts, enc, start, htext⟩ | ⟨i, hi, -⟩)
      · exact ⟨_, (hplace _).mpr ⟨enc, start, text, ⟨haccepts, htext⟩, rfl⟩, rfl⟩
      · simp at hi
    · rintro ⟨o, ho, rfl⟩
      obtain ⟨enc, start, text, ⟨haccepts, htext⟩, rfl⟩ := (hplace o).mp ho
      exact .inl ⟨haccepts, enc, start, htext⟩

/-- Two texts in the two encodings, and eight hexadecimal digits. -/
def mixed : Bytes :=
  Bytes.ofAscii "open" ++ [0xFF, 0] ++ [0x72, 0, 0x65, 0, 0x61, 0, 0x64, 0] ++ [0, 0] ++
    Bytes.ofAscii "deadbeef"

theorem isExtraction_mixed : 1 ≤ ({} : TextSettings).minLength ∧
    Settings.isRatio ({} : TextSettings).minPrintableRatio ∧
    "read" ∈ values {} mixed none ∧ "deadbeef" ∉ values {} mixed none := by
  have hmin : 1 ≤ ({} : TextSettings).minLength := by decide
  have hratio : Settings.isRatio ({} : TextSettings).minPrintableRatio := by decide +kernel
  have hmem := (isExtraction_values_occurrences {} hmin hratio mixed none).1.mem_values
  refine ⟨hmin, hratio, (hmem _).mpr (.inl ⟨⟨by decide, by decide, by decide⟩, .utf16, 6, ?_⟩),
    fun h => ?_⟩
  · have hrun : IsRun (Encoding.utf16.units mixed) 3 [0x72, 0x65, 0x61, 0x64] :=
      (mem_pieces (by decide)).mp (by decide)
    exact hrun.isText
  · rcases (hmem _).mp h with ⟨haccepts, -⟩ | ⟨i, hi, -⟩
    · exact haccepts.not_dump ⟨by decide, by simp [isHexDigit]⟩
    · simp at hi

end Dissect.Strings
