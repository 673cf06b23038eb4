import Mathlib
import Dissect.Obfuscation.Technique
import Dissect.Proofs.Obfuscation.KeySearch
import Dissect.Proofs.Text.Sorted

/-!
Decrypting what has been decrypted.

A second key on top of a first one is a key again, so the results that the search finds for a
decrypted text are the results for the text itself, and the text itself. The decrypted text was the
most plausible of the former and is more plausible than the latter, so nothing better is found. The
texts of a file together with their decryptions therefore stay as they are when they are decrypted
once more.
-/

namespace Dissect

namespace Xor

variable {data : Bytes} {k : UInt8}

/-! ### Decrypted texts -/

lemma printable_of_mem_textWith (h : isCandidate data k) {c : Char}
    (hc : c ∈ (textWith k data).toList) : ' ' ≤ c ∧ c ≤ '~' := by
  rw [textWith, String.toList_ofList] at hc
  obtain ⟨b, hb, rfl⟩ := List.mem_map.mp hc
  exact (utf8EncodeChar_of_isPrintableByte (isPrintableByte_of_mem_apply h hb)).2

lemma length_textWith : (textWith k data).length = data.length := by
  rw [textWith, ← String.length_toList, String.toList_ofList, List.length_map, apply,
    List.length_map]

variable {v t : String}

/-- A key whose result is printable and more plausible than the data. -/
structure Improves (data : Bytes) (k : UInt8) : Prop extends IsKey data k where
  lt : plausibility data < plausibility (apply k data)

/-- A text and what the best key makes of it. -/
structure Decrypts (v t : String) : Prop where
  printable : ∀ c ∈ t.toList, ' ' ≤ c ∧ c ≤ '~'
  four_le : 4 ≤ t.length
  lt : plausibility (Utf8.encode v) < plausibility (Utf8.encode t)
  key : ∃ k ≠ 0, Utf8.encode t = apply k (Utf8.encode v)
  max : ∀ k, IsKey (Utf8.encode v) k →
    plausibility (apply k (Utf8.encode v)) ≤ plausibility (Utf8.encode t)

lemma decrypts_of_decryptText? (h : decryptText? v = some t) : Decrypts v t := by
  rw [decryptText?] at h
  rcases bestKey?_cases (Utf8.encode v) with
    ⟨-, hkey⟩ | ⟨-, hkey⟩ | ⟨k, hlength, hk, hkey⟩
  · simp [hkey] at h
  · simp [hkey] at h
  · simp only [hkey, Option.bind_eq_bind, Option.bind_some, Option.ite_none_right_eq_some,
      Option.some.injEq] at h
    obtain ⟨hlt, rfl⟩ := h
    have hencode := encode_textWith hk.isCandidate
    refine ⟨fun c => printable_of_mem_textWith hk.isCandidate, ?_, ?_, ⟨k, hk.ne_zero, hencode⟩, ?_⟩
    · rwa [length_textWith]
    · rwa [hencode]
    · rw [hencode]
      exact hk.max

/-- A text is decrypted exactly if it is long enough and some key improves it. -/
lemma decryptText?_isSome_iff :
    (decryptText? v).isSome ↔ 4 ≤ (Utf8.encode v).length ∧ ∃ k, Improves (Utf8.encode v) k := by
  rw [decryptText?]
  rcases bestKey?_cases (Utf8.encode v) with
    ⟨hlength, hkey⟩ | ⟨hnone, hkey⟩ | ⟨k, hlength, hk, hkey⟩
  · simp [hkey, hlength]
  · simpa [hkey] using fun _ k hk => hnone k hk.toIsKey
  · simp only [hkey, Option.bind_eq_bind, Option.bind_some, Option.isSome_ite]
    exact ⟨fun hlt => ⟨hlength, k, hk.toIsKey, hlt⟩,
      fun ⟨_, j, hj⟩ => hj.lt.trans_le (hk.max j hj.toIsKey)⟩

/-- Nothing improves on a decrypted text: a second key would have been tried at first, together
with the first one. -/
lemma Decrypts.decryptText?_eq_none (h : Decrypts v t) : decryptText? t = none := by
  obtain ⟨k, hk, hencode⟩ := h.key
  rw [← Option.not_isSome_iff_eq_none, decryptText?_isSome_iff, hencode]
  rintro ⟨-, j, hj⟩
  have hlt := hj.lt
  rw [apply_apply, ← hencode] at hlt
  by_cases hzero : k ^^^ j = 0
  · -- the second key takes the first one back
    rw [hzero, apply_zero] at hlt
    exact (h.lt.trans hlt).false
  · refine (hlt.trans_le (h.max _ ⟨hzero, ?_⟩)).false
    rw [← isCandidate_apply]
    exact hj.isCandidate

/-! ### Lists of texts -/

/-- Some texts and what they decrypt to. -/
def withDecrypted (texts : List String) : List String :=
  Text.sortedSet (texts ++ texts.filterMap decryptText?)

lemma mem_withDecrypted {texts : List String} :
    t ∈ withDecrypted texts ↔ t ∈ texts ∨ ∃ v ∈ texts, decryptText? v = some t := by
  rw [withDecrypted, Text.mem_sortedSet, List.mem_append, List.mem_filterMap]

/-- The texts that are new among the decryptions decrypt to nothing. -/
lemma exists_decryptText?_withDecrypted {texts : List String} :
    (∃ v ∈ withDecrypted texts, decryptText? v = some t) ↔
      ∃ v ∈ texts, decryptText? v = some t := by
  constructor
  · rintro ⟨v, hv, hvt⟩
    rcases mem_withDecrypted.mp hv with hv | ⟨u, hu, huv⟩
    · exact ⟨v, hv, hvt⟩
    · rw [(decrypts_of_decryptText? huv).decryptText?_eq_none] at hvt
      cases hvt
  · rintro ⟨v, hv, hvt⟩
    exact ⟨v, mem_withDecrypted.mpr (.inl hv), hvt⟩

lemma withDecrypted_withDecrypted (texts : List String) :
    withDecrypted (withDecrypted texts) = withDecrypted texts := by
  refine Text.sortedSet_eq (Text.pairwise_sortedSet _) fun t => ?_
  rw [List.mem_append, List.mem_filterMap, exists_decryptText?_withDecrypted]
  exact ⟨.inl, fun h => h.elim id fun hnew => mem_withDecrypted.mpr (.inr hnew)⟩

end Xor

namespace Technique

open Dissect.Xor

variable {limit : ℕ} {x : Findings}

/-- The limit cuts nothing off a short list. -/
lemma apply_stringDecryption (hlimit : x.strings.length ≤ limit) :
    let o := (stringDecryption limit).apply x
    (o.step.success ↔ ∃ v ∈ x.strings, (decryptText? v).isSome) ∧
      (o.step.success → o.improved.strings = some (withDecrypted x.strings)) := by
  have hempty : (x.strings.filterMap decryptText?).isEmpty = false ↔
      ∃ v ∈ x.strings, (decryptText? v).isSome := by
    simp [List.filterMap_eq_nil_iff, Option.isSome_iff_ne_none]
  simp only [stringDecryption, List.take_of_length_le hlimit]
  split
  · next hnone =>
    rw [← hempty, hnone]
    exact ⟨by simp, by simp⟩
  · next hsome =>
    rw [← hempty]
    exact ⟨by simpa using hsome, fun _ => rfl⟩

/-- **Decryption reaches a fixed point.** A text is decrypted exactly if it has four bytes or more
and a key that makes it printable and more plausible. What it decrypts to is printable, has four
characters or more, is more plausible, comes from the text by one key, and decrypts to nothing. So
where the limit cuts nothing off, a list with a text that is decrypted becomes the strictly sorted
list of its texts and their decryptions, and that list stays as it is. -/
theorem stringDecryption_fixed :
    (∀ v, (decryptText? v).isSome ↔
      4 ≤ (Utf8.encode v).length ∧ ∃ k, Improves (Utf8.encode v) k) ∧
    (∀ v t, decryptText? v = some t →
      (∀ c ∈ t.toList, ' ' ≤ c ∧ c ≤ '~') ∧ 4 ≤ t.length ∧
      plausibility (Utf8.encode v) < plausibility (Utf8.encode t) ∧
      (∃ k ≠ 0, Utf8.encode t = Xor.apply k (Utf8.encode v)) ∧
      decryptText? t = none) ∧
    ∀ (limit : ℕ) (x : Findings), x.strings.length ≤ limit →
      (x.strings ++ x.strings.filterMap decryptText?).toFinset.card ≤ limit →
      let o := (stringDecryption limit).apply x
      (o.step.success ↔ ∃ v ∈ x.strings, (decryptText? v).isSome) ∧
      (o.step.success → ∃ texts, o.improved.strings = some texts ∧
        texts.Pairwise (· < ·) ∧
        (∀ t, t ∈ texts ↔ t ∈ x.strings ∨ ∃ v ∈ x.strings, decryptText? v = some t) ∧
        ∀ y : Findings, y.strings = texts →
          ((stringDecryption limit).apply y).step.success ∧
          ((stringDecryption limit).apply y).improved.strings = some texts) := by
  refine ⟨fun v => decryptText?_isSome_iff, fun v t hvt => ?_, fun limit x hlimit hunion => ?_⟩
  · have hd := decrypts_of_decryptText? hvt
    exact ⟨hd.printable, hd.four_le, hd.lt, hd.key, hd.decryptText?_eq_none⟩
  · obtain ⟨hsuccess, hstrings⟩ := apply_stringDecryption hlimit
    refine ⟨hsuccess, fun h => ⟨withDecrypted x.strings, hstrings h, Text.pairwise_sortedSet _,
      fun t => mem_withDecrypted, fun y hy => ?_⟩⟩
    have hlimit' : y.strings.length ≤ limit := by
      rwa [hy, withDecrypted, Text.length_sortedSet]
    obtain ⟨hagain, hsame⟩ := apply_stringDecryption hlimit'
    -- what is decrypted the first time is still there the second time
    obtain ⟨v, hv, hdecrypts⟩ := hsuccess.mp h
    have hsuccess' := hagain.mpr ⟨v, hy ▸ mem_withDecrypted.mpr (.inl hv), hdecrypts⟩
    refine ⟨hsuccess', ?_⟩
    rw [hsame hsuccess', hy, withDecrypted_withDecrypted]

/-- A limit that is just reached by the texts with what the first of them decrypts to. -/
theorem stringDecryption_fixed_capitals :
    let x : Findings := ⟨{}, ["HELLO", "abc"], []⟩
    let texts := ["HELLO", "abc", "hello"]
    x.strings.length ≤ 3 ∧
      (x.strings ++ x.strings.filterMap decryptText?).toFinset.card ≤ 3 ∧
      ((stringDecryption 3).apply x).step.success ∧
      decryptText? "HELLO" = some "hello" ∧ decryptText? "hello" = none ∧
      ((stringDecryption 3).apply x).improved.strings = some texts ∧
      ((stringDecryption 3).apply { x with strings := texts }).improved.strings = some texts := by
  intro x texts
  have hlength : x.strings.length ≤ 3 := by decide
  have hcard : (x.strings ++ x.strings.filterMap decryptText?).toFinset.card ≤ 3 := by
    decide +kernel
  have hhello : decryptText? "HELLO" = some "hello" := by decide +kernel
  have habc : decryptText? "abc" = none := by decide +kernel
  obtain ⟨-, hdecrypts, hlist⟩ := stringDecryption_fixed
  obtain ⟨hsuccess, hfixed⟩ := hlist 3 x hlength hcard
  have hx := hsuccess.mpr ⟨"HELLO", List.mem_cons_self, by rw [hhello]; rfl⟩
  obtain ⟨texts', hstrings, hsorted, hmem, hagain⟩ := hfixed hx
  have htexts : texts' = texts := by
    refine hsorted.eq_of_mem_iff (by decide +kernel) fun {t} => (hmem t).trans ?_
    simp [x, texts, hhello, habc, or_assoc, eq_comm]
  rw [htexts] at hstrings hagain
  exact ⟨hlength, hcard, hx, hhello, (hdecrypts _ _ hhello).2.2.2.2, hstrings,
    (hagain { x with strings := texts } rfl).2⟩

end Technique

end Dissect
