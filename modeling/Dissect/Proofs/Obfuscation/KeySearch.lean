import Mathlib
import Dissect.Obfuscation.Xor

/-!
The search for the key of an encrypted text.

The keys are tried in increasing order, and a later one replaces the best one so far only if it
gives a more plausible text. So the key that is left gives the most plausible of all printable texts,
and is the least one that gives a text as plausible as that. A key on top of another one is a key
again, so a printable text that was encrypted is among the texts that are compared.
-/

namespace Dissect.Xor

variable {data p : Bytes} {j k : UInt8}

/-! ### Keys -/

lemma apply_apply (j k : UInt8) (data : Bytes) : apply j (apply k data) = apply (k ^^^ j) data := by
  simp only [apply, List.map_map, Function.comp_def, UInt8.xor_assoc]

lemma apply_zero (data : Bytes) : apply 0 data = data := by
  simp [apply]

lemma apply_self (k : UInt8) (data : Bytes) : apply k (apply k data) = data := by
  rw [apply_apply, UInt8.xor_self, apply_zero]

lemma length_apply : (apply k data).length = data.length := List.length_map _

lemma isCandidate_apply : isCandidate (apply k data) j = isCandidate data (k ^^^ j) := by
  simp only [isCandidate, apply, List.all_map, Function.comp_def, UInt8.xor_assoc]

lemma mem_keys : k ∈ keys ↔ k ≠ 0 := by
  rw [keys, List.mem_map]
  constructor
  · rintro ⟨n, hn, rfl⟩ hzero
    have hn := List.mem_range'_1.mp hn
    have htoNat := congrArg UInt8.toNat hzero
    rw [UInt8.toNat_ofNat_of_lt' (by simp [UInt8.size]; omega)] at htoNat
    simp at htoNat
    omega
  · intro hk
    have hpos : k.toNat ≠ 0 := fun h => hk (UInt8.toNat_inj.mp h)
    have hlt := k.toNat_lt
    exact ⟨k.toNat, List.mem_range'_1.mpr ⟨by omega, by omega⟩, UInt8.ofNat_toNat⟩

lemma pairwise_keys : keys.Pairwise (· < ·) := by
  rw [keys, List.pairwise_map]
  refine List.Pairwise.imp_of_mem (fun {m n} hm hn hlt => ?_)
    (List.pairwise_lt_range' 1 (by decide))
  have hm := List.mem_range'_1.mp hm
  have hn := List.mem_range'_1.mp hn
  rw [UInt8.lt_iff_toNat_lt, UInt8.toNat_ofNat_of_lt' (by simp [UInt8.size]; omega),
    UInt8.toNat_ofNat_of_lt' (by simp [UInt8.size]; omega)]
  exact hlt

/-! ### Printable results -/

/-- All bytes are printable characters. -/
def Printable (bs : Bytes) : Prop := ∀ b ∈ bs, 0x20 ≤ b ∧ b ≤ 0x7E

instance (bs : Bytes) : Decidable (Printable bs) :=
  inferInstanceAs (Decidable (∀ b ∈ bs, _))

lemma isCandidate_iff : isCandidate data k ↔ Printable (apply k data) := by
  simp [isCandidate, Printable, apply, isPrintableByte]

/-- A key that gives printable bytes. -/
structure IsKey (data : Bytes) (k : UInt8) : Prop where
  ne_zero : k ≠ 0
  isCandidate : isCandidate data k

lemma IsKey.printable (h : IsKey data k) : Printable (apply k data) :=
  isCandidate_iff.mp h.isCandidate

lemma mem_candidates : k ∈ keys.filter (isCandidate data) ↔ IsKey data k := by
  rw [List.mem_filter, mem_keys]
  exact ⟨fun h => ⟨h.1, h.2⟩, fun h => ⟨h.1, h.2⟩⟩

/-- The key of a printable text is a key of what it was encrypted to. -/
lemma isKey_apply (hp : Printable p) (hk : k ≠ 0) : IsKey (apply k p) k := by
  refine ⟨hk, isCandidate_iff.mpr ?_⟩
  rwa [apply_self]

/-! ### The search for the best key -/

/-- The first of the best of some keys, with its plausibility; none if there are no keys. -/
inductive IsBest (data : Bytes) : List UInt8 → Option (UInt8 × ℕ) → Prop where
  | none : IsBest data [] none
  | some {before after : List UInt8} {k : UInt8}
      (hbefore : ∀ j ∈ before, plausibility (apply j data) < plausibility (apply k data))
      (hafter : ∀ j ∈ after, plausibility (apply j data) ≤ plausibility (apply k data)) :
      IsBest data (before ++ k :: after) (some (k, plausibility (apply k data)))

lemma IsBest.better {ks : List UInt8} {best : Option (UInt8 × ℕ)} (h : IsBest data ks best)
    (k : UInt8) : IsBest data (ks ++ [k]) (better data best k) := by
  cases h with
  | none => exact @IsBest.some data [] [] k (by simp) (by simp)
  | @some before after k' hbefore hafter =>
    simp only [Xor.better]
    split
    · next hlt =>
      refine .some (fun j hj => ?_) (by simp)
      rcases List.mem_append.mp hj with hj | hj
      · exact (hbefore j hj).trans hlt
      · rcases List.mem_cons.mp hj with rfl | hj
        · exact hlt
        · exact (hafter j hj).trans_lt hlt
    · next hle =>
      rw [List.append_assoc, List.cons_append]
      refine .some hbefore fun j hj => ?_
      rcases List.mem_append.mp hj with hj | hj
      · exact hafter j hj
      · rw [List.mem_singleton.mp hj]
        exact Nat.le_of_not_lt hle

lemma IsBest.foldl {ks : List UInt8} {best : Option (UInt8 × ℕ)} (h : IsBest data ks best)
    (later : List UInt8) : IsBest data (ks ++ later) (later.foldl (Xor.better data) best) := by
  induction later generalizing ks best with
  | nil => simpa using h
  | cons k later ih => simpa using ih (h.better k)

/-- The least of the keys whose results are the most plausible. -/
structure IsBestKey (data : Bytes) (k : UInt8) : Prop extends IsKey data k where
  max : ∀ j, IsKey data j → plausibility (apply j data) ≤ plausibility (apply k data)
  least : ∀ j, IsKey data j → plausibility (apply j data) = plausibility (apply k data) → k ≤ j

/-- Of increasing keys, one that comes later is not less. -/
lemma isBestKey_of_isBest {before after : List UInt8}
    (hcandidates : keys.filter (isCandidate data) = before ++ k :: after)
    (hbefore : ∀ j ∈ before, plausibility (apply j data) < plausibility (apply k data))
    (hafter : ∀ j ∈ after, plausibility (apply j data) ≤ plausibility (apply k data)) :
    IsBestKey data k := by
  have hmem (j : UInt8) (hj : IsKey data j) : j ∈ before ∨ j = k ∨ j ∈ after := by
    rw [← mem_candidates, hcandidates] at hj
    simpa using hj
  have hsorted : (before ++ k :: after).Pairwise (· < ·) := hcandidates ▸ pairwise_keys.filter _
  have hlater := (List.pairwise_cons.mp (List.pairwise_append.mp hsorted).2.1).1
  refine ⟨mem_candidates.mp (hcandidates ▸ by simp), fun j hj => ?_, fun j hj heq => ?_⟩
  · rcases hmem j hj with hj | rfl | hj
    · exact (hbefore j hj).le
    · exact le_rfl
    · exact hafter j hj
  · rcases hmem j hj with hj | rfl | hj
    · exact absurd heq (hbefore j hj).ne
    · exact UInt8.le_refl j
    · exact UInt8.le_of_lt (hlater j hj)

/-- Too few bytes, no key at all, or the best key. -/
lemma bestKey?_cases (data : Bytes) :
    (data.length < 4 ∧ bestKey? data = none) ∨
    ((∀ j, ¬IsKey data j) ∧ bestKey? data = none) ∨
    ∃ k, 4 ≤ data.length ∧ IsBestKey data k ∧ bestKey? data = some k := by
  by_cases hlength : data.length < 4
  · exact .inl ⟨hlength, by rw [bestKey?, if_pos hlength]⟩
  rw [bestKey?, if_neg hlength]
  refine .inr ?_
  generalize hcandidates : keys.filter (isCandidate data) = candidates
  have hfold : IsBest data candidates (candidates.foldl (better data) none) :=
    IsBest.none.foldl candidates
  generalize candidates.foldl (better data) none = best at hfold ⊢
  cases hfold with
  | none =>
    refine .inl ⟨fun j hj => ?_, rfl⟩
    rw [← mem_candidates, hcandidates] at hj
    exact List.not_mem_nil hj
  | @some before after k hbefore hafter =>
    exact .inr ⟨k, by omega, isBestKey_of_isBest hcandidates hbefore hafter, rfl⟩

/-! ### Texts as bytes -/

/-- A printable byte is a character, and its own encoding. -/
lemma utf8EncodeChar_of_isPrintableByte {b : UInt8} (h : isPrintableByte b) :
    String.utf8EncodeChar (Char.ofNat b.toNat) = [b] ∧
      ' ' ≤ Char.ofNat b.toNat ∧ Char.ofNat b.toNat ≤ '~' := by
  have hall : ∀ n < 256, isPrintableByte (UInt8.ofNat n) →
      String.utf8EncodeChar (Char.ofNat n) = [UInt8.ofNat n] ∧
        ' ' ≤ Char.ofNat n ∧ Char.ofNat n ≤ '~' := by
    decide +kernel
  have hb := hall b.toNat b.toNat_lt
  rw [UInt8.ofNat_toNat] at hb
  exact hb h

lemma isPrintableByte_of_mem_apply (h : isCandidate data k) {b : UInt8} (hb : b ∈ apply k data) :
    isPrintableByte b := by
  obtain ⟨a, ha, rfl⟩ := List.mem_map.mp hb
  exact List.all_eq_true.mp h a ha

lemma encode_textWith (h : isCandidate data k) : Utf8.encode (textWith k data) = apply k data := by
  have hprintable : ∀ b ∈ apply k data, isPrintableByte b := fun _ =>
    isPrintableByte_of_mem_apply h
  rw [Utf8.encode, textWith, String.toList_ofList]
  generalize apply k data = out at hprintable
  induction out with
  | nil => rfl
  | cons b out ih =>
    rw [List.map_cons, List.flatMap_cons, ih fun b hb => hprintable b (List.mem_cons_of_mem _ hb),
      (utf8EncodeChar_of_isPrintableByte (hprintable b List.mem_cons_self)).1]
    rfl

/-! ### Decryption -/

/-- Nothing, or the best key with what it gives. -/
lemma decrypt?_cases (data : Bytes) :
    ((data.length < 4 ∨ ∀ j, ¬IsKey data j) ∧ decrypt? data = none) ∨
    ∃ k t, 4 ≤ data.length ∧ IsBestKey data k ∧ Utf8.encode t = apply k data ∧
      decrypt? data = some (k, t) := by
  unfold decrypt?
  rcases bestKey?_cases data with ⟨hlength, hkey⟩ | ⟨hnone, hkey⟩ | ⟨k, hlength, hk, hkey⟩
  · exact .inl ⟨.inl hlength, by rw [hkey]; rfl⟩
  · exact .inl ⟨.inr hnone, by rw [hkey]; rfl⟩
  · exact .inr ⟨k, _, hlength, hk, encode_textWith hk.isCandidate, by rw [hkey]; rfl⟩

lemma decrypt?_eq_none_iff : decrypt? data = none ↔
    data.length < 4 ∨ ∀ j ≠ 0, ¬Printable (apply j data) := by
  have hkeys : (∀ j, ¬IsKey data j) ↔ ∀ j ≠ 0, ¬Printable (apply j data) :=
    forall_congr' fun j => ⟨fun h hj hp => h ⟨hj, isCandidate_iff.mpr hp⟩,
      fun h hj => h hj.ne_zero hj.printable⟩
  rw [← hkeys]
  rcases decrypt?_cases data with ⟨hnone, hd⟩ | ⟨k, t, hlength, hk, -, hd⟩
  · exact iff_of_true hd hnone
  · refine iff_of_false (by simp [hd]) ?_
    rintro (hshort | hnone)
    · omega
    · exact hnone k hk.toIsKey

/-- A text that was encrypted has a best key. -/
lemma exists_decrypt?_apply (hp : Printable p) (hlength : 4 ≤ p.length) (hk : k ≠ 0) :
    ∃ j t, IsBestKey (apply k p) j ∧ Utf8.encode t = apply j (apply k p) ∧
      decrypt? (apply k p) = some (j, t) := by
  rcases decrypt?_cases (apply k p) with ⟨hshort | hnone, -⟩ | ⟨j, t, -, hj, ht, hd⟩
  · rw [length_apply] at hshort
    omega
  · exact absurd (isKey_apply hp hk) (hnone k)
  · exact ⟨j, t, hj, ht, hd⟩

/-- **The most plausible result is found, and the least key that gives it.** Nothing is found
exactly if there are fewer than four bytes, or if no key but zero makes all of them printable. What is
found gives back the data under its key, is printable, and is at least as plausible as the printable
result of every other key; the keys of results that are as plausible are not less. So what is found for
an encrypted printable text is at least as plausible as the text, and is the text if all other
printable results are less plausible. -/
theorem decrypt?_finds_best :
    (∀ data,
      (decrypt? data = none ↔ data.length < 4 ∨ ∀ j ≠ 0, ¬Printable (apply j data)) ∧
      ∀ k t, decrypt? data = some (k, t) →
        k ≠ 0 ∧ apply k (Utf8.encode t) = data ∧ Printable (Utf8.encode t) ∧
        ∀ j ≠ 0, Printable (apply j data) →
          plausibility (apply j data) ≤ plausibility (Utf8.encode t) ∧
          (plausibility (apply j data) = plausibility (Utf8.encode t) → k ≤ j)) ∧
    ∀ p k, Printable p → 4 ≤ p.length → k ≠ 0 →
      ∃ j t, decrypt? (apply k p) = some (j, t) ∧
        plausibility p ≤ plausibility (Utf8.encode t) ∧
        ((∀ i ≠ 0, i ≠ k → Printable (apply i (apply k p)) →
          plausibility (apply i (apply k p)) < plausibility p) → j = k ∧ Utf8.encode t = p) := by
  refine ⟨fun data => ⟨decrypt?_eq_none_iff, fun k t hd => ?_⟩, fun p k hp hlength hk => ?_⟩
  · rcases decrypt?_cases data with ⟨-, hnone⟩ | ⟨k', t', -, hbest, ht, hsome⟩
    · simp [hnone] at hd
    · cases hsome.symm.trans hd
      rw [ht, apply_self]
      refine ⟨hbest.ne_zero, rfl, hbest.printable, fun j hj hprintable => ?_⟩
      have hkey : IsKey data j := ⟨hj, isCandidate_iff.mpr hprintable⟩
      exact ⟨hbest.max j hkey, hbest.least j hkey⟩
  · obtain ⟨j, t, hbest, ht, hd⟩ := exists_decrypt?_apply hp hlength hk
    have hmax := hbest.max k (isKey_apply hp hk)
    rw [apply_self] at hmax
    refine ⟨j, t, hd, by rwa [ht], fun hless => ?_⟩
    -- another key would give a text that is less plausible, and not the best one
    have hj : j = k := by
      by_contra hne
      exact absurd hmax (Nat.not_le.mpr (hless j hbest.ne_zero hne hbest.printable))
    subst hj
    exact ⟨rfl, by rw [ht, apply_self]⟩

/-- The word "password", and what the key `0x5A` makes of it. -/
def word : Bytes := [0x70, 0x61, 0x73, 0x73, 0x77, 0x6F, 0x72, 0x64]
def hiddenWord : Bytes := [0x2A, 0x3B, 0x29, 0x29, 0x2D, 0x35, 0x28, 0x3E]

/-- Another key would give the text `fweeaydr`, which is not quite as plausible. -/
theorem decrypt?_finds_best_word :
    Printable word ∧ apply 0x5A word = hiddenWord ∧ plausibility word = 22 ∧
      plausibility (apply 0x4C hiddenWord) = 21 ∧
      ∃ t, decrypt? hiddenWord = some (0x5A, t) ∧ Utf8.encode t = word := by
  have hp : Printable word := by decide +kernel
  have hhidden : apply 0x5A word = hiddenWord := by decide +kernel
  have hplausible : plausibility word = 22 := by decide +kernel
  have hothers : (keys.filter (isCandidate hiddenWord)).all fun i =>
      i == 0x5A || plausibility (apply i hiddenWord) < 22 := by decide +kernel
  obtain ⟨j, t, hd, -, hunique⟩ := decrypt?_finds_best.2 word 0x5A hp (by decide) (by decide)
  rw [hhidden, hplausible] at hunique
  rw [hhidden] at hd
  obtain ⟨rfl, ht⟩ := hunique fun i hi hne hprintable => by
    have hkey := mem_candidates.mpr ⟨hi, isCandidate_iff.mpr hprintable⟩
    simpa [hne] using List.all_eq_true.mp hothers i hkey
  exact ⟨hp, hhidden, hplausible, by decide +kernel, t, hd, ht⟩

end Dissect.Xor
