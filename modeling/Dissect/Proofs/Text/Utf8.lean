import Mathlib
import Dissect.Text.Utf8

/-!
What the bytes of a text are.

A strict reading takes the bytes of a text and no others. The bytes that one character can have are
described from the first of them on, as the reading meets them, and the description leaves the
bytes of the character alone. Texts are in the order of their bytes, which is the order of file
names on a disk. Bytes below 128 are one character each.
-/

namespace Dissect.Utf8

/-! ### The bytes of a character -/

/-- A character in progress after one more byte of it. -/
def Pending.next (p : Pending) (b : UInt8) : Pending :=
  ⟨p.owed - 1, 0x80, 0xBF, p.code * 64 + (b.toNat - 0x80)⟩

/-- The bytes that end a character in progress. -/
def Finishes : Pending → Bytes → Char → Prop
  | _, [], _ => False
  | p, b :: bs, c => (p.low.toNat ≤ b.toNat ∧ b.toNat ≤ p.high.toNat) ∧
    if p.owed ≤ 1 then bs = [] ∧ c = Char.ofNat (p.next b).code
    else Finishes (p.next b) bs c

/-- The bytes that are read as one character. -/
inductive IsCode : Bytes → Char → Prop
  | single {b : UInt8} {c : Char} (h : lead b = .single c) : IsCode [b] c
  | multi {b : UInt8} {p : Pending} {bs : Bytes} {c : Char} (h : lead b = .multi p)
      (hbs : Finishes p bs c) : IsCode (b :: bs) c

lemma toNat_byte {n : ℕ} (h : n < 256) : (UInt8.ofNat n).toNat = n := by
  rw [UInt8.toNat_ofNat', Nat.mod_eq_of_lt h]

lemma lead_single {n : ℕ} (h : n < 0x80) : lead (UInt8.ofNat n) = .single (Char.ofNat n) := by
  simp only [lead, toNat_byte (show n < 256 by omega), h, if_true]

lemma lead_two {b : UInt8} (h : 0xC2 ≤ b.toNat) (h' : b.toNat < 0xE0) :
    lead b = .multi ⟨1, 0x80, 0xBF, b.toNat - 0xC0⟩ := by
  unfold lead
  simp only [show ¬b.toNat < 0x80 by omega, show ¬b.toNat < 0xC2 by omega, h', if_true, if_false]

lemma lead_three {b : UInt8} (h : 0xE0 ≤ b.toNat) (h' : b.toNat < 0xF0) :
    lead b = .multi ⟨2, if b.toNat = 0xE0 then 0xA0 else 0x80,
      if b.toNat = 0xED then 0x9F else 0xBF, b.toNat - 0xE0⟩ := by
  unfold lead
  simp only [show ¬b.toNat < 0x80 by omega, show ¬b.toNat < 0xC2 by omega,
    show ¬b.toNat < 0xE0 by omega, h', if_true, if_false]
  split_ifs <;> simp_all

lemma lead_four {b : UInt8} (h : 0xF0 ≤ b.toNat) (h' : b.toNat < 0xF5) :
    lead b = .multi ⟨3, if b.toNat = 0xF0 then 0x90 else 0x80,
      if b.toNat = 0xF4 then 0x8F else 0xBF, b.toNat - 0xF0⟩ := by
  unfold lead
  simp only [show ¬b.toNat < 0x80 by omega, show ¬b.toNat < 0xC2 by omega,
    show ¬b.toNat < 0xE0 by omega, show ¬b.toNat < 0xF0 by omega, if_false]
  split_ifs <;> first | omega | simp_all

lemma code_range (c : Char) : c.toNat < 0xD800 ∨ 0xDFFF < c.toNat ∧ c.toNat < 0x110000 := c.valid

lemma toNat_char {n : ℕ} (h : n < 0xD800 ∨ 0xDFFF < n ∧ n < 0x110000) :
    (Char.ofNat n).toNat = n := by
  rw [Char.ofNat, dif_pos h]
  rfl

/-- A byte that ends a character. -/
lemma finishes_last {low high : UInt8} {code k : ℕ} {c : Char} (hk : k < 64)
    (hlow : low.toNat ≤ k + 128) (hhigh : k + 128 ≤ high.toNat) (hc : code * 64 + k = c.toNat) :
    Finishes ⟨1, low, high, code⟩ [UInt8.ofNat (k + 128)] c := by
  have hbyte := toNat_byte (show k + 128 < 256 by omega)
  refine ⟨by rw [hbyte]; exact ⟨hlow, hhigh⟩, rfl, ?_⟩
  rw [Pending.next, hbyte, Nat.add_sub_cancel, hc, Char.ofNat_toNat]

/-- A byte that goes on with a character. -/
lemma finishes_more {low high : UInt8} {owed code k : ℕ} {bs : Bytes} {c : Char} (hk : k < 64)
    (hlow : low.toNat ≤ k + 128) (hhigh : k + 128 ≤ high.toNat)
    (h : Finishes ⟨owed + 1, 0x80, 0xBF, code * 64 + k⟩ bs c) :
    Finishes ⟨owed + 2, low, high, code⟩ (UInt8.ofNat (k + 128) :: bs) c := by
  have hbyte := toNat_byte (show k + 128 < 256 by omega)
  refine ⟨by rw [hbyte]; exact ⟨hlow, hhigh⟩, ?_⟩
  rw [if_neg (by simp), Pending.next, hbyte, Nat.add_sub_cancel]
  exact h

/-- The bytes of a character are a code of it. -/
lemma isCode_utf8EncodeChar (c : Char) : IsCode (String.utf8EncodeChar c) c := by
  have hrange := code_range c
  have hval : c.val.toNat = c.toNat := rfl
  have h80 : (0x80 : UInt8).toNat = 0x80 := rfl
  have hBF : (0xBF : UInt8).toNat = 0xBF := rfl
  simp only [String.utf8EncodeChar, hval]
  split_ifs with h1 h2 h3
  · refine .single ?_
    rw [lead_single (by omega), Char.ofNat_toNat]
  · have hlead : (UInt8.ofNat (c.toNat / 64 % 32 + 192)).toNat = c.toNat / 64 + 192 := by
      rw [toNat_byte (by omega)]
      omega
    refine .multi (lead_two (by omega) (by omega)) ?_
    rw [hlead]
    exact finishes_last (by omega) (by omega) (by omega) (by omega)
  · have hlead : (UInt8.ofNat (c.toNat / 4096 % 16 + 224)).toNat = c.toNat / 4096 + 224 := by
      rw [toNat_byte (by omega)]
      omega
    refine .multi (lead_three (by omega) (by omega)) ?_
    rw [hlead]
    refine finishes_more (by omega) ?_ ?_
      (finishes_last (by omega) (by omega) (by omega) (by omega))
    · split_ifs
      · have : (0xA0 : UInt8).toNat = 0xA0 := rfl
        omega
      · omega
    · split_ifs
      · have : (0x9F : UInt8).toNat = 0x9F := rfl
        omega
      · omega
  · have hlead : (UInt8.ofNat (c.toNat / 262144 % 8 + 240)).toNat = c.toNat / 262144 + 240 := by
      rw [toNat_byte (by omega)]
      omega
    refine .multi (lead_four (by omega) (by omega)) ?_
    rw [hlead]
    refine finishes_more (by omega) ?_ ?_ (finishes_more (by omega)
      (by omega) (by omega) (finishes_last (by omega) (by omega) (by omega) (by omega)))
    · split_ifs
      · have : (0x90 : UInt8).toNat = 0x90 := rfl
        omega
      · omega
    · split_ifs
      · have : (0x8F : UInt8).toNat = 0x8F := rfl
        omega
      · omega

lemma finishes_one_iff {low high : UInt8} {code : ℕ} {bs : Bytes} {c : Char} :
    Finishes ⟨1, low, high, code⟩ bs c ↔ ∃ b, bs = [b] ∧
      (low.toNat ≤ b.toNat ∧ b.toNat ≤ high.toNat) ∧
      c = Char.ofNat (code * 64 + (b.toNat - 0x80)) := by
  rcases bs with _ | ⟨b, bs⟩
  · simp [Finishes]
  · simp only [Finishes, le_refl, if_true, List.cons.injEq]
    constructor
    · rintro ⟨hb, rfl, hc⟩
      exact ⟨b, ⟨rfl, rfl⟩, hb, hc⟩
    · rintro ⟨_, ⟨rfl, rfl⟩, hb, hc⟩
      exact ⟨hb, rfl, hc⟩

lemma finishes_succ_iff {low high : UInt8} {owed code : ℕ} {bs : Bytes} {c : Char} :
    Finishes ⟨owed + 2, low, high, code⟩ bs c ↔ ∃ b rest, bs = b :: rest ∧
      (low.toNat ≤ b.toNat ∧ b.toNat ≤ high.toNat) ∧
      Finishes ⟨owed + 1, 0x80, 0xBF, code * 64 + (b.toNat - 0x80)⟩ rest c := by
  rcases bs with _ | ⟨b, bs⟩
  · simp [Finishes]
  · rw [Finishes, if_neg (by simp)]
    constructor
    · rintro ⟨hb, h⟩
      exact ⟨b, bs, rfl, hb, h⟩
    · rintro ⟨_, _, ⟨rfl, rfl⟩, hb, h⟩
      exact ⟨hb, h⟩

lemma ofNat_eq {b : UInt8} {n : ℕ} (h : n = b.toNat) : UInt8.ofNat n = b := by
  rw [h, UInt8.ofNat_toNat]

/-- What a first byte can promise. -/
lemma lead_cases (b : UInt8) :
    b.toNat < 0x80 ∧ lead b = .single (Char.ofNat b.toNat) ∨
      (0xC2 ≤ b.toNat ∧ b.toNat < 0xE0) ∧ lead b = .multi ⟨1, 0x80, 0xBF, b.toNat - 0xC0⟩ ∨
      (0xE0 ≤ b.toNat ∧ b.toNat < 0xF0) ∧ lead b = .multi ⟨2,
        if b.toNat = 0xE0 then 0xA0 else 0x80, if b.toNat = 0xED then 0x9F else 0xBF,
        b.toNat - 0xE0⟩ ∨
      (0xF0 ≤ b.toNat ∧ b.toNat < 0xF5) ∧ lead b = .multi ⟨3,
        if b.toNat = 0xF0 then 0x90 else 0x80, if b.toNat = 0xF4 then 0x8F else 0xBF,
        b.toNat - 0xF0⟩ ∨
      lead b = .bad := by
  rcases Nat.lt_or_ge b.toNat 0x80 with h1 | h1
  · exact .inl ⟨h1, if_pos h1⟩
  rcases Nat.lt_or_ge b.toNat 0xC2 with h2 | h2
  · exact .inr (.inr (.inr (.inr ((if_neg (by omega)).trans (if_pos h2)))))
  rcases Nat.lt_or_ge b.toNat 0xE0 with h3 | h3
  · exact .inr (.inl ⟨⟨h2, h3⟩, lead_two h2 h3⟩)
  rcases Nat.lt_or_ge b.toNat 0xF0 with h4 | h4
  · exact .inr (.inr (.inl ⟨⟨h3, h4⟩, lead_three h3 h4⟩))
  rcases Nat.lt_or_ge b.toNat 0xF5 with h5 | h5
  · exact .inr (.inr (.inr (.inl ⟨⟨h4, h5⟩, lead_four h4 h5⟩)))
  · refine .inr (.inr (.inr (.inr ?_)))
    unfold lead
    simp only [show ¬b.toNat < 0x80 by omega, show ¬b.toNat < 0xC2 by omega,
      show ¬b.toNat < 0xE0 by omega, show ¬b.toNat = 0xE0 by omega, show ¬b.toNat = 0xED by omega,
      show ¬b.toNat < 0xF0 by omega, show ¬b.toNat = 0xF0 by omega, show ¬b.toNat < 0xF4 by omega,
      show ¬b.toNat = 0xF4 by omega, if_false]

/-- The least second byte is raised after some first bytes. -/
lemma of_raised {p : Prop} [Decidable p] {low b : UInt8} (hlow : 0x80 ≤ low.toNat)
    (h : (if p then low else 0x80).toNat ≤ b.toNat) :
    (p → low.toNat ≤ b.toNat) ∧ 0x80 ≤ b.toNat := by
  have h80 : (0x80 : UInt8).toNat = 0x80 := rfl
  split_ifs at h with hp
  · exact ⟨fun _ => h, by omega⟩
  · exact ⟨fun h' => absurd h' hp, by omega⟩

/-- The greatest second byte is lowered after some first bytes. -/
lemma of_lowered {p : Prop} [Decidable p] {high b : UInt8} (hhigh : high.toNat ≤ 0xBF)
    (h : b.toNat ≤ (if p then high else 0xBF).toNat) :
    (p → b.toNat ≤ high.toNat) ∧ b.toNat ≤ 0xBF := by
  have hBF : (0xBF : UInt8).toNat = 0xBF := rfl
  split_ifs at h with hp
  · exact ⟨fun _ => h, by omega⟩
  · exact ⟨fun h' => absurd h' hp, by omega⟩

/-- A character has no other code than its bytes. -/
lemma IsCode.eq {bs : Bytes} {c : Char} (h : IsCode bs c) : String.utf8EncodeChar c = bs := by
  have h80 : (0x80 : UInt8).toNat = 0x80 := rfl
  have hBF : (0xBF : UInt8).toNat = 0xBF := rfl
  have hval : c.val.toNat = c.toNat := rfl
  cases h with
  | @single b _ h =>
    obtain ⟨hb, h'⟩ | ⟨-, h'⟩ | ⟨-, h'⟩ | ⟨-, h'⟩ | h' := lead_cases b <;>
      rw [h'] at h <;> cases h
    have hv := toNat_char (n := b.toNat) (by omega)
    simp only [String.utf8EncodeChar, hval, hv]
    rw [if_pos (by omega), ofNat_eq rfl]
  | @multi b p bs _ h hbs =>
    obtain ⟨-, h'⟩ | ⟨hb, h'⟩ | ⟨hb, h'⟩ | ⟨hb, h'⟩ | h' := lead_cases b <;>
      rw [h'] at h <;> cases h
    · obtain ⟨b₁, rfl, hb₁, hc⟩ := finishes_one_iff.mp hbs
      have hv := congrArg Char.toNat hc
      rw [toNat_char (by omega)] at hv
      simp only [String.utf8EncodeChar, hval, hv]
      rw [if_neg (by omega), if_pos (by omega), ofNat_eq (b := b) (by omega),
        ofNat_eq (b := b₁) (by omega)]
    · obtain ⟨b₁, _, rfl, hb₁, hrest⟩ := finishes_succ_iff.mp hbs
      obtain ⟨b₂, rfl, hb₂, hc⟩ := finishes_one_iff.mp hrest
      have hlow := of_raised (show 0x80 ≤ (0xA0 : UInt8).toNat by decide) hb₁.1
      have hhigh := of_lowered (show (0x9F : UInt8).toNat ≤ 0xBF by decide) hb₁.2
      simp only [show (0xA0 : UInt8).toNat = 0xA0 from rfl] at hlow
      simp only [show (0x9F : UInt8).toNat = 0x9F from rfl] at hhigh
      have hv := congrArg Char.toNat hc
      rw [toNat_char (by omega)] at hv
      simp only [String.utf8EncodeChar, hval, hv]
      rw [if_neg (by omega), if_neg (by omega), if_pos (by omega), ofNat_eq (b := b) (by omega),
        ofNat_eq (b := b₁) (by omega), ofNat_eq (b := b₂) (by omega)]
    · obtain ⟨b₁, _, rfl, hb₁, hrest⟩ := finishes_succ_iff.mp hbs
      obtain ⟨b₂, _, rfl, hb₂, hrest⟩ := finishes_succ_iff.mp hrest
      obtain ⟨b₃, rfl, hb₃, hc⟩ := finishes_one_iff.mp hrest
      have hlow := of_raised (show 0x80 ≤ (0x90 : UInt8).toNat by decide) hb₁.1
      have hhigh := of_lowered (show (0x8F : UInt8).toNat ≤ 0xBF by decide) hb₁.2
      simp only [show (0x90 : UInt8).toNat = 0x90 from rfl] at hlow
      simp only [show (0x8F : UInt8).toNat = 0x8F from rfl] at hhigh
      have hv := congrArg Char.toNat hc
      rw [toNat_char (by omega)] at hv
      simp only [String.utf8EncodeChar, hval, hv]
      rw [if_neg (by omega), if_neg (by omega), if_neg (by omega), ofNat_eq (b := b) (by omega),
        ofNat_eq (b := b₁) (by omega), ofNat_eq (b := b₂) (by omega),
        ofNat_eq (b := b₃) (by omega)]

/-! ### Whole texts -/

/-- What comes of bytes of which the first starts a character. -/
def begun (b : UInt8) (rest : Option Pending → List (Option Char)) : List (Option Char) :=
  match lead b with
  | .single c => some c :: rest none
  | .multi p => rest (some p)
  | .bad => none :: rest none

/-- The characters and gaps of bytes that go on with a character in progress. -/
def emitted : Bytes → Option Pending → List (Option Char)
  | [], none => []
  | [], some _ => [none]
  | b :: bs, none => begun b (emitted bs)
  | b :: bs, some p =>
    if p.low ≤ b ∧ b ≤ p.high then
      if p.owed ≤ 1 then some (Char.ofNat (p.next b).code) :: emitted bs none
      else emitted bs (some (p.next b))
    else none :: begun b (emitted bs)

/-- The characters and gaps that a state of the reading stands for. -/
def St.result (s : St) : List (Option Char) :=
  (if s.pending.isSome then none :: s.done else s.done).reverse

lemma result_foldl (bs : Bytes) (s : St) :
    (bs.foldl step s).result = s.done.reverse ++ emitted bs s.pending := by
  have hstart : ∀ (b : UInt8) (bs : Bytes) (done : List (Option Char)),
      (∀ s : St, (bs.foldl step s).result = s.done.reverse ++ emitted bs s.pending) →
      (bs.foldl step (start done b)).result = done.reverse ++ begun b (emitted bs) := by
    intro b bs done ih
    rw [ih]
    unfold start begun
    rcases lead b with c | p | _ <;> simp
  induction bs generalizing s with
  | nil =>
    obtain ⟨done, _ | p⟩ := s <;> simp [St.result, emitted]
  | cons b bs ih =>
    obtain ⟨done, _ | p⟩ := s
    · exact hstart b bs done ih
    · rw [List.foldl_cons, step]
      dsimp only
      by_cases hb : p.low ≤ b ∧ b ≤ p.high
      · rw [if_pos hb, emitted, if_pos hb]
        split_ifs
        · rw [ih]
          simp [Pending.next]
        · rw [ih]
          rfl
      · rw [if_neg hb, emitted, if_neg hb, hstart b bs _ ih]
        simp

lemma scan_eq_emitted (bs : Bytes) : scan bs = emitted bs none := result_foldl bs ⟨[], none⟩

/-- The bytes spell characters, of which the first may be in progress. -/
def Spells : Option Pending → Bytes → List Char → Prop
  | none, bs, cs => cs.flatMap String.utf8EncodeChar = bs
  | some p, bs, cs => ∃ front c rest, cs = c :: rest ∧ Finishes p front c ∧
    front ++ rest.flatMap String.utf8EncodeChar = bs

lemma spells_none_cons {b : UInt8} {bs : Bytes} {cs : List Char} :
    Spells none (b :: bs) cs ↔
      (∃ c rest, cs = c :: rest ∧ lead b = .single c ∧ Spells none bs rest) ∨
        ∃ p, lead b = .multi p ∧ Spells (some p) bs cs := by
  constructor
  · intro h
    rcases cs with _ | ⟨c, cs⟩
    · simp [Spells] at h
    · rw [Spells, List.flatMap_cons] at h
      have hcode := isCode_utf8EncodeChar c
      generalize String.utf8EncodeChar c = code at h hcode
      cases hcode with
      | single hlead =>
        obtain ⟨rfl, rfl⟩ := List.cons.inj h
        exact .inl ⟨c, cs, rfl, hlead, rfl⟩
      | multi hlead hbs =>
        obtain ⟨rfl, rfl⟩ := List.cons.inj h
        exact .inr ⟨_, hlead, _, c, cs, rfl, hbs, rfl⟩
  · rintro (⟨c, rest, rfl, hlead, rfl⟩ | ⟨p, hlead, front, c, rest, rfl, hfront, rfl⟩)
    · rw [Spells, List.flatMap_cons, (IsCode.single hlead).eq]
      rfl
    · rw [Spells, List.flatMap_cons, (IsCode.multi hlead hfront).eq]
      rfl

lemma spells_some_cons {p : Pending} {b : UInt8} {bs : Bytes} {cs : List Char} :
    Spells (some p) (b :: bs) cs ↔ (p.low ≤ b ∧ b ≤ p.high) ∧
      if p.owed ≤ 1 then ∃ rest, cs = Char.ofNat (p.next b).code :: rest ∧ Spells none bs rest
      else Spells (some (p.next b)) bs cs := by
  constructor
  · rintro ⟨_ | ⟨b', front⟩, c, rest, rfl, hfront, heq⟩
    · exact hfront.elim
    · obtain ⟨rfl, rfl⟩ := List.cons.inj heq
      obtain ⟨hb, hrest⟩ := hfront
      refine ⟨hb, ?_⟩
      split_ifs at hrest ⊢
      · obtain ⟨rfl, hc⟩ := hrest
        exact ⟨rest, by rw [hc], rfl⟩
      · exact ⟨front, c, rest, rfl, hrest, rfl⟩
  · rintro ⟨hb, h⟩
    split_ifs at h with howed
    · obtain ⟨rest, rfl, rfl⟩ := h
      exact ⟨[b], _, rest, rfl, ⟨hb, by rw [if_pos howed]; exact ⟨rfl, rfl⟩⟩, rfl⟩
    · obtain ⟨front, c, rest, rfl, hfront, rfl⟩ := h
      exact ⟨b :: front, c, rest, rfl, ⟨hb, by rwa [if_neg howed]⟩, rfl⟩

lemma emitted_eq_map_iff {bs : Bytes} {pending : Option Pending} {cs : List Char} :
    emitted bs pending = cs.map some ↔ Spells pending bs cs := by
  have hsome : ∀ {c : Char} {out : List (Option Char)} {cs : List Char},
      some c :: out = cs.map some ↔ ∃ rest, cs = c :: rest ∧ out = rest.map some := by
    intro c out cs
    rcases cs with _ | ⟨d, cs⟩
    · simp
    · simp [eq_comm]
  have hgap : ∀ {out : List (Option Char)} {cs : List Char}, none :: out ≠ cs.map some := by
    intro out cs
    rcases cs with _ | ⟨d, cs⟩ <;> simp
  induction bs generalizing pending cs with
  | nil =>
    rcases pending with _ | p
    · rcases cs with _ | ⟨c, cs⟩ <;> simp [emitted, Spells]
    · refine iff_of_false hgap ?_
      rintro ⟨front, c, rest, -, hfront, heq⟩
      obtain ⟨rfl, -⟩ := List.append_eq_nil_iff.mp heq
      exact hfront
  | cons b bs ih =>
    rcases pending with _ | p
    · rw [spells_none_cons, emitted, begun]
      rcases hlead : lead b with c | p | _
      · simp only [hsome, ih, Lead.single.injEq, reduceCtorEq, false_and, exists_false, or_false]
        constructor
        · rintro ⟨rest, hcs, h⟩
          exact ⟨c, rest, hcs, rfl, h⟩
        · rintro ⟨_, rest, hcs, rfl, h⟩
          exact ⟨rest, hcs, h⟩
      · simp [ih]
      · simp [hgap]
    · rw [spells_some_cons, emitted]
      by_cases hb : p.low ≤ b ∧ b ≤ p.high
      · rw [if_pos hb, and_iff_right hb]
        split_ifs
        · rw [hsome]
          exact exists_congr fun rest => and_congr_right fun _ => ih
        · exact ih
      · rw [if_neg hb]
        exact iff_of_false hgap fun h => hb h.1

lemma mapM_id_eq_some_iff {out : List (Option Char)} {cs : List Char} :
    out.mapM id = some cs ↔ out = cs.map some := by
  induction out generalizing cs with
  | nil => rcases cs with _ | ⟨d, cs⟩ <;> simp
  | cons o out ih =>
    rcases o with _ | c
    · rcases cs with _ | ⟨d, cs⟩ <;> simp
    · rw [List.mapM_cons]
      rcases hout : out.mapM id with _ | ds
      · rcases cs with _ | ⟨d, cs⟩
        · simp
        · simp [← ih, hout]
      · rcases cs with _ | ⟨d, cs⟩
        · simp
        · simp [← ih, hout]

/-- **The bytes of a text are the only ones that are read as the text.** -/
lemma decode?_eq_some_iff {bs : Bytes} {s : String} : decode? bs = some s ↔ encode s = bs := by
  rw [decode?, Option.map_eq_some_iff, encode]
  constructor
  · rintro ⟨cs, hcs, rfl⟩
    rw [mapM_id_eq_some_iff, scan_eq_emitted, emitted_eq_map_iff] at hcs
    rw [String.toList_ofList]
    exact hcs
  · intro h
    refine ⟨s.toList, ?_, String.ofList_toList⟩
    rw [mapM_id_eq_some_iff, scan_eq_emitted, emitted_eq_map_iff]
    exact h

/-! ### The order of texts -/

lemma byte_cons_lt {m n : ℕ} {x y : Bytes} (hm : m < 256) (hn : n < 256)
    (h : m < n ∨ m = n ∧ x < y) : UInt8.ofNat m :: x < UInt8.ofNat n :: y := by
  rw [List.cons_lt_cons_iff, UInt8.lt_iff_toNat_lt, UInt8.toNat_ofNat', UInt8.toNat_ofNat',
    Nat.mod_eq_of_lt hm, Nat.mod_eq_of_lt hn]
  exact h.imp_right fun ⟨heq, hxy⟩ => ⟨by rw [heq], hxy⟩

/-- The later bytes of a character hold six bits each. -/
lemma later_cons_lt {m n : ℕ} {x y : Bytes} (h : m % 64 < n % 64 ∨ m % 64 = n % 64 ∧ x < y) :
    UInt8.ofNat (m % 64 + 128) :: x < UInt8.ofNat (n % 64 + 128) :: y :=
  byte_cons_lt (by omega) (by omega) (h.imp (by omega) (And.imp_left (by omega)))

/-- Characters are in the order of their first bytes that differ. -/
lemma utf8EncodeChar_append_lt {c d : Char} (h : c < d) (x y : Bytes) :
    String.utf8EncodeChar c ++ x < String.utf8EncodeChar d ++ y := by
  have hlt : c.toNat < d.toNat := h
  have hc : c.val.toNat = c.toNat := rfl
  have hd : d.val.toNat = d.toNat := rfl
  have hmax : d.toNat < 0x110000 := by
    rcases d.valid with h | h
    · exact h.trans (by decide)
    · exact h.2
  simp only [String.utf8EncodeChar, hc, hd]
  -- a character of more bytes has a greater first byte, so two of one size are left
  split_ifs <;> simp only [List.cons_append, List.nil_append] <;>
    refine byte_cons_lt (by omega) (by omega) ?_
  all_goals try omega
  · rcases Nat.lt_or_ge (c.toNat / 64) (d.toNat / 64) with h1 | h1
    · exact .inl (by omega)
    · exact .inr ⟨by omega, later_cons_lt (.inl (by omega))⟩
  · rcases Nat.lt_or_ge (c.toNat / 4096) (d.toNat / 4096) with h1 | h1
    · exact .inl (by omega)
    refine .inr ⟨by omega, later_cons_lt ?_⟩
    rcases Nat.lt_or_ge (c.toNat / 64) (d.toNat / 64) with h2 | h2
    · exact .inl (by omega)
    · exact .inr ⟨by omega, later_cons_lt (.inl (by omega))⟩
  · rcases Nat.lt_or_ge (c.toNat / 262144) (d.toNat / 262144) with h1 | h1
    · exact .inl (by omega)
    refine .inr ⟨by omega, later_cons_lt ?_⟩
    rcases Nat.lt_or_ge (c.toNat / 4096) (d.toNat / 4096) with h2 | h2
    · exact .inl (by omega)
    refine .inr ⟨by omega, later_cons_lt ?_⟩
    rcases Nat.lt_or_ge (c.toNat / 64) (d.toNat / 64) with h3 | h3
    · exact .inl (by omega)
    · exact .inr ⟨by omega, later_cons_lt (.inl (by omega))⟩

/-- **Texts are in the order of their bytes.** -/
lemma encode_lt_encode {s t : String} (h : s < t) : encode s < encode t := by
  have hlists : ∀ cs ds : List Char, cs < ds →
      cs.flatMap String.utf8EncodeChar < ds.flatMap String.utf8EncodeChar := by
    intro cs
    induction cs with
    | nil =>
      rintro (_ | ⟨d, ds⟩) hlt
      · exact absurd hlt (List.not_lt_nil _)
      · rcases hd : String.utf8EncodeChar d with _ | ⟨b, bs⟩
        · exact absurd hd (String.utf8EncodeChar_ne_nil)
        · simp [hd]
    | cons c cs ih =>
      rintro (_ | ⟨d, ds⟩) hlt
      · exact absurd hlt (List.not_lt_nil _)
      · rw [List.flatMap_cons, List.flatMap_cons]
        rcases List.cons_lt_cons_iff.mp hlt with hcd | ⟨rfl, hrest⟩
        · exact utf8EncodeChar_append_lt hcd _ _
        · exact List.append_left_lt (ih ds hrest)
  exact hlists s.toList t.toList (String.lt_iff_toList_lt.mp h)

lemma map_encode_lt {ss ts : List String} (h : ss < ts) : ss.map encode < ts.map encode := by
  induction ss generalizing ts with
  | nil =>
    rcases ts with _ | ⟨t, ts⟩
    · exact absurd h (List.not_lt_nil _)
    · exact List.nil_lt_cons _ _
  | cons s ss ih =>
    rcases ts with _ | ⟨t, ts⟩
    · exact absurd h (List.not_lt_nil _)
    · rw [List.map_cons, List.map_cons, List.cons_lt_cons_iff]
      rcases List.cons_lt_cons_iff.mp h with hst | ⟨rfl, hrest⟩
      · exact .inl (encode_lt_encode hst)
      · exact .inr ⟨rfl, ih hrest⟩

/-! ### ASCII -/

/-- Each byte of an ASCII text is a character. -/
lemma foldl_step_ascii (bs : Bytes) (h : ∀ b ∈ bs, b.toNat < 0x80) (done : List (Option Char)) :
    bs.foldl step ⟨done, none⟩ =
      ⟨(bs.map fun b => some (Char.ofNat b.toNat)).reverse ++ done, none⟩ := by
  induction bs generalizing done with
  | nil => rfl
  | cons b bs ih =>
    have hb : b.toNat < 0x80 := h b (by simp)
    have hstep : step ⟨done, none⟩ b = ⟨some (Char.ofNat b.toNat) :: done, none⟩ := by
      simp only [step, start, lead, hb, if_true]
    rw [List.foldl_cons, hstep, ih fun b' hb' => h b' (by simp [hb'])]
    simp

lemma decodeLossy_of_ascii {bs : Bytes} (h : ∀ b ∈ bs, b.toNat < 0x80) :
    decodeLossy bs = String.ofList (bs.map fun b => Char.ofNat b.toNat) := by
  unfold decodeLossy scan
  rw [foldl_step_ascii bs h []]
  simp [Function.comp_def]

end Dissect.Utf8
