import Mathlib
import Dissect.Obfuscation.Junk

/-!
What is left when junk is removed does not depend on the order of removal.

A reduction takes out a single instruction without effect, or a push together with the pop right
behind it. Two reductions never compete for an instruction, since no push is a pop, so the pass over
the list, which keeps a stack, may be compared with reductions made anywhere in the list: a
reduction does not change the result of the pass.
-/

namespace Dissect.Junk

open Relation

/-- One reduction of a list of instructions. -/
inductive Reduces : List Instruction → List Instruction → Prop where
  | nop (xs ys : List Instruction) {i : Instruction} (hi : i.mnemonic = "nop") :
      Reduces (xs ++ i :: ys) (xs ++ ys)
  | selfXor (xs ys : List Instruction) {i : Instruction} {a : String} (hi : i.mnemonic = "xor")
      (ho : i.operands = [a, a]) : Reduces (xs ++ i :: ys) (xs ++ ys)
  | pair (xs ys : List Instruction) {i j : Instruction} (hi : i.mnemonic = "push")
      (hj : j.mnemonic = "pop") (ho : i.operands = j.operands) :
      Reduces (xs ++ i :: j :: ys) (xs ++ ys)

/-- Any number of reductions, one after the other. -/
def Reaches : List Instruction → List Instruction → Prop := ReflTransGen Reduces

/-- Nothing is left to reduce. -/
def Normal (is : List Instruction) : Prop := ∀ js, ¬Reduces is js

/-- The second list is what reductions of the first one end in, whatever their order. -/
structure IsNormalForm (is js : List Instruction) : Prop where
  reached : Reaches is js
  normal : Normal js
  joins : ∀ ks, Reaches is ks → Reaches ks js
  unique : ∀ ks, Reaches is ks → Normal ks → ks = js

variable {i j : Instruction} {is js kept : List Instruction}

/-! ### Junk by its mnemonics -/

lemma isJunk_iff :
    isJunk i ↔ i.mnemonic = "nop" ∨ i.mnemonic = "xor" ∧ ∃ a, i.operands = [a, a] := by
  unfold isJunk isNop isSelfXor
  simp only [Bool.or_eq_true, Bool.and_eq_true, beq_iff_eq]
  refine or_congr_right (and_congr_right fun _ => ?_)
  split
  · next a b h =>
    rw [h, beq_iff_eq]
    constructor
    · rintro rfl
      exact ⟨a, rfl⟩
    · rintro ⟨c, hc⟩
      simp_all
  · next h => simpa using fun a ha => h a a ha

lemma cancels_iff :
    cancels i j ↔ i.mnemonic = "push" ∧ j.mnemonic = "pop" ∧ i.operands = j.operands := by
  simp [cancels, and_assoc]

/-- What a reduction takes out of a list. -/
lemma reduces_iff :
    Reduces is js ↔
      (∃ xs i ys, isJunk i ∧ is = xs ++ i :: ys ∧ js = xs ++ ys) ∨
      ∃ xs i j ys, cancels i j ∧ is = xs ++ i :: j :: ys ∧ js = xs ++ ys := by
  constructor
  · intro h
    cases h with
    | nop xs ys hi => exact .inl ⟨xs, _, ys, isJunk_iff.mpr (.inl hi), rfl, rfl⟩
    | selfXor xs ys hi ho => exact .inl ⟨xs, _, ys, isJunk_iff.mpr (.inr ⟨hi, _, ho⟩), rfl, rfl⟩
    | pair xs ys hi hj ho => exact .inr ⟨xs, _, _, ys, cancels_iff.mpr ⟨hi, hj, ho⟩, rfl, rfl⟩
  · rintro (⟨xs, i, ys, h, rfl, rfl⟩ | ⟨xs, i, j, ys, h, rfl, rfl⟩)
    · rcases isJunk_iff.mp h with hi | ⟨hi, a, ho⟩
      · exact .nop xs ys hi
      · exact .selfXor xs ys hi ho
    · obtain ⟨hi, hj, ho⟩ := cancels_iff.mp h
      exact .pair xs ys hi hj ho

lemma normal_iff :
    Normal is ↔ (∀ i ∈ is, ¬isJunk i) ∧ is.IsChain fun i j => ¬cancels i j := by
  rw [List.isChain_iff_forall_rel_of_append_cons_cons]
  simp only [Normal, reduces_iff, not_or]
  constructor
  · intro h
    refine ⟨fun i hi hjunk => ?_, fun i j xs ys his hc => ?_⟩
    · obtain ⟨xs, ys, rfl⟩ := List.append_of_mem hi
      exact (h _).1 ⟨xs, i, ys, hjunk, rfl, rfl⟩
    · exact (h _).2 ⟨xs, i, j, ys, hc, his, rfl⟩
  · rintro ⟨hjunk, hpair⟩ js
    constructor
    · rintro ⟨xs, i, ys, hi, rfl, -⟩
      exact hjunk i (by simp) hi
    · rintro ⟨xs, i, j, ys, hc, his, -⟩
      exact hpair his hc

/-- A push is not junk by itself, and undoes nothing. -/
lemma of_push (h : i.mnemonic = "push") : ¬isJunk i ∧ ∀ k, ¬cancels k i := by
  simp [isJunk_iff, cancels_iff, h]

lemma not_isJunk_of_pop (h : j.mnemonic = "pop") : ¬isJunk j := by
  simp [isJunk_iff, h]

/-! ### One instruction more on the stack -/

lemma keep_of_isJunk (h : isJunk i) : keep kept i = kept := if_pos h

lemma keep_of_cancels (h : cancels i j) : keep (i :: kept) j = kept := by
  have hj := not_isJunk_of_pop (cancels_iff.mp h).2.1
  simp [keep, hj, h]

lemma keep_of_not_cancels (hi : ¬isJunk i) (h : ∀ k ∈ kept.head?, ¬cancels k i) :
    keep kept i = i :: kept := by
  unfold keep
  rw [if_neg hi]
  cases kept with
  | nil => rfl
  | cons k kept => simp [h k (by simp)]

/-- What the next instruction does to the stack. -/
lemma keep_cases (kept : List Instruction) (i : Instruction) :
    (isJunk i ∧ keep kept i = kept) ∨
    (∃ k rest, kept = k :: rest ∧ cancels k i ∧ keep kept i = rest) ∨
    (¬isJunk i ∧ (∀ k ∈ kept.head?, ¬cancels k i) ∧ keep kept i = i :: kept) := by
  by_cases hi : isJunk i
  · exact .inl ⟨hi, keep_of_isJunk hi⟩
  · by_cases hc : ∃ k ∈ kept.head?, cancels k i
    · obtain ⟨k, hk, hc⟩ := hc
      cases kept with
      | nil => simp at hk
      | cons l rest =>
        obtain rfl : l = k := by simpa using hk
        exact .inr (.inl ⟨l, rest, rfl, hc, keep_of_cancels hc⟩)
    · push Not at hc
      exact .inr (.inr ⟨hi, hc, keep_of_not_cancels hi hc⟩)

/-- A pair leaves the stack as it was, also on top of another push. -/
lemma keep_keep_of_cancels (h : cancels i j) : keep (keep kept i) j = kept := by
  obtain ⟨hjunk, hnone⟩ := of_push (cancels_iff.mp h).1
  rw [keep_of_not_cancels hjunk fun k _ => hnone k, keep_of_cancels h]

/-- The stack with the last instruction first is normal when read from its bottom. -/
def Settled (kept : List Instruction) : Prop := Normal kept.reverse

lemma settled_nil : Settled [] := by simp [Settled, normal_iff]

lemma settled_cons :
    Settled (i :: kept) ↔ ¬isJunk i ∧ (∀ k ∈ kept.head?, ¬cancels k i) ∧ Settled kept := by
  simp only [Settled, normal_iff, List.mem_reverse, List.isChain_reverse, List.forall_mem_cons,
    List.isChain_cons]
  tauto

lemma settled_keep (h : Settled kept) (i : Instruction) : Settled (keep kept i) := by
  rcases keep_cases kept i with ⟨-, hk⟩ | ⟨k, rest, rfl, -, hk⟩ | ⟨hi, hc, hk⟩
  · rwa [hk]
  · rw [hk]
    exact (settled_cons.mp h).2.2
  · rw [hk]
    exact settled_cons.mpr ⟨hi, hc, h⟩

lemma reaches_keep (kept : List Instruction) (i : Instruction) (is : List Instruction) :
    Reaches (kept.reverse ++ i :: is) ((keep kept i).reverse ++ is) := by
  rcases keep_cases kept i with ⟨hi, hk⟩ | ⟨k, rest, rfl, hc, hk⟩ | ⟨-, -, hk⟩
  · rw [hk]
    exact .single (reduces_iff.mpr (.inl ⟨_, i, is, hi, rfl, rfl⟩))
  · rw [hk]
    refine .single (reduces_iff.mpr (.inr ⟨rest.reverse, k, i, is, hc, ?_, rfl⟩))
    simp
  · rw [hk, List.reverse_cons, List.append_assoc, List.singleton_append]
    exact .refl

/-! ### The whole pass -/

lemma settled_foldl (h : Settled kept) (is : List Instruction) :
    Settled (is.foldl keep kept) := by
  induction is generalizing kept with
  | nil => exact h
  | cons i is ih => exact ih (settled_keep h i)

lemma reaches_foldl (kept is : List Instruction) :
    Reaches (kept.reverse ++ is) (is.foldl keep kept).reverse := by
  induction is generalizing kept with
  | nil =>
    rw [List.append_nil]
    exact .refl
  | cons i is ih => exact (reaches_keep kept i is).trans (ih (keep kept i))

/-- A normal list goes onto the stack as it is. -/
lemma foldl_of_normal (h : Normal (kept.reverse ++ is)) :
    is.foldl keep kept = is.reverse ++ kept := by
  induction is generalizing kept with
  | nil => rfl
  | cons i is ih =>
    have hpush : Normal ((i :: kept).reverse ++ is) := by simpa using h
    obtain ⟨hjunk, hchain⟩ := normal_iff.mp hpush
    have hsettled : Settled (i :: kept) := normal_iff.mpr
      ⟨fun k hk => hjunk k (List.mem_append_left is hk), (List.isChain_append.mp hchain).1⟩
    obtain ⟨hi, hc, -⟩ := settled_cons.mp hsettled
    rw [List.foldl_cons, keep_of_not_cancels hi hc, ih hpush]
    simp

lemma normal_remove (is : List Instruction) : Normal (remove is) := settled_foldl settled_nil is

lemma reaches_remove (is : List Instruction) : Reaches is (remove is) := reaches_foldl [] is

lemma remove_of_normal (h : Normal is) : remove is = is := by
  have hfold : is.foldl keep [] = is.reverse ++ [] := foldl_of_normal h
  rw [remove, hfold, List.append_nil, List.reverse_reverse]

/-- A reduction anywhere in the list does not change what the pass leaves. -/
lemma remove_of_reduces (h : Reduces is js) : remove is = remove js := by
  rcases reduces_iff.mp h with ⟨xs, i, ys, hi, rfl, rfl⟩ | ⟨xs, i, j, ys, hc, rfl, rfl⟩
  · simp only [remove, List.foldl_append, List.foldl_cons, keep_of_isJunk hi]
  · simp only [remove, List.foldl_append, List.foldl_cons, keep_keep_of_cancels hc]

lemma remove_of_reaches (h : Reaches is js) : remove is = remove js := by
  induction h with
  | refl => rfl
  | tail _ hstep ih => rw [ih, remove_of_reduces hstep]

lemma isNormalForm_remove (is : List Instruction) : IsNormalForm is (remove is) where
  reached := reaches_remove is
  normal := normal_remove is
  joins ks h := by
    rw [remove_of_reaches h]
    exact reaches_remove ks
  unique ks h hn := by rw [remove_of_reaches h, remove_of_normal hn]

/-! ### What reductions keep -/

lemma Reaches.append_right (h : Reaches is js) (ys : List Instruction) :
    Reaches (is ++ ys) (js ++ ys) := by
  refine ReflTransGen.lift (· ++ ys) (fun as bs hab => ?_) _ _ h
  rcases reduces_iff.mp hab with ⟨xs, i, zs, hi, rfl, rfl⟩ | ⟨xs, i, j, zs, hc, rfl, rfl⟩
  · exact reduces_iff.mpr (.inl ⟨xs, i, zs ++ ys, hi, by simp, by simp⟩)
  · exact reduces_iff.mpr (.inr ⟨xs, i, j, zs ++ ys, hc, by simp, by simp⟩)

lemma Reaches.sublist (h : Reaches is js) : js.Sublist is := by
  induction h with
  | refl => exact .refl is
  | tail _ hstep ih =>
    refine List.Sublist.trans ?_ ih
    rcases reduces_iff.mp hstep with ⟨xs, i, ys, -, rfl, rfl⟩ | ⟨xs, i, j, ys, -, rfl, rfl⟩
    · simp
    · exact (List.Sublist.refl xs).append ((List.Sublist.refl ys).cons _ |>.cons _)

/-- Jumps, calls, returns and interrupts have other mnemonics than what is taken out. -/
lemma not_isControlFlow_of_mnemonic (h : i.mnemonic ∈ ["nop", "xor", "push", "pop"]) :
    i.isControlFlow = false := by
  have hall : ∀ m ∈ ["nop", "xor", "push", "pop"],
      (Text.startsWith m "j" || m == "call" || Text.startsWith m "ret" ||
        (m == "int" || m == "int3")) = false := by decide
  exact hall _ h

lemma Reaches.filter_isControlFlow (h : Reaches is js) :
    js.filter (·.isControlFlow) = is.filter (·.isControlFlow) := by
  induction h with
  | refl => rfl
  | tail _ hstep ih =>
    rw [← ih]
    rcases reduces_iff.mp hstep with ⟨xs, i, ys, hi, rfl, rfl⟩ | ⟨xs, i, j, ys, hc, rfl, rfl⟩
    · have hflow : i.isControlFlow = false := by
        refine not_isControlFlow_of_mnemonic ?_
        rcases isJunk_iff.mp hi with hm | ⟨hm, -⟩ <;> simp [hm]
      simp [hflow]
    · obtain ⟨hpush, hpop, -⟩ := cancels_iff.mp hc
      have hi : i.isControlFlow = false := not_isControlFlow_of_mnemonic (by simp [hpush])
      have hj : j.isControlFlow = false := not_isControlFlow_of_mnemonic (by simp [hpop])
      simp [hi, hj]

/-- **Junk removal computes the normal form.** It is the only list without junk that can be reached,
so a second removal changes nothing; what is left keeps its order and all transfers of control, and
a removal may be made in parts, from the front. -/
theorem remove_normalForm (is : List Instruction) :
    IsNormalForm is (remove is) ∧ remove (remove is) = remove is ∧ (remove is).Sublist is ∧
      (remove is).filter (·.isControlFlow) = is.filter (·.isControlFlow) ∧
      ∀ ys, remove (is ++ ys) = remove (remove is ++ ys) := by
  have h := isNormalForm_remove is
  exact ⟨h, remove_of_normal h.normal, h.reached.sublist, h.reached.filter_isControlFlow,
    fun ys => remove_of_reaches (h.reached.append_right ys)⟩

end Dissect.Junk
