import Mathlib
import Dissect.Code.Call

/-!
The arguments of a call.

The search for them goes back from the call and ends at a jump, a call or a return. A pushed operand
is put in front of the arguments found so far and a moved one behind them, so the pushed ones come
out in the order of the program and the moved ones in the opposite order, however they are mixed.
Nothing but the instructions that the search passes has a say in the result.
-/

namespace Dissect.Call

/-! ### The window in front of a call -/

/-- Instructions that end right in front of a call, at most `lookback` of them and none that sends
control elsewhere. -/
structure IsStraight (lookback : ℕ) (before run : List Instruction) : Prop where
  suffix : run <:+ before
  length_le : run.length ≤ lookback
  straight : ∀ i ∈ run, ¬(i.isJump ∨ i.isCall ∨ i.isReturn)

/-- The longest such instructions. -/
structure IsWindow (lookback : ℕ) (before w : List Instruction) : Prop
    extends IsStraight lookback before w where
  longest : ∀ run, IsStraight lookback before run → run.length ≤ w.length

section

variable {lookback : ℕ} {before v w : List Instruction} {i : Instruction}

lemma endsWindow_iff : endsWindow i ↔ i.isJump ∨ i.isCall ∨ i.isReturn := by
  simp [endsWindow, or_assoc]

lemma reverse_window_suffix (lookback : ℕ) (before : List Instruction) :
    (window lookback before).reverse <:+ before := by
  have hprefix : window lookback before <+: before.reverse :=
    (List.takeWhile_prefix _).trans (List.take_prefix _ _)
  simpa using List.reverse_suffix.mpr hprefix

lemma length_window_le (lookback : ℕ) (before : List Instruction) :
    (window lookback before).length ≤ lookback :=
  (List.takeWhile_prefix _).length_le.trans (List.length_take_le _ _)

/-- Whatever may stand in a window is passed by the search. -/
lemma IsStraight.reverse_prefix {run : List Instruction} (h : IsStraight lookback before run) :
    run.reverse <+: window lookback before := by
  have hpass : ∀ i ∈ run.reverse, (!endsWindow i) = true := by
    intro i hi
    have hi := h.straight i (List.mem_reverse.mp hi)
    simpa [← endsWindow_iff] using hi
  have htake : run.reverse <+: before.reverse.take lookback := by
    refine List.prefix_take_iff.mpr ⟨List.reverse_prefix.mpr h.suffix, ?_⟩
    simpa using h.length_le
  obtain ⟨rest, hrest⟩ := htake
  rw [window, ← hrest, List.takeWhile_append_of_pos hpass]
  exact List.prefix_append _ _

lemma isWindow_window (lookback : ℕ) (before : List Instruction) :
    IsWindow lookback before (window lookback before).reverse where
  suffix := reverse_window_suffix lookback before
  length_le := by simpa using length_window_le lookback before
  straight i hi := by
    have hpass := List.mem_takeWhile_imp (List.mem_reverse.mp hi)
    simpa [← endsWindow_iff] using hpass
  longest run h := by simpa using h.reverse_prefix.length_le

/-- Two windows in front of a call are as long as each other, and end at the same place. -/
lemma IsWindow.unique (hv : IsWindow lookback before v) (hw : IsWindow lookback before w) :
    v = w := by
  have hle := hw.longest v hv.toIsStraight
  have hge := hv.longest w hw.toIsStraight
  exact (List.suffix_of_suffix_length_le hv.suffix hw.suffix hle).eq_of_length (by omega)

end

/-! ### What a window passes -/

/-- The operand that an instruction pushes. -/
def pushed? (i : Instruction) : Option String :=
  if i.mnemonic = "push" then i.operands.head? else none

/-- What an instruction moves to a register that carries arguments. -/
def moved? (i : Instruction) : Option String :=
  match i.operands with
  | destination :: source :: _ =>
    if Text.startsWith i.mnemonic "mov" ∧ destination ∈ argumentRegisters then some source else none
  | _ => none

/-- The arguments that a window passes: pushed operands as they stand, then moved ones from the last
to the first. -/
def argumentsOf (w : List Instruction) : List String :=
  w.filterMap pushed? ++ (w.filterMap moved?).reverse

/-- What the next instruction on the way back adds. -/
lemma addArgument_eq (arguments : List String) (i : Instruction) :
    addArgument arguments i = (pushed? i).toList ++ arguments ++ (moved? i).toList := by
  unfold addArgument pushed? moved?
  by_cases hpush : i.mnemonic = "push"
  · have hmov : Text.startsWith "push" "mov" = false := by decide
    rcases i.operands with _ | ⟨value, _ | ⟨source, rest⟩⟩ <;> simp [hpush, hmov]
  · by_cases hmov : Text.startsWith i.mnemonic "mov"
    · rcases i.operands with _ | ⟨destination, _ | ⟨source, rest⟩⟩
      · simp [hpush, hmov]
      · simp [hpush, hmov]
      · by_cases hreg : destination ∈ argumentRegisters <;> simp [hpush, hmov, hreg]
    · rcases i.operands with _ | ⟨destination, _ | ⟨source, rest⟩⟩ <;> simp [hpush, hmov]

/-- What the search has found when it has gone back over some instructions, the nearest first. -/
lemma foldl_addArgument (passed : List Instruction) (arguments : List String) :
    passed.foldl addArgument arguments =
      passed.reverse.filterMap pushed? ++ arguments ++ passed.filterMap moved? := by
  induction passed generalizing arguments with
  | nil => simp
  | cons i passed ih =>
    have hlast : [i].filterMap pushed? = (pushed? i).toList := by
      rcases h : pushed? i <;> simp [h]
    have hfirst : (i :: passed).filterMap moved? =
        (moved? i).toList ++ passed.filterMap moved? := by
      rcases h : moved? i <;> simp [h]
    rw [List.foldl_cons, ih, addArgument_eq, List.reverse_cons, List.filterMap_append, hlast,
      hfirst]
    simp only [List.append_assoc]

lemma argumentsAfter_eq (lookback : ℕ) (before : List Instruction) :
    argumentsAfter lookback before = argumentsOf (window lookback before).reverse := by
  rw [argumentsAfter, foldl_addArgument, List.append_nil, argumentsOf, List.filterMap_reverse,
    List.filterMap_reverse, List.reverse_reverse]

lemma IsWindow.argumentsAfter_eq {lookback : ℕ} {before w : List Instruction}
    (h : IsWindow lookback before w) : argumentsAfter lookback before = argumentsOf w := by
  rw [Call.argumentsAfter_eq, h.unique (isWindow_window lookback before)]

/-! ### Calls with their arguments -/

lemma mem_inInstructions {table : SignatureTable} {lookback : ℕ} {caller : String}
    {is : List Instruction} {c : Call} :
    c ∈ inInstructions table lookback caller is ↔
      ∃ (k : ℕ) (i : Instruction), is[k]? = some i ∧
        ofInstruction? table lookback caller (is.take k) i = some c := by
  simp only [inInstructions, List.mem_filterMap, Prod.exists, List.mem_zipIdx_iff_getElem?]
  exact exists_comm

/-- **The arguments of a call depend on its window alone.** In front of a call there is one window.
The call has the arguments that the window passes: the operands of its pushes in the order of the
program, then what is moved to argument registers in the opposite order. So calls with the same
window have the same arguments, whatever stands around it and however far the search may go. -/
theorem arguments_eq_argumentsOf (table : SignatureTable) (lookback : ℕ) (caller : String)
    (is : List Instruction) (k : ℕ) (i : Instruction) (hk : is[k]? = some i) (hcall : i.isCall) :
    ∃ w, (∀ v, IsWindow lookback (is.take k) v ↔ v = w) ∧
      argumentsAfter lookback (is.take k) =
        w.filterMap pushed? ++ (w.filterMap moved?).reverse ∧
      (∀ operand, i.operands.head? = some operand →
        ∃ c ∈ inInstructions table lookback caller is, c.address = i.address ∧
          ofInstruction? table lookback caller (is.take k) i = some c ∧
          c.arguments = w.filterMap pushed? ++ (w.filterMap moved?).reverse) ∧
      ∀ (lookback' : ℕ) (js : List Instruction) (l : ℕ), IsWindow lookback' (js.take l) w →
        argumentsAfter lookback' (js.take l) = argumentsAfter lookback (is.take k) := by
  have hwindow := isWindow_window lookback (is.take k)
  have harguments := hwindow.argumentsAfter_eq
  refine ⟨_, fun v => ⟨fun hv => hv.unique hwindow, fun hv => hv ▸ hwindow⟩, harguments,
    fun operand hoperand => ?_, fun lookback' js l hw => ?_⟩
  · obtain ⟨c, hc, haddress, hargs⟩ : ∃ c,
        ofInstruction? table lookback caller (is.take k) i = some c ∧ c.address = i.address ∧
          c.arguments = argumentsAfter lookback (is.take k) := by
      simp [ofInstruction?, hcall, hoperand]
    exact ⟨c, mem_inInstructions.mpr ⟨k, i, hk, hc⟩, haddress, hc, hargs.trans harguments⟩
  · rw [hw.argumentsAfter_eq, harguments]

/-- Pushes and moves between two calls. -/
def mixedArguments : List Instruction := [
  ⟨0x1000, "call", ["0x00002000"], [0xE8, 0xFB, 0x0F, 0, 0], .controlFlow⟩,
  ⟨0x1005, "push", ["0x01"], [0x6A, 1], .memory⟩,
  ⟨0x1007, "mov", ["ecx", "0x02"], [0xB9, 2, 0, 0, 0], .memory⟩,
  ⟨0x100C, "push", ["0x03"], [0x6A, 3], .memory⟩,
  ⟨0x100E, "mov", ["[ebp]", "eax"], [0x89, 0x45, 0], .memory⟩,
  ⟨0x1011, "movzx", ["edx", "al"], [0x0F, 0xB6, 0xD0], .memory⟩,
  ⟨0x1014, "call", ["eax"], [0xFF, 0xD0], .controlFlow⟩]

theorem arguments_eq_argumentsOf_mixedArguments :
    ∃ c ∈ inInstructions [] 10 "sub_1000" mixedArguments, c.address = 0x1014 ∧
      c.arguments = ["0x01", "0x03", "al", "0x02"] := by
  obtain ⟨w, hw, -, hcalls, -⟩ :=
    arguments_eq_argumentsOf [] 10 "sub_1000" mixedArguments 6 _ rfl rfl
  obtain ⟨c, hc, haddress, -, harguments⟩ := hcalls "eax" rfl
  rw [← (hw _).mp (isWindow_window 10 _)] at harguments
  exact ⟨c, hc, haddress, harguments.trans (by decide)⟩

end Dissect.Call
