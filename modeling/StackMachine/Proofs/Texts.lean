import Mathlib.Data.List.TakeWhile
import StackMachine.Engine.RuntimeCall
import StackMachine.Proofs.Numerals
import StackMachine.Proofs.Rows

/-!
# Texts in char arrays

Text that is written into a char array is read back up to the end of the array and up to its first
zero character, whatever the array held before, and nothing else is changed
(`Heap.Built.text_written_and_read`).  So a numeral that fits into the array is read back, and with
it the word that was written (`RuntimeCall.reads_back_of_built`).
-/

namespace StackMachine

namespace Text

/-- The code of a character, as an element of a char array. -/
def code (c : Char) : Word := Word.ofNat c.toNat

lemma toUnsigned_code (c : Char) : Word.toUnsigned (code c) = c.toNat :=
  Word.toUnsigned_ofNat (Nat.lt_trans c.val.toNat_lt (by decide))

lemma part_code (c : Char) : Block.part .char (code c) = code c := by
  have same : (code c).toUInt64 &&& Block.mask .char = (code c).toUInt64 := by
    apply UInt64.toNat_inj.1
    rw [UInt64.toNat_and]
    change (code c).toUInt64.toNat &&& (2 ^ 32 - 1) = _
    refine Nat.and_two_pow_sub_one_of_lt_two_pow ?_
    change Word.toUnsigned (code c) < 2 ^ 32
    rw [toUnsigned_code]
    exact c.val.toNat_lt
  rw [Block.part, same]
  rfl

lemma charOfCode_code (c : Char) : charOfCode (Word.lowHalf (code c)) = c := by
  have same : Word.lowHalf (code c) = c.val := by
    apply UInt32.toNat_inj.1
    rw [Word.lowHalf, UInt64.toNat_toUInt32]
    exact (congrArg (· % 2 ^ 32) (toUnsigned_code c)).trans (Nat.mod_eq_of_lt c.val.toNat_lt)
  rw [same]
  exact dif_pos c.valid

lemma code_eq_zero_iff (c : Char) : code c = 0 ↔ c = '\x00' := by
  constructor
  · intro zero
    have unsigned := toUnsigned_code c
    rw [zero] at unsigned
    exact Char.toNat_inj.1 unsigned.symm
  · rintro rfl
    rfl

end Text

namespace Heap

open Text

variable {h : Heap} {kind : ElemKind} {extents values : List Word} {array : Word} {place n : Nat}
  {b : Block} {text : String}

lemma takeWhile_append_of_nil {α : Type} {p : α → Bool} (xs : List α) {ys : List α}
    (ends : ys.takeWhile p = []) :
    (xs ++ ys).takeWhile p = xs.takeWhile p := by
  induction xs with
  | nil => exact ends
  | cons x xs ih => rw [List.cons_append, List.takeWhile_cons, List.takeWhile_cons, ih]

/-- The elements that are written for text into an array of so many elements. -/
def textElements (size : Nat) (text : String) : List Word :=
  let codes := (text.toList.take size).map code
  if codes.length < size then codes ++ [0] else codes

lemma length_codes (size : Nat) (text : String) :
    ((text.toList.take size).map code).length = min size text.length := by
  rw [List.length_map, List.length_take, String.length_toList]

lemma length_textElements (size : Nat) (text : String) :
    (textElements size text).length = min (text.length + 1) size := by
  unfold textElements
  dsimp only
  rw [length_codes]
  split
  · next shorter =>
    rw [List.length_append, length_codes, List.length_singleton]
    omega
  · rw [length_codes]
    omega

/-- What is read up to the first zero, if the elements of text are followed by others as long as
there is room. -/
lemma takeWhile_textElements (size : Nat) (text : String) {others : List Word}
    (fills : (textElements size text).length + others.length = size) :
    ((textElements size text).map (Block.part .char) ++ others).takeWhile (· ≠ 0) =
      ((text.toList.take size).takeWhile (· ≠ '\x00')).map code := by
  have codes : ((text.toList.take size).map code).map (Block.part .char) =
    (text.toList.take size).map code := by
    rw [List.map_map]
    exact List.map_congr_left fun c _ => part_code c
  have upToZero : ((text.toList.take size).map code).takeWhile (· ≠ 0) =
      ((text.toList.take size).takeWhile (· ≠ '\x00')).map code := by
    rw [List.takeWhile_map]
    have same : ((fun element : Word => decide (element ≠ 0)) ∘ code) = fun c =>
      decide (c ≠ '\x00') :=
      funext fun c => decide_eq_decide.2 (not_congr (code_eq_zero_iff c))
    rw [same]
  have whole := length_textElements size text
  unfold textElements at fills whole ⊢
  dsimp only at fills whole ⊢
  split
  · rw [List.map_append, List.append_assoc, takeWhile_append_of_nil _ rfl, codes, upToZero]
  · next full =>
    rw [if_neg full] at fills
    rw [length_codes] at fills full
    have nothing : others = [] := List.eq_nil_of_length_eq_zero (by omega)
    rw [nothing, List.append_nil, codes, upToZero]

variable (built : h.Built .char extents array place b)
include built

lemma Built.writeText_eq (text : String) :
    h.writeText array text = h.storeElements array .char 0
      (textElements (elements extents).toNat text) := by
  rw [← built.toInt_arrayLength]
  rfl

/-- Text is read up to the first zero, and no further than the array goes. -/
lemma Built.readText_spec : (h.readText array).length ≤ (elements extents).toNat ∧
      (∀ i < (h.readText array).length, h.loadElement array .char i ≠ 0 ∧
        (h.readText array).toList[i]? =
          some (charOfCode (Word.lowHalf (h.loadElement array .char i)))) ∧
      ((h.readText array).length < (elements extents).toNat →
        h.loadElement array .char (h.readText array).length = 0) := by
  have count : (h.readText array).length = (h.charCodes array).length := by
    rw [← String.length_toList, readText, String.toList_ofList, List.length_map]
  have whole : h.charCodes array ++
      (h.loadElements array .char 0 (elements extents).toNat).dropWhile (· ≠ 0) =
        h.loadElements array .char 0 (elements extents).toNat := by
    rw [charCodes, built.toInt_arrayLength, List.takeWhile_append_dropWhile]
  have upTo := congrArg List.length whole
  rw [List.length_append, length_loadElements] at upTo
  rw [count]
  refine ⟨by omega, fun i lt => ?_, fun lt => ?_⟩
  · have read : (h.charCodes array)[i]? = some (h.loadElement array .char i) := by
      rw [← List.getElem?_append_left lt, whole, getElem?_loadElements _ _ _ _ (by omega),
        Nat.zero_add]
    refine ⟨?_, ?_⟩
    · simpa using List.mem_takeWhile_imp (List.mem_of_getElem? read)
    · rw [readText, String.toList_ofList, List.getElem?_map, read]
      rfl
  · have stops := List.head?_dropWhile_not (fun element : Word => decide (element ≠ 0))
      (h.loadElements array .char 0 (elements extents).toNat)
    have next := getElem?_loadElements h array .char 0 lt
    rw [← whole, List.getElem?_append_right (Nat.le_refl _), Nat.sub_self, ← List.head?_eq_getElem?,
      Nat.zero_add] at next
    rw [next] at stops
    simpa using stops

/-- Text that is written is read back up to the end of the array and up to its first zero. -/
lemma Built.readText_writeText (text : String) : (h.writeText array text).readText array =
      String.ofList ((text.toList.take (elements extents).toNat).takeWhile (· ≠ '\x00')) := by
  have fits : (textElements (elements extents).toNat text).length ≤ (elements extents).toNat := by
    rw [length_textElements]
    exact Nat.min_le_right _ _
  have inRow : 0 + (textElements (elements extents).toNat text).length ≤
    (elements extents).toNat := by
    rwa [Nat.zero_add]
  obtain ⟨b', written⟩ := built.exists_storeElements inRow
  have filled : (textElements (elements extents).toNat text).length +
      (h.loadElements array .char (textElements (elements extents).toNat text).length
        ((elements extents).toNat - (textElements (elements extents).toNat text).length)).length =
      (elements extents).toNat := by
    rw [length_loadElements]
    omega
  have access : ElemKind.char.access = .char := rfl
  rw [readText, charCodes, built.writeText_eq, written.toInt_arrayLength,
    built.loadElements_storeElements fits (Nat.le_refl _), access,
      takeWhile_textElements _ text filled, List.map_map]
  have back : ((fun element : Word => charOfCode (Word.lowHalf element)) ∘ code) = id :=
    funext charOfCode_code
  rw [back, List.map_id]

/-- Text that fits and has no zero is read back whole. -/
lemma Built.readText_writeText_of_fits
    (fits : text.length ≤ (elements extents).toNat) (noZero : ∀ c ∈ text.toList, c ≠ '\x00') :
    (h.writeText array text).readText array = text := by
  rw [built.readText_writeText, List.take_of_length_le (by rwa [String.length_toList]),
    List.takeWhile_eq_self_iff.2 fun c mem => decide_eq_true (noZero c mem), String.ofList_toList]

end Heap

/-! ### Numerals in char arrays -/

namespace RuntimeCall

open Exec

variable {s : State} {rest extents : List Word} {array base asked value : Word} {place : Nat}
  {b : Block}

lemma intToText_eq (holds : s.context.stack.Holds (array :: base :: value :: rest))
    (notNil : array ≠ 0) :
    intToText s = .ok () ((s.withHeap
      (s.machine.heap.writeText array (Numeral.write base value))).withStack
        s.context.stack.dropUnchecked.dropUnchecked.dropUnchecked) := by
  rw [intToText, bind_of_ok (pop_eq_ok holds), bind_of_ok (pop_withStack holds.dropUnchecked),
    bind_of_ok (pop_withStack holds.dropUnchecked.dropUnchecked), writeText, if_neg notNil]
  rfl

lemma exists_textToInt (holds : s.context.stack.Holds (array :: asked :: rest))
    (notNil : array ≠ 0) :
    ∃ t, textToInt s = .ok () t ∧ t.machine = s.machine ∧
      t.context.stack.Holds (Numeral.read asked (s.machine.heap.readText array) :: rest) := by
  have below := holds.dropUnchecked.dropUnchecked
  have room : rest.length < s.context.stack.capacity := by
    have bounded := holds.length_le
    simp only [List.length_cons] at bounded
    omega
  have handle : popHandle s = .ok array (s.withStack s.context.stack.dropUnchecked) := by
    rw [popHandle, bind_of_ok (pop_eq_ok holds), if_neg notNil]
    rfl
  have run : textToInt s = push (Numeral.read asked (s.machine.heap.readText array))
      (s.withStack s.context.stack.dropUnchecked.dropUnchecked) := by
    rw [textToInt, bind_of_ok handle, bind_of_ok (pop_withStack holds.dropUnchecked), asksHeap_bind]
    rfl
  exact ⟨_, run.trans (push_withStack below room), rfl, below.pushUnchecked room _⟩

/-- Writes a word into a char array and reads it back from there. -/
def writeThenRead (array asked : Word) : Exec Unit := do
  intToText
  push asked
  push array
  textToInt

/-- A word that is written into a char array with room for its numeral is read as its numeral is. -/
lemma exists_writeThenRead (holds : s.context.stack.Holds (array :: base :: value :: rest))
    (built : s.machine.heap.Built .char extents array place b)
    (room : (Numeral.write base value).length ≤ (Heap.elements extents).toNat) (asked : Word) :
    ∃ t, writeThenRead array asked s = .ok () t ∧
      t.machine = { s.machine with
        heap := s.machine.heap.writeText array (Numeral.write base value) } ∧
      t.context.stack.Holds (Numeral.read asked (Numeral.write base value) :: rest) := by
  have text := built.readText_writeText_of_fits room fun c mem =>
    Numeral.ne_nul_of_mem_alphabet (Numeral.mem_alphabet_of_mem_write mem)
  have bounded := holds.length_le
  simp only [List.length_cons] at bounded
  have below := holds.dropUnchecked.dropUnchecked.dropUnchecked
  have room₁ : rest.length < s.context.stack.capacity := by omega
  have below₁ := below.pushUnchecked room₁ asked
  have room₂ : (asked :: rest).length < s.context.stack.capacity := by
    rw [List.length_cons]
    omega
  let written := s.withHeap (s.machine.heap.writeText array (Numeral.write base value))
  obtain ⟨t, reads, machine, answer⟩ := exists_textToInt (s := written.withStack _)
    (below₁.pushUnchecked room₂ array) built.ne_nil
  refine ⟨t, ?_, machine, ?_⟩
  · rw [writeThenRead, bind_of_ok (intToText_eq holds built.ne_nil),
      bind_of_ok (push_withStack below room₁), bind_of_ok (push_withStack below₁ room₂)]
    exact reads
  · rw [← text]
    exact answer

/-- Words that are written into a char array, whatever it held, and read back.  In base 2, 8 and 16
a word is read back if it is not negative, and as zero if it is.  In every other base it is written
in decimal, and is read back in base 10. -/
theorem reads_back_of_built (holds : s.context.stack.Holds (array :: base :: value :: rest))
    (built : s.machine.heap.Built .char extents array place b)
    (room : (Numeral.write base value).length ≤ (Heap.elements extents).toNat) :
    (base = 2 ∨ base = 8 ∨ base = 10 ∨ base = 16 → ∃ t, writeThenRead array base s = .ok () t ∧
      t.context.stack.Holds ((if base = 10 ∨ 0 ≤ value.toInt then value else 0) :: rest)) ∧
    (base ≠ 2 ∧ base ≠ 8 ∧ base ≠ 16 → ∃ t, writeThenRead array 10 s = .ok () t ∧
      t.context.stack.Holds (value :: rest)) := by
  have decimal (other : base ≠ 2 ∧ base ≠ 8 ∧ base ≠ 16) :
    ∃ t, writeThenRead array 10 s = .ok () t ∧
      t.context.stack.Holds (value :: rest) := by
    obtain ⟨t, run, -, answer⟩ := exists_writeThenRead holds built room 10
    rw [Numeral.read_write_of_decimal other] at answer
    exact ⟨t, run, answer⟩
  refine ⟨fun known => ?_, decimal⟩
  by_cases ten : base = 10
  · subst ten
    rw [if_pos (.inl rfl)]
    exact decimal (by decide)
  · have bits : base = 2 ∨ base = 8 ∨ base = 16 := by
      rcases known with two | eight | ten' | sixteen
      · exact .inl two
      · exact .inr (.inl eight)
      · exact absurd ten' ten
      · exact .inr (.inr sixteen)
    obtain ⟨t, run, -, answer⟩ := exists_writeThenRead holds built room base
    rw [Numeral.read_write_of_bits bits] at answer
    rw [if_congr (or_iff_right ten) rfl rfl]
    exact ⟨t, run, answer⟩

/-! ### The least word -/

namespace LeastWord

/-- An array of twenty chars, in a heap of its own. -/
def row : Word × Heap := (({} : Heap).allocArray .char [20]).toOption.getD (0, {})

/-- Each char is a seven. -/
def heap : Heap := row.2.storeElements row.1 .char 0 (List.replicate 20 55)

/-- The least word is to be written in base ten. -/
def stack : OperandStack :=
  (((OperandStack.empty 3).pushUnchecked Int64.minValue).pushUnchecked 10).pushUnchecked row.1

/-- The thread that writes. -/
def state : State where
  machine :=
    { program := {}, settings := {}, heap,
      statics := #[], records := #[], seed := 1, clock := 0 }
  context := { stack }

lemma exists_built : ∃ b, heap.Built .char [20] row.1 0 b := by
  have made : ({} : Heap).allocArray .char [20] = .ok row := by decide +kernel
  have fresh : row.2.Built .char [20] row.1 0 (Heap.newArray .char 20 [20]) :=
    ⟨⟨{}, row.2, rfl, made, rfl,
      fun _ _ => rfl, by decide +kernel⟩, by decide +kernel, by decide +kernel, by decide +kernel⟩
  exact fresh.exists_storeElements (by decide)

end LeastWord

open LeastWord in
/-- The numeral of the least word fills the array, and the word is read back. -/
theorem reads_back_of_built_least : (Numeral.write 10 Int64.minValue).length = 20 ∧
    ∃ t, writeThenRead row.1 10 state = .ok () t ∧ t.context.stack.Holds [Int64.minValue] := by
  have holds : state.context.stack.Holds [row.1, 10, Int64.minValue] :=
    (((OperandStack.holds_empty (by decide)).pushUnchecked (by decide) _).pushUnchecked
      (by decide) _).pushUnchecked (by decide) _
  obtain ⟨b, built⟩ : ∃ b, state.machine.heap.Built .char [20] row.1 0 b := exists_built
  have digits : (Numeral.write 10 Int64.minValue).length = 20 := by decide +kernel
  refine ⟨digits, ?_⟩
  obtain ⟨t, run, answer⟩ := (reads_back_of_built holds built (by rw [digits]; decide)).1
    (by decide)
  exact ⟨t, run, answer⟩

end RuntimeCall

namespace Heap

open Text

/-! ### What writing changes -/

variable {h : Heap} {extents : List Word} {array : Word} {place : Nat} {b : Block}

/-- **Text is written and read back.**  The text is cut to the element count and at its first zero.
Only the first elements are written, as many as there are characters and one more, and no more than
there are; neither the headers of blocks nor any other byte.  Reading ends at the end of the array,
whatever is in it, and replaces invalid code points. -/
theorem Built.text_written_and_read (built : h.Built .char extents array place b) (text : String) :
    (h.writeText array text).readText array =
        String.ofList ((text.toList.take (elements extents).toNat).takeWhile (· ≠ '\x00')) ∧
      SameBlocks h (h.writeText array text) ∧
      (∀ a : Address, (a.block = place → a.offset < elementOffset .char extents 0 ∨
          elementOffset .char extents (min (text.length + 1) (elements extents).toNat) ≤ a.offset) →
        (h.writeText array text).byte? a = h.byte? a) ∧
      (h.readText array).length ≤ (elements extents).toNat ∧
      (∀ i < (h.readText array).length, h.loadElement array .char i ≠ 0 ∧
        ∃ c, (h.readText array).toList[i]? = some c ∧
          if (Word.lowHalf (h.loadElement array .char i)).isValidChar then
            c.val = Word.lowHalf (h.loadElement array .char i)
          else c = '\uFFFD') ∧
      ((h.readText array).length < (elements extents).toNat →
        h.loadElement array .char (h.readText array).length = 0) := by
  obtain ⟨bounded, read, stops⟩ := built.readText_spec
  refine ⟨built.readText_writeText text, SameBlocks.storeElements _ _ _ _ _, fun a outside => ?_,
    bounded, fun i lt => ?_, stops⟩
  · rw [built.writeText_eq, built.byte?_storeElements, if_neg]
    · rintro ⟨here, low, high⟩
      rw [Nat.zero_add, length_textElements] at high
      have := outside here
      omega
    · rw [Nat.zero_add, length_textElements]
      exact Nat.min_le_right _ _
  · refine ⟨(read i lt).1, _, (read i lt).2, ?_⟩
    rw [charOfCode]
    split
    · rfl
    · rfl

open RuntimeCall.LeastWord in
/-- Text of three characters with a zero in it, written over the sevens. -/
theorem text_written_and_read_zero : ∃ b, heap.Built .char [20] row.1 0 b ∧
    (heap.writeText row.1 "a\x00b").readText row.1 = "a" := by
  obtain ⟨b, built⟩ := exists_built
  exact ⟨b, built, (built.text_written_and_read "a\x00b").1.trans (by decide)⟩

end Heap

end StackMachine
