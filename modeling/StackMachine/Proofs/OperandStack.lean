import Mathlib.Data.List.Basic
import StackMachine.OperandStack

/-!
# The operand stack as a list

`OperandStack.Holds s xs` says that a row of words with its cursor stands for the list `xs` of
words, top first.  On such a stack the checked operations of the interpreter and the unchecked ones
of compiled code come to the same: a push below the capacity adds to the list, and a pop takes its
head.
-/

namespace StackMachine

namespace Word

variable {n : Nat}

/-- A small natural number is read back from its word. -/
lemma toInt_ofNat (small : n < 2 ^ 63) : (ofNat n).toInt = n := Int64.toInt_ofNat_of_lt small

/-- The word of a small natural number indexes that number. -/
lemma toIndex?_ofNat (small : n < 2 ^ 63) : toIndex? (ofNat n) = some n := by
  have nonneg : ¬ ofNat n < 0 := by
    rw [Int64.lt_iff_toInt_lt, toInt_ofNat small]
    simp
  rw [toIndex?, if_neg nonneg, toInt_ofNat small, Int.toNat_natCast]

/-- Words of small natural numbers are ordered as the numbers are. -/
lemma ofNat_lt_ofNat {a b : Nat} (ha : a < 2 ^ 63) (hb : b < 2 ^ 63) :
    ofNat a < ofNat b ↔ a < b := Int64.ofNat_lt_iff_lt ha hb

/-- A word that indexes a number is the word of that number. -/
lemma toIndex?_eq_some_iff {w : Word} : toIndex? w = some n ↔ 0 ≤ w ∧ w.toInt.toNat = n := by
  unfold toIndex?
  split
  · next negative => simp [Int64.not_le.2 negative]
  · next nonneg => simp [Int64.not_lt.1 nonneg]

end Word

namespace OperandStack

/-- The stack holds exactly the words of a list, top first, within its capacity; the row of words is
small enough to exist in memory. -/
structure Holds (s : OperandStack) (xs : List Word) : Prop where
  cursor_eq : s.cursor = Word.ofNat xs.length
  take_words : s.words.toList.take xs.length = xs.reverse
  length_le : xs.length ≤ s.capacity
  size_words : s.words.size = s.capacity + guardWords
  size_lt : s.words.size < 2 ^ 60

namespace Holds

variable {s : OperandStack} {xs : List Word} {x : Word}

section

variable (h : s.Holds xs)
include h

lemma length_lt : xs.length < 2 ^ 60 := by
  have le := h.length_le
  have size := h.size_words
  have lt := h.size_lt
  omega

lemma toInt_cursor : s.cursor.toInt = xs.length := by
  rw [h.cursor_eq]
  exact Word.toInt_ofNat (by have := h.length_lt; omega)

lemma size_eq : s.size = xs.length := by
  rw [size, h.toInt_cursor, Int.toNat_natCast]

/-- The words on the stack, bottom first, are the list in reverse. -/
lemma toList_eq : s.toList = xs.reverse := by
  rw [toList, h.size_eq, Nat.min_eq_left h.length_le, h.take_words]

/-- The room left above the stack in its row. -/
lemma length_lt_size : xs.length < s.words.size := by
  have le := h.length_le
  have size := h.size_words
  have : 0 < guardWords := by decide
  omega

/-- An unchecked push below the capacity adds to the list. -/
lemma pushUnchecked (room : xs.length < s.capacity) (x : Word) :
    (s.pushUnchecked x).Holds (x :: xs) where
  cursor_eq := by
    show s.cursor + 1 = _
    rw [h.cursor_eq]
    exact (Int64.ofNat_add xs.length 1).symm
  take_words := by
    have bound : xs.length < s.words.toList.length := by simpa using h.length_lt_size
    simp only [OperandStack.pushUnchecked, words_setCursor, h.size_eq, Array.toList_setIfInBounds,
      List.length_cons, List.reverse_cons]
    rw [List.take_add_one, List.take_set_of_le (Nat.le_refl _), h.take_words,
      List.getElem?_set_self bound]
    rfl
  length_le := room
  size_words := by simpa [OperandStack.pushUnchecked] using h.size_words
  size_lt := by simpa [OperandStack.pushUnchecked] using h.size_lt

/-- A checked push below the capacity is the unchecked one. -/
lemma push_eq (room : xs.length < s.capacity) (x : Word) : s.push x = .ok (s.pushUnchecked x) := by
  have cursor : Word.ofNat (s.size + 1) = s.cursor + 1 := by
    rw [h.size_eq, h.cursor_eq]
    exact Int64.ofNat_add xs.length 1
  rw [push, if_neg (by rw [h.size_eq]; omega), cursor]
  rfl

lemma push_full (full : s.capacity ≤ xs.length) (x : Word) : s.push x = .error .stackOverflow := by
  rw [push, if_pos (by rw [h.size_eq]; exact full)]

end

section

variable (h : s.Holds (x :: xs))
include h

/-- An unchecked drop takes the head of the list. -/
lemma dropUnchecked : s.dropUnchecked.Holds xs where
  cursor_eq := by
    show s.cursor - 1 = _
    rw [h.cursor_eq, List.length_cons, Word.ofNat, Int64.ofNat_add]
    exact Int64.add_sub_cancel _ _
  take_words := by
    have take : (s.words.toList.take (xs.length + 1)).take xs.length =
      s.words.toList.take xs.length := by
      rw [List.take_take, Nat.min_eq_left (Nat.le_succ _)]
    show s.words.toList.take xs.length = xs.reverse
    rw [← take, ← List.length_cons (a := x), h.take_words, List.reverse_cons, ← List.length_reverse,
      List.take_left]
  length_le := by
    have le := h.length_le
    rw [List.length_cons] at le
    exact Nat.le_of_succ_le le
  size_words := h.size_words
  size_lt := h.size_lt

/-- The word under the cursor is the head of the list. -/
lemma getD_words : s.words.getD xs.length 0 = x := by
  have last : (s.words.toList.take (xs.length + 1))[xs.length]? = some x := by
    have take := h.take_words
    rw [List.length_cons] at take
    rw [take, List.reverse_cons, List.getElem?_append_right (by simp)]
    simp
  rw [List.getElem?_take_of_lt (Nat.lt_succ_self _)] at last
  rw [Array.getD_eq_getD_getElem?, ← Array.getElem?_toList, last]
  rfl

/-- After an unchecked drop the cursor points to the word that was on top. -/
lemma atCursor_dropUnchecked : s.dropUnchecked.atCursor = x := by
  rw [atCursor, h.dropUnchecked.size_eq]
  exact h.getD_words

/-- A checked pop takes the head of the list. -/
lemma pop_eq : s.pop = .ok (x, s.dropUnchecked) := by
  have cursor : Word.ofNat (s.size - 1) = s.dropUnchecked.cursor := by
    rw [h.dropUnchecked.cursor_eq, h.size_eq, List.length_cons, Nat.add_sub_cancel]
  have size : s.size = xs.length + 1 := h.size_eq
  rw [pop, if_neg (by omega), cursor, size, Nat.add_sub_cancel, h.getD_words]
  rfl

/-- The word on top is the head of the list. -/
lemma top?_eq : s.top? = .ok x := by
  have size : s.size = xs.length + 1 := h.size_eq
  rw [top?, if_neg (by omega), size, Nat.add_sub_cancel, h.getD_words]

end

/-- A checked pop of an empty stack underflows. -/
lemma pop_nil (h : s.Holds []) : s.pop = .error .stackUnderflow := by
  rw [pop]
  exact if_pos h.size_eq

lemma top?_nil (h : s.Holds []) : s.top? = .error .stackUnderflow := by
  rw [top?]
  exact if_pos h.size_eq

/-- The word on top is the head of the list. -/
lemma toOption_top? (h : s.Holds xs) : s.top?.toOption = xs.head? := by
  cases xs with
  | nil => rw [h.top?_nil]; rfl
  | cons x xs => rw [h.top?_eq]; rfl

end Holds

/-- A new stack holds nothing, if a stack of its capacity can exist. -/
lemma holds_empty {capacity : Nat} (small : capacity + guardWords < 2 ^ 60) :
    (empty capacity).Holds [] where
  cursor_eq := rfl
  take_words := rfl
  length_le := Nat.zero_le _
  size_words := by simp [empty]
  size_lt := by simpa [empty] using small

end OperandStack

end StackMachine
