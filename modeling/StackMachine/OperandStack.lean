import StackMachine.Fault

/-!
# The operand stack

A fixed row of words with a cursor.  Checked operations respect the capacity; compiled code moves
the cursor without a check, so some guard words lie past the capacity and the cursor itself is a
word that may leave the row.  A negative cursor counts as an empty stack.

A stack also keeps the fewest words that it has held since it was marked.  Nothing depends on this
history; it is what is known later about the words below.
-/

namespace StackMachine

/-- Words past the capacity. -/
def guardWords : Nat := 64

/-- An operand stack: its words, the cursor and the capacity. -/
structure OperandStack where
  words : Array Word
  cursor : Word
  capacity : Nat
  /-- The fewest words held since the stack was marked. -/
  low : Nat := 0
  deriving Repr

namespace OperandStack

def empty (capacity : Nat) : OperandStack :=
  { words := Array.replicate (capacity + guardWords) 0, cursor := 0, capacity }

/-- The number of words on the stack. -/
def size (s : OperandStack) : Nat := s.cursor.toInt.toNat

/-- The words on the stack, bottom first, as far as the capacity reaches. -/
def toList (s : OperandStack) : List Word := s.words.toList.take (min s.size s.capacity)

/-- Places the cursor anywhere. -/
def setCursor (s : OperandStack) (cursor : Word) : OperandStack :=
  { s with cursor, low := min s.low cursor.toInt.toNat }

/-- Pushes a word below the capacity. -/
def push (s : OperandStack) (value : Word) : Except Cause OperandStack :=
  if s.capacity ≤ s.size then .error .stackOverflow
  else
    .ok (setCursor { s with words := s.words.setIfInBounds s.size value } (Word.ofNat (s.size + 1)))

def top? (s : OperandStack) : Except Cause Word :=
  if s.size = 0 then .error .stackUnderflow else .ok (s.words.getD (s.size - 1) 0)

/-- Takes the word on top. -/
def pop (s : OperandStack) : Except Cause (Word × OperandStack) :=
  if s.size = 0 then .error .stackUnderflow
  else .ok (s.words.getD (s.size - 1) 0, s.setCursor (Word.ofNat (s.size - 1)))

/-- Drops everything above `size` words. -/
def truncate (s : OperandStack) (size : Nat) : OperandStack :=
  if size < s.size then s.setCursor (Word.ofNat size) else s

@[simp]
theorem words_setCursor (s : OperandStack) (cursor : Word) :
    (s.setCursor cursor).words = s.words := rfl

@[simp]
theorem capacity_setCursor (s : OperandStack) (cursor : Word) :
    (s.setCursor cursor).capacity = s.capacity := rfl

@[simp]
theorem size_empty (capacity : Nat) : (empty capacity).size = 0 := rfl

/-- A push overflows exactly at the capacity. -/
theorem push_eq_error_iff (s : OperandStack) (value : Word) (cause : Cause) :
    s.push value = .error cause ↔ cause = .stackOverflow ∧ s.capacity ≤ s.size := by
  unfold push
  split <;> simp_all [eq_comm]

/-- A pop underflows exactly on an empty stack. -/
theorem pop_eq_error_iff (s : OperandStack) (cause : Cause) :
    s.pop = .error cause ↔ cause = .stackUnderflow ∧ s.size = 0 := by
  unfold pop
  split <;> simp_all [eq_comm]

/-! ### What compiled code does -/

/-- Writes at the cursor and moves it up, without a check. -/
def pushUnchecked (s : OperandStack) (value : Word) : OperandStack :=
  setCursor { s with words := s.words.setIfInBounds s.size value } (s.cursor + 1)

/-- Moves the cursor down, without a check. -/
def dropUnchecked (s : OperandStack) : OperandStack := s.setCursor (s.cursor - 1)

def atCursor (s : OperandStack) : Word := s.words.getD s.size 0

end OperandStack

end StackMachine
