import Mathlib.Tactic.Common
import StackMachine.Heap.Array
import StackMachine.Native.Generator
import StackMachine.Proofs.OperandStack

/-!
# Addresses of fields and elements

The interpreter looks arrays up by their handle; compiled code adds offsets to the handle and reads
what is there.  For a word that is the handle of an array with the dimension count the code expects,
both come to the same (`Heap.IsArray`).  Offsets of fields are encoded in 32 bits, which is enough
for the first 2 ^ 28 words of a block.
-/

namespace StackMachine

namespace Word

/-- A word that is not negative is the word of its number. -/
lemma ofNat_toNat {w : Word} (nonneg : 0 ≤ w) : ofNat w.toInt.toNat = w := by
  have low : (0 : Int) ≤ w.toInt := Int64.le_iff_toInt_le.1 nonneg
  rw [ofNat, ← Int64.ofInt_eq_ofNat, Int.toNat_of_nonneg low, Int64.ofInt_toInt]

/-- The larger of a word and zero is not negative. -/
lemma zero_le_max (w : Word) : 0 ≤ max w 0 := by
  show 0 ≤ if w ≤ 0 then 0 else w
  split
  · exact Int64.le_refl 0
  · next positive => exact Int64.le_of_lt (Int64.not_le.1 positive)

end Word

namespace Block

/-- An aligned word is read as it stands in the payload. -/
lemma load_word (b : Block) (j : Nat) : b.load .word (8 * j) = b.word j := by
  have offset : bitOffset (8 * j) = 0 := by simp [bitOffset]
  have inside : spills .word (8 * j) = false := by simp [spills, Width.bytes]
  have word : (8 * j) / 8 = j := by omega
  have all : mask .word = -1 := rfl
  simp [load, offset, inside, word, all]

end Block

namespace Heap

variable {h : Heap} {array : Word} {dims : Nat}

/-- A word is the handle of an array with a dimension count, in a heap that fits the address
space. -/
def IsArray (h : Heap) (array : Word) (dims : Nat) : Prop :=
  ∃ i b, h.blocks[i]? = some b ∧ array = h.handleOf i ∧ b.word 1 = Word.ofNat dims ∧
    payloadWords dims ≤ b.payload.size ∧
    8 * (h.wordsBefore i + headerWords + b.payload.size) < 2 ^ 64

/-- Addresses do not come round to nil. -/
lemma handleAfter_ne_nil {words : Nat} (fits : 8 * (words + headerWords) ≤ 2 ^ 63) :
    handleAfter words ≠ 0 := by
  intro nil
  rw [handleAfter] at nil
  have opposite : Word.ofNat (8 * (words + headerWords)) = -base := by grind
  have unsigned := congrArg Word.toUnsigned opposite
  rw [Word.toUnsigned_ofNat (by omega)] at unsigned
  have far : 2 ^ 63 < Word.toUnsigned (-base) := by decide
  omega

/-- The block behind the handle of a block that is not empty. -/
lemma block?_handleOf {i : Nat} {b : Block} (at_i : h.blocks[i]? = some b)
    (nonempty : 0 < b.payload.size)
    (fits : 8 * (h.wordsBefore i + headerWords + b.payload.size) < 2 ^ 64) :
    h.block? (h.handleOf i) = some b := by
  have here : h.locate? (h.handleOf i + Word.ofNat 0) = some ⟨i, 0⟩ :=
    locate?_handleOf_add at_i (by omega) (by omega)
  have zero : h.handleOf i + Word.ofNat 0 = h.handleOf i := Int64.add_zero _
  rw [zero] at here
  rw [block?, index?, here]
  exact at_i

section

variable (isArray : h.IsArray array dims)
include isArray

/-- A header word of an array is read where compiled code expects it. -/
lemma IsArray.read_word {j : Nat} (bound : j < payloadWords dims) :
    h.read (array + Word.ofNat (8 * j)) .word = h.word array j := by
  obtain ⟨i, b, at_i, rfl, -, size, fits⟩ := isArray
  have there : h.locate? (h.handleOf i + Word.ofNat (8 * j)) = some ⟨i, 8 * j⟩ :=
    locate?_handleOf_add at_i (by omega) (by omega)
  rw [read, there, word, block?_handleOf at_i (by omega) fits]
  dsimp only
  rw [load, at_i]
  exact b.load_word j

/-- The dimension count of an array is the one expected. -/
lemma IsArray.arrayDims : h.arrayDims array = dims := by
  obtain ⟨i, b, at_i, rfl, count, size, fits⟩ := isArray
  unfold payloadWords at size
  have small : dims < 2 ^ 64 := by omega
  rw [Heap.arrayDims, word, block?_handleOf at_i (by omega) fits]
  show Word.toUnsigned (b.word 1) = dims
  rw [count, Word.toUnsigned_ofNat small]

/-- The element count is the first word of an array. -/
lemma IsArray.read_length : h.read array .word = h.arrayLength array := by
  have zero : array + Word.ofNat (8 * 0) = array := Int64.add_zero _
  have first := isArray.read_word (j := 0) (by simp [payloadWords])
  rw [zero] at first
  exact first

/-- An extent is read where compiled code expects it. -/
lemma IsArray.read_extent {dim : Nat} (bound : dim < dims) :
    h.read (array + Word.ofNat (8 * (dim + 2))) .word = h.arrayExtent array dim := by
  rw [isArray.read_word (by unfold payloadWords; omega), arrayExtent, Nat.add_comm]

end

/-- A shift by the logarithm of an element's width multiplies by the width. -/
lemma shiftLeft_width (kind : ElemKind) (index : Word) :
    index <<< Int64.ofNat (UInt8.ofNat kind.shift).toNat = index * Int64.ofNat kind.width := by
  rw [← Int64.toBitVec_inj, Int64.toBitVec_shiftLeft, Int64.toBitVec_mul]
  cases kind
  case byte =>
    show index.toBitVec <<< (0#64) = index.toBitVec * 1#64
    simp
  case char =>
    show index.toBitVec <<< (2#64) = index.toBitVec * 4#64
    rw [BitVec.shiftLeft_eq', BitVec.shiftLeft_eq_mul_twoPow]
    rfl
  all_goals
    show index.toBitVec <<< (3#64) = index.toBitVec * 8#64
    rw [BitVec.shiftLeft_eq', BitVec.shiftLeft_eq_mul_twoPow]
    rfl

/-- Compiled code computes the pointer to an element of an array. -/
lemma IsArray.elementPointer_eq (isArray : h.IsArray array dims) (few : payloadWords dims < 2 ^ 28)
    (kind : ElemKind) {index : Word} (nonneg : 0 ≤ index) :
    array + index <<< Int64.ofNat (UInt8.ofNat kind.shift).toNat +
      (Int32.ofNat (8 * (dims + 2))).toInt64 = h.elementPointer array kind index.toInt.toNat := by
  have offset : (Int32.ofNat (8 * (dims + 2))).toInt64 = Word.ofNat (8 * payloadWords dims) := by
    unfold payloadWords at few ⊢
    rw [← Int64.toInt_inj, Int32.toInt_toInt64, Int32.toInt_ofNat_of_lt (by omega),
      Word.toInt_ofNat (by omega)]
  have scaled : index <<< Int64.ofNat (UInt8.ofNat kind.shift).toNat =
    Word.ofNat (index.toInt.toNat * kind.width) := by
    have product : Word.ofNat (index.toInt.toNat * kind.width) =
      index * Int64.ofNat kind.width := by
      rw [Word.ofNat, Int64.ofNat_mul]
      exact congrArg (· * _) (Word.ofNat_toNat nonneg)
    rw [product, shiftLeft_width]
  have sum : Word.ofNat (index.toInt.toNat * kind.width) + Word.ofNat (8 * payloadWords dims) =
      Word.ofNat (8 * payloadWords dims + index.toInt.toNat * kind.width) := by
    rw [Nat.add_comm (8 * payloadWords dims)]
    exact (Int64.ofNat_add _ _).symm
  rw [offset, scaled, elementPointer, payloadOffset, isArray.arrayDims, Int64.add_assoc, sum]

end Heap

namespace Native

/-- The offset of a field in one of the first 2 ^ 28 words of a block. -/
lemma toInt64_fieldDisp {slot further : Word} (nonneg : 0 ≤ further)
    (few : (max slot 0).toInt + further.toInt < 2 ^ 28) :
    (Gen.fieldDisp slot further).toInt64 = 8 * max slot 0 + 8 * further := by
  have low : (0 : Int) ≤ (max slot 0).toInt := Int64.le_iff_toInt_le.1 (Word.zero_le_max slot)
  have low' : (0 : Int) ≤ further.toInt := Int64.le_iff_toInt_le.1 nonneg
  have eight : (8 : Word).toInt = 8 := rfl
  unfold Gen.fieldDisp
  generalize max slot 0 = m at *
  have small {n : Int} (low : 0 ≤ n) (high : n < 2 ^ 31) :
      n.bmod (2 ^ 64) = n ∧ n.bmod (2 ^ 32) = n :=
    ⟨Int.bmod_eq_of_le (by simp; omega) (by simp; omega), Int.bmod_eq_of_le (by simp; omega)
      (by simp; omega)⟩
  have sum : (m + further).toInt = m.toInt + further.toInt := by
    rw [Int64.toInt_add]
    exact (small (by omega) (by omega)).1
  have left : ((m + further) * 8).toInt32.toInt64.toInt = (m.toInt + further.toInt) * 8 := by
    rw [Int32.toInt_toInt64, Int64.toInt_toInt32, Int64.toInt_mul, sum, eight,
      (small (by omega) (by omega)).1, (small (by omega) (by omega)).2]
  have right (w : Word) (low : 0 ≤ w.toInt) (high : w.toInt < 2 ^ 28) :
      (8 * w).toInt = 8 * w.toInt := by
    rw [Int64.toInt_mul, eight]
    exact (small (by omega) (by omega)).1
  rw [← Int64.toInt_inj, left, Int64.toInt_add, right m low (by omega),
    right further low' (by omega), (small (by omega) (by omega)).1]
  omega

end Native

end StackMachine
