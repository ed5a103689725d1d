import Mathlib.Algebra.BigOperators.Ring.List
import Mathlib.Algebra.Order.BigOperators.GroupWithZero.List
import Mathlib.Algebra.Order.Ring.Int
import StackMachine.Proofs.Addressing
import StackMachine.Proofs.Shapes

/-!
# Bulk copies

An array starts with its element count and its extents (`Heap.Made`).  A copy of elements is checked
against a bound that is not the same for all kinds: for integers and doubles it is the element
count, for bytes and chars the outermost extent.  The outermost extent is at most the element count,
unless a further extent is zero (`ElemKind.Solid`).  So a copy that is accepted stays within the
elements of both arrays (`RuntimeCall.within_of_copyArray`), except that an array of bytes or chars
without elements is copied up to its outermost extent.
-/

namespace StackMachine

variable {s : State} {x : Word} {xs : List Word}

/-! ### The words of a new array -/

namespace Block

@[simp]
lemma size_setWord (b : Block) (i : Nat) (value : Word) :
    (b.setWord i value).payload.size = b.payload.size := by
  simp [setWord]

lemma word_setWord {b : Block} {i j : Nat} {value : Word} (bound : i < b.payload.size) :
    (b.setWord i value).word j = if i = j then value else b.word j := by
  unfold setWord word
  simp only [Array.getD_eq_getD_getElem?, Array.getElem?_setIfInBounds]
  split
  · simp
  · rfl

end Block

namespace Heap

variable {b : Block} {i j : Nat} {words : List Word} {word : Word}

@[simp]
lemma size_writeWords (b : Block) (i : Nat) (words : List Word) :
    (writeWords b i words).payload.size = b.payload.size := by
  induction words generalizing b i with
  | nil => rfl
  | cons value rest ih => rw [writeWords, ih, Block.size_setWord]

section

variable (fits : i + words.length ≤ b.payload.size)
include fits

/-- The words before those that are written stay. -/
lemma word_writeWords_of_lt (lt : j < i) : (writeWords b i words).word j = b.word j := by
  induction words generalizing b i with
  | nil => rfl
  | cons value rest ih =>
    rw [List.length_cons] at fits
    rw [writeWords, ih (by rw [Block.size_setWord]; omega) (by omega),
      Block.word_setWord (by omega), if_neg (by omega)]

/-- The words after those that are written stay. -/
lemma word_writeWords_of_le (le : i + words.length ≤ j) :
    (writeWords b i words).word j = b.word j := by
  induction words generalizing b i with
  | nil => rfl
  | cons value rest ih =>
    rw [List.length_cons] at fits le
    rw [writeWords, ih (by rw [Block.size_setWord]; omega) (by omega),
      Block.word_setWord (by omega), if_neg (by omega)]

lemma word_writeWords_add {k : Nat} (at_k : words[k]? = some word) :
    (writeWords b i words).word (i + k) = word := by
  induction words generalizing b i k with
  | nil => cases at_k
  | cons value rest ih =>
    rw [List.length_cons] at fits
    have fits' : i + 1 + rest.length ≤ (b.setWord i value).payload.size := by
      rw [Block.size_setWord]
      omega
    rw [writeWords]
    cases k with
    | zero =>
      have before := word_writeWords_of_lt fits' (Nat.lt_succ_self i)
      rw [Block.word_setWord (by omega), if_pos rfl] at before
      exact before.trans (Option.some.inj at_k)
    | succ k =>
      have later := ih fits' at_k
      rwa [Nat.add_assoc, Nat.add_comm 1] at later

end

/-- The counter of words is right. -/
def Counted (h : Heap) : Prop := h.words = h.wordsBefore h.blocks.size

/-- The words at the start of an array with so many elements. -/
def header (size : Word) (extents : List Word) :
    List Word := size :: Word.ofNat extents.length :: extents

variable {h grown : Heap} {kind : ElemKind} {extents : List Word} {array size : Word}

/-- There is room for a block of so many payload words. -/
def Room (h : Heap) (words : Nat) :
    Prop := ∀ limit ∈ h.limit, h.stats.words + words + headerWords ≤ limit

instance (h : Heap) (words : Nat) :
    Decidable (h.Room words) := inferInstanceAs (Decidable (∀ limit ∈ h.limit, _))

/-- The heap with one more block. -/
def adding (h : Heap) (b : Block) : Heap :=
  { h with
    blocks := h.blocks.push b
    words := h.words + b.payload.size + headerWords
    allocated := h.allocated + 1 }

/-- Why there is no room. -/
def exhausted (h : Heap) : Cause :=
  .resourceExhausted ("heap limit of " ++ Numeral.signedDecimal (h.limit.getD 0) ++
    " words reached")

/-- A block is added if its words can be counted, if there is room, and if a row can have so
many. -/
def add (h : Heap) (b : Block) : Except Denial (Word × Heap) :=
  if 2 ^ 64 ≤ h.stats.words + b.payload.size + headerWords then .error (.broken h)
  else if h.Room b.payload.size then
    if b.payload.size + headerWords < Word.rowLimit then .ok (handleAfter h.words, h.adding b)
    else .error (.broken (h.counting b.payload.size))
  else .error (.refused h.exhausted)

lemma alloc_eq_add (h : Heap) (block : BlockKind) (cls words : Nat) :
    h.alloc block cls words = h.add (.zeroed block cls words) := by
  have size : (Block.zeroed block cls words).payload.size = words := Array.size_replicate
  unfold alloc add adding
  rw [size]
  cases bound : h.limit with
  | none =>
    have room : h.Room words := by simp [Room, bound]
    simp only [room, if_true]
  | some limit =>
    have room : h.Room words ↔ h.stats.words + words + headerWords ≤ limit := by simp [Room, bound]
    simp only [room, decide_eq_true_eq, exhausted, bound]

/-- A new block is the last one. -/
lemma add_eq_ok (added : h.add b = .ok (array, grown)) :
    array = handleAfter h.words ∧ grown = h.adding b := by
  unfold add at added
  split at added
  · cases added
  · split at added
    · split at added <;> cases added
      exact ⟨rfl, rfl⟩
    · cases added

lemma modify_push_size (blocks : Array Block) (b : Block) (f : Block → Block) :
    (blocks.push b).modify blocks.size f = blocks.push (f b) := by
  refine Array.ext_getElem? fun i => ?_
  rw [Array.getElem?_modify, Array.getElem?_push, Array.getElem?_push]
  by_cases last : i = blocks.size
  · simp [last]
  · simp [last, Ne.symm last]

/-- A block that is added and then changed could have been changed before. -/
lemma modifyBlock_adding (h : Heap) (b : Block) (f : Block → Block)
    (same : (f b).payload.size = b.payload.size) :
    (h.adding b).modifyBlock h.blocks.size f = h.adding (f b) := by
  rw [adding, adding, modifyBlock, modify_push_size, same]

def newArray (kind : ElemKind) (size : Word) (extents : List Word) : Block :=
  writeWords (.zeroed .array kind.code (arrayWords kind size extents.length)) 0
    (header size extents)

@[simp]
lemma size_newArray (kind : ElemKind) (size : Word) (extents : List Word) :
    (newArray kind size extents).payload.size = arrayWords kind size extents.length := by
  simp [newArray, Block.zeroed]

lemma word_newArray (at_i : (header size extents)[i]? = some word) :
    (newArray kind size extents).word i = word := by
  have room : 0 + (header size extents).length ≤
      (Block.zeroed .array kind.code (arrayWords kind size extents.length)).payload.size := by
    simp [header, Block.zeroed, arrayWords, payloadWords]
  have back := word_writeWords_add room at_i
  rwa [Nat.zero_add] at back

/-- An array is added as a block if its elements and their bytes can be counted. -/
lemma allocArray_eq_add (h : Heap) (kind : ElemKind) (extents : List Word) :
    h.allocArray kind extents = ((elementCount 1 extents).mapError .refused).bind fun size =>
      if 2 ^ 64 ≤ arrayBytes kind size then .error (.broken h)
        else h.add (newArray kind size extents) := by
  unfold allocArray
  cases elementCount 1 extents with
  | error e => rfl
  | ok size =>
    by_cases wide : 2 ^ 64 ≤ arrayBytes kind size
    · simp only [Except.mapError, bind, Except.bind, if_pos wide]
    have zeroed : (Block.zeroed .array kind.code
        (arrayWords kind size extents.length)).payload.size = arrayWords kind size extents.length :=
        Array.size_replicate
    have headed := h.modifyBlock_adding
      (.zeroed .array kind.code (arrayWords kind size extents.length))
        (fun b => writeWords b 0 (header size extents)) (size_writeWords _ _ _)
    simp only [Except.mapError, bind, Except.bind, pure, Except.pure, if_neg wide, alloc_eq_add,
      add, zeroed, size_newArray]
    split_ifs
    · rfl
    · exact congrArg (fun grown => Except.ok (handleAfter h.words, grown)) headed
    · rfl
    · rfl

lemma allocArray_eq_newArray (made : h.allocArray kind extents = .ok (array, grown)) :
    ∃ size, elementCount 1 extents = .ok size ∧ array = handleAfter h.words ∧
      grown.blocks = h.blocks.push (newArray kind size extents) ∧
      grown.words = h.words + arrayWords kind size extents.length + headerWords := by
  rw [allocArray_eq_add] at made
  cases counted : elementCount 1 extents with
  | error e =>
    rw [counted] at made
    cases made
  | ok size =>
    simp only [counted, Except.mapError, Except.bind] at made
    split at made
    · cases made
    · obtain ⟨handle, rfl⟩ := add_eq_ok made
      exact ⟨size, rfl, handle, rfl, by rw [adding, size_newArray]⟩

/-- A new array is the last block, and starts with its header. -/
lemma allocArray_eq_ok (made : h.allocArray kind extents = .ok (array, grown)) :
    ∃ size b, elementCount 1 extents = .ok size ∧ array = handleAfter h.words ∧
      grown.blocks = h.blocks.push b ∧ grown.words = h.words + b.payload.size + headerWords ∧
      payloadWords extents.length ≤ b.payload.size ∧
      ∀ i word, (header size extents)[i]? = some word → b.word i = word := by
  obtain ⟨size, counted, handle, blocks, words⟩ := allocArray_eq_newArray made
  refine ⟨size, _, counted, handle, blocks, ?_, ?_, fun i word => word_newArray⟩
  · rw [words, size_newArray]
  · simp [arrayWords]

lemma wordsBefore_size (h : Heap) :
    h.wordsBefore h.blocks.size = (h.blocks.toList.map Block.footprint).sum := by
  rw [wordsBefore, List.take_of_length_le (by simp)]

lemma Counted.allocArray (counted : h.Counted)
    (made : h.allocArray kind extents = .ok (array, grown)) :
    grown.Counted := by
  obtain ⟨size, b, -, -, blocks, words, -, -⟩ := allocArray_eq_ok made
  rw [Counted, wordsBefore_size] at counted ⊢
  rw [blocks, words, counted, Array.toList_push, List.map_append, List.sum_append, Nat.add_assoc]
  simp [Block.footprint]

/-- A word is the handle of an array that was made with extents, and the header of the array is as
it was. -/
def Made (h : Heap) (kind : ElemKind) (array : Word) (extents : List Word) : Prop :=
  ∃ old new : Heap, old.Counted ∧ old.allocArray kind extents = .ok (array, new) ∧
    8 * new.words < 2 ^ 64 ∧
    ∀ i < payloadWords extents.length, h.word array i = new.word array i

lemma Made.exists_header (made : h.Made kind array extents) :
    ∃ size, elementCount 1 extents = .ok size ∧
    ∀ i word, (header size extents)[i]? = some word → h.word array i = word := by
  obtain ⟨old, new, counted, allocated, fits, kept⟩ := made
  obtain ⟨size, b, elements, rfl, blocks, words, room, starts⟩ := allocArray_eq_ok allocated
  refine ⟨size, elements, fun i word at_i => ?_⟩
  have last : new.blocks[old.blocks.size]? = some b := by rw [blocks, Array.getElem?_push_size]
  have before : new.wordsBefore old.blocks.size = old.words := by
    rw [counted, wordsBefore, wordsBefore, blocks, Array.toList_push,
      List.take_append_of_le_length (by simp)]
  have found : new.block? (handleAfter old.words) = some b := by
    rw [← before]
    refine block?_handleOf last (by unfold payloadWords at room; omega) ?_
    rw [before]
    omega
  have inHeader : i < payloadWords extents.length := (List.getElem?_eq_some_iff.1 at_i).1
  rw [kept i inHeader, Heap.word, found]
  exact starts i word at_i

lemma toInt_elementCount {start : Word} (nonneg : 0 ≤ start.toInt)
    (counted : elementCount start extents = .ok size) :
    (∀ extent ∈ extents, 0 ≤ extent.toInt) ∧
    size.toInt = start.toInt * (extents.map Int64.toInt).prod := by
  induction extents generalizing start with
  | nil =>
    cases counted
    simp
  | cons extent rest ih =>
    unfold elementCount at counted
    dsimp only at counted
    split at counted
    · cases counted
    · next notNeg =>
      have extentNonneg : 0 ≤ extent.toInt := Int64.le_iff_toInt_le.1 (Int64.not_lt.1 notNeg)
      have productNonneg : 0 ≤ start.toInt * extent.toInt := Int.mul_nonneg nonneg extentNonneg
      split at counted
      · next small =>
        have exact_ : (Int64.ofInt (start.toInt * extent.toInt)).toInt = start.toInt *
          extent.toInt :=
          Int64.toInt_ofInt_of_le (by omega) (by omega)
        obtain ⟨nonnegs, product⟩ := ih (by rw [exact_]; exact productNonneg) counted
        refine ⟨List.forall_mem_cons.2 ⟨extentNonneg, nonnegs⟩, ?_⟩
        rw [product, exact_, List.map_cons, List.prod_cons, Int.mul_assoc]
      · cases counted

end Heap

/-! ### The bound of a copy -/

/-- No element is counted less than it is asked for: the element count of an array of bytes or chars
is not zero because of a further extent. -/
def ElemKind.Solid : ElemKind → List Word → Prop
  | .int, _ | .float, _ => True
  | .byte, extents | .char, extents =>
    ∃ first rest, extents = first :: rest ∧ (first = 0 ∨ 0 ∉ rest)

namespace Heap

variable {h : Heap} {kind : ElemKind} {extents rest : List Word}
  {array first dest destOffset src srcOffset length : Word}

/-- The first words of an array are the element count and the outermost extent. -/
lemma Made.toInt_arrayLength (made : h.Made kind array (first :: rest)) :
    h.arrayExtent array 0 = first ∧ 0 ≤ first.toInt ∧ (∀ extent ∈ rest, 0 ≤ extent.toInt) ∧
      (h.arrayLength array).toInt = first.toInt * (rest.map Int64.toInt).prod := by
  obtain ⟨size, counted, starts⟩ := made.exists_header
  obtain ⟨nonnegs, product⟩ := toInt_elementCount (by decide) counted
  obtain ⟨nonneg, nonnegs⟩ := List.forall_mem_cons.1 nonnegs
  refine ⟨starts 2 first rfl, nonneg, nonnegs, ?_⟩
  rw [arrayLength, starts 0 size rfl, product, List.map_cons, List.prod_cons]
  exact Int.one_mul _

/-- The bound of a copy is at most the element count. -/
lemma Made.copyBound_le (made : h.Made kind array extents) (solid : kind.Solid extents) :
    (h.copyBound array kind).toInt ≤ (h.arrayLength array).toInt := by
  have texts (counts : ∃ first rest, extents = first :: rest ∧ (first = 0 ∨ 0 ∉ rest)) :
      (h.arrayExtent array 0).toInt ≤ (h.arrayLength array).toInt := by
    obtain ⟨first, rest, rfl, counts⟩ := counts
    obtain ⟨outermost, nonneg, nonnegs, count⟩ := made.toInt_arrayLength
    rw [outermost, count]
    rcases counts with rfl | noZero
    · exact Int.le_of_eq (Int.zero_mul _).symm
    · have pos : 0 < (rest.map Int64.toInt).prod := by
        refine List.prod_pos fun count mem => ?_
        obtain ⟨extent, inRest, rfl⟩ := List.mem_map.1 mem
        refine lt_of_le_of_ne (nonnegs extent inRest) fun zero => noZero ?_
        rwa [← Int64.toInt_inj.1 (zero.symm.trans Int64.toInt_zero.symm)]
      exact le_mul_of_one_le_right nonneg pos
  cases kind with
  | byte | char => exact texts solid
  | int | float => exact Int.le_refl _

lemma rangeFits_iff {offset bound : Word} :
    rangeFits offset length bound = true ↔ 0 ≤ offset.toInt ∧
    offset.toInt + length.toInt ≤ bound.toInt := by
  have small := bound.toInt_lt
  simp only [rangeFits, Bool.and_eq_true, decide_eq_true_eq, Int64.le_iff_toInt_le,
    Int64.toInt_zero]
  constructor
  · rintro ⟨⟨nonneg, -⟩, le⟩
    exact ⟨nonneg, le⟩
  · rintro ⟨nonneg, le⟩
    exact ⟨⟨nonneg, by omega⟩, le⟩

/-- A copy is accepted if some elements are copied and both ranges fit. -/
lemma isSome_copyElements_iff : (h.copyElements kind dest destOffset src srcOffset length).isSome ↔
    0 < length.toInt ∧
        (0 ≤ srcOffset.toInt ∧ srcOffset.toInt + length.toInt ≤ (h.copyBound src kind).toInt) ∧
        (0 ≤ destOffset.toInt ∧
          destOffset.toInt + length.toInt ≤ (h.copyBound dest kind).toInt) := by
  rw [← rangeFits_iff, ← rangeFits_iff, copyElements, ← Int64.toInt_zero, ← Int64.lt_iff_toInt_lt]
  split
  · next fits => simp [fits]
  · next refused => simpa using refused

end Heap

/-! ### Copies by the runtime -/

/-- Another operand stack in place of the old one. -/
def State.withStack (s : State) (stack : OperandStack) :
    State := { s with context := { s.context with stack } }

/-- Another heap in place of the old one. -/
def State.withHeap (s : State) (heap : Heap) :
    State := { s with machine := { s.machine with heap } }

lemma Exec.pop_eq_ok (holds : s.context.stack.Holds (x :: xs)) :
    Exec.pop s = .ok x (s.withStack s.context.stack.dropUnchecked) := by
  unfold Exec.pop
  rw [holds.pop_eq]
  rfl

lemma Exec.pop_withStack {stack : OperandStack} (holds : stack.Holds (x :: xs)) :
    Exec.pop (s.withStack stack) = .ok x (s.withStack stack.dropUnchecked) :=
  Exec.pop_eq_ok (s := s.withStack stack) holds

lemma Exec.push_eq_ok (holds : s.context.stack.Holds xs)
    (room : xs.length < s.context.stack.capacity) :
    Exec.push x s = .ok () (s.withStack (s.context.stack.pushUnchecked x)) := by
  unfold Exec.push
  rw [holds.push_eq room]
  rfl

lemma Exec.push_withStack {stack : OperandStack} (holds : stack.Holds xs)
    (room : xs.length < stack.capacity) :
    Exec.push x (s.withStack stack) = .ok () (s.withStack (stack.pushUnchecked x)) :=
  Exec.push_eq_ok (s := s.withStack stack) holds room

/-- A word is taken from the operand stack. -/
lemma Exec.exists_pop (holds : s.context.stack.Holds (x :: xs)) :
    ∃ t, Exec.pop s = .ok x t ∧ t.machine = s.machine ∧ t.context.stack.Holds xs :=
  ⟨_, Exec.pop_eq_ok holds, rfl, holds.dropUnchecked⟩

/-- A word is left on the operand stack. -/
lemma Exec.holds_of_push {t : State} (holds : s.context.stack.Holds xs)
    (pushed : Exec.push x s = .ok () t) : t.context.stack.Holds (x :: xs) := by
  unfold Exec.push at pushed
  by_cases room : xs.length < s.context.stack.capacity
  · rw [holds.push_eq room] at pushed
    cases pushed
    exact holds.pushUnchecked room x
  · rw [holds.push_full (Nat.not_lt.1 room)] at pushed
    cases pushed

namespace RuntimeCall

open Exec

variable {kind : ElemKind} {s t : State} {rest : List Word}
  {dest destOffset src srcOffset length : Word}

/-- The state in which the operands of a copy are taken. -/
def copying (s : State) : State :=
  s.withStack s.context.stack.dropUnchecked.dropUnchecked.dropUnchecked.dropUnchecked.dropUnchecked

section

variable (holds : s.context.stack.Holds (length :: srcOffset :: src :: destOffset :: dest :: rest))
include holds

/-- The runtime takes the operands of a copy, checks the handles and leaves whether the ranges
fit. -/
lemma copyArray_eq :
    copyArray kind s =
      if src = 0 ∨ dest = 0 then .error (.fault { cause := .nilDereference }) (copying s)
      else match s.machine.heap.copyElements kind dest destOffset src srcOffset length with
        | some heap => push 1 ((copying s).withHeap heap)
        | none => push 0 (copying s) := by
  have holds₁ := holds.dropUnchecked
  have holds₂ := holds₁.dropUnchecked
  have holds₃ := holds₂.dropUnchecked
  rw [copyArray, bind_of_ok (pop_eq_ok holds), bind_of_ok (pop_withStack holds₁),
    bind_of_ok (pop_withStack holds₂), bind_of_ok (pop_withStack holds₃),
      bind_of_ok (pop_withStack holds₃.dropUnchecked)]
  dsimp only
  split
  · rfl
  · rw [asksHeap_bind]
    change (match s.machine.heap.copyElements kind dest destOffset src srcOffset length with
      | some heap => do
        modifyHeap fun _ => heap
        push 1
      | none => push 0 : Exec Unit) (copying s) = _
    cases s.machine.heap.copyElements kind dest destOffset src srcOffset length <;> rfl

/-- The runtime leaves one for a copy that is accepted, and zero for one that is refused. -/
lemma copyArray_eq_ok (copied : copyArray kind s = .ok () t) :
    t.context.stack.Holds
        ((if (s.machine.heap.copyElements kind dest destOffset src srcOffset length).isSome then 1
          else 0) :: rest) := by
  have below := holds.dropUnchecked.dropUnchecked.dropUnchecked.dropUnchecked.dropUnchecked
  rw [copyArray_eq holds] at copied
  split at copied
  · cases copied
  · cases copies : s.machine.heap.copyElements kind dest destOffset src srcOffset length with
    | none =>
      rw [copies] at copied
      exact holds_of_push (s := copying s) below copied
    | some heap =>
      rw [copies] at copied
      exact holds_of_push (s := (copying s).withHeap heap) below copied

end

/-- A copy that the runtime accepts stays within the elements of both arrays, whatever the offsets
and the length; arrays of bytes and chars are assumed not to be without elements because of a
further extent. -/
theorem within_of_copyArray {srcExtents destExtents : List Word}
    (holds : s.context.stack.Holds (length :: srcOffset :: src :: destOffset :: dest :: rest))
    (madeSrc : s.machine.heap.Made kind src srcExtents)
    (madeDest : s.machine.heap.Made kind dest destExtents) (solidSrc : kind.Solid srcExtents)
    (solidDest : kind.Solid destExtents) (copied : copyArray kind s = .ok () t)
    (accepted : t.context.stack.Holds (1 :: rest)) :
    0 < length.toInt ∧ (0 ≤ srcOffset.toInt ∧
      srcOffset.toInt + length.toInt ≤ (s.machine.heap.arrayLength src).toInt) ∧
      (0 ≤ destOffset.toInt ∧
        destOffset.toInt + length.toInt ≤ (s.machine.heap.arrayLength dest).toInt) := by
  have accepts : (s.machine.heap.copyElements kind dest destOffset src srcOffset
    length).isSome := by
    by_contra refused
    have zero := copyArray_eq_ok holds copied
    rw [if_neg refused] at zero
    have same := zero.toList_eq.symm.trans accepted.toList_eq
    simp at same
  obtain ⟨some_, ⟨srcNonneg, srcLe⟩, destNonneg, destLe⟩ := Heap.isSome_copyElements_iff.1 accepts
  exact ⟨some_, ⟨srcNonneg, srcLe.trans (madeSrc.copyBound_le solidSrc)⟩, destNonneg,
    destLe.trans (madeDest.copyBound_le solidDest)⟩

/-! ### Two byte arrays -/

namespace TwoArrays

/-- A matrix of two by three bytes, in a heap of its own. -/
def matrix : Word × Heap := (({} : Heap).allocArray .byte [2, 3]).toOption.getD (0, {})

/-- A row of six bytes after it. -/
def row : Word × Heap := (matrix.2.allocArray .byte [6]).toOption.getD (0, {})

/-- Two bytes of the matrix are to be copied into the row, from its fourth byte on. -/
def stack : OperandStack :=
  (((((OperandStack.empty 5).pushUnchecked row.1).pushUnchecked 3).pushUnchecked
    matrix.1).pushUnchecked 0).pushUnchecked 2

/-- The thread that copies. -/
def state : State where
  machine :=
    { program := {}, settings := {}, heap := row.2,
      statics := #[], records := #[], seed := 1, clock := 0 }
  context := { stack }

end TwoArrays

open TwoArrays in
/-- The copy is accepted, and stays within both arrays. -/
theorem within_of_copyArray_matrix : ∃ t, copyArray .byte state = .ok () t ∧
    t.context.stack.Holds [1] ∧
    (0 : Int) + 2 ≤ (state.machine.heap.arrayLength matrix.1).toInt ∧
    (3 : Int) + 2 ≤ (state.machine.heap.arrayLength row.1).toInt := by
  have holds : state.context.stack.Holds [2, 0, matrix.1, 3, row.1] :=
    (((((OperandStack.holds_empty (by decide)).pushUnchecked (by decide) _).pushUnchecked
      (by decide) _).pushUnchecked (by decide) _).pushUnchecked (by decide) _).pushUnchecked
        (by decide) _
  have made : ({} : Heap).allocArray .byte [2, 3] = .ok matrix := by decide +kernel
  have madeMatrix : state.machine.heap.Made .byte matrix.1 [2, 3] :=
    ⟨{}, matrix.2, rfl, made, by decide +kernel, by decide +kernel⟩
  have madeRow : state.machine.heap.Made .byte row.1 [6] :=
    ⟨matrix.2, row.2, Heap.Counted.allocArray
      (h := {}) rfl made, by decide +kernel, by decide +kernel, fun _ _ => rfl⟩
  have answers : (copyArray .byte).run' state = some () := by decide +kernel
  obtain ⟨t, copied⟩ := Exec.exists_of_run' answers
  have accepted := copyArray_eq_ok holds copied
  rw [if_pos (by decide +kernel)] at accepted
  obtain ⟨-, ⟨-, inMatrix⟩, -, inRow⟩ :=
    within_of_copyArray holds madeMatrix madeRow ⟨2, [3], rfl, by decide⟩ ⟨6, [], rfl, by decide⟩
      copied accepted
  exact ⟨t, copied, accepted, inMatrix, inRow⟩

end RuntimeCall

end StackMachine
