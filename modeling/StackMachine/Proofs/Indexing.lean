import Mathlib.Data.List.Forall2
import Mathlib.Data.Set.Lattice
import Mathlib.Order.CompletePartialOrder
import StackMachine.Proofs.Allocation
import StackMachine.Proofs.Ideal

/-!
# Elements in row-major order

The elements of an array are numbered in row-major order (`Heap.rowMajor`): the last index varies
fastest.  On the indices of an array this numbering is a bijection to the numbers below the element
count.  It is folded from the outermost index on, in arithmetic that wraps, and only what comes out
is checked.

In an array whose block has room for its elements (`Heap.Built`) the element of indices is found
where its number says, and the elements share no byte and fill the payload
(`Heap.indexes_of_built`).
-/

namespace StackMachine

lemma ElemKind.bytes_access (kind : ElemKind) : kind.access.bytes = kind.width := by
  cases kind <;> rfl

lemma ElemKind.width_pos (kind : ElemKind) : 0 < kind.width := by cases kind <;> decide

namespace Heap

variable {place : Nat}

/-! ### Numbers of elements -/

/-- The number of the element of indices: an index counts as many elements as the extents after its
own have. -/
def rowMajor : List Word → List Word → Int
  | _ :: extents, index :: indices => index.toInt * elements extents + rowMajor extents indices
  | _, _ => 0

/-- The number of the element, wrapped to a word. -/
def flatWord (extents indices : List Word) : Word := Int64.ofInt (rowMajor extents indices)

/-- Each index is within its extent. -/
def Within : List Word → List Word → Prop :=
  List.Forall₂ fun extent index => 0 ≤ index.toInt ∧ index.toInt < extent.toInt

/-- A number is in the range of signed words. -/
def FitsWord (n : Int) : Prop := -2 ^ 63 ≤ n ∧ n < 2 ^ 63

instance (n : Int) : Decidable (FitsWord n) := inferInstanceAs (Decidable (_ ∧ _))

/-- Further indices are folded into a number, as long as every product and every sum is in the range
of words. -/
def checkedFold : Int → List Word → List Word → Option Int
  | number, [], [] => some number
  | number, extent :: extents, index :: indices =>
    if FitsWord (number * extent.toInt) ∧ FitsWord (number * extent.toInt + index.toInt) then
      checkedFold (number * extent.toInt + index.toInt) extents indices
    else none
  | _, _, _ => none

/-- The number of the element of indices, if nothing wraps on the way. -/
def checkedNumber : List Word → List Word → Option Int
  | _ :: extents, index :: indices => checkedFold index.toInt extents indices
  | _, _ => none

variable {h : Heap} {kind : ElemKind} {extents indices indices' : List Word} {array : Word}

lemma elements_nonneg (nonneg : ∀ extent ∈ extents, 0 ≤ extent.toInt) : 0 ≤ elements extents := by
  apply List.prod_nonneg
  simpa using nonneg

lemma rowMajor_bounds (within : Within extents indices) :
    0 ≤ rowMajor extents indices ∧ rowMajor extents indices < elements extents := by
  induction within with
  | nil => decide
  | @cons extent index extents indices bounds _ ih =>
    have next : (index.toInt + 1) * elements extents ≤ extent.toInt * elements extents :=
      Int.mul_le_mul_of_nonneg_right (by omega) (by omega)
    have low : 0 ≤ index.toInt * elements extents := Int.mul_nonneg bounds.1 (by omega)
    rw [Int.add_mul, Int.one_mul] at next
    rw [rowMajor, elements_cons]
    omega

/-- Different indices number different elements. -/
lemma rowMajor_injective (within : Within extents indices) (within' : Within extents indices')
    (same : rowMajor extents indices = rowMajor extents indices') : indices = indices' := by
  induction within generalizing indices' with
  | nil =>
    cases within'
    rfl
  | @cons extent index extents indices _ within ih =>
    cases within' with
    | @cons _ index' _ indices' _ within' =>
      have bounds := rowMajor_bounds within
      have bounds' := rowMajor_bounds within'
      rw [rowMajor, rowMajor] at same
      have first : index.toInt = index'.toInt := by
        have quotient := congrArg (· / elements extents) same
        simp only [Int.mul_comm _ (elements extents)] at quotient
        rwa [Int.mul_add_ediv_left _ _ (by omega), Int.mul_add_ediv_left _ _ (by omega),
          Int.ediv_eq_zero_of_lt bounds.1 bounds.2, Int.ediv_eq_zero_of_lt bounds'.1 bounds'.2,
          Int.add_zero, Int.add_zero] at quotient
      have rest : indices = indices' := ih within' (by rw [first] at same; omega)
      rw [Int64.toInt_inj.1 first, rest]

/-- Every number below the element count is that of an element. -/
lemma exists_rowMajor (nonneg : ∀ extent ∈ extents, 0 ≤ extent.toInt) {n : Int} (low : 0 ≤ n)
    (high : n < elements extents) : ∃ indices, Within extents indices ∧
    rowMajor extents indices = n := by
  induction extents generalizing n with
  | nil =>
    have one : elements [] = 1 := rfl
    have zero : rowMajor [] [] = 0 := rfl
    exact ⟨[], .nil, by omega⟩
  | cons extent extents ih =>
    obtain ⟨extentNonneg, restNonneg⟩ := List.forall_mem_cons.1 nonneg
    rw [elements_cons] at high
    have positive : 0 < elements extents := by
      rcases (elements_nonneg restNonneg).lt_or_eq with positive | zero
      · exact positive
      · rw [← zero] at high
        omega
    obtain ⟨indices, within, number⟩ := ih restNonneg (Int.emod_nonneg n (by omega))
      (Int.emod_lt_of_pos n positive)
    have quotientLow : 0 ≤ n / elements extents := Int.ediv_nonneg low (by omega)
    have quotientHigh : n / elements extents < extent.toInt := Int.ediv_lt_of_lt_mul positive high
    have toInt : (Int64.ofInt (n / elements extents)).toInt = n / elements extents :=
      Int64.toInt_ofInt_of_le (by omega) (by have := extent.toInt_lt; omega)
    refine ⟨Int64.ofInt (n / elements extents) :: indices, .cons (by rw [toInt]; omega) within, ?_⟩
    rw [rowMajor, toInt, number, Int.mul_comm]
    exact Int.mul_ediv_add_emod n (elements extents)

/-- Nothing wraps while indices that are within their extents are folded. -/
lemma checkedFold_eq {number count : Int} (within : Within extents indices) (low : 0 ≤ number)
    (high : number < count) (small : ∀ n, count * elements (extents.take n) < 2 ^ 63) :
    checkedFold number extents indices =
      some (number * elements extents + rowMajor extents indices) := by
  induction within generalizing number count with
  | nil => simp [checkedFold, rowMajor, elements]
  | @cons extent index extents indices bounds _ ih =>
    have next : (number + 1) * extent.toInt ≤ count * extent.toInt :=
      Int.mul_le_mul_of_nonneg_right (by omega) (by omega)
    have product : 0 ≤ number * extent.toInt := Int.mul_nonneg low (by omega)
    have total : count * extent.toInt < 2 ^ 63 := by simpa [elements] using small 1
    rw [Int.add_mul, Int.one_mul] at next
    have fits : FitsWord (number * extent.toInt) ∧ FitsWord (number * extent.toInt + index.toInt) :=
      ⟨⟨by omega, by omega⟩, by omega, by omega⟩
    have later : checkedFold (number * extent.toInt + index.toInt) extents indices = _ :=
      ih (by omega) (show _ < count * extent.toInt by omega) fun n => by
        have further := small (n + 1)
        rwa [List.take_succ_cons, elements_cons, ← Int.mul_assoc] at further
    rw [checkedFold, if_pos fits, later, rowMajor, elements_cons, Int.add_mul, Int.mul_assoc,
      Int.add_assoc]

lemma checkedNumber_eq (inRange : InRange extents) (nonempty : extents ≠ [])
    (within : Within extents indices) :
    checkedNumber extents indices = some (rowMajor extents indices) := by
  cases within with
  | nil => exact absurd rfl nonempty
  | @cons extent index extents indices bounds within =>
    refine checkedFold_eq within bounds.1 bounds.2 fun n => ?_
    have further := inRange.small (n + 1)
    rwa [List.take_succ_cons, elements_cons] at further

/-! ### Arrays in a heap -/

/-- An array was allocated at a place, and its header and the sizes of the blocks up to it are as
they were then.  Its block has room for its elements and is within the addresses. -/
structure Built (h : Heap) (kind : ElemKind) (extents : List Word) (array : Word) (place : Nat)
    (b : Block) : Prop where
  allocated : ∃ old new : Heap, old.Counted ∧ old.allocArray kind extents = .ok (array, new) ∧
    old.blocks.size = place ∧
    (∀ i ≤ place, h.blocks[i]?.map Block.footprint = new.blocks[i]?.map Block.footprint) ∧
    ∀ i < payloadWords extents.length, new.blocks[place]?.map (fun block => block.word i) =
      some (b.word i)
  at_place : h.blocks[place]? = some b
  room : neededWords kind extents ≤ b.payload.size
  fits : 8 * (h.wordsBefore place + b.footprint) ≤ 2 ^ 63

/-- The element count and the extents of a block. -/
structure Laid (b : Block) (extents : List Word) : Prop where
  inRange : InRange extents
  count : (b.word 0).toInt = elements extents
  dims : b.word 1 = Word.ofNat extents.length
  extent : ∀ i (lt : i < extents.length), b.word (2 + i) = extents[i]

/-- The words before a place depend on the sizes of the blocks only. -/
lemma wordsBefore_congr {h' : Heap}
    (same : ∀ i < place, h.blocks[i]?.map Block.footprint = h'.blocks[i]?.map Block.footprint) :
    h.wordsBefore place = h'.wordsBefore place := by
  refine congrArg List.sum (List.ext_getElem? fun i => ?_)
  simp only [List.getElem?_map, List.getElem?_take, Array.getElem?_toList]
  split
  · next lt => exact same i lt
  · rfl

namespace Built

variable {place : Nat} {b : Block}

variable (built : h.Built kind extents array place b)
include built

lemma handle : array = h.handleOf place := by
  obtain ⟨old, new, counted, made, rfl, sizes, -⟩ := built.allocated
  obtain ⟨size, -, handle, blocks, -⟩ := allocArray_eq_newArray made
  have before : h.wordsBefore old.blocks.size = old.words := by
    rw [counted]
    refine wordsBefore_congr fun i lt => ?_
    rw [sizes i (by omega), blocks, Array.getElem?_push_lt lt, Array.getElem?_eq_getElem lt]
  rw [handle, handleOf, before]

lemma laid : Laid b extents := by
  obtain ⟨old, new, -, made, rfl, -, words⟩ := built.allocated
  obtain ⟨size, counted, -, blocks, -⟩ := allocArray_eq_newArray made
  have headed : (newArray kind size extents).Headed kind extents := headed_newArray counted
  have same {i : Nat} (lt : i < payloadWords extents.length) :
    b.word i = (newArray kind size extents).word i := by
    have word := words i lt
    rw [blocks, Array.getElem?_push_size] at word
    exact (Option.some.inj word).symm
  unfold payloadWords at same
  refine ⟨exists_elementCount_iff.1 ⟨size, counted⟩, ?_, ?_, fun i lt => ?_⟩
  · rw [same (by omega), headed.size]
  · rw [same (by omega), headed.dims]
  · rw [same (by omega), headed.extent i lt]

lemma isArray : h.IsArray array extents.length := by
  have room := built.room
  have fits := built.fits
  unfold neededWords at room
  unfold Block.footprint at fits
  exact ⟨place, b, built.at_place, built.handle,
    built.laid.dims, by unfold payloadWords; omega, by omega⟩

lemma block?_eq : h.block? array = some b := by
  have room := built.room
  have fits := built.fits
  unfold neededWords at room
  unfold Block.footprint at fits
  rw [built.handle]
  exact block?_handleOf built.at_place (by omega) (by omega)

lemma word_eq (i : Nat) : h.word array i = b.word i := by
  rw [word, built.block?_eq]

lemma ne_nil : array ≠ 0 := by
  have fits := built.fits
  unfold Block.footprint at fits
  rw [built.handle]
  exact handleAfter_ne_nil (by omega)

end Built

/-- The index that is folded is the number of the element, wrapped. -/
lemma flatIndex_eq (dim : Nat) (index : Word) (same : indices.length = extents.length)
    (read : ∀ i (lt : i < extents.length), h.arrayExtent array (dim + i) = extents[i]) :
    h.flatIndex array dim index indices =
      Int64.ofInt (index.toInt * elements extents + rowMajor extents indices) := by
  induction extents generalizing dim index indices with
  | nil =>
    obtain rfl := List.eq_nil_of_length_eq_zero same
    simp [flatIndex, rowMajor, elements]
  | cons extent extents ih =>
    cases indices with
    | nil => cases same
    | cons next indices =>
      have first : h.arrayExtent array dim = extent := read 0 (Nat.zero_lt_succ _)
      have later := ih (dim + 1) (index * extent + next) (Nat.succ.inj same) fun i lt => by
        rw [Nat.add_right_comm]
        exact read (i + 1) (Nat.succ_lt_succ lt)
      rw [flatIndex, first, later, rowMajor, elements_cons]
      simp only [Int64.ofInt_add, Int64.ofInt_mul, Int64.ofInt_toInt]
      grind

/-! ### The answer of an access -/

/-- The pointer to the element of indices, or why there is none. -/
def element (h : Heap) (kind : ElemKind) (array : Word) : List Word → Except Cause Word
  | [] => .error .stackUnderflow
  | index :: indices =>
    let flat := h.flatIndex array 1 index indices
    (h.checkIndex array flat).map fun _ => h.elementPointer array kind flat.toInt.toNat

/-- The element count of an array is a word. -/
lemma InRange.toInt_elements (inRange : InRange extents) :
    (Int64.ofInt (elements extents)).toInt = elements extents := by
  have low := elements_nonneg inRange.nonneg
  have high := inRange.small extents.length
  rw [List.take_length] at high
  exact Int64.toInt_ofInt_of_le (by omega) (by omega)

/-- The number of the element is checked after it has wrapped. -/
lemma Built.element_eq {b : Block} (built : h.Built kind extents array place b)
    (nonempty : extents ≠ []) (same : indices.length = extents.length) :
    h.element kind array indices =
      if flatWord extents indices < 0 then .error (.indexUnderBounds (flatWord extents indices))
      else if elements extents ≤ (flatWord extents indices).toInt then
        .error (.indexOverBounds (flatWord extents indices) (Int64.ofInt (elements extents)))
      else .ok (h.elementPointer array kind (flatWord extents indices).toInt.toNat) := by
  have laid := built.laid
  have count : h.arrayLength array = Int64.ofInt (elements extents) := by
    rw [arrayLength, built.word_eq, ← laid.count, Int64.ofInt_toInt]
  cases indices with
  | nil => exact absurd (List.eq_nil_of_length_eq_zero same.symm) nonempty
  | cons index indices =>
    have flat : h.flatIndex array 1 index indices = flatWord extents (index :: indices) := by
      obtain ⟨extent, extents, rfl⟩ := List.exists_cons_of_ne_nil nonempty
      refine flatIndex_eq 1 index (Nat.succ.inj same) fun i lt => ?_
      rw [arrayExtent, built.word_eq, Nat.add_comm 1 i]
      exact laid.extent (i + 1) (Nat.succ_lt_succ lt)
    simp only [element, flat, checkIndex, count, Int64.le_iff_toInt_le, laid.inRange.toInt_elements]
    split
    · rfl
    · split <;> rfl

/-! ### Bytes of elements -/

def bytesAt (h : Heap) (pointer : Word) (width : Nat) : Set Address :=
  { a | ∃ j < width, h.locate? (pointer + Word.ofNat j) = some a }

/-- The bytes of the elements of an array at a place. -/
def payloadBytes (kind : ElemKind) (extents : List Word) (place : Nat) : Set Address :=
  { a | a.block = place ∧ 8 * payloadWords extents.length ≤ a.offset ∧
    a.offset < 8 * payloadWords extents.length + (elements extents).toNat * kind.width }

namespace Built

variable {place : Nat} {b : Block}

variable (built : h.Built kind extents array place b)
include built

/-- The block of an array goes on after its elements, with the terminator of a text. -/
lemma payload_le :
    8 * payloadWords extents.length + ((elements extents).toNat + kind.reserve) * kind.width ≤
      8 * b.payload.size := by
  have room := built.room
  unfold neededWords elementBytes at room
  unfold payloadWords
  omega

/-- A byte of an element is where its number says. -/
lemma locate?_element {n j : Nat} (lt : n < (elements extents).toNat)
    (inElement : j < kind.width) : h.locate? (h.elementPointer array kind n + Word.ofNat j) =
      some ⟨place, 8 * payloadWords extents.length + n * kind.width + j⟩ := by
  have upTo : (n + 1) * kind.width ≤ ((elements extents).toNat + kind.reserve) * kind.width :=
    Nat.mul_le_mul_right _ (by omega)
  have payload := built.payload_le
  have fits := built.fits
  rw [Nat.add_mul, Nat.one_mul] at upTo
  unfold Block.footprint at fits
  have pointer : h.elementPointer array kind n + Word.ofNat j =
      h.handleOf place + Word.ofNat (8 * payloadWords extents.length + n * kind.width + j) := by
    rw [elementPointer, payloadOffset, built.isArray.arrayDims, Int64.add_assoc, ← built.handle]
    exact congrArg (array + ·) (Int64.ofNat_add _ _).symm
  rw [pointer]
  exact locate?_handleOf_add built.at_place (by omega) (by omega)

lemma mem_bytesAt_iff {n : Nat} (lt : n < (elements extents).toNat)
    {a : Address} : a ∈ h.bytesAt (h.elementPointer array kind n) kind.width ↔
      a.block = place ∧ 8 * payloadWords extents.length + n * kind.width ≤ a.offset ∧
        a.offset < 8 * payloadWords extents.length + (n + 1) * kind.width := by
  rw [Nat.add_mul, Nat.one_mul]
  constructor
  · rintro ⟨j, inElement, found⟩
    rw [built.locate?_element lt inElement] at found
    obtain rfl := Option.some.inj found
    exact ⟨rfl, by dsimp only; omega, by dsimp only; omega⟩
  · rintro ⟨rfl, low, high⟩
    refine ⟨a.offset - (8 * payloadWords extents.length + n * kind.width), by omega, ?_⟩
    rw [built.locate?_element lt (by omega)]
    exact congrArg some (congrArg (Address.mk a.block) (by omega))

/-- The access to indices that are within their extents finds their element. -/
lemma element_of_within (nonempty : extents ≠ []) (within : Within extents indices) :
    (rowMajor extents indices).toNat < (elements extents).toNat ∧
      h.element kind array indices =
        .ok (h.elementPointer array kind (rowMajor extents indices).toNat) := by
  obtain ⟨low, high⟩ := rowMajor_bounds within
  have count := built.laid.inRange.small extents.length
  rw [List.take_length] at count
  have number : (flatWord extents indices).toInt = rowMajor extents indices :=
    Int64.toInt_ofInt_of_le (by omega) (by omega)
  have notUnder : ¬ flatWord extents indices < 0 := by
    rw [Int64.lt_iff_toInt_lt, number, Int64.toInt_zero]
    omega
  refine ⟨by omega, ?_⟩
  rw [built.element_eq nonempty (List.Forall₂.length_eq within).symm, if_neg notUnder, number,
    if_neg (by omega)]

/-- An access that succeeds finds an element. -/
lemma exists_of_element (nonempty : extents ≠ []) (same : indices.length = extents.length)
    {pointer : Word} (found : h.element kind array indices = .ok pointer) :
    ∃ n < (elements extents).toNat, pointer = h.elementPointer array kind n := by
  rw [built.element_eq nonempty same] at found
  split at found
  · cases found
  · next notUnder =>
    rw [Int64.lt_iff_toInt_lt, Int64.toInt_zero] at notUnder
    split at found
    · cases found
    · exact ⟨_, by omega, (Except.ok.inj found).symm⟩

end Built

end Heap

namespace Interpreter

open Exec

variable {s : State} {kind : ElemKind} {array : Word} {indices rest : List Word}

/-- The further indices are taken from the operand stack. -/
lemma foldIndices_eq (array : Word) (dim : Nat) (index : Word)
    (holds : s.context.stack.Holds (indices ++ rest)) :
    ∃ t, foldIndices array (List.range' dim indices.length) index s =
        .ok (s.machine.heap.flatIndex array dim index indices) t ∧
      t.machine = s.machine ∧ t.context.stack.Holds rest := by
  induction indices generalizing s dim index with
  | nil => exact ⟨s, rfl, rfl, holds⟩
  | cons next indices ih =>
    obtain ⟨u, popped, machine, holds'⟩ := Exec.exists_pop holds
    obtain ⟨t, folded, machine', holds''⟩ :=
      ih (dim + 1) (index * s.machine.heap.arrayExtent array dim + next) holds'
    refine ⟨t, ?_, machine'.trans machine, holds''⟩
    rw [List.length_cons, List.range'_succ, foldIndices, asksHeap_bind, bind_of_ok popped, folded,
      machine]
    rfl

/-- A computation gives an answer, or stops with a cause, and changes no more than the operand
stack. -/
def Gives (s : State) (rest : List Word) (result : EStateM.Result Stop State Word) :
    Except Cause Word → Prop
  | .ok pointer => ∃ t, result = .ok pointer t ∧ t.machine = s.machine ∧ t.context.stack.Holds rest
  | .error cause => ∃ t, result = .error (.fault { cause }) t ∧ t.machine = s.machine

/-- An array and its indices are taken from the operand stack. -/
lemma gives_popElement (nonempty : indices ≠ []) (notNil : array ≠ 0)
    (holds : s.context.stack.Holds (array :: indices ++ rest)) :
    Gives s rest (popElement kind indices.length s)
    (s.machine.heap.element kind array indices) := by
  obtain ⟨index, indices, rfl⟩ := List.exists_cons_of_ne_nil nonempty
  obtain ⟨s₁, popped₁, machine₁, holds₁⟩ := Exec.exists_pop holds
  obtain ⟨s₂, popped₂, machine₂, holds₂⟩ := Exec.exists_pop holds₁
  obtain ⟨t, folded, machine₃, holds₃⟩ := foldIndices_eq array 1 index holds₂
  have machine : t.machine = s.machine := by rw [machine₃, machine₂, machine₁]
  have handle : popHandle s = .ok array s₁ := by
    rw [popHandle, bind_of_ok popped₁, if_neg notNil]
    rfl
  have run : popElement kind (index :: indices).length s =
      (ofExcept (s.machine.heap.checkIndex array
        (s.machine.heap.flatIndex array 1 index indices)) >>= fun _ =>
        asksHeap fun h =>
          h.elementPointer array kind (s.machine.heap.flatIndex array 1 index indices).toInt.toNat)
            t := by
    rw [popElement, bind_of_ok handle, bind_of_ok popped₂, List.length_cons, Nat.add_sub_cancel,
      bind_of_ok folded, asksHeap_bind, machine, machine₂, machine₁]
  rw [run, Heap.element]
  cases s.machine.heap.checkIndex array (s.machine.heap.flatIndex array 1 index indices) with
  | ok _ => exact ⟨t, by rw [← machine]; rfl, machine, holds₃⟩
  | error cause => exact ⟨t, rfl, machine⟩

end Interpreter

namespace Heap

/-- The elements of an array are addressed in row-major order. -/
structure Indexes (h : Heap) (kind : ElemKind) (extents : List Word) (array : Word) (place : Nat)
    (b : Block) :
    Prop where
  /-- An access that names as many dimensions as the array has is answered by `element`. -/
  gives : ∀ (s : State) (indices rest : List Word), s.machine.heap = h →
    indices.length = extents.length →
    s.context.stack.Holds (array :: indices ++ rest) →
    Interpreter.Gives s rest (Interpreter.popElement kind extents.length s)
      (h.element kind array indices)
  /-- Indices within their extents have an element, and nothing wraps on the way to it. -/
  found : ∀ indices, Within extents indices →
    checkedNumber extents indices = some (rowMajor extents indices) ∧
    ∃ pointer, h.element kind array indices = .ok pointer
  /-- The elements of different indices share no byte. -/
  disjoint : ∀ indices indices' pointer pointer', Within extents indices → Within extents indices' →
    h.element kind array indices = .ok pointer → h.element kind array indices' = .ok pointer' →
    indices ≠ indices' →
    Disjoint (h.bytesAt pointer kind.width) (h.bytesAt pointer' kind.width)
  /-- The elements fill the payload. -/
  fills : ∀ a, a ∈ payloadBytes kind extents place ↔ ∃ indices pointer, Within extents indices ∧
    h.element kind array indices = .ok pointer ∧ a ∈ h.bytesAt pointer kind.width
  /-- Whatever the indices are, an access that succeeds stays in the payload. -/
  inside : ∀ indices pointer, indices.length = extents.length →
    h.element kind array indices = .ok pointer →
    ∀ j < kind.width, ∃ a ∈ payloadBytes kind extents place,
    h.locate? (pointer + Word.ofNat j) = some a
  /-- The payload is in the block of the array, between the extents and the terminator. -/
  ends : 8 * payloadWords extents.length + ((elements extents).toNat + kind.reserve) * kind.width ≤
    8 * b.payload.size
  /-- An index is too low when the wrapped number of the element is negative. -/
  tooLow : ∀ indices, indices.length = extents.length →
    ((∃ index, h.element kind array indices = .error (.indexUnderBounds index)) ↔
      flatWord extents indices < 0)
  /-- An index is too high when the wrapped number of the element is not below the element count. -/
  tooHigh : ∀ indices, indices.length = extents.length →
    ((∃ index bound, h.element kind array indices = .error (.indexOverBounds index bound)) ↔
      elements extents ≤ (flatWord extents indices).toInt)
  /-- An access fails for no other reason. -/
  fails : ∀ indices cause, indices.length = extents.length →
    h.element kind array indices = .error cause →
    flatWord extents indices < 0 ∧ cause = .indexUnderBounds (flatWord extents indices) ∨
      elements extents ≤ (flatWord extents indices).toInt ∧
        cause = .indexOverBounds (flatWord extents indices) (Int64.ofInt (elements extents))

variable {h : Heap} {kind : ElemKind} {extents indices indices' : List Word} {array : Word}
  {place : Nat} {b : Block}

namespace Built

variable {a : Address}

variable (built : h.Built kind extents array place b)
include built

/-- The elements of different indices share no byte. -/
lemma disjoint_elements (nonempty : extents ≠ []) (within : Within extents indices)
    (within' : Within extents indices') (ne : indices ≠ indices') :
    Disjoint (h.bytesAt (h.elementPointer array kind (rowMajor extents indices).toNat) kind.width)
      (h.bytesAt (h.elementPointer array kind (rowMajor extents indices').toNat) kind.width) := by
  have other : (rowMajor extents indices).toNat ≠ (rowMajor extents indices').toNat := by
    intro same
    have := rowMajor_bounds within
    have := rowMajor_bounds within'
    exact ne (rowMajor_injective within within' (by omega))
  have lt := (built.element_of_within nonempty within).1
  have lt' := (built.element_of_within nonempty within').1
  rw [Set.disjoint_left]
  intro a mem mem'
  obtain ⟨-, low, high⟩ := (built.mem_bytesAt_iff lt).1 mem
  obtain ⟨-, low', high'⟩ := (built.mem_bytesAt_iff lt').1 mem'
  rcases Nat.lt_or_gt_of_ne other with before | after
  · have apart : ((rowMajor extents indices).toNat + 1) * kind.width ≤
      (rowMajor extents indices').toNat * kind.width :=
      Nat.mul_le_mul_right _ before
    omega
  · have apart : ((rowMajor extents indices').toNat + 1) * kind.width ≤
      (rowMajor extents indices).toNat * kind.width :=
      Nat.mul_le_mul_right _ after
    omega

lemma exists_element_of_mem (mem : a ∈ payloadBytes kind extents place) :
    ∃ indices, Within extents indices ∧
      a ∈ h.bytesAt (h.elementPointer array kind (rowMajor extents indices).toNat) kind.width := by
  obtain ⟨inBlock, low, high⟩ := mem
  have positive := kind.width_pos
  let n := (a.offset - 8 * payloadWords extents.length) / kind.width
  have lt : n < (elements extents).toNat := by
    have total : kind.width * (elements extents).toNat = (elements extents).toNat * kind.width :=
      Nat.mul_comm _ _
    exact Nat.div_lt_of_lt_mul (by omega)
  obtain ⟨indices, within, number⟩ :=
    exists_rowMajor built.laid.inRange.nonneg (Int.natCast_nonneg n) (Int.lt_toNat.1 lt)
  refine ⟨indices, within, ?_⟩
  rw [number, Int.toNat_natCast, built.mem_bytesAt_iff lt]
  have quotient : n * kind.width + (a.offset - 8 * payloadWords extents.length) % kind.width =
      a.offset - 8 * payloadWords extents.length := Nat.div_add_mod' _ _
  have remainder := Nat.mod_lt (a.offset - 8 * payloadWords extents.length) positive
  refine ⟨inBlock, ?_, ?_⟩
  · omega
  · rw [Nat.add_mul, Nat.one_mul]
    omega

lemma mem_payloadBytes {n : Nat} (lt : n < (elements extents).toNat)
    (mem : a ∈ h.bytesAt (h.elementPointer array kind n) kind.width) :
    a ∈ payloadBytes kind extents place := by
  obtain ⟨inBlock, low, high⟩ := (built.mem_bytesAt_iff lt).1 mem
  have upTo : (n + 1) * kind.width ≤ (elements extents).toNat * kind.width :=
    Nat.mul_le_mul_right _ lt
  exact ⟨inBlock, by omega, by omega⟩

end Built

/-- **Elements are addressed in row-major order.**  This holds of every array that has been
allocated with at least one extent and whose block has room for its elements.  Indices within their
extents number the elements: their access succeeds, without wrapping, and the elements share no byte
and fill the payload.  Any other indices are folded in arithmetic that wraps; their access succeeds
on an element of the same array, or fails by the wrapped number. -/
theorem indexes_of_built (built : h.Built kind extents array place b) (nonempty : extents ≠ []) :
    h.Indexes kind extents array place b where
  gives s indices rest heap same holds := by
    have ne : indices ≠ [] := by
      rintro rfl
      exact nonempty (List.eq_nil_of_length_eq_zero same.symm)
    rw [← heap, ← same]
    exact Interpreter.gives_popElement ne built.ne_nil holds
  found indices within :=
    ⟨checkedNumber_eq built.laid.inRange nonempty within, _,
      (built.element_of_within nonempty within).2⟩
  disjoint indices indices' pointer pointer' within within' found found' ne := by
    rw [(built.element_of_within nonempty within).2] at found
    rw [(built.element_of_within nonempty within').2] at found'
    rw [← Except.ok.inj found, ← Except.ok.inj found']
    exact built.disjoint_elements nonempty within within' ne
  fills a := by
    constructor
    · intro mem
      obtain ⟨indices, within, mem⟩ := built.exists_element_of_mem mem
      exact ⟨indices, _, within, (built.element_of_within nonempty within).2, mem⟩
    · rintro ⟨indices, pointer, within, found, mem⟩
      obtain ⟨lt, here⟩ := built.element_of_within nonempty within
      rw [here] at found
      rw [← Except.ok.inj found] at mem
      exact built.mem_payloadBytes lt mem
  inside indices pointer same found j inElement := by
    obtain ⟨n, lt, rfl⟩ := built.exists_of_element nonempty same found
    have here := built.locate?_element lt inElement
    exact ⟨_, built.mem_payloadBytes lt ⟨j, inElement, here⟩, here⟩
  ends := built.payload_le
  tooLow indices same := by
    rw [built.element_eq nonempty same]
    split
    · next low => simp [low]
    · next notLow =>
      split <;> simp [notLow]
  tooHigh indices same := by
    have count := elements_nonneg built.laid.inRange.nonneg
    rw [built.element_eq nonempty same]
    split
    · next low =>
      rw [Int64.lt_iff_toInt_lt, Int64.toInt_zero] at low
      have notHigh : ¬ elements extents ≤ (flatWord extents indices).toInt := by omega
      simp [notHigh]
    · split
      · next high => simp [high]
      · next notHigh => simp [notHigh]
  fails indices cause same failed := by
    rw [built.element_eq nonempty same] at failed
    split at failed
    · next low => exact .inl ⟨low, (Except.error.inj failed).symm⟩
    · split at failed
      · next high => exact .inr ⟨high, (Except.error.inj failed).symm⟩
      · cases failed

/-- A matrix of three by four chars, in a heap of its own. -/
def charMatrix : Word × Heap := (({} : Heap).allocArray .char [3, 4]).toOption.getD (0, {})

lemma exists_built_charMatrix : ∃ b, charMatrix.2.Built .char [3, 4] charMatrix.1 0 b ∧
    b.payload.size = 11 := by
  have made : ({} : Heap).allocArray .char [3, 4] = .ok charMatrix := by decide +kernel
  have sizes : charMatrix.2.blocks[0]?.map (fun block => block.payload.size) = some 11 := by
    decide +kernel
  obtain ⟨b, at_place, size⟩ := Option.map_eq_some_iff.1 sizes
  refine ⟨b, ⟨⟨{}, charMatrix.2, rfl, made, rfl, fun _ _ => rfl, fun i _ => ?_⟩, at_place, ?_, ?_⟩,
    size⟩
  · rw [at_place]
    rfl
  · rw [size]
    decide
  · rw [Block.footprint, size]
    decide

/-- Elements of a matrix of three by four chars. -/
theorem indexes_of_built_matrix : ∃ b, charMatrix.2.Built .char [3, 4] charMatrix.1 0 b ∧
    charMatrix.2.Indexes .char [3, 4] charMatrix.1 0 b ∧
    charMatrix.2.element .char charMatrix.1 [2, -1] = .ok (charMatrix.1 + 60) ∧
    charMatrix.2.element .char charMatrix.1 [3, 0] = .error (.indexOverBounds 12 12) := by
  obtain ⟨b, built, -⟩ := exists_built_charMatrix
  exact ⟨b, built, indexes_of_built built (by decide), by decide +kernel, by decide +kernel⟩

end Heap

end StackMachine
