import StackMachine.Heap.Block

/-!
# Arrays

An array block starts with its element count, its dimension count and its extents, outermost first;
the elements follow in row-major order.  Byte and char arrays end with a terminator element that the
count does not include.  Elements are addressed by a flat index, computed from the indices in
wrapping arithmetic and then checked against the element count.
-/

namespace StackMachine.Heap

/-- The words before the elements of an array. -/
def payloadWords (dims : Nat) : Nat := dims + 2

/-- The element count. -/
def arrayLength (h : Heap) (array : Word) : Word := h.word array 0

/-- The dimension count. -/
def arrayDims (h : Heap) (array : Word) : Nat := Word.toUnsigned (h.word array 1)

/-- Extent `i`, outermost first. -/
def arrayExtent (h : Heap) (array : Word) (i : Nat) : Word := h.word array (2 + i)

/-- The byte offset of the first element. -/
def payloadOffset (h : Heap) (array : Word) : Nat := 8 * payloadWords (h.arrayDims array)

/-! ### Allocation -/

/-- The product of extents; the first negative extent or the first product out of range is an
error. -/
def elementCount : Word → List Word → Except Cause Word
  | size, [] => .ok size
  | size, extent :: rest =>
    if extent < 0 then .error (.invalidArraySize extent)
    else
      let product := size.toInt * extent.toInt
      if product < 2 ^ 63 then elementCount (Int64.ofInt product) rest
      else .error (.invalidArraySize Int64.maxValue)

/-- The bytes of the elements of an array, with the terminator. -/
def arrayBytes (kind : ElemKind) (size : Word) :
    Nat := (size.toInt.toNat + kind.reserve) * kind.width

/-- The payload words of an array: its own three kinds of header word and the elements. -/
def arrayWords (kind : ElemKind) (size : Word) (dims : Nat) : Nat :=
  payloadWords dims + (arrayBytes kind size + 7) / 8

def writeWords (b : Block) : Nat → List Word → Block
  | _, [] => b
  | i, value :: rest => writeWords (b.setWord i value) (i + 1) rest

/-- Adds a zeroed array.  The runtime breaks off if a word cannot count the bytes of its
elements. -/
def allocArray (h : Heap) (kind : ElemKind) (extents : List Word) :
    Except Denial (Word × Heap) := do
  let size ← (elementCount 1 extents).mapError .refused
  if 2 ^ 64 ≤ arrayBytes kind size then .error (.broken h)
  let (handle, grown) ← h.alloc .array kind.code (arrayWords kind size extents.length)
  return (handle, grown.modifyBlock h.blocks.size fun b =>
    writeWords b 0 (size :: Word.ofNat extents.length :: extents))

/-! ### Elements -/

/-- Folds the indices after the first into a flat index: `index * extent + next` for every further
dimension. -/
def flatIndex (h : Heap) (array : Word) : Nat → Word → List Word → Word
  | _, index, [] => index
  | dim, index, next :: rest =>
    h.flatIndex array (dim + 1) (index * h.arrayExtent array dim + next) rest

/-- Checks a flat index against the element count. -/
def checkIndex (h : Heap) (array index : Word) : Except Cause Unit :=
  if index < 0 then .error (.indexUnderBounds index)
  else if h.arrayLength array ≤ index then
    .error (.indexOverBounds index (h.arrayLength array))
  else .ok ()

def elementPointer (h : Heap) (array : Word) (kind : ElemKind) (index : Nat) : Word :=
  array + Word.ofNat (h.payloadOffset array + index * kind.width)

/-- Reads an element by its flat index. -/
def loadElement (h : Heap) (array : Word) (kind : ElemKind) (index : Nat) : Word :=
  h.read (h.elementPointer array kind index) kind.access

/-- Writes an element by its flat index. -/
def storeElement (h : Heap) (array : Word) (kind : ElemKind) (index : Nat) (value : Word) : Heap :=
  h.write (h.elementPointer array kind index) kind.access value

/-- Writes consecutive elements. -/
def storeElements (h : Heap) (array : Word) (kind : ElemKind) : Nat → List Word → Heap
  | _, [] => h
  | index, value :: rest =>
    (h.storeElement array kind index value).storeElements array kind (index + 1) rest

/-- The elements from a flat index on. -/
def loadElements (h : Heap) (array : Word) (kind : ElemKind) (start count : Nat) : List Word :=
  (List.range count).map fun i => h.loadElement array kind (start + i)

/-! ### Bulk operations -/

/-- The bound a bulk copy is checked against: the outermost extent for bytes and chars, the element
count for integers and doubles. -/
def copyBound (h : Heap) (array : Word) : ElemKind → Word
  | .byte | .char => h.arrayExtent array 0
  | .int | .float => h.arrayLength array

/-- Does the range fit the bound, computed without wrapping? -/
def rangeFits (offset length bound : Word) : Bool :=
  decide (0 ≤ offset) && decide (offset.toInt + length.toInt < 2 ^ 63) &&
    decide (offset.toInt + length.toInt ≤ bound.toInt)

/-- Copies a range of elements as it was before the copy.  Ranges that do not fit, and empty ones,
are refused. -/
def copyElements (h : Heap) (kind : ElemKind) (dest destOffset src srcOffset length : Word) :
    Option Heap :=
  if 0 < length ∧ rangeFits srcOffset length (h.copyBound src kind) ∧
      rangeFits destOffset length (h.copyBound dest kind) then
    let values := h.loadElements src kind srcOffset.toInt.toNat length.toInt.toNat
    some (h.storeElements dest kind destOffset.toInt.toNat values)
  else none

def zeroElements (h : Heap) (kind : ElemKind) (array : Word) : Heap :=
  h.storeElements array kind 0 (List.replicate (h.arrayLength array).toInt.toNat 0)

end StackMachine.Heap
