import StackMachine.Heap.Element
import StackMachine.Fault

/-!
# Heap blocks

The heap is a row of blocks that only grows.  A block has two header words (its kind with a class
number, and its word count) and a payload.  Blocks follow each other in memory; a program holds a
block by its handle, the address of its payload, and zero is nil.  Memory is addressed by a block
and a byte offset into its payload, little end first; a pointer is a handle plus such an offset, and
`locate?_handleOf_add` says that it points to that byte.
-/

namespace StackMachine

/-- What a block holds. -/
inductive BlockKind where
  | object
  | array
  /-- The memory of a class. -/
  | static
  | closure
  deriving DecidableEq, Repr

namespace BlockKind

/-- The number of a kind in the header. -/
def code : BlockKind → Word
  | .object => 1
  | .array => 2
  | .static => 3
  | .closure => 4

/-- The kind of a number. -/
def ofCode? (code : Word) : Option BlockKind :=
  if code = 1 then some .object
  else if code = 2 then some .array
  else if code = 3 then some .static
  else if code = 4 then some .closure
  else none

end BlockKind

/-- A block: the kind in the low byte of the header with the class number above it, the word count,
and the payload. -/
structure Block where
  header : Word
  count : Word
  payload : Array Word
  deriving DecidableEq, Repr

def headerWords : Nat := 2

namespace Block

def zeroed (kind : BlockKind) (cls words : Nat) : Block :=
  { header := kind.code ||| (Word.ofNat cls <<< 8)
    count := Word.ofNat words
    payload := Array.replicate words 0 }

/-- The kind written in the header. -/
def kind? (b : Block) : Option BlockKind := BlockKind.ofCode? (b.header &&& 0xFF)

/-- The class number written in the header. -/
def cls (b : Block) : Word := b.header >>> 8

/-- The words a block takes, header included. -/
def footprint (b : Block) : Nat := b.payload.size + headerWords

def word (b : Block) (i : Nat) : Word := b.payload.getD i 0

/-- Replaces payload word `i`. -/
def setWord (b : Block) (i : Nat) (value : Word) : Block :=
  { b with payload := b.payload.setIfInBounds i value }

/-- The bits an access of a width covers within its word. -/
def mask : Width → UInt64
  | .byte => 0xFF
  | .char => 0xFFFFFFFF
  | .word => 0xFFFFFFFFFFFFFFFF

/-- The bit position of a byte offset within its word. -/
def bitOffset (offset : Nat) : UInt64 := UInt64.ofNat (8 * (offset % 8))

/-- Does an access reach into the next word? -/
def spills (width : Width) (offset : Nat) : Bool := decide (8 < offset % 8 + width.bytes)

/-- Reads memory, zero-extended. -/
def load (b : Block) (width : Width) (offset : Nat) : Word :=
  let low := (b.word (offset / 8)).toUInt64 >>> bitOffset offset
  let high :=
    if spills width offset then (b.word (offset / 8 + 1)).toUInt64 <<< (64 - bitOffset offset)
    else 0
  ((low ||| high) &&& mask width).toInt64

/-- Replaces the bits of payload word `i` under a mask. -/
def setBits (b : Block) (i : Nat) (hole bits : UInt64) : Block :=
  b.setWord i (((b.word i).toUInt64 &&& ~~~hole) ||| bits).toInt64

/-- Writes the low bytes of a word and keeps the rest. -/
def store (b : Block) (width : Width) (offset : Nat) (value : Word) : Block :=
  let bits := value.toUInt64 &&& mask width
  let shift := bitOffset offset
  let b := b.setBits (offset / 8) (mask width <<< shift) (bits <<< shift)
  if spills width offset then
    b.setBits (offset / 8 + 1) (mask width >>> (64 - shift)) (bits >>> (64 - shift))
  else b

end Block

/-- A place in memory: a byte of a block's payload. -/
structure Address where
  block : Nat
  offset : Nat
  deriving DecidableEq, Repr

/-- A number of blocks, and the words they take. -/
structure HeapStats where
  blocks : Nat
  words : Nat
  deriving DecidableEq, Repr

/-- The heap: its blocks in order of allocation, the words they take, an optional limit, and a count
of the blocks. -/
structure Heap where
  blocks : Array Block := #[]
  words : Nat := 0
  limit : Option Nat := none
  allocated : Nat := 0
  /-- Blocks that were counted and could not be made. -/
  unmade : HeapStats := ⟨0, 0⟩
  deriving DecidableEq, Repr

namespace Heap

/-- What the heap has counted. -/
def stats (h : Heap) : HeapStats := ⟨h.allocated + h.unmade.blocks, h.words + h.unmade.words⟩

/-- The address of the first block. -/
def base : Word := 0x6C619E3A5D000000

/-- The handle of a block with `words` words before it: the address of its payload. -/
def handleAfter (words : Nat) : Word := base + Word.ofNat (8 * (words + headerWords))

/-- The words of the blocks before a place. -/
def wordsBefore (h : Heap) (index : Nat) : Nat :=
  ((h.blocks.toList.take index).map Block.footprint).sum

/-- The handle of the block at a place. -/
def handleOf (h : Heap) (index : Nat) : Word := handleAfter (h.wordsBefore index)

/-- Looks for the byte at a distance from the start of block `i` among this block and the `more - 1`
blocks after it.  The bytes of headers belong to no payload. -/
def locateFrom (blocks : Array Block) : Nat → Nat → Nat → Option Address
  | 0, _, _ => none
  | more + 1, i, distance =>
    match blocks[i]? with
    | none => none
    | some b =>
      if distance < 8 * headerWords then none
      else if distance < 8 * b.footprint then some ⟨i, distance - 8 * headerWords⟩
      else locateFrom blocks more (i + 1) (distance - 8 * b.footprint)

/-- The block and the byte a word points to.  A handle points to the first byte of its payload, and
adding to a handle moves within the block. -/
def locate? (h : Heap) (pointer : Word) : Option Address :=
  locateFrom h.blocks h.blocks.size 0 (Word.toUnsigned (pointer - base))

/-- A byte of a payload is found from the start of any block before it. -/
theorem locateFrom_sum_add {blocks : Array Block} {i offset : Nat} {b : Block}
    (at_i : blocks[i]? = some b) (within : offset < 8 * b.payload.size) :
    ∀ n j more, j + n = i → n < more →
      locateFrom blocks more j
        (8 * ((((blocks.toList.drop j).take n).map Block.footprint).sum + headerWords) + offset) =
      some ⟨i, offset⟩ := by
  intro n
  induction n with
  | zero =>
    intro j more hj hm
    obtain ⟨more, rfl⟩ : ∃ m, more = m + 1 := ⟨more - 1, by omega⟩
    obtain rfl : j = i := by omega
    have inner : 8 * headerWords + offset < 8 * b.footprint := by
      simp only [Block.footprint]; omega
    simp [locateFrom, at_i, inner]
  | succ n ih =>
    intro j more hj hm
    obtain ⟨more, rfl⟩ : ∃ m, more = m + 1 := ⟨more - 1, by omega⟩
    obtain ⟨bound, -⟩ := Array.getElem?_eq_some_iff.1 at_i
    have below : j < blocks.size := by omega
    have drop_j : blocks.toList.drop j = blocks[j] :: blocks.toList.drop (j + 1) := by
      rw [List.drop_eq_getElem_cons (by simpa using below), Array.getElem_toList]
    have rest := ih (j + 1) more (by omega) (by omega)
    rw [drop_j, List.take_succ_cons, List.map_cons, List.sum_cons, locateFrom,
      Array.getElem?_eq_getElem below]
    generalize (((blocks.toList.drop (j + 1)).take n).map Block.footprint).sum = s at rest ⊢
    have low : ¬ 8 * (blocks[j].footprint + s + headerWords) + offset < 8 * headerWords := by omega
    have high : ¬ 8 * (blocks[j].footprint + s + headerWords) + offset <
      8 * blocks[j].footprint := by
      omega
    have less : 8 * (blocks[j].footprint + s + headerWords) + offset - 8 * blocks[j].footprint =
        8 * (s + headerWords) + offset := by omega
    simp only [low, high, if_false, less, rest]

/-- The distance of a handle's byte from the first block, if it fits an address. -/
theorem toUnsigned_handleAfter_add {words offset : Nat}
    (fits : 8 * (words + headerWords) + offset < 2 ^ 64) :
    Word.toUnsigned (handleAfter words + Word.ofNat offset - base) =
      8 * (words + headerWords) + offset := by
  have cancel : handleAfter words + Word.ofNat offset - base =
      Word.ofNat (8 * (words + headerWords) + offset) := by
    simp only [handleAfter, Word.ofNat, Int64.ofNat_add]
    rw [Int64.add_assoc, Int64.add_comm base, Int64.add_sub_cancel]
  rw [cancel, Word.toUnsigned_ofNat fits]

/-- A handle plus a byte offset within the payload points to that byte. -/
theorem locate?_handleOf_add {h : Heap} {i offset : Nat} {b : Block}
    (at_i : h.blocks[i]? = some b) (within : offset < 8 * b.payload.size)
    (fits : 8 * (h.wordsBefore i + headerWords) + offset < 2 ^ 64) :
    h.locate? (h.handleOf i + Word.ofNat offset) = some ⟨i, offset⟩ := by
  obtain ⟨bound, -⟩ := Array.getElem?_eq_some_iff.1 at_i
  rw [locate?, handleOf, toUnsigned_handleAfter_add fits]
  simpa [wordsBefore] using locateFrom_sum_add at_i within i 0 h.blocks.size (by omega) bound

/-- The place of the block a handle names. -/
def index? (h : Heap) (handle : Word) : Option Nat :=
  match h.locate? handle with
  | some ⟨block, 0⟩ => some block
  | _ => none

def block? (h : Heap) (handle : Word) : Option Block := (h.index? handle).bind fun i => h.blocks[i]?

/-- Payload word `i` behind a handle; a handle that names nothing reads as zero. -/
def word (h : Heap) (handle : Word) (i : Nat) : Word :=
  match h.block? handle with
  | some b => b.word i
  | none => 0

/-- Changes the block at a place. -/
def modifyBlock (h : Heap) (index : Nat) (f : Block → Block) : Heap :=
  { h with blocks := h.blocks.modify index f }

/-- Replaces payload word `i` behind a handle. -/
def setWord (h : Heap) (handle : Word) (i : Nat) (value : Word) : Heap :=
  match h.index? handle with
  | some index => h.modifyBlock index fun b => b.setWord i value
  | none => h

/-- Reads memory. -/
def load (h : Heap) (at_ : Address) (width : Width) : Word :=
  match h.blocks[at_.block]? with
  | some b => b.load width at_.offset
  | none => 0

/-- Writes memory. -/
def store (h : Heap) (at_ : Address) (width : Width) (value : Word) : Heap :=
  h.modifyBlock at_.block fun b => b.store width at_.offset value

/-- Reads what a word points to; a word that points nowhere reads as zero. -/
def read (h : Heap) (pointer : Word) (width : Width) : Word :=
  match h.locate? pointer with
  | some address => h.load address width
  | none => 0

def write (h : Heap) (pointer : Word) (width : Width) (value : Word) : Heap :=
  match h.locate? pointer with
  | some address => h.store address width value
  | none => h

def kindOf? (h : Heap) (handle : Word) : Option BlockKind := (h.block? handle).bind Block.kind?

/-- The class of an object; nil and other blocks have none. -/
def classOf? (h : Heap) (handle : Word) : Option Nat :=
  if handle = 0 then none
  else (h.block? handle).bind fun b =>
    if b.kind? = some .object then some (Word.toUnsigned b.cls) else none

/-- The word count of the block behind a handle. -/
def wordsOf (h : Heap) (handle : Word) : Nat :=
  match h.block? handle with
  | some b => Word.toUnsigned b.count
  | none => 0

/-! ### Allocation -/

/-- Why no block is added. -/
inductive Denial where
  /-- It is refused; the heap stays as it is. -/
  | refused (cause : Cause)
  /-- The runtime breaks off and leaves this heap. -/
  | broken (left : Heap)
  deriving DecidableEq, Repr

/-- Counts a block that cannot be made. -/
def counting (h : Heap) (words : Nat) : Heap :=
  { h with unmade := ⟨h.unmade.blocks + 1, h.unmade.words + (words + headerWords)⟩ }

/-- Adds a zeroed block unless that would pass the limit, and answers its handle.  The runtime
breaks off if the words cannot be counted, and after counting them if no row can have so many. -/
def alloc (h : Heap) (kind : BlockKind) (cls words : Nat) : Except Denial (Word × Heap) :=
  let total := h.stats.words + words + headerWords
  let room :=
    match h.limit with
    | some limit => decide (total ≤ limit)
    | none => true
  if 2 ^ 64 ≤ total then .error (.broken h)
  else if room then
    if words + headerWords < Word.rowLimit then
      .ok (handleAfter h.words,
        { h with
          blocks := h.blocks.push (Block.zeroed kind cls words)
          words := h.words + words + headerWords
          allocated := h.allocated + 1 })
    else .error (.broken (h.counting words))
  else
    .error (.refused (.resourceExhausted
      ("heap limit of " ++ Numeral.signedDecimal (h.limit.getD 0) ++ " words reached")))

/-- Adds an object.  Threads and mutexes keep their numbers in the first two words of an object, so
there are always two. -/
def allocObject (h : Heap) (cls words : Nat) : Except Denial (Word × Heap) :=
  h.alloc .object cls (max words 2)

/-- Adds the memory of a class. -/
def allocStatic (h : Heap) (cls words : Nat) : Except Denial (Word × Heap) :=
  h.alloc .static cls (max words 1)

/-- Adds the memory of a closure. -/
def allocClosure (h : Heap) (words : Nat) : Except Denial (Word × Heap) :=
  h.alloc .closure 0 (max words 1)

end Heap

end StackMachine
