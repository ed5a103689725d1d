import StackMachine.Proofs.Rows

/-!
# Copies as moves of bytes

A copy takes the elements of its source as they are before it writes anything, so that source and
destination may be the same array and may overlap.  In bytes it is a move (`Heap.Moves`): the bytes
of the destination become what the bytes of the source were, and no other byte of the heap is
changed.

How much can be copied is told by the outermost extent for bytes and chars and by the element count
for integers and doubles (`ElemKind.copyLimit`).  A range beyond that is refused, whatever the
offset and the length are, and nothing is changed (`RuntimeCall.moves_of_copyArray`).
-/

namespace StackMachine

/-- The number of elements that can be copied. -/
def ElemKind.copyLimit : ElemKind → List Word → Int
  | .byte, extents | .char, extents => (extents.headD 0).toInt
  | .int, extents | .float, extents => Heap.elements extents

lemma ElemKind.solid_of_one_le {kind : ElemKind} {extents : List Word} (nonempty : extents ≠ [])
    (atLeastOne : ∀ extent ∈ extents, 1 ≤ extent.toInt) : kind.Solid extents := by
  obtain ⟨first, rest, rfl⟩ := List.exists_cons_of_ne_nil nonempty
  have noZero : 0 ∉ rest := by
    intro zero
    have one := atLeastOne 0 (List.mem_cons_of_mem _ zero)
    rw [Int64.toInt_zero] at one
    omega
  cases kind with
  | byte | char => exact ⟨first, rest, rfl, .inr noZero⟩
  | int | float => trivial

namespace Heap

/-- Bytes have been moved: those from the target on are what those from the source on were, and all
others are as they were.  The two ranges may overlap. -/
structure Moves (h h' : Heap) (source target : Address) (count : Nat) :
    Prop extends SameBlocks h h' where
  exists_source : ∀ j < count, ∃ byte, h.byte? ⟨source.block, source.offset + j⟩ = some byte
  moved : ∀ j < count, h'.byte? ⟨target.block, target.offset + j⟩ =
    h.byte? ⟨source.block, source.offset + j⟩
  kept : ∀ a : Address, a.block ≠ target.block ∨ a.offset < target.offset ∨
    target.offset + count ≤ a.offset →
    h'.byte? a = h.byte? a

variable {h : Heap} {kind : ElemKind} {extents srcExtents destExtents : List Word}
  {array src dest srcOffset destOffset length : Word}
  {place srcPlace destPlace srcStart destStart count n : Nat} {b srcBlock destBlock : Block}

lemma Built.byte?_element (built : h.Built kind extents array place b)
    (lt : n < (elements extents).toNat) {j : Nat} (inElement : j < kind.width) :
    h.byte? ⟨place, elementOffset kind extents n + j⟩ =
        some (Word.byte (h.loadElement array kind n) j) := by
  have room := built.element_le lt
  rw [kind.bytes_access] at room
  have inBlock : elementOffset kind extents n + j < 8 * b.payload.size := by omega
  rw [built.loadElement_eq lt, Block.byte_load b _ (by rwa [kind.bytes_access]), byte?,
    built.at_place]
  exact if_pos inBlock

section

variable (builtSrc : h.Built kind srcExtents src srcPlace srcBlock)
  (builtDest : h.Built kind destExtents dest destPlace destBlock)
  (inSrc : srcStart + count ≤ (elements srcExtents).toNat)
  (inDest : destStart + count ≤ (elements destExtents).toNat)
include builtSrc builtDest inSrc inDest

/-- A row that is read from one array and written to another, or to the same one, is moved. -/
lemma Built.moves :
    h.Moves (h.storeElements dest kind destStart (h.loadElements src kind srcStart count))
      ⟨srcPlace, elementOffset kind srcExtents srcStart⟩
      ⟨destPlace, elementOffset kind destExtents destStart⟩ (count * kind.width) := by
  have positive := kind.width_pos
  have source {j : Nat} (lt : j < count * kind.width) : j / kind.width < count ∧
      h.byte? ⟨srcPlace, elementOffset kind srcExtents srcStart + j⟩ =
        some (Word.byte (h.loadElement src kind (srcStart + j / kind.width)) (j % kind.width)) := by
    have quotient : j / kind.width < count := Nat.div_lt_of_lt_mul (by rwa [Nat.mul_comm])
    have whole : elementOffset kind srcExtents srcStart + j =
        elementOffset kind srcExtents (srcStart + j / kind.width) + j % kind.width := by
      rw [elementOffset_add, Nat.add_assoc, Nat.div_add_mod']
    refine ⟨quotient, ?_⟩
    rw [whole]
    exact builtSrc.byte?_element (by omega) (Nat.mod_lt j positive)
  have fits : destStart + (h.loadElements src kind srcStart count).length ≤
    (elements destExtents).toNat := by
    rwa [length_loadElements]
  refine ⟨.storeElements h dest kind destStart _, fun j lt => ⟨_, (source lt).2⟩, fun j lt => ?_,
    fun a other => ?_⟩
  · obtain ⟨quotient, byte⟩ := source lt
    rw [builtDest.byte?_storeElements fits, byte, length_loadElements, elementOffset_add,
      if_pos ⟨rfl, Nat.le_add_right _ _, Nat.add_lt_add_left lt _⟩]
    dsimp only
    rw [Nat.add_sub_cancel_left, getElem?_loadElements h src kind srcStart quotient]
    rfl
  · rw [builtDest.byte?_storeElements fits, length_loadElements, elementOffset_add]
    dsimp only at other
    exact if_neg (by omega)

/-- The elements of the destination are what those of the source were. -/
lemma Built.loadElement_moved (lt : n < count) :
    (h.storeElements dest kind destStart (h.loadElements src kind srcStart count)).loadElement
      dest kind (destStart + n) = h.loadElement src kind (srcStart + n) := by
  have fits : destStart + (h.loadElements src kind srcStart count).length ≤
    (elements destExtents).toNat := by
    rwa [length_loadElements]
  have narrow : Block.part kind.access (h.loadElement src kind (srcStart + n)) =
      h.loadElement src kind (srcStart + n) := by
    rw [builtSrc.loadElement_eq (by omega), Block.part_load]
  rw [builtDest.loadElement_storeElements fits (by omega), if_neg (by omega),
    Nat.add_sub_cancel_left, getElem?_loadElements h src kind srcStart lt, Option.map_some,
      Option.getD_some, narrow]

end

/-! ### What is accepted -/

lemma Built.made (built : h.Built kind extents array place b) : h.Made kind array extents := by
  obtain ⟨old, new, counted, allocated, isPlace, sizes, words⟩ := built.allocated
  obtain ⟨size, -, -, blocks, total⟩ := allocArray_eq_newArray allocated
  have last : new.blocks[place]? = some (newArray kind size extents) := by
    rw [blocks, ← isPlace, Array.getElem?_push_size]
  have footprint : b.footprint = (newArray kind size extents).footprint := by
    have same := sizes place (Nat.le_refl _)
    rw [built.at_place, last] at same
    exact Option.some.inj same
  have before : h.wordsBefore place = new.wordsBefore place := wordsBefore_congr
    fun i lt => sizes i (Nat.le_of_lt lt)
  have fits := built.fits
  rw [before, footprint] at fits
  have asBuilt : new.Built kind extents array place (newArray kind size extents) := by
    refine ⟨⟨old, new, counted, allocated, isPlace, fun _ _ => rfl, fun i _ => by rw [last]; rfl⟩,
      last, ?_, fits⟩
    have room := built.room
    rwa [Nat.add_right_cancel footprint] at room
  refine ⟨old, new, counted, allocated, ?_, fun i lt => ?_⟩
  · have words : new.wordsBefore place = old.words := by
      have handle := counted.symm
      rw [← isPlace, wordsBefore, blocks, Array.toList_push,
        List.take_append_of_le_length (by simp)]
      exact handle
    rw [words, Block.footprint, size_newArray] at fits
    omega
  · have word := words i lt
    rw [last] at word
    rw [built.word_eq, asBuilt.word_eq]
    exact (Option.some.inj word).symm

/-- The bound that a copy is checked against is a number of elements. -/
lemma Built.toInt_copyBound (built : h.Built kind extents array place b)
    (solid : kind.Solid extents) :
    (h.copyBound array kind).toInt = kind.copyLimit extents ∧
    kind.copyLimit extents ≤ elements extents := by
  have le := built.made.copyBound_le solid
  rw [built.toInt_arrayLength] at le
  have same : (h.copyBound array kind).toInt = kind.copyLimit extents := by
    cases kind with
    | byte | char =>
      obtain ⟨first, rest, rfl, -⟩ := solid
      exact congrArg Int64.toInt built.made.toInt_arrayLength.1
    | int | float => exact built.toInt_arrayLength
  rw [same] at le
  exact ⟨same, le⟩

/-- A range of elements is within a limit.  Its end is not wrapped. -/
def WithinLimit (offset length : Word) (limit : Int) : Prop :=
  0 ≤ offset.toInt ∧ offset.toInt + length.toInt ≤ limit

instance (offset length : Word) (limit : Int) : Decidable (WithinLimit offset length limit) :=
  inferInstanceAs (Decidable (_ ∧ _))

/-- A copy is asked for that can be made: of at least one element, and within both arrays. -/
def Copyable (kind : ElemKind) (srcExtents destExtents : List Word)
    (srcOffset destOffset length : Word) : Prop :=
  0 < length.toInt ∧ WithinLimit srcOffset length (kind.copyLimit srcExtents) ∧
    WithinLimit destOffset length (kind.copyLimit destExtents)

instance : Decidable (Copyable kind srcExtents destExtents srcOffset destOffset length) :=
  inferInstanceAs (Decidable (_ ∧ _))

/-- What a copy leaves: its elements are moved, and so are their bytes. -/
structure Copied (h h' : Heap) (kind : ElemKind) (srcExtents destExtents : List Word)
    (srcPlace destPlace : Nat) (src dest : Word) (srcStart destStart count : Nat) : Prop where
  elements : ∀ n < count, h'.loadElement dest kind (destStart + n) = h.loadElement src kind
    (srcStart + n)
  bytes : h.Moves h' ⟨srcPlace, elementOffset kind srcExtents srcStart⟩
    ⟨destPlace, elementOffset kind destExtents destStart⟩ (count * kind.width)

/-- A copy between arrays is refused, or moves the elements. -/
lemma Built.copyElements_eq (builtSrc : h.Built kind srcExtents src srcPlace srcBlock)
    (builtDest : h.Built kind destExtents dest destPlace destBlock)
    (solidSrc : kind.Solid srcExtents) (solidDest : kind.Solid destExtents)
    (srcOffset destOffset length : Word) :
    if Copyable kind srcExtents destExtents srcOffset destOffset length then
      ∃ h', h.copyElements kind dest destOffset src srcOffset length = some h' ∧
        h.Copied h' kind srcExtents destExtents srcPlace destPlace src dest srcOffset.toInt.toNat
          destOffset.toInt.toNat length.toInt.toNat
    else h.copyElements kind dest destOffset src srcOffset length = none := by
  obtain ⟨srcBound, srcLe⟩ := builtSrc.toInt_copyBound solidSrc
  obtain ⟨destBound, destLe⟩ := builtDest.toInt_copyBound solidDest
  have accepts : (h.copyElements kind dest destOffset src srcOffset length).isSome ↔
      Copyable kind srcExtents destExtents srcOffset destOffset length := by
    rw [isSome_copyElements_iff, srcBound, destBound]
    rfl
  split
  · next asked =>
    obtain ⟨positive, ⟨srcNonneg, srcEnd⟩, destNonneg, destEnd⟩ := id asked
    have inSrc : srcOffset.toInt.toNat + length.toInt.toNat ≤ (Heap.elements srcExtents).toNat := by
      omega
    have inDest : destOffset.toInt.toNat + length.toInt.toNat ≤
      (Heap.elements destExtents).toNat := by omega
    obtain ⟨h', copies⟩ := Option.isSome_iff_exists.1 (accepts.2 asked)
    refine ⟨h', copies, ?_⟩
    unfold copyElements at copies
    split at copies
    · cases copies
      exact ⟨fun n lt => builtSrc.loadElement_moved builtDest inSrc inDest lt,
        builtSrc.moves builtDest inSrc inDest⟩
    · cases copies
  · next refused =>
    rw [← Option.not_isSome_iff_eq_none]
    exact fun accepted => refused (accepts.1 accepted)

end Heap

namespace RuntimeCall

open Exec

variable {kind : ElemKind} {s : State} {rest : List Word}
  {dest destOffset src srcOffset length : Word}

/-- Copies between two arrays, which may be the same.  A nil handle fails.  Otherwise one is left
for a copy that stays within both arrays, and zero for any other.  An accepted copy moves the
elements as they were before and changes no other byte of the heap; a refused one changes
nothing. -/
theorem moves_of_copyArray
    (holds : s.context.stack.Holds (length :: srcOffset :: src :: destOffset :: dest :: rest)) :
    (src = 0 ∨ dest = 0 → ∃ t, copyArray kind s = .error (.fault { cause := .nilDereference }) t ∧
      t.machine = s.machine) ∧
    ∀ {srcExtents destExtents : List Word} {srcPlace destPlace : Nat} {srcBlock destBlock : Block},
      s.machine.heap.Built kind srcExtents src srcPlace srcBlock →
      s.machine.heap.Built kind destExtents dest destPlace destBlock →
      kind.Solid srcExtents → kind.Solid destExtents → ∃ t, copyArray kind s = .ok () t ∧
        if Heap.Copyable kind srcExtents destExtents srcOffset destOffset length then
          t.context.stack.Holds (1 :: rest) ∧
            t.machine = { s.machine with heap := t.machine.heap } ∧
            s.machine.heap.Copied t.machine.heap kind srcExtents destExtents srcPlace destPlace
              src dest srcOffset.toInt.toNat destOffset.toInt.toNat length.toInt.toNat
        else t.context.stack.Holds (0 :: rest) ∧ t.machine = s.machine := by
  have below := holds.dropUnchecked.dropUnchecked.dropUnchecked.dropUnchecked.dropUnchecked
  have room : rest.length < s.context.stack.capacity := by
    have bounded := holds.length_le
    simp only [List.length_cons] at bounded
    omega
  rw [copyArray_eq holds]
  refine ⟨fun nil => ⟨copying s, if_pos nil, rfl⟩, ?_⟩
  intro srcExtents destExtents srcPlace destPlace srcBlock destBlock builtSrc builtDest solidSrc
    solidDest
  have copies := builtSrc.copyElements_eq builtDest solidSrc solidDest srcOffset destOffset length
  rw [if_neg (by simp [builtSrc.ne_nil, builtDest.ne_nil])]
  by_cases asked : Heap.Copyable kind srcExtents destExtents srcOffset destOffset length
  · simp only [if_pos asked] at copies ⊢
    obtain ⟨heap, copies, copied⟩ := copies
    rw [copies]
    exact ⟨_, push_eq_ok (s := (copying s).withHeap heap) below room, below.pushUnchecked room 1,
      rfl, copied⟩
  · simp only [if_neg asked] at copies ⊢
    rw [copies]
    exact ⟨_, push_eq_ok (s := copying s) below room, below.pushUnchecked room 0, rfl⟩

/-! ### A matrix that is shifted in itself -/

namespace Shift

/-- A matrix of two by three integers, in a heap of its own. -/
def matrix : Word × Heap := (({} : Heap).allocArray .int [2, 3]).toOption.getD (0, {})

/-- The matrix holds the numbers from one to six. -/
def heap : Heap := matrix.2.storeElements matrix.1 .int 0 [1, 2, 3, 4, 5, 6]

/-- The first four elements are to be copied one further. -/
def stack : OperandStack :=
  (((((OperandStack.empty 5).pushUnchecked matrix.1).pushUnchecked 1).pushUnchecked
    matrix.1).pushUnchecked 0).pushUnchecked 4

/-- The thread that copies. -/
def state : State where
  machine :=
    { program := {}, settings := {}, heap,
      statics := #[], records := #[], seed := 1, clock := 0 }
  context := { stack }

end Shift

open Shift in
/-- The copy overlaps what it copies, and yet each element arrives as it was. -/
theorem moves_of_copyArray_shift : ∃ t, copyArray .int state = .ok () t ∧
    t.context.stack.Holds [1] ∧
    (∀ n < 4, t.machine.heap.loadElement matrix.1 .int (1 + n) = Word.ofNat (n + 1)) ∧
    t.machine.heap.byte? ⟨0, 72⟩ = some 6 := by
  have holds : state.context.stack.Holds [4, 0, matrix.1, 1, matrix.1] :=
    (((((OperandStack.holds_empty (by decide)).pushUnchecked (by decide) _).pushUnchecked
      (by decide) _).pushUnchecked (by decide) _).pushUnchecked (by decide) _).pushUnchecked
        (by decide) _
  have made : ({} : Heap).allocArray .int [2, 3] = .ok matrix := by decide +kernel
  have fresh : matrix.2.Built .int [2, 3] matrix.1 0 (Heap.newArray .int 6 [2, 3]) :=
    ⟨⟨{}, matrix.2, rfl, made, rfl,
      fun _ _ => rfl, by decide +kernel⟩, by decide +kernel, by decide +kernel, by decide +kernel⟩
  obtain ⟨b, built⟩ : ∃ b, state.machine.heap.Built .int [2, 3] matrix.1 0 b :=
    fresh.exists_storeElements (by decide)
  have solid : ElemKind.int.Solid [2, 3] :=
    ElemKind.solid_of_one_le (by decide)
      (List.forall_mem_cons.2 ⟨by decide, List.forall_mem_singleton.2 (by decide)⟩)
  obtain ⟨t, copied, answer⟩ := (moves_of_copyArray holds).2 built built solid solid
  rw [if_pos (by decide)] at answer
  obtain ⟨one, -, elements, bytes⟩ := answer
  have before : ∀ n < 4, heap.loadElement matrix.1 .int (0 + n) = Word.ofNat (n + 1) := by
    decide +kernel
  refine ⟨t, copied, one, fun n lt => (elements n lt).trans (before n lt), ?_⟩
  have last : heap.byte? ⟨0, 72⟩ = some 6 := by decide +kernel
  exact (bytes.kept _ (by decide)).trans last

end RuntimeCall

end StackMachine
