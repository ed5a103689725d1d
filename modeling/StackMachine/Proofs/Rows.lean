import StackMachine.Proofs.Indexing
import StackMachine.Proofs.Memory

/-!
# Rows of elements

The elements of an array follow one another in its block.  An element that is written is read back,
as far as it is wide, and the other elements are not changed by it
(`Heap.Built.loadElement_storeElement`).  So a row of elements that is written from some element on
replaces just these elements (`Heap.Built.loadElement_storeElements`), and in bytes just those
between the first and the last of them (`Heap.Built.byte?_storeElements`).
-/

namespace StackMachine

namespace Heap

namespace SameBlocks

lemma storeElement (h : Heap) (array : Word) (kind : ElemKind) (n : Nat) (value : Word) :
    SameBlocks h (h.storeElement array kind n value) := by
  unfold Heap.storeElement write
  split
  · exact store h _ _ value
  · exact refl h

lemma storeElements (h : Heap) (array : Word) (kind : ElemKind) (start : Nat) (values : List Word) :
    SameBlocks h (h.storeElements array kind start values) := by
  induction values generalizing h start with
  | nil => exact refl h
  | cons value rest ih => exact (storeElement h array kind start value).trans (ih _ _)

end SameBlocks

/-- The byte offset of an element in its block. -/
def elementOffset (kind : ElemKind) (extents : List Word) (n : Nat) : Nat :=
  8 * payloadWords extents.length + n * kind.width

lemma elementOffset_add (kind : ElemKind) (extents : List Word) (n m : Nat) :
    elementOffset kind extents (n + m) = elementOffset kind extents n + m * kind.width := by
  rw [elementOffset, elementOffset, Nat.add_mul, Nat.add_assoc]

lemma getElem?_loadElements (h : Heap) (array : Word) (kind : ElemKind) (start : Nat)
    {count i : Nat} (lt : i < count) :
    (h.loadElements array kind start count)[i]? = some (h.loadElement array kind (start + i)) := by
  simp [loadElements, lt]

lemma length_loadElements (h : Heap) (array : Word) (kind : ElemKind) (start count : Nat) :
    (h.loadElements array kind start count).length = count := by
  simp [loadElements]

namespace Built

variable {h h' : Heap} {kind : ElemKind} {extents values : List Word} {array value : Word}
  {place start m n : Nat} {b b' : Block}

variable (built : h.Built kind extents array place b)
include built

/-- An array stays one as long as its header does. -/
lemma of_sameBlocks (same : SameBlocks h h') (at_place : h'.blocks[place]? = some b')
    (header : ∀ i < payloadWords extents.length, b'.word i = b.word i) :
    h'.Built kind extents array place b' := by
  have footprint (i : Nat) :
    h'.blocks[i]?.map Block.footprint = h.blocks[i]?.map Block.footprint := by
    have shapes := congrArg (Option.map fun shape : Word × Word × Nat => shape.2.2 + headerWords)
      (same.shape i)
    rw [Option.map_map, Option.map_map] at shapes
    exact shapes
  have size : b'.payload.size = b.payload.size := by
    have here := footprint place
    rw [at_place, built.at_place] at here
    exact Nat.add_right_cancel (Option.some.inj here)
  obtain ⟨old, new, counted, made, isPlace, sizes, words⟩ := built.allocated
  refine ⟨⟨old, new, counted, made, isPlace, fun i le => (footprint i).trans (sizes i le),
    fun i lt => ?_⟩, at_place, ?_, ?_⟩
  · rw [header i lt]
    exact words i lt
  · rw [size]
    exact built.room
  · rw [wordsBefore_congr fun i _ => footprint i, Block.footprint, size]
    exact built.fits

lemma toInt_arrayLength : (h.arrayLength array).toInt = elements extents := by
  rw [arrayLength, built.word_eq, built.laid.count]

section

variable (lt : n < (elements extents).toNat)
include lt

lemma locate?_elementPointer :
    h.locate? (h.elementPointer array kind n) = some ⟨place, elementOffset kind extents n⟩ := by
  have found := built.locate?_element lt kind.width_pos
  have zero : h.elementPointer array kind n + Word.ofNat 0 = h.elementPointer array kind n :=
    Int64.add_zero _
  rwa [zero, Nat.add_zero] at found

/-- An element ends before its block does. -/
lemma element_le : elementOffset kind extents n + kind.access.bytes ≤ 8 * b.payload.size := by
  have payload := built.payload_le
  have upTo : (n + 1) * kind.width ≤ ((elements extents).toNat + kind.reserve) * kind.width :=
    Nat.mul_le_mul_right _ (by omega)
  rw [Nat.add_mul, Nat.one_mul] at upTo
  rw [elementOffset, kind.bytes_access]
  omega

lemma loadElement_eq :
    h.loadElement array kind n = b.load kind.access (elementOffset kind extents n) := by
  rw [loadElement, read, built.locate?_elementPointer lt]
  dsimp only
  rw [Heap.load, built.at_place]

lemma storeElement_eq (value : Word) :
    h.storeElement array kind n value = h.store ⟨place, elementOffset kind extents n⟩ kind.access
      value := by
  rw [Heap.storeElement, write, built.locate?_elementPointer lt]

lemma storeElement (value : Word) :
    (h.storeElement array kind n value).Built kind extents array place
        (b.store kind.access (elementOffset kind extents n) value) := by
  have at_place : (h.storeElement array kind n value).blocks[place]? =
      some (b.store kind.access (elementOffset kind extents n) value) := by
    rw [built.storeElement_eq lt, Heap.store, modifyBlock, Array.getElem?_modify, if_pos rfl,
      built.at_place]
    rfl
  refine built.of_sameBlocks (.storeElement h array kind n value) at_place fun i inHeader => ?_
  have room := built.element_le lt
  unfold elementOffset at room ⊢
  rw [← Block.load_word, ← Block.load_word]
  exact Block.load_store_of_disjoint value (by simp only [Width.bytes]; omega)
    (by simp only [Width.bytes]; omega)

end

/-- An element that is written is read back as far as it is wide, and no other element is
changed. -/
lemma loadElement_storeElement (lt : m < (elements extents).toNat)
    (lt' : n < (elements extents).toNat) (value : Word) :
    (h.storeElement array kind m value).loadElement array kind n =
      if m = n then Block.part kind.access value else h.loadElement array kind n := by
  rw [(built.storeElement lt value).loadElement_eq lt', built.loadElement_eq lt']
  split
  · next same =>
    subst same
    exact Block.load_store_self value (built.element_le lt)
  · next other =>
    refine Block.load_store_of_disjoint value (built.element_le lt') ?_
    rw [kind.bytes_access, elementOffset, elementOffset]
    rcases Nat.lt_or_gt_of_ne other with before | after
    · have upTo : (m + 1) * kind.width ≤ n * kind.width := Nat.mul_le_mul_right _ before
      rw [Nat.add_mul, Nat.one_mul] at upTo
      omega
    · have upTo : (n + 1) * kind.width ≤ m * kind.width := Nat.mul_le_mul_right _ after
      rw [Nat.add_mul, Nat.one_mul] at upTo
      omega

/-! ### Rows -/

lemma exists_storeElements (fits : start + values.length ≤ (elements extents).toNat) :
    ∃ b', (h.storeElements array kind start values).Built kind extents array place b' := by
  induction values generalizing h b start with
  | nil => exact ⟨b, built⟩
  | cons value rest ih =>
    rw [List.length_cons] at fits
    exact ih (built.storeElement (n := start) (by omega) value) (by omega)

/-- A row that is written is read back, and no other element is changed. -/
lemma loadElement_storeElements
    (fits : start + values.length ≤ (elements extents).toNat) (lt : n < (elements extents).toNat) :
    (h.storeElements array kind start values).loadElement array kind n =
      if n < start then h.loadElement array kind n
      else (values[n - start]?.map (Block.part kind.access)).getD (h.loadElement array kind n) := by
  induction values generalizing h b start with
  | nil =>
    rw [List.getElem?_nil]
    split <;> rfl
  | cons value rest ih =>
    rw [List.length_cons] at fits
    have lt' : start < (elements extents).toNat := by omega
    rw [Heap.storeElements, ih (built.storeElement lt' value) (by omega),
      built.loadElement_storeElement lt' lt]
    by_cases before : n < start
    · rw [if_pos (by omega), if_pos before, if_neg (by omega)]
    · rw [if_neg before]
      rcases Nat.eq_or_lt_of_le (Nat.not_lt.1 before) with rfl | after
      · rw [if_pos (by omega), if_pos rfl, Nat.sub_self]
        rfl
      · have next : n - start = n - (start + 1) + 1 := by omega
        rw [if_neg (by omega), if_neg (by omega), next, List.getElem?_cons_succ]

/-- A row that is written at the start of an array is read before what was there. -/
lemma loadElements_storeElements (fits : values.length ≤ n) (le : n ≤ (elements extents).toNat) :
    (h.storeElements array kind 0 values).loadElements array kind 0 n =
      values.map (Block.part kind.access) ++ h.loadElements array kind values.length
        (n - values.length) := by
  refine List.ext_getElem? fun i => ?_
  rcases Nat.lt_or_ge i n with lt | past
  · rw [getElem?_loadElements _ _ _ _ lt, Nat.zero_add, built.loadElement_storeElements (by omega)
      (by omega), if_neg (Nat.not_lt_zero i), Nat.sub_zero]
    rcases Nat.lt_or_ge i values.length with inside | after
    · rw [List.getElem?_append_left (by rwa [List.length_map]), List.getElem?_map,
        List.getElem?_eq_getElem inside]
      rfl
    · have later : i - values.length < n - values.length := by omega
      rw [List.getElem?_append_right (by rwa [List.length_map]), List.length_map,
        getElem?_loadElements _ _ _ _ later, Nat.add_sub_cancel' after, List.getElem?_eq_none after]
      rfl
  · rw [List.getElem?_eq_none (by rwa [length_loadElements]),
      List.getElem?_eq_none
        (by rw [List.length_append, List.length_map, length_loadElements]; omega)]

lemma byte?_storeElement (lt : n < (elements extents).toNat) (value : Word) (a : Address) :
    (h.storeElement array kind n value).byte? a =
      if a.block = place ∧ elementOffset kind extents n ≤ a.offset ∧
      a.offset < elementOffset kind extents (n + 1) then
        some (Word.byte value (a.offset - elementOffset kind extents n))
      else h.byte? a := by
  have room := built.element_le lt
  rw [kind.bytes_access] at room
  rw [built.storeElement_eq lt, byte?_store, kind.bytes_access, elementOffset_add, Nat.one_mul]
  split
  · next inside =>
    obtain ⟨rfl, low, high⟩ := inside
    have there : h.byte? a = some (b.byte a.offset) := by
      have inBlock : a.offset < 8 * b.payload.size := by
        dsimp only at high
        omega
      rw [byte?, built.at_place]
      exact if_pos inBlock
    rw [there]
    rfl
  · rfl

/-- The bytes after a row is written: between its ends they are those of its elements. -/
lemma byte?_storeElements (fits : start + values.length ≤ (elements extents).toNat) (a : Address) :
    (h.storeElements array kind start values).byte? a =
      if a.block = place ∧ elementOffset kind extents start ≤ a.offset ∧
          a.offset < elementOffset kind extents (start + values.length) then
        values[(a.offset - elementOffset kind extents start) / kind.width]?.map fun value =>
          Word.byte value ((a.offset - elementOffset kind extents start) % kind.width)
      else h.byte? a := by
  have positive := kind.width_pos
  induction values generalizing h b start with
  | nil =>
    rw [if_neg (by simp only [List.length_nil, Nat.add_zero]; omega)]
    rfl
  | cons value rest ih =>
    rw [List.length_cons] at fits
    have lt : start < (elements extents).toNat := by omega
    rw [Heap.storeElements, ih (built.storeElement lt value) (by omega),
      built.byte?_storeElement lt]
    have whole : start + (value :: rest).length = start + 1 + rest.length := by
      rw [List.length_cons]
      omega
    have first := elementOffset_add kind extents start 1
    have last := elementOffset_add kind extents (start + 1) rest.length
    rw [Nat.one_mul] at first
    rw [whole]
    by_cases inside : a.block = place ∧ elementOffset kind extents start ≤ a.offset ∧
        a.offset < elementOffset kind extents (start + 1 + rest.length)
    · rw [if_pos inside]
      obtain ⟨inBlock, low, high⟩ := inside
      by_cases later : elementOffset kind extents (start + 1) ≤ a.offset
      · have distance : a.offset - elementOffset kind extents start =
            a.offset - elementOffset kind extents (start + 1) + kind.width := by omega
        rw [if_pos ⟨inBlock, later, high⟩, distance, Nat.add_div_right _ positive,
          Nat.add_mod_right, List.getElem?_cons_succ]
      · have within : a.offset - elementOffset kind extents start < kind.width := by omega
        rw [if_neg fun both => later both.2.1, if_pos ⟨inBlock, low, by omega⟩,
          Nat.div_eq_of_lt within, Nat.mod_eq_of_lt within]
        rfl
    · rw [if_neg inside, if_neg fun both => inside ⟨both.1, by omega, both.2.2⟩,
        if_neg fun both => inside ⟨both.1, both.2.1, by omega⟩]

end Built

end Heap

end StackMachine
