import StackMachine.Proofs.Copying

/-!
# Room for the elements of an array

A new array has a header that tells its element count, its dimension count and its extents,
outermost first (`Block.Headed`).  The product of the extents is checked before anything is
allocated (`Heap.InRange`).  The numbers that come after it are not: the runtime breaks off if a
word cannot count the bytes of the elements or the words of the heap (`Heap.Countable`), and if no
row can have as many words as the block.  So an array that is answered has room for its elements,
and for the terminator of a text; but not every other array is refused (`Heap.room_of_allocArray`).
-/

namespace StackMachine

namespace Heap

/-- The number of elements, without a bound. -/
def elements (extents : List Word) : Int := (extents.map Int64.toInt).prod

/-- The bytes that elements take, with the terminator of a text. -/
def elementBytes (kind : ElemKind) (extents : List Word) : Nat :=
  ((elements extents).toNat + kind.reserve) * kind.width

/-- The payload words that an array needs. -/
def neededWords (kind : ElemKind) (extents : List Word) : Nat :=
  2 + extents.length + (elementBytes kind extents + 7) / 8

/-- No extent is negative, and no product of the first extents is out of range. -/
structure InRange (extents : List Word) : Prop where
  nonneg : ∀ extent ∈ extents, 0 ≤ extent.toInt
  small : ∀ n, elements (extents.take n) < 2 ^ 63

/-- A word can count the bytes of the elements of a block, and the words of the heap with the
block. -/
structure Countable (h : Heap) (bytes words : Nat) : Prop where
  bytes : bytes < 2 ^ 64
  words : h.stats.words + words + headerWords < 2 ^ 64

/-- A row can have the words of a block. -/
def Makeable (words : Nat) : Prop := words + headerWords < Word.rowLimit

end Heap

/-- A block is headed as an array of a kind with extents. -/
structure Block.Headed (b : Block) (kind : ElemKind) (extents : List Word) : Prop where
  isArray : b.kind? = some .array
  cls : b.cls = Word.ofNat kind.code
  count : b.count = Word.ofNat b.payload.size
  size : (b.word 0).toInt = Heap.elements extents
  dims : b.word 1 = Word.ofNat extents.length
  extent : ∀ i (lt : i < extents.length), b.word (2 + i) = extents[i]

namespace Heap

variable {h grown : Heap} {kind : ElemKind} {extents : List Word} {array size start : Word}

/-! ### The product of the extents -/

lemma elements_cons (extent : Word) (rest : List Word) :
    elements (extent :: rest) = extent.toInt * elements rest :=
  List.prod_cons

/-- The product is counted from a start, as long as it stays in range. -/
lemma exists_elementCount (nonneg : 0 ≤ start.toInt)
    (extentsNonneg : ∀ extent ∈ extents, 0 ≤ extent.toInt)
    (small : ∀ n, start.toInt * elements (extents.take n) < 2 ^ 63) :
    ∃ size, elementCount start extents = .ok size := by
  induction extents generalizing start with
  | nil => exact ⟨start, rfl⟩
  | cons extent rest ih =>
    obtain ⟨extentNonneg, restNonneg⟩ := List.forall_mem_cons.1 extentsNonneg
    have notNeg : ¬ extent < 0 := by
      rw [Int64.lt_iff_toInt_lt, Int64.toInt_zero]
      omega
    have productSmall : start.toInt * extent.toInt < 2 ^ 63 := by simpa [elements] using small 1
    have productNonneg : 0 ≤ start.toInt * extent.toInt := Int.mul_nonneg nonneg extentNonneg
    have product : (Int64.ofInt (start.toInt * extent.toInt)).toInt = start.toInt * extent.toInt :=
      Int64.toInt_ofInt_of_le (by omega) (by omega)
    unfold elementCount
    rw [if_neg notNeg]
    dsimp only
    rw [if_pos productSmall]
    refine ih (by omega) restNonneg fun n => ?_
    have next := small (n + 1)
    rwa [List.take_succ_cons, elements_cons, ← Int.mul_assoc, ← product] at next

/-- A product that is counted stays in range all the way. -/
lemma small_of_elementCount (nonneg : 0 ≤ start.toInt)
    (counted : elementCount start extents = .ok size) (n : Nat) :
    start.toInt * elements (extents.take n) < 2 ^ 63 := by
  have startSmall : start.toInt * elements [] < 2 ^ 63 := by
    have := start.toInt_lt
    simpa [elements] using this
  induction extents generalizing start n with
  | nil => simpa using startSmall
  | cons extent rest ih =>
    cases n with
    | zero => exact startSmall
    | succ n =>
      unfold elementCount at counted
      dsimp only at counted
      split at counted
      · cases counted
      · next notNeg =>
        have extentNonneg : 0 ≤ extent.toInt := Int64.le_iff_toInt_le.1 (Int64.not_lt.1 notNeg)
        have productNonneg : 0 ≤ start.toInt * extent.toInt := Int.mul_nonneg nonneg extentNonneg
        split at counted
        · next small =>
          have product : (Int64.ofInt (start.toInt * extent.toInt)).toInt = start.toInt *
            extent.toInt :=
            Int64.toInt_ofInt_of_le (by omega) (by omega)
          have later := ih (by omega) counted n (by rw [product]; simpa [elements] using small)
          rwa [List.take_succ_cons, elements_cons, ← Int.mul_assoc, ← product]
        · cases counted

lemma exists_elementCount_iff : (∃ size, elementCount 1 extents = .ok size) ↔ InRange extents := by
  have one : (1 : Word).toInt = 1 := rfl
  constructor
  · rintro ⟨size, counted⟩
    refine ⟨(toInt_elementCount (by decide) counted).1, fun n => ?_⟩
    have small := small_of_elementCount (by decide) counted n
    rwa [one, Int.one_mul] at small
  · rintro ⟨nonneg, small⟩
    refine exists_elementCount (by decide) nonneg fun n => ?_
    rw [one, Int.one_mul]
    exact small n

/-! ### The block -/

/-- What comes of a block that is asked for, by the bytes of its elements. -/
inductive Outcome (h : Heap) (bytes : Nat) (b : Block) : Except Denial (Word × Heap) → Prop where
  | uncounted (wide : ¬h.Countable bytes b.payload.size) : Outcome h bytes b (.error (.broken h))
  | exhausted (counted : h.Countable bytes b.payload.size) (full : ¬h.Room b.payload.size) :
      Outcome h bytes b (.error (.refused h.exhausted))
  | unmade (counted : h.Countable bytes b.payload.size) (room : h.Room b.payload.size)
      (long : ¬Makeable b.payload.size) :
      Outcome h bytes b (.error (.broken (h.counting b.payload.size)))
  | made (counted : h.Countable bytes b.payload.size) (room : h.Room b.payload.size)
      (short : Makeable b.payload.size) : Outcome h bytes b (.ok (handleAfter h.words, h.adding b))

lemma outcome_add (h : Heap) (bytes : Nat) (b : Block) :
    Outcome h bytes b (if 2 ^ 64 ≤ bytes then .error (.broken h) else h.add b) := by
  unfold add
  split_ifs with wide long room short
  · exact .uncounted fun counted => Nat.not_lt.2 wide counted.bytes
  · exact .uncounted fun counted => Nat.not_lt.2 long counted.words
  · exact .made ⟨Nat.not_le.1 wide, Nat.not_le.1 long⟩ room short
  · exact .unmade ⟨Nat.not_le.1 wide, Nat.not_le.1 long⟩ room short
  · exact .exhausted ⟨Nat.not_le.1 wide, Nat.not_le.1 long⟩ room

lemma header_writeWords (b : Block) (i : Nat) (words : List Word) :
    (writeWords b i words).header = b.header := by
  induction words generalizing b i with
  | nil => rfl
  | cons word rest ih => exact ih _ _

lemma header_newArray (kind : ElemKind) (size : Word) (extents : List Word) :
    (newArray kind size extents).header = BlockKind.array.code ||| (Word.ofNat kind.code <<< 8) :=
  header_writeWords _ _ _

lemma count_writeWords (b : Block) (i : Nat) (words : List Word) :
    (writeWords b i words).count = b.count := by
  induction words generalizing b i with
  | nil => rfl
  | cons word rest ih => exact ih _ _

section

variable (counted : elementCount 1 extents = .ok size)
include counted

lemma toInt_size : size.toInt = elements extents :=
  (toInt_elementCount (by decide) counted).2.trans (Int.one_mul _)

lemma headed_newArray :
    (newArray kind size extents).Headed kind extents where
  isArray := by
    rw [Block.kind?, header_newArray]
    cases kind <;> decide
  cls := by
    rw [Block.cls, header_newArray]
    cases kind <;> decide
  count := by
    rw [size_newArray, newArray, count_writeWords]
    rfl
  size := by
    have first : (newArray kind size extents).word 0 = size := word_newArray rfl
    rw [first]
    exact toInt_size counted
  dims := word_newArray rfl
  extent i lt := by
    rw [Nat.add_comm]
    exact word_newArray (List.getElem?_eq_getElem lt)

lemma arrayBytes_eq : arrayBytes kind size = elementBytes kind extents := by
  rw [arrayBytes, elementBytes, toInt_size counted]

lemma arrayWords_eq : arrayWords kind size extents.length = neededWords kind extents := by
  rw [arrayWords, neededWords, arrayBytes_eq counted, payloadWords, Nat.add_comm extents.length]

end

/-- Elements that cannot be counted have an extent to blame. -/
lemma exists_of_elementCount_error {cause : Cause}
    (failed : elementCount start extents = .error cause) :
    ∃ extent, cause = .invalidArraySize extent := by
  induction extents generalizing start with
  | nil => cases failed
  | cons extent rest ih =>
    unfold elementCount at failed
    dsimp only at failed
    split at failed
    · cases failed
      exact ⟨extent, rfl⟩
    · split at failed
      · exact ih failed
      · cases failed
        exact ⟨_, rfl⟩

/-- An array is asked for as a block if its extents are in range; otherwise an extent is to
blame. -/
lemma allocArray_cases (h : Heap) (kind : ElemKind) (extents : List Word) :
    (InRange extents ∧ ∃ size, elementCount 1 extents = .ok size ∧
      Outcome h (elementBytes kind extents) (newArray kind size extents)
        (h.allocArray kind extents)) ∨
    (¬InRange extents ∧ ∃ extent, h.allocArray kind extents =
      .error (.refused (.invalidArraySize extent))) := by
  rw [← exists_elementCount_iff, allocArray_eq_add]
  cases counted : elementCount 1 extents with
  | ok size =>
    refine .inl ⟨⟨size, rfl⟩, size, rfl, ?_⟩
    rw [← arrayBytes_eq counted]
    exact outcome_add h _ _
  | error cause =>
    obtain ⟨extent, rfl⟩ := exists_of_elementCount_error counted
    exact .inr ⟨by simp, extent, rfl⟩

/-- **An array that is answered has room for its elements.**  An array is answered exactly when its
extents are in range, its bytes and the words of the heap can be counted, its block does not pass
the limit of the heap, and a row can have the words of the block.  It is refused exactly when its
extents are out of range or when its block would pass the limit; in all other cases the runtime
breaks off.  The block of an array that is answered is the last one, headed by the product of the
extents as an unbounded number, their number, and the extents in order, and has the words that the
array needs. -/
theorem room_of_allocArray (h : Heap) (kind : ElemKind) (extents : List Word) :
    ((∃ result, h.allocArray kind extents = .ok result) ↔
      InRange extents ∧ h.Countable (elementBytes kind extents) (neededWords kind extents) ∧
        h.Room (neededWords kind extents) ∧ Makeable (neededWords kind extents)) ∧
    ((∃ cause, h.allocArray kind extents = .error (.refused cause)) ↔
      ¬InRange extents ∨ h.Countable (elementBytes kind extents) (neededWords kind extents) ∧
        ¬h.Room (neededWords kind extents)) ∧
    ((∃ left, h.allocArray kind extents = .error (.broken left)) ↔
      InRange extents ∧ (h.Countable (elementBytes kind extents) (neededWords kind extents) →
        h.Room (neededWords kind extents) ∧ ¬Makeable (neededWords kind extents))) ∧
    ∀ array grown, h.allocArray kind extents = .ok (array, grown) →
      ∃ b, array = handleAfter h.words ∧ grown.blocks = h.blocks.push b ∧ b.Headed kind extents ∧
        b.payload.size = neededWords kind extents := by
  have block (array : Word) (grown : Heap) (made : h.allocArray kind extents = .ok (array, grown)) :
      ∃ b, array = handleAfter h.words ∧ grown.blocks = h.blocks.push b ∧ b.Headed kind extents ∧
        b.payload.size = neededWords kind extents := by
    obtain ⟨size, counted, handle, blocks, -⟩ := allocArray_eq_newArray made
    exact ⟨_, handle, blocks, headed_newArray counted,
      (size_newArray _ _ _).trans (arrayWords_eq counted)⟩
  rcases h.allocArray_cases kind extents with
    ⟨inRange, size, counted, outcome⟩ | ⟨outOfRange, extent, refused⟩
  · have words : (newArray kind size extents).payload.size = neededWords kind extents :=
      (size_newArray _ _ _).trans (arrayWords_eq counted)
    generalize newArray kind size extents = b at outcome words
    rw [← words] at block ⊢
    generalize h.allocArray kind extents = result at outcome block ⊢
    cases outcome with
    | uncounted wide =>
      exact ⟨by simp [wide], by simp [inRange, wide], by simp [inRange, wide], block⟩
    | exhausted counted full =>
      exact ⟨by simp [full], by simp [counted, full], by simp [counted, full], block⟩
    | unmade counted room long =>
      exact ⟨by simp [long], by simp [inRange, room], by simp [inRange, room, long], block⟩
    | made counted room short =>
      exact ⟨by simp [inRange, counted, room, short], by simp [inRange, room],
        by simp [counted, short], block⟩
  · refine ⟨?_, ?_, ?_, block⟩
    · simp [refused, outOfRange]
    · simp [refused, outOfRange]
    · simp [refused, outOfRange]

/-- An array of 2 ^ 61 integers is not refused, though it would pass the limit. -/
theorem room_of_allocArray_broken : InRange [2305843009213693952] ∧
    ¬({ limit := some 16 } : Heap).Room (neededWords .int [2305843009213693952]) ∧
    ∃ left, ({ limit := some 16 } : Heap).allocArray .int [2305843009213693952] =
      .error (.broken left) := by
  obtain ⟨-, -, breaks, -⟩ := room_of_allocArray { limit := some 16 } .int [2305843009213693952]
  have inRange : InRange [2305843009213693952] := exists_elementCount_iff.1 ⟨_, rfl⟩
  have wide : ¬({ limit := some 16 } : Heap).Countable (elementBytes .int [2305843009213693952])
      (neededWords .int [2305843009213693952]) := fun counted => absurd counted.bytes (by decide)
  exact ⟨inRange, by decide, breaks.2 ⟨inRange, fun counted => absurd counted wide⟩⟩

end Heap

end StackMachine
