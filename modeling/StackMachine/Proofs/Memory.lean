import StackMachine.Proofs.Copying

/-!
# Bytes of the heap

A store replaces the bytes from its address on, as many as it is wide, by the low bytes of a word.
It leaves every other byte of every block as it was, and the blocks where they were (`Heap.Writes`).
This is so even when the bytes do not start at a word, and reach into the next one.
-/

namespace StackMachine

/-- Byte `j` of a word, the low one first. -/
def Word.byte (w : Word) (j : Nat) : UInt8 := (w.toUInt64 >>> UInt64.ofNat (8 * j)).toUInt8

namespace Block

variable {amount : UInt64} {offset j t offset' : Nat} {width : Width}

/-! ### Bits

Stores work on the bits of words.  A shift moves bits by whole bytes, and a mask covers the bytes of
an access. -/

/-- A bit of the payload. -/
def bit (b : Block) (n : Nat) : Bool := (b.word (n / 64)).toBitVec.getLsbD (n % 64)

lemma bytes_le (width : Width) : width.bytes ≤ 8 := by cases width <;> decide

lemma getLsbD_mask (width : Width) (n : Nat) :
    (mask width).toBitVec.getLsbD n = decide (n < 8 * width.bytes) := by
  by_cases lt : n < 64
  · revert n
    cases width <;> decide
  · have le := bytes_le width
    rw [BitVec.getLsbD_of_ge _ _ (by omega), eq_comm, decide_eq_false_iff_not]
    omega

lemma toNat_bitOffset (offset : Nat) : (bitOffset offset).toNat = 8 * (offset % 8) := by
  rw [bitOffset, UInt64.toNat_ofNat']
  omega

lemma toNat_sub_bitOffset (offset : Nat) :
    (64 - bitOffset offset).toNat = 64 - 8 * (offset % 8) := by
  have whole := toNat_bitOffset offset
  have le : bitOffset offset ≤ 64 := by
    rw [UInt64.le_iff_toNat_le, whole]
    show _ ≤ 64
    omega
  rw [UInt64.toNat_sub_of_le _ _ le, whole]
  rfl

lemma getLsbD_shiftLeft (w : UInt64) (small : amount.toNat < 64) {n : Nat} (lt : n < 64) :
    (w <<< amount).toBitVec.getLsbD n =
      (decide (amount.toNat ≤ n) && w.toBitVec.getLsbD (n - amount.toNat)) := by
  have whole : (amount.toBitVec % 64).toNat = amount.toNat := by
    rw [BitVec.toNat_umod]
    exact Nat.mod_eq_of_lt small
  rw [UInt64.toBitVec_shiftLeft, BitVec.shiftLeft_eq', whole, BitVec.getLsbD_shiftLeft,
    decide_eq_true lt, Bool.true_and, ← decide_not]
  simp only [Nat.not_lt]

lemma getLsbD_shiftRight (w : UInt64) (small : amount.toNat < 64) (n : Nat) :
    (w >>> amount).toBitVec.getLsbD n = w.toBitVec.getLsbD (amount.toNat + n) := by
  have whole : (amount.toBitVec % 64).toNat = amount.toNat := by
    rw [BitVec.toNat_umod]
    exact Nat.mod_eq_of_lt small
  rw [UInt64.toBitVec_shiftRight, BitVec.ushiftRight_eq', whole, BitVec.getLsbD_ushiftRight]

variable {b : Block} {n : Nat}

lemma bit_setBits {i : Nat} {hole bits : UInt64} (bound : n < 64 * b.payload.size) :
    (b.setBits i hole bits).bit n =
      if n / 64 = i then
        (b.bit n && !hole.toBitVec.getLsbD (n % 64)) || bits.toBitVec.getLsbD (n % 64)
      else b.bit n := by
  by_cases inside : i < b.payload.size
  · rw [bit, setBits, word_setWord inside]
    by_cases here : i = n / 64
    · have lt : n % 64 < 64 := by omega
      rw [if_pos here, if_pos here.symm, here]
      simp [bit, lt]
    · rw [if_neg here, if_neg (Ne.symm here)]
      rfl
  · have other : n / 64 ≠ i := by omega
    have same : b.setBits i hole bits = b := by
      simp only [setBits, setWord]
      rw [Array.setIfInBounds_eq_of_size_le (by omega)]
    rw [if_neg other, same]

lemma replaced (width : Width) (old new : Bool) (n : Nat) :
    ((old && !(mask width).toBitVec.getLsbD n) || (new && (mask width).toBitVec.getLsbD n)) =
      if n < 8 * width.bytes then new else old := by
  rw [getLsbD_mask]
  split
  · next lt => simp [lt]
  · next ge => simp [ge]

/-- The part of a store in the word where it starts. -/
lemma bit_storeLow (width : Width) (offset : Nat) (value : Word) (bound : n < 64 * b.payload.size) :
    (b.setBits (offset / 8) (mask width <<< bitOffset offset)
        ((value.toUInt64 &&& mask width) <<< bitOffset offset)).bit n =
      if n / 64 = offset / 8 ∧ 8 * (offset % 8) ≤ n % 64 ∧
      n % 64 - 8 * (offset % 8) < 8 * width.bytes then
        value.toBitVec.getLsbD (n % 64 - 8 * (offset % 8))
      else b.bit n := by
  have lt : n % 64 < 64 := by omega
  have masked := replaced width (b.bit n) (value.toBitVec.getLsbD (n % 64 - 8 * (offset % 8)))
    (n % 64 - 8 * (offset % 8))
  have amount := toNat_bitOffset offset
  rw [bit_setBits bound, getLsbD_shiftLeft _ (by omega) lt, getLsbD_shiftLeft _ (by omega) lt,
    amount]
  by_cases here : n / 64 = offset / 8
  · by_cases above : 8 * (offset % 8) ≤ n % 64
    · simpa [here, above] using masked
    · simp [here, above]
  · simp [here]

/-- The part of a store in the word after that. -/
lemma bit_storeHigh (width : Width) (value : Word) (bound : n < 64 * b.payload.size)
    (inner : 0 < offset % 8) :
    (b.setBits (offset / 8 + 1) (mask width >>> (64 - bitOffset offset))
        ((value.toUInt64 &&& mask width) >>> (64 - bitOffset offset))).bit n =
      if n / 64 = offset / 8 + 1 ∧ 64 - 8 * (offset % 8) + n % 64 < 8 * width.bytes then
        value.toBitVec.getLsbD (64 - 8 * (offset % 8) + n % 64)
      else b.bit n := by
  have masked := replaced width (b.bit n) (value.toBitVec.getLsbD (64 - 8 * (offset % 8) + n % 64))
    (64 - 8 * (offset % 8) + n % 64)
  have amount := toNat_sub_bitOffset offset
  rw [bit_setBits bound, getLsbD_shiftRight _ (by omega), getLsbD_shiftRight _ (by omega), amount]
  by_cases here : n / 64 = offset / 8 + 1
  · simpa [here] using masked
  · simp [here]

/-- A store replaces the bits of its bytes, and no others. -/
lemma bit_store (width : Width) (offset : Nat) (value : Word) (bound : n < 64 * b.payload.size) :
    (b.store width offset value).bit n =
      if 8 * offset ≤ n ∧ n < 8 * (offset + width.bytes) then
        value.toBitVec.getLsbD (n - 8 * offset)
      else b.bit n := by
  have le := bytes_le width
  have low := bit_storeLow width offset value bound
  unfold store
  dsimp only
  split
  · next spill =>
    rw [spills, decide_eq_true_eq] at spill
    rw [bit_storeHigh width value (by simpa [setBits] using bound) (by omega), low]
    by_cases within : 8 * offset ≤ n ∧ n < 8 * (offset + width.bytes)
    · rw [if_pos within]
      by_cases high : n / 64 = offset / 8 + 1
      · have distance : 64 - 8 * (offset % 8) + n % 64 = n - 8 * offset := by omega
        rw [if_pos (by omega), distance]
      · have distance : n % 64 - 8 * (offset % 8) = n - 8 * offset := by omega
        rw [if_neg (by omega), if_pos (by omega), distance]
    · rw [if_neg within, if_neg (by omega), if_neg (by omega)]
  · next inside =>
    rw [spills, decide_eq_true_eq] at inside
    rw [low]
    by_cases within : 8 * offset ≤ n ∧ n < 8 * (offset + width.bytes)
    · have distance : n % 64 - 8 * (offset % 8) = n - 8 * offset := by omega
      rw [if_pos within, if_pos (by omega), distance]
    · rw [if_neg within, if_neg (by omega)]

/-! ### Bytes -/

/-- A byte of the payload. -/
def byte (b : Block) (offset : Nat) : UInt8 := Word.byte (b.word (offset / 8)) (offset % 8)

lemma getLsbD_wordByte (w : Word) (inWord : j < 8) (inByte : t < 8) :
    (Word.byte w j).toBitVec.getLsbD t = w.toBitVec.getLsbD (8 * j + t) := by
  have amount : ((UInt64.ofNat (8 * j)).toBitVec % 64).toNat = 8 * j := by
    rw [BitVec.toNat_umod]
    show (UInt64.ofNat (8 * j)).toNat % 64 = _
    rw [UInt64.toNat_ofNat']
    omega
  rw [Word.byte, UInt64.toBitVec_toUInt8, BitVec.getLsbD_setWidth, UInt64.toBitVec_shiftRight,
    BitVec.ushiftRight_eq', amount, BitVec.getLsbD_ushiftRight, decide_eq_true inByte,
      Bool.true_and]
  rfl

lemma getLsbD_byte (b : Block) (offset : Nat) (inByte : t < 8) :
    (b.byte offset).toBitVec.getLsbD t = b.bit (8 * offset + t) := by
  have word : (8 * offset + t) / 64 = offset / 8 := by omega
  have place : (8 * offset + t) % 64 = 8 * (offset % 8) + t := by omega
  rw [byte, getLsbD_wordByte _ (by omega) inByte, bit, word, place]

/-- A store replaces its bytes, and no others. -/
lemma byte_store (width : Width) (offset : Nat) (value : Word) (bound : j < 8 * b.payload.size) :
    (b.store width offset value).byte j =
      if offset ≤ j ∧ j < offset + width.bytes then Word.byte value (j - offset) else b.byte j := by
  have le := bytes_le width
  apply UInt8.toBitVec_inj.1
  apply BitVec.eq_of_getLsbD_eq
  intro t inByte
  rw [getLsbD_byte _ _ inByte, bit_store width offset value (by omega)]
  by_cases within : offset ≤ j ∧ j < offset + width.bytes
  · have distance : 8 * j + t - 8 * offset = 8 * (j - offset) + t := by omega
    rw [if_pos within, if_pos (by omega), getLsbD_wordByte _ (by omega) inByte, distance]
  · rw [if_neg within, if_neg (by omega), getLsbD_byte _ _ inByte]

lemma getLsbD_load (b : Block) (width : Width) (offset n : Nat) :
    (b.load width offset).toBitVec.getLsbD n =
      (decide (n < 8 * width.bytes) && b.bit (8 * offset + n)) := by
  have le := bytes_le width
  have start := toNat_bitOffset offset
  have rest := toNat_sub_bitOffset offset
  unfold load
  rw [UInt64.toBitVec_toInt64, UInt64.toBitVec_and, UInt64.toBitVec_or, BitVec.getLsbD_and,
    BitVec.getLsbD_or, getLsbD_mask, Bool.and_comm, getLsbD_shiftRight _ (by omega), start]
  by_cases covered : n < 8 * width.bytes
  · -- the bits after the end of the first word are those of the next one
    have high : (if spills width offset then (b.word (offset / 8 + 1)).toUInt64 <<<
        (64 - bitOffset offset) else 0).toBitVec.getLsbD n = (decide (64 - 8 * (offset % 8) ≤ n) &&
          (b.word (offset / 8 + 1)).toBitVec.getLsbD (n - (64 - 8 * (offset % 8)))) := by
      by_cases spill : 8 < offset % 8 + width.bytes
      · rw [spills, decide_eq_true spill, if_pos rfl, getLsbD_shiftLeft _ (by omega) (by omega),
          rest]
        rfl
      · rw [spills, decide_eq_false spill, if_neg Bool.false_ne_true, decide_eq_false (by omega)]
        simp
    rw [decide_eq_true covered, Bool.true_and, Bool.true_and, high, bit]
    by_cases low : 8 * (offset % 8) + n < 64
    · have word : (8 * offset + n) / 64 = offset / 8 := by omega
      have place : (8 * offset + n) % 64 = 8 * (offset % 8) + n := by omega
      rw [decide_eq_false (by omega), Bool.false_and, Bool.or_false, word, place]
      rfl
    · have word : (8 * offset + n) / 64 = offset / 8 + 1 := by omega
      have place : (8 * offset + n) % 64 = n - (64 - 8 * (offset % 8)) := by omega
      rw [decide_eq_true (by omega), Bool.true_and, BitVec.getLsbD_of_ge _ _ (by omega),
        Bool.false_or, word, place]
  · simp [covered]

lemma byte_load (b : Block) (offset : Nat) (lt : j < width.bytes) :
    Word.byte (b.load width offset) j = b.byte (offset + j) := by
  have le := bytes_le width
  apply UInt8.toBitVec_inj.1
  apply BitVec.eq_of_getLsbD_eq
  intro t inByte
  have covered : 8 * j + t < 8 * width.bytes := by omega
  rw [getLsbD_wordByte _ (by omega) inByte, getLsbD_byte _ _ inByte, getLsbD_load,
    decide_eq_true covered, Bool.true_and, Nat.mul_add, Nat.add_assoc]

lemma load_congr {b b' : Block}
    (same : ∀ j < width.bytes, b.byte (offset + j) = b'.byte (offset' + j)) :
    b.load width offset = b'.load width offset' := by
  apply Int64.toBitVec_inj.1
  apply BitVec.eq_of_getLsbD_eq
  intro n _
  rw [getLsbD_load, getLsbD_load]
  by_cases covered : n < 8 * width.bytes
  · have bits := congrArg (fun byte => byte.toBitVec.getLsbD (n % 8)) (same (n / 8) (by omega))
    have whole (offset : Nat) : 8 * (offset + n / 8) + n % 8 = 8 * offset + n := by omega
    simp only [getLsbD_byte _ _ (Nat.mod_lt n (by decide : 0 < 8)), whole] at bits
    rw [bits]
  · simp [covered]

/-- The low bytes of a word. -/
def part (width : Width) (w : Word) : Word := (w.toUInt64 &&& mask width).toInt64

lemma getLsbD_part (width : Width) (w : Word) (n : Nat) :
    (part width w).toBitVec.getLsbD n = (decide (n < 8 * width.bytes) && w.toBitVec.getLsbD n) := by
  rw [part, UInt64.toBitVec_toInt64, UInt64.toBitVec_and, BitVec.getLsbD_and, getLsbD_mask,
    Bool.and_comm]
  rfl

lemma part_load (b : Block) (width : Width) (offset : Nat) :
    part width (b.load width offset) = b.load width offset := by
  apply Int64.toBitVec_inj.1
  apply BitVec.eq_of_getLsbD_eq
  intro n _
  rw [getLsbD_part, getLsbD_load, ← Bool.and_assoc, Bool.and_self]

lemma load_store_self (value : Word) (room : offset + width.bytes ≤ 8 * b.payload.size) :
    (b.store width offset value).load width offset = part width value := by
  apply Int64.toBitVec_inj.1
  apply BitVec.eq_of_getLsbD_eq
  intro n _
  rw [getLsbD_load, getLsbD_part]
  by_cases covered : n < 8 * width.bytes
  · rw [bit_store width offset value (by omega), if_pos (by omega), Nat.add_sub_cancel_left]
  · simp [covered]

/-- A store elsewhere does not change what is loaded. -/
lemma load_store_of_disjoint {width' : Width} (value : Word)
    (room : offset' + width'.bytes ≤ 8 * b.payload.size)
    (apart : offset + width.bytes ≤ offset' ∨ offset' + width'.bytes ≤ offset) :
    (b.store width offset value).load width' offset' = b.load width' offset' := by
  refine load_congr fun j lt => ?_
  rw [byte_store width offset value (by omega), if_neg (by omega)]

/-- What a store leaves alone: the two header words, and the number of words in the payload. -/
def shape (b : Block) : Word × Word × Nat := (b.header, b.count, b.payload.size)

lemma shape_store (b : Block) (width : Width) (offset : Nat) (value : Word) :
    (b.store width offset value).shape = b.shape := by
  unfold store shape
  dsimp only
  split <;> simp [setBits, setWord]

end Block

namespace Heap

def byte? (h : Heap) (a : Address) : Option UInt8 :=
  h.blocks[a.block]?.bind fun b => if a.offset < 8 * b.payload.size then some (b.byte a.offset)
    else none

/-- A heap has the same blocks as another, but for what is in them. -/
structure SameBlocks (h h' : Heap) : Prop where
  stats : h'.stats = h.stats
  limit : h'.limit = h.limit
  shape : ∀ i : Nat, h'.blocks[i]?.map Block.shape = h.blocks[i]?.map Block.shape

namespace SameBlocks

variable {h h' h'' : Heap}

lemma refl (h : Heap) : SameBlocks h h := ⟨rfl, rfl, fun _ => rfl⟩

lemma trans (first : SameBlocks h h') (second : SameBlocks h' h'') : SameBlocks h h'' :=
  ⟨second.stats.trans first.stats, second.limit.trans first.limit, fun i => (second.shape i).trans
    (first.shape i)⟩

lemma store (h : Heap) (start : Address) (width : Width) (value : Word) :
    SameBlocks h (h.store start width value) where
  stats := rfl
  limit := rfl
  shape i := by
    rw [Heap.store, modifyBlock, Array.getElem?_modify]
    split
    · rw [Option.map_map]
      exact congrArg (h.blocks[i]?.map ·) (funext fun b => b.shape_store width start.offset value)
    · rfl

end SameBlocks

/-- A heap differs from another only in some bytes, which are the low bytes of a word. -/
structure Writes (h h' : Heap) (start : Address) (width : Nat) (value : Word) : Prop where
  stats : h'.stats = h.stats
  limit : h'.limit = h.limit
  shape : ∀ i : Nat, h'.blocks[i]?.map Block.shape = h.blocks[i]?.map Block.shape
  inside : ∀ j < width, h'.byte? ⟨start.block, start.offset + j⟩ = some (Word.byte value j)
  outside : ∀ a : Address, a.block ≠ start.block ∨ a.offset < start.offset ∨
    start.offset + width ≤ a.offset →
    h'.byte? a = h.byte? a

variable {h : Heap} {start : Address} {width : Width} {b : Block}

lemma byte?_store (h : Heap) (start : Address) (width : Width) (value : Word) (a : Address) :
    (h.store start width value).byte? a =
      if a.block = start.block ∧ start.offset ≤ a.offset ∧
      a.offset < start.offset + width.bytes then
        (h.byte? a).map fun _ => Word.byte value (a.offset - start.offset)
      else h.byte? a := by
  unfold byte? Heap.store modifyBlock
  dsimp only
  rw [Array.getElem?_modify]
  by_cases here : start.block = a.block
  · rw [if_pos here]
    cases at_a : h.blocks[a.block]? with
    | none => simp
    | some b =>
      have size : (b.store width start.offset value).payload.size = b.payload.size :=
        congrArg (fun shape => shape.2.2) (b.shape_store width start.offset value)
      simp only [Option.map_some, Option.bind_some, size]
      by_cases inside : a.offset < 8 * b.payload.size
      · simp only [inside, if_true, Option.map_some,
          Block.byte_store width start.offset value inside, here, true_and]
        split <;> rfl
      · simp [inside]
  · rw [if_neg here, if_neg (fun both => here both.1.symm)]

lemma writes_store (value : Word) (at_start : h.blocks[start.block]? = some b)
    (room : start.offset + width.bytes ≤ 8 * b.payload.size) :
    h.Writes (h.store start width value) start width.bytes value where
  stats := rfl
  limit := rfl
  shape := (SameBlocks.store h start width value).shape
  inside j lt := by
    have there : h.byte? ⟨start.block, start.offset + j⟩ = some (b.byte (start.offset + j)) := by
      have inBlock : start.offset + j < 8 * b.payload.size := by omega
      rw [byte?, at_start]
      exact if_pos inBlock
    rw [byte?_store, if_pos ⟨rfl, by dsimp only; omega, by dsimp only; omega⟩, there]
    exact congrArg (fun k => some (Word.byte value k)) (Nat.add_sub_cancel_left ..)
  outside a other := by
    rw [byte?_store, if_neg (by omega)]

end Heap

end StackMachine
