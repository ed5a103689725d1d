import StackMachine.Proofs.Allocation
import StackMachine.Proofs.Memory

/-!
# What the heap counts

Blocks are asked for in four ways (`Heap.Request`), which differ in the least size of a block and in
what its payload starts with, and come down to one (`Heap.Request.run_cases`): if the extents of an
array are in range, a block is asked for.  So whatever has been asked for before, granted or not,
the heap has counted its blocks and their words, and is within its limit (`Heap.Accounted`); a
request that is refused changes nothing, and one that is granted adds the block that was asked for
after the blocks that were there (`Heap.accounts_of_served`).  A request is counted before its block
is made.  One of `2 ^ 60` words or more is within a limit counted, and then breaks off without a
block.

The header of a block has 56 bits for the class number and is read as a signed word.  A class number
below `2 ^ 55` is read back, a larger one need not be (`Heap.loses_wide_class`).
-/

namespace StackMachine

/-! ### Headers -/

namespace Block

variable {kind : BlockKind} {cls i : Nat} {b : Block}

lemma word_zeroed (kind : BlockKind) (cls words i : Nat) : (zeroed kind cls words).word i = 0 := by
  rw [word, zeroed, Array.getD_eq_getD_getElem?, Array.getElem?_replicate]
  split <;> rfl

lemma getLsbD_code (kind : BlockKind) (lt : i < 64) (le : 8 ≤ i) :
    kind.code.toBitVec.getLsbD i = false := by
  have high : ∀ i < 64, 8 ≤ i → kind.code.toBitVec.getLsbD i = false := by cases kind <;> decide
  exact high i lt le

/-- The class number is moved by a byte. -/
lemma smod_eight : (8 : Word).toBitVec.smod 64 = 8#64 := by decide

/-- The bits of a header: those of the kind below, those of the class number above. -/
lemma getLsbD_header (kind : BlockKind) (cls : Nat) (lt : i < 64) :
    (kind.code ||| (Word.ofNat cls <<< 8)).toBitVec.getLsbD i =
      if i < 8 then kind.code.toBitVec.getLsbD i else (Word.ofNat cls).toBitVec.getLsbD
        (i - 8) := by
  rw [Int64.toBitVec_or, Int64.toBitVec_shiftLeft, smod_eight, BitVec.getLsbD_or,
    BitVec.shiftLeft_eq', BitVec.getLsbD_shiftLeft, decide_eq_true lt, Bool.true_and]
  change (_ || !decide (i < 8) && (Word.ofNat cls).toBitVec.getLsbD (i - 8)) = _
  split
  · next below => simp [below]
  · next above => simp [above, getLsbD_code kind lt (by omega)]

variable (packed : b.header = kind.code ||| (Word.ofNat cls <<< 8))
include packed

lemma kind?_of_header : b.kind? = some kind := by
  have lowByte : b.header &&& 0xFF = kind.code := by
    apply Int64.toBitVec_inj.1
    apply BitVec.eq_of_getLsbD_eq
    intro i lt
    have masked : (0xFF : Word).toBitVec.getLsbD i = decide (i < 8) := getLsbD_mask .byte i
    rw [Int64.toBitVec_and, BitVec.getLsbD_and, masked, packed, getLsbD_header kind cls lt]
    by_cases below : i < 8
    · simp [below]
    · simp [below, getLsbD_code kind lt (by omega)]
  rw [kind?, lowByte]
  cases kind <;> rfl

/-- A class number that is not too wide is read back. -/
lemma cls_of_header (small : cls < 2 ^ 55) : Word.toUnsigned b.cls = cls := by
  have unsigned : (Word.ofNat cls).toBitVec.toNat = cls := Word.toUnsigned_ofNat (by omega)
  have high {i : Nat} (le : 55 ≤ i) : (Word.ofNat cls).toBitVec.getLsbD i = false := by
    rw [BitVec.getLsbD, unsigned]
    exact Nat.testBit_lt_two_pow (Nat.lt_of_lt_of_le small (Nat.pow_le_pow_right (by decide) le))
  have eight : (8#64).toNat = 8 := rfl
  have same : b.cls = Word.ofNat cls := by
    apply Int64.toBitVec_inj.1
    apply BitVec.eq_of_getLsbD_eq
    intro i lt
    rw [Block.cls, Int64.toBitVec_shiftRight, smod_eight, BitVec.sshiftRight_eq',
      BitVec.getLsbD_sshiftRight, eight, decide_eq_false (by omega), Bool.not_false, Bool.true_and,
        packed]
    split
    · next inside =>
      rw [getLsbD_header kind cls inside, if_neg (by omega), Nat.add_sub_cancel_left]
    · next outside =>
      -- The sign is the highest bit of the class number, which is not set.
      rw [BitVec.msb_eq_getLsbD_last, getLsbD_header kind cls (by omega), if_neg (by omega),
        high (by omega), high (by omega)]
  rw [same, Word.toUnsigned_ofNat (by omega)]

end Block

/-! ### Requests -/

namespace Heap

variable {s : State} {r : Request}

/-- What can be asked for. -/
inductive Request where
  | object (cls words : Nat)
  | static (cls words : Nat)
  | closure (words : Nat)
  | array (kind : ElemKind) (extents : List Word)
  deriving DecidableEq, Repr

namespace Request

/-- Asks the heap. -/
def run : Request → Heap → Except Denial (Word × Heap)
  | object cls words, h => h.allocObject cls words
  | static cls words, h => h.allocStatic cls words
  | closure words, h => h.allocClosure words
  | array kind extents, h => h.allocArray kind extents

def kind : Request → BlockKind
  | object _ _ => .object
  | static _ _ => .static
  | closure _ => .closure
  | array _ _ => .array

/-- The class number, which tells the kind of elements for an array. -/
def cls : Request → Nat
  | object cls _ => cls
  | static cls _ => cls
  | closure _ => 0
  | array kind _ => kind.code

/-- The payload words, without a bound. -/
def words : Request → Nat
  | object _ words => max words 2
  | static _ words | closure words => max words 1
  | array kind extents => neededWords kind extents

/-- The words that the payload starts with. -/
def lead : Request → List Word
  | array _ extents => header (Int64.ofInt (elements extents)) extents
  | _ => []

/-- The extents of an array are in range. -/
def InRange : Request → Prop
  | array _ extents => Heap.InRange extents
  | _ => True

/-- The bytes of the elements of an array. -/
def bytes : Request → Nat
  | array kind extents => elementBytes kind extents
  | _ => 0

/-- A block is as it was asked for: its header tells the kind, the class number and the word count,
and the payload is zero but for what it starts with. -/
structure Made (r : Request) (b : Block) : Prop where
  kind : b.kind? = some r.kind
  cls : r.cls < 2 ^ 55 → Word.toUnsigned b.cls = r.cls
  count : Word.toUnsigned b.count = r.words
  size : b.payload.size = r.words
  word : ∀ i, b.word i = r.lead.getD i 0

variable {r : Request} {h : Heap} {b : Block}

lemma made_zeroed (r : Request) (zero : r.lead = []) (small : r.words < 2 ^ 64) :
    r.Made (.zeroed r.kind r.cls r.words) where
  kind := Block.kind?_of_header rfl
  cls := Block.cls_of_header rfl
  count := Word.toUnsigned_ofNat small
  size := Array.size_replicate
  word i := by
    rw [zero, Block.word_zeroed]
    rfl

lemma made_newArray {kind : ElemKind} {extents : List Word} {size : Word}
    (counted : elementCount 1 extents = .ok size) (small : neededWords kind extents < 2 ^ 64) :
    (array kind extents).Made (newArray kind size extents) := by
  have words : (newArray kind size extents).payload.size = neededWords kind extents :=
    (size_newArray _ _ _).trans (arrayWords_eq counted)
  have headed : (newArray kind size extents).Headed kind extents := headed_newArray counted
  refine ⟨headed.isArray, Block.cls_of_header (header_newArray kind size extents), ?_, words,
    fun i => ?_⟩
  · rw [headed.count, words]
    exact Word.toUnsigned_ofNat small
  · have same : Int64.ofInt (elements extents) = size := by
      rw [← toInt_size counted, Int64.ofInt_toInt]
    rw [lead, same, List.getD_eq_getElem?_getD]
    cases leads : (header size extents)[i]? with
    | some word => exact word_newArray leads
    | none =>
      have past := List.getElem?_eq_none_iff.1 leads
      have room : 0 + (header size extents).length ≤
          (Block.zeroed .array kind.code (arrayWords kind size extents.length)).payload.size := by
        simp [header, Block.zeroed, arrayWords, payloadWords]
      rw [newArray, word_writeWords_of_le room (by rwa [Nat.zero_add]), Block.word_zeroed]
      rfl

lemma outcome_alloc (h : Heap) (kind : BlockKind) (cls words : Nat) :
    Outcome h 0 (.zeroed kind cls words) (h.alloc kind cls words) :=
  alloc_eq_add h kind cls words ▸ outcome_add h 0 _

/-- A block is asked for if the extents are in range; otherwise an extent is to blame. -/
lemma run_cases (r : Request) (h : Heap) :
    (r.InRange ∧ ∃ b, b.payload.size = r.words ∧ (r.words < 2 ^ 64 → r.Made b) ∧
      Outcome h r.bytes b (r.run h)) ∨
    (¬r.InRange ∧ ∃ extent, r.run h = .error (.refused (.invalidArraySize extent))) := by
  cases r with
  | object cls words =>
    exact .inl ⟨trivial, _, Array.size_replicate, made_zeroed (object cls words) rfl,
      outcome_alloc h _ _ _⟩
  | static cls words =>
    exact .inl ⟨trivial, _, Array.size_replicate, made_zeroed (static cls words) rfl,
      outcome_alloc h _ _ _⟩
  | closure words =>
    exact .inl ⟨trivial, _, Array.size_replicate, made_zeroed (closure words) rfl,
      outcome_alloc h _ _ _⟩
  | array kind extents =>
    rcases h.allocArray_cases kind extents with ⟨inRange, size, counted, outcome⟩ | refused
    · exact .inl ⟨inRange, _, (size_newArray _ _ _).trans (arrayWords_eq counted),
        made_newArray counted, outcome⟩
    · exact .inr refused

end Request

/-! ### Histories -/

/-- The counters of a heap with a limit are right, with the requests that were counted and have no
block. -/
structure Accounted (h : Heap) (limit : Option Nat) (unmade : List Request) : Prop where
  bound : h.limit = limit
  blocks : h.stats.blocks = h.blocks.size + unmade.length
  words : h.stats.words =
    (h.blocks.toList.map Block.footprint).sum + (unmade.map fun r => r.words + headerWords).sum
  within : ∀ most ∈ limit, h.stats.words ≤ most
  counted : h.Counted

variable {h : Heap} {b : Block} {limit : Option Nat} {unmade : List Request}

lemma accounted_empty (limit : Option Nat) : ({ limit } : Heap).Accounted limit [] :=
  ⟨rfl, rfl, rfl, fun _ _ => Nat.zero_le _, rfl⟩

/-- The counters stay right when a block is added for which there is room. -/
lemma Accounted.adding (accounted : h.Accounted limit unmade) (room : h.Room b.payload.size) :
    (h.adding b).Accounted limit unmade where
  bound := accounted.bound
  blocks := by
    have before := accounted.blocks
    simp only [Heap.adding, stats, Array.size_push] at before ⊢
    omega
  words := by
    have before := accounted.words
    simp only [Heap.adding, stats, Array.toList_push, List.map_append, List.sum_append,
      List.map_singleton, List.sum_singleton, Block.footprint] at before ⊢
    omega
  within most bounded := by
    have total := room most (accounted.bound ▸ bounded)
    simp only [Heap.adding, stats] at total ⊢
    omega
  counted := by
    have before := accounted.counted
    rw [Counted, wordsBefore_size] at before ⊢
    rw [Heap.adding, before, Array.toList_push, List.map_append, List.sum_append, Nat.add_assoc]
    simp [Block.footprint]

/-- The counters stay right when a request is counted for which there is room. -/
lemma Accounted.counting (accounted : h.Accounted limit unmade) (room : h.Room r.words) :
    (h.counting r.words).Accounted limit (unmade ++ [r]) where
  bound := accounted.bound
  blocks := by
    have before := accounted.blocks
    simp only [Heap.counting, stats, List.length_append, List.length_singleton] at before ⊢
    omega
  words := by
    have before := accounted.words
    simp only [Heap.counting, stats, List.map_append, List.sum_append, List.map_singleton,
      List.sum_singleton] at before ⊢
    omega
  within most bounded := by
    have total := room most (accounted.bound ▸ bounded)
    simp only [Heap.counting, stats] at total ⊢
    omega
  counted := accounted.counted

/-- The state after a request, whether it is granted or not. -/
def requested (s : State) (r : Request) : State :=
  match Exec.alloc r.run s with
  | .ok _ t => t
  | .error _ t => t

/-- The state after some requests. -/
def served : State → List Request → State
  | s, [] => s
  | s, r :: rest => served (requested s r) rest

lemma served_append (s : State) (requests more : List Request) :
    served s (requests ++ more) = served (served s requests) more := by
  induction requests generalizing s with
  | nil => rfl
  | cons r rest ih => exact ih (requested s r)

/-- What a request does to the heap: nothing, it is counted, or its block is added. -/
lemma requested_cases (s : State) (r : Request) : (requested s r).machine.heap = s.machine.heap ∨
    (s.machine.heap.Room r.words ∧ ¬Makeable r.words ∧
      (requested s r).machine.heap = s.machine.heap.counting r.words) ∨
    ∃ b, s.machine.heap.Room b.payload.size ∧
    (requested s r).machine.heap = s.machine.heap.adding b := by
  unfold requested Exec.alloc
  rcases r.run_cases s.machine.heap with ⟨-, b, words, -, outcome⟩ | ⟨-, extent, refused⟩
  · generalize r.run s.machine.heap = result at outcome
    cases outcome with
    | uncounted | exhausted => exact .inl rfl
    | unmade counted room long =>
      rw [words] at room long
      exact .inr (.inl ⟨room, long, by rw [words]⟩)
    | made counted room short => exact .inr (.inr ⟨b, room, rfl⟩)
  · rw [refused]
    exact .inl rfl

/-- The counters are right after any requests. -/
lemma Accounted.served (accounted : s.machine.heap.Accounted limit unmade)
    (requests : List Request) :
    ∃ more, more.Sublist requests ∧ (∀ r ∈ more, ¬Makeable r.words) ∧
      (served s requests).machine.heap.Accounted limit (unmade ++ more) := by
  induction requests generalizing s unmade with
  | nil => exact ⟨[], .slnil, by simp, (List.append_nil unmade).symm ▸ accounted⟩
  | cons r rest ih =>
    rcases requested_cases s r with same | ⟨room, long, counted⟩ | ⟨b, room, grown⟩
    · obtain ⟨more, part, longs, after⟩ := ih (same ▸ accounted)
      exact ⟨more, part.cons r, longs, after⟩
    · obtain ⟨more, part, longs, after⟩ := ih (counted ▸ accounted.counting room)
      rw [List.append_assoc] at after
      exact ⟨r :: more, part.cons_cons r, List.forall_mem_cons.2 ⟨long, longs⟩, after⟩
    · obtain ⟨more, part, longs, after⟩ := ih (grown ▸ accounted.adding room)
      exact ⟨more, part.cons r, longs, after⟩

lemma blocks_served (s : State) (requests : List Request) :
    s.machine.heap.blocks.toList <+: (served s requests).machine.heap.blocks.toList := by
  induction requests generalizing s with
  | nil => exact List.prefix_rfl
  | cons r rest ih =>
    have later := ih (requested s r)
    rcases requested_cases s r with same | ⟨-, -, counted⟩ | ⟨b, -, grown⟩
    · exact same ▸ later
    · rw [counted] at later
      exact later
    · rw [grown, adding, Array.toList_push] at later
      exact (List.prefix_append _ _).trans later

/-! ### Answers -/

/-- What the heap tells of a handle is what was asked for. -/
structure Request.Held (r : Request) (h : Heap) (handle : Word) : Prop where
  kind : h.kindOf? handle = some r.kind
  cls : r.cls < 2 ^ 55 → h.classOf? handle = if r.kind = .object then some r.cls else none
  words : h.wordsOf handle = r.words

/-- How a thread is answered.  A request is refused for the limit exactly when its extents are in
range, its words can be counted and its block would pass the limit, and for another reason exactly
when its extents are not in range.  The runtime breaks off if the words cannot be counted, or after
they are if there is room for the block and no row can have its words.  A request that is refused
changes nothing.  One that is granted adds the block that was asked for, and is answered by a handle
of this block if the heap is within the addresses. -/
structure Request.Answered (r : Request) (s : State) : Prop where
  exhausted_iff : (∃ message t,
    Exec.alloc r.run s = .error (.fault { cause := .resourceExhausted message }) t) ↔
    r.InRange ∧ s.machine.heap.Countable r.bytes r.words ∧ ¬s.machine.heap.Room r.words
  invalid_iff : (∃ extent t,
    Exec.alloc r.run s = .error (.fault { cause := .invalidArraySize extent }) t) ↔ ¬r.InRange
  panic_iff : (∃ t, Exec.alloc r.run s = .error .panic t) ↔
    r.InRange ∧ (s.machine.heap.Countable r.bytes r.words → s.machine.heap.Room r.words ∧
      ¬Makeable r.words)
  refused : ∀ f t, Exec.alloc r.run s = .error (.fault f) t → t = s
  broken : ∀ t, Exec.alloc r.run s = .error .panic t →
    (¬s.machine.heap.Countable r.bytes r.words ∧ t = s) ∨
    (s.machine.heap.Countable r.bytes r.words ∧ t = s.withHeap (s.machine.heap.counting r.words))
  granted : r.InRange → s.machine.heap.Countable r.bytes r.words → s.machine.heap.Room r.words →
    Makeable r.words →
    ∃ b handle, r.Made b ∧ Exec.alloc r.run s = .ok handle (s.withHeap (s.machine.heap.adding b)) ∧
      (8 * (s.machine.heap.words + r.words + headerWords) ≤ 2 ^ 63 →
        r.Held (s.machine.heap.adding b) handle)

lemma Request.words_pos (r : Request) : 0 < r.words := by
  cases r <;> simp only [words, neededWords] <;> omega

/-- The new block is found by its handle. -/
lemma Counted.held (counted : h.Counted) (made : r.Made b)
    (fits : 8 * (h.words + r.words + headerWords) ≤ 2 ^ 63) :
    r.Held (h.adding b) (handleAfter h.words) := by
  have last : (h.adding b).blocks[h.blocks.size]? = some b := Array.getElem?_push_size
  have before : (h.adding b).wordsBefore h.blocks.size = h.words := by
    rw [wordsBefore, Heap.adding, Array.toList_push, List.take_append_of_le_length (by simp)]
    exact counted.symm
  have nonempty : 0 < b.payload.size := made.size ▸ r.words_pos
  have found : (h.adding b).block? (handleAfter h.words) = some b := by
    rw [← before]
    refine block?_handleOf last nonempty ?_
    rw [before, made.size]
    omega
  have notNil : handleAfter h.words ≠ 0 := handleAfter_ne_nil (by omega)
  refine ⟨?_, fun small => ?_, ?_⟩
  · rw [kindOf?, found]
    exact made.kind
  · rw [classOf?, if_neg notNil, found, Option.bind_some, made.kind, made.cls small]
    exact if_congr Option.some_inj rfl rfl
  · rw [wordsOf, found]
    exact made.count

/-- Every thread whose heap counts its words is answered. -/
lemma Counted.answered (counted : s.machine.heap.Counted) (r : Request) : r.Answered s := by
  rcases r.run_cases s.machine.heap with
    ⟨inRange, b, words, made, outcome⟩ | ⟨outOfRange, extent, refused⟩
  · have made (short : Makeable r.words) : r.Made b :=
      made (by unfold Makeable Word.rowLimit at short; omega)
    have held (short : Makeable r.words) := counted.held (made short)
    generalize run : r.run s.machine.heap = result at outcome
    rw [← words] at made held
    cases outcome with
    | uncounted wide =>
      rw [words] at wide
      have breaks : Exec.alloc r.run s = .error .panic s := by rw [Exec.alloc, run]
      constructor <;> simp [breaks, inRange, wide]
    | exhausted countable full =>
      rw [words] at countable full
      have refuses : Exec.alloc r.run s = .error (.fault { cause := s.machine.heap.exhausted })
        s := by
        rw [Exec.alloc, run]
      constructor <;> simp [refuses, inRange, countable, full, Heap.exhausted]
    | unmade countable room long =>
      have breaks : Exec.alloc r.run s = .error .panic
        (s.withHeap (s.machine.heap.counting b.payload.size)) := by
        rw [Exec.alloc, run]
        rfl
      rw [words] at countable room long breaks
      constructor <;> simp [breaks, inRange, countable, room, long]
    | made countable room short =>
      have grants : Exec.alloc r.run s = .ok (handleAfter s.machine.heap.words)
          (s.withHeap (s.machine.heap.adding b)) := by
        rw [Exec.alloc, run]
        rfl
      have holds := held short
      replace made := made short
      rw [words] at countable room short holds
      refine ⟨?_, ?_, ?_, ?_, ?_, fun _ _ _ _ => ⟨b, _, made, grants, holds⟩⟩ <;>
        simp [grants, inRange, countable, room, short]
  · have refuses : Exec.alloc r.run s = .error (.fault { cause := .invalidArraySize extent })
      s := by
      rw [Exec.alloc, refused]
    constructor <;> simp [refuses, outOfRange]

/-- **Accounting and isolation.**  Whatever a thread has asked for, granted or not, its heap has
counted its blocks and their words, headers included, and is within its limit.  Besides its blocks
it has counted only requests for `2 ^ 60` words or more.  Blocks stay as they were, whatever is
asked for later.  Every further request is answered. -/
theorem accounts_of_served {s : State} (fresh : s.machine.heap = { limit })
    (requests : List Request) :
    (∃ unmade, unmade.Sublist requests ∧ (∀ r ∈ unmade, ¬Makeable r.words) ∧
      (served s requests).machine.heap.Accounted limit unmade) ∧
    (∀ more, (served s requests).machine.heap.blocks.toList <+:
      (served s (requests ++ more)).machine.heap.blocks.toList) ∧
    ∀ r : Request, r.Answered (served s requests) := by
  have empty : s.machine.heap.Accounted limit [] := by
    rw [fresh]
    exact accounted_empty limit
  obtain ⟨unmade, part, longs, accounted⟩ := empty.served requests
  refine ⟨⟨unmade, part, longs, accounted⟩, fun more => ?_, accounted.counted.answered⟩
  rw [served_append]
  exact blocks_served _ more

/-- A class number of 57 bits is lost: of the object with this class nothing is left in the header
but its kind. -/
theorem loses_wide_class : ∃ handle h, ({} : Heap).allocObject (2 ^ 56) 2 = .ok (handle, h) ∧
    h.kindOf? handle = some .object ∧ h.wordsOf handle = 2 ∧ h.classOf? handle = some 0 :=
  ⟨_, _, rfl, by decide +kernel, by decide +kernel, by decide +kernel⟩

/-! ### A history with refusals -/

namespace Refusals

/-- A thread whose heap is limited to twenty words. -/
def state : State where
  machine :=
    { program := {}, settings := {}, heap := { limit := some 20 },
      statics := #[], records := #[], seed := 1, clock := 0 }
  context := { stack := OperandStack.empty 1 }

/-- Of these requests only the first and the last are granted. -/
def history : List Request :=
  [.object 7 0, .array .int [-1], .array .char [4611686018427387904, 4], .closure 50, .static 3 1]

/-- A matrix of two by three bytes. -/
def matrix : Request := .array .byte [2, 3]

end Refusals

open Refusals in
/-- Two blocks of seven words in all have been added, and the matrix is added after them. -/
theorem accounts_of_served_refusals : (served state history).machine.heap.blocks.size = 2 ∧
    (served state history).machine.heap.stats = ⟨2, 7⟩ ∧
    ∃ b handle t, Exec.alloc matrix.run (served state history) = .ok handle t ∧
      t.machine.heap = (served state history).machine.heap.adding b ∧ matrix.Made b ∧
      matrix.Held t.machine.heap handle := by
  obtain ⟨-, -, answers⟩ := accounts_of_served (s := state) rfl history
  have words : (served state history).machine.heap.words = 7 := by decide +kernel
  have needed : matrix.words = 5 := by decide
  have stats : (served state history).machine.heap.stats = ⟨2, 7⟩ := by decide +kernel
  have inRange : matrix.InRange := exists_elementCount_iff.1 ⟨6, rfl⟩
  have countable : (served state history).machine.heap.Countable matrix.bytes matrix.words :=
    ⟨by decide, by rw [stats, needed]; decide⟩
  obtain ⟨b, handle, made, granted, held⟩ :=
    (answers matrix).granted inRange countable (by decide +kernel)
      (by rw [needed]; unfold Makeable; decide)
  exact ⟨by decide +kernel, stats, b, handle, _, granted, rfl, made,
    held (by rw [words, needed]; decide)⟩

end Heap

end StackMachine
