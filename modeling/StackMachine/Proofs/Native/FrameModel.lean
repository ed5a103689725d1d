import StackMachine.Native.Backend
import StackMachine.Native.Frame
import StackMachine.Proofs.Native.Straight

/-!
# Frames in memory

A method keeps its entry arguments, spilled registers and locals in the slots of a frame below the
stack pointer of its caller.  Between the caller and the slots are the words that the method must
give back: the return address, the frame pointer and the registers that belong to the caller.  Below
the slots is the area for the arguments of a call.

`FrameModel` says what differs between processors and calling conventions, and
`FrameModel.WellFormed` what is the same for all of them: opening a frame brings everything to its
place, nothing in it overlaps, calls are made with the stack pointer aligned, and whatever a method
does to its slots and registers, closing the frame gives back what is the caller's.  It follows from
what the code of a processor does to registers and memory (`FrameModel.Lawful`): the layout is
arithmetic on distances from the caller's stack pointer.
-/

namespace StackMachine.Native

open ByteMemory

/-! ### Entry arguments -/

section Received

variable {R : Type} {values values' : R → Word} {memory memory' : ByteMemory} {base : Word}
  {regs : List R} {k : Int} {i : Nat}

/-- The argument at a place: in one of some registers, or in a row of words after those. -/
def received (values : R → Word) (memory : ByteMemory) (base : Word) (regs : List R) (k : Int)
    (i : Nat) : Word :=
  match regs[i]? with
  | some r => values r
  | none => memory.readWord (place base (k + 8 * (i - regs.length : Nat)))

/-- Arguments above a pointer are not affected by writes below it. -/
lemma received_congr {writes : List (Word × Word)} (written : memory' = memory.writeAll writes)
    (same : ∀ r ∈ regs, values' r = values r)
    (below : ∀ p ∈ writes, ∃ l : Int, p.1 = place base l ∧ -2 ^ 62 ≤ l ∧ l + 8 ≤ 0)
    (above : 0 ≤ k) (small : k + 8 * i ≤ 2 ^ 61) :
    received values' memory' base regs k i = received values memory base regs k i := by
  unfold received
  split
  case h_1 r stands => exact same r (List.mem_of_getElem? stands)
  case h_2 =>
    rw [written]
    refine readWord_writeAll_of_disjoint fun p mem => ?_
    obtain ⟨l, at_, low, high⟩ := below p mem
    rw [at_]
    exact disjoint_span_place (by omega) (by omega) (by omega) (by omega) (.inr (by omega))

end Received

/-! ### Processors -/

/-- A processor and a calling convention, as the frames of methods see them. -/
structure FrameModel (R F S : Type) where
  regs : S → R → Word
  floats : S → F → Word
  memory : S → ByteMemory
  stackPointer : S → Word
  framePointer : S → Word
  /-- Where the method returns to, on entry and when its frame has been closed. -/
  returnAddress : S → Word
  /-- The stack pointer before the call that entered the method. -/
  caller : S → Word
  /-- An argument on entry. -/
  argument : S → FrameSlot → Word
  /-- The address of a slot, inside the frame. -/
  slotAddress : S → Nat → Word
  /-- The words that opening a frame saves, at distances from the caller's stack pointer. -/
  pushed : S → List (Int × Word)
  /-- The distances of the words that the call has saved. -/
  kept : List Int
  /-- The bytes of saved words, above the slots. -/
  savedBytes : Nat
  /-- The bytes for the slots of a method, by its number of locals. -/
  slotBytes : Nat → Nat
  /-- Do slots go upwards from the low end, or downwards from the saved words? -/
  slotsUp : Bool
  /-- The bytes for the arguments of a call. -/
  callBytes : Nat
  /-- The float registers that code may write. -/
  writable : F → Prop
  /-- The registers that belong to the caller. -/
  calleeSaved : List R
  calleeSavedFloats : F → Prop
  lowers : Operation R F → List Piece → Prop
  /-- Pieces, wherever they stand in code, take a state to another. -/
  runs : List Piece → S → S → Prop
  callPiece : Piece
  returnPiece : Piece

namespace FrameModel

variable {R F S : Type}

/-! ### Specification -/

section Specification

variable (m : FrameModel R F S) (locals : Nat)

def frameBytes : Nat := m.savedBytes + m.slotBytes locals

/-- The addresses of a frame. -/
def frame (s : S) : Set Word := span (place (m.caller s) (-m.frameBytes locals))
    (m.frameBytes locals)

/-- The words that a method must give back, at distances from the caller's stack pointer. -/
def savedWords (s : S) : List (Int × Word) :=
  m.pushed s ++ m.kept.map fun k => (k, (m.memory s).readWord (place (m.caller s) k))

/-- What a caller promises: it is aligned, and the two words that the method publishes are apart
from each other and from the frame. -/
structure Entry (s : S) : Prop where
  aligned : 16 ∣ Word.toUnsigned (m.caller s)
  localsOut : Disjoint (span (m.argument s .localsOut) 8) (m.frame locals s)
  localsCount : Disjoint (span (m.argument s .localsCount) 8) (m.frame locals s)
  apart : Disjoint (span (m.argument s .localsOut) 8) (span (m.argument s .localsCount) 8)

/-- A frame that has been opened. -/
structure Opened (s t : S) : Prop where
  stackPointer : m.stackPointer t = place (m.caller s) (-m.frameBytes locals)
  framePointer : m.framePointer t = place (m.caller s) (-16)
  floats : ∀ x, ¬m.writable x → m.floats t x = m.floats s x
  saved : ∀ p ∈ m.savedWords s, (m.memory t).readWord (place (m.caller s) p.1) = p.2
  arguments : ∀ arg : FrameSlot, (m.memory t).readWord (m.slotAddress t arg.index) =
    m.argument s arg
  cleared : ∀ i < locals, (m.memory t).readWord (m.slotAddress t (localSlot i)) = 0
  count : (m.memory t).readWord (m.argument s .localsCount) = Word.ofNat locals
  region : ∃ first, (m.memory t).readWord (m.argument s .localsOut) =
    (if locals = 0 then 0 else first) ∧
    ∀ i < locals, span (m.slotAddress t (localSlot i)) 8 ⊆ span first (8 * locals)
  elsewhere : ∀ a, a ∉ m.frame locals s → a ∉ span (m.argument s .localsOut) 8 →
    a ∉ span (m.argument s .localsCount) 8 → m.memory t a = m.memory s a

/-- Nothing in an open frame overlaps. -/
structure LaidOut (s t : S) : Prop where
  slots : ∀ i < frameSlots locals, ∀ j < frameSlots locals, i ≠ j →
    Disjoint (span (m.slotAddress t i) 8) (span (m.slotAddress t j) 8)
  inside : ∀ i < frameSlots locals, span (m.slotAddress t i) 8 ⊆ span (m.stackPointer t)
    (m.slotBytes locals)
  saved : ∀ i < frameSlots locals, ∀ p ∈ m.savedWords s,
    Disjoint (span (m.slotAddress t i) 8) (span (place (m.caller s) p.1) 8)
  outgoing : ∀ i < frameSlots locals,
    Disjoint (span (m.slotAddress t i) 8)
      (span (place (m.stackPointer t) (-m.callBytes)) m.callBytes)
  savedOutgoing : ∀ p ∈ m.savedWords s,
    Disjoint (span (place (m.caller s) p.1) 8)
      (span (place (m.stackPointer t) (-m.callBytes)) m.callBytes)

/-- One state leads to another by writes to the slots of a frame, to memory outside it and to
registers, but not to the stack pointer, the frame pointer and the float registers that code may not
write. -/
structure Spares (s t u v : S) : Prop where
  stackPointer : m.stackPointer v = m.stackPointer u
  framePointer : m.framePointer v = m.framePointer u
  floats : ∀ x, ¬m.writable x → m.floats v x = m.floats u x
  memory : ∀ a ∈ m.frame locals s, (∀ i < frameSlots locals, a ∉ span (m.slotAddress t i) 8) →
    m.memory v a = m.memory u a

/-- What is the caller's is back. -/
structure Restored (s v : S) : Prop where
  stackPointer : m.stackPointer v = m.stackPointer s
  framePointer : m.framePointer v = m.framePointer s
  regs : ∀ r ∈ m.calleeSaved, m.regs v r = m.regs s r
  floats : ∀ x, m.calleeSavedFloats x → m.floats v x = m.floats s x
  returnAddress : m.returnAddress v = m.returnAddress s

/-- Frames are well formed.  In each part `s` is the state on entry, `t` that after the frame has
been opened, and `u` any state that the body of the method has reached. -/
structure WellFormed : Prop where
  opens : ∃ opening, m.lowers (.prologue locals) opening ∧ ∀ {s}, m.Entry locals s →
    ∃ t, m.runs opening s t ∧ m.Opened locals s t
  layout : ∀ {s t}, m.Opened locals s t → m.LaidOut locals s t
  /-- Calls are aligned, their arguments are below the frame, and after the callee the body goes
  on. -/
  calls : ∀ tag address ip onHalt, ∃ lead tail branch,
    m.lowers (.callRuntime tag address ip onHalt) (lead ++ [m.callPiece] ++ tail ++ [branch]) ∧
    ∀ {s t u}, m.Entry locals s → m.Opened locals s t → m.Spares locals s t t u →
      ∃ v, m.runs lead u v ∧ m.stackPointer v = place (m.stackPointer t) (-m.callBytes) ∧
        16 ∣ Word.toUnsigned (m.stackPointer v) ∧
        (∀ a, a ∉ span (m.stackPointer v) m.callBytes → m.memory v a = m.memory u a) ∧
        ∀ {w}, m.Spares locals s t v w → ∃ x, m.runs tail w x ∧ m.Spares locals s t t x
  closes : ∃ closing, m.lowers .teardown (closing ++ [m.returnPiece]) ∧
    ∀ {s t u}, m.Opened locals s t → m.Spares locals s t t u → ∃ v, m.runs closing u v ∧
    m.Restored s v

/-! ### What the code does -/

/-- The distance of a slot from the caller's stack pointer. -/
def slotDistance (index : Nat) : Int :=
  if m.slotsUp then -m.frameBytes locals + 8 * index else -m.savedBytes - 8 * (index + 1)

def lowestLocal : Nat := localSlot (if m.slotsUp then 0 else locals - 1)

/-- Where a slot is, by the caller's stack pointer. -/
def slotPlace (s : S) (index : Nat) : Word := place (m.caller s) (m.slotDistance locals index)

/-- The words that opening a frame saves, and the arguments. -/
def firstWords (s : S) : List (Int × Word) :=
  m.pushed s ++ FrameSlot.all.map fun arg => (m.slotDistance locals arg.index, m.argument s arg)

/-- What a method publishes: where its locals are, and how many. -/
def published (s : S) : List (Word × Word) :=
  [(m.argument s .localsOut, if locals = 0 then 0 else m.slotPlace locals s (m.lowestLocal locals)),
    (m.argument s .localsCount, Word.ofNat locals)]

/-- The locals. -/
def zeros : List (Int × Word) := (List.range locals).map
    fun i => (m.slotDistance locals (localSlot i), 0)

/-- The address of a word at a distance from the caller's stack pointer. -/
def placed (s : S) (p : Int × Word) : Word × Word := (place (m.caller s) p.1, p.2)

/-- What opening a frame writes, in order. -/
def openingWrites (s : S) : List (Word × Word) :=
  (m.firstWords locals s).map (m.placed s) ++ m.published locals s ++ (m.zeros locals).map
    (m.placed s)

/-- Two words at distances from a pointer do not overlap. -/
def Apart (k l : Int) : Prop := k + 8 ≤ l ∨ l + 8 ≤ k

instance (k l : Int) : Decidable (Apart k l) := inferInstanceAs (Decidable (_ ∨ _))

/-- The numbers that the layout of a frame rests on. -/
structure Fits : Prop where
  small : m.frameBytes locals + m.callBytes ≤ 2 ^ 62
  aligned : 16 ∣ m.frameBytes locals
  callAligned : 16 ∣ m.callBytes
  room : 8 * frameSlots locals ≤ m.slotBytes locals
  savedApart : ∀ s, ((m.pushed s).map Prod.fst ++ m.kept).Pairwise Apart
  savedInside : ∀ s, ∀ k ∈ (m.pushed s).map Prod.fst ++ m.kept, -(m.savedBytes : Int) ≤ k ∧
    k + 8 ≤ 0

/-- What the code of a processor does to registers and memory. -/
structure Lawful : Prop extends m.Fits locals where
  slotAddress : ∀ {s t}, m.stackPointer t = place (m.caller s) (-m.frameBytes locals) →
    m.framePointer t = place (m.caller s) (-16) → ∀ i < frameSlots locals,
    m.slotAddress t i = m.slotPlace locals s i
  opens : ∃ opening, m.lowers (.prologue locals) opening ∧ ∀ {s}, m.Entry locals s →
    ∃ t, m.runs opening s t ∧ m.stackPointer t = place (m.caller s) (-m.frameBytes locals) ∧
      m.framePointer t = place (m.caller s) (-16) ∧
      (∀ x, ¬m.writable x → m.floats t x = m.floats s x) ∧
      m.memory t = (m.memory s).writeAll (m.openingWrites locals s)
  calls : ∀ tag address ip onHalt, ∃ lead tail branch,
    m.lowers (.callRuntime tag address ip onHalt) (lead ++ [m.callPiece] ++ tail ++ [branch]) ∧
    (∀ u, ∃ v, m.runs lead u v ∧ m.stackPointer v = place (m.stackPointer u) (-m.callBytes) ∧
      m.framePointer v = m.framePointer u ∧ (∀ x, ¬m.writable x → m.floats v x = m.floats u x) ∧
      ∀ a, a ∉ span (m.stackPointer v) m.callBytes → m.memory v a = m.memory u a) ∧
    ∀ w, ∃ x, m.runs tail w x ∧ m.stackPointer x = place (m.stackPointer w) m.callBytes ∧
      m.framePointer x = m.framePointer w ∧ (∀ y, ¬m.writable y → m.floats x y = m.floats w y) ∧
      m.memory x = m.memory w
  closes : ∃ closing, m.lowers .teardown (closing ++ [m.returnPiece]) ∧
    ∀ {s u}, m.framePointer u = place (m.caller s) (-16) →
      (∀ p ∈ m.savedWords s, (m.memory u).readWord (place (m.caller s) p.1) = p.2) →
      (∀ x, ¬m.writable x → m.floats u x = m.floats s x) → ∃ v, m.runs closing u v ∧ m.Restored s v

/-- A word at a distance from the caller's stack pointer is in the frame. -/
def InFrame (k : Int) : Prop := -(m.frameBytes locals : Int) ≤ k ∧ k + 8 ≤ 0

end Specification

/-! ### Layout -/

section Slots

variable {m : FrameModel R F S} {locals : Nat} {s t : S} {i j : Nat}

lemma slotDistance_apart (ne : i ≠ j) :
    Apart (m.slotDistance locals i) (m.slotDistance locals j) := by
  unfold slotDistance Apart
  split <;> omega

lemma index_lt_frameSlots (arg : FrameSlot) : arg.index < frameSlots locals := by
  have lt : arg.index < localsBase := by cases arg <;> decide
  exact Nat.lt_of_lt_of_le lt (Nat.le_add_right _ _)

lemma localSlot_lt (lt : i < locals) : localSlot i < frameSlots locals := Nat.add_lt_add_left lt _

lemma index_ne_localSlot (arg : FrameSlot) (i : Nat) : arg.index ≠ localSlot i := by
  have lt : arg.index < localsBase := by cases arg <;> decide
  unfold localSlot
  omega

lemma argument_mem_firstWords (s : S) (arg : FrameSlot) :
    (m.slotDistance locals arg.index, m.argument s arg) ∈ m.firstWords locals s := by
  have listed : arg ∈ FrameSlot.all := by cases arg <;> decide
  exact List.mem_append_right _ (List.mem_map.2 ⟨arg, listed, rfl⟩)

lemma mem_openingWrites {q : Word × Word} (mem : q ∈ m.openingWrites locals s) :
    (∃ p ∈ m.firstWords locals s ++ m.zeros locals, m.placed s p = q) ∨
    q ∈ m.published locals s := by
  rcases List.mem_append.1 mem with mem | inZeros
  · rcases List.mem_append.1 mem with inFirst | inPublished
    · obtain ⟨p, word, same⟩ := List.mem_map.1 inFirst
      exact .inl ⟨p, List.mem_append_left _ word, same⟩
    · exact .inr inPublished
  · obtain ⟨p, word, same⟩ := List.mem_map.1 inZeros
    exact .inl ⟨p, List.mem_append_right _ word, same⟩

lemma Opened.place_outgoing (opened : m.Opened locals s t) :
    place (m.stackPointer t) (-m.callBytes) = place (m.caller s)
    (-m.frameBytes locals - m.callBytes) := by
  rw [opened.stackPointer, place_add]
  rfl

end Slots

namespace Fits

variable {m : FrameModel R F S} {locals : Nat} {s t u : S} {i j : Nat} {k l : Int} {p : Int × Word}

variable (fits : m.Fits locals)
include fits

lemma slotDistance_bounds (lt : i < frameSlots locals) :
    -(m.frameBytes locals : Int) ≤ m.slotDistance locals i ∧
    m.slotDistance locals i + 8 ≤ -m.savedBytes := by
  have room := fits.room
  unfold slotDistance frameBytes
  split <;> omega

lemma inFrame_slot (lt : i < frameSlots locals) : m.InFrame locals (m.slotDistance locals i) := by
  have bounds := fits.slotDistance_bounds lt
  unfold InFrame
  omega

lemma saved_bounds (mem : p ∈ m.savedWords s) : -(m.savedBytes : Int) ≤ p.1 ∧ p.1 + 8 ≤ 0 := by
  apply fits.savedInside s
  rcases List.mem_append.1 mem with pushed | kept
  · exact List.mem_append_left _ (List.mem_map_of_mem pushed)
  · obtain ⟨k, listed, rfl⟩ := List.mem_map.1 kept
    exact List.mem_append_right _ listed

lemma inFrame_saved (mem : p ∈ m.savedWords s) : m.InFrame locals p.1 := by
  have bounds := fits.saved_bounds mem
  unfold InFrame frameBytes
  omega

lemma disjoint (here : m.InFrame locals k) (there : m.InFrame locals l) (apart : Apart k l)
    (base : Word) : Disjoint (span (place base k) 8) (span (place base l) 8) := by
  have small := fits.small
  obtain ⟨low, high⟩ := here
  obtain ⟨low', high'⟩ := there
  exact disjoint_span_place (by omega) (by omega) (by omega) (by omega) apart

lemma span_subset_frame (inFrame : m.InFrame locals k) (s : S) :
    span (place (m.caller s) k) 8 ⊆ m.frame locals s := by
  have small := fits.small
  obtain ⟨low, high⟩ := inFrame
  exact span_place_subset (by omega) (by omega) (by omega) (by omega)

lemma slot_apart_saved (lt : i < frameSlots locals)
    (mem : p ∈ m.savedWords s) : Apart (m.slotDistance locals i) p.1 := by
  have slot := fits.slotDistance_bounds lt
  have saved := fits.saved_bounds mem
  unfold Apart
  omega

/-! ### Opening a frame -/

/-- The words in the frame that opening it writes. -/
lemma words_apart (s : S) : (m.firstWords locals s ++ m.zeros locals).Pairwise
    fun p q => Apart p.1 q.1 := by
  have savedApart := (List.pairwise_append.1 (fits.savedApart s)).1
  have order : FrameSlot.all.Pairwise fun a b => a.index ≠ b.index := by decide
  have saved {p : Int × Word} (mem : p ∈ m.pushed s) : p ∈ m.savedWords s :=
    List.mem_append_left _ mem
  refine List.pairwise_append.2 ⟨List.pairwise_append.2 ⟨?_, ?_, ?_⟩, ?_, ?_⟩
  · exact List.pairwise_map.1 savedApart
  · exact List.pairwise_map.2 (order.imp slotDistance_apart)
  · rintro p mem _ inArgs
    obtain ⟨arg, -, rfl⟩ := List.mem_map.1 inArgs
    exact (fits.slot_apart_saved (index_lt_frameSlots arg) (saved mem)).symm
  · exact List.pairwise_map.2 (List.pairwise_lt_range.imp fun lt => slotDistance_apart
      (by unfold localSlot; omega))
  · rintro p mem _ inZeros
    obtain ⟨i, inRange, rfl⟩ := List.mem_map.1 inZeros
    rcases List.mem_append.1 mem with mem | inArgs
    · exact (fits.slot_apart_saved (localSlot_lt (List.mem_range.1 inRange)) (saved mem)).symm
    · obtain ⟨arg, -, rfl⟩ := List.mem_map.1 inArgs
      exact slotDistance_apart (index_ne_localSlot arg i)

lemma words_inFrame (mem : p ∈ m.firstWords locals s ++ m.zeros locals) : m.InFrame locals p.1 := by
  rcases List.mem_append.1 mem with mem | inZeros
  · rcases List.mem_append.1 mem with pushed | inArgs
    · exact fits.inFrame_saved (List.mem_append_left _ pushed)
    · obtain ⟨arg, -, rfl⟩ := List.mem_map.1 inArgs
      exact fits.inFrame_slot (index_lt_frameSlots arg)
  · obtain ⟨i, inRange, rfl⟩ := List.mem_map.1 inZeros
    exact fits.inFrame_slot (localSlot_lt (List.mem_range.1 inRange))

/-- The words that the call has saved are not written. -/
lemma kept_apart (kept : k ∈ m.kept) (mem : p ∈ m.firstWords locals s ++ m.zeros locals) :
    Apart k p.1 := by
  have saved : (k, (m.memory s).readWord (place (m.caller s) k)) ∈ m.savedWords s :=
    List.mem_append_right _ (List.mem_map_of_mem kept)
  have between := (List.pairwise_append.1 (fits.savedApart s)).2.2
  rcases List.mem_append.1 mem with mem | inZeros
  · rcases List.mem_append.1 mem with pushed | inArgs
    · exact (between p.1 (List.mem_map_of_mem pushed) k kept).symm
    · obtain ⟨arg, -, rfl⟩ := List.mem_map.1 inArgs
      exact (fits.slot_apart_saved (index_lt_frameSlots arg) saved).symm
  · obtain ⟨i, inRange, rfl⟩ := List.mem_map.1 inZeros
    exact (fits.slot_apart_saved (localSlot_lt (List.mem_range.1 inRange)) saved).symm

lemma disjoint_published (entry : m.Entry locals s) (inFrame : m.InFrame locals k) {q : Word × Word}
    (mem : q ∈ m.published locals s) : Disjoint (span (place (m.caller s) k) 8)
    (span q.1 8) := by
  have inside := fits.span_subset_frame inFrame s
  simp only [published, List.mem_cons, List.not_mem_nil, or_false] at mem
  rcases mem with rfl | rfl
  · exact (entry.localsOut.mono_right inside).symm
  · exact (entry.localsCount.mono_right inside).symm

/-- No word that opening a frame writes overlaps another. -/
lemma openingWrites_apart (entry : m.Entry locals s) :
    (m.openingWrites locals s).Pairwise fun p q => Disjoint (span p.1 8) (span q.1 8) := by
  have disjoint {p q : Int × Word} (here : p ∈ m.firstWords locals s ++ m.zeros locals)
      (there : q ∈ m.firstWords locals s ++ m.zeros locals) (apart : Apart p.1 q.1) :
      Disjoint (span (m.placed s p).1 8) (span (m.placed s q).1 8) :=
    fits.disjoint (fits.words_inFrame here) (fits.words_inFrame there) apart _
  obtain ⟨first, zeros, between⟩ := List.pairwise_append.1 (fits.words_apart s)
  have left {p : Int × Word} (mem : p ∈ m.firstWords locals s) :
    p ∈ m.firstWords locals s ++ m.zeros locals :=
    List.mem_append_left _ mem
  have right {p : Int × Word} (mem : p ∈ m.zeros locals) :
    p ∈ m.firstWords locals s ++ m.zeros locals :=
    List.mem_append_right _ mem
  refine List.pairwise_append.2 ⟨List.pairwise_append.2 ⟨?_, ?_, ?_⟩, ?_, ?_⟩
  · exact List.pairwise_map.2 (first.imp_of_mem fun here there apart => disjoint (left here)
      (left there) apart)
  · exact List.pairwise_cons.2 ⟨by simpa using entry.apart, List.pairwise_singleton _ _⟩
  · rintro _ inFirst q inPublished
    obtain ⟨p, mem, rfl⟩ := List.mem_map.1 inFirst
    exact fits.disjoint_published entry (fits.words_inFrame (left mem)) inPublished
  · exact List.pairwise_map.2 (zeros.imp_of_mem fun here there apart => disjoint (right here)
      (right there) apart)
  · rintro p mem _ inZeros
    obtain ⟨q, zero, rfl⟩ := List.mem_map.1 inZeros
    rcases List.mem_append.1 mem with inFirst | inPublished
    · obtain ⟨p, word, rfl⟩ := List.mem_map.1 inFirst
      exact disjoint (left word) (right zero) (between p word q zero)
    · exact (fits.disjoint_published entry (fits.words_inFrame (right zero)) inPublished).symm

lemma local_subset_region (s : S) (lt : i < locals) :
    span (m.slotPlace locals s (localSlot i)) 8 ⊆ span (m.slotPlace locals s (m.lowestLocal locals))
    (8 * locals) := by
  have small := fits.small
  have room := fits.room
  unfold slotPlace slotDistance lowestLocal localSlot frameBytes frameSlots at *
  split <;> exact span_place_subset (by omega) (by omega) (by omega) (by omega)

/-- An argument can be read from its slot as soon as the arguments have been stored. -/
lemma readWord_argument (s : S) (arg : FrameSlot) :
    ((m.memory s).writeAll ((m.firstWords locals s).map (m.placed s))).readWord
      (m.slotPlace locals s arg.index) = m.argument s arg := by
  have written : (m.slotPlace locals s arg.index, m.argument s arg) ∈ (m.firstWords locals s).map
    (m.placed s) :=
    List.mem_map.2 ⟨_, argument_mem_firstWords s arg, rfl⟩
  have apart : ((m.firstWords locals s).map (m.placed s)).Pairwise fun p q => Disjoint (span p.1 8)
    (span q.1 8) := by
    refine List.pairwise_map.2 ((List.pairwise_append.1 (fits.words_apart s)).1.imp_of_mem
      fun here there apart => ?_)
    exact fits.disjoint (fits.words_inFrame (List.mem_append_left _ here))
      (fits.words_inFrame (List.mem_append_left _ there)) apart _
  exact readWord_writeAll apart written

/-- So it can after one of the published words has been written. -/
lemma readWord_argument_published (entry : m.Entry locals s) (arg : FrameSlot) (value : Word) :
    (((m.memory s).writeAll ((m.firstWords locals s).map (m.placed s))).writeWord
      (m.argument s .localsOut) value).readWord (m.slotPlace locals s arg.index) =
        m.argument s arg := by
  have inside := fits.span_subset_frame (fits.inFrame_slot (index_lt_frameSlots arg)) s
  exact (readWord_writeWord_of_disjoint (entry.localsOut.mono_right inside).symm).trans
    (fits.readWord_argument s arg)

/-- Where a caller keeps the two published words above its own stack pointer. -/
lemma entry_of_above (aligned : 16 ∣ Word.toUnsigned (m.caller s))
    (out : m.argument s .localsOut = place (m.caller s) k)
    (count : m.argument s .localsCount = place (m.caller s) l) (outAbove : 0 ≤ k)
    (outSmall : k + 8 ≤ 2 ^ 62) (countAbove : 0 ≤ l) (countSmall : l + 8 ≤ 2 ^ 62)
    (apart : Apart k l) : m.Entry locals s := by
  have small := fits.small
  refine ⟨aligned, ?_, ?_, ?_⟩
  · rw [out]
    exact disjoint_span_place (by omega) (by omega) (by omega) (by omega) (.inr (by omega))
  · rw [count]
    exact disjoint_span_place (by omega) (by omega) (by omega) (by omega) (.inr (by omega))
  · rw [out, count]
    exact disjoint_span_place (by omega) (by omega) (by omega) (by omega) apart

end Fits

/-! ### Inside a frame -/

namespace Lawful

variable {m : FrameModel R F S} {locals : Nat} {s t u : S}

variable (law : m.Lawful locals)
include law

/-- A frame has been opened when its words have been written and the pointers have been moved. -/
lemma opened (entry : m.Entry locals s)
    (stackPointer : m.stackPointer t = place (m.caller s) (-m.frameBytes locals))
    (framePointer : m.framePointer t = place (m.caller s) (-16))
    (floats : ∀ x, ¬m.writable x → m.floats t x = m.floats s x)
    (memory : m.memory t = (m.memory s).writeAll (m.openingWrites locals s)) :
    m.Opened locals s t := by
  have address {i : Nat} (lt : i < frameSlots locals) :
    m.slotAddress t i = m.slotPlace locals s i :=
    law.slotAddress stackPointer framePointer i lt
  have written {a value : Word} (mem : (a, value) ∈ m.openingWrites locals s) :
    (m.memory t).readWord a = value :=
    memory ▸ readWord_writeAll (law.openingWrites_apart entry) mem
  have inFirst {p : Int × Word} (mem : p ∈ m.firstWords locals s) :
    m.placed s p ∈ m.openingWrites locals s :=
    List.mem_append_left _ (List.mem_append_left _ (List.mem_map_of_mem mem))
  have inPublished {q : Word × Word} (mem : q ∈ m.published locals s) :
    q ∈ m.openingWrites locals s :=
    List.mem_append_left _ (List.mem_append_right _ mem)
  refine ⟨stackPointer, framePointer, floats, fun p mem => ?_, fun arg => ?_, fun i lt => ?_, ?_,
    ?_, ?_⟩
  · rcases List.mem_append.1 mem with pushed | kept
    · have stored : m.placed s p ∈ m.openingWrites locals s :=
        inFirst (List.mem_append_left _ pushed)
      exact written stored
    · obtain ⟨k, inKept, rfl⟩ := List.mem_map.1 kept
      rw [memory, readWord_writeAll_of_disjoint]
      intro q written
      rcases mem_openingWrites written with ⟨p, word, rfl⟩ | inPublished
      · exact law.disjoint (law.inFrame_saved mem) (law.words_inFrame word)
          (law.kept_apart inKept word) _
      · exact law.disjoint_published entry (law.inFrame_saved mem) inPublished
  · rw [address (index_lt_frameSlots arg)]
    have stored := inFirst (argument_mem_firstWords s arg)
    exact written stored
  · rw [address (localSlot_lt lt)]
    have zero : (m.slotDistance locals (localSlot i), 0) ∈ m.zeros locals :=
      List.mem_map.2 ⟨i, List.mem_range.2 lt, rfl⟩
    exact written (List.mem_append_right _ (List.mem_map.2 ⟨_, zero, rfl⟩))
  · have counted : (m.argument s .localsCount, Word.ofNat locals) ∈ m.published locals s := by
      simp [published]
    exact written (inPublished counted)
  · refine ⟨m.slotPlace locals s (m.lowestLocal locals), written (inPublished (.head _)),
      fun i lt => ?_⟩
    rw [address (localSlot_lt lt)]
    exact law.local_subset_region s lt
  · intro a outside notOut notCount
    rw [memory, writeAll_of_not_mem]
    intro q written
    rcases mem_openingWrites written with ⟨p, word, rfl⟩ | inPublished
    · exact fun inside => outside (law.span_subset_frame (law.words_inFrame word) s inside)
    · simp only [published, List.mem_cons, List.not_mem_nil, or_false] at inPublished
      rcases inPublished with rfl | rfl
      · exact notOut
      · exact notCount

variable (opened : m.Opened locals s t)
include opened

/-- The frame is laid out by its distances from the caller's stack pointer. -/
lemma laidOut : m.LaidOut locals s t := by
  have small := law.small
  have address {i : Nat} (lt : i < frameSlots locals) :
      m.slotAddress t i = place (m.caller s) (m.slotDistance locals i) :=
    law.slotAddress opened.stackPointer opened.framePointer i lt
  have below := opened.place_outgoing
  constructor
  · intro i lt j lt' ne
    rw [address lt, address lt']
    exact law.disjoint (law.inFrame_slot lt) (law.inFrame_slot lt') (slotDistance_apart ne) _
  · intro i lt
    have bounds := law.slotDistance_bounds lt
    rw [address lt, opened.stackPointer]
    unfold frameBytes at *
    exact span_place_subset (by omega) (by omega) (by omega) (by omega)
  · intro i lt p mem
    rw [address lt]
    exact law.disjoint (law.inFrame_slot lt) (law.inFrame_saved mem) (law.slot_apart_saved lt mem) _
  · intro i lt
    have bounds := law.slotDistance_bounds lt
    rw [address lt, below]
    exact disjoint_span_place (by omega) (by omega) (by omega) (by omega) (.inr (by omega))
  · intro p mem
    obtain ⟨low, high⟩ := law.inFrame_saved mem
    rw [below]
    exact disjoint_span_place (by omega) (by omega) (by omega) (by omega) (.inr (by omega))

/-- A body leaves the saved words alone. -/
lemma saved_of_spares (spares : m.Spares locals s t t u)
    {p : Int × Word} (mem : p ∈ m.savedWords s) :
    (m.memory u).readWord (place (m.caller s) p.1) = p.2 := by
  rw [← opened.saved p mem]
  refine readWord_congr fun a inWord => spares.memory a
    (law.span_subset_frame (law.inFrame_saved mem) s inWord) ?_
  intro i lt inSlot
  exact Set.disjoint_left.1 ((law.laidOut opened).saved i lt p mem) inSlot inWord

lemma not_mem_outgoing {a : Word} (inFrame : a ∈ m.frame locals s) :
    a ∉ span (place (m.stackPointer t) (-m.callBytes)) m.callBytes := by
  have small := law.small
  have apart : Disjoint (m.frame locals s)
    (span (place (m.stackPointer t) (-m.callBytes)) m.callBytes) := by
    rw [opened.place_outgoing]
    exact disjoint_span_place (by omega) (by omega) (by omega) (by omega) (.inr (by omega))
  exact Set.disjoint_left.1 apart inFrame

end Lawful

/-! ### Code for frames -/

section Code

variable {I : Type} {runs : List I → S → S → Prop} {m : FrameModel R F S} {locals : Nat}
  {s t u v : S} {enter publish clear code code' : List I} {store : FrameSlot → List I}
  {argRegs moved scratch scratch' : List R} {shadow : Nat} {ready : S → Prop}
  {writes : List (Word × Word)}

/-- The pointers of an open frame. -/
structure Pointed (m : FrameModel R F S) (locals : Nat) (s t : S) : Prop where
  stackPointer : m.stackPointer t = place (m.caller s) (-m.frameBytes locals)
  framePointer : m.framePointer t = place (m.caller s) (-16)

/-- The code that opens a frame in its parts: it saves registers and moves the pointers, stores the
arguments, publishes the locals, after which the processor is ready to clear them, and clears
them. -/
structure OpeningParts (m : FrameModel R F S) (locals : Nat) (runs : List I → S → S → Prop)
    (enter : List I) (store : FrameSlot → List I) (publish clear : List I)
    (argRegs moved scratch scratch' : List R) (shadow : Nat) (ready : S → Prop) : Prop where
  argument : ∀ s arg, m.argument s arg = received (m.regs s) (m.memory s) (m.caller s) argRegs
    shadow arg.index
  shadow_le : shadow ≤ 2 ^ 20
  apart : ∀ r ∈ argRegs, r ∉ moved ∧ r ∉ scratch
  scratch_subset : scratch ⊆ scratch'
  pointed : ∀ {s t u writes}, Writes m.regs m.floats m.memory scratch' writes t u →
    m.Pointed locals s t →
    m.Pointed locals s u
  enter : ∀ s, ∃ t, Straight runs m.regs m.floats m.memory enter moved
    ((m.pushed s).map (m.placed s)) s t ∧
    m.Pointed locals s t
  store : ∀ arg {s t}, m.Pointed locals s t → ∃ u, Straight runs m.regs m.floats m.memory
    (store arg) scratch [(m.slotPlace locals s arg.index, received (m.regs t) (m.memory t)
      (m.caller s) argRegs shadow arg.index)] t u
  publish : ∀ {s t}, m.Pointed locals s t →
    (m.memory t).readWord (m.slotPlace locals s FrameSlot.localsOut.index) =
      m.argument s .localsOut →
    (∀ value, ((m.memory t).writeWord (m.argument s .localsOut) value).readWord
      (m.slotPlace locals s FrameSlot.localsCount.index) = m.argument s .localsCount) →
    ∃ u, Straight runs m.regs m.floats m.memory publish scratch' (m.published locals s) t u ∧
    ready u
  clear : ∀ {s t}, m.Pointed locals s t → ready t →
    ∃ u, Straight runs m.regs m.floats m.memory clear scratch'
      ((m.zeros locals).map (m.placed s)) t u

/-- Opening a frame moves the pointers and writes its words. -/
lemma OpeningParts.exists_opened [sequential : Sequential runs]
    (parts : m.OpeningParts locals runs enter store publish clear argRegs moved scratch scratch'
      shadow ready) (fits : m.Fits locals) (entry : m.Entry locals s) :
    ∃ t, runs (enter ++ (FrameSlot.all.flatMap store ++ (publish ++ clear))) s t ∧
    m.Pointed locals s t ∧
      m.floats t = m.floats s ∧ m.memory t = (m.memory s).writeAll (m.openingWrites locals s) := by
  obtain ⟨entered, enters, pointed⟩ := parts.enter s
  let slots := FrameSlot.all.flatMap fun arg => [(m.slotPlace locals s arg.index, m.argument s arg)]
  have firstWords : (m.firstWords locals s).map (m.placed s) = (m.pushed s).map (m.placed s) ++
    slots :=
    List.map_append
  -- Arguments are where they were: whatever has been written is below them.
  have same (arg : FrameSlot) {before : List (Word × Word)} {t : S} (inSlots : before ⊆ slots)
      (written : Writes m.regs m.floats m.memory scratch before entered t) :
      received (m.regs t) (m.memory t) (m.caller s) argRegs shadow arg.index =
        m.argument s arg := by
    have total : m.memory t = (m.memory s).writeAll ((m.pushed s).map (m.placed s) ++ before) := by
      rw [writeAll_append, ← enters.memory, written.memory]
    have index : arg.index < 11 := by cases arg <;> decide
    have small := parts.shadow_le
    rw [parts.argument]
    refine received_congr total (fun r mem => ?_) (fun p mem => ?_) (by omega) (by omega)
    · exact (written.regs r (parts.apart r mem).2).trans (enters.regs r (parts.apart r mem).1)
    · have inFirst : p ∈ (m.firstWords locals s).map (m.placed s) :=
        firstWords ▸ (List.mem_append.1 mem).elim (List.mem_append_left _)
          fun h => List.mem_append_right _ (inSlots h)
      obtain ⟨q, word, rfl⟩ := List.mem_map.1 inFirst
      obtain ⟨low, high⟩ := fits.words_inFrame (List.mem_append_left _ word)
      have small := fits.small
      exact ⟨q.1, rfl, by omega, high⟩
  obtain ⟨filled, fills⟩ := Straight.exists_each fun arg _ before t inSlots written => by
    have stored := parts.store arg (parts.pointed (written.mono parts.scratch_subset) pointed)
    rw [same arg inSlots written] at stored
    exact stored
  have filledMemory : m.memory filled = (m.memory s).writeAll
    ((m.firstWords locals s).map (m.placed s)) := by
    rw [fills.memory, enters.memory, firstWords, writeAll_append]
  have filledPointed := parts.pointed (fills.toWrites.mono parts.scratch_subset) pointed
  obtain ⟨published, publishes, isReady⟩ := parts.publish filledPointed
    (filledMemory ▸ fits.readWord_argument s .localsOut)
    (filledMemory ▸ fits.readWord_argument_published entry .localsCount)
  have publishedPointed := parts.pointed publishes.toWrites filledPointed
  obtain ⟨t, clears⟩ := parts.clear publishedPointed isReady
  refine ⟨t, sequential.append enters.run
    (sequential.append fills.run (sequential.append publishes.run clears.run)),
      parts.pointed clears.toWrites publishedPointed, ?_, ?_⟩
  · rw [clears.floats, publishes.floats, fills.floats, enters.floats]
  · rw [clears.memory, publishes.memory, filledMemory, openingWrites, writeAll_append,
      writeAll_append]

/-- Code up to a call moves the stack pointer down and writes the arguments above it. -/
lemma calls_of_straight [sequential : Sequential runs]
    (lowers : Straight runs m.regs m.floats m.memory code moved [] s t)
    (passes : Straight runs m.regs m.floats m.memory code' scratch writes t u)
    (down : m.stackPointer t = place (m.stackPointer s) (-m.callBytes))
    (frame : m.framePointer t = m.framePointer s)
    (pointers : m.stackPointer u = m.stackPointer t ∧ m.framePointer u = m.framePointer t)
    (inside : ∀ p ∈ writes, ∃ k : Int, p.1 = place (m.stackPointer t) k ∧ 0 ≤ k ∧
      k + 8 ≤ m.callBytes) (small : m.callBytes ≤ 2 ^ 62) :
    runs (code ++ code') s u ∧ m.stackPointer u = place (m.stackPointer s) (-m.callBytes) ∧
      m.framePointer u = m.framePointer s ∧ (∀ x, ¬m.writable x → m.floats u x = m.floats s x) ∧
      ∀ a, a ∉ span (m.stackPointer u) m.callBytes → m.memory u a = m.memory s a := by
  refine ⟨sequential.append lowers.run passes.run, pointers.1.trans down, pointers.2.trans frame,
    fun x _ => ?_, fun a outside => ?_⟩
  · rw [passes.floats, lowers.floats]
  · have untouched : m.memory t = m.memory s := lowers.memory
    rw [passes.memory, writeAll_of_not_mem, untouched]
    intro p mem
    obtain ⟨k, at_, low, high⟩ := inside p mem
    rw [at_]
    exact not_mem_span_place (pointers.1 ▸ outside) low high small

end Code

/-- **Frames are well formed** where the code of a processor does what it should. -/
lemma Lawful.wellFormed {m : FrameModel R F S} {locals : Nat} (law : m.Lawful locals) :
    m.WellFormed locals where
  opens := by
    obtain ⟨opening, lowered, runs⟩ := law.opens
    refine ⟨opening, lowered, fun entry => ?_⟩
    obtain ⟨t, run, stackPointer, framePointer, floats, memory⟩ := runs entry
    exact ⟨t, run, law.opened entry stackPointer framePointer floats memory⟩
  layout := law.laidOut
  calls tag address ip onHalt := by
    obtain ⟨lead, tail, branch, lowered, before, after⟩ := law.calls tag address ip onHalt
    refine ⟨lead, tail, branch, lowered, fun {s t u} entry opened spares => ?_⟩
    obtain ⟨v, run, stackPointer, framePointer, floats, memory⟩ := before u
    rw [spares.stackPointer] at stackPointer
    refine ⟨v, run, stackPointer, ?_, memory, fun {w} returned => ?_⟩
    · rw [stackPointer, opened.stackPointer, place_add]
      have aligned := law.aligned
      have callAligned := law.callAligned
      exact dvd_toUnsigned_place entry.aligned (by omega)
    · obtain ⟨x, run', stackPointer', framePointer', floats', memory'⟩ := after w
      refine ⟨x, run', ?_, ?_, fun y other => ?_, fun a inFrame noSlot => ?_⟩
      · rw [stackPointer', returned.stackPointer, stackPointer, place_add]
        exact (congrArg (place _) (by omega)).trans (place_zero _)
      · rw [framePointer', returned.framePointer, framePointer, spares.framePointer]
      · rw [floats' y other, returned.floats y other, floats y other, spares.floats y other]
      · rw [memory', returned.memory a inFrame noSlot,
          memory a (stackPointer ▸ law.not_mem_outgoing opened inFrame),
            spares.memory a inFrame noSlot]
  closes := by
    obtain ⟨closing, lowered, runs⟩ := law.closes
    refine ⟨closing, lowered, fun {s t u} opened spares =>
      runs ?_ (fun p mem => law.saved_of_spares opened spares mem) ?_⟩
    · rw [spares.framePointer, opened.framePointer]
    · exact fun x other => (spares.floats x other).trans (opened.floats x other)

end FrameModel

end StackMachine.Native
