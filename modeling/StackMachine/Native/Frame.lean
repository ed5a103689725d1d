/-!
# Native frames

A compiled method runs on a frame of word-sized slots: its entry arguments, a few slots that keep
register values across runtime calls, and its locals.
-/

namespace StackMachine.Native

/-- The entry arguments of a compiled method, in the order of their slots. -/
inductive FrameSlot where
  | classId | methodId | classMemory | receiver | stackBase | stackPos | context | callPos
  | localsOut | localsCount | literals
  deriving DecidableEq, Repr

namespace FrameSlot

/-- Every entry argument, in order. -/
def all : List FrameSlot :=
  [.classId, .methodId, .classMemory, .receiver, .stackBase, .stackPos, .context, .callPos,
    .localsOut, .localsCount, .literals]

/-- The slot of an entry argument. -/
def index (s : FrameSlot) : Nat := s.ctorIdx

end FrameSlot

/-- The first slot for integer registers across a runtime call. -/
def intSpillBase : Nat := 11

/-- The number of slots for integer registers. -/
def intSpillSlots : Nat := 6

/-- The first slot for float registers across a runtime call. -/
def floatSpillBase : Nat := intSpillBase + intSpillSlots

/-- The number of slots for float registers. -/
def floatSpillSlots : Nat := 4

def localsBase : Nat := floatSpillBase + floatSpillSlots

def localSlot (index : Nat) : Nat := localsBase + index

def frameSlots (locals : Nat) : Nat := localsBase + locals

/-- The locals of a method that its frame is laid out for: the number is kept in 32 bits. -/
def layoutLocals (locals : Nat) : Nat := (UInt32.ofNat locals).toNat

theorem layoutLocals_of_lt {locals : Nat} (lt : locals < UInt32.size) :
    layoutLocals locals = locals :=
  UInt32.toNat_ofNat_of_lt' lt

/-- The byte offset of the operand stack limit in an execution context. -/
def stackLimitOffset : Nat := 16

end StackMachine.Native
