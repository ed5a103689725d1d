import StackMachine.Program

/-!
# Frames

One frame for each active call.  Frames are reused: a free frame is blank, and taking one for a
method fills in the instance and clears its locals.  Free frames are made in batches.
-/

namespace StackMachine

/-- The record of an active call. -/
structure Frame where
  /-- The running method; a free frame has none. -/
  method : Option Method := none
  /-- The instance, followed by the locals. -/
  mem : Array Word := #[]
  /-- The next instruction, saved when the runtime is called. -/
  ip : Nat := 0
  /-- The locals that compiled code keeps in its own frame, once it has entered. -/
  nativeLocals : Option Nat := none
  deriving DecidableEq, Repr

namespace Frame

/-- A free frame. -/
def blank : Frame := {}

/-- Brings memory to a size: cut, or filled up with zeros. -/
def resize (mem : Array Word) (size : Nat) : Array Word :=
  mem.take size ++ Array.replicate (size - mem.size) 0

/-- Takes the frame into use for a call. -/
def enter (f : Frame) (method : Method) (receiver : Word) : Frame :=
  { f with
    method := some method
    mem := (resize f.mem (method.localWords + 1)).setIfInBounds 0 receiver }

/-- As `enter`, if a row can have so many words. -/
def enter? (f : Frame) (method : Method) (receiver : Word) : Option Frame :=
  if method.localWords + 1 < Word.rowLimit then some (f.enter method receiver) else none

/-- Forgets the call. -/
def reset (f : Frame) : Frame :=
  { f with method := none, mem := #[], ip := 0, nativeLocals := none }

/-- The instance of the call. -/
def receiver (f : Frame) : Word := f.mem.getD 0 0

/-- The number of locals. -/
def locals (f : Frame) : Nat := f.mem.size - 1

/-- The place of a local in the frame's memory. -/
def place? (f : Frame) (slot : Word) : Option Nat :=
  match Word.toIndex? slot with
  | some index => if index + 1 < f.mem.size then some (index + 1) else none
  | none => none

@[simp]
theorem reset_eq_blank (f : Frame) : f.reset = blank := rfl

@[simp]
theorem size_resize (mem : Array Word) (size : Nat) : (resize mem size).size = size := by
  simp [resize]
  omega

@[simp]
theorem receiver_enter (f : Frame) (method : Method) (receiver : Word) :
    (f.enter method receiver).receiver = receiver := by
  simp [enter, Frame.receiver, Array.getD]

end Frame

/-- The free frames, the one to be taken next first. -/
structure FramePool where
  free : List Frame := []
  deriving DecidableEq, Repr

namespace FramePool

/-- The frames made when there is none left. -/
def batch : Nat := 64

/-- The free frames, after making a batch if there is none. -/
def stocked (p : FramePool) : List Frame :=
  if p.free.isEmpty then List.replicate batch Frame.blank else p.free

/-- Takes a frame for a call.  It is lost if it cannot have the locals. -/
def acquire (p : FramePool) (method : Method) (receiver : Word) : Option Frame × FramePool :=
  match p.stocked with
  | f :: rest => (f.enter? method receiver, ⟨rest⟩)
  | [] => (Frame.blank.enter? method receiver, p)

/-- Makes a frame free. -/
def release (p : FramePool) (f : Frame) : FramePool := ⟨f.reset :: p.free⟩

end FramePool

end StackMachine
