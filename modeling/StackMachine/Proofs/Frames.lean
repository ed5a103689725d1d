import StackMachine.Proofs.Effects

/-!
# Taking and giving back frames

What a call does to the frames, as functions of the state.  A frame is blank when it is given back,
so that the free frames do not tell what the calls before have done.
-/

namespace StackMachine

/-! ### Free frames -/

namespace FramePool

variable {p : FramePool}

/-- The frame that is taken next. -/
def next (p : FramePool) : Frame := p.stocked.headD .blank

/-- The frames that are left then. -/
def others (p : FramePool) : FramePool := ⟨p.stocked.tail⟩

lemma acquire_eq (p : FramePool) (method : Method) (receiver : Word) :
    p.acquire method receiver = (p.next.enter? method receiver, p.others) := by
  obtain ⟨free⟩ := p
  cases free <;> rfl

/-- There is one frame less after a frame has been taken, and a batch more if there was none. -/
lemma length_others (p : FramePool) :
    p.others.free.length + 1 = p.free.length + if p.free.isEmpty then 64 else 0 := by
  obtain ⟨free⟩ := p
  cases free <;> rfl

/-- Every free frame is blank. -/
def Blank (p : FramePool) : Prop := ∀ f ∈ p.free, f = Frame.blank

/-- A frame that is taken was blank, and so are the ones that are left. -/
lemma Blank.next_others (blank : p.Blank) : p.next = .blank ∧ p.others.Blank := by
  obtain ⟨free⟩ := p
  cases free with
  | nil => exact ⟨rfl, fun f mem => List.eq_of_mem_replicate (n := 63) mem⟩
  | cons f rest =>
    obtain ⟨rfl, rest⟩ := List.forall_mem_cons.1 blank
    exact ⟨rfl, rest⟩

end FramePool

/-- A row can have the locals of a method. -/
def Method.Fits (method : Method) : Prop := method.localWords + 1 < Word.rowLimit

instance : DecidablePred Method.Fits :=
  fun method => inferInstanceAs (Decidable (method.localWords + 1 < _))

/-! ### The innermost frame -/

namespace State

variable {s : State} {outer : List Frame}

/-- The names of the active methods, innermost first. -/
def names (s : State) : List String :=
  s.context.frames.filterMap fun f => f.method.map fun m => m.qualifiedName s.machine.program

/-- The call stack is full. -/
abbrev Full (s : State) : Prop := s.machine.settings.callStackSize ≤ s.context.frames.length

/-- A method can take a frame. -/
structure Admits (s : State) (method : Method) : Prop where
  room : ¬s.Full
  fits : method.Fits

/-- The state after a frame has been taken that cannot have the locals of its method: it is lost. -/
def spoiled (s : State) :
    State := { s with machine := { s.machine with pool := s.machine.pool.others } }

/-- The state after a method has taken a frame. -/
def entered (s : State) (method : Method) (receiver : Word) : State where
  machine := { s.machine with pool := s.machine.pool.others }
  context := { s.context with
    frames := s.machine.pool.next.enter method receiver :: s.context.frames
    callPos := s.context.frames.length + 1 }

/-- The state after the innermost frame has been given back. -/
def returned (s : State) : State :=
  match s.context.frames with
  | frame :: rest =>
    { machine := { s.machine with pool := s.machine.pool.release frame }
      context := { s.context with frames := rest, callPos := rest.length } }
  | [] => { s with context := { s.context with callPos := 0 } }

/-- The shared state after a frame has been given back does not depend on the frame. -/
lemma machine_returned (framed : Ideal.Framed outer s) :
    s.returned.machine = { s.machine with pool := ⟨Frame.blank :: s.machine.pool.free⟩ } := by
  obtain ⟨f, frames⟩ := framed
  rw [returned, frames]
  rfl

/-- The context after a frame has been given back. -/
lemma context_returned (framed : Ideal.Framed outer s) :
    s.returned.context = { s.context with frames := outer, callPos := outer.length } := by
  obtain ⟨f, frames⟩ := framed
  rw [returned, frames]

end State

namespace Exec

variable {s t u : State} {body after : Exec Unit} {f : Fault}

lemma trace_eq (s : State) : trace s = .ok s.names s := rfl

/-- A method takes a frame if the call stack is not full. -/
lemma pushFrame_eq {method : Method} (receiver : Word) (admits : s.Admits method) :
    pushFrame method receiver s = .ok () (s.entered method receiver) := by
  have read : (get : Exec State) s = .ok s s := rfl
  have fits : method.localWords + 1 < Word.rowLimit := admits.fits
  rw [pushFrame, bind_of_ok read]
  dsimp only
  rw [if_neg admits.room, FramePool.acquire_eq, Frame.enter?, if_pos fits]
  rfl

/-- The runtime breaks off if a frame cannot have the locals of its method. -/
lemma pushFrame_spoiled {method : Method} (receiver : Word) (room : ¬s.Full)
    (large : ¬method.Fits) :
    pushFrame method receiver s = .error .panic s.spoiled := by
  have read : (get : Exec State) s = .ok s s := rfl
  have large : ¬method.localWords + 1 < Word.rowLimit := large
  rw [pushFrame, bind_of_ok read]
  dsimp only
  rw [if_neg room, FramePool.acquire_eq, Frame.enter?, if_neg large]
  rfl

lemma pushFrame_full (method : Method) (receiver : Word) (full : s.Full) :
    pushFrame method receiver s =
      .error (.fault ⟨.callDepthExceeded s.machine.settings.callStackSize, s.names⟩) s := by
  have read : (get : Exec State) s = .ok s s := rfl
  rw [pushFrame, bind_of_ok read]
  dsimp only
  rw [if_pos full]
  rfl

lemma popFrame_eq (s : State) : popFrame s = .ok () s.returned := by
  unfold State.returned
  show (match s.context.frames with | _ :: _ => _ | [] => _ : Exec Unit) s = _
  cases s.context.frames <;> rfl

/-- The action after a computation that answers. -/
lemma finallyTraced_ok (run : body s = .ok () t) : finallyTraced body after s = after t := by
  rw [finallyTraced, run]

/-- The action after a computation that stops with a fault. -/
lemma finallyTraced_fault (run : body s = .error (.fault f) t) (done : after t = .ok () u) :
    finallyTraced body after s = .error (.fault (f.withTrace t.names)) u := by
  rw [finallyTraced, run]
  dsimp only
  rw [trace_eq]
  dsimp only
  rw [done]

/-- There is no action after a computation that is stuck or breaks off. -/
lemma finallyTraced_stop {e : Stop} (run : body s = .error e t) (faultless : ∀ f, e ≠ .fault f) :
    finallyTraced body after s = .error e t := by
  rw [finallyTraced, run]
  cases e with
  | fault f => exact absurd rfl (faultless f)
  | panic => rfl
  | stuck => rfl

end Exec

end StackMachine
