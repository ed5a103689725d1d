import StackMachine.Engine.Call
import StackMachine.Proofs.RuntimeEffects

/-!
# What the engines do to the state

The interpreter and a compiled body act on the operand stack, the innermost frame and what all
threads share, and call the runtime for the rest.  A relation that holds across each of these steps
holds across every instruction and every run of compiled code (`Interpreter.does_step`,
`Native.Processor.does_run`).
-/

namespace StackMachine

namespace Exec

/-- A relation that holds from step to step of either engine: changes of the innermost frame keep to
it as well, unless they change the method or the number of words, and so do words that compiled code
writes or drops. -/
structure EngineBasis (R : State → State → Prop) (E : Stop → State → State → Prop) :
    Prop extends Basis R E where
  frame : ∀ f : Frame → Frame,
    (∀ frame, (f frame).method = frame.method ∧ (f frame).mem.size = frame.mem.size) →
    Ends R E (modifyFrame f)
  pushWord : ∀ w, Ends R E (Native.Processor.pushWord w)
  dropWord : Ends R E (modifyStack OperandStack.dropUnchecked)

/-- The steps that keep to one relation keep to a weaker one. -/
lemma EngineBasis.mono {R R' : State → State → Prop} {E E' : Stop → State → State → Prop}
    (h : EngineBasis R E) (trans : ∀ {s t u}, R' s t → R' t u → R' s u)
    (stops : ∀ {s t} e, R' s t → E' e s t) (later : ∀ {e s t u}, R' s t → E' e t u → E' e s u)
    (answers : ∀ {s t}, R s t → R' s t) (stopped : ∀ {e s t}, E e s t → E' e s t) :
    EngineBasis R' E' where
  trans := trans
  stops := stops
  later := later
  machine s machine core := answers (h.machine s machine core)
  pop := h.pop.mono answers stopped
  push w := (h.push w).mono answers stopped
  frame f keeps := (h.frame f keeps).mono answers stopped
  pushWord w := (h.pushWord w).mono answers stopped
  dropWord := h.dropWord.mono answers stopped

/-- The steps that answer keep to a relation, whatever is said after a stop. -/
lemma EngineBasis.answers {R : State → State → Prop} {E : Stop → State → State → Prop}
    (h : EngineBasis R E) :
    EngineBasis R fun _ _ _ => True :=
  h.mono h.trans (fun _ _ => trivial) (fun _ _ => trivial) id fun _ => trivial

namespace Leaves

variable {α δ : Type} {part : State → δ}

lemma asksContext (f : Context → α) : Leaves part (Exec.asksContext f) := reads _ fun _ => rfl

lemma modifyContext {f : Context → Context}
    (same : ∀ s : State, part { s with context := f s.context } = part s) :
    Leaves part (Exec.modifyContext f) := modify same

lemma modifyStack {f : OperandStack → OperandStack}
    (stackless : ∀ (s : State) stack, part { s with context := { s.context with stack } } =
      part s) :
    Leaves part (Exec.modifyStack f) := modify fun s => stackless s (f s.context.stack)

lemma asksFrame (f : Frame → α) : Leaves part (Exec.asksFrame f) := reads _ (asksFrame_eq_headD f)

lemma localPlace (slot : Word) : Leaves part (Exec.localPlace slot) := by
  refine (asksFrame _).bind fun found => ?_
  obtain ⟨place?, locals⟩ := found
  cases place? with
  | some place => exact .pure place
  | none => exact .fail _

lemma readLocal (slot : Word) : Leaves part (Exec.readLocal slot) := (localPlace slot).bind
    fun _ => asksFrame _

lemma peek : Leaves part Exec.peek := (asksContext _).bind fun _ => .ofExcept _

end Leaves

namespace Basis

variable {α : Type} {R : State → State → Prop} {E : Stop → State → State → Prop} (h : Basis R E)
include h

lemma reads {m : Exec α} (leaves : Leaves (fun s => s) m) : Ends R E m := by
  refine fun s => ⟨fun a t run => ?_, fun e t run => ?_⟩
  · obtain rfl : t = s := (leaves s).1 a t run
    exact h.refl t
  · obtain rfl : t = s := (leaves s).2 e t run
    exact h.stops e (h.refl t)

end Basis

/-- A part of the state that is neither the operand stack nor the innermost frame nor shared stays
the same from step to step. -/
lemma EngineBasis.of_part {δ : Type} {part : State → δ}
    (stackless : ∀ (s : State) stack, part { s with context := { s.context with stack } } = part s)
    (machineless : ∀ s machine, part { s with machine } = part s)
    (frameless : ∀ f, (∀ frame, (f frame).mem.size = frame.mem.size) →
      Leaves part (modifyFrame f)) :
    EngineBasis (fun s t => part t = part s) (Always fun s t => part t = part s) where
  trans first second := second.trans first
  stops _ same _ := same
  later first last ne := (last ne).trans first
  machine s machine _ := machineless s machine
  pop := (Leaves.pop stackless).does
  push w := (Leaves.push stackless w).does
  frame f keeps := (frameless f fun frame => (keeps frame).2).does
  pushWord _ := (Leaves.modifyStack stackless).does
  dropWord := (Leaves.modifyStack stackless).does

end Exec

/-- The number of words of each frame, the innermost first. -/
def State.frameSizes (s : State) : List Nat := s.context.frames.map fun f => f.mem.size

/-- No step of an engine changes the number of words of a frame. -/
lemma Exec.sizes_basis : EngineBasis (fun s t => t.frameSizes = s.frameSizes)
    fun _ _ _ => True := by
  refine EngineBasis.answers (.of_part (fun _ _ => rfl) (fun _ _ => rfl) fun f keeps => .modify
    fun s => ?_)
  obtain ⟨machine, halt, callPos, stack, frames, pending⟩ := s
  cases frames with
  | nil => rfl
  | cons frame rest => exact congrArg (· :: _) (keeps frame)

/-! ### The interpreter -/

namespace Interpreter

open Exec

variable {R : State → State → Prop} {E : Stop → State → State → Prop} (h : EngineBasis R E)
include h

lemma does_popField (slot : Word) : Ends R E (popField slot) := h.bind h.popHandle fun _ => h.pure _

lemma does_load (pointer : Word) : Ends R E (load pointer) := h.bind (h.aside (.asksHeap _))
    fun _ => h.push _

lemma does_store (pointer value : Word) :
    Ends R E (store pointer value) := h.aside (.modifyHeap _ fun _ _ => rfl)

lemma does_foldIndices (array : Word) (dims : List Nat) (index : Word) :
    Ends R E (foldIndices array dims index) := by
  induction dims generalizing index with
  | nil => exact h.pure index
  | cons dim dims ih => exact h.bind (h.aside (.asksHeap _)) fun _ => h.bind h.pop fun _ => ih _

lemma does_popElement (kind : ElemKind) (dims : Nat) : Ends R E (popElement kind dims) :=
  h.bind h.popHandle fun array => h.bind h.pop fun _ =>
    h.bind (does_foldIndices h array _ _) fun _ => h.bind (h.aside (.asksHeap _)) fun _ =>
      h.bind (h.ofExcept _) fun _ => h.aside (.asksHeap _)

lemma does_popTwo : Ends R E popTwo := h.bind h.pop fun _ => h.bind h.pop fun _ => h.pure _

lemma does_popTwoFloats : Ends R E popTwoFloats := h.bind h.popFloat fun _ => h.bind h.popFloat
    fun _ => h.pure _

lemma does_stored (keep : Bool) : Ends R E (stored keep) := .ite (h.reads .peek) h.pop

lemma does_writeLocal (slot value : Word) : Ends R E (writeLocal slot value) :=
  h.bind (h.reads (.localPlace slot)) fun _ => h.frame _ fun _ => ⟨rfl, Array.size_setIfInBounds⟩

lemma does_jumpTo (length : Nat) (target : Word) : Ends R E (jumpTo length target) := by
  unfold jumpTo
  split
  · exact .ite (h.pure _) (h.fail _)
  · exact h.fail _

/-- An action that control passes through. -/
lemma does_perform (method : Method) (action : Action) : Ends R E (perform method action) := by
  cases action
  case literal value => exact h.push value
  case floatLiteral value => exact h.push value.toWord
  case loadLocal slot _ => exact h.bind (h.reads (.readLocal slot)) fun _ => h.push _
  case loadField slot _ => exact h.bind (does_popField h slot) fun _ => does_load h _
  case storeLocal slot keep => exact h.bind (does_stored h keep) fun _ => does_writeLocal h slot _
  case storeField slot keep =>
    exact h.bind (does_popField h slot) fun _ => h.bind (does_stored h keep)
      fun _ => does_store h _ _
  case loadPairLocal slot =>
    exact h.bind (h.reads (.readLocal _)) fun _ => h.bind (h.push _) fun _ =>
      h.bind (h.reads (.readLocal _)) fun _ => h.push _
  case loadPairField slot =>
    exact h.bind (does_popField h slot) fun _ => h.bind (does_load h _) fun _ => does_load h _
  case storePairLocal slot =>
    exact h.bind h.pop fun _ => h.bind h.pop fun _ => h.bind (does_writeLocal h _ _) fun _ =>
      does_writeLocal h _ _
  case storePairField slot =>
    exact h.bind (does_popField h slot) fun _ => h.bind h.pop fun _ => h.bind h.pop fun _ =>
      h.bind (does_store h _ _) fun _ => does_store h _ _
  case loadClassMemory => exact h.bind (h.aside (.asksMachine _)) fun _ => h.push _
  case loadInstance => exact h.bind (h.reads (.asksFrame _)) fun _ => h.push _
  case loadElement kind dims =>
    exact h.bind (does_popElement h kind dims) fun _ => h.bind (h.aside (.asksHeap _))
      fun _ => h.push _
  case storeElement kind dims =>
    exact h.bind (does_popElement h kind dims) fun _ => h.bind h.pop fun _ =>
      h.aside (.modifyHeap _ fun _ _ => rfl)
  case arith op | compare relation => exact h.bind (does_popTwo h) fun _ => h.push _
  case divide remainder =>
    exact h.bind (does_popTwo h) fun _ => .ite (h.bind (h.fail _) fun _ => h.push _) (h.push _)
  case bitNot | intToFloat => exact h.bind h.pop fun _ => h.push _
  case floatArith op =>
    exact h.bind (does_popTwoFloats h) fun _ => .ite (h.bind (h.fail _) fun _ => h.push _)
      (h.push _)
  case floatCompare relation => exact h.bind (does_popTwoFloats h) fun _ => h.push _
  case floatToInt => exact h.bind h.popFloat fun _ => h.push _
  case drop => exact h.bind h.pop fun _ => h.pure _
  case swap =>
    exact h.bind h.pop fun _ => h.bind h.pop fun _ => h.bind (h.push _) fun _ => h.push _
  all_goals exact h.pure ()

/-- An instruction, for which the runtime may have to be called. -/
lemma does_step {call : Instruction → Exec Unit} (method : Method) (ip : Nat) {instr : Instruction}
    (calls : instr.action = .arraySize ∨ instr.action = .runtime → Ends R E (call instr)) :
    Ends R E (step call method ip instr) := by
  have serves (asks : instr.action = .arraySize ∨ instr.action = .runtime) : Ends R E (do
      modifyFrame fun f => { f with ip }
      call instr
      return Flow.next) :=
    h.bind (h.frame _ fun _ => ⟨rfl, rfl⟩) fun _ => h.bind (calls asks) fun _ => h.pure _
  unfold step
  split
  · exact does_jumpTo h _ _
  · exact h.bind h.pop fun _ => .ite (does_jumpTo h _ _) (h.pure _)
  · exact h.pure _
  · next asks => exact serves (.inl asks)
  · next asks => exact serves (.inr asks)
  · exact h.bind (does_perform h method _) fun _ => h.pure _

end Interpreter

/-! ### Compiled bodies -/

namespace Native.Processor

open Exec

variable {γ φ : Type} [DecidableEq γ] [DecidableEq φ] {R : State → State → Prop}
  {E : Stop → State → State → Prop} (h : EngineBasis R E)
include h

lemma does_popWord : Ends R E popWord := h.bind h.dropWord fun _ => h.reads (.asksContext _)

variable {call : Callback} (entry : Entry)

lemma does_perform_of_ne {op : Operation γ φ} (p : Processor γ φ)
    (inlined : ∀ tag address ip onHalt, op ≠ .callRuntime tag address ip onHalt) :
    Ends R E (p.perform call entry op) := by
  cases op
  case callRuntime tag address ip onHalt => exact absurd rfl (inlined tag address ip onHalt)
  case prologue locals => exact h.bind (h.frame _ fun _ => ⟨rfl, rfl⟩) fun _ => h.pure _
  case divide => exact .ite (h.pure _) (h.pure _)
  case load | loadFloat | scaleByExtent => exact h.bind (h.aside (.asksHeap _)) fun _ => h.pure _
  case store | storeFloat => exact h.bind (h.aside (.modifyHeap _ fun _ _ => rfl)) fun _ => h.pure _
  case boundsBranch => exact .ite (h.pure _) (h.bind (h.aside (.asksHeap _)) fun _ => h.pure _)
  case push | pushFloat => exact h.bind (h.pushWord _) fun _ => h.pure _
  case pop | popFloat => exact h.bind (does_popWord h) fun _ => h.pure _
  case dropTop => exact h.bind h.dropWord fun _ => h.pure _
  case reserve => exact h.bind (h.reads (.asksContext _)) fun _ => h.pure _
  all_goals exact h.pure _

variable (calls : ∀ tag address ip, Ends R E (call tag address ip))
include calls

lemma does_perform (op : Operation γ φ) (p : Processor γ φ) :
    Ends R E (p.perform call entry op) := by
  cases op
  case callRuntime =>
    exact h.bind (calls _ _ _) fun _ => h.bind (h.reads (.asksContext _)) fun _ => h.pure _
  all_goals exact does_perform_of_ne h entry p nofun

/-- Any number of operations. -/
theorem does_run (ops : Array (Operation γ φ)) (places : List (JumpTarget × Nat)) (fuel place : Nat)
    (p : Processor γ φ) : Ends R E (run call entry ops places fuel place p) := by
  induction fuel generalizing place p with
  | zero => exact h.throw _
  | succ fuel ih =>
    unfold run
    split
    · exact h.pure _
    · refine h.bind (does_perform h entry calls _ p) fun next => ?_
      obtain ⟨p', flow⟩ := next
      cases flow with
      | next => exact ih _ _
      | goto target =>
        dsimp only
        split
        · exact ih _ _
        · exact h.pure _
      | done status => exact h.pure _

end Native.Processor

end StackMachine
