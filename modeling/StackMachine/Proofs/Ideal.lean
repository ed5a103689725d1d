import Mathlib.Tactic.Common
import StackMachine.Engine.Call
import StackMachine.Engine.Session
import StackMachine.Native.Generator
import StackMachine.Proofs.OperandStack

/-!
# The ideal machine

Both engines are compared with a machine that has no stack limit: its operand stack is a list, its
locals are an array, and an instruction takes its state to a result in one step.  `Ideal.step` is
`none` where an instruction would take a word from an empty stack.

The second half says what the interpreter makes of it (`Ideal.View.step`): it does what the ideal
machine does as long as the stack fits its capacity, and overflows exactly when it does not.
-/

namespace StackMachine

open Native (Scope)

/-- The locals an action names. -/
def Action.slots : Action → List Word
  | .loadLocal slot _ | .storeLocal slot _ => [slot]
  | .loadPairLocal slot | .storePairLocal slot => [slot, slot + 1]
  | _ => []

/-! ### Computations -/

namespace Exec

variable {α β ε σ : Type} {m : EStateM ε σ α} {f : α → EStateM ε σ β} {s t : σ} {outer : List Frame}

/-- A computation goes on after a first part that answers. -/
lemma bind_of_ok {a : α} (h : m s = .ok a t) : (m >>= f) s = f a t := by
  show EStateM.bind m f s = _
  rw [EStateM.bind, h]

/-- A computation stops where its first part stops. -/
lemma bind_of_error {e : ε} (h : m s = .error e t) : (m >>= f) s = .error e t := by
  show EStateM.bind m f s = _
  rw [EStateM.bind, h]

/-- A computation that stops has stopped in its first part or after it. -/
lemma bind_eq_error {e : ε} (stops : (m >>= f) s = .error e t) :
    m s = .error e t ∨ ∃ a u, m s = .ok a u ∧ f a u = .error e t := by
  cases ran : m s with
  | ok a u => exact .inr ⟨a, u, rfl, (bind_of_ok ran).symm.trans stops⟩
  | error e' u =>
    cases (bind_of_error ran).symm.trans stops
    exact .inl rfl

lemma asksHeap_bind (g : Heap → α) (f : α → Exec β) (s : State) :
    (asksHeap g >>= f) s = f (g s.machine.heap) s := rfl

lemma modifyHeap_bind (g : Heap → Heap) (f : Unit → Exec β) (s : State) :
    (modifyHeap g >>= f) s = f ()
    { s with machine := { s.machine with heap := g s.machine.heap } } := rfl

lemma asksMachine_bind (g : Machine → α) (f : α → Exec β) (s : State) :
    (asksMachine g >>= f) s = f (g s.machine) s := rfl

/-- The innermost frame is read, or a blank one if there is none. -/
lemma asksFrame_eq_headD (g : Frame → α) (s : State) :
    asksFrame g s = .ok (g (s.context.frames.headD Frame.blank)) s := by
  have read : (get : Exec State) s = .ok s s := rfl
  rw [asksFrame, bind_of_ok read]
  cases s.context.frames <;> rfl

lemma asksFrame_eq {s : State} {f : Frame}
    (frames : s.context.frames = f :: outer) (g : Frame → α) : asksFrame g s = .ok (g f) s := by
  rw [asksFrame_eq_headD, frames, List.headD_cons]

lemma modifyFrame_eq {s : State} {f : Frame} (frames : s.context.frames = f :: outer)
    (g : Frame → Frame) :
    modifyFrame g s = .ok () { s with context := { s.context with frames := g f :: outer } } := by
  obtain ⟨machine, halt, callPos, stack, _, pending⟩ := s
  subst frames
  rfl

end Exec

/-! ### Runtime calls -/

/-- What a runtime call takes from the stack and leaves there, as declared to compiled code. -/
def Native.Scope.shape? (scope : Scope) (instr : Instruction) : Option Shape :=
  match instr.op with
  | .mthdCall =>
    (scope.program.callee? instr.operand instr.operand2).map fun callee =>
      ⟨callee.params + 1, callee.returns.produced⟩
  | .dynMthdCall =>
    some ⟨(Word.toIndex? instr.operand).getD 0 + 2, (ReturnKind.ofCode instr.operand2).produced⟩
  | op => op.shape? instr.operand

/-- A meaning of runtime calls: from an instruction, the words it takes (top first), the heap and
the output to the words it leaves (bottom first) or a fault, the heap and the output. -/
abbrev Answer := Instruction → List Word → Heap → String →
  Except Fault (List Word) × Heap × String

namespace Answer

/-- Performs a runtime call by its meaning: takes words, applies it and leaves the results. -/
def perform (answer : Answer) (taken : Nat) (instr : Instruction) : Exec Unit := do
  let args ← Exec.popMany taken
  let m ← Exec.asksMachine id
  let (result, heap, output) := answer instr args m.heap m.output
  Exec.modifyMachine fun m => { m with heap, output }
  match result with
  | .ok results => Session.pushEach results
  | .error fault => throw (.fault fault)

/-- A meaning leaves as many words as are declared. -/
def Respects (answer : Answer) (scope : Scope) : Prop :=
  ∀ instr shape args heap output results, scope.shape? instr = some shape →
    (answer instr args heap output).1 = .ok results → results.length = shape.produced.length

/-- The runtime acts on the instructions of a method as a meaning says; the outermost extent of an
array is always the one in its block. -/
structure Describes (answer : Answer) (scope : Scope) (call : Instruction → Exec Unit) : Prop where
  arraySize : ∀ instr, instr.action = .arraySize → call instr = RuntimeCall.arraySize
  runtime : ∀ instr ∈ scope.method.code, instr.action = .runtime → ∀ shape,
    scope.shape? instr = some shape → call instr = answer.perform shape.consumed instr

end Answer

/-! ### The machine -/

/-- The state of the ideal machine: the operand stack, top first; the instance and the locals; and
what all threads share. -/
structure Ideal where
  stack : List Word
  mem : Array Word
  machine : Machine

namespace Ideal

/-- What an instruction comes to. -/
inductive Result where
  | next (v : Ideal)
  | goto (ip : Nat) (v : Ideal)
  | leave (v : Ideal)
  | fault (fault : Fault) (machine : Machine)

/-- Adds a word to the stack. -/
def push (v : Ideal) (value : Word) : Ideal := { v with stack := value :: v.stack }

/-- Replaces the stack. -/
def withStack (v : Ideal) (stack : List Word) : Ideal := { v with stack }

/-- Changes the heap. -/
def modifyHeap (v : Ideal) (f : Heap → Heap) : Ideal :=
  { v with machine := { v.machine with heap := f v.machine.heap } }

/-- Reads a word of memory. -/
def fetch (v : Ideal) (pointer : Word) : Word := v.machine.heap.read pointer .word

/-- Writes a word of memory. -/
def assign (v : Ideal) (pointer value : Word) : Ideal :=
  v.modifyHeap fun h => h.write pointer .word value

/-- Reads a local. -/
def getLocal (v : Ideal) (slot : Word) : Word := v.mem.getD (slot.toInt.toNat + 1) 0

/-- Writes a local. -/
def setLocal (v : Ideal) (slot value : Word) : Ideal :=
  { v with mem := v.mem.setIfInBounds (slot.toInt.toNat + 1) value }

/-- Stops with a cause. -/
def fails (v : Ideal) (cause : Cause) : Result := .fault { cause } v.machine

/-- Takes the word on top. -/
def popping (v : Ideal) (k : Word → Ideal → Option Result) : Option Result :=
  match v.stack with
  | value :: stack => k value (v.withStack stack)
  | [] => none

/-- The word that is stored: taken from the stack unless it is kept. -/
def storing (v : Ideal) (keep : Bool) (k : Word → Ideal → Option Result) : Option Result :=
  v.popping fun value rest => k value (if keep then v else rest)

/-- Takes a handle that must not be nil. -/
def poppingHandle (v : Ideal) (k : Word → Ideal → Option Result) : Option Result :=
  v.popping fun handle v => if handle = 0 then some (v.fails .nilDereference) else k handle v

/-- Takes the further indices of an element and folds them into the first. -/
def foldIndices (array : Word) (k : Word → Ideal → Option Result) :
    List Nat → Word → Ideal → Option Result
  | [], index, v => k index v
  | dim :: rest, index, v => v.popping fun next below =>
    foldIndices array k rest (index * v.machine.heap.arrayExtent array dim + next) below

/-- Checks a flat index and goes on with the pointer to the element. -/
def checked (array : Word) (kind : ElemKind) (k : Word → Ideal → Option Result) (index : Word)
    (v : Ideal) : Option Result :=
  match v.machine.heap.checkIndex array index with
  | .ok () => k (v.machine.heap.elementPointer array kind index.toInt.toNat) v
  | .error cause => some (v.fails cause)

/-- Takes an array and its indices, checks them, and goes on with the pointer to the element. -/
def poppingElement (v : Ideal) (kind : ElemKind) (dims : Nat) (k : Word → Ideal → Option Result) :
    Option Result :=
  v.poppingHandle fun array v => v.popping fun index v =>
    foldIndices array (checked array kind k) (List.range' 1 (dims - 1)) index v

/-- Goes to an instruction of a method. -/
def jump (v : Ideal) (length : Nat) (target : Word) : Result :=
  match Word.toIndex? target with
  | some ip => if ip < length then .goto ip v else v.fails (.invalidJump target)
  | none => v.fails (.invalidJump target)

/-- Has the runtime perform an instruction. -/
def calling (v : Ideal) (answer : Answer) (taken : Nat) (instr : Instruction) : Option Result :=
  if v.stack.length < taken then none
  else
    let (result, heap, output) := answer instr (v.stack.take taken) v.machine.heap v.machine.output
    let machine := { v.machine with heap, output }
    match result with
    | .ok results => some (.next { v with stack := results.reverse ++ v.stack.drop taken, machine })
    | .error fault => some (.fault fault machine)

/-- Performs an action that control passes through. -/
def act (method : Method) (v : Ideal) : Action → Option Result
  | .literal value => some (.next (v.push value))
  | .floatLiteral value => some (.next (v.push value.toWord))
  | .loadLocal slot _ => some (.next (v.push (v.getLocal slot)))
  | .loadField slot _ => v.poppingHandle fun handle v =>
    some (.next (v.push (v.fetch (handle + 8 * max slot 0))))
  | .storeLocal slot keep => v.storing keep fun value v => some (.next (v.setLocal slot value))
  | .storeField slot keep => v.poppingHandle fun handle v => v.storing keep fun value v =>
    some (.next (v.assign (handle + 8 * max slot 0) value))
  | .loadPairLocal slot => some (.next ((v.push (v.getLocal (slot + 1))).push (v.getLocal slot)))
  | .loadPairField slot => v.poppingHandle fun handle v =>
    some (.next ((v.push (v.fetch (handle + 8 * max slot 0 + 8))).push
      (v.fetch (handle + 8 * max slot 0))))
  | .storePairLocal slot => v.popping fun first v => v.popping fun second v =>
    some (.next ((v.setLocal slot first).setLocal (slot + 1) second))
  | .storePairField slot => v.poppingHandle fun handle v => v.popping fun first v =>
    v.popping fun second v =>
      some (.next ((v.assign (handle + 8 * max slot 0) first).assign (handle + 8 * max slot 0 + 8)
        second))
  | .loadClassMemory => some (.next (v.push (v.machine.classMemory method.id.cls)))
  | .loadInstance => some (.next (v.push (v.mem.getD 0 0)))
  | .loadElement kind dims => v.poppingElement kind dims fun pointer v =>
    some (.next (v.push (v.machine.heap.read pointer kind.access)))
  | .storeElement kind dims => v.poppingElement kind dims fun pointer v =>
    v.popping fun value v =>
      some (.next (v.modifyHeap fun h => h.write pointer kind.access value))
  | .arith op => v.popping fun right v => v.popping fun left v =>
    some (.next (v.push (op.eval left right)))
  | .divide remainder => v.popping fun right v => v.popping fun left v =>
    if right = 0 then some (v.fails .divideByZero)
    else some (.next (v.push (Word.divide remainder left right)))
  | .bitNot => v.popping fun value v => some (.next (v.push (~~~value)))
  | .compare relation => v.popping fun right v => v.popping fun left v =>
    some (.next (v.push (Word.ofBool (relation.evalWord left right))))
  | .floatArith op => v.popping fun right v => v.popping fun left v =>
    if op = .div ∧ (Double.ofWord right).isZero then some (v.fails .divideByZero)
    else some (.next (v.push (Double.eval op (.ofWord left) (.ofWord right)).toWord))
  | .floatCompare relation => v.popping fun right v => v.popping fun left v =>
    some (.next (v.push (Word.ofBool (Double.compare relation (.ofWord left) (.ofWord right)))))
  | .intToFloat => v.popping fun value v => some (.next (v.push (Double.ofInt64 value).toWord))
  | .floatToInt => v.popping fun value v => some (.next (v.push (Double.ofWord value).truncate))
  | .drop => v.popping fun _ v => some (.next v)
  | .swap => v.popping fun top v => v.popping fun below v =>
    some (.next ((v.push top).push below))
  | _ => some (.next v)

/-- Performs an instruction of a method with a meaning of runtime calls; `none` if it would take a
word from an empty stack. -/
def step (scope : Scope) (answer : Answer) (instr : Instruction) (v : Ideal) : Option Result :=
  match instr.action with
  | .jump target => some (v.jump scope.method.code.size target)
  | .jumpWhen target value => v.popping fun top v =>
    if top = value then some (v.jump scope.method.code.size target) else some (.next v)
  | .leave => some (.leave v)
  | .arraySize => v.poppingHandle fun array v =>
    some (.next (v.push (v.machine.heap.arrayExtent array 0)))
  | .runtime => v.calling answer (((scope.shape? instr).map Shape.consumed).getD 0) instr
  | action => act scope.method v action

/-! ### The interpreter seen as the ideal machine -/

/-- A state of the interpreter stands for a state of the ideal machine: the innermost frame keeps
its locals, and the operand stack of a capacity its words. -/
structure View (capacity : Nat) (outer : List Frame) (v : Ideal) (s : State) : Prop where
  machine_eq : s.machine = v.machine
  stack : s.context.stack.Holds v.stack
  capacity_eq : s.context.stack.capacity = capacity
  frame : ∃ f, s.context.frames = f :: outer ∧ f.mem = v.mem

/-- Some frame lies on top of the outer ones. -/
def Framed (outer : List Frame) (s : State) : Prop := ∃ f, s.context.frames = f :: outer

/-- Where the ideal machine reaches `v`, the interpreter answers `a` in a state that stands for it,
or overflows if the stack does not fit. -/
def Arrives {α : Type} (capacity : Nat) (outer : List Frame) (v : Ideal) (a : α)
    (r : EStateM.Result Stop State α) : Prop :=
  (v.stack.length ≤ capacity ∧ ∃ s, r = .ok a s ∧ View capacity outer v s) ∨
  (capacity < v.stack.length ∧ ∃ s, r = .error (.fault { cause := .stackOverflow }) s ∧
    s.machine = v.machine ∧ Framed outer s)

/-- The interpreter comes to what the ideal machine comes to. -/
def Matches (capacity : Nat) (outer : List Frame) (ideal : Option Result)
    (r : EStateM.Result Stop State Interpreter.Flow) : Prop :=
  match ideal with
  | none => ∃ s, r = .error (.fault { cause := .stackUnderflow }) s
  | some (.next v) => Arrives capacity outer v .next r
  | some (.goto ip v) => Arrives capacity outer v (.goto ip) r
  | some (.leave v) => Arrives capacity outer v .leave r
  | some (.fault f m) => ∃ s, r = .error (.fault f) s ∧ s.machine = m ∧ Framed outer s

namespace View

open Exec Interpreter

variable {capacity : Nat} {outer : List Frame} {v : Ideal} {s : State} {xs : List Word}
  {k : Word → Ideal → Option Result} {f : Word → Exec Flow} {slot : Word}

variable (view : View capacity outer v s)
include view

/-- The frame below stays in place. -/
lemma framed : Framed outer s :=
  let ⟨f, frames, _⟩ := view.frame
  ⟨f, frames⟩

/-- Another stack in place of the old one. -/
lemma withStack {stack : OperandStack} (holds : stack.Holds xs)
    (same : stack.capacity = s.context.stack.capacity) :
    View capacity outer (v.withStack xs) { s with context := { s.context with stack } } :=
  ⟨view.machine_eq, holds, same.trans view.capacity_eq, view.frame⟩

/-- Another heap in place of the old one. -/
lemma modifyHeap (f : Heap → Heap) :
    View capacity outer (v.modifyHeap f)
    { s with machine := { s.machine with heap := f s.machine.heap } } := by
  refine ⟨?_, view.stack, view.capacity_eq, view.frame⟩
  rw [view.machine_eq]
  rfl

/-- The interpreter arrives where it stands. -/
lemma arrives {α : Type} (a : α) : Arrives capacity outer v a (.ok a s) :=
  .inl ⟨view.capacity_eq ▸ view.stack.length_le, s, rfl, view⟩

/-- A pop takes the head of the list. -/
lemma pop_cons {x : Word} (stack : v.stack = x :: xs) :
    ∃ t, pop s = .ok x t ∧ View capacity outer (v.withStack xs) t := by
  have holds := view.stack
  rw [stack] at holds
  refine ⟨_, ?_, view.withStack holds.dropUnchecked rfl⟩
  rw [pop, holds.pop_eq]

lemma pop_nil (stack : v.stack = []) : pop s = .error (.fault { cause := .stackUnderflow }) s := by
  have holds := view.stack
  rw [stack] at holds
  rw [pop, holds.pop_nil]

section

variable (rest : ∀ x xs s, View capacity outer (v.withStack xs) s →
  Matches capacity outer (k x (v.withStack xs)) (f x s))
include rest

lemma popping : Matches capacity outer (v.popping k) ((pop >>= f) s) := by
  unfold Ideal.popping
  cases stack : v.stack with
  | nil => exact ⟨s, bind_of_error (view.pop_nil stack)⟩
  | cons x xs =>
    obtain ⟨t, run, view⟩ := view.pop_cons stack
    rw [bind_of_ok run]
    exact rest x xs t view

/-- The stored word on both sides. -/
lemma storing {keep : Bool} : Matches capacity outer (v.storing keep k)
    ((stored keep >>= f) s) := by
  cases keep with
  | false => exact view.popping rest
  | true =>
    have holds := view.stack
    unfold Ideal.storing Ideal.popping
    cases stack : v.stack with
    | nil =>
      rw [stack] at holds
      have run : peek s = .error (.fault { cause := .stackUnderflow }) s := by
        show ofExcept s.context.stack.top? s = _
        rw [holds.top?_nil]
        rfl
      exact ⟨s, bind_of_error run⟩
    | cons x xs =>
      rw [stack] at holds
      have run : peek s = .ok x s := by
        show ofExcept s.context.stack.top? s = _
        rw [holds.top?_eq]
        rfl
      have goal := rest x v.stack s view
      rw [← bind_of_ok (f := f) run] at goal
      exact goal

lemma poppingHandle : Matches capacity outer (v.poppingHandle k) ((popHandle >>= f) s) := by
  unfold popHandle Ideal.poppingHandle
  simp only [bind_assoc]
  refine view.popping fun handle xs s view => ?_
  by_cases isNil : handle = 0
  · rw [if_pos isNil, if_pos isNil]
    exact ⟨s, rfl, view.machine_eq, view.framed⟩
  · rw [if_neg isNil, if_neg isNil]
    exact rest handle xs s view

end

lemma push_room (room : v.stack.length < capacity) (x : Word) :
    ∃ t, Exec.push x s = .ok () t ∧ View capacity outer (v.push x) t := by
  have room' : v.stack.length < s.context.stack.capacity := view.capacity_eq ▸ room
  refine ⟨_, ?_, view.withStack (view.stack.pushUnchecked room' x) rfl⟩
  rw [Exec.push, view.stack.push_eq room']

lemma push_full (full : capacity ≤ v.stack.length) (x : Word) :
    Exec.push x s = .error (.fault { cause := .stackOverflow }) s := by
  rw [Exec.push, view.stack.push_full (view.capacity_eq ▸ full)]

lemma push_bind (x : Word) {w : Ideal} {f : Unit → Exec Flow}
    (higher : v.stack.length < w.stack.length) (same : w.machine = v.machine)
    (rest : ∀ s, View capacity outer (v.push x) s →
      Matches capacity outer (some (.next w)) (f () s)) :
    Matches capacity outer (some (.next w)) ((Exec.push x >>= f) s) := by
  by_cases room : v.stack.length < capacity
  · obtain ⟨t, run, view⟩ := view.push_room room x
    rw [bind_of_ok run]
    exact rest t view
  · have full := Nat.not_lt.1 room
    have run := view.push_full full x
    exact .inr ⟨Nat.lt_of_le_of_lt full higher, s, bind_of_error run,
      view.machine_eq.trans same.symm, view.framed⟩

lemma push (x : Word) :
    Matches capacity outer (some (.next (v.push x)))
    ((Exec.push x >>= fun _ => pure Flow.next) s) :=
  view.push_bind x (Nat.lt_succ_self _) rfl fun _ view => view.arrives _

section

variable {k : Nat} (index : Word.toIndex? slot = some k) (bound : k + 1 < v.mem.size)
include index bound

lemma localPlace : Exec.localPlace slot s = .ok (k + 1) s := by
  obtain ⟨f, frames, mem⟩ := view.frame
  have place : f.place? slot = some (k + 1) := by
    rw [Frame.place?, index, mem]
    exact if_pos bound
  rw [Exec.localPlace, bind_of_ok (asksFrame_eq frames _), place]
  rfl

lemma readLocal : Exec.readLocal slot s = .ok (v.getLocal slot) s := by
  obtain ⟨f, frames, mem⟩ := view.frame
  rw [Exec.readLocal, bind_of_ok (view.localPlace index bound), asksFrame_eq frames, mem, getLocal,
    (Word.toIndex?_eq_some_iff.1 index).2]

lemma writeLocal (x : Word) :
    ∃ t, Exec.writeLocal slot x s = .ok () t ∧ View capacity outer (v.setLocal slot x) t := by
  obtain ⟨f, frames, mem⟩ := view.frame
  let written : Frame := { f with mem := f.mem.setIfInBounds (k + 1) x }
  refine ⟨{ s with context := { s.context with frames := written :: outer } }, ?_,
    view.machine_eq, view.stack, view.capacity_eq, written, rfl, ?_⟩
  · rw [Exec.writeLocal, bind_of_ok (view.localPlace index bound), modifyFrame_eq frames]
  · show f.mem.setIfInBounds (k + 1) x = _
    rw [setLocal, (Word.toIndex?_eq_some_iff.1 index).2, mem]

end

section

variable (rest : ∀ x v s, View capacity outer v s → Matches capacity outer (k x v) (f x s))
include rest

omit view in
/-- The further indices on both sides. -/
lemma foldIndices {array : Word} (dims : List Nat) :
    ∀ (index : Word) {v : Ideal} {s : State}, View capacity outer v s →
      Matches capacity outer (Ideal.foldIndices array k dims index v)
        ((Interpreter.foldIndices array dims index >>= f) s) := by
  induction dims with
  | nil =>
    intro index v s view
    exact rest index v s view
  | cons dim dims ih =>
    intro index v s view
    simp only [Interpreter.foldIndices, bind_assoc]
    rw [asksHeap_bind, view.machine_eq]
    unfold Ideal.foldIndices
    exact view.popping fun next v s view => ih _ view

/-- An array and its indices on both sides. -/
lemma poppingElement {kind : ElemKind} {dims : Nat} :
    Matches capacity outer (v.poppingElement kind dims k) ((popElement kind dims >>= f) s) := by
  unfold popElement Ideal.poppingElement
  simp only [bind_assoc]
  refine view.poppingHandle fun array v s view => view.popping fun index v s view =>
    foldIndices (fun index v s view => ?_) _ index view
  rw [asksHeap_bind, view.machine_eq, checked]
  cases v.machine.heap.checkIndex array index with
  | error cause => exact ⟨s, rfl, view.machine_eq, view.framed⟩
  | ok _ =>
    have pointer := rest (v.machine.heap.elementPointer array kind index.toInt.toNat) v s view
    rw [← view.machine_eq] at pointer ⊢
    exact pointer

end

/-- An action that control passes through, if the locals it names are in the frame. -/
lemma perform (method : Method) {action : Action}
    (locals : ∀ slot ∈ action.slots, ∃ k, Word.toIndex? slot = some k ∧ k + 1 < v.mem.size) :
    Matches capacity outer (v.act method action)
      ((Interpreter.perform method action >>= fun _ => pure Flow.next) s) := by
  cases action
  all_goals simp only [act, Interpreter.perform, popField, load, store, popTwo, popTwoFloats,
    popFloat, pushFloat, bind_assoc, pure_bind]
  case literal value => exact view.push value
  case floatLiteral value => exact view.push value.toWord
  case loadLocal slot kind =>
    obtain ⟨k, index, bound⟩ := locals slot (by simp [Action.slots])
    rw [bind_of_ok (view.readLocal index bound)]
    exact view.push _
  case loadField slot kind =>
    refine view.poppingHandle fun handle _ s view => ?_
    rw [asksHeap_bind, view.machine_eq]
    exact view.push _
  case storeLocal slot keep =>
    obtain ⟨k, index, bound⟩ := locals slot (by simp [Action.slots])
    refine view.storing fun value _ s view => ?_
    obtain ⟨t, run, view⟩ := view.writeLocal index bound value
    rw [bind_of_ok run]
    exact view.arrives _
  case storeField slot keep =>
    refine view.poppingHandle fun handle _ s view => view.storing fun value _ s view => ?_
    rw [modifyHeap_bind]
    exact (view.modifyHeap _).arrives _
  case loadPairLocal slot =>
    obtain ⟨k, index, bound⟩ := locals slot (by simp [Action.slots])
    obtain ⟨k', index', bound'⟩ := locals (slot + 1) (by simp [Action.slots])
    rw [bind_of_ok (view.readLocal index' bound')]
    refine view.push_bind _ (Nat.lt_add_of_pos_right (by decide : 0 < 2)) rfl fun s view => ?_
    rw [bind_of_ok (view.readLocal index bound)]
    exact view.push _
  case loadPairField slot =>
    refine view.poppingHandle fun handle _ s view => ?_
    rw [asksHeap_bind, view.machine_eq]
    refine view.push_bind _ (Nat.lt_add_of_pos_right (by decide : 0 < 2)) rfl fun s view => ?_
    rw [asksHeap_bind, view.machine_eq]
    exact view.push _
  case storePairLocal slot =>
    obtain ⟨k, index, bound⟩ := locals slot (by simp [Action.slots])
    obtain ⟨k', index', bound'⟩ := locals (slot + 1) (by simp [Action.slots])
    refine view.popping fun first _ s view => view.popping fun second _ s view => ?_
    obtain ⟨t, run, view⟩ := view.writeLocal index bound first
    rw [bind_of_ok run]
    obtain ⟨t, run, view⟩ :=
      view.writeLocal index' (by simpa [setLocal, Ideal.withStack] using bound') second
    rw [bind_of_ok run]
    exact view.arrives _
  case storePairField slot =>
    refine view.poppingHandle fun handle _ s view => view.popping fun first _ s view =>
      view.popping fun second _ s view => ?_
    rw [modifyHeap_bind, modifyHeap_bind]
    exact ((view.modifyHeap _).modifyHeap _).arrives _
  case loadClassMemory =>
    rw [asksMachine_bind, view.machine_eq]
    exact view.push _
  case loadInstance =>
    obtain ⟨f, frames, mem⟩ := view.frame
    rw [bind_of_ok (asksFrame_eq frames _), Frame.receiver, mem]
    exact view.push _
  case loadElement kind dims =>
    refine view.poppingElement fun pointer v s view => ?_
    rw [asksHeap_bind, view.machine_eq]
    exact view.push _
  case storeElement kind dims =>
    refine view.poppingElement fun pointer v s view => view.popping fun value _ s view => ?_
    rw [modifyHeap_bind]
    exact (view.modifyHeap _).arrives _
  case arith op =>
    exact view.popping fun right _ s view => view.popping fun left _ s view =>
      view.push (op.eval left right)
  case divide remainder =>
    refine view.popping fun right _ s view => view.popping fun left _ s view => ?_
    by_cases isZero : right = 0
    · rw [if_pos isZero, if_pos isZero]
      exact ⟨s, rfl, view.machine_eq, view.framed⟩
    · rw [if_neg isZero, if_neg isZero]
      exact view.push _
  case bitNot =>
    exact view.popping fun value _ s view => view.push (~~~value)
  case compare relation =>
    exact view.popping fun right _ s view => view.popping fun left _ s view =>
      view.push (Word.ofBool (relation.evalWord left right))
  case floatArith op =>
    refine view.popping fun right _ s view => view.popping fun left _ s view => ?_
    by_cases isZero : op = .div ∧ (Double.ofWord right).isZero
    · rw [if_pos isZero, if_pos isZero]
      exact ⟨s, rfl, view.machine_eq, view.framed⟩
    · rw [if_neg isZero, if_neg isZero]
      exact view.push _
  case floatCompare relation =>
    exact view.popping fun right _ s view => view.popping fun left _ s view =>
      view.push (Word.ofBool (Double.compare relation (.ofWord left) (.ofWord right)))
  case intToFloat =>
    exact view.popping fun value _ s view => view.push (Double.ofInt64 value).toWord
  case floatToInt =>
    exact view.popping fun value _ s view => view.push (Double.ofWord value).truncate
  case drop =>
    exact view.popping fun _ _ s view => view.arrives _
  case swap =>
    refine view.popping fun top _ s view => view.popping fun below _ s view => ?_
    refine view.push_bind _ (Nat.lt_add_of_pos_right (by decide : 0 < 2)) rfl fun s view => ?_
    exact view.push below
  all_goals exact view.arrives _

omit view in
lemma popMany (n : Nat) : ∀ {v : Ideal} {s : State}, View capacity outer v s →
    n ≤ v.stack.length → ∃ t, Exec.popMany n s = .ok (v.stack.take n) t ∧
      View capacity outer (v.withStack (v.stack.drop n)) t := by
  induction n with
  | zero => exact fun {v s} view _ => ⟨s, rfl, view⟩
  | succ n ih =>
    intro v s view enough
    obtain ⟨x, xs, stack⟩ := List.exists_cons_of_length_pos (Nat.lt_of_lt_of_le n.succ_pos enough)
    obtain ⟨t, run, view⟩ := view.pop_cons stack
    rw [stack] at enough ⊢
    obtain ⟨u, runRest, view⟩ := ih view (Nat.le_of_succ_le_succ enough)
    exact ⟨u, by rw [Exec.popMany, bind_of_ok run, bind_of_ok runRest]; rfl, view⟩

omit view in
/-- Too many words taken in a row. -/
lemma popMany_short (n : Nat) : ∀ {v : Ideal} {s : State}, View capacity outer v s →
    v.stack.length < n →
      ∃ t, Exec.popMany n s = .error (.fault { cause := .stackUnderflow }) t := by
  induction n with
  | zero => exact fun _ short => absurd short (Nat.not_lt_zero _)
  | succ n ih =>
    intro v s view short
    cases stack : v.stack with
    | nil => exact ⟨s, bind_of_error (view.pop_nil stack)⟩
    | cons x xs =>
      obtain ⟨t, run, view⟩ := view.pop_cons stack
      rw [stack] at short
      obtain ⟨u, runRest⟩ := ih view (Nat.lt_of_succ_lt_succ short)
      exact ⟨u, by rw [Exec.popMany, bind_of_ok run, bind_of_error runRest]⟩

omit view in
/-- Words left in a row at the end of an instruction. -/
lemma pushEach (xs : List Word) : ∀ {v : Ideal} {s : State}, View capacity outer v s →
    Matches capacity outer (some (.next (v.withStack (xs.reverse ++ v.stack))))
      ((Session.pushEach xs >>= fun _ => pure Flow.next) s) := by
  induction xs with
  | nil =>
    intro v s view
    exact view.arrives _
  | cons x xs ih =>
    intro v s view
    simp only [Session.pushEach, bind_assoc]
    refine view.push_bind x ?_ rfl fun s view => ?_
    · simp only [Ideal.withStack, List.reverse_cons, List.append_assoc, List.length_append]
      simp only [List.length_cons, List.length_nil]
      omega
    · simpa [Ideal.withStack, Ideal.push] using ih view

/-- A runtime call on both sides. -/
lemma calling (answer : Answer) (taken : Nat) (instr : Instruction) :
    Matches capacity outer (v.calling answer taken instr)
      ((answer.perform taken instr >>= fun _ => pure Flow.next) s) := by
  unfold Answer.perform Ideal.calling
  simp only [bind_assoc]
  by_cases short : v.stack.length < taken
  · obtain ⟨t, run⟩ := view.popMany_short taken short
    rw [if_pos short]
    exact ⟨t, bind_of_error run⟩
  · obtain ⟨t, run, view⟩ := view.popMany taken (Nat.not_lt.1 short)
    rw [if_neg short, bind_of_ok run, asksMachine_bind, view.machine_eq]
    generalize reply : answer instr (v.stack.take taken) v.machine.heap v.machine.output = r
    obtain ⟨result, heap, output⟩ := r
    have reply' : answer instr (v.stack.take taken)
        (id (v.withStack (v.stack.drop taken)).machine).heap
          (id (v.withStack (v.stack.drop taken)).machine).output = (result, heap, output) := reply
    rw [reply']
    let w : Ideal :=
      { v with stack := v.stack.drop taken, machine := { v.machine with heap, output } }
    have view' : View capacity outer w { t with machine := { t.machine with heap, output } } :=
      ⟨by rw [view.machine_eq]; rfl, view.stack, view.capacity_eq, view.frame⟩
    cases result with
    | error fault => exact ⟨_, rfl, view'.machine_eq, view.framed⟩
    | ok results => exact view'.pushEach results

/-- The place of the next instruction, written to the frame, stands for nothing. -/
lemma setIp (ip : Nat) : ∃ t, modifyFrame (fun f => { f with ip }) s = .ok () t ∧
    View capacity outer v t := by
  obtain ⟨f, frames, mem⟩ := view.frame
  exact ⟨_, modifyFrame_eq frames _, view.machine_eq, view.stack, view.capacity_eq, _, rfl, mem⟩

lemma jumpTo (length : Nat) (target : Word) :
    Matches capacity outer (some (v.jump length target)) (Interpreter.jumpTo length target s) := by
  unfold Interpreter.jumpTo Ideal.jump
  cases Word.toIndex? target with
  | none => exact ⟨s, rfl, view.machine_eq, view.framed⟩
  | some ip =>
    by_cases inside : ip < length
    · simp only [if_pos inside]
      exact view.arrives _
    · simp only [if_neg inside]
      exact ⟨s, rfl, view.machine_eq, view.framed⟩

/-- The interpreter does what the ideal machine does, as long as the stack fits.  The locals an
instruction names must be in the frame, and a runtime call must have a shape. -/
theorem step {scope : Scope} {answer : Answer} {call : Instruction → Exec Unit}
    (describes : answer.Describes scope call) {instr : Instruction}
    (inCode : instr ∈ scope.method.code)
    (shaped : instr.action = .runtime → (scope.shape? instr).isSome)
    (locals : ∀ slot ∈ instr.action.slots, ∃ k, Word.toIndex? slot = some k ∧ k + 1 < v.mem.size)
    (ip : Nat) :
    Matches capacity outer (Ideal.step scope answer instr v)
    (Interpreter.step call scope.method ip instr s) := by
  unfold Interpreter.step Ideal.step
  generalize asks : instr.action = action at shaped locals ⊢
  cases action
  case jump target => exact view.jumpTo _ target
  case jumpWhen target value =>
    refine view.popping fun top xs s view => ?_
    by_cases equal : top = value
    · rw [if_pos equal, if_pos equal]
      exact view.jumpTo _ target
    · rw [if_neg equal, if_neg equal]
      exact view.arrives _
  case leave => exact view.arrives _
  case arraySize =>
    obtain ⟨t, run, view⟩ := view.setIp ip
    dsimp only
    rw [bind_of_ok run, describes.arraySize instr asks]
    simp only [RuntimeCall.arraySize, bind_assoc]
    refine view.poppingHandle fun array xs s view => ?_
    rw [asksHeap_bind, view.machine_eq]
    exact view.push _
  case runtime =>
    obtain ⟨t, run, view⟩ := view.setIp ip
    obtain ⟨shape, declared⟩ := Option.isSome_iff_exists.1 (shaped rfl)
    dsimp only
    rw [bind_of_ok run, describes.runtime instr inCode asks shape declared, declared]
    exact view.calling answer shape.consumed instr
  all_goals exact view.perform scope.method locals

end View

end Ideal

end StackMachine
