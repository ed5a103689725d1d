import StackMachine.Proofs.Effects

/-!
# What runtime calls do to the state

A runtime call takes words from the operand stack and leaves others there, changes what all threads
share, and may end by calling a method; a thread that it runs has a context of its own.  So a
relation that holds from step to step holds across a runtime call, if it holds across the calls of
methods and across the threads that are run (`RuntimeCall.does_perform`).
-/

namespace StackMachine.RuntimeCall

open Exec

variable {invoke : Invoke} {instr : Instruction} {prepare : Exec (Method × Word × Bool)}

/-! ### Calls -/

/-- What a runtime call does before it calls a method: it finds the method, the instance, and
whether the call asks for compiled code.  Other runtime calls call no method in their context. -/
def prepare? (instr : Instruction) : Option (Exec (Method × Word × Bool)) :=
  match instr.op with
  | .mthdCall => some do
    let method ← callee instr.operand instr.operand2
    let receiver ← pop
    let bound ← resolve method receiver
    return (bound, receiver, instr.operand3 == 1)
  | .dynMthdCall => some do
    let packed ← pop
    let receiver ← pop
    let method ← callee (packed >>> 16) (packed &&& 0xFFFF)
    return (method, receiver, false)
  | _ => none

/-- A runtime call that calls a method ends with the call. -/
lemma perform_eq_bind (prepares : prepare? instr = some prepare) :
    perform invoke instr = prepare >>= fun c => invoke c.1 c.2.1 c.2.2 := by
  unfold prepare? at prepares
  unfold perform
  generalize instr.op = op at prepares ⊢
  cases op
  case mthdCall =>
    cases prepares
    simp only [callMethod, bind_assoc, pure_bind]
  case dynMthdCall =>
    cases prepares
    simp only [callFunction, bind_assoc, pure_bind]
  all_goals cases prepares

/-! ### Threads -/

lemma leaves_runTask (task : Task) : Leaves State.context (runTask invoke task) := by
  intro s
  unfold runTask
  dsimp only
  split
  · exact ends_ok rfl rfl
  · exact ends_ok rfl rfl
  · exact ends_ok rfl rfl
  · exact ends_error rfl rfl

lemma leaves_modifyRegistry (f : Registry Work → Registry Work) :
    Leaves State.kept (modifyRegistry f) := .modifyMachine _ fun _ => rfl

lemma leaves_join (id : Word) : Leaves State.context (join invoke id) := by
  refine (Leaves.asksMachine _).bind fun work => ?_
  match work with
  | none => exact .pure ()
  | some .running => exact .throw _
  | some (.ended outcome) => exact (leaves_modifyRegistry _).context.bind fun _ => .ofExcept _
  | some (.queued task) =>
    exact (leaves_modifyRegistry _).context.bind fun _ => (leaves_runTask task).bind
      fun _ => .ofExcept _

/-- Running a queued thread. -/
lemma leaves_advance (id : Word) : Leaves State.context (advance invoke id) := by
  intro s
  unfold advance
  split
  · next task _ =>
    have attempt : Leaves State.context (do
        modifyRegistry fun r => r.setWork id .running
        let outcome ← runTask invoke task
        modifyRegistry fun r => r.setWork id (.ended outcome)) :=
      (leaves_modifyRegistry _).context.bind fun _ => (leaves_runTask task).bind fun _ =>
        (leaves_modifyRegistry _).context
    dsimp only
    split
    · exact ends_ok rfl rfl
    · exact attempt s
  · exact ends_ok rfl rfl

lemma leaves_advanceEach (ids : List Word) : Leaves State.context (advanceEach invoke ids) := by
  induction ids with
  | nil => exact .pure ()
  | cons id ids ih => exact (leaves_advance id).bind fun _ => ih

lemma leaves_writeText (array : Word) (text : String) : Leaves State.kept (writeText array text) :=
  .ite (.pure ()) (.modifyHeap _ fun _ _ => rfl)

/-- Looking a method up. -/
lemma leaves_callee (cls index : Word) : Leaves State.kept (callee cls index) := by
  refine (Leaves.asksMachine _).bind fun method? => ?_
  cases method? with
  | some method => exact .pure method
  | none => exact .fail _

lemma leaves_resolve (method : Method) (receiver : Word) :
    Leaves State.kept (resolve method receiver) := by
  refine .ite (.pure method) ?_
  refine (Leaves.asksHeap _).bind fun dynamic? => ?_
  cases dynamic? with
  | none => exact .pure method
  | some dynamic =>
    refine (Leaves.asksMachine _).bind fun bound? => ?_
    cases bound? with
    | some bound => exact .pure bound
    | none =>
      refine (Leaves.asksMachine _).bind fun bound => ?_
      exact (Leaves.modifyMachine _ fun _ => rfl).bind fun _ => .pure bound

lemma leaves_print (text : String) : Leaves State.kept (print text) := .modifyMachine _ fun _ => rfl

lemma leaves_printed (array : Word) : Leaves State.kept (printed array) := .ite (.pure _)
    (.asksHeap _)

/-! ### Each runtime call -/

/-- What can be said of a computation that takes so many words from the operand stack and leaves so
many there, if it can be said of its parts. -/
structure Rules (P : ∀ {α : Type}, Nat → Nat → Exec α → Prop) : Prop where
  bind : ∀ {α β : Type} {n k left : Nat} {m : Exec α} {f : α → Exec β}, P n 0 m →
    (∀ a, P k left (f a)) →
    P (n + k) left (m >>= f)
  throw : ∀ {α : Type} {n left : Nat} (e : Stop), P n left (throw e : Exec α)
  aside : ∀ {α : Type} {m : Exec α}, Leaves State.kept m → P 0 0 m
  pop : P 1 0 pop
  push : ∀ w, P 0 1 (push w)

namespace Rules

variable {P : ∀ {α : Type}, Nat → Nat → Exec α → Prop} (h : Rules P)

/-- Either of two computations. -/
lemma ite {α : Type} {n left : Nat} {m m' : Exec α} {c : Prop} [Decidable c] (yes : P n left m)
    (no : P n left m') :
    P n left (if c then m else m') := by
  split
  · exact yes
  · exact no

include h

lemma pure {α : Type} (a : α) : P 0 0 (Pure.pure a : Exec α) := h.aside (.pure a)

lemma popFloat : P 1 0 popFloat := h.bind h.pop fun _ => h.pure _

lemma popHandle : P 1 0 popHandle := by
  refine h.bind h.pop fun handle => ite ?_ (h.pure handle)
  exact h.bind (n := 0) (k := 0) (h.throw _) fun _ => h.pure handle

lemma popMany (n : Nat) : P n 0 (popMany n) := by
  induction n with
  | zero => exact h.pure []
  | succ n ih =>
    have takes : P (1 + (n + 0)) 0 (Exec.popMany (n + 1)) := h.bind h.pop fun w => h.bind ih
      fun ws => h.pure (w :: ws)
    rwa [Nat.add_zero, Nat.add_comm] at takes

/-- An array takes its extents, and at least one. -/
lemma newArray (kind : ElemKind) (instr : Instruction) : P instr.dims 1 (newArray kind instr) := by
  have makes : P instr.dims 1 (do
      let extents ← Exec.popMany instr.dims
      Exec.push (← alloc fun heap => heap.allocArray kind extents)) :=
    h.bind (h.popMany _) fun _ => h.bind (h.aside (.alloc _ fun _ _ => rfl)) fun handle =>
      h.push handle
  unfold RuntimeCall.newArray
  split
  · exact h.throw .panic
  · exact makes

lemma newObject (cls : Word) : P 0 1 (newObject cls) := by
  refine h.bind (k := 0) (h.aside (.asksMachine _)) fun class? => ?_
  cases class? with
  | some c => exact h.bind (h.aside (.alloc _ fun _ _ => rfl)) fun handle => h.push handle
  | none => exact h.throw _

lemma newClosure (words : Word) : P 0 1 (newClosure words) :=
  h.bind (h.aside (.alloc _ fun _ _ => rfl)) fun handle => h.push handle

lemma arraySize : P 1 1 arraySize :=
  h.bind h.popHandle fun _ => h.bind (h.aside (.asksHeap _)) fun extent => h.push extent

lemma copyArray (kind : ElemKind) : P 5 1 (copyArray kind) := by
  refine h.bind h.pop fun length => h.bind h.pop fun srcOffset => h.bind h.pop fun src =>
    h.bind h.pop fun destOffset => h.bind (k := 0) h.pop fun dest => ?_
  split
  · exact h.throw _
  · refine h.bind (k := 0) (h.aside (.asksHeap _)) fun heap? => ?_
    cases heap? with
    | some heap => exact h.bind (h.aside (.modifyHeap _ fun _ _ => rfl)) fun _ => h.push 1
    | none => exact h.push 0

lemma zeroArray (kind : ElemKind) : P 1 0 (zeroArray kind) :=
  h.bind h.popHandle fun _ => h.aside (.modifyHeap _ fun _ _ => rfl)

lemma typeOf (cls : Word) : P 1 1 (typeOf cls) :=
  h.bind h.pop fun _ => h.bind (h.aside (.asksMachine _)) fun isA => h.push (Word.ofBool isA)

lemma cast (cls : Word) : P 1 1 (cast cls) :=
  h.bind h.pop fun object => h.bind (h.aside (.asksMachine _)) fun _ => ite (h.push object)
    (h.throw _)

lemma intToText : P 3 0 intToText :=
  h.bind h.pop fun array => h.bind h.pop fun _ => h.bind h.pop
    fun _ => h.aside (leaves_writeText array _)

lemma floatToText : P 2 0 floatToText :=
  h.bind h.pop fun array => h.bind h.popFloat fun _ => h.aside (leaves_writeText array _)

lemma textToInt : P 2 1 textToInt :=
  h.bind h.popHandle fun _ => h.bind h.pop fun _ => h.bind (h.aside (.asksHeap _)) fun _ => h.push _

lemma textToFloat : P 1 1 textToFloat :=
  h.bind h.popHandle fun _ => h.bind (h.aside (.asksHeap _)) fun _ => h.push _

lemma unary (f : Float → Float) : P 1 1 (unary f) := h.bind h.popFloat fun _ => h.push _

lemma binary (f : Double → Double → Double) : P 2 1 (binary f) :=
  h.bind h.popFloat fun _ => h.bind h.popFloat fun _ => h.push _

lemma random : P 0 1 random := by
  let draw : Exec Double :=
    fun s => .ok s.machine.nextRandom.1 { s with machine := s.machine.nextRandom.2 }
  have drawn : Leaves State.kept draw := .of_ok _ (fun _ => rfl) fun _ => rfl
  have whole : RuntimeCall.random = (draw >>= fun value => Exec.push value.toWord) := rfl
  rw [whole]
  exact h.bind (h.aside drawn) fun _ => h.push _

lemma startThread (instr : Instruction) : P 2 0 (startThread instr) :=
  h.bind h.popHandle fun _ => h.bind h.pop fun _ => h.bind (h.aside (leaves_callee _ _)) fun _ =>
    h.bind (h.aside (.asksMachine _)) fun _ => h.bind (h.aside (leaves_modifyRegistry _)) fun _ =>
      h.aside (.modifyHeap _ fun _ _ => rfl)

lemma newMutex : P 1 0 newMutex :=
  h.bind h.popHandle fun _ => h.bind (h.aside (.asksMachine _)) fun _ =>
    h.bind (h.aside (leaves_modifyRegistry _)) fun _ => h.aside (.modifyHeap _ fun _ _ => rfl)

lemma enterCritical : P 1 0 enterCritical := by
  refine h.bind h.popHandle fun _ => h.bind (h.aside (.asksHeap _)) fun id =>
    h.bind (h.aside (.asksMachine _)) fun _ => h.bind (k := 0) (h.aside (.ofExcept _))
      fun registry? => ?_
  cases registry? with
  | some registry => exact h.aside (leaves_modifyRegistry _)
  | none => exact h.throw _

lemma leaveCritical : P 1 0 leaveCritical :=
  h.bind h.popHandle fun _ => h.bind (h.aside (.asksHeap _)) fun _ =>
    h.bind (h.aside (.asksMachine _)) fun _ => h.bind (h.aside (.ofExcept _)) fun _ =>
      h.aside (leaves_modifyRegistry _)

end Rules

/-! ### Relations across runtime calls -/

variable {R : State → State → Prop} {E : Stop → State → State → Prop} (h : Basis R E)
include h

/-- A relation holds across a computation if it holds across its parts, whatever they take and
leave. -/
lemma rules_ends : Rules fun {α} _ _ (m : Exec α) => Ends R E m where
  bind := h.bind
  throw := h.throw
  aside := h.aside
  pop := h.pop
  push := h.push

lemma does_trap : Ends R E trap := by
  refine h.bind h.pop fun code => ?_
  cases TrapCode.ofCode? code with
  | none => exact h.fail _
  | some service =>
    cases service
    case stdOutInt | stdOutChar => exact h.bind h.pop fun _ => h.aside (leaves_print _)
    case stdOutFloat => exact h.bind h.popFloat fun _ => h.aside (leaves_print _)
    case stdOutString =>
      exact h.bind h.pop fun _ => h.bind (h.aside (leaves_printed _))
        fun _ => h.aside (leaves_print _)
    case stdOutNewline => exact h.aside (leaves_print _)
    case sysTimeMillis => exact h.bind (h.aside (.asksMachine _)) fun clock => h.push clock

/-- A method is found by the steps of a runtime call. -/
lemma does_prepare (prepares : prepare? instr = some prepare) : Ends R E prepare := by
  unfold prepare? at prepares
  generalize instr.op = op at prepares
  cases op
  case mthdCall =>
    cases prepares
    refine h.bind (h.aside (leaves_callee _ _)) fun method => h.bind h.pop fun receiver => ?_
    exact h.bind (h.aside (leaves_resolve _ _)) fun _ => h.pure _
  case dynMthdCall =>
    cases prepares
    refine h.bind h.pop fun packed => h.bind h.pop fun receiver => ?_
    exact h.bind (h.aside (leaves_callee _ _)) fun _ => h.pure _
  all_goals cases prepares

lemma does_perform_of_alone (alone : prepare? instr = none)
    (joinless : instr.op ≠ .threadJoin) (awake : instr.op ≠ .threadSleep) :
    Ends R E (perform invoke instr) := by
  have rules := rules_ends h
  unfold prepare? at alone
  unfold perform
  generalize instr.op = op at alone joinless awake ⊢
  split
  · cases alone
  · cases alone
  · exact rules.startThread instr
  · exact rules.arraySize
  iterate 4 exact rules.newArray _ instr
  · exact rules.newObject _
  · exact rules.newClosure _
  iterate 4 exact rules.copyArray _
  iterate 4 exact rules.zeroArray _
  · exact rules.typeOf _
  · exact rules.cast _
  · exact rules.intToText
  · exact rules.floatToText
  · exact rules.textToInt
  · exact rules.textToFloat
  · exact rules.random
  iterate 10 exact rules.unary _
  iterate 3 exact rules.binary _
  · exact absurd rfl joinless
  · exact absurd rfl awake
  · exact rules.newMutex
  · exact rules.enterCritical
  · exact rules.leaveCritical
  · exact does_trap h
  · exact does_trap h
  · exact h.fail _

section Calls

variable (threads : ∀ task, Ends R E (runTask invoke task))
include threads

lemma does_join (id : Word) : Ends R E (join invoke id) := by
  refine h.bind (h.aside (.asksMachine _)) fun work => ?_
  match work with
  | none => exact h.pure ()
  | some .running => exact h.throw _
  | some (.ended outcome) => exact h.bind (h.aside (leaves_modifyRegistry _)) fun _ => h.ofExcept _
  | some (.queued task) =>
    exact h.bind (h.aside (leaves_modifyRegistry _)) fun _ => h.bind (threads task)
      fun _ => h.ofExcept _

lemma does_advance (id : Word) : Ends R E (advance invoke id) := by
  intro s
  have stays : Ends R E (pure () : Exec Unit) := h.pure ()
  unfold advance
  split
  · next task _ =>
    have attempt : Ends R E (do
        modifyRegistry fun r => r.setWork id .running
        let outcome ← runTask invoke task
        modifyRegistry fun r => r.setWork id (.ended outcome)) :=
      h.bind (h.aside (leaves_modifyRegistry _)) fun _ => h.bind (threads task) fun _ =>
        h.aside (leaves_modifyRegistry _)
    dsimp only
    -- A thread that would have to wait has done nothing.
    split
    · exact stays s
    · exact attempt s
  · exact stays s

lemma does_advanceEach (ids : List Word) : Ends R E (advanceEach invoke ids) := by
  induction ids with
  | nil => exact h.pure ()
  | cons id ids ih => exact h.bind (does_advance h threads id) fun _ => ih

lemma does_sleep : Ends R E (sleep invoke) :=
  h.bind h.pop fun _ => h.bind (h.aside (.modifyMachine _ fun _ => rfl)) fun _ =>
    h.bind (h.aside (.asksMachine _)) fun _ => does_advanceEach h threads _

lemma does_joinThread : Ends R E (joinThread invoke) :=
  h.bind h.popHandle fun _ => h.bind (h.aside (.asksHeap _)) fun _ => does_join h threads _

variable (calls : ∀ method receiver site, Ends R E (invoke method receiver site))
include calls

/-- A relation that holds from step to step, and across the calls of methods and the threads that
are run, holds across a runtime call. -/
theorem does_perform (instr : Instruction) : Ends R E (perform invoke instr) := by
  cases calling : prepare? instr with
  | some prepare =>
    rw [perform_eq_bind calling]
    exact h.bind (does_prepare h calling) fun _ => calls _ _ _
  | none =>
    by_cases joins : instr.op = .threadJoin
    · rw [perform, joins]
      exact does_joinThread h threads
    by_cases sleeps : instr.op = .threadSleep
    · rw [perform, sleeps]
      exact does_sleep h threads
    exact does_perform_of_alone h calling joins sleeps

end Calls

end StackMachine.RuntimeCall
