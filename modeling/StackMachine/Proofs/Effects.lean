import StackMachine.Proofs.Ideal

/-!
# What computations leave alone

`Exec.Leaves part m` says that a computation leaves a part of the state as it was, whether it
answers or stops.  `Exec.Ends R E m` says more generally that the state before and the state after
are in a relation: in `R`, which will be a preorder, if the computation answers, and in one of `E`
that depends on why it stops if it does.  For `Exec.Does R m` it is the same relation; only a
computation that is stuck has no state after.

Of what all threads share, only calls change what is in `Machine.core`: the free frames, the records
of the methods and the compiled code.
-/

namespace StackMachine

/-- What all threads share and only calls change, with what nothing changes. -/
def Machine.core (m : Machine) :
    Program × Settings × FramePool × Array (Array MethodRecord) × CodePages :=
  (m.program, m.settings, m.pool, m.records, m.pages)

/-- The context, and what only calls change. -/
def State.kept (s : State) :
    Context × Program × Settings × FramePool × Array (Array MethodRecord) × CodePages :=
  (s.context, s.machine.core)

namespace Exec

/-- A computation leaves a part of the state alone, whatever it comes to. -/
def Leaves {α β : Type} (part : State → β) (m : Exec α) : Prop :=
  ∀ s, (∀ a t, m s = .ok a t → part t = part s) ∧ ∀ e t, m s = .error e t → part t = part s

section Ends

variable {α : Type} {r : EStateM.Result Stop State α} {P : State → Prop} {Q : Stop → State → Prop}
  {t : State}

/-- What holds after an answer. -/
lemma ends_ok {a : α} (ended : r = .ok a t) (holds : P t) :
    (∀ b u, r = .ok b u → P u) ∧ ∀ e u, r = .error e u → Q e u := by
  subst ended
  exact ⟨fun _ _ same => (by cases same; exact holds), fun _ _ same => (nomatch same)⟩

/-- What holds after a stop. -/
lemma ends_error {e : Stop} (stopped : r = .error e t) (holds : Q e t) :
    (∀ b u, r = .ok b u → P u) ∧ ∀ e u, r = .error e u → Q e u := by
  subst stopped
  exact ⟨fun _ _ same => (nomatch same), fun _ _ same => (by cases same; exact holds)⟩

end Ends

namespace Leaves

variable {α β δ : Type} {part : State → δ} {m : Exec α}

lemma throw (e : Stop) : Leaves part (throw e : Exec α) := fun _ => ends_error rfl rfl

/-- Two computations in a row. -/
lemma bind {f : α → Exec β} (first : Leaves part m) (second : ∀ a, Leaves part (f a)) :
    Leaves part (m >>= f) := by
  intro s
  cases run : m s with
  | ok a t =>
    have same := (first s).1 a t run
    rw [bind_of_ok run]
    exact ⟨fun b u rest => ((second a t).1 b u rest).trans same,
      fun e u rest => ((second a t).2 e u rest).trans same⟩
  | error e t =>
    exact ends_error (bind_of_error run) ((first s).2 e t run)

lemma of_ok (f : State → α) {g : State → State} (answers : ∀ s, m s = .ok (f s) (g s))
    (same : ∀ s, part (g s) = part s) : Leaves part m := fun s => ends_ok (answers s) (same s)

lemma reads (f : State → α) (only : ∀ s, m s = .ok (f s) s) :
    Leaves part m := of_ok f only fun _ => rfl

/-- An answer. -/
lemma pure (a : α) : Leaves part (Pure.pure a) := reads (fun _ => a) fun _ => rfl

lemma modify {f : State → State} (same : ∀ s, part (f s) = part s) :
    Leaves part (modify f : Exec Unit) := of_ok (fun _ => ()) (fun _ => rfl) same

/-- What leaves a part alone leaves alone what is read off it. -/
lemma map (leaves : Leaves part m) (f : δ → β) : Leaves (fun s => f (part s)) m :=
  fun s => ⟨fun a t run => congrArg f ((leaves s).1 a t run),
    fun e t run => congrArg f ((leaves s).2 e t run)⟩

/-- Either of two computations. -/
lemma ite {c : Prop} [Decidable c] {m' : Exec α} (yes : Leaves part m) (no : Leaves part m') :
    Leaves part (if c then m else m') := by
  split
  · exact yes
  · exact no

lemma fail (cause : Cause) : Leaves part (Exec.fail cause : Exec α) := throw _

lemma ofExcept (e : Except Cause α) : Leaves part (Exec.ofExcept e) := by
  cases e with
  | ok a => exact .pure a
  | error cause => exact .fail cause

lemma asksMachine (f : Machine → α) : Leaves part (Exec.asksMachine f) := reads _ fun _ => rfl

lemma asksHeap (f : Heap → α) : Leaves part (Exec.asksHeap f) := reads _ fun _ => rfl

/-- A computation that leaves alone what only calls change, and the context. -/
lemma context (leaves : Leaves State.kept m) : Leaves State.context m := leaves.map Prod.fst

lemma modifyMachine (f : Machine → Machine)
    (same : ∀ s : State, part { s with machine := f s.machine } = part s) :
    Leaves part (Exec.modifyMachine f) := modify same

lemma modifyHeap (f : Heap → Heap)
    (heapless : ∀ (s : State) heap, part { s with machine := { s.machine with heap } } = part s) :
    Leaves part (Exec.modifyHeap f) := modify fun s => heapless s _

/-- A new block is added to the heap. -/
lemma alloc (f : Heap → Except Heap.Denial (Word × Heap))
    (heapless : ∀ (s : State) heap, part { s with machine := { s.machine with heap } } = part s) :
    Leaves part (Exec.alloc f) := by
  intro s
  unfold Exec.alloc
  split
  · next handle heap _ => exact ends_ok rfl (heapless s heap)
  · exact ends_error rfl rfl
  · next heap _ => exact ends_error rfl (heapless s heap)

variable (stackless : ∀ (s : State) (stack : OperandStack),
  part { s with context := { s.context with stack } } = part s)
include stackless

/-- A pop changes the operand stack only. -/
lemma pop : Leaves part Exec.pop := by
  intro s
  unfold Exec.pop
  cases s.context.stack.pop with
  | ok r => exact ends_ok rfl (stackless s r.2)
  | error cause => exact ends_error rfl rfl

/-- A push changes the operand stack only. -/
lemma push (w : Word) : Leaves part (Exec.push w) := by
  intro s
  unfold Exec.push
  cases s.context.stack.push w with
  | ok stack => exact ends_ok rfl (stackless s stack)
  | error cause => exact ends_error rfl rfl

/-- Pops in a row change the operand stack only. -/
lemma popMany (n : Nat) : Leaves part (Exec.popMany n) := by
  induction n with
  | zero => exact .pure _
  | succ n ih => exact (pop stackless).bind fun _ => ih.bind fun _ => .pure _

/-- Pushes in a row change the operand stack only. -/
lemma pushEach (ws : List Word) : Leaves part (Session.pushEach ws) := by
  induction ws with
  | nil => exact .pure _
  | cons w ws ih => exact (push stackless w).bind fun _ => ih

end Leaves

/-- What comes of a computation whose stop is handled. -/
lemma tryCatch_eq {α : Type} (m : Exec α) (handle : Stop → Exec α) (s : State) :
    (tryCatch m handle : Exec α) s = match m s with
      | .ok a t => .ok a t
      | .error e t => handle e t := by
  show EStateM.tryCatch m handle s = _
  unfold EStateM.tryCatch
  cases m s <;> rfl

/-- The states before and after a computation are in a relation, by what it comes to. -/
def Ends {α : Type} (R : State → State → Prop) (E : Stop → State → State → Prop) (m : Exec α) :
    Prop :=
  ∀ s, (∀ a t, m s = .ok a t → R s t) ∧ ∀ e t, m s = .error e t → E e s t

/-- A relation after every stop, unless there is no state after. -/
def Always (R : State → State → Prop) (e : Stop) (s t : State) : Prop := e ≠ .stuck → R s t

/-- The states before and after a computation are in a relation, unless it is stuck. -/
abbrev Does {α : Type} (R : State → State → Prop) (m : Exec α) : Prop := Ends R (Always R) m

lemma Ends.mono {α : Type} {m : Exec α} {R R' : State → State → Prop}
    {E E' : Stop → State → State → Prop} (ends : Ends R E m) (answers : ∀ {s t}, R s t → R' s t)
    (stops : ∀ {e s t}, E e s t → E' e s t) : Ends R' E' m :=
  fun s => ⟨fun a t run => answers ((ends s).1 a t run), fun e t run => stops ((ends s).2 e t run)⟩

/-- Either of two computations. -/
lemma Ends.ite {α : Type} {R : State → State → Prop} {E : Stop → State → State → Prop}
    {m m' : Exec α} {c : Prop} [Decidable c] (yes : Ends R E m) (no : Ends R E m') :
    Ends R E (if c then m else m') := by
  split
  · exact yes
  · exact no

lemma Does.mono {α : Type} {m : Exec α} {R R' : State → State → Prop} (does : Does R m)
    (weaker : ∀ {s t}, R s t → R' s t) : Does R' m :=
  Ends.mono does weaker fun holds ne => weaker (holds ne)

/-- A computation that leaves a part of the state alone does so by an equation. -/
lemma Leaves.does {α δ : Type} {part : State → δ} {m : Exec α} (leaves : Leaves part m) :
    Does (fun s t => part t = part s) m :=
  fun s => ⟨(leaves s).1, fun e t run _ => (leaves s).2 e t run⟩

/-- A relation that holds between states from step to step, whatever comes of a step: of what all
threads share it looks only at what calls change, and a word that is pushed or popped keeps to
it. -/
structure Basis (R : State → State → Prop) (E : Stop → State → State → Prop) : Prop where
  trans : ∀ {s t u}, R s t → R t u → R s u
  stops : ∀ {s t} e, R s t → E e s t
  later : ∀ {e s t u}, R s t → E e t u → E e s u
  machine : ∀ (s : State) (machine : Machine), machine.core = s.machine.core →
    R s { s with machine }
  pop : Ends R E Exec.pop
  push : ∀ w, Ends R E (Exec.push w)

namespace Basis

variable {α β : Type} {R : State → State → Prop} {E : Stop → State → State → Prop} (h : Basis R E)
  {m : Exec α}
include h

lemma refl (s : State) : R s s := h.machine s s.machine rfl

/-- A computation on what all threads share. -/
lemma aside (leaves : Leaves State.kept m) : Ends R E m := by
  have shared {s t : State} (same : t.kept = s.kept) : R s t := by
    obtain ⟨machine, context⟩ := t
    obtain ⟨rfl, core⟩ := Prod.mk.inj same
    exact h.machine s machine core
  exact fun s => ⟨fun a t run => shared ((leaves s).1 a t run),
    fun e t run => h.stops e (shared ((leaves s).2 e t run))⟩

lemma pure (a : α) : Ends R E (Pure.pure a : Exec α) := h.aside (.pure a)

lemma throw (e : Stop) : Ends R E (throw e : Exec α) := h.aside (.throw e)

lemma fail (cause : Cause) : Ends R E (Exec.fail cause : Exec α) := h.throw _

/-- A computation after something else. -/
lemma after {s t : State} (first : R s t) (second : Ends R E m) :
    (∀ a u, m t = .ok a u → R s u) ∧ ∀ e u, m t = .error e u → E e s u :=
  ⟨fun a u run => h.trans first ((second t).1 a u run),
    fun e u run => h.later first ((second t).2 e u run)⟩

/-- Two computations in a row. -/
lemma bind {f : α → Exec β} (first : Ends R E m) (second : ∀ a, Ends R E (f a)) :
    Ends R E (m >>= f) := by
  intro s
  cases run : m s with
  | ok a t =>
    rw [bind_of_ok run]
    exact h.after ((first s).1 a t run) (second a)
  | error e t => exact ends_error (bind_of_error run) ((first s).2 e t run)

lemma popFloat : Ends R E Exec.popFloat := h.bind h.pop fun _ => h.pure _

lemma popHandle : Ends R E Exec.popHandle := by
  refine h.bind h.pop fun handle => .ite ?_ (h.pure handle)
  exact h.bind (h.fail _) fun _ => h.pure handle

lemma ofExcept (e : Except Cause α) : Ends R E (Exec.ofExcept e) := h.aside (.ofExcept e)

end Basis

end Exec

/-- A runtime call that goes by its meaning changes the operand stack, the heap and the output. -/
lemma Answer.leaves_perform {δ : Type} {part : State → δ} (answer : Answer) (taken : Nat)
    (instr : Instruction)
    (stackless : ∀ (s : State) (stack : OperandStack),
      part { s with context := { s.context with stack } } = part s)
    (machineless : ∀ (s : State) (machine : Machine), part { s with machine } = part s) :
    Exec.Leaves part (answer.perform taken instr) := by
  refine (Exec.Leaves.popMany stackless taken).bind fun args =>
    (Exec.Leaves.reads (fun s => s.machine) fun _ => rfl).bind fun m => ?_
  obtain ⟨result, heap, output⟩ := answer instr args m.heap m.output
  refine (Exec.Leaves.modify fun s => machineless s _).bind fun _ => ?_
  cases result with
  | ok results => exact .pushEach stackless results
  | error fault => exact .throw _

end StackMachine
