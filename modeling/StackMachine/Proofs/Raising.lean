import StackMachine.Proofs.EngineEffects

/-!
# Faults as they are raised

A fault is raised without a trace; the call stack is added on its way out (`Fault.withTrace`).  So
the runtime, as far as it calls no method, and the interpreter only stop with fresh faults
(`RuntimeCall.fresh_perform`, `Interpreter.fresh_step`).
-/

namespace StackMachine

namespace Exec

/-- A computation whose faults have no trace yet. -/
def Fresh {α : Type} (m : Exec α) : Prop := ∀ s f t, m s = .error (.fault f) t → f.trace = []

namespace Fresh

variable {α β : Type} {m : Exec α}

lemma of_ok (answers : ∀ s, ∃ a t, m s = .ok a t) : Fresh m := by
  intro s f t fails
  obtain ⟨a, u, ran⟩ := answers s
  cases ran.symm.trans fails

@[simp]
lemma pure (a : α) : Fresh (Pure.pure a) := of_ok fun s => ⟨a, s, rfl⟩

@[simp]
lemma stuck : Fresh (throw .stuck : Exec α) := fun _ _ _ fails => nomatch fails

@[simp]
lemma panic : Fresh (throw .panic : Exec α) := fun _ _ _ fails => nomatch fails

@[simp]
lemma fail (cause : Cause) : Fresh (Exec.fail cause : Exec α) := by
  intro s f t fails
  cases fails
  rfl

/-- Two computations in a row. -/
lemma bind {f : α → Exec β} (first : Fresh m) (second : ∀ a, Fresh (f a)) : Fresh (m >>= f) := by
  intro s g t fails
  rcases bind_eq_error fails with failed | ⟨a, u, -, failed⟩
  · exact first s g t failed
  · exact second a u g t failed

/-- Either of two computations. -/
lemma ite {c : Prop} [Decidable c] {m' : Exec α} (yes : Fresh m) (no : Fresh m') :
    Fresh (if c then m else m') := by
  split
  · exact yes
  · exact no

@[simp]
lemma discard (fresh : Fresh m) : Fresh (Functor.discard m) := fresh.bind fun _ => .pure _

@[simp]
lemma ofExcept (e : Except Cause α) : Fresh (Exec.ofExcept e) := by
  cases e with
  | ok a => exact .pure a
  | error cause => exact .fail cause

@[simp]
lemma asksMachine (f : Machine → α) : Fresh (Exec.asksMachine f) := of_ok fun _ => ⟨_, _, rfl⟩

@[simp]
lemma asksHeap (f : Heap → α) : Fresh (Exec.asksHeap f) := of_ok fun _ => ⟨_, _, rfl⟩

@[simp]
lemma modifyMachine (f : Machine → Machine) :
    Fresh (Exec.modifyMachine f) := of_ok fun _ => ⟨_, _, rfl⟩

@[simp]
lemma modifyHeap (f : Heap → Heap) : Fresh (Exec.modifyHeap f) := modifyMachine _

@[simp]
lemma alloc (f : Heap → Except Heap.Denial (Word × Heap)) : Fresh (Exec.alloc f) := by
  intro s g t fails
  unfold Exec.alloc at fails
  split at fails <;> cases fails
  rfl

@[simp]
lemma pop : Fresh Exec.pop := by
  intro s g t fails
  unfold Exec.pop at fails
  split at fails <;> cases fails
  rfl

@[simp]
lemma push (w : Word) : Fresh (Exec.push w) := by
  intro s g t fails
  unfold Exec.push at fails
  split at fails <;> cases fails
  rfl

@[simp]
lemma popFloat : Fresh Exec.popFloat := pop.bind fun _ => .pure _

@[simp]
lemma popHandle : Fresh Exec.popHandle := pop.bind fun _ => .ite ((fail _).bind fun _ => .pure _)
    (.pure _)

@[simp]
lemma popMany (n : Nat) : Fresh (Exec.popMany n) := by
  induction n with
  | zero => exact .pure []
  | succ n ih => exact pop.bind fun _ => ih.bind fun _ => .pure _

@[simp]
lemma pushFloat (x : Double) : Fresh (Exec.pushFloat x) := push _

@[simp]
lemma asksFrame (f : Frame → α) :
    Fresh (Exec.asksFrame f) := of_ok fun s => ⟨_, s, asksFrame_eq_headD f s⟩

@[simp]
lemma modifyFrame (f : Frame → Frame) : Fresh (Exec.modifyFrame f) := of_ok fun _ => ⟨_, _, rfl⟩

@[simp]
lemma localPlace (slot : Word) : Fresh (Exec.localPlace slot) := by
  refine (asksFrame _).bind fun found => ?_
  split
  · exact .pure _
  · exact .fail _

@[simp]
lemma readLocal (slot : Word) : Fresh (Exec.readLocal slot) := (localPlace slot).bind
    fun _ => asksFrame _

@[simp]
lemma writeLocal (slot value : Word) : Fresh (Exec.writeLocal slot value) :=
  (localPlace slot).bind fun _ => modifyFrame _

@[simp]
lemma peek : Fresh Exec.peek := by
  have asks : Fresh (Exec.asksContext fun c => c.stack.top?) := of_ok fun _ => ⟨_, _, rfl⟩
  exact asks.bind fun _ => .ofExcept _

@[simp]
lemma print (text : String) : Fresh (Exec.print text) := modifyMachine _

end Fresh

end Exec

namespace RuntimeCall

open Exec

variable {invoke : Invoke}

@[simp]
lemma fresh_callee (cls index : Word) : Fresh (callee cls index) := by
  refine (Fresh.asksMachine _).bind fun method? => ?_
  cases method? with
  | some method => exact .pure method
  | none => exact .fail _

@[simp]
lemma fresh_resolve (method : Method) (receiver : Word) : Fresh (resolve method receiver) := by
  refine .ite (.pure method) ((Fresh.asksHeap _).bind fun dynamic? => ?_)
  cases dynamic? with
  | none => exact .pure method
  | some dynamic =>
    refine (Fresh.asksMachine _).bind fun bound? => ?_
    cases bound? with
    | some bound => exact .pure bound
    | none =>
      exact (Fresh.asksMachine _).bind fun _ => (Fresh.modifyMachine _).bind fun _ => .pure _

@[simp]
lemma fresh_modifyRegistry (f : Registry Work → Registry Work) :
    Fresh (modifyRegistry f) := .modifyMachine _

/-- Running a thread reports its faults, and has none of its own. -/
@[simp]
lemma fresh_runTask (task : Task) : Fresh (runTask invoke task) := by
  intro s f t fails
  unfold runTask at fails
  dsimp only at fails
  split at fails <;> cases fails

lemma fresh_advance (id : Word) : Fresh (advance invoke id) := by
  intro s f t fails
  unfold advance at fails
  split at fails
  · next task _ =>
    have attempt : Fresh (do
        modifyRegistry fun r => r.setWork id .running
        let outcome ← runTask invoke task
        modifyRegistry fun r => r.setWork id (.ended outcome)) :=
      (fresh_modifyRegistry _).bind fun _ => (fresh_runTask task).bind
        fun _ => fresh_modifyRegistry _
    dsimp only at fails
    split at fails
    · cases fails
    · exact attempt s f t fails
  · cases fails

@[simp]
lemma fresh_advanceEach (ids : List Word) : Fresh (advanceEach invoke ids) := by
  induction ids with
  | nil => exact .pure ()
  | cons id ids ih => exact (fresh_advance id).bind fun _ => ih

/-- A runtime call that calls no method stops with fresh faults, as each of its steps does. -/
lemma fresh_perform {instr : Instruction} (alone : instr.op ≠ .mthdCall ∧ instr.op ≠ .dynMthdCall) :
    Fresh (perform invoke instr) := by
  unfold perform
  generalize instr.op = op at alone
  cases op
  case mthdCall => exact absurd rfl alone.1
  case dynMthdCall => exact absurd rfl alone.2
  all_goals
    repeat' first
      | (simp; done)
      | refine .bind ?_ fun _ => ?_
      | refine .ite ?_ ?_
      | split

end RuntimeCall

namespace Interpreter

open Exec

variable {call : Instruction → Exec Unit} {method : Method} {ip : Nat} {instr : Instruction}

lemma fresh_foldIndices (array : Word) (dims : List Nat) (index : Word) :
    Fresh (foldIndices array dims index) := by
  induction dims generalizing index with
  | nil => exact .pure index
  | cons dim dims ih => exact (Fresh.asksHeap _).bind fun _ => Fresh.pop.bind fun _ => ih _

@[simp]
lemma fresh_store (pointer value : Word) : Fresh (store pointer value) := .modifyHeap _

@[simp]
lemma fresh_popElement (kind : ElemKind) (dims : Nat) : Fresh (popElement kind dims) :=
  Fresh.popHandle.bind fun _ => Fresh.pop.bind fun _ => (fresh_foldIndices _ _ _).bind fun _ =>
    (Fresh.asksHeap _).bind fun _ => (Fresh.ofExcept _).bind fun _ => .asksHeap _

@[simp]
lemma fresh_jumpTo (length : Nat) (target : Word) : Fresh (jumpTo length target) := by
  unfold jumpTo
  split
  · exact .ite (.pure _) (.fail _)
  · exact .fail _

/-- An action of the interpreter stops with fresh faults. -/
@[simp]
lemma fresh_perform (action : Action) : Fresh (perform method action) := by
  cases action
  all_goals
    unfold perform
    repeat' first
      | (simp; done)
      | refine .bind ?_ fun _ => ?_
      | refine .ite ?_ ?_

/-- An instruction that the interpreter performs itself stops with fresh faults. -/
lemma fresh_step (own : ¬(instr.action = .arraySize ∨ instr.action = .runtime)) :
    Fresh (step call method ip instr) := by
  unfold step
  split
  · exact fresh_jumpTo _ _
  · exact Fresh.pop.bind fun _ => .ite (fresh_jumpTo _ _) (.pure _)
  · exact .pure _
  · next size => exact absurd (.inl size) own
  · next runtime => exact absurd (.inr runtime) own
  · exact (fresh_perform _).bind fun _ => .pure _

end Interpreter

end StackMachine
