import StackMachine.Bytecode.Builder
import StackMachine.Proofs.RuntimeEffects

/-!
# Shapes of runtime calls

A compiled method writes to memory as many words as a runtime call is declared to take, and reads
back as many as it is declared to leave.  `Exec.Moves taken left m` says that a computation that
answers has taken so many words from the operand stack, left so many there, and has not touched the
words below; it is closed under sequence, so each runtime call is followed along its text.

Runtime calls move the words that are declared (`RuntimeCall.holds_of_perform`).  Two kinds are left
out: traps, whose words depend on the service, and arrays that are asked for with no extent, which
are declared to take nothing and take one.
-/

namespace StackMachine

namespace Exec

variable {α β : Type}

/-- A computation that is known to answer has done so in a state. -/
lemma exists_of_run' {m : Exec α} {s : State} {a : α} (answers : m.run' s = some a) :
    ∃ t, m s = .ok a t := by
  unfold EStateM.run' at answers
  split at answers
  · next run => exact ⟨_, run.trans (by rw [Option.some.inj answers])⟩
  · cases answers

/-- A computation that answers has taken words from the operand stack, left others there, and has
not touched the words below. -/
def Moves (taken left : Nat) (m : Exec α) : Prop :=
  ∀ s words a t, s.context.stack.Holds words → m s = .ok a t →
    ∃ results : List Word, results.length = left ∧ taken ≤ words.length ∧
      t.context.stack.Holds (results ++ words.drop taken)

namespace Moves

variable {n k left : Nat} {m m' : Exec α}

/-- A computation that stops has not answered. -/
lemma throw (e : Stop) : Moves n left (throw e : Exec α) := by
  intro s words a t _ run
  cases run

/-- A computation that leaves the operand stack alone. -/
lemma of_leaves (leaves : Leaves (fun s => s.context.stack) m) : Moves 0 0 m := by
  intro s words a t holds run
  have same : t.context.stack = s.context.stack := (leaves s).1 a t run
  exact ⟨[], rfl, Nat.zero_le _, same ▸ holds⟩

/-- Two computations in a row, the first of which leaves nothing. -/
lemma bind {f : α → Exec β} (first : Moves n 0 m) (second : ∀ a, Moves k left (f a)) :
    Moves (n + k) left (m >>= f) := by
  intro s words b t holds run
  cases ran : m s with
  | error e u => cases (bind_of_error ran).symm.trans run
  | ok a u =>
    obtain ⟨results, none, enough, holds'⟩ := first s words a u holds ran
    obtain rfl := List.eq_nil_of_length_eq_zero none
    obtain ⟨results, length, enough', holds''⟩ :=
      second a u _ b t holds' ((bind_of_ok ran).symm.trans run)
    rw [List.nil_append, List.length_drop] at enough'
    rw [List.nil_append, List.drop_drop] at holds''
    exact ⟨results, length, by omega, holds''⟩

lemma pop : Moves 1 0 Exec.pop := by
  intro s words a t holds run
  unfold Exec.pop at run
  cases words with
  | nil =>
    rw [holds.pop_nil] at run
    cases run
  | cons w words =>
    rw [holds.pop_eq] at run
    cases run
    exact ⟨[], rfl, Nat.le_add_left 1 _, holds.dropUnchecked⟩

lemma push (w : Word) : Moves 0 1 (Exec.push w) := by
  intro s words a t holds run
  unfold Exec.push at run
  by_cases room : words.length < s.context.stack.capacity
  · rw [holds.push_eq room] at run
    cases run
    exact ⟨[w], rfl, Nat.zero_le _, holds.pushUnchecked room w⟩
  · rw [holds.push_full (Nat.not_lt.1 room)] at run
    cases run

/-- A computation on what all threads share. -/
lemma aside (leaves : Leaves State.context m) : Moves 0 0 m := of_leaves (leaves.map Context.stack)

end Moves

end Exec

namespace RuntimeCall

open Exec

variable {invoke : Invoke}

/-- Words are moved by a computation as by its parts. -/
lemma rules_moves : Rules Moves where
  bind := .bind
  throw := .throw
  aside leaves := .aside leaves.context
  pop := .pop
  push := .push

lemma moves_sleep : Moves 1 0 (sleep invoke) :=
  Moves.pop.bind fun _ => (Moves.aside (.modifyMachine _ fun _ => rfl)).bind fun _ =>
    (Moves.aside (.asksMachine _)).bind fun _ => .aside (leaves_advanceEach _)

lemma moves_joinThread : Moves 1 0 (joinThread invoke) :=
  rules_moves.popHandle.bind fun _ => (Moves.aside (.asksHeap _)).bind
    fun _ => .aside (leaves_join _)

end RuntimeCall

/-- Is an array made? -/
def Opcode.makesArray : Opcode → Bool
  | .newByteAry | .newCharAry | .newIntAry | .newFloatAry => true
  | _ => false

/-- Is a service asked for? -/
def Opcode.isTrap : Opcode → Bool
  | .trap | .trapRtrn => true
  | _ => false

/-- An array that is asked for with extents takes as many words as there are extents. -/
lemma Instruction.dims_eq {instr : Instruction} (positive : 0 < instr.operand) :
    instr.dims = (Word.toIndex? instr.operand).getD 0 := by
  have notBelow : ¬instr.operand < 1 := by
    rw [Int64.lt_iff_toInt_lt] at positive ⊢
    exact Int.not_lt.2 positive
  have nonneg : 0 ≤ instr.operand := Int64.le_of_lt positive
  rw [dims, if_neg notBelow, Word.toIndex?_eq_some_iff.2 ⟨nonneg, rfl⟩]
  rfl

namespace RuntimeCall

open Exec

lemma moves_perform {invoke : Invoke} {instr : Instruction} {shape : Shape}
    (declared : instr.op.shape? instr.operand = some shape) (noTrap : instr.op.isTrap = false)
    (extents : instr.op.makesArray = true → 0 < instr.operand) :
    Moves shape.consumed shape.produced.length (perform invoke instr) := by
  have dims_eq (makes : instr.op.makesArray = true) := Instruction.dims_eq (extents makes)
  obtain ⟨op, operand, operand2, operand3, float⟩ := instr
  cases op <;> cases declared
  case loadArySize => exact rules_moves.arraySize
  case newByteAry | newCharAry | newIntAry | newFloatAry =>
    exact dims_eq rfl ▸ rules_moves.newArray _ _
  case newObjInst => exact rules_moves.newObject _
  case newFuncInst => exact rules_moves.newClosure _
  case cpyByteAry | cpyCharAry | cpyIntAry | cpyFloatAry => exact rules_moves.copyArray _
  case zeroByteAry | zeroCharAry | zeroIntAry | zeroFloatAry => exact rules_moves.zeroArray _
  case objTypeOf => exact rules_moves.typeOf _
  case objInstCast => exact rules_moves.cast _
  case i2s => exact rules_moves.intToText
  case f2s => exact rules_moves.floatToText
  case s2i => exact rules_moves.textToInt
  case s2f => exact rules_moves.textToFloat
  case randFloat => exact rules_moves.random
  case atan2Float | modFloat | powFloat => exact rules_moves.binary _
  case threadJoin => exact moves_joinThread
  case threadSleep => exact moves_sleep
  case threadMutex => exact rules_moves.newMutex
  case criticalStart => exact rules_moves.enterCritical
  case criticalEnd => exact rules_moves.leaveCritical
  case asyncMthdCall => exact rules_moves.startThread _
  case trap | trapRtrn => cases noTrap
  all_goals exact rules_moves.unary _

/-- A runtime call that succeeds has taken from the operand stack the words that are declared, left
as many as are declared, at most one, and has not touched the words below.

Traps are left out, and so are arrays that are asked for with no extent. -/
theorem holds_of_perform {invoke : Invoke} {instr : Instruction} {shape : Shape} {s t : State}
    {words : List Word} (declared : instr.op.shape? instr.operand = some shape)
    (noTrap : instr.op.isTrap = false) (extents : instr.op.makesArray = true → 0 < instr.operand)
    (holds : s.context.stack.Holds words) (performed : perform invoke instr s = .ok () t) :
    shape.produced.length ≤ 1 ∧ ∃ results : List Word, results.length = shape.produced.length ∧
      shape.consumed ≤ words.length ∧
      t.context.stack.Holds (results ++ words.drop shape.consumed) := by
  have atMostOne : shape.produced.length ≤ 1 := by
    obtain ⟨op, operand, operand2, operand3, float⟩ := instr
    cases op <;> cases declared <;> first | exact Nat.le_refl _ | exact Nat.zero_le _
  exact ⟨atMostOne, moves_perform declared noTrap extents s words () t holds performed⟩

namespace Extents

/-- Makes an array of two dimensions. -/
def instr : Instruction := Build.with1 .newIntAry 2

/-- A thread with two extents on its operand stack, and a word below them. -/
def state : State where
  machine :=
    { program := {}, settings := {}, heap := {},
      statics := #[], records := #[], seed := 1, clock := 0 }
  context := { stack := (((OperandStack.empty 4).pushUnchecked 7).pushUnchecked 2).pushUnchecked 3 }

end Extents

open Extents in
/-- The array is left where its two extents were, above the word below them. -/
theorem holds_of_perform_newIntAry :
    ∃ t handle, perform (fun _ _ _ => throw .stuck) instr state = .ok () t ∧
      t.context.stack.Holds [handle, 7] := by
  have answers : (perform (fun _ _ _ => throw .stuck) instr).run' state = some () := by
    decide +kernel
  obtain ⟨t, performed⟩ := exists_of_run' answers
  have holds : state.context.stack.Holds [3, 2, 7] :=
    (((OperandStack.holds_empty (by decide)).pushUnchecked (by decide) 7).pushUnchecked (by decide)
      2).pushUnchecked (by decide) 3
  have declared : instr.op.shape? instr.operand = some ⟨2, [.int]⟩ := by decide
  obtain ⟨-, results, one, -, holds'⟩ := holds_of_perform declared (by decide)
    (by decide) holds performed
  obtain ⟨handle, rfl⟩ := List.length_eq_one_iff.1 one
  exact ⟨t, handle, performed, holds'⟩

end RuntimeCall

end StackMachine
