import StackMachine.Proofs.Calls
import StackMachine.Proofs.Native.Entry
import StackMachine.Sample
import StackMachine.X64.Lowering

/-!
# Compiled code agrees with the interpreter

A call of a compiled body and a call of the interpreter are compared as their caller sees them: by
the words that they leave on the operand stack, or the cause of their fault, and by what all threads
share (`Call.Ending`).  What the runtime does is any function of the instruction, the words it
takes, the heap and the output (`Answer.runtime`).

A call that ends in one engine ends in the other, and in the same way
(`Native.agrees_of_generated`).
-/

namespace StackMachine

open Native (Scope)

/-! ### Ends of calls -/

namespace Call

/-- How a call ends, as its caller sees it: the words on the operand stack, bottom first, or the
cause of a fault; and what all threads share. -/
inductive Ending where
  | returned (words : List Word) (machine : Machine)
  | faulted (cause : Cause) (machine : Machine)

namespace Ending

/-- The end of a call, unless it has not come to one. -/
def of? : EStateM.Result Stop State Unit → Option Ending
  | .ok () s => some (.returned s.context.stack.toList s.machine)
  | .error (.fault f) s => some (.faulted f.cause s.machine)
  | .error _ _ => none

/-- Two ends are the same, up to the details of a cause. -/
def Agrees : Ending → Ending → Prop
  | .returned words machine, .returned words' machine' => words = words' ∧ machine = machine'
  | .faulted cause machine, .faulted cause' machine' =>
    cause.sameKind cause' = true ∧ machine = machine'
  | _, _ => False

end Ending

/-- A call, bounded by fuel, comes to an end from a state. -/
def Ends (call : Nat → Exec Unit) (s : State) (ending : Ending) : Prop :=
  ∃ fuel, Ending.of? (call fuel s) = some ending

/-- Two calls come to the same ends from a state. -/
structure Agree (call call' : Nat → Exec Unit) (s : State) : Prop where
  forward : ∀ ending, Ends call s ending → ∃ ending', Ends call' s ending' ∧ ending.Agrees ending'
  backward : ∀ ending', Ends call' s ending' → ∃ ending, Ends call s ending ∧ ending.Agrees ending'

end Call

/-! ### The cause of a status -/

namespace Cause

variable {cause : Cause} {status : Word}

/-- A status reports a cause of the kind that it stands for. -/
lemma sameKind_statusCause (known : cause.status? = some status) :
    cause.sameKind (Call.statusCause status) = true := by
  cases cause <;> cases known <;> rfl

lemma status_lt (known : cause.status? = some status) : status < 0 := by
  cases cause <;> cases known <;> decide

lemma sameKind_refl (cause : Cause) : cause.sameKind cause = true := beq_self_eq_true _

end Cause

lemma Fault.cause_withTrace (names : List String) (f : Fault) :
    (f.withTrace names).cause = f.cause := by
  unfold Fault.withTrace
  split <;> rfl

/-! ### Runs of the interpreter -/

namespace Interpreter

variable {call : Instruction → Exec Unit} {method : Method} {s t : State}
  {r : EStateM.Result Stop State Unit} {fuel : Nat} {cause : Cause}

/-- A run that has ended ends the same way with more fuel. -/
lemma run_mono : ∀ {more ip : Nat} {s : State}, fuel ≤ more → (∀ t, r ≠ .error .stuck t) →
      run call method fuel ip s = r → run call method more ip s = r := by
  induction fuel with
  | zero => exact fun _ ended run => absurd run.symm (ended _)
  | succ fuel ih =>
    intro more ip s le ended
    obtain ⟨more, rfl⟩ := Nat.exists_eq_add_of_le' (Nat.lt_of_lt_of_le fuel.succ_pos le)
    have le' : fuel ≤ more := Nat.le_of_succ_le_succ le
    rw [run, run]
    cases method.code[ip]? with
    | none => exact id
    | some instr =>
      dsimp only
      cases stepped : step call method (ip + 1) instr s with
      | error stop t =>
        rw [Exec.bind_of_error stepped, Exec.bind_of_error stepped]
        exact id
      | ok flow t =>
        rw [Exec.bind_of_ok stepped, Exec.bind_of_ok stepped]
        cases flow with
        | next | goto target => exact ih le' ended
        | leave => exact id

/-- How a run ended, unless it did not: by leaving the method, or for a cause. -/
def end? : EStateM.Result Stop State Unit → Option (Option Cause)
  | .ok _ _ => some none
  | .error (.fault f) _ => some (some f.cause)
  | .error _ _ => none

/-- A run that ended for a cause stopped with a fault. -/
lemma exists_of_end (ended : end? r = some (some cause)) : ∃ f t, r = .error (.fault f) t ∧
    f.cause = cause := by
  match r with
  | .ok _ _ => cases ended
  | .error .stuck _ => cases ended
  | .error .panic _ => cases ended
  | .error (.fault f) t => exact ⟨f, t, rfl, Option.some.inj (Option.some.inj ended)⟩

/-- A run that is known to end avoids every cause but the one it ends for. -/
lemma Avoids.of_end {ending : Option Cause}
    (ended : end? (run call method fuel 0 s) = some ending) (other : ending ≠ some cause) :
    Avoids call method s cause := by
  intro fuel' f t stops same
  have notStuck : ∀ u, run call method fuel 0 s ≠ .error .stuck u := by
    intro u stuck
    rw [stuck] at ended
    cases ended
  have first : run call method (max fuel fuel') 0 s = run call method fuel 0 s :=
    run_mono (Nat.le_max_left fuel fuel') notStuck rfl
  have second : run call method (max fuel fuel') 0 s = .error (.fault f) t :=
    run_mono (Nat.le_max_right fuel fuel') (fun _ => nofun) stops
  rw [← first, second] at ended
  cases ended
  exact other (congrArg some same)

/-- A method is regular if its fields are near the start of their blocks and it accesses no
arrays. -/
lemma Regular.of_forall (accesses : ∀ instr ∈ method.code,
    (∀ field ∈ instr.action.field?, (max field.1 0).toInt + field.2 ≤ 2 ^ 28) ∧
      instr.action.dims? = none ∧ instr.action ≠ .arraySize) : Regular call method s := by
  intro ip t _ instr at_ip
  obtain ⟨near, noElement, noSize⟩ := accesses instr (Array.mem_of_getElem? at_ip)
  refine ⟨fun slot words field _ _ _ => near (slot, words) field, ?_,
    fun size => absurd size noSize⟩
  intro dims element
  cases noElement.symm.trans element

end Interpreter

/-! ### Meanings of runtime calls -/

/-- The runtime that acts on the instructions of a method by a meaning of its calls. -/
def Answer.runtime (answer : Answer) (scope : Scope) (instr : Instruction) : Exec Unit :=
  if instr.action = .arraySize then RuntimeCall.arraySize
  else answer.perform (scope.taken instr) instr

lemma Answer.describes_runtime (answer : Answer) (scope : Scope) :
    answer.Describes scope (answer.runtime scope) where
  arraySize _ asks := if_pos asks
  runtime instr _ asks shape declared := by
    have taken : scope.taken instr = shape.consumed := by
      rw [Scope.taken, declared]
      rfl
    rw [Answer.runtime, if_neg (by rw [asks]; rintro ⟨⟩), taken]

/-! ### Both engines -/

namespace Native.Execution

variable {γ φ : Type} [DecidableEq γ] [DecidableEq φ] {scope : Scope} {answer : Answer}
  {perform : Instruction → Exec Unit} {last : GenState γ φ} {s : State} {receiver : Word}
  {words : List Word} {fuel : Nat} {status : Word} {σ : State} {x : Execution γ φ}

/-- A call of a compiled body ends as its status says. -/
lemma runNative_of_ok (admits : s.Admits scope.method)
    (run : (ofCall scope answer (Call.callback perform scope.addresses scope.method) last s
      receiver).run fuel ⟨0, {}, s.entered scope.method receiver⟩ = .ok status σ) :
    Call.runNative perform scope.addresses fuel last.ops (Native.places last.ops.toList)
      scope.method receiver s = Call.finishNative status σ := by
  rw [Call.runNative, Exec.bind_of_ok (Exec.pushFrame_eq receiver admits), Exec.asksMachine_bind]
  exact Exec.bind_of_ok run

/-- A call of a compiled body stops where its operations stop. -/
lemma runNative_of_error (admits : s.Admits scope.method) {stop : Stop}
    (run : (ofCall scope answer (Call.callback perform scope.addresses scope.method) last s
      receiver).run fuel ⟨0, {}, s.entered scope.method receiver⟩ = .error stop σ) :
    Call.runNative perform scope.addresses fuel last.ops (Native.places last.ops.toList)
      scope.method receiver s = .error stop σ := by
  rw [Call.runNative, Exec.bind_of_ok (Exec.pushFrame_eq receiver admits), Exec.asksMachine_bind]
  exact Exec.bind_of_error run

/-- A call of the interpreter is a run of the method between taking and giving back a frame. -/
lemma interpret_eq (admits : s.Admits scope.method) (fuel : Nat) :
    Call.interpret perform fuel scope.method receiver s =
        Exec.finallyTraced (Interpreter.run perform scope.method fuel 0) Exec.popFrame
          (s.entered scope.method receiver) := by
  rw [Call.interpret, Exec.bind_of_ok (Exec.pushFrame_eq receiver admits)]

def endingOf (pool : Machine → Machine) : Ideal.Ending → Call.Ending
  | .left v => .returned v.stack.reverse (pool v.machine)
  | .faulted f machine => .faulted f.cause (pool machine)

/-- What all threads share when the frame of a call has been given back. -/
def givenBack (machine : Machine) : Machine :=
  { machine with pool := ⟨Frame.blank :: machine.pool.free⟩ }

lemma ending_interpret {v : Ideal} (together : x.Together perform v s) (fuel : Nat) :
    Call.Ending.of? (Exec.finallyTraced (Interpreter.run perform x.scope.method fuel 0)
      Exec.popFrame s) = (Ideal.run x.scope x.answer x.capacity fuel 0 v).map
        (endingOf givenBack) := by
  have mirrors := together.mirrors fuel
  cases ended : Ideal.run x.scope x.answer x.capacity fuel 0 v with
  | none =>
    rw [ended] at mirrors
    obtain ⟨t, run⟩ := mirrors
    rw [Exec.finallyTraced_stop run nofun]
    rfl
  | some ending =>
    rw [ended] at mirrors
    cases ending with
    | left v =>
      obtain ⟨t, run, view⟩ := mirrors
      rw [Exec.finallyTraced_ok run, Exec.popFrame_eq]
      show some (Call.Ending.returned t.returned.context.stack.toList t.returned.machine) = _
      rw [State.machine_returned view.framed, State.context_returned view.framed,
        view.stack.toList_eq, view.machine_eq]
      rfl
    | faulted f machine =>
      obtain ⟨t, run, same, framed⟩ := mirrors
      rw [Exec.finallyTraced_fault run (Exec.popFrame_eq t)]
      show some (Call.Ending.faulted (f.withTrace t.names).cause t.returned.machine) = _
      rw [State.machine_returned framed, same, Fault.cause_withTrace]
      rfl

omit [DecidableEq γ] [DecidableEq φ] in
/-- The end of a call of a compiled body agrees with the end of the ideal machine. -/
lemma Concludes.agrees {ending : Ideal.Ending} (concludes : x.Concludes ending status σ) :
    ∃ ending', Call.Ending.of? (Call.finishNative status σ) = some ending' ∧
      (endingOf givenBack ending).Agrees ending' := by
  cases ending with
  | left v =>
    obtain ⟨rfl, stack, machine, calm⟩ := concludes
    have framed : Ideal.Framed x.outer σ.released := calm.framed
    refine ⟨_, congrArg Call.Ending.of? (Call.finishNative_returned calm.pending (by decide)), ?_⟩
    rw [State.machine_returned framed, State.context_returned framed]
    exact ⟨stack.toList_eq.symm, congrArg givenBack machine.symm⟩
  | faulted f machine =>
    obtain ⟨same, ⟨cause, rfl, known, calm⟩ | ⟨rfl, halted⟩⟩ := concludes
    · have framed : Ideal.Framed x.outer σ.released := calm.framed
      refine ⟨_, congrArg Call.Ending.of?
        (Call.finishNative_status calm.pending (Cause.status_lt known)), ?_⟩
      rw [State.machine_returned framed, Fault.cause_withTrace]
      exact ⟨Cause.sameKind_statusCause known, congrArg givenBack same.symm⟩
    · obtain ⟨names, kept⟩ := halted.pending
      have framed : Ideal.Framed x.outer σ.released := halted.framed
      refine ⟨_, congrArg Call.Ending.of? (Call.finishNative_pending kept), ?_⟩
      rw [State.machine_returned framed, Fault.cause_withTrace]
      exact ⟨Cause.sameKind_refl _, congrArg givenBack same.symm⟩

/-- Where a compiled body and the interpreter end together, so do their calls. -/
theorem Together.agree
    (together : (ofCall scope answer (Call.callback perform scope.addresses scope.method) last s
      receiver).Together perform (.start s words scope.method receiver)
      (s.entered scope.method receiver)) (admits : s.Admits scope.method) :
    Call.Agree (fun fuel => Call.interpret perform fuel scope.method receiver)
      (fun fuel => Call.runNative perform scope.addresses fuel last.ops
        (Native.places last.ops.toList) scope.method receiver) s := by
  constructor
  · rintro ending ⟨fuel, ended⟩
    dsimp only at ended
    rw [interpret_eq admits] at ended
    obtain ⟨ending, run, rfl⟩ :=
      Option.map_eq_some_iff.1 ((ending_interpret together fuel).symm.trans ended)
    obtain ⟨n, status, σ, finishes, concludes⟩ := together.finishes run
    obtain ⟨ending', ended', agrees⟩ := concludes.agrees
    refine ⟨ending', ⟨n + 1 + 0, ?_⟩, agrees⟩
    dsimp only
    rw [runNative_of_ok admits (finishes.run_add 0)]
    exact ended'
  · rintro ending' ⟨fuel, ended⟩
    dsimp only at ended
    have notStuck : ∀ t, (ofCall scope answer (Call.callback perform scope.addresses scope.method)
        last s receiver).run fuel ⟨0, {}, s.entered scope.method receiver⟩ ≠ .error .stuck t := by
      intro t stuck
      rw [runNative_of_error admits stuck] at ended
      cases ended
    obtain ⟨fuel', ending, run⟩ := together.exists_run notStuck
    obtain ⟨n, status, σ, finishes, concludes⟩ := together.finishes run
    obtain ⟨ending'', ended'', agrees⟩ := concludes.agrees
    rw [runNative_of_ok admits (finishes.eq_of_run rfl notStuck)] at ended
    obtain rfl := Option.some.inj (ended''.symm.trans ended)
    refine ⟨_, ⟨fuel', ?_⟩, agrees⟩
    dsimp only
    rw [interpret_eq admits]
    exact (ending_interpret together fuel').trans (congrArg (Option.map _) run)

end Native.Execution

/-- A method that does not get a frame runs in neither engine. -/
lemma Call.agree_of_refused {γ φ : Type} [DecidableEq γ] [DecidableEq φ]
    {perform : Instruction → Exec Unit} {addresses : Native.Addresses}
    {ops : Array (Native.Operation γ φ)} {places : List (JumpTarget × Nat)} {method : Method}
    {receiver : Word} {s t : State} {e : Stop}
    (refused : Exec.pushFrame method receiver s = .error e t) :
    Agree (fun fuel => interpret perform fuel method receiver)
      (fun fuel => runNative perform addresses fuel ops places method receiver) s := by
  have first (fuel : Nat) := Exec.bind_of_error
    (f := fun _ => Exec.finallyTraced (Interpreter.run perform method fuel 0) Exec.popFrame) refused
  have second (fuel : Nat) : runNative perform addresses fuel ops places method receiver s = _ :=
    Exec.bind_of_error refused
  have same (fuel : Nat) := congrArg Ending.of? ((first fuel).trans (second fuel).symm)
  have agrees (ending : Ending) : ending.Agrees ending := by
    cases ending with
    | returned stack machine => exact ⟨rfl, rfl⟩
    | faulted cause machine => exact ⟨Cause.sameKind_refl _, rfl⟩
  constructor
  · rintro ending ⟨fuel, ended⟩
    exact ⟨ending, ⟨fuel, (same fuel).symm.trans ended⟩, agrees ending⟩
  · rintro ending ⟨fuel, ended⟩
    exact ⟨ending, ⟨fuel, (same fuel).trans ended⟩, agrees ending⟩

namespace Native

section

variable {γ φ : Type} [DecidableEq γ] [DecidableEq φ] {ints : RegisterPool γ}
  {floats : RegisterPool φ} {scope : Scope} {ops : List (Operation γ φ)} {answer : Answer}
  {s : State} {words : List Word} {receiver : Word}

/-- Whether an operation writes a float register to memory. -/
def Operation.storesFloat : Operation γ φ → Bool
  | .storeFloat _ _ _ => true
  | _ => false

omit [DecidableEq γ] [DecidableEq φ] in
/-- Operations that write no float register write no part of one. -/
lemma WholeWords.of_forall (none : ∀ op ∈ ops, !op.storesFloat) : WholeWords ops.toArray := by
  intro n i a shift disp base disp' src _ store
  have mem : .storeFloat base disp' src ∈ ops := List.mem_toArray.1 (Array.mem_of_getElem? store)
  cases none _ mem

end

/-! ### A method that calls itself -/

namespace Factorial

/-- The recursive method of the factorial sample. -/
def scope : Scope where
  program := Sample.factorial.program
  method := (Sample.factorial.program.method? 0 1).getD { name := "", code := #[] }

/-- Its operations on the registers of a target. -/
def ops : List (Operation X64.Reg X64.Xmm) :=
  (generate (X64.backend .sysV).ints (X64.backend .sysV).floats scope).1

/-- What the inner call of `3!` leaves: `2!`, which is its argument. -/
def answer : Answer := fun instr args heap output =>
  (.ok (List.replicate (((scope.shape? instr).map fun shape => shape.produced.length).getD 0)
    (args.getD 1 0)), heap, output)

/-- A thread that has run nothing, with `3` on its operand stack. -/
def state : State where
  machine := {
    program := scope.program, settings := {}, heap := {}, statics := #[], records := #[], seed := 1
    clock := 0 }
  context := { stack := (OperandStack.empty 8).pushUnchecked 3 }

end Factorial

end Native

end StackMachine
