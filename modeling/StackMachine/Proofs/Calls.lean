import StackMachine.Engine.Call
import StackMachine.Proofs.Frames

/-!
# Calls, piece by piece

What each piece of a call comes to: the engine that is chosen, the frame that is taken, the end of a
compiled body, and the operand stack that is cut back.  A call that fails has been refused, or found
no engine, or the engine that ran it has failed (`Call.invokeWith_eq_fault`).
-/

namespace StackMachine

/-! ### The end of a compiled body -/

namespace State

/-- The state after the kept fault has been taken. -/
def released (s : State) : State :=
  { s with context := { s.context with pending := none, halt := 0 } }

/-- The state after a fault has been kept. -/
def parked (s : State) (f : Fault) : State :=
  { s with context := { s.context with pending := some f, halt := 1 } }

end State

namespace Call

variable {s : State} {status : Word} {f : Fault}

lemma takePending_eq (s : State) : takePending s = .ok s.context.pending s.released := rfl

/-- A body that returned without a fault gives its frame back. -/
lemma finishNative_returned (calm : s.context.pending = none) (nonneg : ¬status < 0) :
    finishNative status s = .ok () s.released.returned := by
  rw [finishNative, Exec.bind_of_ok (takePending_eq s), calm]
  dsimp only
  rw [if_neg nonneg]
  exact Exec.popFrame_eq _

/-- A body that returned a negative status has a fault. -/
lemma finishNative_status (calm : s.context.pending = none) (negative : status < 0) :
      finishNative status s =
        .error (.fault (Fault.withTrace s.released.names { cause := statusCause status }))
          s.released.returned := by
  rw [finishNative, Exec.bind_of_ok (takePending_eq s), calm]
  dsimp only
  rw [if_pos negative]
  exact Exec.finallyTraced_fault rfl (Exec.popFrame_eq _)

/-- A fault that has been kept goes on, whatever the status. -/
lemma finishNative_pending (kept : s.context.pending = some f) :
    finishNative status s = .error (.fault f) s.released.returned := by
  rw [finishNative, Exec.bind_of_ok (takePending_eq s), kept]
  exact Exec.bind_of_ok (Exec.popFrame_eq _)

end Call

namespace Call

open Exec

variable {γ φ : Type} {addresses : Native.Addresses} {ops : Array (Native.Operation γ φ)}
  {places : List (JumpTarget × Nat)} {body : Exec Unit}

/-! ### The engine -/

/-- Choosing an engine is no part of the call: it leaves the context alone. -/
def Choice.Apart (choose : Choice) : Prop :=
  ∀ method site, Leaves State.context (choose method site)

/-- Whether a method is compiled depends on its record, and is recorded there. -/
lemma leaves_nativeBody {δ : Type} {part : State → δ} (recordless : ∀ (s : State) records pages,
      part { s with machine := { s.machine with records, pages } } = part s) (method : Method)
    (site : Bool) :
    Leaves part (nativeBody method site) := by
  have records (f : MethodRecord → MethodRecord) :
      Leaves part (modifyMachine fun m => m.modifyRecord method.id f) :=
    .modifyMachine _ fun s => recordless s _ s.machine.pages
  have settles : Leaves part (settleOutcome method) := by
    refine (Leaves.asksMachine _).bind fun outcome => ?_
    cases outcome with
    | ok r =>
      have installs : Leaves part (modifyMachine fun m => { m with pages := r.2 }) :=
        .modifyMachine _ fun s => recordless s s.machine.records _
      exact installs.bind fun _ => (records _).bind fun _ => .pure _
    | error e => exact (records _).bind fun _ => .fail _
  have counts : Leaves part (countCall method site) :=
    (Leaves.asksMachine _).bind fun _ => .ite ((records _).bind fun _ => .asksMachine _)
      (.asksMachine _)
  refine (Leaves.asksMachine _).bind fun settings => .ite (.pure none) ?_
  refine (Leaves.asksMachine _).bind fun known? => ?_
  cases known? with
  | some outcome => cases outcome <;> exact .pure _
  | none =>
    refine counts.bind fun calls => .ite (settles.bind fun outcome => ?_) (.pure none)
    cases outcome <;> exact .pure _

/-- Whether a method is compiled depends on what all threads share. -/
lemma apart_nativeBody : Choice.Apart nativeBody := leaves_nativeBody fun _ _ _ => rfl

variable {choose : Choice} {fuel : Nat} {method : Method} {receiver : Word} {site : Bool}
  {s t u : State} {f : Fault} {floor : Nat} {perform : Instruction → Exec Unit}

lemma interpret_eq (admits : s.Admits method) : interpret perform fuel method receiver s =
    finallyTraced (Interpreter.run perform method fuel 0) popFrame (s.entered method receiver) :=
  bind_of_ok (pushFrame_eq receiver admits)

/-- What a compiled method is entered with. -/
def entryOf (s : State) (method : Method) (receiver : Word) : Native.Entry :=
  ⟨method.id, s.machine.classMemory method.id.cls, receiver⟩

/-- A compiled body runs in the frame of its method. -/
lemma runNative_eq [DecidableEq γ] [DecidableEq φ] (admits : s.Admits method) :
    runNative perform addresses fuel ops places method receiver s =
      (Native.Processor.run (callback perform addresses method) (entryOf s method receiver)
        ops places fuel 0 {} >>= finishNative) (s.entered method receiver) := by
  rw [runNative, bind_of_ok (pushFrame_eq receiver admits)]
  rfl

/-! ### The whole call -/

/-- A body that is cut back has failed before. -/
lemma restoring_eq_fault (fails : restoring floor body s = .error (.fault f) t) :
    ∃ u, body s = .error (.fault f) u ∧
      t = { u with context := { u.context with stack := u.context.stack.truncate floor } } := by
  rw [restoring, tryCatch_eq] at fails
  cases ran : body s with
  | ok a u =>
    rw [ran] at fails
    cases fails
  | error e u =>
    rw [ran] at fails
    cases e with
    | fault f' =>
      cases fails
      exact ⟨u, rfl, rfl⟩
    | panic | stuck => cases fails

/-- The chosen engine runs the call. -/
def enter (perform : Instruction → Exec Unit) (fuel : Nat) (body? : Option NativeBody)
    (method : Method) (receiver : Word) : Exec Unit :=
  match body? with
  | some body => runNative perform {} fuel body.ops body.places method receiver
  | none => interpret perform fuel method receiver

/-- A method that does not get a frame does not run. -/
lemma enter_error {e : Stop} (refused : pushFrame method receiver s = .error e t)
    (body? : Option NativeBody) :
    enter perform fuel body? method receiver s = .error e t := by
  cases body? with
  | none | some body => exact bind_of_error refused

/-- A call that is not refused and finds its engine. -/
lemma invokeWith_eq {body? : Option NativeBody} (running : s.machine.halted = false)
    (chosen : choose method site s = .ok body? u) :
    invokeWith choose (fuel + 1) method receiver site s = restoring
        (s.context.stack.size - method.params)
        (enter (RuntimeCall.perform (invokeWith choose fuel)) fuel body? method receiver) u := by
  have asked : asksMachine Machine.halted s = .ok false s := by rw [← running]; rfl
  have counted : asksContext (fun c => c.stack.size - method.params) s =
      .ok (s.context.stack.size - method.params) s := rfl
  rw [invokeWith, bind_of_ok asked, if_neg Bool.false_ne_true]
  dsimp only
  rw [bind_of_ok counted, bind_of_ok chosen]
  cases body? <;> rfl

lemma restoring_fault (fails : body s = .error (.fault f) u) :
      restoring floor body s = .error (.fault f)
      { u with context := { u.context with stack := u.context.stack.truncate floor } } := by
  rw [restoring, tryCatch_eq, fails]
  rfl

/-- The operand stack is as it is after a call that is stuck or breaks off. -/
lemma restoring_stop {e : Stop} (stops : body s = .error e u) (faultless : ∀ f, e ≠ .fault f) :
    restoring floor body s = .error e u := by
  rw [restoring, tryCatch_eq, stops]
  cases e with
  | fault f => exact absurd rfl (faultless f)
  | panic => rfl
  | stuck => rfl

/-- A call of a machine that has been told to stop is refused. -/
lemma invokeWith_halted (halted : s.machine.halted = true) :
    invokeWith choose (fuel + 1) method receiver site s = .error (.fault { cause := .halted })
      s := by
  have asked : asksMachine Machine.halted s = .ok true s := by rw [← halted]; rfl
  rw [invokeWith, bind_of_ok asked, if_pos rfl]
  rfl

lemma invokeWith_error {e : Stop} (running : s.machine.halted = false)
    (chosen : choose method site s = .error e u) :
    invokeWith choose (fuel + 1) method receiver site s = .error e u := by
  have asked : asksMachine Machine.halted s = .ok false s := by rw [← running]; rfl
  have counted : asksContext (fun c => c.stack.size - method.params) s =
      .ok (s.context.stack.size - method.params) s := rfl
  rw [invokeWith, bind_of_ok asked, if_neg Bool.false_ne_true]
  dsimp only
  rw [bind_of_ok counted, bind_of_error chosen]

lemma invokeWith_eq_fault
    (fails : invokeWith choose (fuel + 1) method receiver site s = .error (.fault f) t) :
    (s.machine.halted = true ∧ f = { cause := .halted }) ∨
      (s.machine.halted = false ∧ ∃ u, choose method site s = .error (.fault f) u) ∨
      s.machine.halted = false ∧ ∃ body? u v, choose method site s = .ok body? u ∧
        enter (RuntimeCall.perform (invokeWith choose fuel)) fuel body? method receiver u =
          .error (.fault f) v := by
  cases halted : s.machine.halted with
  | true =>
    rw [invokeWith_halted halted] at fails
    cases fails
    exact .inl ⟨rfl, rfl⟩
  | false =>
    cases chosen : choose method site s with
    | error e u =>
      rw [invokeWith_error halted chosen] at fails
      cases fails
      exact .inr (.inl ⟨rfl, t, rfl⟩)
    | ok body? u =>
      rw [invokeWith_eq halted chosen] at fails
      obtain ⟨v, failed, -⟩ := restoring_eq_fault fails
      exact .inr (.inr ⟨rfl, body?, u, v, rfl, failed⟩)

/-! ### Runtime calls from compiled code -/

section Served

variable {perform : Instruction → Exec Unit} {tag ip : Word} {instr? : Option Instruction}
  {instr : Instruction} {cause : Cause}

/-- A fault is kept with the names of the active methods, if none is kept before. -/
lemma parkTraced_eq (free : s.context.pending = none) (f : Fault) :
    parkTraced f s = .ok () (s.parked (f.withTrace s.names)) := by
  have parks : parkTraced f s = .ok () { s with context := { s.context with
      pending := s.context.pending.orElse fun _ => some (f.withTrace s.names), halt := 1 } } := rfl
  rw [parks, free]
  rfl

/-- Why a compiled body fails for which the runtime breaks off. -/
def brokenOff (instr : Instruction) :
    Cause := .unsupported ("panic while executing " ++ instr.op.name)

/-- Why the runtime refuses a call: there is no instruction, or not the one that is expected. -/
def refusal? (tag : Word) : Option Instruction → Option Cause
  | none => some (.unsupported ("tag " ++ Numeral.signedDecimal tag.toInt))
  | some instr =>
    if (Word.toIndex? tag).bind Opcode.ofTag? = some instr.op then none
    else some (.unsupported ("tag " ++ Numeral.signedDecimal tag.toInt ++ " for " ++ instr.op.name))

lemma fromNative_refused (refused : refusal? tag instr? = some cause) :
    fromNative perform tag instr? ip = parkTraced { cause } := by
  cases instr? with
  | none =>
    cases refused
    rfl
  | some instr =>
    unfold refusal? at refused
    unfold fromNative
    dsimp only at refused ⊢
    split at refused
    · cases refused
    · next other =>
      cases refused
      rw [if_neg other]

lemma fromNative_served (served : refusal? tag (some instr) = none)
    (saves : modifyFrame (fun f => { f with ip := (Word.toIndex? ip).getD 0 }) s = .ok () t) :
    fromNative perform tag (some instr) ip s =
      match perform instr t with
      | .ok () u => .ok () u
      | .error (.fault f) u => parkTraced f u
      | .error .panic u => parkTraced { cause := brokenOff instr } u
      | .error .stuck u => .error .stuck u := by
  unfold refusal? at served
  unfold fromNative
  dsimp only at served ⊢
  split at served
  · next same =>
    rw [if_pos same, bind_of_ok saves, tryCatch_eq]
    cases perform instr t with
    | ok a u => rfl
    | error e u => cases e <;> rfl
  · cases served

end Served

end Call

end StackMachine
