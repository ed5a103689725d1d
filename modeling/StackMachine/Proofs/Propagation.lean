import StackMachine.Bytecode.Builder
import StackMachine.Proofs.IdealRun
import StackMachine.Proofs.Raising
import StackMachine.Proofs.Restoring

/-!
# The way of a fault through nested calls

A fault changes its carrier on its way out: the interpreter passes it on, compiled code reports it
by a status or leaves it with the runtime, which keeps it until the body has returned.
`Call.During` says which operations are performed while a method is called, at any nesting of calls
and by either engine.  If one of them stops with a fault, this fault comes out of the call, with the
names of the methods that were active then; and no other fault does (`Call.fails_iff_raises`).  The
runtime breaking off is a fault for the compiled body that has called it; then frames are left on
the call stack.
-/

namespace StackMachine

/-! ### Traces -/

namespace Fault

/-- A fault has its trace, or takes none. -/
def Placed (f : Fault) : Prop := f.cause.isTraced = true → f.trace ≠ []

lemma Placed.withTrace_eq {f : Fault} (placed : f.Placed) (names : List String) :
    f.withTrace names = f := by
  refine if_neg fun ⟨traced, empty⟩ => placed traced ?_
  exact List.isEmpty_iff.1 empty

lemma placed_withTrace {names : List String} (named : names ≠ []) (f : Fault) :
    (f.withTrace names).Placed := by
  unfold withTrace
  split
  · exact fun _ => named
  · next kept =>
    intro traced empty
    exact kept ⟨traced, List.isEmpty_iff.2 empty⟩

end Fault

namespace State

variable {s t : State}

/-- Some active method has a name. -/
def Named (s : State) : Prop := ∃ method, some method ∈ s.context.frames.map Frame.method

lemma Named.names_ne_nil (named : s.Named) : s.names ≠ [] := by
  obtain ⟨method, mem⟩ := named
  obtain ⟨f, inFrames, same⟩ := List.mem_map.1 mem
  refine List.ne_nil_of_mem (a := method.qualifiedName s.machine.program) ?_
  exact List.mem_filterMap.2 ⟨f, inFrames, by rw [same]; rfl⟩

lemma Above.named (above : s.Above t) (named : s.Named) : t.Named := by
  obtain ⟨method, mem⟩ := named
  exact ⟨method, above.methods.subset mem⟩

/-- A method that has taken a frame is active. -/
lemma named_entered (s : State) (method : Method) (receiver : Word) :
    (s.entered method receiver).Named := by
  exact ⟨method, List.mem_map.2 ⟨_, List.mem_cons_self, rfl⟩⟩

end State

/-! ### Runtime calls that call a method -/

namespace RuntimeCall

open Exec

variable {instr : Instruction}

lemma fresh_prepare {prepare : Exec (Method × Word × Bool)}
    (prepares : prepare? instr = some prepare) : Fresh prepare := by
  unfold prepare? at prepares
  generalize instr.op = op at prepares
  cases op
  case mthdCall =>
    cases prepares
    exact (fresh_callee _ _).bind fun _ => Fresh.pop.bind fun _ => (fresh_resolve _ _).bind
      fun _ => .pure _
  case dynMthdCall =>
    cases prepares
    exact Fresh.pop.bind fun _ => Fresh.pop.bind fun _ => (fresh_callee _ _).bind fun _ => .pure _
  all_goals cases prepares

lemma fresh_perform_of_prepare? {invoke : Invoke} (alone : prepare? instr = none) :
    Fresh (perform invoke instr) := by
  refine fresh_perform ⟨fun calls => ?_, fun calls => ?_⟩
  · rw [prepare?, calls] at alone
    cases alone
  · rw [prepare?, calls] at alone
    cases alone

end RuntimeCall

/-! ### The operations of a call -/

namespace Call

open Exec

/-- An operation, performed in a state, raises a fault: it stops with a cause, and the trace is the
names of the methods that are active then, the innermost first, unless it is a cause without a
place. -/
def Raises (op : Exec Unit) (s : State) (f : Fault) : Prop :=
  ∃ g t, op s = .error (.fault g) t ∧ f = ⟨g.cause, if g.cause.isTraced then t.names else []⟩

/-- An operation, performed in a state, stops with a fault, which is passed on with a trace. -/
def Stops (op : Exec Unit) (s : State) (f : Fault) : Prop :=
  ∃ g t, op s = .error (.fault g) t ∧ f = g.withTrace t.names

section Performed

variable (choose : Choice) (fuel : Nat) (method : Method) (receiver : Word) (site : Bool)
  (s : State)

/-- A call is not refused, finds its engine and takes its frame. -/
structure Begins (body? : Option NativeBody) (t : State) : Prop where
  running : s.machine.halted = false
  chosen : choose method site s = .ok body? t
  admits : t.Admits method

/-- While a method is called, the interpreter comes to an instruction. -/
inductive Executes (ip : Nat) (instr : Instruction) (u : State) : Prop
  | intro {t : State} (begins : Begins choose method site s none t)
      (reaches : Interpreter.Reaches (RuntimeCall.perform (invokeWith choose fuel)) method 0
        (t.entered method receiver) ip u)
      (at_ip : method.code[ip]? = some instr)

/-- While a method is called, its compiled body comes to a call of the runtime. -/
inductive Asks (tag address ip : Word) (u : State) : Prop
  | intro {t : State} {body : NativeBody} {place : Nat} {p : Native.Processor X64.Reg X64.Xmm}
      {onHalt : JumpTarget} (begins : Begins choose method site s (some body) t)
      (reaches : Native.Processor.Reaches
        (callback (RuntimeCall.perform (invokeWith choose fuel)) {} method)
        (entryOf t method receiver) body.ops body.places 0 {} (t.entered method receiver) place p u)
      (fetch : body.ops[place]? = some (.callRuntime tag address ip onHalt))

/-- While a method is called, its compiled body has the runtime perform an instruction in a
state. -/
inductive Calls (instr : Instruction) (v : State) : Prop
  | intro {u : State} {tag address ip : Word}
      (asks : Asks choose fuel method receiver site s tag address ip u)
      (found : instructionAt? {} method address = some instr)
      (expected : refusal? tag (some instr) = none)
        (saves : modifyFrame (fun f => { f with ip := (Word.toIndex? ip).getD 0 }) u = .ok () v)

/-- While a method is called, the runtime is to perform an instruction in a state: for the
interpreter, or for a compiled body. -/
inductive Serves (instr : Instruction) (v : State) : Prop
  | interpreted {u : State} {ip : Nat}
      (executes : Executes choose fuel method receiver site s ip instr u)
      (asks : instr.action = .arraySize ∨ instr.action = .runtime)
        (saves : modifyFrame (fun f => { f with ip := ip + 1 }) u = .ok () v)
  | compiled (calls : Calls choose fuel method receiver site s instr v)

end Performed

mutual

/-- While a method is called, with so much fuel and in a state, an operation is performed in another
state. -/
inductive During (choose : Choice) :
    Nat → Method → Word → Bool → State → Exec Unit → State → Prop
  /-- The call is refused if the machine has been told to stop. -/
  | refuses {fuel : Nat} {method : Method} {receiver : Word} {site : Bool} {s : State} :
      During choose (fuel + 1) method receiver site s
        (do if ← asksMachine Machine.halted then fail .halted) s
  /-- The method may have to be compiled. -/
  | chooses {fuel : Nat} {method : Method} {receiver : Word} {site : Bool} {s : State}
      (running : s.machine.halted = false) :
      During choose (fuel + 1) method receiver site s (discard (choose method site)) s
  /-- A frame is taken. -/
  | enters {fuel : Nat} {method : Method} {receiver : Word} {site : Bool} {s t : State}
      {body? : Option NativeBody} (running : s.machine.halted = false)
      (chosen : choose method site s = .ok body? t) :
      During choose (fuel + 1) method receiver site s (pushFrame method receiver) t
  /-- The interpreter performs an instruction itself. -/
  | steps {fuel : Nat} {method : Method} {receiver : Word} {site : Bool} {s u : State} {ip : Nat}
      {instr : Instruction} (executes : Executes choose fuel method receiver site s ip instr u)
      (own : ¬(instr.action = .arraySize ∨ instr.action = .runtime)) :
      During choose (fuel + 1) method receiver site s
        (discard (Interpreter.step (RuntimeCall.perform (invokeWith choose fuel)) method
          (ip + 1) instr)) u
  /-- A compiled body asks the runtime for something else than it finds in the method. -/
  | mistakes {fuel : Nat} {method : Method} {receiver : Word} {site : Bool} {s u : State}
      {tag address ip : Word} {cause : Cause}
      (asks : Asks choose fuel method receiver site s tag address ip u)
        (refused : refusal? tag (instructionAt? {} method address) = some cause) :
      During choose (fuel + 1) method receiver site s (fail cause) u
  /-- The runtime breaks off in a call of a compiled body. -/
  | breaks {fuel : Nat} {method : Method} {receiver : Word} {site : Bool} {s v w : State}
      {instr : Instruction} (calls : Calls choose fuel method receiver site s instr v)
      (broken : RuntimeCall.perform (invokeWith choose fuel) instr v = .error .panic w) :
      During choose (fuel + 1) method receiver site s (fail (brokenOff instr)) w
  /-- A compiled body returns a status, when it has not been told to halt. -/
  | returns {fuel : Nat} {method : Method} {receiver : Word} {site : Bool} {s t u : State}
      {body : NativeBody} {status : Word} (begins : Begins choose method site s (some body) t)
      (ran : Native.Processor.run
        (callback (RuntimeCall.perform (invokeWith choose fuel)) {} method)
      (entryOf t method receiver) body.ops body.places fuel 0 {} (t.entered method receiver) =
        .ok status u) (calm : u.context.Calm) :
      During choose (fuel + 1) method receiver site s (if status < 0 then fail (statusCause status)
        else pure ()) u
  /-- The runtime performs an instruction. -/
  | serves {fuel : Nat} {method : Method} {receiver : Word} {site : Bool} {s t u : State}
      {instr : Instruction} {op : Exec Unit}
      (serves : Serves choose fuel method receiver site s instr t)
      (serving : Serving choose fuel instr t op u) :
      During choose (fuel + 1) method receiver site s op u

/-- While the runtime performs an instruction in a state, an operation is performed in another
state. -/
inductive Serving (choose : Choice) : Nat → Instruction → State → Exec Unit → State → Prop
  /-- The runtime call calls no method. -/
  | whole {fuel : Nat} {instr : Instruction} {s : State}
      (alone : RuntimeCall.prepare? instr = none) :
      Serving choose fuel instr s (RuntimeCall.perform (invokeWith choose fuel) instr) s
  /-- The runtime call finds the method that it calls. -/
  | prepares {fuel : Nat} {instr : Instruction} {s : State} {prepare : Exec (Method × Word × Bool)}
      (prepares : RuntimeCall.prepare? instr = some prepare) :
      Serving choose fuel instr s (discard prepare) s
  /-- The method is called. -/
  | calls {fuel : Nat} {instr : Instruction} {s t u : State} {prepare : Exec (Method × Word × Bool)}
      {method : Method} {receiver : Word} {site : Bool} {op : Exec Unit}
      (prepares : RuntimeCall.prepare? instr = some prepare)
      (prepared : prepare s = .ok (method, receiver, site) t)
      (during : During choose fuel method receiver site t op u) :
      Serving choose fuel instr s op u

end

/-- A choice of engines as there can be: it leaves the context alone, a fault of it has no place in
the program, and compiled bodies are obedient. -/
structure Choice.Orderly (choose : Choice) : Prop where
  apart : choose.Apart
  untraced : ∀ {method site s f t}, choose method site s = .error (.fault f) t →
    f.cause.isTraced = false ∧ f.trace = []
  obedient : ∀ {method site s body t}, choose method site s = .ok (some body) t →
    Native.Obedient body.ops body.places

end Call

/-! ### What runs come to -/

namespace Interpreter

open Exec

variable {call : Instruction → Exec Unit} {method : Method} {fuel ip ip' : Nat} {s t u : State}
  {instr : Instruction} {f : Fault}

/-- An interpreted method that fails has come to an instruction that fails. -/
lemma exists_of_run_fault : ∀ {fuel ip : Nat} {s : State},
    run call method fuel ip s = .error (.fault f) t → ∃ ip' u instr,
      Reaches call method ip s ip' u ∧ method.code[ip']? = some instr ∧
        step call method (ip' + 1) instr u = .error (.fault f) t := by
  intro fuel
  induction fuel with
  | zero => exact fun failed => nomatch failed
  | succ fuel ih =>
    intro ip s failed
    rw [run] at failed
    cases at_ip : method.code[ip]? with
    | none =>
      rw [at_ip] at failed
      cases failed
    | some instr =>
      rw [at_ip] at failed
      dsimp only at failed
      rcases bind_eq_error failed with stops | ⟨flow, u, comes, failed⟩
      · exact ⟨ip, s, instr, .refl ip s, at_ip, stops⟩
      · cases flow with
        | leave => cases failed
        | next =>
          obtain ⟨ip', v, instr', reaches, rest⟩ := ih failed
          exact ⟨ip', v, instr', .next at_ip comes reaches, rest⟩
        | goto target =>
          obtain ⟨ip', v, instr', reaches, rest⟩ := ih failed
          exact ⟨ip', v, instr', .goto at_ip comes reaches, rest⟩

/-- Interpretation goes on from where it has come to, unless it was stuck before. -/
lemma Reaches.run_eq (reaches : Reaches call method ip s ip' u) :
    ∀ fuel, (∃ v, run call method fuel ip s = .error .stuck v) ∨
      ∃ fuel', run call method fuel ip s = run call method fuel' ip' u := by
  induction reaches with
  | refl ip s => exact fun fuel => .inr ⟨fuel, rfl⟩
  | @next ip ip' s t u instr at_ip comes _ ih | @goto ip ip' target s t u instr at_ip comes _ ih =>
    intro fuel
    cases fuel with
    | zero => exact .inl ⟨s, rfl⟩
    | succ fuel =>
      rw [run, at_ip]
      dsimp only
      rw [bind_of_ok comes]
      exact ih fuel

/-- An instruction that stops, stops the run, unless that is stuck before. -/
lemma Reaches.run_error {e : Stop} (reaches : Reaches call method ip s ip' u)
    (at_ip : method.code[ip']? = some instr)
    (stops : step call method (ip' + 1) instr u = .error e t)
    (returns : ∀ v, run call method fuel ip s ≠ .error .stuck v) :
    run call method fuel ip s = .error e t := by
  rcases reaches.run_eq fuel with ⟨v, stuck⟩ | ⟨fuel', same⟩
  · exact absurd stuck (returns v)
  cases fuel' with
  | zero => exact absurd same (returns u)
  | succ fuel' =>
    rw [same, run, at_ip]
    exact bind_of_error stops

/-- What holds across each instruction that answers holds from one configuration to another. -/
lemma Reaches.does {R : State → State → Prop} {E : Stop → State → State → Prop}
    (h : EngineBasis R E) (calls : ∀ instr, Ends R E (call instr))
    (reaches : Reaches call method ip s ip' u) : R s u := by
  induction reaches with
  | refl ip s => exact h.refl s
  | next at_ip comes _ ih | goto at_ip comes _ ih =>
    exact h.trans ((does_step h method _ (fun _ => calls _) _).1 _ _ comes) ih

lemma step_served (asks : instr.action = .arraySize ∨ instr.action = .runtime)
    (saves : modifyFrame (fun f => { f with ip }) s = .ok () t) :
    step call method ip instr s = (call instr >>= fun _ => pure Flow.next) t := by
  have served : step call method ip instr = (do
      modifyFrame fun f => { f with ip }
      call instr
      return Flow.next) := by
    unfold step
    rcases asks with size | runtime
    · rw [size]
    · rw [runtime]
  rw [served, bind_of_ok saves]

end Interpreter

namespace Call

open Exec

variable {choose : Choice} {fuel : Nat} {method : Method} {receiver : Word} {site : Bool}
  {s t u v : State} {f g : Fault} {perform : Instruction → Exec Unit} {status : Word} {α : Type}
  {m : Exec α} {e : Stop} {ip tag address : Word} {instr : Instruction}

/-- What comes of asking whether to stop. -/
lemma refuse_eq (s : State) : (do if ← asksMachine Machine.halted then fail .halted : Exec Unit) s =
    if s.machine.halted = true then fail .halted s else .ok () s := by
  have asked : asksMachine Machine.halted s = .ok s.machine.halted s := rfl
  rw [bind_of_ok asked]
  split <;> rfl

lemma discard_error (fails : m s = .error e t) : (discard m : Exec Unit) s = .error e t :=
  bind_of_error fails

lemma of_discard_error (fails : (discard m : Exec Unit) s = .error e t) : m s = .error e t := by
  rcases bind_eq_error fails with failed | ⟨_, _, -, failed⟩
  · exact failed
  · cases failed

/-- A fault without a place in the program takes no names. -/
lemma withTrace_of_untraced (untraced : f.cause.isTraced = false) (names : List String) :
    f.withTrace names = f := by
  have placed : f.Placed := fun traced => nomatch untraced.symm.trans traced
  exact placed.withTrace_eq names

lemma withTrace_of_fresh (fresh : f.trace = []) (names : List String) :
    f.withTrace names = ⟨f.cause, if f.cause.isTraced then names else []⟩ := by
  obtain ⟨cause, trace⟩ := f
  cases fresh
  unfold Fault.withTrace
  cases cause.isTraced <;> rfl

/-- A fault with names is given the same names. -/
lemma withTrace_self (cause : Cause) (names : List String) :
    Fault.withTrace names ⟨cause, names⟩ = ⟨cause, names⟩ := by
  unfold Fault.withTrace
  split <;> rfl

/-- An interpreted method fails as its instructions do. -/
lemma interpret_fault (admits : s.Admits method)
    (ran : Interpreter.run perform method fuel 0 (s.entered method receiver) =
      .error (.fault f) t) :
    interpret perform fuel method receiver s = .error (.fault (f.withTrace t.names))
      t.returned := by
  rw [interpret_eq admits]
  exact finallyTraced_fault ran (popFrame_eq t)

lemma interpret_eq_fault (admits : s.Admits method)
    (fails : interpret perform fuel method receiver s = .error (.fault f) v) : ∃ g t,
      Interpreter.run perform method fuel 0 (s.entered method receiver) = .error (.fault g) t ∧
        f = g.withTrace t.names := by
  rw [interpret_eq admits] at fails
  cases ran : Interpreter.run perform method fuel 0 (s.entered method receiver) with
  | ok a t =>
    rw [finallyTraced_ok ran, popFrame_eq] at fails
    cases fails
  | error e t =>
    cases e with
    | stuck | panic =>
      rw [finallyTraced_stop ran nofun] at fails
      cases fails
    | fault g =>
      rw [finallyTraced_fault ran (popFrame_eq t)] at fails
      cases fails
      exact ⟨g, t, rfl, rfl⟩

/-- A compiled body fails with what was kept, or else with what its status reports. -/
lemma finishNative_eq_fault (fails : finishNative status t = .error (.fault f) v) :
    t.context.pending = some f ∨
      t.context.pending = none ∧ status < 0 ∧
      f = Fault.withTrace t.names { cause := statusCause status } := by
  cases kept : t.context.pending with
  | some g =>
    rw [finishNative_pending kept] at fails
    cases fails
    exact .inl rfl
  | none =>
    by_cases negative : status < 0
    · rw [finishNative_status kept negative] at fails
      cases fails
      exact .inr ⟨rfl, negative, rfl⟩
    · rw [finishNative_returned kept negative] at fails
      cases fails

/-! ### Faults come from operations -/

/-- What a failed call shows: some operation stopped the fault, and it has its trace. -/
structure Explained (choose : Choice) (fuel : Nat) (method : Method) (receiver : Word) (site : Bool)
    (s : State) (f : Fault) : Prop where
  stopped : ∃ op u, During choose fuel method receiver site s op u ∧ Stops op u f
  placed : s.Named → f.Placed

/-- The faults of calls with so much fuel are explained. -/
abbrev Explains (choose : Choice) (fuel : Nat) :
    Prop := ∀ method receiver site s f t, s.context.Calm →
  invokeWith choose fuel method receiver site s = .error (.fault f) t →
  Explained choose fuel method receiver site s f

lemma exists_serving (explained : Explains choose fuel) (calm : s.context.Calm) (named : s.Named)
    (fails : RuntimeCall.perform (invokeWith choose fuel) instr s = .error (.fault f) t) :
    ∃ op u, Serving choose fuel instr s op u ∧ Stops op u (f.withTrace t.names) := by
  cases prepares : RuntimeCall.prepare? instr with
  | none => exact ⟨_, s, .whole prepares, f, t, fails, rfl⟩
  | some prepare =>
    rw [RuntimeCall.perform_eq_bind prepares] at fails
    rcases bind_eq_error fails with failed | ⟨⟨callee, receiver, site⟩, u, prepared, fails⟩
    · exact ⟨_, s, .prepares prepares, f, t, discard_error failed, rfl⟩
    · have passes := (RuntimeCall.does_prepare passes_basis.toBasis prepares s).1 _ _ prepared
      have inner := explained callee receiver site u f t (passes.calm calm) fails
      obtain ⟨op, v, during, stops⟩ := inner.stopped
      refine ⟨op, v, .calls prepares prepared during, ?_⟩
      rw [(inner.placed (passes.above.named named)).withTrace_eq]
      exact stops

/-- Choosing an engine disturbs nothing. -/
lemma passes_chosen (orderly : choose.Orderly) {body? : Option NativeBody}
    (chosen : choose method site s = .ok body? t) : s.Passes t :=
  (passes_of_context (orderly.apart method site) s).1 _ _ chosen

/-- Saving the place of the next instruction disturbs nothing. -/
lemma passes_of_saves {ip : Nat} (saves : modifyFrame (fun f => { f with ip }) s = .ok () t) :
    s.Passes t :=
  (passes_modifyFrame (fun f => { f with ip }) (fun _ => rfl) s).1 _ _ saves

/-- The runtime as the compiled bodies call it. -/
lemma tames_performed (orderly : choose.Orderly) (fuel : Nat) (method : Method) :
    Native.Processor.Tames (callback (RuntimeCall.perform (invokeWith choose fuel)) {} method) :=
  tames_callback (fun {instr s t} run =>
    ((passes_performed orderly.apart fuel instr s).1 () t run).calm) {} method

section Reached

variable (orderly : choose.Orderly) (calm : s.context.Calm)
include orderly calm

lemma calm_entered {body? : Option NativeBody} (begins : Begins choose method site s body? t) :
    (t.entered method receiver).context.Calm := by
  obtain ⟨halt, pending⟩ := (passes_chosen orderly begins.chosen).calm calm
  exact ⟨halt, pending⟩

/-- The interpreter performs instructions in calm states in which a method is active. -/
lemma reached_interpreted {ip : Nat}
    (executes : Executes choose fuel method receiver site s ip instr u) :
    u.context.Calm ∧ u.Named := by
  obtain @⟨t, begins, reaches, -⟩ := executes
  have passes := reaches.does passes_basis.answers (passes_of_perform orderly.apart fuel)
  exact ⟨passes.calm (calm_entered orderly calm begins),
    passes.above.named (State.named_entered t method receiver)⟩

/-- Compiled code calls the runtime in calm states in which a method is active. -/
lemma reached_compiled (asks : Asks choose fuel method receiver site s tag address ip u) :
    u.context.Calm ∧ u.Named := by
  obtain @⟨t, _, _, _, _, begins, reaches, fetch⟩ := asks
  have strays := reaches.does strays_basis (strays_of_callback orderly.apart fuel method)
  refine ⟨?_, strays.toAbove.named (State.named_entered t method receiver)⟩
  exact reaches.calm (tames_performed orderly fuel method) (orderly.obedient begins.chosen)
    (calm_entered orderly calm begins) fetch

/-- The runtime performs instructions in calm states in which a method is active. -/
lemma reached_served (serves : Serves choose fuel method receiver site s instr v) :
    v.context.Calm ∧ v.Named := by
  cases serves with
  | interpreted executes asks saves =>
    obtain ⟨calm', named⟩ := reached_interpreted orderly calm executes
    exact ⟨calm_modifyFrame calm' saves, (passes_of_saves saves).above.named named⟩
  | compiled calls =>
    obtain ⟨asks, -, -, saves⟩ := calls
    obtain ⟨calm', named⟩ := reached_compiled orderly calm asks
    exact ⟨calm_modifyFrame calm' saves, (passes_of_saves saves).above.named named⟩

end Reached

/-- A runtime call that halts compiled code keeps a fault: it was refused, it has failed, or it has
broken off. -/
lemma kept_of_callback (orderly : choose.Orderly) (calm : u.context.Calm)
    (called : callback (RuntimeCall.perform (invokeWith choose fuel)) {} method tag address ip u =
      .ok () v) (halts : v.context.halt ≠ 0) :
    (∃ cause, refusal? tag (instructionAt? {} method address) = some cause ∧
      v = u.parked (Fault.withTrace u.names { cause })) ∨
    ∃ instr w x, instructionAt? {} method address = some instr ∧ refusal? tag (some instr) = none ∧
      modifyFrame (fun f => { f with ip := (Word.toIndex? ip).getD 0 }) u = .ok () w ∧
      ((∃ f, RuntimeCall.perform (invokeWith choose fuel) instr w = .error (.fault f) x ∧
          v = x.parked (f.withTrace x.names)) ∨
        RuntimeCall.perform (invokeWith choose fuel) instr w = .error .panic x ∧
          v = x.parked (Fault.withTrace x.names { cause := brokenOff instr })) := by
  have performs := passes_performed orderly.apart fuel
  obtain ⟨cause, refused, parks⟩ |
    ⟨instr, w, found, expected, saves, served | ⟨f, x, failed, parks⟩ | ⟨x, broken, parks⟩⟩ :=
    fromNative_eq_ok called
  · rw [parkTraced_eq calm.pending] at parks
    cases parks
    exact .inl ⟨cause, refused, rfl⟩
  · exact absurd (((performs instr w).1 _ _ served).calm (calm_modifyFrame calm saves)).halt halts
  · have calm' := ((performs instr w).2 _ _ failed nofun).calm (calm_modifyFrame calm saves)
    rw [parkTraced_eq calm'.pending] at parks
    cases parks
    exact .inr ⟨instr, w, x, found, expected, saves, .inl ⟨f, failed, rfl⟩⟩
  · have calm' := ((performs instr w).2 _ _ broken nofun).calm (calm_modifyFrame calm saves)
    rw [parkTraced_eq calm'.pending] at parks
    cases parks
    exact .inr ⟨instr, w, x, found, expected, saves, .inr ⟨broken, rfl⟩⟩

section Explaining

variable (orderly : choose.Orderly) (calm : s.context.Calm) (explained : Explains choose fuel)
include orderly calm explained

lemma explained_interpret (begins : Begins choose method site s none t)
    (fails : interpret (RuntimeCall.perform (invokeWith choose fuel)) fuel method receiver t =
      .error (.fault f) v) : Explained choose (fuel + 1) method receiver site s f := by
  obtain ⟨g, u, ran, rfl⟩ := interpret_eq_fault begins.admits fails
  obtain ⟨ip, w, instr, reaches, at_ip, fails⟩ := Interpreter.exists_of_run_fault ran
  have stopped :=
    (Interpreter.logs_run passes_journal (passes_performed orderly.apart fuel) method fuel 0 _).2 _
      _ ran nofun
  have placed : (g.withTrace u.names).Placed :=
    Fault.placed_withTrace
      (stopped.toAbove.named (State.named_entered t method receiver)).names_ne_nil g
  by_cases asks : instr.action = .arraySize ∨ instr.action = .runtime
  · obtain ⟨x, saves⟩ : ∃ x, modifyFrame (fun f => { f with ip := ip + 1 }) w = .ok () x := ⟨_, rfl⟩
    rw [Interpreter.step_served asks saves] at fails
    have serves : Serves choose fuel method receiver site s instr x :=
      .interpreted ⟨begins, reaches, at_ip⟩ asks saves
    obtain ⟨calm'', named'⟩ := reached_served orderly calm serves
    rcases bind_eq_error fails with performed | ⟨_, _, -, fails⟩
    · obtain ⟨op, z, serving, stops⟩ := exists_serving explained calm'' named' performed
      exact ⟨⟨op, z, .serves serves serving, stops⟩, fun _ => placed⟩
    · cases fails
  · exact ⟨⟨_, w, .steps ⟨begins, reaches, at_ip⟩ asks, g, u, discard_error fails, rfl⟩,
      fun _ => placed⟩

lemma explained_runNative {body : NativeBody} (begins : Begins choose method site s (some body) t)
    (fails : runNative (RuntimeCall.perform (invokeWith choose fuel)) {} fuel body.ops body.places
      method receiver t = .error (.fault f) v) :
    Explained choose (fuel + 1) method receiver site s f := by
  have performs := passes_performed orderly.apart fuel
  have tames := tames_performed orderly fuel method
  rw [runNative_eq begins.admits] at fails
  rcases bind_eq_error fails with ran | ⟨status, u, ran, fails⟩
  · cases Native.Processor.run_eq_stuck tames ran
  · obtain calm' | ⟨place, p, w, tag, address, ip, onHalt, x, reaches, fetch, calm', called, halts,
      same⟩ :=
      Native.Processor.calm_or_kept tames (orderly.obedient begins.chosen)
        (calm_entered orderly calm begins) ran
    · -- nothing was kept, so the status reports the fault
      obtain kept | ⟨-, negative, rfl⟩ := finishNative_eq_fault fails
      · cases kept.symm.trans calm'.pending
      have strays := (Native.Processor.does_run strays_basis (entryOf t method receiver)
        (strays_of_callback orderly.apart fuel method) body.ops body.places fuel 0 {} _).1 _ _ ran
      refine ⟨⟨_, u, .returns begins ran calm', { cause := statusCause status }, u, ?_, rfl⟩,
        fun _ => ?_⟩
      · rw [if_pos negative]
        rfl
      · exact Fault.placed_withTrace
          (strays.toAbove.named (State.named_entered t method receiver)).names_ne_nil _
    · -- a runtime call has kept the fault
      have pending : u.context.pending = x.context.pending := congrArg Prod.snd same
      have asks : Asks choose fuel method receiver site s tag address ip w :=
        ⟨begins, reaches, fetch⟩
      obtain ⟨-, named⟩ := reached_compiled orderly calm asks
      obtain ⟨cause, refused, rfl⟩ |
        ⟨instr, y, z, found, expected, saves, ⟨g, failed, rfl⟩ | ⟨broken, rfl⟩⟩ :=
        kept_of_callback orderly calm' called halts
      · rw [finishNative_pending pending] at fails
        cases fails
        exact ⟨⟨_, w, .mistakes asks refused, { cause }, w, rfl, rfl⟩,
          fun _ => Fault.placed_withTrace named.names_ne_nil _⟩
      · rw [finishNative_pending pending] at fails
        cases fails
        have serves : Serves choose fuel method receiver site s instr y :=
          .compiled ⟨asks, found, expected, saves⟩
        obtain ⟨calm'', named'⟩ := reached_served orderly calm serves
        obtain ⟨op, a, serving, stops⟩ := exists_serving explained calm'' named' failed
        have named'' := ((performs instr y).2 _ _ failed nofun).toAbove.named named'
        exact ⟨⟨op, a, .serves serves serving, stops⟩,
          fun _ => Fault.placed_withTrace named''.names_ne_nil g⟩
      · rw [finishNative_pending pending] at fails
        cases fails
        have named' := ((performs instr y).2 _ _ broken nofun).toAbove.named
          ((passes_of_saves saves).above.named named)
        exact ⟨⟨_, z, .breaks ⟨asks, found, expected, saves⟩ broken, { cause := brokenOff instr },
          z, rfl, rfl⟩, fun _ => Fault.placed_withTrace named'.names_ne_nil _⟩

end Explaining

/-- A call fails with a fault that some operation stopped while it was running. -/
lemma explained_invokeWith (orderly : choose.Orderly) (fuel : Nat) : Explains choose fuel := by
  induction fuel with
  | zero => exact fun _ _ _ _ _ _ _ fails => nomatch fails
  | succ fuel ih =>
    intro method receiver site s f t calm fails
    obtain ⟨halted, rfl⟩ | ⟨running, u, failed⟩ | ⟨running, body?, u, v, chosen, failed⟩ :=
      invokeWith_eq_fault fails
    · refine ⟨⟨_, s, .refuses, { cause := .halted }, s, ?_, rfl⟩, fun _ traced => nomatch traced⟩
      exact (refuse_eq s).trans (if_pos halted)
    · have untraced := (orderly.untraced failed).1
      refine ⟨⟨_, s, .chooses running, f, u, discard_error failed, ?_⟩, fun _ traced => ?_⟩
      · exact (withTrace_of_untraced untraced _).symm
      · cases untraced.symm.trans traced
    · by_cases full : u.Full
      · cases (enter_error (pushFrame_full method receiver full) body?).symm.trans failed
        refine ⟨⟨_, u, .enters running chosen, _, u, pushFrame_full method receiver full, ?_⟩,
          fun named _ => ?_⟩
        · exact (withTrace_self _ _).symm
        · exact ((passes_chosen orderly chosen).above.named named).names_ne_nil
      by_cases fits : method.Fits
      · have begins : Begins choose method site s body? u := ⟨running, chosen, full, fits⟩
        cases body? with
        | none => exact explained_interpret orderly calm ih begins failed
        | some body => exact explained_runNative orderly calm ih begins failed
      · cases (enter_error (pushFrame_spoiled receiver full fits) body?).symm.trans failed

/-! ### Operations make calls fail -/

/-- A call that is not stuck. -/
abbrev Returns (choose : Choice) (fuel : Nat) (method : Method) (receiver : Word) (site : Bool)
    (s : State) : Prop := ∀ t, invokeWith choose fuel method receiver site s ≠ .error .stuck t

section Returning

variable {body? : Option NativeBody} {body : NativeBody}

lemma Begins.invokeWith_fault (begins : Begins choose method site s body? t)
    (fails : enter (RuntimeCall.perform (invokeWith choose fuel)) fuel body? method receiver t =
      .error (.fault f) u) :
    ∃ v, invokeWith choose (fuel + 1) method receiver site s = .error (.fault f) v := by
  exact ⟨_, (invokeWith_eq begins.running begins.chosen).trans (restoring_fault fails)⟩

variable (returns : Returns choose (fuel + 1) method receiver site s)
include returns

/-- The engine of a call that is not stuck is not. -/
lemma Begins.enter_ne_stuck (begins : Begins choose method site s body? t) :
    enter (RuntimeCall.perform (invokeWith choose fuel)) fuel body? method receiver t ≠
      .error .stuck v := by
  intro stuck
  refine returns v ?_
  rw [invokeWith_eq begins.running begins.chosen]
  exact restoring_stop stuck nofun

/-- The instructions of a call that is not stuck are not. -/
lemma Begins.interpreter_ne_stuck (begins : Begins choose method site s none t) :
    Interpreter.run (RuntimeCall.perform (invokeWith choose fuel)) method fuel 0
      (t.entered method receiver) ≠ .error .stuck v := by
  intro stuck
  refine begins.enter_ne_stuck returns (v := v) ?_
  exact (interpret_eq begins.admits).trans (finallyTraced_stop stuck nofun)

/-- A fault of an instruction that the interpreter performs is the fault of the call. -/
lemma fails_of_step {ip : Nat} (executes : Executes choose fuel method receiver site s ip instr u)
    (fails : Interpreter.step (RuntimeCall.perform (invokeWith choose fuel)) method
      (ip + 1) instr u = .error (.fault f) v) :
    ∃ w, invokeWith choose (fuel + 1) method receiver site s =
          .error (.fault (f.withTrace v.names)) w := by
  obtain ⟨begins, reaches, at_ip⟩ := executes
  have ran := reaches.run_error at_ip fails fun _ => begins.interpreter_ne_stuck returns
  exact begins.invokeWith_fault (interpret_fault begins.admits ran)

variable (orderly : choose.Orderly)
include orderly

/-- The compiled body of a call that is not stuck returns a status. -/
lemma Begins.exists_status (begins : Begins choose method site s (some body) t) : ∃ status u,
      Native.Processor.run (callback (RuntimeCall.perform (invokeWith choose fuel)) {} method)
        (entryOf t method receiver) body.ops body.places fuel 0 {}
        (t.entered method receiver) = .ok status u := by
  cases ran : Native.Processor.run
      (callback (RuntimeCall.perform (invokeWith choose fuel)) {} method)
        (entryOf t method receiver) body.ops body.places fuel 0 {} (t.entered method receiver) with
  | ok status u => exact ⟨status, u, rfl⟩
  | error e u =>
    have failed := (runNative_eq begins.admits).trans (bind_of_error ran)
    cases Native.Processor.run_eq_stuck (tames_performed orderly fuel method) ran
    exact absurd failed (begins.enter_ne_stuck returns)

/-- A fault that a runtime call has kept is the fault of the call. -/
lemma fails_of_kept (asks : Asks choose fuel method receiver site s tag address ip u)
    (called : callback (RuntimeCall.perform (invokeWith choose fuel)) {} method tag address ip u =
      .ok () (v.parked f)) :
    ∃ w, invokeWith choose (fuel + 1) method receiver site s = .error (.fault f) w := by
  obtain ⟨begins, reaches, fetch⟩ := asks
  obtain ⟨status, w, ran⟩ := begins.exists_status returns orderly
  have halts : (v.parked f).context.halt ≠ 0 := (by decide : (1 : Word) ≠ 0)
  have same := reaches.halting_eq (orderly.obedient begins.chosen) fetch called halts ran
  have pending : w.context.pending = some f := congrArg Prod.snd same
  refine begins.invokeWith_fault (u := w.released.returned) ?_
  show runNative _ _ _ _ _ _ _ _ = _
  rw [runNative_eq begins.admits, bind_of_ok ran]
  exact finishNative_pending pending

/-- A fault while the runtime performs an instruction for the engine of a call is the fault of the
call. -/
lemma fails_of_served (calm : s.context.Calm)
    (serves : Serves choose fuel method receiver site s instr t)
    (fails : RuntimeCall.perform (invokeWith choose fuel) instr t = .error (.fault f) u) :
    ∃ w, invokeWith choose (fuel + 1) method receiver site s = .error (.fault (f.withTrace u.names))
      w := by
  obtain ⟨calm', -⟩ := reached_served orderly calm serves
  cases serves with
  | interpreted executes asks saves =>
    refine fails_of_step returns executes ?_
    rw [Interpreter.step_served asks saves]
    exact bind_of_error fails
  | compiled calls =>
    obtain ⟨asks, found, expected, saves⟩ := calls
    refine fails_of_kept returns orderly asks (v := u) ?_
    have calm'' := ((passes_performed orderly.apart fuel instr t).2 _ _ fails nofun).calm calm'
    rw [callback, found, fromNative_served expected saves, fails]
    exact parkTraced_eq calm''.pending f

/-- The runtime call that the engine of a call makes is not stuck if the call is not. -/
lemma served_ne_stuck (serves : Serves choose fuel method receiver site s instr t) :
    RuntimeCall.perform (invokeWith choose fuel) instr t ≠ .error .stuck u := by
  intro stuck
  cases serves with
  | @interpreted v ip executes asks saves =>
    obtain ⟨begins, reaches, at_ip⟩ := executes
    refine begins.interpreter_ne_stuck returns (v := u) ?_
    have stops : Interpreter.step (RuntimeCall.perform (invokeWith choose fuel)) method
        (ip + 1) instr v = .error .stuck u := by
      rw [Interpreter.step_served asks saves]
      exact bind_of_error stuck
    exact reaches.run_error at_ip stops fun _ => begins.interpreter_ne_stuck returns
  | compiled calls =>
    obtain ⟨⟨begins, reaches, fetch⟩, found, expected, saves⟩ := calls
    obtain ⟨status, w, ran⟩ := begins.exists_status returns orderly
    refine reaches.run_ne_ok fetch (e := .stuck) (v := u) ?_ ran
    rw [callback, found, fromNative_served expected saves, stuck]

end Returning

/-- Calls with so much fuel fail if an operation stops while they are running. -/
abbrev PassesOn (choose : Choice) (fuel : Nat) : Prop := ∀ {method receiver site s f op u},
    s.context.Calm →
  Returns choose fuel method receiver site s → During choose fuel method receiver site s op u →
  Stops op u f → ∃ t, invokeWith choose fuel method receiver site s = .error (.fault f) t

/-- A fault while the runtime performs an instruction is the fault of the instruction. -/
lemma perform_fault_of_serving (passes : PassesOn choose fuel) (orderly : choose.Orderly)
    (calm : s.context.Calm) (named : s.Named)
    (returns : ∀ t, RuntimeCall.perform (invokeWith choose fuel) instr s ≠ .error .stuck t)
    {op : Exec Unit} (serving : Serving choose fuel instr s op u) (stopped : Stops op u f) :
    ∃ g t, RuntimeCall.perform (invokeWith choose fuel) instr s = .error (.fault g) t ∧
    f = g.withTrace t.names := by
  cases serving with
  | whole alone => exact stopped
  | prepares prepares =>
    obtain ⟨g, t, stopped, rfl⟩ := stopped
    rw [RuntimeCall.perform_eq_bind prepares]
    exact ⟨g, t, bind_of_error (of_discard_error stopped), rfl⟩
  | @calls _ _ _ v _ _ callee receiver site _ prepares prepared during =>
    rw [RuntimeCall.perform_eq_bind prepares, bind_of_ok prepared] at returns ⊢
    have prepares := (RuntimeCall.does_prepare passes_basis.toBasis prepares s).1 _ _ prepared
    obtain ⟨t, failed⟩ := passes (prepares.calm calm) returns during stopped
    have placed := (explained_invokeWith orderly fuel _ _ _ _ _ _ (prepares.calm calm)
      failed).placed (prepares.above.named named)
    exact ⟨f, t, failed, (placed.withTrace_eq _).symm⟩

/-- If an operation raises a fault while a method is called, the call fails with this fault. -/
lemma fails_of_stops (orderly : choose.Orderly) (fuel : Nat) : PassesOn choose fuel := by
  induction fuel with
  | zero => exact fun _ _ during => nomatch during
  | succ fuel ih =>
    intro method receiver site s f op u calm returns during ⟨g, v, stopped, same⟩
    subst same
    cases during with
    | refuses =>
      rw [refuse_eq] at stopped
      split at stopped
      · next halted =>
        cases stopped
        exact ⟨s, invokeWith_halted halted⟩
      · cases stopped
    | chooses running =>
      have failed := of_discard_error stopped
      rw [withTrace_of_untraced (orderly.untraced failed).1]
      exact ⟨v, invokeWith_error running failed⟩
    | @enters _ _ _ _ _ t body? running chosen =>
      by_cases full : u.Full
      · cases (pushFrame_full method receiver full).symm.trans stopped
        rw [withTrace_self]
        exact ⟨_, (invokeWith_eq running chosen).trans (restoring_fault
          (enter_error (pushFrame_full method receiver full) body?))⟩
      by_cases fits : method.Fits
      · cases (pushFrame_eq receiver ⟨full, fits⟩).symm.trans stopped
      · cases (pushFrame_spoiled receiver full fits).symm.trans stopped
    | steps executes own => exact fails_of_step returns executes (of_discard_error stopped)
    | mistakes asks refused =>
      cases stopped
      obtain ⟨calm', -⟩ := reached_compiled orderly calm asks
      refine fails_of_kept returns orderly asks (v := u) ?_
      rw [callback, fromNative_refused refused]
      exact parkTraced_eq calm'.pending _
    | breaks calls broken =>
      cases stopped
      obtain ⟨calm', -⟩ := reached_served orderly calm (.compiled calls)
      obtain ⟨asks, found, expected, saves⟩ := calls
      refine fails_of_kept returns orderly asks (v := u) ?_
      have calm'' := ((passes_performed orderly.apart fuel _ _).2 _ _ broken nofun).calm calm'
      rw [callback, found, fromNative_served expected saves, broken]
      exact parkTraced_eq calm''.pending _
    | @returns _ _ _ _ _ t _ body status begins ran calm' =>
      by_cases negative : status < 0
      · rw [if_pos negative] at stopped
        cases stopped
        refine begins.invokeWith_fault (u := u.released.returned) ?_
        exact (runNative_eq begins.admits).trans
          ((bind_of_ok ran).trans (finishNative_status calm'.pending negative))
      · rw [if_neg negative] at stopped
        cases stopped
    | serves serves serving =>
      obtain ⟨calm', named⟩ := reached_served orderly calm serves
      obtain ⟨g', v, failed, same⟩ := perform_fault_of_serving ih orderly calm' named
        (fun _ => served_ne_stuck returns orderly serves) serving ⟨g, v, stopped, rfl⟩
      rw [same]
      exact fails_of_served returns orderly calm serves failed

/-! ### Traces of raised faults -/

/-- A fault of an operation is passed on with the names of the methods that are active then. -/
abbrev Faithful (op : Exec Unit) (s : State) : Prop := ∀ g t, op s = .error (.fault g) t →
  g.withTrace t.names = ⟨g.cause, if g.cause.isTraced then t.names else []⟩

lemma Serving.withTrace_eq {op : Exec Unit} (serving : Serving choose fuel instr s op u)
    (nested : ∀ {method receiver site s op u}, During choose fuel method receiver site s op u →
      Faithful op u) : Faithful op u := by
  intro g t stops
  cases serving with
  | whole alone =>
    exact withTrace_of_fresh (RuntimeCall.fresh_perform_of_prepare? alone _ _ _ stops) _
  | prepares prepares =>
    exact withTrace_of_fresh ((RuntimeCall.fresh_prepare prepares).discard _ _ _ stops) _
  | calls prepares prepared during => exact nested during g t stops

/-- An operation of a call raises the fault that it stops with. -/
lemma During.withTrace_eq (orderly : choose.Orderly) (fuel : Nat) :
    ∀ {method receiver site s op u}, During choose fuel method receiver site s op u →
    Faithful op u := by
  induction fuel with
  | zero => exact fun during => nomatch during
  | succ fuel ih =>
    intro method receiver site s op u during g t stops
    cases during with
    | refuses =>
      have fresh : Fresh (do if ← asksMachine Machine.halted then fail .halted) :=
        (Fresh.asksMachine _).bind fun _ => .ite (.fail _) (.pure _)
      exact withTrace_of_fresh (fresh _ _ _ stops) _
    | chooses running => exact withTrace_of_fresh (orderly.untraced (of_discard_error stops)).2 _
    | enters running chosen =>
      by_cases full : u.Full
      · cases (pushFrame_full method receiver full).symm.trans stops
        exact withTrace_self _ _
      by_cases fits : method.Fits
      · cases (pushFrame_eq receiver ⟨full, fits⟩).symm.trans stops
      · cases (pushFrame_spoiled receiver full fits).symm.trans stops
    | steps executes own =>
      exact withTrace_of_fresh ((Interpreter.fresh_step own).discard _ _ _ stops) _
    | mistakes asks refused | breaks calls broken =>
      exact withTrace_of_fresh (Fresh.fail _ _ _ _ stops) _
    | returns begins ran calm =>
      exact withTrace_of_fresh (Fresh.ite (.fail _) (.pure ()) _ _ _ stops) _
    | serves serves serving => exact Serving.withTrace_eq serving ih g t stops

/-- Faults cross any nesting of interpreted and compiled methods, whichever engines are chosen.  A
call that is entered calm leaves nothing to halt for, whether it answers or fails.  If it answers,
it leaves the frames as they were.  If it fails, these frames are still there; and there are no
others on top of them unless the runtime has broken off in a call of a compiled body, in this call
or in one within it.

A call that is not stuck fails just if some operation was performed, at any depth, that raised a
fault, and it fails with this fault: with its cause, and with the names of the methods that were
active when it was raised, the innermost first, unless it is a cause that is not traced. -/
theorem fails_iff_raises {choose : Choice} (orderly : choose.Orderly) (fuel : Nat) (method : Method)
    (receiver : Word) (site : Bool) (s : State) (calm : s.context.Calm)
    (matched : s.context.callPos = s.context.frames.length)
    (returns : Returns choose fuel method receiver site s) :
    (∀ t, invokeWith choose fuel method receiver site s = .ok () t →
      t.context.frames = s.context.frames ∧ t.context.callPos = s.context.callPos ∧
        t.context.halt = 0 ∧ t.context.pending = none) ∧
    (∀ f t, invokeWith choose fuel method receiver site s = .error (.fault f) t →
      t.context.callPos = t.context.frames.length ∧ t.context.halt = 0 ∧ t.context.pending = none ∧
        s.context.frames <:+ t.context.frames ∧
        (Unbroken (journal choose fuel method receiver site s) →
          t.context.frames = s.context.frames)) ∧
    ∀ f, (∃ t, invokeWith choose fuel method receiver site s = .error (.fault f) t) ↔
      ∃ op u, During choose fuel method receiver site s op u ∧ Raises op u f := by
  obtain ⟨answers, stops⟩ := restored_invokeWith orderly.apart fuel method receiver site s
  refine ⟨fun t answered => ?_, fun f t failed => ?_,
    fun f => ⟨fun ⟨t, failed⟩ => ?_, fun ⟨op, u, during, raised⟩ => ?_⟩⟩
  · have restored := answers () t answered
    obtain ⟨halt, pending⟩ := restored.calm calm
    refine ⟨restored.frames, ?_, halt, pending⟩
    rw [matched, ← restored.frames]
    exact restored.matched matched
  · have abandoned := stops _ t failed nofun
    obtain ⟨halt, pending⟩ := abandoned.calm calm
    exact ⟨abandoned.matched matched, halt, pending, abandoned.frames, abandoned.same nofun⟩
  · obtain ⟨op, u, during, g, v, stops, rfl⟩ :=
      (explained_invokeWith orderly fuel _ _ _ _ _ _ calm failed).stopped
    exact ⟨op, u, during, g, v, stops, During.withTrace_eq orderly fuel during g v stops⟩
  · obtain ⟨g, v, stops, rfl⟩ := raised
    have same := During.withTrace_eq orderly fuel during g v stops
    exact fails_of_stops orderly fuel calm returns during ⟨g, v, stops, same.symm⟩

end Call

namespace Call.Crossing

/-- Three methods, each of which calls the next; the last one divides by zero. -/
def program : Program := .ofClasses [{
  name := "Main"
  methods := #[
    { name := "outer", code := #[Build.int 0, Build.call 0 1] },
    { name := "middle", code := #[Build.int 0, Build.call 0 2] },
    { name := "leaf", code := #[Build.int 1, Build.int 0, Build.op .divInt] }] }]

/-- The methods of the program. -/
def method (index : Nat) : Method := (program.method? 0 index).getD { name := "", code := #[] }

/-- A compiled body. -/
def body (ops : List (Native.Operation X64.Reg X64.Xmm)) : NativeBody where
  ops := ops.toArray
  places := Native.places ops
  entry := ⟨0, 0⟩
  codeLength := 0
  literals := 0

/-- The first method: it calls the second and returns. -/
def calling : NativeBody := body [
  .push (.imm 0),
  .callRuntime (Word.ofNat Opcode.mthdCall.tag) (({} : Native.Addresses).code + 1) 2 .exit,
  .bind .exit,
  .status 0]

/-- The last method: it returns the status of a division by zero. -/
def dividing : NativeBody := body [.status (-4)]

/-- The first method and the last one are compiled. -/
def choose : Choice := fun method _ =>
  pure (match method.id.index with
    | 0 => some calling
    | 2 => some dividing
    | _ => none)

lemma obedient_calling : Native.Obedient calling.ops calling.places := by
  intro place tag address ip onHalt next fetch bound call call' entry fuel p s
  have halts : onHalt = .exit := by
    rcases place with _ | _ | _ | _ | place <;> cases fetch
    rfl
  cases halts
  cases bound
  -- the body returns a status at once
  rcases fuel with _ | _ | fuel <;> rfl

lemma obedient_dividing : Native.Obedient dividing.ops dividing.places := by
  intro place tag address ip onHalt next fetch bound
  cases bound

lemma orderly : choose.Orderly where
  apart _ _ := .pure _
  untraced fails := nomatch fails
  obedient {method site s body t} chosen := by
    unfold choose at chosen
    split at chosen <;> cases chosen
    · exact obedient_calling
    · exact obedient_dividing

/-- A thread with an empty operand stack. -/
def state : State where
  machine :=
    { program, settings := {}, heap := {},
      statics := #[], records := #[], seed := 1, clock := 0 }
  context := { stack := .empty 8 }

def fault? : EStateM.Result Stop State Unit → Option Fault
  | .error (.fault f) _ => some f
  | _ => none

lemma exists_of_fault? {r : EStateM.Result Stop State Unit} {f : Fault}
    (known : fault? r = some f) :
    ∃ t, r = .error (.fault f) t := by
  unfold fault? at known
  split at known
  · next t =>
    cases known
    exact ⟨t, rfl⟩
  · cases known

end Call.Crossing

namespace Call

open Crossing in
/-- The compiled `leaf` reports its division by a status, `middle` is interpreted and passes the
fault on, and the runtime keeps it for the compiled `outer`. -/
theorem fails_iff_raises_crossing :
    (∃ t, invokeWith Crossing.choose 20 (method 0) 0 false state =
      .error (.fault ⟨.divideByZero, ["Main:leaf", "Main:middle", "Main:outer"]⟩) t ∧
      t.context.frames = [] ∧ t.context.callPos = 0 ∧ t.context.halt = 0 ∧
        t.context.pending = none) ∧
    ∃ op u, During Crossing.choose 20 (method 0) 0 false state op u ∧
      Raises op u ⟨.divideByZero, ["Main:leaf", "Main:middle", "Main:outer"]⟩ := by
  have known : fault? (invokeWith Crossing.choose 20 (method 0) 0 false state) =
      some ⟨.divideByZero, ["Main:leaf", "Main:middle", "Main:outer"]⟩ := by decide +kernel
  obtain ⟨t, fails⟩ := exists_of_fault? known
  have returns : Returns Crossing.choose 20 (method 0) 0 false state := by
    intro u stuck
    cases fails.symm.trans stuck
  have unbroken : Unbroken (journal Crossing.choose 20 (method 0) 0 false state) :=
    .of_all (by decide +kernel)
  obtain ⟨-, failed, raised⟩ := fails_iff_raises orderly 20 (method 0) 0 false state
    ⟨rfl, rfl⟩ rfl returns
  obtain ⟨callPos, halt, pending, -, frames⟩ := failed _ t fails
  exact ⟨⟨t, fails, frames unbroken, callPos.trans (by rw [frames unbroken]; rfl), halt, pending⟩,
    (raised _).1 ⟨t, fails⟩⟩

end Call

end StackMachine
