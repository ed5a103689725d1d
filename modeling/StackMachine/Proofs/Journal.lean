import StackMachine.Proofs.Unwinding

/-!
# The journal of a call

While a method is called, further methods are, by it and by the threads that it waits for.
`Call.journal` lists these calls in the order in which they are made: each call as it finds its
engine, and as it takes its frame. It also tells when frames are lost, and when the runtime breaks
off in a call of a compiled body.  The journal follows the definitions of the engines, and tells
what has happened also of a call that is stuck or never returns.
-/

namespace StackMachine

/-- What happens when methods are called, with the state in which it happens. -/
inductive Event where
  /-- A method finds its engine: its compiled body, or the interpreter. -/
  | call (before : State) (method : Method) (site : Bool) (body? : Option NativeBody)
  /-- A method takes a frame. -/
  | enter (before : State) (method : Method) (receiver : Word)
  /-- A method takes a frame that cannot have its locals. -/
  | spoil (before : State) (method : Method)
  /-- The runtime has broken off in a call of a compiled body. -/
  | breaks (before : State)
  /-- A thread has ended and left frames on its call stack. -/
  | drop (before : State)

/-- What happens from a state on. -/
abbrev Journal := State → List Event

/-- What happens after a computation that answers. -/
def Exec.andThen {α : Type} (m : Exec α) (journal : α → Journal) : Journal := fun s =>
  match m s with
  | .ok a t => journal a t
  | .error _ _ => []

namespace Exec

/-- What is to be noted if a computation breaks off. -/
def breaking (m : Exec Unit) : Journal := fun s =>
  match m s with
  | .error .panic t => [.breaks t]
  | _ => []

variable {α : Type} {m : Exec α} {journal : α → Journal} {s t : State}

lemma andThen_of_ok {a : α} (run : m s = .ok a t) : m.andThen journal s = journal a t := by
  rw [andThen, run]

lemma andThen_of_error {e : Stop} (run : m s = .error e t) : m.andThen journal s = [] := by
  rw [andThen, run]

end Exec

open Exec

namespace Interpreter

/-- What happens in an instruction, by what happens in runtime calls. -/
def stepJournal (serving : Instruction → Journal) (ip : Nat) (instr : Instruction) : Journal :=
  match instr.action with
  | .arraySize | .runtime => (modifyFrame fun f => { f with ip }).andThen fun _ => serving instr
  | _ => fun _ => []

/-- What happens in an interpreted method from an instruction on. -/
def journal (call : Instruction → Exec Unit) (serving : Instruction → Journal) (method : Method) :
    Nat → Nat → Journal
  | 0, _ => fun _ => []
  | fuel + 1, ip =>
    match method.code[ip]? with
    | none => fun _ => []
    | some instr => fun s =>
      stepJournal serving (ip + 1) instr s ++ (step call method (ip + 1) instr).andThen (fun flow =>
          match flow with
          | .next => journal call serving method fuel (ip + 1)
          | .goto target => journal call serving method fuel target
          | .leave => fun _ => []) s

end Interpreter

namespace Native.Processor

variable {γ φ : Type} [DecidableEq γ] [DecidableEq φ]

/-- What happens in an operation, by what happens in runtime calls. -/
def performJournal (serving : Word → Word → Word → Journal) : Operation γ φ → Journal
  | .callRuntime tag address ip _ => serving tag address ip
  | _ => fun _ => []

/-- What happens in a compiled body from a place on. -/
def journal (call : Callback) (serving : Word → Word → Word → Journal) (entry : Entry)
    (ops : Array (Operation γ φ)) (places : List (JumpTarget × Nat)) :
    Nat → Nat → Processor γ φ → Journal
  | 0, _, _ => fun _ => []
  | fuel + 1, place, p =>
    match ops[place]? with
    | none => fun _ => []
    | some op => fun s =>
      performJournal serving op s ++ (p.perform call entry op).andThen (fun (p, flow) =>
          match flow with
          | .next => journal call serving entry ops places fuel (place + 1) p
          | .goto target =>
            match places.lookup target with
            | some place => journal call serving entry ops places fuel place p
            | none => fun _ => []
          | .done _ => fun _ => []) s

end Native.Processor

namespace RuntimeCall

variable (invoke : Invoke) (calling : Method → Word → Bool → Journal)

/-- What is to be noted of a context that is given up. -/
def dropped (s : State) : List Event := if s.context.frames = [] then [] else [.drop s]

/-- What is to be noted of a thread in the end. -/
def ending : EStateM.Result Stop State Unit → List Event
  | .error .stuck _ => []
  | .error _ t => dropped t
  | .ok _ t => dropped t

/-- What happens in a thread, in its own context. -/
def taskJournal (task : Task) : Journal := fun s =>
  (push task.param).andThen (fun _ => calling task.callee task.thread false)
      { s with context := .fresh s.machine.settings } ++
    ending (work invoke task { s with context := .fresh s.machine.settings })

/-- What happens in a thread that is waited for. -/
def joinJournal (id : Word) : Journal :=
  (asksMachine fun m => m.registry.work? id).andThen fun work =>
    match work with
    | some (.queued task) =>
      (modifyRegistry fun r => r.remove id).andThen fun _ => taskJournal invoke calling task
    | _ => fun _ => []

/-- What happens in a queued thread.  One that would have to wait stays in the queue as if it had
not run. -/
def advanceJournal (id : Word) : Journal := fun s =>
  match s.machine.registry.work? id with
  | some (.queued task) =>
    (modifyRegistry fun r => r.setWork id .running).andThen (fun _ t =>
        match runTask invoke task t with
        | .error _ _ => []
        | .ok _ _ => taskJournal invoke calling task t) s
  | _ => []

/-- What happens in queued threads in turn. -/
def advanceEachJournal : List Word → Journal
  | [] => fun _ => []
  | id :: rest => fun s =>
    advanceJournal invoke calling id s ++ (advance invoke id).andThen
      (fun _ => advanceEachJournal rest) s

/-- What happens in a runtime call, by what happens in calls of methods. -/
def journal (instr : Instruction) : Journal :=
  match prepare? instr with
  | some prepare => prepare.andThen fun c => calling c.1 c.2.1 c.2.2
  | none =>
    match instr.op with
    | .threadJoin =>
      popHandle.andThen fun thread => (asksHeap fun h => h.word thread 0).andThen
        (joinJournal invoke calling)
    | .threadSleep =>
      pop.andThen fun millis =>
        (modifyMachine fun m => { m with clock := m.clock + max millis 0 }).andThen fun _ =>
          (asksMachine fun m => m.registry.threads.map Prod.fst).andThen
            (advanceEachJournal invoke calling)
    | _ => fun _ => []

variable {invoke calling}

/-- Nothing happens in a runtime call that calls no method and runs no thread. -/
lemma journal_of_alone {instr : Instruction} (alone : prepare? instr = none)
    (joinless : instr.op ≠ .threadJoin) (awake : instr.op ≠ .threadSleep) :
    journal invoke calling instr = fun _ => [] := by
  unfold journal
  rw [alone]
  dsimp only
  split
  · next joins => exact absurd joins joinless
  · next sleeps => exact absurd sleeps awake
  · rfl

/-- A thread that fails has an outcome. -/
lemma runTask_eq_stuck {task : Task} {s t : State} {e : Stop}
    (stops : runTask invoke task s = .error e t) :
    e = .stuck := by
  unfold runTask at stops
  dsimp only at stops
  split at stops
  · cases stops
  · cases stops
  · cases stops
  · cases stops
    rfl

end RuntimeCall

namespace Call

/-- What happens in a runtime call from compiled code. -/
def nativeJournal (perform : Instruction → Exec Unit) (serving : Instruction → Journal) (tag : Word)
    (instr? : Option Instruction) (ip : Word) :
    Journal :=
  match instr? with
  | none => fun _ => []
  | some instr =>
    if (Word.toIndex? tag).bind Opcode.ofTag? = some instr.op then
      (modifyFrame fun f => { f with ip := (Word.toIndex? ip).getD 0 }).andThen fun _ s =>
        serving instr s ++ (perform instr).breaking s
    else fun _ => []

/-- What happens in a runtime call from the compiled body of a method. -/
def callbackJournal (perform : Instruction → Exec Unit) (serving : Instruction → Journal)
    (method : Method) (tag address ip : Word) : Journal :=
  nativeJournal perform serving tag (instructionAt? {} method address) ip

/-- What happens in a method that has found its engine. -/
def enterJournal (perform : Instruction → Exec Unit) (serving : Instruction → Journal) (fuel : Nat)
    (body? : Option NativeBody) (method : Method) (receiver : Word) : Journal := fun s =>
  if s.Full then []
  else if method.Fits then
    .enter s method receiver ::
      match body? with
      | none => Interpreter.journal perform serving method fuel 0 (s.entered method receiver)
      | some body =>
        Native.Processor.journal (callback perform {} method)
          (callbackJournal perform serving method) (entryOf s method receiver) body.ops body.places
            fuel 0 {} (s.entered method receiver)
  else [.spoil s method]

/-- What happens when a method is called, by whichever engines. -/
def journal (choose : Choice) : Nat → Method → Word → Bool → Journal
  | 0, _, _, _ => fun _ => []
  | fuel + 1, method, receiver, site => fun s =>
    if s.machine.halted then [] else
      match choose method site s with
      | .error _ _ => []
      | .ok body? t =>
        .call s method site body? ::
          enterJournal (RuntimeCall.perform (invokeWith choose fuel))
            (RuntimeCall.journal (invokeWith choose fuel) (journal choose fuel)) fuel body? method
              receiver t

variable {choose : Choice} {method : Method} {site : Bool} {s t : State}

/-- A call of a machine that has been told to stop is refused. -/
lemma journal_halted (halted : s.machine.halted = true) (fuel : Nat) (receiver : Word) :
    journal choose (fuel + 1) method receiver site s = [] := by
  unfold journal
  rw [if_pos halted]

lemma journal_of_error {e : Stop} (running : s.machine.halted = false)
    (chosen : choose method site s = .error e t) (fuel : Nat) (receiver : Word) :
    journal choose (fuel + 1) method receiver site s = [] := by
  unfold journal
  rw [if_neg (running ▸ Bool.false_ne_true), chosen]

/-- A call that is not refused and finds its engine. -/
lemma journal_of_ok {body? : Option NativeBody} (running : s.machine.halted = false)
    (chosen : choose method site s = .ok body? t) (fuel : Nat) (receiver : Word) :
    journal choose (fuel + 1) method receiver site s = .call s method site body? ::
        enterJournal (RuntimeCall.perform (invokeWith choose fuel))
          (RuntimeCall.journal (invokeWith choose fuel) (journal choose fuel)) fuel body? method
            receiver t := by
  rw [journal]
  beta_reduce
  rw [if_neg (running ▸ Bool.false_ne_true), chosen]

end Call

/-! ### Relations that take note of events -/

/-- A relation between a state, what happens, and a later state, that holds from step to step, with
what can be said after a stop. -/
structure JournalBasis (R : State → List Event → State → Prop)
    (E : Stop → State → List Event → State → Prop) :
    Prop where
  quiet : EngineBasis (fun s t => R s [] t) fun e s t => E e s [] t
  append : ∀ {s t u es es'}, R s es t → R t es' u → R s (es ++ es') u
  stops : ∀ {s t es} e, R s es t → E e s es t
  follows : ∀ {e s t u es es'}, R s es t → E e t es' u → E e s (es ++ es') u

/-- A computation and what happens in it are in a relation. -/
def Exec.Logs {α : Type} (R : State → List Event → State → Prop)
    (E : Stop → State → List Event → State → Prop) (m : Exec α) (journal : Journal) : Prop :=
  ∀ s, (∀ a t, m s = .ok a t → R s (journal s) t) ∧ ∀ e t, m s = .error e t → E e s (journal s) t

lemma Exec.Logs.mono {α : Type} {m : Exec α} {journal : Journal}
    {R R' : State → List Event → State → Prop} {E E' : Stop → State → List Event → State → Prop}
    (logs : Logs R E m journal) (answers : ∀ {s es t}, R s es t → R' s es t)
    (stops : ∀ {e s es t}, E e s es t → E' e s es t) :
    Logs R' E' m journal :=
  fun s => ⟨fun a t run => answers ((logs s).1 a t run), fun e t run => stops ((logs s).2 e t run)⟩

/-- Computations in which nothing happens that has to be noted. -/
abbrev Exec.Silent {α : Type} (R : State → List Event → State → Prop)
    (E : Stop → State → List Event → State → Prop) (m : Exec α) :
    Prop := Ends (fun s t => R s [] t) (fun e s t => E e s [] t) m

namespace JournalBasis

variable {α β : Type} {R : State → List Event → State → Prop}
  {E : Stop → State → List Event → State → Prop} {m : Exec α} {f : α → Exec β} {journal : Journal}

/-- A computation in which nothing happens. -/
lemma nothing (does : Silent R E m) : Logs R E m fun _ => [] := does

variable (h : JournalBasis R E)
include h

/-- Nothing happens after something has. -/
lemma append_quiet {s t u : State} {es : List Event} (first : R s es t) (second : R t [] u) :
    R s es u := by
  simpa only [List.append_nil] using h.append first second

/-- A computation after something has happened. -/
lemma after {s t : State} {es : List Event} (first : R s es t) (second : Logs R E m journal) :
    (∀ a u, m t = .ok a u → R s (es ++ journal t) u) ∧ ∀ e u, m t = .error e u →
    E e s (es ++ journal t) u :=
  ⟨fun a u run => h.append first ((second t).1 a u run),
    fun e u run => h.follows first ((second t).2 e u run)⟩

/-- Two computations in a row. -/
lemma bind (first : Logs R E m journal) {after : α → Journal}
    (second : ∀ a, Logs R E (f a) (after a)) :
    Logs R E (m >>= f) fun s => journal s ++ m.andThen after s := by
  intro s
  cases run : m s with
  | ok a t =>
    rw [bind_of_ok run]
    dsimp only
    rw [andThen_of_ok run]
    exact h.after ((first s).1 a t run) (second a)
  | error e t =>
    dsimp only
    rw [andThen_of_error run, List.append_nil]
    exact ends_error (bind_of_error run) ((first s).2 e t run)

/-- Two computations in a row; in the first, nothing happens. -/
lemma bind_quiet (first : Silent R E m) {after : α → Journal}
    (second : ∀ a, Logs R E (f a) (after a)) :
    Logs R E (m >>= f) (m.andThen after) := by
  simpa only [List.nil_append] using h.bind (nothing first) second

/-- Two computations in a row; in the second, nothing happens. -/
lemma bind_done (first : Logs R E m journal) (second : ∀ a, Silent R E (f a)) :
    Logs R E (m >>= f) journal := by
  intro s
  have both := h.bind first (fun a => nothing (second a)) s
  have nothing : (m.andThen fun _ _ => []) s = [] := by
    cases run : m s with
    | ok a t => exact andThen_of_ok run
    | error e t => exact andThen_of_error run
  dsimp only at both
  rwa [nothing, List.append_nil] at both

end JournalBasis

end StackMachine
