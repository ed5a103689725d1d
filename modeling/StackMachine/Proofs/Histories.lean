import StackMachine.Proofs.CallEffects
import StackMachine.Proofs.Compiling

/-!
# Histories of a machine

A machine has any number of contexts.  Of what its calls have in common, the free frames and the
records of the methods, little changes in one step: a call finds its engine, a method takes its
frame or gives it back, or a frame is lost. `Runtime.Path` is any sequence of such steps, in any of
the contexts, with the events that they are; so what follows from the steps holds at every moment of
every run (`Runtime.Reached`).

Every call is such a sequence, and its events are its journal (`Runtime.Reached.invoke`).
-/

namespace StackMachine

open Exec

/-- A machine with its contexts, the running one first. -/
structure Runtime where
  machine : Machine
  contexts : List Context

/-- A state and the contexts that are not running. -/
def State.among (s : State) (rest : List Context) : Runtime := ⟨s.machine, s.context :: rest⟩

/-- The state in which something happens. -/
def Event.before : Event → State
  | .call s _ _ _ => s
  | .enter s _ _ => s
  | .spoil s _ => s
  | .breaks s => s
  | .drop s => s

namespace Runtime

/-- A step of a runtime, with what happens in it. -/
inductive Step : Runtime → List Event → Runtime → Prop
  /-- Nothing changes that calls have in common, and at most the innermost frame of the running
  context. -/
  | work {s t : State} {rest : List Context} (core : t.machine.core = s.machine.core)
    (within : s.Within t) :
      Step (s.among rest) [] (t.among rest)
  /-- A method finds its engine. -/
  | call {s t : State} {rest : List Context} {method : Method} {site : Bool}
      {body? : Option NativeBody} (finds : Call.nativeBody method site s = .ok body? t) :
      Step (s.among rest) [.call s method site body?] (t.among rest)
  /-- A method takes a frame. -/
  | enter {s : State} {rest : List Context} {method : Method} {receiver : Word}
    (admits : s.Admits method) :
      Step (s.among rest) [.enter s method receiver] ((s.entered method receiver).among rest)
  /-- A method takes a frame that cannot have its locals. -/
  | spoil {s : State} {rest : List Context} {method : Method} (room : ¬s.Full)
    (large : ¬method.Fits) :
      Step (s.among rest) [.spoil s method] (s.spoiled.among rest)
  /-- The runtime has broken off in a call of a compiled body. -/
  | breaks {s : State} {rest : List Context} : Step (s.among rest) [.breaks s] (s.among rest)
  /-- A method gives its frame back. -/
  | leave {s : State} {rest : List Context} : Step (s.among rest) [] (s.returned.among rest)
  /-- A context is made. -/
  | spawn {machine : Machine} {contexts : List Context} :
      Step ⟨machine, contexts⟩ [] ⟨machine, .fresh machine.settings :: contexts⟩
  /-- A context without frames is given up. -/
  | retire {machine : Machine} {context : Context} {rest : List Context}
    (idle : context.frames = []) :
      Step ⟨machine, context :: rest⟩ [] ⟨machine, rest⟩
  /-- A context is given up with the frames that are left on its call stack. -/
  | drop {machine : Machine} {context : Context} {rest : List Context} :
      Step ⟨machine, context :: rest⟩ [.drop ⟨machine, context⟩] ⟨machine, rest⟩
  /-- Another context runs. -/
  | switch {machine : Machine} {contexts contexts' : List Context}
    (perm : contexts.Perm contexts') :
      Step ⟨machine, contexts⟩ [] ⟨machine, contexts'⟩

/-- Any number of steps, with what happens in them. -/
inductive Path (r : Runtime) : List Event → Runtime → Prop
  | refl : Path r [] r
  | tail {es es' : List Event} {r' r'' : Runtime} (path : Path r es r') (step : Step r' es' r'') :
      Path r (es ++ es') r''

variable {r r' r'' : Runtime} {es es' : List Event}

lemma Step.path (step : Step r es r') : Path r es r' := .tail .refl step

lemma Path.trans (first : Path r es r') (second : Path r' es' r'') : Path r (es ++ es') r'' := by
  induction second with
  | refl => rwa [List.append_nil]
  | tail _ step ih =>
    rw [← List.append_assoc]
    exact ih.tail step

/-- At most one thing happens in a step, and it happens in the running context. -/
lemma Step.events (step : Step r es r') :
    es = [] ∨ ∃ e rest, es = [e] ∧ r = e.before.among rest := by
  cases step
  case call | enter | spoil | breaks | drop => exact .inr ⟨_, _, rfl, rfl⟩
  all_goals exact .inl rfl

/-- An element of a list with one more in the end is the last one, or an element of the list. -/
lemma split_snoc {α : Type} {before after xs : List α} {y x : α}
    (same : before ++ y :: after = xs ++ [x]) :
    (before = xs ∧ y = x) ∨ ∃ after', xs = before ++ y :: after' := by
  rcases after.eq_nil_or_concat with rfl | ⟨after, last, rfl⟩
  · obtain ⟨rfl, here⟩ := List.append_inj' same rfl
    exact .inl ⟨rfl, List.head_eq_of_cons_eq here⟩
  · rw [List.concat_eq_append, ← List.cons_append, ← List.append_assoc] at same
    exact .inr ⟨after, (List.append_inj' same rfl).1.symm⟩

/-- The state in which something happens is come across on the way. -/
lemma Path.before {before after : List Event} {e : Event}
    (path : Path r (before ++ e :: after) r') :
    ∃ rest, Path r before (e.before.among rest) := by
  generalize same : before ++ e :: after = es at path
  induction path generalizing after with
  | refl => simp at same
  | tail path step ih =>
    obtain rfl | ⟨e', rest, rfl, rfl⟩ := step.events
    · exact ih (same.trans (List.append_nil _))
    · rcases split_snoc same with ⟨rfl, rfl⟩ | ⟨after', earlier⟩
      · exact ⟨rest, path⟩
      · exact ih earlier.symm

end Runtime

/-! ### Calls as paths -/

namespace State

variable {es es' : List Event}

/-- A way from one state to another, whatever other contexts there are. -/
def Leads (s : State) (es : List Event) (t : State) :
    Prop := ∀ rest, (s.among rest).Path es (t.among rest)

/-- A way from a state to some runtime. -/
def Goes (s : State) (es : List Event) : Prop := ∀ rest, ∃ r, (s.among rest).Path es r

lemma Leads.trans {s t u : State} (first : s.Leads es t) (second : t.Leads es' u) :
    s.Leads (es ++ es') u := fun rest => (first rest).trans (second rest)

lemma Leads.goes {s t : State} (first : s.Leads es t) (second : t.Goes es') :
    s.Goes (es ++ es') := fun rest =>
  let ⟨r, path⟩ := second rest
  ⟨r, (first rest).trans path⟩

/-- Nothing changes that calls have in common, and no frame. -/
lemma Leads.of_frames {s t : State} (core : t.machine.core = s.machine.core)
    (frames : t.context.frames = s.context.frames) : s.Leads [] t := fun _ =>
  (Runtime.Step.work core ⟨by rw [frames], by rw [frames]⟩).path

end State

namespace Exec

variable {α : Type} {m : Exec α}

/-- A computation that changes nothing that calls have in common, and at most the innermost
frame. -/
lemma leads_of_within (leaves : Leaves (fun s => s.machine.core) m) (within : Does State.Within m) :
    Does (fun s t => s.Leads [] t) m := fun s =>
  ⟨fun a t run _ => (Runtime.Step.work ((leaves s).1 a t run) ((within s).1 a t run)).path,
    fun e t run ne _ => (Runtime.Step.work ((leaves s).2 e t run) ((within s).2 e t run ne)).path⟩

/-- A computation that changes nothing that calls have in common, and no frame. -/
lemma leads_of_leaves (leaves : Leaves (fun s => (s.machine.core, s.context.frames)) m) :
    Does (fun s t => s.Leads [] t) m :=
  leads_of_within (leaves.map Prod.fst) (within_of_leaves (leaves.map Prod.snd))

/-- The steps of the engines are steps of a runtime in which nothing happens. -/
lemma leads_basis : EngineBasis (fun s t => s.Leads [] t) (Always fun s t => s.Leads [] t) where
  trans first second := first.trans second
  stops _ leads _ := leads
  later first last ne := first.trans (last ne)
  machine s machine core rest := by
    have within : s.Within { s with machine } := ⟨rfl, rfl⟩
    exact (Runtime.Step.work core within).path
  pop := leads_of_leaves (.pop fun _ _ => rfl)
  push w := leads_of_leaves (.push (fun _ _ => rfl) w)
  frame f keeps := leads_of_within (.modifyContext fun _ => rfl)
    (within_modifyFrame f fun frame => (keeps frame).1)
  pushWord _ := leads_of_leaves (.modifyStack fun _ _ => rfl)
  dropWord := leads_of_leaves (.modifyStack fun _ _ => rfl)

end Exec

namespace Call

/-- A call returns, with or without a fault. -/
def ComesTo (fuel : Nat) (method : Method) (receiver : Word) (site : Bool) (s t : State) : Prop :=
  invoke fuel method receiver site s = .ok () t ∨ ∃ f, invoke fuel method receiver site s =
    .error (.fault f) t

/-- The steps of a call are steps of a runtime. -/
lemma leads_callBasis : CallBasis nativeBody State.Leads State.Goes where
  engine := leads_basis
  append := .trans
  begins s rest := ⟨_, .refl⟩
  follows := State.Leads.goes
  chooses chosen _ := (Runtime.Step.call chosen).path
  refuses {method site s e t} refused _ := by
    obtain ⟨body?, machine, found, -⟩ := exists_nativeBody method site s
    cases found.symm.trans refused
  enter _ _ admits _ := (Runtime.Step.enter admits).path
  spoil room large _ := (Runtime.Step.spoil room large).path
  breaks _ _ := Runtime.Step.breaks.path
  leave _ _ := Runtime.Step.leave.path
  park _ _ := .of_frames rfl rfl
  released _ := .of_frames rfl rfl
  truncate _ _ := .of_frames rfl rfl
  thread context context' es works rest := by
    have path := Runtime.Step.spawn.path.trans (works (context :: rest))
    unfold RuntimeCall.dropped
    split
    · next idle => exact path.trans (Runtime.Step.retire idle).path
    · exact path.trans Runtime.Step.drop.path
  threadSeen context _ goes rest :=
    let ⟨r, path⟩ := goes (context :: rest)
    ⟨r, Runtime.Step.spawn.path.trans path⟩

end Call

lemma Machine.of_start {program : Program} {settings : Settings} {world : Surroundings}
    {m : Machine} (start : Machine.start program settings world = .ok m) :
    m.program = program ∧ m.settings = settings ∧ m.pool = {} ∧
      m.records = program.classes.map fun c => c.methods.map fun _ => {} := by
  unfold Machine.start at start
  cases allocated : allocStatics { limit := settings.heapLimit } program.classes.toList with
  | error cause =>
    rw [allocated] at start
    cases start
  | ok r =>
    rw [allocated] at start
    cases start
    exact ⟨rfl, rfl, rfl, rfl⟩

namespace Runtime

/-- What a machine can come to from its start, with what has happened. -/
def Reached (program : Program) (settings : Settings) (world : Surroundings) (es : List Event)
    (r : Runtime) : Prop :=
  ∃ m, Machine.start program settings world = .ok m ∧ Path ⟨m, []⟩ es r

namespace Reached

variable {program : Program} {settings : Settings} {world : Surroundings} {es es' : List Event}
  {r r' : Runtime}

lemma trans (reached : Reached program settings world es r) (path : Path r es' r') :
    Reached program settings world (es ++ es') r' := by
  obtain ⟨m, start, before⟩ := reached
  exact ⟨m, start, before.trans path⟩

/-- After a call, in any context, what has happened is what had happened before and the journal of
the call.  The journal goes on also if the call does not return. -/
lemma invoke (reached : Reached program settings world es r) {context : Context}
    {rest : List Context} (perm : r.contexts.Perm (context :: rest)) (fuel : Nat) (method : Method)
    (receiver : Word) (site : Bool) :
    (∀ t, Call.ComesTo fuel method receiver site ⟨r.machine, context⟩ t →
          Reached program settings world
            (es ++ Call.journal Call.nativeBody fuel method receiver site ⟨r.machine, context⟩)
              (t.among rest)) ∧
      ∃ r', Reached program settings world
        (es ++ Call.journal Call.nativeBody fuel method receiver site ⟨r.machine, context⟩) r' := by
  have begins : Reached program settings world es (State.among ⟨r.machine, context⟩ rest) := by
    have switched := reached.trans (Step.switch perm).path
    rwa [List.append_nil] at switched
  obtain ⟨answers, stops⟩ :=
    Call.logs_invokeWith Call.leads_callBasis fuel method receiver site ⟨r.machine, context⟩
  refine ⟨fun t returns => ?_, ?_⟩
  · rcases returns with answered | ⟨f, failed⟩
    · exact begins.trans (answers () t answered rest)
    · exact begins.trans (stops _ t failed rest)
  · cases run : Call.invoke fuel method receiver site ⟨r.machine, context⟩ with
    | ok a t => exact ⟨_, begins.trans (answers a t run rest)⟩
    | error e t =>
      have ended := stops e t run
      cases e with
      | fault f | panic => exact ⟨_, begins.trans (ended rest)⟩
      | stuck =>
        obtain ⟨r', path⟩ := ended rest
        exact ⟨r', begins.trans path⟩

/-- The state in which something happened has been reached. -/
lemma before {before after : List Event} {e : Event}
    (reached : Reached program settings world (before ++ e :: after) r) :
    ∃ rest, Reached program settings world before (e.before.among rest) := by
  obtain ⟨m, start, path⟩ := reached
  obtain ⟨rest, way⟩ := path.before
  exact ⟨rest, m, start, way⟩

end Reached

end Runtime

end StackMachine
