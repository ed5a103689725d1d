import StackMachine.Proofs.Calls
import StackMachine.Proofs.EngineEffects

/-!
# Frames and halts within a body

Within the body of a method only its own frame changes (`State.Within`), and if there was nothing to
halt for before, there is nothing after (`State.Passes`).

A compiled body cannot fail: a fault of a runtime call is kept, and the body is told to halt; so it
is if the runtime breaks off.  A body is obedient if it then makes no further runtime call
(`Native.Obedient`); so what was kept is still there when it returns
(`Native.Processor.Reaches.halting_eq`, `Native.Processor.calm_or_kept`).
-/

namespace StackMachine

/-- There is nothing to halt for. -/
structure Context.Calm (c : Context) : Prop where
  halt : c.halt = 0
  pending : c.pending = none

namespace State

variable {s t u : State}

/-- Within the body of a method: only the innermost frame changes, and it remains a frame of the
method. -/
structure Within (s t : State) : Prop where
  tail : t.context.frames.tail = s.context.frames.tail
  methods : t.context.frames.map Frame.method = s.context.frames.map Frame.method

/-- The depth of the call stack is known. -/
def Matched (s : State) : Prop := s.context.callPos = s.context.frames.length

/-- Within the body of a method, and no fault is kept or taken. -/
structure Passes (s t : State) : Prop extends s.Within t where
  pending : t.context.pending = s.context.pending
  calm : s.context.Calm → t.context.Calm
  matched : s.Matched → t.Matched

lemma Within.refl (s : State) : s.Within s := ⟨rfl, rfl⟩

lemma Within.trans (first : s.Within t) (second : t.Within u) : s.Within u :=
  ⟨second.tail.trans first.tail, second.methods.trans first.methods⟩

lemma Passes.trans (first : s.Passes t) (second : t.Passes u) : s.Passes u :=
  ⟨first.toWithin.trans second.toWithin, second.pending.trans first.pending,
    fun calm => second.calm (first.calm calm),
      fun matched => second.matched (first.matched matched)⟩

lemma matched_returned (s : State) : s.returned.Matched := by
  unfold returned Matched
  cases frames : s.context.frames with
  | nil => exact (congrArg List.length frames).symm
  | cons f rest => rfl

lemma frames_returned (s : State) : s.returned.context.frames = s.context.frames.tail := by
  unfold returned
  cases frames : s.context.frames with
  | nil => exact frames
  | cons f rest => rfl

end State

namespace Exec

variable {α : Type} {m : Exec α}

/-- A computation that leaves the frames alone. -/
lemma within_of_leaves (leaves : Leaves (fun s => s.context.frames) m) : Does State.Within m :=
  leaves.does.mono fun frames => by constructor <;> rw [frames]

lemma within_modifyFrame (f : Frame → Frame) (keeps : ∀ frame, (f frame).method = frame.method) :
    Does State.Within (modifyFrame f) := by
  refine fun s => ends_ok rfl ?_
  obtain ⟨machine, halt, callPos, stack, frames, pending⟩ := s
  cases frames with
  | nil => exact .refl _
  | cons frame rest => exact ⟨rfl, congrArg (· :: rest.map Frame.method) (keeps frame)⟩

/-- Whether there is something to halt for, and what. -/
def halting (s : State) : Word × Option Fault := (s.context.halt, s.context.pending)

lemma leaves_halting_modifyFrame (f : Frame → Frame) : Leaves halting (modifyFrame f) := by
  refine .modify fun s => ?_
  obtain ⟨machine, halt, callPos, stack, frames, pending⟩ := s
  cases frames <;> rfl

/-- No step of an engine is a reason to halt. -/
lemma halting_basis : EngineBasis (fun s t => halting t = halting s)
    (Always fun s t => halting t = halting s) :=
  .of_part (fun _ _ => rfl) (fun _ _ => rfl) fun f _ => leaves_halting_modifyFrame f

lemma calm_of_halting {s t : State} (equal : halting t = halting s) (calm : s.context.Calm) :
    t.context.Calm :=
  ⟨(congrArg Prod.fst equal).trans calm.halt, (congrArg Prod.snd equal).trans calm.pending⟩

/-- A computation that leaves frames and halts alone. -/
lemma passes_of_leaves
    (leaves : Leaves (fun s => (s.context.frames, s.context.callPos, halting s)) m) :
    Does State.Passes m := by
  refine leaves.does.mono fun equal => ?_
  obtain ⟨frames, rest⟩ := Prod.mk.inj equal
  obtain ⟨callPos, equal⟩ := Prod.mk.inj rest
  refine ⟨⟨by rw [frames], by rw [frames]⟩, congrArg Prod.snd equal, calm_of_halting equal,
    fun matched => ?_⟩
  rw [State.Matched, frames, callPos]
  exact matched

/-- A computation on what all threads share. -/
lemma passes_of_context (leaves : Leaves State.context m) : Does State.Passes m :=
  passes_of_leaves (leaves.map fun c => (c.frames, c.callPos, c.halt, c.pending))

lemma passes_modifyFrame (f : Frame → Frame) (keeps : ∀ frame, (f frame).method = frame.method) :
    Does State.Passes (modifyFrame f) := by
  intro s
  have within := ((within_modifyFrame f keeps) s).1 _ _ rfl
  refine ends_ok rfl ?_
  obtain ⟨machine, halt, callPos, stack, frames, pending⟩ := s
  cases frames with
  | nil => exact ⟨within, rfl, id, id⟩
  | cons frame rest => exact ⟨within, rfl, fun calm => ⟨calm.halt, calm.pending⟩, id⟩

/-- Every step of an engine is within the body. -/
lemma passes_basis : EngineBasis State.Passes (Always State.Passes) where
  trans := State.Passes.trans
  stops _ passes _ := passes
  later first last ne := first.trans (last ne)
  machine _ _ _ := ⟨⟨rfl, rfl⟩, rfl, id, id⟩
  pop := passes_of_leaves (.pop fun _ _ => rfl)
  push w := passes_of_leaves (.push (fun _ _ => rfl) w)
  frame f keeps := passes_modifyFrame f fun frame => (keeps frame).1
  pushWord _ := passes_of_leaves (Leaves.modifyStack fun _ _ => rfl)
  dropWord := passes_of_leaves (Leaves.modifyStack fun _ _ => rfl)

end Exec

/-! ### Runs of compiled bodies -/

namespace Native

variable {γ φ : Type} [DecidableEq γ] [DecidableEq φ]

/-- After a runtime call that leaves a reason to halt, the body makes no other: the rest of its run
does not depend on the runtime. -/
def Obedient (ops : Array (Operation γ φ)) (places : List (JumpTarget × Nat)) : Prop :=
  ∀ (place : Nat) tag address ip onHalt next,
    ops[place]? = some (Operation.callRuntime tag address ip onHalt) →
    places.lookup onHalt = some next → ∀ (call call' : Callback) entry fuel (p : Processor γ φ) s,
      Processor.run call entry ops places fuel next p s = Processor.run call' entry ops places fuel
        next p s

namespace Processor

variable {call : Callback} {entry : Entry} {ops : Array (Operation γ φ)}
  {places : List (JumpTarget × Nat)} {fuel place place' : Nat} {p p' q : Processor γ φ}
  {s t u v : State} {op : Operation γ φ} {target onHalt : JumpTarget} {tag address ip status : Word}

/-- A run passes from one configuration to another. -/
inductive Reaches (call : Callback) (entry : Entry) (ops : Array (Operation γ φ))
    (places : List (JumpTarget × Nat)) :
    Nat → Processor γ φ → State → Nat → Processor γ φ → State → Prop
  | refl (place : Nat) (p : Processor γ φ) (s : State) :
    Reaches call entry ops places place p s place p s
  | next {place place' : Nat} {p p' q : Processor γ φ} {s t u : State} {op : Operation γ φ}
      (fetch : ops[place]? = some op) (performs : p.perform call entry op s = .ok (p', .next) t)
      (rest : Reaches call entry ops places (place + 1) p' t place' q u) :
      Reaches call entry ops places place p s place' q u
  | goto {place place' next : Nat} {p p' q : Processor γ φ} {s t u : State} {op : Operation γ φ}
      {target : JumpTarget} (fetch : ops[place]? = some op)
      (performs : p.perform call entry op s = .ok (p', .goto target) t)
      (bound : places.lookup target = some next)
      (rest : Reaches call entry ops places next p' t place' q u) :
      Reaches call entry ops places place p s place' q u

/-- An operation that is no runtime call answers. -/
lemma exists_perform (entry : Entry) (p : Processor γ φ) (s : State)
    (inlined : ∀ tag address ip onHalt, op ≠ .callRuntime tag address ip onHalt) :
    ∃ r t, ∀ call, p.perform call entry op s = .ok r t := by
  cases op
  case callRuntime tag address ip onHalt => exact absurd rfl (inlined tag address ip onHalt)
  case divide remainder dst src onZero =>
    unfold perform
    by_cases zero : p.src src = 0
    · simp only [if_pos zero]
      exact ⟨_, _, fun _ => rfl⟩
    · simp only [if_neg zero]
      exact ⟨_, _, fun _ => rfl⟩
  case boundsBranch index array under above =>
    unfold perform
    by_cases negative : p.int index < 0
    · simp only [if_pos negative]
      exact ⟨_, _, fun _ => rfl⟩
    · simp only [if_neg negative]
      exact ⟨_, _, fun _ => rfl⟩
  all_goals exact ⟨_, _, fun _ => rfl⟩

lemma perform_callRuntime (p : Processor γ φ) (called : call tag address ip s = .ok () t) :
    p.perform call entry (.callRuntime tag address ip onHalt) s =
      .ok ({ slots := p.slots }, Flow.when (t.context.halt != 0) onHalt) t := Exec.bind_of_ok called

/-- What holds across each operation that answers holds from one configuration to another. -/
lemma Reaches.does {R : State → State → Prop} {E : Stop → State → State → Prop}
    (h : Exec.EngineBasis R E) (calls : ∀ tag address ip, Exec.Ends R E (call tag address ip))
    (reaches : Reaches call entry ops places place p s place' q u) : R s u := by
  induction reaches with
  | refl place p s => exact h.refl s
  | next fetch performs _ ih | goto fetch performs _ _ ih =>
    exact h.trans ((does_perform h entry calls _ _ _).1 _ _ performs) ih

section

variable (reaches : Reaches call entry ops places place p s place' q u)
include reaches

/-- A run goes on from where it has come to, unless it was stuck before. -/
lemma Reaches.run_eq :
    ∀ fuel, (∃ v, run call entry ops places fuel place p s = .error .stuck v) ∨
      ∃ fuel', run call entry ops places fuel place p s = run call entry ops places fuel' place' q
        u := by
  induction reaches with
  | refl place p s => exact fun fuel => .inr ⟨fuel, rfl⟩
  | @next place place' p p' q s t u op fetch performs _ ih =>
    intro fuel
    cases fuel with
    | zero => exact .inl ⟨s, rfl⟩
    | succ fuel =>
      rw [run_succ fetch, performs]
      exact ih fuel
  | @goto place place' next p p' q s t u op target fetch performs bound _ ih =>
    intro fuel
    cases fuel with
    | zero => exact .inl ⟨s, rfl⟩
    | succ fuel =>
      rw [run_succ fetch, performs]
      dsimp only
      rw [bound]
      exact ih fuel

lemma Reaches.run_ne_ok {e : Stop}
    (fetch : ops[place']? = some (.callRuntime tag address ip onHalt))
    (stops : call tag address ip u = .error e v) :
    run call entry ops places fuel place p s ≠ .ok status t := by
  intro ran
  rcases reaches.run_eq fuel with ⟨w, stuck⟩ | ⟨fuel', same⟩
  · cases stuck.symm.trans ran
  rw [same] at ran
  cases fuel' with
  | zero => cases ran
  | succ fuel' =>
    have stopped : q.perform call entry (.callRuntime tag address ip onHalt) u = .error e v :=
      Exec.bind_of_error stops
    rw [run_succ fetch, stopped] at ran
    cases ran

/-- A run that does not depend on the runtime makes no runtime call. -/
lemma Reaches.not_callRuntime
    (silent : ∀ (call call' : Callback) fuel, run call entry ops places fuel place p s =
      run call' entry ops places fuel place p s) :
    ops[place']? ≠ some (.callRuntime tag address ip onHalt) := by
  -- a runtime that fails and one that is stuck tell a runtime call from the rest
  have stops {place : Nat} {p : Processor γ φ} {s : State} {tag address ip : Word}
      {onHalt : JumpTarget} (silent : ∀ (call call' : Callback) fuel,
        run call entry ops places fuel place p s = run call' entry ops places fuel place p s)
      (fetch : ops[place]? = some (.callRuntime tag address ip onHalt)) : False := by
    have same := silent (fun _ _ _ => Exec.fail .halted) (fun _ _ _ => throw .stuck) 1
    rw [run_succ fetch, run_succ fetch] at same
    cases same
  have others {place : Nat} {p : Processor γ φ} {s : State} {op : Operation γ φ}
      (silent : ∀ (call call' : Callback) fuel,
        run call entry ops places fuel place p s = run call' entry ops places fuel place p s)
      (fetch : ops[place]? = some op) : ∃ r t, ∀ call, p.perform call entry op s = .ok r t :=
    exists_perform entry p s fun tag address ip onHalt same => stops silent (same ▸ fetch)
  induction reaches with
  | refl place p s => exact stops silent
  | @next place place' p p' q s t u op fetch performs _ ih =>
    refine ih fun call' call'' fuel => ?_
    obtain ⟨r, t', always⟩ := others silent fetch
    cases (always call).symm.trans performs
    have same := silent call' call'' (fuel + 1)
    rw [run_succ fetch, run_succ fetch, always, always] at same
    exact same
  | @goto place place' next p p' q s t u op target fetch performs bound _ ih =>
    refine ih fun call' call'' fuel => ?_
    obtain ⟨r, t', always⟩ := others silent fetch
    cases (always call).symm.trans performs
    have same := silent call' call'' (fuel + 1)
    rw [run_succ fetch, run_succ fetch, always, always] at same
    dsimp only at same
    rw [bound] at same
    exact same

end

/-- A run that does not depend on the runtime is no reason to halt. -/
lemma halting_eq_of_silent (silent : ∀ (call call' : Callback) fuel,
      run call entry ops places fuel place p s = run call' entry ops places fuel place p s)
    (ran : run call entry ops places fuel place p s = .ok status t) :
    Exec.halting t = Exec.halting s := by
  rw [silent call (fun _ _ _ => throw .stuck) fuel] at ran
  have refuses (tag address ip : Word) : Exec.Does (fun s t => Exec.halting t = Exec.halting s)
      (throw .stuck : Exec Unit) := Exec.halting_basis.throw _
  exact (does_run Exec.halting_basis entry refuses ops places fuel place p s).1 _ _ ran

/-- A runtime that nothing passes but being stuck, and that leaves no reason to halt unless it halts
the body. -/
structure Tames (call : Callback) : Prop where
  stuck : ∀ {tag address ip s e t}, call tag address ip s = .error e t → e = .stuck
  halts : ∀ {tag address ip s t}, s.context.Calm → call tag address ip s = .ok () t →
    t.context.Calm ∨ t.context.halt ≠ 0

/-- After a runtime call that halts an obedient body, what was kept is still there when the body
returns. -/
lemma Reaches.halting_eq (obedient : Obedient ops places)
    (reaches : Reaches call entry ops places place p s place' q u)
    (calls : ops[place']? = some (.callRuntime tag address ip onHalt))
    (called : call tag address ip u = .ok () v) (halts : v.context.halt ≠ 0)
    (ran : run call entry ops places fuel place p s = .ok status t) :
    Exec.halting t = Exec.halting v := by
  rcases reaches.run_eq fuel with ⟨w, stuck⟩ | ⟨fuel', same⟩
  · cases stuck.symm.trans ran
  rw [same] at ran
  cases fuel' with
  | zero => cases ran
  | succ fuel' =>
    rw [run_succ calls, perform_callRuntime q called, Flow.when, if_pos (bne_iff_ne.2 halts)] at ran
    dsimp only at ran
    split at ran
    · next next bound =>
      have silent := obedient _ _ _ _ _ _ calls bound
      exact halting_eq_of_silent (fun call call' fuel => silent call call' _ fuel _ _) ran
    · cases ran
      rfl

variable (tames : Tames call)
include tames

lemma run_eq_stuck {e : Stop} (failed : run call entry ops places fuel place p s = .error e t) :
    e = .stuck := by
  induction fuel generalizing place p s with
  | zero =>
    cases failed
    rfl
  | succ fuel ih =>
    cases fetch : ops[place]? with
    | none =>
      rw [run, fetch] at failed
      cases failed
    | some op =>
      rw [run_succ fetch] at failed
      split at failed
      · exact ih failed
      · split at failed
        · exact ih failed
        · cases failed
      · cases failed
      · next e t' performs =>
        cases failed
        by_cases inlined : ∀ tag address ip onHalt, op ≠ .callRuntime tag address ip onHalt
        · obtain ⟨r, t', always⟩ := exists_perform entry p s inlined
          cases (always call).symm.trans performs
        · simp only [not_forall, not_not] at inlined
          obtain ⟨tag, address, ip, onHalt, rfl⟩ := inlined
          cases called : call tag address ip s with
          | ok a u => cases (perform_callRuntime p called).symm.trans performs
          | error e u =>
            have stopped : p.perform call entry (.callRuntime tag address ip onHalt) s =
              .error e u :=
              Exec.bind_of_error called
            cases stopped.symm.trans performs
            exact tames.stuck called

/-- What one operation of an obedient body does to a calm state: it stays calm, or the operation was
a runtime call that halts the body. -/
lemma calm_of_perform (calm : s.context.Calm) {flow : Flow}
    (performs : p.perform call entry op s = .ok (p', flow) t) : t.context.Calm ∨
      ∃ tag address ip onHalt, op = .callRuntime tag address ip onHalt ∧
        call tag address ip s = .ok () t ∧ t.context.halt ≠ 0 ∧ flow = .goto onHalt := by
  by_cases inlined : ∀ tag address ip onHalt, op ≠ .callRuntime tag address ip onHalt
  · exact .inl (Exec.calm_of_halting
      ((does_perform_of_ne Exec.halting_basis entry p inlined s).1 _ _ performs) calm)
  · simp only [not_forall, not_not] at inlined
    obtain ⟨tag, address, ip, onHalt, rfl⟩ := inlined
    cases called : call tag address ip s with
    | error e u =>
      have stopped : p.perform call entry (.callRuntime tag address ip onHalt) s = .error e u :=
        Exec.bind_of_error called
      cases stopped.symm.trans performs
    | ok a u =>
      cases (perform_callRuntime p called).symm.trans performs
      refine (tames.halts calm called).imp id fun halts => ⟨tag, address, ip, onHalt, rfl, called,
        halts, ?_⟩
      rw [Flow.when, if_pos (bne_iff_ne.2 halts)]

/-- An obedient body that is entered calm makes its runtime calls calm. -/
lemma Reaches.calm (obedient : Obedient ops places)
    (reaches : Reaches call entry ops places place p s place' q u) (calm : s.context.Calm)
    (calls : ops[place']? = some (.callRuntime tag address ip onHalt)) : u.context.Calm := by
  induction reaches with
  | refl => exact calm
  | @next place place' p p' q s t u op fetch performs _ ih =>
    obtain still | ⟨_, _, _, _, -, -, -, same⟩ := calm_of_perform tames calm performs
    · exact ih still calls
    · cases same
  | @goto place place' next p p' q s t u op target fetch performs bound rest ih =>
    obtain still | ⟨_, _, _, _, rfl, -, -, same⟩ := calm_of_perform tames calm performs
    · exact ih still calls
    · cases same
      have silent := obedient _ _ _ _ _ _ fetch bound
      exact absurd calls (rest.not_callRuntime fun call call' fuel => silent call call' _ fuel _ _)

/-- An obedient body that is entered calm returns calm, or has made a runtime call that halts it,
and what was kept is still there. -/
lemma calm_or_kept (obedient : Obedient ops places) :
    ∀ {fuel place : Nat} {p : Processor γ φ} {s : State}, s.context.Calm →
      run call entry ops places fuel place p s = .ok status t → t.context.Calm ∨
        ∃ place' q u tag address ip onHalt v, Reaches call entry ops places place p s place' q u ∧
          ops[place']? = some (.callRuntime tag address ip onHalt) ∧ u.context.Calm ∧
          call tag address ip u = .ok () v ∧ v.context.halt ≠ 0 ∧
          Exec.halting t = Exec.halting v := by
  intro fuel
  induction fuel with
  | zero =>
    intro place p s calm ran
    cases ran
  | succ fuel ih =>
    intro place p s calm ran
    cases fetch : ops[place]? with
    | none =>
      rw [run, fetch] at ran
      cases ran
      exact .inl calm
    | some op =>
      have ran' := ran
      rw [run_succ fetch] at ran
      cases performs : p.perform call entry op s with
      | error e u =>
        rw [performs] at ran
        cases ran
      | ok r u =>
        obtain ⟨p', flow⟩ := r
        rw [performs] at ran
        obtain still | ⟨tag, address, ip, onHalt, rfl, called, halts, -⟩ :=
          calm_of_perform tames calm performs
        · cases flow with
          | done status' =>
            cases ran
            exact .inl still
          | next =>
            obtain calm' | ⟨place', q, v, tag, address, ip, onHalt, w, reaches, rest⟩ :=
              ih still ran
            · exact .inl calm'
            · exact .inr ⟨place', q, v, tag, address, ip, onHalt, w,
                .next fetch performs reaches, rest⟩
          | goto target =>
            dsimp only at ran
            split at ran
            · next next bound =>
              obtain calm' | ⟨place', q, v, tag, address, ip, onHalt, w, reaches, rest⟩ :=
                ih still ran
              · exact .inl calm'
              · exact .inr ⟨place', q, v, tag, address, ip, onHalt, w,
                  .goto fetch performs bound reaches, rest⟩
            · cases ran
              exact .inl still
        · exact .inr ⟨place, p, s, tag, address, ip, onHalt, u, .refl _ _ _, fetch, calm,
            called, halts, (Reaches.refl place p s).halting_eq obedient fetch called halts ran'⟩

end Processor

end Native

/-! ### Runtime calls from compiled code -/

namespace Call

open Exec

variable {perform : Instruction → Exec Unit} {tag ip : Word} {instr? : Option Instruction}
  {instr : Instruction} {cause : Cause} {f : Fault} {s t u : State}

lemma halt_of_parkTraced (parks : parkTraced f s = .ok () t) : t.context.halt ≠ 0 := by
  have halt : t.context.halt = 1 := by
    cases parks
    rfl
  rw [halt]
  decide

/-- A runtime call that answers compiled code was refused, or it has been performed and a fault has
been kept if it failed or broke off. -/
lemma fromNative_eq_ok (answers : fromNative perform tag instr? ip s = .ok () t) :
    (∃ cause, refusal? tag instr? = some cause ∧ parkTraced { cause } s = .ok () t) ∨
      ∃ instr u, instr? = some instr ∧ refusal? tag (some instr) = none ∧
        modifyFrame (fun f => { f with ip := (Word.toIndex? ip).getD 0 }) s = .ok () u ∧
        (perform instr u = .ok () t ∨
          (∃ f v, perform instr u = .error (.fault f) v ∧ parkTraced f v = .ok () t) ∨
          ∃ v, perform instr u = .error .panic v ∧ parkTraced { cause := brokenOff instr } v =
            .ok () t) := by
  cases refused : refusal? tag instr? with
  | some cause =>
    rw [fromNative_refused refused] at answers
    exact .inl ⟨cause, rfl, answers⟩
  | none =>
    cases instr? with
    | none => cases refused
    | some instr =>
      obtain ⟨u, saves⟩ : ∃ u,
          modifyFrame (fun f => { f with ip := (Word.toIndex? ip).getD 0 }) s = .ok () u := ⟨_, rfl⟩
      refine .inr ⟨instr, u, rfl, refused, saves, ?_⟩
      rw [fromNative_served refused saves] at answers
      cases performs : perform instr u with
      | ok a v =>
        rw [performs] at answers
        exact .inl answers
      | error e v =>
        rw [performs] at answers
        cases e with
        | fault f => exact .inr (.inl ⟨f, v, rfl, answers⟩)
        | panic => exact .inr (.inr ⟨v, rfl, answers⟩)
        | stuck => cases answers

/-- Saving the place of the next instruction is no reason to halt. -/
lemma calm_modifyFrame {g : Frame → Frame} (calm : s.context.Calm)
    (saves : modifyFrame g s = .ok () t) : t.context.Calm :=
  calm_of_halting ((leaves_halting_modifyFrame g s).1 _ _ saves) calm

/-- The runtime as compiled code calls it. -/
lemma tames_callback
    (calms : ∀ {instr s t}, perform instr s = .ok () t → s.context.Calm → t.context.Calm)
    (addresses : Native.Addresses) (method : Method) :
    Native.Processor.Tames (callback perform addresses method) where
  stuck {tag address ip s e t} failed := by
    unfold callback at failed
    cases refused : refusal? tag (instructionAt? addresses method address) with
    | some cause =>
      rw [fromNative_refused refused] at failed
      cases failed
    | none =>
      cases found : instructionAt? addresses method address with
      | none =>
        rw [found] at refused
        cases refused
      | some instr =>
        rw [found] at refused failed
        obtain ⟨u, saves⟩ : ∃ u,
            modifyFrame (fun f => { f with ip := (Word.toIndex? ip).getD 0 }) s = .ok () u :=
            ⟨_, rfl⟩
        rw [fromNative_served refused saves] at failed
        split at failed <;> cases failed
        rfl
  halts calm answers := by
    obtain ⟨cause, -, parks⟩ | ⟨instr, u, -, -, saves, served | ⟨f, v, -, parks⟩ | ⟨v, -, parks⟩⟩ :=
      fromNative_eq_ok answers
    · exact .inr (halt_of_parkTraced parks)
    · exact .inl (calms served (calm_modifyFrame calm saves))
    · exact .inr (halt_of_parkTraced parks)
    · exact .inr (halt_of_parkTraced parks)

end Call

end StackMachine
