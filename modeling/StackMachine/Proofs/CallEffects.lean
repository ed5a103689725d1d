import StackMachine.Proofs.Journal

/-!
# What calls do to the state

Besides what the engines do, a call chooses an engine, takes a frame and gives it back, keeps a
fault of a runtime call until the compiled body has returned, and cuts the operand stack back if it
fails.  A relation that holds across each of these steps, with the events that they are, holds
across every call with its journal, at any nesting of calls and threads (`Call.logs_invokeWith`).
-/

namespace StackMachine

open Exec

/-! ### The engines -/

namespace Interpreter

variable {R : State → List Event → State → Prop} {E : Stop → State → List Event → State → Prop}
  (h : JournalBasis R E) {call : Instruction → Exec Unit} {serving : Instruction → Journal}
  (serves : ∀ instr, Logs R E (call instr) (serving instr))
include h serves

lemma logs_step (method : Method) (ip : Nat) (instr : Instruction) :
    Logs R E (step call method ip instr) (stepJournal serving ip instr) := by
  have saves : Silent R E (modifyFrame fun f => { f with ip }) := h.quiet.frame _
    fun _ => ⟨rfl, rfl⟩
  have serves : Logs R E (do
      modifyFrame fun f => { f with ip }
      call instr
      return Flow.next) ((modifyFrame fun f => { f with ip }).andThen fun _ => serving instr) :=
    h.bind_quiet saves fun _ => h.bind_done (serves instr) fun _ => h.quiet.pure _
  unfold step stepJournal
  cases instr.action
  case arraySize | runtime => exact serves
  case jump => exact JournalBasis.nothing (does_jumpTo h.quiet _ _)
  case jumpWhen =>
    exact JournalBasis.nothing (h.quiet.bind h.quiet.pop fun _ => .ite (does_jumpTo h.quiet _ _)
      (h.quiet.pure _))
  case leave => exact JournalBasis.nothing (h.quiet.pure _)
  all_goals exact JournalBasis.nothing (h.quiet.bind (does_perform h.quiet method _)
    fun _ => h.quiet.pure _)

/-- Any number of instructions. -/
theorem logs_run (method : Method) (fuel ip : Nat) :
    Logs R E (run call method fuel ip) (journal call serving method fuel ip) := by
  induction fuel generalizing ip with
  | zero => exact JournalBasis.nothing (h.quiet.throw _)
  | succ fuel ih =>
    unfold run journal
    cases method.code[ip]? with
    | none => exact JournalBasis.nothing (h.quiet.pure ())
    | some instr =>
      refine h.bind (logs_step h serves method _ _) fun flow => ?_
      cases flow with
      | next => exact ih _
      | goto target => exact ih target
      | leave => exact JournalBasis.nothing (h.quiet.pure ())

end Interpreter

namespace Native.Processor

variable {γ φ : Type} [DecidableEq γ] [DecidableEq φ] {R : State → List Event → State → Prop}
  {E : Stop → State → List Event → State → Prop} (h : JournalBasis R E) {call : Callback}
  (entry : Entry) {serving : Word → Word → Word → Journal}
  (serves : ∀ tag address ip, Logs R E (call tag address ip) (serving tag address ip))
include h serves

lemma logs_perform (op : Operation γ φ) (p : Processor γ φ) :
    Logs R E (p.perform call entry op) (performJournal serving op) := by
  cases op
  case callRuntime tag address ip onHalt =>
    exact h.bind_done (serves tag address ip) fun _ =>
      h.quiet.bind (h.quiet.reads (.asksContext _)) fun _ => h.quiet.pure _
  all_goals exact JournalBasis.nothing (does_perform_of_ne h.quiet entry p nofun)

/-- Any number of operations. -/
theorem logs_run (ops : Array (Operation γ φ)) (places : List (JumpTarget × Nat)) (fuel place : Nat)
    (p : Processor γ φ) :
    Logs R E (run call entry ops places fuel place p)
    (journal call serving entry ops places fuel place p) := by
  induction fuel generalizing place p with
  | zero => exact JournalBasis.nothing (h.quiet.throw _)
  | succ fuel ih =>
    unfold run journal
    cases ops[place]? with
    | none => exact JournalBasis.nothing (h.quiet.pure _)
    | some op =>
      refine h.bind (logs_perform h entry serves op p) fun next => ?_
      obtain ⟨p', flow⟩ := next
      cases flow with
      | next => exact ih _ _
      | goto target =>
        dsimp only
        cases places.lookup target with
        | some place => exact ih _ _
        | none => exact JournalBasis.nothing (h.quiet.pure _)
      | done status => exact JournalBasis.nothing (h.quiet.pure _)

end Native.Processor

/-! ### Runtime calls -/

namespace RuntimeCall

variable {R : State → List Event → State → Prop} {E : Stop → State → List Event → State → Prop}
  (h : JournalBasis R E) {invoke : Invoke} {calling : Method → Word → Bool → Journal}
  (threads : ∀ task, Logs R E (runTask invoke task) (taskJournal invoke calling task))
include h threads

lemma logs_join (id : Word) : Logs R E (join invoke id) (joinJournal invoke calling id) := by
  refine h.bind_quiet (h.quiet.aside (.asksMachine _)) fun work => ?_
  match work with
  | none => exact JournalBasis.nothing (h.quiet.pure ())
  | some .running => exact JournalBasis.nothing (h.quiet.throw _)
  | some (.ended outcome) =>
    exact JournalBasis.nothing (h.quiet.bind (h.quiet.aside (leaves_modifyRegistry _))
      fun _ => h.quiet.ofExcept _)
  | some (.queued task) =>
    exact h.bind_quiet (h.quiet.aside (leaves_modifyRegistry _)) fun _ =>
      h.bind_done (threads task) fun _ => h.quiet.ofExcept _

/-- A queued thread; one that is stuck has done nothing. -/
lemma logs_advance (id : Word) :
    Logs R E (advance invoke id) (advanceJournal invoke calling id) := by
  intro s
  have stays := JournalBasis.nothing (h.quiet.pure ()) s
  unfold advance advanceJournal
  cases s.machine.registry.work? id with
  | none => exact stays
  | some work =>
    cases work with
    | running | ended outcome => exact stays
    | queued task =>
      have changes (f : Registry Work → Registry Work) :
          Silent R E (modifyRegistry f) :=
        h.quiet.aside (leaves_modifyRegistry f)
      have begins : modifyRegistry (fun r => r.setWork id .running) s =
          .ok () { s with machine := { s.machine with
            registry := s.machine.registry.setWork id .running } } := rfl
      dsimp only
      rw [bind_of_ok begins, andThen_of_ok begins]
      generalize ({ s with machine := _ } : State) = t at begins ⊢
      cases ran : runTask invoke task t with
      | error e u =>
        rw [bind_of_error ran]
        dsimp only
        cases runTask_eq_stuck ran
        exact stays
      | ok outcome u =>
        have ends := changes (fun r => r.setWork id (.ended outcome)) u
        rw [bind_of_ok ran]
        refine ⟨fun _ v ended => ?_, fun _ _ stopped => (nomatch stopped)⟩
        have first := h.append (((changes _) s).1 _ _ begins) ((threads task t).1 _ _ ran)
        exact h.append_quiet first (ends.1 _ _ ended)

lemma logs_advanceEach (ids : List Word) :
    Logs R E (advanceEach invoke ids) (advanceEachJournal invoke calling ids) := by
  induction ids with
  | nil => exact JournalBasis.nothing (h.quiet.pure ())
  | cons id ids ih => exact h.bind (logs_advance h threads id) fun _ => ih

variable (calls : ∀ method receiver site, Logs R E (invoke method receiver site)
  (calling method receiver site))
include calls

/-- A runtime call. -/
theorem logs_perform (instr : Instruction) :
    Logs R E (perform invoke instr) (journal invoke calling instr) := by
  cases prepares : prepare? instr with
  | some prepare =>
    rw [perform_eq_bind prepares, journal, prepares]
    exact h.bind_quiet (does_prepare h.quiet.toBasis prepares) fun c => calls _ _ _
  | none =>
    by_cases joins : instr.op = .threadJoin
    · rw [perform, journal, prepares, joins]
      exact h.bind_quiet h.quiet.popHandle fun _ => h.bind_quiet (h.quiet.aside (.asksHeap _))
        fun _ =>
        logs_join h threads _
    by_cases sleeps : instr.op = .threadSleep
    · rw [perform, journal, prepares, sleeps]
      exact h.bind_quiet h.quiet.pop fun _ =>
        h.bind_quiet (h.quiet.aside (.modifyMachine _ fun _ => rfl)) fun _ =>
        h.bind_quiet (h.quiet.aside (.asksMachine _)) fun _ => logs_advanceEach h threads _
    rw [journal_of_alone prepares joins sleeps]
    exact JournalBasis.nothing (does_perform_of_alone h.quiet.toBasis prepares joins sleeps)

end RuntimeCall

namespace Call

/-! ### The steps of a call -/

/-- What can be said after a stop: what can be said after an answer, unless there is no later
state. -/
def AtStop (R : State → List Event → State → Prop) (S : State → List Event → Prop) :
    Stop → State → List Event → State → Prop
  | .fault _, s, es, t => R s es t
  | .panic, s, es, t => R s es t
  | .stuck, s, es, _ => S s es

/-- A relation that holds from step to step of a call, with what can be said of a state and what
happens if there is no later state.  A thread runs in a context of its own. -/
structure CallBasis (choose : Choice) (R : State → List Event → State → Prop)
    (S : State → List Event → Prop) :
    Prop where
  engine : EngineBasis (fun s t => R s [] t) (Always fun s t => R s [] t)
  append : ∀ {s t u es es'}, R s es t → R t es' u → R s (es ++ es') u
  begins : ∀ s, S s []
  follows : ∀ {s t es es'}, R s es t → S t es' → S s (es ++ es')
  chooses : ∀ {method site s body? t}, choose method site s = .ok body? t →
    R s [.call s method site body?] t
  refuses : ∀ {method site s e t}, choose method site s = .error e t → e ≠ .stuck → R s [] t
  enter : ∀ {method : Method} (receiver : Word) {s : State}, s.Admits method →
    R s [.enter s method receiver] (s.entered method receiver)
  spoil : ∀ {method : Method} {s : State}, ¬s.Full → ¬method.Fits → R s [.spoil s method] s.spoiled
  breaks : ∀ s, R s [.breaks s] s
  leave : ∀ s, R s [] s.returned
  park : ∀ (s : State) f, R s [] { s with context := { s.context with
    pending := s.context.pending.orElse fun _ => some f, halt := 1 } }
  released : ∀ s, R s [] s.released
  truncate : ∀ (s : State) floor, R s [] { s with context := { s.context with
    stack := s.context.stack.truncate floor } }
  thread : ∀ {machine machine' : Machine} (context : Context) {context' : Context}
    {es : List Event}, R ⟨machine, .fresh machine.settings⟩ es ⟨machine', context'⟩ →
      R ⟨machine, context⟩ (es ++ RuntimeCall.dropped ⟨machine', context'⟩) ⟨machine', context⟩
  threadSeen : ∀ {machine : Machine} (context : Context) {es : List Event},
    S ⟨machine, .fresh machine.settings⟩ es → S ⟨machine, context⟩ es

variable {choose : Choice} {R : State → List Event → State → Prop} {S : State → List Event → Prop}
  (h : CallBasis choose R S)
include h

namespace CallBasis

lemma stops {s t : State} {es : List Event} (e : Stop) (holds : R s es t) :
    AtStop R S e s es t := by
  cases e with
  | fault f | panic => exact holds
  | stuck =>
    have seen := h.follows holds (h.begins t)
    rwa [List.append_nil] at seen

lemma later {e : Stop} {s t u : State} {es es' : List Event} (first : R s es t)
    (last : AtStop R S e t es' u) :
    AtStop R S e s (es ++ es') u := by
  cases e with
  | fault f | panic => exact h.append first last
  | stuck => exact h.follows first last

lemma journalBasis : JournalBasis R (AtStop R S) where
  quiet := by
    refine h.engine.mono h.engine.trans h.stops (fun first last => ?_) id fun {e s t} holds => ?_
    · have ended := h.later first last
      exact ended
    · cases e with
      | fault f | panic => exact holds nofun
      | stuck => exact h.begins s
  append := h.append
  stops := h.stops
  follows := h.later

end CallBasis

/-- The end of a compiled body. -/
lemma silent_finishNative (status : Word) : Silent R (AtStop R S) (finishNative status) := by
  intro s
  have ended : R s [] s.released.returned := h.append (h.released s) (h.leave _)
  cases kept : s.context.pending with
  | some f => exact ends_error (finishNative_pending kept) ended
  | none =>
    by_cases negative : status < 0
    · exact ends_error (finishNative_status kept negative) ended
    · exact ends_ok (finishNative_returned kept negative) ended

/-- A computation whose faults are passed on after something in which nothing happens. -/
lemma logs_catching {body : Exec Unit} {handle : Stop → Exec Unit} {journal : Journal}
    (logs : Logs R (AtStop R S) body journal)
    (faults : ∀ f, Silent R (AtStop R S) (handle (.fault f)))
    (panics : handle .panic = throw .panic) (stuck : handle .stuck = throw .stuck) :
    Logs R (AtStop R S) (tryCatch body handle) journal := by
  intro s
  rw [tryCatch_eq]
  cases run : body s with
  | ok a t => exact ends_ok rfl ((logs s).1 a t run)
  | error e t =>
    have before := (logs s).2 e t run
    cases e with
    | fault f =>
      have rest := h.journalBasis.after before (JournalBasis.nothing (faults f))
      rwa [List.append_nil] at rest
    | panic =>
      dsimp only
      rw [panics]
      exact ends_error rfl before
    | stuck =>
      dsimp only
      rw [stuck]
      exact ends_error rfl before

/-- A body that is cut back after a fault. -/
lemma logs_restoring (floor : Nat) {body : Exec Unit} {journal : Journal}
    (logs : Logs R (AtStop R S) body journal) :
    Logs R (AtStop R S) (restoring floor body) journal := by
  have truncates : Silent R (AtStop R S) (modifyStack fun s => s.truncate floor) :=
    fun s => ends_ok rfl (h.truncate s floor)
  exact logs_catching h logs (fun f => h.journalBasis.quiet.bind truncates fun _ =>
    h.journalBasis.quiet.throw (.fault f)) rfl rfl

/-- A thread runs in a context of its own. -/
lemma logs_runTask {invoke : RuntimeCall.Invoke} {calling : Method → Word → Bool → Journal}
    (calls : ∀ method receiver site, Logs R (AtStop R S) (invoke method receiver site)
      (calling method receiver site)) (task : Task) :
    Logs R (AtStop R S) (RuntimeCall.runTask invoke task)
    (RuntimeCall.taskJournal invoke calling task) := by
  have reports : Leaves State.kept (modifyMachine Machine.reportFault) := by
    refine .modifyMachine _ fun s => ?_
    unfold Machine.reportFault
    split <;> rfl
  have works : Logs R (AtStop R S) (RuntimeCall.work invoke task)
      ((push task.param).andThen fun _ => calling task.callee task.thread false) :=
    h.journalBasis.bind_quiet (h.journalBasis.quiet.push _) fun _ => logs_catching h (calls _ _ _)
      (fun f => h.journalBasis.quiet.bind (h.journalBasis.quiet.aside reports) fun _ =>
        h.journalBasis.quiet.throw (.fault f)) rfl rfl
  intro s
  obtain ⟨answers, stops⟩ := works { s with context := .fresh s.machine.settings }
  unfold RuntimeCall.runTask RuntimeCall.taskJournal
  dsimp only
  cases run : RuntimeCall.work invoke task { s with context := .fresh s.machine.settings } with
  | ok a t => exact ends_ok rfl (h.thread s.context (answers a t run))
  | error e t =>
    have before := stops e t run
    cases e with
    | fault f | panic => exact ends_ok rfl (h.thread s.context before)
    | stuck =>
      refine ends_error rfl ?_
      rw [RuntimeCall.ending, List.append_nil]
      exact h.threadSeen s.context before

/-! ### Whole calls -/

section Engines

variable {perform : Instruction → Exec Unit} {serving : Instruction → Journal}
  (serves : ∀ instr, Logs R (AtStop R S) (perform instr) (serving instr))
include serves

/-- A runtime call from compiled code. -/
lemma logs_fromNative (tag : Word) (instr? : Option Instruction) (ip : Word) :
    Logs R (AtStop R S) (fromNative perform tag instr? ip)
    (nativeJournal perform serving tag instr? ip) := by
  have parks (f : Fault) : Silent R (AtStop R S) (parkTraced f) := fun s => ends_ok rfl (h.park s _)
  unfold fromNative nativeJournal
  cases instr? with
  | none => exact JournalBasis.nothing (parks _)
  | some instr =>
    have saves : Silent R (AtStop R S)
      (modifyFrame fun f => { f with ip := (Word.toIndex? ip).getD 0 }) :=
      h.journalBasis.quiet.frame _ fun _ => ⟨rfl, rfl⟩
    dsimp only
    split
    · refine h.journalBasis.bind_quiet saves fun _ s => ?_
      rw [tryCatch_eq]
      unfold breaking
      cases run : perform instr s with
      | ok a t =>
        rw [List.append_nil]
        exact ends_ok rfl ((serves instr s).1 a t run)
      | error e t =>
        have before := (serves instr s).2 e t run
        cases e with
        | fault f =>
          rw [List.append_nil]
          exact ends_ok rfl (h.journalBasis.append_quiet before (h.park t _))
        | panic =>
          exact ends_ok rfl (h.append before
            (h.journalBasis.append_quiet (h.breaks t) (h.park t _)))
        | stuck =>
          rw [List.append_nil]
          exact ends_error rfl before
    · exact JournalBasis.nothing (parks _)

/-- An interpreted method, once it has its frame. -/
lemma logs_interpreted (method : Method) (fuel : Nat) :
    Logs R (AtStop R S) (finallyTraced (Interpreter.run perform method fuel 0) popFrame)
      (Interpreter.journal perform serving method fuel 0) := by
  have runs := Interpreter.logs_run h.journalBasis serves method fuel 0
  intro s
  cases run : Interpreter.run perform method fuel 0 s with
  | ok a t =>
    exact ends_ok ((finallyTraced_ok run).trans (popFrame_eq t))
      (h.journalBasis.append_quiet ((runs s).1 a t run) (h.leave t))
  | error e t =>
    have before := (runs s).2 e t run
    cases e with
    | fault f =>
      exact ends_error (finallyTraced_fault run (popFrame_eq t))
        (h.journalBasis.append_quiet before (h.leave t))
    | panic | stuck => exact ends_error (finallyTraced_stop run nofun) before

lemma logs_enter (fuel : Nat) (body? : Option NativeBody) (method : Method) (receiver : Word) :
    Logs R (AtStop R S) (enter perform fuel body? method receiver)
      (enterJournal perform serving fuel body? method receiver) := by
  intro s
  unfold enterJournal
  by_cases full : s.Full
  · rw [if_pos full]
    exact ends_error (enter_error (pushFrame_full method receiver full) body?) (h.engine.refl s)
  rw [if_neg full]
  by_cases fits : method.Fits
  · rw [if_pos fits]
    have admits : s.Admits method := ⟨full, fits⟩
    have taken := h.enter receiver admits
    cases body? with
    | none =>
      rw [enter, interpret_eq admits]
      exact h.journalBasis.after taken (logs_interpreted h serves method fuel)
    | some body =>
      rw [enter, runNative_eq admits]
      exact h.journalBasis.after taken
        (h.journalBasis.bind_done
          (Native.Processor.logs_run h.journalBasis _ (fun _ _ _ => logs_fromNative h serves _ _ _)
            body.ops body.places fuel 0 {}) (silent_finishNative h))
  · rw [if_neg fits]
    exact ends_error (enter_error (pushFrame_spoiled receiver full fits) body?) (h.spoil full fits)

end Engines

/-- A relation that holds from step to step holds across a call with its journal, whichever engines
run it and the calls in it. -/
theorem logs_invokeWith (fuel : Nat) : ∀ method receiver site,
    Logs R (AtStop R S) (invokeWith choose fuel method receiver site)
    (journal choose fuel method receiver site) := by
  induction fuel with
  | zero => exact fun _ _ _ => JournalBasis.nothing (h.journalBasis.quiet.throw _)
  | succ fuel ih =>
    intro method receiver site s
    have performs := RuntimeCall.logs_perform h.journalBasis (logs_runTask h ih) ih
    have enters (body? : Option NativeBody) := logs_enter h performs fuel body? method receiver
    cases halted : s.machine.halted with
    | true =>
      rw [journal_halted halted]
      exact ends_error (invokeWith_halted halted) (h.engine.refl s)
    | false =>
      cases choice : choose method site s with
      | error e t =>
        rw [journal_of_error halted choice]
        refine ends_error (invokeWith_error halted choice) ?_
        cases e with
        | fault f | panic => exact h.refuses choice nofun
        | stuck => exact h.begins s
      | ok body? t =>
        rw [invokeWith_eq halted choice, journal_of_ok halted choice]
        exact h.journalBasis.after (h.chooses choice) (logs_restoring h _ (enters body?))

end Call

end StackMachine
