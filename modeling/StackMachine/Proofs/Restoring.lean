import StackMachine.Proofs.CallEffects

/-!
# The call stack across calls

A call that answers has given its frame back and taken no fault (`State.Restored`).  A call that
stops leaves the frames of its caller where they are, and if there was nothing to halt for before,
there is nothing after (`State.Abandoned`).  There may be other frames on top of them: the runtime
has broken off within a method, whose frame has not been given back.  If a call fails and the
runtime has not broken off in it, the call stack is as it was.

Frames that are left on top are not noticed within a compiled body.  But the fault that tells of
them is kept until the body returns (`State.Strays`), so that the body does not answer.
-/

namespace StackMachine

open Exec

/-- The runtime has not broken off in a call of a compiled body. -/
def Unbroken (es : List Event) : Prop := ∀ s, Event.breaks s ∉ es

/-- Has the runtime broken off? -/
def Event.isBreak : Event → Bool
  | .breaks _ => true
  | _ => false

lemma Unbroken.of_all {es : List Event} (none : es.all (!·.isBreak)) : Unbroken es := by
  intro s mem
  cases List.all_eq_true.1 none _ mem

lemma unbroken_append {es es' : List Event} : Unbroken (es ++ es') ↔ Unbroken es ∧
    Unbroken es' := by
  simp only [Unbroken, List.mem_append, not_or]
  exact forall_and

lemma Unbroken.tail {e : Event} {es : List Event} (unbroken : Unbroken (e :: es)) : Unbroken es :=
  fun s mem => unbroken s (List.mem_cons_of_mem e mem)

namespace State

variable {s t u : State} {e : Stop} {es es' : List Event} {method : Method} {receiver : Word}

/-- There may be further frames on top of those of the body. -/
structure Above (s t : State) : Prop where
  tail : s.context.frames.tail <:+ t.context.frames.tail
  methods : s.context.frames.map Frame.method <:+ t.context.frames.map Frame.method

/-- After a stop within the body of a method. -/
structure Stopped (e : Stop) (s : State) (es : List Event) (t : State) :
    Prop extends s.Above t where
  calm : s.context.Calm → t.context.Calm
  matched : s.Matched → t.Matched
  within : e ≠ .panic → Unbroken es → s.Within t

/-- Within a compiled body: further frames are left only if a fault is kept. -/
structure Strays (s t : State) : Prop extends s.Above t where
  pending : s.context.pending ≠ none → t.context.pending ≠ none
  matched : s.Matched → t.Matched
  within : t.context.pending = none → s.Within t

/-- After a call that answers. -/
structure Restored (s t : State) : Prop where
  frames : t.context.frames = s.context.frames
  pending : t.context.pending = s.context.pending
  calm : s.context.Calm → t.context.Calm
  matched : s.Matched → t.Matched

/-- After a call that stops. -/
structure Abandoned (e : Stop) (s : State) (es : List Event) (t : State) : Prop where
  frames : s.context.frames <:+ t.context.frames
  calm : s.context.Calm → t.context.Calm
  matched : s.Matched → t.Matched
  same : e ≠ .panic → Unbroken es → t.context.frames = s.context.frames

lemma Within.above (within : s.Within t) : s.Above t :=
  ⟨within.tail ▸ List.suffix_rfl, within.methods ▸ List.suffix_rfl⟩

lemma Above.trans (first : s.Above t) (second : t.Above u) : s.Above u :=
  ⟨first.tail.trans second.tail, first.methods.trans second.methods⟩

lemma Passes.stopped (passes : s.Passes t) (e : Stop) (es : List Event) : Stopped e s es t :=
  ⟨passes.above, passes.calm, passes.matched, fun _ _ => passes.toWithin⟩

lemma Passes.strays (passes : s.Passes t) : s.Strays t :=
  ⟨passes.above, passes.pending ▸ id, passes.matched, fun _ => passes.toWithin⟩

lemma Passes.follows (passes : s.Passes t) (stopped : Stopped e t es' u) (es : List Event) :
    Stopped e s (es ++ es') u :=
  ⟨passes.above.trans stopped.toAbove, fun calm => stopped.calm (passes.calm calm),
    fun matched => stopped.matched (passes.matched matched),
    fun notPanic unbroken => passes.toWithin.trans
      (stopped.within notPanic (unbroken_append.1 unbroken).2)⟩

lemma Strays.trans (first : s.Strays t) (second : t.Strays u) : s.Strays u where
  toAbove := first.toAbove.trans second.toAbove
  pending kept := second.pending (first.pending kept)
  matched before := second.matched (first.matched before)
  within calm := by
    have calmBefore : t.context.pending = none := by
      by_contra kept
      exact second.pending kept calm
    exact (first.within calmBefore).trans (second.within calm)

lemma Restored.passes (restored : s.Restored t) : s.Passes t :=
  ⟨⟨by rw [restored.frames], by rw [restored.frames]⟩, restored.pending, restored.calm,
    restored.matched⟩

/-- A step before a call that leaves the context alone. -/
lemma Restored.of_context (restored : t.Restored u) (same : t.context = s.context) :
    s.Restored u := by
  obtain ⟨machine, context⟩ := t
  cases same
  exact ⟨restored.frames, restored.pending, restored.calm, restored.matched⟩

lemma Abandoned.of_context (abandoned : Abandoned e t es u) (same : t.context = s.context)
    (event : Event) :
    Abandoned e s (event :: es) u := by
  obtain ⟨machine, context⟩ := t
  cases same
  exact ⟨abandoned.frames, abandoned.calm, abandoned.matched, fun notPanic unbroken =>
    abandoned.same notPanic unbroken.tail⟩

lemma Abandoned.stopped (abandoned : Abandoned e s es t) : Stopped e s es t where
  tail := by
    obtain ⟨top, frames⟩ := abandoned.frames
    rw [← frames]
    cases top with
    | nil => exact List.suffix_rfl
    | cons f top => exact (List.tail_suffix _).trans (List.suffix_append top _)
  methods := abandoned.frames.map Frame.method
  calm := abandoned.calm
  matched := abandoned.matched
  within notPanic unbroken := by
    have same := abandoned.same notPanic unbroken
    constructor <;> rw [same]

/-- A method that gives its frame back. -/
lemma Within.frames_returned (within : (s.entered method receiver).Within t) :
    t.returned.context.frames = s.context.frames :=
  (State.frames_returned t).trans within.tail

lemma halting_returned (s : State) : halting s.returned = halting s := by
  unfold returned
  cases s.context.frames <;> rfl

lemma Above.frames_returned (above : (s.entered method receiver).Above t) :
    s.context.frames <:+ t.returned.context.frames := by
  rw [State.frames_returned]
  exact above.tail

end State

open State

/-! ### The steps -/

/-- What holds after a stop, if there is a state. -/
def Stopping (e : Stop) (s : State) (es : List Event) (t : State) :
    Prop := e ≠ .stuck → Stopped e s es t

/-- The steps of an interpreted body. -/
lemma passes_journal : JournalBasis (fun s _ t => s.Passes t) Stopping where
  quiet := passes_basis.mono .trans (fun e passes _ => passes.stopped e [])
    (fun first last ne => first.follows (last ne) []) id fun passes ne => (passes ne).stopped _ []
  append first second := first.trans second
  stops e passes _ := passes.stopped e _
  follows first last ne := first.follows (last ne) _

/-- What holds within a compiled body: there are further frames only if a runtime call has broken
off. -/
structure Straying (s : State) (es : List Event) (t : State) : Prop extends s.Strays t where
  unbroken : Unbroken es → s.Within t

/-- The steps of a compiled body. -/
lemma strays_journal : JournalBasis Straying fun _ _ _ _ => True where
  quiet := passes_basis.mono (fun first second => ⟨first.trans second.toStrays, fun unbroken =>
      (first.unbroken unbroken).trans (second.unbroken unbroken)⟩) (fun _ _ => trivial) (fun _ _ =>
        trivial)
    (fun passes => ⟨passes.strays, fun _ => passes.toWithin⟩) fun _ => trivial
  append first second := ⟨first.toStrays.trans second.toStrays, fun unbroken =>
    (first.unbroken (unbroken_append.1 unbroken).1).trans
      (second.unbroken (unbroken_append.1 unbroken).2)⟩
  stops _ _ := trivial
  follows _ _ := trivial

/-- The steps of a compiled body, whatever happens in them. -/
lemma strays_basis : EngineBasis State.Strays fun _ _ _ => True :=
  passes_basis.mono .trans (fun _ _ => trivial) (fun _ _ => trivial) Passes.strays fun _ => trivial

namespace Call

section Engines

variable {perform : Instruction → Exec Unit} {serving : Instruction → Journal}
  (serves : ∀ instr, Logs (fun s _ t => s.Passes t) Stopping (perform instr) (serving instr))

/-- A fault is kept after a stop within the body. -/
lemma straying_of_parkTraced {f : Fault} {s t u : State} (above : s.Above t)
    (matched : s.Matched → t.Matched) {es : List Event} (unbroken : Unbroken es → s.Within t)
    (parks : parkTraced f t = .ok () u) : Straying s es u := by
  have kept : u.context.pending ≠ none := by
    cases parks
    show (t.context.pending.orElse fun _ => some (f.withTrace t.names)) ≠ none
    cases t.context.pending <;> exact Option.some_ne_none _
  cases parks
  exact ⟨⟨⟨above.tail, above.methods⟩, fun _ => kept, matched, fun calm => absurd calm kept⟩,
    fun quiet =>
    ⟨(unbroken quiet).tail, (unbroken quiet).methods⟩⟩

include serves in
/-- A runtime call from compiled code. -/
lemma straying_fromNative (tag : Word) (instr? : Option Instruction) (ip : Word) :
    Logs Straying (fun _ _ _ _ => True) (fromNative perform tag instr? ip)
      (nativeJournal perform serving tag instr? ip) := by
  have parks (f : Fault) : Silent Straying (fun _ _ _ _ => True) (parkTraced f) := fun s =>
    ends_ok rfl (straying_of_parkTraced (Within.refl s).above id (fun _ => .refl s) rfl)
  unfold fromNative nativeJournal
  cases instr? with
  | none => exact JournalBasis.nothing (parks _)
  | some instr =>
    have saves : Silent Straying (fun _ _ _ _ => True)
        (modifyFrame fun f => { f with ip := (Word.toIndex? ip).getD 0 }) :=
      strays_journal.quiet.frame _ fun _ => ⟨rfl, rfl⟩
    dsimp only
    split
    · refine strays_journal.bind_quiet saves fun _ s => ?_
      rw [tryCatch_eq]
      unfold breaking
      cases run : perform instr s with
      | ok a t =>
        have passes := (serves instr s).1 a t run
        exact ends_ok rfl ⟨passes.strays, fun _ => passes.toWithin⟩
      | error e t =>
        have stopping := (serves instr s).2 e t run
        cases e with
        | fault f =>
          have stopped := stopping nofun
          rw [List.append_nil]
          exact ends_ok rfl (straying_of_parkTraced stopped.toAbove stopped.matched
            (stopped.within nofun) rfl)
        | panic =>
          have stopped := stopping nofun
          refine ends_ok rfl (straying_of_parkTraced stopped.toAbove stopped.matched
            (fun unbroken => ?_) rfl)
          exact absurd (List.mem_append_right _ (List.mem_singleton.2 rfl)) (unbroken t)
        | stuck => exact ends_error rfl trivial
    · exact JournalBasis.nothing (parks _)

include serves in
lemma straying_callback (method : Method) (tag address ip : Word) :
    Logs Straying (fun _ _ _ _ => True) (callback perform {} method tag address ip)
      (callbackJournal perform serving method tag address ip) :=
  straying_fromNative serves tag _ ip

/-- What holds after a call that stops, if there is a state. -/
def Abandoning (e : Stop) (s : State) (es : List Event) (t : State) :
    Prop := e ≠ .stuck → Abandoned e s es t

variable {s t : State} {method : Method} {receiver : Word} {es : List Event} {e : Stop}

/-- A method that gives its frame back restores the call stack. -/
lemma restored_returned (within : (s.entered method receiver).Within t)
    (pending : t.context.pending = s.context.pending) (calm : s.context.Calm → t.context.Calm) :
    s.Restored t.returned where
  frames := within.frames_returned
  pending := (congrArg Prod.snd (halting_returned t)).trans pending
  calm before := calm_of_halting (halting_returned t) (calm before)
  matched _ := matched_returned t

lemma abandoned_returned (above : (s.entered method receiver).Above t)
    (calm : s.context.Calm → t.context.Calm)
    (within : e ≠ .panic → Unbroken es → (s.entered method receiver).Within t) :
    Abandoned e s es t.returned where
  frames := above.frames_returned
  calm before := calm_of_halting (halting_returned t) (calm before)
  matched _ := matched_returned t
  same notPanic unbroken := (within notPanic unbroken).frames_returned

/-- A call that is given up with the context as it was. -/
lemma abandoned_of_context (same : t.context = s.context) : Abandoned e s es t where
  frames := same ▸ List.suffix_rfl
  calm before := by rwa [same]
  matched before := by rwa [Matched, same]
  same _ _ := by rw [same]

include serves in
lemma restored_interpret (fuel : Nat) (admits : s.Admits method) :
    (∀ a t, interpret perform fuel method receiver s = .ok a t → s.Restored t) ∧
      ∀ e t, interpret perform fuel method receiver s = .error e t → Abandoning e s
        (.enter s method receiver :: Interpreter.journal perform serving method fuel 0
          (s.entered method receiver)) t := by
  have runs := Interpreter.logs_run passes_journal serves method fuel 0 (s.entered method receiver)
  rw [interpret_eq admits]
  cases ran : Interpreter.run perform method fuel 0 (s.entered method receiver) with
  | ok a t =>
    have passes := runs.1 a t ran
    refine ends_ok ((finallyTraced_ok ran).trans (popFrame_eq t)) ?_
    exact restored_returned passes.toWithin passes.pending
      fun calm => passes.calm ⟨calm.halt, calm.pending⟩
  | error e t =>
    have stopping := runs.2 e t ran
    cases e with
    | fault f =>
      have stopped := stopping nofun
      refine ends_error (finallyTraced_fault ran (popFrame_eq t)) fun _ => ?_
      exact abandoned_returned stopped.toAbove (fun calm => stopped.calm ⟨calm.halt, calm.pending⟩)
        fun _ unbroken => stopped.within nofun unbroken.tail
    | panic =>
      have stopped := stopping nofun
      refine ends_error (finallyTraced_stop ran nofun)
        fun _ => ⟨?_, ?_, fun _ => ?_, fun notPanic => ?_⟩
      · exact stopped.tail.trans (List.tail_suffix _)
      · exact fun calm => stopped.calm ⟨calm.halt, calm.pending⟩
      · exact stopped.matched rfl
      · exact absurd rfl notPanic
    | stuck => exact ends_error (finallyTraced_stop ran nofun) fun ne => absurd rfl ne

include serves in
lemma restored_runNative (fuel : Nat) (body : NativeBody) (admits : s.Admits method) :
    (∀ a t, runNative perform {} fuel body.ops body.places method receiver s = .ok a t →
      s.Restored t) ∧
      ∀ e t, runNative perform {} fuel body.ops body.places method receiver s = .error e t →
        Abandoning e s (.enter s method receiver :: Native.Processor.journal
          (callback perform {} method) (callbackJournal perform serving method)
          (entryOf s method receiver) body.ops body.places fuel 0 {} (s.entered method receiver))
            t := by
  have runs := Native.Processor.logs_run strays_journal (entryOf s method receiver)
    (straying_callback serves method) body.ops body.places fuel 0 {} (s.entered method receiver)
  rw [runNative_eq admits]
  cases ran : Native.Processor.run (callback perform {} method) (entryOf s method receiver) body.ops
      body.places fuel 0 {} (s.entered method receiver) with
  | ok status t =>
    rw [bind_of_ok ran]
    have strays := runs.1 status t ran
    have above : (s.entered method receiver).Above t.released := ⟨strays.tail, strays.methods⟩
    cases kept : t.context.pending with
    | some f =>
      refine ends_error (finishNative_pending kept) fun _ => ?_
      exact abandoned_returned above (fun _ => ⟨rfl, rfl⟩) fun _ unbroken =>
        have within := strays.unbroken unbroken.tail
        ⟨within.tail, within.methods⟩
    | none =>
      have within : (s.entered method receiver).Within t.released :=
        ⟨(strays.within kept).tail, (strays.within kept).methods⟩
      by_cases negative : status < 0
      · refine ends_error (finishNative_status kept negative) fun _ => ?_
        exact abandoned_returned above (fun _ => ⟨rfl, rfl⟩) fun _ _ => within
      · refine ends_ok (finishNative_returned kept negative) (restored_returned within ?_
          fun _ => ⟨rfl, rfl⟩)
        by_contra before
        exact strays.pending (fun none => before none.symm) kept
  | error e t =>
    rw [bind_of_error ran]
    have tames := tames_callback (fun {instr s t} run => ((serves instr s).1 () t run).calm)
      {} method
    exact ends_error rfl fun ne => absurd (Native.Processor.run_eq_stuck tames ran) ne

include serves in
/-- The call stack after a method that has found its engine. -/
lemma restored_enter (fuel : Nat) (body? : Option NativeBody) (method : Method) (receiver : Word) :
    Logs (fun s _ t => s.Restored t) Abandoning (enter perform fuel body? method receiver)
      (enterJournal perform serving fuel body? method receiver) := by
  intro s
  unfold enterJournal
  by_cases full : s.Full
  · exact ends_error (enter_error (pushFrame_full method receiver full) body?)
      fun _ => abandoned_of_context rfl
  rw [if_neg full]
  by_cases fits : method.Fits
  · rw [if_pos fits]
    cases body? with
    | none => exact restored_interpret serves fuel ⟨full, fits⟩
    | some body => exact restored_runNative serves fuel body ⟨full, fits⟩
  · exact ends_error (enter_error (pushFrame_spoiled receiver full fits) body?)
      fun _ => abandoned_of_context rfl

end Engines

/-! ### Whole calls -/

/-- A runtime call, by what holds of the calls in it. -/
lemma passes_perform {invoke : RuntimeCall.Invoke} {calling : Method → Word → Bool → Journal}
    (calls : ∀ method receiver site, Logs (fun s _ t => s.Restored t) Abandoning
      (invoke method receiver site) (calling method receiver site)) (instr : Instruction) :
    Logs (fun s _ t => s.Passes t) Stopping (RuntimeCall.perform invoke instr)
      (RuntimeCall.journal invoke calling instr) := by
  refine RuntimeCall.logs_perform passes_journal
    (fun task s => ⟨fun a t run => ?_, fun e t run ne => ?_⟩)
    (fun method receiver site => (calls method receiver site).mono Restored.passes fun stops ne =>
      (stops ne).stopped) instr
  · exact (passes_of_context (RuntimeCall.leaves_runTask task) s).1 a t run
  · exact absurd (RuntimeCall.runTask_eq_stuck run) ne

section Choices

variable {choose : Choice} (apart : choose.Apart)
include apart

/-- The call stack after a call, whichever engines run it and the calls in it. -/
theorem restored_invokeWith (fuel : Nat) : ∀ method receiver site,
    Logs (fun s _ t => s.Restored t) Abandoning (invokeWith choose fuel method receiver site)
      (journal choose fuel method receiver site) := by
  induction fuel with
  | zero => exact fun _ _ _ s => ends_error rfl fun ne => absurd rfl ne
  | succ fuel ih =>
    intro method receiver site s
    cases halted : s.machine.halted with
    | true => exact ends_error (invokeWith_halted halted) fun _ => abandoned_of_context rfl
    | false =>
      cases choice : choose method site s with
      | error e t =>
        exact ends_error (invokeWith_error halted choice) fun _ => abandoned_of_context
          ((apart method site s).2 e t choice)
      | ok body? t =>
        have context := (apart method site s).1 body? t choice
        obtain ⟨answers, stops⟩ := restored_enter (passes_perform ih) fuel body? method receiver t
        rw [invokeWith_eq halted choice, journal_of_ok halted choice]
        cases run : enter (RuntimeCall.perform (invokeWith choose fuel)) fuel body? method
          receiver t with
        | ok a u =>
          exact ends_ok (by rw [restoring, tryCatch_eq, run]) ((answers a u run).of_context context)
        | error e u =>
          have stopped (ne : e ≠ .stuck) := (stops e u run ne).of_context context
            (.call s method site body?)
          cases e with
          | fault f =>
            obtain ⟨frames, calm, matched, same⟩ := stopped (by simp)
            exact ends_error (restoring_fault run) fun _ =>
              ⟨frames, fun before => ⟨(calm before).halt, (calm before).pending⟩, matched, same⟩
          | panic | stuck => exact ends_error (restoring_stop run (by simp)) stopped

/-- A runtime call, whichever engines run the calls in it. -/
lemma passes_performed (fuel : Nat) (instr : Instruction) :
    Logs (fun s _ t => s.Passes t) Stopping (RuntimeCall.perform (invokeWith choose fuel) instr)
      (RuntimeCall.journal (invokeWith choose fuel) (journal choose fuel) instr) :=
  passes_perform (restored_invokeWith apart fuel) instr

/-- A runtime call of an interpreted body that answers. -/
lemma passes_of_perform (fuel : Nat) (instr : Instruction) :
    Exec.Ends State.Passes (fun _ _ _ => True)
    (RuntimeCall.perform (invokeWith choose fuel) instr) :=
  fun s => ⟨(passes_performed apart fuel instr s).1, fun _ _ _ => trivial⟩

/-- A runtime call of a compiled body that answers. -/
lemma strays_of_callback (fuel : Nat) (method : Method) (tag address ip : Word) :
    Exec.Ends State.Strays (fun _ _ _ => True)
    (callback (RuntimeCall.perform (invokeWith choose fuel)) {} method tag address ip) :=
  fun s => ⟨fun a t run =>
    ((straying_callback (passes_performed apart fuel) method tag address ip s).1 a t run).toStrays,
      fun _ _ _ => trivial⟩

end Choices

end Call

end StackMachine
