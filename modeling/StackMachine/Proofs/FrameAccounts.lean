import StackMachine.Bytecode.Builder
import StackMachine.Proofs.Histories
import StackMachine.Proofs.Restoring

/-!
# Where the frames are

Frames are made in batches: at every moment each of them is free, on the call stack of some context,
or lost (`Runtime.Accounted`).  A frame is lost if it cannot have the locals of the method that
takes it, or if it is on the call stack of a thread that has ended.  A free frame is blank, so that
a method starts with the instance and zeros, whatever method had the frame before.  A call that
answers has given back all frames that it and the calls in it have taken; so has a call that fails,
unless the runtime has broken off in a call of a compiled body (`Runtime.frames_accounted`).
-/

namespace StackMachine

/-! ### Free frames -/

namespace Frame

def starting (method : Method) (receiver : Word) : Frame where
  method := some method
  mem := (receiver :: List.replicate method.localWords 0).toArray

lemma enter_blank (method : Method) (receiver : Word) :
    blank.enter method receiver = starting method receiver := by
  have mem : (resize #[] (method.localWords + 1)).setIfInBounds 0 receiver =
      (receiver :: List.replicate method.localWords 0).toArray := by
    rw [← Array.toList_inj]
    simp [resize, List.replicate_succ]
  unfold enter starting
  rw [← mem]
  rfl

end Frame

/-- A batch of frames is made: a method takes a frame and there is none. -/
def Event.refills : Event → Bool
  | .enter s _ _ => s.machine.pool.free.isEmpty
  | .spoil s _ => s.machine.pool.free.isEmpty
  | _ => false

/-- The frames that are lost. -/
def Event.lost : Event → Nat
  | .spoil _ _ => 1
  | .drop s => s.context.frames.length
  | _ => 0

namespace Runtime

/-- The number of frames of each context. -/
def depths (r : Runtime) : List Nat := r.contexts.map fun c => c.frames.length

lemma depths_among (s : State) (rest : List Context) :
    (s.among rest).depths = s.context.frames.length :: rest.map fun c => c.frames.length := rfl

/-- Every frame that has been made is free and blank, on the call stack of a context, or lost; and
every method that has taken a frame has started with it as a method does. -/
structure Accounted (settings : Settings) (es : List Event) (r : Runtime) : Prop where
  settings_eq : r.machine.settings = settings
  blank : r.machine.pool.Blank
  starting : ∀ s method receiver, .enter s method receiver ∈ es →
    ∃ t, Exec.pushFrame method receiver s = .ok () t ∧
    t.context.frames = Frame.starting method receiver :: s.context.frames
  total : r.machine.pool.free.length + r.depths.sum + (es.map Event.lost).sum =
    64 * es.countP Event.refills
  within : ∀ depth ∈ r.depths, depth ≤ settings.callStackSize

namespace Accounted

variable {settings : Settings} {es es' : List Event} {r r' : Runtime} {s : State}
  {rest : List Context}

/-- A frame is taken, from a batch that is made if there is none. -/
lemma length_taken (pool : FramePool) (batches : Nat) : pool.others.free.length + 1 + 64 * batches =
    pool.free.length + 64 * (batches + if pool.free.isEmpty then 1 else 0) := by
  have length := pool.length_others
  split at length
  · next empty =>
    rw [if_pos empty]
    omega
  · next stocked =>
    rw [if_neg stocked]
    omega

section

variable (accounted : Accounted settings es (s.among rest))
include accounted

lemma enter {method : Method} {receiver : Word} (admits : s.Admits method) :
    Accounted settings (es ++ [.enter s method receiver])
    ((s.entered method receiver).among rest) := by
  obtain ⟨same, blank, starting, total, within⟩ := accounted
  have length := length_taken s.machine.pool (es.countP Event.refills)
  obtain ⟨taken, blank'⟩ := FramePool.Blank.next_others blank
  have frames : (s.entered method receiver).context.frames = Frame.starting method receiver ::
    s.context.frames := by
    rw [← Frame.enter_blank, ← taken]
    rfl
  refine ⟨same, blank', fun u method' receiver' mem => ?_, ?_, fun depth mem => ?_⟩
  · rcases List.mem_append.1 mem with old | new
    · exact starting u method' receiver' old
    · cases List.mem_singleton.1 new
      exact ⟨_, Exec.pushFrame_eq receiver admits, frames⟩
  · show s.machine.pool.others.free.length + _ + _ = _
    replace total : s.machine.pool.free.length + _ + _ = _ := total
    rw [depths_among, List.sum_cons] at total ⊢
    rw [frames, List.length_cons, List.countP_append, List.countP_singleton, List.map_append,
      List.sum_append, List.map_singleton, List.sum_singleton]
    show _ + _ + (_ + 0) = 64 * (_ + if s.machine.pool.free.isEmpty then 1 else 0)
    omega
  · rw [depths_among, frames] at mem
    rcases List.mem_cons.1 mem with rfl | other
    · rw [← same]
      exact Nat.lt_of_not_le admits.room
    · exact within depth (List.mem_cons_of_mem _ other)

/-- A frame is taken and lost. -/
lemma spoil {method : Method} :
    Accounted settings (es ++ [.spoil s method]) (s.spoiled.among rest) := by
  obtain ⟨same, blank, starting, total, within⟩ := accounted
  have length := length_taken s.machine.pool (es.countP Event.refills)
  refine ⟨same, (FramePool.Blank.next_others blank).2, fun u method' receiver' mem => ?_, ?_,
    within⟩
  · rcases List.mem_append.1 mem with old | new
    · exact starting u method' receiver' old
    · cases List.mem_singleton.1 new
  · show s.machine.pool.others.free.length + (s.among rest).depths.sum + _ = _
    replace total : s.machine.pool.free.length + _ + _ = _ := total
    rw [List.countP_append, List.countP_singleton, List.map_append, List.sum_append,
      List.map_singleton, List.sum_singleton]
    show _ + _ + (_ + 1) = 64 * (_ + if s.machine.pool.free.isEmpty then 1 else 0)
    omega

/-- A method gives its frame back. -/
lemma leave : Accounted settings es (s.returned.among rest) := by
  cases frames : s.context.frames with
  | nil =>
    have same : s.returned = { s with context := { s.context with callPos := 0 } } := by
      rw [State.returned, frames]
    rw [same]
    exact ⟨accounted.settings_eq, accounted.blank, accounted.starting, accounted.total,
      accounted.within⟩
  | cons f outer =>
    obtain ⟨same, blank, starting, total, within⟩ := accounted
    have framed : Ideal.Framed outer s := ⟨f, frames⟩
    have machine := State.machine_returned framed
    have context := State.context_returned framed
    rw [depths_among, frames] at total within
    refine ⟨?_, ?_, starting, ?_, ?_⟩
    · rw [← same]
      show s.returned.machine.settings = _
      rw [machine]
      rfl
    · show s.returned.machine.pool.Blank
      rw [machine]
      exact List.forall_mem_cons.2 ⟨rfl, blank⟩
    · show s.returned.machine.pool.free.length + _ + _ = _
      rw [depths_among, machine, context]
      rw [List.sum_cons, List.length_cons] at total
      show s.machine.pool.free.length + 1 + (outer.length :: _).sum + _ = _
      rw [List.sum_cons]
      have : (s.among rest).machine.pool.free.length = s.machine.pool.free.length := rfl
      omega
    · rw [depths_among, context]
      obtain ⟨first, others⟩ := List.forall_mem_cons.1 within
      exact List.forall_mem_cons.2 ⟨Nat.le_of_succ_le first, others⟩

end

variable (accounted : Accounted settings es r)
include accounted

/-- A step that neither takes a frame nor gives one back. -/
lemma of_depths (settings_eq : r'.machine.settings = r.machine.settings)
    (pool : r'.machine.pool = r.machine.pool) (depths : r'.depths.Perm r.depths)
    (quiet : ∀ e ∈ es', e.refills = false ∧ e.lost = 0 ∧ ∀ s method receiver,
      e ≠ .enter s method receiver) : Accounted settings (es ++ es') r' := by
  obtain ⟨same, blank, starting, total, within⟩ := accounted
  have none : es'.countP Event.refills = 0 := List.countP_eq_zero.2
    fun e mem => by simp [(quiet e mem).1]
  have kept : (es'.map Event.lost).sum = 0 := List.sum_eq_zero_iff_forall_eq_nat.2 fun n mem => by
    obtain ⟨e, inEvents, rfl⟩ := List.mem_map.1 mem
    exact (quiet e inEvents).2.1
  refine ⟨settings_eq.trans same, pool ▸ blank, fun s method receiver mem => ?_, ?_,
    fun depth mem => ?_⟩
  · rcases List.mem_append.1 mem with old | new
    · exact starting s method receiver old
    · exact absurd rfl ((quiet _ new).2.2 s method receiver)
  · rw [pool, depths.sum_nat, List.countP_append, none, List.map_append, List.sum_append, kept]
    exact total
  · exact within depth (depths.mem_iff.1 mem)

lemma step (step : Step r es' r') : Accounted settings (es ++ es') r' := by
  cases step with
  | work core within =>
    have lengths := congrArg List.length within.methods
    rw [List.length_map, List.length_map] at lengths
    refine accounted.of_depths (congrArg (fun c => c.2.1) core)
      (congrArg (fun c => c.2.2.1) core) ?_ (List.forall_mem_nil _)
    rw [depths_among, depths_among, lengths]
  | @call s t rest method site body? finds =>
    have leaves : Exec.Leaves (fun s => (s.context, s.machine.settings, s.machine.pool))
        (Call.nativeBody method site) := Call.leaves_nativeBody (fun _ _ _ => rfl) method site
    obtain ⟨context, same⟩ := Prod.mk.inj ((leaves s).1 _ _ finds)
    obtain ⟨settings_eq, pool⟩ := Prod.mk.inj same
    refine accounted.of_depths settings_eq pool ?_
      (List.forall_mem_singleton.2 ⟨rfl, rfl, by rintro _ _ _ ⟨⟩⟩)
    rw [depths_among, depths_among, context]
  | enter admits => exact accounted.enter admits
  | spoil room large => exact accounted.spoil
  | breaks =>
    exact accounted.of_depths rfl rfl .rfl
      (List.forall_mem_singleton.2 ⟨rfl, rfl, by rintro _ _ _ ⟨⟩⟩)
  | leave =>
    rw [List.append_nil]
    exact accounted.leave
  | spawn =>
    obtain ⟨same, blank, starting, total, within⟩ := accounted
    rw [List.append_nil]
    exact ⟨same, blank, starting, by simpa [depths, Context.fresh] using total,
      List.forall_mem_cons.2 ⟨Nat.zero_le _, within⟩⟩
  | retire idle =>
    obtain ⟨same, blank, starting, total, within⟩ := accounted
    rw [List.append_nil]
    exact ⟨same, blank, starting, by simpa [depths, idle] using total, fun depth mem =>
      within depth (List.mem_cons_of_mem _ mem)⟩
  | @drop machine context rest =>
    obtain ⟨same, blank, starting, total, within⟩ := accounted
    refine ⟨same, blank, fun s method receiver mem => ?_, ?_,
      fun depth mem => within depth (List.mem_cons_of_mem _ mem)⟩
    · rcases List.mem_append.1 mem with old | new
      · exact starting s method receiver old
      · cases List.mem_singleton.1 new
    · rw [List.countP_append, List.map_append, List.sum_append, List.map_singleton,
        List.sum_singleton]
      simp only [depths, List.map_cons, List.sum_cons] at total ⊢
      show _ + _ + (_ + context.frames.length) = 64 * (_ + 0)
      omega
  | switch perm =>
    exact accounted.of_depths rfl rfl (perm.symm.map _) (List.forall_mem_nil _)

/-- The frames are accounted for on the whole way. -/
lemma path (path : Path r es' r') : Accounted settings (es ++ es') r' := by
  induction path with
  | refl => rwa [List.append_nil]
  | tail _ next ih =>
    rw [← List.append_assoc]
    exact ih.step next

end Accounted

variable {program : Program} {settings : Settings} {world : Surroundings} {es : List Event}
  {r : Runtime}

lemma Reached.accounted (reached : Reached program settings world es r) :
    Accounted settings es r := by
  obtain ⟨m, start, path⟩ := reached
  obtain ⟨-, same, pool, -⟩ := Machine.of_start start
  have first : Accounted settings [] ⟨m, []⟩ := by
    refine ⟨same, ?_, fun _ _ _ mem => absurd mem List.not_mem_nil, ?_, nofun⟩
    · show m.pool.Blank
      rw [pool]
      exact nofun
    · show m.pool.free.length + 0 + 0 = 0
      rw [pool]
      rfl
  exact first.path path

/-- At every moment the free frames are blank, methods have started with their instance and zeros
for their locals, every frame of every batch is free, on a call stack or lost, and no call stack is
too deep; if no call is active, all frames are free that are not lost.  A call that answers leaves
the frames of its context as they were.  So does a call that fails, unless the runtime has broken
off in a call of a compiled body; then there may be further frames on top of them.  After a call
there is such a moment, and so is every moment at which something happens while it is active. -/
theorem frames_accounted (reached : Reached program settings world es r) :
    (∀ f ∈ r.machine.pool.free, f.method = none ∧ f.mem = #[] ∧ f.ip = 0 ∧ f.nativeLocals = none) ∧
    (∀ s method receiver, .enter s method receiver ∈ es → ∃ t, Exec.pushFrame method receiver s =
      .ok () t ∧
      t.context.frames = ⟨some method, (receiver :: List.replicate method.localWords 0).toArray, 0,
        none⟩ :: s.context.frames) ∧
    r.machine.pool.free.length + (r.contexts.map fun c => c.frames.length).sum +
      (es.map Event.lost).sum = 64 * es.countP Event.refills ∧
    (∀ c ∈ r.contexts, c.frames.length ≤ settings.callStackSize) ∧
    ((∀ c ∈ r.contexts, c.frames = []) →
      r.machine.pool.free.length + (es.map Event.lost).sum = 64 * es.countP Event.refills) ∧
    ∀ context rest, r.contexts.Perm (context :: rest) → ∀ fuel method receiver site events,
      events = Call.journal Call.nativeBody fuel method receiver site ⟨r.machine, context⟩ →
        (∀ t, Call.invoke fuel method receiver site ⟨r.machine, context⟩ = .ok () t →
          t.context.frames = context.frames) ∧
        (∀ f t, Call.invoke fuel method receiver site ⟨r.machine, context⟩ = .error (.fault f) t →
          context.frames <:+ t.context.frames ∧
            (Unbroken events → t.context.frames = context.frames)) ∧
        (∀ t, Call.ComesTo fuel method receiver site ⟨r.machine, context⟩ t →
          Reached program settings world (es ++ events) (t.among rest)) ∧
        ∀ before e after, events = before ++ e :: after →
          ∃ others, Reached program settings world (es ++ before) (e.before.among others) := by
  obtain ⟨-, blank, starting, total, within⟩ := reached.accounted
  refine ⟨fun f mem => ?_, starting, total, fun c mem => within _ (List.mem_map.2 ⟨c, mem, rfl⟩),
    fun idle => ?_, fun context rest perm fuel method receiver site events same => ?_⟩
  · rw [blank f mem]
    exact ⟨rfl, rfl, rfl, rfl⟩
  · have none : r.depths.sum = 0 := by
      refine List.sum_eq_zero_iff_forall_eq_nat.2 fun depth mem => ?_
      obtain ⟨c, inContexts, rfl⟩ := List.mem_map.1 mem
      exact List.length_eq_zero_iff.2 (idle c inContexts)
    rwa [none] at total
  subst same
  obtain ⟨answers, stops⟩ := Call.restored_invokeWith Call.apart_nativeBody fuel method receiver
    site ⟨r.machine, context⟩
  obtain ⟨returns, r', later⟩ := reached.invoke perm fuel method receiver site
  refine ⟨fun t answered => (answers () t answered).frames, fun f t failed => ?_, returns, ?_⟩
  · have abandoned := stops _ t failed nofun
    exact ⟨abandoned.frames, abandoned.same nofun⟩
  · rintro before e after split
    rw [split, ← List.append_assoc] at later
    exact later.before

end Runtime

/-! ### A frame that is used again -/

namespace Accounts

/-- A method that calls two others, one after the other.  The first sets its local; the second
divides by its own, which has not been set. -/
def program : Program := .ofClasses [{
  name := "Main"
  methods := #[
    { name := "outer", code := #[Build.int 0, Build.call 0 1, Build.int 0, Build.call 0 2] },
    { name := "sets", code := #[Build.int 5, Build.storeLocal 0] },
    { name := "divides", code := #[Build.int 1, Build.loadLocal 0, Build.op .divInt] }] }]

/-- Everything is interpreted, and there is room for two frames. -/
def settings : Settings := { jitMode := .off, opStackSize := 8, callStackSize := 2 }

/-- The method that calls the others. -/
def outer : Method := (program.method? 0 0).getD { name := "", code := #[] }

/-- The state before the call. -/
def start : State where
  machine := (Machine.start program settings).toOption.getD
    { program, settings, heap := {}, statics := #[], records := #[], seed := 0, clock := 0 }
  context := .fresh settings

lemma reached_start : Runtime.Reached program settings {} [] (start.among []) :=
  ⟨start.machine, rfl, Runtime.Step.spawn.path⟩

/-- The cause that a call fails for. -/
def cause? : EStateM.Result Stop State Unit → Option Cause
  | .error (.fault f) _ => some f.cause
  | _ => none

lemma exists_of_cause? {r : EStateM.Result Stop State Unit} {cause : Cause}
    (known : cause? r = some cause) :
    ∃ f t, r = .error (.fault f) t ∧ f.cause = cause := by
  unfold cause? at known
  split at known
  · next f t =>
    cases known
    exact ⟨f, t, rfl, rfl⟩
  · cases known

end Accounts

namespace Runtime

open Accounts in
/-- The second method has the frame of the first and fails, since its local is zero.  The three
calls have taken frames of one batch, which are all free in the end. -/
theorem frames_accounted_reused : ∃ f t,
    Call.invoke 20 outer 0 false start = .error (.fault f) t ∧ f.cause = .divideByZero ∧
      t.context.frames = [] ∧ t.machine.pool.free.length = 64 := by
  have known : cause? (Call.invoke 20 outer 0 false start) = some .divideByZero := by decide +kernel
  obtain ⟨f, t, fails, cause⟩ := exists_of_cause? known
  have once : (Call.journal Call.nativeBody 20 outer 0 false start).countP Event.refills = 1 := by
    decide +kernel
  have none : ((Call.journal Call.nativeBody 20 outer 0 false start).map Event.lost).sum = 0 := by
    decide +kernel
  have unbroken : Unbroken (Call.journal Call.nativeBody 20 outer 0 false start) :=
    .of_all (by decide +kernel)
  obtain ⟨-, -, -, -, -, calls⟩ := frames_accounted reached_start
  obtain ⟨-, failed, returns, -⟩ := calls start.context [] .rfl 20 outer 0 false
    (Call.journal Call.nativeBody 20 outer 0 false start) rfl
  have frames : t.context.frames = [] := (failed f t fails).2 unbroken
  obtain ⟨-, -, -, -, idle, -⟩ := frames_accounted (returns t (.inr ⟨_, fails⟩))
  have all := idle (List.forall_mem_singleton.2 frames)
  rw [List.nil_append, once, none] at all
  exact ⟨f, t, fails, cause, frames, all⟩

end Runtime

end StackMachine
