import StackMachine.Proofs.Frames
import StackMachine.Proofs.Native.Simulation

/-!
# Entering compiled code

A method that compiles gives a first boundary (`Boundary.start`), and its instructions name locals
of the frame and runtime calls that are declared (`Boundary.wellFormed`).  A call that has taken its
frame performs the entry operation and stands at that boundary, with the arguments on the operand
stack and all locals cleared (`Entrance.exists_sim`).  From there `Simulation` takes over: the
compiled body and the interpreter end in the same way (`Entrance.finishes`, `Entrance.exists_run`).
-/

namespace StackMachine

variable {ρ : Type}

/-- The registers of a pool are distinct, none is on loan, and it has not failed. -/
structure RegisterPool.Distinct {ρ : Type} (p : RegisterPool ρ) : Prop where
  nodup : (p.primary ++ p.aux).Nodup
  idle : p.live = []
  alive : p.failed = false

lemma RegisterPool.Distinct.lends {p : RegisterPool ρ} (distinct : p.Distinct) : p.Lends [] where
  nodup := distinct.nodup
  live reg := by rw [distinct.idle]

lemma RegisterPool.distinct_new {primary aux : List ρ} (nodup : (primary ++ aux).Nodup)
    (fallback : ρ) : (RegisterPool.new primary aux fallback).Distinct := ⟨nodup, rfl, rfl⟩

namespace X64

variable (abi : Abi) (addresses : Native.Addresses)

lemma distinct_ints : (backend abi addresses).ints.Distinct := by
  cases abi <;> exact RegisterPool.distinct_new (by decide) _

lemma distinct_floats : (backend abi addresses).floats.Distinct :=
  RegisterPool.distinct_new (by decide) _

end X64

namespace A64

variable (addresses : Native.Addresses)

lemma distinct_ints : (backend addresses).ints.Distinct := RegisterPool.distinct_new (by decide) _

lemma distinct_floats : (backend addresses).floats.Distinct :=
  RegisterPool.distinct_new (by decide) _

end A64

namespace Interpreter

/-- Interpreting a method from a state on does not stop for a cause. -/
def Avoids (perform : Instruction → Exec Unit) (method : Method) (s : State) (cause : Cause) :
    Prop :=
  ∀ fuel f t, run perform method fuel 0 s = .error (.fault f) t → f.cause ≠ cause

/-- Interpreting a method from a state on accesses memory as it is laid out. -/
def Regular (perform : Instruction → Exec Unit) (method : Method) (s : State) : Prop :=
  ∀ ip t, Reaches perform method 0 s ip t → ∀ instr, method.code[ip]? = some instr →
    instr.Regular t.context.stack.top?.toOption t.machine.heap

end Interpreter

/-- The runtime finds the instruction that is named by its address. -/
lemma Call.instructionAt?_add (addresses : Native.Addresses) (method : Method) {ip : Nat}
    (small : ip < 2 ^ 63) :
    instructionAt? addresses method (addresses.code + Word.ofNat ip) = method.code[ip]? := by
  rw [instructionAt?, Int64.add_comm, Int64.add_sub_cancel, Word.toIndex?_ofNat small]
  rfl

namespace Native

variable {γ φ : Type} [DecidableEq γ] [DecidableEq φ]

/-! ### Compiled methods -/

/-- Operations that were generated without a failure are those of a finished generator. -/
lemma generate_eq_none {ints : RegisterPool γ} {floats : RegisterPool φ} {scope : Scope}
    {ops : List (Operation γ φ)} (done : generate ints floats scope = (ops, none)) :
    ∃ last, Gen.method scope { ints, floats } = .ok () last ∧ last.ops = ops.toArray := by
  unfold generate at done
  split at done
  · next last run =>
    have same : last.ops.toList = ops := congrArg Prod.fst done
    exact ⟨last, run, by rw [← same, Array.toArray_toList]⟩
  · cases congrArg Prod.snd done

namespace Boundary

variable {scope : Scope} {last s : GenState γ φ} {ip : Nat}

/-- After the entry operation the generator stands before the first instruction. -/
lemma start {ints : RegisterPool γ} {floats : RegisterPool φ}
    (run : Gen.method scope { ints, floats } = .ok () last) (distinctInts : ints.Distinct)
    (distinctFloats : floats.Distinct) :
    Boundary scope last 0 { ints, floats, ops := #[.prologue scope.method.localWords] } := by
  rw [Gen.method_eq] at run
  obtain ⟨_, t, emitted, run⟩ := Gen.bind_eq_ok.1 run
  cases emitted
  obtain ⟨_, e, body, finish⟩ := Gen.bind_eq_ok.1 run
  refine ⟨⟨e, body, finish⟩, ⟨distinctInts.alive, distinctFloats.alive⟩,
    ⟨distinctInts.lends, distinctFloats.lends, nofun, nofun⟩, Nat.le_refl 0, nofun, ?_⟩
  intro target mem
  simp at mem

/-- What is left of a method that compiles names locals of the frame and runtime calls that are
declared. -/
lemma wellFormed_from (h : Boundary scope last ip s) :
    ∀ i instr, ip ≤ i → scope.method.code[i]? = some instr →
      (instr.action = .runtime → (scope.shape? instr).isSome) ∧
      ∀ slot ∈ instr.action.slots, ∃ k, Word.toIndex? slot = some k ∧
      k < scope.method.localWords := by
  induction h using induct with
  | @ending ip s h at_end =>
    intro i instr later at_i
    have bound := (Array.getElem?_eq_some_iff.1 at_i).1
    rw [Array.getElem?_eq_none_iff] at at_end
    omega
  | @passing ip instr s fused u h at_ip passes ih =>
    intro i instr' later at_i
    rcases Nat.lt_or_ge i (ip + if fused then 2 else 1) with here | beyond
    · rcases Nat.eq_or_lt_of_le later with rfl | second
      · cases at_ip.symm.trans at_i
        have inCode := Array.mem_of_getElem? at_ip
        exact ⟨Gen.instruction_shaped passes.run, Gen.instruction_slots inCode passes.run⟩
      · -- the jump that was fused into the comparison before it
        cases fused with
        | false =>
          rw [if_neg (by decide)] at here
          omega
        | true =>
          have next : i = ip + 1 := by
            rw [if_pos rfl] at here
            omega
          subst next
          obtain ⟨after, target, value, follows, action⟩ := Gen.instruction_fused passes.run
          cases follows.symm.trans at_i
          rw [action]
          constructor
          · rintro ⟨⟩
          · rintro slot ⟨⟩
    · exact ih i instr' beyond at_i

lemma wellFormed (h : Boundary scope last 0 s) : scope.WellFormed where
  shaped instr mem := by
    obtain ⟨i, at_i⟩ := Array.mem_iff_getElem?.1 mem
    exact (h.wellFormed_from i instr (Nat.zero_le i) at_i).1
  slots instr mem := by
    obtain ⟨i, at_i⟩ := Array.mem_iff_getElem?.1 mem
    exact (h.wellFormed_from i instr (Nat.zero_le i) at_i).2

end Boundary

/-! ### The frame of a compiled method -/

section OpenFrame

open Processor

variable (entry : Entry) (locals : Nat)

lemma size_openFrame : (openFrame entry locals).size = frameSlots locals := by
  simp [openFrame, frameSlots, localsBase, floatSpillBase, intSpillBase, FrameSlot.all]
  omega

lemma getD_openFrame_index (slot : FrameSlot) :
    (openFrame entry locals).getD slot.index 0 = entry.arg slot := by
  have bound : slot.index < (FrameSlot.all.map entry.arg).toArray.size := by
    rw [List.size_toArray, List.length_map]
    cases slot <;> decide
  rw [Array.getD_eq_getD_getElem?, openFrame, Array.getElem?_append_left bound]
  cases slot <;> rfl

lemma getD_openFrame_localSlot (k : Nat) : (openFrame entry locals).getD (localSlot k) 0 = 0 := by
  have beyond : (FrameSlot.all.map entry.arg).toArray.size ≤ localSlot k := by
    simp [FrameSlot.all, localSlot, localsBase, floatSpillBase, intSpillBase]
    omega
  rw [Array.getD_eq_getD_getElem?, openFrame, Array.getElem?_append_right beyond,
    Array.getElem?_replicate]
  split <;> rfl

end OpenFrame

end Native

/-! ### The state before the first instruction -/

/-- A thread between two calls: its operand stack holds words, there is nothing to halt for, and
free frames are blank. -/
structure State.Rests (s : State) (words : List Word) : Prop where
  stack : s.context.stack.Holds words
  halt : s.context.halt = 0
  pending : s.context.pending = none
  blank : s.machine.pool.Blank

/-- The ideal machine before the first instruction of a method. -/
def Ideal.start (s : State) (words : List Word) (method : Method) (receiver : Word) : Ideal where
  stack := words
  mem := (Frame.blank.enter method receiver).mem
  machine := (s.entered method receiver).machine

namespace Ideal

variable {s : State} {words : List Word} {method : Method} {receiver : Word}

lemma size_mem_start : (start s words method receiver).mem.size = method.localWords + 1 := by
  simp [start, Frame.enter]

lemma receiver_start : (start s words method receiver).mem.getD 0 0 = receiver :=
  Frame.receiver_enter Frame.blank method receiver

lemma getD_start (k : Nat) : (start s words method receiver).mem.getD (k + 1) 0 = 0 := by
  rw [start, Frame.enter, Array.getD_eq_getD_getElem?, Array.getElem?_setIfInBounds_ne (by omega)]
  simp [Frame.resize, Frame.blank, Array.getElem?_replicate]
  split <;> rfl

/-- A method that has taken its frame stands before its first instruction. -/
lemma View.start (rests : s.Rests words) :
    View s.context.stack.capacity s.context.frames (Ideal.start s words method receiver)
      (s.entered method receiver) := by
  have frame := rests.blank.next_others.1
  exact ⟨rfl, rests.stack, rfl, _, rfl, congrArg (fun f => (f.enter method receiver).mem) frame⟩

end Ideal

namespace Native.Execution

variable {γ φ : Type} [DecidableEq γ] [DecidableEq φ] {ints : RegisterPool γ}
  {floats : RegisterPool φ} {t : GenState γ φ}

/-- The execution of a compiled method that is called in a state. -/
def ofCall (scope : Scope) (answer : Answer) (call : Callback) (last : GenState γ φ) (s : State)
    (receiver : Word) : Execution γ φ where
  scope
  answer
  call
  entry := ⟨scope.method.id, s.machine.classMemory scope.method.id.cls, receiver⟩
  last
  capacity := s.context.stack.capacity
  outer := s.context.frames

variable {scope : Scope} {answer : Answer} {call : Callback} {perform : Instruction → Exec Unit}
  {last : GenState γ φ} {s : State} {receiver : Word} {words : List Word}

omit [DecidableEq γ] [DecidableEq φ] in
/-- The slots of a new frame hold the entry arguments and cleared locals. -/
lemma frameHolds_start (p : Processor γ φ) :
    (ofCall scope answer call last s receiver).FrameHolds
      (Ideal.start s words scope.method receiver).mem
      (Ideal.start s words scope.method receiver).machine { p with
        slots := Processor.openFrame (ofCall scope answer call last s receiver).entry
          scope.method.localWords } where
  size_slots := size_openFrame _ _
  size_mem := Ideal.size_mem_start
  getD_mem k _ := (Ideal.getD_start k).trans (getD_openFrame_localSlot _ _ k).symm
  receiver_slot := (getD_openFrame_index _ _ .receiver).trans Ideal.receiver_start.symm
  classMemory_slot := getD_openFrame_index _ _ .classMemory

variable (answer call receiver) in
/-- The entry operation opens the frame, in which compiled code stands before the first
instruction. -/
lemma exists_sim
    (begins : Boundary scope last 0 { ints, floats, ops := #[.prologue scope.method.localWords] })
    (rests : s.Rests words) :
    ∃ t c, (ofCall scope answer call last s receiver).Goes 1
          ⟨0, {}, s.entered scope.method receiver⟩ c ∧
      (ofCall scope answer call last s receiver).Sim 0 (.start s words scope.method receiver) t
        c := by
  have fetch : (ofCall scope answer call last s receiver).ops[0]? =
      some (.prologue scope.method.localWords) := begins.grows.keeps 0 _ rfl (.inr nofun)
  have enters : (ofCall scope answer call last s receiver).Steps 1
      ⟨0, {}, s.entered scope.method receiver⟩ _ := .single fetch rfl
  refine ⟨_, _, enters.goes, begins, rfl, ⟨[], words, rfl, rfl, ?_⟩, nofun⟩
  exact {
    values := nofun
    stack := rests.stack
    room := rests.stack.length_le
    frame := frameHolds_start _
    machine_eq := rfl
    calm := ⟨rests.halt, rests.pending, rfl, _, rfl⟩ }

/-- The compiled method calls a runtime that acts by the meaning of its calls. -/
lemma sound_ofCall (begins : Boundary scope last 0 t) (describes : answer.Describes scope perform)
    (respects : answer.Respects scope) (small : scope.method.code.size < 2 ^ 63)
    (whole : WholeWords last.ops) :
    (ofCall scope answer (Call.callback perform scope.addresses scope.method) last s
      receiver).Sound where
  begins := ⟨t, begins⟩
  serves := by
    intro ip instr at_ip asks shape declared
    have bound := (Array.getElem?_eq_some_iff.1 at_ip).1
    refine ⟨fun args heap output results => respects instr shape args heap output results declared,
      perform, describes.runtime instr (Array.mem_of_getElem? at_ip) asks shape declared, ?_⟩
    intro tag after
    have found := Call.instructionAt?_add scope.addresses scope.method (Nat.lt_trans bound small)
    exact congrArg (fun instr? => Call.fromNative perform tag instr? after) (found.trans at_ip)
  whole := whole

/-- A compiled method without runtime calls needs no runtime. -/
lemma sound_of_inlined (begins : Boundary scope last 0 t)
    (inlined : ∀ instr ∈ scope.method.code, instr.action ≠ .runtime) (whole : WholeWords last.ops) :
    (ofCall scope answer call last s receiver).Sound where
  begins := ⟨t, begins⟩
  serves _ instr at_ip asks := absurd asks (inlined instr (Array.mem_of_getElem? at_ip))
  whole := whole

/-- Compiled code, entered in a state, and the interpreter end together: each of them if and only if
the ideal machine does, and in the way the ideal machine does. -/
structure Together (x : Execution γ φ) (perform : Instruction → Exec Unit) (v : Ideal) (s : State) :
    Prop where
  mirrors : ∀ fuel, Ideal.Mirrors x.capacity x.outer
    (Ideal.run x.scope x.answer x.capacity fuel 0 v)
      (Interpreter.run perform x.scope.method fuel 0 s)
  finishes : ∀ {fuel ending}, Ideal.run x.scope x.answer x.capacity fuel 0 v = some ending →
    ∃ n status σ, x.Finishes n ⟨0, {}, s⟩ status σ ∧ x.Concludes ending status σ
  exists_run : ∀ {fuel}, (∀ t, x.run fuel ⟨0, {}, s⟩ ≠ .error .stuck t) →
    ∃ fuel' ending, Ideal.run x.scope x.answer x.capacity fuel' 0 v = some ending

variable (describes : answer.Describes scope perform) (rests : s.Rests words)
  (regular : Interpreter.Regular perform scope.method (s.entered scope.method receiver))
  (noUnderflow : Interpreter.Avoids perform scope.method (s.entered scope.method receiver)
    .stackUnderflow)
  (limited : Interpreter.Avoids perform scope.method (s.entered scope.method receiver)
    .stackOverflow ∨ (∀ instr ∈ scope.method.code, instr.action ≠ .runtime) ∧
    Unclamped s.context.stack.capacity last.ops)
include describes rests regular noUnderflow limited

omit [DecidableEq γ] [DecidableEq φ] in
/-- An execution is safe if interpretation does not underflow and accesses memory as it is laid out,
and if it does not overflow either, or there are no runtime calls and reservations tell what they
are for. -/
lemma safe_ofCall (wellFormed : scope.WellFormed) :
    (ofCall scope answer call last s receiver).Safe 0 (.start s words scope.method receiver) := by
  intro n ip v walks instr at_ip
  obtain ⟨t, reaches, view, size⟩ :=
    Ideal.View.exists_reaches describes wellFormed walks (.start rests) Ideal.size_mem_start
  have meets := view.matches_step describes wellFormed size at_ip (ip + 1)
  have comes : Ideal.step scope answer instr v ≠ none := by
    intro none
    rw [none] at meets
    obtain ⟨u, stops⟩ := meets
    obtain ⟨fuel, ended⟩ := reaches.exists_run_error at_ip stops
    exact noUnderflow fuel _ u ended rfl
  have overflows (v' : Ideal) (next : Ideal.step scope answer instr v = some (.next v'))
      (above : s.context.stack.capacity < v'.stack.length) :
      (∀ instr ∈ scope.method.code, instr.action ≠ .runtime) ∧
      Unclamped s.context.stack.capacity last.ops := by
    refine limited.resolve_left fun avoids => ?_
    rw [next] at meets
    obtain ⟨fits, -⟩ | ⟨-, u, stops, -⟩ := meets
    · exact absurd above (Nat.not_lt.2 fits)
    · obtain ⟨fuel, ended⟩ := reaches.exists_run_error at_ip stops
      exact avoids fuel _ u ended rfl
  refine ⟨comes, ?_, ?_, fun v' next above => (overflows v' next above).2⟩
  · have top : t.context.stack.top?.toOption = v.stack.head? := view.stack.toOption_top?
    rw [← top, ← view.machine_eq]
    exact regular ip t reaches instr at_ip
  · intro asks v' next
    by_contra above
    exact (overflows v' next (Nat.not_le.1 above)).1 instr (Array.mem_of_getElem? at_ip) asks

/-- A compiled method that is called and the interpreter end together. -/
theorem together_ofCall
    (begins : Boundary scope last 0 { ints, floats, ops := #[.prologue scope.method.localWords] })
    (sound : (ofCall scope answer call last s receiver).Sound) :
    (ofCall scope answer call last s receiver).Together perform
      (.start s words scope.method receiver) (s.entered scope.method receiver) := by
  have safe : (ofCall scope answer call last s receiver).Safe 0 _ :=
    safe_ofCall describes rests regular noUnderflow limited begins.wellFormed
  obtain ⟨t, c, goes, sim⟩ := exists_sim answer call receiver begins rests
  constructor
  · intro fuel
    exact Ideal.View.run describes begins.wellFormed fuel (.start rests) Ideal.size_mem_start
      fun n ip v walks instr at_ip => (safe n ip v walks instr at_ip).comes
  · intro fuel ending ended
    obtain ⟨n, status, σ, finishes, concludes⟩ := sim.finishes_of_run sound fuel safe ended
    exact ⟨1 + n, status, σ, goes.finishes finishes, concludes⟩
  · intro fuel ended
    cases fuel with
    | zero => exact absurd rfl (ended _)
    | succ fuel =>
      rw [Nat.add_comm, goes.run_add] at ended
      exact sim.exists_run sound safe ended

end Native.Execution

end StackMachine
