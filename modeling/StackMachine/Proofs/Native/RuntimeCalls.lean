import StackMachine.Proofs.Calls
import StackMachine.Proofs.Native.Outcome

/-!
# Runtime calls from compiled code

Before a runtime call the words it takes are written to the operand stack in memory, over the values
that stay pending; registers that hold such values are kept in slots of the frame meanwhile.  The
results are taken from the stack in memory again.  All this comes to what the runtime call does on
the stack of the ideal machine (`callRuntime`).
-/

namespace StackMachine

/-! ### The runtime as compiled code calls it -/

/-- A runtime call comes to a number of words on the stack, or to a fault. -/
lemma Ideal.calling_cases {v : Ideal} {answer : Answer} {taken produced : Nat} {instr : Instruction}
    (enough : taken ≤ v.stack.length)
    (leaves : ∀ args heap output results, (answer instr args heap output).1 = .ok results →
      results.length = produced) :
    ∃ top machine, top.length = produced ∧ machine.statics = v.machine.statics ∧
          (v.calling answer taken instr =
            some (.next { v with stack := top ++ v.stack.drop taken, machine }) ∨
        ∃ fault, v.calling answer taken instr = some (.fault fault machine)) := by
  unfold Ideal.calling
  rw [if_neg (Nat.not_lt.2 enough)]
  have length := leaves (v.stack.take taken) v.machine.heap v.machine.output
  generalize answer instr (v.stack.take taken) v.machine.heap v.machine.output = reply at *
  obtain ⟨result, heap, output⟩ := reply
  cases result with
  | ok results =>
    exact ⟨results.reverse, { v.machine with heap, output },
      (List.length_reverse).trans (length results rfl), rfl, .inl rfl⟩
  | error fault =>
    exact ⟨List.replicate produced 0, { v.machine with heap, output }, List.length_replicate, rfl,
      .inr ⟨fault, rfl⟩⟩

/-- A runtime call sees no more of the stack than what it takes. -/
lemma Ideal.calling_congr {v w : Ideal} (answer : Answer) {taken : Nat} (instr : Instruction)
    (enough : taken ≤ v.stack.length) (enough' : taken ≤ w.stack.length)
    (args : w.stack.take taken = v.stack.take taken) (same : w.machine = v.machine) :
    (∀ top machine, v.calling answer taken instr =
      some (.next { v with stack := top ++ v.stack.drop taken, machine }) →
      w.calling answer taken instr =
        some (.next { w with stack := top ++ w.stack.drop taken, machine })) ∧
      ∀ fault machine, v.calling answer taken instr = some (.fault fault machine) →
        w.calling answer taken instr = some (.fault fault machine) := by
  unfold Ideal.calling
  rw [if_neg (Nat.not_lt.2 enough), if_neg (Nat.not_lt.2 enough'), args, same]
  generalize answer instr (v.stack.take taken) v.machine.heap v.machine.output = reply
  obtain ⟨result, heap, output⟩ := reply
  cases result with
  | ok results =>
    refine ⟨fun top machine calls => ?_, fun fault machine calls => (nomatch calls)⟩
    obtain ⟨stack, -, rfl⟩ := Ideal.mk.inj (Result.next.inj (Option.some.inj calls))
    rw [← List.append_cancel_right stack]
  | error fault =>
    refine ⟨fun top machine calls => (nomatch calls), fun fault machine calls => ?_⟩
    cases calls
    rfl

namespace Call

variable {perform : Instruction → Exec Unit} {answer : Answer} {instr : Instruction} {taken : Nat}
  {capacity : Nat} {outer : List Frame} {v v' : Ideal} {s : State}

/-- A runtime call with the right tag is not refused. -/
lemma refusal?_tag (instr : Instruction) :
    refusal? (Word.ofNat instr.op.tag) (some instr) = none := by
  have small : instr.op.tag < 2 ^ 63 := by cases instr.op <;> decide
  refine if_pos ?_
  rw [Word.toIndex?_ofNat small, Option.bind_some, Opcode.ofTag?_tag]

/-- What a runtime call leaves alone besides the stack: the context's other parts. -/
lemma leaves_perform (answer : Answer) (taken : Nat) (instr : Instruction) :
    Exec.Leaves (fun s => (s.context.halt, s.context.pending)) (answer.perform taken instr) :=
  answer.leaves_perform taken instr (fun _ _ => rfl) fun _ _ => rfl

variable (view : Ideal.View capacity outer v s) (asks : perform instr = answer.perform taken instr)
  (ip : Word)
include view asks

/-- A runtime call from compiled code goes by its meaning, and a fault is kept. -/
lemma fromNative_eq :
    ∃ s', Ideal.View capacity outer v s' ∧ s'.context.halt = s.context.halt ∧
      s'.context.pending = s.context.pending ∧
      fromNative perform (Word.ofNat instr.op.tag) (some instr) ip s =
        match answer.perform taken instr s' with
        | .ok () t => .ok () t
        | .error (.fault f) t => parkTraced f t
        | .error .panic t => parkTraced { cause := brokenOff instr } t
        | .error .stuck t => .error .stuck t := by
  obtain ⟨f, frames, -⟩ := view.frame
  obtain ⟨s', setIp, view'⟩ := view.setIp ((Word.toIndex? ip).getD 0)
  have served : fromNative perform _ (some instr) ip s = _ :=
    fromNative_served (refusal?_tag instr) setIp
  rw [Exec.modifyFrame_eq frames] at setIp
  cases setIp
  rw [asks] at served
  exact ⟨_, view', rfl, rfl, served⟩

/-- A runtime call from compiled code that answers. -/
lemma fromNative_next (calls : v.calling answer taken instr = some (.next v'))
    (fits : v'.stack.length ≤ capacity) :
    ∃ t, fromNative perform (Word.ofNat instr.op.tag) (some instr) ip s = .ok () t ∧
      Ideal.View capacity outer v' t ∧ t.context.halt = s.context.halt ∧
      t.context.pending = s.context.pending := by
  obtain ⟨s', view', halt, pending, served⟩ := fromNative_eq view asks ip
  have matched := view'.calling answer taken instr
  rw [calls] at matched
  rcases matched with ⟨-, t, run, view''⟩ | ⟨full, -⟩
  · cases performed : answer.perform taken instr s' with
    | error e u =>
      rw [Exec.bind_of_error performed] at run
      cases run
    | ok _ u =>
      rw [Exec.bind_of_ok performed] at run
      cases run
      have same := Prod.ext_iff.1 ((leaves_perform answer taken instr s').1 () t performed)
      refine ⟨t, ?_, view'', same.1.trans halt, same.2.trans pending⟩
      rw [served, performed]
  · exact absurd fits (Nat.not_le.2 full)

/-- A runtime call from compiled code that stops with a fault. -/
lemma fromNative_fault {fault : Fault} {machine : Machine}
    (calls : v.calling answer taken instr = some (.fault fault machine))
    (calm : s.context.pending = none) :
    ∃ t names, fromNative perform (Word.ofNat instr.op.tag) (some instr) ip s = .ok () t ∧
      t.machine = machine ∧ Ideal.Framed outer t ∧ t.context.halt = 1 ∧
        t.context.pending = some (fault.withTrace names) := by
  obtain ⟨s', view', -, pending, served⟩ := fromNative_eq view asks ip
  have matched := view'.calling answer taken instr
  rw [calls] at matched
  obtain ⟨t, run, machine_eq, framed⟩ := matched
  cases performed : answer.perform taken instr s' with
  | ok _ u =>
    rw [Exec.bind_of_ok performed] at run
    cases run
  | error e u =>
    rw [Exec.bind_of_error performed] at run
    cases run
    have same := Prod.ext_iff.1 ((leaves_perform answer taken instr s').2 _ _ performed)
    refine ⟨t.parked (fault.withTrace t.names), t.names, ?_, machine_eq, framed, rfl, rfl⟩
    rw [served, performed]
    exact parkTraced_eq (same.2.trans (pending.trans calm)) fault

end Call

end StackMachine

namespace StackMachine.Native

variable {γ φ : Type} [DecidableEq γ] [DecidableEq φ]

/-- The word of a float register. -/
def Processor.floatWord (p : Processor γ φ) (r : φ) : Word := (p.float r).toWord

/-- Slots of the frame hold the words of registers. -/
def Kept {ρ : Type} (word : Processor γ φ → ρ → Word) (base : Nat) (regs : List ρ)
    (p : Processor γ φ) : Prop :=
  ∀ i r, regs[i]? = some r → p.slot (base + i) = word p r

namespace Kept

omit [DecidableEq γ] [DecidableEq φ]

variable {ρ : Type} {word : Processor γ φ → ρ → Word} {base : Nat} {regs : List ρ}
  {p : Processor γ φ} {r : ρ} {i : Nat} {w : Word}

lemma nil : Kept word base [] p := by
  rintro _ _ ⟨⟩

lemma setSlot (h : Kept word base regs p) (slotless : ∀ r, word (p.setSlot i w) r = word p r)
    (other : ∀ j < regs.length, base + j ≠ i) : Kept word base regs (p.setSlot i w) := by
  intro j r at_j
  obtain ⟨bound, -⟩ := List.getElem?_eq_some_iff.1 at_j
  rw [p.slot_setSlot_of_ne (other j bound).symm, slotless, h j r at_j]

/-- The next register is written to its slot. -/
lemma snoc (h : Kept word base (regs.take i) p) (at_i : regs[i]? = some r)
    (slotless : ∀ r', word (p.setSlot (base + i) (word p r)) r' = word p r')
    (bound : base + i < p.slots.size) :
    Kept word base (regs.take (i + 1)) (p.setSlot (base + i) (word p r)) := by
  have before : Kept word base (regs.take i) (p.setSlot (base + i) (word p r)) := by
    refine h.setSlot slotless fun j short => ?_
    rw [List.length_take] at short
    omega
  intro j r' at_j
  by_cases isLast : j = i
  · subst isLast
    rw [List.getElem?_take_of_lt (Nat.lt_succ_self j), at_i] at at_j
    cases at_j
    rw [p.slot_setSlot_self bound, slotless]
  · refine before j r' ?_
    obtain ⟨short, -⟩ := List.getElem?_eq_some_iff.1 at_j
    rw [List.length_take] at short
    rw [List.getElem?_take_of_lt (by omega)] at at_j ⊢
    exact at_j

end Kept

namespace Execution

variable {us : List (Pending γ φ)} {i : Nat}

/-- As `Stands`, but of the stack of the ideal machine there are values held on top, and words in
memory next, over the pending values. -/
def Flushed (x : Execution γ φ) (us : List (Pending γ φ)) (top : List Word) (v : Ideal) :
    Assertion γ φ where
  known s := Owned x.locals s.ints s.floats (us ++ s.pending)
  holds s c := ∃ vals pend rest, vals.map Prod.fst = us ∧ pend.map Prod.fst = s.pending ∧
    v.stack = vals.map Prod.snd ++ top ++ (pend.map Prod.snd ++ rest) ∧
    x.Represents s.covered (vals ++ pend) (top ++ rest) v.mem v.machine c.proc c.state

/-- Values are still to be written to the stack in memory; when they have been, `n` words are there
over the pending values, or no value is pending. -/
def Flushing (x : Execution γ φ) (us : List (Pending γ φ)) (n : Nat) (v : Ideal) :
    Assertion γ φ where
  known s := Owned x.locals s.ints s.floats (us ++ s.pending)
  holds s c := ∃ vals pend top rest, vals.map Prod.fst = us ∧ pend.map Prod.fst = s.pending ∧
    (us.length + top.length = n ∨ pend = []) ∧
    v.stack = vals.reverse.map Prod.snd ++ top ++ (pend.map Prod.snd ++ rest) ∧
    x.Represents (s.covered + us.length) (vals ++ pend) (top ++ rest) v.mem v.machine c.proc c.state

/-- As `Flushed`, and slots of the frame hold the words of registers. -/
def Keeping (x : Execution γ φ) (pending : List (Pending γ φ)) (ints : List γ) (floats : List φ)
    (top : List Word) (v : Ideal) : Assertion γ φ where
  known := ((x.Flushed [] top v).also (·.pending = pending)).known
  holds s c := (x.Flushed [] top v).holds s c ∧ Kept Processor.int intSpillBase ints c.proc ∧
    Kept Processor.floatWord floatSpillBase floats c.proc

/-- After a runtime call the registers are lost.  There was a processor from whose registers the
pending values are known; the slots hold its words, and some registers have been read from there
again. -/
def Reloading (x : Execution γ φ) (pending : List (Pending γ φ)) (ints : List γ) (floats : List φ)
    (top : List Word) (v : Ideal) : Assertion γ φ where
  known := ((x.Flushed [] top v).also (·.pending = pending)).known
  holds s c := ∃ p : Processor γ φ, c.proc.slots = p.slots ∧
    (x.Keeping pending (Gen.pendingInts pending) (Gen.pendingFloats pending) top v).holds s
      ⟨c.place, p, c.state⟩ ∧
    (∀ r ∈ ints, c.proc.int r = p.int r) ∧ ∀ r ∈ floats, c.proc.float r = p.float r

/-- Where the method calls the runtime for the instruction at a place, the runtime acts by the
instruction's meaning, which leaves as many words as are declared. -/
def Serves (x : Execution γ φ) (ip : Nat) (instr : Instruction) : Prop :=
  ∀ shape, x.scope.shape? instr = some shape →
    (∀ args heap output results, (x.answer instr args heap output).1 = .ok results →
      results.length = shape.produced.length) ∧
    ∃ perform, perform instr = x.answer.perform shape.consumed instr ∧
      ∀ tag after, x.call tag (x.scope.addresses.code + Word.ofNat ip) after =
        Call.fromNative perform tag (some instr) after

variable {x : Execution γ φ} {ints : List γ} {floats : List φ} {top : List Word} {v : Ideal}
  {s : GenState γ φ} {c : Config γ φ}

/-- The slots that keep registers are in the frame. -/
lemma Flushed.lt_size_slots (h : (x.Flushed us top v).holds s c) (low : i < localsBase) :
    i < c.proc.slots.size := by
  obtain ⟨_, _, _, -, -, -, rep⟩ := h
  rw [rep.frame.size_slots]
  exact Nat.lt_of_lt_of_le low (Nat.le_add_right _ _)

/-- A slot that keeps a register is written. -/
lemma Flushed.setSpill (h : (x.Flushed us top v).holds s c)
    (low : intSpillBase ≤ i) (high : i < localsBase) (w : Word) (place : Nat) :
    (x.Flushed us top v).holds s ⟨place, c.proc.setSlot i w, c.state⟩ :=
  let ⟨vals, pend, rest, keys, keys', stack, rep⟩ := h
  ⟨vals, pend, rest, keys, keys', stack, rep.setSpill low high w⟩

/-- The slots keep the registers of every pending value: with these the pending values are there
again. -/
lemma Reloading.flushed {pending : List (Pending γ φ)} (known : s.pending = pending)
    (h : (x.Reloading pending (Gen.pendingInts pending) (Gen.pendingFloats pending) top v).holds s
      c) :
    (x.Flushed [] top v).holds s c := by
  obtain ⟨p, slots, ⟨⟨vals, pend, rest, keys, keys', stack, rep⟩, -⟩, sameInts, sameFloats⟩ := h
  obtain rfl := List.map_eq_nil_iff.1 keys
  refine ⟨[], pend, rest, rfl, keys', stack, rep.withProcessor slots fun o mem => ?_⟩
  have isPending : o.1 ∈ pending := known ▸ keys' ▸ List.mem_map_of_mem mem
  obtain ⟨u, w⟩ := o
  cases u with
  | imm w => rfl
  | floatImm d => rfl
  | reg lease =>
    exact sameInts lease.reg (List.mem_filterMap.2 ⟨_, List.mem_reverse.2 isPending, rfl⟩)
  | floatReg lease =>
    exact congrArg Double.toWord
      (sameFloats lease.reg (List.mem_filterMap.2 ⟨_, List.mem_reverse.2 isPending, rfl⟩))
  | slot k | floatSlot k => rw [Pending.value, Pending.value, Processor.slot, Processor.slot, slots]

end Execution

namespace Triple

open Gen Execution

variable {α : Type} {x : Execution γ φ} {E : ExitAssertion γ φ} {closed : Bool}
  {held : List (Pending γ φ × Word)} {v : Ideal} {w : Word} {top : List Word}
  {u : Pending γ φ} {us : List (Pending γ φ)} {n : Nat} {R : Ideal.Result → Prop} {m : Nat}
  {s t : GenState γ φ} {ints : List γ} {floats : List φ}

/-! ### Writing pending values to memory -/

/-- An operation writes a value to the stack in memory. -/
lemma emitPush {op : Operation γ φ} (proper : op.isProper)
    (performs : ∀ p s, x.perform op p s = .ok (p, .next)
      { s with context := { s.context with stack := s.context.stack.pushUnchecked (u.value p) } })
    (named : op.slots = (srcOf u).slots) :
    Triple x E true (x.Flushing (u :: us) n v) (Gen.emit op)
      fun _ => ⟨fun s => Owned x.locals s.ints s.floats (u :: (us ++ s.pending)),
        (x.Flushing us n v).holds⟩ := by
  refine emit_effect proper (fun _ => id) (fun s c _ _ holds => ⟨_, performs _ _, ?_⟩)
    fun _ known =>
    named ▸ Owned.isUsed known (.head _)
  obtain ⟨vals, pend, top, rest, keys, keys', count, stack, rep⟩ := holds
  obtain ⟨⟨u', w⟩, vals, rfl, rfl, rfl⟩ := List.map_eq_cons_iff.1 keys
  rw [rep.value]
  refine ⟨vals, pend, w :: top, rest, rfl, keys', ?_, by simpa using stack, ?_⟩
  · simpa [Nat.add_right_comm, Nat.add_assoc] using count
  · exact rep.drop.pushBelow w

/-- Values are written to the stack in memory in turn. -/
lemma flushEach (us : List (Pending γ φ)) :
    Triple x E true (x.Flushing us n v) (Gen.flushEach us) fun _ => x.Flushing [] n v := by
  induction us with
  | nil => exact done rfl
  | cons u us ih =>
    have rest : Triple x E true ⟨fun s => Owned x.locals s.ints s.floats (u :: (us ++ s.pending)),
          (x.Flushing us n v).holds⟩
        (Gen.discard u >>= fun _ => Gen.flushEach us) fun _ => x.Flushing [] n v :=
      (discardOwned fun _ _ _ _ => id).bind fun _ => ih
    cases u with
    | floatReg lease => exact (emitPush rfl (fun _ _ => rfl) rfl).bind fun _ => rest
    | _ => exact (emitPush rfl (fun _ _ => rfl) rfl).bind fun _ => rest

/-- Writing values to the stack in memory leaves the other values and the reservation alone, and
exhausts no pool. -/
lemma flushEach_keeps (us : List (Pending γ φ)) : ∀ {s t : GenState γ φ},
    Gen.flushEach us s = .ok () t → t.pending = s.pending ∧ t.openReserve = s.openReserve ∧
      t.ints.failed = s.ints.failed ∧ t.floats.failed = s.floats.failed := by
  induction us with
  | nil =>
    intro s t run
    cases run
    exact ⟨rfl, rfl, rfl, rfl⟩
  | cons u us ih =>
    intro s t run
    cases u
    all_goals
      obtain ⟨_, _, run₁, run₂⟩ := bind_eq_ok.1 run
      cases run₁
      obtain ⟨_, _, run₃, run₄⟩ := bind_eq_ok.1 run₂
      cases run₃
      obtain ⟨pending, opened, ints, floats⟩ := ih run₄
      simp only [RegisterPool.failed_release] at ints floats
      exact ⟨pending, opened, ints, floats⟩

/-- No reservation is open after the pending values were written to memory, and no pool is exhausted
by that. -/
lemma flushTop_keeps (run : Gen.flushTop m s = .ok () t) :
    t.openReserve = none ∧ (s.Alive → t.Alive) := by
  obtain ⟨values, u, run₁, run₂⟩ := bind_eq_ok.1 run
  cases run₁
  obtain ⟨-, closed, ints, floats⟩ := flushEach_keeps _ run₂
  exact ⟨closed, fun alive => ⟨ints.trans alive.1, floats.trans alive.2⟩⟩

/-- No value is pending after all were written to memory. -/
lemma flushAll_pending (run : Gen.flushAll s = .ok () t) : t.pending = [] := by
  obtain ⟨_, u, run₁, run⟩ := bind_eq_ok.1 run
  cases run₁
  obtain ⟨_, u, run₁, run⟩ := bind_eq_ok.1 run
  cases run₁
  exact (flushEach_keeps _ run).1.trans (List.drop_length ..)

section

variable (fits : v.stack.length ≤ x.capacity)
include fits

/-- The top `m` pending values are written to the stack in memory.  Either that many words are
wanted there, or every pending value is written. -/
lemma flushTop_eq {P : Assertion γ φ}
    (known : ∀ s, P.known s → (x.Stands [] v).known s ∧ (m = n ∨ s.pending.length ≤ m))
    (holds : ∀ s c, P.holds s c → (x.Stands [] v).holds s c) :
    Triple x E closed P (Gen.flushTop m) fun _ => x.Flushing [] n v := by
  refine bindClosing (Q := fun values => x.Flushing values.reverse n v)
    (still (fun _ run => ?_) (fun {s t a} run _ knows => ?_) fun {s t a} run _ knows c before => ?_)
    (fun run => ?_) fun values => flushEach _
  all_goals cases run
  · exact ⟨rfl, .ofSame rfl id (.inr rfl) (absurd rfl) rfl⟩
  · have owned : Owned x.locals s.ints s.floats s.pending := (known s knows).1
    rw [← List.take_append_drop m s.pending] at owned
    exact owned.perm ((List.reverse_perm _).symm.append_right _)
  · obtain ⟨pend, below, keys, stack, rep⟩ := holds s c before
    have count : pend.length = s.pending.length := by rw [← keys, List.length_map]
    refine ⟨(pend.take m).reverse, pend.drop m, [], below, ?_, ?_, ?_, ?_, ?_⟩
    · rw [List.map_reverse, List.map_take, keys]
    · rw [List.map_drop, keys]
    · rcases (known s knows).2 with rfl | all
      · by_cases enough : m ≤ pend.length
        · left
          simp only [List.length_reverse, List.length_take, List.length_nil]
          omega
        · exact .inr (List.drop_eq_nil_of_le (Nat.le_of_not_le enough))
      · exact .inr (List.drop_eq_nil_of_le (count ▸ all))
    · rw [List.reverse_reverse, List.append_nil, ← List.append_assoc, ← List.map_append,
        List.take_append_drop]
      exact stack
    · have order : pend.Perm ((pend.take m).reverse ++ pend.drop m) := by
        conv_lhs => rw [← List.take_append_drop m pend]
        exact (List.reverse_perm _).symm.append_right _
      refine (rep.perm order).cover ?_
      have room := rep.room
      have lengths := congrArg List.length stack
      simp only [List.length_append, List.length_map] at lengths
      simp only [List.length_reverse, List.length_take]
      omega
  · rfl

/-- The words that a runtime call takes are written to the stack in memory. -/
lemma flushTop :
    Triple x E closed (x.Stands [] v) (Gen.flushTop n) fun _ => x.Flushed []
    (v.stack.take n) v := by
  refine (flushTop_eq fits (fun _ known => ⟨known, .inl rfl⟩) fun _ _ => id).post
    (fun _ _ => id) fun _ s c _ holds => ?_
  obtain ⟨vals, pend, top, rest, keys, keys', count, stack, rep⟩ := holds
  obtain rfl := List.map_eq_nil_iff.1 keys
  rcases count with count | rfl
  · have isTop : v.stack.take n = top := by
      rw [stack]
      exact List.take_left' (by simpa using count)
    exact ⟨[], pend, rest, rfl, keys', by rw [isTop]; exact stack, by rw [isTop]; exact rep⟩
  · have isStack : v.stack = top ++ rest := stack
    refine ⟨[], [], v.stack.drop n, rfl, keys', (List.take_append_drop n v.stack).symm, ?_⟩
    rw [List.take_append_drop, isStack]
    exact rep

/-- Every pending value is written to the stack in memory. -/
lemma flushAll : Triple x E closed (x.Stands [] v) Gen.flushAll
    fun _ =>
      ⟨fun s => Owned x.locals s.ints s.floats s.pending, fun _ c =>
        x.Represents 0 [] v.stack v.mem v.machine c.proc c.state⟩ := by
  refine ofGet fun s₀ => (flushTop_eq (P := (x.Stands [] v).also (· = s₀))
    (n := v.stack.length + 1) fits (fun s known => ⟨known.2, ?_⟩) fun _ _ => id).post
      (fun _ _ => id) fun _ s c _ holds => ?_
  · exact .inr (known.1 ▸ Nat.le_refl _)
  · obtain ⟨vals, pend, top, rest, keys, keys', count, stack, rep⟩ := holds
    obtain rfl := List.map_eq_nil_iff.1 keys
    obtain rfl : pend = [] := count.resolve_left fun count => by
      have lengths := congrArg List.length stack
      simp only [List.length_append, List.length_map, List.length_reverse, List.length_nil] at *
      omega
    have isStack : v.stack = top ++ rest := stack
    rw [isStack]
    exact rep.cover (by rw [← isStack]; exact fits)

lemma leave (result : R (.leave v)) :
    Triple x (x.Exits R) closed (x.Stands [] v) Gen.leave fun _ => x.Next R := by
  refine (flushAll fits).bindClosing (fun run => (flushTop_keeps run).1) fun _ =>
    emit rfl (fun _ => id) (fun s c _ _ rep => ?_) uses_nil
  exact ⟨c.proc, _, c.state, rfl,
    .inr ⟨_, rfl, rfl, .inl ⟨v, result, rep.stack, rep.machine_eq, rep.calm⟩⟩⟩

end

/-! ### Taking results from memory -/

lemma takeResult {g : Gen γ φ (Pending γ φ)}
    (takes : ∀ F, Triple x E closed (x.Taking us F v.mem v.machine) g
      fun u => x.Took u us F v.mem v.machine) :
    Triple x E closed (x.Flushed us (w :: top) v) g fun u => x.Flushed (us ++ [u]) top v := by
  refine (takes fun vals memory => ∃ vals' pend rest, vals = vals' ++ pend ∧
    vals'.map Prod.fst = us ∧ memory = w :: (top ++ rest) ∧
      v.stack = vals'.map Prod.snd ++ (w :: top) ++ (pend.map Prod.snd ++ rest)).mono
    (fun _ => id) (fun s c _ holds => ?_) (fun u s known => ?_) fun u s c _ holds => ?_
  · obtain ⟨vals, pend, rest, keys, keys', stack, rep⟩ := holds
    exact ⟨vals ++ pend, w, top ++ rest, by rw [List.map_append, keys, keys'],
      ⟨vals, pend, rest, rfl, keys, rfl, stack⟩, rep⟩
  · refine Owned.perm known ?_
    rw [List.append_assoc]
    exact List.perm_middle.symm
  · obtain ⟨_, w', below, keys, ⟨vals, pend, rest, rfl, keys', memory, stack⟩, rep⟩ := holds
    obtain ⟨rfl, rfl⟩ := List.cons_eq_cons.1 memory
    rw [List.map_append, keys', List.append_cancel_left_eq] at keys
    refine ⟨vals ++ [(u, w')], pend, rest, by rw [List.map_append, keys']; rfl, keys, ?_, ?_⟩
    · simpa using stack
    · rw [List.append_assoc]
      exact rep.perm List.perm_middle.symm

/-- The results of a runtime call are taken from the stack in memory in turn. -/
lemma takeResults (kinds : List ValueKind) : ∀ {us : List (Pending γ φ)} {top : List Word},
    top.length = kinds.length →
      Triple x E closed (x.Flushed us top v) (Gen.takeResults kinds) fun results =>
        x.Flushed (us ++ results) [] v := by
  induction kinds with
  | nil =>
    intro us top none
    obtain rfl := List.eq_nil_of_length_eq_zero none
    refine pure ?_ ?_
    all_goals rw [List.append_nil]
    · exact fun _ => id
    · exact fun _ _ _ => id
  | cons kind kinds ih =>
    intro us top count
    obtain ⟨w, top, rfl⟩ := List.exists_cons_of_length_eq_add_one count
    have rest : ∀ u, Triple x E closed (x.Flushed (us ++ [u]) top v)
        (Gen.takeResults kinds >>= fun results => Pure.pure (u :: results))
        fun results => x.Flushed (us ++ results) [] v := by
      refine fun u => (ih (Nat.succ_inj.1 count)).bind fun results => ?_
      rw [List.append_assoc]
      exact pure (fun s => id) fun s c _ => id
    cases kind with
    | float => exact (takeResult fun _ => takeMemoryFloat).bind rest
    | int => exact (takeResult fun _ => takeMemory).bind rest

/-! ### Keeping registers in the frame -/

omit [DecidableEq γ] in
/-- The slots for integer registers are those before the slots for float registers. -/
lemma intSpill {r : γ} (few : ints.length ≤ intSpillSlots) {i : Nat} (at_i : ints[i]? = some r) :
    intSpillBase ≤ intSpillBase + i ∧ intSpillBase + i < localsBase := by
  obtain ⟨bound, -⟩ := List.getElem?_eq_some_iff.1 at_i
  unfold localsBase floatSpillBase
  omega

omit [DecidableEq φ] in
/-- The slots for float registers are those before the locals. -/
lemma floatSpill {r : φ} (few : floats.length ≤ floatSpillSlots) {i : Nat}
    (at_i : floats[i]? = some r) :
    intSpillBase ≤ floatSpillBase + i ∧ floatSpillBase + i < localsBase := by
  obtain ⟨bound, -⟩ := List.getElem?_eq_some_iff.1 at_i
  unfold localsBase floatSpillBase
  omega

omit [DecidableEq γ] [DecidableEq φ] in
lemma isUsed_spill {i : Nat} (spill : intSpillBase ≤ i ∧ i < localsBase) :
    ∀ slot ∈ [i], IsUsed x.locals slot :=
  List.forall_mem_singleton.2 (.inr (.inr (.inl spill)))

/-- One operation for each register of a list, with the registers before it done. -/
lemma emitSpills {ρ : Type} {op : Nat → ρ → Operation γ φ} {base : Nat} {regs : List ρ}
    {P : List ρ → Assertion γ φ}
    (each : ∀ i r, regs[i]? = some r →
      Triple x E closed (P (regs.take i)) (Gen.emit (op (base + i) r))
      fun _ => P (regs.take (i + 1))) :
    Triple x E closed (P []) (Gen.emitSpills op base regs) fun _ => P regs := by
  induction regs generalizing base P with
  | nil => exact done rfl
  | cons r regs ih =>
    refine (each 0 r rfl).bind fun _ => ih (P := fun regs => P (r :: regs)) fun i r' at_i => ?_
    rw [Nat.add_right_comm]
    exact each (i + 1) r' at_i

/-- Integer registers are kept in the frame. -/
lemma storeInts (few : ints.length ≤ intSpillSlots) :
    Triple x E closed ((x.Flushed [] top v).also (·.pending = us))
      (Gen.emitSpills (fun slot reg => .storeSlot slot (.reg reg)) intSpillBase ints)
      fun _ => x.Keeping us ints [] top v := by
  refine pre (emitSpills (P := fun ints => x.Keeping us ints [] top v) fun i r at_i =>
    emit_quiet rfl (fun _ => id) (fun s c _ ⟨flushed, kept, _⟩ => ?_)
      fun _ _ => isUsed_spill (intSpill few at_i)) (fun _ => id) fun s c _ flushed => ⟨flushed,
      .nil, .nil⟩
  obtain ⟨low, high⟩ := intSpill few at_i
  exact ⟨_, rfl, Flushed.setSpill flushed low high _ _,
    kept.snoc at_i (fun _ => rfl) (Flushed.lt_size_slots flushed high), .nil⟩

lemma storeFloats (fewInts : ints.length ≤ intSpillSlots) (few : floats.length ≤ floatSpillSlots) :
    Triple x E closed (x.Keeping us ints [] top v)
      (Gen.emitSpills (fun slot reg => .storeFloatSlot slot reg) floatSpillBase floats)
      fun _ => x.Keeping us ints floats top v := by
  refine emitSpills (P := fun floats => x.Keeping us ints floats top v) fun i r at_i =>
    emit_quiet rfl (fun _ => id) (fun s c _ ⟨flushed, keptInts, kept⟩ => ?_)
      fun _ _ => isUsed_spill (floatSpill few at_i)
  obtain ⟨low, high⟩ := floatSpill few at_i
  refine ⟨_, rfl, Flushed.setSpill flushed low high _ _, keptInts.setSlot (fun _ => rfl)
    fun j short => ?_, kept.snoc at_i (fun _ => rfl) (Flushed.lt_size_slots flushed high)⟩
  unfold floatSpillBase
  omega

/-- What has been read again, when one register more is. -/
lemma same_take_succ {ρ β : Type} {value value' : ρ → β} {regs : List ρ} {i : Nat} {r : ρ}
    (at_i : regs[i]? = some r) (same : ∀ r' ∈ regs.take i, value r' = value' r')
    (read : value r = value' r) :
    ∀ r' ∈ regs.take (i + 1), value r' = value' r' := by
  intro r' mem
  rw [List.take_add_one, at_i, List.mem_append, Option.mem_toList] at mem
  rcases mem with mem | isLast
  · exact same r' mem
  · cases isLast
    exact read

/-- Integer registers are read from the frame again. -/
lemma loadInts (few : (Gen.pendingInts us).length ≤ intSpillSlots) :
    Triple x E closed (x.Reloading us [] [] top v)
      (Gen.emitSpills (fun slot reg => .loadSlot reg slot) intSpillBase (Gen.pendingInts us))
      fun _ => x.Reloading us (Gen.pendingInts us) [] top v := by
  refine emitSpills (P := fun ints => x.Reloading us ints [] top v) fun i r at_i => emit_quiet rfl
    (fun _ => id) (fun s c _ ⟨p, slots, keeping, sameInts, sameFloats⟩ => ?_)
    fun _ _ => isUsed_spill (intSpill few at_i)
  have kept : c.proc.slot (intSpillBase + i) = p.int r := by
    rw [Processor.slot, slots]
    exact keeping.2.1 i r at_i
  refine ⟨_, rfl, p, slots, keeping, same_take_succ at_i (fun r' mem => ?_) ?_,
    List.forall_mem_nil _⟩
  · by_cases same : r = r'
    · rw [← same, Processor.int_setInt_self, kept]
    · rw [c.proc.int_setInt_of_ne same, sameInts r' mem]
  · rw [Processor.int_setInt_self, kept]

/-- Float registers are read from the frame again. -/
lemma loadFloats (few : (Gen.pendingFloats us).length ≤ floatSpillSlots) :
    Triple x E closed (x.Reloading us ints [] top v)
      (Gen.emitSpills (fun slot reg => .loadFloatSlot reg slot) floatSpillBase
      (Gen.pendingFloats us)) fun _ => x.Reloading us ints (Gen.pendingFloats us) top v := by
  refine emitSpills (P := fun floats => x.Reloading us ints floats top v) fun i r at_i =>
    emit_quiet rfl (fun _ => id) (fun s c _ ⟨p, slots, keeping, sameInts, sameFloats⟩ => ?_)
      fun _ _ => isUsed_spill (floatSpill few at_i)
  have kept : Double.ofWord (c.proc.slot (floatSpillBase + i)) = p.float r := by
    rw [Processor.slot, slots, ← Processor.slot, keeping.2.2 i r at_i, Processor.floatWord,
      ofWord_toWord]
  refine ⟨_, rfl, p, slots, keeping, sameInts, same_take_succ at_i (fun r' mem => ?_) ?_⟩
  · by_cases same : r = r'
    · rw [← same, Processor.float_setFloat_self, kept]
    · rw [c.proc.float_setFloat_of_ne same, sameFloats r' mem]
  · rw [Processor.float_setFloat_self, kept]

/-! ### The call -/

section Calling

variable {perform : Instruction → Exec Unit} {instr : Instruction} {shape : Shape} {ip i : Nat}
  {ints : List γ} {floats : List φ} {machine : Machine} {P : Assertion γ φ} {Q : α → Assertion γ φ}

/-- The operation that calls the runtime.  It goes on where the ideal machine does, and leaves the
method where the ideal machine stops with a fault. -/
lemma emitCall (callsRuntime : x.scope.CallsRuntime)
    (meaning : perform instr = x.answer.perform shape.consumed instr)
    (call : ∀ tag after, x.call tag (x.scope.addresses.code + Word.ofNat ip) after =
      Call.fromNative perform tag (some instr) after) (enough : shape.consumed ≤ v.stack.length)
    (length : top.length = shape.produced.length) (statics : machine.statics = v.machine.statics)
    {v' : Ideal} (after : v' = { v with stack := top ++ v.stack.drop shape.consumed, machine })
    (comes : v.calling x.answer shape.consumed instr = some (.next v') ∨
      ∃ fault, v.calling x.answer shape.consumed instr = some (.fault fault machine))
    (fits : v.calling x.answer shape.consumed instr = some (.next v') →
      v'.stack.length ≤ x.capacity)
    (fails : ∀ fault, v.calling x.answer shape.consumed instr = some (.fault fault machine) →
      R (.fault fault machine)) :
    Triple x (x.Exits R) true ((x.Keeping us (Gen.pendingInts us) (Gen.pendingFloats us)
        (v.stack.take shape.consumed) v).also fun _ => i = ip)
      (Gen.emit (.callRuntime (Word.ofNat instr.op.tag)
        (x.scope.addresses.code + Word.ofNat i) (Word.ofNat (i + 1)) .exit))
      fun _ => ⟨(x.Reloading us [] [] top v').known, fun s c =>
        v.calling x.answer shape.consumed instr = some (.next v') ∧
            (x.Reloading us [] [] top v').holds
              { s with covered := s.covered + shape.consumed - shape.produced.length } c⟩ := by
  subst after
  refine emit rfl (fun _ known => known.2) (fun s c _ ⟨same, _⟩ holds => ?_) uses_nil
  subst same
  obtain ⟨⟨vals, pend, rest, keys, keys', stack, rep⟩, keptInts, keptFloats⟩ := holds
  obtain rfl := List.map_eq_nil_iff.1 keys
  obtain ⟨f, frames⟩ := rep.calm.framed
  -- the native stack holds what the call takes, and less of the rest than the ideal one
  let below : Ideal := ⟨v.stack.take shape.consumed ++ rest, f.mem, v.machine⟩
  have view : Ideal.View x.capacity x.outer below c.state :=
    ⟨rep.machine_eq, rep.stack, rep.calm.capacity, f, frames, rfl⟩
  have count : (v.stack.take shape.consumed).length = shape.consumed :=
    List.length_take_of_le enough
  have left : v.stack.drop shape.consumed = pend.map Prod.snd ++ rest := by
    have split : v.stack.take shape.consumed ++ v.stack.drop shape.consumed =
        v.stack.take shape.consumed ++ (pend.map Prod.snd ++ rest) := by
      rw [List.take_append_drop]
      exact stack
    exact List.append_cancel_left split
  have congr := Ideal.calling_congr (w := below) x.answer instr enough
    (by simp [below, count]) (List.take_left' count) rfl
  have performs : ∀ t, Call.fromNative perform (Word.ofNat instr.op.tag) (some instr)
      (Word.ofNat (i + 1)) c.state = .ok () t →
      x.perform (.callRuntime (Word.ofNat instr.op.tag) (x.scope.addresses.code + Word.ofNat i)
        (Word.ofNat (i + 1)) .exit) c.proc c.state =
        .ok ({ slots := c.proc.slots }, Processor.Flow.when (t.context.halt != 0) .exit) t := by
    intro t called
    show (x.call _ _ _ >>= _) c.state = _
    rw [call, Exec.bind_of_ok called]
    rfl
  rcases comes with calls | ⟨fault, calls⟩
  · have calls' := congr.1 _ _ calls
    have dropped : below.stack.drop shape.consumed = rest := List.drop_left' count
    rw [dropped] at calls'
    have lengths := fits calls
    simp only [List.length_append, left, List.length_map] at lengths
    obtain ⟨t, called, view', halt, pending⟩ := Call.fromNative_next view meaning _ calls'
      (by simp only [List.length_append]; omega)
    -- the processor before the call is the one whose registers are kept
    refine ⟨_, _, _, performs t called,
      .inl ⟨?_, .inl rfl, calls, c.proc, rfl, ⟨?_, keptInts, keptFloats⟩, nofun, nofun⟩⟩
    · rw [halt, rep.calm.halt]
      rfl
    · refine ⟨[], pend, rest, rfl, keys', by rw [left]; rfl, rep.values, view'.stack, ?_,
        { rep.frame with classMemory_slot := ?_ }, view'.machine_eq,
        halt.trans rep.calm.halt, pending.trans rep.calm.pending, view'.capacity_eq, view'.framed⟩
      · have room := rep.room
        simp only [List.length_append, count] at room ⊢
        omega
      · rw [rep.frame.classMemory_slot, Machine.classMemory, Machine.classMemory, statics]
  · obtain ⟨t, names, called, machine_eq, framed, halt, pending⟩ :=
      Call.fromNative_fault view meaning _ (congr.2 _ _ calls) rep.calm.pending
    refine ⟨_, _, _, performs t called, .inr ⟨.exit, ?_, rfl, .inr ⟨fault, ?_, ?_⟩⟩⟩
    · rw [halt]
      rfl
    · rw [machine_eq]
      exact fails fault calls
    · exact ⟨callsRuntime, by rw [halt]; decide, ⟨names, pending⟩, framed⟩

/-- The results of a runtime call become pending. -/
lemma pushResults :
    Triple x E closed (x.Flushed us [] v)
      (modify fun s : GenState γ φ => { s with pending := us ++ s.pending })
      fun _ => x.Stands [] v := by
  refine still (fun _ run => ?_) (fun run _ known => ?_) fun run _ _ c holds => ?_
  all_goals cases run
  · exact ⟨rfl, .ofSame rfl id (.inl rfl) (fun _ => rfl) rfl⟩
  · exact known
  · obtain ⟨vals, pend, rest, keys, keys', stack, rep⟩ := holds
    refine ⟨vals ++ pend, rest, by rw [List.map_append, keys, keys'], ?_, rep⟩
    simpa using stack

omit [DecidableEq γ] [DecidableEq φ] in
/-- Generation goes on if what a runtime call takes and leaves is declared, and fails otherwise. -/
lemma runtimeShape_eq (scope : Scope) (instr : Instruction) : ∃ e : Nat → CompileError,
    Gen.runtimeShape (γ := γ) (φ := φ) scope instr = match scope.shape? instr with
      | some shape => Pure.pure shape
      | none => (do throw (e (← get).ip)) := by
  unfold Gen.runtimeShape
  split
  · next isCall =>
    refine ⟨CompileError.unknownCallee instr.operand instr.operand2, ?_⟩
    rw [Scope.shape?, isCall]
    cases scope.program.callee? instr.operand instr.operand2 <;> rfl
  · next isDynamic =>
    refine ⟨CompileError.unsupported "", ?_⟩
    rw [Scope.shape?, isDynamic]
  · next notCall notDynamic =>
    refine ⟨CompileError.unsupported instr.op.name, ?_⟩
    have other : scope.shape? instr = instr.op.shape? instr.operand := by
      unfold Scope.shape?
      split
      · next isCall => exact absurd isCall notCall
      · next isDynamic => exact absurd isDynamic notDynamic
      · rfl
    cases declared : instr.op.shape? instr.operand <;> simp only [other, declared]

/-- What a runtime call takes and leaves is declared, or generation fails. -/
lemma runtimeShape_bind {f : Shape → Gen γ φ α} {scope : Scope}
    (next : ∀ shape, scope.shape? instr = some shape → Triple x E closed P (f shape) Q) :
    Triple x E closed P (Gen.runtimeShape scope instr >>= f) Q := by
  obtain ⟨e, eq⟩ := runtimeShape_eq (γ := γ) (φ := φ) scope instr
  rw [eq]
  cases declared : scope.shape? instr with
  | some shape =>
    exact next shape declared
  | none =>
    refine fails fun s a t run => ?_
    cases run

/-- A part of the generator stays at its instruction. -/
lemma atInstruction {g : Gen γ φ α} (h : Triple x E closed P g Q) :
    Triple x E closed (P.also fun s => s.ip = ip) g fun a => (Q a).also fun s => s.ip = ip where
  adds := h.adds
  knows allowed run alive known :=
    ⟨(h.adds allowed run).ip.trans known.1, h.knows allowed run alive known.2⟩
  uses allowed run alive known := h.uses allowed run alive known.2
  runs allowed run alive grows known := h.runs allowed run alive grows known.2

/-- A runtime call does what the ideal machine does. -/
lemma callRuntime (callsRuntime : x.scope.CallsRuntime) (serves : x.Serves ip instr)
    (fits : v.stack.length ≤ x.capacity)
    (comes : ∀ shape, x.scope.shape? instr = some shape →
      ∃ r, v.calling x.answer shape.consumed instr = some r ∧ R r ∧ ∀ v', r = .next v' →
      v'.stack.length ≤ x.capacity) :
    Triple x (x.Exits R) closed ((x.Stands [] v).also fun s => s.ip = ip)
      (Gen.callRuntime x.scope instr) fun _ => x.Next R := by
  refine runtimeShape_bind fun shape declared => ?_
  obtain ⟨r, calls, result, fits'⟩ := comes shape declared
  obtain ⟨respects, perform, meaning, call⟩ := serves shape declared
  have enough : shape.consumed ≤ v.stack.length := by
    by_contra short
    rw [Ideal.calling, if_pos (Nat.not_le.1 short)] at calls
    cases calls
  obtain ⟨top, machine, length, statics, outcome⟩ := Ideal.calling_cases enough respects
  generalize after : ({ v with stack := top ++ v.stack.drop shape.consumed, machine } : Ideal) =
    v' at outcome
  have goes : v.calling x.answer shape.consumed instr = some (.next v') → R (.next v') ∧
      v'.stack.length ≤ x.capacity := by
    intro again
    obtain rfl := Option.some.inj (calls.symm.trans again)
    exact ⟨result, fits' v' rfl⟩
  have stops : ∀ fault, v.calling x.answer shape.consumed instr = some (.fault fault machine) →
      R (.fault fault machine) := by
    intro fault again
    obtain rfl := Option.some.inj (calls.symm.trans again)
    exact result
  refine (atInstruction (flushTop fits)).bindClosing (fun run => (flushTop_keeps run).1) fun _ =>
    ofGet fun s₀ => ofGet fun s₁ => ?_
  by_cases many : intSpillSlots < (Gen.pendingInts s₀.pending).length ∨
      floatSpillSlots < (Gen.pendingFloats s₀.pending).length
  · rw [if_pos many]
    refine fails fun s a t run => ?_
    cases run
  · rw [if_neg many]
    obtain ⟨fewInts, fewFloats⟩ := not_or.1 many
    have taken : Triple x (x.Exits R) true (x.Flushed [] top v')
        (Gen.takeResults shape.produced.reverse) fun results => x.Flushed results [] v' :=
      takeResults _ (length.trans List.length_reverse.symm)
    have taken' : Triple x (x.Exits R) true (x.Reloading s₀.pending (Gen.pendingInts s₀.pending)
        (Gen.pendingFloats s₀.pending) top v') (Gen.takeResults shape.produced.reverse)
        fun results => x.Flushed results [] v' :=
      taken.pre (fun _ known => known.2) fun _ _ known holds => Reloading.flushed known.1 holds
    have tail : Triple x (x.Exits R) true (x.Reloading s₀.pending [] [] top v') _
      fun _ => x.Stands [] v' :=
      (loadInts (Nat.not_lt.1 fewInts)).bind fun _ => (loadFloats (Nat.not_lt.1 fewFloats)).bind
        fun _ =>
        taken'.bind fun _ => pushResults
    refine Triple.bind (((storeInts (Nat.not_lt.1 fewInts)).frame (fun _ => s₁.ip = ip)
      fun _ => id).pre (fun s known => ⟨known.1 ▸ known.2.2.1, congrArg GenState.pending known.2.1,
        known.2.2.2⟩) fun _ _ _ => id)
      fun _ => ((storeFloats (Nat.not_lt.1 fewInts) (Nat.not_lt.1 fewFloats)).frame
        (fun _ => s₁.ip = ip) fun _ => id).bind fun _ =>
      (emitCall callsRuntime meaning call enough length statics after.symm outcome
        (fun again => (goes again).2) stops).bind fun _ => ?_
    refine Triple.bind (Q := fun _ => (x.Reloading s₀.pending [] [] top v').given
        (v.calling x.answer shape.consumed instr = some (.next v')))
      (still (fun allowed run => ?_) (fun run _ known => ?_) fun run _ _ c holds => ?_) fun _ =>
        tail.given.post (fun _ _ => id) fun _ _ _ _ ⟨again, holds⟩ => ⟨v', (goes again).1, holds⟩
    all_goals cases run
    · exact ⟨rfl, .ofSame rfl id (.inl rfl) (fun opened => absurd (allowed rfl) opened) rfl⟩
    · exact known
    · exact holds

end Calling

end Triple

end StackMachine.Native
