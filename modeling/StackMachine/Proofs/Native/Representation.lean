import Mathlib.Data.List.Nodup
import StackMachine.Proofs.Native.Execution

/-!
# What the generator's bookkeeping stands for

While a method is compiled, the top of its operand stack is kept as pending values, and a few more
values are held by the part of the generator at work.  `Represents` says what this bookkeeping means
for the processor and the state when the operations generated so far have been run: the registers on
loan are distinct and carry the values they stand for, the operand stack in memory below the pending
values is the stack of the ideal machine, the frame slots are its locals, and the room that is
recorded as covered is there.

Each lemma says how one move of the generator or of the processor carries this from one side to the
other.
-/

namespace StackMachine

/-! ### Register pools -/

namespace RegisterPool

variable {ρ : Type} {p : RegisterPool ρ} {regs : List ρ}

/-- Registers are those on loan.  They are distinct from each other and from the free ones, which
are distinct as well. -/
structure Lends (p : RegisterPool ρ) (regs : List ρ) : Prop where
  nodup : (regs ++ (p.primary ++ p.aux)).Nodup
  live : ∀ reg, reg ∈ p.live ↔ reg ∈ regs

/-- The order of the registers does not matter. -/
lemma Lends.perm {regs' : List ρ} (h : p.Lends regs) (same : regs.Perm regs') : p.Lends regs' where
  nodup := (same.append_right _).nodup_iff.1 h.nodup
  live reg := (h.live reg).trans same.mem_iff

lemma Lends.acquire (h : p.Lends regs) (alive : p.acquire.2.failed = false) :
    p.acquire.2.Lends (p.acquire.1.reg :: regs) := by
  have lent (reg r : ρ) : r ∈ p.live ++ [reg] ↔ r ∈ reg :: regs := by
    rw [List.mem_append, List.mem_singleton, List.mem_cons, h.live, or_comm]
  obtain ⟨nodup, -⟩ := h
  unfold RegisterPool.acquire at *
  split
  · next reg rest first =>
    rw [first] at nodup
    exact ⟨List.perm_middle.nodup_iff.1 nodup, lent reg⟩
  · next reg rest first second =>
    rw [first, second] at nodup
    simp only [first]
    exact ⟨List.perm_middle.nodup_iff.1 nodup, lent reg⟩
  · next first second =>
    rw [first, second] at alive
    cases alive

/-- A pool that does not fail lends no stand-in. -/
lemma isFallback_of_alive (alive : p.acquire.2.failed = false) :
    p.acquire.1.isFallback = false := by
  unfold RegisterPool.acquire at *
  split
  · rfl
  · rfl
  · next first second =>
    rw [first, second] at alive
    cases alive

lemma failed_acquire (alive : p.acquire.2.failed = false) : p.failed = false := by
  unfold RegisterPool.acquire at alive
  split at alive
  · exact alive
  · exact alive
  · cases alive

variable [DecidableEq ρ]

/-- A returned register is no longer on loan. -/
lemma Lends.release {lease : Lease ρ} (h : p.Lends (lease.reg :: regs))
    (genuine : lease.isFallback = false) : (p.release lease).Lends regs := by
  obtain ⟨fresh, rest⟩ := List.nodup_cons.1 h.nodup
  have returned (r : ρ) : r ∈ p.live.filter (· ≠ lease.reg) ↔ r ∈ regs := by
    rw [List.mem_filter, h.live, List.mem_cons, decide_eq_true_iff]
    refine ⟨fun ⟨lent, other⟩ => lent.resolve_left other, fun lent => ⟨.inr lent, ?_⟩⟩
    rintro rfl
    exact fresh (List.mem_append_left _ lent)
  unfold RegisterPool.release
  rw [if_neg (by rw [genuine]; exact Bool.false_ne_true)]
  dsimp only
  split
  · exact ⟨List.perm_middle.nodup_iff.2 h.nodup, returned⟩
  split
  · refine ⟨(List.Perm.nodup_iff ?_).1 h.nodup, returned⟩
    rw [← List.append_assoc, ← List.append_assoc]
    exact List.perm_middle.symm
  · exact ⟨rest, returned⟩

/-- Returning a register does not make a pool fail, nor mend it. -/
lemma failed_release (p : RegisterPool ρ) (lease : Lease ρ) :
    (p.release lease).failed = p.failed := by
  unfold RegisterPool.release
  dsimp only
  split
  · rfl
  split
  · rfl
  split <;> rfl

end RegisterPool

namespace Native

variable {γ φ : Type} [DecidableEq γ] [DecidableEq φ]

/-! ### Registers and slots of a processor -/

/-- A register keeps what was written to it last. -/
lemma Bank.value?_set {ρ α : Type} [DecidableEq ρ] (bank : Bank ρ α) (r r' : ρ) (a : α) :
    (bank.set r a).value? r' = if r = r' then some a else bank.value? r' := by
  induction bank with
  | nil => rfl
  | cons entry rest ih =>
    obtain ⟨q, old⟩ := entry
    unfold Bank.set
    by_cases same : q = r
    · subst same
      rw [if_pos rfl, Bank.value?, Bank.value?]
      split <;> rfl
    · rw [if_neg same, Bank.value?, Bank.value?, ih]
      by_cases other : q = r'
      · subst other
        rw [if_pos rfl, if_pos rfl, if_neg (Ne.symm same)]
      · rw [if_neg other, if_neg other]

namespace Processor

variable (p : Processor γ φ)

omit [DecidableEq φ] in
@[simp]
lemma int_setInt_self (r : γ) (w : Word) : (p.setInt r w).int r = w := by
  simp [int, setInt, Bank.value?_set]

omit [DecidableEq φ] in
lemma int_setInt_of_ne {r r' : γ} (other : r ≠ r') (w : Word) :
    (p.setInt r w).int r' = p.int r' := by
  simp [int, setInt, Bank.value?_set, other]

omit [DecidableEq γ] in
@[simp]
lemma float_setFloat_self (r : φ) (d : Double) : (p.setFloat r d).float r = d := by
  simp [float, setFloat, Bank.value?_set]

omit [DecidableEq γ] in
lemma float_setFloat_of_ne {r r' : φ} (other : r ≠ r') (d : Double) :
    (p.setFloat r d).float r' = p.float r' := by
  simp [float, setFloat, Bank.value?_set, other]

omit [DecidableEq γ] [DecidableEq φ] in
lemma slot_setSlot_self {i : Nat} (bound : i < p.slots.size) (w : Word) :
    (p.setSlot i w).slot i = w := by
  simp [slot, setSlot, Array.getD, bound]

omit [DecidableEq γ] [DecidableEq φ] in
lemma slot_setSlot_of_ne {i j : Nat} (other : i ≠ j) (w : Word) :
    (p.setSlot i w).slot j = p.slot j := by
  rw [slot, slot, setSlot, Array.getD_eq_getD_getElem?, Array.getD_eq_getD_getElem?,
    Array.getElem?_setIfInBounds_ne other]

end Processor

/-! ### Pending values -/

namespace Pending

/-- The integer register of a value. -/
def int? : Pending γ φ → Option γ
  | .reg lease => some lease.reg
  | _ => none

/-- The float register of a value. -/
def float? : Pending γ φ → Option φ
  | .floatReg lease => some lease.reg
  | _ => none

/-- Is a value in a register that is only a stand-in? -/
def isFallback : Pending γ φ → Bool
  | .reg lease => lease.isFallback
  | .floatReg lease => lease.isFallback
  | _ => false

omit [DecidableEq γ] [DecidableEq φ] in
/-- A value that is in no register is in no stand-in. -/
lemma isFallback_eq_false {u : Pending γ φ} (noInt : u.int? = none) (noFloat : u.float? = none) :
    u.isFallback = false := by
  cases u with
  | reg lease => cases noInt
  | floatReg lease => cases noFloat
  | _ => rfl

/-- The local that a value is read from. -/
def local? : Pending γ φ → Option Nat
  | .slot index | .floatSlot index => some index
  | _ => none

/-- The word that a value stands for. -/
def value (p : Processor γ φ) : Pending γ φ → Word
  | .imm w => w
  | .reg lease => p.int lease.reg
  | .slot index | .floatSlot index => p.slot (localSlot index)
  | .floatImm d => d.toWord
  | .floatReg lease => (p.float lease.reg).toWord

variable {p : Processor γ φ} {u : Pending γ φ}

/-- A value that is not in a register keeps its word when the register is written. -/
lemma value_setInt {r : γ} (other : u.int? ≠ some r) (w : Word) :
    u.value (p.setInt r w) = u.value p := by
  cases u with
  | reg lease =>
    have ne : r ≠ lease.reg := fun same => other (congrArg some same.symm)
    exact p.int_setInt_of_ne ne w
  | _ => rfl

/-- A value that is not in a float register keeps its word when the register is written. -/
lemma value_setFloat {r : φ} (other : u.float? ≠ some r) (d : Double) :
    u.value (p.setFloat r d) = u.value p := by
  cases u with
  | floatReg lease =>
    have ne : r ≠ lease.reg := fun same => other (congrArg some same.symm)
    exact congrArg Double.toWord (p.float_setFloat_of_ne ne d)
  | _ => rfl

/-- A value that is not read from a slot keeps its word when the slot is written. -/
lemma value_setSlot {i : Nat} (other : ∀ k, u.local? = some k → localSlot k ≠ i) (w : Word) :
    u.value (p.setSlot i w) = u.value p := by
  cases u with
  | slot k | floatSlot k => exact p.slot_setSlot_of_ne (other k rfl).symm w
  | _ => rfl

end Pending

/-! ### Ownership -/

/-- The generator has charge of values: the registers they are in are just those on loan, all
distinct, and the locals they are read from are in the frame. -/
structure Owned (locals : Nat) (ints : RegisterPool γ) (floats : RegisterPool φ)
    (values : List (Pending γ φ)) : Prop where
  ints : ints.Lends (values.filterMap Pending.int?)
  floats : floats.Lends (values.filterMap Pending.float?)
  genuine : ∀ u ∈ values, u.isFallback = false
  locals : ∀ u ∈ values, ∀ k, u.local? = some k → k < locals

namespace Owned

omit [DecidableEq γ] [DecidableEq φ]

variable {locals : Nat} {ints : RegisterPool γ} {floats : RegisterPool φ}
  {us us' : List (Pending γ φ)} {u : Pending γ φ} {lease : Lease φ}
  {vals held pend : List (Pending γ φ × Word)}

/-- The order of the values does not matter. -/
lemma perm (h : Owned locals ints floats us) (same : us.Perm us') :
    Owned locals ints floats us' where
  ints := h.ints.perm (same.filterMap _)
  floats := h.floats.perm (same.filterMap _)
  genuine u mem := h.genuine u (same.mem_iff.2 mem)
  locals u mem := h.locals u (same.mem_iff.2 mem)

/-- A value that is in no register is dropped. -/
lemma drop (h : Owned locals ints floats (u :: us)) (noInt : u.int? = none)
    (noFloat : u.float? = none) : Owned locals ints floats us where
  ints := List.filterMap_cons_none noInt ▸ h.ints
  floats := List.filterMap_cons_none noFloat ▸ h.floats
  genuine u mem := h.genuine u (List.mem_cons_of_mem _ mem)
  locals u mem := h.locals u (List.mem_cons_of_mem _ mem)

section

variable (h : Owned locals ints floats us)
include h

/-- A value that needs no register is added. -/
lemma add (noInt : u.int? = none) (noFloat : u.float? = none)
    (inFrame : ∀ k, u.local? = some k → k < locals) : Owned locals ints floats (u :: us) where
  ints := by
    rw [List.filterMap_cons_none noInt]
    exact h.ints
  floats := by
    rw [List.filterMap_cons_none noFloat]
    exact h.floats
  genuine := List.forall_mem_cons.2 ⟨Pending.isFallback_eq_false noInt noFloat, h.genuine⟩
  locals := List.forall_mem_cons.2 ⟨inFrame, h.locals⟩

lemma acquireInt (alive : ints.acquire.2.failed = false) :
    Owned locals ints.acquire.2 floats (.reg ints.acquire.1 :: us) where
  ints := h.ints.acquire alive
  floats := h.floats
  genuine := List.forall_mem_cons.2 ⟨RegisterPool.isFallback_of_alive alive, h.genuine⟩
  locals := List.forall_mem_cons.2 ⟨fun _ none => (nomatch none), h.locals⟩

lemma acquireFloat (alive : floats.acquire.2.failed = false) :
    Owned locals ints floats.acquire.2 (.floatReg floats.acquire.1 :: us) where
  ints := h.ints
  floats := h.floats.acquire alive
  genuine := List.forall_mem_cons.2 ⟨RegisterPool.isFallback_of_alive alive, h.genuine⟩
  locals := List.forall_mem_cons.2 ⟨fun _ none => (nomatch none), h.locals⟩

end

lemma releaseInt [DecidableEq γ] {lease : Lease γ}
    (h : Owned locals ints floats (.reg lease :: us)) :
    Owned locals (ints.release lease) floats us where
  ints := RegisterPool.Lends.release h.ints (h.genuine _ List.mem_cons_self)
  floats := h.floats
  genuine u mem := h.genuine u (List.mem_cons_of_mem _ mem)
  locals u mem := h.locals u (List.mem_cons_of_mem _ mem)

lemma releaseFloat [DecidableEq φ] (h : Owned locals ints floats (.floatReg lease :: us)) :
    Owned locals ints (floats.release lease) us where
  ints := h.ints
  floats := RegisterPool.Lends.release h.floats (h.genuine _ List.mem_cons_self)
  genuine u mem := h.genuine u (List.mem_cons_of_mem _ mem)
  locals u mem := h.locals u (List.mem_cons_of_mem _ mem)

/-- The other values are not in a register on loan. -/
lemma int?_fresh {lease : Lease γ} (h : Owned locals ints floats (.reg lease :: us))
    (keys : vals.map Prod.fst = us) :
    ∀ o ∈ vals, o.1.int? ≠ some lease.reg := by
  intro o mem same
  have fresh := (List.nodup_cons.1 h.ints.nodup).1
  refine fresh (List.mem_append_left _ (List.mem_filterMap.2 ⟨o.1, ?_, same⟩))
  exact keys ▸ List.mem_map_of_mem mem

/-- The other values are not in a float register on loan. -/
lemma float?_fresh (h : Owned locals ints floats (.floatReg lease :: us))
    (keys : vals.map Prod.fst = us) :
    ∀ o ∈ vals, o.1.float? ≠ some lease.reg := by
  intro o mem same
  have fresh := (List.nodup_cons.1 h.floats.nodup).1
  refine fresh (List.mem_append_left _ (List.mem_filterMap.2 ⟨o.1, ?_, same⟩))
  exact keys ▸ List.mem_map_of_mem mem

/-- The other values, those held and those pending, are not in a register on loan. -/
lemma int?_ne {lease : Lease γ}
    (h : Owned locals ints floats (.reg lease :: (held.map Prod.fst ++ us)))
    (keys : pend.map Prod.fst = us) : ∀ o ∈ held ++ pend, o.1.int? ≠ some lease.reg :=
  int?_fresh h (by rw [List.map_append, keys])

/-- The other values, those held and those pending, are not in a float register on loan. -/
lemma float?_ne (h : Owned locals ints floats (.floatReg lease :: (held.map Prod.fst ++ us)))
    (keys : pend.map Prod.fst = us) : ∀ o ∈ held ++ pend, o.1.float? ≠ some lease.reg :=
  float?_fresh h (by rw [List.map_append, keys])

end Owned

/-! ### The representation -/

namespace Execution

/-- The slots of the frame hold the entry arguments and the locals. -/
structure FrameHolds (x : Execution γ φ) (mem : Array Word) (machine : Machine)
    (p : Processor γ φ) : Prop where
  size_slots : p.slots.size = frameSlots x.locals
  size_mem : mem.size = x.locals + 1
  getD_mem : ∀ k < x.locals, mem.getD (k + 1) 0 = p.slot (localSlot k)
  receiver_slot : p.slot FrameSlot.receiver.index = mem.getD 0 0
  classMemory_slot : p.slot FrameSlot.classMemory.index = machine.classMemory x.scope.method.id.cls

/-- The context is at rest but for the frame on top of the callers' frames. -/
structure Calm (x : Execution γ φ) (s : State) : Prop where
  halt : s.context.halt = 0
  pending : s.context.pending = none
  capacity : s.context.stack.capacity = x.capacity
  framed : Ideal.Framed x.outer s

/-- The bookkeeping of the generator stands for a processor and a state: `owned` are the values it
has charge of, with their words, and `below` is the operand stack in memory. -/
structure Represents (x : Execution γ φ) (covered : Nat) (owned : List (Pending γ φ × Word))
    (below : List Word) (mem : Array Word) (machine : Machine) (p : Processor γ φ) (s : State) :
    Prop where
  values : ∀ o ∈ owned, o.1.value p = o.2
  stack : s.context.stack.Holds below
  room : below.length + covered ≤ x.capacity
  frame : x.FrameHolds mem machine p
  machine_eq : s.machine = machine
  calm : x.Calm s

namespace Represents

variable {x : Execution γ φ} {covered : Nat} {owned owned' : List (Pending γ φ × Word)}
  {below : List Word} {mem : Array Word} {machine : Machine} {p q : Processor γ φ} {s : State}
  {u : Pending γ φ} {w w' : Word} {i : Nat}

/-- The order of the values does not matter. -/
lemma perm (h : x.Represents covered owned below mem machine p s) (same : owned.Perm owned') :
    x.Represents covered owned' below mem machine p s :=
  { h with values := fun o mem => h.values o (same.mem_iff.2 mem) }

lemma value (h : x.Represents covered ((u, w) :: owned) below mem machine p s) :
    u.value p = w := h.values _ List.mem_cons_self

lemma drop {o : Pending γ φ × Word} (h : x.Represents covered (o :: owned) below mem machine p s) :
    x.Represents covered owned below mem machine p s :=
  { h with values := fun o mem => h.values o (List.mem_cons_of_mem _ mem) }

section

variable (h : x.Represents covered owned below mem machine p s)
include h

lemma add (value : u.value p = w) : x.Represents covered ((u, w) :: owned) below mem machine p s :=
  { h with values := List.forall_mem_cons.2 ⟨value, h.values⟩ }

/-- Another processor that keeps the words of the values and the slots. -/
lemma withProcessor (slots : q.slots = p.slots) (values : ∀ o ∈ owned, o.1.value q = o.1.value p) :
    x.Represents covered owned below mem machine q s :=
  { h with
    values := fun o mem => (values o mem).trans (h.values o mem)
    frame :=
      { size_slots := by rw [slots]; exact h.frame.size_slots
        size_mem := h.frame.size_mem
        getD_mem := fun k bound => by
          rw [Processor.slot, slots]
          exact h.frame.getD_mem k bound
        receiver_slot := by
          rw [Processor.slot, slots]
          exact h.frame.receiver_slot
        classMemory_slot := by
          rw [Processor.slot, slots]
          exact h.frame.classMemory_slot } }

/-- A register is written that no other value is in. -/
lemma setInt {lease : Lease γ} (fresh : ∀ o ∈ owned, o.1.int? ≠ some lease.reg) (w : Word) :
    x.Represents covered ((.reg lease, w) :: owned) below mem machine (p.setInt lease.reg w) s :=
  (h.withProcessor (q := p.setInt lease.reg w) rfl fun o mem =>
    Pending.value_setInt (fresh o mem) w).add (p.int_setInt_self lease.reg w)

/-- A float register is written that no other value is in. -/
lemma setFloat {lease : Lease φ} (fresh : ∀ o ∈ owned, o.1.float? ≠ some lease.reg) (d : Double) :
    x.Represents covered ((.floatReg lease, d.toWord) :: owned) below mem machine
      (p.setFloat lease.reg d) s :=
  (h.withProcessor (q := p.setFloat lease.reg d) rfl fun o mem =>
    Pending.value_setFloat (fresh o mem) d).add (congrArg Double.toWord
      (p.float_setFloat_self lease.reg d))

/-- The operands of a comparison are recorded. -/
lemma setCompared (compared : Word × Word) :
    x.Represents covered owned below mem machine { p with compared } s :=
  h.withProcessor rfl fun o _ => by
    obtain ⟨u, w⟩ := o
    cases u <;> rfl

end

/-- A word leaves the stack in memory. -/
lemma popBelow (h : x.Represents covered owned (w :: below) mem machine p s) :
    x.Represents (covered + 1) owned below mem machine p
      { s with context := { s.context with stack := s.context.stack.dropUnchecked } } :=
  { h with
    stack := h.stack.dropUnchecked
    room := by
      have room := h.room
      rw [List.length_cons] at room
      omega
    calm := ⟨h.calm.halt, h.calm.pending, h.calm.capacity, h.calm.framed⟩ }

/-- A word is written to the stack in memory. -/
lemma pushBelow (h : x.Represents (covered + 1) owned below mem machine p s) (w : Word) :
    x.Represents covered owned (w :: below) mem machine p
      { s with context := { s.context with stack := s.context.stack.pushUnchecked w } } :=
  { h with
    stack := h.stack.pushUnchecked (by rw [h.calm.capacity]; have := h.room; omega) w
    room := by
      have room := h.room
      rw [List.length_cons]
      omega
    calm := ⟨h.calm.halt, h.calm.pending, h.calm.capacity, h.calm.framed⟩ }

variable (h : x.Represents covered owned below mem machine p s)
include h

/-- Other room may be recorded, as long as it is there. -/
lemma cover {covered' : Nat} (room : below.length + covered' ≤ x.capacity) :
    x.Represents covered' owned below mem machine p s :=
  { h with room }

/-- The heap changes on both sides. -/
lemma modifyHeap (f : Heap → Heap) :
    x.Represents covered owned below mem { machine with heap := f machine.heap } p
        { s with machine := { s.machine with heap := f s.machine.heap } } :=
  { h with
    frame := { h.frame with }
    machine_eq := by rw [h.machine_eq]
    calm := ⟨h.calm.halt, h.calm.pending, h.calm.capacity, h.calm.framed⟩ }

/-- A slot is written from which no value is read. -/
lemma setSlot {mem' : Array Word} (fresh : ∀ o ∈ owned, ∀ k, o.1.local? = some k → localSlot k ≠ i)
    (frame : x.FrameHolds mem' machine (p.setSlot i w)) :
    x.Represents covered owned below mem' machine (p.setSlot i w) s :=
  { h with
    values := fun o mem => (Pending.value_setSlot (fresh o mem) w).trans (h.values o mem)
    frame }

/-- A local is written that no value is read from. -/
lemma setLocal {k : Nat} (bound : k < x.locals) (fresh : ∀ o ∈ owned, o.1.local? ≠ some k)
    (w : Word) :
    x.Represents covered owned below (mem.setIfInBounds (k + 1) w) machine
      (p.setSlot (localSlot k) w) s := by
  have size := h.frame.size_slots
  have inSlots : localSlot k < p.slots.size := by
    rw [size]
    exact Nat.add_lt_add_left bound _
  refine h.setSlot (fun o mem j same => ?_) ⟨?_, ?_, ?_, ?_, ?_⟩
  · intro clash
    exact fresh o mem (by rw [same, Nat.add_left_cancel clash])
  · simpa [Processor.setSlot] using size
  · simpa using h.frame.size_mem
  · intro j inFrame
    by_cases same : k = j
    · subst same
      rw [Processor.slot_setSlot_self _ inSlots, Array.getD_eq_getD_getElem?,
        Array.getElem?_setIfInBounds_self_of_lt (by rw [h.frame.size_mem]; omega)]
      rfl
    · have other : localSlot k ≠ localSlot j := fun eq => same (Nat.add_left_cancel eq)
      rw [Processor.slot_setSlot_of_ne _ other, ← h.frame.getD_mem j inFrame,
        Array.getD_eq_getD_getElem?, Array.getD_eq_getD_getElem?,
        Array.getElem?_setIfInBounds_ne (by omega)]
  · have other : localSlot k ≠ FrameSlot.receiver.index := by
      have : FrameSlot.receiver.index < localsBase := by decide
      unfold localSlot
      omega
    rw [Processor.slot_setSlot_of_ne _ other, h.frame.receiver_slot, Array.getD_eq_getD_getElem?,
      Array.getD_eq_getD_getElem?, Array.getElem?_setIfInBounds_ne (by omega)]
  · have other : localSlot k ≠ FrameSlot.classMemory.index := by
      have : FrameSlot.classMemory.index < localsBase := by decide
      unfold localSlot
      omega
    rw [Processor.slot_setSlot_of_ne _ other, h.frame.classMemory_slot]

/-- A slot that keeps a register across a runtime call is written. -/
lemma setSpill (low : intSpillBase ≤ i) (high : i < localsBase) (w : Word) :
    x.Represents covered owned below mem machine (p.setSlot i w) s := by
  refine h.setSlot (fun o mem k _ => ?_) ⟨?_, h.frame.size_mem, ?_, ?_, ?_⟩
  · unfold localSlot
    omega
  · simpa [Processor.setSlot] using h.frame.size_slots
  · intro k inFrame
    rw [Processor.slot_setSlot_of_ne _ (by unfold localSlot; omega), h.frame.getD_mem k inFrame]
  · have : FrameSlot.receiver.index < intSpillBase := by decide
    rw [Processor.slot_setSlot_of_ne _ (by omega), h.frame.receiver_slot]
  · have : FrameSlot.classMemory.index < intSpillBase := by decide
    rw [Processor.slot_setSlot_of_ne _ (by omega), h.frame.classMemory_slot]

end Represents

end Execution

end Native

end StackMachine
