import StackMachine.Proofs.Indexing
import StackMachine.Proofs.Memory
import StackMachine.Proofs.Native.Control
import StackMachine.Proofs.Native.Elements

/-!
# Stores to array elements in compiled code

A compiled store takes an array, the indices of an element and a value.  The value may be pending in
six forms or be in memory, and its form decides how it is written: a value in a float register is
written as a whole word, every other one at the width of the element (`storedWidth`).  The code
leads to the heap where just this store was made, and ends with the operation that makes it
(`Execution.StoreSite.exists_steps`).
-/

namespace StackMachine

/-! ### Registers of a pool -/

namespace RegisterPool

variable {ρ : Type}

/-- The registers of a pool, free or on loan. -/
def registers (p : RegisterPool ρ) :
    List ρ := p.primary ++ p.aux ++ p.live ++ p.primaryOrder ++ p.auxOrder

lemma registers_acquire_subset (p : RegisterPool ρ) : p.acquire.2.registers ⊆ p.registers := by
  unfold acquire
  intro r mem
  split at mem <;> simp_all only [registers, List.mem_append, List.mem_cons, List.not_mem_nil] <;>
    tauto

lemma registers_release_subset [DecidableEq ρ] (p : RegisterPool ρ) (lease : Lease ρ) :
    (p.release lease).registers ⊆ p.registers := by
  unfold release
  intro r mem
  dsimp only at mem
  split at mem
  · exact mem
  · split at mem
    · next inPrimary =>
      simp only [registers, List.mem_append, List.mem_cons, List.mem_filter] at mem ⊢
      rcases mem with ((((rfl | mem) | mem) | ⟨mem, -⟩) | mem) | mem <;> tauto
    · split at mem
      · next inAux =>
        simp only [registers, List.mem_append, List.mem_cons, List.mem_filter] at mem ⊢
        rcases mem with (((mem | rfl | mem) | ⟨mem, -⟩) | mem) | mem <;> tauto
      · simp only [registers, List.mem_append, List.mem_filter] at mem ⊢
        tauto

end RegisterPool

namespace Native

variable {α β γ φ : Type} [DecidableEq γ] [DecidableEq φ] {s t : GenState γ φ} {u : Pending γ φ}
  {h : Heap} {kind : ElemKind} {indices : List Word} {array pointer : Word}

/-! ### What parts of the generator take -/

namespace Gen

/-- A part of the generator takes a number of pending values, as far as there are any, and draws
registers from the pools only. -/
structure Takes (n : Nat) (g : Gen γ φ α) : Prop where
  pending : ∀ {s t a}, g s = .ok a t → t.pending = s.pending.drop n
  ints : ∀ {s t a}, g s = .ok a t → t.ints.registers ⊆ s.ints.registers
  floats : ∀ {s t a}, g s = .ok a t → t.floats.registers ⊆ s.floats.registers

namespace Takes

variable {n m : Nat} {g : Gen γ φ α}

section

omit [DecidableEq γ] [DecidableEq φ]

lemma pure (a : α) : Takes 0 (Pure.pure a : Gen γ φ α) := by
  constructor <;> intro s t a run <;> cases run
  · rfl
  · exact List.Subset.refl _
  · exact List.Subset.refl _

/-- A part that leaves the pending values and the pools alone. -/
lemma alter {f : GenState γ φ → GenState γ φ}
    (same : ∀ s, (f s).pending = s.pending ∧ (f s).ints = s.ints ∧ (f s).floats = s.floats) :
    Takes 0 (modify f : Gen γ φ PUnit) := by
  constructor <;> intro s t a run <;> cases run
  · exact (same s).1
  · rw [(same s).2.1]
    exact List.Subset.refl _
  · rw [(same s).2.2]
    exact List.Subset.refl _

lemma bind {f : α → Gen γ φ β} (first : Takes n g) (second : ∀ a, Takes m (f a)) :
    Takes (n + m) (g >>= f) := by
  constructor <;> intro s t b run <;> obtain ⟨a, u, run₁, run₂⟩ := bind_eq_ok.1 run
  · rw [(second a).pending run₂, first.pending run₁, List.drop_drop]
  · exact List.Subset.trans ((second a).ints run₂) (first.ints run₁)
  · exact List.Subset.trans ((second a).floats run₂) (first.floats run₁)

lemma emit (op : Operation γ φ) : Takes 0 (Gen.emit op) := alter fun _ => ⟨rfl, rfl, rfl⟩

lemma acquireInt : Takes 0 (Gen.acquireInt : Gen γ φ (Lease γ)) := by
  constructor <;> intro s t a run <;> cases run
  · rfl
  · exact s.ints.registers_acquire_subset
  · exact List.Subset.refl _

end

omit [DecidableEq φ] in
lemma releaseInt (lease : Lease γ) : Takes 0 (Gen.releaseInt lease : Gen γ φ Unit) := by
  constructor <;> intro s t a run <;> cases run
  · rfl
  · exact s.ints.registers_release_subset lease
  · exact List.Subset.refl _

omit [DecidableEq γ] in
lemma releaseFloat (lease : Lease φ) : Takes 0 (Gen.releaseFloat lease : Gen γ φ Unit) := by
  constructor <;> intro s t a run <;> cases run
  · rfl
  · exact List.Subset.refl _
  · exact s.floats.registers_release_subset lease

lemma discard (u : Pending γ φ) : Takes 0 (Gen.discard u) := by
  cases u with
  | reg lease => exact releaseInt lease
  | floatReg lease => exact releaseFloat lease
  | _ => exact pure ()

omit [DecidableEq γ] [DecidableEq φ] in
lemma takePending : Takes 1 (Gen.takePending : Gen γ φ (Option (Pending γ φ))) := by
  constructor <;> intro s t a run <;>
    obtain ⟨-, pending, rfl⟩ | ⟨u, below, -, pending, rfl⟩ := Triple.takePending_cases run
  · rw [pending]
    rfl
  · rw [pending]
    rfl
  all_goals exact List.Subset.refl _

omit [DecidableEq γ] [DecidableEq φ] in
lemma popMemory : Takes 0 (Gen.popMemory : Gen γ φ (Pending γ φ)) :=
  have popped : Takes 0 (Gen.poppedMemory : Gen γ φ Unit) := alter fun _ => ⟨rfl, rfl, rfl⟩
  acquireInt.bind fun _ => (emit _).bind fun _ => popped.bind fun _ => pure _

omit [DecidableEq γ] [DecidableEq φ] in
lemma pop : Takes 1 (Gen.pop : Gen γ φ (Pending γ φ)) := by
  refine takePending.bind (m := 0) fun o => ?_
  cases o with
  | none => exact popMemory
  | some u => exact pure u

omit [DecidableEq γ] in
lemma popInt : Takes 1 (Gen.popInt : Gen γ φ (Pending γ φ)) := by
  refine pop.bind (m := 0) fun u => ?_
  cases u with
  | floatReg lease =>
    exact acquireInt.bind fun _ => (emit _).bind fun _ => (releaseFloat lease).bind fun _ => pure _
  | _ => exact pure _

omit [DecidableEq γ] in
lemma toIntReg (u : Pending γ φ) : Takes 0 (Gen.toIntReg u) := by
  cases u with
  | reg lease => exact pure lease
  | floatReg lease =>
    exact acquireInt.bind fun _ => (emit _).bind fun _ => (releaseFloat lease).bind fun _ => pure _
  | _ => exact acquireInt.bind fun _ => (emit _).bind fun _ => pure _

omit [DecidableEq γ] in
lemma popIntReg : Takes 1 (Gen.popIntReg : Gen γ φ (Lease γ)) := popInt.bind toIntReg

omit [DecidableEq γ] in
lemma popHandle : Takes 1 (Gen.popHandle : Gen γ φ (Lease γ)) :=
  have closed : Takes 0 (Gen.closeReserve : Gen γ φ Unit) := alter fun _ => ⟨rfl, rfl, rfl⟩
  popIntReg.bind fun _ => (closed.bind fun _ => emit _).bind fun _ => pure _

lemma foldIndices (index array : γ) (dims : List Nat) :
    Takes dims.length (Gen.foldIndices index array dims : Gen γ φ Unit) := by
  induction dims with
  | nil => exact pure ()
  | cons dim dims ih =>
    have taken := (emit (.scaleByExtent index array dim)).bind fun _ => popInt.bind fun next =>
      (emit (.int .add index (srcOf next))).bind fun _ => (discard next).bind fun _ => ih
    rwa [Nat.zero_add, Nat.zero_add, Nat.zero_add, Nat.add_comm] at taken

/-- The address of an element takes the array and as many indices as there are dimensions. -/
lemma elementAddress (kind : ElemKind) {dims : Nat} (positive : 0 < dims) :
    Takes (dims + 1) (Gen.elementAddress kind dims : Gen γ φ (Lease γ)) := by
  have taken : Takes (1 + (1 + ((List.range' 1 (dims - 1)).length + (0 + (0 + (0 + 0))))))
      (Gen.elementAddress kind dims : Gen γ φ (Lease γ)) :=
    popHandle.bind fun array => popIntReg.bind fun _ => (foldIndices _ _ _).bind
      fun _ => (emit _).bind fun _ =>
      (emit _).bind fun _ => (releaseInt array).bind fun _ => pure _
  rw [List.length_range'] at taken
  have count : 1 + (1 + (dims - 1 + (0 + (0 + (0 + 0))))) = dims + 1 := by omega
  rwa [count] at taken

end Takes

end Gen

/-! ### How a value is written -/

/-- The width at which a value is stored to an element, by the form in which it is pending, if it
is: a value in a float register is stored as a whole word. -/
def storedWidth (width : Width) : Option (Pending γ φ) → Width
  | some (.floatReg _) => .word
  | _ => width

/-- The operation that stores a value. -/
def storeOp (width : Width) (base : γ) : Pending γ φ → Operation γ φ
  | .floatReg lease => .storeFloat base 0 lease.reg
  | u => .store width base 0 (Gen.srcOf u)

omit [DecidableEq γ] [DecidableEq φ] in
lemma writeMemory_eq (width : Width) (base : γ) (u : Pending γ φ) :
    Gen.writeMemory base 0 width u = Gen.emit (storeOp width base u) := by
  cases u <;> rfl

omit [DecidableEq γ] [DecidableEq φ] in
/-- A value that is taken from memory is stored as one in an integer register. -/
lemma storedWidth_of_pop (run : Gen.pop s = .ok u t) (width : Width) :
    storedWidth width (some u) = storedWidth width s.pending.head? := by
  obtain ⟨o, s', run₁, run₂⟩ := Gen.bind_eq_ok.1 run
  obtain ⟨rfl, pending, -⟩ | ⟨u', below, rfl, pending, -⟩ := Triple.takePending_cases run₁ <;>
    cases run₂ <;>
    rw [pending] <;> rfl

omit [DecidableEq γ] [DecidableEq φ] in
/-- The values that the generator has charge of are in registers of its pools. -/
lemma Owned.mem_registers {locals : Nat} {ints : RegisterPool γ} {floats : RegisterPool φ}
    {us : List (Pending γ φ)} (owned : Owned locals ints floats us) (mem : u ∈ us) :
    (∀ r, u.int? = some r → r ∈ ints.registers) ∧ ∀ r, u.float? = some r →
    r ∈ floats.registers := by
  constructor
  · intro r inReg
    have live : r ∈ ints.live := (owned.ints.live r).2 (List.mem_filterMap.2 ⟨u, mem, inReg⟩)
    simp [RegisterPool.registers, live]
  · intro r inReg
    have live : r ∈ floats.live := (owned.floats.live r).2 (List.mem_filterMap.2 ⟨u, mem, inReg⟩)
    simp [RegisterPool.registers, live]

/-- The pools draw from two lists of registers, and a store at the width of an element will be at
another width, because of the form of the value on top. -/
structure GenState.Prepares (s : GenState γ φ) (form : Option (Pending γ φ)) (width stored : Width)
    (ints : List γ) (floats : List φ) : Prop where
  stored : storedWidth width form = stored
  ints : s.ints.registers ⊆ ints
  floats : s.floats.registers ⊆ floats

/-- The code so far ends with a store at a width.  The pointer and a double to be stored are in
registers of two lists. -/
def EndsWithStore (width stored : Width) (ints : List γ) (floats : List φ) (s : GenState γ φ) :
    Prop :=
  ∃ (before : Array (Operation γ φ)) (base : γ) (u : Pending γ φ),
    s.ops = before.push (storeOp width base u) ∧
    storedWidth width (some u) = stored ∧ base ∈ ints ∧ ∀ r, u.float? = some r → r ∈ floats

omit [DecidableEq γ] [DecidableEq φ] in
lemma EndsWithStore.of_ops {width stored : Width} {ints : List γ} {floats : List φ}
    (same : t.ops = s.ops) (ends : EndsWithStore width stored ints floats s) :
    EndsWithStore width stored ints floats t := by
  rwa [EndsWithStore, same]

namespace Triple

open Gen Execution

variable {x : Execution γ φ} {E : ExitAssertion γ φ} {closed : Bool} {v : Ideal}
  {array flat value w : Word} {rest below : List Word} {R : Ideal.Result → Prop}
  {width stored : Width} {ints : List γ} {floats : List φ} {address : Lease γ}

/-- A part is followed under a fact that is known before it. -/
lemma whenKnown {fact : Prop} {E₀ : ExitAssertion γ φ} {P P₀ : Assertion γ φ} {g : Gen γ φ α}
    {Q Q₀ : α → Assertion γ φ} (known : ∀ s, P.known s → fact) (h : fact → Triple x E closed P g Q)
    (h₀ : Triple x E₀ closed P₀ g Q₀) : Triple x E closed P g Q where
  adds := h₀.adds
  knows allowed run alive knows := (h (known _ knows)).knows allowed run alive knows
  uses allowed run alive knows := (h (known _ knows)).uses allowed run alive knows
  runs allowed run alive grows knows := (h (known _ knows)).runs allowed run alive grows knows

/-- The value on top is taken, and its form is kept in mind. -/
lemma popPrepared (top : v.stack = value :: rest) : Triple x E closed
      ((x.Stands [(.reg address, w)] v).also fun s => s.Prepares s.pending.head? width stored ints
      floats) Gen.pop fun u => (x.Stands [(u, value), (.reg address, w)] (v.withStack rest)).also
      fun s =>
        s.Prepares (some u) width stored ints floats := by
  have popped : Triple x E closed
      ((x.Stands [(.reg address, w)] v).also fun s => s.Prepares s.pending.head? width stored ints
      floats) Gen.pop fun u => x.Stands [(u, value), (.reg address, w)] (v.withStack rest) :=
    (pop top).forget
  refine popped.ensure _ fun known run => ⟨?_, ?_, ?_⟩
  · rw [storedWidth_of_pop run]
    exact known.1.stored
  · exact List.Subset.trans (Takes.pop.ints run) known.1.ints
  · exact List.Subset.trans (Takes.pop.floats run) known.1.floats

lemma writePrepared {u : Pending γ φ} : Triple x E true
      ((x.Stands [(u, value), (.reg address, w)] v).also
      fun s => s.Prepares (some u) width stored ints floats) (Gen.writeMemory address.reg 0 width u)
      fun _ =>
        (x.Stands [(u, value), (.reg address, w)]
          (v.modifyHeap fun h => h.write w stored value)).also
            (EndsWithStore width stored ints floats) := by
  have here : w + (0 : Int32).toInt64 = w := Int64.add_zero _
  have store {stored : Width} (same : storedWidth width (some u) = stored) :
      Triple x E true (x.Stands [(u, value), (.reg address, w)] v)
        (Gen.writeMemory address.reg 0 width u) fun _ =>
        x.Stands [(u, value), (.reg address, w)]
          (v.modifyHeap fun h => h.write w stored value) := by
    have written : Triple x E true (x.Stands [(u, value), (.reg address, w)] v)
        (Gen.writeMemory address.reg 0 width u) fun _ => x.Stands [(u, value), (.reg address, w)]
          (v.modifyHeap fun h => h.write (w + (0 : Int32).toInt64) (storedWidth width (some u))
            value) := by
      cases u <;> exact emitStore rfl (fun _ _ => rfl) rfl
    rwa [here, same] at written
  have written : Triple x E true
      ((x.Stands [(u, value), (.reg address, w)] v).also
      fun s => s.Prepares (some u) width stored ints floats) (Gen.writeMemory address.reg 0 width u)
      fun _ =>
        x.Stands [(u, value), (.reg address, w)] (v.modifyHeap fun h => h.write w stored value) :=
    whenKnown (fun _ known => known.1.stored) (fun same => (store same).forget) (store rfl)
  refine written.ensure _ fun {s t a} known run => ?_
  rw [writeMemory_eq] at run
  cases run
  have owned : Owned x.locals s.ints s.floats (u :: .reg address :: s.pending) := known.2
  have pointer : address.reg ∈ s.ints.registers :=
    (owned.mem_registers (u := .reg address) (by simp)).1 _ rfl
  exact ⟨s.ops, address.reg, u, rfl, known.1.stored, known.1.ints pointer,
    fun r inReg => known.1.floats ((owned.mem_registers List.mem_cons_self).2 r inReg)⟩

lemma storeTop (top : v.stack = value :: rest)
    (result : R (.next ((v.withStack rest).modifyHeap fun h => h.write w stored value))) :
    Triple x E true
      ((x.Stands [(.reg address, w)] v).also fun s => s.Prepares s.pending.head? width stored ints
        floats) (do
        let u ← Gen.pop
        Gen.writeMemory address.reg 0 width u
        Gen.discard u
        Gen.releaseInt address) fun _ => (x.Next R).also (EndsWithStore width stored ints
          floats) := by
  refine (popPrepared top).bind fun u => writePrepared.bind fun _ => ?_
  exact (discard.frame _ fun run => .of_ops (discard_ops run)).bind fun _ =>
    (releaseInt.toNext result).frame _ fun run => .of_ops (by cases run; rfl)

/-- An element is stored.  Its array is not nil and its index is in bounds, so no check fails. -/
lemma storeElement_of_inBounds (ints : List γ) (floats : List φ) {kind : ElemKind} {dims : Nat}
    (positive : 0 < dims) (stack : v.stack = array :: rest) (notNil : array ≠ 0)
    (folds : Folds (v.withStack rest) dims array flat (value :: below))
    (inBounds : InBounds (v.withStack rest) array flat)
    (result : R (.next ((v.withStack below).modifyHeap
      fun h => h.write (addressOf kind dims array flat) stored value))) :
    Triple x (x.Exits R) closed
      ((x.Stands [] v).also fun s => s.Prepares s.pending[dims + 1]? kind.access stored ints floats)
      (Gen.storeElement kind dims)
      fun _ => (x.Next R).also (EndsWithStore kind.access stored ints floats) := by
  have address (a : Lease γ) : Triple x (x.Exits R) true
      ((x.Stands [(.reg a, array)] (v.withStack rest)).given (array ≠ 0)) (indexed kind dims a)
      fun address =>
        x.Stands [(.reg address, addressOf kind dims array flat)] (v.withStack (value :: below)) :=
    (indexAddress folds (fun under => absurd under inBounds.1) fun _ above =>
      absurd above inBounds.2).mono (fun _ => id) (fun _ _ _ holds => holds.2) (fun _ _ known =>
        known.2) fun _ _ _ _ holds => holds.2
  have whole : Triple x (x.Exits R) closed
      ((x.Stands [] v).also fun s => s.Prepares s.pending[dims + 1]? kind.access stored ints floats)
      (Gen.elementAddress kind dims) fun address =>
        x.Stands [(.reg address, addressOf kind dims array flat)] (v.withStack (value :: below)) :=
    ((popHandle stack fun isNil => absurd isNil notNil).bindClosing popHandle_closes address).forget
  refine (whole.ensure (fun _ s => s.Prepares s.pending.head? kind.access stored ints floats)
    fun known run => ?_).bindClosing (fun run => ?_) fun address => storeTop rfl result
  · have takes : Takes (dims + 1) (Gen.elementAddress kind dims : Gen γ φ (Lease γ)) :=
      .elementAddress kind positive
    refine ⟨?_, List.Subset.trans (takes.ints run) known.1.ints,
      List.Subset.trans (takes.floats run) known.1.floats⟩
    rw [takes.pending run, List.head?_drop]
    exact known.1.stored
  · obtain ⟨a, s, handle, run⟩ := bind_eq_ok.1 run
    have isNone := popHandle_closes handle
    exact ((address a).adds (fun _ => isNone) run).closed isNone

end Triple

/-! ### Stores to elements of arrays -/

/-- An access that succeeds has a pointer to an element, and a store there writes as many bytes as
it is wide, as long as the block goes on so far. -/
lemma exists_start_of_element {extents : List Word}
    {place : Nat} {b : Block} (built : h.Built kind extents array place b) (nonempty : extents ≠ [])
    (same : indices.length = extents.length) (found : h.element kind array indices = .ok pointer) :
    ∃ start ∈ Heap.payloadBytes kind extents place, h.locate? pointer = some start ∧
      start.offset + kind.width ≤ 8 * b.payload.size ∧
      ∀ width value, start.offset + width.bytes ≤ 8 * b.payload.size →
        h.Writes (h.write pointer width value) start width.bytes value := by
  obtain ⟨n, lt, rfl⟩ := built.exists_of_element nonempty same found
  have start := built.locate?_element lt kind.width_pos
  have zero : h.elementPointer array kind n + Word.ofNat 0 = h.elementPointer array kind n :=
    Int64.add_zero _
  have inPayload := built.mem_payloadBytes lt ⟨0, kind.width_pos, start⟩
  have payload := built.payload_le
  have upTo : (n + 1) * kind.width ≤ ((Heap.elements extents).toNat + kind.reserve) * kind.width :=
    Nat.mul_le_mul_right _ (by omega)
  rw [Nat.add_mul, Nat.one_mul] at upTo
  rw [zero] at start
  refine ⟨_, inPayload, start, by dsimp only; omega, fun width value room => ?_⟩
  rw [Heap.write, start]
  exact Heap.writes_store value built.at_place room

lemma exists_perform_storeElement (method : Method) {below : List Word}
    {value : Word} {s : State} (nonempty : indices ≠ []) (notNil : array ≠ 0)
    (found : s.machine.heap.element kind array indices = .ok pointer)
    (holds : s.context.stack.Holds (array :: indices ++ value :: below)) :
    ∃ t, Interpreter.perform method (.storeElement kind indices.length) s = .ok () t ∧
      t.machine.heap = s.machine.heap.write pointer kind.access value := by
  have gives : Interpreter.Gives s (value :: below)
    (Interpreter.popElement kind indices.length s) _ :=
    Interpreter.gives_popElement nonempty notNil holds
  rw [found] at gives
  obtain ⟨s₁, element, machine₁, holds₁⟩ := gives
  obtain ⟨s₂, popped, machine₂, -⟩ := Exec.exists_pop holds₁
  refine ⟨{ s₂ with machine := { s₂.machine with
    heap := s₂.machine.heap.write pointer kind.access value } }, ?_, ?_⟩
  · rw [Interpreter.perform, Exec.bind_of_ok element, Exec.bind_of_ok popped]
    rfl
  · show s₂.machine.heap.write pointer kind.access value = _
    rw [machine₂, machine₁]

/-- The indices of an element are folded in compiled code as in the interpreter. -/
lemma folded_eq_flatIndex {dims : Nat} (isArray : h.IsArray array dims) (indices rest : List Word)
    (dim : Nat) (index : Word) (within : dim + indices.length ≤ dims) :
    Ideal.folded (Triple.extentAt h array) (List.range' dim indices.length) index
      (indices ++ rest) = some (h.flatIndex array dim index indices, rest) := by
  induction indices generalizing dim index with
  | nil => rfl
  | cons next indices ih =>
    rw [List.length_cons] at within ⊢
    have extent : Triple.extentAt h array dim = h.arrayExtent array dim :=
      isArray.read_extent (by omega)
    rw [List.range'_succ, List.cons_append, Ideal.folded, extent, Heap.flatIndex]
    exact ih (dim + 1) _ (by omega)

/-- What an access that succeeds has checked. -/
lemma of_element_eq_ok {index : Word}
    (found : h.element kind array (index :: indices) = .ok pointer) :
    ¬h.flatIndex array 1 index indices < 0 ∧
    ¬h.arrayLength array ≤ h.flatIndex array 1 index indices ∧
      pointer = h.elementPointer array kind (h.flatIndex array 1 index indices).toInt.toNat := by
  simp only [Heap.element, Heap.checkIndex] at found
  split at found
  · cases found
  · next notUnder =>
    split at found
    · cases found
    · next notOver => exact ⟨notUnder, notOver, (Except.ok.inj found).symm⟩

namespace Execution

/-- Nowhere does a jump lead to the next instruction. -/
lemma not_exits_next {x : Execution γ φ} {v : Ideal} {target : JumpTarget} {p : Processor γ φ}
    {s : State} :
    ¬x.Exits (· = .next v) target p s := by
  cases target with
  | fault kind => rintro ⟨_, -, result, -⟩; cases result
  | instruction i => rintro ⟨-, _, result, -⟩; cases result
  | exit => rintro (⟨_, result, -⟩ | ⟨_, result, -⟩) <;> cases result
  | teardown => exact id

/-- Code that stores to an element of an array has been compiled, and a configuration is about to
run it.  The array is on top of the operand stack, above as many indices as it has extents and the
value. -/
structure StoreSite (x : Execution γ φ) (kind : ElemKind) (extents indices : List Word)
    (array value : Word) (below : List Word) (s t : GenState γ φ) (c : Config γ φ) (v : Ideal) :
    Prop where
  compiled : Gen.storeElement kind extents.length s = .ok () t
  alive : t.Alive
  grows : t.Grows x.last
  owned : (x.Stands [] v).known s
  at_start : c.place = s.ops.size
  stands : (x.Stands [] v).holds s c
  stack : v.stack = array :: indices ++ value :: below
  nonempty : extents ≠ []
  same : indices.length = extents.length
  few : Heap.payloadWords extents.length < 2 ^ 28

namespace StoreSite

variable {x : Execution γ φ} {kind : ElemKind} {extents indices below : List Word}
  {array value pointer : Word} {s t : GenState γ φ} {c : Config γ φ} {v : Ideal} {place : Nat}
  {b : Block}

/-- The width at which the value is stored, by its form at the start. -/
def stored (_ : x.StoreSite kind extents indices array value below s t c v) : Width :=
  storedWidth kind.access s.pending[extents.length + 1]?

variable (site : x.StoreSite kind extents indices array value below s t c v)
include site

lemma indices_ne_nil : indices ≠ [] := by
  intro none
  have same := site.same
  rw [none] at same
  exact site.nonempty (List.eq_nil_of_length_eq_zero same.symm)

lemma exists_steps (built : v.machine.heap.Built kind extents array place b)
    (found : v.machine.heap.element kind array indices = .ok pointer) :
    EndsWithStore kind.access site.stored s.ints.registers s.floats.registers t ∧
      ∃ n c', x.Steps n c c' ∧ c'.place = t.ops.size ∧ c'.state.machine =
        { v.machine with heap := v.machine.heap.write pointer site.stored value } := by
  have isArray := built.isArray
  obtain ⟨index, indices, rfl⟩ : ∃ index indices', indices = index :: indices' :=
    List.exists_cons_of_ne_nil site.indices_ne_nil
  have count : extents.length = indices.length + 1 := site.same.symm
  obtain ⟨notUnder, notOver, rfl⟩ := of_element_eq_ok found
  let flat := v.machine.heap.flatIndex array 1 index indices
  have address : Triple.addressOf kind extents.length array flat =
      v.machine.heap.elementPointer array kind flat.toInt.toNat :=
    isArray.elementPointer_eq site.few kind (Int64.not_lt.1 notUnder)
  have folds : Triple.Folds (v.withStack (index :: indices ++ value :: below)) extents.length
      array flat (value :: below) := by
    refine ⟨index, indices ++ value :: below, rfl, ?_⟩
    rw [count, Nat.add_sub_cancel]
    exact folded_eq_flatIndex isArray indices _ 1 index (by omega)
  have inBounds : Triple.InBounds (v.withStack (index :: indices ++ value :: below)) array
    flat := by
    refine ⟨notUnder, ?_⟩
    rw [Ideal.fetch]
    show ¬v.machine.heap.read array .word ≤ flat
    rwa [isArray.read_length]
  let expected := (v.withStack below).modifyHeap fun h =>
    h.write (Triple.addressOf kind extents.length array flat) site.stored value
  have triple : Triple x (x.Exits (· = .next expected)) false _
    (Gen.storeElement kind extents.length) _ :=
    Triple.storeElement_of_inBounds s.ints.registers s.floats.registers (by omega) site.stack
      built.ne_nil folds inBounds rfl
  have prepared : s.Prepares s.pending[extents.length + 1]? kind.access site.stored s.ints.registers
      s.floats.registers := ⟨rfl, List.Subset.refl _, List.Subset.refl _⟩
  have unclosed {p : Prop} (closes : false = true) : p := absurd closes Bool.false_ne_true
  refine ⟨(triple.knows unclosed site.compiled site.alive ⟨prepared, site.owned⟩).1, ?_⟩
  rcases triple.runs unclosed site.compiled site.alive site.grows ⟨prepared, site.owned⟩ c
    site.at_start site.stands with
    ⟨n, c', steps, at_end, -, v', result, stands⟩ | ⟨-, n, target, p, σ, -, exits⟩
  · refine ⟨n, c', steps, at_end, ?_⟩
    rw [Stands.machine_eq stands, Ideal.Result.next.inj result, ← address]
    rfl
  · exact absurd exits not_exits_next

end StoreSite

end Execution

end Native

end StackMachine
