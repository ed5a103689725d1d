import StackMachine.Proofs.Addressing
import StackMachine.Proofs.Native.Variables

/-!
# Array elements in compiled code

The indices of an element are folded into one, which is checked and turned into an address.  What
the code does with the words it finds behind the handle is followed as it is; that these words are
the extents and the length of an array is a matter of `Heap.IsArray`.

A value that is stored from a float register is written as a whole word, whatever the width of the
element.  `WholeWords` rules out the stores for which this is not the element's width.
-/

namespace StackMachine

/-- Folds the further indices of an element into the first, with the words that are left. -/
def Ideal.folded (extent : Nat → Word) : List Nat → Word → List Word → Option (Word × List Word)
  | [], index, stack => some (index, stack)
  | dim :: rest, index, next :: stack => folded extent rest (index * extent dim + next) stack
  | _ :: _, _, [] => none

lemma Ideal.foldIndices_eq {array : Word} {k : Word → Ideal → Option Result} (dims : List Nat) :
    ∀ (index : Word) (v : Ideal), foldIndices array k dims index v =
      (folded (v.machine.heap.arrayExtent array) dims index v.stack).bind fun r =>
        k r.1 (v.withStack r.2) := by
  induction dims with
  | nil => exact fun index v => rfl
  | cons dim dims ih =>
    intro index v
    unfold foldIndices popping
    cases stack : v.stack with
    | nil => rfl
    | cons next rest => exact ih _ _

/-- Only the extents that are used matter. -/
lemma Ideal.folded_congr {extent extent' : Nat → Word} (dims : List Nat) :
    (∀ dim ∈ dims, extent dim = extent' dim) → ∀ (index : Word) (stack : List Word),
      folded extent dims index stack = folded extent' dims index stack := by
  induction dims with
  | nil => exact fun _ _ _ => rfl
  | cons dim dims ih =>
    intro same index stack
    cases stack with
    | nil => rfl
    | cons next rest =>
      rw [folded, folded, same dim List.mem_cons_self]
      exact ih (fun d mem => same d (List.mem_cons_of_mem _ mem)) _ _

/-- Indices can be folded if there are enough of them. -/
lemma Ideal.folded_of_le (extent : Nat → Word) (dims : List Nat) : ∀ (index : Word)
    (stack : List Word), dims.length ≤ stack.length →
      ∃ flat, folded extent dims index stack = some (flat, stack.drop dims.length) := by
  induction dims with
  | nil => exact fun index stack _ => ⟨index, rfl⟩
  | cons dim dims ih =>
    intro index stack enough
    cases stack with
    | nil => exact absurd enough (Nat.not_succ_le_zero _)
    | cons next stack => exact ih _ stack (Nat.le_of_succ_le_succ enough)

namespace Native

variable {γ φ : Type} [DecidableEq γ] [DecidableEq φ]

/-- No element that is narrower than a word is written from a float register. -/
def WholeWords (ops : Array (Operation γ φ)) : Prop :=
  ∀ n i a shift disp base disp' src, ops[n]? = some (.elementAddress i a shift disp) →
    ops[n + 1]? = some (.storeFloat base disp' src) → shift = 3

namespace Triple

open Gen Execution

variable {α : Type} {x : Execution γ φ} {E : ExitAssertion γ φ} {closed : Bool}
  {held : List (Pending γ φ × Word)} {v : Ideal} {array index flat value : Word}
  {rest left : List Word} {R : Ideal.Result → Prop} {i a address base : Lease γ} {kind : ElemKind}
  {dims : Nat} {w : Word} {u : Pending γ φ}

/-- The word that compiled code takes for an extent. -/
def extentAt (heap : Heap) (array : Word) (dim : Nat) : Word :=
  heap.read (array + Word.ofNat (8 * (dim + 2))) .word

lemma emitScale {dim : Nat} : Triple x E closed (x.Stands [(.reg i, index), (.reg a, array)] v)
      (Gen.emit (.scaleByExtent i.reg a.reg dim)) fun _ =>
        x.Stands [(.reg i, index * extentAt v.machine.heap array dim), (.reg a, array)] v := by
  refine emitInt rfl (fun _ => id) (fun s c _ holds => ⟨⟨_, holds⟩, ?_⟩) uses_nil
  have first : c.proc.int i.reg = index := Stands.value holds
  have second : c.proc.int a.reg = array := Stands.value (Stands.drop holds)
  rw [← first, ← second, ← Stands.machine_eq holds]
  rfl

/-- The further indices are folded into the first. -/
lemma foldIndices (dims : List Nat) : ∀ {index : Word} {v : Ideal},
    Ideal.folded (extentAt v.machine.heap array) dims index v.stack = some (flat, left) →
      Triple x E closed (x.Stands [(.reg i, index), (.reg a, array)] v)
        (Gen.foldIndices i.reg a.reg dims) fun _ => x.Stands [(.reg i, flat), (.reg a, array)]
        (v.withStack left) := by
  induction dims with
  | nil =>
    intro index v folded
    cases folded
    exact done rfl
  | cons dim dims ih =>
    intro index v folded
    cases stack : v.stack with
    | nil =>
      rw [stack] at folded
      cases folded
    | cons next rest =>
      rw [stack] at folded
      refine emitScale.bind fun _ => (popInt stack).bind
          fun u => Triple.bind ((emitBinary rfl (fun _ _ => rfl) rfl).pre
          (fun _ known => ⟨known.1, Stands.known_perm known.2 (.swap _ _ _)⟩) fun _ _ _ holds =>
        Stands.perm holds (.swap _ _ _)) fun _ => discard.swapHeld.bind fun _ => ih folded

/-- The cause of an index that is out of bounds is reported by a fault stub. -/
lemma boundsBranch (under : flat < 0 → R (v.fails (.indexUnderBounds flat)))
    (above : ¬flat < 0 → v.fetch array ≤ flat →
      R (v.fails (.indexOverBounds flat (v.fetch array)))) :
    Triple x (x.Exits R) true (x.Stands [(.reg i, flat), (.reg a, array)] v)
      (Gen.emit (.boundsBranch i.reg a.reg (.fault .under) (.fault .over))) fun _ =>
        (x.Stands [(.reg i, flat), (.reg a, array)] v).given (¬flat < 0 ∧
          ¬v.fetch array ≤ flat) := by
  refine emit rfl (fun _ => id) (fun s c _ _ holds => ?_) uses_nil
  have first : c.proc.int i.reg = flat := Stands.value holds
  have second : c.proc.int a.reg = array := Stands.value (Stands.drop holds)
  have run : x.perform (.boundsBranch i.reg a.reg (.fault .under) (.fault .over)) c.proc c.state =
      if flat < 0 then .ok (c.proc, .goto (.fault .under)) c.state
      else .ok (c.proc, Processor.Flow.when (decide (v.fetch array ≤ flat)) (.fault .over))
        c.state := by
    rw [← first, ← second, Ideal.fetch, ← Stands.machine_eq holds]
    unfold perform Processor.perform
    dsimp only
    split <;> rfl
  obtain ⟨pend, below, keys, stack, rep⟩ := holds
  by_cases isUnder : flat < 0
  · rw [if_pos isUnder] at run
    refine ⟨_, _, _, run, .inr ⟨_, rfl, rfl, .indexUnderBounds flat, rfl, ?_, rep.calm⟩⟩
    rw [rep.machine_eq]
    exact under isUnder
  · rw [if_neg isUnder] at run
    by_cases isOver : v.fetch array ≤ flat
    · rw [Processor.Flow.when, decide_eq_true isOver, if_pos rfl] at run
      refine ⟨_, _, _, run, .inr ⟨_, rfl, rfl, .indexOverBounds flat (v.fetch array), rfl, ?_,
        rep.calm⟩⟩
      rw [rep.machine_eq]
      exact above isUnder isOver
    · rw [Processor.Flow.when, decide_eq_false isOver, if_neg Bool.false_ne_true] at run
      exact ⟨_, _, _, run, .inl ⟨rfl, .inl rfl, ⟨isUnder, isOver⟩, pend, below, keys, stack, rep⟩⟩

/-- The address that compiled code computes for an element. -/
def addressOf (kind : ElemKind) (dims : Nat) (array flat : Word) : Word :=
  array + flat <<< Int64.ofNat (UInt8.ofNat kind.shift).toNat +
    (Int32.ofNat (8 * (dims + 2))).toInt64

lemma emitAddress : Triple x E closed (x.Stands [(.reg i, flat), (.reg a, array)] v)
      (Gen.emit (.elementAddress i.reg a.reg (UInt8.ofNat kind.shift)
      (Int32.ofNat (8 * (dims + 2)))))
      fun _ => x.Stands [(.reg i, addressOf kind dims array flat), (.reg a, array)] v := by
  refine emitInt rfl (fun _ => id) (fun s c _ holds => ⟨⟨_, holds⟩, ?_⟩) uses_nil
  have first : c.proc.int i.reg = flat := Stands.value holds
  have second : c.proc.int a.reg = array := Stands.value (Stands.drop holds)
  rw [← first, ← second]
  rfl

/-- The code so far ends with the operation that computes the address of an element of a kind. -/
def EndsWithAddress (kind : ElemKind) (s : GenState γ φ) : Prop :=
  ∃ n i a disp, s.ops.size = n + 1 ∧
    s.ops[n]? = some (.elementAddress i a (UInt8.ofNat kind.shift) disp)

/-- The code of an address, once the array is in a register. -/
def indexed (kind : ElemKind) (dims : Nat) (a : Lease γ) : Gen γ φ (Lease γ) := do
  let i ← Gen.popIntReg
  Gen.foldIndices i.reg a.reg (List.range' 1 (dims - 1))
  Gen.emit (.boundsBranch i.reg a.reg (.fault .under) (.fault .over))
  Gen.emit (.elementAddress i.reg a.reg (UInt8.ofNat kind.shift) (Int32.ofNat (8 * (dims + 2))))
  Gen.releaseInt a
  return i

/-- The indices on the stack come to a flat index, and leave words on the stack. -/
def Folds (v : Ideal) (dims : Nat) (array flat : Word) (left : List Word) : Prop :=
  ∃ index rest, v.stack = index :: rest ∧
    Ideal.folded (extentAt v.machine.heap array) (List.range' 1 (dims - 1)) index rest =
      some (flat, left)

/-- An index is in bounds. -/
def InBounds (v : Ideal) (array flat : Word) : Prop := ¬flat < 0 ∧ ¬v.fetch array ≤ flat

/-- The indices lead to an address, or to a fault. -/
lemma indexAddress (folds : Folds v dims array flat left)
    (under : flat < 0 → R ((v.withStack left).fails (.indexUnderBounds flat)))
    (above : ¬flat < 0 → v.fetch array ≤ flat →
      R ((v.withStack left).fails (.indexOverBounds flat (v.fetch array)))) :
    Triple x (x.Exits R) true (x.Stands [(.reg a, array)] v) (indexed kind dims a) fun address =>
      ((x.Stands [(.reg address, addressOf kind dims array flat)] (v.withStack left)).given
        (InBounds v array flat)).also (EndsWithAddress kind) := by
  obtain ⟨index, rest, top, folded⟩ := folds
  have address : Triple x (x.Exits R) true (x.Stands [(.reg a, array)] v) (indexed kind dims a)
      fun address => (x.Stands [(.reg address, addressOf kind dims array flat)]
        (v.withStack left)).given (InBounds v array flat) :=
    (popIntReg top).bind fun i => (foldIndices (v := v.withStack rest) _ folded).bind fun _ =>
      (boundsBranch (v := v.withStack left) under above).bind fun _ => emitAddress.given.bind
        fun _ =>
        releaseInt.swapHeld.given.bind fun _ => done rfl
  refine address.ensure (fun _ => EndsWithAddress kind) fun _ run => ?_
  obtain ⟨i, s₂, -, run⟩ := bind_eq_ok.1 run
  obtain ⟨_, s₃, -, run⟩ := bind_eq_ok.1 run
  cases run
  exact ⟨_, _, _, _, Array.size_push _, Array.getElem?_push_size⟩

/-- There is a stack on which indices lead somewhere, with words to spare. -/
lemma exists_folds (v : Ideal) (dims : Nat) (array : Word) :
    ∃ stack flat, Folds (v.withStack stack) dims array flat [0] := by
  let stack : List Word := List.replicate (dims - 1) 0 ++ [0]
  obtain ⟨flat, folded⟩ := Ideal.folded_of_le (extentAt v.machine.heap array)
    (List.range' 1 (dims - 1)) 0 stack (by simp [stack])
  refine ⟨0 :: stack, flat, 0, stack, rfl, folded.trans ?_⟩
  simp [stack]

/-- What an element access does: it stops at nil or at an index out of bounds, or it goes on with
the words that are left. -/
structure Accesses (R : Ideal.Result → Prop) (v : Ideal) (dims : Nat) (array : Word)
    (go : Word → List Word → Prop) : Prop where
  isNil : array = 0 → R (v.fails .nilDereference)
  folds : array ≠ 0 → ∃ flat left, Folds v dims array flat left ∧
    (flat < 0 → R ((v.withStack left).fails (.indexUnderBounds flat))) ∧
    (¬flat < 0 → v.fetch array ≤ flat →
      R ((v.withStack left).fails (.indexOverBounds flat (v.fetch array)))) ∧
    (InBounds v array flat → go flat left)

/-- The code that loads an element from its address. -/
def loadAt (kind : ElemKind) (address : Lease γ) : Gen γ φ Unit :=
  match kind with
  | .float => do
    let dst ← Gen.acquireFloat
    Gen.emit (.loadFloat dst.reg address.reg 0)
    Gen.releaseInt address
    Gen.pushPending (.floatReg dst)
  | kind => do
    Gen.emit (.load kind.access address.reg address.reg 0)
    Gen.pushPending (.reg address)

lemma loadAddress (result : R (.next (v.push (v.machine.heap.read w kind.access)))) :
    Triple x E closed (x.Stands [(.reg address, w)] v) (loadAt kind address) fun _ => x.Next R := by
  have here : w + (0 : Int32).toInt64 = w := Int64.add_zero _
  cases kind with
  | float =>
    refine acquireFloat.bind fun dst => loadFloatFrom.bind fun _ => releaseInt.swapHeld.bind
      fun _ => pushNext ?_
    rw [here]
    exact result
  | _ =>
    refine loadThrough.bind fun _ => pushNext ?_
    rw [here]
    exact result

section

variable (stack : v.stack = array :: rest)
include stack

/-- Code that follows the address of an element. -/
lemma elementAddress_bind {f : Lease γ → Gen γ φ Unit} {go : Word → List Word → Prop}
    (accesses : Accesses R (v.withStack rest) dims array go)
    (next : ∀ address flat left, go flat left →
      Triple x (x.Exits R) true
      ((x.Stands [(.reg address, addressOf kind dims array flat)] (v.withStack left)).also
      (EndsWithAddress kind)) (f address) fun _ => x.Next R)
    (anyway : ∀ address w, Triple x (x.Exits fun _ => True) true
      ((x.Stands [(.reg address, w)] (v.withStack [0])).also (EndsWithAddress kind)) (f address)
      fun _ => x.Next fun _ => True) :
    Triple x (x.Exits R) closed (x.Stands [] v) (Gen.elementAddress kind dims >>= f)
    fun _ => x.Next R := by
  unfold Gen.elementAddress
  rw [bind_assoc]
  obtain ⟨stack₀, flat₀, folds₀⟩ := exists_folds v dims array
  have dead : ∀ a, Triple x (x.Exits fun _ => True) true
      (x.Stands [(.reg a, array)] (v.withStack stack₀)) (indexed kind dims a >>= f)
      fun _ => x.Next fun _ => True := fun a =>
    (indexAddress folds₀ (fun _ => trivial) fun _ _ => trivial).bind fun address =>
      (anyway address _).pre (fun _ => id) fun _ _ _ holds => holds.2
  refine (popHandle stack accesses.isNil).bindClosing popHandle_closes fun a =>
    supposing (fun nonnil => ?_) (dead a) (fun _ => id) fun _ _ => id
  obtain ⟨flat, left, folds, under, above, goes⟩ := accesses.folds nonnil
  refine (indexAddress folds under above).bind fun address => ?_
  exact supposing (P := (x.Stands [(.reg address, addressOf kind dims array flat)]
    (v.withStack left)).also (EndsWithAddress kind)) (fun inBounds => next address flat left
      (goes inBounds)) (anyway address _) (fun _ => id) fun _ _ => id

lemma loadElement
    (accesses : Accesses R (v.withStack rest) dims array fun flat left =>
      R (.next ((v.withStack left).push
      (v.machine.heap.read (addressOf kind dims array flat) kind.access)))) :
    Triple x (x.Exits R) closed (x.Stands [] v) (Gen.loadElement kind dims) fun _ => x.Next R := by
  have split : Gen.loadElement (γ := γ) (φ := φ) kind dims = Gen.elementAddress kind dims >>=
    loadAt kind := by
    cases kind <;> rfl
  rw [split]
  exact elementAddress_bind stack accesses
    (fun address flat left result => (loadAddress result).forget) fun address w =>
      (loadAddress trivial).forget

/-- The outermost extent of an array is loaded. -/
lemma arraySize (isNil : array = 0 → R ((v.withStack rest).fails .nilDereference))
    (result : array ≠ 0 →
      R (.next ((v.withStack rest).push (v.fetch (array + (16 : Int32).toInt64))))) :
    Triple x (x.Exits R) closed (x.Stands [] v) Gen.arraySize fun _ => x.Next R :=
  (popHandle stack isNil).bind fun _ => assuming <| loadThrough.bind fun _ => pushNext result

end

/-! ### Stores -/

omit [DecidableEq γ] [DecidableEq φ] in
/-- A value that is taken from a float register was pending, so nothing is emitted. -/
lemma pop_ops {s t : GenState γ φ} (run : Gen.pop s = .ok u t) (isFloat : u.float? ≠ none) :
    t.ops = s.ops := by
  obtain ⟨o, s', run₁, run₂⟩ := bind_eq_ok.1 run
  obtain ⟨rfl, -, rfl⟩ | ⟨u', below, rfl, -, rfl⟩ := takePending_cases run₁
  · cases run₂
    exact absurd rfl isFloat
  · cases run₂
    rfl

/-- A value to be stored and the address of its element are held; a value in a float register was
taken without any code. -/
def Storing (x : Execution γ φ) (kind : ElemKind) (u : Pending γ φ) (value : Word) (base : Lease γ)
    (w : Word) (v : Ideal) : Assertion γ φ :=
  (x.Stands [(u, value), (.reg base, w)] v).also fun s => u.float? ≠ none → EndsWithAddress kind s

lemma popStored (top : v.stack = value :: rest) :
    Triple x E closed ((x.Stands [(.reg base, w)] v).also (EndsWithAddress kind)) Gen.pop
      fun u => Storing x kind u value base w (v.withStack rest) := by
  have popped : Triple x E closed ((x.Stands [(.reg base, w)] v).also (EndsWithAddress kind))
      Gen.pop fun u => x.Stands [(u, value), (.reg base, w)] (v.withStack rest) :=
    (pop top).forget
  refine popped.ensure (fun u s => u.float? ≠ none → EndsWithAddress kind s)
    fun known run isFloat => ?_
  obtain ⟨n, i, a, disp, size, last⟩ := known.1
  rw [← pop_ops run isFloat] at size last
  exact ⟨n, i, a, disp, size, last⟩

variable (whole : WholeWords x.ops)
include whole

lemma writeElement :
    Triple x E true (Storing x kind u value base w v) (Gen.writeMemory base.reg 0 kind.access u)
      fun _ => x.Stands [(u, value), (.reg base, w)]
        (v.modifyHeap fun h => h.write (w + (0 : Int32).toInt64) kind.access value) := by
  have known (s : GenState γ φ) (known : (Storing x kind u value base w v).known s) :
      (x.Stands [(u, value), (.reg base, w)] v).known s := known.2
  cases u with
  | floatReg lease =>
    by_cases isWord : kind.access = .word
    · rw [isWord]
      exact (emitStore rfl (fun _ _ => rfl) rfl).pre known fun _ _ _ => id
    · refine emit rfl known (fun s c grows known holds => absurd ?_ isWord) uses_nil
      obtain ⟨n, i, a, disp, size, last⟩ := known.1 nofun
      have address : x.ops[n]? = _ := grows.keeps n _
        (by rw [Array.getElem?_push, if_neg (by omega)]; exact last) (.inl rfl)
      have store : x.ops[n + 1]? = _ := size ▸ grows.fetch_push rfl
      have shift := whole n _ _ _ _ _ _ _ address store
      cases kind
      case int => rfl
      case float => rfl
      all_goals cases shift
  | _ => exact (emitStore rfl (fun _ _ => rfl) rfl).pre known fun _ _ _ => id

lemma storeAddress (stack : v.stack = value :: rest)
    (result : R (.next ((v.withStack rest).modifyHeap fun h => h.write w kind.access value))) :
    Triple x E true ((x.Stands [(.reg address, w)] v).also (EndsWithAddress kind)) (do
      let u ← Gen.pop
      Gen.writeMemory address.reg 0 kind.access u
      Gen.discard u
      Gen.releaseInt address) fun _ => x.Next R := by
  have here : w + (0 : Int32).toInt64 = w := Int64.add_zero _
  refine (popStored stack).bind fun u => (writeElement whole).bind fun _ => discard.bind fun _ =>
    releaseInt.toNext ?_
  rw [here]
  exact result

lemma storeElement (stack : v.stack = array :: rest)
    (accesses : Accesses R (v.withStack rest) dims array fun flat left => ∃ value below,
      left = value :: below ∧
      R (.next ((v.withStack below).modifyHeap fun h => h.write (addressOf kind dims array flat)
      kind.access value))) :
    Triple x (x.Exits R) closed (x.Stands [] v) (Gen.storeElement kind dims) fun _ => x.Next R := by
  refine elementAddress_bind stack accesses (fun address flat left stores => ?_) fun address w =>
    storeAddress whole rfl trivial
  obtain ⟨value, below, rfl, result⟩ := stores
  exact storeAddress whole rfl result

end Triple

end Native

end StackMachine
