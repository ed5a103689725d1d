import StackMachine.Proofs.Locals
import StackMachine.Proofs.Native.Control
import StackMachine.Proofs.Native.Elements
import StackMachine.Proofs.Native.RuntimeCalls

/-!
# Compiled instructions

The operations of an instruction do on the processor what the instruction does on the ideal machine
(`Triple.instruction`).  This needs memory accesses for which the code has the right addresses
(`Instruction.Regular`): byte offsets are 32 bits wide, and the indices of an element and the place
of the first element are worked out from the number of dimensions that the instruction names.
-/

namespace StackMachine

/-! ### Regular accesses -/

/-- The word of memory that an action starts at, and how many words it accesses. -/
def Action.field? : Action → Option (Word × Nat)
  | .loadField slot _ | .storeField slot _ => some (slot, 1)
  | .loadPairField slot | .storePairField slot => some (slot, 2)
  | _ => none

/-- The number of dimensions that an element access names. -/
def Action.dims? : Action → Option Nat
  | .loadElement _ dims | .storeElement _ dims => some dims
  | _ => none

/-- The memory that an instruction accesses through the word on top of the stack is laid out as it
names it: a field is at most 2 GiB into its block, an element is accessed with the dimensions of its
array, and the size that is asked for is that of an array. -/
structure Instruction.Regular (instr : Instruction) (top : Option Word) (heap : Heap) : Prop where
  field : ∀ slot words, instr.action.field? = some (slot, words) → ∀ handle ∈ top, handle ≠ 0 →
    (max slot 0).toInt + words ≤ 2 ^ 28
  element : ∀ dims, instr.action.dims? = some dims → ∀ array ∈ top, array ≠ 0 →
    heap.IsArray array dims ∧ Heap.payloadWords dims < 2 ^ 28
  size : instr.action = .arraySize → ∀ array ∈ top, array ≠ 0 → ∃ dims, 0 < dims ∧
    heap.IsArray array dims

namespace Ideal

/-! ### What the ideal machine needs on its stack -/

variable {v : Ideal} {k : Word → Ideal → Option Result} {r : Result}

/-- A word is taken from a stack that has one. -/
lemma exists_of_popping (comes : v.popping k = some r) :
    ∃ w rest, v.stack = w :: rest ∧ k w (v.withStack rest) = some r := by
  unfold popping at comes
  split at comes
  · next w rest stack => exact ⟨w, rest, stack, comes⟩
  · cases comes

/-- Two words are taken from a stack that has them. -/
lemma exists_of_popping_popping {k : Word → Word → Ideal → Option Result}
    (comes : (v.popping fun right v => v.popping fun left v => k left right v) = some r) :
    ∃ left right rest, v.stack = right :: left :: rest ∧
    k left right (v.withStack rest) = some r := by
  obtain ⟨right, rest', stack, comes⟩ := exists_of_popping comes
  obtain ⟨left, rest, stack', comes⟩ := exists_of_popping comes
  obtain rfl : rest' = left :: rest := stack'
  exact ⟨left, right, rest, stack, comes⟩

lemma exists_of_poppingHandle (comes : v.poppingHandle k = some r) :
    ∃ w rest, v.stack = w :: rest ∧ (w = 0 → r = (v.withStack rest).fails .nilDereference) ∧
      (w ≠ 0 → k w (v.withStack rest) = some r) := by
  obtain ⟨w, rest, stack, comes⟩ := exists_of_popping comes
  refine ⟨w, rest, stack, fun isNil => ?_, fun nonnil => ?_⟩
  · rw [if_pos isNil] at comes
    exact (Option.some.inj comes).symm
  · rwa [if_neg nonnil] at comes

/-- A stored word is on top of the stack. -/
lemma exists_of_storing {keep : Bool} (comes : v.storing keep k = some r) :
    ∃ w rest, v.stack = w :: rest ∧ k w (if keep then v else v.withStack rest) = some r :=
  exists_of_popping comes

/-- An element access takes an array from the stack. -/
lemma exists_of_poppingElement {kind : ElemKind} {dims : Nat}
    (comes : v.poppingElement kind dims k = some r) : ∃ array rest, v.stack = array :: rest :=
  let ⟨array, rest, stack, _⟩ := exists_of_poppingHandle comes
  ⟨array, rest, stack⟩

lemma jump_eq {length index : Nat} {target : Word} (known : Word.toIndex? target = some index)
    (inCode : index < length) : v.jump length target = .goto index v := by
  rw [jump, known]
  exact if_pos inCode

end Ideal

namespace Native

variable {γ φ : Type} [DecidableEq γ] [DecidableEq φ]

/-- What an instruction comes to on the ideal machine, by itself or with the jump after it. -/
def Execution.Leads (x : Execution γ φ) (instr : Instruction) (next : Option Instruction)
    (v : Ideal) : Bool → Ideal.Result → Prop
  | false, r => Ideal.step x.scope x.answer instr v = some r
  | true, r => ∃ after v', next = some after ∧ v'.stack.length ≤ v.stack.length ∧
    Ideal.step x.scope x.answer instr v = some (.next v') ∧
    Ideal.step x.scope x.answer after v' = some r

/-- The jump that is compiled with a comparison jumps on its truth value. -/
lemma Gen.fusedJump?_eq_some {next : Option Instruction} {target : Word} {expected : Bool}
    (fused : fusedJump? next = some (target, expected)) :
    ∃ after, next = some after ∧ after.action = .jumpWhen target (Word.ofBool expected) := by
  unfold fusedJump? at fused
  split at fused
  · next target' value jumps =>
    obtain ⟨after, rfl, action⟩ := Option.map_eq_some_iff.1 jumps
    split at fused
    · next isOne =>
      cases fused
      subst isOne
      exact ⟨after, rfl, action⟩
    · split at fused
      · next isZero =>
        cases fused
        subst isZero
        exact ⟨after, rfl, action⟩
      · cases fused
  · cases fused

namespace Triple

open Gen Execution

variable {x : Execution γ φ} {v : Ideal} {instr : Instruction} {next : Option Instruction}
  {r : Ideal.Result} {R : Ideal.Result → Prop} {array : Word} {rest : List Word} {slot w : Word}
  {P : Assertion γ φ}

/-! ### Memory accesses of the ideal machine -/

lemma fieldPointer {words : Nat} (few : (max slot 0).toInt + words ≤ 2 ^ 28)
    (some : 0 < words) : w + (fieldDisp slot 0).toInt64 = w + 8 * max slot 0 := by
  rw [toInt64_fieldDisp (Int64.le_refl 0) (by simp only [Int64.toInt_zero]; omega)]
  simp

lemma secondPointer (few : (max slot 0).toInt + (2 : Nat) ≤ 2 ^ 28) :
    w + (fieldDisp slot 1).toInt64 = w + 8 * max slot 0 + 8 := by
  have one : (1 : Word).toInt = 1 := rfl
  rw [toInt64_fieldDisp (by decide) (by omega), Int64.add_assoc]
  rfl

/-- An element access of the ideal machine, as compiled code goes about it. -/
lemma accesses_of {kind : ElemKind} {dims : Nat} {k : Word → Ideal → Option Ideal.Result}
    {go : Word → List Word → Prop} (comes : v.poppingElement kind dims k = some r)
    (stack : v.stack = array :: rest)
    (regular : array ≠ 0 → v.machine.heap.IsArray array dims ∧ Heap.payloadWords dims < 2 ^ 28)
    (leads : R r)
    (goes : ∀ flat left, k (addressOf kind dims array flat) (v.withStack left) = some r →
      go flat left) :
    Accesses R (v.withStack rest) dims array go := by
  obtain ⟨array', rest', stack', isNil, further⟩ := Ideal.exists_of_poppingHandle comes
  obtain ⟨rfl, rfl⟩ := List.cons_eq_cons.1 (stack'.symm.trans stack)
  refine ⟨fun zero => isNil zero ▸ leads, fun nonnil => ?_⟩
  obtain ⟨isArray, few⟩ := regular nonnil
  obtain ⟨index, rest, indexed, comes⟩ := Ideal.exists_of_popping (further nonnil)
  rw [Ideal.foldIndices_eq] at comes
  obtain ⟨⟨flat, left⟩, folded, comes⟩ := Option.bind_eq_some_iff.1 comes
  have extents : ∀ dim ∈ List.range' 1 (dims - 1),
      extentAt v.machine.heap array' dim = v.machine.heap.arrayExtent array' dim := by
    intro dim mem
    rw [List.mem_range'_1] at mem
    exact isArray.read_extent (by omega)
  have length : v.fetch array' = v.machine.heap.arrayLength array' := isArray.read_length
  refine ⟨flat, left, ⟨index, rest, indexed, ?_⟩, ?_⟩
  · rw [← folded]
    exact Ideal.folded_congr _ extents _ _
  · have checks : Ideal.checked array' kind k flat (v.withStack left) = some r := comes
    have sameHeap : (v.withStack left).machine = v.machine := rfl
    rw [Ideal.checked, sameHeap, Heap.checkIndex] at checks
    refine ⟨fun under => ?_, fun notUnder above => ?_, fun inBounds => goes flat left ?_⟩
    · rw [if_pos under] at checks
      cases checks
      exact leads
    · have above' : v.machine.heap.arrayLength array' ≤ flat := length ▸ above
      rw [if_neg notUnder, if_pos above'] at checks
      cases checks
      show R (.fault { cause := .indexOverBounds flat (v.fetch array') } v.machine)
      rw [length]
      exact leads
    · obtain ⟨notUnder, notOver⟩ := inBounds
      have notOver' : ¬v.machine.heap.arrayLength array' ≤ flat := length ▸ notOver
      rw [if_neg notUnder, if_neg notOver'] at checks
      rw [addressOf, isArray.elementPointer_eq few kind (Int64.not_lt.1 notUnder)]
      exact checks

/-! ### Instructions -/

variable {ip : Nat} {closed : Bool}

/-- A part of the generator that compiles an instruction by itself. -/
lemma alone {g : Gen γ φ Unit} (h : Triple x (x.Exits (x.Leads instr next v false)) closed P g
      fun _ => x.Next (x.Leads instr next v false)) :
    Triple x (x.Exits fun r => ∃ fused, x.Leads instr next v fused r) closed P
      (g >>= fun _ => Pure.pure false) fun fused => x.Next (x.Leads instr next v fused) :=
  (h.exits fun _ _ _ exits => exits.imp fun _ leads => ⟨false, leads⟩).bind fun _ =>
    done rfl

omit [DecidableEq γ] [DecidableEq φ] in
/-- A comparison on the ideal machine, by itself and with the jump after it. -/
lemma compares_of {b : Bool} {left right : Word} (stack : v.stack = right :: left :: rest)
    (comes : Ideal.step x.scope x.answer instr v =
      some (.next ((v.withStack rest).push (Word.ofBool b)))) :
    Compares x.scope next (v.withStack rest) b (x.Leads instr next v) := by
  have lower : rest.length < v.stack.length := by
    rw [stack]
    exact Nat.lt_add_of_pos_right (by decide : 0 < 2)
  refine ⟨comes, fun target index fused known isLabel => ?_, fun target fused => ?_⟩
  · obtain ⟨after, rfl, action⟩ := Gen.fusedJump?_eq_some fused
    refine ⟨after, (v.withStack rest).push _, rfl, lower, comes, ?_⟩
    rw [Ideal.step, action]
    show (if Word.ofBool b = Word.ofBool b then some
      ((v.withStack rest).jump x.scope.method.code.size target) else _) = _
    rw [if_pos rfl, Ideal.jump_eq known isLabel.lt]
  · obtain ⟨after, rfl, action⟩ := Gen.fusedJump?_eq_some fused
    refine ⟨after, (v.withStack rest).push _, rfl, lower, comes, ?_⟩
    rw [Ideal.step, action]
    show (if Word.ofBool b = Word.ofBool (!b) then _
      else some (Ideal.Result.next (v.withStack rest))) = _
    rw [if_neg (by cases b <;> decide)]

/-- The operations of an instruction do what the ideal machine does. -/
theorem instruction (serves : instr.action = .runtime → x.Serves ip instr)
    (whole : WholeWords x.ops) (at_ip : x.scope.method.code[ip]? = some instr)
    (fits : v.stack.length ≤ x.capacity) (regular : instr.Regular v.stack.head? v.machine.heap)
    (comes : Ideal.step x.scope x.answer instr v = some r)
    (room : instr.action = .runtime → ∀ v', r = .next v' → v'.stack.length ≤ x.capacity) :
    Triple x (x.Exits fun r => ∃ fused, x.Leads instr next v fused r) instr.action.writesMemory
      ((x.Stands [] v).also fun s => s.ip = ip) (Gen.instruction x.scope instr next)
      fun fused => x.Next (x.Leads instr next v fused) := by
  have leads : x.Leads instr next v false r := comes
  have inCode : instr ∈ x.scope.method.code := Array.mem_of_getElem? at_ip
  have reaches := instr.reaches
  obtain ⟨field, element, size⟩ := regular
  unfold Gen.instruction
  unfold Ideal.step at comes
  generalize asks : instr.action = action at *
  cases action
  all_goals
    dsimp only
    dsimp only [Ideal.act] at comes
  case literal value | floatLiteral value =>
    cases comes
    exact alone <| forget <| pushFresh rfl rfl nofun (fun _ => id) fun _ _ holds => ⟨holds, leads⟩
  case label =>
    cases comes
    exact alone <| forget <| label leads
  case loadLocal slot kind =>
    cases comes
    obtain ⟨rfl, reach⟩ := reaches
    refine localIndex_bind fun nonneg _ => alone <| forget <| (pushLocal ?_ ?_).toNext leads
    · exact Method.le_localWords inCode (reach nonneg)
    · cases kind <;> rfl
  case loadField slot kind =>
    obtain ⟨w, rest, stack, isNil, further⟩ := Ideal.exists_of_poppingHandle comes
    refine alone <| forget <| loadField stack (fun zero => isNil zero ▸ leads) fun nonnil => ?_
    rw [fieldPointer (field slot 1 rfl w (by rw [stack]; rfl) nonnil) Nat.one_pos]
    cases further nonnil
    exact leads
  case storeLocal slot keep =>
    obtain ⟨rfl, reach⟩ := reaches
    obtain ⟨w, rest, stack, comes⟩ := Ideal.exists_of_storing comes
    cases comes
    exact alone <| forget <| storeLocal (fun nonneg => Method.le_localWords inCode (reach nonneg))
      stack leads
  case storeField slot keep =>
    obtain ⟨w, rest, stack, isNil, further⟩ := Ideal.exists_of_poppingHandle comes
    refine alone <| forget <| storeField stack (fun zero => isNil zero ▸ leads) fun nonnil => ?_
    rw [fieldPointer (field slot 1 rfl w (by rw [stack]; rfl) nonnil) Nat.one_pos]
    obtain ⟨value, below, rfl, comes⟩ := Ideal.exists_of_storing (further nonnil)
    cases comes
    refine ⟨value, below, rfl, ?_⟩
    cases keep <;> exact leads
  case loadPairLocal slot =>
    cases comes
    obtain ⟨rfl, reach⟩ := reaches
    exact alone <| forget <| loadPairLocal
      (fun nonneg => Method.le_localWords inCode (reach nonneg)) leads
  case loadPairField slot =>
    obtain ⟨w, rest, stack, isNil, further⟩ := Ideal.exists_of_poppingHandle comes
    refine alone <| forget <| loadPairField stack (fun zero => isNil zero ▸ leads) fun nonnil => ?_
    have few := field slot 2 rfl w (by rw [stack]; rfl) nonnil
    rw [fieldPointer few Nat.two_pos, secondPointer few]
    cases further nonnil
    exact leads
  case storePairLocal slot =>
    obtain ⟨rfl, reach⟩ := reaches
    obtain ⟨second, first, rest, stack, comes⟩ := Ideal.exists_of_popping_popping comes
    cases comes
    exact alone <| forget <| storePairLocal
      (fun nonneg => Method.le_localWords inCode (reach nonneg)) stack leads
  case storePairField slot =>
    obtain ⟨w, rest, stack, isNil, further⟩ := Ideal.exists_of_poppingHandle comes
    refine alone <| forget <| storePairField stack (fun zero => isNil zero ▸ leads) fun nonnil => ?_
    have few := field slot 2 rfl w (by rw [stack]; rfl) nonnil
    rw [fieldPointer few Nat.two_pos, secondPointer few]
    obtain ⟨second, first, below, rfl, comes⟩ := Ideal.exists_of_popping_popping (further nonnil)
    cases comes
    exact ⟨first, second, below, rfl, leads⟩
  case loadClassMemory =>
    cases comes
    exact alone <| forget <| loadArg (fun _ frame => frame.classMemory_slot) leads (.inl rfl)
  case loadInstance =>
    cases comes
    exact alone <| forget <| loadArg (fun _ frame => frame.receiver_slot) leads (.inr (.inl rfl))
  case loadElement kind dims =>
    obtain ⟨array, rest, stack⟩ := Ideal.exists_of_poppingElement comes
    refine alone <| forget <| loadElement stack <| accesses_of comes stack
      (element dims rfl array (by rw [stack]; rfl)) leads fun flat left comes => ?_
    cases comes
    exact leads
  case storeElement kind dims =>
    obtain ⟨array, rest, stack⟩ := Ideal.exists_of_poppingElement comes
    refine alone <| forget <| storeElement whole stack <| accesses_of comes stack
      (element dims rfl array (by rw [stack]; rfl)) leads fun flat left comes => ?_
    obtain ⟨value, below, rfl, comes⟩ := Ideal.exists_of_popping comes
    cases comes
    exact ⟨value, below, rfl, leads⟩
  case arraySize =>
    obtain ⟨array, rest, stack, isNil, further⟩ := Ideal.exists_of_poppingHandle comes
    refine alone <| forget <| arraySize stack (fun zero => isNil zero ▸ leads) fun nonnil => ?_
    obtain ⟨dims, some, isArray⟩ := size rfl array (by rw [stack]; rfl) nonnil
    have place : (16 : Int32).toInt64 = Word.ofNat (8 * (0 + 2)) := by decide
    have extent := isArray.read_extent some
    rw [place, Ideal.fetch, extent]
    cases further nonnil
    exact leads
  case arith op =>
    obtain ⟨left, right, rest, stack, comes⟩ := Ideal.exists_of_popping_popping comes
    cases comes
    exact alone <| forget <| arith stack leads
  case divide remainder =>
    obtain ⟨left, right, rest, stack, comes⟩ := Ideal.exists_of_popping_popping comes
    refine alone <| forget <| divide stack (fun isZero => ?_) fun nonzero => ?_
    · rw [if_pos isZero] at comes
      cases comes
      exact leads
    · rw [if_neg nonzero] at comes
      cases comes
      exact leads
  case bitNot =>
    obtain ⟨w, rest, stack, comes⟩ := Ideal.exists_of_popping comes
    cases comes
    exact alone <| forget <| bitNot stack leads
  case compare relation =>
    obtain ⟨left, right, rest, stack, comes⟩ := Ideal.exists_of_popping_popping comes
    cases comes
    exact forget <| (compare stack (compares_of stack leads)).exits fun _ _ _ exits =>
      exits.imp fun _ leads => ⟨true, leads⟩
  case floatArith op =>
    obtain ⟨left, right, rest, stack, comes⟩ := Ideal.exists_of_popping_popping comes
    refine alone <| forget <| floatArith stack (fun isZero => ?_) fun nonzero => ?_
    · rw [if_pos isZero] at comes
      cases comes
      exact leads
    · rw [if_neg nonzero] at comes
      cases comes
      exact leads
  case floatCompare relation =>
    obtain ⟨left, right, rest, stack, comes⟩ := Ideal.exists_of_popping_popping comes
    cases comes
    exact forget <| (floatCompare stack (compares_of stack leads)).exits fun _ _ _ exits =>
      exits.imp fun _ leads => ⟨true, leads⟩
  case intToFloat =>
    obtain ⟨w, rest, stack, comes⟩ := Ideal.exists_of_popping comes
    cases comes
    exact alone <| forget <| intToFloat stack leads
  case floatToInt =>
    obtain ⟨w, rest, stack, comes⟩ := Ideal.exists_of_popping comes
    cases comes
    exact alone <| forget <| floatToInt stack leads
  case drop =>
    obtain ⟨w, rest, stack, comes⟩ := Ideal.exists_of_popping comes
    cases comes
    exact alone <| forget <| drop stack leads
  case swap =>
    obtain ⟨below, top, rest, stack, comes⟩ := Ideal.exists_of_popping_popping comes
    cases comes
    exact alone <| forget <| swap stack leads
  case jump target =>
    refine alone <| forget <| jump fun index known isLabel => ?_
    rw [Ideal.jump_eq known isLabel.lt] at comes
    cases comes
    exact leads
  case jumpWhen target value =>
    obtain ⟨w, rest, stack, comes⟩ := Ideal.exists_of_popping comes
    refine alone <| forget <| jumpWhen stack (fun equal index known isLabel => ?_) fun differs => ?_
    · rw [if_pos equal, Ideal.jump_eq known isLabel.lt] at comes
      cases comes
      exact leads
    · rw [if_neg differs] at comes
      cases comes
      exact leads
  case leave =>
    cases comes
    exact alone <| forget <| leave fits leads
  case runtime =>
    refine alone <| callRuntime ⟨instr, inCode, asks⟩ (serves rfl) fits fun shape declared =>
      ⟨r, ?_, leads, room rfl⟩
    rw [declared] at comes
    exact comes

end Triple

end Native

end StackMachine
