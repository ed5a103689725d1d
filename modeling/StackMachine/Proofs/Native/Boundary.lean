import StackMachine.Proofs.Native.Instruction

/-!
# Where instructions stand in compiled code

Between two instructions the generator stands at a boundary: its registers are in order, the room
that it has recorded is enough for the pending values, and the open reservation, if there is one, is
for just that room (`Boundary`).  From each boundary the generator goes on to the next, and what it
has generated stays in the finished code, except that the open reservation may be widened
(`Boundary.grows`).

This says where the targets of jumps are: each label at the boundary before it, and the stubs at the
end of the code.
-/

namespace StackMachine.Native

variable {γ φ : Type} [DecidableEq γ] [DecidableEq φ]

/-! ### What is known about the code of an instruction -/

section Idle

variable (scope : Scope) (instr : Instruction)

/-- The words that a runtime call takes. -/
def Scope.taken : Nat := ((scope.shape? instr).map Shape.consumed).getD 0

/-- Runtime calls that fail. -/
def refusal : Answer := fun _ _ heap output => (.error { cause := .halted }, heap, output)

/-- An execution that is never run.  What is known about the generator does not depend on a run, so
it is known from a triple about this one. -/
def Execution.idle (s : GenState γ φ) : Execution γ φ where
  scope
  answer := refusal
  call tag _ after := Call.fromNative (refusal.perform (scope.taken instr)) tag (some instr) after
  entry := { method := scope.method.id, classMemory := 0, receiver := 0 }
  last := { s with ops := #[] }
  capacity := scope.taken instr + 3
  outer := []

/-- A state of the ideal machine with enough words on its stack for the instruction, all nil. -/
def idleState : Ideal where
  stack := 0 :: 0 :: 0 :: List.replicate (scope.taken instr) 0
  mem := #[]
  machine :=
    { program := scope.program, settings := {}, heap := {},
      statics := #[], records := #[], seed := 1, clock := 0 }

/-- There is enough on the stack for the instruction. -/
lemma exists_step_idleState : ∃ r, Ideal.step scope refusal instr (idleState scope instr) = some r ∧
    (instr.action = .runtime → ∀ v, r ≠ .next v) := by
  unfold Ideal.step
  generalize asks : instr.action = action
  cases action
  case divide =>
    dsimp only [Ideal.act, Ideal.popping, idleState, Ideal.withStack]
    exact ⟨_, if_pos rfl, nofun⟩
  case floatArith op =>
    dsimp only [Ideal.act, Ideal.popping, idleState, Ideal.withStack]
    split <;> exact ⟨_, rfl, nofun⟩
  case jumpWhen target value =>
    dsimp only [Ideal.popping, idleState, Ideal.withStack]
    split <;> exact ⟨_, rfl, nofun⟩
  case runtime =>
    have enough : ¬(idleState scope instr).stack.length < scope.taken instr := by
      simp only [idleState, List.length_cons, List.length_replicate]
      omega
    exact ⟨.fault _ _, if_neg enough, fun _ _ => nofun⟩
  all_goals exact ⟨_, rfl, nofun⟩

variable {scope instr} {next : Option Instruction} {s t : GenState γ φ} {fused : Bool}

/-- What the generator does for an instruction, whether or not the code is ever run: it appends
operations on slots that compiled code uses, and the registers stay in order. -/
lemma Gen.instruction_known (at_ip : scope.method.code[s.ip]? = some instr)
    (allowed : instr.action.writesMemory = true → s.openReserve = none)
    (run : Gen.instruction scope instr next s = .ok fused t) :
    s.Adds t ∧ (t.Alive → Owned scope.method.localWords s.ints s.floats s.pending →
      Owned scope.method.localWords t.ints t.floats t.pending ∧
        (s.Uses scope.method.localWords → t.Uses scope.method.localWords)) := by
  let x : Execution γ φ := .idle scope instr s
  have nil : ∀ w ∈ (idleState scope instr).stack.head?, ¬w ≠ 0 := by
    rintro _ ⟨⟩
    exact not_not.2 rfl
  have serves : x.Serves s.ip instr := by
    intro shape declared
    refine ⟨nofun, refusal.perform shape.consumed, rfl, fun tag after => ?_⟩
    have taken : scope.taken instr = shape.consumed := by
      rw [Scope.taken, show scope.shape? instr = some shape from declared]
      rfl
    show Call.fromNative (refusal.perform (scope.taken instr)) tag (some instr) after = _
    rw [taken]
  obtain ⟨r, comes, stops⟩ := exists_step_idleState scope instr
  have regular : instr.Regular (idleState scope instr).stack.head?
    (idleState scope instr).machine.heap :=
    ⟨fun _ _ _ w mem nonnil => absurd nonnil (nil w mem), fun _ _ w mem nonnil => absurd nonnil
      (nil w mem), fun _ w mem nonnil => absurd nonnil (nil w mem)⟩
  have triple : Triple x _ instr.action.writesMemory ((x.Stands [] (idleState scope instr)).also
      fun t => t.ip = s.ip) (Gen.instruction scope instr next) fun fused => x.Next _ :=
    .instruction (fun _ => serves) (by rintro _ _ _ _ _ _ _ _ ⟨⟩) at_ip
      (by simp [x, Execution.idle, idleState]) regular comes
      fun asks v same => absurd same (stops asks v)
  exact ⟨triple.adds allowed run, fun alive owned =>
    ⟨triple.knows allowed run alive ⟨rfl, owned⟩, triple.uses allowed run alive ⟨rfl, owned⟩⟩⟩

end Idle

namespace Gen

variable {scope : Scope} {instr : Instruction} {next : Option Instruction} {s t : GenState γ φ}
  {fused : Bool} {relation : Comparison}

/-- A comparison that is compiled with the next instruction is followed by a jump. -/
lemma compare_fused (run : compare scope next relation s = .ok true t) :
    fusedJump? next ≠ none := by
  intro isNone
  obtain ⟨right, _, -, run⟩ := bind_eq_ok.1 run
  obtain ⟨left, _, -, run⟩ := bind_eq_ok.1 run
  split at run
  · cases run
  · obtain ⟨dst, _, -, run⟩ := bind_eq_ok.1 run
    obtain ⟨_, _, -, run⟩ := bind_eq_ok.1 run
    obtain ⟨_, _, -, run⟩ := bind_eq_ok.1 run
    rw [isNone] at run
    cases run

/-- A comparison of doubles that is compiled with the next instruction is followed by a jump. -/
lemma floatCompare_fused (run : floatCompare scope next relation s = .ok true t) :
    fusedJump? next ≠ none := by
  intro isNone
  obtain ⟨right, _, -, run⟩ := bind_eq_ok.1 run
  obtain ⟨left, _, -, run⟩ := bind_eq_ok.1 run
  split at run
  · cases run
  · obtain ⟨dst, _, -, run⟩ := bind_eq_ok.1 run
    obtain ⟨_, _, -, run⟩ := bind_eq_ok.1 run
    rw [isNone] at run
    cases run

/-- An instruction that is compiled with the next one is followed by a jump. -/
lemma instruction_fused (run : instruction scope instr next s = .ok true t) :
    ∃ after target value, next = some after ∧ after.action = .jumpWhen target value := by
  have jumps : fusedJump? next ≠ none := by
    unfold instruction at run
    generalize instr.action = action at run
    cases action
    case compare => exact compare_fused run
    case floatCompare => exact floatCompare_fused run
    case loadLocal =>
      obtain ⟨_, _, -, run⟩ := bind_eq_ok.1 run
      cases run
    all_goals
      obtain ⟨_, _, -, run⟩ := bind_eq_ok.1 run
      cases run
  obtain ⟨⟨target, expected⟩, fused⟩ := Option.ne_none_iff_exists'.1 jumps
  obtain ⟨after, same, action⟩ := fusedJump?_eq_some fused
  exact ⟨after, target, _, same, action⟩

/-- A label is compiled where no value is pending, and nothing is known about the room there. -/
lemma instruction_label (asks : instr.action = .label)
    (run : instruction scope instr next s = .ok fused t) :
    fused = false ∧ s.pending = [] ∧
      t = { s with
        ops := s.ops.push (.bind (.instruction s.ip)), covered := 0, openReserve := none } := by
  unfold instruction at run
  rw [asks] at run
  obtain ⟨_, _, run₁, run₂⟩ := bind_eq_ok.1 run
  obtain ⟨empty, run₁⟩ := Triple.noPending_eq_ok run₁
  cases run₁
  cases run₂
  exact ⟨rfl, empty, rfl⟩

/-- A runtime call that is compiled has a shape. -/
lemma instruction_shaped (run : instruction scope instr next s = .ok fused t)
    (asks : instr.action = .runtime) : (scope.shape? instr).isSome := by
  unfold instruction at run
  rw [asks] at run
  obtain ⟨_, _, run, -⟩ := bind_eq_ok.1 run
  obtain ⟨_, _, run, -⟩ := bind_eq_ok.1 run
  obtain ⟨e, eq⟩ := Triple.runtimeShape_eq (γ := γ) (φ := φ) scope instr
  rw [eq] at run
  cases declared : scope.shape? instr with
  | some shape => rfl
  | none =>
    rw [declared] at run
    cases run

omit [DecidableEq γ] [DecidableEq φ] in
/-- The local an operand names is known, or generation fails. -/
lemma localIndex_eq_ok {i : Nat} (run : localIndex instr s = .ok i t) :
    0 ≤ instr.operand ∧ instr.operand ≤ 0xFFFFFFFF := by
  by_contra outside
  rw [localIndex, if_neg outside] at run
  cases run

/-- The operand of an instruction on locals is in range, or generation fails. -/
lemma instruction_inRange (run : instruction scope instr next s = .ok fused t)
    (named : instr.action.slots ≠ []) :
    0 ≤ instr.operand ∧ instr.operand ≤ 0xFFFFFFFF := by
  unfold instruction at run
  generalize instr.action = action at run named
  cases action
  case loadLocal =>
    obtain ⟨_, _, run, -⟩ := bind_eq_ok.1 run
    exact localIndex_eq_ok run
  case storeLocal | loadPairLocal | storePairLocal =>
    obtain ⟨_, _, run, -⟩ := bind_eq_ok.1 run
    obtain ⟨_, _, run, -⟩ := bind_eq_ok.1 run
    exact localIndex_eq_ok run
  all_goals exact absurd rfl named

/-- The locals that a compiled instruction names are in the frame. -/
lemma instruction_slots (inCode : instr ∈ scope.method.code)
    (run : instruction scope instr next s = .ok fused t) :
    ∀ slot ∈ instr.action.slots, ∃ k, Word.toIndex? slot = some k ∧
    k < scope.method.localWords := by
  intro slot mem
  obtain ⟨nonneg, small⟩ := instruction_inRange run (List.ne_nil_of_mem mem)
  exact instr.slots_inFrame inCode nonneg (Word.ne_maxValue small) slot mem

end Gen

/-! ### Reservations -/

namespace Gen

omit [DecidableEq γ] [DecidableEq φ]

variable {ops : Array (Operation γ φ)} {place i : Nat} {words : UInt32}

/-- Widening a reservation leaves the other operations alone. -/
lemma getElem?_widen_of_ne (other : place ≠ i) : (widen ops place words)[i]? = ops[i]? := by
  rw [widen, Array.getElem?_modify, if_neg other]

lemma getElem?_widen_self {old : UInt32} {target : JumpTarget}
    (reserved : ops[place]? = some (.reserve old target)) :
    (widen ops place words)[place]? = some (.reserve words target) := by
  rw [widen, Array.getElem?_modify, if_pos rfl, reserved]
  rfl

end Gen

namespace GenState

/-- The generator with room reserved for its pending values. -/
def reserving (s : GenState γ φ) : GenState γ φ :=
  if s.pending.length ≤ s.covered then s
  else
    match s.openReserve with
    | some place =>
      { s with
        ops := Gen.widen s.ops place (reserveWords s.pending.length)
        covered := s.pending.length }
    | none =>
      { s with
        ops := s.ops.push (.reserve (reserveWords s.pending.length) (.fault .stackOverflow))
        openReserve := some s.ops.size
        covered := s.pending.length }

/-- The generator at the start of an instruction. -/
def entering (s : GenState γ φ) (ip : Nat) (instr : Instruction) : GenState γ φ :=
  { s with ip, openReserve := if instr.action.writesMemory then none else s.openReserve }

/-- The open reservation is for the room that is recorded. -/
def Reserved (s : GenState γ φ) : Prop :=
  ∀ place, s.openReserve = some place →
    s.ops[place]? = some (.reserve (reserveWords s.covered) (.fault .stackOverflow))

omit [DecidableEq γ] [DecidableEq φ] in
/-- What may become of the reservation: the room that is recorded is enough; a new reservation is
made; or the open one is widened. -/
lemma reserving_cases (s : GenState γ φ) : (s.pending.length ≤ s.covered ∧ s.reserving = s) ∨
    (s.covered < s.pending.length ∧ s.openReserve = none ∧ s.reserving =
      { s with
        ops := s.ops.push (.reserve (reserveWords s.pending.length) (.fault .stackOverflow))
        openReserve := some s.ops.size
        covered := s.pending.length }) ∨
    (∃ place, s.covered < s.pending.length ∧ s.openReserve = some place ∧ s.reserving =
      { s with
        ops := Gen.widen s.ops place (reserveWords s.pending.length)
        covered := s.pending.length }) := by
  unfold reserving
  by_cases enough : s.pending.length ≤ s.covered
  · exact .inl ⟨enough, if_pos enough⟩
  · rw [if_neg enough]
    cases opened : s.openReserve with
    | none => exact .inr (.inl ⟨Nat.not_le.1 enough, rfl, rfl⟩)
    | some place => exact .inr (.inr ⟨place, Nat.not_le.1 enough, rfl, rfl⟩)

variable {s t u : GenState γ φ}

omit [DecidableEq γ] [DecidableEq φ] in
/-- Operations are appended after a reservation that stays as it is. -/
lemma Adds.reserved (adds : s.Adds t) (reserved : s.Reserved) : t.Reserved := by
  intro place opened
  have stays : t.openReserve ≠ none := by rw [opened]; exact Option.some_ne_none _
  rw [adds.covered stays]
  refine adds.getElem? (reserved place ?_)
  rw [← opened, adds.reserve.resolve_right stays]

lemma reserveWords_mono {m n : Nat} (le : m ≤ n) : reserveWords m ≤ reserveWords n := by
  rw [UInt32.le_iff_toNat_le, toNat_reserveWords, toNat_reserveWords]
  omega

omit [DecidableEq γ] [DecidableEq φ] in
/-- What was generated before a reservation stands in a later code, if what was generated with it
does. -/
lemma Grows.of_reserving (reserved : s.Reserved) (grows : s.reserving.Grows u) : s.Grows u := by
  rcases s.reserving_cases with ⟨-, same⟩ | ⟨-, closed, same⟩ | ⟨place, wider, opened, same⟩
  · rwa [same] at grows
  · rw [same] at grows
    refine ⟨?_, fun i op at_i _ => ?_, fun i words target isOpen => ?_⟩
    · exact Nat.le_trans (by simp) grows.size_le
    · have bound := (Array.getElem?_eq_some_iff.1 at_i).1
      refine grows.keeps i op ?_ (.inr ?_)
      · show (s.ops.push _)[i]? = _
        rw [Array.getElem?_push_lt bound]
        exact (Array.getElem?_eq_getElem bound).symm.trans at_i
      · exact fun isHere => Nat.ne_of_gt bound (Option.some.inj isHere)
    · rw [closed] at isOpen
      cases isOpen
  · rw [same] at grows
    have here := reserved place opened
    refine ⟨?_, fun i op at_i kept => ?_, fun i words target isOpen at_i => ?_⟩
    · exact Nat.le_trans (by simp [Gen.widen]) grows.size_le
    · have other : place ≠ i := by
        rintro rfl
        rw [here] at at_i
        cases at_i
        exact kept.elim (fun plain => nomatch plain) fun other => other opened
      refine grows.keeps i op ?_ (.inr fun isHere => other (Option.some.inj (opened ▸ isHere)))
      exact (Gen.getElem?_widen_of_ne other).trans at_i
    · obtain rfl := Option.some.inj (opened.symm.trans isOpen)
      rw [here] at at_i
      cases at_i
      obtain ⟨more, le, at_more⟩ := grows.widens place _ _ opened (Gen.getElem?_widen_self here)
      exact ⟨more, UInt32.le_trans (reserveWords_mono (Nat.le_of_lt wider)) le, at_more⟩

end GenState

/-! ### Boundaries -/

namespace Gen

variable {s t : GenState γ φ} {scope : Scope} {ip : Nat} {instr : Instruction}
  {next : Option Instruction}

/-- The end of a method: the pending values are written to memory, and the stubs follow. -/
def finish : Gen γ φ Unit := do
  flushAll
  emit (.bind .exit)
  emit (.status 0)
  FaultKind.all.forM faultStub
  emit (.bind .teardown)
  emit .teardown

/-- A method is its entry, its body and its end. -/
lemma method_eq (scope : Scope) : method (γ := γ) (φ := φ) scope = (do
    emit (.prologue scope.method.localWords)
    body scope 0 scope.method.code.toList
    finish) := rfl

/-- The stubs at the end of a method. -/
def stubs : List (Operation γ φ) :=
  [.bind .exit, .status 0] ++ FaultKind.all.flatMap
    (fun kind => [.bind (.fault kind), .status kind.status]) ++ [.bind .teardown, .teardown]

/-- At the end of a method the stubs are appended to the code. -/
lemma finish_eq_ok (run : finish s = .ok () t) :
    ∃ u, flushAll s = .ok () u ∧ t = { u with ops := u.ops ++ stubs.toArray } := by
  obtain ⟨_, u, flushed, run⟩ := bind_eq_ok.1 run
  cases run
  have appended : ∀ t : GenState γ φ, t = { u with ops := t.ops } →
      t.ops.toList = u.ops.toList ++ stubs → t = { u with ops := u.ops ++ stubs.toArray } := by
    intro t same ops
    have ops' : t.ops = u.ops ++ stubs.toArray := Array.toList_inj.1 (by rw [ops]; simp)
    rw [same, ops']
  exact ⟨u, flushed, appended _ rfl (by simp [stubs, FaultKind.all])⟩

/-- What is known about writing the pending values to memory. -/
lemma flushAll_known (scope : Scope) (run : flushAll s = .ok () t) :
    s.Adds t ∧ t.openReserve = none ∧ (s.Alive → t.Alive) ∧
      (s.Alive → Owned scope.method.localWords s.ints s.floats s.pending →
        Owned scope.method.localWords t.ints t.floats t.pending ∧
          (s.Uses scope.method.localWords → t.Uses scope.method.localWords)) := by
  let instr : Instruction := { op := .lbl }
  let x : Execution γ φ := .idle scope instr s
  have triple : Triple x (fun _ _ _ => True) false (x.Stands [] (idleState scope instr))
    flushAll _ :=
    .flushAll (by simp [x, Execution.idle, idleState])
  obtain ⟨closed, lives⟩ := Triple.flushTop_keeps run
  exact ⟨triple.adds nofun run, closed, lives, fun alive owned =>
    ⟨triple.knows nofun run (lives alive) owned, triple.uses nofun run (lives alive) owned⟩⟩

/-- What it takes to compile the rest of a body. -/
lemma body_cons (scope : Scope) (ip : Nat) (instr : Instruction) (rest : List Instruction) :
    body (γ := γ) (φ := φ) scope ip (instr :: rest) = (do
      if ← step scope ip instr rest.head? then body scope (ip + 2) rest.tail
      else body scope (ip + 1) rest) := by
  cases rest with
  | nil | cons after later =>
    refine bind_congr fun fused => ?_
    cases fused <;> rfl

/-- The rest of a body from an instruction on. -/
lemma body_drop (at_ip : scope.method.code[ip]? = some instr) :
    body (γ := γ) (φ := φ) scope ip (scope.method.code.toList.drop ip) = (do
      let fused ← step scope ip instr scope.method.code[ip + 1]?
      body scope (ip + if fused then 2 else 1)
        (scope.method.code.toList.drop (ip + if fused then 2 else 1))) := by
  obtain ⟨bound, here⟩ := Array.getElem?_eq_some_iff.1 at_ip
  rw [List.drop_eq_getElem_cons (by simpa using bound), Array.getElem_toList, here, body_cons,
    List.head?_drop, Array.getElem?_toList, List.tail_drop]
  refine bind_congr fun fused => ?_
  cases fused <;> rfl

/-- What it takes to compile an instruction. -/
lemma step_eq_ok {fused : Bool} (run : step scope ip instr next s = .ok fused t) :
    ∃ u, instruction scope instr next (s.entering ip instr) = .ok fused u ∧ u.Alive ∧
    t = u.reserving := by
  obtain ⟨_, s₁, run₁, run⟩ := bind_eq_ok.1 run
  cases run₁
  have rest : (do
      let fused ← instruction scope instr next
      let s ← get
      if s.ints.failed ∨ s.floats.failed then throw .registersExhausted
      reserveDepth
      return fused : Gen γ φ Bool) (s.entering ip instr) = .ok fused t := by
    unfold GenState.entering
    cases writes : instr.action.writesMemory with
    | true =>
      rw [if_pos writes] at run
      exact run
    | false =>
      rw [if_neg (writes ▸ Bool.false_ne_true)] at run
      exact run
  obtain ⟨fused', u, run₁, run⟩ := bind_eq_ok.1 rest
  obtain ⟨u', _, run₂, run⟩ := bind_eq_ok.1 run
  cases run₂
  by_cases failed : u.ints.failed = true ∨ u.floats.failed = true
  · rw [if_pos failed] at run
    cases run
  · rw [if_neg failed] at run
    cases run
    obtain ⟨ints, floats⟩ := not_or.1 failed
    exact ⟨u, run₁, ⟨eq_false_of_ne_true ints, eq_false_of_ne_true floats⟩, rfl⟩

/-- It does not matter for a label what is known about the room. -/
lemma step_label (asks : instr.action = .label) (empty : s.pending = []) :
    step scope ip instr next { s with covered := 0, openReserve := none } =
      step scope ip instr next s := by
  obtain ⟨ops, pending, ints, floats, ip', covered, openReserve⟩ := s
  subst empty
  unfold step instruction
  rw [asks]
  rfl

/-- Compiles instructions from a place on, as many as there are steps, and says where that ends. -/
def steps (scope : Scope) : Nat → Nat → Gen γ φ Nat
  | 0, ip => return ip
  | n + 1, ip =>
    match scope.method.code[ip]? with
    | none => return ip
    | some instr => do
      let fused ← step scope ip instr scope.method.code[ip + 1]?
      steps scope n (ip + if fused then 2 else 1)

/-- Compiles the beginning of a method. -/
def visit (scope : Scope) (n : Nat) : Gen γ φ Nat := do
  emit (.prologue scope.method.localWords)
  steps scope n 0

/-- The rest of a body is compiled in as many steps as it has instructions, or fewer. -/
lemma body_eq_steps (scope : Scope) (n ip : Nat) (enough : scope.method.code.size ≤ ip + n) :
    body (γ := γ) (φ := φ) scope ip (scope.method.code.toList.drop ip) =
      (steps scope n ip >>= fun _ => pure ()) := by
  induction n generalizing ip with
  | zero =>
    rw [List.drop_eq_nil_of_le (by simpa using enough)]
    rfl
  | succ n ih =>
    cases at_ip : scope.method.code[ip]? with
    | none =>
      have above := Array.getElem?_eq_none_iff.1 at_ip
      rw [List.drop_eq_nil_of_le (by simpa using above)]
      simp only [steps, at_ip]
      rfl
    | some instr =>
      rw [body_drop at_ip]
      simp only [steps, at_ip, bind_assoc]
      refine bind_congr fun fused => ih _ ?_
      split <;> omega

/-- A method is compiled step by step to the end of its code, and then its end. -/
lemma method_eq_visit (scope : Scope) : method (γ := γ) (φ := φ) scope = (do
    let _ ← visit scope scope.method.code.size
    finish) := by
  have body := body_eq_steps (γ := γ) (φ := φ) scope scope.method.code.size 0 (by omega)
  rw [List.drop_zero] at body
  rw [method_eq, body]
  simp only [visit, bind_assoc, pure_bind]

end Gen

/-- The generator stands before the instruction at a place of a method, of which it is to generate
the rest. -/
structure Boundary (scope : Scope) (last : GenState γ φ) (ip : Nat) (s : GenState γ φ) : Prop where
  rest : ∃ e, Gen.body scope ip (scope.method.code.toList.drop ip) s = .ok () e ∧
    Gen.finish e = .ok () last
  alive : s.Alive
  owned : Owned scope.method.localWords s.ints s.floats s.pending
  covers : s.pending.length ≤ s.covered
  reserved : s.Reserved
  binds : ∀ target, .bind target ∈ s.ops → ∃ j < ip, target = .instruction j

/-- The generator passes the instruction at a boundary and comes to the next boundary. -/
structure Passes (scope : Scope) (last : GenState γ φ) (ip : Nat) (instr : Instruction)
    (s : GenState γ φ) (fused : Bool) (u : GenState γ φ) : Prop where
  step : Gen.step scope ip instr scope.method.code[ip + 1]? s = .ok fused u.reserving
  run : Gen.instruction scope instr scope.method.code[ip + 1]? (s.entering ip instr) = .ok fused u
  alive : u.Alive
  adds : (s.entering ip instr).Adds u
  reserved : u.Reserved
  next : Boundary scope last (ip + if fused then 2 else 1) u.reserving

namespace GenState

omit [DecidableEq γ] [DecidableEq φ]

variable {s t u : GenState γ φ} {ip : Nat} {instr : Instruction}

/-- The reservation at the start of an instruction. -/
lemma Reserved.entering (reserved : s.Reserved) : (s.entering ip instr).Reserved := by
  intro place opened
  unfold GenState.entering at opened
  dsimp only at opened
  split at opened
  · cases opened
  · exact reserved place opened

/-- A reservation is for the room that is recorded. -/
lemma Reserved.reserving (reserved : s.Reserved) : s.reserving.Reserved := by
  rcases s.reserving_cases with ⟨-, same⟩ | ⟨-, -, same⟩ | ⟨place, -, opened, same⟩
  all_goals rw [same]
  · exact reserved
  · rintro _ ⟨⟩
    exact Array.getElem?_push_size
  · intro place' opened'
    obtain rfl := Option.some.inj (opened.symm.trans opened')
    exact Gen.getElem?_widen_self (reserved place opened)

lemma bind_mem_reserving {target : JumpTarget} (mem : .bind target ∈ s.reserving.ops) :
    .bind target ∈ s.ops := by
  rcases s.reserving_cases with ⟨-, same⟩ | ⟨-, -, same⟩ | ⟨place, -, -, same⟩
  all_goals rw [same] at mem
  · exact mem
  · exact (Array.mem_push.1 mem).resolve_right nofun
  · obtain ⟨i, at_i⟩ := Array.mem_iff_getElem?.1 mem
    by_cases here : place = i
    · subst here
      rw [Gen.widen, Array.getElem?_modify, if_pos rfl] at at_i
      obtain ⟨op, at_op, same⟩ := Option.map_eq_some_iff.1 at_i
      cases op <;> cases same
      exact Array.mem_of_getElem? at_op
    · exact Array.mem_of_getElem? ((Gen.getElem?_widen_of_ne here).symm.trans at_i)

/-- What was generated before an instruction stands in a later code. -/
lemma Grows.of_entering (grows : (s.entering ip instr).Grows t) : s.Grows t := by
  unfold GenState.entering at grows
  by_cases writes : instr.action.writesMemory = true
  · rw [if_pos writes] at grows
    exact ⟨grows.size_le, fun i op at_i _ => grows.keeps i op at_i (.inr nofun),
      fun i words target _ at_i => ⟨words, UInt32.le_refl _, grows.keeps i _ at_i (.inr nofun)⟩⟩
  · rw [if_neg writes] at grows
    exact ⟨grows.size_le, grows.keeps, grows.widens⟩

/-- Code stands in itself with more appended. -/
lemma Grows.append (s : GenState γ φ) (more : Array (Operation γ φ)) :
    s.Grows { s with ops := s.ops ++ more } := by
  have stays {i : Nat} {op : Operation γ φ} (at_i : s.ops[i]? = some op) :
      (s.ops ++ more)[i]? = some op := by
    rw [Array.getElem?_append_left (Array.getElem?_eq_some_iff.1 at_i).1, at_i]
  exact ⟨by simp, fun i op at_i _ => stays at_i,
    fun i words target _ at_i => ⟨words, UInt32.le_refl _, stays at_i⟩⟩

end GenState

/-- A reservation that is open after an instruction was open before it. -/
lemma Passes.openReserve_eq {scope : Scope} {last s u : GenState γ φ} {ip : Nat}
    {instr : Instruction} {fused : Bool} (passes : Passes scope last ip instr s fused u)
    (opened : u.openReserve ≠ none) : u.openReserve = s.openReserve := by
  have entered := passes.adds.reserve.resolve_right opened
  rw [entered, GenState.entering] at opened ⊢
  by_cases writes : instr.action.writesMemory = true
  · rw [if_pos writes] at opened
    exact absurd rfl opened
  · rw [if_neg writes]

namespace Boundary

variable {scope : Scope} {last : GenState γ φ} {ip : Nat} {instr : Instruction} {s : GenState γ φ}

lemma exists_passes (h : Boundary scope last ip s) (at_ip : scope.method.code[ip]? = some instr) :
    ∃ fused u, Passes scope last ip instr s fused u := by
  obtain ⟨e, body, finish⟩ := h.rest
  rw [Gen.body_drop at_ip] at body
  obtain ⟨fused, t, steps, rest⟩ := Gen.bind_eq_ok.1 body
  obtain ⟨u, run, alive, rfl⟩ := Gen.step_eq_ok steps
  have allowed : instr.action.writesMemory = true → (s.entering ip instr).openReserve = none :=
    fun writes => if_pos writes
  obtain ⟨adds, owns⟩ := Gen.instruction_known at_ip allowed run
  have reserved : u.Reserved := adds.reserved h.reserved.entering
  refine ⟨fused, u, steps, run, alive, adds, reserved, ⟨e, rest, finish⟩, ?_, ?_, ?_,
    reserved.reserving, ?_⟩
  all_goals have cases := u.reserving_cases
  · rcases cases with ⟨-, same⟩ | ⟨-, -, same⟩ | ⟨_, -, -, same⟩ <;> rw [same] <;> exact alive
  · have owned := (owns alive h.owned).1
    rcases cases with ⟨-, same⟩ | ⟨-, -, same⟩ | ⟨_, -, -, same⟩ <;> rw [same] <;> exact owned
  · rcases cases with ⟨enough, same⟩ | ⟨-, -, same⟩ | ⟨_, -, -, same⟩
    · rw [same]
      exact enough
    · simp [same]
    · simp [same]
  · intro target mem
    obtain ⟨more, eq, binds⟩ := adds.ops
    have later : ip < ip + if fused then 2 else 1 := by split <;> omega
    have mem' := GenState.bind_mem_reserving mem
    rw [eq] at mem'
    rcases Array.mem_append.1 mem' with before | new
    · obtain ⟨j, earlier, same⟩ := h.binds target before
      exact ⟨j, Nat.lt_trans earlier later, same⟩
    · exact ⟨ip, later, binds target new⟩

/-- Induction along the instructions that are left. -/
theorem induct {motive : ∀ ip s, Boundary scope last ip s → Prop}
    (ending : ∀ {ip s} h, scope.method.code[ip]? = none → motive ip s h)
    (passing : ∀ {ip instr s fused u} h, scope.method.code[ip]? = some instr →
      ∀ passes : Passes scope last ip instr s fused u, motive _ _ passes.next → motive ip s h)
    {ip : Nat} {s : GenState γ φ} (h : Boundary scope last ip s) : motive ip s h := by
  cases at_ip : scope.method.code[ip]? with
  | none => exact ending h at_ip
  | some instr =>
    obtain ⟨fused, u, passes⟩ := h.exists_passes at_ip
    have bound := (Array.getElem?_eq_some_iff.1 at_ip).1
    exact passing h at_ip passes (induct ending passing passes.next)
  termination_by scope.method.code.size - ip
  decreasing_by split <;> omega

variable (h : Boundary scope last ip s)
include h

/-- At the end of the body the pending values are written to memory, and the stubs follow. -/
lemma exists_flushed (at_end : scope.method.code[ip]? = none) :
    ∃ u, Gen.flushAll s = .ok () u ∧ last = { u with ops := u.ops ++ Gen.stubs.toArray } := by
  obtain ⟨e, body, finish⟩ := h.rest
  rw [Array.getElem?_eq_none_iff] at at_end
  rw [List.drop_eq_nil_of_le (by simpa using at_end)] at body
  cases body
  exact Gen.finish_eq_ok finish

/-- What has been generated stands in the finished code. -/
lemma grows : s.Grows last := by
  induction h using induct with
  | ending h at_end =>
    obtain ⟨u, flushed, rfl⟩ := h.exists_flushed at_end
    exact .of_adds (Gen.flushAll_known scope flushed).1 (.append _ _)
  | passing h _ passes ih =>
    exact .of_entering (.of_adds passes.adds (.of_reserving passes.reserved ih))

lemma exists_of_isLabel {i : Nat} (isLabel : scope.IsLabel i)
    (later : ip ≤ i) : ∃ n t, Gen.steps scope n ip s = .ok i t ∧ Boundary scope last i t := by
  induction h using induct with
  | @ending ip s h at_end =>
    rw [Array.getElem?_eq_none_iff] at at_end
    exact absurd isLabel.lt (by omega)
  | @passing ip instr s fused u h at_ip passes ih =>
    by_cases here : ip = i
    · subst here
      exact ⟨0, s, rfl, h⟩
    have notSkipped : ip + (if fused then 2 else 1) ≤ i := by
      cases fused with
      | false => exact Nat.succ_le_of_lt (Nat.lt_of_le_of_ne later here)
      | true =>
        -- the instruction that is left out is a jump
        obtain ⟨after, _, _, follows, jumps⟩ := Gen.instruction_fused passes.run
        obtain ⟨instr', at_i, op⟩ := isLabel
        have other : ip + 1 ≠ i := by
          rintro rfl
          rw [follows] at at_i
          cases at_i
          rw [Instruction.action, op] at jumps
          cases jumps
        show ip + 2 ≤ i
        omega
    obtain ⟨n, t, steps, boundary⟩ := ih notSkipped
    refine ⟨n + 1, t, ?_, boundary⟩
    simp only [Gen.steps, at_ip]
    exact Gen.bind_eq_ok.2 ⟨fused, _, passes.step, steps⟩

/-- At a label no value is pending, and it does not matter what is known about the room there. -/
lemma forget (isLabel : scope.IsLabel ip) :
    s.pending = [] ∧ Boundary scope last ip { s with covered := 0, openReserve := none } := by
  obtain ⟨instr, at_ip, asks⟩ := isLabel.action
  obtain ⟨fused, u, passes⟩ := h.exists_passes at_ip
  have empty : s.pending = [] := (Gen.instruction_label asks passes.run).2.1
  refine ⟨empty, ?_, h.alive, h.owned, ?_, nofun, h.binds⟩
  · obtain ⟨e, body, finish⟩ := h.rest
    refine ⟨e, ?_, finish⟩
    rw [Gen.body_drop at_ip] at body ⊢
    obtain ⟨fused, t, steps, body⟩ := Gen.bind_eq_ok.1 body
    exact Gen.bind_eq_ok.2 ⟨fused, t, (Gen.step_label asks empty).trans steps, body⟩
  · rw [empty]
    exact Nat.le_refl 0

end Boundary

end StackMachine.Native
