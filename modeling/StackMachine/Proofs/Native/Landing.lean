import StackMachine.Bytecode.Builder
import StackMachine.Proofs.Native.Entry
import StackMachine.Proofs.Native.Layout

/-!
# Where branches land

The operations of a method jump to labels of the method, to the stubs of faults, to the exit and to
the shared end, and each of these is bound (`exists_destination`).  Assembled code has a branch for
each target of an operation, so all of them can be patched as far as they reach, and go to the
offset at which the code of their target starts (`Linked`).  This holds for every target and method
(`linked_of_compile`).
-/

namespace StackMachine.Native

variable {γ φ : Type} [DecidableEq γ] [DecidableEq φ]

/-! ### Targets of generated operations -/

namespace Operation

omit [DecidableEq γ] [DecidableEq φ] in
/-- The labels that an operation goes to are labels of the method. -/
lemma Aims.isLabel {scope : Scope} {op : Operation γ φ} {index : Nat} (aims : op.Aims scope)
    (mem : .instruction index ∈ op.targets) : scope.IsLabel index := by
  cases op
  case jump target =>
    obtain rfl := List.mem_singleton.1 mem
    obtain ⟨_, same, isLabel⟩ := aims.resolve_left nofun
    cases same
    exact isLabel
  case branch relation target | floatCompareBranch relation expected left right target =>
    obtain rfl := List.mem_singleton.1 mem
    obtain ⟨_, same, isLabel⟩ := aims
    cases same
    exact isLabel
  all_goals simp_all [targets, Aims]

end Operation

namespace Gen

/-- All operations have the targets of their kind. -/
def AllAim (scope : Scope) (s : GenState γ φ) : Prop := ∀ op ∈ s.ops, op.Aims scope

variable {scope : Scope} {s : GenState γ φ}

section

omit [DecidableEq γ] [DecidableEq φ]

lemma AllAim.push (all : AllAim scope s) {op : Operation γ φ} (aims : op.Aims scope) :
    ∀ op' ∈ s.ops.push op, op'.Aims scope := by
  intro op' mem
  rcases Array.mem_push.1 mem with old | rfl
  · exact all op' old
  · exact aims

lemma AllAim.append (all : AllAim scope s) {more : List (Operation γ φ)}
    (aims : ∀ op ∈ more, op.Aims scope) : ∀ op ∈ s.ops ++ more.toArray, op.Aims scope := by
  intro op mem
  rcases Array.mem_append.1 mem with old | new
  · exact all op old
  · exact aims op (List.mem_toArray.1 new)

/-- Reserving room keeps the targets. -/
lemma AllAim.reserving (all : AllAim scope s) : AllAim scope s.reserving := by
  rcases s.reserving_cases with ⟨-, same⟩ | ⟨-, -, same⟩ | ⟨place, -, -, same⟩
  all_goals rw [same]
  · exact all
  · exact all.push rfl
  · intro op mem
    obtain ⟨i, at_i⟩ := Array.mem_iff_getElem?.1 mem
    dsimp only at at_i
    by_cases here : place = i
    · rw [widen, Array.getElem?_modify, if_pos here] at at_i
      obtain ⟨old, at_old, rfl⟩ := Option.map_eq_some_iff.1 at_i
      have aims := all old (Array.mem_of_getElem? at_old)
      cases old <;> exact aims
    · exact all op (Array.mem_of_getElem? ((getElem?_widen_of_ne here).symm.trans at_i))

lemma aims_pushOf (value : Pending γ φ) : (pushOf value).Aims scope := by
  cases value <;> exact trivial

end

/-- Every step of the generator gives operations their targets. -/
lemma fullBasis_allAim (scope : Scope) :
    FullBasis scope fun s t : GenState γ φ => AllAim scope s → AllAim scope t where
  trans first second all := second (first all)
  quiet ops _ _ all := by rwa [AllAim, ops]
  close _ all := all
  pushOp _ _ _ aims all := all.push aims
  popOp _ op pops all := by
    refine all.push ?_
    cases op <;> first | exact trivial | cases pops
  bindOp _ all := all.push trivial
  flushes {n s t} run all := by
    obtain ⟨ints, floats, eq⟩ := flushTop_eq n s
    cases eq.symm.trans run
    refine all.append fun op mem => ?_
    obtain ⟨value, -, rfl⟩ := List.mem_map.1 mem
    exact aims_pushOf value
  calls _ _ _ all := all.push rfl
  reserves _ all := all.reserving
  stubs _ all := by
    refine all.append ?_
    simp [stubs, FaultKind.all, Operation.Aims]

/-! ### The operations of an instruction -/

variable {ints : RegisterPool γ} {floats : RegisterPool φ} {last t : GenState γ φ} {n ip : Nat}
  {instr : Instruction} {fused : Bool}

/-- The operations of the instruction at a place of a method are those from `first` on and before
`stop`. -/
def Spans (scope : Scope) (ints : RegisterPool γ) (floats : RegisterPool φ) (ip first stop : Nat) :
    Prop :=
  ∃ n s ip' t, ip < scope.method.code.size ∧ visit scope n { ints, floats } = .ok ip s ∧
    visit scope (n + 1) { ints, floats } = .ok ip' t ∧ s.ops.size = first ∧ t.ops.size = stop

lemma steps_succ (n ip : Nat) : steps (γ := γ) (φ := φ) scope (n + 1) ip =
    (steps scope n ip >>= fun ip => steps scope 1 ip) := by
  induction n generalizing ip with
  | zero => rfl
  | succ n ih =>
    cases at_ip : scope.method.code[ip]? with
    | none => simp only [steps, at_ip, pure_bind]
    | some instr =>
      rw [steps, steps]
      simp only [at_ip, bind_assoc]
      exact bind_congr fun fused => ih _

/-- One more step of a method. -/
lemma visit_succ (n : Nat) : visit (γ := γ) (φ := φ) scope (n + 1) =
    (visit scope n >>= fun ip => steps scope 1 ip) := by
  simp only [visit, bind_assoc, steps_succ n 0]

lemma steps_one (at_ip : scope.method.code[ip]? = some instr) :
    steps scope 1 ip s = .ok n t ↔ ∃ fused, step scope ip instr scope.method.code[ip + 1]? s =
      .ok fused t ∧
        n = ip + if fused then 2 else 1 := by
  simp only [steps, at_ip]
  rw [bind_eq_ok]
  constructor
  · rintro ⟨fused, u, run, ends⟩
    cases ends
    exact ⟨fused, run, rfl⟩
  · rintro ⟨fused, run, rfl⟩
    exact ⟨fused, t, run, rfl⟩

/-- An instruction that leaves the method writes what is pending to memory and jumps to the exit. -/
lemma instruction_leave {next : Option Instruction} (asks : instr.action = .leave)
    (run : instruction scope instr next s = .ok fused t) :
    t.pending = [] ∧ ∃ more, t.ops = (s.ops ++ more).push (.jump .exit) := by
  unfold instruction at run
  rw [asks] at run
  obtain ⟨_, u, run, ends⟩ := bind_eq_ok.1 run
  cases ends
  obtain ⟨_, v, flushed, emitted⟩ := bind_eq_ok.1 run
  cases emitted
  obtain ⟨ints, floats, eq⟩ := flushTop_eq s.pending.length s
  cases eq.symm.trans flushed
  exact ⟨List.drop_length, _, rfl⟩

end Gen

namespace Boundary

open Gen

variable {scope : Scope} {ints : RegisterPool γ} {floats : RegisterPool φ} {last s t : GenState γ φ}
  {n ip ip' : Nat} {instr : Instruction}

/-- The generator passes an instruction in one way only. -/
lemma passes_of_steps (h : Boundary scope last ip s) (at_ip : scope.method.code[ip]? = some instr)
    (passed : steps scope 1 ip s = .ok ip' t) :
    ∃ fused u, Passes scope last ip instr s fused u ∧ t = u.reserving ∧ ip' = ip + if fused then 2
    else 1 := by
  obtain ⟨fused, run, rfl⟩ := (steps_one at_ip).1 passed
  obtain ⟨fused', u, passes⟩ := h.exists_passes at_ip
  cases passes.step.symm.trans run
  exact ⟨fused, u, passes, rfl, rfl⟩

variable (run : Gen.method scope { ints, floats } = .ok () last) (distinctInts : ints.Distinct)
  (distinctFloats : floats.Distinct)
include run distinctInts distinctFloats

/-- The beginning of a method leads to a boundary. -/
lemma of_visit (visited : visit scope n { ints, floats } = .ok ip s) :
    Boundary scope last ip s := by
  induction n generalizing ip s with
  | zero =>
    cases visited
    exact .start run distinctInts distinctFloats
  | succ n ih =>
    rw [visit_succ] at visited
    obtain ⟨ip₀, s₀, before, passed⟩ := bind_eq_ok.1 visited
    have boundary := ih before
    cases at_ip : scope.method.code[ip₀]? with
    | none =>
      simp only [steps, at_ip] at passed
      cases passed
      exact boundary
    | some instr =>
      obtain ⟨fused, u, passes, rfl, rfl⟩ := boundary.passes_of_steps at_ip passed
      exact passes.next

lemma exists_spans {i : Nat} (isLabel : scope.IsLabel i) :
    ∃ place stop, Spans scope ints floats i place stop ∧
      (places last.ops.toList).lookup (.instruction i) = some place := by
  obtain ⟨n, s, visited, boundary⟩ := (start run distinctInts distinctFloats).exists_of_isLabel
    isLabel (Nat.zero_le i)
  have visited : visit scope n { ints, floats } = .ok i s := visited
  obtain ⟨instr, at_i, -⟩ := isLabel.action
  obtain ⟨fused, u, passes⟩ := boundary.exists_passes at_i
  have later : visit scope (n + 1) { ints, floats } = .ok (i + if fused then 2 else 1)
    u.reserving := by
    rw [visit_succ]
    exact bind_eq_ok.2 ⟨i, s, visited, (steps_one at_i).2 ⟨fused, passes.step, rfl⟩⟩
  exact ⟨s.ops.size, _, ⟨n, s, _, u.reserving, isLabel.lt, visited, later, rfl, rfl⟩,
    boundary.lookup_label isLabel⟩

/-- The operations of an instruction that leaves the method end with a jump to the exit. -/
lemma getElem?_leave {first stop : Nat} (at_ip : scope.method.code[ip]? = some instr)
    (asks : instr.action = .leave) (spans : Spans scope ints floats ip first stop) :
    first < stop ∧ last.ops[stop - 1]? = some (.jump .exit) := by
  obtain ⟨n, s, ip', t, -, visited, later, rfl, rfl⟩ := spans
  have boundary := of_visit run distinctInts distinctFloats visited
  rw [visit_succ] at later
  obtain ⟨_, _, visited', passed⟩ := bind_eq_ok.1 later
  cases visited.symm.trans visited'
  obtain ⟨fused, u, passes, rfl, -⟩ := boundary.passes_of_steps at_ip passed
  obtain ⟨empty, more, ops⟩ := instruction_leave asks passes.run
  -- nothing is pending, so nothing is reserved
  have kept : u.reserving = u := by
    rw [GenState.reserving, empty]
    exact if_pos (Nat.zero_le _)
  have grows := passes.next.grows
  rw [kept] at grows ⊢
  have size : u.ops.size - 1 = ((s.entering ip instr).ops ++ more).size := by
    rw [ops, Array.size_push, Nat.add_sub_cancel]
  refine ⟨?_, grows.keeps _ _ ?_ (.inl rfl)⟩
  · rw [ops, Array.size_push, Array.size_append]
    exact Nat.lt_succ_of_le (Nat.le_add_right _ _)
  · rw [size, ops]
    exact Array.getElem?_push_size

end Boundary

/-! ### Linked code -/

section Linked

variable {lits : Type} {backend : Backend γ φ lits} {unit : Nat} {scope : Scope}
  {ops : List (Operation γ φ)} {a : Assembly lits} {code : CodeBuffer} {ints : RegisterPool γ}
  {floats : RegisterPool φ} {e : CompileError}

/-- What stands at the place that a target is for: a label of the method, a stub that returns the
status of the target, or the shared end. -/
def Destination (scope : Scope) (ints : RegisterPool γ) (floats : RegisterPool φ)
    (ops : List (Operation γ φ)) (place : Nat) : JumpTarget → Prop
  | .instruction index => scope.IsLabel index ∧ ∃ stop, Gen.Spans scope ints floats index place stop
  | .fault kind =>
    ops[place]? = some (.bind (.fault kind)) ∧ ops[place + 1]? = some (.status kind.status)
  | .exit => ops[place]? = some (.bind .exit) ∧ ops[place + 1]? = some (.status 0)
  | .teardown => ops[place]? = some (.bind .teardown) ∧ ops[place + 1]? = some .teardown ∧
    ops[place + 2]? = none

lemma exists_destination (distinctInts : ints.Distinct) (distinctFloats : floats.Distinct)
    (generated : generate ints floats scope = (ops, none)) {op : Operation γ φ} (mem : op ∈ ops)
    {target : JumpTarget} (aims : target ∈ op.targets) :
    ∃ place, (places ops).lookup target = some place ∧
    Destination scope ints floats ops place target := by
  obtain ⟨last, run, same⟩ := generate_eq_none generated
  have boundary := Boundary.start run distinctInts distinctFloats
  have allAim : Gen.AllAim scope last := (Gen.fullBasis_allAim scope).method.ok run nofun
  obtain rfl : last.ops.toList = ops := by rw [same]
  cases target with
  | instruction index =>
    have isLabel := (allAim op (Array.mem_toList_iff.1 mem)).isLabel aims
    obtain ⟨place, stop, spans, found⟩ :=
      Boundary.exists_spans run distinctInts distinctFloats isLabel
    exact ⟨place, found, isLabel, stop, spans⟩
  | fault kind =>
    obtain ⟨place, found, at_place⟩ := boundary.lookup_stub (.fault kind) nofun
    refine ⟨place, found, ?_, ?_⟩ <;> rw [Array.getElem?_toList]
    · exact (at_place 0).trans (by cases kind <;> rfl)
    · exact (at_place 1).trans (by cases kind <;> rfl)
  | exit =>
    obtain ⟨place, found, at_place⟩ := boundary.lookup_stub .exit nofun
    refine ⟨place, found, ?_, ?_⟩ <;> rw [Array.getElem?_toList]
    · exact at_place 0
    · exact at_place 1
  | teardown =>
    obtain ⟨place, found, at_place⟩ := boundary.lookup_stub .teardown nofun
    refine ⟨place, found, ?_, ?_, ?_⟩ <;> rw [Array.getElem?_toList]
    · exact at_place 0
    · exact at_place 1
    · exact at_place 2

/-- Code whose branches go where the method says.  `a` is the assembly before its branches are
patched: it has recorded them. -/
structure Linked (backend : Backend γ φ lits) (unit : Nat) (scope : Scope)
    (ops : List (Operation γ φ)) (a : Assembly lits) (code : CodeBuffer) : Prop where
  generated : generate backend.ints backend.floats scope = (ops, none)
  assembled : Assembly.emitAll backend (.start backend) ops = .ok a
  offset : code.offset = a.code.offset
  /-- Every branch that is recorded is decoded as one to the place of its target. -/
  lands : ∀ site target, (site, target) ∈ a.fixups.sites.toList → ∃ place offset,
    Destination scope backend.ints backend.floats ops place target ∧
      Assembly.Starts backend ops place offset ∧ site.destination? code = some (offset : Int) ∧
      unit ∣ offset ∧ unit ∣ site.offset
  /-- It is recorded for an operation with that target, and stands in its code. -/
  recorded : ∀ site target, (site, target) ∈ a.fixups.sites.toList → ∃ place op,
    ops[place]? = some op ∧ target ∈ op.targets ∧ Assembly.Holds backend ops place site
  /-- Every target of an operation has its branch. -/
  branches : ∀ place op target, ops[place]? = some op → target ∈ op.targets → ∃ site,
    (site, target) ∈ a.fixups.sites.toList ∧ Assembly.Holds backend ops place site
  /-- Checks go to their faults, runtime calls that are halted to the exit, jumps to labels. -/
  aims : ∀ op ∈ ops, op.Aims scope
  /-- So do instructions that leave the method. -/
  leaves : ∀ ip instr first stop, scope.method.code[ip]? = some instr → instr.action = .leave →
    Gen.Spans scope backend.ints backend.floats ip first stop → first < stop ∧
    ops[stop - 1]? = some (.jump .exit)

omit [DecidableEq γ] [DecidableEq φ] in
/-- Operations that cannot be assembled have one that cannot be lowered. -/
lemma emitAll_ne_fixup (lawful : backend.Lawful unit)
    (failed : Assembly.emitAll backend a ops = .error e) (f : FixupError) : e ≠ .fixup f := by
  induction ops generalizing a with
  | nil => cases failed
  | cons op rest ih =>
    have split : Assembly.emitAll backend a (op :: rest) =
        (Assembly.emit backend a op >>= fun b => Assembly.emitAll backend b rest) := rfl
    rw [split] at failed
    cases here : Assembly.emit backend a op with
    | ok b =>
      rw [here] at failed
      exact ih failed
    | error e' =>
      rw [here] at failed
      cases failed
      exact Assembly.emit_ne_fixup lawful here f

/-- Generation fails for a reason of its own. -/
lemma generate_ne_fixup (generated : generate ints floats scope = (ops, some e)) (f : FixupError) :
    e ≠ .fixup f := by
  unfold generate at generated
  split at generated
  · cases generated
  · next failed =>
    cases generated
    exact (Gen.fullBasis_allAim scope).method.error failed f

/-- The answer of a compilation: linked code, or an error; and if the error is about a branch, the
target of the branch is too far away. -/
def Lands {α : Type} (links : α → Prop) : Except CompileError α → Prop
  | .ok a => links a
  | .error e => ∀ f, e = .fixup f → ∃ offset dest, f = .outOfRange offset dest

section

variable (lawful : backend.Lawful unit) (distinctInts : backend.ints.Distinct)
  (distinctFloats : backend.floats.Distinct)
include lawful distinctInts distinctFloats

section

variable (generated : generate backend.ints backend.floats scope = (ops, none))
  (assembled : Assembly.emitAll backend (.start backend) ops = .ok a)
include generated assembled

/-- What is known before branches are patched is known after. -/
lemma linked_of_resolved (resolved : a.fixups.Patches a.fixups.sites.toList a.code code) :
    Linked backend unit scope ops a code := by
  obtain ⟨last, run, same⟩ := generate_eq_none generated
  have toList : last.ops.toList = ops := by rw [same]
  refine ⟨generated, assembled, resolved.offset, fun site target mem => ?_,
    fun site target mem => ?_, fun place op target at_place aims => ?_, fun op mem => ?_, ?_⟩
  · obtain ⟨place', op, at_place', aims, -⟩ := Assembly.exists_of_site lawful assembled mem
    obtain ⟨place, found, destination⟩ :=
      exists_destination distinctInts distinctFloats generated (List.mem_of_getElem? at_place') aims
    obtain ⟨-, offset, starts, bound⟩ :=
      (Assembly.bound_of_emitAll lawful assembled target).found found
    obtain ⟨dest, bound', decodes⟩ := resolved.lands _ mem
    cases bound.symm.trans bound'
    have aligned := ((Assembly.laid_start unit).of_emitAll lawful assembled).sites _ mem
    obtain ⟨b, before, rfl⟩ := starts
    exact ⟨place, _, destination, ⟨b, before, rfl⟩, decodes,
      ((Assembly.laid_start unit).of_emitAll lawful before).dvd, aligned.2.1⟩
  · exact Assembly.exists_of_site lawful assembled mem
  · exact Assembly.exists_site lawful assembled at_place aims
  · refine (Gen.fullBasis_allAim scope).method.ok run nofun op ?_
    rw [← toList] at mem
    exact Array.mem_toList_iff.1 mem
  · intro ip instr first stop at_ip asks spans
    rw [← toList, Array.getElem?_toList]
    exact Boundary.getElem?_leave run distinctInts distinctFloats at_ip asks spans

/-- Branches of generated operations are resolved, unless a target is too far away. -/
lemma resolve_cases :
    (∃ code, a.fixups.resolve a.code = (.ok (), code) ∧ Linked backend unit scope ops a code) ∨
      ∃ offset dest code, a.fixups.resolve a.code = (.error (.outOfRange offset dest), code) := by
  have resolvable := Assembly.resolvable lawful assembled fun op mem target aims =>
    (exists_destination distinctInts distinctFloats generated mem aims).imp fun _ found => found.1
  refine (FixupTable.resolveSites_cases resolvable).imp_left fun ⟨code, ran, resolved⟩ =>
    ⟨code, ran, ?_⟩
  exact linked_of_resolved lawful distinctInts distinctFloats generated assembled resolved

end

lemma lands_assemble {failure : Option CompileError}
    (generated : generate backend.ints backend.floats scope = (ops, failure)) :
    Lands (fun object => ∃ a, Linked backend unit scope ops a object.code)
    (assemble backend ops failure) := by
  unfold assemble
  change Lands _ (Assembly.emitAll backend (.start backend) ops >>= _)
  cases assembled : Assembly.emitAll backend (.start backend) ops with
  | error e => exact fun f same => absurd same (emitAll_ne_fixup lawful assembled f)
  | ok a =>
    cases failure with
    | some e => exact fun f same => absurd same (generate_ne_fixup generated f)
    | none =>
      change Lands _ (pure a >>= _)
      rw [pure_bind]
      rcases resolve_cases lawful distinctInts distinctFloats generated assembled with
        ⟨code, resolved, linked⟩ | ⟨offset, dest, code, tooFar⟩
      · rw [resolved]
        exact ⟨a, linked⟩
      · rw [tooFar]
        rintro _ ⟨⟩
        exact ⟨offset, dest, rfl⟩

lemma lands_compileWith (scope : Scope) :
    Lands (fun r => ∃ a, Linked backend unit scope r.1 a r.2.code) (compileWith backend scope) := by
  unfold compileWith
  dsimp only
  split
  · exact nofun
  · cases generated : generate backend.ints backend.floats scope with
    | mk ops failure =>
      have lands := lands_assemble lawful distinctInts distinctFloats generated
      dsimp only
      cases assembled : assemble backend ops failure with
      | ok object | error e =>
        rw [assembled] at lands
        exact lands

end

lemma Lands.object
    (lands : Lands (fun r => ∃ a, Linked backend unit scope r.1 a r.2.code)
      (compileWith backend scope)) :
    (∀ f, (do return (← compileWith backend scope).2) = .error (.fixup f) →
        ∃ offset dest, f = .outOfRange offset dest) ∧
      ∀ object, (do return (← compileWith backend scope).2) = .ok object →
        ∃ ops a, Linked backend unit scope ops a object.code := by
  cases compiled : compileWith backend scope with
  | ok r =>
    rw [compiled] at lands
    refine ⟨nofun, ?_⟩
    rintro _ ⟨⟩
    exact ⟨r.1, lands⟩
  | error e =>
    rw [compiled] at lands
    refine ⟨?_, nofun⟩
    rintro f ⟨⟩
    exact lands f rfl

end Linked

/-! ### Every target -/

/-- The code of a method for a target, with its branches where the method says. -/
def LinkedFor (target : Target) (scope : Scope) (code : CodeBuffer) : Prop :=
  match target.resolve with
  | .x64Win64 => ∃ ops a, Linked (X64.backend .win64 scope.addresses) 1 scope ops a code
  | .a64 => ∃ ops a, Linked (A64.backend scope.addresses) 4 scope ops a code
  | _ => ∃ ops a, Linked (X64.backend .sysV scope.addresses) 1 scope ops a code

/-- Compiling a method never fails for a branch without a target or outside the code; and when it
succeeds, for whichever target, every branch of the code goes where the method says. -/
theorem linked_of_compile (target : Target) (scope : Scope) :
    (∀ f, compile target scope = .error (.fixup f) → ∃ offset dest, f = .outOfRange offset dest) ∧
      ∀ object, compile target scope = .ok object → LinkedFor target scope object.code := by
  have sysV := lands_compileWith (X64.lawful .sysV scope.addresses) (X64.distinct_ints _ _)
    (X64.distinct_floats _ _) scope
  have win64 := lands_compileWith (X64.lawful .win64 scope.addresses) (X64.distinct_ints _ _)
    (X64.distinct_floats _ _) scope
  have a64 := lands_compileWith (A64.lawful scope.addresses) (A64.distinct_ints _)
    (A64.distinct_floats _) scope
  cases target with
  | host | x64SysV => exact sysV.object
  | x64Win64 => exact win64.object
  | a64 => exact a64.object

/-- Divides by a local and counts it down, until it is zero. -/
def countdown : Scope where
  program := {}
  method := {
    name := "countdown"
    code := #[Build.label 0, Build.loadLocal 0, Build.int 0, Build.op .eqlInt, Build.jumpIf 14 1,
      Build.int 100, Build.loadLocal 0, Build.op .divInt, Build.op .popInt, Build.loadLocal 0,
      Build.int 1, Build.op .subInt, Build.storeLocal 0, Build.jump 0, Build.label 1, Build.leave] }

/-- A loop forwards and back, with a check for zero, compiled to instructions of four bytes. -/
theorem linked_of_compile_countdown :
    ∃ object, compile .a64 countdown = .ok object ∧ LinkedFor .a64 countdown object.code := by
  have compiles : (compile .a64 countdown).isOk = true := by decide +kernel
  cases compiled : compile .a64 countdown with
  | ok object => exact ⟨object, rfl, (linked_of_compile .a64 countdown).2 object compiled⟩
  | error e =>
    rw [compiled] at compiles
    cases compiles

end StackMachine.Native
