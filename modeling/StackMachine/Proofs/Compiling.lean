import StackMachine.Proofs.Calls
import StackMachine.Proofs.Native.Landing

/-!
# Compiling at a call

What asking for the compiled body of a method comes to: nothing, if there is to be no compiled code;
the outcome that is recorded; or, at a call that wants it, the outcome of generating code for the
method, which is recorded. Code that has been generated is never empty, so there is always a place
for it, and asking never fails (`Call.exists_nativeBody`).
-/

namespace StackMachine

namespace CompileOutcome

/-- What an outcome has a call run: the compiled body, or none after a failure. -/
def body? : CompileOutcome → Option NativeBody
  | .compiled body => some body
  | .failed _ => none

/-- What generating code for a method and a target comes to: the error, or the operations with their
code. -/
def Of (program : Program) (target : Target) (method : Method) : CompileOutcome → Prop
  | .failed reason => ∃ e, Native.compile target { program, method } = .error e ∧ reason = e.message
  | .compiled body => ∃ ops object,
    Native.compileWith (X64.backend .sysV) { program, method } = .ok (ops, object) ∧
      Native.compile target { program, method } = .ok object ∧ body.ops = ops.toArray ∧
      body.places = Native.places ops ∧ body.codeLength = object.code.bytes.size ∧
      body.literals = object.literals.length

end CompileOutcome

namespace Native

/-- Linked code is not empty: the exit has a branch to the shared end. -/
lemma Linked.offset_pos {γ φ lits : Type} [DecidableEq γ] [DecidableEq φ]
    {backend : Backend γ φ lits} {unit : Nat} {scope : Scope} {ops : List (Operation γ φ)}
    {a : Assembly lits} {code : CodeBuffer} (linked : Linked backend unit scope ops a code)
    (lawful : backend.Lawful unit) (distinctInts : backend.ints.Distinct)
    (distinctFloats : backend.floats.Distinct) : 0 < code.offset := by
  obtain ⟨last, run, same⟩ := generate_eq_none linked.generated
  obtain ⟨place, -, at_place⟩ := (Boundary.start run distinctInts distinctFloats).lookup_stub
    .exit nofun
  have status : ops[place + 1]? = some (.status 0) := by
    rw [← List.getElem?_toArray, ← same]
    exact at_place 1
  obtain ⟨site, mem, -⟩ := linked.branches _ _ .teardown status (List.mem_singleton_self _)
  have laid := (Assembly.laid_start unit).of_emitAll lawful linked.assembled
  have inside := (laid.sites _ mem).1
  rw [linked.offset]
  omega

end Native

namespace Call

open Exec

/-- Code that is not empty can be placed. -/
lemma exists_install (pages : CodePages) {code : Array UInt8} (nonempty : 0 < code.size) :
    ∃ entry pages', pages.install code = .ok (entry, pages') := by
  have some : ¬code.isEmpty = true := by
    rw [Array.isEmpty_iff_size_eq_zero]
    omega
  rw [CodePages.install, if_neg some]
  exact ⟨_, _, rfl⟩

/-- Compiling a method for this machine has an outcome, that of generating its code. -/
lemma exists_compile (m : Machine) (method : Method)
    (executable : m.settings.target.isExecutable = true) :
    ∃ outcome pages, compile m method = .ok (outcome, pages) ∧
    outcome.Of m.program m.settings.target method := by
  have here : m.settings.target.resolve = .x64SysV := by
    simpa [Target.isExecutable, Target.this] using executable
  have lands := Native.lands_compileWith (X64.lawful .sysV {}) (X64.distinct_ints _ _)
    (X64.distinct_floats _ _) { program := m.program, method }
  have same : Native.compile m.settings.target { program := m.program, method } =
      (do return (← Native.compileWith (X64.backend .sysV)
        { program := m.program, method }).2) := by
    rw [Native.compile, here]
  unfold compile
  cases compiled : Native.compileWith (X64.backend .sysV) { program := m.program, method } with
  | error e =>
    rw [compiled] at same
    exact ⟨_, _, rfl, e, same, rfl⟩
  | ok r =>
    obtain ⟨ops, object⟩ := r
    rw [compiled] at lands same
    obtain ⟨a, linked⟩ := lands
    have nonempty := linked.offset_pos (X64.lawful .sysV {}) (X64.distinct_ints _ _)
      (X64.distinct_floats _ _)
    obtain ⟨entry, pages, installed⟩ := exists_install m.pages nonempty
    dsimp only
    rw [installed]
    exact ⟨_, _, rfl, ops, object, compiled, same, rfl, rfl, rfl, rfl⟩

end Call

/-! ### Records -/

namespace Machine

/-- What is known about a method, if it has a record. -/
def record? (m : Machine) (id : MethodId) : Option MethodRecord :=
  (m.records[id.cls]?).bind fun row => row[id.index]?

/-- Changing the record of a method leaves the other records. -/
lemma record?_modifyRecord (m : Machine) (id id' : MethodId) (f : MethodRecord → MethodRecord) :
    (m.modifyRecord id f).record? id' = if id' = id then (m.record? id).map f
    else m.record? id' := by
  obtain ⟨cls, index⟩ := id
  obtain ⟨cls', index'⟩ := id'
  unfold record? modifyRecord
  dsimp only
  rw [Array.getElem?_modify]
  by_cases same : cls = cls'
  · subst same
    rw [if_pos rfl]
    cases m.records[cls]? with
    | none => simp
    | some row =>
      by_cases here : index = index'
      · simp [Array.getElem?_modify, here]
      · simp [Array.getElem?_modify, here, Ne.symm here]
  · have other : ¬(⟨cls', index'⟩ : MethodId) = ⟨cls, index⟩ :=
      fun equal => same (by cases equal; rfl)
    rw [if_neg same, if_neg other]

/-- The shared state after a call that finds no outcome has been counted. -/
def counting (m : Machine) (method : Method) (site : Bool) : Machine :=
  if m.settings.jitMode = .auto ∧ ¬site then
    m.modifyRecord method.id fun r => { r with calls := r.calls + 1 }
  else m

lemma settings_counting (m : Machine) (method : Method) (site : Bool) :
    (m.counting method site).program = m.program ∧
    (m.counting method site).settings = m.settings := by
  unfold counting
  split
  · exact ⟨rfl, rfl⟩
  · exact ⟨rfl, rfl⟩

/-- There is to be no compiled code. -/
abbrev Plain (m : Machine) : Prop := m.settings.jitMode = .off ∨ ¬m.settings.target.isExecutable

end Machine

namespace Call

open Exec

/-- The shared state after a method has been compiled. -/
def settling (m : Machine) (method : Method) (outcome : CompileOutcome) (pages : CodePages) :
    Machine :=
  ({ m with pages } : Machine).modifyRecord method.id fun r => { r with outcome := some outcome }

/-- How a call finds its engine, and the shared state after: there is no compiled code, the outcome
is known, the call is one of those before the method is compiled, or the method is compiled. -/
inductive Finds (m : Machine) (method : Method) (site : Bool) : Option NativeBody → Machine → Prop
  | plain (plain : m.Plain) : Finds m method site none m
  | known {outcome : CompileOutcome} (compiling : ¬m.Plain)
      (known : (m.record method.id).outcome = some outcome) : Finds m method site outcome.body? m
  | waits (compiling : ¬m.Plain) (unknown : (m.record method.id).outcome = none)
      (unwanted : isWanted m.settings site ((m.counting method site).record method.id).calls =
        false) :
      Finds m method site none (m.counting method site)
  | settles {outcome : CompileOutcome} {pages : CodePages} (compiling : ¬m.Plain)
      (unknown : (m.record method.id).outcome = none)
      (wanted : isWanted m.settings site ((m.counting method site).record method.id).calls = true)
      (of : outcome.Of m.program m.settings.target method) :
      Finds m method site outcome.body? (settling (m.counting method site) method outcome pages)

lemma exists_settleOutcome (method : Method) {s : State}
    (executable : s.machine.settings.target.isExecutable = true) :
    ∃ outcome pages, outcome.Of s.machine.program s.machine.settings.target method ∧
      settleOutcome method s =
        .ok outcome { s with machine := settling s.machine method outcome pages } := by
  obtain ⟨outcome, pages, compiled, of⟩ := exists_compile s.machine method executable
  have asked : asksMachine (fun m => compile m method) s = .ok (.ok (outcome, pages)) s := by
    rw [← compiled]
    rfl
  refine ⟨outcome, pages, of, ?_⟩
  rw [settleOutcome, bind_of_ok asked]
  rfl

lemma countCall_eq (method : Method) (site : Bool) (s : State) :
    countCall method site s = .ok ((s.machine.counting method site).record method.id).calls
      { s with machine := s.machine.counting method site } := by
  unfold countCall Machine.counting
  have asked : asksMachine (fun m => m.settings.jitMode) s = .ok s.machine.settings.jitMode s := rfl
  rw [bind_of_ok asked]
  split
  · rfl
  · rfl

/-- Every call finds its engine. -/
theorem exists_nativeBody (method : Method) (site : Bool) (s : State) :
    ∃ body? machine, nativeBody method site s = .ok body? { s with machine } ∧
      Finds s.machine method site body? machine := by
  have asked : asksMachine Machine.settings s = .ok s.machine.settings s := rfl
  have record : asksMachine (fun m => (m.record method.id).outcome) s =
      .ok (s.machine.record method.id).outcome s := rfl
  unfold nativeBody
  rw [bind_of_ok asked]
  by_cases plain : s.machine.Plain
  · rw [if_pos plain]
    exact ⟨none, s.machine, rfl, .plain plain⟩
  rw [if_neg plain]
  dsimp only
  cases known : (s.machine.record method.id).outcome with
  | some outcome =>
    rw [known] at record
    rw [bind_of_ok record]
    exact ⟨outcome.body?, s.machine, by cases outcome <;> rfl, .known plain known⟩
  | none =>
    rw [known] at record
    rw [bind_of_ok record]
    dsimp only
    rw [bind_of_ok (countCall_eq method site s)]
    cases wanted : isWanted s.machine.settings site
      ((s.machine.counting method site).record method.id).calls with
    | false =>
      rw [if_neg Bool.false_ne_true]
      exact ⟨none, _, rfl, .waits plain known wanted⟩
    | true =>
      rw [if_pos rfl]
      obtain ⟨program_eq, settings_eq⟩ := s.machine.settings_counting method site
      have executable : (s.machine.counting method site).settings.target.isExecutable = true := by
        rw [settings_eq]
        exact not_not.1 fun refused => plain (.inr refused)
      obtain ⟨outcome, pages, of, settles⟩ :=
        exists_settleOutcome method (s := { s with machine := s.machine.counting method site })
          executable
      rw [bind_of_ok settles]
      rw [program_eq, settings_eq] at of
      exact ⟨outcome.body?, _, by cases outcome <;> rfl, .settles plain known wanted of⟩

end Call

end StackMachine
