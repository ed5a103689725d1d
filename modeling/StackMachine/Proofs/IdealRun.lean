import StackMachine.Proofs.EngineEffects
import StackMachine.Proofs.Locals

/-!
# Runs of the ideal machine

`Ideal.run` performs the instructions of a method on the ideal machine, with an operand stack of
limited capacity and a bound on the number of instructions.  It takes the same bound as the
interpreter, and the interpreter's run mirrors it exactly (`Ideal.View.run`).

`Ideal.Walks` says what a run passes on its way.
-/

namespace StackMachine

open Native (Scope)

/-! ### What interpretation passes -/

namespace Interpreter

/-- Interpretation from one configuration, the place of the next instruction and the state, passes
another. -/
inductive Reaches (call : Instruction → Exec Unit) (method : Method) :
    Nat → State → Nat → State → Prop
  | refl (ip : Nat) (s : State) : Reaches call method ip s ip s
  | next {ip ip' : Nat} {s t u : State} {instr : Instruction}
      (at_ip : method.code[ip]? = some instr)
      (comes : step call method (ip + 1) instr s = .ok .next t)
      (rest : Reaches call method (ip + 1) t ip' u) : Reaches call method ip s ip' u
  | goto {ip ip' target : Nat} {s t u : State} {instr : Instruction}
      (at_ip : method.code[ip]? = some instr)
      (comes : step call method (ip + 1) instr s = .ok (.goto target) t)
      (rest : Reaches call method target t ip' u) : Reaches call method ip s ip' u

variable {call : Instruction → Exec Unit} {method : Method} {ip ip' : Nat} {s t u : State}
  {instr : Instruction}

/-- A fault of an instruction that is passed is the fault of the run. -/
lemma Reaches.exists_run_error (reaches : Reaches call method ip s ip' t)
    (at_ip : method.code[ip']? = some instr) {stop : Stop}
    (stops : step call method (ip' + 1) instr t = .error stop u) :
    ∃ fuel, run call method fuel ip s = .error stop u := by
  induction reaches with
  | refl ip s =>
    refine ⟨1, ?_⟩
    rw [run, at_ip]
    exact Exec.bind_of_error stops
  | next at_ip' comes _ ih | goto at_ip' comes _ ih =>
    obtain ⟨fuel, ended⟩ := ih at_ip stops
    refine ⟨fuel + 1, ?_⟩
    rw [run, at_ip']
    exact (Exec.bind_of_ok comes).trans ended

end Interpreter

/-- A method whose instructions name locals of its frame, and runtime calls that are declared. -/
structure Native.Scope.WellFormed (scope : Scope) : Prop where
  shaped : ∀ instr ∈ scope.method.code, instr.action = .runtime → (scope.shape? instr).isSome
  slots : ∀ instr ∈ scope.method.code, ∀ slot ∈ instr.action.slots,
    ∃ k, Word.toIndex? slot = some k ∧ k < scope.method.localWords

namespace Ideal

/-- How a run of a method ends. -/
inductive Ending where
  | left (v : Ideal)
  | faulted (fault : Fault) (machine : Machine)

/-- The state that an instruction comes to, unless it fails. -/
def Result.state? : Result → Option Ideal
  | .next v | .goto _ v | .leave v => some v
  | .fault _ _ => none

/-- What an instruction comes to if the stack has a capacity. -/
def Result.limit (capacity : Nat) (r : Result) : Result :=
  match r.state? with
  | some v => if v.stack.length ≤ capacity then r else v.fails .stackOverflow
  | none => r

section Run

variable (scope : Scope) (answer : Answer) (capacity : Nat)

/-- Runs a method from an instruction on, for at most `fuel` instructions; `none` if this is not
enough, or if an instruction would take a word from an empty stack. -/
def run : Nat → Nat → Ideal → Option Ending
  | 0, _, _ => none
  | fuel + 1, ip, v =>
    match scope.method.code[ip]? with
    | none => some (.left v)
    | some instr => (step scope answer instr v).bind fun r =>
      match r.limit capacity with
      | .next v => run fuel (ip + 1) v
      | .goto ip v => run fuel ip v
      | .leave v => some (.left v)
      | .fault fault machine => some (.faulted fault machine)

/-- What a run comes to after an instruction. -/
def resume (fuel ip : Nat) : Result → Option Ending
  | .next v => run scope answer capacity fuel ip v
  | .goto ip v => run scope answer capacity fuel ip v
  | .leave v => some (.left v)
  | .fault fault machine => some (.faulted fault machine)

/-- Instructions that are performed in a row. -/
inductive Walks : Nat → Nat → Ideal → Nat → Ideal → Prop
  | refl (ip : Nat) (v : Ideal) : Walks 0 ip v ip v
  | next {n ip ip' : Nat} {v v' w : Ideal} {instr : Instruction}
      (at_ip : scope.method.code[ip]? = some instr)
      (comes : step scope answer instr v = some (.next v')) (fits : v'.stack.length ≤ capacity)
      (rest : Walks n (ip + 1) v' ip' w) : Walks (n + 1) ip v ip' w
  | goto {n ip ip' target : Nat} {v v' w : Ideal} {instr : Instruction}
      (at_ip : scope.method.code[ip]? = some instr)
      (comes : step scope answer instr v = some (.goto target v'))
      (fits : v'.stack.length ≤ capacity) (rest : Walks n target v' ip' w) :
      Walks (n + 1) ip v ip' w

end Run

variable {scope : Scope} {answer : Answer} {capacity fuel n m ip ip' ip'' : Nat} {v v' w : Ideal}
  {instr : Instruction} {r : Result}

lemma run_succ (at_ip : scope.method.code[ip]? = some instr)
    (comes : step scope answer instr v = some r) :
    run scope answer capacity (fuel + 1) ip v = resume scope answer capacity fuel (ip + 1)
    (r.limit capacity) := by
  rw [run, at_ip]
  dsimp only
  rw [comes]
  rfl

lemma run_none (at_end : scope.method.code[ip]? = none) :
    run scope answer capacity (fuel + 1) ip v = some (.left v) := by
  rw [run, at_end]

lemma Result.limit_of_le (state : r.state? = some v) (fits : v.stack.length ≤ capacity) :
    r.limit capacity = r := by
  rw [limit, state]
  exact if_pos fits

lemma Result.limit_of_lt (state : r.state? = some v) (above : capacity < v.stack.length) :
    r.limit capacity = v.fails .stackOverflow := by
  rw [limit, state]
  exact if_neg (Nat.not_le.2 above)

/-- Within its limit an instruction comes to a state that fits the stack, or fails. -/
lemma Result.limit_cases (capacity : Nat) (r : Result) :
    (∃ v, r.state? = some v ∧ v.stack.length ≤ capacity ∧ r.limit capacity = r) ∨
      ∃ f m, r.limit capacity = .fault f m := by
  cases state : r.state? with
  | none =>
    cases r with
    | fault f m => exact .inr ⟨f, m, rfl⟩
    | _ => cases state
  | some v =>
    rcases Nat.lt_or_ge capacity v.stack.length with above | fits
    · exact .inr ⟨_, _, limit_of_lt state above⟩
    · exact .inl ⟨v, rfl, fits, limit_of_le state fits⟩

namespace Walks

/-- A step is from an instruction of the method. -/
lemma lt_size (walks : Walks scope answer capacity (n + 1) ip v ip' v') :
    ip < scope.method.code.size := by
  cases walks with
  | next at_ip | goto at_ip => exact (Array.getElem?_eq_some_iff.1 at_ip).1

lemma trans (first : Walks scope answer capacity n ip v ip' v')
    (second : Walks scope answer capacity m ip' v' ip'' w) :
    Walks scope answer capacity (n + m) ip v ip'' w := by
  induction first with
  | refl ip v => rwa [Nat.zero_add]
  | next at_ip comes fits _ ih =>
    rw [Nat.add_right_comm]
    exact .next at_ip comes fits (ih second)
  | goto at_ip comes fits _ ih =>
    rw [Nat.add_right_comm]
    exact .goto at_ip comes fits (ih second)

lemma run_add (walks : Walks scope answer capacity n ip v ip' v') (fuel : Nat) :
    run scope answer capacity (n + fuel) ip v = run scope answer capacity fuel ip' v' := by
  induction walks with
  | refl ip v => rw [Nat.zero_add]
  | next at_ip comes fits _ ih | goto at_ip comes fits _ ih =>
    rw [Nat.add_right_comm, run_succ at_ip comes, Result.limit_of_le rfl fits]
    exact ih

end Walks

/-- A run that has ended ends the same way with more fuel. -/
lemma run_mono {ending : Ending} : ∀ {fuel more ip : Nat} {v : Ideal}, fuel ≤ more →
    run scope answer capacity fuel ip v = some ending → run scope answer capacity more ip v =
      some ending := by
  intro fuel
  induction fuel with
  | zero => exact fun _ ended => nomatch ended
  | succ fuel ih =>
    intro more ip v le ended
    obtain ⟨more, rfl⟩ := Nat.exists_eq_add_of_le' (Nat.lt_of_lt_of_le fuel.succ_pos le)
    have le' : fuel ≤ more := Nat.le_of_succ_le_succ le
    cases at_ip : scope.method.code[ip]? with
    | none =>
      rw [run_none at_ip] at ended ⊢
      exact ended
    | some instr =>
      cases comes : step scope answer instr v with
      | none =>
        rw [run, at_ip] at ended
        dsimp only at ended
        rw [comes] at ended
        cases ended
      | some r =>
        rw [run_succ at_ip comes] at ended ⊢
        revert ended
        cases r.limit capacity with
        | next v | goto ip v => exact ih le'
        | leave v => exact id
        | fault fault machine => exact id

/-! ### The interpreter's runs -/

/-- The interpreter comes to a result. -/
def Meets (capacity : Nat) (outer : List Frame) :
    Result → EStateM.Result Stop State Interpreter.Flow → Prop
  | .next v, e => ∃ t, e = .ok .next t ∧ View capacity outer v t
  | .goto ip v, e => ∃ t, e = .ok (.goto ip) t ∧ View capacity outer v t
  | .leave v, e => ∃ t, e = .ok .leave t ∧ View capacity outer v t
  | .fault fault machine, e =>
    ∃ t, e = .error (.fault fault) t ∧ t.machine = machine ∧ Framed outer t

/-- The interpreter ends as the ideal machine does, or has too little fuel like it. -/
def Mirrors (capacity : Nat) (outer : List Frame) :
    Option Ending → EStateM.Result Stop State Unit → Prop
  | none, e => ∃ t, e = .error .stuck t
  | some (.left v), e => ∃ t, e = .ok () t ∧ View capacity outer v t
  | some (.faulted fault machine), e =>
    ∃ t, e = .error (.fault fault) t ∧ t.machine = machine ∧ Framed outer t

namespace View

variable {outer : List Frame} {s : State} {call : Instruction → Exec Unit}

section

variable (view : View capacity outer v s) (describes : answer.Describes scope call)
  (wellFormed : scope.WellFormed) (size : v.mem.size = scope.method.localWords + 1)
  (at_ip : scope.method.code[ip]? = some instr)
include view describes wellFormed size at_ip

/-- The interpreter does with an instruction of a well-formed method what the ideal machine does. -/
lemma matches_step (next : Nat) :
    Matches capacity outer (Ideal.step scope answer instr v)
    (Interpreter.step call scope.method next instr s) := by
  have inCode : instr ∈ scope.method.code := Array.mem_of_getElem? at_ip
  refine view.step describes inCode (wellFormed.shaped instr inCode) ?_ next
  intro slot mem
  obtain ⟨k, index, bound⟩ := wellFormed.slots instr inCode slot mem
  exact ⟨k, index, by omega⟩

/-- The interpreter comes to what the ideal machine comes to within the limit of the stack. -/
lemma step_limit (comes : Ideal.step scope answer instr v = some r) (next : Nat) :
    Meets capacity outer (r.limit capacity) (Interpreter.step call scope.method next instr s) := by
  have meets := view.matches_step describes wellFormed size at_ip next
  rw [comes] at meets
  cases r with
  | fault => exact meets
  | next | goto | leave =>
    obtain ⟨fits, arrives⟩ | ⟨above, overflows⟩ := meets
    · rw [Result.limit_of_le rfl fits]
      exact arrives
    · rw [Result.limit_of_lt rfl above]
      exact overflows

end

/-- An instruction leaves the number of words of the frame. -/
lemma size_of_step {t : State} {next : Nat} {flow : Interpreter.Flow}
    (view : View capacity outer v s) (view' : View capacity outer v' t)
    (describes : answer.Describes scope call) (wellFormed : scope.WellFormed)
    (at_ip : scope.method.code[ip]? = some instr)
    (ran : Interpreter.step call scope.method next instr s = .ok flow t) :
    v'.mem.size = v.mem.size := by
  have sizes : t.frameSizes = s.frameSizes := by
    refine (Interpreter.does_step Exec.sizes_basis scope.method next (fun asks => ?_) s).1 _ _ ran
    rcases asks with asks | asks
    · rw [describes.arraySize instr asks]
      exact (RuntimeCall.rules_ends Exec.sizes_basis.toBasis).arraySize
    · have inCode : instr ∈ scope.method.code := Array.mem_of_getElem? at_ip
      obtain ⟨shape, declared⟩ := Option.isSome_iff_exists.1 (wellFormed.shaped instr inCode asks)
      rw [describes.runtime instr inCode asks shape declared]
      exact Exec.Ends.mono (answer.leaves_perform _ instr (fun _ _ => rfl) fun _ _ => rfl).does id
        fun _ => trivial
  obtain ⟨f, frames, mem⟩ := view.frame
  obtain ⟨f', frames', mem'⟩ := view'.frame
  rw [State.frameSizes, State.frameSizes, frames, frames', List.map_cons, List.map_cons, mem,
    mem'] at sizes
  exact (List.cons.inj sizes).1

variable (describes : answer.Describes scope call) (wellFormed : scope.WellFormed)
include describes wellFormed

/-- What the ideal machine walks to is passed by interpretation. -/
lemma exists_reaches (walks : Walks scope answer capacity n ip v ip' v') :
    ∀ {s : State}, View capacity outer v s →
      v.mem.size = scope.method.localWords + 1 →
        ∃ t, Interpreter.Reaches call scope.method ip s ip' t ∧ View capacity outer v' t ∧
          v'.mem.size = scope.method.localWords + 1 := by
  induction walks with
  | refl ip v => exact fun {s} view size => ⟨s, .refl ip s, view, size⟩
  | @next _ ip _ _ _ _ _ at_ip comes fits _ ih =>
    intro s view size
    have meets := view.step_limit describes wellFormed size at_ip comes (ip + 1)
    rw [Result.limit_of_le rfl fits] at meets
    obtain ⟨t, run, view'⟩ := meets
    obtain ⟨u, reaches, rest⟩ :=
      ih view' ((view.size_of_step view' describes wellFormed at_ip run).trans size)
    exact ⟨u, .next at_ip run reaches, rest⟩
  | @goto _ ip _ _ _ _ _ _ at_ip comes fits _ ih =>
    intro s view size
    have meets := view.step_limit describes wellFormed size at_ip comes (ip + 1)
    rw [Result.limit_of_le rfl fits] at meets
    obtain ⟨t, run, view'⟩ := meets
    obtain ⟨u, reaches, rest⟩ :=
      ih view' ((view.size_of_step view' describes wellFormed at_ip run).trans size)
    exact ⟨u, .goto at_ip run reaches, rest⟩

/-- The interpreter's run mirrors the run of the ideal machine, if no instruction on the way takes a
word from an empty stack. -/
theorem run (fuel : Nat) :
    ∀ {ip : Nat} {v : Ideal} {s : State}, View capacity outer v s →
    v.mem.size = scope.method.localWords + 1 →
      (∀ n ip' v', Walks scope answer capacity n ip v ip' v' → ∀ instr,
        scope.method.code[ip']? = some instr → Ideal.step scope answer instr v' ≠ none) →
      Mirrors capacity outer (Ideal.run scope answer capacity fuel ip v)
        (Interpreter.run call scope.method fuel ip s) := by
  induction fuel with
  | zero => exact fun {ip v s} _ _ _ => ⟨s, rfl⟩
  | succ fuel ih =>
    intro ip v s view size enough
    unfold Interpreter.run
    cases at_ip : scope.method.code[ip]? with
    | none =>
      rw [run_none at_ip]
      exact ⟨s, rfl, view⟩
    | some instr =>
      obtain ⟨r, comes⟩ := Option.ne_none_iff_exists'.1 (enough 0 ip v (.refl ip v) instr at_ip)
      have meets := view.step_limit describes wellFormed size at_ip comes (ip + 1)
      rw [run_succ at_ip comes]
      rcases Result.limit_cases capacity r with ⟨v', state, fits, same⟩ | ⟨f, m, same⟩
      · rw [same] at meets ⊢
        cases r with
        | fault f m => cases state
        | next v' =>
          cases state
          obtain ⟨t, run, view'⟩ := meets
          dsimp only
          rw [Exec.bind_of_ok run]
          exact ih view' ((view.size_of_step view' describes wellFormed at_ip run).trans size)
            fun n ip' w walks =>
            enough (n + 1) ip' w (.next at_ip comes fits walks)
        | goto target v' =>
          cases state
          obtain ⟨t, run, view'⟩ := meets
          dsimp only
          rw [Exec.bind_of_ok run]
          exact ih view' ((view.size_of_step view' describes wellFormed at_ip run).trans size)
            fun n ip' w walks =>
            enough (n + 1) ip' w (.goto at_ip comes fits walks)
        | leave v' =>
          obtain ⟨t, run, view'⟩ := meets
          dsimp only
          rw [Exec.bind_of_ok run]
          exact ⟨t, rfl, view'⟩
      · rw [same] at meets ⊢
        obtain ⟨t, run, rest⟩ := meets
        exact ⟨t, Exec.bind_of_error run, rest⟩

end View

end Ideal

end StackMachine
