import StackMachine.Proofs.IdealRun
import StackMachine.Proofs.Native.Targets

/-!
# Compiled code runs as the ideal machine does

At a boundary the compiled code and the ideal machine are compared (`Execution.Sim`).  From there
both come to another boundary or to the same end (`Execution.Sim.advances`), so that each of them
ends if the other does, and in the same way.

The room on the operand stack is the delicate part.  A reservation is for all pending values up to
the point where it is closed, so compiled code may overflow before the ideal machine does.  Between
the two nothing can be observed: an execution in which the reservation failed is followed as if it
had passed, and is found to overflow on the ideal machine before the reservation is closed
(`Execution.Doomed.overflows`).
-/

namespace StackMachine

/-- A reservation checks whether so many words fit above the stack. -/
lemma OperandStack.Holds.ofNat_capacity_lt {s : OperandStack} {xs : List Word} (holds : s.Holds xs)
    (words : UInt32) :
    Word.ofNat s.capacity < s.cursor + Word.ofNat words.toNat ↔
    s.capacity < xs.length + words.toNat := by
  have small := words.toNat_lt
  have length := holds.length_lt
  have size := holds.size_words
  have lt := holds.size_lt
  have sum : s.cursor + Word.ofNat words.toNat = Word.ofNat (xs.length + words.toNat) := by
    rw [holds.cursor_eq]
    exact (Int64.ofNat_add _ _).symm
  rw [sum]
  exact Word.ofNat_lt_ofNat (by omega) (by omega)

namespace Native

variable {γ φ : Type} [DecidableEq γ] [DecidableEq φ]

/-- A reservation for as many words as its operand can tell, which may be meant for more, never
passes on a stack of a capacity. -/
def Unclamped (capacity : Nat) (ops : Array (Operation γ φ)) : Prop :=
  ∀ target, .reserve 0xFFFFFFFF target ∈ ops → capacity < 0xFFFFFFFF

namespace Execution

/-! ### What is assumed -/

/-- The instruction at a place can be performed: there is enough on the stack, memory is laid out as
the instruction names it, and there is room for what a runtime call leaves.  If the stack overflows,
the reservations tell how many words they are for. -/
structure Admits (x : Execution γ φ) (ip : Nat) (v : Ideal) (instr : Instruction) : Prop where
  comes : Ideal.step x.scope x.answer instr v ≠ none
  regular : instr.Regular v.stack.head? v.machine.heap
  room : instr.action = .runtime → ∀ v', Ideal.step x.scope x.answer instr v = some (.next v') →
    v'.stack.length ≤ x.capacity
  unclamped : ∀ v', Ideal.step x.scope x.answer instr v = some (.next v') →
    x.capacity < v'.stack.length → Unclamped x.capacity x.ops

/-- Every instruction that is come to can be performed. -/
def Safe (x : Execution γ φ) (ip : Nat) (v : Ideal) : Prop :=
  ∀ n ip' v', Ideal.Walks x.scope x.answer x.capacity n ip v ip' v' → ∀ instr,
    x.scope.method.code[ip']? = some instr → x.Admits ip' v' instr

/-- The code is the compiled method, with a runtime that acts by the meaning of its calls, and
without a store from a float register to an element that is narrower. -/
structure Sound (x : Execution γ φ) : Prop where
  begins : ∃ s, Boundary x.scope x.last 0 s
  serves : ∀ ip instr, x.scope.method.code[ip]? = some instr → instr.action = .runtime →
    x.Serves ip instr
  whole : WholeWords x.ops

/-! ### The relation -/

/-- The open reservation has passed in its final width. -/
def Promised (x : Execution γ φ) (s : GenState γ φ) (σ : State) : Prop :=
  ∀ place words target, s.openReserve = some place → x.ops[place]? = some (.reserve words target) →
    σ.context.stack.size + words.toNat ≤ x.capacity

/-- Compiled code at a boundary stands for the ideal machine before an instruction. -/
structure Sim (x : Execution γ φ) (ip : Nat) (v : Ideal) (s : GenState γ φ) (c : Config γ φ) :
    Prop where
  boundary : Boundary x.scope x.last ip s
  at_place : c.place = s.ops.size
  stands : (x.Stands [] v).holds s c
  promised : x.Promised s c.state

/-- As `Sim`, in an execution that would have failed at the open reservation. -/
structure Doomed (x : Execution γ φ) (ip : Nat) (v : Ideal) (s : GenState γ φ) (c : Config γ φ) :
    Prop where
  boundary : Boundary x.scope x.last ip s
  at_place : c.place = s.ops.size
  stands : (x.Stands [] v).holds s c
  full : ∃ place words target, s.openReserve = some place ∧
    x.ops[place]? = some (.reserve words target) ∧
      x.capacity < c.state.context.stack.size + words.toNat

/-- A compiled method ends as the ideal machine does. -/
def Concludes (x : Execution γ φ) : Ideal.Ending → Word → State → Prop
  | .left v, status, σ =>
    status = 0 ∧ σ.context.stack.Holds v.stack ∧ σ.machine = v.machine ∧ x.Calm σ
  | .faulted fault machine, status, σ => σ.machine = machine ∧
    ((∃ cause, fault = { cause } ∧ cause.status? = some status ∧ x.Calm σ) ∨
      (status = 0 ∧ x.Halted fault σ))

variable {x : Execution γ φ} {ip n : Nat} {v v' : Ideal} {s u : GenState γ φ} {c c' : Config γ φ}
  {instr : Instruction} {fused : Bool} {r : Ideal.Result}

section

omit [DecidableEq γ] [DecidableEq φ]

/-- What is come to later can be performed. -/
lemma Safe.walks (safe : x.Safe ip v) {ip' : Nat}
    (walks : Ideal.Walks x.scope x.answer x.capacity n ip v ip' v') : x.Safe ip' v' :=
  fun m _ _ further => safe (n + m) _ _ (walks.trans further)

/-- The instruction at hand can be performed. -/
lemma Safe.admits (safe : x.Safe ip v) (at_ip : x.scope.method.code[ip]? = some instr) :
    x.Admits ip v instr :=
  safe 0 ip v (.refl ip v) instr at_ip

/-! ### The ideal machine along compiled instructions -/

variable (at_ip : x.scope.method.code[ip]? = some instr) (fits : v.stack.length ≤ x.capacity)
include at_ip fits

/-- What compiled code leads to is what a run of the ideal machine goes on with. -/
lemma Leads.run_add (leads : x.Leads instr x.scope.method.code[ip + 1]? v fused r) (fuel : Nat) :
    Ideal.run x.scope x.answer x.capacity ((if fused then 2 else 1) + fuel) ip v =
      Ideal.resume x.scope x.answer x.capacity fuel (ip + if fused then 2 else 1)
      (r.limit x.capacity) := by
  cases fused with
  | false =>
    rw [Nat.add_comm]
    exact Ideal.run_succ at_ip leads
  | true =>
    obtain ⟨after, v', follows, lower, comes, comes'⟩ := leads
    have first : Ideal.Walks x.scope x.answer x.capacity 1 ip v (ip + 1) v' :=
      .next at_ip comes (Nat.le_trans lower fits) (.refl _ _)
    rw [show (if true = true then 2 else 1) + fuel = 1 + (fuel + 1) by simp; omega, first.run_add]
    exact Ideal.run_succ follows comes'

/-- What compiled code leads to is walked to by the ideal machine. -/
lemma Leads.walks_next (leads : x.Leads instr x.scope.method.code[ip + 1]? v fused (.next v'))
    (fits' : v'.stack.length ≤ x.capacity) :
    Ideal.Walks x.scope x.answer x.capacity (if fused then 2 else 1) ip v
      (ip + if fused then 2 else 1) v' := by
  cases fused with
  | false => exact .next at_ip leads fits' (.refl _ _)
  | true =>
    obtain ⟨after, w, follows, lower, comes, comes'⟩ := leads
    exact .next at_ip comes (Nat.le_trans lower fits) (.next follows comes' fits' (.refl _ _))

/-- A jump that compiled code leads to is taken by the ideal machine. -/
lemma Leads.walks_goto {target : Nat}
    (leads : x.Leads instr x.scope.method.code[ip + 1]? v fused (.goto target v'))
    (fits' : v'.stack.length ≤ x.capacity) :
    Ideal.Walks x.scope x.answer x.capacity (if fused then 2 else 1) ip v target v' := by
  cases fused with
  | false => exact .goto at_ip leads fits' (.refl _ _)
  | true =>
    obtain ⟨after, w, follows, lower, comes, comes'⟩ := leads
    exact .next at_ip comes (Nat.le_trans lower fits) (.goto follows comes' fits' (.refl _ _))

/-- If the ideal machine overflows, reservations tell how many words they are for. -/
lemma Safe.unclamped (safe : x.Safe ip v)
    (leads : x.Leads instr x.scope.method.code[ip + 1]? v fused (.next v'))
    (above : x.capacity < v'.stack.length) : Unclamped x.capacity x.ops := by
  cases fused with
  | false => exact (safe.admits at_ip).unclamped v' leads above
  | true =>
    obtain ⟨after, w, follows, lower, comes, comes'⟩ := leads
    have first : Ideal.Walks x.scope x.answer x.capacity 1 ip v (ip + 1) w :=
      .next at_ip comes (Nat.le_trans lower fits) (.refl _ _)
    exact ((safe.walks first).admits follows).unclamped v' comes' above

end

/-! ### One instruction -/

section

variable (stands : (x.Stands [] v).holds s c)
include stands

/-- The stack of the ideal machine is the stack in memory and the pending values. -/
lemma Stands.length_eq : v.stack.length = s.pending.length + c.state.context.stack.size := by
  obtain ⟨pend, below, keys, stack, rep⟩ := stands
  rw [stack, List.length_append, List.length_map, rep.stack.size_eq, ← keys, List.length_map]

lemma Stands.room : c.state.context.stack.size + s.covered ≤ x.capacity := by
  obtain ⟨pend, below, keys, stack, rep⟩ := stands
  rw [rep.stack.size_eq]
  exact rep.room

/-- The stack of the ideal machine fits where the room that is recorded is enough. -/
lemma Stands.fits (covers : s.pending.length ≤ s.covered) : v.stack.length ≤ x.capacity := by
  have length := Stands.length_eq stands
  have room := Stands.room stands
  omega

/-- Room for all pending values is there where the stack of the ideal machine fits. -/
lemma Stands.cover (fits : v.stack.length ≤ x.capacity)
    (u : GenState γ φ) (place : Nat) (pending : u.pending = s.pending)
    (covered : u.covered = s.pending.length) :
    (x.Stands [] v).holds u ⟨place, c.proc, c.state⟩ := by
  have length := Stands.length_eq stands
  obtain ⟨pend, below, keys, stack, rep⟩ := stands
  rw [rep.stack.size_eq] at length
  exact ⟨pend, below, keys.trans pending.symm, stack, rep.cover (by omega)⟩

end

/-- The operations of the instruction at a boundary lead on, or to a jump. -/
lemma reaches (sound : x.Sound) (safe : x.Safe ip v) (boundary : Boundary x.scope x.last ip s)
    (at_place : c.place = s.ops.size) (stands : (x.Stands [] v).holds s c)
    (at_ip : x.scope.method.code[ip]? = some instr)
    (passes : Passes x.scope x.last ip instr s fused u) :
    x.Reaches (x.Exits fun r => ∃ fused, x.Leads instr x.scope.method.code[ip + 1]? v fused r) c u
      ((x.Next (x.Leads instr x.scope.method.code[ip + 1]? v fused)).holds u) := by
  obtain ⟨comes, regular, room, -⟩ := safe.admits at_ip
  obtain ⟨r, comes⟩ := Option.ne_none_iff_exists'.1 comes
  have triple : Triple x _ instr.action.writesMemory ((x.Stands [] v).also fun s => s.ip = ip)
      (Gen.instruction x.scope instr x.scope.method.code[ip + 1]?) _ :=
    .instruction (sound.serves ip instr at_ip) sound.whole at_ip
      (Stands.fits stands boundary.covers) regular comes fun asks v' same =>
        room asks v' (same ▸ comes)
  exact triple.runs (s := s.entering ip instr) (fun writes => if_pos writes) passes.run passes.alive
    (.of_reserving passes.reserved passes.next.grows) ⟨rfl, boundary.owned⟩ c at_place stands

/-! ### Room on the stack -/

lemma fits_of_passed (stands : (x.Stands [] v).holds s c) {place : Nat} {words : UInt32}
    {target : JumpTarget} (unclamped : Unclamped x.capacity x.ops)
    (fetch : x.ops[place]? = some (.reserve words target))
    (wide : reserveWords s.pending.length ≤ words)
    (passed : c.state.context.stack.size + words.toNat ≤ x.capacity) :
    v.stack.length ≤ x.capacity := by
  have length := Stands.length_eq stands
  rw [UInt32.le_iff_toNat_le, toNat_reserveWords] at wide
  by_cases all : words = 0xFFFFFFFF
  · subst all
    have beyond := unclamped target (Array.mem_of_getElem? fetch)
    have told : UInt32.toNat 0xFFFFFFFF = 0xFFFFFFFF := rfl
    omega
  · have told : words.toNat ≠ 0xFFFFFFFF := fun same => all (UInt32.toNat_inj.1 same)
    have small := words.toNat_lt
    omega

lemma perform_reserve (stands : (x.Stands [] v).holds s c) (words : UInt32) (target : JumpTarget) :
    x.perform (.reserve words target) c.proc c.state = .ok (c.proc, Processor.Flow.when
        (decide (x.capacity < c.state.context.stack.size + words.toNat)) target) c.state := by
  obtain ⟨pend, below, -, -, rep⟩ := stands
  have full := rep.stack.ofNat_capacity_lt words
  rw [rep.stack.size_eq, ← rep.calm.capacity, ← decide_eq_decide.2 full]
  rfl

/-- After an instruction there is room for what is pending, or the reservation fails; then the stack
of the ideal machine does not fit, or the execution is doomed. -/
lemma settles (next : Boundary x.scope x.last ip u.reserving) (reserved : u.Reserved)
    (at_place : c.place = u.ops.size) (stands : (x.Stands [] v).holds u c)
    (promised : x.Promised u c.state)
    (unclamped : x.capacity < v.stack.length → Unclamped x.capacity x.ops) :
    (v.stack.length ≤ x.capacity ∧ ∃ n c', x.Steps n c c' ∧ x.Sim ip v u.reserving c') ∨
    (x.Departs 0 c (.fault .stackOverflow) c.proc c.state ∧ (x.capacity < v.stack.length ∨
        ∃ place, x.Doomed ip v u.reserving ⟨place, c.proc, c.state⟩)) := by
  have grows := next.grows
  rcases u.reserving_cases with ⟨enough, same⟩ | ⟨-, closed, same⟩ | ⟨place, -, opened, same⟩
  · rw [same] at next ⊢
    exact .inl ⟨Stands.fits stands enough, 0, c, .refl c, next, at_place, stands, promised⟩
  · -- a new reservation
    obtain ⟨words, wide, fetch⟩ := grows.widens u.ops.size (reserveWords u.pending.length)
      (.fault .stackOverflow) (by rw [same]) (by rw [same]; exact Array.getElem?_push_size)
    have fetch' : x.ops[c.place]? = some (.reserve words (.fault .stackOverflow)) :=
      at_place ▸ fetch
    by_cases full : x.capacity < c.state.context.stack.size + words.toNat
    · refine .inr ⟨⟨c, _, .refl c, fetch', ?_⟩, ?_⟩
      · rw [perform_reserve stands, decide_eq_true full]
        rfl
      · rcases Nat.lt_or_ge x.capacity v.stack.length with above | fits
        · exact .inl above
        · refine .inr ⟨u.ops.size + 1, next, ?_, ?_, u.ops.size, words, _, ?_, fetch, full⟩
          all_goals rw [same]
          · exact (Array.size_push _).symm
          · exact Stands.cover stands fits _ _ rfl rfl
    · have fits : v.stack.length ≤ x.capacity := by
        by_contra above
        exact above (fits_of_passed stands (unclamped (Nat.not_le.1 above)) fetch wide
          (Nat.not_lt.1 full))
      refine .inl ⟨fits, 1, ⟨c.place + 1, c.proc, c.state⟩, .single fetch' ?_, next, ?_, ?_, ?_⟩
      · rw [perform_reserve stands, decide_eq_false full]
        rfl
      · rw [same, at_place]
        exact (Array.size_push _).symm
      · rw [same]
        exact Stands.cover stands fits _ _ rfl rfl
      · intro place words' target opened at_place'
        rw [same] at opened
        cases opened
        cases fetch.symm.trans at_place'
        exact Nat.not_lt.1 full
  · -- the open reservation is widened
    obtain ⟨words, wide, fetch⟩ := grows.widens place (reserveWords u.pending.length)
      (.fault .stackOverflow) (by rw [same]; exact opened)
      (by rw [same]; exact Gen.getElem?_widen_self (reserved place opened))
    have passed := promised place words _ opened fetch
    have fits : v.stack.length ≤ x.capacity := by
      by_contra above
      exact above (fits_of_passed stands (unclamped (Nat.not_le.1 above)) fetch wide passed)
    refine .inl ⟨fits, 0, c, .refl c, next, ?_, ?_, ?_⟩
    all_goals rw [same]
    · rw [at_place]
      exact (Array.size_modify ..).symm
    · exact Stands.cover stands fits _ _ rfl rfl
    · exact promised

namespace Doomed

/-- A reservation that is never widened again would not have failed. -/
lemma false_of_fixed (doomed : x.Doomed ip v s c)
    (fixed : ∀ (place : Nat) (op : Operation γ φ), s.ops[place]? = some op →
      x.ops[place]? = some op) : False := by
  obtain ⟨place, words, target, opened, fetch, full⟩ := doomed.full
  have fetch' := fixed place _ (doomed.boundary.reserved place opened)
  cases fetch.symm.trans fetch'
  have room := Stands.room doomed.stands
  rw [toNat_reserveWords] at full
  omega

/-- After an instruction in which the reservation stayed open the execution is still doomed. -/
lemma passes (doomed : x.Doomed ip v s c) (passes : Passes x.scope x.last ip instr s fused u)
    (opened : u.openReserve ≠ none) (at_place : c'.place = u.ops.size)
    (same : c'.state = c.state) (stands : (x.Stands [] v').holds u c')
    (fits : v'.stack.length ≤ x.capacity) :
    x.Doomed (ip + if fused then 2 else 1) v' u.reserving c' := by
  obtain ⟨place, words, target, opened', fetch, full⟩ := doomed.full
  have stays : u.openReserve = some place := (passes.openReserve_eq opened).trans opened'
  rw [← same] at full
  rcases u.reserving_cases with ⟨enough, eq⟩ | ⟨-, closed, -⟩ | ⟨place', -, -, eq⟩
  · refine ⟨passes.next, ?_, ?_, place, words, target, ?_, fetch, full⟩
    all_goals rw [eq]
    · exact at_place
    · exact stands
    · exact stays
  · exact absurd closed opened
  · refine ⟨passes.next, ?_, ?_, place, words, target, ?_, fetch, full⟩
    all_goals rw [eq]
    · rw [at_place]
      exact (Array.size_modify ..).symm
    · exact Stands.cover stands fits _ _ rfl rfl
    · exact stays

/-- An execution that would have failed at a reservation overflows on the ideal machine, before
anything else can be observed. -/
theorem overflows (sound : x.Sound) (boundary : Boundary x.scope x.last ip s) :
    ∀ v c, x.Safe ip v → x.Doomed ip v s c →
        ∃ fuel, Ideal.run x.scope x.answer x.capacity fuel ip v =
          some (.faulted { cause := .stackOverflow } v.machine) := by
  induction boundary using Boundary.induct with
  | @ending ip s h at_end =>
    intro v c safe doomed
    obtain ⟨u, flushed, last⟩ := h.exists_flushed at_end
    refine (doomed.false_of_fixed fun place op at_op => ?_).elim
    have at_op' := (Gen.flushAll_known x.scope flushed).1.getElem? at_op
    rw [Execution.ops, last, Array.getElem?_append_left (Array.getElem?_eq_some_iff.1 at_op').1]
    exact at_op'
  | @passing ip instr s fused u h at_ip passes ih =>
    intro v c safe doomed
    have fits := Stands.fits doomed.stands h.covers
    have opened : u.openReserve ≠ none := by
      intro closed
      refine doomed.false_of_fixed fun place op at_op => ?_
      have grows : u.Grows x.last := .of_reserving passes.reserved passes.next.grows
      exact grows.keeps place op (passes.adds.getElem? at_op) (.inr (by rw [closed]; nofun))
    rcases reaches sound safe h doomed.at_place doomed.stands at_ip passes with
      ⟨n, c', steps, at_place, quiet, v', leads, stands⟩ | ⟨closed, -⟩
    · have same := quiet opened
      have machine : v'.machine = v.machine := by
        rw [← Stands.machine_eq stands, same, Stands.machine_eq doomed.stands]
      rcases Nat.lt_or_ge x.capacity v'.stack.length with above | fits'
      · refine ⟨_, (leads.run_add at_ip fits 0).trans ?_⟩
        rw [Ideal.Result.limit_of_lt rfl above, ← machine]
        rfl
      · have walks := leads.walks_next at_ip fits fits'
        obtain ⟨fuel, ended⟩ :=
          ih v' c' (safe.walks walks) (doomed.passes passes opened at_place same stands fits')
        refine ⟨_, (walks.run_add fuel).trans ?_⟩
        rw [ended, machine]
    · exact absurd closed opened

end Doomed

/-! ### From boundary to boundary -/

/-- A jump to a label comes to the boundary before it. -/
lemma sim_of_label (sound : x.Sound) {p : Processor γ φ} {σ : State} {target : Nat}
    (isLabel : x.scope.IsLabel target) (rep : x.Represents 0 [] v.stack v.mem v.machine p σ) :
    ∃ place t, x.places.lookup (.instruction target) = some place ∧
    x.Sim target v t ⟨place, p, σ⟩ := by
  obtain ⟨s₀, begins⟩ := sound.begins
  obtain ⟨_, s, -, boundary⟩ := begins.exists_of_isLabel isLabel (Nat.zero_le _)
  obtain ⟨empty, forgotten⟩ := boundary.forget isLabel
  exact ⟨s.ops.size, _, boundary.lookup_label isLabel, forgotten, rfl,
    ⟨[], v.stack, empty.symm, rfl, rep⟩, nofun⟩

/-- Compiled code and the ideal machine come to another boundary.  The code may get there without an
operation, but then further down in the method. -/
def Advances (x : Execution γ φ) (ip : Nat) (v : Ideal) (c : Config γ φ) : Prop :=
  ∃ n k ip' v' s' c', x.Goes n c c' ∧ x.Sim ip' v' s' c' ∧
    Ideal.Walks x.scope x.answer x.capacity (k + 1) ip v ip' v' ∧ (n = 0 → ip < ip')

/-- Compiled code and the ideal machine come to the same end. -/
def Ceases (x : Execution γ φ) (ip : Nat) (v : Ideal) (c : Config γ φ) : Prop :=
  ∃ n fuel status σ ending, x.Finishes n c status σ ∧
    Ideal.run x.scope x.answer x.capacity fuel ip v = some ending ∧ x.Concludes ending status σ

/-- At the end of the body both leave the method. -/
lemma ceases_at_end (sim : x.Sim ip v s c) (at_end : x.scope.method.code[ip]? = none) :
    x.Ceases ip v c := by
  obtain ⟨u, flushed, last⟩ := sim.boundary.exists_flushed at_end
  obtain ⟨adds, -, alive, -⟩ := Gen.flushAll_known x.scope flushed
  have grows : u.Grows x.last := by
    rw [last]
    exact .append u _
  have triple : Triple x (fun _ _ _ => False) false (x.Stands [] v) Gen.flushAll _ :=
    .flushAll (Stands.fits sim.stands sim.boundary.covers)
  rcases triple.runs nofun flushed (alive sim.boundary.alive) grows sim.boundary.owned c
    sim.at_place sim.stands with ⟨n, c', steps, at_place, -, rep⟩ | ⟨-, _, _, _, _, -, isFalse⟩
  · have at_stub (i : Nat) : x.ops[c'.place + i]? = Gen.stubs[i]? := by
      rw [Execution.ops, last, at_place, Array.getElem?_append_right (Nat.le_add_right _ _),
        Nat.add_sub_cancel_left]
      exact List.getElem?_toArray
    refine ⟨_, 1, 0, c'.state, .left v,
      steps.goes.finishes (finishes_of_stub (at_stub 0) (at_stub 1) sim.boundary.ends),
      Ideal.run_none at_end, rfl, rep.stack, rep.machine_eq, rep.calm⟩
  · exact isFalse.elim

/-- A jump out of an instruction comes to a label, or both end. -/
lemma advances_of_exits (sound : x.Sound) (boundary : Boundary x.scope x.last ip s)
    (at_ip : x.scope.method.code[ip]? = some instr) (fits : v.stack.length ≤ x.capacity)
    {target : JumpTarget} {p : Processor γ φ} {σ : State} (departs : x.Departs n c target p σ)
    (exits : x.Exits (fun r => ∃ fused, x.Leads instr x.scope.method.code[ip + 1]? v fused r)
      target p σ) : x.Advances ip v c ∨ x.Ceases ip v c := by
  cases target with
  | fault kind =>
    obtain ⟨cause, status, ⟨fused, leads⟩, calm⟩ := exits
    exact .inr ⟨_, _, _, σ, _, (boundary.stub_fault kind).finishes boundary.ends departs,
      leads.run_add at_ip fits 0, rfl, .inl ⟨cause, rfl, status, calm⟩⟩
  | instruction i =>
    obtain ⟨isLabel, v', ⟨fused, leads⟩, rep⟩ := exits
    obtain ⟨place, t, bound, sim⟩ := sim_of_label sound isLabel rep
    have walks := leads.walks_goto at_ip fits rep.room
    cases fused
    all_goals exact .inl ⟨_, _, i, v', t, _, departs.goes bound, sim, walks, nofun⟩
  | exit =>
    rcases exits with ⟨v', ⟨fused, leads⟩, stack, machine, calm⟩ | ⟨fault, ⟨fused, leads⟩, halted⟩
    · have fits' : v'.stack.length ≤ x.capacity := calm.capacity ▸ stack.length_le
      refine .inr ⟨_, _, 0, σ, .left v', boundary.stub_exit.finishes boundary.ends departs,
        (leads.run_add at_ip fits 0).trans ?_, rfl, stack, machine, calm⟩
      rw [Ideal.Result.limit_of_le rfl fits']
      rfl
    · exact .inr ⟨_, _, 0, σ, _, boundary.stub_exit.finishes boundary.ends departs,
        leads.run_add at_ip fits 0, rfl, .inr ⟨rfl, halted⟩⟩
  | teardown => exact exits.elim

/-- From a boundary compiled code and the ideal machine come to another boundary, or to the same
end. -/
theorem Sim.advances (sound : x.Sound) (safe : x.Safe ip v) (sim : x.Sim ip v s c) :
    x.Advances ip v c ∨ x.Ceases ip v c := by
  cases at_ip : x.scope.method.code[ip]? with
  | none => exact .inr (ceases_at_end sim at_ip)
  | some instr =>
    obtain ⟨fused, u, passes⟩ := sim.boundary.exists_passes at_ip
    have fits := Stands.fits sim.stands sim.boundary.covers
    rcases reaches sound safe sim.boundary sim.at_place sim.stands at_ip passes with
      ⟨n, c', steps, at_place, quiet, v', leads, stands⟩ | ⟨-, n, target, p, σ, departs, exits⟩
    · have promised : x.Promised u c'.state := by
        intro place words target opened fetch
        have isOpen : u.openReserve ≠ none := by rw [opened]; nofun
        rw [quiet isOpen]
        exact sim.promised place words target ((passes.openReserve_eq isOpen).symm.trans opened)
          fetch
      rcases settles passes.next passes.reserved at_place stands promised
        (safe.unclamped at_ip fits leads) with ⟨fits', m, c'', further, sim'⟩ | ⟨departs, above⟩
      · have walks := leads.walks_next at_ip fits fits'
        have lower : ip < ip + if fused then 2 else 1 := by split <;> omega
        refine .inl ⟨n + m, (if fused then 2 else 1) - 1, _, v', _, c'',
          steps.goes.trans further.goes, sim', ?_, fun _ => lower⟩
        cases fused <;> exact walks
      · have overflows : ∃ fuel, Ideal.run x.scope x.answer x.capacity fuel ip v =
            some (.faulted { cause := .stackOverflow } v'.machine) := by
          rcases above with above | ⟨place, doomed⟩
          · refine ⟨_, (leads.run_add at_ip fits 0).trans ?_⟩
            rw [Ideal.Result.limit_of_lt rfl above]
            rfl
          · have fits' := Stands.fits doomed.stands passes.next.covers
            have walks := leads.walks_next at_ip fits fits'
            obtain ⟨fuel, ended⟩ := Doomed.overflows sound passes.next v' _
              (safe.walks walks) doomed
            exact ⟨_, (walks.run_add fuel).trans ended⟩
        obtain ⟨fuel, ended⟩ := overflows
        obtain ⟨pend, below, -, -, rep⟩ := stands
        exact .inr ⟨_, fuel, _, c'.state, _,
          (sim.boundary.stub_fault .stackOverflow).finishes sim.boundary.ends
          (steps.departs departs), ended, rep.machine_eq, .inl ⟨.stackOverflow, rfl, rfl, rep.calm⟩⟩
    · exact advances_of_exits sound sim.boundary at_ip fits departs exits

/-! ### Whole runs -/

/-- Where the ideal machine ends, compiled code ends in the same way. -/
theorem Sim.finishes_of_run (sound : x.Sound) (fuel : Nat) : ∀ {ip : Nat} {v : Ideal}
    {s : GenState γ φ} {c : Config γ φ} {ending : Ideal.Ending}, x.Safe ip v → x.Sim ip v s c →
      Ideal.run x.scope x.answer x.capacity fuel ip v = some ending →
        ∃ n status σ, x.Finishes n c status σ ∧ x.Concludes ending status σ := by
  induction fuel using Nat.strongRecOn with
  | ind fuel ih =>
    intro ip v s c ending safe sim ended
    rcases sim.advances sound safe with
      ⟨n, k, ip', v', s', c', goes, sim', walks, -⟩ | ⟨n, fuel', status, σ, ending', finishes,
        ended', ends⟩
    · obtain ⟨more, rfl⟩ : ∃ more, fuel = k + 1 + more := by
        by_contra short
        have le : fuel ≤ k + 1 := by
          by_contra long
          exact short ⟨fuel - (k + 1), by omega⟩
        have stuck := Ideal.run_mono le ended
        rw [← Nat.add_zero (k + 1), walks.run_add] at stuck
        cases stuck
      rw [walks.run_add] at ended
      obtain ⟨m, status, σ, finishes, ends⟩ := ih more (by omega) (safe.walks walks) sim' ended
      exact ⟨n + m, status, σ, goes.finishes finishes, ends⟩
    · have same : ending' = ending := by
        have first := Ideal.run_mono (Nat.le_max_left fuel fuel') ended
        have second := Ideal.run_mono (Nat.le_max_right fuel fuel') ended'
        exact Option.some.inj (second.symm.trans first)
      exact ⟨n, status, σ, finishes, same ▸ ends⟩

/-- Where compiled code ends, the ideal machine ends. -/
theorem Sim.exists_run (sound : x.Sound) {m ip : Nat} {v : Ideal} {s : GenState γ φ}
    {c : Config γ φ} (safe : x.Safe ip v) (sim : x.Sim ip v s c)
    (ended : ∀ t, x.run m c ≠ .error .stuck t) :
    ∃ fuel ending, Ideal.run x.scope x.answer x.capacity fuel ip v = some ending := by
  rcases sim.advances sound safe with
    ⟨n, k, ip', v', s', c', goes, sim', walks, lower⟩ | ⟨_, fuel, _, _, ending, -, ended, -⟩
  · have enough : n < m := by
      by_contra short
      obtain ⟨t, stuck⟩ := goes.run_le m (Nat.not_lt.1 short)
      exact ended t stuck
    obtain ⟨more, total⟩ := Nat.exists_eq_add_of_le (Nat.le_of_lt enough)
    rw [total, goes.run_add] at ended
    have inCode := walks.lt_size
    obtain ⟨fuel, ending, run⟩ := Sim.exists_run sound (safe.walks walks) sim' ended
    exact ⟨k + 1 + fuel, ending, (walks.run_add fuel).trans run⟩
  · exact ⟨fuel, ending, ended⟩
  termination_by (m, x.scope.method.code.size - ip)
  decreasing_by
    -- A walk without an operation goes down the code, and any other takes fuel.
    rcases Nat.eq_zero_or_pos n with none | some
    · have same : m = more := by omega
      have below := lower none
      rw [same]
      exact Prod.Lex.right _ (by omega)
    · exact Prod.Lex.left _ _ (by omega)

end Execution

end Native

end StackMachine
