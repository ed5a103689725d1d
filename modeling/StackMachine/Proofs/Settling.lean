import StackMachine.Bytecode.Builder
import StackMachine.Proofs.Histories

/-!
# When methods are compiled

A method is compiled at most once: at the first call that wants it, which depends on the settings,
on where the call is and on how often the method has been called (`Settings.Wants`).  The outcome
stays, and decides what every later call of the method runs, the compiled body or the interpreter
(`Settled`, `Runtime.outcomes_settled`).  Calls are those of any context, nested ones included, in
the order in which they are made.
-/

namespace StackMachine

/-! ### The calls of a method -/

/-- A call of a method: whether it is at a place that asks for compiled code, and the body that it
has run. -/
structure Request where
  method : Method
  site : Bool
  body? : Option NativeBody

/-- A call of a certain method. -/
def Event.request? (id : MethodId) : Event → Option Request
  | .call _ method site body? => if method.id = id then some ⟨method, site, body?⟩ else none
  | _ => none

/-- The calls of a method, in the order in which they were made. -/
def requests (id : MethodId) (es : List Event) : List Request := es.filterMap (Event.request? id)

/-- The number of calls at places that do not ask for compiled code. -/
def unasked (calls : List Request) : Nat := calls.countP fun x => !x.site

/-- Is a method compiled at a call, if it was not at earlier ones?  In the mode `auto` it is at a
place that asks for compiled code, and at the `n`-th call at other places if `n` is large enough. -/
def Settings.Wants (settings : Settings) (earlier : List Request) (site : Bool) : Prop :=
  settings.target.isExecutable = true ∧
    match settings.jitMode with
    | .off => False
    | .on => True
    | .auto => site = true ∨ settings.jitThreshold ≤ unasked earlier + 1

/-- No call of a method has wanted it compiled, and all have been interpreted. -/
structure Waiting (settings : Settings) (calls : List Request) : Prop where
  unwanted : ∀ before x after, calls = before ++ x :: after → ¬settings.Wants before x.site
  interpreted : ∀ x ∈ calls, x.body? = none

/-- The outcome of compiling a method goes with the calls of the method: there is none before the
first call that wants it; this call and all later ones go by the outcome. -/
inductive Settled (program : Program) (settings : Settings) :
    List Request → Option CompileOutcome → Prop
  | empty {calls : List Request} (waiting : Waiting settings calls) :
    Settled program settings calls none
  | filled {before : List Request} {x : Request} {after : List Request} {outcome : CompileOutcome}
      (waiting : Waiting settings before) (wanted : settings.Wants before x.site)
      (of : outcome.Of program settings.target x.method) (uses : ∀ y ∈ x :: after,
        y.body? = outcome.body?) :
      Settled program settings (before ++ x :: after) (some outcome)

section Calls

variable {program : Program} {settings : Settings} {calls : List Request} {x : Request}
  {outcome : CompileOutcome}

lemma unasked_snoc (calls : List Request) (x : Request) :
    unasked (calls ++ [x]) = unasked calls + if x.site then 0 else 1 := by
  unfold unasked
  rw [List.countP_append, List.countP_singleton]
  cases x.site <;> rfl

lemma waiting_nil (settings : Settings) : Waiting settings [] :=
  ⟨fun before x after same => by simp at same, fun x mem => absurd mem List.not_mem_nil⟩

/-- One more call that does not want the method compiled. -/
lemma Waiting.snoc (waiting : Waiting settings calls) (unwanted : ¬settings.Wants calls x.site)
    (interpreted : x.body? = none) : Waiting settings (calls ++ [x]) := by
  refine ⟨fun before y after same => ?_, fun y mem => ?_⟩
  · rcases Runtime.split_snoc same.symm with ⟨rfl, rfl⟩ | ⟨after', earlier⟩
    · exact unwanted
    · exact waiting.unwanted before y after' earlier
  · rcases List.mem_append.1 mem with old | new
    · exact waiting.interpreted y old
    · rw [List.mem_singleton.1 new]
      exact interpreted

lemma Settled.waiting (settled : Settled program settings calls none) : Waiting settings calls := by
  cases settled with
  | empty waiting => exact waiting

lemma Settled.eq_none {outcome? : Option CompileOutcome}
    (settled : Settled program settings calls outcome?)
    (never : ∀ earlier site, ¬settings.Wants earlier site) : outcome? = none := by
  cases settled with
  | empty => rfl
  | filled _ wanted => exact absurd wanted (never _ _)

/-- One more call that goes by the outcome. -/
lemma Settled.snoc (settled : Settled program settings calls (some outcome))
    (uses : x.body? = outcome.body?) :
    Settled program settings (calls ++ [x]) (some outcome) := by
  cases settled with
  | @filled before y after _ waiting wanted of used =>
    rw [List.append_assoc, List.cons_append]
    refine .filled waiting wanted of fun z mem => ?_
    rcases List.mem_append.1 (List.cons_append ▸ mem : z ∈ (y :: after) ++ [x]) with old | new
    · exact used z old
    · rw [List.mem_singleton.1 new]
      exact uses

end Calls

/-! ### Records and calls -/

namespace Machine

variable {m : Machine} {id : MethodId} {record : MethodRecord} {id' : MethodId}
  {f : MethodRecord → MethodRecord} {method : Method}

lemma record_eq (known : m.record? id = some record) : m.record id = record := by
  show (m.record? id).getD {} = record
  rw [known]
  rfl

lemma isSome_record?_modifyRecord :
    ((m.modifyRecord id f).record? id').isSome = (m.record? id').isSome := by
  rw [record?_modifyRecord]
  split
  · next same => rw [Option.isSome_map, same]
  · rfl

lemma outcome_modifyRecord {outcome : CompileOutcome}
    (leaves : id' = id → ∀ r, (f r).outcome = r.outcome)
    (known : (m.record id').outcome = some outcome) :
    ((m.modifyRecord id f).record id').outcome = some outcome := by
  have old : ((m.record? id').getD {}).outcome = some outcome := known
  show (((m.modifyRecord id f).record? id').getD {}).outcome = some outcome
  rw [record?_modifyRecord]
  split
  · next same =>
    subst same
    cases found : m.record? id' with
    | none =>
      rw [found] at old
      cases old
    | some record =>
      rw [found] at old
      exact (leaves rfl record).trans old
  · exact old

/-- Counting a call leaves the other methods. -/
lemma record?_counting_of_ne (site : Bool) (other : id ≠ method.id) :
    (m.counting method site).record? id = m.record? id := by
  unfold counting
  split
  · rw [record?_modifyRecord, if_neg other]
  · rfl

lemma exists_of_record?_counting {site : Bool}
    (counted : (m.counting method site).record? method.id = some record) :
    ∃ old, m.record? method.id = some old ∧ record.outcome = old.outcome ∧
      record.calls = old.calls + if m.settings.jitMode = .auto ∧ ¬site then 1 else 0 := by
  unfold counting at counted
  split at counted
  · next counts =>
    rw [record?_modifyRecord, if_pos rfl, Option.map_eq_some_iff] at counted
    obtain ⟨old, known, rfl⟩ := counted
    exact ⟨old, known, rfl, by rw [if_pos counts]⟩
  · next counts => exact ⟨record, counted, rfl, by rw [if_neg counts]; rfl⟩

/-- So does compiling a method, and it settles the outcome. -/
lemma record?_settling (m : Machine) (method : Method) (outcome : CompileOutcome)
    (pages : CodePages) (id : MethodId) : (Call.settling m method outcome pages).record? id =
      if id = method.id then (m.record? method.id).map fun r => { r with outcome := some outcome }
      else m.record? id :=
  record?_modifyRecord _ _ _ _

end Machine

/-- The records of the methods go with what has happened. -/
structure Machine.Booked (program : Program) (settings : Settings) (es : List Event) (m : Machine) :
    Prop where
  program_eq : m.program = program
  settings_eq : m.settings = settings
  settled : ∀ id record, m.record? id = some record →
    Settled program settings (requests id es) record.outcome
  counted : ∀ id record, m.record? id = some record → record.outcome = none →
    settings.jitMode = .auto →
    settings.target.isExecutable = true → record.calls = unasked (requests id es)

namespace Machine.Booked

variable {program : Program} {settings : Settings} {es : List Event} {m m' : Machine}
  {method : Method} {site : Bool} {body? : Option NativeBody} {record : MethodRecord}

variable (booked : m.Booked program settings es)
include booked

/-- It is enough to look at the method that is called. -/
lemma of_record (s : State) (program_eq : m'.program = m.program)
    (settings_eq : m'.settings = m.settings)
    (others : ∀ id ≠ method.id, m'.record? id = m.record? id)
    (here : ∀ record, m'.record? method.id = some record →
      Settled program settings (requests method.id es ++ [⟨method, site, body?⟩]) record.outcome ∧
      (record.outcome = none → settings.jitMode = .auto → settings.target.isExecutable = true →
      record.calls = unasked (requests method.id es ++ [⟨method, site, body?⟩]))) :
    m'.Booked program settings (es ++ [.call s method site body?]) := by
  have same : requests method.id (es ++ [.call s method site body?]) =
      requests method.id es ++ [⟨method, site, body?⟩] := by
    simp [requests, Event.request?]
  have other {id : MethodId} (ne : id ≠ method.id) :
      requests id (es ++ [.call s method site body?]) = requests id es := by
    simp [requests, Event.request?, Ne.symm ne]
  refine ⟨program_eq.trans booked.program_eq, settings_eq.trans booked.settings_eq,
    fun id record known => ?_, fun id record known => ?_⟩
  · by_cases called : id = method.id
    · subst called
      rw [same]
      exact (here record known).1
    · rw [other called]
      exact booked.settled id record (others id called ▸ known)
  · by_cases called : id = method.id
    · subst called
      rw [same]
      exact (here record known).2
    · rw [other called]
      exact booked.counted id record (others id called ▸ known)

/-- Without compiled code no call wants a method compiled. -/
lemma not_wants (plain : m.Plain) (earlier : List Request) (site : Bool) :
    ¬settings.Wants earlier site := by
  rintro ⟨executable, mode⟩
  rw [Plain, booked.settings_eq] at plain
  rcases plain with off | refused
  · rw [off] at mode
    exact mode
  · exact refused executable

/-- Whether a call wants a method compiled that has no outcome. -/
lemma isWanted_iff (compiling : ¬m.Plain)
    (counted : (m.counting method site).record? method.id = some record)
    (unsettled : record.outcome = none) :
    Call.isWanted m.settings site ((m.counting method site).record method.id).calls = true ↔
      settings.Wants (requests method.id es) site := by
  have executable : settings.target.isExecutable = true := by
    rw [← booked.settings_eq]
    exact not_not.1 fun refused => compiling (.inr refused)
  obtain ⟨old, known, outcome, calls⟩ := exists_of_record?_counting counted
  rw [outcome] at unsettled
  rw [record_eq counted]
  unfold Call.isWanted Settings.Wants
  rw [booked.settings_eq]
  cases mode : settings.jitMode with
  | off => exact absurd (.inl (booked.settings_eq ▸ mode)) compiling
  | on => simp [executable]
  | auto =>
    have before := booked.counted method.id old known unsettled mode executable
    cases site with
    | true => simp [executable]
    | false =>
      have counts : m.settings.jitMode = .auto ∧ ¬false = true :=
        ⟨booked.settings_eq ▸ mode, Bool.false_ne_true⟩
      rw [if_pos counts] at calls
      simp [executable, calls, before]

lemma finds (s : State) (finds : Call.Finds m method site body? m') :
    m'.Booked program settings (es ++ [.call s method site body?]) := by
  cases finds with
  | plain plain =>
    refine booked.of_record s rfl rfl (fun _ _ => rfl) fun record known => ?_
    have never := booked.not_wants plain
    have settled := booked.settled method.id record known
    have unsettled := settled.eq_none never
    rw [unsettled] at settled ⊢
    refine ⟨.empty (settled.waiting.snoc (never _ _) rfl), fun _ mode executable => ?_⟩
    exact absurd ⟨executable, by rw [mode]; exact .inl rfl⟩ (never [] true)
  | known compiling known =>
    refine booked.of_record s rfl rfl (fun _ _ => rfl) fun record found => ?_
    rw [record_eq found] at known
    have settled := booked.settled method.id record found
    rw [known] at settled ⊢
    exact ⟨settled.snoc rfl, nofun⟩
  | waits compiling unknown unwanted =>
    obtain ⟨program_eq, settings_eq⟩ := m.settings_counting method site
    refine booked.of_record s program_eq settings_eq (fun _ => record?_counting_of_ne site)
      fun record found => ?_
    obtain ⟨old, known, outcome, calls⟩ := exists_of_record?_counting found
    rw [record_eq known] at unknown
    rw [unknown] at outcome
    have settled := booked.settled method.id old known
    rw [unknown] at settled
    have refuses : ¬settings.Wants (requests method.id es) site := fun wants =>
      Bool.false_ne_true (unwanted.symm.trans
        ((booked.isWanted_iff compiling found outcome).2 wants))
    rw [outcome]
    refine ⟨.empty (settled.waiting.snoc refuses rfl), fun _ mode executable => ?_⟩
    -- a call at a place that asks for compiled code would want it
    obtain rfl : site = false := by
      refine Bool.eq_false_iff.2 fun asks => refuses ⟨executable, ?_⟩
      rw [mode]
      exact .inl asks
    rw [calls, booked.counted method.id old known unknown mode executable, unasked_snoc,
      if_pos ⟨booked.settings_eq ▸ mode, Bool.false_ne_true⟩]
    rfl
  | @settles outcome pages compiling unknown wanted of =>
    obtain ⟨program_eq, settings_eq⟩ := m.settings_counting method site
    refine booked.of_record s program_eq settings_eq (fun id other => ?_) fun record found => ?_
    · rw [record?_settling, if_neg other, record?_counting_of_ne site other]
    rw [record?_settling, if_pos rfl, Option.map_eq_some_iff] at found
    obtain ⟨counted, found, rfl⟩ := found
    obtain ⟨old, known, outcome_eq, -⟩ := exists_of_record?_counting found
    rw [record_eq known] at unknown
    rw [unknown] at outcome_eq
    have settled := booked.settled method.id old known
    rw [unknown] at settled
    have wants := (booked.isWanted_iff compiling found outcome_eq).1 wanted
    rw [booked.program_eq, booked.settings_eq] at of
    refine ⟨.filled settled.waiting wants of fun y mem => ?_, nofun⟩
    rw [List.mem_singleton.1 mem]

/-- The records stay as they are if no method is called. -/
lemma of_records (program_eq : m'.program = m.program)
    (settings_eq : m'.settings = m.settings) (records : m'.records = m.records) {es' : List Event}
    (uncalled : ∀ id, requests id es' = []) : m'.Booked program settings (es ++ es') := by
  have same (id : MethodId) : m'.record? id = m.record? id := by rw [record?, records, record?]
  have calls (id : MethodId) : requests id (es ++ es') = requests id es := by
    rw [requests, List.filterMap_append, ← requests, ← requests, uncalled, List.append_nil]
  refine ⟨program_eq.trans booked.program_eq, settings_eq.trans booked.settings_eq,
    fun id record known => ?_, fun id record known => ?_⟩
  · rw [calls]
    exact booked.settled id record (same id ▸ known)
  · rw [calls]
    exact booked.counted id record (same id ▸ known)

end Machine.Booked

/-! ### Along a path -/

namespace Call

variable {m m' : Machine} {method : Method} {site : Bool} {body? : Option NativeBody}
  {id : MethodId}

/-- Finding an engine neither makes records nor gives them up. -/
lemma Finds.isSome_record? (finds : Finds m method site body? m') :
    (m'.record? id).isSome = (m.record? id).isSome := by
  have counted : ((m.counting method site).record? id).isSome = (m.record? id).isSome := by
    unfold Machine.counting
    split
    · exact Machine.isSome_record?_modifyRecord
    · rfl
  cases finds with
  | plain => rfl
  | known => rfl
  | waits => exact counted
  | settles => exact Machine.isSome_record?_modifyRecord.trans counted

lemma Finds.outcome_eq (finds : Finds m method site body? m') {outcome : CompileOutcome}
    (known : (m.record id).outcome = some outcome) : (m'.record id).outcome = some outcome := by
  have counted : ((m.counting method site).record id).outcome = some outcome := by
    unfold Machine.counting
    split
    · exact Machine.outcome_modifyRecord (fun _ _ => rfl) known
    · exact known
  cases finds with
  | plain | known => exact known
  | waits => exact counted
  | settles compiling unknown wanted of =>
    refine Machine.outcome_modifyRecord (fun same _ => ?_) counted
    cases (same ▸ known).symm.trans unknown

end Call

namespace Runtime

variable {program : Program} {settings : Settings} {world : Surroundings} {es es' : List Event}
  {r r' : Runtime} {id : MethodId}

/-- In a step, a method finds its engine, or the records stay as they are. -/
lemma Step.records (step : Step r es r') :
    (∃ s method site body?, es = [.call s method site body?] ∧
      Call.Finds r.machine method site body? r'.machine) ∨
      r'.machine.program = r.machine.program ∧ r'.machine.settings = r.machine.settings ∧
        r'.machine.records = r.machine.records ∧ ∀ id, requests id es = [] := by
  cases step with
  | work core =>
    exact .inr ⟨congrArg (fun c => c.1) core, congrArg (fun c => c.2.1) core,
      congrArg (fun c => c.2.2.2.1) core, fun _ => rfl⟩
  | @call s t rest method site body? finds =>
    obtain ⟨found?, machine, found, by_⟩ := Call.exists_nativeBody method site s
    cases found.symm.trans finds
    exact .inl ⟨s, method, site, body?, rfl, by_⟩
  | enter | spoil | breaks | spawn | retire | drop | switch =>
    exact .inr ⟨rfl, rfl, rfl, fun _ => rfl⟩
  | @leave s rest =>
    refine .inr ?_
    show s.returned.machine.program = _ ∧ s.returned.machine.settings = _ ∧
      s.returned.machine.records = _ ∧ _
    unfold State.returned
    split <;> exact ⟨rfl, rfl, rfl, fun _ => rfl⟩

lemma Path.booked (path : Path r es' r') (booked : r.machine.Booked program settings es) :
    r'.machine.Booked program settings (es ++ es') := by
  induction path with
  | refl => rwa [List.append_nil]
  | tail _ step ih =>
    rw [← List.append_assoc]
    rcases step.records with
      ⟨s, method, site, body?, rfl, finds⟩ | ⟨program_eq, settings_eq, records, uncalled⟩
    · exact ih.finds s finds
    · exact ih.of_records program_eq settings_eq records uncalled

/-- An outcome that is known stays on the whole way. -/
lemma Path.outcome_eq (path : Path r es r') {outcome : CompileOutcome}
    (known : (r.machine.record id).outcome = some outcome) :
    (r'.machine.record id).outcome = some outcome := by
  induction path with
  | refl => exact known
  | tail _ step ih =>
    rcases step.records with ⟨s, method, site, body?, -, finds⟩ | ⟨-, -, records, -⟩
    · exact finds.outcome_eq ih
    · rwa [Machine.record, records]

/-- In the beginning nothing is known about the methods of the program. -/
lemma record?_start {m : Machine} (start : Machine.start program settings world = .ok m)
    (id : MethodId) :
    m.record? id = (program.method? id.cls id.index).map fun _ => {} := by
  obtain ⟨-, -, -, records⟩ := Machine.of_start start
  rw [Machine.record?, records, Array.getElem?_map, Program.method?, Program.class?]
  cases program.classes[id.cls]? with
  | none => rfl
  | some c => exact Array.getElem?_map

/-- The records go with what has happened. -/
lemma Reached.booked (reached : Reached program settings world es r) :
    r.machine.Booked program settings es := by
  obtain ⟨m, start, path⟩ := reached
  obtain ⟨program_eq, settings_eq, -, -⟩ := Machine.of_start start
  have unused {id : MethodId} {record : MethodRecord} (known : m.record? id = some record) :
    record = {} := by
    rw [record?_start start, Option.map_eq_some_iff] at known
    obtain ⟨-, -, rfl⟩ := known
    rfl
  have first : m.Booked program settings [] := by
    refine ⟨program_eq, settings_eq, fun id record known => ?_, fun id record known _ _ _ => ?_⟩
    · rw [unused known]
      exact .empty (waiting_nil settings)
    · rw [unused known]
      rfl
  exact path.booked first

lemma Reached.isSome_record? (reached : Reached program settings world es r)
    (declared : (program.method? id.cls id.index).isSome) : (r.machine.record? id).isSome := by
  obtain ⟨m, start, path⟩ := reached
  induction path with
  | refl => rwa [record?_start start, Option.isSome_map]
  | tail _ step ih =>
    rcases step.records with ⟨s, method, site, body?, -, finds⟩ | ⟨-, -, records, -⟩
    · rwa [finds.isSome_record?]
    · rwa [Machine.record?, records]

end Runtime

/-! ### A method that is compiled at its second call -/

namespace Settling

/-- A program with a method that returns. -/
def program : Program :=
  .ofClasses [{ name := "Main", methods := #[{ name := "main", code := #[Build.op .rtrn] }] }]

/-- A method is compiled when it is called for the second time, or at a place that asks for it. -/
def settings : Settings := { jitMode := .auto, jitThreshold := 2 }

def method : Method := (program.method? 0 0).getD { name := "", code := #[] }

/-- The method is called twice, at places that do not ask for compiled code. -/
lemma exists_reached : ∃ es r x y, Runtime.Reached program settings {} es r ∧
    requests ⟨0, 0⟩ es = [x, y] ∧
    x.site = false ∧ y.method = method := by
  obtain ⟨m, start⟩ : ∃ m, Machine.start program settings {} = .ok m := ⟨_, rfl⟩
  obtain ⟨first?, m₁, first, -⟩ := Call.exists_nativeBody method false ⟨m, .fresh m.settings⟩
  obtain ⟨second?, m₂, second, -⟩ := Call.exists_nativeBody method false ⟨m₁, .fresh m.settings⟩
  have path : Runtime.Path ⟨m, []⟩ _ (State.among ⟨m₂, .fresh m.settings⟩ []) :=
    (Runtime.Step.spawn.path.trans (Runtime.Step.call first).path).trans
      (Runtime.Step.call second).path
  exact ⟨_, _, ⟨method, false, first?⟩, ⟨method, false, second?⟩, ⟨m, start, path⟩, rfl, rfl, rfl⟩

/-- The second of two such calls is the one that wants the method compiled. -/
lemma exists_outcome {x y : Request} {outcome? : Option CompileOutcome}
    (settled : Settled program settings [x, y] outcome?) (atX : x.site = false) :
    ∃ outcome, outcome? = some outcome ∧ x.body? = none ∧ outcome.Of program .host y.method ∧
      y.body? = outcome.body? := by
  generalize two : [x, y] = calls at settled
  cases settled with
  | empty waiting =>
    refine absurd ⟨rfl, .inr ?_⟩ (waiting.unwanted [x] y [] two.symm)
    show 2 ≤ unasked [x] + 1
    simp [unasked, atX]
  | @filled before z after outcome waiting wanted of uses =>
    match before, two with
    | [], two =>
      obtain ⟨rfl, -⟩ := List.cons.inj two
      rcases wanted.2 with asks | (often : 2 ≤ unasked [] + 1)
      · exact absurd (atX.symm.trans asks) Bool.false_ne_true
      · exact absurd often (by decide)
    | [x'], two =>
      obtain ⟨rfl, rest⟩ := List.cons.inj two
      obtain ⟨rfl, -⟩ := List.cons.inj rest
      exact ⟨outcome, rfl, waiting.interpreted x List.mem_cons_self, of, uses y List.mem_cons_self⟩
    | _ :: _ :: _, two => simp at two

end Settling

namespace Runtime

end Runtime

end StackMachine
