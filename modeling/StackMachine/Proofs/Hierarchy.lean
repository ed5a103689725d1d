import Mathlib.Data.Fintype.Card
import Mathlib.Logic.Relation
import StackMachine.Proofs.Copying

/-!
# The class hierarchy

A class reaches its ancestors by parent links.  A walk through them is cut after as many links as
there are classes; as long as no class is its own ancestor nothing is lost by that
(`Program.Acyclic.le_size`).  So the test `Program.isA` tells descent, and `Program.findMethod?`
finds the first method of a name in the nearest class that has one (`Program.Nearest`).

A virtual call keeps the method that it was bound to under the class of the instance and the place
of the method. Each entry of these is what a new search would give (`Machine.Bound`), so no answer
depends on the calls before it (`Program.followsHierarchy_of_acyclic`).
-/

namespace StackMachine

variable {c : ClassDef} {name : String} {m : Machine}

namespace Program

/-! ### Ancestors -/

/-- The parent of a class. -/
def parent? (p : Program) (cls : Nat) : Option Nat := (p.class? cls).bind ClassDef.parent

/-- A parent link. -/
def Parent (p : Program) (cls parent : Nat) : Prop := p.parent? cls = some parent

/-- No class is reached from itself by parent links. -/
def Acyclic (p : Program) : Prop := ∀ cls, ¬Relation.TransGen p.Parent cls cls

/-- A class is another one, or reaches it by parent links. -/
def Descends (p : Program) : Nat → Nat → Prop := Relation.ReflTransGen p.Parent

/-- The class that is reached by so many parent links. -/
def ancestor? (p : Program) : Nat → Nat → Option Nat
  | 0, cls => some cls
  | links + 1, cls => (p.parent? cls).bind (p.ancestor? links)

variable {p : Program} {cls target parent links more : Nat} {name : String} {m : Method}

lemma ancestor?_succ (link : p.Parent cls parent) :
    p.ancestor? (links + 1) cls = p.ancestor? links parent := by
  rw [ancestor?, link, Option.bind_some]

/-- The first link of a way up. -/
lemma exists_parent_of_ancestor? (reached : p.ancestor? (links + 1) cls = some target) :
    ∃ parent, p.Parent cls parent ∧ p.ancestor? links parent = some target :=
  Option.bind_eq_some_iff.1 reached

/-- A way up goes on. -/
lemma ancestor?_add (links more cls : Nat) :
    p.ancestor? (links + more) cls = (p.ancestor? links cls).bind (p.ancestor? more) := by
  induction links generalizing cls with
  | zero => rw [Nat.zero_add, ancestor?, Option.bind_some]
  | succ links ih =>
    rw [Nat.succ_add, ancestor?, ancestor?, Option.bind_assoc]
    exact Option.bind_congr fun parent _ => ih parent

lemma descends_iff : p.Descends cls target ↔ ∃ links, p.ancestor? links cls = some target := by
  constructor
  · intro descends
    induction descends using Relation.ReflTransGen.head_induction_on with
    | refl => exact ⟨0, rfl⟩
    | head link _ ih =>
      obtain ⟨links, reached⟩ := ih
      exact ⟨links + 1, (ancestor?_succ link).trans reached⟩
  · rintro ⟨links, reached⟩
    induction links generalizing cls with
    | zero =>
      obtain rfl := Option.some.inj reached
      exact .refl
    | succ links ih =>
      obtain ⟨parent, link, above⟩ := exists_parent_of_ancestor? reached
      exact .head link (ih above)

/-- A way of at least one link up from a class. -/
lemma transGen_of_ancestor? (reached : p.ancestor? (links + 1) cls = some target) :
    Relation.TransGen p.Parent cls target := by
  obtain ⟨parent, link, above⟩ := exists_parent_of_ancestor? reached
  exact .head' link (descends_iff.2 ⟨links, above⟩)

/-- The classes that a way up leaves behind are classes of the program. -/
lemma exists_lt_of_ancestor? (reached : p.ancestor? links cls = some target) (lt : more < links) :
    ∃ passed < p.classes.size, p.ancestor? more cls = some passed := by
  obtain ⟨rest, rfl⟩ : ∃ rest, links = more + (rest + 1) := ⟨links - more - 1, by omega⟩
  rw [ancestor?_add] at reached
  obtain ⟨passed, here, above⟩ := Option.bind_eq_some_iff.1 reached
  obtain ⟨parent, link, -⟩ := exists_parent_of_ancestor? above
  obtain ⟨c, isClass, -⟩ := Option.bind_eq_some_iff.1 link
  exact ⟨passed, (Array.getElem?_eq_some_iff.1 isClass).1, here⟩

/-! ### Walks -/

/-- A walk lists the ancestors in order. -/
lemma getElem?_lineage (steps links cls : Nat) :
    (p.lineage steps cls)[links]? = if links ≤ steps then p.ancestor? links cls else none := by
  induction steps generalizing links cls with
  | zero => cases links <;> simp [lineage, ancestor?]
  | succ steps ih =>
    unfold lineage
    cases links with
    | zero => split <;> rfl
    | succ links =>
      cases link : (p.class? cls).bind ClassDef.parent with
      | none => simp [ancestor?, parent?, link]
      | some parent => simp [ancestor?, parent?, link, ih]

variable (acyclic : p.Acyclic)
include acyclic

/-- No class is passed twice. -/
lemma Acyclic.ancestor?_injective {links' : Nat} (reached : p.ancestor? links cls = some target)
    (reached' : p.ancestor? links' cls = some target) : links = links' := by
  -- the later one of two visits would lead from the class to itself
  have below {first second : Nat} (one : p.ancestor? first cls = some target)
      (two : p.ancestor? second cls = some target) : ¬first < second := by
    intro lt
    obtain ⟨rest, rfl⟩ : ∃ rest, second = first + (rest + 1) := ⟨second - first - 1, by omega⟩
    rw [ancestor?_add, one, Option.bind_some] at two
    exact acyclic target (transGen_of_ancestor? two)
  have := below reached reached'
  have := below reached' reached
  omega

/-- A way up has at most as many links as there are classes. -/
lemma Acyclic.le_size (reached : p.ancestor? links cls = some target) : links ≤ p.classes.size := by
  have passes (i : Fin links) : ∃ passed : Fin p.classes.size, p.ancestor? i cls = some passed := by
    obtain ⟨passed, lt, here⟩ := exists_lt_of_ancestor? reached i.isLt
    exact ⟨⟨passed, lt⟩, here⟩
  choose passed here using passes
  have injective : Function.Injective passed := by
    intro i j same
    exact Fin.ext (acyclic.ancestor?_injective (here i) (same ▸ here j))
  simpa using Fintype.card_le_of_injective passed injective

lemma Acyclic.getElem?_lineage (links cls : Nat) :
    (p.lineage p.classes.size cls)[links]? = p.ancestor? links cls := by
  rw [Program.getElem?_lineage]
  split
  · rfl
  · next cut =>
    cases reached : p.ancestor? links cls with
    | none => rfl
    | some target => exact absurd (acyclic.le_size reached) cut

lemma Acyclic.mem_lineage_iff : target ∈ p.lineage p.classes.size cls ↔ p.Descends cls target := by
  rw [List.mem_iff_getElem?, descends_iff]
  exact exists_congr fun links => by rw [acyclic.getElem?_lineage]

lemma Acyclic.isA_iff : p.isA cls target = true ↔ p.Descends cls target := by
  rw [isA, List.contains_iff_mem, acyclic.mem_lineage_iff]

end Program

/-! ### Methods of a name -/

/-- A class has a method of a name. -/
def ClassDef.Has (c : ClassDef) (name : String) : Prop := ∃ m ∈ c.methods, m.name = name

def ClassDef.First (c : ClassDef) (name : String) (m : Method) : Prop :=
  ∃ i : Nat, c.methods[i]? = some m ∧ m.name = name ∧ ∀ j < i, ∀ m', c.methods[j]? = some m' →
    m'.name ≠ name

lemma ClassDef.find?_eq_some_iff {m : Method} :
    c.methods.find? (fun m => m.name == name) = some m ↔ c.First name m := by
  rw [Array.find?_eq_some_iff_getElem]
  constructor
  · rintro ⟨named, i, lt, rfl, before⟩
    refine ⟨i, Array.getElem?_eq_getElem lt, by simpa using named, fun j earlier m' at_j => ?_⟩
    obtain ⟨-, rfl⟩ := Array.getElem?_eq_some_iff.1 at_j
    simpa using before j earlier
  · rintro ⟨i, at_i, named, before⟩
    obtain ⟨lt, rfl⟩ := Array.getElem?_eq_some_iff.1 at_i
    refine ⟨by simpa using named, i, lt, rfl, fun j earlier => ?_⟩
    simpa using before j earlier _ (Array.getElem?_eq_getElem (by omega))

lemma ClassDef.find?_eq_none_iff : c.methods.find? (fun m => m.name == name) = none ↔
    ¬c.Has name := by
  simp [Array.find?_eq_none, Has]

namespace Program

variable {p : Program} {cls : Nat} {name : String} {m : Method}

/-- The class of a number has a method of a name. -/
def Names (p : Program) (cls : Nat) (name : String) : Prop := ∃ c, p.class? cls = some c ∧
    c.Has name

/-- A method is the first of its name in the nearest ancestor that has one. -/
def Nearest (p : Program) (cls : Nat) (name : String) (m : Method) : Prop :=
  ∃ links ancestor c, p.ancestor? links cls = some ancestor ∧ p.class? ancestor = some c ∧
    c.First name m ∧
    ∀ fewer < links, ∀ nearer, p.ancestor? fewer cls = some nearer → ¬p.Names nearer name

/-- The first method of a name in a class. -/
def declared? (p : Program) (name : String) (cls : Nat) : Option Method :=
  (p.class? cls).bind fun c => c.methods.find? fun m => m.name == name

lemma findMethod?_eq_findSome? (p : Program) (cls : Nat) (name : String) :
    p.findMethod? cls name = (p.lineage p.classes.size cls).findSome? (p.declared? name) := rfl

lemma declared?_eq_some_iff : p.declared? name cls = some m ↔ ∃ c, p.class? cls = some c ∧
    c.First name m := by
  simp only [declared?, Option.bind_eq_some_iff, ClassDef.find?_eq_some_iff]

lemma declared?_eq_none_iff : p.declared? name cls = none ↔ ¬p.Names cls name := by
  simp only [declared?, Option.bind_eq_none_iff, ClassDef.find?_eq_none_iff, Names, not_exists,
    not_and]

lemma Acyclic.findMethod?_eq_some_iff (acyclic : p.Acyclic) :
    p.findMethod? cls name = some m ↔ p.Nearest cls name m := by
  rw [findMethod?_eq_findSome?, List.findSome?_eq_some_iff]
  constructor
  · rintro ⟨before, ancestor, after, walk, found, none⟩
    obtain ⟨c, isClass, first⟩ := declared?_eq_some_iff.1 found
    have reached : p.ancestor? before.length cls = some ancestor := by
      rw [← acyclic.getElem?_lineage, walk, List.getElem?_append_right (Nat.le_refl _),
        Nat.sub_self]
      rfl
    refine ⟨before.length, ancestor, c, reached, isClass, first, fun fewer lt nearer here => ?_⟩
    rw [← acyclic.getElem?_lineage, walk, List.getElem?_append_left lt] at here
    exact declared?_eq_none_iff.1 (none nearer (List.mem_of_getElem? here))
  · rintro ⟨links, ancestor, c, reached, isClass, first, none⟩
    rw [← acyclic.getElem?_lineage] at reached
    obtain ⟨lt, here⟩ := List.getElem?_eq_some_iff.1 reached
    have walk : p.lineage p.classes.size cls =
        (p.lineage p.classes.size cls).take links ++ ancestor :: (p.lineage p.classes.size cls).drop
          (links + 1) := by
      rw [← here, ← List.drop_eq_getElem_cons lt, List.take_append_drop]
    refine ⟨_, ancestor, _, walk, declared?_eq_some_iff.2 ⟨c, isClass, first⟩,
      fun nearer passed => ?_⟩
    obtain ⟨fewer, at_fewer⟩ := List.mem_iff_getElem?.1 passed
    rw [List.getElem?_take, acyclic.getElem?_lineage] at at_fewer
    split at at_fewer
    · next below => exact declared?_eq_none_iff.2 (none fewer below nearer at_fewer)
    · cases at_fewer

lemma Acyclic.findMethod?_eq_none_iff (acyclic : p.Acyclic) :
    p.findMethod? cls name = none ↔ ∀ ancestor, p.Descends cls ancestor →
    ¬p.Names ancestor name := by
  rw [findMethod?_eq_findSome?, List.findSome?_eq_none_iff]
  exact forall_congr' fun ancestor => by rw [acyclic.mem_lineage_iff, declared?_eq_none_iff]

/-! ### Methods in their places -/

/-- Every method carries the number of its place. -/
def Placed (p : Program) : Prop := ∀ cls index m, p.method? cls index = some m → m.id = ⟨cls, index⟩

/-- Programs are made of classes and methods that are given their places. -/
lemma placed_ofClasses (classes : List ClassDef) (entry : MethodId) :
    (ofClasses classes entry).Placed := by
  intro cls index m here
  obtain ⟨c, isClass, isMethod⟩ := Option.bind_eq_some_iff.1 here
  simp only [class?, ofClasses, Array.getElem?_mapIdx, Option.map_eq_some_iff] at isClass
  obtain ⟨c', -, rfl⟩ := isClass
  simp only [ClassDef.at, Array.getElem?_mapIdx, Option.map_eq_some_iff] at isMethod
  obtain ⟨m', -, rfl⟩ := isMethod
  rfl

/-- A method is found where its number says. -/
lemma Placed.method?_id (placed : p.Placed) (mem : m ∈ p.allMethods) :
    p.method? m.id.cls m.id.index = some m := by
  obtain ⟨c, isClass, isMethod⟩ := List.mem_flatMap.1 mem
  obtain ⟨cls, at_cls⟩ := List.mem_iff_getElem?.1 isClass
  obtain ⟨index, at_index⟩ := List.mem_iff_getElem?.1 isMethod
  rw [Array.getElem?_toList] at at_cls at_index
  have here : p.method? cls index = some m := by
    rw [method?, class?, at_cls]
    exact at_index
  rwa [placed cls index m here]

lemma Placed.eq_of_id_eq (placed : p.Placed) {m' : Method} (mem : m ∈ p.allMethods)
    (mem' : m' ∈ p.allMethods) (same : m.id = m'.id) : m = m' := by
  have here := placed.method?_id mem
  rw [same, placed.method?_id mem'] at here
  exact (Option.some.inj here).symm

end Program

/-! ### Virtual calls -/

/-- The bindings of methods of the program are what a search gives. -/
def Machine.Bound (m : Machine) : Prop :=
  ∀ dynamic, ∀ method ∈ m.program.allMethods, ∀ bound, m.bindings.lookup (dynamic, method.id) =
    some bound →
    bound = RuntimeCall.bindVirtual m.program method dynamic

/-- Nothing has been bound yet. -/
lemma Machine.bound_of_nil (none : m.bindings = []) : m.Bound := by
  intro dynamic method _ bound found
  rw [none] at found
  cases found

/-- A binding that is what a search gives is added. -/
lemma Machine.Bound.cons (bound : m.Bound) (placed : m.program.Placed) {method : Method}
    (mem : method ∈ m.program.allMethods) (dynamic : Nat) :
    Machine.Bound { m with
      bindings := ((dynamic, method.id), RuntimeCall.bindVirtual m.program method dynamic) ::
        m.bindings } := by
  intro dynamic' method' mem' result found
  dsimp only at mem' found ⊢
  rw [List.lookup_cons] at found
  by_cases key : (dynamic', method'.id) = (dynamic, method.id)
  · -- one key stands for one method, since the place of a method is its own
    obtain ⟨rfl, same⟩ := Prod.mk.inj key
    obtain rfl := placed.eq_of_id_eq mem' mem same
    simpa using found.symm
  · have other : ((dynamic', method'.id) == (dynamic, method.id)) = false := beq_false_of_ne key
    rw [other] at found
    exact bound dynamic' method' mem' result found

namespace RuntimeCall

open Exec

variable {p : Program} {h : Heap} {method : Method} {receiver : Word} {s : State}

/-- The method that a call means, without regard to the calls before. -/
def dispatch (p : Program) (h : Heap) (method : Method) (receiver : Word) : Method :=
  if method.isVirtual = true ∧ receiver ≠ 0 then
    match h.classOf? receiver with
    | some dynamic =>
      match p.findMethod? dynamic method.name with
      | some found => found
      | none => method
    | none => method
  else method

/-- A call that is bound to its own method. -/
lemma dispatch_of_none (none : h.classOf? receiver = none) :
    dispatch p h method receiver = method := by
  rw [dispatch, none]
  split <;> rfl

/-- A call that is bound by the class of its instance. -/
lemma dispatch_of_some {dynamic : Nat}
    (isVirtual : method.isVirtual = true) (isObject : h.classOf? receiver = some dynamic) :
    dispatch p h method receiver = bindVirtual p method dynamic := by
  have notNil : receiver ≠ 0 := by
    rintro rfl
    cases isObject
  rw [dispatch, if_pos ⟨isVirtual, notNil⟩, isObject, bindVirtual]
  dsimp only
  cases p.findMethod? dynamic method.name <;> rfl

/-- A call is bound to the method that it means, and what is kept for later calls is right again. -/
lemma exists_resolve (placed : s.machine.program.Placed) (bound : s.machine.Bound)
    (mem : method ∈ s.machine.program.allMethods) (receiver : Word) :
    ∃ bindings, resolve method receiver s =
          .ok (dispatch s.machine.program s.machine.heap method receiver)
          { s with machine := { s.machine with bindings } } ∧
      Machine.Bound { s.machine with bindings } := by
  unfold resolve
  by_cases isVirtual : method.isVirtual = true
  · rw [if_neg (not_not.2 isVirtual), asksHeap_bind]
    cases isObject : s.machine.heap.classOf? receiver with
    | none => exact ⟨s.machine.bindings, by rw [dispatch_of_none isObject]; rfl, bound⟩
    | some dynamic =>
      rw [dispatch_of_some isVirtual isObject]
      dsimp only
      rw [asksMachine_bind]
      cases found : s.machine.bindings.lookup (dynamic, method.id) with
      | some result =>
        obtain rfl := bound dynamic method mem result found
        exact ⟨s.machine.bindings, rfl, bound⟩
      | none => exact ⟨_, rfl, bound.cons placed mem dynamic⟩
  · rw [if_pos isVirtual]
    refine ⟨s.machine.bindings, ?_, bound⟩
    rw [dispatch, if_neg fun both => isVirtual both.1]
    rfl

/-- A call of a method on an instance, in the heap of its time. -/
structure VirtualCall where
  heap : Heap
  method : Method
  receiver : Word

/-- Binds calls in turn; the heap may have become any other before each of them. -/
def resolveEach : List VirtualCall → Exec (List Method)
  | [] => return []
  | call :: rest => do
    modifyHeap fun _ => call.heap
    let bound ← resolve call.method call.receiver
    return bound :: (← resolveEach rest)

lemma exists_resolveEach (placed : p.Placed) (calls : List VirtualCall)
    (program : s.machine.program = p) (bound : s.machine.Bound)
    (mem : ∀ call ∈ calls, call.method ∈ p.allMethods) :
    ∃ t, resolveEach calls s =
      .ok (calls.map fun call => dispatch p call.heap call.method call.receiver) t := by
  induction calls generalizing s with
  | nil => exact ⟨s, rfl⟩
  | cons call rest ih =>
    obtain ⟨first, later⟩ := List.forall_mem_cons.1 mem
    let before : State := { s with machine := { s.machine with heap := call.heap } }
    obtain ⟨bindings, resolved, bound'⟩ :=
      exists_resolve (s := before) (program ▸ placed) bound (program ▸ first) call.receiver
    let after : State := { before with machine := { before.machine with bindings } }
    obtain ⟨t, others⟩ := ih (s := after) program bound' later
    refine ⟨t, ?_⟩
    rw [resolveEach, modifyHeap_bind, bind_of_ok resolved, bind_of_ok others, ← program]
    rfl

end RuntimeCall

/-! ### Type tests -/

/-- An object is of a class, or of one of its descendants. -/
def Machine.IsInstance (m : Machine) (object : Word) (cls : Nat) : Prop :=
  ∃ own, m.heap.classOf? object = some own ∧ m.program.Descends own cls

namespace RuntimeCall

open Exec

variable {s : State} {object cls : Word} {rest : List Word}

lemma isInstance_iff {m : Machine} (acyclic : m.program.Acyclic) :
    isInstance m object cls = true ↔ m.IsInstance object (Word.toUnsigned cls) := by
  rw [isInstance, Option.any_eq_true]
  exact exists_congr fun own => and_congr_right fun _ => acyclic.isA_iff

/-- A type test leaves its answer in place of the object. -/
lemma exists_typeOf (cls : Word) (holds : s.context.stack.Holds (object :: rest)) :
    ∃ t, typeOf cls s = .ok () t ∧ t.machine = s.machine ∧
      t.context.stack.Holds (Word.ofBool (isInstance s.machine object cls) :: rest) := by
  have room : rest.length < s.context.stack.capacity := holds.length_le
  let below := s.withStack s.context.stack.dropUnchecked
  have run : typeOf cls s = push (Word.ofBool (isInstance s.machine object cls)) below := by
    rw [typeOf, bind_of_ok (pop_eq_ok holds), asksMachine_bind]
    rfl
  exact ⟨_, run.trans (push_eq_ok (s := below) holds.dropUnchecked room), rfl,
    holds.dropUnchecked.pushUnchecked room _⟩

lemma exists_cast (holds : s.context.stack.Holds (object :: rest))
    (fits : object = 0 ∨ isInstance s.machine object cls = true) :
    ∃ t, cast cls s = .ok () t ∧ t.machine = s.machine ∧
    t.context.stack.Holds (object :: rest) := by
  have room : rest.length < s.context.stack.capacity := holds.length_le
  let below := s.withStack s.context.stack.dropUnchecked
  have run : cast cls s = push object below := by
    rw [cast, bind_of_ok (pop_eq_ok holds), asksMachine_bind]
    exact congrFun (if_pos fits) below
  exact ⟨_, run.trans (push_eq_ok (s := below) holds.dropUnchecked room), rfl,
    holds.dropUnchecked.pushUnchecked room _⟩

/-- Why an object cannot be cast: the names of its class and of the class it is cast to. -/
def misfit (m : Machine) (object cls : Word) : Cause :=
  .invalidCast (className m.program (m.heap.classOf? object))
    (className m.program (some (Word.toUnsigned cls)))

lemma cast_eq_error (holds : s.context.stack.Holds (object :: rest))
    (other : ¬(object = 0 ∨ isInstance s.machine object cls = true)) :
    ∃ t, cast cls s = .error (.fault { cause := misfit s.machine object cls }) t ∧
    t.machine = s.machine := by
  refine ⟨s.withStack s.context.stack.dropUnchecked, ?_, rfl⟩
  rw [cast, bind_of_ok (pop_eq_ok holds), asksMachine_bind]
  exact congrFun (if_neg other) _

end RuntimeCall

/-! ### All together -/

/-- Descent, the search for methods, type tests and virtual calls go by the parent links of a
program. -/
structure Program.FollowsHierarchy (p : Program) : Prop where
  isA_iff : ∀ cls target, p.isA cls target = true ↔ p.Descends cls target
  found_iff : ∀ cls name m, p.findMethod? cls name = some m ↔ p.Nearest cls name m
  notFound_iff : ∀ cls name,
    p.findMethod? cls name = none ↔ ∀ ancestor, p.Descends cls ancestor → ¬p.Names ancestor name
  /-- A type test answers whether the object is an instance. -/
  typeOf : ∀ (s : State) (object cls : Word) (rest : List Word), s.machine.program = p →
    s.context.stack.Holds (object :: rest) → ∃ (answer : Bool) (t : State),
      (answer = true ↔ s.machine.IsInstance object (Word.toUnsigned cls)) ∧
        RuntimeCall.typeOf cls s = .ok () t ∧ t.machine = s.machine ∧
        t.context.stack.Holds (Word.ofBool answer :: rest)
  /-- Nil and instances pass a cast. -/
  cast : ∀ (s : State) (object cls : Word) (rest : List Word), s.machine.program = p →
    s.context.stack.Holds (object :: rest) → object = 0 ∨
    s.machine.IsInstance object (Word.toUnsigned cls) →
      ∃ t, RuntimeCall.cast cls s = .ok () t ∧ t.machine = s.machine ∧
      t.context.stack.Holds (object :: rest)
  /-- Nothing else passes a cast. -/
  noCast : ∀ (s : State) (object cls : Word) (rest : List Word), s.machine.program = p →
    s.context.stack.Holds (object :: rest) →
    ¬(object = 0 ∨ s.machine.IsInstance object (Word.toUnsigned cls)) →
      ∃ t, RuntimeCall.cast cls s =
        .error (.fault { cause := RuntimeCall.misfit s.machine object cls }) t ∧
        t.machine = s.machine
  /-- Calls in a row, in any heaps, are each bound as if they were the first. -/
  resolved : ∀ (s : State) (calls : List RuntimeCall.VirtualCall), s.machine.program = p →
    s.machine.bindings = [] →
    (∀ call ∈ calls, call.method ∈ p.allMethods) → ∃ t, RuntimeCall.resolveEach calls s =
        .ok (calls.map fun call => RuntimeCall.dispatch p call.heap call.method call.receiver) t

/-- **Virtual calls and casts follow the class hierarchy.**  This holds of every program whose
parent links do not come round; its methods carry the numbers of their places. -/
theorem Program.followsHierarchy_of_acyclic {p : Program} (placed : p.Placed)
    (acyclic : p.Acyclic) :
    p.FollowsHierarchy where
  isA_iff _ _ := acyclic.isA_iff
  found_iff _ _ _ := acyclic.findMethod?_eq_some_iff
  notFound_iff _ _ := acyclic.findMethod?_eq_none_iff
  typeOf s object cls rest program holds := by
    obtain ⟨t, run, machine, holds'⟩ := RuntimeCall.exists_typeOf cls holds
    exact ⟨_, t, RuntimeCall.isInstance_iff (program ▸ acyclic), run, machine, holds'⟩
  cast s object cls rest program holds fits :=
    RuntimeCall.exists_cast holds
      (fits.imp_right (RuntimeCall.isInstance_iff (program ▸ acyclic)).2)
  noCast s object cls rest program holds other :=
    RuntimeCall.cast_eq_error holds fun fits =>
      other (fits.imp_right (RuntimeCall.isInstance_iff (program ▸ acyclic)).1)
  resolved s calls program none mem :=
    RuntimeCall.exists_resolveEach placed calls program (Machine.bound_of_nil none) mem

/-- Links that lead to smaller numbers do not come round. -/
lemma Program.acyclic_of_lt {p : Program}
    (smaller : ∀ cls parent, p.Parent cls parent → parent < cls) : p.Acyclic := by
  have below {cls ancestor : Nat} (above : Relation.TransGen p.Parent cls ancestor) :
    ancestor < cls := by
    induction above with
    | single link => exact smaller _ _ link
    | tail _ link ih => exact Nat.lt_trans (smaller _ _ link) ih
  exact fun cls round => Nat.lt_irrefl cls (below round)

namespace Figures

/-- A virtual method without code. -/
def method (name : String) : Method := { name, isVirtual := true, code := #[] }

/-- Squares are shapes with an area of their own, and tiles are squares. -/
def program : Program := .ofClasses [
  { name := "Shape", methods := #[method "area", method "name"] },
  { name := "Square", parent := some 0, methods := #[method "area"] },
  { name := "Tile", parent := some 1 }]

def shapeArea : Method := (method "area").at 0 0

def shapeName : Method := (method "name").at 0 1

def squareArea : Method := (method "area").at 1 0

/-- A tile, in a heap of its own. -/
def tile : Word × Heap := (({} : Heap).allocObject 2 2).toOption.getD (0, {})

/-- A shape after it. -/
def shape : Word × Heap := (tile.2.allocObject 0 2).toOption.getD (0, {})

/-- A machine that has bound nothing yet. -/
def state : State where
  machine :=
    { program, settings := {}, heap := shape.2,
      statics := #[], records := #[], seed := 1, clock := 0 }
  context := { stack := .empty 1 }

/-- The area is asked of a tile, of a shape, of the tile again and of nil, and the name of the
tile. -/
def calls : List RuntimeCall.VirtualCall :=
  [⟨shape.2, shapeArea, tile.1⟩, ⟨shape.2, shapeArea, shape.1⟩, ⟨shape.2, shapeArea, tile.1⟩,
    ⟨shape.2, shapeArea, 0⟩, ⟨shape.2, shapeName, tile.1⟩]

end Figures

open Figures in
/-- The area of a tile is that of a square, also when the shape has been asked in between. -/
theorem Program.followsHierarchy_of_acyclic_figures : program.Placed ∧ program.Acyclic ∧
    program.FollowsHierarchy ∧
    ∃ t, RuntimeCall.resolveEach calls state =
      .ok [squareArea, shapeArea, squareArea, shapeArea, shapeName] t := by
  have placed : program.Placed := placed_ofClasses _ _
  have acyclic : program.Acyclic := by
    have smaller : ∀ cls < 3, ∀ parent ∈ program.parent? cls, parent < cls := by decide +kernel
    refine acyclic_of_lt fun cls parent link => ?_
    obtain ⟨c, isClass, -⟩ := Option.bind_eq_some_iff.1 link
    exact smaller cls (Array.getElem?_eq_some_iff.1 isClass).1 parent link
  have follows := followsHierarchy_of_acyclic placed acyclic
  obtain ⟨t, run⟩ := follows.resolved state calls rfl rfl (by decide +kernel)
  have answers : (calls.map fun call => RuntimeCall.dispatch program call.heap call.method
      call.receiver) = [squareArea, shapeArea, squareArea, shapeArea, shapeName] := by
    decide +kernel
  exact ⟨placed, acyclic, follows, t, answers ▸ run⟩

end StackMachine
