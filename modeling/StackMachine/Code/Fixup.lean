import StackMachine.Fault
import StackMachine.Code.Buffer

/-!
# Branch fixups

Code is emitted in one pass, so most branches are written before their target is known.  A branch is
recorded as a site with its target; when every target is bound to an offset, `FixupTable.resolve`
patches the sites in the order they were recorded and stops at the first that cannot be patched.
-/

namespace StackMachine

/-- The faults compiled code reports through its return value. -/
inductive FaultKind where
  | nil | under | over | divZero | stackOverflow
  deriving DecidableEq, Repr

namespace FaultKind

/-- Every fault, in the order of its stubs. -/
def all : List FaultKind := [.nil, .under, .over, .divZero, .stackOverflow]

/-- The number a fault's stub returns. -/
def status : FaultKind → Word
  | .nil => -1
  | .under => -2
  | .over => -3
  | .divZero => -4
  | .stackOverflow => -5

def name : FaultKind → String
  | .nil => "Nil"
  | .under => "Under"
  | .over => "Over"
  | .divZero => "DivZero"
  | .stackOverflow => "StackOverflow"

end FaultKind

/-- Where a branch goes. -/
inductive JumpTarget where
  /-- A bytecode instruction, always a label. -/
  | instruction (index : Nat)
  | fault (kind : FaultKind)
  /-- The stub that ends a method normally. -/
  | exit
  /-- The shared end of a method. -/
  | teardown
  deriving DecidableEq, Repr

/-- The written form of a target. -/
def JumpTarget.text : JumpTarget → String
  | .instruction index => "Instruction(" ++ Numeral.signedDecimal index ++ ")"
  | .fault kind => "Fault(" ++ kind.name ++ ")"
  | .exit => "Exit"
  | .teardown => "Teardown"

/-- How a displacement is encoded. -/
inductive SiteKind where
  /-- A 32-bit field, counted in bytes from its end. -/
  | rel32
  /-- The low 26 bits of an instruction, counted in instructions from it. -/
  | imm26
  /-- The 19 bits from bit 5 of an instruction, counted in instructions from it. -/
  | imm19
  deriving DecidableEq, Repr

/-- Every encoding. -/
def SiteKind.all : List SiteKind := [.rel32, .imm26, .imm19]

/-- A displacement that waits for its target.  Offsets are those of bytes in a code buffer, so they
and their differences are signed numbers of 64 bits. -/
structure BranchSite where
  offset : Nat
  kind : SiteKind
  deriving DecidableEq, Repr

/-- Why a branch cannot be patched. -/
inductive FixupError where
  | unbound (target : JumpTarget)
  | outOfRange (offset target : Nat)
  | badSite (offset : Nat)
  deriving DecidableEq, Repr

def hexText (n : Nat) : String := String.ofList ('0' :: 'x' :: Nat.toDigits 16 n)

def FixupError.message : FixupError → String
  | .unbound target => "branch target " ++ target.text ++ " was never bound"
  | .outOfRange offset target =>
    "branch at " ++ hexText offset ++ " cannot reach " ++ hexText target
  | .badSite offset => "branch site " ++ hexText offset ++ " lies outside the code"

/-- The branches recorded so far and the targets bound so far, both in order. -/
structure FixupTable where
  sites : Array (BranchSite × JumpTarget) := #[]
  bound : List (JumpTarget × Nat) := []
  deriving Repr

namespace FixupTable

/-- Records a branch. -/
def add (t : FixupTable) (site : BranchSite) (target : JumpTarget) : FixupTable :=
  { t with sites := t.sites.push (site, target) }

def offsetOf? (t : FixupTable) (target : JumpTarget) : Option Nat := t.bound.lookup target

/-- Binds a target to an offset; the first binding stays. -/
def bind (t : FixupTable) (target : JumpTarget) (offset : Nat) : FixupTable :=
  if (t.offsetOf? target).isSome then t else { t with bound := t.bound ++ [(target, offset)] }

/-- A bound target keeps its offset. -/
theorem offsetOf?_bind_of_bound {t : FixupTable} {target : JumpTarget} {offset : Nat}
    (h : t.offsetOf? target = some offset) (other : JumpTarget) (late : Nat) :
    (t.bind other late).offsetOf? target = some offset := by
  unfold bind
  split
  · exact h
  · simp only [offsetOf?, List.lookup_append] at h ⊢
    simp [h]

/-- The first binding of a target gives it its offset. -/
theorem offsetOf?_bind_self {t : FixupTable} {target : JumpTarget}
    (h : t.offsetOf? target = none) (offset : Nat) :
    (t.bind target offset).offsetOf? target = some offset := by
  simp only [bind, h, Option.isSome_none, Bool.false_eq_true, if_false]
  simp only [offsetOf?, List.lookup_append] at h ⊢
  simp [h]

end FixupTable

namespace BranchSite

/-- A branch displacement of 26 or 19 bits put into an instruction. -/
def placeField (kind : SiteKind) (inst field : UInt32) : UInt32 :=
  match kind with
  | .imm19 => (inst &&& ~~~((0x7FFFF : UInt32) <<< 5)) ||| (field <<< 5)
  | _ => (inst &&& ~~~(0x03FFFFFF : UInt32)) ||| field

/-- The width of an instruction-counted displacement. -/
def fieldBits : SiteKind → Nat
  | .imm19 => 19
  | _ => 26

def patch (site : BranchSite) (code : CodeBuffer) (dest : Nat) : Except FixupError CodeBuffer := do
  let patched? ←
    match site.kind with
    | .rel32 =>
      let disp : Int := dest - (site.offset + 4)
      if -(2 ^ 31) ≤ disp ∧ disp < 2 ^ 31 then
        pure (code.patch32? site.offset (UInt32.ofInt disp))
      else throw (.outOfRange site.offset dest)
    | kind =>
      let words : Int := ((dest : Int) - site.offset).tdiv 4
      let bound : Int := 2 ^ (fieldBits kind - 1)
      if -bound ≤ words ∧ words < bound then
        let field := UInt32.ofInt (words % 2 ^ fieldBits kind)
        match code.read32? site.offset with
        | some inst => pure (code.patch32? site.offset (placeField kind inst field))
        | none => throw (.badSite site.offset)
      else throw (.outOfRange site.offset dest)
  match patched? with
  | some code => return code
  | none => throw (.badSite site.offset)

end BranchSite

namespace FixupTable

/-- Patches sites in turn; the code keeps what was patched before a failure. -/
def resolveSites (t : FixupTable) :
    List (BranchSite × JumpTarget) → CodeBuffer → Except FixupError Unit × CodeBuffer
  | [], code => (.ok (), code)
  | (site, target) :: rest, code =>
    match t.offsetOf? target with
    | none => (.error (.unbound target), code)
    | some dest =>
      match site.patch code dest with
      | .ok code => t.resolveSites rest code
      | .error e => (.error e, code)

/-- Patches every recorded site. -/
def resolve (t : FixupTable) (code : CodeBuffer) : Except FixupError Unit × CodeBuffer :=
  t.resolveSites t.sites.toList code

end FixupTable

end StackMachine
