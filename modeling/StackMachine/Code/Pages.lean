import StackMachine.Numeral

/-!
# Code pages

Finished code is placed into slabs of whole pages.  A body takes whole pages of one slab and stays
where it is; a slab is added only when no slab has room.
-/

namespace StackMachine

/-- The bytes of a page, as the system has it. -/
structure PageSize where
  bytes : Nat
  pos : 0 < bytes
  deriving DecidableEq, Repr

namespace PageSize

def usual : PageSize := ⟨4096, Nat.succ_pos _⟩

variable (page : PageSize) (length : Nat)

/-- The bytes of the whole pages a body takes. -/
def span : Nat := (length + page.bytes - 1) / page.bytes * page.bytes

/-- A span is made of whole pages. -/
theorem dvd_span : page.bytes ∣ page.span length := Nat.dvd_mul_left ..

/-- A body fits its span. -/
theorem le_span : length ≤ page.span length := by
  have split := Nat.div_add_mod' (length + page.bytes - 1) page.bytes
  have rest := Nat.mod_lt (length + page.bytes - 1) page.pos
  unfold span
  omega

end PageSize

/-- Pages of a slab, unless one body needs more. -/
def slabPages : Nat := 16

/-- Code placed at an offset of a slab. -/
structure Placement where
  offset : Nat
  body : Array UInt8
  deriving DecidableEq, Repr

/-- A run of pages with the bodies placed in it, in order. -/
structure Slab where
  size : Nat
  used : Nat := 0
  placed : Array Placement := #[]
  deriving DecidableEq, Repr

/-- All slabs, in order of creation. -/
structure CodePages where
  slabs : Array Slab := #[]
  page : PageSize := .usual
  deriving DecidableEq, Repr

/-- Where a body was placed. -/
structure CodeAddress where
  slab : Nat
  offset : Nat
  deriving DecidableEq, Repr

/-- Why a body cannot be placed. -/
inductive PageError where
  | invalidSize (size : Nat)
  deriving DecidableEq, Repr

def PageError.message : PageError → String
  | .invalidSize size => "invalid memory size " ++ Numeral.signedDecimal size

namespace Slab

def hasRoom (s : Slab) (span : Nat) : Bool := decide (s.used + span ≤ s.size)

/-- Places a body at the first free page. -/
def place (s : Slab) (page : PageSize) (body : Array UInt8) : Slab :=
  { s with
    used := s.used + page.span body.size
    placed := s.placed.push ⟨s.used, body⟩ }

end Slab

namespace CodePages

/-- Adds a slab large enough for a span. -/
def grow (p : CodePages) (span : Nat) : CodePages :=
  { p with slabs := p.slabs.push { size := max span (slabPages * p.page.bytes) } }

def placeAt (p : CodePages) (slab : Nat) (body : Array UInt8) : CodePages :=
  { p with slabs := p.slabs.modify slab fun s => s.place p.page body }

/-- Places a body into the first slab with room, adding one if there is none. -/
def install (p : CodePages) (body : Array UInt8) : Except PageError (CodeAddress × CodePages) :=
  if body.isEmpty then .error (.invalidSize 0)
  else
    let span := p.page.span body.size
    let (slab, p) :=
      match p.slabs.findIdx? fun s => s.hasRoom span with
      | some slab => (slab, p)
      | none => (p.slabs.size, p.grow span)
    let offset := ((p.slabs[slab]?).map Slab.used).getD 0
    .ok (⟨slab, offset⟩, p.placeAt slab body)

/-- Bytes taken by bodies, the unused ends of their pages included. -/
def bytesUsed (p : CodePages) : Nat := p.slabs.foldl (fun sum s => sum + s.used) 0

end CodePages

end StackMachine
