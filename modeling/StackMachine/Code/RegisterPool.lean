/-!
# Register pools

Registers are lent from two free lists: the primary registers first, the auxiliary ones only when no
primary one is free.  A returned register goes back to the list it came from and is the next to be
lent from it.  When both lists are empty a fallback register is lent and the pool is marked as
failed, so that whatever is being generated with it is given up.
-/

namespace StackMachine

/-- A register on loan. -/
structure Lease (ρ : Type) where
  reg : ρ
  /-- Set when the pool was exhausted and the register is only a stand-in. -/
  isFallback : Bool := false
  deriving DecidableEq, Repr

/-- Free registers, the next to be lent first; the registers on loan; and all of them in order. -/
structure RegisterPool (ρ : Type) where
  primary : List ρ
  aux : List ρ
  primaryOrder : List ρ
  auxOrder : List ρ
  live : List ρ := []
  fallback : ρ
  failed : Bool := false
  deriving Repr

namespace RegisterPool

variable {ρ : Type}

/-- A pool with everything free. -/
def new (primary aux : List ρ) (fallback : ρ) : RegisterPool ρ :=
  { primary, aux, primaryOrder := primary, auxOrder := aux, fallback }

/-- Lends a register. -/
def acquire (p : RegisterPool ρ) : Lease ρ × RegisterPool ρ :=
  match p.primary, p.aux with
  | reg :: rest, _ => (⟨reg, false⟩, { p with primary := rest, live := p.live ++ [reg] })
  | [], reg :: rest => (⟨reg, false⟩, { p with aux := rest, live := p.live ++ [reg] })
  | [], [] => (⟨p.fallback, true⟩, { p with failed := true })

/-- A stand-in is lent exactly when nothing is free. -/
theorem isFallback_acquire (p : RegisterPool ρ) :
    p.acquire.1.isFallback = (p.primary.isEmpty && p.aux.isEmpty) := by
  unfold acquire
  split <;> simp_all

variable [DecidableEq ρ]

/-- Takes a register back. -/
def release (p : RegisterPool ρ) (lease : Lease ρ) : RegisterPool ρ :=
  if lease.isFallback then p
  else
    let p := { p with live := p.live.filter (· ≠ lease.reg) }
    if lease.reg ∈ p.primaryOrder then { p with primary := lease.reg :: p.primary }
    else if lease.reg ∈ p.auxOrder then { p with aux := lease.reg :: p.aux }
    else p

/-- Is a register on loan? -/
def isLive (p : RegisterPool ρ) (reg : ρ) : Bool := decide (reg ∈ p.live)

def liveInOrder (p : RegisterPool ρ) : List ρ := (p.primaryOrder ++ p.auxOrder).filter p.isLive

end RegisterPool

end StackMachine
